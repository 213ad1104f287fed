import Chip8.Proofs.PlayHistory

/-!
# How playing ends

Whatever is played, playing ends, and **what is told of the end agrees with how it came about**
(`Host.run_accounts_for_itself`). The exit, the log, the polls and the steps are four accounts of
one ending, and there are four kinds of it. The window is closed by the poll of the last turn,
which then takes no step. A step fails in the last turn, and its fault is what the log and the exit
name. The host fails to show what the last step has drawn, which only the exit tells. Or no turn is
taken at all, since the program was not read or loaded or the setting up failed; then there is
nothing to close the log, no poll, and no time has passed.

There is one way to end that is none of these, for it brings no account back: the width of the
window is a product that may be too large for its 32 bits, and a program that is checked is then
torn down (`Host.scale_tears_down`). That is the case exactly from a scale of `2 ^ 26` on.

A turn that brings no ending has a step that succeeds (`Turn.step?_of_more`). So the steps of a
play are read off its turns, one each, but for the poll that closes the window.
-/

set_option autoImplicit false

namespace Chip8

/-! ## The last turn -/

namespace Turn

theorem closes_iff (t : Turn) :
    t.events.any Event.closes = true ↔ t.ending? = some .windowClosed := by
  rw [← t.polled_closes]
  rcases t.cases with ⟨hclosed, -, hending⟩ | ⟨hopen, fault, -, -, hending⟩ |
    ⟨hopen, stage, -, -, -, hending⟩ | ⟨hopen, cycle, -, -, hending⟩
  · rw [hclosed, hending]
    exact iff_of_true rfl rfl
  all_goals
    rw [hopen, hending]
    exact iff_of_false Bool.false_ne_true (by simp)

theorem step?_of_more {t : Turn} (h : t.ending? = none) : ∃ cycle, t.step? = some (.ok cycle) := by
  obtain ⟨hopen, cycle, hr, -⟩ := of_more h
  refine ⟨cycle, ?_⟩
  rw [step?, hopen, hr]
  rfl

theorem step?_of_closed {t : Turn} (h : t.ending? = some .windowClosed) : t.step? = none := by
  rw [step?, (of_closed h).1]
  rfl

theorem step?_of_halted {t : Turn} {fault : Fault} (h : t.ending? = some (.halted fault)) :
    t.step? = some (.error fault) := by
  obtain ⟨hopen, hr, -⟩ := of_halted h
  rw [step?, hopen, hr]
  rfl

theorem step?_of_unshown {t : Turn} {stage : PictureStage}
    (h : t.ending? = some (.unshown stage)) : t.step? = some (.ok (.executed true)) := by
  obtain ⟨hopen, hr, -⟩ := of_unshown h
  rw [step?, hopen, hr]
  rfl

end Turn

/-! ## The steps of a play -/

/-- The results of turns that bring no ending: they all succeed. -/
theorem filterMap_step?_of_more {turns : List Turn} (h : ∀ t ∈ turns, t.ending? = none) :
    ∃ cycles : List Cycle, turns.filterMap Turn.step? = cycles.map .ok ∧
      cycles.length = turns.length := by
  induction turns with
  | nil => exact ⟨[], rfl, rfl⟩
  | cons t turns ih =>
    obtain ⟨ht, hturns⟩ := List.forall_mem_cons.mp h
    obtain ⟨cycle, hcycle⟩ := Turn.step?_of_more ht
    obtain ⟨cycles, hcycles, hlength⟩ := ih hturns
    refine ⟨cycle :: cycles, ?_, congrArg (· + 1) hlength⟩
    rw [List.filterMap_cons, hcycle, hcycles]
    rfl

namespace Player

variable (p : Player) (script : List (List Event))

/-- **The steps of a play** all succeed but for one that halts it. There is one to each turn, unless
the turn closes the window. -/
theorem resultsOf_eq_concat :
    ∃ cycles : List Cycle, (p.turnsOf script).length = cycles.length + 1 ∧
      p.resultsOf script = cycles.map .ok ++
        match (p.play script).2 with
        | .windowClosed => []
        | .halted fault => [.error fault]
        | .unshown _ => [.ok (.executed true)] := by
  obtain ⟨before, last, hturns, hbefore, hlast, -⟩ := p.turnsOf_eq_concat script
  obtain ⟨cycles, hcycles, hlength⟩ := filterMap_step?_of_more hbefore
  refine ⟨cycles, ?_, ?_⟩
  · rw [hturns, List.length_append, hlength]
    rfl
  · rw [resultsOf_eq, hturns, List.filterMap_append, hcycles, List.filterMap_cons]
    cases hending : (p.play script).2 with
    | windowClosed =>
      rw [hending] at hlast
      rw [Turn.step?_of_closed hlast]
      rfl
    | halted fault =>
      rw [hending] at hlast
      rw [Turn.step?_of_halted hlast]
      rfl
    | unshown stage =>
      rw [hending] at hlast
      rw [Turn.step?_of_unshown hlast]
      rfl

/-- The steps before the last turn succeed, however the play ends. -/
theorem resultsOf_before_last {i : Nat} (h : i + 1 < (p.turnsOf script).length) :
    ∃ cycle, (p.resultsOf script)[i]? = some (.ok cycle) := by
  obtain ⟨cycles, hlength, hresults⟩ := p.resultsOf_eq_concat script
  have hi : i < cycles.length := by
    rw [hlength] at h
    exact Nat.lt_of_succ_lt_succ h
  refine ⟨cycles[i], ?_⟩
  rw [hresults, List.getElem?_append_left (by rwa [List.length_map]), List.getElem?_map,
    List.getElem?_eq_getElem hi]
  rfl

theorem resultsOf_of_closed (h : (p.play script).2 = .windowClosed) :
    (p.resultsOf script).length + 1 = (p.turnsOf script).length ∧
      ∀ result ∈ p.resultsOf script, ∃ cycle, result = .ok cycle := by
  obtain ⟨cycles, hlength, hresults⟩ := p.resultsOf_eq_concat script
  rw [h, List.append_nil] at hresults
  rw [hresults, hlength, List.length_map]
  refine ⟨rfl, ?_⟩
  intro result hresult
  obtain ⟨cycle, -, rfl⟩ := List.mem_map.mp hresult
  exact ⟨cycle, rfl⟩

theorem resultsOf_of_halted {fault : Fault} (h : (p.play script).2 = .halted fault) :
    (p.resultsOf script).length = (p.turnsOf script).length ∧
      (p.resultsOf script)[(p.turnsOf script).length - 1]? = some (.error fault) := by
  obtain ⟨cycles, hlength, hresults⟩ := p.resultsOf_eq_concat script
  rw [h] at hresults
  rw [hresults, hlength, Nat.add_sub_cancel]
  refine ⟨?_, ?_⟩
  · rw [List.length_append, List.length_map]
    rfl
  · rw [List.getElem?_append_right (Nat.le_of_eq (List.length_map _)), List.length_map,
      Nat.sub_self]
    rfl

theorem resultsOf_of_unshown {stage : PictureStage} (h : (p.play script).2 = .unshown stage) :
    (p.resultsOf script).length = (p.turnsOf script).length ∧
      ∀ result ∈ p.resultsOf script, ∃ cycle, result = .ok cycle := by
  obtain ⟨cycles, hlength, hresults⟩ := p.resultsOf_eq_concat script
  rw [h] at hresults
  rw [hresults, hlength]
  refine ⟨?_, ?_⟩
  · rw [List.length_append, List.length_map]
    rfl
  · intro result hresult
    rcases List.mem_append.mp hresult with hmem | hmem
    · obtain ⟨cycle, -, rfl⟩ := List.mem_map.mp hmem
      exact ⟨cycle, rfl⟩
    · exact ⟨_, List.mem_singleton.mp hmem⟩

/-- If the window is closed, that is done by the poll of the last turn, and the last that is done
with the session is to pass on the keys of this poll. -/
theorem opsOf_of_closed (h : (p.play script).2 = .windowClosed) :
    ∃ before events, (script ++ [[.quit]])[(p.turnsOf script).length - 1]? = some events ∧
      events.any Event.closes = true ∧ p.opsOf script = before ++ keyOpsOf events := by
  obtain ⟨before, last, hturns, -, hlast, -⟩ := p.turnsOf_eq_concat script
  rw [h] at hlast
  have hplace : (p.turnsOf script)[(p.turnsOf script).length - 1]? = some last := by
    rw [← List.getLast?_eq_getElem?, hturns, List.getLast?_concat]
  refine ⟨before.flatMap Turn.ops, last.events, p.getElem?_of_turnsOf hplace,
    last.closes_iff.mpr hlast, ?_⟩
  rw [opsOf, hturns, List.flatMap_append, List.flatMap_singleton, Turn.ops, hlast]
  exact congrArg _ (List.append_nil _)

/-- The window is closed at the end of a play exactly if one of its polls closes it. -/
theorem closed_iff :
    (p.play script).2 = .windowClosed ↔ ∃ j < (p.turnsOf script).length, ∃ events,
      (script ++ [[.quit]])[j]? = some events ∧ events.any Event.closes = true := by
  constructor
  · intro hclosed
    obtain ⟨_, events, hpoll, hcloses, -⟩ := p.opsOf_of_closed script hclosed
    have hpos : 0 < (p.turnsOf script).length := by
      obtain ⟨before, last, hturns, -⟩ := p.turnsOf_eq_concat script
      rw [hturns, List.length_append]
      exact Nat.succ_pos _
    exact ⟨_, Nat.sub_lt hpos Nat.one_pos, events, hpoll, hcloses⟩
  · rintro ⟨j, hj, events, hpoll, hcloses⟩
    obtain ⟨t, ht⟩ : ∃ t, (p.turnsOf script)[j]? = some t := ⟨_, List.getElem?_eq_getElem hj⟩
    obtain rfl : events = t.events := Option.some.inj (hpoll.symm.trans (p.getElem?_of_turnsOf ht))
    have hending := t.closes_iff.mp hcloses
    obtain ⟨before, last, hturns, hbefore, hlast, -⟩ := p.turnsOf_eq_concat script
    rw [hturns] at ht
    rcases List.mem_append.mp (List.mem_of_getElem? ht) with hmem | hmem
    · rw [hbefore t hmem] at hending
      cases hending
    · rw [List.mem_singleton.mp hmem, hlast] at hending
      exact Option.some.inj hending

end Player

/-! ## The accounts of an ending -/

/-- The exit, the log and the counters of a report agree with one another, and with what was read,
what the script delivered, and what came of the steps. -/
structure Report.Accounts (r : Report) (host : Host) (options : Options)
    (rom : Except FileError (List UInt8)) : Prop where
  /-- If there is a poll at all, the report is that of a play; and what is said below of its steps
  is said of those by which the session comes to what it is at the end. -/
  played : r.polls ≠ 0 → ∃ program, rom = .ok program ∧
    let first := host.firstPlayer options program
    let played := first.play host.script
    r = .ofPlayer (.ofScale options.scale) played.1 played.2 ∧
      played.1.session = first.session.runOps (first.opsOf host.script)
  /-- Of the polls there is one to each in the script, and at most one more, which quits. -/
  polls_le : r.polls ≤ host.script.length + 1
  log_eq_nil : r.log = [] ↔
    (∃ error, rom = .error error) ∨ ∃ program, rom = .ok program ∧ 3584 < program.length
  log_eq_cons : r.log ≠ [] → ∃ program, rom = .ok program ∧
    r.log = .romLoaded options.rom program.length :: r.log[1]?.toList
  closing : ∀ entry, r.log[1]? = some entry →
    entry = .windowClosed ∨ ∃ fault, entry = .halting fault
  closed_iff : r.log[1]? = some .windowClosed ↔ r.exit = .ok ()
  /-- The exit is good exactly if a poll closes the window, all steps before it having succeeded. -/
  exit_ok_iff : r.exit = .ok () ↔ ∃ program, rom = .ok program ∧
    ∃ j < r.polls, ∃ events, (host.script ++ [[.quit]])[j]? = some events ∧
      events.any Event.closes = true ∧
      ∀ i < j, ∃ cycle,
        ((host.firstPlayer options program).resultsOf host.script)[i]? = some (.ok cycle)
  /-- And then there is a step to every poll but the last, which ends the play. -/
  steps_of_ok : r.exit = .ok () → ∀ program, rom = .ok program →
    let first := host.firstPlayer options program
    (first.resultsOf host.script).length + 1 = r.polls ∧
      (∀ result ∈ first.resultsOf host.script, ∃ cycle, result = .ok cycle) ∧
      ∃ before events, (host.script ++ [[.quit]])[r.polls - 1]? = some events ∧
        events.any Event.closes = true ∧ first.opsOf host.script = before ++ keyOpsOf events ∧
        .step ∉ keyOpsOf events
  halting_iff : ∀ fault, r.log[1]? = some (.halting fault) ↔ r.exit = .error (.halted fault)
  /-- The fault of which exit and log tell is that of the last step, one step to every poll. -/
  steps_of_halted : ∀ fault, r.exit = .error (.halted fault) → ∀ program, rom = .ok program →
    let results := (host.firstPlayer options program).resultsOf host.script
    results.length = r.polls ∧ results[r.polls - 1]? = some (.error fault) ∧
      ∀ i < r.polls - 1, ∃ cycle, results[i]? = some (.ok cycle)
  /-- Where nothing closes the log, no turn has been taken, or else a picture has not been shown. -/
  of_open : r.log[1]? = none → (∀ stage, r.exit ≠ .error (.unshown stage)) →
    r.polls = 0 ∧ r.time = 0 ∧ ∃ failure, r.exit = .error failure ∧
      ((∃ error, rom = .error error ∧ failure = .unreadable options.rom error) ∨
        (∃ program, rom = .ok program ∧ 3584 < program.length ∧
          failure = .unloadable (.programTooLarge program.length 3584)) ∨
        host.FailsAtSetUp options failure)
  /-- And then it is the next picture at which the host fails, with a good step to every poll. -/
  of_unshown : ∀ stage, r.exit = .error (.unshown stage) →
    host.unshown r.pictures.length = some stage ∧ r.log[1]? = none ∧
      ∀ program, rom = .ok program →
        let results := (host.firstPlayer options program).resultsOf host.script
        results.length = r.polls ∧ ∀ result ∈ results, ∃ cycle, result = .ok cycle

namespace Ending

variable {ending : Ending} {fault : Fault} {stage : PictureStage}

theorem result_eq_ok : ending.result = .ok () ↔ ending = .windowClosed := by
  cases ending with
  | windowClosed | halted _ | unshown _ => simp [result]

theorem result_eq_halted : ending.result = .error (.halted fault) ↔ ending = .halted fault := by
  cases ending with
  | windowClosed | halted _ | unshown _ => simp [result]

theorem result_eq_unshown : ending.result = .error (.unshown stage) ↔ ending = .unshown stage := by
  cases ending with
  | windowClosed | halted _ | unshown _ => simp [result]

theorem notice?_eq_windowClosed : ending.notice? = some .windowClosed ↔ ending = .windowClosed := by
  cases ending with
  | windowClosed | halted _ | unshown _ => simp [notice?]

theorem notice?_eq_halting : ending.notice? = some (.halting fault) ↔ ending = .halted fault := by
  cases ending with
  | windowClosed | halted _ | unshown _ => simp [notice?]

theorem notice?_eq_none : ending.notice? = none ↔ ∃ stage, ending = .unshown stage := by
  cases ending with
  | windowClosed | halted _ | unshown _ => simp [notice?]

theorem closing_of_notice? {entry : LogEntry} (h : ending.notice? = some entry) :
    entry = .windowClosed ∨ ∃ fault, entry = .halting fault := by
  cases ending with
  | windowClosed => exact Or.inl (Option.some.inj h).symm
  | halted fault => exact Or.inr ⟨fault, (Option.some.inj h).symm⟩
  | unshown _ => cases h

end Ending

namespace Report.Accounts

variable {host : Host} {options : Options} {rom : Except FileError (List UInt8)}

theorem not_refused {program : List UInt8} (hrom : rom = .ok program)
    (hsize : program.length ≤ 3584) :
    ¬ ((∃ error, rom = .error error) ∨ ∃ program, rom = .ok program ∧ 3584 < program.length) := by
  rintro (⟨error, herror⟩ | ⟨other, hother, hlarge⟩)
  · rw [hrom] at herror
    cases herror
  · rw [hrom] at hother
    cases hother
    exact Nat.not_lt_of_le hsize hlarge

/-- A report from before the first turn. -/
theorem of_early {failure : Failure} {log : List LogEntry} {window : Option Window}
    {pictures : List Picture} (hopen : log[1]? = none)
    (hnil : log = [] ↔
      (∃ error, rom = .error error) ∨ ∃ program, rom = .ok program ∧ 3584 < program.length)
    (hcons : log ≠ [] → ∃ program, rom = .ok program ∧
      log = .romLoaded options.rom program.length :: log[1]?.toList)
    (hwhy : (∃ error, rom = .error error ∧ failure = .unreadable options.rom error) ∨
      (∃ program, rom = .ok program ∧ 3584 < program.length ∧
        failure = .unloadable (.programTooLarge program.length 3584)) ∨
      host.FailsAtSetUp options failure) :
    (Report.early failure log window pictures).Accounts host options rom := by
  have hlog : (Report.early failure log window pictures).log[1]? = none := hopen
  have hexit : (∀ fault, failure ≠ .halted fault) ∧ ∀ stage, failure ≠ .unshown stage := by
    rcases hwhy with ⟨error, -, rfl⟩ | ⟨program, -, -, rfl⟩ | ⟨stage, -, rfl⟩ | ⟨-, rfl⟩ | ⟨-, rfl⟩
    all_goals exact ⟨nofun, nofun⟩
  exact {
    played := fun hpolls => absurd rfl hpolls
    polls_le := Nat.zero_le _
    log_eq_nil := hnil
    log_eq_cons := hcons
    closing := by
      intro entry hentry
      rw [hlog] at hentry
      cases hentry
    closed_iff := by
      rw [hlog]
      exact iff_of_false (by simp) (by simp [Report.early])
    exit_ok_iff := by
      refine iff_of_false (by simp [Report.early]) ?_
      rintro ⟨program, -, j, hj, -⟩
      exact absurd hj (Nat.not_lt_zero j)
    steps_of_ok := by
      intro hok
      cases hok
    halting_iff := by
      intro fault
      rw [hlog]
      refine iff_of_false (by simp) ?_
      intro herror
      exact hexit.1 fault (Except.error.inj herror)
    steps_of_halted := by
      intro fault herror
      exact absurd (Except.error.inj herror) (hexit.1 fault)
    of_open := fun _ _ => ⟨rfl, rfl, failure, rfl, hwhy⟩
    of_unshown := by
      intro stage herror
      exact absurd (Except.error.inj herror) (hexit.2 stage) }

/-- The report of a play. -/
theorem of_played {program : List UInt8} (hrom : rom = .ok program)
    (hsize : program.length ≤ 3584) :
    let played := (host.firstPlayer options program).play host.script
    (Report.ofPlayer (.ofScale options.scale) played.1 played.2).Accounts host options rom := by
  intro played
  let first := host.firstPlayer options program
  have hsecond : (Report.ofPlayer (.ofScale options.scale) played.1 played.2).log[1]? =
      played.2.notice? := by
    rw [host.log_play]
    cases played.2 with
    | windowClosed | halted _ | unshown _ => rfl
  have hpolls : played.1.polls = (first.turnsOf host.script).length := by
    obtain ⟨-, -, hpolls, -⟩ := Player.times_play (Player.onSchedule_begin _ _ _) host.script
    exact hpolls
  have hbefore : ∀ i, i + 1 < played.1.polls → ∃ cycle,
      (first.resultsOf host.script)[i]? = some (.ok cycle) := by
    rw [hpolls]
    exact fun i hi => first.resultsOf_before_last host.script hi
  exact {
    played := fun _ => ⟨program, hrom, rfl, first.session_play host.script⟩
    polls_le := by
      have hprefix := (first.events_turnsOf host.script).length_le
      rw [List.length_map, List.length_append] at hprefix
      show played.1.polls ≤ _
      rw [hpolls]
      exact hprefix
    log_eq_nil := by
      rw [host.log_play]
      exact iff_of_false (List.cons_ne_nil _ _) (not_refused hrom hsize)
    log_eq_cons := by
      intro _
      refine ⟨program, hrom, ?_⟩
      rw [hsecond, host.log_play]
    closing := by
      intro entry hentry
      rw [hsecond] at hentry
      exact Ending.closing_of_notice? hentry
    closed_iff := by
      rw [hsecond, Ending.notice?_eq_windowClosed]
      exact Ending.result_eq_ok.symm
    exit_ok_iff := by
      refine Ending.result_eq_ok.trans ((first.closed_iff host.script).trans ⟨?_, ?_⟩)
      · rintro ⟨j, hj, events, hpoll, hcloses⟩
        refine ⟨program, hrom, j, Nat.lt_of_lt_of_eq hj hpolls.symm, events, hpoll, hcloses, ?_⟩
        intro i hi
        exact hbefore i (by omega)
      · rintro ⟨other, -, j, hj, events, hpoll, hcloses, -⟩
        exact ⟨j, Nat.lt_of_lt_of_eq hj hpolls, events, hpoll, hcloses⟩
    steps_of_ok := by
      intro hexit other hother
      rw [hrom] at hother
      cases hother
      have hclosed : played.2 = .windowClosed := Ending.result_eq_ok.mp hexit
      obtain ⟨hlength, hok⟩ := first.resultsOf_of_closed host.script hclosed
      obtain ⟨before, events, hpoll, hcloses, hops⟩ := first.opsOf_of_closed host.script hclosed
      refine ⟨hlength.trans hpolls.symm, hok, before, events, ?_, hcloses, hops, ?_⟩
      · show (host.script ++ [[.quit]])[played.1.polls - 1]? = some events
        rw [hpolls, hpoll]
      · intro hstep
        cases quiet_of_keyOpsOf events .step hstep
    halting_iff := by
      intro fault
      rw [hsecond, Ending.notice?_eq_halting]
      exact Ending.result_eq_halted.symm
    steps_of_halted := by
      intro fault hexit other hother
      rw [hrom] at hother
      cases hother
      have hhalted : played.2 = .halted fault := Ending.result_eq_halted.mp hexit
      obtain ⟨hlength, hlast⟩ := first.resultsOf_of_halted host.script hhalted
      refine ⟨hlength.trans hpolls.symm, ?_, ?_⟩
      · show (first.resultsOf host.script)[played.1.polls - 1]? = some (.error fault)
        rw [hpolls, hlast]
      · intro i (hi : i < played.1.polls - 1)
        exact hbefore i (Nat.add_lt_of_lt_sub hi)
    of_open := by
      intro hopen hshown
      rw [hsecond] at hopen
      obtain ⟨stage, hunshown⟩ := Ending.notice?_eq_none.mp hopen
      exact absurd (Ending.result_eq_unshown.mpr hunshown) (hshown stage)
    of_unshown := by
      intro stage hexit
      have hunshown : played.2 = .unshown stage := Ending.result_eq_unshown.mp hexit
      refine ⟨?_, ?_, ?_⟩
      · show host.unshown played.1.pictures.reverse.length = some stage
        rw [List.length_reverse]
        exact Player.unshown_of_play hunshown
      · rw [hsecond, hunshown]
        rfl
      · intro other hother
        rw [hrom] at hother
        cases hother
        obtain ⟨hlength, hok⟩ := first.resultsOf_of_unshown host.script hunshown
        exact ⟨hlength.trans hpolls.symm, hok⟩ }

/-- Whoever gives an account has not been torn down. -/
theorem exit_ne_overflow {r : Report} (h : r.Accounts host options rom) :
    r.exit ≠ .error .overflow := by
  intro hexit
  cases hlog : r.log[1]? with
  | some entry =>
    rcases h.closing entry hlog with rfl | ⟨fault, rfl⟩
    · cases hexit.symm.trans (h.closed_iff.mp hlog)
    · cases hexit.symm.trans ((h.halting_iff fault).mp hlog)
  | none =>
    have hshown : ∀ stage, r.exit ≠ .error (.unshown stage) := by
      intro stage hunshown
      cases hexit.symm.trans hunshown
    obtain ⟨-, -, failure, hfailure, hwhy⟩ := h.of_open hlog hshown
    obtain rfl : failure = .overflow := Except.error.inj (hfailure.symm.trans hexit)
    rcases hwhy with ⟨error, -, hwhy⟩ | ⟨program, -, -, hwhy⟩ | ⟨stage, -, hwhy⟩ | ⟨-, hwhy⟩ |
      ⟨-, hwhy⟩
    all_goals cases hwhy

end Report.Accounts

namespace Host

/-- **What a play tells of its end is so**, whatever it is a play of, unless it is torn down. -/
theorem play_accounts (host : Host) (options : Options) (rom : Except FileError (List UInt8)) :
    (host.Overflows options ∧ ∃ program, rom = .ok program ∧ program.length ≤ 3584 ∧
      host.play options rom =
        .early .overflow [.romLoaded options.rom program.length] none []) ∨
    ¬ (host.Overflows options ∧ ∃ program, rom = .ok program ∧ program.length ≤ 3584) ∧
      (host.play options rom).Accounts host options rom := by
  rcases host.play_cases options rom with ⟨error, hrom, hreport⟩ | ⟨program, hrom, hsize, hreport⟩ |
    ⟨program, hrom, hsize, hover, hreport⟩ |
    ⟨program, hrom, hsize, hstands, failure, window, pictures, hfails, hreport⟩ |
    ⟨program, hrom, hsize, hstands, -, hreport⟩
  · refine Or.inr ⟨?_, ?_⟩
    · rintro ⟨-, program, hprogram, -⟩
      cases hrom.symm.trans hprogram
    · rw [hreport]
      exact .of_early rfl (iff_of_true rfl (Or.inl ⟨error, hrom⟩)) (fun h => absurd rfl h)
        (Or.inl ⟨error, hrom, rfl⟩)
  · have hlarge : 3584 < program.length := Nat.lt_of_not_le hsize
    refine Or.inr ⟨?_, ?_⟩
    · rintro ⟨-, other, hother, hsmall⟩
      cases hrom.symm.trans hother
      exact hsize hsmall
    · rw [hreport]
      exact .of_early rfl (iff_of_true rfl (Or.inr ⟨program, hrom, hlarge⟩)) (fun h => absurd rfl h)
        (Or.inr (Or.inl ⟨program, hrom, hlarge, rfl⟩))
  · exact Or.inl ⟨hover, program, hrom, hsize, hreport⟩
  · refine Or.inr ⟨fun h => hstands h.1, ?_⟩
    rw [hreport]
    exact .of_early rfl
      (iff_of_false (List.cons_ne_nil _ _) (Report.Accounts.not_refused hrom hsize))
      (fun _ => ⟨program, hrom, rfl⟩) (Or.inr (Or.inr hfails))
  · refine Or.inr ⟨fun h => hstands h.1, ?_⟩
    rw [hreport]
    exact .of_played hrom hsize

/-- **Every play that is not torn down comes to an end that it accounts for.** With any command line
that is understood, any files, any failing stage and any script, playing ends with a report whose
exit, log, polls, time and steps agree; and what the user reads of a halt is the same fault in the
log and at the exit. The exception is a program that is checked, at a scale of which the width of
the window does not fit into 32 bits: if it has read and loaded its ROM and comes to the window, it
is torn down there, with nothing behind it but the word of the loading. -/
theorem run_accounts_for_itself (host : Host) (directory : Directory) (args : List String)
    (report : Report) (h : host.run directory args = .ok report) :
    ∃ options, Options.ofArgs args = .ok options ∧
      let rom := directory.read options.rom
      (report.exit = .error .overflow ↔
        host.Overflows options ∧ ∃ program, rom = .ok program ∧ program.length ≤ 3584) ∧
      (report.exit = .error .overflow → ∃ program, rom = .ok program ∧
        report = .early .overflow [.romLoaded options.rom program.length] none []) ∧
      (report.exit ≠ .error .overflow →
        report.Accounts host options rom ∧
        (report.exit = .ok () → report.log[1]?.map LogEntry.line = some "INFO window closed") ∧
        ∀ fault, report.exit = .error (.halted fault) →
          report.log[1]?.map LogEntry.line = some ("WARN halting: " ++ fault.message) ∧
          (Failure.halted fault).messages = ["emulation halted", fault.message]) := by
  unfold run at h
  cases hargs : Options.ofArgs args with
  | error refusal =>
    rw [hargs] at h
    cases h
  | ok options =>
    rw [hargs] at h
    obtain rfl : host.play options (directory.read options.rom) = report := Except.ok.inj h
    refine ⟨options, rfl, ?_⟩
    intro rom
    rcases host.play_accounts options rom with
      ⟨hover, program, hrom, hsize, hreport⟩ | ⟨hstands, haccounts⟩
    · rw [show host.play options (directory.read options.rom) = _ from hreport]
      exact ⟨iff_of_true rfl ⟨hover, program, hrom, hsize⟩, fun _ => ⟨program, hrom, rfl⟩,
        fun hexit => absurd rfl hexit⟩
    · refine ⟨iff_of_false haccounts.exit_ne_overflow hstands,
        fun hexit => absurd hexit haccounts.exit_ne_overflow,
        fun _ => ⟨haccounts, fun hexit => ?_, fun fault hexit => ⟨?_, rfl⟩⟩⟩
      · rw [haccounts.closed_iff.mpr hexit]
        rfl
      · rw [(haccounts.halting_iff fault).mpr hexit]
        show some ("WARN" ++ " " ++ ("halting: " ++ fault.message)) = _
        rw [← String.append_assoc]
        rfl

theorem run_of_ofArgs (host : Host) {directory : Directory} {args : List String}
    {options : Options} {rom : Except FileError (List UInt8)}
    (hargs : Options.ofArgs args = .ok options) (hread : directory.read options.rom = rom) :
    host.run directory args = .ok (host.play options rom) := by
  rw [run, hargs, ← hread]

/-- A path that is a single short name. The recursion that parts a path does not compute, so it is
unfolded here. -/
theorem splitOn_a : "a".splitOn "/" = ["a"] := by
  unfold String.splitOn
  rw [if_neg (by decide)]
  unfold String.splitOnAux
  rw [if_neg (by decide), if_neg (by decide)]
  unfold String.splitOnAux
  rw [if_pos (by decide)]
  rfl

/-- The second poll brings a key, and then the program returns without having been called. -/
theorem run_halts_in_second_turn :
    let host : Host := .reliable [[], [.keyDown ⟨"Q"⟩], [.quit]] (Vector.replicate 8 0)
    let directory : Directory := ⟨[("a", [0x00, 0xE0, 0x00, 0xEE])]⟩
    let options : Options := ⟨"a", 10, some 3⟩
    let first := host.firstPlayer options [0x00, 0xE0, 0x00, 0xEE]
    ∃ report, host.run directory ["--seed", "3", "a"] = .ok report ∧
      report.exit = .error (.halted (.stackUnderflow 0x202)) ∧ report.polls = 2 ∧
      report.log[1]? = some (.halting (.stackUnderflow 0x202)) ∧
      (first.resultsOf host.script)[1]? = some (.error (.stackUnderflow 0x202)) ∧
      (first.resultsOf host.script).length = 2 := by
  have hargs : Options.ofArgs ["--seed", "3", "a"] = .ok ⟨"a", 10, some 3⟩ := by decide +kernel
  have hread : Directory.read ⟨[("a", [0x00, 0xE0, 0x00, 0xEE])]⟩ "a" =
      .ok [0x00, 0xE0, 0x00, 0xEE] := by
    rw [Directory.read, splitOn_a]
    decide +kernel
  have hreport : let report := Host.play (.reliable [[], [.keyDown ⟨"Q"⟩], [.quit]]
        (Vector.replicate 8 0)) ⟨"a", 10, some 3⟩ (.ok [0x00, 0xE0, 0x00, 0xEE])
      report.exit = .error (.halted (.stackUnderflow 0x202)) ∧ report.polls = 2 := by
    decide +kernel
  intro host directory options first
  have hrun : host.run directory _ = .ok (host.play options _) := host.run_of_ofArgs hargs hread
  obtain ⟨hexit, hpolls⟩ := hreport
  obtain ⟨_, hoptions, -, -, hreturned⟩ := run_accounts_for_itself _ _ _ _ hrun
  obtain rfl := Except.ok.inj (hargs.symm.trans hoptions)
  have hstands : (host.play options (.ok [0x00, 0xE0, 0x00, 0xEE])).exit ≠ .error .overflow := by
    rw [hexit]
    exact nofun
  obtain ⟨haccounts, -, -⟩ := hreturned hstands
  obtain ⟨hlength, hlast, -⟩ := haccounts.steps_of_halted _ hexit _ hread
  rw [hpolls] at hlength hlast
  exact ⟨_, hrun, hexit, hpolls, (haccounts.halting_iff _).mpr hexit, hlast, hlength⟩

/-- **A scale can tear the program down.** The window is to be `2 ^ 32` wide, and nothing comes
back: the log ends with the word of the loading, and no failure of the setting up is told. -/
theorem scale_tears_down :
    let host : Host := .reliable [[]] (Vector.replicate 8 0)
    let directory : Directory := ⟨[("a", [0x00, 0xE0, 0x12, 0x02])]⟩
    ∃ report, host.run directory ["--scale", "67108864", "a"] = .ok report ∧
      report.exit = .error .overflow ∧ report.log = [.romLoaded "a" 4] ∧
      report.window = none ∧ report.polls = 0 := by
  have hargs : Options.ofArgs ["--scale", "67108864", "a"] = .ok ⟨"a", 67108864, none⟩ := by
    decide +kernel
  have hread : Directory.read ⟨[("a", [0x00, 0xE0, 0x12, 0x02])]⟩ "a" =
      .ok [0x00, 0xE0, 0x12, 0x02] := by
    rw [Directory.read, splitOn_a]
    decide +kernel
  exact ⟨_, run_of_ofArgs _ hargs hread, by decide +kernel⟩

end Host

end Chip8
