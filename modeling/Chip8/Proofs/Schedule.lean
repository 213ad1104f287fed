import Chip8.Proofs.Turns
import Mathlib.Logic.Function.Iterate

/-!
# The schedule of a play

A player has two marks to tell the time by, and is late in two ways. A turn that comes late is
over at once, and the next one begins anew from there; the timers, however late, make up for every
period that has gone by. **Both are exact** (`Host.play_keeps_time`): a turn takes the time of a
cycle, or as long as its poll has lagged if that is more, and once the timers have caught up they
have ticked as often as their period fits into all the time since the start.

This is arithmetic on five numbers, the `Times` of a player. Nothing that a session does, whatever
it runs, has to do with them, so each part of a turn is an equation between times; the invariant
that they carry from turn to turn is `Times.OnSchedule`.
-/

set_option autoImplicit false

namespace Chip8

/-! ## Lags -/

/-- The time that passes at an event. -/
def Event.nanos : Event → Nat
  | lag nanos => nanos
  | _ => 0

/-- The lag of a poll: the time that passes in it before an event closes the window. -/
def lagOf (events : List Event) : Nat :=
  (events.takeWhile fun event => !event.closes).foldr (fun event rest => event.nanos + rest) 0

theorem lagOf_of_closes {event : Event} (h : event.closes = true) (rest : List Event) :
    lagOf (event :: rest) = 0 := by
  rw [lagOf, List.takeWhile_cons, h]
  rfl

theorem lagOf_cons {event : Event} (h : event.closes = false) (rest : List Event) :
    lagOf (event :: rest) = event.nanos + lagOf rest := by
  rw [lagOf, List.takeWhile_cons, h]
  rfl

/-! ## Times -/

/-- The numbers by which a player tells the time. -/
structure Times where
  clock : Nat
  lastCycle : Nat
  lastTick : Nat
  ticks : Nat
  polls : Nat

namespace Player

/-- The times of a player. -/
def times (p : Player) : Times := ⟨p.clock, p.lastCycle, p.lastTick, p.ticks, p.polls⟩

theorem times_passKey (p : Player) (key : KeyboardKey) (down : Bool) :
    (p.passKey key down).times = p.times := by
  unfold passKey
  split
  · rfl
  · rfl

theorem times_take (p : Player) (event : Event) :
    (p.take event).times = { p.times with clock := p.times.clock + event.nanos } := by
  cases event with
  | keyDown key => exact p.times_passKey key true
  | keyUp key => exact p.times_passKey key false
  | quit | other | lag _ => rfl

theorem times_deliver (p : Player) (events : List Event) :
    (p.deliver events).1.times = { p.times with clock := p.times.clock + lagOf events } := by
  induction events generalizing p with
  | nil => rfl
  | cons event rest ih =>
    cases hcloses : event.closes with
    | true =>
      rw [p.deliver_of_closes rest hcloses, lagOf_of_closes hcloses]
      rfl
    | false => rw [p.deliver_cons rest hcloses, ih, times_take, lagOf_cons hcloses, Nat.add_assoc]

/-! ## Catching up -/

theorem times_iterate_tickOnce (p : Player) (n : Nat) :
    (tickOnce^[n] p).times =
      { p.times with
        lastTick := p.times.lastTick + n * tickPeriod, ticks := p.times.ticks + n } := by
  induction n with
  | zero => simp
  | succ n ih =>
    rw [Function.iterate_succ_apply']
    have hlast : p.times.lastTick + n * tickPeriod + tickPeriod =
        p.times.lastTick + (n + 1) * tickPeriod := by
      rw [Nat.succ_mul, Nat.add_assoc]
    show { (tickOnce^[n] p).times with
      lastTick := (tickOnce^[n] p).times.lastTick + tickPeriod
      ticks := (tickOnce^[n] p).times.ticks + 1 } = _
    rw [ih, ← hlast]
    rfl

theorem session_iterate_tickOnce (p : Player) (n : Nat) :
    (tickOnce^[n] p).session = p.session.runOps (List.replicate n .tick) := by
  induction n generalizing p with
  | zero => rfl
  | succ n ih =>
    rw [Function.iterate_succ_apply, ih, List.replicate_succ, Session.runOps_cons]
    rfl

/-- The loop ends after as many ticks as whole periods have gone by since the last one. -/
theorem catchUp_eq_iterate (p : Player) :
    p.catchUp = tickOnce^[(p.clock - p.lastTick) / tickPeriod] p := by
  have hperiod : 0 < tickPeriod := by decide
  fun_induction catchUp p with
  | case1 p hdue ih =>
    have hclock : p.tickOnce.clock = p.clock := rfl
    have hlast : p.tickOnce.lastTick = p.lastTick + tickPeriod := rfl
    have hle : tickPeriod ≤ p.clock - p.lastTick := by omega
    -- The tick takes one whole period off what is to be made up for.
    rw [ih, hclock, hlast, Nat.div_eq_sub_div hperiod hle, Function.iterate_succ_apply, Nat.sub_sub]
  | case2 p hdue =>
    have hlt : p.clock - p.lastTick < tickPeriod := by omega
    rw [Nat.div_eq_of_lt hlt]
    rfl

theorem times_rest (p : Player) :
    p.rest.times =
      { p.times with
        clock := max p.times.clock (p.times.lastCycle + cycleTime)
        lastCycle := max p.times.clock (p.times.lastCycle + cycleTime) } := rfl

end Player

/-! ## A turn -/

namespace Turn

/-- The player behind the step of the turn, and behind its picture if it is shown. -/
def seen (t : Turn) : Player :=
  match t.polled.1.session.step.result with
  | .ok cycle => t.stepped.seen cycle
  | .error _ => t.stepped

/-- The player behind the timers. -/
def timed (t : Turn) : Player := t.seen.catchUp

theorem times_polled (t : Turn) :
    t.polled.1.times =
      { t.player.times with
        clock := t.player.clock + lagOf t.events, polls := t.player.polls + 1 } :=
  Player.times_deliver { t.player with polls := t.player.polls + 1 } t.events

theorem times_seen (t : Turn) : t.seen.times = t.polled.1.times := by
  unfold seen Player.seen
  split
  · split
    · rfl
    · rfl
  · rfl

/-- A turn that is not the last is carried through to its rest. -/
theorem after_of_more {t : Turn} (h : t.ending? = none) : t.after = t.timed.rest := by
  obtain ⟨-, cycle, hr, hafter⟩ := of_more h
  rw [hafter, timed, seen, hr]

/-- At the end of a play no time passes behind the last poll. -/
theorem times_after_of_last {t : Turn} {ending : Ending} (h : t.ending? = some ending) :
    t.after.times = t.polled.1.times := by
  cases ending with
  | windowClosed =>
    rw [(of_closed h).2]
    rfl
  | halted fault =>
    rw [(of_halted h).2.2]
    rfl
  | unshown stage =>
    rw [(of_unshown h).2.2.2]
    rfl

end Turn

/-! ## On schedule -/

/-- The times at the beginning of the turn that has `j` turns before it. -/
structure Times.OnSchedule (t : Times) (j : Nat) : Prop where
  polls : t.polls = j
  lastCycle : t.lastCycle = t.clock
  lastTick : t.lastTick = t.ticks * tickPeriod
  lastTick_le : t.lastTick ≤ t.clock
  not_early : j * cycleTime ≤ t.clock

namespace Turn

variable {t : Turn} {j : Nat}

/-- How often the timers tick in the turn. -/
def dueTicks (t : Turn) : Nat :=
  (t.player.clock + lagOf t.events) / tickPeriod - t.player.ticks

theorem lastTick_iterate (h : t.player.times.OnSchedule j) (k : Nat) :
    (Player.tickOnce^[k] t.seen).lastTick = (t.player.ticks + k) * tickPeriod := by
  have htimes := t.seen.times_iterate_tickOnce k
  rw [times_seen, times_polled] at htimes
  have hlast : (Player.tickOnce^[k] t.seen).lastTick = t.player.lastTick + k * tickPeriod :=
    congrArg Times.lastTick htimes
  have hticks : t.player.lastTick = t.player.ticks * tickPeriod := h.lastTick
  rw [hlast, hticks, Nat.add_mul]

/-- The loop of the timers in a turn, counted out. -/
theorem timed_eq_iterate (h : t.player.times.OnSchedule j) :
    t.timed = Player.tickOnce^[t.dueTicks] t.seen := by
  have hclock : t.seen.clock = t.player.clock + lagOf t.events :=
    congrArg Times.clock (t.times_seen.trans t.times_polled)
  have hlast : t.seen.lastTick = t.player.ticks * tickPeriod := lastTick_iterate h 0
  rw [timed, Player.catchUp_eq_iterate, hclock, hlast, dueTicks, Nat.mul_comm, Nat.sub_mul_div]

/-- A further tick is due as long as there have been fewer than there are to be. -/
theorem due_iff (h : t.player.times.OnSchedule j) (k : Nat) :
    (Player.tickOnce^[k] t.seen).lastTick + tickPeriod ≤ t.player.clock + lagOf t.events ↔
      k < t.dueTicks := by
  have hperiod : 0 < tickPeriod := by decide
  rw [lastTick_iterate h, ← Nat.succ_mul, ← Nat.le_div_iff_mul_le hperiod, dueTicks]
  omega

theorem ticks_add_dueTicks (h : t.player.times.OnSchedule j) :
    t.player.ticks + t.dueTicks = (t.player.clock + lagOf t.events) / tickPeriod := by
  have hperiod : 0 < tickPeriod := by decide
  have hlast : t.player.lastTick = t.player.ticks * tickPeriod := h.lastTick
  have hle : t.player.ticks ≤ (t.player.clock + lagOf t.events) / tickPeriod := by
    rw [Nat.le_div_iff_mul_le hperiod, ← hlast]
    exact Nat.le_trans h.lastTick_le (Nat.le_add_right _ _)
  exact Nat.add_sub_cancel' hle

theorem times_timed (h : t.player.times.OnSchedule j) :
    let now := t.player.clock + lagOf t.events
    t.timed.times =
      ⟨now, t.player.clock, now / tickPeriod * tickPeriod, now / tickPeriod, j + 1⟩ := by
  intro now
  have hlast : t.player.lastTick = t.player.ticks * tickPeriod := h.lastTick
  have hticks : t.player.ticks + t.dueTicks = now / tickPeriod := ticks_add_dueTicks h
  have hlastTick : t.player.lastTick + t.dueTicks * tickPeriod = now / tickPeriod * tickPeriod := by
    rw [hlast, ← Nat.add_mul, hticks]
  rw [timed_eq_iterate h, Player.times_iterate_tickOnce, times_seen, times_polled]
  show Times.mk now t.player.lastCycle (t.player.lastTick + t.dueTicks * tickPeriod)
    (t.player.ticks + t.dueTicks) (t.player.polls + 1) = _
  rw [hticks, hlastTick, show t.player.lastCycle = _ from h.lastCycle,
    show t.player.polls = _ from h.polls]
  rfl

/-- A turn that is not the last takes the time of a cycle or of its lag, whichever is longer. -/
theorem times_after (h : t.player.times.OnSchedule j) (hmore : t.ending? = none) :
    let ticks := (t.player.clock + lagOf t.events) / tickPeriod
    let clock := t.player.clock + max cycleTime (lagOf t.events)
    t.after.times = ⟨clock, clock, ticks * tickPeriod, ticks, j + 1⟩ := by
  intro ticks clock
  have hclock : max (t.player.clock + lagOf t.events) (t.player.clock + cycleTime) = clock := by
    rw [Nat.add_max_add_left, Nat.max_comm]
  -- The rest counts from the last cycle, and on schedule that is the beginning of the turn.
  rw [after_of_more hmore, Player.times_rest, times_timed h]
  dsimp only
  rw [hclock]

/-- **A turn** keeps the schedule. -/
theorem onSchedule_after (h : t.player.times.OnSchedule j) (hmore : t.ending? = none) :
    t.after.times.OnSchedule (j + 1) := by
  have hstart : j * cycleTime ≤ t.player.clock := h.not_early
  rw [times_after h hmore]
  refine ⟨rfl, rfl, rfl, ?_, ?_⟩
  · have hnow : t.player.clock + lagOf t.events ≤
        t.player.clock + max cycleTime (lagOf t.events) :=
      Nat.add_le_add_left (Nat.le_max_right _ _) _
    exact Nat.le_trans (Nat.div_mul_le_self _ _) hnow
  · show (j + 1) * cycleTime ≤ t.player.clock + max cycleTime (lagOf t.events)
    rw [Nat.succ_mul]
    exact Nat.add_le_add hstart (Nat.le_max_left _ _)

end Turn

/-! ## A play -/

namespace Player

/-- The turns of a play follow one another: each is begun by the player that the one before has
made, and only the last has none behind it. -/
theorem turnsOf_linked (p : Player) (script : List (List Event)) :
    (∃ first, (p.turnsOf script)[0]? = some first ∧ first.player = p) ∧
      ∀ (j : Nat) t, (p.turnsOf script)[j]? = some t → t.ending? = none →
        ∃ next, (p.turnsOf script)[j + 1]? = some next ∧ next.player = t.after := by
  apply play_induction (P := fun p turns _ _ =>
    (∃ first : Turn, turns[0]? = some first ∧ first.player = p) ∧
      ∀ (j : Nat) (t : Turn), turns[j]? = some t → t.ending? = none →
        ∃ next, turns[j + 1]? = some next ∧ next.player = t.after)
  · intro t ending hending
    refine ⟨⟨t, rfl, rfl⟩, ?_⟩
    intro j u hu hmore
    cases j with
    | zero =>
      cases hu
      rw [hending] at hmore
      cases hmore
    | succ j => cases hu
  · intro t turns q ending _ ih
    obtain ⟨hfirst, hlinked⟩ := ih
    refine ⟨⟨t, rfl, rfl⟩, ?_⟩
    intro j u hu hmore
    cases j with
    | zero =>
      cases hu
      exact hfirst
    | succ j => exact hlinked j u hu hmore

theorem onSchedule_turnsOf_add (p : Player) (script : List (List Event)) :
    ∀ i, p.times.OnSchedule i → ∀ (j : Nat) (t : Turn), (p.turnsOf script)[j]? = some t →
      t.player.times.OnSchedule (i + j) := by
  apply play_induction (P := fun p turns _ _ => ∀ i, p.times.OnSchedule i →
    ∀ (j : Nat) (t : Turn), turns[j]? = some t → t.player.times.OnSchedule (i + j))
  · intro t ending _ i ht j u hu
    cases j with
    | zero =>
      cases hu
      exact ht
    | succ j => cases hu
  · intro t turns q ending hmore ih i ht j u hu
    cases j with
    | zero =>
      cases hu
      exact ht
    | succ j =>
      rw [show i + (j + 1) = i + 1 + j by omega]
      exact ih (i + 1) (Turn.onSchedule_after ht hmore) j u hu

/-- **A play** is on schedule at the beginning of every turn. -/
theorem onSchedule_turnsOf {p : Player} (hp : p.times.OnSchedule 0) {script : List (List Event)}
    {j : Nat} {t : Turn} (h : (p.turnsOf script)[j]? = some t) : t.player.times.OnSchedule j := by
  have hj := p.onSchedule_turnsOf_add script 0 hp j t h
  rwa [Nat.zero_add] at hj

/-- The end of a play: as many polls as turns, and the time of the last poll. -/
theorem times_play {p : Player} (hp : p.times.OnSchedule 0) (script : List (List Event)) :
    ∃ last, (p.turnsOf script).getLast? = some last ∧
      (p.play script).1.polls = (p.turnsOf script).length ∧
      (p.play script).1.clock = last.player.clock + lagOf last.events := by
  obtain ⟨last, hlast, hafter, hending⟩ := p.getLast?_turnsOf script
  have hlength : 0 < (p.turnsOf script).length :=
    List.length_pos_of_mem (List.mem_of_getLast? hlast)
  have hplace : (p.turnsOf script)[(p.turnsOf script).length - 1]? = some last := by
    rw [← List.getLast?_eq_getElem?]
    exact hlast
  have hpolls : last.player.polls = (p.turnsOf script).length - 1 :=
    (onSchedule_turnsOf hp hplace).polls
  have htimes := (Turn.times_after_of_last hending).trans last.times_polled
  rw [hafter] at htimes
  refine ⟨last, hlast, ?_, congrArg Times.clock htimes⟩
  have hcount : (p.play script).1.polls = last.player.polls + 1 := congrArg Times.polls htimes
  omega

theorem onSchedule_begin (session : Session) (unshown : Nat → Option PictureStage)
    (log : List LogEntry) : (begin session unshown log).times.OnSchedule 0 :=
  ⟨rfl, rfl, (Nat.zero_mul _).symm, Nat.le_refl 0, Nat.le_of_eq (Nat.zero_mul _)⟩

end Player

namespace Host

/-- **A play keeps time.** Its first turn begins at time zero. Turn `j`, counted from zero, has `j`
polls before it and does not begin, let alone step, before `j` cycles are over. If it is not the
last, then the timers tick in it exactly as often as they are due, one tick after the other, and
have then ticked once for every whole period since the start; and the next turn begins when the
time of a cycle, or the lag of this one if that is longer, has gone by since it began. -/
theorem play_keeps_time (host : Host) (options : Options) (rom : Except FileError (List UInt8))
    (h : (host.play options rom).polls ≠ 0) :
    ∃ program, rom = .ok program ∧
      let turns := (host.firstPlayer options program).turnsOf host.script
      let report := host.play options rom
      (∃ first, turns[0]? = some first ∧ first.player.clock = 0 ∧ first.player.ticks = 0) ∧
      (∀ (j : Nat) t, turns[j]? = some t →
        let start := t.player.clock
        let now := start + lagOf t.events
        (t.player.polls = j ∧ j * 2000000 ≤ start ∧ t.polled.1.clock = now) ∧
        (t.ending? = none →
          (t.after = t.timed.rest ∧ t.timed = Player.tickOnce^[t.dueTicks] t.seen ∧
            t.timed.session = t.seen.session.runOps (List.replicate t.dueTicks .tick) ∧
            ∀ k, k < t.dueTicks ↔
              (Player.tickOnce^[k] t.seen).lastTick + 16666666 ≤ now) ∧
          (t.player.ticks + t.dueTicks = now / 16666666 ∧
            t.timed.ticks = now / 16666666 ∧
            t.timed.lastTick = now / 16666666 * 16666666 ∧
            t.timed.lastTick ≤ now ∧ now - t.timed.lastTick < 16666666) ∧
          ∃ next, turns[j + 1]? = some next ∧ next.player = t.after ∧
            next.player.clock = start + max 2000000 (lagOf t.events) ∧
            next.player.ticks = now / 16666666)) ∧
      ∃ last, turns.getLast? = some last ∧ report.polls = turns.length ∧
        report.time = last.player.clock + lagOf last.events := by
  obtain ⟨program, hrom, hreport⟩ := play_eq_ofPlayer h
  refine ⟨program, hrom, ?_⟩
  intro turns report
  have hbegin := Player.onSchedule_begin
    ((Session.fresh (host.random options)).load program).after host.unshown
    [.romLoaded options.rom program.length]
  obtain ⟨⟨first, hfirst, hplayer⟩, hlinked⟩ :=
    (host.firstPlayer options program).turnsOf_linked host.script
  refine ⟨⟨first, hfirst, ?_, ?_⟩, ?_, ?_⟩
  · rw [hplayer]
    rfl
  · rw [hplayer]
    rfl
  · intro j t ht start now
    have hj : t.player.times.OnSchedule j := Player.onSchedule_turnsOf hbegin ht
    refine ⟨⟨hj.polls, hj.not_early, congrArg Times.clock t.times_polled⟩, ?_⟩
    intro hmore
    have htimed := Turn.times_timed hj
    have htick : t.timed.ticks = now / 16666666 := congrArg Times.ticks htimed
    have hlast : t.timed.lastTick = now / 16666666 * 16666666 := congrArg Times.lastTick htimed
    have hloop := Turn.timed_eq_iterate hj
    refine ⟨⟨Turn.after_of_more hmore, hloop, ?_, fun k => (Turn.due_iff hj k).symm⟩, ?_, ?_⟩
    · rw [hloop, Player.session_iterate_tickOnce]
    · refine ⟨Turn.ticks_add_dueTicks hj, htick, hlast, ?_, ?_⟩
      · rw [hlast]
        exact Nat.div_mul_le_self now 16666666
      · rw [hlast]
        omega
    · obtain ⟨next, hnext, hafter⟩ := hlinked j t ht hmore
      have htimes := Turn.times_after hj hmore
      rw [← hafter] at htimes
      exact ⟨next, hnext, hafter, congrArg Times.clock htimes, congrArg Times.ticks htimes⟩
  · obtain ⟨last, hlast, hpolls, hclock⟩ := Player.times_play hbegin host.script
    refine ⟨last, hlast, ?_, ?_⟩
    · show (host.play options rom).polls = _
      rw [hreport]
      exact hpolls
    · show (host.play options rom).time = _
      rw [hreport]
      exact hclock

/-- A poll lags for two periods of the timers and a bit. They tick twice in its turn, and the next
turn begins at once. -/
theorem timers_catch_up_with_lag :
    let host : Host :=
      .reliable [[.lag 40000000], [], [.lag 1000000, .quit, .lag 5]] (Vector.replicate 8 0)
    let program : List UInt8 := [0x12, 0x00]
    let options : Options := ⟨"loop.ch8", 10, some 0⟩
    let report := host.play options (.ok program)
    let turns := (host.firstPlayer options program).turnsOf host.script
    report.polls = 3 ∧ report.time = 43000000 ∧
      ∃ first next, turns[0]? = some first ∧ turns[1]? = some next ∧
        first.timed.ticks = 2 ∧ next.player.clock = 40000000 := by
  have of_play : ∀ (host : Host) options program, let report := host.play options (.ok program)
      let turns := (host.firstPlayer options program).turnsOf host.script
      report.polls = 3 ∧ report.time = 43000000 ∧
        turns[0]?.map (fun t => (lagOf t.events, t.ending?)) = some (40000000, none) →
      report.polls = 3 ∧ report.time = 43000000 ∧
        ∃ first next, turns[0]? = some first ∧ turns[1]? = some next ∧
          first.timed.ticks = 2 ∧ next.player.clock = 40000000 := by
    intro host options program report turns h
    obtain ⟨hpolls, htime, hlag⟩ := h
    have hstarted : report.polls ≠ 0 := by
      rw [hpolls]
      decide
    obtain ⟨program', hprogram, ⟨first, hfirst, hclock, -⟩, hturn, -⟩ :=
      play_keeps_time host options _ hstarted
    cases hprogram
    rw [show turns[0]? = some first from hfirst] at hlag
    obtain ⟨hlag, hmore⟩ := Prod.mk.inj (Option.some.inj hlag)
    obtain ⟨-, hcompleted⟩ := hturn 0 first hfirst
    obtain ⟨-, ⟨-, hticks, -⟩, next, hnext, -, hclock', -⟩ := hcompleted hmore
    rw [hclock, hlag] at hticks hclock'
    exact ⟨hpolls, htime, first, next, hfirst, hnext, hticks, hclock'⟩
  exact of_play _ _ _ (by decide +kernel)

end Host

end Chip8
