import Chip8.Proofs.KeyUpdates
import Chip8.Proofs.Schedule
import Mathlib.Data.List.Basic

/-!
# The history of a play

To the session, a play is one more history of operations. A turn passes on the keys that its poll
tells of, takes a step unless the poll has closed the window, and ticks the timers unless the step
or its picture has failed (`Turn.ops`); **the session at the end of a play is what the operations of
its turns make of it** (`Player.session_play`). So what is known of histories holds of plays, and
what a play has to do with its script is seen in the operations that its turns consist of.

The script is read from the front, a poll a turn, and closed by a poll that quits
(`Player.events_turnsOf`).
-/

set_option autoImplicit false

namespace Chip8

/-! ## A poll -/

/-- What a player does with the session at an event. -/
def Event.op? : Event → Option Session.Op
  | keyDown key => key.key?.map fun k : Key => .press (UInt8.ofNat k)
  | keyUp key => key.key?.map fun k : Key => .release (UInt8.ofNat k)
  | _ => none

/-- What a player does with the session in a poll, until an event closes the window. -/
def keyOpsOf (events : List Event) : List Session.Op :=
  (events.takeWhile fun event => !event.closes).filterMap Event.op?

theorem keyOpsOf_of_closes {event : Event} (h : event.closes = true) (rest : List Event) :
    keyOpsOf (event :: rest) = [] := by
  rw [keyOpsOf, List.takeWhile_cons, h]
  rfl

theorem keyOpsOf_cons {event : Event} (h : event.closes = false) (rest : List Event) :
    keyOpsOf (event :: rest) = event.op?.toList ++ keyOpsOf rest := by
  rw [keyOpsOf, List.takeWhile_cons, h, keyOpsOf, List.filterMap_eq_flatMap_toList,
    List.filterMap_eq_flatMap_toList]
  exact List.flatMap_cons

theorem quiet_of_keyOpsOf (events : List Event) : ∀ op ∈ keyOpsOf events, op.isQuiet = true := by
  intro op hop
  obtain ⟨event, -, hevent⟩ := List.mem_filterMap.mp hop
  cases event with
  | keyDown key | keyUp key =>
    obtain ⟨k, -, rfl⟩ := Option.map_eq_some_iff.mp hevent
    rfl
  | quit | other | lag _ => cases hevent

namespace Player

theorem passKey_spec (p : Player) (key : KeyboardKey) (down : Bool) :
    (p.passKey key down).session = p.session.runOps
      (key.key?.map fun k : Key =>
        if down then .press (UInt8.ofNat k) else .release (UInt8.ofNat k)).toList ∧
    (p.passKey key down).log = p.log := by
  unfold passKey
  cases key.key? with
  | none => exact ⟨rfl, rfl⟩
  | some k =>
    -- The keypad has every key that the keyboard stands for, so nothing is logged.
    have hlog : (p.session.setKey (UInt8.ofNat k) down).log = [] := by
      rw [Session.setKey_ofNat]
      rfl
    dsimp only
    refine ⟨?_, ?_⟩
    · cases down with
      | true => rfl
      | false => rfl
    · rw [follow, hlog]
      rfl

theorem take_spec (p : Player) (event : Event) :
    (p.take event).session = p.session.runOps event.op?.toList ∧ (p.take event).log = p.log := by
  cases event with
  | keyDown key => exact p.passKey_spec key true
  | keyUp key => exact p.passKey_spec key false
  | quit | other | lag _ => exact ⟨rfl, rfl⟩

/-- **A poll** closes the window if one of its events does. To the session it does nothing but what
its events until then ask for, and it has nothing to note. -/
theorem deliver_spec (p : Player) (events : List Event) :
    (p.deliver events).2 = events.any Event.closes ∧
      (p.deliver events).1.session = p.session.runOps (keyOpsOf events) ∧
      (p.deliver events).1.log = p.log := by
  induction events generalizing p with
  | nil => exact ⟨rfl, rfl, rfl⟩
  | cons event rest ih =>
    cases hcloses : event.closes with
    | true =>
      rw [p.deliver_of_closes rest hcloses, keyOpsOf_of_closes hcloses, List.any_cons, hcloses]
      exact ⟨rfl, rfl, rfl⟩
    | false =>
      obtain ⟨hsession, hlog⟩ := p.take_spec event
      obtain ⟨hclosed, hsession', hlog'⟩ := ih (p.take event)
      rw [p.deliver_cons rest hcloses, hclosed, hsession', hlog', hsession, hlog,
        keyOpsOf_cons hcloses, List.any_cons, hcloses, Session.runOps_append]
      exact ⟨rfl, rfl, rfl⟩

theorem log_iterate_tickOnce (p : Player) (n : Nat) : (tickOnce^[n] p).log = p.log := by
  induction n generalizing p with
  | zero => rfl
  | succ n ih =>
    have hsilent : p.session.machine.tickLog.filter (·.isNotice) = [] := by
      unfold Machine.tickLog
      split
      · rfl
      · rfl
    rw [Function.iterate_succ_apply, ih]
    show (p.session.machine.tickLog.filter (·.isNotice)).reverse ++ p.log = p.log
    rw [hsilent]
    rfl

end Player

/-- Of a step there is nothing to note but that it halts the machine. -/
theorem Session.step_log_filter_isNotice {s : Session} (h : s.fault = none) :
    s.step.log.filter (·.isNotice) =
      match s.step.result with
      | .ok _ => []
      | .error fault => [.halting fault] := by
  have hsilent : s.machine.cycleLog.filter (·.isNotice) = [] :=
    s.machine.cycleLog_filter fun _ _ _ _ _ => rfl
  rcases s.step_cases with ⟨fault, hf, -⟩ | ⟨-, fault, -, hs⟩ | ⟨ins, flow, m, -, -, hs⟩
  · rw [h] at hf
    cases hf
  · rw [hs, List.filter_append, hsilent]
    rfl
  · rw [hs]
    exact hsilent

/-! ## A turn -/

/-- What a player notes when playing comes to its end. A picture that is not shown goes unnoted. -/
def Ending.notice? : Ending → Option LogEntry
  | windowClosed => some .windowClosed
  | halted fault => some (.halting fault)
  | unshown _ => none

namespace Turn

theorem polled_closes (t : Turn) : t.polled.2 = t.events.any Event.closes :=
  (Player.deliver_spec _ _).1

theorem session_polled (t : Turn) :
    t.polled.1.session = t.player.session.runOps (keyOpsOf t.events) :=
  (Player.deliver_spec _ _).2.1

theorem log_polled (t : Turn) : t.polled.1.log = t.player.log := (Player.deliver_spec _ _).2.2

theorem session_seen (t : Turn) : t.seen.session = t.polled.1.session.step.after := by
  unfold seen Player.seen
  split
  · split
    · rfl
    · rfl
  · rfl

theorem log_seen (t : Turn) : t.seen.log = t.stepped.log := by
  unfold seen Player.seen
  split
  · split
    · rfl
    · rfl
  · rfl

/-- How often the timers tick in the turn, if it gets that far. -/
def ticks (t : Turn) : Nat := (t.seen.clock - t.seen.lastTick) / tickPeriod

/-- What the turn does with the session, one operation after the other. -/
def ops (t : Turn) : List Session.Op :=
  keyOpsOf t.events ++
    match t.ending? with
    | some .windowClosed => []
    | some _ => [.step]
    | none => .step :: List.replicate t.ticks .tick

/-- A turn whose poll leaves the window open takes its step with the session behind the poll, and
does nothing to it afterwards but tick the timers. -/
theorem session_after_of_open {t : Turn} (h : t.polled.2 = false) :
    t.after.session = t.polled.1.session.step.after.runOps
      (List.replicate (if t.ending? = none then t.ticks else 0) .tick) := by
  rcases t.cases with ⟨hclosed, -, -⟩ | ⟨-, fault, -, hafter, hending⟩ |
    ⟨-, stage, -, -, hafter, hending⟩ | ⟨-, cycle, -, -, hending⟩
  · rw [h] at hclosed
    cases hclosed
  · rw [hafter, hending]
    rfl
  · rw [hafter, hending]
    rfl
  · rw [if_pos hending, after_of_more hending, timed, Player.catchUp_eq_iterate]
    show (Player.tickOnce^[t.ticks] t.seen).session = _
    rw [Player.session_iterate_tickOnce, session_seen]

/-- **A turn** does with the session what its operations say. -/
theorem session_after (t : Turn) : t.after.session = t.player.session.runOps t.ops := by
  rw [ops, Session.runOps_append, ← session_polled]
  cases hending : t.ending? with
  | none =>
    rw [session_after_of_open (of_more hending).1, if_pos hending]
    rfl
  | some ending =>
    cases ending with
    | windowClosed =>
      rw [(of_closed hending).2]
      rfl
    | halted fault =>
      rw [(of_halted hending).2.2]
      rfl
    | unshown stage =>
      rw [(of_unshown hending).2.2.2]
      rfl

/-- The result of the step of the turn, if it takes one. -/
def step? (t : Turn) : Option (Except Fault Cycle) :=
  if t.polled.2 then none else some t.polled.1.session.step.result

/-- Among the operations of a turn there is the one step, and no other. -/
theorem stepsOf_ops (t : Turn) :
    (t.player.session.stepsOf t.ops).map (·.step.result) = t.step?.toList := by
  rw [ops, Session.stepsOf_append_of_quiet _ (quiet_of_keyOpsOf _), ← session_polled, step?]
  rcases t.cases with ⟨hclosed, -, hending⟩ | ⟨hopen, fault, -, -, hending⟩ |
    ⟨hopen, stage, -, -, -, hending⟩ | ⟨hopen, cycle, -, -, hending⟩
  · rw [hending, hclosed]
    rfl
  · rw [hending, hopen]
    rfl
  · rw [hending, hopen]
    rfl
  · have hticks : ∀ s : Session, s.stepsOf (List.replicate t.ticks .tick) = [] := by
      intro s
      have hquiet : ∀ op ∈ List.replicate t.ticks Session.Op.tick, op.isQuiet = true := by
        intro op hop
        rw [List.eq_of_mem_replicate hop]
        rfl
      have hnone := s.stepsOf_append_of_quiet hquiet []
      rwa [List.append_nil] at hnone
    rw [hending, hopen]
    show (t.polled.1.session ::
      t.polled.1.session.step.after.stepsOf (List.replicate t.ticks .tick)).map _ = _
    rw [hticks]
    rfl

theorem fault_after_of_more {t : Turn} (h : t.ending? = none) : t.after.session.fault = none := by
  obtain ⟨-, cycle, hr, -⟩ := of_more h
  obtain ⟨ins, flow, m, -, -, -, hstep⟩ := Session.step_eq_ok hr
  obtain ⟨⟨ops, hquiet, hsession⟩, -⟩ := t.seen.upkeep_endTurn
  rw [after_of_more h, timed, hsession, (Session.runOps_quiet _ hquiet).1, session_seen, hstep]

/-- What a turn notes is the end of the play. -/
theorem log_after {t : Turn} (h : t.player.session.fault = none) :
    t.after.log = (t.ending?.bind Ending.notice?).toList ++ t.player.log := by
  have hfault : t.polled.1.session.fault = none := by
    rw [session_polled, (Session.runOps_quiet _ (quiet_of_keyOpsOf t.events)).1, h]
  have hnotes := Session.step_log_filter_isNotice hfault
  have hlog : t.stepped.log =
      (t.polled.1.session.step.log.filter (·.isNotice)).reverse ++ t.player.log := by
    rw [← log_polled]
    rfl
  rcases t.cases with ⟨-, hafter, hending⟩ | ⟨-, fault, hr, hafter, hending⟩ |
    ⟨-, stage, hr, -, hafter, hending⟩ | ⟨-, cycle, hr, -, hending⟩
  · rw [hafter, hending, ← log_polled]
    rfl
  · rw [hafter, hending, hlog, hnotes, hr]
    rfl
  · rw [hafter, hending, hlog, hnotes, hr]
    rfl
  · rw [hr] at hnotes
    rw [after_of_more hending, hending, timed, Player.catchUp_eq_iterate]
    show (Player.tickOnce^[t.ticks] t.seen).log = t.player.log
    rw [Player.log_iterate_tickOnce, log_seen, hlog, hnotes]
    rfl

end Turn

/-! ## A play -/

namespace Player

/-- What a play does with the session, one operation after the other. -/
def opsOf (p : Player) (script : List (List Event)) : List Session.Op :=
  (p.turnsOf script).flatMap Turn.ops

/-- The results of the steps of a play, the first one first. -/
def resultsOf (p : Player) (script : List (List Event)) : List (Except Fault Cycle) :=
  (p.session.stepsOf (p.opsOf script)).map (·.step.result)

/-- **A play** does with the session what the operations of its turns say. -/
theorem session_play (p : Player) (script : List (List Event)) :
    (p.play script).1.session = p.session.runOps (p.opsOf script) := by
  apply play_induction (P := fun p turns q _ =>
    q.session = p.session.runOps (turns.flatMap Turn.ops))
  · intro t ending _
    rw [List.flatMap_singleton, t.session_after]
  · intro t turns q ending _ ih
    rw [ih, t.session_after, List.flatMap_cons, Session.runOps_append]

/-- The steps of a play are those of its turns. -/
theorem resultsOf_eq (p : Player) (script : List (List Event)) :
    p.resultsOf script = (p.turnsOf script).filterMap Turn.step? := by
  rw [List.filterMap_eq_flatMap_toList]
  apply play_induction (P := fun p turns _ _ =>
    (p.session.stepsOf (turns.flatMap Turn.ops)).map (·.step.result) =
      turns.flatMap fun t => t.step?.toList)
  · intro t ending _
    rw [List.flatMap_singleton, t.stepsOf_ops, List.flatMap_singleton]
  · intro t turns q ending _ ih
    rw [List.flatMap_cons, Session.stepsOf_append, List.map_append, t.stepsOf_ops,
      ← t.session_after, ih, List.flatMap_cons]

/-- The polls of a play are those of its script, in their order, and one more that quits. -/
theorem events_turnsOf (p : Player) (script : List (List Event)) :
    (p.turnsOf script).map Turn.events <+: script ++ [[.quit]] := by
  induction script generalizing p with
  | nil => exact List.prefix_rfl
  | cons events script ih =>
    unfold turnsOf
    split
    · exact List.prefix_append [events] _
    · exact (List.prefix_cons_inj events).mpr (ih _)

/-- A turn is begun with what the turns before it have made of the session, and all of these have
been carried through. -/
theorem session_turnsOf (p : Player) (script : List (List Event)) {j : Nat} {t : Turn}
    (h : (p.turnsOf script)[j]? = some t) :
    t.player.session = p.session.runOps (((p.turnsOf script).take j).flatMap Turn.ops) ∧
      ∀ u ∈ (p.turnsOf script).take j, u.ending? = none := by
  revert j t
  apply play_induction (P := fun p turns _ _ => ∀ {j : Nat} {t : Turn}, turns[j]? = some t →
    t.player.session = p.session.runOps ((turns.take j).flatMap Turn.ops) ∧
      ∀ u ∈ turns.take j, u.ending? = none)
  · intro t ending _ j u hu
    cases j with
    | zero =>
      cases hu
      exact ⟨rfl, List.forall_mem_nil _⟩
    | succ j => cases hu
  · intro t turns q ending hmore ih j u hu
    cases j with
    | zero =>
      cases hu
      exact ⟨rfl, List.forall_mem_nil _⟩
    | succ j =>
      obtain ⟨hsession, hbefore⟩ := ih (j := j) hu
      refine ⟨?_, List.forall_mem_cons.mpr ⟨hmore, hbefore⟩⟩
      rw [hsession, t.session_after, List.take_succ_cons, List.flatMap_cons, Session.runOps_append]

/-- What a play notes is its ending. -/
theorem log_play {p : Player} (h : p.session.fault = none) (script : List (List Event)) :
    (p.play script).1.log = (p.play script).2.notice?.toList ++ p.log := by
  revert h
  apply play_induction (P := fun p _ q ending => p.session.fault = none →
    q.log = ending.notice?.toList ++ p.log)
  · intro t ending hending hfault
    rw [Turn.log_after hfault, hending]
    rfl
  · intro t turns q ending hmore ih hfault
    rw [ih (Turn.fault_after_of_more hmore), Turn.log_after hfault, hmore]
    rfl

/-- A turn polls what the script has for it. -/
theorem getElem?_of_turnsOf (p : Player) {script : List (List Event)} {j : Nat} {t : Turn}
    (h : (p.turnsOf script)[j]? = some t) : (script ++ [[.quit]])[j]? = some t.events := by
  obtain ⟨later, hpolls⟩ := p.events_turnsOf script
  have hj : ((p.turnsOf script).map Turn.events)[j]? = some t.events := by
    rw [List.getElem?_map, h]
    rfl
  obtain ⟨hlt, -⟩ := List.getElem?_eq_some_iff.mp hj
  rw [← hpolls, List.getElem?_append_left hlt, hj]

/-- What has been polled by a turn that stays open is in the script. -/
theorem events_take (p : Player) {script : List (List Event)} {j : Nat} {t : Turn}
    (h : (p.turnsOf script)[j]? = some t) (hopen : t.polled.2 = false) :
    ((p.turnsOf script).take j).map Turn.events ++ [t.events] = script.take (j + 1) := by
  have hj : (script ++ [[.quit]])[j]? = some t.events := p.getElem?_of_turnsOf h
  have hlt : j < script.length := by
    by_contra hge
    -- Behind the script there is only the poll that quits.
    have hquit : t.events = [.quit] := by
      rw [List.getElem?_append_right (Nat.le_of_not_lt hge)] at hj
      exact List.mem_singleton.mp (List.mem_of_getElem? hj)
    rw [t.polled_closes, hquit] at hopen
    cases hopen
  obtain ⟨later, hpolls⟩ := p.events_turnsOf script
  obtain ⟨hturn, -⟩ := List.getElem?_eq_some_iff.mp h
  have hle : j ≤ ((p.turnsOf script).map Turn.events).length := by
    rw [List.length_map]
    exact Nat.le_of_lt hturn
  have htaken : ((p.turnsOf script).map Turn.events).take j = script.take j := by
    calc ((p.turnsOf script).map Turn.events).take j
      _ = ((p.turnsOf script).map Turn.events ++ later).take j :=
          (List.take_append_of_le_length hle).symm
      _ = (script ++ [[Event.quit]]).take j := by rw [hpolls]
      _ = script.take j := List.take_append_of_le_length (Nat.le_of_lt hlt)
  rw [List.getElem?_append_left hlt] at hj
  rw [List.map_take, htaken, List.take_add_one, hj]
  rfl

end Player

/-! ## A report -/

namespace Host

variable (host : Host) (options : Options)

theorem fault_firstPlayer (program : List UInt8) :
    (host.firstPlayer options program).session.fault = none := by
  have hquiet : (Session.Op.load program).isQuiet = true := rfl
  exact (Session.perform_quiet (.fresh (host.random options)) hquiet).1

theorem log_play (program : List UInt8) (window : Window) :
    let played := (host.firstPlayer options program).play host.script
    (Report.ofPlayer window played.1 played.2).log =
      .romLoaded options.rom program.length :: played.2.notice?.toList := by
  intro played
  have hlog := Player.log_play (host.fault_firstPlayer options program) host.script
  show played.1.log.reverse = _
  rw [hlog]
  cases played.2 with
  | windowClosed | halted _ | unshown _ => rfl

end Host

end Chip8
