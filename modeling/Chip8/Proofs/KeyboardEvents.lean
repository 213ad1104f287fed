import Chip8.Proofs.Commuting
import Chip8.Proofs.PlayHistory
import Mathlib.Data.List.TakeWhile

/-!
# The keypad and the keyboard

When a step is taken, a key of the keypad is down exactly if **the last word on it** was that its
keyboard key had gone down (`Host.keypad_follows_keyboard`). The polls do not matter, nor which of
them is meant: what counts is the stream of events from the beginning.

That is a law of histories first. Of all operations only presses, releases and telling of all keys
at once say anything of a key, and the last to do so decides (`Session.mem_keys_runOps`). A play
passes on what the events say (`Turn.filterMap_ops`), and the layout of the keyboard is such that
every key of the keypad is spoken of by one keyboard key and by no other.
-/

set_option autoImplicit false

namespace Chip8

/-! ## Words on a key -/

namespace Session

/-- What an operation says of a key: that it is down, or that it is up. -/
def Op.tells? (k : Key) : Op → Option Bool
  | press key => if k.val = key.toNat then some true else none
  | release key => if k.val = key.toNat then some false else none
  | setKeys keys => some (decide (k ∈ keys))
  | _ => none

theorem Op.mem_told {op : Op} {keys : KeySet} {k : Key} :
    k ∈ op.told keys ↔ (op.tells? k).getD (decide (k ∈ keys)) = true := by
  cases op with
  | press key =>
    show k ∈ keys.tell key true ↔ _
    rw [KeySet.mem_tell, tells?]
    split
    · exact Iff.rfl
    · exact decide_eq_true_iff.symm
  | release key =>
    show k ∈ keys.tell key false ↔ _
    rw [KeySet.mem_tell, tells?]
    split
    · exact Iff.rfl
    · exact decide_eq_true_iff.symm
  | load _ | step | tick | setKeys _ | reset => exact decide_eq_true_iff.symm

theorem keys_setKey (s : Session) (key : UInt8) (down : Bool) :
    (s.setKey key down).after.machine.keys = s.machine.keys.tell key down := by
  unfold KeySet.tell
  split
  · next h =>
    rw [s.setKey_of_lt h]
    rfl
  · next h => rw [s.setKey_of_le (Nat.le_of_not_lt h)]

theorem keys_step (s : Session) : s.step.after.machine.keys = s.machine.keys := by
  rcases s.step_cases with ⟨fault, -, hs⟩ | ⟨-, fault, -, hs⟩ | ⟨ins, flow, m, -, he, hs⟩
  · rw [hs]
  · rw [hs]
  · rw [hs, Machine.finishCycle_snd]
    exact he.keys

/-- **One operation** leaves the keys as it tells of them. -/
theorem keys_perform (s : Session) (op : Op) :
    (s.perform op).after.machine.keys = op.told s.machine.keys := by
  cases op with
  | load program =>
    show (s.load program).after.machine.keys = s.machine.keys
    by_cases h : program.length ≤ 3584
    · rw [s.load_of_le h]
    · rw [s.load_of_not_le h]
  | step => exact s.keys_step
  | press key => exact s.keys_setKey key true
  | release key => exact s.keys_setKey key false
  | tick | setKeys _ | reset => rfl

/-- **The last word on a key decides**, whatever else has been done. -/
theorem mem_keys_runOps (s : Session) (ops : List Op) (k : Key) :
    k ∈ (s.runOps ops).machine.keys ↔
      (ops.filterMap (Op.tells? k)).getLast?.getD (decide (k ∈ s.machine.keys)) = true := by
  induction ops using List.reverseRecOn with
  | nil => exact decide_eq_true_iff.symm
  | append_singleton ops op ih =>
    rw [runOps_append]
    show k ∈ ((s.runOps ops).perform op).after.machine.keys ↔ _
    rw [keys_perform, Op.mem_told, List.filterMap_append, List.filterMap_cons]
    cases op.tells? k with
    | none =>
      -- Nothing new is said, and what was said last still holds.
      rw [Option.getD_none, decide_eq_true_iff, ih, List.filterMap_nil, List.append_nil]
    | some down => rw [List.filterMap_nil, List.getLast?_concat, Option.getD_some, Option.getD_some]

end Session

/-! ## Words on the keyboard -/

/-- What an event says of a key of the keypad: that it has gone down, or up. -/
def Event.tells? (k : Key) : Event → Option Bool
  | keyDown key => if key.key? = some k then some true else none
  | keyUp key => if key.key? = some k then some false else none
  | _ => none

/-- An event is passed on as what it says. -/
theorem Event.op?_bind_tells? (k : Key) (event : Event) :
    event.op?.bind (Session.Op.tells? k) = event.tells? k := by
  have hnumber : ∀ j : Key, k.val = (UInt8.ofNat j.val).toNat ↔ some j = some k := by
    intro j
    rw [Key.toNat_ofNat, Option.some_inj, Fin.ext_iff]
    exact eq_comm
  cases event with
  | keyDown key | keyUp key =>
    dsimp only [op?, tells?]
    cases key.key? with
    | none => rfl
    | some j => simp only [Option.map_some, Option.bind_some, Session.Op.tells?, hnumber]
  | quit | other | lag _ => rfl

theorem keyOpsOf_eq_filterMap {events : List Event} (h : events.any Event.closes = false) :
    keyOpsOf events = events.filterMap Event.op? := by
  have hall : (events.takeWhile fun event => !event.closes) = events := by
    rw [List.takeWhile_eq_self_iff]
    intro event hevent
    have hopen : event.closes = false := by
      simpa using List.any_eq_false.mp h event hevent
    rw [hopen]
    rfl
  rw [keyOpsOf, hall]

theorem keyOpsOf_concat {before : List Event} {event : Event}
    (h : (before ++ [event]).any Event.closes = false) :
    keyOpsOf (before ++ [event]) = keyOpsOf before ++ event.op?.toList := by
  have hbefore : before.any Event.closes = false := by
    rw [List.any_append, Bool.or_eq_false_iff] at h
    exact h.1
  rw [keyOpsOf_eq_filterMap h, keyOpsOf_eq_filterMap hbefore, List.filterMap_append,
    List.filterMap_eq_flatMap_toList Event.op? [event], List.flatMap_singleton]

/-- A poll that closes nothing passes all of its events on. -/
theorem filterMap_keyOpsOf {events : List Event} (h : events.any Event.closes = false) (k : Key) :
    (keyOpsOf events).filterMap (Session.Op.tells? k) = events.filterMap (Event.tells? k) := by
  rw [keyOpsOf_eq_filterMap h, List.filterMap_filterMap]
  exact congrArg (events.filterMap ·) (funext (Event.op?_bind_tells? k))

/-- An event that says what is so already does nothing, in a wait neither. -/
theorem runOps_of_told {s : Session} (hs : s.machine.Sound) {event : Event}
    (h : ∀ k down, event.tells? k = some down → (k ∈ s.machine.keys ↔ down = true)) :
    s.runOps event.op?.toList = s := by
  have hput : ∀ k down, event.tells? k = some down →
      (s.setKey (UInt8.ofNat k.val) down).after = s := by
    intro k down htells
    have hsame : s.machine.keys.put k down = s.machine.keys := by
      refine KeySet.ext_mem fun j => ?_
      rw [KeySet.mem_put]
      split
      · next hjk =>
        rw [hjk]
        exact (h k down htells).symm
      · exact Iff.rfl
    rw [Session.setKey_ofNat, hsame]
    show { s with machine := s.machine.setKeys s.machine.keys } = s
    rw [Machine.setKeys_self hs]
  cases event with
  | keyDown key =>
    cases hk : key.key? with
    | none => simp [Event.op?, hk]
    | some k =>
      have hop : (Event.keyDown key).op? = some (.press (UInt8.ofNat k.val)) :=
        congrArg (Option.map _) hk
      rw [hop]
      exact hput k true (if_pos hk)
  | keyUp key =>
    cases hk : key.key? with
    | none => simp [Event.op?, hk]
    | some k =>
      have hop : (Event.keyUp key).op? = some (.release (UInt8.ofNat k.val)) :=
        congrArg (Option.map _) hk
      rw [hop]
      exact hput k false (if_pos hk)
  | quit | other | lag _ => rfl

/-- **A turn** says of a key what its events say: the step and the ticks say nothing. -/
theorem Turn.filterMap_ops {t : Turn} (h : t.polled.2 = false) (k : Key) :
    t.ops.filterMap (Session.Op.tells? k) = t.events.filterMap (Event.tells? k) := by
  have hopen : t.events.any Event.closes = false := by rw [← t.polled_closes, h]
  have hticks : ∀ n, (List.replicate n Session.Op.tick).filterMap (Session.Op.tells? k) = [] :=
    fun n => List.filterMap_replicate_of_none rfl
  rw [ops, List.filterMap_append, filterMap_keyOpsOf hopen]
  cases t.ending? with
  | none =>
    rw [List.filterMap_cons, hticks]
    exact List.append_nil _
  | some ending =>
    cases ending with
    | windowClosed | halted _ | unshown _ => exact List.append_nil _

theorem filterMap_flatMap_ops {turns : List Turn} (h : ∀ t ∈ turns, t.ending? = none) (k : Key) :
    (turns.flatMap Turn.ops).filterMap (Session.Op.tells? k) =
      (turns.map Turn.events).flatten.filterMap (Event.tells? k) := by
  induction turns with
  | nil => rfl
  | cons t turns ih =>
    obtain ⟨ht, hturns⟩ := List.forall_mem_cons.mp h
    rw [List.flatMap_cons, List.filterMap_append, Turn.filterMap_ops (Turn.of_more ht).1, ih hturns,
      List.map_cons, List.flatten_cons, List.filterMap_append]

/-- Behind a poll that stays open, the keys are as the script has told of them so far. -/
theorem Player.mem_keys_polled (p : Player) {script : List (List Event)} {j : Nat} {t : Turn}
    (h : (p.turnsOf script)[j]? = some t) (hopen : t.polled.2 = false) (k : Key) :
    k ∈ t.polled.1.session.machine.keys ↔
      ((script.take (j + 1)).flatten.filterMap (Event.tells? k)).getLast?.getD
        (decide (k ∈ p.session.machine.keys)) = true := by
  obtain ⟨hsession, hbefore⟩ := p.session_turnsOf script h
  have hevents : t.events.any Event.closes = false := by rw [← t.polled_closes, hopen]
  rw [t.session_polled, hsession, ← Session.runOps_append, Session.mem_keys_runOps,
    List.filterMap_append, filterMap_flatMap_ops hbefore, filterMap_keyOpsOf hevents,
    ← p.events_take h hopen, List.flatten_append, List.flatten_singleton, List.filterMap_append]

namespace Host

variable (host : Host) (options : Options) (program : List UInt8)

theorem sound_turnsOf {j : Nat} {t : Turn}
    (h : ((host.firstPlayer options program).turnsOf host.script)[j]? = some t) :
    t.player.session.machine.Sound := by
  obtain ⟨hsession, -⟩ := Player.session_turnsOf _ _ h
  rw [hsession]
  exact Session.sound_runOps_of_sound
    (Session.sound_runOps (host.random options) [.load program]) _

theorem keys_firstPlayer : (host.firstPlayer options program).session.machine.keys = ∅ :=
  Session.keys_perform (.fresh (host.random options)) (.load program)

end Host

/-- **The keypad follows the keyboard.** Every key of the keypad has one keyboard key that stands
for it, and no player ever tells of a key that the keypad does not have. When a turn takes its step,
a key is down exactly if the last event so far that is about its keyboard key says that it has gone
down. An event that is about no such key, or that says what is so already, leaves the session as it
is: keys that stand for nothing, the release of escape, repeats, lags, events that mean nothing. -/
theorem Host.keypad_follows_keyboard (host : Host) (options : Options)
    (rom : Except FileError (List UInt8)) :
    (∀ k : Key, ∃! key : KeyboardKey, key.key? = some k) ∧
    (∀ number, LogEntry.keyIgnored number ∉ (host.play options rom).log) ∧
    ((host.play options rom).polls ≠ 0 → ∃ program, rom = .ok program ∧
      ∀ (j : Nat) t, ((host.firstPlayer options program).turnsOf host.script)[j]? = some t →
        (t.polled.2 = false →
          (∃ n, t.after.session =
            t.polled.1.session.step.after.runOps (List.replicate n .tick)) ∧
          ∀ k, k ∈ t.polled.1.session.machine.keys ↔
            ((host.script.take (j + 1)).flatten.filterMap (Event.tells? k)).getLast? =
              some true) ∧
        ∀ before event later, t.events = before ++ event :: later →
          (before ++ [event]).any Event.closes = false →
          let s := (Turn.mk t.player before).polled.1.session
          (∀ k down, event.tells? k = some down → (k ∈ s.machine.keys ↔ down = true)) →
          (Turn.mk t.player (before ++ [event])).polled.1.session = s) := by
  refine ⟨fun k => ?_, fun number => ?_, fun hpolls => ?_⟩
  · refine ⟨.ofKey k, KeyboardKey.key?_eq_some.mpr rfl, ?_⟩
    intro key hkey
    exact KeyboardKey.key?_eq_some.mp hkey
  · rcases host.play_cases options rom with ⟨error, -, hreport⟩ | ⟨program, -, -, hreport⟩ |
      ⟨program, -, -, -, hreport⟩ | ⟨program, -, -, -, failure, window, pictures, -, hreport⟩ |
      ⟨program, -, -, -, -, hreport⟩
    · rw [hreport]
      exact List.not_mem_nil
    · rw [hreport]
      exact List.not_mem_nil
    · rw [hreport]
      simp [Report.early]
    · rw [hreport]
      simp [Report.early]
    · rw [hreport, host.log_play]
      cases ((host.firstPlayer options program).play host.script).2 with
      | windowClosed | halted _ | unshown _ => simp [Ending.notice?]
  · obtain ⟨program, hrom, -⟩ := play_eq_ofPlayer hpolls
    refine ⟨program, hrom, fun j t ht => ⟨fun hopen => ?_, ?_⟩⟩
    · refine ⟨⟨_, Turn.session_after_of_open hopen⟩, fun k => ?_⟩
      rw [Player.mem_keys_polled _ ht hopen, host.keys_firstPlayer options program]
      have hnone : decide (k ∈ (∅ : KeySet)) = false := decide_eq_false (KeySet.not_mem_empty k)
      rw [hnone]
      cases ((host.script.take (j + 1)).flatten.filterMap (Event.tells? k)).getLast? with
      | none => simp
      | some down => simp
    · intro before event later hevents hopen s htold
      have hs : s.machine.Sound := by
        show (Turn.mk t.player before).polled.1.session.machine.Sound
        rw [Turn.session_polled]
        exact Session.sound_runOps_of_sound (host.sound_turnsOf options program ht) _
      have hpolled : s = t.player.session.runOps (keyOpsOf before) := Turn.session_polled _
      rw [Turn.session_polled, keyOpsOf_concat hopen, Session.runOps_append, ← hpolled,
        runOps_of_told hs htold]

/-- Key 4 goes down, a wait begins, the key repeats, and goes up again where key 0 goes down. The
repeat is not noticed, and a key that stands for nothing neither. -/
theorem Host.repeat_in_wait_is_not_noticed :
    let host : Host := .reliable
      [[.keyDown ⟨"Q"⟩, .keyDown ⟨"F1"⟩, .keyUp .escape], [.other, .keyDown ⟨"Q"⟩, .keyUp ⟨"X"⟩],
        [.keyDown ⟨"X"⟩, .lag 5, .keyUp ⟨"Q"⟩]] (Vector.replicate 8 0)
    let program : List UInt8 := [0xF1, 0x0A]
    let options : Options := ⟨"wait.ch8", 10, some 0⟩
    let turns := (host.firstPlayer options program).turnsOf host.script
    (host.play options (.ok program)).polls ≠ 0 ∧
      ∃ second third, turns[1]? = some second ∧ turns[2]? = some third ∧
        4 ∈ second.polled.1.session.machine.keys ∧ ¬ 4 ∈ third.polled.1.session.machine.keys ∧
        0 ∈ third.polled.1.session.machine.keys ∧
        (Turn.mk second.player [.other, .keyDown ⟨"Q"⟩]).polled.1.session =
          (Turn.mk second.player [.other]).polled.1.session := by
  have of_play : ∀ (host : Host) options program,
      let turns := (host.firstPlayer options program).turnsOf host.script
      let said (j : Nat) (k : Key) :=
        ((host.script.take (j + 1)).flatten.filterMap (Event.tells? k)).getLast?
      (host.play options (.ok program)).polls ≠ 0 ∧
        turns[1]?.map (fun t => (t.events, t.polled.2,
            decide (4 ∈ (Turn.mk t.player [.other]).polled.1.session.machine.keys))) =
          some ([.other, .keyDown ⟨"Q"⟩, .keyUp ⟨"X"⟩], false, true) ∧
        turns[2]?.map (·.polled.2) = some false ∧
        said 1 4 = some true ∧ said 2 4 = some false ∧ said 2 0 = some true →
      (host.play options (.ok program)).polls ≠ 0 ∧
        ∃ second third, turns[1]? = some second ∧ turns[2]? = some third ∧
          4 ∈ second.polled.1.session.machine.keys ∧ ¬ 4 ∈ third.polled.1.session.machine.keys ∧
          0 ∈ third.polled.1.session.machine.keys ∧
          (Turn.mk second.player [.other, .keyDown ⟨"Q"⟩]).polled.1.session =
            (Turn.mk second.player [.other]).polled.1.session := by
    rintro host options program turns said ⟨hpolls, hsecond, hthird, hdown, hup, hdown'⟩
    obtain ⟨second, hs, hfacts⟩ := Option.map_eq_some_iff.mp hsecond
    obtain ⟨third, ht, hopen'⟩ := Option.map_eq_some_iff.mp hthird
    obtain ⟨hevents, hopen, hheld⟩ : second.events = _ ∧ second.polled.2 = false ∧ _ := by
      simpa only [Prod.mk.injEq] using hfacts
    obtain ⟨-, -, hplay⟩ := keypad_follows_keyboard host options (.ok program)
    obtain ⟨program', hprogram, hturn⟩ := hplay hpolls
    cases hprogram
    obtain ⟨hkeys, hsilent⟩ := hturn 1 second hs
    obtain ⟨hkeys', -⟩ := hturn 2 third ht
    refine ⟨hpolls, second, third, hs, ht, ((hkeys hopen).2 4).mpr hdown, ?_,
      ((hkeys' hopen').2 0).mpr hdown',
      hsilent [.other] (.keyDown ⟨"Q"⟩) [.keyUp ⟨"X"⟩] hevents rfl fun k down htells => ?_⟩
    · intro hmem
      have htrue := ((hkeys' hopen').2 4).mp hmem
      cases hup.symm.trans htrue
    · -- The keyboard key is the one of key 4, which is down.
      have hkey : KeyboardKey.key? ⟨"Q"⟩ = some 4 := by decide
      have htold : (if some (4 : Key) = some k then some true else none) = some down := by
        rw [← hkey]
        exact htells
      split at htold
      · next hk =>
        cases hk
        cases htold
        exact iff_of_true (of_decide_eq_true hheld) rfl
      · cases htold
  exact of_play _ _ _ (by decide +kernel)

end Chip8
