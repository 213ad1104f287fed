import Chip8.Proofs.Deeds
import Chip8.Proofs.Soundness
import Mathlib.Data.List.DropRight

/-!
# The timers

A timer is set by one instruction of its own, goes down with every tick and stops at zero. Nothing
else moves it, and nothing holds it up: **at any time it stands at what it was last set to, less
the ticks since** (`Session.timers_count_down`). A reset counts as setting both to zero, and so
does switching the machine on.

The law is one equation for a single deed (`Deed.timer_after`), carried along a history from the
last deed backwards, because both the last setting and the ticks since it are read off the end of
the history.
-/

set_option autoImplicit false

namespace Chip8

/-- What a deed sets a timer to, if it sets it. -/
def Deed.sets? (d : Deed) (t : Timer) : Option UInt8 :=
  match d.op with
  | .reset => some 0
  | _ => d.executed?.bind fun ins => d.session.machine.sets? ins t

namespace Timer

/-- What the timer was set to last; zero, if it has not been set since the machine was switched
on. -/
def lastSetting (t : Timer) (ds : List Deed) : UInt8 :=
  ((ds.filterMap fun d => d.sets? t).getLast?).getD 0

/-- How many ticks there have been since the timer was set last. -/
def ticksSince (t : Timer) (ds : List Deed) : Nat :=
  (ds.rtakeWhile fun d => (d.sets? t).isNone).countP fun d => d.op = .tick

/-- What is left on the timer: nothing, if there have been as many ticks as it was set to. -/
def left (t : Timer) (ds : List Deed) : Nat := (t.lastSetting ds).toNat - t.ticksSince ds

theorem left_concat (t : Timer) (ds : List Deed) (d : Deed) :
    t.left (ds ++ [d]) =
      match d.sets? t with
      | some b => b.toNat
      | none => if d.op = .tick then t.left ds - 1 else t.left ds := by
  unfold left lastSetting ticksSince
  rw [List.filterMap_append, List.rtakeWhile_concat]
  cases hset : d.sets? t with
  | some b => simp [hset]
  | none =>
    by_cases hop : d.op = .tick
    · simp [hset, hop, Nat.sub_add_eq]
    · simp [hset, hop]

end Timer

namespace Machine

theorem toNat_timer_tick (m : Machine) (t : Timer) :
    (m.tick.timer t).toNat = (m.timer t).toNat - 1 := by
  have down : ∀ b : UInt8, (if b = 0 then 0 else b - 1).toNat = b.toNat - 1 := by
    intro b
    split
    · next hb =>
      rw [hb]
      rfl
    · next hb =>
      have hpos : b.toNat ≠ 0 := fun h => hb (UInt8.toNat_inj.mp h)
      have hle : (1 : UInt8) ≤ b := UInt8.le_iff_toNat_le.mpr (Nat.one_le_iff_ne_zero.mpr hpos)
      rw [UInt8.toNat_sub_of_le b 1 hle]
      rfl
  cases t with
  | delay => exact down m.delay
  | sound => exact down m.sound

theorem beeping_iff (m : Machine) : m.beeping = true ↔ 0 < (m.timer .sound).toNat := by
  rw [beeping, decide_eq_true_iff, UInt8.lt_iff_toNat_lt]
  rfl

/-- The sound expires in a tick exactly if the buzzer sounds before it and not behind it. -/
theorem line_tickLog (m : Machine) :
    m.tickLog.map LogEntry.line =
      if m.beeping = true ∧ m.tick.beeping = false then ["DEBUG sound timer expired"] else [] := by
  have hexpires : m.sound = 1 ↔ m.beeping = true ∧ m.tick.beeping = false := by
    rw [← Bool.not_eq_true, beeping_iff, beeping_iff, m.toNat_timer_tick, ← UInt8.toNat_inj]
    show m.sound.toNat = 1 ↔ 0 < m.sound.toNat ∧ ¬ 0 < m.sound.toNat - 1
    omega
  unfold tickLog
  by_cases hsound : m.sound = 1
  · rw [if_pos hsound, if_pos (hexpires.mp hsound)]
    rfl
  · rw [if_neg hsound, if_neg (mt hexpires.mpr hsound)]
    rfl

end Machine

/-! ## One deed -/

theorem Session.timer_perform_quiet (s : Session) {op : Session.Op} (hq : op.isQuiet = true)
    (ht : op ≠ .tick) (t : Timer) :
    (s.perform op).after.machine.timer t = s.machine.timer t := by
  have of_keyOp : op.isKeyOp = true →
      (s.perform op).after.machine.timer t = s.machine.timer t := by
    intro hk
    rcases s.perform_keyOp hk with ⟨keys, ha⟩ | ha
    · rw [ha]
      cases t with
      | delay => rfl
      | sound => rfl
    · rw [ha]
  cases op with
  | load program =>
    show (s.load program).after.machine.timer t = s.machine.timer t
    unfold Session.load
    split
    · next m hm =>
      obtain ⟨memory, -, rfl⟩ := Except.map_eq_ok.mp hm
      cases t with
      | delay => rfl
      | sound => rfl
    · rfl
  | press key | release key | setKeys keys => exact of_keyOp rfl
  | tick => exact absurd rfl ht
  | step | reset => cases hq

/-- A deed leaves a timer at what it sets it to; if it does not set it, a tick takes one off and
every other deed leaves it. -/
theorem Deed.timer_after (d : Deed) (t : Timer) :
    (d.after.machine.timer t).toNat =
      match d.sets? t with
      | some b => b.toNat
      | none =>
        if d.op = .tick then (d.session.machine.timer t).toNat - 1
        else (d.session.machine.timer t).toNat := by
  obtain ⟨s, op⟩ := d
  by_cases hreset : op = .reset
  · subst hreset
    cases t with
    | delay => rfl
    | sound => rfl
  rcases Session.Op.quiet_or_step hreset with hq | rfl
  · have hnone : (Deed.mk s op).sets? t = none := by
      have hexec : (Deed.mk s op).executed? = none := by
        apply executed?_eq_none
        rintro rfl
        cases hq
      cases op with
      | step | reset => cases hq
      | load _ | tick | press _ | release _ | setKeys _ =>
        simp only [sets?, hexec, Option.bind_none]
    rw [hnone]
    dsimp only
    split
    · next htick =>
      cases htick
      exact s.machine.toNat_timer_tick t
    · next htick => exact congrArg UInt8.toNat (s.timer_perform_quiet hq htick t)
  · rcases step_cases s with ⟨ins, hexec, heffect⟩ | ⟨hexec, hkept⟩
    · have hafter := heffect.timer t
      simp only [sets?, hexec, Option.bind_some]
      show (s.step.after.machine.timer t).toNat = _
      rw [hafter]
      cases s.machine.sets? ins t with
      | some b => rfl
      | none => rfl
    · simp only [sets?, hexec, Option.bind_none]
      show (s.step.after.machine.timer t).toNat = _
      rw [hkept]
      rfl

/-! ## A history -/

namespace Session

theorem timer_runOps (random : RandomStream) (ops : List Op) (t : Timer) :
    (((fresh random).runOps ops).machine.timer t).toNat = t.left ((fresh random).deeds ops) := by
  induction ops using List.reverseRecOn with
  | nil =>
    cases t with
    | delay => rfl
    | sound => rfl
  | append_singleton ops op ih =>
    rw [runOps_concat, deeds_concat, Timer.left_concat, Deed.timer_after, ih]

/-- Reading the delay timer gives what it stands at. -/
theorem step_of_readDelay {s : Session} {x : Register} (h : s.next? = some (.readDelay x)) :
    s.step.result = .ok (.executed s.machine.dirty) ∧
      s.step.after.machine.v.get x = s.machine.delay := by
  obtain ⟨hf, hn⟩ := next?_eq_some.mp h
  have hcycle : s.machine.cycle = .ok (.executed s.machine.dirty,
      { (s.machine.setReg x s.machine.delay).advance .next with dirty := false }) := by
    rw [Machine.cycle_of_next? hn]
    rfl
  rw [step_of_ok hf hcycle]
  exact ⟨rfl, Vector.getElem_set_self x.isLt⟩

/-- **A timer stands at what it was last set to, less the ticks since.** That is what an
instruction reads of it, the buzzer sounds as long as anything is left on the sound timer, and the
tick that takes the last of it logs so. A tick takes one off whatever state the machine is in,
halted or waiting, and nothing but a tick or a setting moves a timer. -/
theorem timers_count_down (random : RandomStream) (ops : List Op) :
    let s := (fresh random).runOps ops
    let left := fun t : Timer => t.left ((fresh random).deeds ops)
    (∀ t, (s.machine.timer t).toNat = left t) ∧
    (∀ x, s.next? = some (.readDelay x) →
      s.step.result = .ok (.executed false) ∧
        (s.step.after.machine.v.get x).toNat = left .delay) ∧
    (s.machine.beeping = true ↔ 0 < left .sound) ∧
    (∀ t, ((s.perform .tick).after.machine.timer t).toNat = left t - 1) ∧
    ((s.perform .tick).log.map LogEntry.line =
      if s.machine.beeping = true ∧ (s.perform .tick).after.machine.beeping = false then
        ["DEBUG sound timer expired"]
      else []) ∧
    ∀ op t, op ≠ .tick → (Deed.mk s op).sets? t = none →
      (s.perform op).after.machine.timer t = s.machine.timer t := by
  intro s left
  have hleft : ∀ t, (s.machine.timer t).toNat = left t := timer_runOps random ops
  refine ⟨hleft, ?_, ?_, ?_, s.machine.line_tickLog, ?_⟩
  · intro x hx
    obtain ⟨hresult, hread⟩ := step_of_readDelay hx
    have hclean : s.machine.dirty = false := (sound_runOps random ops).clean
    rw [hclean] at hresult
    refine ⟨hresult, ?_⟩
    rw [hread, ← hleft .delay]
    rfl
  · rw [s.machine.beeping_iff, hleft .sound]
  · intro t
    rw [← hleft t]
    exact s.machine.toNat_timer_tick t
  · intro op t hop hset
    have hafter := (Deed.mk s op).timer_after t
    rw [hset] at hafter
    dsimp only at hafter
    rw [if_neg hop] at hafter
    exact UInt8.toNat_inj.mp hafter

/-- Both timers are set to two and have ticked once; the delay is read, and the next tick ends the
sound. -/
theorem second_tick_ends_sound :
    let ops : List Op :=
      [.load [0x60, 0x02, 0xF0, 0x15, 0xF0, 0x18, 0xF1, 0x07], .step, .step, .step, .tick]
    let s := (fresh (.ofSeed 0)).runOps ops
    s.next? = some (.readDelay 1) ∧ (s.step.after.machine.v.get 1).toNat = 1 ∧
      (s.perform .tick).log.map LogEntry.line = ["DEBUG sound timer expired"] := by
  have of_run : ∀ ops, let s := (fresh (.ofSeed 0)).runOps ops
      s.next? = some (.readDelay 1) ∧ Timer.delay.left ((fresh (.ofSeed 0)).deeds ops) = 1 ∧
        s.machine.beeping = true ∧ (s.perform .tick).after.machine.beeping = false →
      s.next? = some (.readDelay 1) ∧ (s.step.after.machine.v.get 1).toNat = 1 ∧
        (s.perform .tick).log.map LogEntry.line = ["DEBUG sound timer expired"] := by
    intro ops s h
    obtain ⟨hnext, hleft, hends⟩ := h
    obtain ⟨-, hread, -, -, hlog, -⟩ := timers_count_down (.ofSeed 0) ops
    exact ⟨hnext, (hread 1 hnext).2.trans hleft, hlog.trans (if_pos hends)⟩
  exact of_run _ (by decide +kernel)

end Session

end Chip8
