import Chip8.Proofs.Cycle

/-!
# Histories

What an owner has done with a session is a list of operations. This file has the vocabulary in
which statements about such lists are made: the session that comes of one (`Session.runOps`), the
sessions in which its steps were taken (`stepsOf`), the result of the last step since the machine
was last made new (`lastStep`), the sets of keys that its key operations left (`keysAfter`), and
all that was logged (`logOf`).

An invariant is proved once per operation and then holds along every history (`runOps_induction`).
Operations other than steps and resets are **quiet**: whatever they are, they leave the registers,
the counter, the stack, the frame and the random stream alone (`perform_quiet`).
-/

set_option autoImplicit false

namespace Chip8

namespace Session

/-! ## Running operations -/

@[simp] theorem runOps_nil (s : Session) : s.runOps [] = s := rfl

@[simp] theorem runOps_cons (s : Session) (op : Op) (ops : List Op) :
    s.runOps (op :: ops) = (s.perform op).after.runOps ops := rfl

@[simp] theorem runOps_append (s : Session) (ops later : List Op) :
    s.runOps (ops ++ later) = (s.runOps ops).runOps later := by
  simp only [runOps, List.foldl_append]

/-- What one operation keeps, all keep. -/
theorem runOps_induction {P : Session → Prop} (kept : ∀ s op, P s → P (s.perform op).after)
    {s : Session} (h : P s) (ops : List Op) : P (s.runOps ops) := by
  induction ops generalizing s with
  | nil => exact h
  | cons op ops ih => exact ih (kept s op h)

@[simp] theorem perform_step_after (s : Session) : (s.perform .step).after = s.step.after := rfl

@[simp] theorem perform_step_log (s : Session) : (s.perform .step).log = s.step.log := rfl

/-! ## Looking back -/

/-- The sessions in which the steps among the operations are taken. -/
def stepsOf (s : Session) : List Op → List Session
  | [] => []
  | .step :: ops => s :: stepsOf s.step.after ops
  | op :: ops => stepsOf (s.perform op).after ops

/-- The result of the last step, unless there was none since the last reset. -/
def lastStep (s : Session) (ops : List Op) : Option (Except Fault Cycle) :=
  (ops.foldl (fun (p : Session × Option (Except Fault Cycle)) op =>
    ((p.1.perform op).after,
      match op with
      | .step => some p.1.step.result
      | .reset => none
      | _ => p.2)) (s, none)).2

/-- Does the operation tell of keys? -/
def Op.isKeyOp : Op → Bool
  | press _ | release _ | setKeys _ => true
  | _ => false

/-- The sets of keys that are down right after each of the key operations. -/
def keysAfter (s : Session) : List Op → List KeySet
  | [] => []
  | op :: ops =>
    let after := (s.perform op).after
    if op.isKeyOp then after.machine.keys :: keysAfter after ops else keysAfter after ops

/-- All that the operations log. -/
def logOf (s : Session) : List Op → List LogEntry
  | [] => []
  | op :: ops => (s.perform op).log ++ logOf (s.perform op).after ops

theorem stepsOf_append (s : Session) (ops later : List Op) :
    s.stepsOf (ops ++ later) = s.stepsOf ops ++ (s.runOps ops).stepsOf later := by
  induction ops generalizing s with
  | nil => rfl
  | cons op ops ih =>
    cases op with
    | step => simp only [List.cons_append, stepsOf, ih, runOps_cons, perform_step_after]
    | _ => simp only [List.cons_append, stepsOf, ih, runOps_cons]

theorem keysAfter_append (s : Session) (ops later : List Op) :
    s.keysAfter (ops ++ later) = s.keysAfter ops ++ (s.runOps ops).keysAfter later := by
  induction ops generalizing s with
  | nil => rfl
  | cons op ops ih =>
    simp only [List.cons_append, keysAfter, ih, runOps_cons]
    split
    · rfl
    · rfl

theorem lastStep_concat (s : Session) (ops : List Op) (op : Op) :
    s.lastStep (ops ++ [op]) =
      match op with
      | .step => some (s.runOps ops).step.result
      | .reset => none
      | _ => s.lastStep ops := by
  -- Along the walk behind `lastStep` the sessions are those of the run.
  have walk : ∀ (ops : List Op) (s : Session) (last : Option (Except Fault Cycle)),
      (ops.foldl (fun (p : Session × Option (Except Fault Cycle)) op =>
        ((p.1.perform op).after,
          match op with
          | .step => some p.1.step.result
          | .reset => none
          | _ => p.2)) (s, last)).1 = s.runOps ops := by
    intro ops
    induction ops with
    | nil => intro s last; rfl
    | cons op ops ih => intro s last; exact ih _ _
  simp only [lastStep, List.foldl_append, List.foldl_cons, List.foldl_nil, walk]

/-! ## Quiet operations -/

/-- Is the operation neither a step nor a reset? -/
def Op.isQuiet : Op → Bool
  | step | reset => false
  | _ => true

theorem Op.quiet_or_step {op : Op} (h : op ≠ .reset) : op.isQuiet = true ∨ op = .step := by
  cases op with
  | step => exact Or.inr rfl
  | reset => exact absurd rfl h
  | load _ | tick | press _ | release _ | setKeys _ => exact Or.inl rfl

theorem stepsOf_cons_quiet (s : Session) {op : Op} (h : op.isQuiet = true) (ops : List Op) :
    s.stepsOf (op :: ops) = (s.perform op).after.stepsOf ops := by
  cases op with
  | step | reset => cases h
  | load _ | tick | press _ | release _ | setKeys _ => rfl

theorem lastStep_concat_quiet (s : Session) (ops : List Op) {op : Op} (h : op.isQuiet = true) :
    s.lastStep (ops ++ [op]) = s.lastStep ops := by
  rw [lastStep_concat]
  cases op with
  | step | reset => cases h
  | load _ | tick | press _ | release _ | setKeys _ => rfl

end Session

/-- Two machines that differ at most in memory, timers and what is known of the keys. -/
structure Machine.SameCore (m m' : Machine) : Prop where
  v : m'.v = m.v
  i : m'.i = m.i
  pc : m'.pc = m.pc
  stack : m'.stack = m.stack
  frame : m'.frame = m.frame
  dirty : m'.dirty = m.dirty
  random : m'.random = m.random

theorem Machine.SameCore.refl (m : Machine) : SameCore m m := ⟨rfl, rfl, rfl, rfl, rfl, rfl, rfl⟩

theorem Machine.SameCore.trans {m m' m'' : Machine} (h : SameCore m m') (h' : SameCore m' m'') :
    SameCore m m'' :=
  ⟨h'.v.trans h.v, h'.i.trans h.i, h'.pc.trans h.pc, h'.stack.trans h.stack,
    h'.frame.trans h.frame, h'.dirty.trans h.dirty, h'.random.trans h.random⟩

/-- What a quiet operation does to a machine. -/
inductive Machine.Touched (m : Machine) : Machine → Prop
  | loaded (memory : Memory) : Touched m { m with memory }
  | ticked : Touched m m.tick
  | keyed (keys : KeySet) : Touched m (m.setKeys keys)
  /-- A program was refused, or a key was told of that the keypad does not have. -/
  | kept : Touched m m

namespace Session

theorem setKey_after (s : Session) (key : UInt8) (down : Bool) :
    (∃ keys, (s.setKey key down).after = { s with machine := s.machine.setKeys keys }) ∨
      (s.setKey key down).after = s := by
  unfold setKey
  split
  · exact Or.inl ⟨_, rfl⟩
  · exact Or.inr rfl

theorem perform_keyOp (s : Session) {op : Op} (h : op.isKeyOp = true) :
    (∃ keys, (s.perform op).after = { s with machine := s.machine.setKeys keys }) ∨
      (s.perform op).after = s := by
  cases op with
  | press key => exact s.setKey_after key true
  | release key => exact s.setKey_after key false
  | setKeys keys => exact Or.inl ⟨keys, rfl⟩
  | load _ | step | tick | reset => cases h

/-- A quiet operation touches the machine and leaves the fault. -/
theorem perform_touched (s : Session) {op : Op} (h : op.isQuiet = true) :
    ∃ m, s.machine.Touched m ∧ (s.perform op).after = { s with machine := m } := by
  have of_keyOp : op.isKeyOp = true →
      ∃ m, s.machine.Touched m ∧ (s.perform op).after = { s with machine := m } := by
    intro hk
    rcases s.perform_keyOp hk with ⟨keys, ha⟩ | ha
    · exact ⟨_, .keyed keys, ha⟩
    · exact ⟨_, .kept, ha⟩
  cases op with
  | load program =>
    show ∃ m, s.machine.Touched m ∧ (s.load program).after = { s with machine := m }
    unfold load
    split
    · next m hm =>
      obtain ⟨memory, -, rfl⟩ := Except.map_eq_ok.mp hm
      exact ⟨_, .loaded memory, rfl⟩
    · exact ⟨_, .kept, rfl⟩
  | tick => exact ⟨_, .ticked, rfl⟩
  | press key => exact of_keyOp rfl
  | release key => exact of_keyOp rfl
  | setKeys keys => exact of_keyOp rfl
  | step | reset => cases h

/-- **A quiet operation leaves the fault and the core of the machine alone.** -/
theorem perform_quiet (s : Session) {op : Op} (h : op.isQuiet = true) :
    (s.perform op).after.fault = s.fault ∧
      s.machine.SameCore (s.perform op).after.machine := by
  obtain ⟨m, ht, ha⟩ := s.perform_touched h
  rw [ha]
  refine ⟨rfl, ?_⟩
  cases ht with
  | loaded _ | ticked | keyed _ | kept => exact ⟨rfl, rfl, rfl, rfl, rfl, rfl, rfl⟩

theorem runOps_quiet (s : Session) {ops : List Op} (h : ∀ op ∈ ops, op.isQuiet = true) :
    (s.runOps ops).fault = s.fault ∧ s.machine.SameCore (s.runOps ops).machine := by
  induction ops generalizing s with
  | nil => exact ⟨rfl, .refl s.machine⟩
  | cons op ops ih =>
    obtain ⟨hop, hops⟩ := List.forall_mem_cons.mp h
    obtain ⟨hfault, hcore⟩ := s.perform_quiet hop
    obtain ⟨hfault', hcore'⟩ := ih (s.perform op).after hops
    exact ⟨hfault'.trans hfault, hcore.trans hcore'⟩

end Session

end Chip8
