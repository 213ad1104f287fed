import Chip8.Proofs.KeyUpdates
import Chip8.Proofs.Periphery

/-!
# Either order

An owner who has a cycle to run, a tick to give and a key to tell of has to begin with one of them.
Mostly the order does not matter (`Session.operations_commute`), for two reasons.

A tick changes the timers and nothing else, and a key operation what is known of the keys. These are
parts of the periphery, so a step takes no notice of either unless its instruction is one of the
three that have to do with that part; whether the step succeeds, fails, or has been stopped before
does not matter.

Two operations on different keys both change what is known of the keys. There the reason is another:
the set in between leaves no trace, because keys that are held are down. Without that the order does
matter, as the last example shows.
-/

set_option autoImplicit false

namespace Chip8

/-! ## What the operations change -/

/-- What a tick makes of a timer. -/
def countDown (timer : UInt8) : UInt8 := if timer = 0 then 0 else timer - 1

/-- The set with a key, given by its number, told to be down or up. -/
def KeySet.tell (keys : KeySet) (key : UInt8) (down : Bool) : KeySet :=
  if h : key.toNat < 16 then keys.put ⟨key.toNat, h⟩ down else keys

theorem KeySet.mem_tell {keys : KeySet} {key : UInt8} {down : Bool} {k : Key} :
    k ∈ keys.tell key down ↔ if k.val = key.toNat then down = true else k ∈ keys := by
  unfold tell
  split
  · next h => simp only [mem_put, Fin.ext_iff]
  · next h =>
    -- There is no such key, so none is asked for.
    have hne : k.val ≠ key.toNat := fun hk => h (hk ▸ k.isLt)
    rw [if_neg hne]

section

variable {j k : UInt8} (h : j ≠ k)
include h

theorem KeySet.mem_tell_of_other {keys : KeySet} {down : Bool} {i : Key} (hi : i.val = k.toNat) :
    i ∈ keys.tell j down ↔ i ∈ keys := by
  have hne : i.val ≠ j.toNat := fun hj => h (UInt8.toNat_inj.mp (hj.symm.trans hi))
  rw [mem_tell, if_neg hne]

theorem KeySet.tell_comm (keys : KeySet) (down down' : Bool) :
    (keys.tell j down).tell k down' = (keys.tell k down').tell j down := by
  refine KeySet.ext_mem fun i => ?_
  by_cases hi : i.val = k.toNat
  · rw [mem_tell_of_other h hi, mem_tell, if_pos hi, mem_tell, if_pos hi]
  · rw [mem_tell, if_neg hi, mem_tell, mem_tell, mem_tell, if_neg hi]

/-- What is down before and after is down in between. -/
theorem KeySet.mem_tell_between {keys : KeySet} {down down' : Bool} {i : Key} (hi : i ∈ keys)
    (hlast : i ∈ (keys.tell j down).tell k down') : i ∈ keys.tell j down := by
  by_cases hk : i.val = k.toNat
  · exact (mem_tell_of_other h hk).mpr hi
  · rwa [mem_tell, if_neg hk] at hlast

end

namespace Session

/-- What a key operation makes of the keys that are down. -/
def Op.told : Op → KeySet → KeySet
  | press key, keys => keys.tell key true
  | release key, keys => keys.tell key false
  | setKeys keys, _ => keys
  | _, keys => keys

/-- The key that a press or a release tells of. -/
def Op.key? : Op → Option UInt8
  | press key | release key => some key
  | _ => none

theorem Op.told_of_key? {op : Op} {key : UInt8} (h : op.key? = some key) :
    ∃ down, ∀ keys : KeySet, op.told keys = keys.tell key down := by
  cases op with
  | press k =>
    obtain rfl : k = key := Option.some.inj h
    exact ⟨true, fun keys => rfl⟩
  | release k =>
    obtain rfl : k = key := Option.some.inj h
    exact ⟨false, fun keys => rfl⟩
  | load _ | step | tick | setKeys _ | reset => cases h

theorem Op.isKeyOp_of_key? {op : Op} {key : UInt8} (h : op.key? = some key) :
    op.isKeyOp = true := by
  cases op with
  | press _ | release _ => rfl
  | load _ | step | tick | setKeys _ | reset => cases h

theorem tick_eq_mapPeriphery (s : Session) :
    (s.perform .tick).after = s.mapPeriphery (.mapTimers countDown) := rfl

section

variable {s : Session} (hs : s.machine.Sound)
include hs

/-- Here it matters that the machine is sound: a number that is no key's is ignored, which is the
same as telling once more of the keys that are down anyway. -/
theorem setKey_eq_mapPeriphery (key : UInt8) (down : Bool) :
    (s.setKey key down).after = s.mapPeriphery (.mapKeys (·.tell key down)) := by
  show _ = { s with machine := s.machine.setKeys (s.machine.keys.tell key down) }
  unfold KeySet.tell
  split
  · next h => rw [s.setKey_of_lt h]; rfl
  · next h => rw [s.setKey_of_le (Nat.le_of_not_lt h), Machine.setKeys_self hs]

theorem keyOp_eq_mapPeriphery {op : Op} (h : op.isKeyOp = true) :
    (s.perform op).after = s.mapPeriphery (.mapKeys op.told) := by
  cases op with
  | press key => exact setKey_eq_mapPeriphery hs key true
  | release key => exact setKey_eq_mapPeriphery hs key false
  | setKeys keys => rfl
  | load _ | step | tick | reset => cases h

end

theorem keyOp_result (s : Session) {op : Op} (h : op.isKeyOp = true) :
    (s.perform op).result = .done := by
  cases op with
  | press _ | release _ | setKeys _ => rfl
  | load _ | step | tick | reset => cases h

/-! ## Pairs of operations -/

/-- It does not matter which of two operations comes first: both orders end in the same session, and
in both of them each operation gets the reply that it would get on its own. -/
structure EitherOrder (s : Session) (op op' : Op) : Prop where
  after : ((s.perform op).after.perform op').after = ((s.perform op').after.perform op).after
  result : ((s.perform op').after.perform op).result = (s.perform op).result
  result' : ((s.perform op).after.perform op').result = (s.perform op').result

/-- A step and an operation that changes nothing but what the instruction leaves out. -/
theorem EitherOrder.step {s : Session} {op : Op} {g : Periphery → Periphery}
    (hexec : ∀ ins, s.next? = some ins →
      ins.execute (s.machine.mapPeriphery g) =
        (ins.execute s.machine).map fun q => (q.1, q.2.mapPeriphery g))
    (hop : (s.perform op).after = s.mapPeriphery g)
    (hop' : (s.step.after.perform op).after = s.step.after.mapPeriphery g)
    (hresult : (s.step.after.perform op).result = (s.perform op).result) :
    s.EitherOrder .step op where
  after := by
    show (s.step.after.perform op).after = (s.perform op).after.step.after
    rw [hop, hop', step_comm hexec]
  result := by
    show Reply.stepped (s.perform op).after.step.result = .stepped s.step.result
    rw [hop, step_comm hexec]
  result' := hresult

theorem step_tick {s : Session} (h : ∀ ins, s.next? = some ins → ins.isTimed = false) :
    s.EitherOrder .step .tick :=
  .step (fun ins hn => ins.execute_mapTimers s.machine countDown (h ins hn)) s.tick_eq_mapPeriphery
    s.step.after.tick_eq_mapPeriphery rfl

section

variable {s : Session} (hs : s.machine.Sound)
include hs

theorem tick_keyOp {op : Op} (h : op.isKeyOp = true) : s.EitherOrder .tick op where
  after := by
    have hticked : (s.perform .tick).after.machine.Sound := sound_perform hs
    rw [keyOp_eq_mapPeriphery hticked h, keyOp_eq_mapPeriphery hs h]
    rfl
  result := rfl
  result' := by rw [keyOp_result _ h, keyOp_result _ h]

theorem step_keyOp {op : Op} (h : op.isKeyOp = true)
    (hnext : ∀ ins, s.next? = some ins → ins.isKeyed = false) : s.EitherOrder .step op :=
  .step (fun ins hn => ins.execute_mapKeys s.machine (hnext ins hn) op.told)
    (keyOp_eq_mapPeriphery hs h) (keyOp_eq_mapPeriphery (sound_step hs) h)
    (by rw [keyOp_result _ h, keyOp_result _ h])

/-- What is told of one key and then of another is told of both at once. -/
theorem keyOp_keyOp_after {op op' : Op} {j k : UInt8} (hj : op.key? = some j)
    (hk : op'.key? = some k) (h : j ≠ k) :
    ((s.perform op).after.perform op').after =
      (s.setKeys (op'.told (op.told s.machine.keys))).after := by
  have hfirst : (s.perform op).after.machine.Sound := sound_perform hs
  rw [keyOp_eq_mapPeriphery hfirst (Op.isKeyOp_of_key? hk),
    keyOp_eq_mapPeriphery hs (Op.isKeyOp_of_key? hj)]
  obtain ⟨down, hop⟩ := Op.told_of_key? hj
  obtain ⟨down', hop'⟩ := Op.told_of_key? hk
  show ((s.setKeys (op.told s.machine.keys)).after.setKeys
    (op'.told (op.told s.machine.keys))).after = _
  rw [hop', hop]
  exact setKeys_setKeys hs fun i => KeySet.mem_tell_between h

theorem keyOp_keyOp {op op' : Op} {j k : UInt8} (hj : op.key? = some j) (hk : op'.key? = some k)
    (h : j ≠ k) : s.EitherOrder op op' where
  after := by
    obtain ⟨down, hop⟩ := Op.told_of_key? hj
    obtain ⟨down', hop'⟩ := Op.told_of_key? hk
    rw [keyOp_keyOp_after hs hj hk h, keyOp_keyOp_after hs hk hj h.symm]
    simp only [hop, hop']
    rw [KeySet.tell_comm h]
  result := by
    rw [keyOp_result _ (Op.isKeyOp_of_key? hj), keyOp_result _ (Op.isKeyOp_of_key? hj)]
  result' := by
    rw [keyOp_result _ (Op.isKeyOp_of_key? hk), keyOp_result _ (Op.isKeyOp_of_key? hk)]

end

/-! ## The whole statement -/

/-- **Independent operations commute**, in any session that can be reached, stopped or not, and with
any part of the session compared. A step does with a tick, unless it runs one of the instructions that
read or set a timer; a tick does with every key operation; a step does with every key operation,
unless it runs one of the instructions that ask for keys; and two presses or releases of different
keys do, in the middle of a wait too. -/
theorem operations_commute (random : RandomStream) (before : List Op) :
    let s := (fresh random).runOps before
    ((∀ ins, s.next? = some ins → ins.isTimed = false) → s.EitherOrder .step .tick) ∧
    (∀ op, op.isKeyOp = true → s.EitherOrder .tick op) ∧
    ((∀ ins, s.next? = some ins → ins.isKeyed = false) →
      ∀ op, op.isKeyOp = true → s.EitherOrder .step op) ∧
    ∀ op op' j k, op.key? = some j → op'.key? = some k → j ≠ k → s.EitherOrder op op' := by
  intro s
  have hs : s.machine.Sound := sound_runOps random before
  exact ⟨step_tick, fun op => tick_keyOp hs, fun hnext op hop => step_keyOp hs hop hnext,
    fun op op' j k => keyOp_keyOp hs⟩

/-- In a wait that began with key 3 down, and before a return without a call. -/
theorem orders_in_a_wait :
    let waiting := (fresh (.ofSeed 0)).runOps [.load [0xF1, 0x0A], .press 3, .step]
    let failing := (fresh (.ofSeed 0)).runOps [.load [0x00, 0xEE]]
    waiting.machine.heldOnWait = some (KeySet.ofList [3]) ∧
      waiting.EitherOrder .step .tick ∧
      waiting.EitherOrder .tick (.release 3) ∧
      waiting.EitherOrder (.press 7) (.release 3) ∧
      failing.step.result = .error (.stackUnderflow 0x200) ∧
      failing.EitherOrder .step (.press 7) := by
  intro waiting failing
  have hwaits : waiting.next? = some (.awaitKey 1) := by decide +kernel
  have hreturns : failing.next? = some .ret := by decide +kernel
  have hheld : waiting.machine.heldOnWait = some (KeySet.ofList [3]) := by decide +kernel
  have hfails : failing.step.result = .error (.stackUnderflow 0x200) := by decide +kernel
  obtain ⟨htimed, htick, -, hkeys⟩ :=
    operations_commute (.ofSeed 0) [.load [0xF1, 0x0A], .press 3, .step]
  obtain ⟨-, -, hkeyed, -⟩ := operations_commute (.ofSeed 0) [.load [0x00, 0xEE]]
  refine ⟨hheld, htimed fun ins hn => ?_, htick (.release 3) rfl,
    hkeys (.press 7) (.release 3) 7 3 rfl rfl (by decide), hfails,
    hkeyed (fun ins hn => ?_) (.press 7) rfl⟩
  · obtain rfl : Instruction.awaitKey 1 = ins := Option.some.inj (hwaits.symm.trans hn)
    rfl
  · obtain rfl : Instruction.ret = ins := Option.some.inj (hreturns.symm.trans hn)
    rfl

-- No owner gets there, but of a key that is held and not down one order would let go.
example :
    let s : Session :=
      ⟨{ Machine.fresh (.ofSeed 0) with heldOnWait := some (KeySet.ofList [3]) }, none⟩
    ((s.perform (.press 3)).after.perform (.release 5)).after.machine.heldOnWait =
        some (KeySet.ofList [3]) ∧
      ((s.perform (.release 5)).after.perform (.press 3)).after.machine.heldOnWait = some ∅ := by
  decide +kernel

end Session

end Chip8
