import Chip8.Proofs.Cycle
import Mathlib.Data.Nat.Bitwise

/-!
# Arithmetic on registers

Five operations on two registers leave a result in the first and a flag in `VF`. What they make of
two numbers is a table (`ArithOp.rule?`), and it is a table of numbers, not of bytes: nothing in it
wraps.

The two registers may be one, and either may be `VF`. **The result and the flag are those of the
numbers as they were, whichever registers held them; and where the result goes into `VF`, it is the
flag that is lost** (`Instruction.arith_follows_rule`). It holds because both registers are read
before either is written, and because the result is written last.
-/

set_option autoImplicit false

namespace Chip8

/-- What an operation with a flag makes of two numbers: its result, which is yet to be cut to eight
bits, and when it raises the flag. -/
def ArithOp.rule? (op : ArithOp) (a b : Nat) : Option (Int × Prop) :=
  match op with
  | add => some ((a : Int) + b, 255 < a + b)
  | sub => some ((a : Int) - b, b ≤ a)
  | subFrom => some ((b : Int) - a, a ≤ b)
  | shiftRight => some ((a : Int) / 2, a % 2 = 1)
  | shiftLeft => some (2 * (a : Int), 128 ≤ a)
  | copy | or | and | xor => none

namespace Machine

/-- `VF` is one if something holds and zero if it does not. -/
def FlagTells (m : Machine) (p : Prop) : Prop :=
  (p → m.v.get 0xF = 1) ∧ (¬ p → m.v.get 0xF = 0)

/-- A number has been put into register `x`, cut to eight bits, and `VF` tells whether something
holds, unless `x` is `VF`. All else is as it was. -/
structure Computed (m : Machine) (x : Register) (result : Int) (raised : Prop) (m' : Machine) :
    Prop where
  result : ((m'.v.get x).toNat : Int) = result % 256
  flag : x ≠ 0xF → m'.FlagTells raised
  others : ∀ k, k ≠ x → k ≠ 0xF → m'.v.get k = m.v.get k
  rest : { m' with v := m.v } = m

variable (m : Machine)

theorem get_setReg (x k : Register) (b : UInt8) :
    (m.setReg x b).v.get k = if x = k then b else m.v.get k := by
  show (m.v.set x b)[k.val] = _
  rw [Vector.getElem_set]
  by_cases h : x = k
  · rw [if_pos (congrArg Fin.val h), if_pos h]
  · rw [if_neg (Fin.val_ne_of_ne h), if_neg h]
    rfl

@[simp] theorem get_setReg_self (x : Register) (b : UInt8) : (m.setReg x b).v.get x = b := by
  rw [get_setReg, if_pos rfl]

theorem get_setReg_of_ne {x k : Register} (h : k ≠ x) (b : UInt8) :
    (m.setReg x b).v.get k = m.v.get k := by
  rw [get_setReg, if_neg (Ne.symm h)]

theorem flagTells_setFlag (flag : Bool) : (m.setFlag flag).FlagTells (flag = true) := by
  unfold setFlag
  refine ⟨fun h => ?_, fun h => ?_⟩
  · rw [get_setReg_self, if_pos h]
  · rw [get_setReg_self, if_neg h]

theorem FlagTells.eq_one_iff {m : Machine} {p : Prop} (h : m.FlagTells p) :
    m.v.get 0xF = 1 ↔ p := by
  refine ⟨fun hone => Classical.byContradiction fun hp => ?_, h.1⟩
  rw [h.2 hp] at hone
  cases hone

/-- The flag first and then the result. -/
theorem computed_setReg_setFlag {x : Register} {r : UInt8} {flag : Bool} {result : Int}
    {raised : Prop} (hresult : (r.toNat : Int) = result % 256) (hflag : flag = true ↔ raised) :
    m.Computed x result raised ((m.setFlag flag).setReg x r) where
  result := by rw [get_setReg_self, hresult]
  flag := by
    intro hx
    have htells := m.flagTells_setFlag flag
    unfold FlagTells at htells ⊢
    rw [get_setReg_of_ne _ (Ne.symm hx), ← hflag]
    exact htells
  others := by
    intro k hkx hkf
    rw [get_setReg_of_ne _ hkx, setFlag, get_setReg_of_ne _ hkf]
  rest := rfl

end Machine

/-- A mask of a single bit meets a byte in which that bit is set. -/
theorem and_ne_zero_of_single {mask : UInt8} {k : Nat} (hmask : mask.toNat = 1 <<< k) (a : UInt8) :
    a &&& mask ≠ 0 ↔ a.toNat / 1 <<< k % 2 = 1 := by
  have hmeet : (a &&& mask).toNat = (a.toNat.testBit k).toNat * 1 <<< k := by
    rw [UInt8.toNat_and, hmask, Nat.one_shiftLeft, Nat.and_two_pow]
  rw [Ne, ← UInt8.toNat_inj, hmeet, Nat.one_shiftLeft, Nat.testBit_eq_decide_div_mod_eq]
  by_cases h : a.toNat / 2 ^ k % 2 = 1
  · simp [h]
  · simp [h]

/-- The bytes that an operation gives are right by the rule for numbers. -/
theorem ArithOp.eval_of_rule {op : ArithOp} {a b : UInt8} {result : Int} {raised : Prop}
    (h : op.rule? a.toNat b.toNat = some (result, raised)) :
    ∃ r flag, op.eval a b = (r, some flag) ∧ (r.toNat : Int) = result % 256 ∧
      (flag = true ↔ raised) := by
  have ha := a.toNat_lt
  have hb := b.toNat_lt
  cases op with
  | copy | or | and | xor => cases h
  | add =>
    cases h
    refine ⟨a + b, _, rfl, ?_, decide_eq_true_iff⟩
    rw [UInt8.toNat_add]
    omega
  | sub =>
    cases h
    refine ⟨a - b, _, rfl, ?_, decide_eq_true_iff⟩
    rw [UInt8.toNat_sub]
    omega
  | subFrom =>
    cases h
    refine ⟨b - a, _, rfl, ?_, decide_eq_true_iff⟩
    rw [UInt8.toNat_sub]
    omega
  | shiftRight =>
    cases h
    have hhalf : (a >>> 1).toNat = a.toNat / 2 := UInt8.toNat_shiftRight a 1
    refine ⟨a >>> 1, _, rfl, ?_, ?_⟩
    · rw [hhalf]
      omega
    · rw [bne_iff_ne, and_ne_zero_of_single (k := 0) rfl, Nat.shiftLeft_zero, Nat.div_one]
  | shiftLeft =>
    cases h
    have hdouble : (a <<< 1).toNat = a.toNat * 2 % 256 := by
      rw [UInt8.toNat_shiftLeft]
      exact congrArg (· % 256) (Nat.shiftLeft_eq a.toNat 1)
    refine ⟨a <<< 1, _, rfl, ?_, ?_⟩
    · rw [hdouble]
      omega
    · rw [bne_iff_ne, and_ne_zero_of_single (k := 7) rfl]
      show a.toNat / 128 % 2 = 1 ↔ 128 ≤ a.toNat
      omega

namespace Instruction

/-- Whichever the registers are, the rule is followed. -/
theorem computed_of_rule (m : Machine) (op : ArithOp) (x y : Register) {result : Int}
    {raised : Prop}
    (h : op.rule? (m.v.get x).toNat (m.v.get y).toNat = some (result, raised)) :
    (arith op x y).execute m = .ok (.next, m.arith op x y) ∧
      m.Computed x result raised (m.arith op x y) := by
  obtain ⟨r, flag, heval, hresult, hflag⟩ := ArithOp.eval_of_rule h
  have harith : m.arith op x y = (m.setFlag flag).setReg x r := by
    unfold Machine.arith
    rw [show op.eval m.v[x] m.v[y] = (r, some flag) from heval]
  rw [harith]
  exact ⟨by rw [execute, harith], m.computed_setReg_setFlag hresult hflag⟩

/-- **Arithmetic follows its rule under every aliasing** of the two registers with each other and
with `VF`. An addition is undone by a subtraction from the same register, and of the two exactly
one raises the flag. -/
theorem arith_follows_rule (m : Machine) (x y : Register) :
    (∀ op result raised,
      op.rule? (m.v.get x).toNat (m.v.get y).toNat = some (result, raised) →
      ∃ m', (arith op x y).execute m = .ok (.next, m') ∧ m.Computed x result raised m') ∧
    (x ≠ y → x ≠ 0xF → y ≠ 0xF →
      ∃ once twice, (arith .add x y).execute m = .ok (.next, once) ∧
        (arith .sub x y).execute once = .ok (.next, twice) ∧
        twice.v.get x = m.v.get x ∧
        (once.v.get 0xF = 1 ∧ twice.v.get 0xF = 0 ∨
          once.v.get 0xF = 0 ∧ twice.v.get 0xF = 1)) := by
  refine ⟨fun op result raised h => ⟨_, computed_of_rule m op x y h⟩, fun hxy hx hy => ?_⟩
  obtain ⟨hadd, honce⟩ := computed_of_rule m .add x y rfl
  let once := m.arith .add x y
  obtain ⟨hsub, htwice⟩ := computed_of_rule once .sub x y rfl
  let twice := once.arith .sub x y
  have ha := (m.v.get x).toNat_lt
  have hb := (m.v.get y).toNat_lt
  have hsum : ((once.v.get x).toNat : Int) = ((m.v.get x).toNat + (m.v.get y).toNat) % 256 :=
    honce.result
  -- The second operand is not written by the addition.
  have hsecond : once.v.get y = m.v.get y := honce.others y (Ne.symm hxy) hy
  have hdifference : ((twice.v.get x).toNat : Int) =
      ((once.v.get x).toNat - (m.v.get y).toNat) % 256 := by
    rw [← hsecond]
    exact htwice.result
  refine ⟨once, twice, hadd, hsub, ?_, ?_⟩
  · apply UInt8.toNat_inj.mp
    omega
  · have hcarry := honce.flag hx
    have hkept := htwice.flag hx
    rw [hsecond] at hkept
    by_cases hover : 255 < (m.v.get x).toNat + (m.v.get y).toNat
    · refine Or.inl ⟨hcarry.1 hover, hkept.2 ?_⟩
      show ¬ (m.v.get y).toNat ≤ (once.v.get x).toNat
      omega
    · refine Or.inr ⟨hcarry.2 hover, hkept.1 ?_⟩
      show (m.v.get y).toNat ≤ (once.v.get x).toNat
      omega

/-- Into `VF` itself goes the sum without its carry. In `V1` a sum that has carried is brought back,
and the flag falls. -/
theorem sum_in_flag_register :
    let m : Machine := { Machine.fresh (.ofSeed 0) with v := Vector.replicate 16 200 }
    ArithOp.add.rule? (m.v.get 0xF).toNat (m.v.get 0xF).toNat = some (400, 255 < 400) ∧
      ((1 : Register) ≠ 2 ∧ (1 : Register) ≠ 0xF ∧ (2 : Register) ≠ 0xF) ∧
      (∃ m', (arith .add 0xF 0xF).execute m = .ok (.next, m') ∧ (m'.v.get 0xF).toNat = 144) ∧
      ∃ once twice, (arith .add 1 2).execute m = .ok (.next, once) ∧
        (arith .sub 1 2).execute once = .ok (.next, twice) ∧ twice.v.get 1 = 200 ∧
        once.v.get 0xF = 1 ∧ twice.v.get 0xF = 0 := by
  intro m
  have hrule : ArithOp.add.rule? (m.v.get 0xF).toNat (m.v.get 0xF).toNat =
      some (400, 255 < 400) := rfl
  have hregs : (1 : Register) ≠ 2 ∧ (1 : Register) ≠ 0xF ∧ (2 : Register) ≠ 0xF := by decide
  obtain ⟨m', hexecute, hm'⟩ := (arith_follows_rule m 0xF 0xF).1 .add _ _ hrule
  obtain ⟨once, twice, hadd, hsub, hback, hflags⟩ :=
    (arith_follows_rule m 1 2).2 hregs.1 hregs.2.1 hregs.2.2
  refine ⟨hrule, hregs, ⟨m', hexecute, ?_⟩, once, twice, hadd, hsub, hback, ?_⟩
  · have hresult := hm'.result
    omega
  · -- The sum, 400, has carried.
    have hcarry : once.v.get 0xF = 1 := by
      cases hadd
      rfl
    refine ⟨hcarry, ?_⟩
    rcases hflags with ⟨-, hfell⟩ | ⟨hzero, -⟩
    · exact hfell
    · rw [hcarry] at hzero
      cases hzero

end Instruction

end Chip8
