import Chip8.Proofs.Cycle

/-!
# Through memory and back

Registers go to memory by `storeRegisters` and a byte goes there in decimal by `storeDecimal`;
`loadRegisters` brings back what is there. Both ways count from the index on, and neither moves it,
so **what has been stored is loaded again, as far as one loads** (`Instruction.stored_is_loaded`).
The one fact about memory that this rests on is `Memory.slice_place`: reading where something has
been written gives what has been written, from its beginning.
-/

set_option autoImplicit false

namespace Chip8

/-- Reading back as much as one likes of what has been written. -/
theorem Memory.slice_place (m : Memory) {start len : Nat} {data : List UInt8}
    (hfits : start + data.length ≤ size) (hlen : len ≤ data.length) :
    (m.place start data).slice start len = data.take len := by
  refine List.ext_getElem? fun k => ?_
  by_cases hk : k < len
  · have hbyte : (m.place start data).byte (start + k) = data[k] := by
      rw [byte_place m start data _ hfits, if_pos (by omega), Nat.add_sub_cancel_left,
        List.getElem?_eq_getElem (Nat.lt_of_lt_of_le hk hlen)]
      rfl
    rw [getElem?_slice.mpr ⟨hk, hbyte⟩, List.getElem?_take_of_lt hk, List.getElem?_eq_getElem]
  · have hbehind : len ≤ k := Nat.le_of_not_lt hk
    rw [List.getElem?_eq_none (by rw [length_slice]; exact hbehind),
      List.getElem?_take_eq_none hbehind]

namespace Machine

theorem store_of_fits (m : Machine) {start : Nat} {data : List UInt8}
    (h : start + data.length ≤ 4096) :
    m.store start data = .ok { m with memory := m.memory.place start data } := by
  have hwrite : m.memory.write start data = .ok (m.memory.place start data) := if_pos h
  rw [store, hwrite]
  rfl

theorem get_setRegs (m : Machine) (bytes : List UInt8) (k : Register) :
    (m.setRegs bytes).v.get k = bytes[k.val]?.getD (m.v.get k) := by
  unfold setRegs
  exact Vector.getElem_ofFn _

theorem setRegs_i (m : Machine) (bytes : List UInt8) : (m.setRegs bytes).i = m.i := by
  unfold setRegs
  rfl

theorem setRegs_memory (m : Machine) (bytes : List UInt8) :
    (m.setRegs bytes).memory = m.memory := by
  unfold setRegs
  rfl

theorem getElem?_take_v (m : Machine) {k x : Register} (hk : k ≤ x) :
    (m.v.toList.take (x + 1))[k.val]? = some (m.v.get k) := by
  rw [List.getElem?_take_of_lt (Nat.lt_succ_of_le hk), Vector.getElem?_toList,
    Vector.getElem?_eq_getElem k.isLt]
  rfl

/-- The three digits are digits, and they are those of the byte. -/
theorem decimalDigits_value (b : UInt8) :
    ∃ hundreds tens units, decimalDigits b = [hundreds, tens, units] ∧
      (hundreds.toNat < 10 ∧ tens.toNat < 10 ∧ units.toNat < 10) ∧
      100 * hundreds.toNat + 10 * tens.toNat + units.toNat = b.toNat := by
  have hb := b.toNat_lt
  have hhundreds : (b / 100).toNat = b.toNat / 100 := UInt8.toNat_div b 100
  have htens : (b / 10 % 10).toNat = b.toNat / 10 % 10 := by
    rw [UInt8.toNat_mod, UInt8.toNat_div]
    rfl
  have hunits : (b % 10).toNat = b.toNat % 10 := UInt8.toNat_mod b 10
  refine ⟨_, _, _, rfl, ?_, ?_⟩
  · omega
  · omega

end Machine

namespace Instruction

variable {m : Machine}

theorem execute_storeRegisters {x : Register} (h : m.i.toNat + x + 1 ≤ 4096) :
    (storeRegisters x).execute m = .ok (.next,
      { m with memory := m.memory.place m.i.toNat (m.v.toList.take (x + 1)) }) := by
  have hfits : m.i.toNat + (m.v.toList.take (x + 1)).length ≤ 4096 := by
    rw [m.length_take_v x]
    exact h
  rw [execute, m.store_of_fits hfits]
  rfl

theorem execute_storeDecimal {x : Register} (h : m.i.toNat + 3 ≤ 4096) :
    (storeDecimal x).execute m = .ok (.next,
      { m with memory := m.memory.place m.i.toNat (Machine.decimalDigits (m.v.get x)) }) := by
  have hfits : m.i.toNat + (Machine.decimalDigits (m.v.get x)).length ≤ 4096 := h
  exact congrArg (Except.map fun m => (Flow.next, m)) (m.store_of_fits hfits)

/-- Where something has been written, registers are loaded from the beginning of it. -/
theorem execute_loadRegisters {memory : Memory} (data : List UInt8) {x : Register}
    (hfits : m.i.toNat + data.length ≤ 4096) (hlen : x + 1 ≤ data.length)
    (hmemory : m.memory = memory.place m.i.toNat data) :
    ∃ m', (loadRegisters x).execute m = .ok (.next, m') ∧
      (∀ k, k ≤ x → data[k.val]? = some (m'.v.get k)) ∧
      (∀ k, x < k → m'.v.get k = m.v.get k) ∧ m'.i = m.i ∧ m'.memory = m.memory := by
  have hread : m.memory.read m.i.toNat (x + 1) = .ok (data.take (x + 1)) := by
    have hread : m.memory.read m.i.toNat (x + 1) = .ok (m.memory.slice m.i.toNat (x + 1)) :=
      if_pos (show m.i.toNat + (x + 1) ≤ 4096 by omega)
    rw [hread, hmemory, memory.slice_place hfits hlen]
  refine ⟨m.setRegs (data.take (x + 1)), ?_, fun k hk => ?_, fun k hk => ?_,
    m.setRegs_i _, m.setRegs_memory _⟩
  · rw [execute, hread]
    rfl
  · have hlt : k.val < x.val + 1 := Nat.lt_succ_of_le hk
    rw [m.get_setRegs, List.getElem?_take_of_lt hlt,
      List.getElem?_eq_getElem (Nat.lt_of_lt_of_le hlt hlen)]
    rfl
  · rw [m.get_setRegs, List.getElem?_take_eq_none (Nat.succ_le_of_lt hk)]
    rfl

/-- **What has been stored is loaded again.** Of registers stored up to one, those up to any lower
one come back, whatever has become of the registers in the meantime; the others stay as they are. Of
a byte stored in decimal come back its digits. -/
theorem stored_is_loaded (m : Machine) :
    (∀ x y : Register, y ≤ x → m.i.toNat + x + 1 ≤ 4096 →
      ∃ stored, (storeRegisters x).execute m = .ok (.next, stored) ∧ stored.i = m.i ∧
        (∀ a, a < m.i.toNat ∨ m.i.toNat + x < a → stored.memory.byte a = m.memory.byte a) ∧
        ∀ between : Machine, between.i = m.i → between.memory = stored.memory →
          ∃ loaded, (loadRegisters y).execute between = .ok (.next, loaded) ∧
            (∀ k, k ≤ y → loaded.v.get k = m.v.get k) ∧
            (∀ k, y < k → loaded.v.get k = between.v.get k) ∧
            loaded.i = m.i ∧ loaded.memory = stored.memory) ∧
    ∀ x : Register, m.i.toNat + 3 ≤ 4096 →
      ∃ stored loaded, (storeDecimal x).execute m = .ok (.next, stored) ∧
        (loadRegisters 2).execute stored = .ok (.next, loaded) ∧
        ((loaded.v.get 0).toNat < 10 ∧ (loaded.v.get 1).toNat < 10 ∧ (loaded.v.get 2).toNat < 10) ∧
        100 * (loaded.v.get 0).toNat + 10 * (loaded.v.get 1).toNat + (loaded.v.get 2).toNat =
          (m.v.get x).toNat := by
  refine ⟨fun x y hyx hroom => ?_, fun x hroom => ?_⟩
  · have hlength := m.length_take_v x
    have hfits : m.i.toNat + (m.v.toList.take (x + 1)).length ≤ 4096 := by
      rw [hlength]
      exact hroom
    have hprefix : y.val + 1 ≤ (m.v.toList.take (x + 1)).length := by
      rw [hlength]
      exact Nat.succ_le_succ hyx
    refine ⟨_, execute_storeRegisters hroom, rfl, fun a ha => ?_, fun between hi hmemory => ?_⟩
    · exact (m.memory.byte_place _ _ a hfits).trans (if_neg (by omega))
    · rw [← hi] at hfits hmemory
      obtain ⟨loaded, hload, hback, hothers, hindex, hkept⟩ :=
        execute_loadRegisters _ hfits hprefix hmemory
      refine ⟨loaded, hload, fun k hk => ?_, hothers, hindex.trans hi, ?_⟩
      · have hstored := hback k hk
        rw [m.getElem?_take_v (Nat.le_trans hk hyx)] at hstored
        exact (Option.some.inj hstored).symm
      · rw [hkept, hmemory, hi]
  · obtain ⟨hundreds, tens, units, hdigits, hsmall, hvalue⟩ :=
      Machine.decimalDigits_value (m.v.get x)
    have hstore := execute_storeDecimal (x := x) hroom
    rw [hdigits] at hstore
    obtain ⟨loaded, hload, hback, -⟩ := execute_loadRegisters [hundreds, tens, units] (x := 2)
      (m := { m with memory := m.memory.place m.i.toNat [hundreds, tens, units] })
      hroom (Nat.le_refl 3) rfl
    have h₀ : loaded.v.get 0 = hundreds := (Option.some.inj (hback 0 (by decide))).symm
    have h₁ : loaded.v.get 1 = tens := (Option.some.inj (hback 1 (by decide))).symm
    have h₂ : loaded.v.get 2 = units := (Option.some.inj (hback 2 (by decide))).symm
    rw [← h₀, ← h₁, ← h₂] at hsmall hvalue
    exact ⟨_, loaded, hstore, hload, hsmall, hvalue⟩

/-- All sixteen registers to the very end of memory, and three of them back over cleared ones; and
a byte in decimal to where the font begins. -/
theorem registers_at_end_of_memory :
    let digits : Machine :=
      { Machine.fresh (.ofSeed 0) with v := Vector.ofFn fun k => UInt8.ofNat (10 * k) }
    let m : Machine := { digits with i := 0xFF0 }
    ((2 : Register) ≤ 0xF ∧ m.i.toNat + (0xF : Register) + 1 ≤ 4096 ∧ digits.i.toNat + 3 ≤ 4096) ∧
      (∃ stored loaded, (storeRegisters 0xF).execute m = .ok (.next, stored) ∧
        (loadRegisters 2).execute { stored with v := Vector.replicate 16 7 } = .ok (.next, loaded) ∧
        loaded.v.get 0 = 0 ∧ loaded.v.get 1 = 10 ∧ loaded.v.get 2 = 20 ∧ loaded.v.get 3 = 7) ∧
      ∃ stored loaded, (storeDecimal 0xF).execute digits = .ok (.next, stored) ∧
        (loadRegisters 2).execute stored = .ok (.next, loaded) ∧
        100 * (loaded.v.get 0).toNat + 10 * (loaded.v.get 1).toNat + (loaded.v.get 2).toNat = 150 := by
  intro digits m
  have hroom : (2 : Register) ≤ 0xF ∧ m.i.toNat + (0xF : Register) + 1 ≤ 4096 ∧
      digits.i.toNat + 3 ≤ 4096 := by decide
  refine ⟨hroom, ?_, ?_⟩
  · obtain ⟨stored, hstore, hindex, -, hload⟩ :=
      (stored_is_loaded m).1 0xF 2 hroom.1 hroom.2.1
    obtain ⟨loaded, hload, hback, hothers, -⟩ :=
      hload { stored with v := Vector.replicate 16 7 } hindex rfl
    exact ⟨stored, loaded, hstore, hload, hback 0 (by decide), hback 1 (by decide),
      hback 2 (by decide), hothers 3 (by decide)⟩
  · obtain ⟨stored, loaded, hstore, hload, -, hvalue⟩ := (stored_is_loaded digits).2 0xF hroom.2.2
    exact ⟨stored, loaded, hstore, hload, hvalue⟩

end Instruction

end Chip8
