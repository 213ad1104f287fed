import Chip8.Proofs.Deeds

/-!
# The latest write

Four things write to memory: switching the machine on (or resetting it), loading a program, and
the two instructions that store. **Every byte is what the latest of them to reach it has put
there** (`Session.byte_eq_latest_write`), and a deed reaches exactly the bytes that
`Deed.writes?` says: a refused program none, and a step that fails none.

The law is an equation for a single deed (`Deed.byte_after`) with the latest write on its right; the
font is safe because, of all writes, only the stores of the program can reach it.
-/

set_option autoImplicit false

namespace Chip8

namespace Memory

/-- What a byte is when the machine is switched on: the font, and zeros behind it. -/
def initialByte (a : Nat) : UInt8 := Font.bytes[a]?.getD 0

theorem byte_powerOn (a : Nat) : powerOn.byte a = initialByte a := by
  have hfont : Font.start + Font.bytes.length ≤ size := by decide
  rw [powerOn, zero.byte_place_getD hfont, byte_zero]
  split
  · rfl
  · next hout =>
    have hlength : Font.bytes.length ≤ a := by
      have hstart : Font.start = 0 := rfl
      omega
    rw [initialByte, List.getElem?_eq_none hlength]

end Memory

namespace Session

theorem load_of_le (s : Session) {program : List UInt8} (h : program.length ≤ 3584) :
    s.load program =
      ⟨.ok (), { s with machine.memory := s.machine.memory.place Memory.programStart program },
        [.programLoaded program.length]⟩ := by
  simp only [load, Machine.load, Memory.load, if_pos (show _ ≤ Memory.maxProgramSize from h)]
  rfl

theorem load_of_not_le (s : Session) {program : List UInt8} (h : ¬ program.length ≤ 3584) :
    s.load program =
      ⟨.error (.programTooLarge program.length Memory.maxProgramSize), s, []⟩ := by
  simp only [load, Machine.load, Memory.load, if_neg (show ¬ _ ≤ Memory.maxProgramSize from h)]
  rfl

theorem load_result_ok_iff (s : Session) (program : List UInt8) :
    (s.load program).result = .ok () ↔ program.length ≤ 3584 := by
  by_cases h : program.length ≤ 3584
  · simp [s.load_of_le h, h]
  · simp [s.load_of_not_le h, h]

end Session

/-! ## One deed -/

namespace Deed

/-- What a deed writes to the byte at an address, if it writes there. -/
def writes? (d : Deed) (a : Nat) : Option UInt8 :=
  match d.op with
  | .reset => some (Memory.initialByte a)
  | .load program =>
    match (d.session.load program).result with
    | .ok _ => if 0x200 ≤ a ∧ a < 0x200 + program.length then program[a - 0x200]? else none
    | .error _ => none
  | _ => d.executed?.bind fun ins => d.session.machine.writes? ins a

theorem byte_after_load (s : Session) (program : List UInt8) (a : Nat) :
    (s.load program).after.machine.memory.byte a =
      ((Deed.mk s (.load program)).writes? a).getD (s.machine.memory.byte a) := by
  by_cases hlength : program.length ≤ 3584
  · have hfits : Memory.programStart + program.length ≤ Memory.size :=
      Nat.add_le_add_left hlength 512
    simp only [writes?, s.load_of_le hlength]
    exact s.machine.memory.byte_place_getD hfits a
  · simp only [writes?, s.load_of_not_le hlength]
    rfl

/-- A deed leaves a byte at what it writes there, and as it was if it writes nothing there. -/
theorem byte_after (d : Deed) (a : Nat) :
    d.after.machine.memory.byte a = (d.writes? a).getD (d.session.machine.memory.byte a) := by
  obtain ⟨s, op⟩ := d
  have of_keyOp : op.isKeyOp = true →
      (s.perform op).after.machine.memory.byte a = s.machine.memory.byte a := by
    intro hk
    rcases s.perform_keyOp hk with ⟨keys, ha⟩ | ha
    · rw [ha]
      rfl
    · rw [ha]
  cases op with
  | reset => exact Memory.byte_powerOn a
  | load program => exact byte_after_load s program a
  | tick => rfl
  | press key | release key | setKeys keys => exact of_keyOp rfl
  | step =>
    show s.step.after.machine.memory.byte a = _
    rcases step_cases s with ⟨ins, hexec, heffect⟩ | ⟨hexec, hkept⟩
    · simp only [writes?, hexec, Option.bind_some]
      exact heffect.byte a
    · simp only [writes?, hexec, Option.bind_none, hkept]
      rfl

/-- Whatever is written to the font is the font again, as long as the program stores nothing
there. -/
theorem writes?_font {d : Deed} {a : Nat} {b : UInt8} (ha : a < 80)
    (hfar : ∀ x, d.executed? = some (.storeDecimal x) ∨ d.executed? = some (.storeRegisters x) →
      80 ≤ d.session.machine.i.toNat)
    (h : d.writes? a = some b) : b = Memory.initialByte a := by
  have of_executed : (d.executed?.bind fun ins => d.session.machine.writes? ins a) ≠ some b := by
    intro hstored
    obtain ⟨ins, hexec, hwrites⟩ := Option.bind_eq_some_iff.mp hstored
    cases ins with
    | storeDecimal x =>
      have hi := hfar x (Or.inl hexec)
      rw [Machine.writes?, if_neg (by omega)] at hwrites
      cases hwrites
    | storeRegisters x =>
      have hi := hfar x (Or.inr hexec)
      rw [Machine.writes?, if_neg (by omega)] at hwrites
      cases hwrites
    | _ => cases hwrites
  unfold writes? at h
  split at h
  · exact (Option.some.inj h).symm
  · split at h
    · rw [if_neg (by omega)] at h
      cases h
    · cases h
  · exact absurd h of_executed

end Deed

/-! ## A history -/

namespace Session

theorem byte_runOps (random : RandomStream) (ops : List Op) (a : Nat) :
    ((fresh random).runOps ops).machine.memory.byte a =
      ((((fresh random).deeds ops).filterMap fun d => d.writes? a).getLast?).getD
        (Memory.initialByte a) := by
  induction ops using List.reverseRecOn with
  | nil => exact Memory.byte_powerOn a
  | append_singleton ops op ih =>
    rw [runOps_concat, deeds_concat, List.filterMap_append, List.getLast?_append, Deed.byte_after,
      ih]
    -- The latest write is that of the last deed, if it writes here.
    cases hwrites : (Deed.mk ((fresh random).runOps ops) op).writes? a with
    | some b => simp [hwrites]
    | none => simp [hwrites]

theorem font_runOps (random : RandomStream) {ops : List Op}
    (hfar : ∀ d ∈ (fresh random).deeds ops, ∀ x,
      d.executed? = some (.storeDecimal x) ∨ d.executed? = some (.storeRegisters x) →
        80 ≤ d.session.machine.i.toNat) {a : Nat} (ha : a < 80) :
    ((fresh random).runOps ops).machine.memory.byte a = Memory.initialByte a := by
  rw [byte_runOps]
  cases hlast : (((fresh random).deeds ops).filterMap fun d => d.writes? a).getLast? with
  | none => rfl
  | some b =>
    obtain ⟨d, hd, hwrites⟩ := List.mem_filterMap.mp (List.mem_of_getLast? hlast)
    exact Deed.writes?_font ha (hfar d hd) hwrites

/-- **Every byte is what was written to it last**, and nothing writes to memory but switching on,
resetting, loading, and the two instructions that store. A program is loaded exactly if it has at
most 3584 bytes, and one that is refused writes nothing. So the font is safe from any program that
does not store anything there. -/
theorem byte_eq_latest_write (random : RandomStream) (ops : List Op) :
    let s := (fresh random).runOps ops
    let ds := (fresh random).deeds ops
    (∀ a, s.machine.memory.byte a =
      ((ds.filterMap fun d => d.writes? a).getLast?).getD (Memory.initialByte a)) ∧
    (∀ program, (s.load program).result = .ok () ↔ program.length ≤ 3584) ∧
    (∀ program fault, (s.load program).result = .error fault → (s.load program).after = s) ∧
    (∀ op a, (Deed.mk s op).writes? a = none →
      (s.perform op).after.machine.memory.byte a = s.machine.memory.byte a) ∧
    ((∀ d ∈ ds, ∀ x,
        d.executed? = some (.storeDecimal x) ∨ d.executed? = some (.storeRegisters x) →
          80 ≤ d.session.machine.i.toNat) →
      ∀ a, a < 80 → s.machine.memory.byte a = Memory.initialByte a) := by
  intro s ds
  refine ⟨byte_runOps random ops, s.load_result_ok_iff, ?_, ?_, ?_⟩
  · intro program fault hrefused
    have hlength : ¬ program.length ≤ 3584 := by
      rw [← s.load_result_ok_iff program, hrefused]
      intro h
      cases h
    rw [s.load_of_not_le hlength]
  · intro op a hnone
    have hafter := (Deed.mk s op).byte_after a
    rw [hnone] at hafter
    exact hafter
  · intro hfar a ha
    exact font_runOps random hfar ha

/-- The digits of 254 are stored, the first of them is stored over, and a refused program changes
neither; the font is still there. -/
theorem digits_stored_over :
    let ops : List Op := [.load [0xA3, 0x00, 0x60, 0xFE, 0xF0, 0x33, 0xF0, 0x55],
      .step, .step, .step, .step, .load (List.replicate 3585 1)]
    let s := (fresh (.ofSeed 0)).runOps ops
    s.machine.memory.slice 0x300 3 = [254, 5, 4] ∧
      (∀ d ∈ (fresh (.ofSeed 0)).deeds ops, ∀ x,
        d.executed? = some (.storeDecimal x) ∨ d.executed? = some (.storeRegisters x) →
          80 ≤ d.session.machine.i.toNat) ∧
      s.machine.memory.byte 79 = Memory.initialByte 79 := by
  have of_run : ∀ ops, let s := (fresh (.ofSeed 0)).runOps ops
      s.machine.memory.slice 0x300 3 = [254, 5, 4] ∧
        (∀ d ∈ (fresh (.ofSeed 0)).deeds ops, ∀ x,
          d.executed? = some (.storeDecimal x) ∨ d.executed? = some (.storeRegisters x) →
            80 ≤ d.session.machine.i.toNat) →
      s.machine.memory.slice 0x300 3 = [254, 5, 4] ∧
        (∀ d ∈ (fresh (.ofSeed 0)).deeds ops, ∀ x,
          d.executed? = some (.storeDecimal x) ∨ d.executed? = some (.storeRegisters x) →
            80 ≤ d.session.machine.i.toNat) ∧
        s.machine.memory.byte 79 = Memory.initialByte 79 := by
    intro ops s h
    obtain ⟨hbytes, hfar⟩ := h
    obtain ⟨-, -, -, -, hfont⟩ := byte_eq_latest_write (.ofSeed 0) ops
    exact ⟨hbytes, hfar, hfont hfar 79 (by decide)⟩
  exact of_run _ (by decide +kernel)

end Session

end Chip8
