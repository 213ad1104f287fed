import Chip8.Frame

/-!
# Rows pixel by pixel

A row of the frame is a word and a sprite's row is a byte turned around in it. What the drawing
does to a picture is said in columns: **the byte lights column `x` exactly if one of its eight
bits, counted from the left, lies there** (`Row.getMsbD_ofByte_iff`). Words are compared through
their columns, and flips of one row add up.
-/

set_option autoImplicit false

namespace Chip8

namespace Row

/-- The row with one pixel lit. -/
def single (x : Nat) : Row := BitVec.twoPow 64 (63 - x)

theorem getMsbD_single {x x' : Nat} (hx : x < 64) (hx' : x' < 64) :
    (single x).getMsbD x' = decide (x = x') := by
  simp only [single, BitVec.getMsbD, BitVec.getLsbD_twoPow, hx', decide_true, Bool.true_and]
  rw [decide_eq_true (show 63 - x < 64 by omega), Bool.true_and]
  exact decide_eq_decide.mpr (by omega)

theorem ext_column {a b : Row} (h : ∀ x, x < 64 → a.getMsbD x = b.getMsbD x) : a = b :=
  BitVec.eq_of_getMsbD_eq fun x hx => h x hx

theorem ne_zero_iff {a : Row} : a ≠ 0 ↔ ∃ x, x < 64 ∧ a.getMsbD x = true := by
  constructor
  · intro h
    refine Decidable.byContradiction fun hn => h (ext_column fun x hx => ?_)
    have : ¬ a.getMsbD x = true := fun hl => hn ⟨x, hx, hl⟩
    simpa using this
  · rintro ⟨x, hx, hl⟩ rfl
    simp at hl

/-- A byte lights the columns of its bits, the first of them in column `left`. -/
theorem getMsbD_ofByte_iff (b : UInt8) (left : Nat) {x : Nat} (hx : x < 64) :
    (ofByte b left).getMsbD x = true ↔
      ∃ j, j < 8 ∧ b.toBitVec.getMsbD j = true ∧ (left + j) % 64 = x := by
  rw [getMsbD_ofByte b left x hx]
  constructor
  · intro h
    refine ⟨_, ?_, h, by omega⟩
    -- Past the eighth bit a byte has none.
    refine Decidable.byContradiction fun hj => ?_
    rw [BitVec.getMsbD_of_ge _ _ (by omega)] at h
    cases h
  · rintro ⟨j, hj, hb, rfl⟩
    rw [show ((left + j) % 64 + 64 - left % 64) % 64 = j by omega]
    exact hb

theorem ofByte_ne_zero_iff (b : UInt8) (left : Nat) : ofByte b left ≠ 0 ↔ b ≠ 0 := by
  rw [ne_zero_iff]
  constructor
  · rintro ⟨x, hx, hl⟩ rfl
    obtain ⟨j, -, hb, -⟩ := (getMsbD_ofByte_iff 0 left hx).mp hl
    rw [show (0 : UInt8).toBitVec = 0#8 from rfl] at hb
    simp at hb
  · intro hb
    have : ∃ j, j < 8 ∧ b.toBitVec.getMsbD j = true := by
      refine Decidable.byContradiction fun hn => hb ?_
      apply UInt8.toBitVec_inj.mp
      refine BitVec.eq_of_getMsbD_eq fun j hj => ?_
      have : ¬ b.toBitVec.getMsbD j = true := fun hl => hn ⟨j, hj, hl⟩
      rw [show (0 : UInt8).toBitVec = 0#8 from rfl]
      simpa using this
    obtain ⟨j, hj, hl⟩ := this
    have hx : (left + j) % 64 < 64 := Nat.mod_lt _ (by decide)
    exact ⟨_, hx, (getMsbD_ofByte_iff b left hx).mpr ⟨j, hj, hl, rfl⟩⟩

end Row

namespace Frame

theorem row_mod (f : Frame) (y : Nat) : f.row (y % 32) = f.row y := by
  simp only [row, Nat.mod_mod]

theorem flipRow_mod (f : Frame) (y : Nat) (mask : Row) :
    f.flipRow (y % 32) mask = f.flipRow y mask := by
  simp only [flipRow, row, Nat.mod_mod]

theorem row_flipRow (f : Frame) (y y' : Nat) (mask : Row) :
    (f.flipRow y mask).row y' = if y % 32 = y' % 32 then f.row y' ^^^ mask else f.row y' := by
  simp only [row, flipRow, Vector.getElem_set]
  split
  · next h => simp only [h]
  · rfl

theorem flipRow_flipRow (f : Frame) (y : Nat) (a b : Row) :
    (f.flipRow y a).flipRow y b = f.flipRow y (a ^^^ b) := by
  refine ext_pixel fun px py => ?_
  simp only [pixel_flipRow, BitVec.getMsbD_xor]
  by_cases h : y % 32 = py.val
  · simp only [h, decide_true, Bool.true_and, Bool.xor_assoc]
  · simp only [h, decide_false, Bool.false_and, Bool.xor_false]

theorem flipRow_zero (f : Frame) (y : Nat) : f.flipRow y 0 = f := by
  refine ext_pixel fun px py => ?_
  rw [pixel_flipRow]
  simp

/-- Does a sprite with its upper left corner at `left`, `top` light the pixel? -/
def lights (left top : Nat) (px : Fin 64) (py : Fin 32) : List UInt8 → Bool
  | [] => false
  | b :: rest =>
    decide (top % 32 = py) && (Row.ofByte b left).getMsbD px || lights left (top + 1) px py rest

/-- A sprite lights the pixels of its set bits, row by row downwards. -/
theorem lights_iff (left : Nat) (px : Fin 64) (py : Fin 32) :
    ∀ (sprite : List UInt8) (top : Nat), lights left top px py sprite = true ↔
      ∃ r b, sprite[r]? = some b ∧ (top + r) % 32 = py ∧
        ∃ j, j < 8 ∧ b.toBitVec.getMsbD j = true ∧ (left + j) % 64 = px
  | [], top => by simp [lights]
  | b :: rest, top => by
    rw [lights, Bool.or_eq_true, Bool.and_eq_true, decide_eq_true_iff,
      Row.getMsbD_ofByte_iff b left px.isLt, lights_iff left px py rest (top + 1)]
    constructor
    · rintro (⟨hrow, hcolumn⟩ | ⟨r, b', hb', hrow, hcolumn⟩)
      · exact ⟨0, b, rfl, hrow, hcolumn⟩
      · refine ⟨r + 1, b', hb', ?_, hcolumn⟩
        rw [show top + (r + 1) = top + 1 + r by omega]
        exact hrow
    · rintro ⟨r, b', hb', hrow, hcolumn⟩
      cases r with
      | zero =>
        cases hb'
        exact Or.inl ⟨hrow, hcolumn⟩
      | succ r =>
        refine Or.inr ⟨r, b', hb', ?_, hcolumn⟩
        rw [show top + 1 + r = top + (r + 1) by omega]
        exact hrow

/-- A sprite that is not taller than the frame does not come back to a row that it has left. -/
theorem lights_of_row_before (left : Nat) (px : Fin 64) {py : Fin 32} {sprite : List UInt8}
    {top : Nat} (hlength : sprite.length < 32) (hrow : top % 32 = py) :
    lights left (top + 1) px py sprite = false := by
  rw [Bool.eq_false_iff]
  intro h
  obtain ⟨r, b, hb, hr, -⟩ := (lights_iff left px py sprite (top + 1)).mp h
  obtain ⟨hlt, -⟩ := List.getElem?_eq_some_iff.mp hb
  omega

/-- **Drawing flips exactly the pixels that the sprite lights**, each once. -/
theorem pixel_draw (left : Nat) (px : Fin 64) (py : Fin 32) :
    ∀ (sprite : List UInt8) (f : Frame) (top : Nat), sprite.length ≤ 32 →
      (f.draw left top sprite).pixel px py = (f.pixel px py ^^ lights left top px py sprite)
  | [], f, top, _ => by simp [draw, lights]
  | b :: rest, f, top, hlength => by
    rw [List.length_cons] at hlength
    rw [draw, pixel_draw left px py rest _ (top + 1) (by omega), pixel_flipRow, lights]
    by_cases hrow : top % 32 = py.val
    · have hrest : lights left (top + 1) px py rest = false :=
        lights_of_row_before left px (by omega) hrow
      simp [hrow, hrest]
    · simp [hrow]

/-- A sprite with nothing on it leaves the frame. -/
theorem draw_of_blank (left : Nat) :
    ∀ (sprite : List UInt8) (f : Frame) (top : Nat), (sprite.any (· != 0)) = false →
      f.draw left top sprite = f
  | [], f, top, _ => rfl
  | b :: rest, f, top, h => by
    rw [List.any_cons, Bool.or_eq_false_iff] at h
    have hb : b = 0 := by simpa using h.1
    have hzero : Row.ofByte b left = 0 := by
      refine Decidable.byContradiction fun hne => ?_
      exact (Row.ofByte_ne_zero_iff b left).mp hne hb
    rw [draw, hzero, flipRow_zero]
    exact draw_of_blank left rest f (top + 1) h.2

/-- Rows that the sprite does not meet do not matter to a collision. -/
theorem collides_flipRow (f : Frame) (left y : Nat) (mask : Row) :
    ∀ (sprite : List UInt8) (top : Nat),
      (∀ k, k < sprite.length → (top + k) % 32 ≠ y % 32) →
        (f.flipRow y mask).collides left top sprite = f.collides left top sprite
  | [], _, _ => rfl
  | b :: rest, top, h => by
    have hrow : (f.flipRow y mask).row top = f.row top := by
      rw [row_flipRow, if_neg]
      exact fun he => h 0 (Nat.zero_lt_succ _) he.symm
    have hrest := collides_flipRow f left y mask rest (top + 1) fun k hk => by
      rw [show top + 1 + k = top + (k + 1) by omega]
      exact h (k + 1) (Nat.succ_lt_succ hk)
    simp only [collides, hrow, hrest]

end Frame

end Chip8
