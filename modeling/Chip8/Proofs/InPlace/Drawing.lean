import Chip8.Proofs.InPlace.Basic
import Chip8.Proofs.Pixels

/-!
# Drawing bit by bit

In place, a sprite is drawn by two nested loops, and a collision is a pixel that is lit at the
moment its bit comes up. The frame as a value knows no such moments: a row is flipped by a mask,
and collisions are looked for in the frame as it was (`Frame.draw`, `Frame.collides`).

The two agree because no pixel comes up twice. Within a row the eight bits lie in eight columns
(`getMsbD_bits_next`), and a sprite that goes through its buffer has fewer rows than the frame
(`Frame.collides_flipRow`). The invariant of the inner loop is `bits`, the mask of the bits done.
-/

set_option autoImplicit false

namespace Chip8

namespace InPlace

/-- The mask of the first `n` bits of a sprite's row. -/
def bits (b : UInt8) (left : Nat) : Nat → Row
  | 0 => 0
  | n + 1 =>
    if b.toBitVec.getMsbD n then bits b left n ^^^ Row.single ((left + n) % 64)
    else bits b left n

/-- Up to eight bits lie in columns of their own, so each lights its column. -/
theorem getMsbD_bits (b : UInt8) (left : Nat) {x : Nat} (hx : x < 64) :
    ∀ n, n ≤ 8 → ((bits b left n).getMsbD x = true ↔
      ∃ j, j < n ∧ b.toBitVec.getMsbD j = true ∧ (left + j) % 64 = x) := by
  intro n
  induction n with
  | zero =>
    intro _
    simp [bits]
  | succ n ih =>
    intro hn
    have ih := ih (by omega)
    rw [bits]
    split
    · next hb =>
      rw [BitVec.getMsbD_xor, Row.getMsbD_single (Nat.mod_lt _ (by decide)) hx]
      by_cases hc : (left + n) % 64 = x
      · -- The new bit's column: none of the bits before it lies there.
        have hold : (bits b left n).getMsbD x = false := by
          rw [Bool.eq_false_iff]
          intro h
          obtain ⟨j, hj, -, hjx⟩ := ih.mp h
          omega
        simp only [hold, hc, decide_true, Bool.false_xor]
        exact iff_of_true trivial ⟨n, by omega, hb, hc⟩
      · simp only [hc, decide_false, Bool.xor_false, ih]
        constructor
        · rintro ⟨j, hj, hjb, hjx⟩
          exact ⟨j, by omega, hjb, hjx⟩
        · rintro ⟨j, hj, hjb, hjx⟩
          rcases Nat.lt_or_ge j n with hlt | hge
          · exact ⟨j, hlt, hjb, hjx⟩
          · rw [show j = n by omega] at hjx
            exact absurd hjx hc
    · next hb =>
      rw [ih]
      constructor
      · rintro ⟨j, hj, hjb, hjx⟩
        exact ⟨j, by omega, hjb, hjx⟩
      · rintro ⟨j, hj, hjb, hjx⟩
        rcases Nat.lt_or_ge j n with hlt | hge
        · exact ⟨j, hlt, hjb, hjx⟩
        · rw [show j = n by omega] at hjb
          exact absurd hjb hb

theorem bits_eight (b : UInt8) (left : Nat) : bits b left 8 = Row.ofByte b left := by
  refine Row.ext_column fun x hx => ?_
  rw [Bool.eq_iff_iff, getMsbD_bits b left hx 8 (Nat.le_refl 8), Row.getMsbD_ofByte_iff b left hx]

theorem getMsbD_bits_next (b : UInt8) (left : Nat) {n : Nat} (hn : n < 8) :
    (bits b left n).getMsbD ((left + n) % 64) = false := by
  rw [Bool.eq_false_iff]
  intro h
  obtain ⟨j, hj, -, hjx⟩ := (getMsbD_bits b left (Nat.mod_lt _ (by decide)) n (by omega)).mp h
  omega

/-- A row meets a mask with one more pixel if it meets the mask or is lit at the pixel. -/
theorem and_xor_single_ne_zero (r mask : Row) {x : Nat} (hx : x < 64)
    (hfree : mask.getMsbD x = false) :
    (r &&& (mask ^^^ Row.single x) != 0) = ((r &&& mask != 0) || r.getMsbD x) := by
  rw [Bool.eq_iff_iff, Bool.or_eq_true, bne_iff_ne, bne_iff_ne, Row.ne_zero_iff, Row.ne_zero_iff]
  constructor
  · rintro ⟨c, hc, hl⟩
    rw [BitVec.getMsbD_and, BitVec.getMsbD_xor, Row.getMsbD_single hx hc] at hl
    by_cases he : x = c
    · subst he
      simp only [hfree, decide_true, Bool.false_xor, Bool.and_true] at hl
      exact Or.inr hl
    · simp only [he, decide_false, Bool.xor_false] at hl
      exact Or.inl ⟨c, hc, by rw [BitVec.getMsbD_and]; exact hl⟩
  · rintro (⟨c, hc, hl⟩ | hl)
    · rw [BitVec.getMsbD_and] at hl
      refine ⟨c, hc, ?_⟩
      have he : x ≠ c := by
        rintro rfl
        simp [hfree] at hl
      rw [BitVec.getMsbD_and, BitVec.getMsbD_xor, Row.getMsbD_single hx hc]
      simpa only [he, decide_false, Bool.xor_false] using hl
    · refine ⟨x, hx, ?_⟩
      rw [BitVec.getMsbD_and, BitVec.getMsbD_xor, Row.getMsbD_single hx hx, hfree, hl]
      simp

theorem xor_single_ne_zero (mask : Row) {x : Nat} (hx : x < 64) (hfree : mask.getMsbD x = false) :
    mask ^^^ Row.single x ≠ 0 := by
  refine Row.ne_zero_iff.mpr ⟨x, hx, ?_⟩
  rw [BitVec.getMsbD_xor, Row.getMsbD_single hx hx, hfree]
  simp

/-! ## The loops -/

theorem run_flipPixel (m : Machine) {x y : Nat} (hx : x < 64) (hy : y < 32) :
    (flipPixel x y).run m =
      .ok (m.frame.pixel ⟨x, hx⟩ ⟨y, hy⟩)
        { m with frame := m.frame.flipRow y (Row.single x) } := by
  unfold flipPixel
  rw [EStateM.run_bind, EStateM.run_get]
  simp only [dif_pos (And.intro hx hy)]
  rfl

/-- What has been seen, and what has become of the frame, after `n` bits of a row. -/
def afterBits (m : Machine) (left y : Nat) (b : UInt8) (seen : Bool × Bool) (n : Nat) :
    EStateM.Result Stop Machine (Bool × Bool) :=
  .ok (seen.1 || m.frame.row y &&& bits b left n != 0, seen.2 || bits b left n != 0)
    { m with frame := m.frame.flipRow y (bits b left n) }

/-- One bit more. -/
theorem run_drawBit (m : Machine) {left y : Nat} (b : UInt8) (seen : Bool × Bool) {n : Nat}
    (hn : n < 8) (hleft : left < 256) (hy : y < 32) :
    (drawBit left y b
        (seen.1 || m.frame.row y &&& bits b left n != 0, seen.2 || bits b left n != 0) n).run
      { m with frame := m.frame.flipRow y (bits b left n) } =
      afterBits m left y b seen (n + 1) := by
  have hx : (left + n) % 64 < 64 := Nat.mod_lt _ (by decide)
  have hfree := getMsbD_bits_next b left hn
  have hshift : (difference 7 n : Work Nat) = pure (7 - n) := if_pos (by omega)
  have hcolumn : (sum UInt64.size left n : Work Nat) = pure (left + n) :=
    if_pos (show left + n < 18446744073709551616 by omega)
  have hbit : b.toBitVec.getMsbD n = b.toBitVec.getLsbD (7 - n) := by
    rw [BitVec.getMsbD, decide_eq_true (show n < 8 from hn), Bool.true_and]
  unfold drawBit afterBits
  rw [hshift, pure_bind, ← hbit, bits]
  split
  · next hb =>
    rw [hcolumn, pure_bind, EStateM.run_bind]
    have hflip := run_flipPixel { m with frame := m.frame.flipRow y (bits b left n) } hx hy
    rw [show (left + n) % Frame.width = (left + n) % 64 from rfl, hflip]
    have hlit : (m.frame.flipRow y (bits b left n)).pixel ⟨(left + n) % 64, hx⟩ ⟨y, hy⟩ =
        (m.frame.row y).getMsbD ((left + n) % 64) := by
      rw [Frame.pixel_flipRow, hfree, Bool.and_false, Bool.xor_false]
      exact (m.frame.getMsbD_row ⟨_, hx⟩ ⟨y, hy⟩).symm
    simp only [hlit, Frame.flipRow_flipRow, and_xor_single_ne_zero _ _ hx hfree,
      bne_iff_ne.mpr (xor_single_ne_zero _ hx hfree), Bool.or_true, Bool.or_assoc]
    rfl
  · rfl

/-- The inner loop. -/
theorem run_drawBits (m : Machine) {left y : Nat} (b : UInt8) (seen : Bool × Bool)
    (hleft : left < 256) (hy : y < 32) :
    ∀ n, n ≤ 8 →
      ((List.range n).foldlM (drawBit left y b) seen).run m = afterBits m left y b seen n := by
  intro n
  induction n with
  | zero =>
    intro _
    have hframe : m.frame.flipRow y 0#64 = m.frame := m.frame.flipRow_zero y
    simp [afterBits, bits, hframe]
  | succ n ih =>
    intro hn
    rw [List.range_succ, List.foldlM_append, EStateM.run_bind, ih (by omega)]
    rw [afterBits]
    simp only [List.foldlM_cons, List.foldlM_nil, bind_pure]
    exact run_drawBit m b seen hn hleft hy

/-- **The outer loop: drawing in place is drawing.** The picture is that of `Frame.draw` and the
collision that of `Frame.collides`, and something has changed exactly if a byte is not zero. -/
theorem run_drawRows {left top : Nat} (hleft : left < 256) (htop : top < 256) :
    ∀ (sprite : List UInt8) (row : Nat) (seen : Bool × Bool) (m : Machine),
      row + sprite.length ≤ 15 →
        (drawRows left top sprite row seen).run m =
          .ok (seen.1 || m.frame.collides left (top + row) sprite,
              seen.2 || sprite.any (· != 0))
            { m with frame := m.frame.draw left (top + row) sprite }
  | [], _, seen, m, _ => by
    simp [drawRows, Frame.collides, Frame.draw]
  | b :: rest, row, seen, m, h => by
    have hlen : row + 1 + rest.length ≤ 15 := by
      simp only [List.length_cons] at h
      omega
    have hsum : (sum UInt64.size top row : Work Nat) = pure (top + row) :=
      if_pos (show top + row < 18446744073709551616 by omega)
    have hy : (top + row) % 32 < 32 := Nat.mod_lt _ (by decide)
    rw [drawRows, hsum, pure_bind, EStateM.run_bind,
      show (top + row) % Frame.height = (top + row) % 32 from rfl,
      run_drawBits m b seen hleft hy 8 (Nat.le_refl 8), afterBits, bits_eight, Frame.row_mod,
      Frame.flipRow_mod]
    simp only
    rw [run_drawRows hleft htop rest (row + 1) _ _ hlen]
    have hother : ∀ k, k < rest.length → (top + (row + 1) + k) % 32 ≠ (top + row) % 32 := by
      intro k hk
      omega
    have hbyte : (Row.ofByte b left != 0) = (b != 0) := by
      rw [Bool.eq_iff_iff, bne_iff_ne, bne_iff_ne]
      exact Row.ofByte_ne_zero_iff b left
    simp only [Frame.collides_flipRow _ _ _ _ rest _ hother, hbyte, Frame.collides, Frame.draw,
      List.any_cons, Bool.or_assoc, Nat.add_assoc]

end InPlace

end Chip8
