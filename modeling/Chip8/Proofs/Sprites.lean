import Chip8.Proofs.InPlace.Agreement
import Chip8.Proofs.SpriteHits

/-!
# A sprite, pixel by pixel

`draw` flips rows by masks; in place it walks over rows and bits and flips one pixel at a time,
looking at each as it goes. Neither says of a given pixel what becomes of it. Here that is said
from the pixel's side (`Drawing.covers`): counted from the corner of the drawing, around both edges
of the frame, the pixel lies so many rows down and so many columns to the right, **and it is flipped
if the sprite has a set bit there** (`Instruction.draw_flips_covered`).

Collisions and changes are read off the two frames, before and after. There has been a collision if
a pixel has gone dark (`Frame.collides_iff`), and a pixel has changed exactly if the sprite is not
blank (`Frame.exists_lights_iff`), since no flip is undone within one drawing.
-/

set_option autoImplicit false

namespace Chip8

namespace Frame

/-- A sprite collides if it lights a pixel that is lit. -/
theorem collides_iff (f : Frame) (left : Nat) :
    ∀ (sprite : List UInt8) (top : Nat), f.collides left top sprite = true ↔
      ∃ px py, f.pixel px py = true ∧ lights left top px py sprite = true := by
  intro sprite
  induction sprite with
  | nil => simp [collides, lights]
  | cons b rest ih =>
    intro top
    rw [collides, Bool.or_eq_true, bne_iff_ne, Row.ne_zero_iff, ih]
    constructor
    · rintro (⟨x, hx, hmeet⟩ | ⟨px, py, hlit, hrest⟩)
      · -- The row of the frame that this row of the sprite lies on.
        let py : Fin 32 := ⟨top % 32, Nat.mod_lt _ (by decide)⟩
        rw [BitVec.getMsbD_and, Bool.and_eq_true, ← row_mod,
          show f.row (top % 32) = f.row py from rfl, f.getMsbD_row ⟨x, hx⟩ py] at hmeet
        exact ⟨⟨x, hx⟩, py, hmeet.1, by simp [lights, py, hmeet.2]⟩
      · exact ⟨px, py, hlit, by simp [lights, hrest]⟩
    · rintro ⟨px, py, hlit, hlights⟩
      rw [lights, Bool.or_eq_true, Bool.and_eq_true, decide_eq_true_iff] at hlights
      rcases hlights with ⟨hrow, hcolumn⟩ | hrest
      · refine Or.inl ⟨px, px.isLt, ?_⟩
        rw [BitVec.getMsbD_and, ← row_mod, hrow, f.getMsbD_row px py, hlit, hcolumn]
        rfl
      · exact Or.inr ⟨px, py, hlit, hrest⟩

/-- A sprite lights a pixel if and only if it has something on it. -/
theorem exists_lights_iff (left : Nat) :
    ∀ (sprite : List UInt8) (top : Nat),
      (∃ px py, lights left top px py sprite = true) ↔ ∃ b ∈ sprite, b ≠ 0 := by
  intro sprite
  induction sprite with
  | nil => simp [lights]
  | cons b rest ih =>
    intro top
    rw [List.exists_mem_cons_iff, ← ih (top + 1), ← Row.ofByte_ne_zero_iff b left, Row.ne_zero_iff]
    constructor
    · rintro ⟨px, py, hlights⟩
      rw [lights, Bool.or_eq_true, Bool.and_eq_true] at hlights
      rcases hlights with ⟨-, hcolumn⟩ | hrest
      · exact Or.inl ⟨px, px.isLt, hcolumn⟩
      · exact Or.inr ⟨px, py, hrest⟩
    · rintro (⟨x, hx, hcolumn⟩ | ⟨px, py, hrest⟩)
      · exact ⟨⟨x, hx⟩, ⟨top % 32, Nat.mod_lt _ (by decide)⟩, by simp [lights, hcolumn]⟩
      · exact ⟨px, py, by simp [lights, hrest]⟩

end Frame

/-- Does a set bit of the sprite lie on the pixel? The row and the bit are counted from the corner
of the drawing to the pixel, downwards and to the right, around the edges of the frame. -/
def Drawing.covers (d : Drawing) (px : Fin 64) (py : Fin 32) : Bool :=
  let r := ((py.val : Int) - d.top.toNat) % 32
  let b := ((px.val : Int) - d.left.toNat) % 64
  decide (r < d.height.val ∧ b < 8 ∧
    (d.memory.byte (d.start.toNat + r.toNat)).toNat.testBit (7 - b.toNat) = true)

/-- Counting back from the pixel to the corner finds the row and the bit that counting onwards from
the corner would have led to the pixel. -/
theorem Drawing.covers_eq_hits (d : Drawing) (px : Fin 64) (py : Fin 32) :
    d.covers px py = d.hits px py := by
  have hheight := d.height.isLt
  have hx := px.isLt
  have hy := py.isLt
  obtain ⟨r, hr⟩ : ∃ r : Nat, ((py.val : Int) - d.top.toNat) % 32 = r :=
    Int.eq_ofNat_of_zero_le (Int.emod_nonneg _ (by decide))
  obtain ⟨b, hb⟩ : ∃ b : Nat, ((px.val : Int) - d.left.toNat) % 64 = b :=
    Int.eq_ofNat_of_zero_le (Int.emod_nonneg _ (by decide))
  unfold covers hits
  rw [hr, hb]
  refine decide_eq_decide.mpr ⟨?_, ?_⟩
  · rintro ⟨hrow, hcolumn, hbit⟩
    have hrow : r < d.height.val := Int.ofNat_lt.mp hrow
    have hcolumn : b < 8 := Int.ofNat_lt.mp hcolumn
    have hleft : px.val = (d.left.toNat + b) % 64 := by omega
    have htop : py.val = (d.top.toNat + r) % 32 := by omega
    exact ⟨⟨r, hrow⟩, ⟨b, hcolumn⟩, hleft, htop, hbit⟩
  · rintro ⟨r', b', hleft, htop, hbit⟩
    have hrow : r = r'.val := by omega
    have hcolumn : b = b'.val := by omega
    subst hrow hcolumn
    exact ⟨Int.ofNat_lt.mpr r'.isLt, Int.ofNat_lt.mpr b'.isLt, hbit⟩

/-! ## The instruction -/

namespace Instruction

/-- A drawing whose sprite lies within memory is made, and what it leaves is known from the frame
and the sprite as they were. -/
theorem execute_draw {m : Machine} {x y : Register} {height : Fin 16}
    (h : m.i.toNat + height ≤ 4096) :
    let d := m.drawing x y height
    (draw x y height).execute m = .ok (.next,
      { m with
        v := m.v.set 0xF (if m.frame.collides d.left.toNat d.top.toNat d.sprite then 1 else 0)
        frame := m.painted (.draw x y height)
        dirty := m.dirty || d.sprite.any (· != 0) }) := by
  have hread : m.memory.read m.i.toNat height = .ok (m.memory.slice m.i.toNat height) := if_pos h
  simp only [execute, hread]
  rfl

/-- **A draw flips the pixels that its sprite covers**, wherever it lies and whichever registers it
is told the place by, and in place it comes to the same. `VF` tells whether a pixel has gone dark.
The frame is marked if a pixel has changed, which is if the sprite has anything on it. Nothing else
is touched. -/
theorem draw_flips_covered (m : Machine) (x y : Register) (height : Fin 16)
    (h : m.i.toNat + height ≤ 4096) :
    ∃ (frame : Frame) (collision changed : Bool),
      let after : Machine :=
        { m with
          v := m.v.set 0xF (if collision then 1 else 0)
          frame := frame
          dirty := m.dirty || changed }
      (draw x y height).execute m = .ok (.next, after) ∧
      (InPlace.execute (draw x y height).bare).run m = .ok .next after ∧
      (∀ px py, frame.pixel px py =
        (m.frame.pixel px py ^^ (m.drawing x y height).covers px py)) ∧
      (collision = true ↔ ∃ px py, m.frame.pixel px py = true ∧ frame.pixel px py = false) ∧
      (changed = true ↔ ∃ px py, frame.pixel px py ≠ m.frame.pixel px py) ∧
      (changed = true ↔ ∃ r, r < height.val ∧ m.memory.byte (m.i.toNat + r) ≠ 0) := by
  let d := m.drawing x y height
  have hexecute := execute_draw (x := x) (y := y) h
  have hpixel : ∀ px py, (m.painted (.draw x y height)).pixel px py =
      (m.frame.pixel px py ^^ d.covers px py) := by
    intro px py
    rw [m.pixel_painted_draw x y height, Drawing.covers_eq_hits]
  have hlights : ∀ px py,
      Frame.lights d.left.toNat d.top.toNat px py d.sprite = d.covers px py := by
    intro px py
    rw [Drawing.covers_eq_hits, Drawing.hits_eq_lights]
  have hblank : d.sprite.any (· != 0) = true ↔ ∃ b ∈ d.sprite, b ≠ 0 := by
    simp only [List.any_eq_true, bne_iff_ne]
  refine ⟨m.painted (.draw x y height), _, _, hexecute, ?_, hpixel, ?_, ?_, ?_⟩
  · rw [InPlace.run_execute, hexecute]
    rfl
  · rw [Frame.collides_iff]
    refine exists_congr fun px => exists_congr fun py => ?_
    rw [hpixel, hlights]
    cases m.frame.pixel px py with
    | false => simp
    | true => simp
  · rw [hblank, ← Frame.exists_lights_iff d.left.toNat d.sprite d.top.toNat]
    refine exists_congr fun px => exists_congr fun py => ?_
    rw [hpixel, hlights]
    cases m.frame.pixel px py with
    | false => simp
    | true => simp
  · rw [hblank]
    constructor
    · rintro ⟨b, hb, hne⟩
      obtain ⟨r, hr⟩ := List.getElem?_of_mem hb
      obtain ⟨hlt, hbyte⟩ := Memory.getElem?_slice.mp hr
      exact ⟨r, hlt, hbyte ▸ hne⟩
    · rintro ⟨r, hlt, hne⟩
      exact ⟨_, List.mem_of_getElem? (Memory.getElem?_slice.mpr ⟨hlt, rfl⟩), hne⟩

/-- Two rows of the glyph of zero around the lower right corner, from a register that is `VF`
itself. One of its pixels is lit already. -/
theorem draw_around_corner :
    let m : Machine :=
      { Machine.fresh (.ofSeed 0) with
        v := Vector.replicate 16 255
        frame := Frame.dark.flipRow 31 (Row.single 0) }
    m.i.toNat + 2 ≤ 4096 ∧
      ∃ frame, (draw 0xF 0xF 2).execute m =
          .ok (.next, { m with v := m.v.set 0xF 1, frame := frame, dirty := true }) ∧
        frame.pixel 63 31 = true ∧ frame.pixel 0 31 = false ∧ frame.pixel 2 0 = true ∧
        frame.pixel 1 0 = false := by
  intro m
  have hfits : m.i.toNat + 2 ≤ 4096 := by decide
  have hpixels : (m.frame.pixel 63 31 ^^ (m.drawing 0xF 0xF 2).covers 63 31) = true ∧
      (m.frame.pixel 0 31 ^^ (m.drawing 0xF 0xF 2).covers 0 31) = false ∧
      (m.frame.pixel 2 0 ^^ (m.drawing 0xF 0xF 2).covers 2 0) = true ∧
      (m.frame.pixel 1 0 ^^ (m.drawing 0xF 0xF 2).covers 1 0) = false ∧
      m.frame.pixel 0 31 = true := by decide +kernel
  obtain ⟨frame, collision, changed, hexecute, -, hpixel, hcollision, hchanged, -⟩ :=
    draw_flips_covered m 0xF 0xF 2 hfits
  obtain ⟨hright, hleft, hbelow, hinside, hlit⟩ := hpixels
  rw [← hpixel] at hright hleft hbelow hinside
  have hdark : collision = true := hcollision.mpr ⟨0, 31, hlit, hleft⟩
  have hmark : changed = true := hchanged.mpr ⟨0, 31, by simp [hleft, hlit]⟩
  subst hdark hmark
  exact ⟨hfits, frame, hexecute, hright, hleft, hbelow, hinside⟩

end Instruction

end Chip8
