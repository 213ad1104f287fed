import Chip8.Player.Texture
import Chip8.Proofs.Pixels

/-!
# A frame in the buffer of a texture

The owner of a buffer says how many bytes its rows are apart, and that may be more than a row is
long. A frame gets there as one string of bytes (`Texture.pipeline`), which is cut into pieces as
long as a row, and each piece replaces a slice of the buffer. Cutting and slicing can both go wrong:
a piece might straddle two rows, and a slice might lie outside the buffer or be of another length
than its piece (`Texture.replace?`).

**The buffer shows the frame, and nothing else in it changes** (`Texture.buffer_shows_frame`). No
piece straddles, since every row has the same number of bytes (`chunks_flatMap_ofRow`), and no slice
fails, since the last of them ends within the buffer (`copyChunks?_eq_some`). Then it is a question
of where a byte comes to lie: two rows do not meet (`getElem?_fillRows`), and what is in none of
them is kept (`getElem?_fillRows_of_outside`).
-/

set_option autoImplicit false

namespace Chip8

namespace Texture

/-! ## Cutting and slicing -/

/-- Cuts a list into pieces of `n`, the last of which may be shorter. -/
def chunks {α : Type} (n : Nat) : List α → List (List α)
  | [] => []
  | a :: rest => (a :: rest.take (n - 1)) :: chunks n (rest.drop (n - 1))
termination_by l => l.length
decreasing_by
  rw [List.length_drop, List.length_cons]
  omega

/-- Puts bytes in place of the slice from `start` to `stop`, if there is such a slice and it is as
long as they are. -/
def replace? (buffer : Array UInt8) (start stop : Nat) (bytes : List UInt8) :
    Option (Array UInt8) :=
  if start ≤ stop ∧ stop ≤ buffer.size ∧ bytes.length = stop - start then
    some (fill buffer start bytes)
  else none

/-- Puts pieces into a buffer, the first of them where row `y` is. -/
def copyChunks? (buffer : Array UInt8) (pitch y : Nat) : List (List UInt8) → Option (Array UInt8)
  | [] => some buffer
  | bytes :: rest =>
    (replace? buffer (y * pitch) (y * pitch + rowBytes) bytes).bind fun buffer =>
      copyChunks? buffer pitch (y + 1) rest

/-- The bytes of a frame made without regard to its rows: all pixels in one list, the strength of
each, and each strength once for every channel. -/
def pipeline (f : Frame) : List UInt8 :=
  let pixels := f.rows.toList.flatMap fun r => (List.range Frame.width).map fun x => r.getMsbD x
  (pixels.map intensity).flatMap fun strength => List.replicate channels strength

/-- Puts a frame into the buffer of a texture, piece by piece. -/
def render? (f : Frame) (pitch : Nat) (buffer : Array UInt8) : Option (Array UInt8) :=
  copyChunks? buffer pitch 0 (chunks rowBytes (pipeline f))

theorem pipeline_eq_ofFrame (f : Frame) : pipeline f = ofFrame f := by
  simp only [pipeline, List.map_flatMap, List.flatMap_assoc, List.map_map, List.flatMap_map]
  rfl

theorem chunks_append {α : Type} {n : Nat} (hn : 0 < n) {piece : List α} (h : piece.length = n)
    (rest : List α) : chunks n (piece ++ rest) = piece :: chunks n rest := by
  cases piece with
  | nil => exact absurd h (Nat.ne_of_lt hn)
  | cons a tail =>
    have htail : tail.length = n - 1 := by
      rw [← h, List.length_cons, Nat.add_sub_cancel]
    rw [List.cons_append, chunks, ← htail, List.take_left, List.drop_left]

/-! ## The bytes of a row -/

/-- Repeating each element, one finds it at every place of its own repetition. -/
theorem getElem?_flatMap_replicate {α β : Type} (g : α → β) {n c : Nat} (hc : c < n) :
    ∀ (l : List α) (i : Nat),
      (l.flatMap fun a => List.replicate n (g a))[n * i + c]? = l[i]?.map g
  | [], i => rfl
  | a :: rest, 0 => by
    rw [List.flatMap_cons, Nat.mul_zero, Nat.zero_add,
      List.getElem?_append_left (by rw [List.length_replicate]; exact hc),
      List.getElem?_replicate_of_lt hc]
    rfl
  | a :: rest, i + 1 => by
    have hplace : n * (i + 1) + c = n + (n * i + c) := by
      rw [Nat.mul_succ]
      omega
    rw [List.flatMap_cons, hplace, List.getElem?_append_right (by
        rw [List.length_replicate]
        exact Nat.le_add_right _ _),
      List.length_replicate, Nat.add_sub_cancel_left]
    exact getElem?_flatMap_replicate g hc rest i

theorem getElem?_ofRow (r : Row) {x c : Nat} (hx : x < 64) (hc : c < 3) :
    (ofRow r)[3 * x + c]? = some (intensity (r.getMsbD x)) := by
  have hrange : (List.range Frame.width)[x]? = some x := List.getElem?_range hx
  have hbyte := getElem?_flatMap_replicate (fun x => intensity (r.getMsbD x)) hc
    (List.range Frame.width) x
  rw [hrange] at hbyte
  exact hbyte

theorem length_ofRow (r : Row) : (ofRow r).length = rowBytes := by
  simp [ofRow, rowBytes, List.length_flatMap, List.map_const', Frame.width, channels]

theorem intensity_inj {a b : Bool} (h : intensity a = intensity b) : a = b := by
  revert a b
  decide

theorem ofRow_inj {r s : Row} (h : ofRow r = ofRow s) : r = s := by
  refine Row.ext_column fun x hx => intensity_inj ?_
  have hbytes := getElem?_ofRow r hx (show 0 < 3 by decide)
  rw [h, getElem?_ofRow s hx (by decide)] at hbytes
  exact (Option.some.inj hbytes).symm

/-- Every piece of a frame is one of its rows. -/
theorem chunks_flatMap_ofRow (rows : List Row) :
    chunks rowBytes (rows.flatMap ofRow) = rows.map ofRow := by
  induction rows with
  | nil => rw [List.flatMap_nil, chunks, List.map_nil]
  | cons r rest ih =>
    rw [List.flatMap_cons, chunks_append (by decide) (length_ofRow r), ih, List.map_cons]

theorem length_ofFrame (f : Frame) : (ofFrame f).length = 6144 := by
  simp [ofFrame, List.length_flatMap, length_ofRow, List.map_const', rowBytes, Frame.width,
    channels]

theorem ofFrame_inj {f g : Frame} (h : ofFrame f = ofFrame g) : f = g := by
  obtain ⟨rows⟩ := f
  obtain ⟨rows'⟩ := g
  have hpieces : rows.toList.map ofRow = rows'.toList.map ofRow := by
    rw [← chunks_flatMap_ofRow, ← chunks_flatMap_ofRow]
    exact congrArg (chunks rowBytes) h
  rw [Vector.toList_inj.mp ((List.map_inj_right fun _ _ => ofRow_inj).mp hpieces)]

/-! ## Where the bytes come to lie -/

theorem size_fill (buffer : Array UInt8) (start : Nat) (data : List UInt8) :
    (fill buffer start data).size = buffer.size := by
  induction data generalizing buffer start with
  | nil => rfl
  | cons b rest ih => rw [fill, ih, Array.size_setIfInBounds]

theorem getElem?_fill {buffer : Array UInt8} {start : Nat} {data : List UInt8}
    (h : start + data.length ≤ buffer.size) (k : Nat) :
    (fill buffer start data)[k]? =
      if start ≤ k ∧ k < start + data.length then data[k - start]? else buffer[k]? := by
  induction data generalizing buffer start with
  | nil => rw [fill, if_neg (by simp only [List.length_nil]; omega)]
  | cons b rest ih =>
    rw [List.length_cons] at h ⊢
    rw [fill, ih (by rw [Array.size_setIfInBounds]; omega), Array.getElem?_setIfInBounds]
    rcases Nat.lt_trichotomy k start with hlt | rfl | hgt
    · rw [if_neg (by omega), if_neg (by omega), if_neg (by omega)]
    · rw [if_neg (by omega), if_pos rfl, if_pos (by omega), if_pos (by omega), Nat.sub_self]
      rfl
    · have hk : k - start = k - (start + 1) + 1 := by omega
      rw [if_neg (show start ≠ k by omega), hk, List.getElem?_cons_succ]
      by_cases hin : k < start + 1 + rest.length
      · rw [if_pos (by omega), if_pos (by omega)]
      · rw [if_neg (by omega), if_neg (by omega)]

-- Sealed, so that nobody computes the 192 bytes of a row of which nothing is known.
attribute [local irreducible] ofRow in
theorem fillRows_cons (buffer : Array UInt8) (pitch start : Nat) (r : Row) (rest : List Row) :
    fillRows buffer pitch start (r :: rest) =
      fillRows (fill buffer start (ofRow r)) pitch (start + pitch) rest := rfl

theorem size_fillRows (pitch : Nat) (rows : List Row) :
    ∀ (buffer : Array UInt8) (start : Nat),
      (fillRows buffer pitch start rows).size = buffer.size := by
  induction rows with
  | nil => exact fun _ _ => rfl
  | cons r rest ih =>
    intro buffer start
    rw [fillRows_cons, ih, size_fill]

theorem next_row (start pitch y : Nat) :
    start + pitch + y * pitch = start + (y + 1) * pitch := by
  rw [Nat.succ_mul, Nat.add_assoc, Nat.add_comm pitch]

variable {pitch : Nat}

/-- What lies in no row is kept. -/
theorem getElem?_fillRows_of_outside {k : Nat} (rows : List Row) :
    ∀ (buffer : Array UInt8) (start : Nat),
      (∀ y, y < rows.length → start + y * pitch + rowBytes ≤ buffer.size) →
      (∀ y, y < rows.length → ¬ (start + y * pitch ≤ k ∧ k < start + y * pitch + rowBytes)) →
      (fillRows buffer pitch start rows)[k]? = buffer[k]? := by
  induction rows with
  | nil => exact fun _ _ _ _ => rfl
  | cons r rest ih =>
    intro buffer start hfits houtside
    have hfirst := hfits 0 (Nat.succ_pos _)
    have hfirstOutside := houtside 0 (Nat.succ_pos _)
    rw [Nat.zero_mul, Nat.add_zero] at hfirst hfirstOutside
    rw [fillRows_cons, ih, getElem?_fill (by rw [length_ofRow]; exact hfirst), length_ofRow,
      if_neg hfirstOutside]
    · intro y hy
      rw [next_row, size_fill]
      exact hfits (y + 1) (Nat.succ_lt_succ hy)
    · intro y hy
      rw [next_row]
      exact houtside (y + 1) (Nat.succ_lt_succ hy)

/-- Each row is found `pitch` bytes behind the one before, as long as it is not longer than that. -/
theorem getElem?_fillRows (hpitch : rowBytes ≤ pitch) {j : Nat} (hj : j < rowBytes)
    (rows : List Row) :
    ∀ (buffer : Array UInt8) (start y : Nat) (hy : y < rows.length),
      (∀ y, y < rows.length → start + y * pitch + rowBytes ≤ buffer.size) →
      (fillRows buffer pitch start rows)[start + y * pitch + j]? = (ofRow rows[y])[j]? := by
  induction rows with
  | nil => exact fun _ _ _ hy => absurd hy (Nat.not_lt_zero _)
  | cons r rest ih =>
    intro buffer start y hy hfits
    have hrest : ∀ y, y < rest.length →
        start + pitch + y * pitch + rowBytes ≤ (fill buffer start (ofRow r)).size := by
      intro y hy
      rw [next_row, size_fill]
      exact hfits (y + 1) (Nat.succ_lt_succ hy)
    have hfirst := hfits 0 (Nat.succ_pos _)
    rw [Nat.zero_mul, Nat.add_zero] at hfirst
    cases y with
    | zero =>
      -- The later rows begin behind the first.
      rw [fillRows_cons, getElem?_fillRows_of_outside rest _ _ hrest (by
          intro y _ hin
          omega),
        getElem?_fill (by rw [length_ofRow]; exact hfirst), length_ofRow, if_pos (by omega)]
      congr 1
      omega
    | succ y =>
      rw [← next_row, fillRows_cons]
      exact ih _ _ y (Nat.lt_of_succ_lt_succ hy) hrest

/-- Where every row ends within the buffer, each slice is there and as long as a row. -/
theorem copyChunks?_eq_some (rows : List Row) :
    ∀ (buffer : Array UInt8) (y : Nat),
      (∀ k, k < rows.length → y * pitch + k * pitch + rowBytes ≤ buffer.size) →
      copyChunks? buffer pitch y (rows.map ofRow) =
        some (fillRows buffer pitch (y * pitch) rows) := by
  induction rows with
  | nil => exact fun _ _ _ => rfl
  | cons r rest ih =>
    intro buffer y hfits
    have hfirst := hfits 0 (Nat.succ_pos _)
    rw [Nat.zero_mul, Nat.add_zero] at hfirst
    have hslice : y * pitch ≤ y * pitch + rowBytes ∧ y * pitch + rowBytes ≤ buffer.size ∧
        (ofRow r).length = y * pitch + rowBytes - y * pitch := by
      rw [length_ofRow]
      exact ⟨Nat.le_add_right _ _, hfirst, by rw [Nat.add_sub_cancel_left]⟩
    rw [List.map_cons, copyChunks?, replace?, if_pos hslice, Option.bind_some, ih, fillRows_cons,
      Nat.succ_mul]
    intro k hk
    rw [Nat.succ_mul, next_row, size_fill]
    exact hfits (k + 1) (Nat.succ_lt_succ hk)

/-- **The buffer shows the frame, and nothing else in it changes**, however far its rows are apart
and whatever has been in it. No slice fails. Two frames never have the same bytes. -/
theorem buffer_shows_frame (f : Frame) {buffer : Array UInt8} (hpitch : 192 ≤ pitch)
    (hsize : 31 * pitch + 192 ≤ buffer.size) :
    (∃ shown, render? f pitch buffer = some shown ∧ shown = copyTo f pitch buffer ∧
      shown.size = buffer.size ∧
      (∀ (x : Fin 64) (y : Fin 32) (c : Fin 3),
        shown[y * pitch + 3 * x + c]? = some (if f.pixel x y then 255 else 0)) ∧
      ∀ k, (∀ (x : Fin 64) (y : Fin 32) (c : Fin 3), k ≠ y * pitch + 3 * x + c) →
        shown[k]? = buffer[k]?) ∧
    (ofFrame f).length = 6144 ∧ ∀ g, ofFrame g = ofFrame f → g = f := by
  have hlength : f.rows.toList.length = 32 := Vector.length_toList
  have hfits : ∀ y, y < f.rows.toList.length → 0 + y * pitch + rowBytes ≤ buffer.size := by
    intro y hy
    have hlast : y * pitch ≤ 31 * pitch := Nat.mul_le_mul_right pitch (by omega)
    show 0 + y * pitch + 192 ≤ buffer.size
    omega
  have hrender : render? f pitch buffer = some (copyTo f pitch buffer) := by
    have hcopy := copyChunks?_eq_some f.rows.toList buffer 0 (by rwa [Nat.zero_mul])
    rw [Nat.zero_mul] at hcopy
    rw [render?, pipeline_eq_ofFrame, ofFrame, chunks_flatMap_ofRow, hcopy, copyTo]
  refine ⟨⟨_, hrender, rfl, size_fillRows _ _ _ _, fun x y c => ?_, fun k hk => ?_⟩,
    length_ofFrame f, fun g => ofFrame_inj⟩
  · have hj : 3 * x.val + c.val < rowBytes := by
      show 3 * x.val + c.val < 192
      omega
    have hy : y.val < f.rows.toList.length := by
      rw [hlength]
      exact y.isLt
    have hbyte := getElem?_fillRows hpitch hj f.rows.toList buffer 0 y hy hfits
    rw [Nat.zero_add, getElem?_ofRow _ x.isLt c.isLt, ← Nat.add_assoc] at hbyte
    exact hbyte
  · refine getElem?_fillRows_of_outside f.rows.toList buffer 0 hfits fun y hy hin => ?_
    -- A byte within a row is one of the three of a pixel.
    have hj : k - y * pitch < 192 := by
      have hend : k < 0 + y * pitch + 192 := hin.2
      omega
    refine hk ⟨(k - y * pitch) / 3, by omega⟩ ⟨y, by omega⟩ ⟨(k - y * pitch) % 3, by omega⟩ ?_
    show k = y * pitch + 3 * ((k - y * pitch) / 3) + (k - y * pitch) % 3
    omega

/-- Rows 200 bytes apart in a buffer full of sevens, and the last pixel of the frame lit: its blue
is the last byte, and the first byte behind the first row is not touched. -/
theorem last_pixel_beside_padding :
    let f := Frame.dark.setRow 31 1
    let buffer := Array.replicate 6392 (7 : UInt8)
    192 ≤ 200 ∧ 31 * 200 + 192 ≤ buffer.size ∧
      ∃ shown, render? f 200 buffer = some shown ∧ shown[6391]? = some 255 ∧
        shown[192]? = some 7 := by
  intro f buffer
  have hroom : 192 ≤ 200 ∧ 31 * 200 + 192 ≤ buffer.size := by
    rw [Array.size_replicate]
    decide
  obtain ⟨⟨shown, hrender, -, -, hpixels, hkept⟩, -⟩ := buffer_shows_frame f hroom.1 hroom.2
  refine ⟨hroom.1, hroom.2, shown, hrender, ?_, ?_⟩
  · have hlit : f.pixel 63 31 = true := by decide
    have hblue := hpixels 63 31 2
    rwa [if_pos hlit] at hblue
  · have hpadding : ∀ (x : Fin 64) (y : Fin 32) (c : Fin 3),
        192 ≠ y.val * 200 + 3 * x.val + c.val := by
      intro x y c h
      have hfirst : y.val = 0 := by omega
      omega
    rw [hkept 192 hpadding, Array.getElem?_replicate]
    rfl

end Texture

end Chip8
