import Chip8.Instruction.Encoding
import Chip8.Instruction.Mnemonic
import Chip8.Text.Numeral
import Mathlib.Algebra.Ring.Nat
import Mathlib.Data.List.Basic
import Mathlib.Data.List.TakeWhile

/-!
# From a mnemonic back to its word

An assembler for the lines that a machine writes about itself: a name, a blank, and operands between
commas. An operand is known by its own text (`Operand.ofChars?`), and an instruction by its name and
the kinds of its operands (`Instruction.ofMnemonic?`); `Mnemonic.assemble?` puts these together and
writes the instruction as a word.

**The text tells the word** (`Mnemonic.text_tells_word`): whatever word is read as an instruction is
assembled again from the mnemonic of that instruction, so two words never share a line. Each layer
is read back by itself: digits (`Hex.number?_digits`), operands (`Operand.ofChars?_text`), lines
(`Mnemonic.ofText?_text`), and instructions (`Instruction.ofMnemonic?_eq_some`).
-/

set_option autoImplicit false

namespace Chip8

namespace Hex

/-- The number that digits stand for, if they are digits. -/
def number? (cs : List Char) : Option Nat :=
  cs.foldlM (fun n c => (value? c).map (16 * n + ·)) 0

theorem value?_digit_mod (n : Nat) : value? (digit n) = some (n % 16) := by
  rw [← digit_mod, value?_digit (Nat.mod_lt _ (by decide))]

theorem number?_digits (width n : Nat) : number? (digits width n) = some n := by
  fun_induction digits width n with
  | case1 width n h =>
    simp [number?, value?_digit h.1]
  | case2 width n h ih =>
    have hwhole : 16 * (n / 16) + n % 16 = n := Nat.div_add_mod n 16
    unfold number? at ih ⊢
    rw [List.foldlM_append, ih]
    simp [value?_digit_mod, hwhole]

theorem value?_of_mem_digits {width n : Nat} {c : Char} (h : c ∈ digits width n) :
    ∃ d, value? c = some d := by
  fun_induction digits width n with
  | case1 width n _ =>
    cases List.mem_singleton.mp h
    exact ⟨_, value?_digit_mod n⟩
  | case2 width n _ ih =>
    rcases List.mem_append.mp h with hfront | hlast
    · exact ih hfront
    · cases List.mem_singleton.mp hlast
      exact ⟨_, value?_digit_mod n⟩

/-- A number that fits the width is written in just that many digits. -/
theorem length_digits {width n : Nat} (hwidth : 0 < width) (h : n < 16 ^ width) :
    (digits width n).length = width := by
  induction width generalizing n with
  | zero => exact absurd hwidth (Nat.lt_irrefl 0)
  | succ width ih =>
    rw [digits]
    split
    · next hone => simp only [List.length_singleton]; omega
    · next hmore =>
      have hquotient : n / 16 < 16 ^ width := by
        rw [pow_succ] at h
        exact Nat.div_lt_of_lt_mul (by rwa [Nat.mul_comm])
      cases width with
      | zero =>
        rw [pow_one] at h
        omega
      | succ width =>
        rw [List.length_append, Nat.add_sub_cancel, ih (Nat.succ_pos _) hquotient]
        rfl

end Hex

/-! ## Operands -/

namespace Operand

/-- The operand that a text stands for. -/
def ofChars? : List Char → Option Operand
  | ['V', d] => (Hex.number? [d]).map fun n => register (Fin.ofNat 16 n)
  | ['I'] => some index
  | ['[', 'I', ']'] => some atIndex
  | ['D', 'T'] => some delayTimer
  | ['S', 'T'] => some soundTimer
  | ['K'] => some key
  | ['F'] => some glyph
  | ['B'] => some decimalDigits
  | ['0', 'x', a, b] => (Hex.number? [a, b]).map fun n => byte (UInt8.ofNat n)
  | ['0', 'x', a, b, c] => (Hex.number? [a, b, c]).map fun n => address (Fin.ofNat 4096 n)
  | cs => (Numeral.digits? cs).map fun n => height (Fin.ofNat 16 n)

theorem toList_text_register (x : Register) :
    (register x).text.toList = 'V' :: Hex.digits 1 x := by
  simp [text, Hex.bare]

theorem toList_marked (width n : Nat) :
    (Hex.marked width n).toList = '0' :: 'x' :: Hex.digits width n := by
  simp [Hex.marked, Hex.bare]

theorem ofChars?_text (o : Operand) : ofChars? o.text.toList = some o := by
  cases o with
  | register x =>
    have hlength : (Hex.digits 1 x).length = 1 := Hex.length_digits (by decide) (by simp)
    obtain ⟨d, hd⟩ := List.length_eq_one_iff.mp hlength
    rw [toList_text_register, hd]
    show (Hex.number? [d]).map (fun n => register (Fin.ofNat 16 n)) = some (register x)
    rw [← hd, Hex.number?_digits, Option.map_some]
    exact congrArg (some ∘ register) (Fin.ext (Nat.mod_eq_of_lt x.isLt))
  | byte value =>
    have hlength : (Hex.digits 2 value.toNat).length = 2 :=
      Hex.length_digits (by decide) value.toNat_lt
    obtain ⟨a, b, hd⟩ := List.length_eq_two.mp hlength
    rw [text, toList_marked, hd]
    show (Hex.number? [a, b]).map (fun n => byte (UInt8.ofNat n)) = some (byte value)
    rw [← hd, Hex.number?_digits, Option.map_some, UInt8.ofNat_toNat]
  | address value =>
    have hlength : (Hex.digits 3 value).length = 3 := Hex.length_digits (by decide) (by simp)
    obtain ⟨a, b, c, hd⟩ := List.length_eq_three.mp hlength
    rw [text, toList_marked, hd]
    show (Hex.number? [a, b, c]).map (fun n => address (Fin.ofNat 4096 n)) = some (address value)
    rw [← hd, Hex.number?_digits, Option.map_some]
    exact congrArg (some ∘ address) (Fin.ext (Nat.mod_eq_of_lt value.isLt))
  | height value => revert value; decide
  | index | atIndex | delayTimer | soundTimer | key | glyph | decimalDigits => rfl

theorem comma_not_mem_text (o : Operand) : ',' ∉ o.text.toList := by
  have hdigits : ∀ width n, ',' ∉ Hex.digits width n := by
    intro width n hcomma
    obtain ⟨d, hd⟩ := Hex.value?_of_mem_digits hcomma
    cases hd
  cases o with
  | register x => simp [toList_text_register, hdigits]
  | byte value => simp [text, toList_marked, hdigits]
  | address value => simp [text, toList_marked, hdigits]
  | height value => revert value; decide
  | index | atIndex | delayTimer | soundTimer | key | glyph | decimalDigits => decide

end Operand

/-! ## Lines -/

/-- Cuts at each comma with a blank behind it. -/
def pieces : List Char → List (List Char)
  | ',' :: ' ' :: rest => [] :: pieces rest
  | c :: rest =>
    match pieces rest with
    | piece :: more => (c :: piece) :: more
    | [] => [[c]]
  | [] => [[]]

theorem pieces_append (rest : List Char) :
    ∀ piece : List Char, ',' ∉ piece → pieces (piece ++ [',', ' '] ++ rest) = piece :: pieces rest
  | [], _ => by
    rw [List.nil_append, List.cons_append, List.cons_append, List.nil_append, pieces]
  | c :: piece, h => by
    obtain ⟨hc, hpiece⟩ := not_or.mp (mt List.mem_cons.mpr h)
    rw [List.cons_append, List.cons_append, pieces, pieces_append rest piece hpiece]
    rintro _ rfl
    exact absurd rfl hc

theorem pieces_of_not_mem : ∀ piece : List Char, ',' ∉ piece → pieces piece = [piece]
  | [], _ => rfl
  | c :: piece, h => by
    obtain ⟨hc, hpiece⟩ := not_or.mp (mt List.mem_cons.mpr h)
    rw [pieces, pieces_of_not_mem piece hpiece]
    rintro _ rfl
    exact absurd rfl hc

theorem pieces_intercalate {l : List (List Char)} (hl : l ≠ []) (h : ∀ piece ∈ l, ',' ∉ piece) :
    pieces ([',', ' '].intercalate l) = l := by
  induction l with
  | nil => exact absurd rfl hl
  | cons piece rest ih =>
    obtain ⟨hpiece, hrest⟩ := List.forall_mem_cons.mp h
    cases rest with
    | nil => rw [List.intercalate_singleton, pieces_of_not_mem piece hpiece]
    | cons next rest =>
      rw [List.intercalate_cons_cons, pieces_append _ piece hpiece,
        ih (List.cons_ne_nil _ _) hrest]

namespace Mnemonic

/-- The mnemonic that a line stands for. -/
def ofText? (line : String) : Option Mnemonic :=
  let cs := line.toList
  match cs.dropWhile (· != ' ') with
  | [] => some ⟨line, []⟩
  | _ :: rest =>
    ((pieces rest).mapM Operand.ofChars?).map fun operands =>
      ⟨String.ofList (cs.takeWhile (· != ' ')), operands⟩

theorem ofText?_text {m : Mnemonic} (h : ∀ c ∈ m.name.toList, c ≠ ' ') :
    ofText? m.text = some m := by
  have hname : ∀ c ∈ m.name.toList, (c != ' ') = true := fun c hc => bne_iff_ne.mpr (h c hc)
  obtain ⟨name, operands⟩ := m
  cases operands with
  | nil =>
    have hdrop : name.toList.dropWhile (· != ' ') = [] := List.dropWhile_eq_nil_iff.mpr hname
    simp only [text, ofText?, hdrop]
  | cons o rest =>
    let texts := (o :: rest).map fun o => o.text.toList
    have hline : (text ⟨name, o :: rest⟩).toList =
        name.toList ++ ' ' :: [',', ' '].intercalate texts := by
      simp [text, texts, String.toList_intercalate, Function.comp_def]
    have hpieces : pieces ([',', ' '].intercalate texts) = texts := by
      refine pieces_intercalate (List.cons_ne_nil _ _) fun piece hpiece => ?_
      obtain ⟨o, -, rfl⟩ := List.mem_map.mp hpiece
      exact o.comma_not_mem_text
    have hoperands : texts.mapM Operand.ofChars? = some (o :: rest) := by
      rw [List.mapM_map, show Operand.ofChars? ∘ _ = some from funext Operand.ofChars?_text]
      exact List.mapM_pure.trans (congrArg some (List.map_id _))
    have htake : (text ⟨name, o :: rest⟩).toList.takeWhile (· != ' ') = name.toList := by
      rw [hline, List.takeWhile_append_of_pos hname, List.takeWhile_cons_of_neg (by decide),
        List.append_nil]
    have hdrop : (text ⟨name, o :: rest⟩).toList.dropWhile (· != ' ') =
        ' ' :: [',', ' '].intercalate texts := by
      rw [hline, List.dropWhile_append_of_pos hname, List.dropWhile_cons_of_neg (by decide)]
    simp only [ofText?, hdrop, htake, hpieces, hoperands, Option.map_some, String.ofList_toList]

end Mnemonic

/-! ## Instructions -/

/-- The operation on two registers that goes by a name. -/
def ArithOp.ofName? (name : String) : Option ArithOp :=
  [copy, or, and, xor, add, sub, shiftRight, subFrom, shiftLeft].find? (·.mnemonicName = name)

namespace Instruction

/-- The only instruction that a mnemonic might stand for. Of the instructions of one name each has
operands of its own kinds, and many kinds go with one name only. -/
def candidate? (m : Mnemonic) : Option Instruction :=
  match m.operands with
  | [] =>
    match m.name with
    | "CLS" => some clear
    | "RET" => some ret
    | _ => none
  | [.address a] =>
    match m.name with
    | "SYS" => some (sys a)
    | "JP" => some (jump a)
    | "CALL" => some (call a)
    | _ => none
  | [.register x] =>
    match m.name with
    | "SKP" => some (skipIf (.keyDown x))
    | "SKNP" => some (skipIf (.keyUp x))
    | _ => none
  | [.register x, .byte b] =>
    match m.name with
    | "SE" => some (skipIf (.byteIs x b))
    | "SNE" => some (skipIf (.byteIsNot x b))
    | "LD" => some (setByte x b)
    | "ADD" => some (addByte x b)
    | "RND" => some (random x b)
    | _ => none
  | [.register x, .register y] =>
    match m.name with
    | "SE" => some (skipIf (.same x y))
    | "SNE" => some (skipIf (.differ x y))
    | name => (ArithOp.ofName? name).map fun op => arith op x y
  | [.index, .address a] => some (setIndex a)
  | [.register _, .address a] => some (jumpOffset a)
  | [.register x, .register y, .height height] => some (draw x y height)
  | [.register x, .delayTimer] => some (readDelay x)
  | [.register x, .key] => some (awaitKey x)
  | [.delayTimer, .register x] => some (setDelay x)
  | [.soundTimer, .register x] => some (setSound x)
  | [.index, .register x] => some (addIndex x)
  | [.glyph, .register x] => some (pointGlyph x)
  | [.decimalDigits, .register x] => some (storeDecimal x)
  | [.atIndex, .register x] => some (storeRegisters x)
  | [.register x, .atIndex] => some (loadRegisters x)
  | _ => none

/-- The instruction that a mnemonic stands for. -/
def ofMnemonic? (m : Mnemonic) : Option Instruction :=
  (candidate? m).filter (·.mnemonic = m)

theorem candidate?_mnemonic (ins : Instruction) : candidate? ins.mnemonic = some ins := by
  cases ins with
  | skipIf condition => cases condition <;> rfl
  | arith op x y => cases op <;> rfl
  | _ => rfl

theorem ofMnemonic?_eq_some {m : Mnemonic} {ins : Instruction} :
    ofMnemonic? m = some ins ↔ ins.mnemonic = m := by
  constructor
  · intro h
    exact of_decide_eq_true (Option.filter_eq_some_iff.mp h).2
  · rintro rfl
    exact Option.filter_eq_some_iff.mpr ⟨ins.candidate?_mnemonic, decide_eq_true rfl⟩

theorem blank_not_mem_name (ins : Instruction) : ∀ c ∈ ins.mnemonic.name.toList, c ≠ ' ' := by
  cases ins with
  | skipIf condition => cases condition <;> simp [mnemonic, Condition.mnemonic]
  | arith op x y => cases op <;> simp [mnemonic, ArithOp.mnemonicName]
  | _ => simp [mnemonic]

end Instruction

/-- An instruction that has been read is written as the word it was read from. -/
theorem Instruction.word_of_decode {w pc : UInt16} {ins : Instruction}
    (h : decode w pc = .ok ins) : ins.word = w := by
  unfold decode at h
  split at h
  · next ins' hins =>
    cases h
    rw [word, nibbles_of_ofNibbles? hins, Nibbles.word_ofWord]
  · cases h

namespace Mnemonic

/-- The word that a line stands for. -/
def assemble? (line : String) : Option UInt16 :=
  ((ofText? line).bind Instruction.ofMnemonic?).map Instruction.word

theorem assemble?_text (ins : Instruction) : assemble? ins.mnemonic.text = some ins.word := by
  rw [assemble?, ofText?_text ins.blank_not_mem_name, Option.bind_some,
    Instruction.ofMnemonic?_eq_some.mpr rfl, Option.map_some]

/-- **The text tells the word.** Whatever word is read as an instruction, wherever it was fetched,
is assembled from the mnemonic of that instruction; so no other word has the same mnemonic. -/
theorem text_tells_word {w pc : UInt16} {ins : Instruction}
    (h : Instruction.decode w pc = .ok ins) :
    assemble? ins.mnemonic.text = some w ∧
      ∀ w' pc' ins', Instruction.decode w' pc' = .ok ins' →
        ins'.mnemonic.text = ins.mnemonic.text → w' = w := by
  have assembled : ∀ {w pc : UInt16} {ins : Instruction}, Instruction.decode w pc = .ok ins →
      assemble? ins.mnemonic.text = some w := by
    intro w pc ins h
    rw [assemble?_text, Instruction.word_of_decode h]
  refine ⟨assembled h, fun w' pc' ins' h' htext => ?_⟩
  have hw' := assembled h'
  rw [htext, assembled h] at hw'
  exact (Option.some.inj hw').symm

/-- A shift names a register that it does not read, and still its line tells which. -/
theorem shift_line_tells_both_registers :
    Instruction.decode 0x8126 0x200 = .ok (.arith .shiftRight 1 2) ∧
      (Instruction.arith .shiftRight 1 2).mnemonic.text = "SHR V1, V2" ∧
      assemble? "SHR V1, V2" = some 0x8126 := by
  have hdecode : Instruction.decode 0x8126 0x200 = .ok (.arith .shiftRight 1 2) := rfl
  have htext : (Instruction.arith .shiftRight 1 2).mnemonic.text = "SHR V1, V2" := by
    decide +kernel
  refine ⟨hdecode, htext, ?_⟩
  rw [← htext]
  exact (text_tells_word hdecode).1

end Mnemonic

end Chip8
