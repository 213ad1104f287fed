import Chip8.Player.CommandLine

/-!
# One meaning in many spellings

What a user asks for is a ROM and perhaps a scale and a seed. It can be written in many ways: each
option in several spellings, its number with zeros and a plus sign in front, and everything in any
order; and the ROM may be put last behind two dashes. An `ArgGroup` is one such wish with the way
it is written, and `commandLine` is what the user types.

**However it is written, it means the same** (`Options.ofArgs_means_what_is_asked`). Without the
spellings that is plain: wishes are granted one after another, and each only once
(`ArgGroup.grant_all`). But the reader lets a wish wait before it checks it, so a proof cannot
speak of what has been read, only of what will come of it: a reading `Knows` what it gives once the
wish that waits has been checked. Each group takes a reading that knows something to one that knows
one wish more (`takeAll_group`), and where an option comes a second time no later group saves the
line (`outcome_of_settle_error`). So the reader grants wishes (`Knows.outcome_commandLine`).
-/

set_option autoImplicit false

namespace Chip8

/-! ## What a user types -/

/-- Whether a numeral has a plus sign, and how many zeros stand before its digits. -/
structure NumeralStyle where
  plus : Bool
  zeros : Nat

/-- A number as a numeral. -/
def NumeralStyle.write (style : NumeralStyle) (n : Nat) : String :=
  String.ofList
    ((if style.plus then ['+'] else []) ++ (List.replicate style.zeros '0' ++ Nat.toDigits 10 n))

/-- How an option is spelled. Only the scale has a letter. -/
inductive Spelling : OptionName → Type where
  /-- `--scale 5` -/
  | apart (name : OptionName) : Spelling name
  /-- `--scale=5` -/
  | joined (name : OptionName) : Spelling name
  /-- `-s 5` -/
  | letterApart : Spelling .scale
  /-- `-s5` -/
  | letterTight : Spelling .scale
  /-- `-s=5` -/
  | letterJoined : Spelling .scale

/-- The arguments that an option and its value are written as. -/
def Spelling.args {name : OptionName} (spelling : Spelling name) (text : String) : List String :=
  match spelling with
  | apart name => ["--" ++ name.long, text]
  | joined name => ["--" ++ name.long ++ "=" ++ text]
  | letterApart => ["-s", text]
  | letterTight => ["-s" ++ text]
  | letterJoined => ["-s=" ++ text]

/-- One wish of a user and how it is written. -/
inductive ArgGroup where
  | rom (path : String)
  | scale (spelling : Spelling .scale) (style : NumeralStyle) (n : UInt32)
  | seed (spelling : Spelling .seed) (style : NumeralStyle) (n : UInt64)

namespace ArgGroup

def args : ArgGroup → List String
  | rom path => [path]
  | scale spelling style n => spelling.args (style.write n.toNat)
  | seed spelling style n => spelling.args (style.write n.toNat)

def rom? : ArgGroup → Option String
  | rom path => some path
  | _ => none

def scale? : ArgGroup → Option UInt32
  | scale _ _ n => some n
  | _ => none

def seed? : ArgGroup → Option UInt64
  | seed _ _ n => some n
  | _ => none

end ArgGroup

/-- How often an option is given. -/
def timesGiven (groups : List ArgGroup) : OptionName → Nat
  | .scale => (groups.filterMap ArgGroup.scale?).length
  | .seed => (groups.filterMap ArgGroup.seed?).length

/-- What a user types: groups of arguments, and perhaps a ROM behind two dashes. -/
def commandLine (groups : List ArgGroup) (last : Option String) : List String :=
  groups.flatMap ArgGroup.args ++
    match last with
    | some rom => ["--", rom]
    | none => []

/-! ## Wishes one after another -/

/-- Everything that is wished for, as often as it is. -/
structure Wishes where
  roms : List String
  scales : List UInt32
  seeds : List UInt64

namespace Wishes

def times (wishes : Wishes) : OptionName → Nat
  | .scale => wishes.scales.length
  | .seed => wishes.seeds.length

/-- A second ROM, or an option that is given a second time. -/
inductive Excess (wishes : Wishes) : Refusal → Prop where
  | rom (path : String) (h : 2 ≤ wishes.roms.length) : Excess wishes (.unknownArgument path)
  | option (name : OptionName) (h : 2 ≤ wishes.times name) : Excess wishes (.repeatedOption name)

end Wishes

/-- What has been read already and what is still to come. -/
def Reading.wishes (g : Reading) (groups : List ArgGroup) : Wishes where
  roms := g.rom.toList ++ groups.filterMap ArgGroup.rom?
  scales := g.scale.toList ++ groups.filterMap ArgGroup.scale?
  seeds := g.seed.toList ++ groups.filterMap ArgGroup.seed?

namespace Reading

theorem wishes_nil (g : Reading) :
    g.wishes [] = ⟨g.rom.toList, g.scale.toList, g.seed.toList⟩ := by
  simp only [wishes, List.filterMap_nil, List.append_nil]

theorem eq_of_wishes {g g' : Reading} (h : g.wishes [] = g'.wishes [])
    (hpending : g.pending = g'.pending) : g = g' := by
  have hinj {α : Type} {o o' : Option α} (h : o.toList = o'.toList) : o = o' := by
    rw [← Option.head?_toList (o := o), h, Option.head?_toList]
  rw [wishes_nil, wishes_nil, Wishes.mk.injEq] at h
  obtain ⟨hrom, hscale, hseed⟩ := h
  cases g
  cases g'
  rw [mk.injEq]
  exact ⟨hinj hrom, hinj hscale, hinj hseed, hpending⟩

/-- What is read holds nothing twice. -/
theorem not_excess (g : Reading) {e : Refusal} : ¬(g.wishes []).Excess e := by
  have hle {α : Type} {o : Option α} : ¬2 ≤ o.toList.length :=
    Nat.not_le.mpr (Nat.lt_succ_of_le Option.length_toList_le)
  rw [wishes_nil]
  intro h
  cases h with
  | rom path h => exact hle h
  | option name h =>
    cases name with
    | scale | seed => exact hle h

end Reading

namespace ArgGroup

/-- A wish beside those that are known. -/
def grant (g : Reading) : ArgGroup → Except Refusal Reading
  | rom path =>
    if g.rom.isSome then .error (.unknownArgument path) else .ok { g with rom := some path }
  | scale _ _ n =>
    if g.scale.isSome then .error (.repeatedOption .scale) else .ok { g with scale := some n }
  | seed _ _ n =>
    if g.seed.isSome then .error (.repeatedOption .seed) else .ok { g with seed := some n }

variable {g g' : Reading} {e : Refusal}

theorem of_grant_rom {path : String} (h : (rom path).grant g = .ok g') :
    g.rom = none ∧ g' = { g with rom := some path } := by
  cases hrom : g.rom with
  | none =>
    rw [grant, hrom] at h
    cases h
    exact ⟨rfl, rfl⟩
  | some _ =>
    rw [grant, hrom] at h
    cases h

/-- A wish that is granted moves from what is to come to what is read. -/
theorem wishes_of_grant {group : ArgGroup} (h : group.grant g = .ok g') (rest : List ArgGroup) :
    g'.pending = g.pending ∧ g'.wishes rest = g.wishes (group :: rest) := by
  cases group with
  | rom path =>
    obtain ⟨hrom, rfl⟩ := of_grant_rom h
    refine ⟨rfl, ?_⟩
    simp only [Reading.wishes, hrom]
    rfl
  | scale _ _ n =>
    cases hscale : g.scale with
    | none =>
      simp only [grant, hscale, Option.isSome_none, Bool.false_eq_true, if_false] at h
      cases h
      refine ⟨rfl, ?_⟩
      simp only [Reading.wishes, hscale]
      rfl
    | some _ => simp [grant, hscale] at h
  | seed _ _ n =>
    cases hseed : g.seed with
    | none =>
      simp only [grant, hseed, Option.isSome_none, Bool.false_eq_true, if_false] at h
      cases h
      refine ⟨rfl, ?_⟩
      simp only [Reading.wishes, hseed]
      rfl
    | some _ => simp [grant, hseed] at h

theorem excess_of_grant {group : ArgGroup} (h : group.grant g = .error e)
    (rest : List ArgGroup) : (g.wishes (group :: rest)).Excess e := by
  cases group with
  | rom path =>
    cases hrom : g.rom with
    | none => simp [grant, hrom] at h
    | some _ =>
      simp only [grant, hrom, Option.isSome_some, if_true] at h
      cases h
      exact .rom path (by simp [Reading.wishes, hrom, rom?])
  | scale _ _ n =>
    cases hscale : g.scale with
    | none => simp [grant, hscale] at h
    | some _ =>
      simp only [grant, hscale, Option.isSome_some, if_true] at h
      cases h
      exact .option .scale (by simp [Reading.wishes, Wishes.times, hscale, scale?])
  | seed _ _ n =>
    cases hseed : g.seed with
    | none => simp [grant, hseed] at h
    | some _ =>
      simp only [grant, hseed, Option.isSome_some, if_true] at h
      cases h
      exact .option .seed (by simp [Reading.wishes, Wishes.times, hseed, seed?])

/-- A whole list of wishes is granted, or one of them is wished for twice. -/
theorem grant_all (groups : List ArgGroup) (g : Reading) :
    (∃ g', groups.foldlM grant g = .ok g' ∧ g'.pending = g.pending ∧
        g'.wishes [] = g.wishes groups) ∨
      ∃ e, groups.foldlM grant g = .error e ∧ (g.wishes groups).Excess e := by
  induction groups generalizing g with
  | nil => exact Or.inl ⟨g, rfl, rfl, rfl⟩
  | cons group rest ih =>
    rw [List.foldlM_cons]
    cases hgrant : group.grant g with
    | error e => exact Or.inr ⟨e, rfl, excess_of_grant hgrant rest⟩
    | ok g₁ =>
      obtain ⟨hpending, hwishes⟩ := wishes_of_grant hgrant rest
      rw [← hpending, ← hwishes]
      exact ih g₁

/-- If nothing is wished for twice, all is granted. -/
theorem grant_once {groups : List ArgGroup} {rom : Option String} {scale : Option UInt32}
    {seed : Option UInt64} (hrom : groups.filterMap rom? = rom.toList)
    (hscale : groups.filterMap scale? = scale.toList)
    (hseed : groups.filterMap seed? = seed.toList) :
    groups.foldlM grant .empty = .ok ⟨rom, scale, seed, none⟩ := by
  have hwishes : Reading.empty.wishes groups = (⟨rom, scale, seed, none⟩ : Reading).wishes [] := by
    simp only [Reading.wishes, hrom, hscale, hseed, List.filterMap_nil, List.append_nil]
    rfl
  rcases grant_all groups .empty with ⟨g, hgrant, hpending, hsame⟩ | ⟨e, -, hexcess⟩
  · rw [hgrant, Reading.eq_of_wishes (hsame.trans hwishes) hpending]
  · rw [hwishes] at hexcess
    exact (Reading.not_excess _ hexcess).elim

/-- An option that is wished for twice is not granted. -/
theorem grant_twice {groups : List ArgGroup} {rom : Option String} {name : OptionName}
    (hrom : groups.filterMap rom? = rom.toList) (h : 2 ≤ timesGiven groups name) :
    ∃ name', 2 ≤ timesGiven groups name' ∧
      groups.foldlM grant .empty = .error (.repeatedOption name') := by
  have htimes : ∀ name, (Reading.empty.wishes groups).times name = timesGiven groups name := by
    intro name
    cases name with
    | scale | seed => rfl
  rcases grant_all groups .empty with ⟨g, -, -, hsame⟩ | ⟨e, hgrant, hexcess⟩
  · refine (Reading.not_excess g (e := .repeatedOption name) ?_).elim
    rw [hsame]
    exact .option name (htimes name ▸ h)
  · cases hexcess with
    | rom path htwo =>
      have hle : (groups.filterMap rom?).length ≤ 1 := hrom ▸ Option.length_toList_le
      exact absurd (Nat.le_trans htwo hle) (by decide)
    | option name' htwo => exact ⟨name', htimes name' ▸ htwo, hgrant⟩

end ArgGroup

/-! ## Numerals -/

namespace Numeral

theorem continue?_of_isDigit :
    ∀ (cs : List Char) (soFar : Nat), (∀ c ∈ cs, c.isDigit = true) →
      continue? soFar cs = some (Nat.ofDigitChars 10 cs soFar)
  | [], _, _ => rfl
  | c :: rest, soFar, h => by
    obtain ⟨hc, hrest⟩ := List.forall_mem_cons.mp h
    have hdigit : digit? c = some (c.toNat - '0'.toNat) := by
      refine if_pos ?_
      simpa [Char.isDigit, Char.le_def] using hc
    rw [continue?, hdigit, Option.bind_some, continue?_of_isDigit rest _ hrest,
      Nat.ofDigitChars_cons, Nat.mul_comm]

theorem isDigit_of_mem_padded {zeros n : Nat} {c : Char}
    (h : c ∈ List.replicate zeros '0' ++ Nat.toDigits 10 n) : c.isDigit = true := by
  rcases List.mem_append.mp h with hzero | hdigit
  · rw [List.eq_of_mem_replicate hzero]
    rfl
  · exact Nat.isDigit_of_mem_toDigits (by decide) (by decide) hdigit

/-- Zeros in front of the digits of a number do not matter. -/
theorem digits?_padded (zeros n : Nat) :
    digits? (List.replicate zeros '0' ++ Nat.toDigits 10 n) = some n := by
  have hvalue := continue?_of_isDigit (List.replicate zeros '0' ++ Nat.toDigits 10 n) 0
    fun _ => isDigit_of_mem_padded
  rw [Nat.ofDigitChars_append, Nat.ofDigitChars_replicate_zero, Nat.mul_zero,
    Nat.ofDigitChars_toDigits (by decide) (by decide)] at hvalue
  unfold digits?
  split
  · next hnil => exact absurd (List.append_eq_nil_iff.mp hnil).2 Nat.toDigits_ne_nil
  · exact hvalue

/-- Nor does a plus sign. -/
theorem natural?_write (style : NumeralStyle) (n : Nat) :
    natural? (style.write n).toList = some n := by
  obtain ⟨plus, zeros⟩ := style
  rw [NumeralStyle.write, String.toList_ofList]
  cases plus with
  | true => exact digits?_padded zeros n
  | false =>
    show natural? (List.replicate zeros '0' ++ Nat.toDigits 10 n) = some n
    unfold natural?
    split
    · next rest hplus =>
      have hdigit : ('+').isDigit = true :=
        isDigit_of_mem_padded (by rw [hplus]; exact List.mem_cons_self)
      cases hdigit
    · exact digits?_padded zeros n

end Numeral

/-- A numeral begins with a plus sign or a digit. -/
theorem NumeralStyle.write_eq_cons (style : NumeralStyle) (n : Nat) :
    ∃ c cs, (style.write n).toList = c :: cs ∧ (c = '+' ∨ c.isDigit = true) := by
  obtain ⟨plus, zeros⟩ := style
  rw [write, String.toList_ofList]
  cases plus with
  | true => exact ⟨'+', _, rfl, Or.inl rfl⟩
  | false =>
    cases h : List.replicate zeros '0' ++ Nat.toDigits 10 n with
    | nil => exact absurd (List.append_eq_nil_iff.mp h).2 Nat.toDigits_ne_nil
    | cons c cs =>
      have hc : c ∈ List.replicate zeros '0' ++ Nat.toDigits 10 n := by
        rw [h]
        exact List.mem_cons_self
      exact ⟨c, cs, rfl, Or.inr (Numeral.isDigit_of_mem_padded hc)⟩

theorem readSeed?_write (style : NumeralStyle) (n : UInt64) :
    readSeed? (style.write n.toNat) = some n := by
  rw [readSeed?, Numeral.natural?_write]
  simp only [if_pos n.toNat_lt_size, UInt64.ofNat_toNat]

theorem readScale?_write (style : NumeralStyle) (n : UInt32) :
    readScale? (style.write n.toNat) = some n := by
  have hinteger : Numeral.integer? (style.write n.toNat).toList = some (n.toNat : Int) := by
    unfold Numeral.integer?
    split
    · next rest hminus =>
      obtain ⟨c, cs, hc, hfirst⟩ := style.write_eq_cons n.toNat
      rw [hminus] at hc
      cases hc
      rcases hfirst with hplus | hdigit
      · cases hplus
      · cases hdigit
    · rw [Numeral.natural?_write]
      rfl
  have hrange : (0 : Int) ≤ n.toNat ∧ (n.toNat : Int) < UInt32.size :=
    ⟨Int.natCast_nonneg _, Int.ofNat_lt.mpr n.toNat_lt_size⟩
  rw [readScale?, hinteger]
  simp only [if_pos hrange, Int.toNat_natCast, UInt32.ofNat_toNat]

/-! ## Reading one group -/

theorem ArgForm.ofString_plain {arg : String} (h : arg.toList.head? ≠ some '-') :
    ofString arg = .plain := by
  unfold ofString
  split
  · next hdash => exact absurd (by rw [hdash]; rfl) h
  · next hdash => exact absurd (by rw [hdash]; rfl) h
  · next hdash => exact absurd (by rw [hdash]; rfl) h
  · rfl

/-- May the text stand as a value of its own, and right behind a letter? -/
structure IsValue (text : String) : Prop where
  plain : ArgForm.ofString text = .plain
  attached : Reading.attachedValue? text.toList = some text

theorem NumeralStyle.isValue_write (style : NumeralStyle) (n : Nat) : IsValue (style.write n) := by
  obtain ⟨c, cs, hcs, hfirst⟩ := style.write_eq_cons n
  have hc : c ≠ '-' ∧ c ≠ '=' := by
    rcases hfirst with rfl | hdigit
    · decide
    · constructor
      · rintro rfl
        cases hdigit
      · rintro rfl
        cases hdigit
  refine ⟨ArgForm.ofString_plain ?_, ?_⟩
  · rw [hcs, List.head?_cons]
    exact fun h => hc.1 (Option.some.inj h)
  · rw [Reading.attachedValue?, String.ofList_toList]
    · rw [hcs]
      exact List.cons_ne_nil c cs
    · intro rest h
      rw [hcs] at h
      exact hc.2 (List.cons.inj h).1

namespace Reading

variable (r : Reading)

theorem takeAll_long {arg : String} {name : OptionName} {value : Option String}
    (h : ArgForm.ofString arg = .long name.long value) (rest : List String) :
    r.takeAll (arg :: rest) = (r.takeOption name value).bind fun r => r.takeAll rest := by
  have htake : r.takeLong arg name.long value = r.takeOption name value := by
    cases name with
    | scale | seed => rfl
  rw [takeAll, h]
  simp only [htake]
  cases r.takeOption name value with
  | ok r => rfl
  | error e => rfl

theorem takeAll_letter {arg : String} {cs : List Char}
    (h : ArgForm.ofString arg = .short 's' cs) (rest : List String) :
    r.takeAll (arg :: rest) =
      (r.takeOption .scale (attachedValue? cs)).bind fun r => r.takeAll rest := by
  rw [takeAll, h]
  simp only [takeShort]
  cases r.takeOption .scale (attachedValue? cs) with
  | ok r => rfl
  | error e => rfl

theorem takeAll_plain {arg : String} (h : ArgForm.ofString arg = .plain) (rest : List String) :
    r.takeAll (arg :: rest) = (r.takePlain arg).bind fun r => r.takeAll rest := by
  rw [takeAll, h]
  dsimp only
  cases r.takePlain arg with
  | ok r => rfl
  | error e => rfl

/-- An option comes with its value attached, or it waits and takes the next argument. -/
theorem takeAll_spelling {name : OptionName} (spelling : Spelling name) {text : String}
    (htext : IsValue text) :
    (∀ rest, r.takeAll (spelling.args text ++ rest) =
        (r.takeAttached name text).bind fun r => r.takeAll rest) ∨
      ∀ rest, r.takeAll (spelling.args text ++ rest) =
        (r.await (.option name none)).bind fun r => r.takeAll (text :: rest) := by
  cases spelling with
  | apart =>
    have hform : ArgForm.ofString ("--" ++ name.long) = .long name.long none := by
      cases name with
      | scale | seed => rfl
    exact Or.inr fun rest => r.takeAll_long hform (text :: rest)
  | joined =>
    have hform : ArgForm.ofString ("--" ++ name.long ++ "=" ++ text) =
        .long name.long (some text) := by
      cases name with
      | scale | seed => simp [ArgForm.ofString, afterEquals?, OptionName.long]
    exact Or.inl fun rest => r.takeAll_long hform rest
  | letterApart =>
    have hform : ArgForm.ofString "-s" = .short 's' [] := rfl
    exact Or.inr fun rest => r.takeAll_letter hform (text :: rest)
  | letterTight =>
    have hform : ArgForm.ofString ("-s" ++ text) = .short 's' text.toList := by
      simp [ArgForm.ofString]
    refine Or.inl fun rest => ?_
    have htake := r.takeAll_letter hform rest
    rwa [htext.attached] at htake
  | letterJoined =>
    have hform : ArgForm.ofString ("-s=" ++ text) = .short 's' ('=' :: text.toList) := by
      simp [ArgForm.ofString]
    refine Or.inl fun rest => ?_
    have htake := r.takeAll_letter hform rest
    rwa [attachedValue?, String.ofList_toList] at htake

/-- No option waits for its value. -/
def IsServed : Prop := ∀ name, r.pending ≠ some (.option name none)

variable {r}

theorem IsServed.takePlain (h : r.IsServed) (arg : String) : r.takePlain arg = r.takeRom arg := by
  unfold Reading.takePlain
  split
  · next name hp => exact absurd hp (h name)
  · rfl

/-- Once what waits has been checked, the reading is `g`. -/
structure Knows (r g : Reading) : Prop where
  settled : r.settle = .ok g
  done : g.pending = none
  served : r.IsServed
  hasRom : r.hasRom = g.rom.isSome

theorem Knows.of_done {g : Reading} (h : g.pending = none) : g.Knows g where
  settled := by rw [settle, h]
  done := h
  served := by
    intro name
    rw [h]
    nofun
  hasRom := by rw [Reading.hasRom, h]

variable {g : Reading}

theorem Knows.takeRom (h : r.Knows g) (hrom : g.rom = none) (arg : String) :
    r.takeRom arg = .ok { g with pending := some (.rom arg) } := by
  have hasRom : r.hasRom = false := by rw [h.hasRom, hrom, Option.isSome_none]
  rw [Reading.takeRom, hasRom, if_neg Bool.false_ne_true, await, h.settled]

/-- A ROM that is not empty waits and will be known. -/
theorem Knows.of_rom (h : r.Knows g) {path : String} (hpath : path ≠ "") :
    ({ g with pending := some (.rom path) } : Reading).Knows { g with rom := some path } where
  settled := by
    have hfull : path.isEmpty = false := String.isEmpty_eq_false_iff.mpr hpath
    simp only [settle, hfull, Bool.false_eq_true, if_false, h.done]
  done := h.done
  served := by nofun
  hasRom := rfl

theorem assign_keeps {g' : Reading} {name : OptionName} {text : String}
    (h : g.assign name text = .ok g') : g'.pending = g.pending ∧ g'.rom = g.rom := by
  unfold assign at h
  cases name with
  | scale | seed =>
    dsimp only at h
    split at h
    · cases h
    · split at h
      · cases h
        exact ⟨rfl, rfl⟩
      · cases h

/-- An option is checked at once, or it waits with its value. -/
theorem Knows.takeAll_option (h : r.Knows g) {name : OptionName} {text : String}
    (spelling : Spelling name) (htext : IsValue text) :
    (∀ rest, r.takeAll (spelling.args text ++ rest) =
        (g.assign name text).bind fun r => r.takeAll rest) ∨
      ∃ r' : Reading, r'.settle = g.assign name text ∧ r'.IsServed ∧ r'.hasRom = g.rom.isSome ∧
        ∀ rest, r.takeAll (spelling.args text ++ rest) = r'.takeAll rest := by
  rcases r.takeAll_spelling spelling htext with hattached | hwaits
  · refine Or.inl fun rest => ?_
    rw [hattached, takeAttached, h.settled]
  · refine Or.inr ⟨{ g with pending := some (.option name (some text)) }, ?_, nofun, rfl, ?_⟩
    · rw [settle, ← h.done]
    · intro rest
      rw [hwaits, await, h.settled, Except.bind, takeAll_plain _ htext.plain]
      rfl

end Reading

/-! ## A whole command line -/

/-- A ROM among the options is not empty and is not mistaken for one of them. -/
def ArgGroup.WellPlaced (group : ArgGroup) : Prop :=
  ∀ path, group.rom? = some path → path ≠ "" ∧ ArgForm.ofString path = .plain

/-- A wish is a ROM, or an option with a value that is granted if it comes for the first time. -/
theorem ArgGroup.rom_or_option (group : ArgGroup) :
    (∃ path, group = .rom path) ∨
      ∃ (name : OptionName) (spelling : Spelling name) (text : String),
        IsValue text ∧ group.args = spelling.args text ∧ group.rom? = none ∧
          ∀ g : Reading, group.grant g = g.assign name text := by
  cases group with
  | rom path => exact Or.inl ⟨path, rfl⟩
  | scale spelling style n =>
    refine Or.inr ⟨.scale, spelling, _, style.isValue_write n.toNat, rfl, rfl, fun g => ?_⟩
    simp only [grant, Reading.assign, readScale?_write]
  | seed spelling style n =>
    refine Or.inr ⟨.seed, spelling, _, style.isValue_write n.toNat, rfl, rfl, fun g => ?_⟩
    simp only [grant, Reading.assign, readSeed?_write]

theorem commandLine_cons (group : ArgGroup) (groups : List ArgGroup) (last : Option String) :
    commandLine (group :: groups) last = group.args ++ commandLine groups last := by
  unfold commandLine
  rw [List.flatMap_cons, List.append_assoc]

namespace Reading

/-- What becomes of a reading with the arguments that are still to come. -/
def outcome (r : Reading) (args : List String) : Except Refusal Options :=
  (r.takeAll args).bind finish

variable {r g : Reading} {group : ArgGroup} {groups : List ArgGroup} {last : Option String}

theorem Knows.takeAll_group (h : r.Knows g) {g' : Reading} (hplace : group.WellPlaced)
    (hgrant : group.grant g = .ok g') :
    ∃ r' : Reading, r'.Knows g' ∧ ∀ rest, r.takeAll (group.args ++ rest) = r'.takeAll rest := by
  rcases group.rom_or_option with ⟨path, rfl⟩ | ⟨name, spelling, text, htext, hargs, -, hassign⟩
  · obtain ⟨hfull, hplain⟩ := hplace path rfl
    obtain ⟨hrom, rfl⟩ := ArgGroup.of_grant_rom hgrant
    refine ⟨_, Knows.of_rom h hfull, fun rest => ?_⟩
    show r.takeAll (path :: rest) = _
    rw [takeAll_plain _ hplain, h.served.takePlain, h.takeRom hrom]
    rfl
  · rw [hassign] at hgrant
    obtain ⟨hpending, hrom⟩ := assign_keeps hgrant
    rw [hargs]
    rcases h.takeAll_option spelling htext with hattached | ⟨r', hsettle, hserved, hasRom, hwaits⟩
    · refine ⟨g', .of_done (hpending.trans h.done), fun rest => ?_⟩
      rw [hattached, hgrant]
      rfl
    · rw [← hrom] at hasRom
      exact ⟨r', ⟨hsettle.trans hgrant, hpending.trans h.done, hserved, hasRom⟩, hwaits⟩

/-- Where what waits is at fault, nothing that may follow is reported before it. -/
theorem outcome_of_settle_error {e : Refusal} (hsettle : r.settle = .error e)
    (hserved : r.IsServed) (hplace : ∀ group ∈ groups, group.WellPlaced)
    (hrom : groups.filterMap ArgGroup.rom? ++ last.toList ≠ [] → r.hasRom = false) :
    r.outcome (commandLine groups last) = .error e := by
  have hawait : ∀ pending, r.await pending = .error e := fun pending => by rw [await, hsettle]
  have htake : ∀ path, r.hasRom = false → r.takeRom path = .error e := fun path hnone => by
    rw [Reading.takeRom, hnone, if_neg Bool.false_ne_true, hawait]
  cases groups with
  | nil =>
    cases last with
    | none =>
      show r.finish = .error e
      rw [finish, hsettle]
    | some path =>
      show (r.takePlains [path]).bind finish = .error e
      rw [takePlains, htake path (hrom (List.cons_ne_nil path []))]
      rfl
  | cons group rest =>
    rw [commandLine_cons, outcome]
    rcases group.rom_or_option with ⟨path, rfl⟩ | ⟨name, spelling, text, htext, hargs, -, -⟩
    · have hplain := (hplace _ List.mem_cons_self path rfl).2
      show (r.takeAll (path :: commandLine rest last)).bind finish = .error e
      rw [takeAll_plain _ hplain, hserved.takePlain, htake path (hrom (List.cons_ne_nil path _))]
      rfl
    · rw [hargs]
      rcases r.takeAll_spelling spelling htext with hattached | hwaits
      · rw [hattached, takeAttached, hsettle]
        rfl
      · rw [hwaits, hawait]
        rfl

theorem eq_none_of_one_more {more : List String} (h : (g.rom.toList ++ more).length ≤ 1)
    (hmore : more ≠ []) : g.rom = none := by
  cases hrom : g.rom with
  | none => rfl
  | some path =>
    have hpos := List.length_pos_iff.mpr hmore
    rw [hrom, List.length_append, Option.toList_some, List.length_singleton] at h
    omega

theorem Knows.outcome_of_grant_error (h : r.Knows g) {e : Refusal} {rest : List ArgGroup}
    (hgrant : group.grant g = .error e) (hplace : ∀ group ∈ rest, group.WellPlaced)
    (hone : ((g.wishes (group :: rest)).roms ++ last.toList).length ≤ 1) :
    r.outcome (commandLine (group :: rest) last) = .error e := by
  rw [wishes, List.append_assoc] at hone
  rcases group.rom_or_option with
    ⟨path, rfl⟩ | ⟨name, spelling, text, htext, hargs, hnorom, hassign⟩
  · have hrom := eq_none_of_one_more hone (List.cons_ne_nil path _)
    rw [ArgGroup.grant, hrom] at hgrant
    cases hgrant
  · rw [hassign] at hgrant
    rw [List.filterMap_cons_none hnorom] at hone
    rw [commandLine_cons, hargs, outcome]
    rcases h.takeAll_option spelling htext with hattached | ⟨r', hsettle, hserved, hasRom, hwaits⟩
    · rw [hattached, hgrant]
      rfl
    · rw [hwaits]
      refine outcome_of_settle_error (hsettle.trans hgrant) hserved hplace fun hmore => ?_
      rw [hasRom, eq_none_of_one_more hone hmore, Option.isSome_none]

/-- **A command line is read as its wishes are granted**, one after another, if it names at most
one ROM and that is not empty and not mistaken for an option. -/
theorem Knows.outcome_commandLine (h : r.Knows g)
    (hone : ((g.wishes groups).roms ++ last.toList).length ≤ 1)
    (hplace : ∀ group ∈ groups, group.WellPlaced) (hlast : ∀ path ∈ last, path ≠ "") :
    r.outcome (commandLine groups last) =
      (groups.foldlM ArgGroup.grant g).bind fun g => { g with rom := last.or g.rom }.finish := by
  induction groups generalizing r g with
  | nil =>
    cases last with
    | none =>
      show r.finish = g.finish
      rw [finish, finish, h.settled, settle, h.done]
    | some path =>
      rw [wishes_nil] at hone
      have hknown := Knows.of_rom h (hlast path rfl)
      show (r.takePlains [path]).bind finish = finish { g with rom := some path }
      rw [takePlains, h.takeRom (eq_none_of_one_more hone (List.cons_ne_nil path []))]
      show finish _ = finish _
      rw [finish, finish, hknown.settled, settle, hknown.done]
  | cons group rest ih =>
    obtain ⟨hgroup, hrest⟩ := List.forall_mem_cons.mp hplace
    rw [List.foldlM_cons]
    cases hgrant : group.grant g with
    | error e => exact h.outcome_of_grant_error hgrant hrest hone
    | ok g' =>
      obtain ⟨r', hknown, htake⟩ := h.takeAll_group hgroup hgrant
      rw [commandLine_cons, outcome, htake]
      rw [← (ArgGroup.wishes_of_grant hgrant rest).2] at hone
      exact ih hknown hone hrest

end Reading

theorem Options.ofArgs_eq_outcome (args : List String) :
    Options.ofArgs args = Reading.empty.outcome args := by
  rw [Options.ofArgs, Reading.outcome]
  cases Reading.empty.takeAll args with
  | ok r => rfl
  | error e => rfl

/-- The ROM that stands among the options, if it is not the one behind the dashes. -/
theorem rom_among {roms : List String} {last : Option String} {rom : String}
    (h : roms ++ last.toList = [rom]) :
    ∃ among : Option String, roms = among.toList ∧ last.or among = some rom ∧
      ∀ path ∈ roms, last = none ∧ path = rom := by
  cases last with
  | none =>
    have hroms : roms = [rom] := (List.append_nil roms).symm.trans h
    exact ⟨some rom, hroms, rfl, fun path hpath =>
      ⟨rfl, List.mem_singleton.mp (hroms ▸ hpath)⟩⟩
  | some path =>
    cases roms with
    | nil => exact ⟨none, rfl, congrArg List.head? h, nofun⟩
    | cons first rest =>
      exact absurd (List.cons.inj h).2 (List.append_ne_nil_of_right_ne_nil rest nofun)

/-- **However a command line is written, it means what is asked for**, and an option that is asked
for twice is one thing too much. -/
theorem Options.ofArgs_means_what_is_asked (groups : List ArgGroup) (last : Option String)
    (rom : String) (hrom : groups.filterMap ArgGroup.rom? ++ last.toList = [rom])
    (hfull : rom ≠ "") (hplain : last = none → rom.toList.head? ≠ some '-') :
    (∀ (scale : Option UInt32) (seed : Option UInt64),
        groups.filterMap ArgGroup.scale? = scale.toList →
          groups.filterMap ArgGroup.seed? = seed.toList →
            Options.ofArgs (commandLine groups last) = .ok ⟨rom, scale.getD 10, seed⟩) ∧
      ∀ name, 2 ≤ timesGiven groups name →
        ∃ name', 2 ≤ timesGiven groups name' ∧
          Options.ofArgs (commandLine groups last) = .error (.repeatedOption name') := by
  obtain ⟨among, hamong, hor, hmem⟩ := rom_among hrom
  have hread : Options.ofArgs (commandLine groups last) =
      (groups.foldlM ArgGroup.grant .empty).bind fun g =>
        { g with rom := last.or g.rom }.finish := by
    rw [ofArgs_eq_outcome]
    refine Reading.Knows.outcome_commandLine (.of_done rfl) ?_ ?_ ?_
    · show (groups.filterMap ArgGroup.rom? ++ last.toList).length ≤ 1
      rw [hrom]
      exact Nat.le_refl 1
    · intro group hgroup path hpath
      obtain ⟨hlast, rfl⟩ := hmem path (List.mem_filterMap.mpr ⟨group, hgroup, hpath⟩)
      exact ⟨hfull, ArgForm.ofString_plain (hplain hlast)⟩
    · intro path hpath
      have hmem := List.mem_append_right (groups.filterMap ArgGroup.rom?)
        (Option.mem_toList.mpr hpath)
      rw [hrom, List.mem_singleton] at hmem
      exact hmem ▸ hfull
  rw [hread]
  constructor
  · intro scale seed hscale hseed
    rw [ArgGroup.grant_once hamong hscale hseed]
    simp only [Except.bind, hor, Reading.finish, Reading.settle]
    rfl
  · intro name htwice
    obtain ⟨name', htwice', hgrant⟩ := ArgGroup.grant_twice hamong htwice
    refine ⟨name', htwice', ?_⟩
    rw [hgrant]
    rfl

theorem Options.one_game_in_two_spellings :
    Options.ofArgs ["-s=+007", "--seed", "5", "game"] = .ok ⟨"game", 7, some 5⟩ ∧
      Options.ofArgs ["--seed=05", "--", "-game"] = .ok ⟨"-game", 10, some 5⟩ ∧
        Options.ofArgs ["-s7", "game", "--scale", "7"] = .error (.repeatedOption .scale) := by
  refine ⟨?_, ?_, ?_⟩
  · exact (ofArgs_means_what_is_asked
      [.scale .letterJoined ⟨true, 2⟩ 7, .seed (.apart .seed) ⟨false, 0⟩ 5, .rom "game"] none
      "game" rfl (by decide) (by decide)).1 (some 7) (some 5) rfl rfl
  · exact (ofArgs_means_what_is_asked [.seed (.joined .seed) ⟨false, 1⟩ 5] (some "-game")
      "-game" rfl (by decide) nofun).1 none (some 5) rfl rfl
  · obtain ⟨name, htwice, hrefused⟩ := (ofArgs_means_what_is_asked
      [.scale .letterTight ⟨false, 0⟩ 7, .rom "game", .scale (.apart .scale) ⟨false, 0⟩ 7] none
      "game" rfl (by decide) (by decide)).2 .scale (by decide)
    cases name with
    | scale => exact hrefused
    | seed => exact absurd htwice (by decide)

end Chip8
