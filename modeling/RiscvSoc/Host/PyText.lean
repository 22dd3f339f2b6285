/- GID: RiscvSoc/Host/PyText
   generality: G
   utility: library
   digest: The text operations of Python scripts: splitting, stripping, numerals and text files. -/

import Mathlib.Data.Int.Notation
import Mathlib.Data.List.DropRight
import Mathlib.Data.Nat.Notation
import Mathlib.Tactic.IntervalCases
import Mathlib.Tactic.SplitIfs

set_option autoImplicit false
set_option relaxedAutoImplicit false

namespace RiscvSoc.Host.PyText

abbrev Text := List Char

/-- What the Unicode database says about characters beyond ASCII. -/
structure Unicode where
  isWord : Char → Bool
  digit : Char → Option ℕ
  lower : Char → Text
  upper : Char → Text
  /-- The character that a match without regard to case compares. -/
  fold : Char → Char

inductive PyError where
  | invalidLiteral (base : ℕ) (literal : Text)
  | unicodeDecode
  deriving DecidableEq

def isAscii (c : Char) : Bool := c.toNat < 128

section Characters

variable (u : Unicode)

def isSpace (c : Char) : Bool :=
  let n := c.toNat
  (9 ≤ n && n ≤ 13) || (28 ≤ n && n ≤ 32) || n == 0x85 || n == 0xA0 || n == 0x1680 ||
    (0x2000 ≤ n && n ≤ 0x200A) || n == 0x2028 || n == 0x2029 || n == 0x202F || n == 0x205F ||
    n == 0x3000

/-- The line boundaries of `str.splitlines`. -/
def isLineBreak (c : Char) : Bool :=
  let n := c.toNat
  (10 ≤ n && n ≤ 13) || (28 ≤ n && n ≤ 30) || n == 0x85 || n == 0x2028 || n == 0x2029

/-- The characters that `\w` matches. -/
def isWord (c : Char) : Bool := if isAscii c then c.isAlphanum || c == '_' else u.isWord c

def lower (t : Text) : Text := t.flatMap fun c => if isAscii c then [c.toLower] else u.lower c

def upper (t : Text) : Text := t.flatMap fun c => if isAscii c then [c.toUpper] else u.upper c

def fold (c : Char) : Char := if isAscii c then c.toLower else u.fold c

/-- The value of a character as a digit, letters counting from ten. -/
def digitValue (c : Char) : Option ℕ :=
  if c.isDigit then some (c.toNat - '0'.toNat)
  else if c.isUpper then some (c.toNat - 'A'.toNat + 10)
  else if c.isLower then some (c.toNat - 'a'.toNat + 10)
  else if isAscii c then none
  else u.digit c

end Characters

section Splitting

def rstripChar (c : Char) (t : Text) : Text := t.rdropWhile (· == c)

def strip (t : Text) : Text := (t.dropWhile isSpace).rdropWhile isSpace

def splitlines : Text → List Text
  | [] => []
  | '\r' :: '\n' :: rest => [] :: splitlines rest
  | c :: rest =>
    if isLineBreak c then [] :: splitlines rest
    else match splitlines rest with
      | [] => [[c]]
      | line :: lines => (c :: line) :: lines

/-- `t.split(sep, 1)` where `sep`, which is not empty, occurs in `t`. -/
def splitOnce (sep : Text) : Text → Option (Text × Text)
  | [] => none
  | c :: rest =>
    if sep.isPrefixOf (c :: rest) then some ([], (c :: rest).drop sep.length)
    else (splitOnce sep rest).map fun p => (c :: p.1, p.2)

variable (u : Unicode)

/-- The group of the regular expression `key\s*=\s*(\w+)`, case ignored, at the start of `t`. -/
def matchField (key t : Text) : Option Text :=
  if (t.take key.length).map (fold u) = key.map (fold u) then
    match (t.drop key.length).dropWhile isSpace with
    | '=' :: rest =>
      let group := (rest.dropWhile isSpace).takeWhile (isWord u)
      if group = [] then none else some group
    | _ => none
  else none

def searchField (key : Text) : Text → Option Text
  | [] => matchField u key []
  | c :: rest => (matchField u key (c :: rest)).or (searchField key rest)

end Splitting

section Numerals

variable (u : Unicode)

def digitBelow (base : ℕ) (c : Char) : Option ℕ := (digitValue u c).filter (· < base)

/-- The digits behind the first one, single underscores between them. -/
def moreDigits (base : ℕ) (acc : ℕ) : Text → Option ℕ
  | [] => some acc
  | '_' :: c :: rest => (digitBelow u base c).bind fun d => moreDigits base (acc * base + d) rest
  | c :: rest => (digitBelow u base c).bind fun d => moreDigits base (acc * base + d) rest

def digits (base : ℕ) : Text → Option ℕ
  | [] => none
  | c :: rest => (digitBelow u base c).bind fun d => moreDigits u base d rest

def prefixLetter : ℕ → Option Char
  | 2 => some 'b'
  | 8 => some 'o'
  | 16 => some 'x'
  | _ => none

/-- Without the prefix of the base, which one underscore may follow. -/
def dropBasePrefix (base : ℕ) : Text → Text
  | '0' :: c :: rest =>
    if prefixLetter base = some c.toLower then
      match rest with
      | '_' :: digits => digits
      | digits => digits
    else '0' :: c :: rest
  | t => t

def signed (base : ℕ) : Text → Option ℤ
  | '-' :: rest => (digits u base (dropBasePrefix base rest)).map fun n => -(n : ℤ)
  | '+' :: rest => (digits u base (dropBasePrefix base rest)).map fun n => (n : ℤ)
  | t => (digits u base (dropBasePrefix base t)).map fun n => (n : ℤ)

/-- `int(literal, base)`. -/
def pyInt (base : ℕ) (literal : Text) : Except PyError ℤ :=
  match signed u base (strip literal) with
  | some n => .ok n
  | none => .error (.invalidLiteral base literal)

/-- A decimal numeral, as `{n}` formats it. -/
def decFormat (n : ℕ) : Text := Nat.toDigits 10 n

/-- A hexadecimal numeral with at least `width` digits, as `{n:0{width}X}` formats it. -/
def hexFormat (width n : ℕ) : Text :=
  let digits := (Nat.toDigits 16 n).map Char.toUpper
  List.replicate (width - digits.length) '0' ++ digits

end Numerals

section Files

def writeText (t : Text) : List (BitVec 8) :=
  (String.ofList t).toUTF8.data.toList.map UInt8.toBitVec

def universalNewlines : Text → Text
  | [] => []
  | '\r' :: '\n' :: rest => '\n' :: universalNewlines rest
  | c :: rest => (if c = '\r' then '\n' else c) :: universalNewlines rest

def readText (raw : List (BitVec 8)) : Except PyError Text :=
  match String.fromUTF8? ⟨(raw.map UInt8.ofBitVec).toArray⟩ with
  | some s => .ok (universalNewlines s.toList)
  | none => .error .unicodeDecode

end Files

section Lines

private theorem splitlines_newline {line : Text} (whole : ∀ c ∈ line, isLineBreak c = false)
    (rest : Text) : splitlines (line ++ '\n' :: rest) = line :: splitlines rest := by
  induction line with
  | nil => rfl
  | cons c line ih =>
    obtain ⟨first, later⟩ := List.forall_mem_cons.mp whole
    have single : c ≠ '\r' := by
      rintro rfl
      exact absurd first (by decide)
    rw [List.cons_append, splitlines.eq_3 _ _ fun rest eq _ => single eq, first,
      if_neg Bool.false_ne_true, ih later]

theorem splitlines_flatMap {lines : List Text}
    (whole : ∀ line ∈ lines, ∀ c ∈ line, isLineBreak c = false) :
    splitlines (lines.flatMap (· ++ ['\n'])) = lines := by
  induction lines with
  | nil => rfl
  | cons line lines ih =>
    obtain ⟨first, later⟩ := List.forall_mem_cons.mp whole
    rw [List.flatMap_cons, List.append_assoc, List.singleton_append, splitlines_newline first,
      ih later]

theorem strip_eq_self {t : Text} (first : ∀ c ∈ t.head?, isSpace c = false)
    (last : ∀ c ∈ t.getLast?, isSpace c = false) : strip t = t := by
  have front : t.dropWhile isSpace = t := by
    cases t with
    | nil => rfl
    | cons c t => exact List.dropWhile_cons_of_neg (by simp [first c rfl])
  rw [strip, front, List.rdropWhile_eq_self_iff]
  intro nonempty
  simp [last _ (List.getLast_mem_getLast? nonempty)]

theorem strip_append_left {pad : Text} (spaces : ∀ c ∈ pad, isSpace c = true) (t : Text) :
    strip (pad ++ t) = strip t := by
  rw [strip, List.dropWhile_append_of_pos spaces, strip]

theorem strip_concat {c : Char} (space : isSpace c = true) (t : Text) :
    strip (t ++ [c]) = strip t := by
  rw [strip, strip, List.dropWhile_append]
  split_ifs with blank
  · rw [List.isEmpty_iff.mp blank, List.dropWhile_cons_of_pos space]
    rfl
  · exact List.rdropWhile_concat_pos _ _ _ space

/-- The separator is found behind text without its first character. -/
theorem splitOnce_first {a : Char} {sep pre : Text} (absent : a ∉ pre) (rest : Text) :
    splitOnce (a :: sep) (pre ++ (a :: sep ++ rest)) = some (pre, rest) := by
  induction pre with
  | nil => simp [splitOnce]
  | cons c pre ih =>
    obtain ⟨first, later⟩ : ¬a = c ∧ a ∉ pre := by simpa using absent
    rw [List.cons_append, splitOnce, if_neg (by simp [List.isPrefixOf, first]), ih later]
    rfl

/-- It is found behind text without its second character, if that is not its first. -/
theorem splitOnce_second {a b : Char} {sep pre : Text} (ne : a ≠ b) (absent : b ∉ pre)
    (rest : Text) :
    splitOnce (a :: b :: sep) (pre ++ (a :: b :: sep ++ rest)) = some (pre, rest) := by
  induction pre with
  | nil => simp [splitOnce]
  | cons c pre ih =>
    obtain ⟨_, later⟩ : ¬b = c ∧ b ∉ pre := by simpa using absent
    have miss : (a :: b :: sep).isPrefixOf (c :: (pre ++ (a :: b :: sep ++ rest))) = false := by
      cases pre with
      | nil => simp [List.isPrefixOf, ne.symm]
      | cons d pre =>
        obtain ⟨second, _⟩ : ¬b = d ∧ b ∉ pre := by simpa using later
        simp [List.isPrefixOf, second]
    simp only [List.cons_append] at miss ih ⊢
    rw [splitOnce, miss, if_neg Bool.false_ne_true, ih later]
    rfl

end Lines

section Hexadecimal

/-- A hexadecimal digit as `X` formats it. -/
def hexChar (d : ℕ) : Char := (Nat.digitChar d).toUpper

/-- The number that hexadecimal digits denote, the first one highest. -/
def hexValue (acc : ℕ) (ds : List ℕ) : ℕ := ds.foldl (fun n d => n * 16 + d) acc

private theorem hexValue_append (acc : ℕ) (ds es : List ℕ) :
    hexValue acc (ds ++ es) = hexValue (hexValue acc ds) es :=
  List.foldl_append

private theorem hexValue_zeros (k : ℕ) : hexValue 0 (List.replicate k 0) = 0 := by
  induction k with
  | zero => rfl
  | succ k ih => exact ih

/-- What a parser of lines has to know of the characters of a numeral. -/
structure HexPlain (c : Char) : Prop where
  space : isSpace c = false
  lineBreak : isLineBreak c = false
  separator : c ∉ ['\r', ':', ';', 'N', '+', '-', '_']
  letter : c.toLower ≠ 'x'

private theorem hexPlain_hexChar {d : ℕ} (small : d < 16) : HexPlain (hexChar d) := by
  interval_cases d <;> exact ⟨rfl, rfl, by decide, by decide⟩

variable (u : Unicode)

private theorem digitBelow_hexChar {d : ℕ} (small : d < 16) :
    digitBelow u 16 (hexChar d) = some d := by
  interval_cases d <;> rfl

private theorem moreDigits_hexChar {ds : List ℕ} (small : ∀ d ∈ ds, d < 16) (acc : ℕ) :
    moreDigits u 16 acc (ds.map hexChar) = some (hexValue acc ds) := by
  induction ds generalizing acc with
  | nil => rfl
  | cons d ds ih =>
    obtain ⟨first, later⟩ := List.forall_mem_cons.mp small
    have digit : hexChar d ≠ '_' := by
      intro eq
      exact (hexPlain_hexChar first).separator (by simp [eq])
    rw [List.map_cons, moreDigits.eq_3 _ _ _ _ _ fun _ _ eq _ => digit eq,
      digitBelow_hexChar u first, Option.bind_some, ih later]
    rfl

private theorem digits_hexChar {ds : List ℕ} (small : ∀ d ∈ ds, d < 16) (nonempty : ds ≠ []) :
    digits u 16 (ds.map hexChar) = some (hexValue 0 ds) := by
  obtain ⟨d, ds, rfl⟩ := List.exists_cons_of_ne_nil nonempty
  obtain ⟨first, later⟩ := List.forall_mem_cons.mp small
  rw [List.map_cons, digits, digitBelow_hexChar u first, Option.bind_some,
    moreDigits_hexChar u later]
  simp [hexValue]

private theorem exists_toDigits (n : ℕ) : ∃ ds : List ℕ, ds ≠ [] ∧ (∀ d ∈ ds, d < 16) ∧
    Nat.toDigits 16 n = ds.map Nat.digitChar ∧ hexValue 0 ds = n := by
  induction n using Nat.strongRecOn with
  | ind n ih =>
    rcases Nat.lt_or_ge n 16 with small | large
    · exact ⟨[n], by simp, by simpa using small, Nat.toDigits_of_lt_base small, by simp [hexValue]⟩
    · obtain ⟨ds, _, below, eq, sum⟩ := ih (n / 16) (by omega)
      refine ⟨ds ++ [n % 16], by simp, ?_, ?_, ?_⟩
      · intro d mem
        rcases List.mem_append.mp mem with mem | mem
        · exact below d mem
        · rw [List.mem_singleton.mp mem]
          omega
      · rw [Nat.toDigits_of_base_le (by decide) large, eq, List.map_append]
        rfl
      · rw [hexValue_append, sum]
        exact Nat.div_add_mod' n 16

private theorem exists_hexFormat (width n : ℕ) : ∃ ds : List ℕ, ds ≠ [] ∧ (∀ d ∈ ds, d < 16) ∧
    hexFormat width n = ds.map hexChar ∧ hexValue 0 ds = n := by
  obtain ⟨ds, nonempty, below, eq, sum⟩ := exists_toDigits n
  refine ⟨List.replicate (width - ds.length) 0 ++ ds, by simp [nonempty], ?_, ?_, ?_⟩
  · intro d mem
    rcases List.mem_append.mp mem with mem | mem
    · rw [List.eq_of_mem_replicate mem]
      decide
    · exact below d mem
  · simp only [hexFormat, eq, List.map_map, List.length_map, List.map_append,
      List.map_replicate]
    rfl
  · rw [hexValue_append, hexValue_zeros, sum]

theorem hexPlain_of_mem {width n : ℕ} {c : Char} (mem : c ∈ hexFormat width n) : HexPlain c := by
  obtain ⟨ds, _, below, eq, _⟩ := exists_hexFormat width n
  rw [eq] at mem
  obtain ⟨d, inside, rfl⟩ := List.mem_map.mp mem
  exact hexPlain_hexChar (below d inside)

theorem not_mem_hexFormat (width n : ℕ) {c : Char}
    (separator : c ∈ ['\r', ':', ';', 'N', '+', '-', '_']) : c ∉ hexFormat width n := fun mem =>
  (hexPlain_of_mem mem).separator separator

theorem hexFormat_ne_nil (width n : ℕ) : hexFormat width n ≠ [] := by
  obtain ⟨ds, nonempty, _, eq, _⟩ := exists_hexFormat width n
  simpa [eq] using nonempty

theorem strip_hexFormat (width n : ℕ) : strip (hexFormat width n) = hexFormat width n := by
  apply strip_eq_self
  · exact fun c mem => (hexPlain_of_mem (List.mem_of_mem_head? mem)).space
  · exact fun c mem => (hexPlain_of_mem (List.mem_of_mem_getLast? mem)).space

private theorem dropBasePrefix_hexFormat (width n : ℕ) :
    dropBasePrefix 16 (hexFormat width n) = hexFormat width n := by
  unfold dropBasePrefix
  split
  · next c rest eq =>
    have mem : c ∈ hexFormat width n := by simp [eq]
    have letter : prefixLetter 16 ≠ some c.toLower := fun eq =>
      (hexPlain_of_mem mem).letter (Option.some.inj eq).symm
    rw [if_neg letter, eq]
  · rfl

/-- A number formatted in hexadecimal is read back. -/
theorem pyInt_hexFormat (width n : ℕ) : pyInt u 16 (hexFormat width n) = .ok (n : ℤ) := by
  have value : digits u 16 (dropBasePrefix 16 (hexFormat width n)) = some n := by
    obtain ⟨ds, nonempty, below, eq, sum⟩ := exists_hexFormat width n
    rw [dropBasePrefix_hexFormat, eq, digits_hexChar u below nonempty, sum]
  have minus : '-' ∉ hexFormat width n := not_mem_hexFormat width n (by decide)
  have plus : '+' ∉ hexFormat width n := not_mem_hexFormat width n (by decide)
  have value : signed u 16 (hexFormat width n) = some (n : ℤ) := by
    unfold signed
    split
    · next rest eq => exact absurd (by simp [eq]) minus
    · next rest eq => exact absurd (by simp [eq]) plus
    · rw [value]
      rfl
  rw [pyInt, strip_hexFormat, value]

end Hexadecimal

section TextFiles

private theorem universalNewlines_eq {t : Text} (plain : '\r' ∉ t) : universalNewlines t = t := by
  induction t with
  | nil => rfl
  | cons c t ih =>
    obtain ⟨first, later⟩ : '\r' ≠ c ∧ '\r' ∉ t := by simpa using plain
    rw [universalNewlines.eq_3 _ _ fun rest eq _ => first eq.symm, if_neg (Ne.symm first), ih later]

/-- Text written to a file is read back, unless it contains a carriage return. -/
theorem readText_writeText {t : Text} (plain : '\r' ∉ t) : readText (writeText t) = .ok t := by
  have bytes : ((writeText t).map UInt8.ofBitVec).toArray = (String.ofList t).toUTF8.data := by
    rw [writeText, List.map_map, show UInt8.ofBitVec ∘ UInt8.toBitVec = id from rfl, List.map_id,
      Array.toArray_toList]
  have valid : String.fromUTF8? ⟨(String.ofList t).toUTF8.data⟩ = some (String.ofList t) :=
    dif_pos (String.ofList t).isValidUTF8
  rw [readText, bytes, valid]
  simp [universalNewlines_eq plain]

end TextFiles

end RiscvSoc.Host.PyText
