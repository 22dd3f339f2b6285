/- GID: RiscvSoc/Host/Mif
   generality: G
   utility: main
   digest: What bin2mif writes is read back by parse_mif, and all loaders of an image agree. -/

import RiscvSoc.Host.PyText
import RiscvSoc.Host.RegDebugger
import Mathlib.Data.List.GetD

set_option autoImplicit false
set_option relaxedAutoImplicit false

namespace RiscvSoc.Host.Mif

open RiscvSoc.Cpu.Decoder
open RiscvSoc.Memory.ByteLanes
open RiscvSoc.Host.PyText
open RiscvSoc.Host.RegDebugger

section Bin2mif

/-- `while len(data) % 4: data += b'\x00'`. -/
def padLoop (data : List Byte) : List Byte :=
  if data.length % 4 ≠ 0 then padLoop (data ++ [0]) else data
termination_by (4 - data.length % 4) % 4
decreasing_by
  rw [List.length_append, List.length_singleton]
  omega

/-- The words that `struct.unpack_from` finds at the offsets of `range(0, len(data), 4)`. -/
def unpackWords (data : List Byte) : List Word :=
  (List.range' 0 ((data.length + 3) / 4) 4).map fun i => unpackI (data.drop i)

def entry (i : ℕ) (word : Text) : Text :=
  "    ".toList ++ hexFormat 4 i ++ " : ".toList ++ word ++ ";\n".toList

/-- What `bin2mif` writes for the bytes of its input file. -/
def mifText (data : List Byte) (depth width : ℕ) : Text :=
  let words := unpackWords (padLoop data)
  "DEPTH = ".toList ++ decFormat depth ++ ";\n".toList ++
    "WIDTH = ".toList ++ decFormat width ++ ";\n".toList ++
    "ADDRESS_RADIX = HEX;\n".toList ++
    "DATA_RADIX = HEX;\n".toList ++
    "CONTENT BEGIN\n".toList ++
    (words.zipIdx.flatMap fun (word, i) => entry i (hexFormat 8 word.toNat)) ++
    ((List.range' words.length (depth - words.length)).flatMap fun i =>
      entry i "00000000".toList) ++
    "END;\n".toList

/-- The output file of `bin2mif`. -/
def bin2mif (data : List Byte) (depth width : ℕ) : List Byte := writeText (mifText data depth width)

end Bin2mif

section ParseMif

variable (u : Unicode)

def base (radix : Text) : ℕ :=
  if radix = "HEX".toList then 16
  else if radix = "DEC".toList then 10
  else if radix = "BIN".toList then 2
  else if radix = "OCT".toList then 8
  else 16

/-- The dictionary of `parse_mif`, its newest entry in front. -/
abbrev WordsByAddr := List (ℤ × ℤ)

def radixOf (key text : Text) : Text :=
  match searchField u key text with
  | some group => upper u group
  | none => "HEX".toList

def parseLine (addrRadix dataRadix : Text) (wordsByAddr : WordsByAddr) (line : Text) :
    Except PyError WordsByAddr :=
  match splitOnce ":".toList (rstripChar ';' (strip line)) with
  | none => .ok wordsByAddr
  | some (addrStr, dataStr) => do
    let addr ← pyInt u (base addrRadix) (strip addrStr)
    let data ← pyInt u (base dataRadix) (strip dataStr)
    return (addr, data) :: wordsByAddr

def orderedWords (wordsByAddr : WordsByAddr) : List ℤ :=
  match (wordsByAddr.map Prod.fst).max? with
  | none => []
  | some top => (List.range (top + 1).toNat).map fun i : ℕ => (wordsByAddr.lookup (i : ℤ)).getD 0

def parseMif (file : List Byte) : Except PyError (List ℤ) := do
  let text ← readText file
  let addrRadix := radixOf u "ADDRESS_RADIX".toList text
  let dataRadix := radixOf u "DATA_RADIX".toList text
  let body :=
    match splitOnce "CONTENT BEGIN".toList text with
    | some (_, behind) => behind
    | none => text
  let body :=
    match splitOnce "END;".toList body with
    | some (before, _) => before
    | none => body
  let wordsByAddr ← (splitlines body).foldlM (parseLine u addrRadix dataRadix) []
  return orderedWords wordsByAddr

end ParseMif

section Loaders

variable (u : Unicode)

/-- `while words and words[-1] == 0: words.pop()`. -/
def popZeros (words : List ℤ) : List ℤ :=
  if words.getLast? = some 0 then popZeros words.dropLast else words
termination_by words.length
decreasing_by
  cases words with
  | nil => contradiction
  | cons w ws => simp

def binWords (raw : List Byte) : List ℤ :=
  let raw :=
    if raw.length % 4 ≠ 0 then raw ++ List.replicate (4 - raw.length % 4) 0 else raw
  (List.range (raw.length / 4)).map fun k => ((unpackI (raw.drop (4 * k))).toNat : ℤ)

/-- `load_words_from_file` on a file of that name and contents. -/
def loadWordsFromFile (path : Text) (file : List Byte) (trimTrailingZeros : Bool) :
    Except PyError (List ℤ) := do
  let words ←
    if ".mif".toList.isSuffixOf (lower u path) then parseMif u file
    else .ok (binWords file)
  return if trimTrailingZeros then popZeros words else words

def bytesToWords (raw : List Byte) (trimTrailingZeros : Bool) : List ℤ :=
  let words := binWords raw
  if trimTrailingZeros then popZeros words else words

/-- The upload goes through a temporary file. -/
def mifBytesToWords (raw : List Byte) (trimTrailingZeros : Bool) : Except PyError (List ℤ) := do
  let words ← parseMif u raw
  return if trimTrailingZeros then popZeros words else words

end Loaders

section ImageWords

/-- The little-endian words of a byte string, zeros behind its end. -/
def imageWords (b : List Byte) : List Word :=
  (List.range ((b.length + 3) / 4)).map fun k =>
    b.getD (4 * k + 3) 0 ++ b.getD (4 * k + 2) 0 ++ b.getD (4 * k + 1) 0 ++ b.getD (4 * k) 0

/-- The words of an image as Python integers. -/
def imageValues (b : List Byte) : List ℤ := (imageWords b).map fun w => (w.toNat : ℤ)

private theorem padLoop_eq (data : List Byte) :
    padLoop data = data ++ List.replicate ((4 - data.length % 4) % 4) 0 := by
  fun_induction padLoop data with
  | case1 data short ih =>
    have zeros : (4 - data.length % 4) % 4 = (4 - (data.length + 1) % 4) % 4 + 1 := by omega
    rw [ih, List.append_assoc, List.length_append, List.length_singleton, zeros,
      List.singleton_append, ← List.replicate_succ]
  | case2 data whole => simp_all

private theorem getD_append_zeros (b : List Byte) (k i : ℕ) :
    (b ++ List.replicate k 0).getD i 0 = b.getD i 0 := by
  rcases Nat.lt_or_ge i b.length with inside | outside
  · exact List.getD_append _ _ _ _ inside
  · rw [List.getD_append_right _ _ _ _ outside, List.getD_eq_default _ _ outside]
    exact List.getElem?_getD_replicate_default_eq 0 k _

private theorem unpackI_drop (b : List Byte) (k i : ℕ) :
    unpackI ((b ++ List.replicate k 0).drop i) =
      b.getD (i + 3) 0 ++ b.getD (i + 2) 0 ++ b.getD (i + 1) 0 ++ b.getD i 0 := by
  have shifted (j : ℕ) : ((b ++ List.replicate k 0).drop i).getD j 0 = b.getD (i + j) 0 := by
    rw [← getD_append_zeros b k (i + j), List.getD_eq_getElem?_getD, List.getElem?_drop,
      List.getD_eq_getElem?_getD]
  rw [unpackI, shifted, shifted, shifted, shifted]
  rfl

private theorem unpackWords_padLoop (b : List Byte) : unpackWords (padLoop b) = imageWords b := by
  have count : (b.length + (4 - b.length % 4) % 4 + 3) / 4 = (b.length + 3) / 4 := by omega
  rw [unpackWords, padLoop_eq, List.length_append, List.length_replicate, count, imageWords]
  apply List.ext_getElem
  · simp
  · intro k _ _
    rw [List.getElem_map, List.getElem_map, List.getElem_range', List.getElem_range,
      unpackI_drop, Nat.zero_add]

private theorem binWords_eq (b : List Byte) : binWords b = imageValues b := by
  have padded : (if b.length % 4 ≠ 0 then b ++ List.replicate (4 - b.length % 4) 0 else b) =
      b ++ List.replicate ((4 - b.length % 4) % 4) 0 := by
    split_ifs with short
    · rw [Nat.mod_eq_of_lt (show 4 - b.length % 4 < 4 by omega)]
    · simp_all
  have count : (b.length + (4 - b.length % 4) % 4) / 4 = (b.length + 3) / 4 := by omega
  simp only [binWords, padded]
  rw [List.length_append, List.length_replicate, count, imageValues, imageWords, List.map_map]
  congr 1
  ext1 k
  rw [Function.comp_apply, unpackI_drop]

end ImageWords

section Written

def header : Text :=
  "DEPTH = 4096;\nWIDTH = 32;\nADDRESS_RADIX = HEX;\nDATA_RADIX = HEX;\n".toList

def row (i v : ℕ) : Text :=
  "    ".toList ++ hexFormat 4 i ++ " : ".toList ++ hexFormat 8 v ++ ";".toList

/-- The lines of the values from address `start` on. -/
def rows (values : List ℕ) (start : ℕ) : List Text :=
  (values.zipIdx start).map fun (v, i) => row i v

def contents (b : List Byte) (depth : ℕ) : List ℕ :=
  (imageWords b).map BitVec.toNat ++ List.replicate (depth - (imageWords b).length) 0

/-- What stands between `CONTENT BEGIN` and `END;`. -/
def block (b : List Byte) : Text :=
  '\n' :: (rows (contents b 4096) 0).flatMap (· ++ ['\n'])

private theorem entry_eq (i v : ℕ) : entry i (hexFormat 8 v) = row i v ++ ['\n'] := by
  unfold entry row
  simp

private theorem rows_append (vs ws : List ℕ) (start : ℕ) :
    rows (vs ++ ws) start = rows vs start ++ rows ws (start + vs.length) := by
  rw [rows, List.zipIdx_append, List.map_append]
  rfl

private theorem flatMap_words (words : List Word) :
    (words.zipIdx.flatMap fun (word, i) => entry i (hexFormat 8 word.toNat)) =
      (rows (words.map BitVec.toNat) 0).flatMap (· ++ ['\n']) := by
  rw [rows, List.flatMap_map, List.zipIdx_map, List.flatMap_map]
  exact List.flatMap_congr fun p _ => entry_eq _ _

private theorem flatMap_fill (start k : ℕ) :
    ((List.range' start k).flatMap fun i => entry i "00000000".toList) =
      (rows (List.replicate k 0) start).flatMap (· ++ ['\n']) := by
  induction k generalizing start with
  | zero => rfl
  | succ k ih =>
    have cells : rows (List.replicate (k + 1) 0) start =
        row start 0 :: rows (List.replicate k 0) (start + 1) := rfl
    rw [List.range'_succ, List.flatMap_cons, ih, cells, List.flatMap_cons, ← entry_eq]
    rfl

private theorem flatMap_contents (b : List Byte) (depth : ℕ) :
    (rows (contents b depth) 0).flatMap (· ++ ['\n']) =
      ((imageWords b).zipIdx.flatMap fun (word, i) => entry i (hexFormat 8 word.toNat)) ++
        (List.range' (imageWords b).length (depth - (imageWords b).length)).flatMap fun i =>
          entry i "00000000".toList := by
  rw [contents, rows_append, List.flatMap_append, flatMap_words, flatMap_fill, List.length_map,
    Nat.zero_add]

private theorem mifText_eq (b : List Byte) :
    mifText b 4096 32 =
      header ++ ("CONTENT BEGIN".toList ++ (block b ++ ("END;".toList ++ "\n".toList))) := by
  have depth : decFormat 4096 = "4096".toList := rfl
  have width : decFormat 32 = "32".toList := rfl
  rw [block, flatMap_contents]
  unfold mifText header
  simp [unpackWords_padLoop, depth, width]

private theorem header_plain : 'C' ∉ header ∧ '\r' ∉ header := by
  unfold header
  simp

variable (u : Unicode)

private theorem radixOf_address (t : Text) :
    radixOf u "ADDRESS_RADIX".toList (header ++ t) = "HEX".toList :=
  rfl

private theorem radixOf_data (t : Text) :
    radixOf u "DATA_RADIX".toList (header ++ t) = "HEX".toList :=
  rfl

private theorem base_hex : base "HEX".toList = 16 := rfl

private theorem row_stripped (i v : ℕ) : rstripChar ';' (strip (row i v)) =
    hexFormat 4 i ++ [' '] ++ (":".toList ++ (' ' :: hexFormat 8 v)) := by
  have frame : row i v = "    ".toList ++
      (hexFormat 4 i ++ [' '] ++ (":".toList ++ (' ' :: hexFormat 8 v)) ++ [';']) := by
    unfold row
    simp
  rw [frame, strip_append_left (by simp [isSpace]), strip_eq_self, rstripChar,
    List.rdropWhile_concat_pos _ _ _ rfl, List.rdropWhile_eq_self_iff]
  · intro _
    have last : (hexFormat 4 i ++ [' '] ++ (":".toList ++ (' ' :: hexFormat 8 v))).getLast ‹_› =
        (hexFormat 8 v).getLast (hexFormat_ne_nil 8 v) := by
      simp [hexFormat_ne_nil]
    have mem := List.getLast_mem (hexFormat_ne_nil 8 v)
    rw [last, beq_iff_eq]
    intro eq
    exact not_mem_hexFormat 8 v (show ';' ∈ _ by decide) (eq ▸ mem)
  · intro c mem
    rw [List.append_assoc, List.append_assoc,
      List.head?_append_of_ne_nil _ (hexFormat_ne_nil 4 i)] at mem
    exact (hexPlain_of_mem (List.mem_of_mem_head? mem)).space
  · intro c mem
    rw [List.getLast?_concat] at mem
    cases mem
    rfl

private theorem parseLine_row (i v : ℕ) (wordsByAddr : WordsByAddr) :
    parseLine u "HEX".toList "HEX".toList wordsByAddr (row i v) =
      .ok (((i : ℤ), (v : ℤ)) :: wordsByAddr) := by
  have absent : ':' ∉ hexFormat 4 i ++ [' '] := by
    simp [not_mem_hexFormat 4 i (show ':' ∈ _ by decide)]
  have addr : strip (hexFormat 4 i ++ [' ']) = hexFormat 4 i := by
    rw [strip_concat rfl, strip_hexFormat]
  have data : strip (' ' :: hexFormat 8 v) = hexFormat 8 v := by
    rw [← List.singleton_append, strip_append_left (by simp [isSpace]), strip_hexFormat]
  unfold parseLine
  rw [row_stripped, show ":".toList = [':'] from rfl, splitOnce_first absent]
  simp only [addr, data, base_hex, pyInt_hexFormat]
  rfl

private theorem row_plain (i v : ℕ) : ∀ c ∈ row i v, isLineBreak c = false ∧ c ≠ 'N' := by
  have frame : ∀ c ∈ " :;".toList, isLineBreak c = false ∧ c ≠ 'N' := by simp [isLineBreak]
  have hex (width n : ℕ) : ∀ c ∈ hexFormat width n, isLineBreak c = false ∧ c ≠ 'N' := by
    intro c mem
    refine ⟨(hexPlain_of_mem mem).lineBreak, ?_⟩
    rintro rfl
    exact not_mem_hexFormat width n (by decide) mem
  intro c mem
  unfold row at mem
  simp only [List.mem_append] at mem
  rcases mem with (((pad | addr) | colon) | data) | semicolon
  · exact frame c (by simp_all)
  · exact hex 4 i c addr
  · have sep : c = ' ' ∨ c = ':' ∨ c = ' ' := by simpa using colon
    rcases sep with rfl | rfl | rfl <;> exact frame _ (by simp)
  · exact hex 8 v c data
  · exact frame c (by simp_all)

private theorem rows_plain (values : List ℕ) (start : ℕ) :
    ∀ line ∈ rows values start, ∀ c ∈ line, isLineBreak c = false ∧ c ≠ 'N' := by
  intro line mem
  obtain ⟨p, _, rfl⟩ := List.mem_map.mp mem
  exact row_plain p.2 p.1

private theorem block_plain (b : List Byte) : 'N' ∉ block b ∧ '\r' ∉ block b := by
  have line : ∀ c ∈ block b, c = '\n' ∨ isLineBreak c = false ∧ c ≠ 'N' := by
    intro c mem
    rcases List.mem_cons.mp mem with rfl | mem
    · exact .inl rfl
    · obtain ⟨line, inside, mem⟩ := List.mem_flatMap.mp mem
      rcases List.mem_append.mp mem with mem | mem
      · exact .inr (rows_plain (contents b 4096) 0 line inside c mem)
      · exact .inl (List.mem_singleton.mp mem)
  constructor <;> intro mem
  · simpa using line _ mem
  · simpa [isLineBreak] using line _ mem

private theorem splitlines_block (b : List Byte) :
    splitlines (block b) = [] :: rows (contents b 4096) 0 := by
  have lines := splitlines_flatMap fun line mem c inside =>
    (rows_plain (contents b 4096) 0 line mem c inside).1
  calc splitlines (block b)
      = [] :: splitlines ((rows (contents b 4096) 0).flatMap (· ++ ['\n'])) := rfl
    _ = [] :: rows (contents b 4096) 0 := by rw [lines]

end Written

section Reassembly

/-- The dictionary has the values at the addresses from zero on. -/
structure Holds (wordsByAddr : WordsByAddr) (values : List ℤ) : Prop where
  found : ∀ i : ℕ, wordsByAddr.lookup (i : ℤ) = values[i]?
  top : (wordsByAddr.map Prod.fst).max? =
    if values = [] then none else some (values.length - 1 : ℤ)

private theorem Holds.nil : Holds [] [] := ⟨fun _ => rfl, rfl⟩

private theorem Holds.cons {wordsByAddr : WordsByAddr} {values : List ℤ}
    (holds : Holds wordsByAddr values)
    (v : ℤ) : Holds (((values.length : ℤ), v) :: wordsByAddr) (values ++ [v]) := by
  constructor
  · intro i
    by_cases here : i = values.length
    · simp [here]
    · have other : ((i : ℤ) == (values.length : ℤ)) = false := by simp [here]
      rw [List.lookup_cons, other, List.getElem?_append]
      simp only [holds.found]
      split_ifs with below
      · rfl
      · rw [List.getElem?_eq_none (by omega), List.getElem?_eq_none (by simp; omega)]
  · rw [List.map_cons, List.max?_cons, holds.top]
    split_ifs with empty <;> simp_all

private theorem Holds.orderedWords {wordsByAddr : WordsByAddr} {values : List ℤ}
    (holds : Holds wordsByAddr values) : orderedWords wordsByAddr = values := by
  unfold Mif.orderedWords
  rw [holds.top]
  split_ifs with empty
  · rw [empty]
  · have count : ((values.length : ℤ) - 1 + 1).toNat = values.length := by omega
    simp only [count]
    apply List.ext_getElem
    · simp
    · intro i _ inside
      rw [List.getElem_map, List.getElem_range, holds.found, List.getElem?_eq_getElem inside]
      rfl

variable (u : Unicode)

private theorem foldlM_rows (ws : List ℕ) {wordsByAddr : WordsByAddr} {values : List ℤ}
    (holds : Holds wordsByAddr values) :
    ∃ after, (rows ws values.length).foldlM (parseLine u "HEX".toList "HEX".toList) wordsByAddr =
        .ok after ∧ Holds after (values ++ ws.map fun w : ℕ => (w : ℤ)) := by
  induction ws generalizing wordsByAddr values with
  | nil => exact ⟨wordsByAddr, rfl, by simpa using holds⟩
  | cons w ws ih =>
    have cells : rows (w :: ws) values.length =
        row values.length w :: rows ws (values ++ [(w : ℤ)]).length := by
      rw [List.length_append]
      rfl
    obtain ⟨after, run, held⟩ := ih (holds.cons w)
    refine ⟨after, ?_, by simpa using held⟩
    rw [cells, List.foldlM_cons, parseLine_row]
    exact run

end Reassembly

section RoundTrip

variable (u : Unicode)

private theorem parseMif_bin2mif (b : List Byte) :
    parseMif u (bin2mif b 4096 32) = .ok ((contents b 4096).map fun w : ℕ => (w : ℤ)) := by
  have noReturn : '\r' ∉ mifText b 4096 32 := by
    simp [mifText_eq, header_plain.2, (block_plain b).2]
  have front : splitOnce "CONTENT BEGIN".toList (mifText b 4096 32) =
      some (header, block b ++ ("END;".toList ++ "\n".toList)) := by
    rw [mifText_eq]
    exact splitOnce_first header_plain.1 _
  have back : splitOnce "END;".toList (block b ++ ("END;".toList ++ "\n".toList)) =
      some (block b, "\n".toList) :=
    splitOnce_second (by decide) (block_plain b).1 _
  have addrRadix : radixOf u "ADDRESS_RADIX".toList (mifText b 4096 32) = "HEX".toList := by
    rw [mifText_eq, radixOf_address]
  have dataRadix : radixOf u "DATA_RADIX".toList (mifText b 4096 32) = "HEX".toList := by
    rw [mifText_eq, radixOf_data]
  obtain ⟨after, run, held⟩ := foldlM_rows u (contents b 4096) Holds.nil
  have lines : (splitlines (block b)).foldlM (parseLine u "HEX".toList "HEX".toList) [] =
      .ok after := by
    rw [splitlines_block]
    exact run
  unfold parseMif bin2mif
  rw [readText_writeText noReturn]
  simp only [bind, Except.bind, addrRadix, dataRadix, front, back, lines]
  rw [held.orderedWords]
  rfl

private theorem contents_values (b : List Byte) (depth : ℕ) :
    ((contents b depth).map fun w : ℕ => (w : ℤ)) =
      imageValues b ++ List.replicate (depth - (imageWords b).length) 0 := by
  rw [contents, List.map_append, List.map_map, List.map_replicate]
  rfl

private theorem popZeros_spec (words : List ℤ) :
    (∃ k, words = popZeros words ++ List.replicate k 0) ∧ (popZeros words).getLast? ≠ some 0 := by
  fun_induction popZeros words with
  | case1 words zero ih =>
    obtain ⟨⟨k, split⟩, last⟩ := ih
    refine ⟨⟨k + 1, ?_⟩, last⟩
    rw [List.replicate_succ', ← List.append_assoc, ← split]
    exact (List.dropLast_append_getLast? 0 zero).symm
  | case2 words last => exact ⟨⟨0, (List.append_nil words).symm⟩, last⟩

private theorem popZeros_unique {init : List ℤ} (last : init.getLast? ≠ some 0) (k : ℕ) :
    popZeros (init ++ List.replicate k 0) = init := by
  induction k with
  | zero => rw [List.replicate_zero, List.append_nil, popZeros, if_neg last]
  | succ k ih =>
    rw [List.replicate_succ', ← List.append_assoc, popZeros, List.getLast?_concat, if_pos rfl,
      List.dropLast_concat, ih]

private theorem popZeros_fill (words : List ℤ) (k : ℕ) :
    popZeros (words ++ List.replicate k 0) = popZeros words := by
  obtain ⟨⟨j, split⟩, last⟩ := popZeros_spec words
  have all : words ++ List.replicate k 0 = popZeros words ++ List.replicate (j + k) 0 := by
    rw [List.replicate_add, ← List.append_assoc, ← split]
  rw [all, popZeros_unique last]

private theorem lower_append (s t : Text) : lower u (s ++ t) = lower u s ++ lower u t :=
  List.flatMap_append

private theorem isSuffixOf_append {ext t : Text} (size : ext.length = t.length) (s : Text) :
    ext.isSuffixOf (s ++ t) = true ↔ ext = t := by
  rw [List.isSuffixOf_iff_suffix]
  constructor
  · intro suffix
    have both := List.suffix_of_suffix_length_le suffix (List.suffix_append s t) size.le
    exact both.eq_of_length size
  · rintro rfl
    exact List.suffix_append s ext

/-- The images that `bin2mif` writes are read back word for word, with zeros up to the depth of
the memory, and all loaders find the words of the raw image without its trailing zeros. -/
theorem image_files_round_trip (b : List Byte) (stem : Text) :
    parseMif u (bin2mif b 4096 32) =
        .ok (imageValues b ++ List.replicate (4096 - (imageWords b).length) 0) ∧
      loadWordsFromFile u (stem ++ ".bin".toList) b true = .ok (popZeros (imageValues b)) ∧
      loadWordsFromFile u (stem ++ ".mif".toList) (bin2mif b 4096 32) true =
        .ok (popZeros (imageValues b)) ∧
      bytesToWords b true = popZeros (imageValues b) ∧
      mifBytesToWords u (bin2mif b 4096 32) true = .ok (popZeros (imageValues b)) := by
  have mif := parseMif_bin2mif u b
  rw [contents_values] at mif
  have isBin : ¬".mif".toList.isSuffixOf (lower u (stem ++ ".bin".toList)) = true := by
    rw [lower_append, isSuffixOf_append (by rfl)]
    change ".mif".toList ≠ ".bin".toList
    decide
  have isMif : ".mif".toList.isSuffixOf (lower u (stem ++ ".mif".toList)) = true := by
    rw [lower_append, isSuffixOf_append (by rfl)]
    rfl
  refine ⟨mif, ?_, ?_, ?_, ?_⟩
  · rw [loadWordsFromFile, if_neg isBin, binWords_eq]
    rfl
  · rw [loadWordsFromFile, if_pos isMif, mif, ← popZeros_fill (imageValues b)]
    rfl
  · rw [bytesToWords, binWords_eq]
    rfl
  · rw [mifBytesToWords, mif, ← popZeros_fill (imageValues b)]
    rfl

end RoundTrip

end RiscvSoc.Host.Mif
