/- GID: RiscvSoc/Firmware/Containment
   generality: G
   utility: main
   digest: The size headers for which the bootloader stays inside the program region. -/

import RiscvSoc.Firmware.Transfer

set_option autoImplicit false
set_option relaxedAutoImplicit false

namespace RiscvSoc.Firmware.Containment

open RiscvSoc.Cpu.Decoder
open RiscvSoc.Memory.ByteLanes
open RiscvSoc.Memory.DpRam
open RiscvSoc.Fpga.RiscvTop
open RiscvSoc.Firmware.Bootloader
open RiscvSoc.Firmware.Transfer

/-- The words of the BRAM below 0x1000 hold the bootloader. -/
def bootWords : ℕ := 0x400

/-- A store to this address goes to the program region. -/
def InProgram (a : Word) : Prop := inBram a = true ∧ bootWords ≤ (wordIndex a).toNat

/-- A whole number of words that the program region holds. -/
def Fits (size : Word) : Prop := 4 ∣ size.toNat ∧ size.toNat ≤ 0x3000

def roundUp (n : ℕ) : ℕ := (n + 3) / 4 * 4

/-- The bootloader, started at `s`, reads this size header. -/
def Reads (s : Boot) (results : List (Option Byte)) (size : Word) : Prop :=
  ∃ before after, results = before ++ ((wordBytes size).map some ++ after) ∧
    (s.start.run before).label = .size0

/-- A size header and bytes after it. -/
def sent (before : List (Option Byte)) (size : Word) (data : List Byte) : List (Option Byte) :=
  before ++ (wordBytes size ++ data).map some

/-- The bootloader stores to the program region only, keeps its own words, and leaves `recv_loop`
when the announced bytes are in. -/
structure Contained (s : Boot) (results : List (Option Byte)) : Prop where
  lands : ∀ before b after, results = before ++ some b :: after →
    (s.start.run before).label = .data3 → InProgram (s.start.run before).x21
  bootloader : ∀ a : BramAddr, a.toNat < bootWords → (s.start.run results).mem a = s.mem a
  ends : ∀ before size data, results = sent before size data →
    (s.start.run before).label = .size0 → roundUp size.toNat ≤ data.length →
    (s.start.run results).label.inLoop = false

section Steps

/-- In `recv_loop` the destination and the bytes to come add up to the end of the program. -/
structure Counts (s : Boot) : Prop where
  fits : Fits s.x20
  sum : s.x21.toNat + s.x22.toNat = 0x1000 + s.x20.toNat
  words : 4 ∣ s.x22.toNat
  more : 0 < s.x22.toNat
  dest : 0x1000 ≤ s.x21.toNat

structure Sound (mem : BramAddr → Word) (s : Boot) : Prop where
  bootloader : ∀ a : BramAddr, a.toNat < bootWords → s.mem a = mem a
  counts : s.label.inLoop = true → Counts s

variable {mem : BramAddr → Word} {s : Boot} {b : Byte} {result : Option Byte}

private theorem dest_of_counts (counts : Counts s) :
    ∃ k, bootWords ≤ k ∧ k < 0x1000 ∧ s.x21 = BitVec.ofNat 32 (4 * k) := by
  obtain ⟨⟨whole, small⟩, sum, words, more, dest⟩ := counts
  refine ⟨s.x21.toNat / 4, ?_, by omega, ?_⟩
  · rw [bootWords]
    omega
  · apply BitVec.eq_of_toNat_eq
    rw [BitVec.toNat_ofNat]
    omega

theorem inProgram_of_counts (counts : Counts s) : InProgram s.x21 := by
  obtain ⟨k, lo, hi, dest⟩ := dest_of_counts counts
  rw [dest]
  constructor
  · exact inBram_word hi
  · rw [wordIndex_word, BitVec.toNat_ofNat]
    omega

private theorem storeWord_of_counts (counts : Counts s) (data : Word) {a : BramAddr}
    (boot : a.toNat < bootWords) : storeWord s.mem s.x21 data a = s.mem a := by
  obtain ⟨k, lo, hi, dest⟩ := dest_of_counts counts
  have other : a ≠ BitVec.ofNat 12 k := by
    intro same
    rw [same, BitVec.toNat_ofNat] at boot
    omega
  rw [dest, storeWord_bram s.mem hi, Function.update_of_ne other]

private theorem step_size3 (b : Byte) (label : s.label = .size3) :
    (s.step (some b)).x20 = s.x20 ||| b.setWidth 32 <<< 24 ∧ (s.step (some b)).x21 = 0x1000 ∧
      (s.step (some b)).x22 = (s.step (some b)).x20 ∧ (s.step (some b)).mem = s.mem ∧
      (s.step (some b)).label =
        if (s.step (some b)).x22 = 0 then .checksum else .data0 := by
  simp [Boot.step, Boot.resume, Boot.recvLoop, Label.receives, label]

private theorem step_data3 (b : Byte) (label : s.label = .data3) :
    (s.step (some b)).x20 = s.x20 ∧ (s.step (some b)).x21 = s.x21 + 4 ∧
      (s.step (some b)).x22 = s.x22 - 4 ∧
      (∃ data, (s.step (some b)).mem = storeWord s.mem s.x21 data) ∧
      (s.step (some b)).label =
        if (s.step (some b)).x22 = 0 then .checksum else .data0 := by
  refine ⟨?_, ?_, ?_, ⟨s.x24 ||| b.setWidth 32 <<< 24, ?_⟩, ?_⟩ <;>
    simp [Boot.step, Boot.resume, Boot.recvLoop, Label.receives, label]

private theorem step_data (b : Byte) (inside : s.label.inLoop = true) (before : s.label ≠ .data3) :
    (s.step (some b)).x20 = s.x20 ∧ (s.step (some b)).x21 = s.x21 ∧
      (s.step (some b)).x22 = s.x22 ∧ (s.step (some b)).mem = s.mem := by
  cases label : s.label <;> simp [Label.inLoop, label] at inside before <;>
    simp [Boot.step, Boot.resume, Label.receives, label]

private theorem step_outside (b : Byte) (outside : s.label.inLoop = false)
    (before : s.label ≠ .size3) :
    (s.step (some b)).mem = s.mem ∧ (s.step (some b)).label.inLoop = false := by
  cases label : s.label <;> simp [Label.inLoop, label] at outside before
  case checksum =>
    simp only [Boot.step, Boot.resume, Boot.recvDone, Label.receives, label, if_true]
    split <;> exact ⟨rfl, rfl⟩
  all_goals simp [Boot.step, Boot.resume, Label.receives, label, Label.inLoop]

private theorem more_of_inLoop {t : Boot} (head : t.label = if t.x22 = 0 then .checksum else .data0)
    (stays : t.label.inLoop = true) : 0 < t.x22.toNat := by
  apply Nat.pos_of_ne_zero
  intro none
  have zero : t.x22 = 0 := BitVec.eq_of_toNat_eq none
  rw [head, if_pos zero] at stays
  exact absurd stays (by decide)

private theorem counts_size3 (label : s.label = .size3)
    (fits : Fits (s.x20 ||| b.setWidth 32 <<< 24))
    (stays : (s.step (some b)).label.inLoop = true) : Counts (s.step (some b)) := by
  obtain ⟨x20, x21, x22, -, head⟩ := step_size3 b label
  have more := more_of_inLoop head stays
  rw [← x20] at fits
  constructor
  · exact fits
  · rw [x21, x22]
    rfl
  · rw [x22]
    exact fits.1
  · exact more
  · rw [x21]
    decide

private theorem counts_data3 (counts : Counts s) (label : s.label = .data3)
    (stays : (s.step (some b)).label.inLoop = true) : Counts (s.step (some b)) := by
  obtain ⟨x20, x21, x22, -, head⟩ := step_data3 b label
  have more := more_of_inLoop head stays
  obtain ⟨fits, sum, words, left, dest⟩ := counts
  have bound := fits.2
  have next : (s.x21 + 4).toNat = s.x21.toNat + 4 := by
    rw [BitVec.toNat_add]
    change (s.x21.toNat + 4) % 2 ^ 32 = s.x21.toNat + 4
    omega
  have rest : (s.x22 - 4).toNat = s.x22.toNat - 4 := by
    have below := s.x22.isLt
    rw [BitVec.toNat_sub]
    change (2 ^ 32 - 4 + s.x22.toNat) % 2 ^ 32 = s.x22.toNat - 4
    omega
  constructor
  · rw [x20]
    exact fits
  · rw [x20, x21, x22, next, rest]
    omega
  · rw [x22, rest]
    omega
  · exact more
  · rw [x21, next]
    omega

private theorem counts_data (counts : Counts s) (inside : s.label.inLoop = true)
    (before : s.label ≠ .data3) : Counts (s.step (some b)) := by
  obtain ⟨x20, x21, x22, -⟩ := step_data b inside before
  obtain ⟨fits, sum, words, left, dest⟩ := counts
  constructor
  · rw [x20]
    exact fits
  · rw [x20, x21, x22]
    exact sum
  · rw [x22]
    exact words
  · rw [x22]
    exact left
  · rw [x21]
    exact dest

private theorem sound_start (sound : ∀ a : BramAddr, a.toNat < bootWords → s.mem a = mem a) :
    Sound mem s.start :=
  ⟨sound, fun inside => absurd inside (by simp [Boot.start, Label.inLoop])⟩

private theorem sound_byte (sound : Sound mem s)
    (header : s.label = .size3 → Fits (s.x20 ||| b.setWidth 32 <<< 24)) :
    Sound mem (s.step (some b)) := by
  by_cases inside : s.label.inLoop = true
  · have counts := sound.counts inside
    by_cases last : s.label = .data3
    · obtain ⟨-, -, -, ⟨data, mem'⟩, -⟩ := step_data3 b last
      refine ⟨?_, counts_data3 counts last⟩
      intro a boot
      rw [mem', storeWord_of_counts counts data boot]
      exact sound.bootloader a boot
    · obtain ⟨-, -, -, mem'⟩ := step_data b inside last
      refine ⟨?_, fun _ => counts_data counts inside last⟩
      rw [mem']
      exact sound.bootloader
  · by_cases last : s.label = .size3
    · obtain ⟨-, -, -, mem', -⟩ := step_size3 b last
      refine ⟨?_, counts_size3 last (header last)⟩
      rw [mem']
      exact sound.bootloader
    · obtain ⟨mem', out⟩ := step_outside b (Bool.eq_false_iff.mpr inside) last
      refine ⟨?_, fun stays => absurd (out.symm.trans stays) (by decide)⟩
      rw [mem']
      exact sound.bootloader

private theorem sound_timeout (sound : Sound mem s) : Sound mem (s.step none) := by
  by_cases receives : s.label.receives = true
  · rw [Boot.step_none receives]
    exact sound_start sound.bootloader
  · simpa [Boot.step, receives] using sound

end Steps

section Headers

variable {s : Boot} {results : List (Option Byte)}

private theorem step_size (s : Boot) (result : Option Byte) :
    match (s.step result).label with
    | .size1 => ∃ b, result = some b ∧ s.label = .size0 ∧ (s.step result).x20 = b.setWidth 32
    | .size2 => ∃ b, result = some b ∧ s.label = .size1 ∧
        (s.step result).x20 = s.x20 ||| b.setWidth 32 <<< 8
    | .size3 => ∃ b, result = some b ∧ s.label = .size2 ∧
        (s.step result).x20 = s.x20 ||| b.setWidth 32 <<< 16
    | _ => True := by
  cases result with
  | none => cases label : s.label <;> simp [Boot.step, Boot.start, Label.receives, label]
  | some b =>
    cases label : s.label <;>
      simp only [Boot.step, Boot.resume, Boot.recvLoop, Boot.recvDone, Label.receives, label,
        if_true, Bool.false_eq_true, if_false]
    case size0 | size1 | size2 => exact ⟨b, rfl, trivial, rfl⟩
    case size3 | data3 =>
      split_ifs <;> trivial
    case checksum =>
      split_ifs <;> trivial

private theorem run_size {l : Label} (here : (s.start.run results).label = l) (later : l ≠ .size0) :
    ∃ before result, results = before ++ [result] ∧
      s.start.run results = (s.start.run before).step result := by
  rcases List.eq_nil_or_concat results with rfl | ⟨before, result, rfl⟩
  · exact absurd (here.symm : l = .size0) later
  · exact ⟨before, result, List.concat_eq_append, by
      rw [List.concat_eq_append, Boot.run_concat]⟩

private theorem reads_size3 (here : (s.start.run results).label = .size3) (b : Byte)
    (after : List (Option Byte)) :
    Reads s (results ++ some b :: after) ((s.start.run results).x20 ||| b.setWidth 32 <<< 24) := by
  obtain ⟨two, r₂, rfl, run₂⟩ := run_size here (by decide)
  have size₂ := step_size (s.start.run two) r₂
  simp only [← run₂, here] at size₂
  obtain ⟨b₂, rfl, label₂, x20₂⟩ := size₂
  obtain ⟨one, r₁, rfl, run₁⟩ := run_size label₂ (by decide)
  have size₁ := step_size (s.start.run one) r₁
  simp only [← run₁, label₂] at size₁
  obtain ⟨b₁, rfl, label₁, x20₁⟩ := size₁
  obtain ⟨before, r₀, rfl, run₀⟩ := run_size label₁ (by decide)
  have size₀ := step_size (s.start.run before) r₀
  simp only [← run₀, label₁] at size₀
  obtain ⟨b₀, rfl, label₀, x20₀⟩ := size₀
  refine ⟨before, after, ?_, label₀⟩
  rw [x20₂, x20₁, x20₀, or_bytes, wordBytes_append]
  simp

/-- A run all of whose size headers fit. -/
theorem sound_run (fits : ∀ size, Reads s results size → Fits size) :
    Sound s.mem (s.start.run results) := by
  induction results using List.reverseRecOn with
  | nil => exact sound_start fun a _ => rfl
  | append_singleton results result ih =>
    have sound := ih (by
      rintro size ⟨before, after, rfl, waiting⟩
      exact fits size ⟨before, after ++ [result], by simp, waiting⟩)
    rw [Boot.run_concat]
    cases result with
    | none => exact sound_timeout sound
    | some b =>
      apply sound_byte sound
      intro last
      exact fits _ (reads_size3 last b [])

end Headers

section Ends

def inHeader : Label → Bool
  | .size0 | .size1 | .size2 | .size3 => true
  | _ => false

def place : Label → ℕ
  | .data1 => 1
  | .data2 => 2
  | .data3 => 3
  | _ => 0

variable {s t : Boot} {results : List (Option Byte)} {size : Word} {data : List Byte} {b : Byte}

private theorem step_place (past : inHeader t.label = false) :
    inHeader (t.step (some b)).label = false ∧
      ((t.step (some b)).label.inLoop = true → t.label.inLoop = true ∧
        (t.step (some b)).x20 = t.x20 ∧ (t.label = .data3 ∧ place (t.step (some b)).label = 0 ∧
          (t.step (some b)).x21 = t.x21 + 4 ∨
        place (t.step (some b)).label = place t.label + 1 ∧ (t.step (some b)).x21 = t.x21)) := by
  cases label : t.label <;> simp only [inHeader, label, Bool.true_eq_false] at past
  case data0 | data1 | data2 =>
    simp [Boot.step, Boot.resume, Label.receives, label, Label.inLoop, inHeader, place]
  case data3 =>
    obtain ⟨x20, x21, -, -, head⟩ := step_data3 b label
    rw [x20, x21, head]
    split_ifs <;> simp [inHeader, Label.inLoop, place]
  case checksum =>
    simp only [Boot.step, Boot.resume, Boot.recvDone, Label.receives, label, if_true]
    split_ifs <;> exact ⟨rfl, fun inside => absurd inside (by simp [Boot.bootError, Label.inLoop])⟩
  case program | errorLoop =>
    simp [Boot.step, Label.receives, label, inHeader, Label.inLoop]

private theorem sent_concat (before : List (Option Byte)) (size : Word) (data : List Byte)
    (b : Byte) :
    sent before size (data ++ [b]) = sent before size data ++ [some b] := by
  simp [sent]

private theorem sent_run (fits : ∀ z, Reads s (sent results size data) z → Fits z)
    (waiting : (s.start.run results).label = .size0) :
    inHeader (s.start.run (sent results size data)).label = false ∧
      ((s.start.run (sent results size data)).label.inLoop = true →
        (s.start.run (sent results size data)).x20 = size ∧
        (s.start.run (sent results size data)).x21.toNat +
          place (s.start.run (sent results size data)).label = 0x1000 + data.length) := by
  induction data using List.reverseRecOn with
  | nil =>
    have sound := sound_run fits
    have head := header_run waiting size
    rw [← Boot.run_append] at head
    simp only [sent, List.append_nil] at sound ⊢
    obtain ⟨label, x21, x22, -, -, -⟩ := head
    constructor
    · rw [label]
      split_ifs <;> rfl
    · intro inside
      have sum := (sound.counts inside).sum
      rw [x21, x22] at sum
      constructor
      · apply BitVec.eq_of_toNat_eq
        simpa using sum.symm
      · rw [x21, label]
        split_ifs <;> rfl
  | append_singleton data b ih =>
    have shorter : ∀ z, Reads s (sent results size data) z → Fits z := by
      rintro z ⟨before, after, split, start⟩
      exact fits z ⟨before, after ++ [some b], by rw [sent_concat, split]; simp, start⟩
    obtain ⟨past, count⟩ := ih shorter
    rw [sent_concat, Boot.run_concat]
    obtain ⟨next, step⟩ := step_place (b := b) past
    refine ⟨next, ?_⟩
    intro inside
    obtain ⟨before, x20, moved⟩ := step inside
    obtain ⟨same, reached⟩ := count before
    refine ⟨x20.trans same, ?_⟩
    rw [List.length_append, List.length_singleton]
    rcases moved with ⟨last, first, x21⟩ | ⟨more, x21⟩
    · obtain ⟨k, -, small, dest⟩ := dest_of_counts ((sound_run shorter).counts before)
      have up : ((s.start.run (sent results size data)).x21 + 4).toNat =
          (s.start.run (sent results size data)).x21.toNat + 4 := by
        rw [dest, BitVec.toNat_add, BitVec.toNat_ofNat]
        change (4 * k % 2 ^ 32 + 4) % 2 ^ 32 = 4 * k % 2 ^ 32 + 4
        omega
      rw [last] at reached
      rw [first, x21, up]
      simp only [place] at reached
      omega
    · rw [more, x21]
      omega

private theorem contained_of_fits (fits : ∀ z, Reads s results z → Fits z) :
    Contained s results := by
  constructor
  · rintro before b after rfl last
    have inside : (s.start.run before).label.inLoop = true := by rw [last]; rfl
    have sound : Sound s.mem (s.start.run before) := sound_run (by
      rintro z ⟨first, rest, rfl, start⟩
      exact fits z ⟨first, rest ++ some b :: after, by simp, start⟩)
    exact inProgram_of_counts (sound.counts inside)
  · exact (sound_run fits).bootloader
  · rintro before size data rfl waiting enough
    rw [Bool.eq_false_iff]
    intro inside
    obtain ⟨-, count⟩ := sent_run fits waiting
    obtain ⟨x20, reached⟩ := count inside
    obtain ⟨-, sum, ⟨k, words⟩, more, -⟩ := (sound_run fits).counts inside
    have short : place (s.start.run (sent before size data)).label ≤ 3 := by
      cases (s.start.run (sent before size data)).label <;> simp [place]
    rw [x20] at sum
    rw [roundUp] at enough
    omega

end Ends

section Violations

variable {s : Boot} {size z : Word} {data : List Byte} {bytes : List Byte}

theorem step_some_ne (s : Boot) (b : Byte) : (s.step (some b)).label ≠ .size0 := by
  cases label : s.label <;>
    simp only [Boot.step, Boot.resume, Boot.recvLoop, Boot.recvDone, Boot.bootError,
      Label.receives, label, if_true, Bool.false_eq_true, if_false]
  case size3 | data3 | checksum => split_ifs <;> simp
  all_goals simp

private theorem reads_sent (reads : Reads s (sent [] size data) z) : z = size := by
  obtain ⟨before, after, split, waiting⟩ := reads
  rcases List.eq_nil_or_concat before with rfl | ⟨first, last, rfl⟩
  · have same := congrArg (List.take 4) split
    simp only [sent, List.nil_append, List.map_append] at same
    rw [List.take_left' (by simp), List.take_left' (by simp)] at same
    exact (wordBytes_inj ((List.map_inj_right fun _ _ => Option.some.inj).mp same)).symm
  · have mem : last ∈ sent [] size data := by
      rw [split, List.concat_eq_append]
      simp
    obtain ⟨b, -, rfl⟩ := List.mem_map.mp mem
    rw [List.concat_eq_append, Boot.run_concat] at waiting
    exact absurd waiting (step_some_ne _ b)

def zeros (n : ℕ) : List Byte := (List.replicate n 0).flatMap wordBytes

private theorem zeros_run {n : ℕ} (more : ∀ k < n, size - BitVec.ofNat 32 (4 * k) ≠ 0) :
    ∃ sum mem, AtLoop (0x1000 + BitVec.ofNat 32 (4 * n)) (size - BitVec.ofNat 32 (4 * n)) sum mem
      s.start.tx (s.start.run (sent [] size (zeros n))) := by
  have head := header_run (s := s.start) rfl size
  have enough : ∀ k < (List.replicate n (0 : Word)).length,
      size - BitVec.ofNat 32 (4 * k) ≠ 0 := by simpa using more
  have all := words_run head enough
  rw [List.length_replicate, ← Boot.run_append, ← List.map_append] at all
  exact ⟨_, _, all⟩

private theorem not_contained_of_ragged (ragged : ¬4 ∣ size.toNat) :
    ¬Contained s (sent [] size (zeros (roundUp size.toNat / 4))) := by
  intro contained
  have bound := size.isLt
  have never : ∀ k, size - BitVec.ofNat 32 (4 * k) ≠ 0 := by
    intro k
    apply more_of_ne
    omega
  obtain ⟨sum, mem, head⟩ := zeros_run (s := s) (n := roundUp size.toNat / 4) fun k _ => never k
  have inside := head.label
  rw [if_neg (never _)] at inside
  have out := contained.ends [] size _ rfl rfl (by
    rw [zeros, length_flatMap_wordBytes, List.length_replicate, roundUp]
    omega)
  rw [inside] at out
  exact absurd out (by decide)

private theorem three_run {t : Boot} (first : t.label = .data0) :
    (t.run [some 0, some 0, some 0]).label = .data3 ∧
      (t.run [some 0, some 0, some 0]).x21 = t.x21 := by
  simp [Boot.run, Boot.step, Boot.resume, Label.receives, first]

private theorem not_contained_of_large (large : 0x3000 < size.toNat) :
    ¬Contained s (sent [] size (zeros 0xC00 ++ [0, 0, 0, 0])) := by
  intro contained
  have bound := size.isLt
  have more : ∀ k < 0xC01, size - BitVec.ofNat 32 (4 * k) ≠ 0 := by
    intro k small
    apply more_of_ne
    omega
  obtain ⟨sum, mem, head⟩ := zeros_run (s := s) (n := 0xC00) fun k small => more k (by omega)
  have inside := head.label
  rw [if_neg (more 0xC00 (by decide))] at inside
  obtain ⟨last, dest⟩ := three_run inside
  rw [← Boot.run_append] at last dest
  have split : sent [] size (zeros 0xC00 ++ [0, 0, 0, 0]) =
      (sent [] size (zeros 0xC00) ++ [some 0, some 0, some 0]) ++ some 0 :: [] := by
    simp [sent]
  have lands := contained.lands _ _ _ split last
  rw [dest, head.x21] at lands
  exact absurd lands.2 (by decide)

/-- The bootloader stays in place on every run whose size headers are among these, if and only if
each of them is a whole number of words that the program region holds. -/
theorem contained_iff_fits (s : Boot) (headers : Set Word) :
    (∀ results, (∀ size, Reads s results size → size ∈ headers) → Contained s results) ↔
      ∀ size ∈ headers, Fits size := by
  constructor
  · intro contained size mem
    have only : ∀ data z, Reads s (sent [] size data) z → z ∈ headers := by
      intro data z reads
      rw [reads_sent reads]
      exact mem
    constructor
    · by_contra ragged
      exact not_contained_of_ragged ragged (contained _ (only _))
    · by_contra large
      exact not_contained_of_large (Nat.lt_of_not_le large) (contained _ (only _))
  · intro fits results reads
    exact contained_of_fits fun size read => fits size (reads size read)

/-- A file of one word more than the program region. -/
theorem not_contained_of_0x3004 :
    ¬Contained ⟨.program, 0, 0, 0, 0, 0, 0, fun _ => 0x13, []⟩
      (sent [] 0x3004 (zeros 0xC00 ++ [0, 0, 0, 0])) :=
  not_contained_of_large (by decide)

end Violations

end RiscvSoc.Firmware.Containment
