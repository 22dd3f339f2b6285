/- GID: RiscvSoc/Host/UploadRun
   generality: G
   utility: main
   digest: A file that uart_loader.py writes is loaded and entered by the machine code. -/

import RiscvSoc.Firmware.BootRefinement
import RiscvSoc.Host.Upload

set_option autoImplicit false
set_option relaxedAutoImplicit false

namespace RiscvSoc.Host.UploadRun

open RiscvSoc.Cpu.Datapath (CsrFile)
open RiscvSoc.Cpu.Decoder (Word)
open RiscvSoc.Cpu.IsaStep (csrSpace)
open RiscvSoc.Isa.Rv32Hart
open RiscvSoc.Isa.Rv32Program
open RiscvSoc.Memory.ByteLanes
open RiscvSoc.Memory.DpRam
open RiscvSoc.Host.RegDebugger
open RiscvSoc.Host.CallReplies
open RiscvSoc.Host.UartLoader
open RiscvSoc.Host.Upload
open RiscvSoc.Firmware.Bootloader
open RiscvSoc.Firmware.Transfer
open RiscvSoc.Firmware.Containment (bootWords Fits Reads step_some_ne sound_run)
open RiscvSoc.Firmware.BootCode
open RiscvSoc.Firmware.BootRefinement

section Headers

variable {s : Boot} {results : List (Option Byte)}

private theorem last_none (waiting : (s.start.run results).label = .size0)
    {first : List (Option Byte)}
    {bytes : List Byte} (split : results = first ++ bytes.map some) : bytes = [] := by
  rcases List.eq_nil_or_concat bytes with rfl | ⟨most, b, rfl⟩
  · rfl
  · rw [split, List.concat_eq_append, List.map_append, ← List.append_assoc] at waiting
    change (s.start.run ((first ++ most.map some) ++ [some b])).label = .size0 at waiting
    rw [Boot.run_concat] at waiting
    exact absurd waiting (step_some_ne _ b)

private theorem reads_of_waiting (waiting : (s.start.run results).label = .size0)
    {bytes : List Byte}
    {z : Word} (reads : Reads s (results ++ bytes.map some) z) :
    Reads s results z ∨ ∃ rest, bytes = wordBytes z ++ rest := by
  obtain ⟨first, after, split, start⟩ := reads
  rcases List.append_eq_append_iff.mp split with ⟨more, rfl, tail⟩ | ⟨mid, rfl, tail⟩
  · obtain ⟨between, rest, rfl, rfl, others⟩ := List.map_eq_append_iff.mp tail
    obtain rfl := last_none start rfl
    obtain ⟨header, data, rfl, same, -⟩ := List.map_eq_append_iff.mp others
    rw [(List.map_inj_right fun _ _ => Option.some.inj).mp same]
    exact .inr ⟨data, rfl⟩
  · rcases List.append_eq_append_iff.mp tail with ⟨behind, rfl, -⟩ | ⟨cut, header, data⟩
    · exact .inl ⟨first, behind, rfl, start⟩
    · obtain ⟨part, rest, whole, rfl, rfl⟩ := List.map_eq_append_iff.mp header
      obtain rfl := last_none waiting rfl
      rw [List.nil_append] at whole
      obtain ⟨front, back, rfl, same, -⟩ := List.map_eq_append_iff.mp data
      rw [(List.map_inj_right fun _ _ => Option.some.inj).mp same, ← whole]
      exact .inr ⟨back, rfl⟩

end Headers

section Upload

/-- The bytes of a file that `main` writes, after abandoned transfers: the machine code gets from
reset to address 0x1000 with the file there and its own words in place, and what it has sent makes
`main` report success. -/
theorem machine_code_enters_upload {σ : Type} (csrs : CsrSpace σ) (c : σ) (uart : ℕ → Answer)
    (wait : ℕ → ℕ) (frees : Frees uart wait) (code : BramAddr → Word)
    (installed : Installed code) (r : Regs) (j : ℕ) (transfers : List (List Byte))
    (unfinished : ((bootOf code r).start.run (abandoned transfers)).label.receives = true)
    (fits : ∀ size, Reads (bootOf code r) (abandoned transfers) size → Fits size)
    (file : List Byte) (short : file.length ≤ 0x3000)
    (channel : (session uart wait (bootOf code r) j).results = abandoned transfers ++
      (runOn (main file) ⟨[], [readyByte, okByte]⟩).2.written.map some) :
    (runOn (main file) ⟨[], [readyByte, okByte]⟩).1 = .ok .loaded ∧
      ∃ (r' : Regs) (mem : BramAddr → Word) (n : ℕ) (tx : List Byte),
        Reaches csrs (bootBus uart) (place 0 0 r c ⟨code, 0, []⟩)
          (place 0 0x400 r' c ⟨mem, n, tx ++ [readyByte, okByte]⟩) ∧
        Loaded ((bootOf code r).start.run (abandoned transfers)).mem mem (padToWord file) ∧
        ∀ a : BramAddr, a.toNat < bootWords → mem a = code a := by
  have le := length_padToWord_le (n := 0x3000) (by decide) short
  have length : (BitVec.ofNat 32 (padToWord file).length).toNat = (padToWord file).length := by
    rw [BitVec.toNat_ofNat]
    omega
  have host := @main_run file [] [okByte] (by omega) (by decide)
  rw [List.nil_append] at host
  rw [host] at channel ⊢
  refine ⟨rfl, ?_⟩
  obtain ⟨waiting, sent, ready⟩ := waiting_abandoned unfinished
  have header : Fits (BitVec.ofNat 32 (padToWord file).length) := by
    rw [Fits, length]
    exact ⟨padToWord_words file, le⟩
  have all : ∀ size, Reads (bootOf code r) (session uart wait (bootOf code r) j).results size →
      Fits size := by
    intro size reads
    rw [channel] at reads
    rcases reads_of_waiting waiting reads with before | ⟨rest, split⟩
    · exact fits size before
    · have same : wordBytes (BitVec.ofNat 32 (padToWord file).length) = wordBytes size := by
        have front := congrArg (List.take 4) split
        simp only [upload, List.append_assoc] at front
        rwa [List.take_left' (wordBytes_length _), List.take_left' (wordBytes_length _)] at front
      rwa [← wordBytes_inj same]
  obtain ⟨m, reached, regs, -, -, here⟩ :=
    machine_code_refines_model csrs c uart wait frees code installed r j all
  have kept := (sound_run all).bootloader
  obtain ⟨ws, words, count⟩ := exists_words (padToWord_words file)
  have total : (BitVec.ofNat 32 (padToWord file).length).toNat = 4 * ws.length := by omega
  obtain ⟨mem, answer⟩ := transfer_run waiting total (checksum (padToWord file))
  have run : (bootOf code r).start.run (session uart wait (bootOf code r) j).results =
      ((bootOf code r).start.run (abandoned transfers)).run
        ((wordBytes (BitVec.ofNat 32 (padToWord file).length) ++ ws.flatMap wordBytes ++
          [checksum (padToWord file)]).map some) := by
    rw [channel, Boot.run_append, ← words]
    rfl
  have own : checksum (padToWord file) = xorBytes 0 (ws.flatMap wordBytes) := by
    rw [← words]
    rfl
  rw [if_pos own, ← run, ready] at answer
  rw [← run] at mem
  obtain ⟨label, tx⟩ := answer
  rw [label, if_neg (by decide), tx, List.append_assoc] at here
  rw [here] at reached
  refine ⟨regs, _, _, sent, reached, ?_, kept⟩
  rw [mem, words]
  exact loaded_storeWords (by omega) _

/-- A UART that has the next of these bytes at each second load after the first two. -/
def feeding (bytes : List Byte) : ℕ → Answer := fun n => ⟨false, true, bytes.getD ((n - 2) / 2) 0⟩

/-- A file of three bytes. -/
theorem machine_code_enters_upload_three :
    ∃ (r' : Regs) (mem : BramAddr → Word) (n : ℕ) (tx : List Byte),
      Reaches csrSpace (bootBus (feeding (upload [0x13, 0x05, 0x10])))
        (place 0 0 ⟨fun _ => 0, rfl⟩ (⟨0, 0, 0, 0, 0, 0, 0, 0⟩ : CsrFile) ⟨bootImage, 0, []⟩)
        (place 0 0x400 r' ⟨0, 0, 0, 0, 0, 0, 0, 0⟩ ⟨mem, n, tx ++ [readyByte, okByte]⟩) ∧
      Loaded bootImage mem [0x13, 0x05, 0x10, 0x00] := by
  have written := @main_run [0x13, 0x05, 0x10] [] [okByte] (by decide) (by decide)
  obtain ⟨-, r', mem, n, tx, reached, file, -⟩ :=
    machine_code_enters_upload csrSpace ⟨0, 0, 0, 0, 0, 0, 0, 0⟩
      (feeding (upload [0x13, 0x05, 0x10])) (fun _ => 0)
      ⟨fun n j less => absurd less (Nat.not_lt_zero j), fun n => rfl⟩ bootImage
      installed_bootImage ⟨fun _ => 0, rfl⟩ 9 [] rfl
      (by
        rintro size ⟨before, after, split, -⟩
        have none := congrArg List.length split
        simp only [abandoned, List.flatMap_nil, List.length_nil, List.length_append,
          List.length_map, wordBytes_length] at none
        omega)
      [0x13, 0x05, 0x10] (by decide) (by
        rw [List.nil_append] at written
        rw [written]
        decide +kernel)
  exact ⟨r', mem, n, tx, reached, file⟩

end Upload

end RiscvSoc.Host.UploadRun
