/- GID: RiscvSoc/Host/Upload
   generality: G
   utility: main
   digest: uart_loader.py and the bootloader on the two ends of one link. -/

import RiscvSoc.Host.CallReplies
import RiscvSoc.Host.UartLoader
import RiscvSoc.Firmware.Containment

set_option autoImplicit false
set_option relaxedAutoImplicit false

namespace RiscvSoc.Host.Upload

open RiscvSoc.Cpu.Decoder
open RiscvSoc.Memory.ByteLanes
open RiscvSoc.Memory.DpRam
open RiscvSoc.Host.RegDebugger
open RiscvSoc.Host.CallReplies
open RiscvSoc.Host.UartLoader
open RiscvSoc.Firmware.Bootloader
open RiscvSoc.Firmware.Transfer
open RiscvSoc.Firmware.Containment

section Loader

private theorem runOn_ok {α β : Type} {m : HostM α} {a : α} {s t : Serial} (f : α → HostM β)
    (ok : runOn m s = (.ok a, t)) : runOn (m >>= f) s = runOn (f a) t := by
  rw [runOn_bind, ok]

private theorem writes_sendChunks (data : List Byte) (sent : ℕ) :
    Writes (sendChunks data sent) (data.drop sent) := by
  induction sent using sendChunks.induct data with
  | case1 sent inside chunk ih =>
    intro s
    have chunks : chunk ++ data.drop (sent + chunk.length) = data.drop sent := by
      have len : chunk.length = min chunkSize (data.length - sent) := by simp [chunk]
      rcases Nat.le_total chunkSize (data.length - sent) with full | last
      · rw [len, Nat.min_eq_left full, ← List.drop_drop]
        exact List.take_append_drop chunkSize (data.drop sent)
      · rw [len, Nat.min_eq_right last, List.drop_of_length_le (by omega), List.append_nil]
        exact List.take_of_length_le (by simpa using last)
    unfold sendChunks
    rw [if_pos inside]
    refine (runOn_ok _ (writes_write chunk s)).trans ((ih _).trans ?_)
    rw [List.append_assoc, chunks]
  | case2 sent outside =>
    intro s
    unfold sendChunks
    rw [if_neg outside, List.drop_of_length_le (by omega), List.append_nil]
    rfl

private theorem word32_natCast {n : ℕ} (small : n < 2 ^ 32) :
    word32 n = some (BitVec.ofNat 32 n) := by
  rw [word32, if_pos (by omega), BitVec.ofInt_natCast]

private theorem runOn_waitReady {before : List Byte} (rest : List Byte)
    (notReady : readyByte ∉ before) :
    runOn waitReady ⟨[], before ++ readyByte :: rest⟩ = (.ok true, ⟨[], rest⟩) := by
  have drop : (before ++ readyByte :: rest).dropWhile (· != readyByte) = readyByte :: rest := by
    rw [List.dropWhile_append_of_pos]
    · simp
    · intro b mem
      simp only [bne_iff_ne, ne_eq]
      rintro rfl
      exact notReady mem
  change (Except.ok (!((before ++ readyByte :: rest).dropWhile (· != readyByte)).isEmpty),
    Serial.mk [] (((before ++ readyByte :: rest).dropWhile (· != readyByte)).drop 1)) = _
  rw [drop]
  rfl

/-- The host, once the ready byte has come in. -/
theorem main_run {file before : List Byte} (rest : List Byte)
    (small : (padToWord file).length < 2 ^ 32) (notReady : readyByte ∉ before) :
    runOn (main file) ⟨[], before ++ readyByte :: rest⟩ =
      (.ok (verdict (rest.take 1)), ⟨upload file, rest.drop 1⟩) := by
  refine (runOn_ok _ (runOn_waitReady rest notReady)).trans ?_
  refine (runOn_ok _ (returns_packI (word32_natCast small) _)).trans ?_
  refine (runOn_ok _ (writes_write _ _)).trans ?_
  refine (runOn_ok _ (writes_sendChunks _ _ _)).trans ?_
  refine (runOn_ok _ (writes_write _ _)).trans ?_
  simp only [List.nil_append, List.drop_zero, upload]
  rfl

end Loader

section Checksum

private theorem xorBytes_start (sum : Byte) (bytes : List Byte) :
    xorBytes sum bytes = sum ^^^ xorBytes 0 bytes := by
  induction bytes generalizing sum with
  | nil => simp [xorBytes]
  | cons b bytes ih =>
    have whole : xorBytes (sum ^^^ b) bytes = sum ^^^ b ^^^ xorBytes 0 bytes := ih _
    have tail : xorBytes 0 (b :: bytes) = b ^^^ xorBytes 0 bytes := by
      simpa [xorBytes] using ih b
    rw [tail, ← BitVec.xor_assoc]
    exact whole

private theorem xorBytes_cons (b : Byte) (bytes : List Byte) :
    xorBytes 0 (b :: bytes) = b ^^^ xorBytes 0 bytes := by
  simpa [xorBytes] using xorBytes_start b bytes

private theorem xorBytes_set {bytes : List Byte} {k : ℕ} (inside : k < bytes.length) {b : Byte}
    (other : b ≠ bytes[k]) : xorBytes 0 bytes ≠ xorBytes 0 (bytes.set k b) := by
  induction bytes generalizing k with
  | nil => simp at inside
  | cons c bytes ih =>
    intro same
    cases k with
    | zero =>
      rw [List.set_cons_zero, xorBytes_cons, xorBytes_cons, BitVec.xor_left_inj] at same
      exact other same.symm
    | succ k =>
      rw [List.set_cons_succ, xorBytes_cons, xorBytes_cons, BitVec.xor_right_inj] at same
      exact ih (by simpa using inside) (by simpa using other) same

end Checksum

section Memory

/-- The bytes lie from 0x1000 on, and elsewhere the memory is as it was. -/
def Loaded (before after : BramAddr → Word) (bytes : List Byte) : Prop :=
  ∀ (a : BramAddr) (k : ℕ), k < 4 → lane (after a) k =
    if 0x1000 ≤ 4 * a.toNat + k ∧ 4 * a.toNat + k < 0x1000 + bytes.length then
      bytes.getD (4 * a.toNat + k - 0x1000) 0
    else lane (before a) k

theorem loaded_storeWords {ws : List Word} (fits : ws.length ≤ 0xC00) (mem : BramAddr → Word) :
    Loaded mem (storeWords mem 0x1000 ws) (ws.flatMap wordBytes) := by
  intro a k small
  have inRegion : 0x400 + ws.length ≤ 0x1000 := by omega
  have stored := storeWords_bram inRegion mem a
  change storeWords mem 0x1000 ws a = _ at stored
  rw [stored, length_flatMap_wordBytes]
  by_cases inside : 0x400 ≤ a.toNat ∧ a.toNat < 0x400 + ws.length
  · have place : 4 * a.toNat + k - 0x1000 = 4 * (a.toNat - 0x400) + k := by omega
    rw [if_pos inside, if_pos (by omega), place,
      getD_flatMap_wordBytes (by omega) small]
  · rw [if_neg inside, if_neg (by omega)]

end Memory

section Agreement

/-- Transfers that are broken off, each ended by the timeout of the byte after it. -/
def abandoned (transfers : List (List Byte)) : List (Option Byte) :=
  transfers.flatMap fun bytes => bytes.map some ++ [none]

/-- The bootloader, started at `s`, on these polls of STATUS. -/
def bootloader (s : Boot) (polls : List (Option Byte)) : Boot :=
  s.start.run (rxCalls rxTimeout polls)

variable {s : Boot} {transfers : List (List Byte)}

/-- After broken-off transfers the bootloader waits for a size header again. -/
theorem waiting_abandoned
    (unfinished : (s.start.run (abandoned transfers)).label.receives = true) :
    (s.start.run (abandoned transfers)).label = .size0 ∧
      ∃ before, (s.start.run (abandoned transfers)).tx = before ++ [readyByte] := by
  rcases List.eq_nil_or_concat transfers with rfl | ⟨first, last, rfl⟩
  · exact ⟨rfl, s.tx, rfl⟩
  · have split : abandoned (first.concat last) = (abandoned first ++ last.map some) ++ [none] := by
      simp [abandoned]
    rw [split, Boot.run_concat] at unfinished ⊢
    by_cases receives : (s.start.run (abandoned first ++ last.map some)).label.receives = true
    · rw [Boot.step_none receives]
      exact ⟨rfl, _, rfl⟩
    · exact absurd unfinished (by simp [Boot.step, receives])

private theorem bootloader_transfer
    (unfinished : (s.start.run (abandoned transfers)).label.receives = true) {size : Word}
    (fits : Fits size) {data : List Byte} (len : data.length = size.toNat) (c : Byte)
    {polls : List (Option Byte)}
    (channel : rxCalls rxTimeout polls =
      abandoned transfers ++ (wordBytes size ++ data ++ [c]).map some) :
    Loaded (s.start.run (abandoned transfers)).mem (bootloader s polls).mem data ∧
      if c = xorBytes 0 data then
        (bootloader s polls).label = .program ∧
          (bootloader s polls).tx = (s.start.run (abandoned transfers)).tx ++ [okByte]
      else
        (bootloader s polls).label = .errorLoop ∧
          (bootloader s polls).tx = (s.start.run (abandoned transfers)).tx ++ [errorByte] := by
  obtain ⟨words, small⟩ := fits
  rw [← len] at words small
  obtain ⟨ws, rfl, count⟩ := exists_words words
  obtain ⟨waiting, -⟩ := waiting_abandoned unfinished
  have total : size.toNat = 4 * ws.length := by omega
  obtain ⟨mem, answer⟩ := transfer_run waiting total c
  rw [bootloader, channel, Boot.run_append, mem]
  exact ⟨loaded_storeWords (by omega) _, answer⟩

end Agreement

end RiscvSoc.Host.Upload
