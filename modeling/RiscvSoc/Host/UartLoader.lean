/- GID: RiscvSoc/Host/UartLoader
   generality: G
   utility: model
   digest: The host's end of the bootloader's link: what uart_loader.py reads and writes. -/

import RiscvSoc.Host.RegDebugger

set_option autoImplicit false
set_option relaxedAutoImplicit false

namespace RiscvSoc.Host.UartLoader

open RiscvSoc.Memory.ByteLanes
open RiscvSoc.Host.RegDebugger

def readyByte : Byte := 0xAA
def okByte : Byte := 0xBB
def errorByte : Byte := 0xEE

def padToWord (data : List Byte) : List Byte :=
  let remainder := data.length % 4
  if remainder ≠ 0 then data ++ List.replicate (4 - remainder) 0x00 else data

/-- `result ^= b` over all bytes. -/
def checksum (data : List Byte) : Byte := data.foldl (fun result b => result ^^^ b) 0

/-- How `main` ends after the port is open. -/
inductive Outcome where
  | loaded
  | noReady
  | noResponse
  | mismatch
  | unexpected (response : Byte)
  deriving DecidableEq

/-- Reads bytes until the ready byte comes or no more come in time. -/
def waitReady : HostM Bool := do
  let s ← get
  let rest := s.incoming.dropWhile (· != readyByte)
  set { s with incoming := rest.drop 1 }
  return !rest.isEmpty

def chunkSize : ℕ := 256

/-- The loop over the chunks, with `sent` bytes gone. -/
def sendChunks (data : List Byte) (sent : ℕ) : HostM Unit :=
  if sent < data.length then do
    let chunk := (data.drop sent).take chunkSize
    write chunk
    sendChunks data (sent + chunk.length)
  else return ()
termination_by data.length - sent
decreasing_by
  simp only [List.length_take, List.length_drop, chunkSize]
  omega

def verdict (response : List Byte) : Outcome :=
  match response with
  | [] => .noResponse
  | b :: _ =>
    if b = okByte then .loaded else if b = errorByte then .mismatch else .unexpected b

def main (file : List Byte) : HostM Outcome := do
  let data := padToWord file
  let size := data.length
  let chk := checksum data
  if ← waitReady then
    let header ← packI size
    write header
    sendChunks data 0
    write [chk]
    let response ← read 1
    return verdict response
  else return .noReady

def upload (file : List Byte) : List Byte :=
  wordBytes (BitVec.ofNat 32 (padToWord file).length) ++ padToWord file ++
    [checksum (padToWord file)]

theorem padToWord_words (file : List Byte) : 4 ∣ (padToWord file).length := by
  simp only [padToWord]
  split
  · rw [List.length_append, List.length_replicate]
    omega
  · omega

theorem length_padToWord_le {file : List Byte} {n : ℕ} (words : 4 ∣ n) (le : file.length ≤ n) :
    (padToWord file).length ≤ n := by
  simp only [padToWord]
  split
  · rw [List.length_append, List.length_replicate]
    omega
  · exact le

end RiscvSoc.Host.UartLoader
