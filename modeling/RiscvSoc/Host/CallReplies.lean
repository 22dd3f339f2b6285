/- GID: RiscvSoc/Host/CallReplies
   generality: G
   utility: support
   digest: The commands a call of RegDebugger sends and what it makes of their replies. -/

import RiscvSoc.Host.RegDebugger
import RiscvSoc.Peripherals.DebugRequest

set_option autoImplicit false
set_option relaxedAutoImplicit false

namespace RiscvSoc.Host.CallReplies

open RiscvSoc.Cpu.Decoder
open RiscvSoc.Memory.ByteLanes
open RiscvSoc.Peripherals.DebugRequest
open RiscvSoc.Host.RegDebugger

/-- The commands a call is after, in order; `none` where an argument is refused. -/
def attempts : Call → List (Option Request)
  | .halt => [some .halt]
  | .readReg idx => [if 0 ≤ idx ∧ idx ≤ 31 then some (.readReg (BitVec.ofInt 5 idx)) else none]
  | .readPc => [some .readPc]
  | .readAll => [some .readAll]
  | .writeMem addr data => [writeAttempt addr data]
  | .readMem addr => [(word32 addr).map .readMem]
  | .readMemRange addr n =>
    (List.range n.toNat).map fun i : ℕ => (word32 (addr + 4 * i)).map .readMem
  | .readCsr addr => [(word16 addr).map .readCsr]
  | .readMmio addr => [(word32 addr).map .readMmio]
  | .loadProgram words baseAddr =>
    some .halt :: words.zipIdx.map fun p => writeAttempt (baseAddr + 4 * p.2) p.1
where
  writeAttempt (addr data : ℤ) : Option Request :=
    (word32 addr).bind fun a => (word32 data).map (.writeMem a)

def issued {α : Type} : List (Option α) → List α
  | some q :: rest => q :: issued rest
  | _ => []

/-- The commands a call sends. -/
def requests (c : Call) : List Request := issued (attempts c)

def refusal : Call → HostError
  | .readReg _ => .valueError "register index must be 0-31"
  | _ => .structError

def value (ws : List Word) : Call → Value
  | .halt | .writeMem _ _ | .loadProgram _ _ => .none
  | .readReg _ | .readPc | .readMem _ | .readCsr _ | .readMmio _ => .word (ws.getD 0 0)
  | .readMemRange _ _ => .words ws
  | .readAll => .dump (ws.take 32) (ws.getD 32 0)

/-- The outcome of a call: an exception when an argument is refused. -/
def outcome (c : Call) (ws : List Word) : Except HostError Value :=
  if (attempts c).all Option.isSome then .ok (value ws c) else .error (refusal c)

theorem issued_some {α : Type} (l : List α) : issued (l.map some) = l := by
  induction l with
  | nil => rfl
  | cons a l ih => exact congrArg (a :: ·) ih

private theorem words_issued {k : ℕ} {l : List (Option Request)}
    (each : ∀ q, some q ∈ l → q.words = k) :
    ((issued l).map Request.words).sum = (issued l).length * k := by
  induction l with
  | nil => simp [issued]
  | cons a l ih =>
    cases a with
    | none => simp [issued]
    | some q =>
      have rest := ih fun q inside => each q (List.mem_cons_of_mem _ inside)
      simp only [issued, List.map_cons, List.sum_cons, List.length_cons, rest,
        each q List.mem_cons_self, Nat.add_mul, Nat.one_mul, Nat.add_comm]

section Programs

variable {α β ι : Type}

/-- Running a method on a port. -/
def runOn (m : HostM α) (s : Serial) : Except HostError α × Serial := m.run s

theorem runOn_bind (m : HostM α) (f : α → HostM β) (s : Serial) :
    runOn (m >>= f) s = match runOn m s with
      | (.ok a, t) => runOn (f a) t
      | (.error e, t) => (.error e, t) := by
  change (ExceptT.bindCont f (m.run s).1) (m.run s).2 = _
  unfold runOn
  rcases m.run s with ⟨_ | _, _⟩ <;> rfl

/-- A method that sends `bytes` and returns the next word that comes in. -/
def Reads (m : HostM Word) (bytes : List Byte) : Prop :=
  ∀ (w : List Byte) (v : Word) (rest : List Byte),
    runOn m ⟨w, wordBytes v ++ rest⟩ = (.ok v, ⟨w ++ bytes, rest⟩)

/-- A method that sends `bytes`. -/
def Writes (m : HostM Unit) (bytes : List Byte) : Prop :=
  ∀ s, runOn m s = (.ok (), { s with written := s.written ++ bytes })

def Refuses (m : HostM α) : Prop := ∀ s, runOn m s = (.error .structError, s)

def Returns (m : HostM α) (a : α) : Prop := ∀ s, runOn m s = (.ok a, s)

private theorem refuses_bind {m : HostM α} (f : α → HostM β) (refuses : Refuses m) :
    Refuses (m >>= f) :=
  fun s => by rw [runOn_bind, refuses s]

private theorem reads_readWord : Reads readWord [] := by
  intro w v rest
  have taken : (wordBytes v ++ rest).take 4 = wordBytes v := by
    rw [List.take_append_of_le_length (by simp), List.take_of_length_le (by simp)]
  have left : (wordBytes v ++ rest).drop 4 = rest := by
    rw [List.drop_append_of_le_length (by simp), List.drop_of_length_le (by simp)]; rfl
  have got : runOn (read 4) ⟨w, wordBytes v ++ rest⟩ = (.ok (wordBytes v), ⟨w, rest⟩) := by
    change
      (Except.ok ((wordBytes v ++ rest).take 4), Serial.mk w ((wordBytes v ++ rest).drop 4)) = _
    rw [taken, left]
  rw [readWord, runOn_bind, got]
  simp only [wordBytes_length, ne_eq, not_true_eq_false, if_false, List.append_nil]
  exact congrArg (fun v => (Except.ok v, Serial.mk w rest)) (unpackI_wordBytes v)

theorem writes_write (data : List Byte) : Writes (write data) data := fun _ => rfl

private theorem reads_after_write (data : List Byte) : Reads (do write data; readWord) data := by
  intro w v rest
  rw [runOn_bind, writes_write]
  exact (reads_readWord _ v rest).trans (by simp)

private theorem runOn_mapM {f : ι → HostM Word} {g : ι → Option β} (bytes : β → List Byte)
    (refused : ∀ i, g i = none → Refuses (f i))
    (reads : ∀ i q, g i = some q → Reads (f i) (bytes q)) (l : List ι) (ws : List Word)
    (len : ws.length = (issued (l.map g)).length) (w rest : List Byte) :
    runOn (l.mapM f) ⟨w, ws.flatMap wordBytes ++ rest⟩ =
      (if (l.map g).all Option.isSome then .ok ws else .error .structError,
        ⟨w ++ (issued (l.map g)).flatMap bytes, rest⟩) := by
  induction l generalizing ws w with
  | nil =>
    obtain rfl : ws = [] := List.length_eq_zero_iff.mp len
    simp [issued]
    rfl
  | cons i l ih =>
    rw [List.mapM_cons, runOn_bind]
    cases attempt : g i with
    | none =>
      obtain rfl : ws = [] := List.length_eq_zero_iff.mp (by simpa [attempt, issued] using len)
      rw [refused i attempt]
      simp [attempt, issued]
    | some q =>
      simp only [List.map_cons, attempt, issued, List.length_cons] at len ⊢
      obtain ⟨v, vs, rfl⟩ := List.exists_cons_of_length_eq_add_one len
      rw [List.flatMap_cons, List.append_assoc, reads i q attempt]
      simp only [runOn_bind, ih vs (by simpa using len)]
      by_cases all : (l.map g).all Option.isSome = true
      · simp [all]
        rfl
      · simp [all]

private theorem runOn_forM {f : ι → HostM Unit} {g : ι → Option β} (bytes : β → List Byte)
    (refused : ∀ i, g i = none → Refuses (f i))
    (writes : ∀ i q, g i = some q → Writes (f i) (bytes q)) (l : List ι) (s : Serial) :
    runOn (forM l f) s =
      (if (l.map g).all Option.isSome then .ok () else .error .structError,
        { s with written := s.written ++ (issued (l.map g)).flatMap bytes }) := by
  induction l generalizing s with
  | nil => simp [issued]; rfl
  | cons i l ih =>
    rw [List.forM_cons, runOn_bind]
    cases attempt : g i with
    | none => rw [refused i attempt]; simp [attempt, issued]
    | some q => rw [writes i q attempt]; simp [ih, attempt, issued]

end Programs

section Methods

theorem returns_packI {x : ℤ} {a : Word} (fits : word32 x = some a) :
    Returns (packI x) (wordBytes a) := fun s => by rw [packI, fits]; rfl

private theorem refuses_packI {x : ℤ} (refused : word32 x = none) : Refuses (packI x) :=
  fun s => by rw [packI, refused]; rfl

private theorem returns_packH {x : ℤ} {a : BitVec 16} (fits : word16 x = some a) :
    Returns (packH x) (halfBytes a) :=
  fun s => by rw [packH, fits]; rfl

private theorem refuses_packH {x : ℤ} (refused : word16 x = none) : Refuses (packH x) :=
  fun s => by rw [packH, refused]; rfl

private theorem reads_packed {p : HostM (List Byte)} {bytes : List Byte} (code : Byte)
    (returns : Returns p bytes) :
    Reads (do let a ← p; write (code :: a); readWord) (code :: bytes) := by
  intro w v rest
  rw [runOn_bind, returns]
  exact reads_after_write _ w v rest

private theorem writes_writeMem {addr data : ℤ} {q : Request}
    (fits : attempts.writeAttempt addr data = some q) : Writes (writeMem addr data) q.bytes := by
  obtain ⟨a, addr32, d, data32, rfl⟩ : ∃ a, word32 addr = some a ∧ ∃ d, word32 data = some d ∧
      .writeMem a d = q := by
    simpa [attempts.writeAttempt, Option.bind_eq_some_iff, Option.map_eq_some_iff] using fits
  intro s
  rw [writeMem, runOn_bind, returns_packI addr32]
  change runOn (packI data >>= _) s = _
  rw [runOn_bind, returns_packI data32]
  rfl

private theorem words_writeAttempt {addr data : ℤ} {q : Request}
    (fits : attempts.writeAttempt addr data = some q) : q.words = 0 := by
  obtain ⟨a, -, packed⟩ := Option.bind_eq_some_iff.mp fits
  obtain ⟨d, -, rfl⟩ := Option.map_eq_some_iff.mp packed
  rfl

private theorem refuses_writeMem {addr data : ℤ}
    (refused : attempts.writeAttempt addr data = none) :
    Refuses (writeMem addr data) := by
  cases addr32 : word32 addr with
  | none => exact refuses_bind _ (refuses_packI addr32)
  | some a =>
    have data32 : word32 data = none := by simpa [attempts.writeAttempt, addr32] using refused
    intro s
    rw [writeMem, runOn_bind, returns_packI addr32]
    exact refuses_bind _ (refuses_packI data32) s

private theorem runOn_word {m : HostM Word} {q : Option Request} {e : HostError}
    (refused : q = none → ∀ s, runOn m s = (.error e, s))
    (reads : ∀ r, q = some r → r.words = 1 ∧ Reads m r.bytes) (ws : List Word)
    (len : ws.length = ((issued [q]).map Request.words).sum) (w rest : List Byte) :
    runOn (do return Value.word (← m)) ⟨w, ws.flatMap wordBytes ++ rest⟩ =
      (if [q].all Option.isSome then .ok (.word (ws.getD 0 0)) else .error e,
        ⟨w ++ (issued [q]).flatMap Request.bytes, rest⟩) := by
  rw [runOn_bind]
  cases q with
  | none =>
    obtain rfl : ws = [] := List.length_eq_zero_iff.mp (by simpa [issued] using len)
    rw [refused rfl]
    simp [issued]
  | some r =>
    obtain ⟨one, reads⟩ := reads r rfl
    obtain ⟨v, rfl⟩ : ∃ v, ws = [v] := List.length_eq_one_iff.mp (by simpa [issued, one] using len)
    rw [List.flatMap_singleton, reads]
    simp [issued]
    rfl

private theorem runOn_packed {α : Type} {p : HostM (List Byte)} {x : Option α} (code : Byte)
    (encode : α → List Byte) (make : α → Request) (refused : x = none → Refuses p)
    (returns : ∀ a, x = some a → Returns p (encode a)) (single : ∀ a, (make a).words = 1)
    (bytes : ∀ a, (make a).bytes = code :: encode a) (ws : List Word)
    (len : ws.length = ((issued [x.map make]).map Request.words).sum) (w rest : List Byte) :
    runOn (do return Value.word (← (do let a ← p; write (code :: a); readWord)))
        ⟨w, ws.flatMap wordBytes ++ rest⟩ =
      (if [x.map make].all Option.isSome then .ok (.word (ws.getD 0 0)) else .error .structError,
        ⟨w ++ (issued [x.map make]).flatMap Request.bytes, rest⟩) := by
  apply runOn_word _ _ ws len w rest
  · intro none
    exact refuses_bind _ (refused (Option.map_eq_none_iff.mp none))
  · intro r some
    obtain ⟨a, fits, rfl⟩ := Option.map_eq_some_iff.mp some
    rw [bytes]
    exact ⟨single a, reads_packed _ (returns a fits)⟩

private theorem setWidth_ofInt_reg {idx : ℤ} (ok : 0 ≤ idx ∧ idx ≤ 31) :
    (BitVec.ofInt 5 idx).setWidth 8 = BitVec.ofInt 8 idx := by
  obtain ⟨n, rfl⟩ := Int.eq_ofNat_of_zero_le ok.1
  apply BitVec.eq_of_toNat_eq
  simp
  omega

private theorem runOn_readReg {idx : ℤ} (ws : List Word)
    (len : ws.length = ((requests (.readReg idx)).map Request.words).sum) (w rest : List Byte) :
    runOn (Call.readReg idx).exec ⟨w, ws.flatMap wordBytes ++ rest⟩ =
      (outcome (.readReg idx) ws,
        ⟨w ++ (requests (.readReg idx)).flatMap Request.bytes, rest⟩) := by
  apply runOn_word _ _ ws len w rest
  · intro refused s
    rw [readReg, if_neg fun ok => by simp [ok] at refused]
    rfl
  · intro r fits
    have ok : 0 ≤ idx ∧ idx ≤ 31 := by
      by_contra bad
      simp [bad] at fits
    obtain rfl : .readReg (BitVec.ofInt 5 idx) = r := by simpa [ok] using fits
    rw [readReg, if_pos ok, Request.bytes, Request.args, setWidth_ofInt_reg ok]
    exact ⟨rfl, reads_after_write _⟩

private theorem runOn_readAll {regs : List Word} (regsLen : regs.length = 32) (pc : Word)
    (w rest : List Byte) :
    runOn readAll ⟨w, regs.flatMap wordBytes ++ (wordBytes pc ++ rest)⟩ =
      (.ok (regs, pc), ⟨w ++ [cmdReadAll], rest⟩) := by
  have all : ((List.range 32).map some).all Option.isSome = true := by decide
  have none : (List.range 32).flatMap (fun _ => ([] : List Byte)) = [] := by decide
  have reads := runOn_mapM (f := fun _ : ℕ => readWord) (g := some) (fun _ => [])
    (fun _ none => absurd none (Option.some_ne_none _)) (fun _ _ _ => reads_readWord)
    (List.range 32) regs (by rw [issued_some, regsLen, List.length_range])
    (w ++ [cmdReadAll]) (wordBytes pc ++ rest)
  rw [issued_some, if_pos all, none, List.append_nil] at reads
  rw [readAll, runOn_bind, writes_write]
  simp only [runOn_bind, reads, reads_readWord _ pc rest, List.append_nil]
  rfl

private theorem runOn_readMemRange {addr n : ℤ} (ws : List Word)
    (len : ws.length = ((requests (.readMemRange addr n)).map Request.words).sum)
    (w rest : List Byte) :
    runOn (readMemRange addr n) ⟨w, ws.flatMap wordBytes ++ rest⟩ =
      (if (attempts (.readMemRange addr n)).all Option.isSome then .ok ws else .error .structError,
        ⟨w ++ (requests (.readMemRange addr n)).flatMap Request.bytes, rest⟩) := by
  let g : ℕ → Option Request := fun i => (word32 (addr + 4 * i)).map .readMem
  have single : ((issued ((List.range n.toNat).map g)).map Request.words).sum =
      (issued ((List.range n.toNat).map g)).length * 1 := by
    apply words_issued
    intro q inside
    obtain ⟨i, -, some⟩ := List.mem_map.mp inside
    obtain ⟨a, -, rfl⟩ := Option.map_eq_some_iff.mp some
    rfl
  refine runOn_mapM (g := g) Request.bytes ?_ ?_ (List.range n.toNat) ws
    (len.trans (single.trans (Nat.mul_one _))) w rest
  · intro i none
    exact refuses_bind _ (refuses_packI (Option.map_eq_none_iff.mp none))
  · intro i q some
    obtain ⟨a, packed, rfl⟩ := Option.map_eq_some_iff.mp some
    exact reads_packed _ (returns_packI packed)

/-- HALT is sent in any case, then one WRITE_MEM a word up to the first that does not fit. -/
theorem runOn_loadProgram (words : List ℤ) (baseAddr : ℤ) (s : Serial) :
    runOn (loadProgram words baseAddr) s =
      (if (attempts (.loadProgram words baseAddr)).all Option.isSome then .ok ()
        else .error .structError,
        { s with
          written :=
            s.written ++ (requests (.loadProgram words baseAddr)).flatMap Request.bytes }) := by
  let g : ℤ × ℕ → Option Request := fun p => attempts.writeAttempt (baseAddr + 4 * p.2) p.1
  have writes := runOn_forM (f := fun p : ℤ × ℕ => writeMem (baseAddr + 4 * p.2) p.1) (g := g)
    Request.bytes (fun _ none => refuses_writeMem none) (fun _ _ some => writes_writeMem some)
    words.zipIdx { s with written := s.written ++ [cmdHalt] }
  rw [loadProgram, runOn_bind, halt, writes_write]
  refine writes.trans ?_
  rw [List.append_assoc]
  rfl

private theorem words_loadProgram (words : List ℤ) (baseAddr : ℤ) :
    ((requests (.loadProgram words baseAddr)).map Request.words).sum = 0 := by
  let g : ℤ × ℕ → Option Request := fun p => attempts.writeAttempt (baseAddr + 4 * p.2) p.1
  have silent : ((issued (words.zipIdx.map g)).map Request.words).sum =
      (issued (words.zipIdx.map g)).length * 0 := by
    apply words_issued
    intro q inside
    obtain ⟨p, -, fits⟩ := List.mem_map.mp inside
    exact words_writeAttempt fits
  exact (Nat.zero_add _).trans silent

private theorem runOn_exec (c : Call) (ws : List Word)
    (len : ws.length = ((requests c).map Request.words).sum) (w rest : List Byte) :
    runOn c.exec ⟨w, ws.flatMap wordBytes ++ rest⟩ =
      (outcome c ws, ⟨w ++ (requests c).flatMap Request.bytes, rest⟩) := by
  cases c with
  | readReg idx => exact runOn_readReg ws len w rest
  | readPc =>
    refine runOn_word (q := some .readPc) ?_ ?_ ws len w rest
    · intro none
      exact absurd none (Option.some_ne_none _)
    · intro r fits
      cases fits
      exact ⟨rfl, reads_after_write _⟩
  | readMem addr =>
    exact runOn_packed cmdReadMem wordBytes .readMem refuses_packI (fun _ => returns_packI)
      (fun _ => rfl) (fun _ => rfl) ws len w rest
  | readCsr addr =>
    exact runOn_packed cmdReadCsr halfBytes .readCsr refuses_packH (fun _ => returns_packH)
      (fun _ => rfl) (fun _ => rfl) ws len w rest
  | readMmio addr =>
    exact runOn_packed cmdReadMmio wordBytes .readMmio refuses_packI (fun _ => returns_packI)
      (fun _ => rfl) (fun _ => rfl) ws len w rest
  | readAll =>
    obtain ⟨regs, pc, rfl⟩ : ∃ regs pc, ws = regs ++ [pc] := by
      apply (List.eq_nil_or_concat' ws).resolve_left
      rintro rfl
      simp [requests, attempts, issued, Request.words] at len
    have regsLen : regs.length = 32 := by
      simpa [requests, attempts, issued, Request.words] using len
    have cut : (regs ++ [pc]).take 32 = regs ∧ (regs ++ [pc]).getD 32 0 = pc := by
      simp [← regsLen]
    rw [List.flatMap_append, List.flatMap_singleton, List.append_assoc]
    change runOn (readAll >>= _) _ = _
    rw [runOn_bind, runOn_readAll regsLen]
    simp only [outcome, value, cut]
    rfl
  | readMemRange addr n =>
    change runOn (readMemRange addr n >>= _) _ = _
    rw [runOn_bind, runOn_readMemRange ws len]
    by_cases all : (attempts (.readMemRange addr n)).all Option.isSome = true
    · rw [outcome, if_pos all, if_pos all]
      rfl
    · rw [outcome, if_neg all, if_neg all]
      rfl
  | halt =>
    obtain rfl : ws = [] := List.length_eq_zero_iff.mp len
    rfl
  | writeMem addr data =>
    change runOn (writeMem addr data >>= _) _ = _
    rw [runOn_bind]
    cases fits : attempts.writeAttempt addr data with
    | none =>
      obtain rfl : ws = [] := by simpa [requests, attempts, fits, issued] using len
      rw [refuses_writeMem fits]
      simp [outcome, requests, attempts, fits, issued, refusal]
    | some q =>
      obtain rfl : ws = [] := by
        simpa [requests, attempts, fits, issued, words_writeAttempt fits] using len
      rw [writes_writeMem fits]
      simp [outcome, requests, attempts, fits, issued, value]
      rfl
  | loadProgram words baseAddr =>
    obtain rfl : ws = [] := List.length_eq_zero_iff.mp (len.trans (words_loadProgram _ _))
    change runOn (loadProgram words baseAddr >>= _) ⟨w, rest⟩ = _
    rw [runOn_bind, runOn_loadProgram]
    by_cases all : (attempts (.loadProgram words baseAddr)).all Option.isSome = true
    · rw [outcome, if_pos all, if_pos all]
      rfl
    · rw [outcome, if_neg all, if_neg all]
      rfl

/-- A sequence of calls, each with the words that come back for it. -/
theorem execAll_eq (turns : List (Call × List Word))
    (len : ∀ t ∈ turns, t.2.length = ((requests t.1).map Request.words).sum)
    (w rest : List Byte) :
    (execAll (turns.map Prod.fst)).run
        ⟨w, turns.flatMap (fun t => t.2.flatMap wordBytes) ++ rest⟩ =
      (turns.map fun t => outcome t.1 t.2,
        ⟨w ++ turns.flatMap fun t => (requests t.1).flatMap Request.bytes, rest⟩) := by
  induction turns generalizing w with
  | nil => simp; rfl
  | cons t turns ih =>
    have one := runOn_exec t.1 t.2 (len t List.mem_cons_self) w
      (turns.flatMap (fun t => t.2.flatMap wordBytes) ++ rest)
    have others := ih (fun u inside => len u (List.mem_cons_of_mem _ inside))
      (w ++ (requests t.1).flatMap Request.bytes)
    have step : ∀ s, (execAll (t.1 :: turns.map Prod.fst)).run s =
        ((runOn t.1.exec s).1 :: ((execAll (turns.map Prod.fst)).run (runOn t.1.exec s).2).1,
          ((execAll (turns.map Prod.fst)).run (runOn t.1.exec s).2).2) := fun _ => rfl
    rw [List.map_cons, List.flatMap_cons, List.append_assoc, step, one, others, List.flatMap_cons,
      List.append_assoc]
    rfl

end Methods

end RiscvSoc.Host.CallReplies
