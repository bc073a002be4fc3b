import Mathlib.Logic.Function.Basic
import Projector.Base.Memory
import Projector.Base.Run

/-!
# The echo loop

The loop of `main` in `projector.cpp`: `select`, and then a round for each descriptor that is ready, which
accepts a client, writes back what it sent, or closes it. All rounds share `buf`, all of which is written
whenever `data_len` is not zero, and `data_len` is unsigned, so that the -1 of an error is not zero either.

`echo_iff` says when what is written back is what was read: in the runs whose reads end the file or fill
the buffer. In these a client receives the same whatever the others send.
-/

namespace Projector.Echo

/-- `MAX_BUF` of `projector.cpp`. -/
def maxBuf : Nat := 16384

/-- `FD_SETSIZE` -/
def fdSetSize : Int := 1024

/-- The standard output, a descriptor that is open from the start. -/
def stdout : Int := 1

/-- What `read(fd, buf, MAX_BUF)` did: it stored some bytes (none at the end of file), or failed. -/
inductive ReadResult where
  | data (bytes : List UInt8) (le : bytes.length ≤ maxBuf)
  | error
deriving DecidableEq

namespace ReadResult

/-- The bytes that were read. -/
def bytes : ReadResult → List UInt8
  | .data bytes _ => bytes
  | .error => []

/-- What `read` returns. -/
def returned : ReadResult → Int
  | .data bytes _ => bytes.length
  | .error => -1

/-- `data_len` -/
def dataLen (r : ReadResult) : UInt32 := UInt32.ofInt r.returned

/-- The end of the file, or as many bytes as the buffer has. -/
def Whole (r : ReadResult) : Prop := r.returned = 0 ∨ r.returned = maxBuf

end ReadResult

/-- A round for a client: what was read, and the bytes handed to `write` with the descriptor they go to. -/
structure Round where
  fd : Int
  result : ReadResult
  writes : List (Int × List UInt8)

/-- The bytes that some writes bring to a descriptor. -/
def written (fd : Int) (writes : List (Int × List UInt8)) : List UInt8 :=
  (writes.filter fun w => w.1 = fd).flatMap Prod.snd

/-- What a round writes back to its client. -/
def Round.back (r : Round) : List UInt8 := written r.fd r.writes

/-- `main` at the head of its `for` loop. -/
structure EchoLoop where
  serverSocket : Int
  readFds : Int → Bool
  tmpFds : Int → Bool
  fd : Int
  buf : Mem

/-- `main` before its first `select`: as after a loop over no descriptors. `buf` holds "Test!". -/
def start (serverSocket : Int) : EchoLoop where
  serverSocket := serverSocket
  readFds := fun fd => fd = serverSocket
  tmpFds := fun _ => false
  fd := fdSetSize
  buf := Mem.overlay (fun _ => 0) [84, 101, 115, 116, 33]

/-- The body of the `for` loop for a descriptor that is set in `tmp_fds`. `accept` returns a descriptor
that was not open. -/
def EchoLoop.serve (l : EchoLoop) (client : Int) (r : ReadResult) : Option (EchoLoop × List Round) :=
  if l.fd = l.serverSocket then
    if client ≠ stdout ∧ l.readFds client = false then
      some ({ l with readFds := Function.update l.readFds client true }, [])
    else none
  else
    let buf := l.buf.overlay r.bytes
    if r.dataLen > 0 then
      some ({ l with buf := buf }, [⟨l.fd, r, [(stdout, buf.read 0 maxBuf), (l.fd, buf.read 0 maxBuf)]⟩])
    else if r.dataLen = 0 then
      some ({ l with buf := buf, readFds := Function.update l.readFds l.fd false }, [⟨l.fd, r, []⟩])
    else if r.dataLen < 0 then none -- `exit(1)`, which an unsigned `data_len` never comes to
    else some ({ l with buf := buf }, [⟨l.fd, r, []⟩])

/-- What happens next: `select` leaves those descriptors that are ready, or the loop goes on to the next
descriptor. -/
inductive Input where
  | select (ready : Int → Bool)
  | next (client : Int) (r : ReadResult)

/-- One event of the loop. -/
def EchoLoop.step (l : EchoLoop) : Input → Option (EchoLoop × List Round)
  | .select ready =>
    if l.fd = fdSetSize then some ({ l with tmpFds := fun fd => l.readFds fd && ready fd, fd := 0 }, [])
    else none
  | .next client r =>
    if l.fd < fdSetSize then
      if l.tmpFds l.fd then do
        let (m, o) ← l.serve client r
        some ({ m with fd := l.fd + 1 }, o)
      else some ({ l with fd := l.fd + 1 }, [])
    else none

/-- The runs of the loop, with their rounds. -/
abbrev Reached (serverSocket : Int) : List Round → EchoLoop → Prop :=
  Run EchoLoop.step (fun _ _ => True) (start serverSocket)

variable {l m : EchoLoop} {client fd serverSocket : Int} {r : ReadResult} {h h' o : List Round}

/-! ## What a round does -/

/-- `data_len` is zero only at the end of the file. -/
lemma ReadResult.dataLen_pos_iff : r.dataLen > 0 ↔ r.returned ≠ 0 := by
  have range : -1 ≤ r.returned ∧ r.returned ≤ maxBuf := by
    cases r with
    | data bytes le =>
      show -1 ≤ (bytes.length : Int) ∧ (bytes.length : Int) ≤ maxBuf
      omega
    | error => decide
  have size : maxBuf = 16384 := rfl
  rw [gt_iff_lt, UInt32.lt_iff_toNat_lt, dataLen, UInt32.ofInt, UInt32.toNat_ofNat', UInt32.toNat_zero]
  omega

/-- A `read` that returned 0 leaves `data_len` at 0. -/
lemma ReadResult.dataLen_eq_zero (e : r.returned = 0) : r.dataLen = 0 := by
  rw [dataLen, e]
  rfl

/-- The round in which the bytes of a client come into the buffer and all of it is written, to the standard
output and to the client. -/
def echo (buf : Mem) (fd : Int) (r : ReadResult) : Round :=
  ⟨fd, r, [(stdout, (buf.overlay r.bytes).read 0 maxBuf), (fd, (buf.overlay r.bytes).read 0 maxBuf)]⟩

/-- A round writes nothing at the end of the file, and else is an echo. Its client is not the standard
output. -/
structure Echoes (r : Round) : Prop where
  client : r.fd ≠ stdout
  eof : r.result.returned = 0 → r.writes = []
  echo : r.result.returned ≠ 0 → ∃ buf, r = Echo.echo buf r.fd r.result

/-- The standard output is not watched, unless the server listens on it. -/
structure Apart (l : EchoLoop) : Prop where
  read : l.readFds stdout = true → l.serverSocket = stdout
  tmp : l.tmpFds stdout = true → l.serverSocket = stdout

/-- What a round does to the loop. -/
lemma serve_spec (inv : Apart l) (set : l.tmpFds l.fd = true) (st : l.serve client r = some (m, o)) :
    Apart m ∧ ∀ q ∈ o, Echoes q := by
  obtain ⟨read, tmp⟩ := inv
  unfold EchoLoop.serve at st
  by_cases listening : l.fd = l.serverSocket
  · rw [if_pos listening] at st
    by_cases fresh : client ≠ stdout ∧ l.readFds client = false
    · rw [if_pos fresh] at st
      cases st
      have same : Function.update l.readFds client true stdout = l.readFds stdout :=
        Function.update_of_ne fresh.1.symm _ _
      exact ⟨⟨fun set => read (same.symm.trans set), tmp⟩, by simp⟩
    · rw [if_neg fresh] at st
      contradiction
  · have other : l.fd ≠ stdout := fun e => listening (e.trans (tmp (e ▸ set)).symm)
    rw [if_neg listening] at st
    by_cases zero : r.returned = 0
    · have len := ReadResult.dataLen_eq_zero zero
      simp only [len, gt_iff_lt, ↓reduceIte] at st
      cases st
      have same : Function.update l.readFds l.fd false stdout = l.readFds stdout :=
        Function.update_of_ne other.symm _ _
      refine ⟨⟨fun set => read (same.symm.trans set), tmp⟩, ?_⟩
      rw [List.forall_mem_singleton]
      exact ⟨other, fun _ => rfl, fun more => absurd zero more⟩
    · have len : r.dataLen > 0 := ReadResult.dataLen_pos_iff.mpr zero
      rw [if_pos len] at st
      cases st
      refine ⟨⟨read, tmp⟩, ?_⟩
      rw [List.forall_mem_singleton]
      exact ⟨other, fun none => absurd none zero, fun _ => ⟨l.buf, rfl⟩⟩

/-- What a step does. -/
lemma step_spec {i : Input} (inv : Apart l) (st : l.step i = some (m, o)) :
    Apart m ∧ ∀ q ∈ o, Echoes q := by
  cases i with
  | select ready =>
    simp only [EchoLoop.step] at st
    split at st
    · cases st
      refine ⟨⟨inv.read, fun set => inv.read ?_⟩, by simp⟩
      exact (Bool.and_eq_true_iff.mp set).1
    · contradiction
  | next client r =>
    simp only [EchoLoop.step] at st
    split at st
    · split at st
      · rename_i set
        obtain ⟨⟨k, o'⟩, served, e⟩ := Option.bind_eq_some_iff.mp st
        cases e
        obtain ⟨⟨read, tmp⟩, rounds⟩ := serve_spec inv set served
        exact ⟨⟨read, tmp⟩, rounds⟩
      · cases st
        exact ⟨⟨inv.read, inv.tmp⟩, by simp⟩
    · contradiction

/-- All rounds of a run. -/
lemma Reached.echoes (run : Reached serverSocket h l) : ∀ q ∈ h, Echoes q := by
  have all : Apart l ∧ ∀ q ∈ h, Echoes q := by
    apply run.invariant (I := fun l h => Apart l ∧ ∀ q ∈ h, Echoes q)
    · refine ⟨⟨fun set => ?_, fun set => ?_⟩, by simp⟩
      · exact (of_decide_eq_true set).symm
      · contradiction
    · intro t h i u o inv _ st
      obtain ⟨apart, rounds⟩ := step_spec inv.1 st
      refine ⟨apart, fun q mem => ?_⟩
      rcases List.mem_append.mp mem with before | now
      · exact inv.2 q before
      · exact rounds q now
  exact all.2

/-! ## What clients receive -/

/-- What a descriptor receives in some rounds. -/
def received (fd : Int) (h : List Round) : List UInt8 := written fd (h.flatMap Round.writes)

/-- The results of `read` on a descriptor. -/
def results (fd : Int) (h : List Round) : List ReadResult :=
  (h.filter fun r => r.fd = fd).map Round.result

/-- Nothing is written without a `write`. -/
@[simp] lemma written_nil (fd : Int) : written fd [] = [] := rfl

/-- What is written to a descriptor, of two sequences of calls. -/
lemma written_append (fd : Int) (v w : List (Int × List UInt8)) :
    written fd (v ++ w) = written fd v ++ written fd w := by
  rw [written, List.filter_append, List.flatMap_append]
  rfl

/-- An echo, seen by somebody who is not the standard output. -/
lemma written_echo {target : Int} (other : target ≠ stdout) (buf : Mem) (fd : Int) (r : ReadResult) :
    written target (echo buf fd r).writes =
      if fd = target then (buf.overlay r.bytes).read 0 maxBuf else [] := by
  have first : ¬ stdout = target := fun e => other e.symm
  by_cases here : fd = target
  · simp [written, echo, first, here]
  · simp [written, echo, first, here]

/-- Nothing was read at the end of the file. -/
lemma ReadResult.bytes_of_eof (e : r.returned = 0) : r.bytes = [] := by
  cases r with
  | data bytes le => exact List.length_eq_zero_iff.mp (Int.ofNat_eq_zero.mp e)
  | error => contradiction

/-- The buffer was filled. -/
lemma ReadResult.length_of_full (e : r.returned = maxBuf) : r.bytes.length = maxBuf := by
  cases r with
  | data bytes le => exact Int.ofNat_inj.mp e
  | error => contradiction

/-- A round writes back what it read exactly when it read nothing or filled the buffer. -/
lemma Echoes.back_iff {q : Round} (e : Echoes q) : q.back = q.result.bytes ↔ q.result.Whole := by
  by_cases zero : q.result.returned = 0
  · rw [Round.back, e.eof zero, written_nil, ReadResult.bytes_of_eof zero]
    exact iff_of_true rfl (.inl zero)
  · obtain ⟨buf, round⟩ := e.echo zero
    have back : q.back = (buf.overlay q.result.bytes).read 0 maxBuf := by
      have echoed := written_echo e.client buf q.fd q.result
      rwa [← round, if_pos rfl] at echoed
    rw [back]
    constructor
    · intro same
      have len := congrArg List.length same
      rw [Mem.length_read] at len
      cases res : q.result with
      | data bytes le =>
        rw [res] at len
        exact .inr (congrArg Int.ofNat len.symm)
      | error =>
        rw [res] at len
        exact absurd len (by decide)
    · intro whole
      have all := Mem.read_overlay buf q.result.bytes
      rwa [ReadResult.length_of_full (whole.resolve_left zero)] at all

/-- What such a round writes to a client is what it read, if it is the client's own. -/
lemma Echoes.written_eq {q : Round} (e : Echoes q) (whole : q.result.Whole) (other : fd ≠ stdout) :
    written fd q.writes = if q.fd = fd then q.result.bytes else [] := by
  by_cases own : q.fd = fd
  · rw [if_pos own, ← own]
    exact e.back_iff.mpr whole
  · rw [if_neg own]
    by_cases zero : q.result.returned = 0
    · rw [e.eof zero, written_nil]
    · obtain ⟨buf, round⟩ := e.echo zero
      rw [round, written_echo other, if_neg own]

/-- A client receives what was read from it. -/
lemma received_eq (echoes : ∀ q ∈ h, Echoes q) (whole : ∀ q ∈ h, q.result.Whole) (other : fd ≠ stdout) :
    received fd h = (results fd h).flatMap ReadResult.bytes := by
  induction h with
  | nil => rfl
  | cons q h ih =>
    rw [List.forall_mem_cons] at echoes whole
    have rest := ih echoes.2 whole.2
    rw [received] at rest
    rw [received, List.flatMap_cons, written_append, rest, echoes.1.written_eq whole.1 other, results]
    by_cases own : q.fd = fd
    · simp [results, own]
    · simp [results, own]

/-! ## Two clients -/

/-- The loop goes over descriptors that are not ready. -/
lemma skip (l : EchoLoop) (tmp : Int → Bool) (i : Int) (n : Nat)
    (unset : ∀ k < n, tmp (i + (k : Nat)) = false) (le : i + n ≤ fdSetSize) : Run EchoLoop.step (fun _ _ => True) { l with tmpFds := tmp, fd := i } []
      { l with tmpFds := tmp, fd := i + n } := by
  induction n with
  | zero =>
    rw [Int.natCast_zero, Int.add_zero]
    exact .nil
  | succ n ih =>
    have before := ih (fun k lt => unset k (by omega)) (by omega)
    refine .snoc (.next 0 .error) before trivial ?_
    have more : i + n < fdSetSize := by omega
    have here : tmp (i + n) = false := unset n (by omega)
    simp only [EchoLoop.step, more, ↓reduceIte, here, Bool.false_eq_true, Int.natCast_add,
      Int.natCast_one, Int.add_assoc]

/-- `tmp_fds` with one descriptor. -/
def only (fd : Int) : Int → Bool := fun target => target = fd

/-- No other descriptor is reported. -/
lemma only_of_ne {target : Int} (ne : target ≠ fd) : only fd target = false := decide_eq_false ne

/-- An iteration in which one descriptor is ready. -/
lemma pass (idle : l.fd = fdSetSize) (lo : 0 ≤ fd) (hi : fd < fdSetSize) (watched : l.readFds fd = true)
    (st : EchoLoop.serve { l with tmpFds := only fd, fd := fd } client r = some (m, o))
    (same : m.tmpFds = only fd) :
    Run EchoLoop.step (fun _ _ => True) l o { m with fd := fdSetSize } := by
  have select : l.step (.select (only fd)) = some ({ l with tmpFds := only fd, fd := 0 }, []) := by
    have left : (fun target => l.readFds target && only fd target) = only fd := by
      funext target
      by_cases here : target = fd
      · rw [here, watched, Bool.true_and]
      · rw [only_of_ne here, Bool.and_false]
    simp only [EchoLoop.step, idle, ↓reduceIte, left]
  have upTo := skip l (only fd) 0 fd.toNat (fun k lt => only_of_ne (by omega)) (by omega)
  have next : EchoLoop.step { l with tmpFds := only fd, fd := fd } (.next client r) =
      some ({ m with fd := fd + 1 }, o) := by
    have set : only fd fd = true := decide_eq_true rfl
    simp only [EchoLoop.step, hi, ↓reduceIte, set, st, Option.bind_eq_bind, Option.bind_some]
  have rest := skip m (only fd) (fd + 1) (fdSetSize - (fd + 1)).toNat
    (fun k lt => only_of_ne (by omega)) (by omega)
  have there : 0 + (fd.toNat : Int) = fd := by omega
  have done : fd + 1 + ((fdSetSize - (fd + 1)).toNat : Int) = fdSetSize := by omega
  rw [there] at upTo
  rw [done, ← same] at rest
  have all := ((Run.single _ trivial select).trans upTo).trans ((Run.single _ trivial next).trans rest)
  simpa using all

/-- A client comes in. -/
lemma pass_accept (client : Int) (idle : l.fd = fdSetSize) (lo : 0 ≤ l.serverSocket)
    (hi : l.serverSocket < fdSetSize) (watched : l.readFds l.serverSocket = true)
    (other : client ≠ stdout) (fresh : l.readFds client = false) : Run EchoLoop.step (fun _ _ => True) l []
      ⟨l.serverSocket, Function.update l.readFds client true, only l.serverSocket, fdSetSize, l.buf⟩ := by
  have served : EchoLoop.serve { l with tmpFds := only l.serverSocket, fd := l.serverSocket } client
      .error = some (⟨l.serverSocket, Function.update l.readFds client true, only l.serverSocket,
        l.serverSocket, l.buf⟩, []) := by
    simp only [EchoLoop.serve, ↓reduceIte, ne_eq, other, not_false_eq_true, fresh, and_self]
  exact pass idle lo hi watched served rfl

/-- A client sends something. -/
lemma pass_read (idle : l.fd = fdSetSize) (lo : 0 ≤ fd) (hi : fd < fdSetSize) (watched : l.readFds fd = true)
    (other : fd ≠ l.serverSocket) (more : r.returned ≠ 0) :
    Run EchoLoop.step (fun _ _ => True) l [echo l.buf fd r]
      ⟨l.serverSocket, l.readFds, only fd, fdSetSize, l.buf.overlay r.bytes⟩ := by
  have len : r.dataLen > 0 := ReadResult.dataLen_pos_iff.mpr more
  have served : EchoLoop.serve { l with tmpFds := only fd, fd := fd } 0 r =
      some (⟨l.serverSocket, l.readFds, only fd, fd, l.buf.overlay r.bytes⟩, [echo l.buf fd r]) := by
    simp only [EchoLoop.serve, other, ↓reduceIte, len, echo]
  exact pass idle lo hi watched served rfl

/-- Two clients come in at 4 and 5 and send something one after the other. -/
lemma reached_two {a b : ReadResult} (first : a.returned ≠ 0) (second : b.returned ≠ 0) : ∃ l,
    Reached 3 [echo (start 3).buf 4 a, echo ((start 3).buf.overlay a.bytes) 5 b] l := by
  have one := pass_accept 4 (l := start 3) rfl (by decide) (by decide) rfl (by decide) rfl
  have both := one.trans (pass_accept 5 rfl (by decide : (0 : Int) ≤ 3) (by decide) rfl (by decide) rfl)
  have sent := both.trans (pass_read rfl (by decide) (by decide) rfl (by decide : (4 : Int) ≠ 3) first)
  exact ⟨_, sent.trans (pass_read rfl (by decide) (by decide) rfl (by decide : (5 : Int) ≠ 3) second)⟩

/-- What the second of them receives. -/
lemma received_two (buf buf' : Mem) (a b : ReadResult) :
    received 5 [echo buf 4 a, echo buf' 5 b] = (buf'.overlay b.bytes).read 0 maxBuf := by
  have first := written_echo (by decide : (5 : Int) ≠ stdout) buf 4 a
  have second := written_echo (by decide : (5 : Int) ≠ stdout) buf' 5 b
  rw [if_neg (by decide)] at first
  rw [if_pos rfl] at second
  rw [received, List.flatMap_cons, List.flatMap_singleton, written_append, first, second, List.nil_append]

/-- What was read from it. -/
lemma results_two (buf buf' : Mem) (a b : ReadResult) :
    results 5 [echo buf 4 a, echo buf' 5 b] = [b] := rfl

/-! ## The echo -/

/-- In a run every round writes back what it read exactly when every `read` returned 0 or filled the
buffer. In two runs of this kind that read the same from a client, it receives the same. -/
theorem echo_iff (serverSocket : Int) :
    (∀ h l, Reached serverSocket h l →
      ((∀ q ∈ h, q.back = q.result.bytes) ↔ ∀ q ∈ h, q.result.Whole)) ∧
    ∀ h h' l l', Reached serverSocket h l → Reached serverSocket h' l' →
      (∀ q ∈ h, q.result.Whole) → (∀ q ∈ h', q.result.Whole) → ∀ fd ≠ stdout,
      results fd h = results fd h' → received fd h = received fd h' := by
  constructor
  · intro h l run
    exact forall₂_congr fun q mem => (run.echoes q mem).back_iff
  · intro h h' l l' run run' whole whole' fd other same
    rw [received_eq run.echoes whole other, received_eq run'.echoes whole' other, same]

/-- A chunk that fills the buffer. -/
def fill (b : UInt8) : ReadResult := .data (List.replicate maxBuf b) List.length_replicate.le

/-- A chunk that fills the buffer. -/
lemma returned_fill (b : UInt8) : (fill b).returned = maxBuf :=
  congrArg Int.ofNat List.length_replicate

/-- `echo_iff` for two runs in which the first of two clients sends different chunks that fill the
buffer, and the second the same. -/
theorem echo_iff_fill : ∃ h h' l l', Reached 3 h l ∧ Reached 3 h' l' ∧ h.map Round.result = [fill 1, fill 9] ∧
    h'.map Round.result = [fill 2, fill 9] ∧ (∀ q ∈ h, q.back = q.result.bytes) ∧
    received 5 h = received 5 h' := by
  have full (b : UInt8) : (fill b).returned ≠ 0 := by
    rw [returned_fill]
    decide
  have whole (b : UInt8) : (fill b).Whole := .inr (returned_fill b)
  have both (b : UInt8) (buf buf' : Mem) :
      ∀ q ∈ [echo buf 4 (fill b), echo buf' 5 (fill 9)], q.result.Whole :=
    List.forall_mem_cons.mpr ⟨whole b, List.forall_mem_singleton.mpr (whole 9)⟩
  obtain ⟨l, run⟩ := reached_two (full 1) (full 9)
  obtain ⟨l', run'⟩ := reached_two (full 2) (full 9)
  have exactly := ((echo_iff 3).1 _ _ run).mpr (both 1 _ _)
  have same := (echo_iff 3).2 _ _ _ _ run run' (both 1 _ _) (both 2 _ _) 5 (by decide)
    (by rw [results_two, results_two])
  exact ⟨_, _, l, l', run, run', rfl, rfl, exactly, same⟩

/-- A chunk of two bytes. -/
def short (a b : UInt8) : ReadResult := .data [a, b] (by show 2 ≤ maxBuf; decide)

/-- A chunk of one byte. -/
def byte (b : UInt8) : ReadResult := .data [b] (by show 1 ≤ maxBuf; decide)

/-- The second of two clients sends "B", and what it gets back goes on with the second byte of what the
first has sent. -/
theorem not_echo : ∃ h h' l l', Reached 3 h l ∧ Reached 3 h' l' ∧
    h.map Round.result = [short 83 49, byte 66] ∧ h'.map Round.result = [short 83 50, byte 66] ∧
    results 5 h = results 5 h' ∧ received 5 h ≠ received 5 h' ∧ ∃ q ∈ h, q.back ≠ q.result.bytes := by
  have ne (b : UInt8) : (short 83 b).returned ≠ 0 := by
    show (2 : Int) ≠ 0
    decide
  obtain ⟨l, run⟩ := reached_two (ne 49) (by decide : (byte 66).returned ≠ 0)
  obtain ⟨l', run'⟩ := reached_two (ne 50) (by decide : (byte 66).returned ≠ 0)
  refine ⟨_, _, l, l', run, run', rfl, rfl, by rw [results_two, results_two], fun same => ?_,
    _, List.mem_cons_self, fun same => ?_⟩
  · rw [received_two, received_two] at same
    have size : maxBuf = 16384 := rfl
    have second := List.getElem_of_eq same (i := 1) (by rw [Mem.length_read]; omega)
    rw [Mem.getElem_read, Mem.getElem_read] at second
    exact absurd second (by decide)
  · have whole := (run.echoes _ List.mem_cons_self).back_iff.mp same
    exact absurd whole (by show ¬ ((2 : Int) = 0 ∨ (2 : Int) = maxBuf); decide)

end Projector.Echo
