import Mathlib.Data.PNat.Defs
import Ssmp.Lib.TransSys
import Ssmp.Message

/-!
# Big.Model — `ssmp_send_big` and `ssmp_recv_from_big`

A big message travels in chunks through `ssmp_chunk_buf[sender]`, one `ssmp_chunk_t` for each
sender: `SSMP_CHUNK_SIZE - 1` bytes of data and the `state` byte.  Both functions copy
`SSMP_CHUNK_SIZE` bytes for every full chunk, the state byte among them.  They are the same on all
platforms that have them (`src/platform/generic/ssmp_platf.c` and its siblings).

The chunk size `C` is a parameter; a full copy moves the bytes `0` to `C - 1`, and the state byte is
byte `C - 1`.  The pieces in which a `memcpy` takes effect are another parameter, `moves`.
-/

namespace Ssmp
namespace Big

open Lib

/-- `SSMP_CHUNK_SIZE` on x86. -/
def ssmpChunkSize : ℕ+ := 8192

/-- A `memcpy` that takes effect at once. -/
def wholeMove (len : Nat) : List Piece :=
  [⟨0, len⟩]

/-- A `memcpy` byte by byte in ascending order. -/
def byteMoves (len : Nat) : List Piece :=
  (List.range len).map fun b => ⟨b, 1⟩

/-! ## The two functions -/

/-- The part of a big message that travels in one chunk: `len` bytes from `data + off`, for `dst`. -/
structure Span (R : Type) where
  dst : R
  data : List UInt8
  off : Nat
  len : Nat

inductive SendAct (R : Type) where
  /-- `while (ssmp_chunk_buf[ssmp_id_]->state) PAUSE;` before the span `x` is copied. -/
  | await (x : Span R)
  /-- A piece of `memcpy(ssmp_chunk_buf[ssmp_id_], data + off, len)`. -/
  | copy (x : Span R) (p : Piece)
  /-- `ssmp_chunk_buf[ssmp_id_]->state = 1;` -/
  | store
  | ret

inductive RecvAct where
  /-- `while (!ssmp_chunk_buf[from]->state) PAUSE;` -/
  | await
  /-- A piece of `memcpy(data + off, ssmp_chunk_buf[from], len)`. -/
  | copy (off : Nat) (p : Piece)
  /-- `ssmp_chunk_buf[from]->state = 0;` -/
  | store
  /-- The end of a call for `length` bytes. -/
  | ret (length : Nat)

section Functions

variable {R : Type} (C : ℕ+) (moves : Nat → List Piece)

/-- `while (num_chunks--) { chunk; data += SSMP_CHUNK_SIZE; }` and the last chunk, if there is
one. -/
def chunkLoop {α : Type} (chunk : Nat → Nat → List α) (lastChunk : Nat) : Nat → Nat → List α
  -- `last_chunk` is copied only if it is not empty
  | 0, off => if lastChunk = 0 then [] else chunk off lastChunk
  | numChunks + 1, off => chunk off C ++ chunkLoop chunk lastChunk numChunks (off + C)

def sendChunk (x : Span R) : List (SendAct R) :=
  .await x :: ((moves x.len).map (.copy x) ++ [.store])

def recvChunk (off len : Nat) : List RecvAct :=
  .await :: ((moves len).map (.copy off) ++ [.store])

/-- The length is that of `data`; nothing but the log of `Span`s looks at `dst`. -/
def ssmpSendBigPlatf (dst : R) (data : List UInt8) : List (SendAct R) :=
  chunkLoop C (fun off len => sendChunk moves ⟨dst, data, off, len⟩) (data.length % C)
    (data.length / C) 0 ++ [.ret]

def ssmpRecvFromBigPlatf (length : Nat) : List RecvAct :=
  chunkLoop C (recvChunk moves) (length % C) (length / C) 0 ++ [.ret length]

end Functions

/-! ## One sender and its receivers -/

/-- The chunk buffer of one sender, the calls and actions each party has left, and the receivers'
buffers.  The last fields record what happened: the spans whose copy has begun, how often the sender
has stored 1, for every flag read with which a receiver began to copy the values of these two
counts, how often each receiver has stored 0, and what the receivers' calls have returned. -/
structure State (R : Type) where
  chunk : Nat → UInt8
  sendTodo : List (R × List UInt8)
  sendCode : List (SendAct R)
  recvTodo : R → List Nat
  recvCode : R → List RecvAct
  buf : R → Nat → UInt8
  begun : List (Span R)
  stored : Nat
  takes : List (Nat × Nat)
  took : R → Nat
  returned : R → List (List UInt8)

inductive Party (R : Type) where
  | sender
  | receiver (r : R)

namespace State

variable {R : Type} (C : ℕ+) (moves : Nat → List Piece)

/-- `ssmp_chunk_buf[sender]->state` -/
def flag (s : State R) : UInt8 :=
  s.chunk (C - 1)

/-- One step of the sender.  A failed wait leaves the state as it is. -/
def sendStep (s : State R) : State R :=
  match s.sendCode with
  | [] =>
      match s.sendTodo with
      | [] => s
      | (dst, data) :: todo =>
          { s with sendTodo := todo, sendCode := ssmpSendBigPlatf C moves dst data }
  | .await x :: c =>
      if s.flag C = 0 then { s with sendCode := c, begun := s.begun ++ [x] } else s
  | .copy x p :: c =>
      { s with
        sendCode := c
        -- for a full chunk this writes the flag too
        chunk := fun b => if p.Has b then x.data.getD (x.off + b) 0 else s.chunk b }
  | .store :: c =>
      { s with sendCode := c, chunk := Function.update s.chunk (C - 1) 1, stored := s.stored + 1 }
  | .ret :: c => { s with sendCode := c }

variable [DecidableEq R]

def setRecvCode (s : State R) (r : R) (c : List RecvAct) : State R :=
  { s with recvCode := Function.update s.recvCode r c }

/-- One step of receiver `r`. -/
def recvStep (r : R) (s : State R) : State R :=
  match s.recvCode r with
  | [] =>
      match s.recvTodo r with
      | [] => s
      | length :: todo =>
          { s.setRecvCode r (ssmpRecvFromBigPlatf C moves length) with
            recvTodo := Function.update s.recvTodo r todo }
  | .await :: c =>
      if s.flag C = 0 then s
      -- any value but 0 lets the receiver in
      else { s.setRecvCode r c with takes := s.takes ++ [(s.stored, s.begun.length)] }
  | .copy off p :: c =>
      { s.setRecvCode r c with
        buf := Function.update s.buf r fun x =>
          if off ≤ x ∧ p.Has (x - off) then s.chunk (x - off) else s.buf r x }
  | .store :: c =>
      { s.setRecvCode r c with
        chunk := Function.update s.chunk (C - 1) 0
        took := Function.update s.took r (s.took r + 1) }
  | .ret length :: c =>
      { s.setRecvCode r c with
        returned := Function.update s.returned r
          (s.returned r ++ [(List.range length).map (s.buf r)]) }

def step (party : Party R) (s : State R) : State R :=
  match party with
  | .sender => s.sendStep C moves
  | .receiver r => s.recvStep C moves r

/-- The steps of a schedule, one after the other. -/
def run (schedule : List (Party R)) (s : State R) : State R :=
  schedule.foldl (fun s party => s.step C moves party) s

/-- The sender is to make the calls `sends`, receiver `r` the calls `asks r`. -/
structure Init (sends : List (R × List UInt8)) (asks : R → List Nat) (s : State R) : Prop where
  flag : s.flag C = 0
  sendTodo : s.sendTodo = sends
  sendCode : s.sendCode = []
  recvTodo : s.recvTodo = asks
  recvCode : ∀ r, s.recvCode r = []
  begun : s.begun = []
  stored : s.stored = 0
  takes : s.takes = []
  took : ∀ r, s.took r = 0
  returned : ∀ r, s.returned r = []

/-- A chunk buffer of zeros before the first call. -/
def fresh (sends : List (R × List UInt8)) (asks : R → List Nat) : State R where
  chunk _ := 0
  sendTodo := sends
  sendCode := []
  recvTodo := asks
  recvCode _ := []
  buf _ _ := 0
  begun := []
  stored := 0
  takes := []
  took _ := 0
  returned _ := []

omit [DecidableEq R] in
theorem init_fresh (sends : List (R × List UInt8)) (asks : R → List Nat) :
    (fresh sends asks).Init C sends asks := by
  constructor <;> intros <;> rfl

end State

/-- The sender and the receivers under any interleaving. -/
def system {R : Type} [DecidableEq R] (C : ℕ+) (moves : Nat → List Piece)
    (sends : List (R × List UInt8)) (asks : R → List Nat) : TransSys (State R) (Party R) where
  init := State.Init C sends asks
  step s party t := t = s.step C moves party

/-! ### One receiver that asks for what is sent -/

/-- The calls that send `msgs`. -/
def sendsOf (msgs : List (List UInt8)) : List (Unit × List UInt8) :=
  msgs.map fun m => ((), m)

/-- The receiver's calls, for the same lengths in the same order. -/
def asksOf (msgs : List (List UInt8)) : Unit → List Nat :=
  fun _ => msgs.map List.length

end Big
end Ssmp
