import Mathlib.Algebra.BigOperators.Group.List.Basic
import Mathlib.Data.List.Pairwise
import Ssmp.Big.Model

/-!
# Big.Events — what one step of a big transfer can do

The code of a call consists of chunks.  Between chunks a party is idle; within a chunk it copies and
then stores the flag.  `SendEvent` and `RecvEvent` list all that a step can do, in these terms, and
the later modules reason about events only.
-/

namespace Ssmp
namespace Big

open Lib

/-! ## The chunks of a call -/

section Chunks

variable {R : Type} {C : ℕ+} {moves : Nat → List Piece}

theorem chunkLoop_hom {α β : Type} {f : List α → List β} (hnil : f [] = [])
    (happend : ∀ a b, f (a ++ b) = f a ++ f b) (chunk : Nat → Nat → List α)
    (lastChunk numChunks off : Nat) :
    f (chunkLoop C chunk lastChunk numChunks off) =
      chunkLoop C (fun off len => f (chunk off len)) lastChunk numChunks off := by
  -- by induction on the full chunks left
  induction numChunks generalizing off with
  | zero =>
      simp only [chunkLoop]
      split
      · exact hnil
      · rfl
  | succ k ih => simp only [chunkLoop, happend, ih]

/-- The spans in which `data` travels. -/
def spans (C : ℕ+) (dst : R) (data : List UInt8) : List (Span R) :=
  chunkLoop C (fun off len => [⟨dst, data, off, len⟩]) (data.length % C) (data.length / C) 0

/-- The number of chunks in which `length` bytes travel. -/
def numChunks (C : ℕ+) (length : Nat) : Nat :=
  length / C + if length % C = 0 then 0 else 1

/-- The spans that the actions `c` have still to begin. -/
def awaited (c : List (SendAct R)) : List (Span R) :=
  c.filterMap fun a => match a with
    | .await x => some x
    | _ => none

/-- The number of chunks that the actions `c` have still to wait for. -/
def asked (c : List RecvAct) : Nat :=
  c.countP fun a => match a with
    | .await => true
    | _ => false

@[simp] theorem awaited_nil : awaited ([] : List (SendAct R)) = [] := rfl

@[simp] theorem awaited_append (c c' : List (SendAct R)) :
    awaited (c ++ c') = awaited c ++ awaited c' := by
  simp [awaited]

@[simp] theorem awaited_await (x : Span R) (c : List (SendAct R)) :
    awaited (.await x :: c) = x :: awaited c := rfl

@[simp] theorem awaited_store (c : List (SendAct R)) : awaited (.store :: c) = awaited c := rfl

@[simp] theorem awaited_ret (c : List (SendAct R)) : awaited (.ret :: c) = awaited c := rfl

@[simp] theorem awaited_copies (x : Span R) (ps : List Piece) :
    awaited (ps.map (.copy x)) = [] := by
  induction ps with
  | nil => rfl
  | cons p ps ih => simp [awaited]

@[simp] theorem asked_nil : asked [] = 0 := rfl

@[simp] theorem asked_append (c c' : List RecvAct) : asked (c ++ c') = asked c + asked c' := by
  simp [asked]

@[simp] theorem asked_await (c : List RecvAct) : asked (.await :: c) = asked c + 1 := by
  simp [asked]

@[simp] theorem asked_store (c : List RecvAct) : asked (.store :: c) = asked c := by
  simp [asked]

@[simp] theorem asked_ret (length : Nat) (c : List RecvAct) :
    asked (.ret length :: c) = asked c := by
  simp [asked]

@[simp] theorem asked_copies (off : Nat) (ps : List Piece) : asked (ps.map (.copy off)) = 0 := by
  simp [asked, List.countP_eq_zero]

@[simp] theorem awaited_send (dst : R) (data : List UInt8) :
    awaited (ssmpSendBigPlatf C moves dst data) = spans C dst data := by
  have hchunk : ∀ x : Span R, awaited (sendChunk moves x) = [x] := by
    intro x
    simp [sendChunk]
  -- each chunk waits once, so the waits are the spans
  rw [ssmpSendBigPlatf, awaited_append, chunkLoop_hom awaited_nil awaited_append]
  simp [spans, hchunk]

theorem chunkLoop_length {α : Type} {chunk : Nat → Nat → List α}
    (h : ∀ off len, (chunk off len).length = 1) (lastChunk k off : Nat) :
    (chunkLoop C chunk lastChunk k off).length = k + if lastChunk = 0 then 0 else 1 := by
  induction k generalizing off with
  | zero =>
      simp only [chunkLoop]
      split
      · simp_all
      · simp_all
  | succ k ih => simp only [chunkLoop, List.length_append, h, ih]; omega

theorem spans_length (dst : R) (data : List UInt8) :
    (spans C dst data).length = numChunks C data.length :=
  chunkLoop_length (fun _ _ => rfl) _ _ _

theorem mem_chunkLoop {α : Type} {chunk : Nat → Nat → List α} {a : α} (lastChunk k off : Nat) :
    a ∈ chunkLoop C chunk lastChunk k off ↔
      (∃ i < k, a ∈ chunk (off + i * C) C) ∨ (lastChunk ≠ 0 ∧ a ∈ chunk (off + k * C) lastChunk) := by
  induction k generalizing off with
  | zero =>
      simp only [chunkLoop]
      split
      · simp_all
      · simp_all
  | succ k ih =>
      have hshift : ∀ i, off + C + i * C = off + (i + 1) * C := by
        intro i
        rw [Nat.succ_mul]
        omega
      -- the first full chunk, or one of the chunks after it
      rw [Nat.exists_lt_succ_left]
      simp only [chunkLoop, List.mem_append, ih, hshift, Nat.zero_mul, Nat.add_zero, or_assoc]

theorem mem_spans {x : Span R} {dst : R} {data : List UInt8} :
    x ∈ spans C dst data ↔
      (∃ i < data.length / C, x = ⟨dst, data, i * C, C⟩) ∨
        (data.length % C ≠ 0 ∧ x = ⟨dst, data, data.length / C * C, data.length % C⟩) := by
  simp [spans, mem_chunkLoop]

theorem asked_chunkLoop (lastChunk k off : Nat) :
    asked (chunkLoop C (recvChunk moves) lastChunk k off) =
      k + if lastChunk = 0 then 0 else 1 := by
  have hchunk : ∀ off len, asked (recvChunk moves off len) = 1 := by
    intro off len
    simp [recvChunk]
  induction k generalizing off with
  | zero =>
      simp only [chunkLoop]
      split
      · simp_all
      · simp_all
  | succ k ih => simp only [chunkLoop, asked_append, hchunk, ih]; omega

@[simp] theorem asked_recv (length : Nat) :
    asked (ssmpRecvFromBigPlatf C moves length) = numChunks C length := by
  simp [ssmpRecvFromBigPlatf, asked_chunkLoop, numChunks]

end Chunks

/-! ## Where a party is in its code -/

section Position

variable {R : Type} {C : ℕ+} {moves : Nat → List Piece}

/-- Code of a sender that is not in a chunk. -/
inductive SendIdle (C : ℕ+) (moves : Nat → List Piece) : List (SendAct R) → Prop where
  | nil : SendIdle C moves []
  | ret {c : List (SendAct R)} (h : SendIdle C moves c) : SendIdle C moves (.ret :: c)
  | chunk {x : Span R} {c : List (SendAct R)} (hlen : x.len ≤ C) (h : SendIdle C moves c) :
      SendIdle C moves (sendChunk moves x ++ c)

/-- Code of a sender that is in the chunk of `x` and has still to copy the pieces `ps`. -/
structure SendCopying (C : ℕ+) (moves : Nat → List Piece) (x : Span R) (ps : List Piece)
    (code : List (SendAct R)) : Prop where
  len : x.len ≤ C
  suffix : ps <:+ moves x.len
  rest : ∃ c, SendIdle C moves c ∧ code = ps.map (.copy x) ++ .store :: c

/-- Code of a receiver that is not in a chunk. -/
inductive RecvIdle (moves : Nat → List Piece) : List RecvAct → Prop where
  | nil : RecvIdle moves []
  | ret {length : Nat} {c : List RecvAct} (h : RecvIdle moves c) :
      RecvIdle moves (.ret length :: c)
  | chunk {off len : Nat} {c : List RecvAct} (h : RecvIdle moves c) :
      RecvIdle moves (recvChunk moves off len ++ c)

/-- Code of a receiver that is in a chunk and has still to copy the pieces `ps`. -/
def RecvReading (moves : Nat → List Piece) (off : Nat) (ps : List Piece) (code : List RecvAct) :
    Prop :=
  ∃ c, RecvIdle moves c ∧ code = ps.map (.copy off) ++ .store :: c

theorem SendIdle.chunkLoop {dst : R} {data : List UInt8} {lastChunk : Nat}
    (hlast : lastChunk ≤ C) {c : List (SendAct R)} (h : SendIdle C moves c) (k off : Nat) :
    SendIdle C moves
      (chunkLoop C (fun off len => sendChunk moves ⟨dst, data, off, len⟩) lastChunk k off ++ c) := by
  induction k generalizing off with
  | zero =>
      simp only [Big.chunkLoop]
      split
      · exact h
      · exact SendIdle.chunk hlast h
  | succ k ih =>
      rw [Big.chunkLoop, List.append_assoc]
      exact SendIdle.chunk (Nat.le_refl _) (ih _)

theorem sendIdle_send (dst : R) (data : List UInt8) :
    SendIdle C moves (ssmpSendBigPlatf C moves dst data) :=
  SendIdle.chunkLoop (Nat.le_of_lt (Nat.mod_lt _ C.pos)) (SendIdle.ret SendIdle.nil) _ _

theorem RecvIdle.chunkLoop {lastChunk : Nat} {c : List RecvAct} (h : RecvIdle moves c)
    (k off : Nat) :
    RecvIdle moves (chunkLoop C (recvChunk moves) lastChunk k off ++ c) := by
  induction k generalizing off with
  | zero =>
      simp only [Big.chunkLoop]
      split
      · exact h
      · exact RecvIdle.chunk h
  | succ k ih =>
      rw [Big.chunkLoop, List.append_assoc]
      exact RecvIdle.chunk (ih _)

theorem recvIdle_recv (length : Nat) : RecvIdle moves (ssmpRecvFromBigPlatf C moves length) :=
  RecvIdle.chunkLoop (RecvIdle.ret RecvIdle.nil) _ _

/-! ### The first action tells the position -/

theorem SendIdle.not_copying {x : Span R} {ps : List Piece} {code : List (SendAct R)}
    (h : SendIdle C moves code) : ¬ SendCopying C moves x ps code := by
  intro hcopying
  rcases hcopying.rest with ⟨c, _, hcode⟩
  -- the first actions differ
  cases h <;> cases ps <;> simp [sendChunk] at hcode

theorem SendCopying.head {x x' : Span R} {p' : Piece} {ps ps' : List Piece}
    {code : List (SendAct R)} (h : SendCopying C moves x ps code)
    (h' : SendCopying C moves x' (p' :: ps') code) : x = x' ∧ ps ≠ [] := by
  rcases h.rest with ⟨c, _, hcode⟩
  rcases h'.rest with ⟨c', _, hcode'⟩
  rw [hcode] at hcode'
  cases ps with
  | nil => simp at hcode'
  | cons p ps =>
      simp only [List.map_cons, List.cons_append, List.cons.injEq, SendAct.copy.injEq] at hcode'
      exact ⟨hcode'.1.1, List.cons_ne_nil p ps⟩

theorem RecvIdle.not_reading {off : Nat} {ps : List Piece} {code : List RecvAct}
    (h : RecvIdle moves code) : ¬ RecvReading moves off ps code := by
  rintro ⟨c, _, hcode⟩
  cases h <;> cases ps <;> simp [recvChunk] at hcode

end Position

/-! ## Events -/

namespace State

variable {R : Type}

/-- The spans the sender has still to begin. -/
def spansLeft (C : ℕ+) (s : State R) : List (Span R) :=
  awaited s.sendCode ++ s.sendTodo.flatMap fun m => spans C m.1 m.2

/-- The number of chunks receiver `r` has still to wait for. -/
def asksLeft (C : ℕ+) (s : State R) (r : R) : Nat :=
  asked (s.recvCode r) + ((s.recvTodo r).map (numChunks C)).sum

end State

section Events

variable {R : Type} {C : ℕ+} {moves : Nat → List Piece} {s t : State R} {r : R}

/-- What a step of the sender can do. -/
inductive SendEvent (C : ℕ+) (moves : Nat → List Piece) (s t : State R) : Prop where
  /-- A step outside the chunks, or a wait that fails. -/
  | quiet (hs : SendIdle C moves s.sendCode) (ht : SendIdle C moves t.sendCode)
      (hchunk : t.chunk = s.chunk) (hbegun : t.begun = s.begun) (hstored : t.stored = s.stored)
      (hleft : t.spansLeft C = s.spansLeft C)
  /-- The sender finds the flag 0. -/
  | begins (x : Span R) (hs : SendIdle C moves s.sendCode)
      (ht : SendCopying C moves x (moves x.len) t.sendCode) (hflag : s.flag C = 0)
      (hchunk : t.chunk = s.chunk) (hbegun : t.begun = s.begun ++ [x])
      (hstored : t.stored = s.stored) (hleft : s.spansLeft C = x :: t.spansLeft C)
  | copies (x : Span R) (p : Piece) (ps : List Piece)
      (hs : SendCopying C moves x (p :: ps) s.sendCode)
      (ht : SendCopying C moves x ps t.sendCode)
      (hchunk : t.chunk = fun b => if p.Has b then x.data.getD (x.off + b) 0 else s.chunk b)
      (hbegun : t.begun = s.begun) (hstored : t.stored = s.stored)
      (hleft : t.spansLeft C = s.spansLeft C)
  | stores (x : Span R) (hs : SendCopying C moves x [] s.sendCode)
      (ht : SendIdle C moves t.sendCode) (hflag : t.flag C = 1) (hbegun : t.begun = s.begun)
      (hstored : t.stored = s.stored + 1) (hleft : t.spansLeft C = s.spansLeft C)

/-- What a step of receiver `r` can do. -/
inductive RecvEvent (C : ℕ+) (moves : Nat → List Piece) (r : R) (s t : State R) : Prop where
  /-- A step outside the chunks, or a wait that fails. -/
  | quiet (hs : RecvIdle moves (s.recvCode r)) (ht : RecvIdle moves (t.recvCode r))
      (hchunk : t.chunk = s.chunk) (htakes : t.takes = s.takes) (htook : t.took r = s.took r)
      (hleft : t.asksLeft C r = s.asksLeft C r)
  /-- The receiver finds the flag set. -/
  | takes (off : Nat) (ps : List Piece) (hs : RecvIdle moves (s.recvCode r))
      (ht : RecvReading moves off ps (t.recvCode r)) (hflag : s.flag C ≠ 0)
      (hchunk : t.chunk = s.chunk) (htakes : t.takes = s.takes ++ [(s.stored, s.begun.length)])
      (htook : t.took r = s.took r) (hleft : s.asksLeft C r = t.asksLeft C r + 1)
  | copies (off : Nat) (p : Piece) (ps : List Piece)
      (hs : RecvReading moves off (p :: ps) (s.recvCode r))
      (ht : RecvReading moves off ps (t.recvCode r)) (hchunk : t.chunk = s.chunk)
      (htakes : t.takes = s.takes) (htook : t.took r = s.took r)
      (hleft : t.asksLeft C r = s.asksLeft C r)
  | stores (off : Nat) (hs : RecvReading moves off [] (s.recvCode r))
      (ht : RecvIdle moves (t.recvCode r)) (hflag : t.flag C = 0) (htakes : t.takes = s.takes)
      (htook : t.took r = s.took r + 1) (hleft : t.asksLeft C r = s.asksLeft C r)

/-- The receivers' side is unchanged. -/
structure SameReceivers (s t : State R) : Prop where
  code : t.recvCode = s.recvCode
  todo : t.recvTodo = s.recvTodo
  takes : t.takes = s.takes
  took : t.took = s.took

/-- The sender's side, and that of the receivers other than `r`, is unchanged. -/
structure SameButReceiver (r : R) (s t : State R) : Prop where
  sendCode : t.sendCode = s.sendCode
  sendTodo : t.sendTodo = s.sendTodo
  begun : t.begun = s.begun
  stored : t.stored = s.stored
  recvCode : ∀ r', r' ≠ r → t.recvCode r' = s.recvCode r'
  recvTodo : ∀ r', r' ≠ r → t.recvTodo r' = s.recvTodo r'
  took : ∀ r', r' ≠ r → t.took r' = s.took r'

theorem SameReceivers.asksLeft (h : SameReceivers s t) (r : R) :
    t.asksLeft C r = s.asksLeft C r := by
  simp [State.asksLeft, h.code, h.todo]

theorem SameButReceiver.spansLeft (h : SameButReceiver r s t) :
    t.spansLeft C = s.spansLeft C := by
  simp [State.spansLeft, h.sendCode, h.sendTodo]

theorem SameButReceiver.asksLeft {r' : R} (h : SameButReceiver r s t) (hr : r' ≠ r) :
    t.asksLeft C r' = s.asksLeft C r' := by
  simp [State.asksLeft, h.recvCode r' hr, h.recvTodo r' hr]

theorem flag_congr (h : t.chunk = s.chunk) : t.flag C = s.flag C := by
  rw [State.flag, State.flag, h]

/-! ### The sender -/

theorem sendStep_same (s : State R) : SameReceivers s (s.sendStep C moves) := by
  cases hcode : s.sendCode with
  | nil => cases htodo : s.sendTodo <;> constructor <;> simp [State.sendStep, hcode, htodo]
  | cons a c =>
      cases a with
      | await x =>
          by_cases hf : s.flag C = 0 <;> constructor <;> simp [State.sendStep, hcode, hf]
      | copy x p => constructor <;> simp [State.sendStep, hcode]
      | store => constructor <;> simp [State.sendStep, hcode]
      | ret => constructor <;> simp [State.sendStep, hcode]

theorem sendStep_todo (s : State R) : (s.sendStep C moves).sendTodo <:+ s.sendTodo := by
  cases hcode : s.sendCode with
  | nil => cases htodo : s.sendTodo <;> simp [State.sendStep, hcode, htodo]
  | cons a c =>
      cases a with
      | await x => by_cases hf : s.flag C = 0 <;> simp [State.sendStep, hcode, hf]
      | copy x p => simp [State.sendStep, hcode]
      | store => simp [State.sendStep, hcode]
      | ret => simp [State.sendStep, hcode]

theorem sendEvent_idle (h : SendIdle C moves s.sendCode) :
    SendEvent C moves s (s.sendStep C moves) := by
  cases hcode : s.sendCode with
  | nil =>
      cases htodo : s.sendTodo with
      | nil =>
          have heq : s.sendStep C moves = s := by simp [State.sendStep, hcode, htodo]
          rw [heq]
          exact SendEvent.quiet h h rfl rfl rfl rfl
      | cons m todo =>
          rcases m with ⟨dst, data⟩
          refine SendEvent.quiet h ?_ ?_ ?_ ?_ ?_ <;>
            simp [State.sendStep, State.spansLeft, hcode, htodo, sendIdle_send]
  | cons a c =>
      rw [hcode] at h
      generalize hfull : a :: c = full at h
      cases h with
      | nil => simp at hfull
      | @ret c' h' =>
          rcases List.cons.inj hfull with ⟨rfl, rfl⟩
          refine SendEvent.quiet (hcode ▸ SendIdle.ret h') ?_ ?_ ?_ ?_ ?_ <;>
            simp [State.sendStep, State.spansLeft, hcode, h']
      | @chunk x c' hlen h' =>
          have hcons : a = .await x ∧ c = (moves x.len).map (.copy x) ++ .store :: c' := by
            simpa [sendChunk] using hfull
          rcases hcons with ⟨rfl, rfl⟩
          have hidle : SendIdle C moves s.sendCode := by
            rw [hcode]
            simpa [sendChunk] using SendIdle.chunk hlen h'
          -- the flag decides whether the chunk begins
          by_cases hf : s.flag C = 0
          · refine SendEvent.begins x hidle ⟨hlen, List.suffix_refl _, c', h', ?_⟩ hf ?_ ?_ ?_ ?_ <;>
              simp [State.sendStep, State.spansLeft, hcode, hf]
          · have heq : s.sendStep C moves = s := by simp [State.sendStep, hcode, hf]
            rw [heq]
            exact SendEvent.quiet hidle hidle rfl rfl rfl rfl

theorem sendEvent_copying {x : Span R} {ps : List Piece}
    (h : SendCopying C moves x ps s.sendCode) : SendEvent C moves s (s.sendStep C moves) := by
  rcases h.rest with ⟨c, hc, hcode⟩
  -- with no piece left the next action is the store
  cases ps with
  | nil =>
      refine SendEvent.stores x h ?_ ?_ ?_ ?_ ?_ <;>
        simp [State.sendStep, State.spansLeft, State.flag, hcode, hc]
  | cons p ps =>
      have hsuffix : ps <:+ moves x.len := (List.suffix_cons p ps).trans h.suffix
      refine SendEvent.copies x p ps h ⟨h.len, hsuffix, c, hc, ?_⟩ ?_ ?_ ?_ ?_
      · simp [State.sendStep, hcode]
      · simp [State.sendStep, hcode]
      · simp [State.sendStep, hcode]
      · simp [State.sendStep, hcode]
      · have hleft : awaited (.copy x p :: (ps.map (.copy x) ++ .store :: c)) =
            awaited (ps.map (.copy x) ++ .store :: c) := rfl
        simp [State.sendStep, State.spansLeft, hcode, hleft]

/-! ### A receiver -/

variable [DecidableEq R]

theorem recvStep_same (r : R) (s : State R) :
    SameButReceiver r s (s.recvStep C moves r) := by
  cases hcode : s.recvCode r with
  | nil =>
      cases htodo : s.recvTodo r <;> constructor <;>
        simp +contextual [State.recvStep, State.setRecvCode, hcode, htodo]
  | cons a c =>
      cases a with
      | await =>
          by_cases hf : s.flag C = 0 <;> constructor <;>
            simp +contextual [State.recvStep, State.setRecvCode, hcode, hf]
      | copy off p =>
          constructor <;> simp +contextual [State.recvStep, State.setRecvCode, hcode]
      | store => constructor <;> simp +contextual [State.recvStep, State.setRecvCode, hcode]
      | ret length => constructor <;> simp +contextual [State.recvStep, State.setRecvCode, hcode]

theorem recvStep_todo (r : R) (s : State R) :
    (s.recvStep C moves r).recvTodo r <:+ s.recvTodo r := by
  cases hcode : s.recvCode r with
  | nil => cases htodo : s.recvTodo r <;> simp [State.recvStep, hcode, htodo]
  | cons a c =>
      cases a with
      | await => by_cases hf : s.flag C = 0 <;> simp [State.recvStep, State.setRecvCode, hcode, hf]
      | copy off p => simp [State.recvStep, State.setRecvCode, hcode]
      | store => simp [State.recvStep, State.setRecvCode, hcode]
      | ret length => simp [State.recvStep, State.setRecvCode, hcode]

theorem recvEvent_idle (h : RecvIdle moves (s.recvCode r)) :
    RecvEvent C moves r s (s.recvStep C moves r) := by
  cases hcode : s.recvCode r with
  | nil =>
      cases htodo : s.recvTodo r with
      | nil =>
          have heq : s.recvStep C moves r = s := by simp [State.recvStep, hcode, htodo]
          rw [heq]
          exact RecvEvent.quiet h h rfl rfl rfl rfl
      | cons length todo =>
          refine RecvEvent.quiet h ?_ ?_ ?_ ?_ ?_ <;>
            simp [State.recvStep, State.setRecvCode, State.asksLeft, hcode, htodo, recvIdle_recv]
  | cons a c =>
      rw [hcode] at h
      generalize hfull : a :: c = full at h
      cases h with
      | nil => simp at hfull
      | @ret length c' h' =>
          rcases List.cons.inj hfull with ⟨rfl, rfl⟩
          refine RecvEvent.quiet (hcode ▸ RecvIdle.ret h') ?_ ?_ ?_ ?_ ?_ <;>
            simp [State.recvStep, State.setRecvCode, State.asksLeft, hcode, h']
      | @chunk off len c' h' =>
          have hcons : a = .await ∧ c = (moves len).map (.copy off) ++ .store :: c' := by
            simpa [recvChunk] using hfull
          rcases hcons with ⟨rfl, rfl⟩
          have hidle : RecvIdle moves (s.recvCode r) := by
            rw [hcode]
            have hchunk : RecvIdle moves (recvChunk moves off len ++ c') := RecvIdle.chunk h'
            simpa [recvChunk] using hchunk
          -- the flag decides whether the receiver begins to copy
          by_cases hf : s.flag C = 0
          · have heq : s.recvStep C moves r = s := by simp [State.recvStep, hcode, hf]
            rw [heq]
            exact RecvEvent.quiet hidle hidle rfl rfl rfl rfl
          · refine RecvEvent.takes off (moves len) hidle ⟨c', h', ?_⟩ hf ?_ ?_ ?_ ?_
            · simp [State.recvStep, State.setRecvCode, hcode, hf]
            · simp [State.recvStep, State.setRecvCode, hcode, hf]
            · simp [State.recvStep, State.setRecvCode, hcode, hf]
            · simp [State.recvStep, State.setRecvCode, hcode, hf]
            · simp [State.recvStep, State.setRecvCode, State.asksLeft, hcode, hf]
              omega

theorem recvEvent_reading {off : Nat} {ps : List Piece}
    (h : RecvReading moves off ps (s.recvCode r)) :
    RecvEvent C moves r s (s.recvStep C moves r) := by
  rcases id h with ⟨c, hc, hcode⟩
  -- with no piece left the next action is the release
  cases ps with
  | nil =>
      refine RecvEvent.stores off h ?_ ?_ ?_ ?_ ?_ <;>
        simp [State.recvStep, State.setRecvCode, State.asksLeft, State.flag, hcode, hc]
  | cons p ps =>
      refine RecvEvent.copies off p ps h ⟨c, hc, ?_⟩ ?_ ?_ ?_ ?_
      · simp [State.recvStep, State.setRecvCode, hcode]
      · simp [State.recvStep, State.setRecvCode, hcode]
      · simp [State.recvStep, State.setRecvCode, hcode]
      · simp [State.recvStep, State.setRecvCode, hcode]
      · have hleft : asked (.copy off p :: (ps.map (.copy off) ++ .store :: c)) =
            asked (ps.map (.copy off) ++ .store :: c) := by simp [asked]
        simp [State.recvStep, State.setRecvCode, State.asksLeft, hcode, hleft]

end Events

end Big
end Ssmp
