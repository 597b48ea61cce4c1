import Mathlib.Logic.Function.Iterate
import Ssmp.Big.Ledger

/-!
# Big.Runs — one party running alone

What the chunk buffer and the receiver's buffer hold after a party has run through the copies of a
chunk without interruption, and the runs in which the parties take turns chunk by chunk.
-/

namespace Ssmp
namespace Big

open Lib

section Runs

variable {R : Type} {C : ℕ+} {moves : Nat → List Piece} {s : State R}

/-! ## Copies without interruption -/

/-- The chunk after the pieces `ps` of the span `x` have been copied into it. -/
def copied (x : Span R) (ps : List Piece) (chunk : Nat → UInt8) : Nat → UInt8 :=
  ps.foldl (fun chunk p => fun b => if p.Has b then x.data.getD (x.off + b) 0 else chunk b) chunk

/-- The buffer after the pieces `ps` of the chunk have been copied out to `buf + off`. -/
def fetched (off : Nat) (ps : List Piece) (chunk buf : Nat → UInt8) : Nat → UInt8 :=
  ps.foldl (fun buf p => fun y => if off ≤ y ∧ p.Has (y - off) then chunk (y - off) else buf y) buf

theorem copied_apply (x : Span R) (ps : List Piece) (chunk : Nat → UInt8) (b : Nat) :
    copied x ps chunk b =
      if ∃ p ∈ ps, p.Has b then x.data.getD (x.off + b) 0 else chunk b := by
  induction ps generalizing chunk with
  | nil => simp [copied]
  | cons p ps ih =>
      have hstep : copied x (p :: ps) chunk b =
          copied x ps (fun b => if p.Has b then x.data.getD (x.off + b) 0 else chunk b) b := rfl
      rw [hstep, ih]
      -- a later piece brings the same byte again
      by_cases hlater : ∃ q ∈ ps, q.Has b
      · rw [if_pos hlater, if_pos]
        rcases hlater with ⟨q, hq, hb⟩
        exact ⟨q, List.mem_cons_of_mem p hq, hb⟩
      · rw [if_neg hlater]
        by_cases hp : p.Has b
        · rw [if_pos hp, if_pos ⟨p, List.mem_cons_self, hp⟩]
        · rw [if_neg hp, if_neg]
          rintro ⟨q, hq, hb⟩
          rcases List.mem_cons.1 hq with rfl | hmem
          · exact hp hb
          · exact hlater ⟨q, hmem, hb⟩

/-- The sender runs through the copies of its chunk. -/
theorem iterate_copies (x : Span R) (ps : List Piece) {c : List (SendAct R)}
    (hcode : s.sendCode = ps.map (.copy x) ++ c) :
    (State.sendStep C moves)^[ps.length] s =
      { s with sendCode := c, chunk := copied x ps s.chunk } := by
  -- by induction on the pieces, with the state after the first one
  induction ps generalizing s with
  | nil =>
      have hc : s.sendCode = c := by simpa using hcode
      simp [copied, ← hc]
  | cons p ps ih =>
      have hstep : s.sendStep C moves =
          { s with
            sendCode := ps.map (.copy x) ++ c
            chunk := fun b => if p.Has b then x.data.getD (x.off + b) 0 else s.chunk b } := by
        simp [State.sendStep, hcode]
      rw [List.length_cons, Function.iterate_succ_apply, hstep, ih rfl]
      rfl

/-- The sender runs through a chunk that it finds free. -/
theorem iterate_sendChunk (x : Span R) {c : List (SendAct R)}
    (hcode : s.sendCode = sendChunk moves x ++ c) (hflag : s.flag C = 0) :
    (State.sendStep C moves)^[(moves x.len).length + 2] s =
      { s with
        sendCode := c
        chunk := Function.update (copied x (moves x.len) s.chunk) (C - 1) 1
        begun := s.begun ++ [x]
        stored := s.stored + 1 } := by
  have hawait : s.sendStep C moves =
      { s with
        sendCode := (moves x.len).map (.copy x) ++ .store :: c
        begun := s.begun ++ [x] } := by
    simp [State.sendStep, hcode, sendChunk, hflag]
  rw [Function.iterate_succ_apply, hawait, Function.iterate_succ_apply', iterate_copies x _ rfl]
  rfl

variable [DecidableEq R] {r : R}

/-- Receiver `r` runs through the copies of its chunk. -/
theorem iterate_fetches (off : Nat) (ps : List Piece) {c : List RecvAct}
    (hcode : s.recvCode r = ps.map (.copy off) ++ c) :
    (State.recvStep C moves r)^[ps.length] s =
      { s.setRecvCode r c with
        buf := Function.update s.buf r (fetched off ps s.chunk (s.buf r)) } := by
  induction ps generalizing s with
  | nil =>
      have hc : s.recvCode r = c := by simpa using hcode
      simp [fetched, State.setRecvCode, ← hc]
  | cons p ps ih =>
      have hstep : s.recvStep C moves r =
          { s.setRecvCode r (ps.map (.copy off) ++ c) with
            buf := Function.update s.buf r fun y =>
              if off ≤ y ∧ p.Has (y - off) then s.chunk (y - off) else s.buf r y } := by
        simp [State.recvStep, hcode]
      rw [List.length_cons, Function.iterate_succ_apply, hstep, ih (by simp [State.setRecvCode])]
      simp [State.setRecvCode, fetched]

/-- Receiver `r` runs through a chunk that it finds published. -/
theorem iterate_recvChunk (off len : Nat) {c : List RecvAct}
    (hcode : s.recvCode r = recvChunk moves off len ++ c) (hflag : s.flag C ≠ 0) :
    (State.recvStep C moves r)^[(moves len).length + 2] s =
      { s.setRecvCode r c with
        chunk := Function.update s.chunk (C - 1) 0
        buf := Function.update s.buf r (fetched off (moves len) s.chunk (s.buf r))
        takes := s.takes ++ [(s.stored, s.begun.length)]
        took := Function.update s.took r (s.took r + 1) } := by
  have hawait : s.recvStep C moves r =
      { s.setRecvCode r ((moves len).map (.copy off) ++ .store :: c) with
        takes := s.takes ++ [(s.stored, s.begun.length)] } := by
    simp [State.recvStep, hcode, recvChunk, hflag]
  rw [Function.iterate_succ_apply, hawait, Function.iterate_succ_apply',
    iterate_fetches (c := .store :: c) off (moves len) (by simp [State.setRecvCode])]
  simp [State.recvStep, State.setRecvCode]

/-! ## A party alone -/

/-- Steps of `party` alone lead from `s` to `t`. -/
def Alone (C : ℕ+) (moves : Nat → List Piece) (party : Party R) (s t : State R) : Prop :=
  ∃ k, (State.step C moves party)^[k] s = t

variable {t u : State R} {party : Party R}

theorem Alone.refl (s : State R) : Alone C moves party s s :=
  ⟨0, rfl⟩

theorem Alone.head (h : Alone C moves party (s.step C moves party) t) :
    Alone C moves party s t := by
  rcases h with ⟨k, hk⟩
  exact ⟨k + 1, hk⟩

theorem Alone.trans (h : Alone C moves party s t) (h' : Alone C moves party t u) :
    Alone C moves party s u := by
  rcases h with ⟨k, rfl⟩
  rcases h' with ⟨k', rfl⟩
  exact ⟨k' + k, Function.iterate_add_apply _ k' k s⟩

theorem Alone.steps {sends : List (R × List UInt8)} {asks : R → List Nat}
    (h : Alone C moves party s t) : (system C moves sends asks).Steps s t := by
  rcases h with ⟨k, rfl⟩
  induction k with
  | zero => exact Relation.ReflTransGen.refl
  | succ k ih =>
      rw [Function.iterate_succ_apply']
      exact Relation.ReflTransGen.tail ih ⟨party, rfl⟩

theorem Alone.sameReceivers (h : Alone C moves .sender s t) : SameReceivers s t := by
  rcases h with ⟨k, rfl⟩
  induction k with
  | zero => exact ⟨rfl, rfl, rfl, rfl⟩
  | succ k ih =>
      rw [Function.iterate_succ_apply']
      have hlast : SameReceivers _ (State.sendStep C moves _) :=
        sendStep_same ((State.step C moves .sender)^[k] s)
      exact ⟨hlast.code.trans ih.code, hlast.todo.trans ih.todo, hlast.takes.trans ih.takes,
        hlast.took.trans ih.took⟩

theorem Alone.sameButReceiver (h : Alone C moves (.receiver r) s t) : SameButReceiver r s t := by
  rcases h with ⟨k, rfl⟩
  induction k with
  | zero =>
      exact ⟨rfl, rfl, rfl, rfl, fun _ _ => rfl, fun _ _ => rfl, fun _ _ => rfl⟩
  | succ k ih =>
      rw [Function.iterate_succ_apply']
      have hlast : SameButReceiver r _ (State.recvStep C moves r _) :=
        recvStep_same r ((State.step C moves (.receiver r))^[k] s)
      exact ⟨hlast.sendCode.trans ih.sendCode, hlast.sendTodo.trans ih.sendTodo,
        hlast.begun.trans ih.begun, hlast.stored.trans ih.stored,
        fun r' hr => (hlast.recvCode r' hr).trans (ih.recvCode r' hr),
        fun r' hr => (hlast.recvTodo r' hr).trans (ih.recvTodo r' hr),
        fun r' hr => (hlast.took r' hr).trans (ih.took r' hr)⟩

/-! ### The sender -/

/-- The sender alone runs from `s` to the first copy of its next span `x`. -/
structure Begins (C : ℕ+) (moves : Nat → List Piece) (x : Span R) (s t : State R) : Prop where
  run : Alone C moves .sender s t
  copying : SendCopying C moves x (moves x.len) t.sendCode
  chunk : t.chunk = s.chunk
  begun : t.begun = s.begun ++ [x]
  stored : t.stored = s.stored
  left : s.spansLeft C = x :: t.spansLeft C

/-- Between chunks a sender that finds the flag 0 runs to its next chunk or to the end of its
call. -/
theorem sendIdle_next (h : SendIdle C moves s.sendCode) (hflag : s.flag C = 0) :
    (awaited s.sendCode = [] ∧ Alone C moves .sender s { s with sendCode := [] }) ∨
      ∃ x t, Begins C moves x s t := by
  -- by induction on the code that is left of the call
  generalize hcode : s.sendCode = code at h
  induction h generalizing s with
  | nil =>
      left
      refine ⟨rfl, ?_⟩
      rw [← hcode]
      exact Alone.refl s
  | @ret c hc ih =>
      -- a return is a step on its own, and the call may go on
      have hstep : s.step C moves .sender = { s with sendCode := c } := by
        simp [State.step, State.sendStep, hcode]
      rcases ih (s := { s with sendCode := c }) hflag rfl with ⟨hnone, hrun⟩ | ⟨x, t, hx⟩
      · left
        refine ⟨hnone, Alone.head ?_⟩
        rw [hstep]
        exact hrun
      · right
        refine ⟨x, t, Alone.head ?_, hx.copying, hx.chunk, hx.begun, hx.stored, ?_⟩
        · rw [hstep]
          exact hx.run
        · simpa [State.spansLeft, hcode] using hx.left
  | @chunk x c hlen hc _ =>
      have hstep : s.step C moves .sender =
          { s with
            sendCode := (moves x.len).map (.copy x) ++ .store :: c
            begun := s.begun ++ [x] } := by
        simp [State.step, State.sendStep, hcode, sendChunk, hflag]
      right
      refine ⟨x, _, Alone.head (Alone.refl _), ?_, ?_, ?_, ?_, ?_⟩
      · rw [hstep]
        exact ⟨hlen, List.suffix_refl _, c, hc, rfl⟩
      · rw [hstep]
      · rw [hstep]
      · rw [hstep]
      · simp [hstep, State.spansLeft, hcode, sendChunk]

/-- A sender with spans left that finds the flag 0 runs to the next one. -/
theorem sender_begins {x : Span R} {rest : List (Span R)} (h : SendIdle C moves s.sendCode)
    (hflag : s.flag C = 0) (hleft : s.spansLeft C = x :: rest) :
    ∃ t, Begins C moves x s t ∧ t.spansLeft C = rest := by
  -- the calls that are left bound how often the sender can find its code at the end
  generalize htodo : s.sendTodo = todo
  induction todo generalizing s with
  | nil =>
      rcases sendIdle_next h hflag with ⟨hnone, _⟩ | ⟨y, t, hy⟩
      · simp [State.spansLeft, hnone, htodo] at hleft
      · rcases List.cons.inj (hy.left.symm.trans hleft) with ⟨rfl, hrest⟩
        exact ⟨t, hy, hrest⟩
  | cons m todo ih =>
      rcases m with ⟨dst, data⟩
      rcases sendIdle_next h hflag with ⟨hnone, hrun⟩ | ⟨y, t, hy⟩
      · let called : State R :=
          { s with sendTodo := todo, sendCode := ssmpSendBigPlatf C moves dst data }
        have hcall : State.step C moves .sender { s with sendCode := [] } = called := by
          simp [State.step, State.sendStep, htodo, called]
        have hspans : s.spansLeft C = called.spansLeft C := by
          simp [State.spansLeft, called, hnone, htodo]
        rcases ih (s := called) (sendIdle_send dst data) hflag (hspans ▸ hleft) rfl with
          ⟨t, ht, hrest⟩
        refine ⟨t, ⟨hrun.trans (Alone.head ?_), ht.copying, ht.chunk, ht.begun, ht.stored, ?_⟩, hrest⟩
        · rw [hcall]
          exact ht.run
        · rw [hspans]
          exact ht.left
      · rcases List.cons.inj (hy.left.symm.trans hleft) with ⟨rfl, hrest⟩
        exact ⟨t, hy, hrest⟩

/-- The sender copies the whole of `x`. -/
theorem sender_copies {x : Span R} {ps : List Piece} (h : SendCopying C moves x ps s.sendCode) :
    ∃ t, Alone C moves .sender s t ∧ SendCopying C moves x [] t.sendCode ∧
      t.chunk = copied x ps s.chunk ∧ t.begun = s.begun ∧ t.stored = s.stored ∧
      t.spansLeft C = s.spansLeft C := by
  rcases h.rest with ⟨c, hc, hcode⟩
  have hiter : (State.sendStep C moves)^[ps.length] s = _ := iterate_copies x ps hcode
  refine ⟨_, ⟨ps.length, hiter⟩, ⟨h.len, List.nil_suffix, c, hc, rfl⟩, rfl, rfl, rfl, ?_⟩
  simp [State.spansLeft, hcode]

/-- The sender publishes the chunk it has copied. -/
theorem sender_stores {x : Span R} (h : SendCopying C moves x [] s.sendCode) :
    ∃ t, Alone C moves .sender s t ∧ SendIdle C moves t.sendCode ∧ t.flag C = 1 ∧
      t.begun = s.begun ∧ t.stored = s.stored + 1 ∧ t.spansLeft C = s.spansLeft C := by
  rcases h.rest with ⟨c, hc, hcode⟩
  refine ⟨_, Alone.head (Alone.refl _), ?_⟩
  have hstep : s.step C moves .sender =
      { s with sendCode := c, chunk := Function.update s.chunk (C - 1) 1, stored := s.stored + 1 } := by
    simp [State.step, State.sendStep, hcode]
  rw [hstep]
  exact ⟨hc, by simp [State.flag], rfl, rfl, by simp [State.spansLeft, hcode]⟩

/-! ### A receiver -/

/-- Receiver `r` alone runs from `s` to the first copy of its next chunk. -/
structure Takes (C : ℕ+) (moves : Nat → List Piece) (r : R) (off len : Nat) (s t : State R) :
    Prop where
  run : Alone C moves (.receiver r) s t
  reading : RecvReading moves off (moves len) (t.recvCode r)
  chunk : t.chunk = s.chunk
  takes : t.takes = s.takes ++ [(s.stored, s.begun.length)]
  took : t.took r = s.took r
  left : s.asksLeft C r = t.asksLeft C r + 1

/-- Between chunks a receiver that finds the flag set runs to its next chunk or to the end of its
call. -/
theorem recvIdle_next (h : RecvIdle moves (s.recvCode r)) (hflag : s.flag C ≠ 0) :
    (asked (s.recvCode r) = 0 ∧
      ∃ returned, Alone C moves (.receiver r) s { s.setRecvCode r [] with returned := returned }) ∨
      ∃ off len t, Takes C moves r off len s t := by
  -- as for the sender; a return also records what has been received
  generalize hcode : s.recvCode r = code at h
  induction h generalizing s with
  | nil =>
      left
      refine ⟨rfl, s.returned, ?_⟩
      have hsame : { s.setRecvCode r [] with returned := s.returned } = s := by
        simp [State.setRecvCode, ← hcode]
      rw [hsame]
      exact Alone.refl s
  | @ret length c hc ih =>
      let after : State R :=
        { s.setRecvCode r c with
          returned := Function.update s.returned r
            (s.returned r ++ [(List.range length).map (s.buf r)]) }
      have hstep : s.step C moves (.receiver r) = after := by
        simp [State.step, State.recvStep, hcode, after]
      rcases ih (s := after) hflag (by simp [after, State.setRecvCode]) with
        ⟨hnone, returned, hrun⟩ | ⟨off, len, t, ht⟩
      · left
        refine ⟨by simpa using hnone, returned, Alone.head ?_⟩
        rw [hstep]
        simpa [after, State.setRecvCode] using hrun
      · right
        refine ⟨off, len, t, Alone.head ?_, ht.reading, ht.chunk, ht.takes, ht.took, ?_⟩
        · rw [hstep]
          exact ht.run
        · have hleft := ht.left
          simp only [State.asksLeft, after, State.setRecvCode, Function.update_self] at hleft
          simpa [State.asksLeft, hcode] using hleft
  | @chunk off len c hc _ =>
      have hstep : s.step C moves (.receiver r) =
          { s.setRecvCode r ((moves len).map (.copy off) ++ .store :: c) with
            takes := s.takes ++ [(s.stored, s.begun.length)] } := by
        simp [State.step, State.recvStep, hcode, recvChunk, hflag]
      right
      refine ⟨off, len, _, Alone.head (Alone.refl _), ?_, ?_, ?_, ?_, ?_⟩
      · rw [hstep]
        exact ⟨c, hc, by simp [State.setRecvCode]⟩
      · rw [hstep]
        rfl
      · rw [hstep]
      · rw [hstep]
        rfl
      · simp [hstep, State.asksLeft, State.setRecvCode, hcode, recvChunk]
        omega

/-- A receiver with chunks left that finds the flag set runs to the next one. -/
theorem receiver_takes {a : Nat} (h : RecvIdle moves (s.recvCode r)) (hflag : s.flag C ≠ 0)
    (hleft : s.asksLeft C r = a + 1) : ∃ off len t, Takes C moves r off len s t := by
  -- by induction on the calls that are left, as for the sender
  generalize htodo : s.recvTodo r = todo
  induction todo generalizing s with
  | nil =>
      rcases recvIdle_next h hflag with ⟨hnone, _⟩ | hnext
      · simp [State.asksLeft, hnone, htodo] at hleft
      · exact hnext
  | cons length todo ih =>
      rcases recvIdle_next h hflag with ⟨hnone, returned, hrun⟩ | hnext
      · let ended : State R := { s.setRecvCode r [] with returned := returned }
        let called : State R :=
          { ended.setRecvCode r (ssmpRecvFromBigPlatf C moves length) with
            recvTodo := Function.update s.recvTodo r todo }
        have hcall : State.step C moves (.receiver r) ended = called := by
          simp [State.step, State.recvStep, State.setRecvCode, htodo, ended, called]
        have hasks : called.asksLeft C r = s.asksLeft C r := by
          simp [State.asksLeft, State.setRecvCode, called, ended, hnone, htodo]
        rcases ih (s := called) (by simp [called, State.setRecvCode, recvIdle_recv]) hflag
          (hasks.trans hleft) (by simp [called]) with ⟨off, len, t, ht⟩
        refine ⟨off, len, t, hrun.trans (Alone.head ?_), ht.reading, ht.chunk, ht.takes, ht.took, ?_⟩
        · rw [hcall]
          exact ht.run
        · rw [← hasks]
          exact ht.left
      · exact hnext

/-- The receiver copies the rest of its chunk and releases it. -/
theorem receiver_releases {off : Nat} {ps : List Piece} (h : RecvReading moves off ps (s.recvCode r)) :
    ∃ t, Alone C moves (.receiver r) s t ∧ RecvIdle moves (t.recvCode r) ∧ t.flag C = 0 ∧
      t.takes = s.takes ∧ t.took r = s.took r + 1 ∧ t.asksLeft C r = s.asksLeft C r := by
  rcases h with ⟨c, hc, hcode⟩
  have hiter : (State.recvStep C moves r)^[ps.length] s = _ := iterate_fetches off ps hcode
  have hcopied : Alone C moves (.receiver r) s _ := ⟨ps.length, hiter⟩
  refine ⟨_, hcopied.trans (Alone.head (Alone.refl _)), ?_⟩
  simp [State.step, State.recvStep, State.setRecvCode, State.flag, State.asksLeft, hcode, hc]

/-! ### Sender and receiver in turn -/

/-- The sender and receiver `r` have passed `k` chunks on to each other, and the next one is to be
sent. -/
structure Exchanged (C : ℕ+) (moves : Nat → List Piece) (r : R) (all : List (Span R)) (total : Nat)
    (k : Nat) (s : State R) : Prop where
  sender : SendIdle C moves s.sendCode
  receiver : RecvIdle moves (s.recvCode r)
  flag : s.flag C = 0
  begun : s.begun = all.take k
  stored : s.stored = k
  spansLeft : s.spansLeft C = all.drop k
  asksLeft : s.asksLeft C r + k = total

variable {all : List (Span R)} {total k : Nat}

/-- The sender copies and publishes the next span. -/
theorem Exchanged.publish {x : Span R} {rest : List (Span R)}
    (h : Exchanged C moves r all total k s) (hx : all.drop k = x :: rest) :
    ∃ t u, Alone C moves .sender s t ∧ SendCopying C moves x [] t.sendCode ∧
      t.chunk = copied x (moves x.len) s.chunk ∧ t.begun = all.take (k + 1) ∧ t.stored = k ∧
      Alone C moves .sender t u ∧ SendIdle C moves u.sendCode ∧ u.flag C = 1 ∧
      u.begun = all.take (k + 1) ∧ u.stored = k + 1 ∧ u.spansLeft C = rest := by
  have htake : all.take (k + 1) = all.take k ++ [x] := by
    have hk : all[k]? = some x := by
      have hhead : (all.drop k)[0]? = some x := by simp [hx]
      simpa using hhead
    rw [List.take_add_one, hk]
    rfl
  -- begin, copy and store, one after the other
  rcases sender_begins h.sender h.flag (h.spansLeft.trans hx) with ⟨s', hbegins, hrest⟩
  rcases sender_copies hbegins.copying with ⟨t, hrun, hcopying, hchunk, hbegun, hstored, hleft⟩
  rcases sender_stores hcopying with ⟨u, hrun', hidle, hflag, hbegun', hstored', hleft'⟩
  have ht : t.begun = all.take (k + 1) := by rw [hbegun, hbegins.begun, h.begun, htake]
  have hk : t.stored = k := by rw [hstored, hbegins.stored, h.stored]
  refine ⟨t, u, hbegins.run.trans hrun, hcopying, ?_, ht, hk, hrun', hidle, hflag, ?_, ?_, ?_⟩
  · rw [hchunk, hbegins.chunk]
  · rw [hbegun', ht]
  · rw [hstored', hk]
  · rw [hleft', hleft, hrest]

/-- As long as there are spans to send and chunks to ask for, the two can go on. -/
theorem exchanged_reachable {sends : List (R × List UInt8)} {asks : R → List Nat}
    (hspans : k ≤ (allSpans C sends).length)
    (hasks : k ≤ (allAsked C asks r)) :
    ∃ s, (system C moves sends asks).Reachable s ∧
      Exchanged C moves r (allSpans C sends)
        (allAsked C asks r) k s := by
  induction k with
  | zero =>
      have hinit := State.init_fresh C sends asks
      refine ⟨State.fresh sends asks, TransSys.Reachable.init hinit, SendIdle.nil, RecvIdle.nil,
        hinit.flag, rfl, rfl, ?_, ?_⟩
      · simp [State.spansLeft, State.fresh, allSpans]
      · simp [State.asksLeft, State.fresh, allAsked]
  | succ k ih =>
      rcases ih (by omega) (by omega) with ⟨s, hreach, hs⟩
      rcases hcons : (allSpans C sends).drop k with _ | ⟨x, rest⟩
      · have hlen := List.drop_eq_nil_iff.1 hcons
        omega
      rcases hs.publish hcons with
        ⟨t, u, hst, _, _, _, _, htu, hidle, hflag, hbegun, hstored, hleft⟩
      -- the receiver has not moved since `s`
      have hsame := (hst.trans htu).sameReceivers
      have hreachU := (hreach.steps hst.steps).steps htu.steps
      have hrecv : RecvIdle moves (u.recvCode r) := by
        rw [hsame.code]
        exact hs.receiver
      have hset : u.flag C ≠ 0 := by
        rw [hflag]
        decide
      rcases Nat.exists_eq_add_of_lt (show 0 < u.asksLeft C r by
        rw [hsame.asksLeft]
        have hall := hs.asksLeft
        omega) with ⟨a, ha⟩
      -- the receiver finds the chunk published and takes it
      rcases receiver_takes hrecv hset (by omega : u.asksLeft C r = a + 1) with ⟨off, len, v, hv⟩
      rcases receiver_releases hv.reading with ⟨w, hvw, hwidle, hwflag, _, _, hwleft⟩
      -- nor has the sender moved while the receiver ran
      have hsender := (hv.run.trans hvw).sameButReceiver
      refine ⟨w, (hreachU.steps hv.run.steps).steps hvw.steps, ?_, hwidle, hwflag, ?_, ?_, ?_, ?_⟩
      · rw [hsender.sendCode]
        exact hidle
      · rw [hsender.begun, hbegun]
      · rw [hsender.stored, hstored]
      · rw [hsender.spansLeft, hleft, ← List.drop_drop, hcons, List.drop_one, List.tail_cons]
      · have hall := hs.asksLeft
        have hask := hsame.asksLeft (C := C) r
        have hone := hv.left
        omega

end Runs

end Big
end Ssmp
