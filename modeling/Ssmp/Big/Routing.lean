import Ssmp.Big.Handshake

/-!
# Big.Routing — several receivers at one chunk buffer

A sender has a single chunk buffer for all its destinations, and `ssmp_send_big` uses its argument
`to` for nothing but a debug print.  Whoever calls `ssmp_recv_from_big` takes the next chunk.  A
receiver only gets chunks that were sent to it if and only if the spans it can reach are its own:
the first ones, as many as it asks for.
-/

namespace Ssmp
namespace Big

open Lib

namespace State

variable {R : Type}

/-- Receiver `r` is between the flag read that let it in and the release of the chunk. -/
def Holds (s : State R) (r : R) : Prop :=
  (∃ off p c, s.recvCode r = .copy off p :: c) ∨ ∃ c, s.recvCode r = .store :: c

end State

/-- Every receiver that copies out or releases a chunk is the one the chunk was sent to. -/
def Routed {R : Type} (s : State R) : Prop :=
  ∀ r, s.Holds r → ∃ x, s.begun.getLast? = some x ∧ x.dst = r

section Routing

variable {R : Type} {C : ℕ+} {s t : State R} {r : R}
variable {sends : List (R × List UInt8)} {asks : R → List Nat}

theorem RecvReading.holds {off : Nat} {ps : List Piece}
    (h : RecvReading byteMoves off ps (s.recvCode r)) : s.Holds r := by
  rcases h with ⟨c, _, hcode⟩
  cases ps with
  | nil => exact Or.inr ⟨c, hcode⟩
  | cons p ps => exact Or.inl ⟨off, p, _, hcode⟩

theorem RecvIdle.not_holds (h : RecvIdle byteMoves (s.recvCode r)) : ¬ s.Holds r := by
  rintro (⟨off, p, c, hcode⟩ | ⟨c, hcode⟩)
  · rw [hcode] at h
    generalize hfull : RecvAct.copy off p :: c = code at h
    cases h <;> simp [recvChunk] at hfull
  · rw [hcode] at h
    generalize hfull : RecvAct.store :: c = code at h
    cases h <;> simp [recvChunk] at hfull

/-- A receiver that holds a chunk asked for more than it has released. -/
theorem Ledger.reading_of_holds (hl : Ledger C byteMoves sends asks s) (h : s.Holds r) :
    ∃ off ps, RecvReading byteMoves off ps (s.recvCode r) ∧ s.took r < allAsked C asks r := by
  rcases hl.receivers r with ⟨hidle, _⟩ | ⟨off, ps, hreading, hsum⟩
  · exact absurd h hidle.not_holds
  · exact ⟨off, ps, hreading, by omega⟩

/-- As long as no span has been begun, the flag is 0 and nobody copies. -/
def Untouched (C : ℕ+) (s : State R) : Prop :=
  s.begun = [] → s.flag C = 0 ∧ ∀ r, RecvIdle byteMoves (s.recvCode r)

/-- What holds when `r` is the only receiver that asks for chunks. -/
structure Served (C : ℕ+) (r : R) (s : State R) : Prop where
  begun_le : s.begun.length ≤ s.took r + 1
  /-- A free chunk has been released as often as it has been begun. -/
  free : SendIdle C byteMoves s.sendCode → s.flag C = 0 → s.begun.length ≤ s.took r
  filling : ∀ x p ps, SendCopying C byteMoves x (p :: ps) s.sendCode → s.flag C = 0
  reading : ∀ off ps, RecvReading byteMoves off ps (s.recvCode r) → s.flag C ≠ 0

/-- A step that leaves the flag and the counts as they are, and brings nobody into a chunk. -/
theorem Served.congr (h : Served C r s)
    (hidle : SendIdle C byteMoves t.sendCode → SendIdle C byteMoves s.sendCode)
    (hcopying : ∀ x p ps, SendCopying C byteMoves x (p :: ps) t.sendCode →
      ∃ y q qs, SendCopying C byteMoves y (q :: qs) s.sendCode)
    (hreading : ∀ off ps, RecvReading byteMoves off ps (t.recvCode r) →
      ∃ off qs, RecvReading byteMoves off qs (s.recvCode r))
    (hflag : t.flag C = s.flag C) (hbegun : t.begun = s.begun) (htook : t.took r = s.took r) :
    Served C r t := by
  refine ⟨?_, ?_, ?_, ?_⟩
  · rw [hbegun, htook]
    exact h.begun_le
  · rw [hflag, hbegun, htook]
    exact fun hs => h.free (hidle hs)
  · intro x p ps hs
    rcases hcopying x p ps hs with ⟨y, q, qs, hy⟩
    exact hflag.trans (h.filling y q qs hy)
  · intro off ps hr
    rcases hreading off ps hr with ⟨off', qs, hr'⟩
    exact hflag.trans_ne (h.reading off' qs hr')

theorem Served.sendEvent (h : Served C r s) (hsame : SameReceivers s t)
    (he : SendEvent C byteMoves s t) : Served C r t := by
  have htook : t.took r = s.took r := by rw [hsame.took]
  have hcode : t.recvCode r = s.recvCode r := by rw [hsame.code]
  -- a new span is begun only on a chunk that has been released
  cases he with
  | quiet hs ht hchunk hbegun hstored hleft =>
      apply h.congr (fun _ => hs) _ _ (flag_congr hchunk) hbegun htook
      · exact fun _ _ _ hcopying => absurd hcopying ht.not_copying
      · rw [hcode]
        exact fun off ps hr => ⟨off, ps, hr⟩
  | begins x hs ht hzero hchunk hbegun hstored hleft =>
      refine ⟨?_, ?_, ?_, ?_⟩
      · have hle := h.free hs hzero
        rw [hbegun, List.length_append, List.length_singleton, htook]
        omega
      · exact fun hidle => absurd ht hidle.not_copying
      · exact fun _ _ _ _ => (flag_congr hchunk).trans hzero
      · exact fun off ps hr => absurd hzero (h.reading off ps (hcode ▸ hr))
  | copies x p ps hs ht hchunk hbegun hstored hleft =>
      have hzero : s.flag C = 0 := h.filling x p ps hs
      refine ⟨?_, ?_, ?_, ?_⟩
      · rw [hbegun, htook]
        exact h.begun_le
      · exact fun hidle => absurd ht hidle.not_copying
      · intro y q qs hy
        -- `p` is not the last piece, so it does not reach the flag
        have hp : ¬ p.Has (C - 1) := fun hhas =>
          (ht.head hy).2 (byteMoves_flag hs.len hs.suffix hhas).2
        rw [State.flag, hchunk]
        exact (if_neg hp).trans hzero
      · exact fun off qs hr => absurd hzero (h.reading off qs (hcode ▸ hr))
  | stores x hs ht hset hbegun hstored hleft =>
      have hone : t.flag C ≠ 0 := by
        rw [hset]
        decide
      refine ⟨?_, ?_, ?_, ?_⟩
      · rw [hbegun, htook]
        exact h.begun_le
      · exact fun _ hzero => absurd hzero hone
      · exact fun y q qs hy => absurd hy ht.not_copying
      · exact fun _ _ _ => hone

theorem Served.recvEvent (h : Served C r s) (hsame : SameButReceiver r s t)
    (he : RecvEvent C byteMoves r s t) : Served C r t := by
  have hidle : SendIdle C byteMoves t.sendCode → SendIdle C byteMoves s.sendCode := by
    rw [hsame.sendCode]
    exact id
  have hcopying : ∀ x p ps, SendCopying C byteMoves x (p :: ps) t.sendCode →
      ∃ y q qs, SendCopying C byteMoves y (q :: qs) s.sendCode := by
    rw [hsame.sendCode]
    exact fun x p ps hs => ⟨x, p, ps, hs⟩
  -- a release is the only event that changes the counts
  cases he with
  | quiet hs ht hchunk htakes htook hleft =>
      apply h.congr hidle hcopying _ (flag_congr hchunk) hsame.begun htook
      exact fun _ _ hr => absurd hr ht.not_reading
  | takes off ps hs ht hset hchunk htakes htook hleft =>
      have hflag : t.flag C ≠ 0 := (flag_congr hchunk).trans_ne hset
      refine ⟨?_, ?_, ?_, ?_⟩
      · rw [hsame.begun, htook]
        exact h.begun_le
      · exact fun _ hzero => absurd hzero hflag
      · intro x p qs hs
        rcases hcopying x p qs hs with ⟨y, q, qs', hy⟩
        exact absurd (h.filling y q qs' hy) hset
      · exact fun _ _ _ => hflag
  | copies off p ps hs ht hchunk htakes htook hleft =>
      apply h.congr hidle hcopying _ (flag_congr hchunk) hsame.begun htook
      exact fun _ _ _ => ⟨off, p :: ps, hs⟩
  | stores off hs ht hzero htakes htook hleft =>
      have hle := h.begun_le
      refine ⟨?_, ?_, ?_, ?_⟩
      · rw [hsame.begun, htook]
        omega
      · intro _ _
        rw [hsame.begun, htook]
        exact hle
      · exact fun _ _ _ _ => hzero
      · exact fun off' ps hr => absurd hr ht.not_reading

/-- A step of a receiver that asks for nothing. -/
theorem Served.otherEvent {r' : R} (h : Served C r s)
    (hl : Ledger C byteMoves sends asks s) (hl' : Ledger C byteMoves sends asks t)
    (hr : r ≠ r') (hnone : allAsked C asks r' = 0) (hsame : SameButReceiver r' s t)
    (he : RecvEvent C byteMoves r' s t) : Served C r t := by
  -- such a receiver never gets into a chunk
  have hidle : ∀ {u : State R} {off : Nat} {ps : List Piece}, Ledger C byteMoves sends asks u →
      ¬ RecvReading byteMoves off ps (u.recvCode r') := by
    intro u off ps hu hreading
    rcases hu.reading_of_holds hreading.holds with ⟨_, _, _, hlt⟩
    omega
  cases he with
  | quiet hs ht hchunk htakes htook hleft =>
      apply h.congr _ _ _ (flag_congr hchunk) hsame.begun (hsame.took r hr)
      · rw [hsame.sendCode]
        exact id
      · rw [hsame.sendCode]
        exact fun x p ps hs => ⟨x, p, ps, hs⟩
      · rw [hsame.recvCode r hr]
        exact fun off ps hr => ⟨off, ps, hr⟩
  | takes off ps hs ht hset hchunk htakes htook hleft => exact absurd ht (hidle hl')
  | copies off p ps hs ht hchunk htakes htook hleft => exact absurd hs (hidle hl)
  | stores off hs ht hzero htakes htook hleft => exact absurd hs (hidle hl)

variable [DecidableEq R]

theorem untouched_of_reachable (h : (system C byteMoves sends asks).Reachable s) :
    Untouched C s := by
  apply invariant_of_events (I := Untouched C) _ _ _ h
  · intro s hs _
    refine ⟨hs.flag, ?_⟩
    intro r
    rw [hs.recvCode]
    exact RecvIdle.nil
  · intro s t hl hl' hs hsame he hnone
    rw [hsame.code]
    -- a sender that has not begun a span only makes quiet steps
    cases he with
    | quiet hs' ht hchunk hbegun hstored hleft =>
        rw [flag_congr hchunk]
        exact hs (hbegun ▸ hnone)
    | begins x hs' ht hflag hchunk hbegun hstored hleft => simp [hbegun] at hnone
    | copies x p ps hs' ht hchunk hbegun hstored hleft =>
        rcases hl'.sender with hidle | ⟨y, qs, _, hlast⟩
        · exact absurd ht hidle.not_copying
        · simp [hnone] at hlast
    | stores x hs' ht hflag hbegun hstored hleft =>
        rcases hl.sender with hidle | ⟨y, qs, _, hlast⟩
        · exact absurd hs' hidle.not_copying
        · simp [← hbegun, hnone] at hlast
  · intro s t r hl hl' hs hsame he hnone
    rcases hs (hsame.begun ▸ hnone) with ⟨hflag, hidle⟩
    -- with the flag 0 and nobody copying only a quiet step is left
    cases he with
    | quiet hs' ht hchunk htakes htook hleft =>
        refine ⟨(flag_congr hchunk).trans hflag, ?_⟩
        intro r'
        by_cases hr : r' = r
        · subst hr
          exact ht
        · rw [hsame.recvCode r' hr]
          exact hidle r'
    | takes off ps hs' ht hset hchunk htakes htook hleft => exact absurd hflag hset
    | copies off p ps hs' ht hchunk htakes htook hleft => exact absurd hs' (hidle r).not_reading
    | stores off hs' ht hzero htakes htook hleft => exact absurd hs' (hidle r).not_reading

theorem served_of_reachable (hothers : ∀ r', r' ≠ r → allAsked C asks r' = 0)
    (h : (system C byteMoves sends asks).Reachable s) : Served C r s := by
  apply invariant_of_events (I := Served C r) _ _ _ h
  · intro s hs
    refine ⟨by simp [hs.begun], by simp [hs.begun], ?_, ?_⟩
    · intro _ _ _ _
      exact hs.flag
    · intro off ps hreading
      rw [hs.recvCode] at hreading
      exact absurd hreading RecvIdle.nil.not_reading
  · exact fun s t _ _ hs hsame he => hs.sendEvent hsame he
  · intro s t r' hl hl' hs hsame he
    -- the steps of the others are quiet
    by_cases hr : r' = r
    · subst hr
      exact hs.recvEvent hsame he
    · exact hs.otherEvent hl hl' (Ne.symm hr) (hothers r' hr) hsame he

/-- If every receiver's share of the spans is its own, no chunk goes astray. -/
theorem routed_of_reachable
    (hown : ∀ r, ∀ x ∈ (allSpans C sends).take (allAsked C asks r), x.dst = r)
    (h : (system C byteMoves sends asks).Reachable s) : Routed s := by
  intro r hholds
  have hl := ledger_of_reachable h
  rcases hl.reading_of_holds hholds with ⟨off, ps, hreading, hlt⟩
  rcases hbegun : s.begun with _ | ⟨x₀, begun⟩
  · exact absurd hreading ((untouched_of_reachable h hbegun).2 r).not_reading
  · -- the first span is in everybody's share, so nobody else asks for anything
    have hfirst : ∀ r', 0 < allAsked C asks r' → x₀.dst = r' := by
      intro r' hpos
      apply hown r' x₀
      rw [← hl.spans, hbegun]
      rcases Nat.exists_eq_add_of_lt hpos with ⟨a, ha⟩
      rw [ha, Nat.zero_add, List.cons_append, List.take_succ_cons]
      exact List.mem_cons_self
    have hothers : ∀ r', r' ≠ r → allAsked C asks r' = 0 := by
      intro r' hne
      by_contra hpos
      exact hne ((hfirst r' (by omega)).symm.trans (hfirst r (by omega)))
    -- at most one span is begun beyond those released, so the last one is in the share of `r`
    have hle := (served_of_reachable hothers h).begun_le
    have hne : s.begun ≠ [] := by simp [hbegun]
    refine ⟨s.begun.getLast hne, by rw [← hbegun]; exact List.getLast?_eq_some_getLast hne, ?_⟩
    apply hown r
    have hprefix : s.begun <+: (allSpans C sends).take (allAsked C asks r) := by
      rw [← hl.spans, List.prefix_take_iff]
      exact ⟨List.prefix_append _ _, by omega⟩
    exact hprefix.subset (List.getLast_mem hne)

/-- A receiver gets every span of its share, wherever it was sent. -/
theorem exists_taken {k : Nat} (hk : k < (allSpans C sends).length) (hasks : k < allAsked C asks r) :
    ∃ s, (system C byteMoves sends asks).Reachable s ∧ s.Holds r ∧
      s.begun.getLast? = some ((allSpans C sends)[k]) := by
  have hexchanged : ∃ s, (system C byteMoves sends asks).Reachable s ∧
      Exchanged C byteMoves r (allSpans C sends) (allAsked C asks r) k s :=
    exchanged_reachable (Nat.le_of_lt hk) (Nat.le_of_lt hasks)
  rcases hexchanged with ⟨s, hreach, hs⟩
  rcases hs.publish (List.drop_eq_getElem_cons hk) with
    ⟨t, u, hst, _, _, _, _, htu, _, hset, hbegun, _⟩
  have hrun := hst.trans htu
  have hsame := hrun.sameReceivers
  have hrecv : RecvIdle byteMoves (u.recvCode r) := by
    rw [hsame.code]
    exact hs.receiver
  have hflag : u.flag C ≠ 0 := by
    rw [hset]
    decide
  have hleft : u.asksLeft C r = (allAsked C asks r - k - 1) + 1 := by
    have hall := hs.asksLeft
    rw [hsame.asksLeft]
    omega
  -- whatever its destination, the chunk is published and `r` takes it
  rcases receiver_takes hrecv hflag hleft with ⟨off, len, v, hv⟩
  refine ⟨v, (hreach.steps hrun.steps).steps hv.run.steps, hv.reading.holds, ?_⟩
  rw [hv.run.sameButReceiver.begun, hbegun, ← List.take_append_getElem hk]
  exact List.getLast?_concat

end Routing

/-- Big messages are routed correctly in every run if and only if, for every receiver, as many of
the sender's first chunks as the receiver asks for are all sent to it. -/
theorem routed_iff {R : Type} [DecidableEq R] (C : ℕ+) (sends : List (R × List UInt8))
    (asks : R → List Nat) :
    (∀ s, (system C byteMoves sends asks).Reachable s → Routed s) ↔
      ∀ r, ∀ x ∈ (allSpans C sends).take (allAsked C asks r), x.dst = r := by
  constructor
  · intro hall r x hx
    rcases List.mem_take_iff_getElem.1 hx with ⟨k, hk, rfl⟩
    rcases exists_taken (show k < (allSpans C sends).length by omega)
      (show k < allAsked C asks r by omega) with ⟨s, hreach, hholds, hlast⟩
    rcases hall s hreach r hholds with ⟨y, hy, hdst⟩
    rw [hlast] at hy
    rcases Option.some.inj hy with rfl
    exact hdst
  · intro hown s hreach
    exact routed_of_reachable hown hreach

/-- A byte sent to process 1 is taken by process 2. -/
theorem taken_by_other :
    ¬ ∀ s, (system ssmpChunkSize byteMoves [((1 : Fin 3), [0])]
        fun r => if r = 2 then [1] else []).Reachable s → Routed s := by
  intro hall
  have hspans : allSpans ssmpChunkSize [((1 : Fin 3), [0])] = [⟨1, [0], 0, 1⟩] := rfl
  have hasks : allAsked ssmpChunkSize (fun r : Fin 3 => if r = 2 then [1] else []) 2 = 1 := rfl
  rcases exists_taken (C := ssmpChunkSize) (k := 0) (by rw [hspans]; decide)
    (by rw [hasks]; decide) with ⟨s, hreach, hholds, hlast⟩
  rcases hall s hreach 2 hholds with ⟨x, hx, hdst⟩
  rw [hlast] at hx
  rcases Option.some.inj hx with rfl
  exact absurd (show (1 : Fin 3) = 2 from hdst) (by decide)

end Big
end Ssmp
