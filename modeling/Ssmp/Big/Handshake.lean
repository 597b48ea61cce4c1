import Ssmp.Big.Runs

/-!
# Big.Handshake — one sender, one receiver, any interleaving

Sender and receiver make matching calls, and every `memcpy` goes byte by byte in ascending order.
The copy of a full chunk ends with the state byte.  If it copies a 0 there, the flag only changes by
the explicit stores, and the chunks are handed over one by one (`Phase`).  If it copies anything
else, the receiver may take the chunk before the store, and then a second time after it.
-/

namespace Ssmp
namespace Big

open Lib

/-! ## Bytes and the flag -/

/-- The copy of `x` leaves a 0 in the state byte, or does not reach it. -/
def Span.Quiet {R : Type} (C : ℕ+) (x : Span R) : Prop :=
  x.len = C → x.data.getD (x.off + (C - 1)) 0 = 0

section Quiet

variable {R : Type} {C : ℕ+}

/-- The state byte is the last byte that a copy in ascending order can touch. -/
theorem byteMoves_flag {len : Nat} {p : Piece} {ps : List Piece} (hlen : len ≤ C)
    (h : (p :: ps) <:+ byteMoves len) (hp : p.Has (C - 1)) : len = C ∧ ps = [] := by
  have hC : 0 < (C : Nat) := C.pos
  have hord : (byteMoves len).Pairwise fun q q' => q.off < q'.off := by
    simp only [byteMoves, List.pairwise_map]
    exact List.pairwise_lt_range
  have hbyte : ∀ q ∈ p :: ps, q.off < len ∧ q.len = 1 := by
    intro q hq
    have hmem := h.subset hq
    simp only [byteMoves, List.mem_map, List.mem_range] at hmem
    rcases hmem with ⟨b, hb, rfl⟩
    exact ⟨hb, rfl⟩
  have hoff := hbyte p List.mem_cons_self
  simp only [Piece.Has, hoff.2] at hp
  refine ⟨by omega, List.eq_nil_iff_forall_not_mem.2 ?_⟩
  intro q hq
  -- a later piece would have a larger offset than the last byte
  have hlt := List.rel_of_pairwise_cons (hord.sublist h.sublist) hq
  have hq' := hbyte q (List.mem_cons_of_mem p hq)
  omega

/-- The spans of a message are quiet when the last bytes of its full chunks are 0. -/
theorem quiet_spans_iff {dst : R} {data : List UInt8} :
    (∀ x ∈ spans C dst data, x.Quiet C) ↔
      ∀ i < data.length / C, data.getD (i * C + (C - 1)) 0 = 0 := by
  have hmod : data.length % C ≠ C := Nat.ne_of_lt (Nat.mod_lt _ C.pos)
  constructor
  · intro h i hi
    exact h ⟨dst, data, i * C, C⟩ (mem_spans.2 (Or.inl ⟨i, hi, rfl⟩)) rfl
  · intro h x hx hlen
    -- the last chunk is shorter than `C`, so only the full ones matter
    rcases mem_spans.1 hx with ⟨i, hi, rfl⟩ | ⟨_, rfl⟩
    · exact h i hi
    · exact absurd hlen hmod

theorem quiet_allSpans_iff {msgs : List (List UInt8)} :
    (∀ x ∈ allSpans C (sendsOf msgs), x.Quiet C) ↔
      ∀ m ∈ msgs, ∀ i < m.length / C, m.getD (i * C + (C - 1)) 0 = 0 := by
  simp only [allSpans, sendsOf, List.mem_flatMap, List.mem_map]
  constructor
  · intro h m hm
    exact quiet_spans_iff.1 fun x hx => h x ⟨((), m), ⟨m, hm, rfl⟩, hx⟩
  · rintro h x ⟨_, ⟨m, hm, rfl⟩, hx⟩
    exact quiet_spans_iff.2 (h m hm) x hx

/-- The flag after the whole of a span has been copied. -/
theorem copied_flag (x : Span R) (chunk : Nat → UInt8) (hlen : x.len = C) :
    copied x (byteMoves x.len) chunk (C - 1) = x.data.getD (x.off + (C - 1)) 0 := by
  have hC : 0 < (C : Nat) := C.pos
  -- among the bytes of a full chunk is the flag
  have hmoved : ∃ p ∈ byteMoves x.len, p.Has (C - 1) := by
    refine ⟨⟨C - 1, 1⟩, ?_, by simp only [Piece.Has]; omega⟩
    simp only [byteMoves, List.mem_map, List.mem_range]
    exact ⟨C - 1, by omega, rfl⟩
  rw [copied_apply, if_pos hmoved]

end Quiet

/-! ## The handshake -/

namespace State

variable {R : Type}

/-- The sender is within `memcpy`. -/
def SenderCopies (s : State R) : Prop :=
  ∃ x p c, s.sendCode = .copy x p :: c

/-- Receiver `r` is within `memcpy`. -/
def ReceiverCopies (s : State R) (r : R) : Prop :=
  ∃ off p c, s.recvCode r = .copy off p :: c

end State

/-- Chunks are handed over one by one.  `takes` has, for every chunk the receiver has started to
copy, how many chunks the sender had published and begun by then. -/
structure Handshake (C : ℕ+) (s : State Unit) : Prop where
  /-- The receiver's `k`-th chunk is the sender's `k`-th, and it has been published. -/
  takes : s.takes = (List.range s.takes.length).map fun k => (k + 1, k + 1)
  exclusive : ¬ (s.SenderCopies ∧ s.ReceiverCopies ())
  /-- When both have returned from a message, the flag is 0. -/
  released : s.sendCode = [] → s.recvCode () = [] →
    s.sendTodo.length = (s.recvTodo ()).length → s.flag C = 0

/-- Where a chunk is: with the sender, published, or with the receiver; or there is none. -/
inductive Phase (C : ℕ+) (s : State Unit) : Prop where
  | empty (hs : SendIdle C byteMoves s.sendCode) (hr : RecvIdle byteMoves (s.recvCode ()))
      (hflag : s.flag C = 0) (hbegun : s.begun.length = s.took ()) (hstored : s.stored = s.took ())
      (htakes : s.takes.length = s.took ())
  | filling (x : Span Unit) (ps : List Piece) (hs : SendCopying C byteMoves x ps s.sendCode)
      (hr : RecvIdle byteMoves (s.recvCode ())) (hflag : s.flag C = 0)
      (hbegun : s.begun.length = s.took () + 1) (hstored : s.stored = s.took ())
      (htakes : s.takes.length = s.took ())
  | full (hs : SendIdle C byteMoves s.sendCode) (hr : RecvIdle byteMoves (s.recvCode ()))
      (hflag : s.flag C ≠ 0) (hbegun : s.begun.length = s.took () + 1)
      (hstored : s.stored = s.took () + 1) (htakes : s.takes.length = s.took ())
  | reading (off : Nat) (ps : List Piece) (hs : SendIdle C byteMoves s.sendCode)
      (hr : RecvReading byteMoves off ps (s.recvCode ())) (hflag : s.flag C ≠ 0)
      (hbegun : s.begun.length = s.took () + 1) (hstored : s.stored = s.took () + 1)
      (htakes : s.takes.length = s.took () + 1)

section Handshake

variable {C : ℕ+} {msgs : List (List UInt8)} {s t : State Unit}

/-- What holds in every reachable state when the spans are quiet. -/
structure HandedOver (C : ℕ+) (s : State Unit) : Prop where
  phase : Phase C s
  takes : s.takes = (List.range s.takes.length).map fun k => (k + 1, k + 1)

theorem HandedOver.init (h : s.Init C (sendsOf msgs) (asksOf msgs)) : HandedOver C s := by
  refine ⟨Phase.empty ?_ ?_ h.flag ?_ ?_ ?_, ?_⟩
  · rw [h.sendCode]
    exact SendIdle.nil
  · rw [h.recvCode]
    exact RecvIdle.nil
  · simp [h.begun, h.took]
  · rw [h.stored, h.took]
  · simp [h.takes, h.took]
  · simp [h.takes]

/-- A copied piece of a quiet span leaves the flag as it is. -/
theorem copy_flag {x : Span Unit} {p : Piece} {ps : List Piece} {code : List (SendAct Unit)}
    (hq : x.Quiet C) (hcopying : SendCopying C byteMoves x (p :: ps) code) (hflag : s.flag C = 0)
    (hchunk : t.chunk = fun b => if p.Has b then x.data.getD (x.off + b) 0 else s.chunk b) :
    t.flag C = 0 := by
  rw [State.flag, hchunk]
  by_cases hp : p.Has (C - 1)
  · exact (if_pos hp).trans (hq (byteMoves_flag hcopying.len hcopying.suffix hp).1)
  · exact (if_neg hp).trans hflag

/-- A span that has been begun is one of all the spans. -/
theorem Ledger.quiet {x : Span Unit} {p : Piece} {ps : List Piece}
    (hl : Ledger C byteMoves (sendsOf msgs) (asksOf msgs) s)
    (hq : ∀ x ∈ allSpans C (sendsOf msgs), x.Quiet C)
    (h : SendCopying C byteMoves x (p :: ps) s.sendCode) : x.Quiet C := by
  rcases hl.sender with hidle | ⟨y, qs, hy, hlast⟩
  · exact absurd h hidle.not_copying
  · apply hq
    rw [← hl.spans, ← (hy.head h).1]
    exact List.mem_append_left _ (List.mem_of_getLast? hlast)

/-- A step that leaves the flag, the counts and both positions as they are keeps the phase. -/
theorem Phase.congr (h : Phase C s)
    (hidle : SendIdle C byteMoves s.sendCode → SendIdle C byteMoves t.sendCode)
    (hcopying : ∀ x ps, SendCopying C byteMoves x ps s.sendCode →
      ∃ y qs, SendCopying C byteMoves y qs t.sendCode)
    (hrecv : RecvIdle byteMoves (s.recvCode ()) → RecvIdle byteMoves (t.recvCode ()))
    (hreading : ∀ off ps, RecvReading byteMoves off ps (s.recvCode ()) →
      ∃ off qs, RecvReading byteMoves off qs (t.recvCode ()))
    (hflag : t.flag C = s.flag C) (hbegun : t.begun = s.begun) (hstored : t.stored = s.stored)
    (htakes : t.takes = s.takes) (htook : t.took () = s.took ()) : Phase C t := by
  cases h with
  | empty hs hr hf hb hst hta =>
      exact Phase.empty (hidle hs) (hrecv hr) (hflag.trans hf) (by rw [hbegun, hb, htook])
        (by rw [hstored, hst, htook]) (by rw [htakes, hta, htook])
  | filling x ps hs hr hf hb hst hta =>
      rcases hcopying x ps hs with ⟨y, qs, hy⟩
      exact Phase.filling y qs hy (hrecv hr) (hflag.trans hf) (by rw [hbegun, hb, htook])
        (by rw [hstored, hst, htook]) (by rw [htakes, hta, htook])
  | full hs hr hf hb hst hta =>
      exact Phase.full (hidle hs) (hrecv hr) (hflag.trans_ne hf) (by rw [hbegun, hb, htook])
        (by rw [hstored, hst, htook]) (by rw [htakes, hta, htook])
  | reading off ps hs hr hf hb hst hta =>
      rcases hreading off ps hr with ⟨off', qs, hr'⟩
      exact Phase.reading off' qs (hidle hs) hr' (hflag.trans_ne hf) (by rw [hbegun, hb, htook])
        (by rw [hstored, hst, htook]) (by rw [htakes, hta, htook])

theorem HandedOver.sendEvent (hl : Ledger C byteMoves (sendsOf msgs) (asksOf msgs) s)
    (hq : ∀ x ∈ allSpans C (sendsOf msgs), x.Quiet C) (h : HandedOver C s)
    (hsame : SameReceivers s t) (he : SendEvent C byteMoves s t) : HandedOver C t := by
  have htook : t.took () = s.took () := by rw [hsame.took]
  have hcode : t.recvCode () = s.recvCode () := by rw [hsame.code]
  refine ⟨?_, by rw [hsame.takes]; exact h.takes⟩
  -- the sender moves from empty to filling and from filling to full
  cases he with
  | quiet hs ht hchunk hbegun hstored hleft =>
      apply h.phase.congr (fun _ => ht) _ (by rw [hcode]; exact id) _ (flag_congr hchunk) hbegun
        hstored hsame.takes htook
      · exact fun _ _ hcopying => absurd hcopying hs.not_copying
      · rw [hcode]
        exact fun off ps hr => ⟨off, ps, hr⟩
  | begins x hs ht hzero hchunk hbegun hstored hleft =>
      cases h.phase with
      | empty hs' hr hf hb hst hta =>
          apply Phase.filling x _ ht (hcode ▸ hr) ((flag_congr hchunk).trans hf)
          · rw [hbegun, List.length_append, hb, htook]
            rfl
          · rw [hstored, hst, htook]
          · rw [hsame.takes, hta, htook]
      | filling y ps hs' hr hf hb hst hta => exact absurd hs' hs.not_copying
      | full hs' hr hf hb hst hta => exact absurd hzero hf
      | reading off ps hs' hr hf hb hst hta => exact absurd hzero hf
  | copies x p ps hs ht hchunk hbegun hstored hleft =>
      have hflag : t.flag C = s.flag C := by
        cases h.phase with
        | empty hs' hr hf hb hst hta => exact absurd hs hs'.not_copying
        | filling y qs hs' hr hf hb hst hta =>
            -- the one byte that could set the flag is a 0
            exact (copy_flag (hl.quiet hq hs) hs hf hchunk).trans hf.symm
        | full hs' hr hf hb hst hta => exact absurd hs hs'.not_copying
        | reading off qs hs' hr hf hb hst hta => exact absurd hs hs'.not_copying
      apply h.phase.congr _ (fun _ _ _ => ⟨x, ps, ht⟩) (by rw [hcode]; exact id) _ hflag hbegun
        hstored hsame.takes htook
      · exact fun hidle => absurd hs hidle.not_copying
      · rw [hcode]
        exact fun off qs hr => ⟨off, qs, hr⟩
  | stores x hs ht hset hbegun hstored hleft =>
      cases h.phase with
      | empty hs' hr hf hb hst hta => exact absurd hs hs'.not_copying
      | filling y ps hs' hr hf hb hst hta =>
          have hone : t.flag C ≠ 0 := by
            rw [hset]
            decide
          apply Phase.full ht (hcode ▸ hr) hone
          · rw [hbegun, hb, htook]
          · rw [hstored, hst, htook]
          · rw [hsame.takes, hta, htook]
      | full hs' hr hf hb hst hta => exact absurd hs hs'.not_copying
      | reading off ps hs' hr hf hb hst hta => exact absurd hs hs'.not_copying

theorem HandedOver.recvEvent (h : HandedOver C s) (hsame : SameButReceiver () s t)
    (he : RecvEvent C byteMoves () s t) : HandedOver C t := by
  have hcode : t.sendCode = s.sendCode := hsame.sendCode
  have hidle : SendIdle C byteMoves s.sendCode → SendIdle C byteMoves t.sendCode := by
    rw [hcode]
    exact id
  have hcopying : ∀ x ps, SendCopying C byteMoves x ps s.sendCode →
      ∃ y qs, SendCopying C byteMoves y qs t.sendCode := by
    rw [hcode]
    exact fun x ps hs => ⟨x, ps, hs⟩
  -- the receiver moves from full to reading and from reading to empty
  cases he with
  | quiet hs ht hchunk htakes htook hleft =>
      refine ⟨?_, by rw [htakes]; exact h.takes⟩
      apply h.phase.congr hidle hcopying (fun _ => ht) _ (flag_congr hchunk) hsame.begun
        hsame.stored htakes htook
      exact fun _ _ hr => absurd hr hs.not_reading
  | takes off ps hs ht hset hchunk htakes htook hleft =>
      cases h.phase with
      | empty hs' hr hf hb hst hta => exact absurd hf hset
      | filling x qs hs' hr hf hb hst hta => exact absurd hf hset
      | full hs' hr hf hb hst hta =>
          refine ⟨Phase.reading off ps (hidle hs') ht ?_ ?_ ?_ ?_, ?_⟩
          · rw [flag_congr hchunk]
            exact hf
          · rw [hsame.begun, hb, htook]
          · rw [hsame.stored, hst, htook]
          · rw [htakes, List.length_append, hta, htook]
            rfl
          · -- the chunk taken is the only one published and not yet taken
            have hnew : (s.stored, s.begun.length) = (s.takes.length + 1, s.takes.length + 1) := by
              rw [hst, hb, hta]
            rw [htakes, hnew, List.length_append, List.length_singleton, List.range_succ,
              List.map_append, ← h.takes]
            rfl
      | reading off' qs hs' hr hf hb hst hta => exact absurd hr hs.not_reading
  | copies off p ps hs ht hchunk htakes htook hleft =>
      refine ⟨?_, by rw [htakes]; exact h.takes⟩
      apply h.phase.congr hidle hcopying _ (fun _ _ _ => ⟨off, ps, ht⟩) (flag_congr hchunk)
        hsame.begun hsame.stored htakes htook
      exact fun hr => absurd hs hr.not_reading
  | stores off hs ht hzero htakes htook hleft =>
      refine ⟨?_, by rw [htakes]; exact h.takes⟩
      cases h.phase with
      | empty hs' hr hf hb hst hta => exact absurd hs hr.not_reading
      | filling x qs hs' hr hf hb hst hta => exact absurd hs hr.not_reading
      | full hs' hr hf hb hst hta => exact absurd hs hr.not_reading
      | reading off' qs hs' hr hf hb hst hta =>
          apply Phase.empty (hidle hs') ht hzero
          · rw [hsame.begun, hb, htook]
          · rw [hsame.stored, hst, htook]
          · rw [htakes, hta, htook]

theorem handedOver_of_reachable (hq : ∀ x ∈ allSpans C (sendsOf msgs), x.Quiet C)
    (h : (system C byteMoves (sendsOf msgs) (asksOf msgs)).Reachable s) : HandedOver C s := by
  apply invariant_of_events (I := HandedOver C) _ _ _ h
  · exact fun s hs => HandedOver.init hs
  · exact fun s t hl _ hs hsame he => hs.sendEvent hl hq hsame he
  · exact fun s t r _ _ hs hsame he => hs.recvEvent hsame he

/-! ### What the phases say -/

theorem SendIdle.not_copies (h : SendIdle C byteMoves s.sendCode) : ¬ s.SenderCopies := by
  rintro ⟨x, p, c, hcode⟩
  rw [hcode] at h
  generalize hfull : SendAct.copy x p :: c = code at h
  cases h <;> simp [sendChunk] at hfull

theorem RecvIdle.not_copies (h : RecvIdle byteMoves (s.recvCode ())) : ¬ s.ReceiverCopies () := by
  rintro ⟨off, p, c, hcode⟩
  rw [hcode] at h
  generalize hfull : RecvAct.copy off p :: c = code at h
  cases h <;> simp [recvChunk] at hfull

/-- Suffixes of matching calls are matching if they are equally long. -/
theorem Ledger.matching (hl : Ledger C byteMoves (sendsOf msgs) (asksOf msgs) s)
    (hlen : s.sendTodo.length = (s.recvTodo ()).length) :
    s.recvTodo () = s.sendTodo.map fun m => m.2.length := by
  have hall : asksOf msgs () = (sendsOf msgs).map fun m => m.2.length := by
    simp [asksOf, sendsOf]
  have hsuffix : s.sendTodo.map (fun m => m.2.length) <:+ asksOf msgs () := by
    rw [hall]
    exact hl.sendTodo.map _
  have hle : (s.recvTodo ()).length ≤ (s.sendTodo.map fun m => m.2.length).length := by
    rw [List.length_map, hlen]
  -- two suffixes of one list, equally long, are equal
  have hsub := List.suffix_of_suffix_length_le (hl.recvTodo ()) hsuffix hle
  exact hsub.eq_of_length (by rw [List.length_map, hlen])

theorem allSpans_length (sends : List (Unit × List UInt8)) :
    (allSpans C sends).length = ((sends.map fun m => m.2.length).map (numChunks C)).sum := by
  simp [allSpans, List.length_flatMap, spans_length, Function.comp_def]

theorem allAsked_asksOf (msgs : List (List UInt8)) :
    allAsked C (asksOf msgs) () = (allSpans C (sendsOf msgs)).length := by
  rw [allSpans_length]
  simp [allAsked, asksOf, sendsOf, Function.comp_def]

/-- Between matching calls as many spans have been begun as chunks have been released. -/
theorem Ledger.balanced (hl : Ledger C byteMoves (sendsOf msgs) (asksOf msgs) s)
    (hsend : s.sendCode = []) (hrecv : s.recvCode () = [])
    (hlen : s.sendTodo.length = (s.recvTodo ()).length) : s.begun.length = s.took () := by
  have hspans := congrArg List.length hl.spans
  have hleft : (s.spansLeft C).length = s.asksLeft C () := by
    calc
      (s.spansLeft C).length = (allSpans C s.sendTodo).length := by
        simp [State.spansLeft, hsend, allSpans]
      _ = ((s.recvTodo ()).map (numChunks C)).sum := by
        rw [allSpans_length, hl.matching hlen]
      _ = s.asksLeft C () := by
        simp [State.asksLeft, hrecv]
  have htotal := allAsked_asksOf (C := C) msgs
  rw [List.length_append] at hspans
  rcases hl.receivers () with ⟨_, hsum⟩ | ⟨off, ps, hreading, _⟩
  · omega
  · rw [hrecv] at hreading
    exact absurd hreading RecvIdle.nil.not_reading

theorem HandedOver.handshake (h : HandedOver C s)
    (hl : Ledger C byteMoves (sendsOf msgs) (asksOf msgs) s) : Handshake C s := by
  refine ⟨h.takes, ?_, ?_⟩
  · -- in no phase are both parties in a chunk
    rintro ⟨hsend, hrecv⟩
    cases h.phase with
    | empty hs hr => exact hr.not_copies hrecv
    | filling x ps hs hr => exact hr.not_copies hrecv
    | full hs hr => exact hr.not_copies hrecv
    | reading off ps hs hr => exact hs.not_copies hsend
  · intro hsend hrecv hlen
    -- no chunk is under way between messages, so the phase is empty or filling
    have hbal := hl.balanced hsend hrecv hlen
    cases h.phase with
    | empty hs hr hflag hbegun hstored htakes => exact hflag
    | filling x ps hs hr hflag hbegun hstored htakes => exact hflag
    | full hs hr hflag hbegun hstored htakes => omega
    | reading off ps hs hr hflag hbegun hstored htakes => omega

/-! ### A span that is not quiet -/

/-- The receiver can take a span that is not quiet after its copy and before its store. -/
theorem exists_early_take {x : Span Unit} (hx : x ∈ allSpans C (sendsOf msgs))
    (hloud : ¬ x.Quiet C) :
    ∃ s, (system C byteMoves (sendsOf msgs) (asksOf msgs)).Reachable s ∧ ¬ Handshake C s := by
  rcases List.getElem_of_mem hx with ⟨k, hk, hxk⟩
  have hcons : (allSpans C (sendsOf msgs)).drop k = x :: (allSpans C (sendsOf msgs)).drop (k + 1) := by
    rw [← hxk]
    exact List.drop_eq_getElem_cons hk
  have hasks : k ≤ allAsked C (asksOf msgs) () := by
    rw [allAsked_asksOf]
    omega
  -- the chunks before `x` are exchanged, then `x` is copied but not stored
  rcases exchanged_reachable (r := ()) (Nat.le_of_lt hk) hasks with ⟨s, hreach, hs⟩
  rcases hs.publish hcons with ⟨t, _, hst, _, hchunk, hbegun, hstored, _⟩
  have hlen : x.len = C := Classical.not_not.1 fun hne => hloud fun heq => absurd heq hne
  -- the copy has reached the flag and set it
  have hflag : t.flag C ≠ 0 := by
    rw [State.flag, hchunk, copied_flag x s.chunk hlen]
    exact fun hzero => hloud fun _ => hzero
  have hsame := hst.sameReceivers
  have hrecv : RecvIdle byteMoves (t.recvCode ()) := by
    rw [hsame.code]
    exact hs.receiver
  have hleft : t.asksLeft C () = (allAsked C (asksOf msgs) () - k - 1) + 1 := by
    have hall := hs.asksLeft
    rw [allAsked_asksOf] at hall ⊢
    rw [hsame.asksLeft]
    omega
  rcases receiver_takes hrecv hflag hleft with ⟨off, len, u, hu⟩
  refine ⟨u, (hreach.steps hst.steps).steps hu.run.steps, ?_⟩
  intro hand
  -- the receiver has begun chunk `k + 1` with only `k` stored
  have hmem : (k, k + 1) ∈ u.takes := by
    rw [hu.takes, hstored, hbegun, List.length_take, Nat.min_eq_left (by omega)]
    exact List.mem_append_right _ List.mem_cons_self
  rw [hand.takes, List.mem_map] at hmem
  rcases hmem with ⟨j, _, hj⟩
  rw [Prod.mk.injEq] at hj
  omega

end Handshake

/-- Chunks are handed over one by one in every run if and only if the last byte of every full chunk
of every message is 0. -/
theorem handshake_iff (C : ℕ+) (msgs : List (List UInt8)) :
    (∀ s, (system C byteMoves (sendsOf msgs) (asksOf msgs)).Reachable s → Handshake C s) ↔
      ∀ m ∈ msgs, ∀ i < m.length / C, m.getD (i * C + (C - 1)) 0 = 0 := by
  rw [← quiet_allSpans_iff]
  constructor
  · intro hall x hx
    by_contra hloud
    rcases exists_early_take hx hloud with ⟨s, hreach, hnot⟩
    exact hnot (hall s hreach)
  · intro hq s hreach
    exact (handedOver_of_reachable hq hreach).handshake (ledger_of_reachable hreach)

/-- A message of one full chunk of ones can be taken before it is published. -/
theorem ones_taken_early :
    ¬ ∀ s, (system ssmpChunkSize byteMoves (sendsOf [List.replicate 8192 1])
        (asksOf [List.replicate 8192 1])).Reachable s → Handshake ssmpChunkSize s := by
  intro hall
  have hsize : (ssmpChunkSize : Nat) = 8192 := rfl
  have hspan : (⟨(), List.replicate 8192 1, 0 * ssmpChunkSize, ssmpChunkSize⟩ : Span Unit) ∈
      allSpans ssmpChunkSize (sendsOf [List.replicate 8192 1]) := by
    simp only [allSpans, sendsOf, List.map_cons, List.map_nil, List.flatMap_cons, List.flatMap_nil,
      List.append_nil]
    exact mem_spans.2 (Or.inl ⟨0, by rw [List.length_replicate, hsize]; omega, rfl⟩)
  have hloud : ¬ Span.Quiet ssmpChunkSize
      (⟨(), List.replicate 8192 1, 0 * ssmpChunkSize, ssmpChunkSize⟩ : Span Unit) := by
    intro hquiet
    have hzero := hquiet rfl
    rw [List.getD_eq_getElem?_getD, List.getElem?_replicate] at hzero
    split at hzero
    · exact absurd hzero (by decide)
    · rename_i hlt
      simp only [hsize] at hlt
      omega
  rcases exists_early_take hspan hloud with ⟨s, hreach, hnot⟩
  exact hnot (hall s hreach)

end Big
end Ssmp
