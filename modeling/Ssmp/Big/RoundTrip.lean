import Ssmp.Big.Runs

/-!
# Big.RoundTrip — what arrives when sender and receiver alternate

One sender and one receiver take turns: a chunk is copied in and published, then copied out and
released, every `memcpy` being one step.  The store of the flag falls on the last byte of a full
chunk, so the receiver gets 1 there (`deliver`).  A message arrives as it was sent if and only if
that byte of each of its full chunks is 1.
-/

namespace Ssmp
namespace Big

open Lib

/-! ## The schedule -/

/-- One chunk: the sender waits, copies and stores, then the receiver does. -/
def round : List (Party Unit) :=
  [.sender, .sender, .sender, .receiver (), .receiver (), .receiver ()]

/-- One message of `length` bytes: both calls begin, the chunks alternate, both calls return. -/
def alternate (C : ℕ+) (length : Nat) : List (Party Unit) :=
  [.sender, .receiver ()] ++
    ((List.replicate (numChunks C length) round).flatten ++ [.sender, .receiver ()])

/-- What arrives at offset `y`. -/
def stamp (C : ℕ+) (data : List UInt8) (y : Nat) : UInt8 :=
  if y % C = C - 1 ∧ y < data.length / C * C then 1 else data.getD y 0

def deliver (C : ℕ+) (data : List UInt8) : List UInt8 :=
  (List.range data.length).map (stamp C data)

section RoundTrip

variable {C : ℕ+} {s : State Unit} {sc : List (SendAct Unit)} {rc : List RecvAct}
variable {st : List (Unit × List UInt8)} {rt : List Nat} {ret : List (List UInt8)}
variable {data : List UInt8}

theorem run_append (a b : List (Party Unit)) (s : State Unit) :
    s.run C wholeMove (a ++ b) = (s.run C wholeMove a).run C wholeMove b :=
  List.foldl_append

/-- The codes and calls both parties have left, what has been returned, and a free chunk buffer. -/
structure At (C : ℕ+) (s : State Unit) (sc : List (SendAct Unit)) (rc : List RecvAct)
    (st : List (Unit × List UInt8)) (rt : List Nat) (ret : List (List UInt8)) : Prop where
  sendCode : s.sendCode = sc
  recvCode : s.recvCode () = rc
  sendTodo : s.sendTodo = st
  recvTodo : s.recvTodo () = rt
  returned : s.returned () = ret
  flag : s.flag C = 0

/-! ## One chunk -/

theorem fetched_whole (off len : Nat) (chunk buf : Nat → UInt8) (y : Nat) :
    fetched off (wholeMove len) chunk buf y =
      if off ≤ y ∧ y < off + len then chunk (y - off) else buf y := by
  have hiff : (off ≤ y ∧ (⟨0, len⟩ : Piece).Has (y - off)) ↔ (off ≤ y ∧ y < off + len) := by
    simp only [Piece.Has]
    omega
  simp only [fetched, wholeMove, List.foldl_cons, List.foldl_nil, hiff]

/-- The receiver's copy of a chunk: the sender's bytes, with the flag on byte `C - 1`. -/
theorem run_round {x : Span Unit}
    (h : At C s (sendChunk wholeMove x ++ sc) (recvChunk wholeMove x.off x.len ++ rc) st rt ret) :
    At C (s.run C wholeMove round) sc rc st rt ret ∧
      ∀ y, (s.run C wholeMove round).buf () y =
        if x.off ≤ y ∧ y < x.off + x.len then
          if y = x.off + (C - 1) then 1 else x.data.getD y 0
        else s.buf () y := by
  let published : State Unit :=
    { s with
      sendCode := sc
      chunk := Function.update (copied x (wholeMove x.len) s.chunk) (C - 1) 1
      begun := s.begun ++ [x]
      stored := s.stored + 1 }
  have hsend : (State.sendStep C wholeMove)^[3] s = published :=
    iterate_sendChunk x h.sendCode h.flag
  have hflag : published.flag C ≠ 0 := by
    simp [published, State.flag]
  have hrecv : (State.recvStep C wholeMove ())^[3] published = _ :=
    iterate_recvChunk x.off x.len h.recvCode hflag
  have hrun : s.run C wholeMove round = (State.recvStep C wholeMove ())^[3] published := by
    rw [← hsend]
    rfl
  rw [hrun, hrecv]
  constructor
  · exact ⟨rfl, by simp [State.setRecvCode], h.sendTodo, h.recvTodo, h.returned,
      by simp [State.flag]⟩
  · intro y
    simp only [Function.update_self, fetched_whole]
    split
    · rename_i hy
      -- the store of the flag comes after the copy, so its byte is 1 whatever was sent
      by_cases hlast : y = x.off + (C - 1)
      · have hoff : y - x.off = C - 1 := by omega
        simp [published, hlast]
      · have hoff : y - x.off ≠ C - 1 := by omega
        have hmoved : ∃ p ∈ wholeMove x.len, p.Has (y - x.off) :=
          ⟨⟨0, x.len⟩, by simp [wholeMove], by simp only [Piece.Has]; omega⟩
        have hadd : x.off + (y - x.off) = y := by omega
        simp [published, hlast, hoff, copied_apply, hmoved, hadd]
    · rfl

/-! ## One message -/

/-- The span of `data` at `off`. -/
def spanAt (data : List UInt8) (off len : Nat) : Span Unit :=
  ⟨(), data, off, len⟩

/-- The rounds for the chunks of a message from the last `k` full ones on. -/
def rounds (C : ℕ+) (data : List UInt8) (k : Nat) : List (Party Unit) :=
  (List.replicate (k + if data.length % C = 0 then 0 else 1) round).flatten

theorem rounds_succ (C : ℕ+) (data : List UInt8) (k : Nat) :
    rounds C data (k + 1) = round ++ rounds C data k := by
  rw [rounds, Nat.add_right_comm, List.replicate_succ, List.flatten_cons, rounds]

/-- Within a chunk at a multiple of `C`, the receiver's copy is `stamp`. -/
theorem stamp_chunk {off len y : Nat} (hdvd : (C : Nat) ∣ off) (hlen : len ≤ C)
    (hy : off ≤ y ∧ y < off + len) (hfull : len = C → y < data.length / C * C) :
    (if y = off + (C - 1) then 1 else data.getD y 0) = stamp C data y := by
  have hC : 0 < (C : Nat) := C.pos
  -- offsets within the chunk are remainders
  have hmod : y % C = y - off := by
    have hsum : y = (y - off) + off := by omega
    rw [hsum, Nat.add_mod, Nat.mod_eq_zero_of_dvd hdvd, Nat.add_zero, Nat.mod_mod,
      Nat.mod_eq_of_lt (by omega)]
    omega
  have hiff : (y % C = C - 1 ∧ y < data.length / C * C) ↔ y = off + (C - 1) := by
    rw [hmod]
    constructor
    · rintro ⟨hend, _⟩
      omega
    · intro hend
      exact ⟨by omega, hfull (by omega)⟩
  simp only [stamp, hiff]

/-- The chunks of a message from `off` on, `k` of them full: a round for each, after which the
buffer holds `stamp` throughout. -/
theorem run_rounds (k off : Nat)
    (h : At C s
      (chunkLoop C (fun off len => sendChunk wholeMove (spanAt data off len)) (data.length % C) k off
        ++ sc)
      (chunkLoop C (recvChunk wholeMove) (data.length % C) k off ++ rc) st rt ret)
    (hoff : off + k * C = data.length / C * C) (hdvd : (C : Nat) ∣ off)
    (hbuf : ∀ y < off, s.buf () y = stamp C data y) :
    At C (s.run C wholeMove (rounds C data k)) sc rc st rt ret ∧
      ∀ y < data.length, (s.run C wholeMove (rounds C data k)).buf () y = stamp C data y := by
  have hsplit : data.length / C * C + data.length % C = data.length :=
    Nat.div_add_mod' data.length C
  have hmod : data.length % C < C := Nat.mod_lt _ C.pos
  -- by induction on the full chunks left; what is before `off` stays as it is
  induction k generalizing s off with
  | zero =>
      -- no full chunk is left: there may be a last one
      by_cases hlast : data.length % C = 0
      · simp only [hlast, chunkLoop, if_true, List.nil_append] at h
        have hnone : rounds C data 0 = [] := by simp [rounds, hlast]
        rw [hnone]
        refine ⟨h, ?_⟩
        intro y hy
        exact hbuf y (by omega)
      · simp only [chunkLoop, if_neg hlast] at h
        have hone : rounds C data 0 = round := by simp [rounds, hlast]
        rcases run_round h with ⟨hat, hafter⟩
        rw [hone]
        refine ⟨hat, ?_⟩
        intro y hy
        apply (hafter y).trans
        by_cases hin : off ≤ y ∧ y < off + data.length % C
        · -- the last chunk is not full, so the flag is past its bytes
          exact (if_pos hin).trans (stamp_chunk hdvd (by omega) hin (by omega))
        · exact (if_neg hin).trans (hbuf y (by omega))
  | succ k ih =>
      simp only [chunkLoop, List.append_assoc] at h
      rcases run_round h with ⟨hat, hafter⟩
      have hnext : off + C + k * C = data.length / C * C := by
        rw [← hoff, Nat.succ_mul]
        omega
      have hround : ∀ y < off + C, (s.run C wholeMove round).buf () y = stamp C data y := by
        intro y hy
        apply (hafter y).trans
        by_cases hin : off ≤ y ∧ y < off + C
        · have hfull : y < data.length / C * C := by
            have hrest := Nat.zero_le (k * C)
            omega
          exact (if_pos hin).trans (stamp_chunk hdvd (Nat.le_refl _) hin (fun _ => hfull))
        · exact (if_neg hin).trans (hbuf y (by omega))
      rw [rounds_succ, run_append]
      exact ih (off + C) hat hnext (Nat.dvd_add hdvd (Nat.dvd_refl _)) hround

/-- Both calls begin. -/
theorem run_call (h : At C s [] [] (((), data) :: st) (data.length :: rt) ret) :
    At C (s.run C wholeMove [.sender, .receiver ()]) (ssmpSendBigPlatf C wholeMove () data)
      (ssmpRecvFromBigPlatf C wholeMove data.length) st rt ret := by
  rcases h with ⟨hsc, hrc, hst, hrt, hret, hflag⟩
  have hchunk : s.chunk (C - 1) = 0 := hflag
  constructor <;>
    simp [State.run, State.step, State.sendStep, State.recvStep, State.setRecvCode, State.flag,
      hsc, hrc, hst, hrt, hret, hchunk]

/-- Both calls return. -/
theorem run_return {length : Nat} (h : At C s [.ret] [.ret length] st rt ret) :
    At C (s.run C wholeMove [.sender, .receiver ()]) [] [] st rt
      (ret ++ [(List.range length).map (s.buf ())]) := by
  rcases h with ⟨hsc, hrc, hst, hrt, hret, hflag⟩
  have hchunk : s.chunk (C - 1) = 0 := hflag
  constructor <;>
    simp [State.run, State.step, State.sendStep, State.recvStep, State.setRecvCode, State.flag,
      hsc, hrc, hst, hrt, hret, hchunk]

/-- A whole message, from call to return. -/
theorem run_message (h : At C s [] [] (((), data) :: st) (data.length :: rt) ret) :
    At C (s.run C wholeMove (alternate C data.length)) [] [] st rt (ret ++ [deliver C data]) := by
  have hcall := run_call h
  rcases run_rounds (data.length / C) 0 hcall (by omega) (Nat.dvd_zero _)
    (fun y hy => absurd hy (Nat.not_lt_zero y)) with ⟨hat, hbuf⟩
  have hmap : (List.range data.length).map
      (((s.run C wholeMove [.sender, .receiver ()]).run C wholeMove
        (rounds C data (data.length / C))).buf ()) = deliver C data := by
    refine List.map_congr_left ?_
    intro y hy
    exact hbuf y (List.mem_range.1 hy)
  have hret := run_return hat
  rw [hmap] at hret
  -- call, rounds, return
  rw [alternate, run_append, run_append]
  exact hret

/-! ## A sequence of messages -/

theorem run_messages (msgs : List (List UInt8))
    (h : At C s [] [] (sendsOf msgs) (asksOf msgs ()) ret) :
    At C (s.run C wholeMove (msgs.flatMap fun m => alternate C m.length)) [] [] [] []
      (ret ++ msgs.map (deliver C)) := by
  induction msgs generalizing s ret with
  | nil => simpa [State.run, sendsOf, asksOf] using h
  | cons m msgs ih =>
      rw [List.flatMap_cons, run_append]
      simpa using ih (run_message h)

/-- What arrives is what was sent just where the last byte of every full chunk is 1. -/
theorem deliver_eq_iff (data : List UInt8) :
    deliver C data = data ↔ ∀ i < data.length / C, data.getD (i * C + (C - 1)) 0 = 1 := by
  have hC : 0 < (C : Nat) := C.pos
  have hlen : data.length / C * C ≤ data.length := Nat.div_mul_le_self data.length C
  have hbyte : ∀ y, y < data.length → (deliver C data).getD y 0 = stamp C data y := by
    intro y hy
    simp [deliver, hy]
  constructor
  · -- compare the byte at the flag of chunk `i`
    intro heq i hi
    have hy : i * C + (C - 1) < data.length / C * C := by
      have hmul : (i + 1) * C ≤ data.length / C * C := Nat.mul_le_mul_right C hi
      rw [Nat.succ_mul] at hmul
      omega
    have hmod : (i * C + (C - 1)) % C = C - 1 := by
      rw [Nat.mul_comm, Nat.mul_add_mod, Nat.mod_eq_of_lt (by omega)]
    have hstamp := hbyte (i * C + (C - 1)) (by omega)
    rw [heq, stamp, if_pos ⟨hmod, hy⟩] at hstamp
    exact hstamp
  · intro hall
    have hstamp : ∀ y, stamp C data y = data.getD y 0 := by
      intro y
      by_cases hy : y % C = C - 1 ∧ y < data.length / C * C
      · -- a stamped offset is the last one of its chunk
        have hdiv : y / C < data.length / C :=
          Nat.div_lt_of_lt_mul (by rw [Nat.mul_comm]; exact hy.2)
        have hlast := hall (y / C) hdiv
        rw [← hy.1, Nat.div_add_mod'] at hlast
        rw [stamp, if_pos hy, hlast]
      · exact if_neg hy
    refine List.ext_getElem (by simp [deliver]) ?_
    intro y hy hy'
    have hget := hbyte y hy'
    rw [hstamp] at hget
    simpa [hy, hy'] using hget

/-- The schedule of a sequence of messages, one after the other. -/
def alternateAll (C : ℕ+) (msgs : List (List UInt8)) : List (Party Unit) :=
  msgs.flatMap fun m => alternate C m.length

theorem returned_init {msgs : List (List UInt8)}
    (hs : s.Init C (sendsOf msgs) (asksOf msgs)) :
    (s.run C wholeMove (alternateAll C msgs)).returned () = msgs.map (deliver C) := by
  have hat : At C s [] [] (sendsOf msgs) (asksOf msgs ()) [] :=
    ⟨hs.sendCode, hs.recvCode (), hs.sendTodo, congrFun hs.recvTodo (), hs.returned (), hs.flag⟩
  simpa [alternateAll] using (run_messages msgs hat).returned

end RoundTrip

/-- When the parties alternate chunk by chunk, the receiver's calls return the messages sent if and
only if byte `C - 1` of every full chunk of every message is 1. -/
theorem roundTrip_iff {C : ℕ+} {msgs : List (List UInt8)} {s : State Unit}
    (hs : s.Init C (sendsOf msgs) (asksOf msgs)) :
    (s.run C wholeMove (alternateAll C msgs)).returned () = msgs ↔
      ∀ m ∈ msgs, ∀ i < m.length / C, m.getD (i * C + (C - 1)) 0 = 1 := by
  have hmap : msgs.map (deliver C) = msgs ↔ ∀ m ∈ msgs, deliver C m = m := by
    simpa using List.map_inj_left (l := msgs) (f := deliver C) (g := id)
  rw [returned_init hs, hmap]
  refine forall₂_congr ?_
  intro m _
  exact deliver_eq_iff m

/-- The all-ones message of two chunks and a half. -/
theorem roundTrip_iff_ones :
    ((State.fresh (sendsOf [List.replicate 20480 1]) (asksOf [List.replicate 20480 1])).run
      ssmpChunkSize wholeMove (alternateAll ssmpChunkSize [List.replicate 20480 1])).returned () =
      [List.replicate 20480 1] := by
  refine (roundTrip_iff (C := ssmpChunkSize) ?_).2 ?_
  · exact State.init_fresh _ _ _
  · intro m hm i hi
    rcases List.mem_singleton.1 hm with rfl
    have hsize : (ssmpChunkSize : Nat) = 8192 := rfl
    have hlt : i * ssmpChunkSize + (ssmpChunkSize - 1) < 20480 := by
      rw [List.length_replicate, hsize] at hi
      rw [hsize]
      omega
    rw [List.getD_eq_getElem?_getD, List.getElem?_replicate, if_pos hlt]
    rfl

/-- A message of one full chunk of zeros arrives with a 1 at its end. -/
theorem zeros_changed :
    ((State.fresh (sendsOf [List.replicate 8192 0]) (asksOf [List.replicate 8192 0])).run
      ssmpChunkSize wholeMove (alternateAll ssmpChunkSize [List.replicate 8192 0])).returned () ≠
      [List.replicate 8192 0] := by
  have hinit := State.init_fresh ssmpChunkSize (sendsOf [List.replicate 8192 0])
    (asksOf [List.replicate 8192 0])
  rw [returned_init hinit]
  intro heq
  have hdeliver : deliver ssmpChunkSize (List.replicate 8192 0) = List.replicate 8192 0 :=
    (List.cons.inj heq).1
  have hsize : (ssmpChunkSize : Nat) = 8192 := rfl
  have hone : (List.replicate 8192 (0 : UInt8)).getD (0 * ssmpChunkSize + (ssmpChunkSize - 1)) 0 = 1 :=
    (deliver_eq_iff _).1 hdeliver 0 (by rw [List.length_replicate, hsize]; omega)
  rw [List.getD_eq_getElem?_getD, List.getElem?_replicate] at hone
  split at hone
  · exact absurd hone (by decide)
  · exact absurd hone (by decide)

end Big
end Ssmp
