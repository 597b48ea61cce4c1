import Mathlib.Data.List.TakeWhile
import Ssmp.Platform.Generic

/-!
# StoreOrder — the copies of the generic platform in any order

C fixes no order for the stores of a `memcpy`.  Here the eight 8-byte stores of the copy of
`ssmp_send` and `ssmp_send_no_sync` take effect in any order, and so do the loads of the receiver.
The state byte travels in the last of the eight words of the line, so the receiver may see it before
words that are stored after it (`StoreOrder.late`).
-/

namespace Ssmp
namespace Generic

open Lib

/-! ## Orders -/

/-- The 8-byte words of a line. -/
def dwords : List Piece :=
  (List.range 8).map fun d => ⟨8 * d, 8⟩

/-- An order in which the words of one `memcpy` take effect. -/
structure StoreOrder where
  pieces : List Piece
  perm : pieces.Perm dwords

/-- The word with the state byte. -/
def stateWord : Piece := ⟨56, 8⟩

namespace StoreOrder

/-- The stores before the one with the state byte. -/
def early (o : StoreOrder) : List Piece :=
  o.pieces.takeWhile fun p => p ≠ stateWord

/-- The stores after the one with the state byte. -/
def late (o : StoreOrder) : List Piece :=
  (o.pieces.dropWhile fun p => p ≠ stateWord).tail

variable (o : StoreOrder)

/-- The two ways to send a message of one line. -/
inductive Sending where
  | send
  | noSync

def ssmpSendNoSyncPlatf {n : Nat} (dst : Fin n) : List (Act n) :=
  .setState ssmpBufMessg :: o.pieces.map (.copyOut dst)

def ssmpSendPlatf {n : Nat} (useAtomic : Bool) (dst : Fin n) : List (Act n) :=
  acquire useAtomic (.sendBuf dst) ssmpBufEmpty :: o.ssmpSendNoSyncPlatf dst

def ssmpRecvFromPlatf {n : Nat} (useAtomic : Bool) (src : Fin n) : List (Act n) :=
  acquire useAtomic (.recvBuf src) ssmpBufMessg ::
    (o.pieces.map (.copyIn src) ++ [.store (.recvBuf src) ssmpBufEmpty])

def Sending.code {n : Nat} (useAtomic : Bool) (dst : Fin n) : Sending → List (Act n)
  | .send => o.ssmpSendPlatf useAtomic dst
  | .noSync => o.ssmpSendNoSyncPlatf dst

/-! ## The word with the state byte -/

variable {o}

theorem nodup : o.pieces.Nodup :=
  o.perm.nodup_iff.2 (by decide)

theorem pieces_eq : o.pieces = o.early ++ stateWord :: o.late := by
  have hmem : stateWord ∈ o.pieces := o.perm.mem_iff.2 (by decide)
  have hdrop : o.pieces.dropWhile (fun p => p ≠ stateWord) ≠ [] := by
    intro hnil
    simpa using List.dropWhile_eq_nil_iff.1 hnil stateWord hmem
  -- what is dropped ends at the word with the state byte
  have hhead : (o.pieces.dropWhile fun p => p ≠ stateWord).head hdrop = stateWord := by
    simpa using List.head_dropWhile_not (fun p => decide (p ≠ stateWord)) hdrop
  calc
    o.pieces = o.early ++ o.pieces.dropWhile (fun p => p ≠ stateWord) :=
        List.takeWhile_append_dropWhile.symm
    _ = o.early ++ stateWord :: o.late := by
        rw [← List.cons_head_tail hdrop, hhead]
        rfl

theorem spares_state {p : Piece} (hp : p ∈ o.early ∨ p ∈ o.late) : ¬ p.Has x86Msg.state := by
  have hmem : p ∈ o.pieces := by
    rw [pieces_eq]
    rcases hp with hp | hp <;> simp [hp]
  have hne : p ≠ stateWord := by
    rintro rfl
    have hnodup := @nodup o
    rw [pieces_eq, List.nodup_append, List.nodup_cons] at hnodup
    rcases hp with hp | hp
    · exact hnodup.2.2 _ hp _ List.mem_cons_self rfl
    · exact hnodup.2.1.1 hp
  have hword : ∀ p ∈ dwords, p ≠ stateWord → ¬ p.Has x86Msg.state := by decide
  exact hword p (o.perm.mem_iff.1 hmem) hne

/-- The words of an order are disjoint. -/
theorem eq_of_has {p q : Piece} {b : Nat} (hp : p ∈ o.pieces) (hq : q ∈ o.pieces) (hpb : p.Has b)
    (hqb : q.Has b) : p = q := by
  have hword : ∀ {p}, p ∈ o.pieces → ∃ d, p = ⟨8 * d, 8⟩ := by
    intro p hp
    rcases List.mem_map.1 (o.perm.mem_iff.1 hp) with ⟨d, _, rfl⟩
    exact ⟨d, rfl⟩
  rcases hword hp with ⟨d, rfl⟩
  rcases hword hq with ⟨e, rfl⟩
  simp only [Piece.Has] at hpb hqb
  rw [show d = e by omega]

/-- A byte of a late word is in no earlier one. -/
theorem not_has_of_late {p q : Piece} {b : Nat} (hp : p ∈ o.late) (hpb : p.Has b)
    (hq : q ∈ o.early ∨ q = stateWord) : ¬ q.Has b := by
  intro hqb
  have hpieces : p ∈ o.pieces ∧ q ∈ o.pieces := by
    rw [pieces_eq]
    rcases hq with hq | rfl
    · simp [hp, hq]
    · simp [hp]
  have heq := eq_of_has hpieces.1 hpieces.2 hpb hqb
  subst heq
  have hnodup := @nodup o
  rw [pieces_eq, List.nodup_append, List.nodup_cons] at hnodup
  rcases hq with hq | rfl
  · exact hnodup.2.2 _ hq _ (List.mem_cons_of_mem _ hp) rfl
  · exact hnodup.2.1.1 hp

theorem exists_has (b : Fin ssmpCacheLineSize) : ∃ p ∈ o.pieces, p.Has b := by
  have hword : ∀ b : Fin ssmpCacheLineSize, ∃ p ∈ dwords, p.Has b := by decide
  rcases hword b with ⟨p, hp, hb⟩
  exact ⟨p, o.perm.mem_iff.2 hp, hb⟩

end StoreOrder

/-! ## One message -/

section Message

variable {n : Nat} {me dst : Fin n} {s s₀ t : Sys x86Msg n} {o back : StoreOrder} {msg : Line}
variable {useAtomic : Bool} {recv : List (Act n)}

/-- Every process goes on with the call it is in. -/
def Runs : Sys x86Msg n → Sys x86Msg n → Prop :=
  Relation.ReflTransGen fun s t => ∃ p, s.exec p = some t

/-- Process `me` sends `msg` to `dst`, which receives: however the processes interleave, the
receiver returns the payload sent. -/
def Untorn (send recv : List (Act n)) (me dst : Fin n) (msg : Line) (s₀ : Sys x86Msg n) : Prop :=
  ∀ buf t, Runs ((s₀.enter me send msg).enter dst recv buf) t → (t.proc dst).code = [] →
    x86Msg.payload (t.proc dst).msg = x86Msg.payload msg

/-- What is left of the send before its copy; the buffer is marked when the copy begins. -/
inductive Preamble (dst : Fin n) (m : Line) : List (Act n) → Prop where
  | wait (lk : Bool) :
      Preamble dst m [acquire lk (.sendBuf dst) ssmpBufEmpty, .setState ssmpBufMessg]
  | mark : Preamble dst m [.setState ssmpBufMessg]
  | copy (hmark : x86Msg.stateOf m = ssmpBufMessg) : Preamble dst m []

/-- Every payload byte of the line `l` is the one of `msg`, or still that of `old` with a store of
`ps` to come. -/
def Stored (ps : List Piece) (msg old l : Line) : Prop :=
  ∀ b, x86Msg.payload l b = x86Msg.payload msg b ∨
    x86Msg.payload l b = x86Msg.payload old b ∧ ∃ p ∈ ps, p.Has b.val

/-- The word with the state byte is not stored yet, and the receiver has not seen the message. -/
structure Before (o : StoreOrder) (recv : List (Act n)) (me dst : Fin n) (msg old : Line)
    (s : Sys x86Msg n) : Prop where
  send : ∃ pre ps, (s.proc me).code =
      pre ++ (ps ++ stateWord :: o.late).map (.copyOut dst) ∧
    Preamble dst (s.proc me).msg pre ∧ (∀ p ∈ ps, p ∈ o.early) ∧
    Stored (ps ++ stateWord :: o.late) msg old (s.slot (me, dst))
  buf : x86Msg.payload (s.proc me).msg = x86Msg.payload msg
  flag : x86Msg.stateOf (s.slot (me, dst)) ≠ ssmpBufMessg
  recv : (s.proc dst).code = recv

/-- How far the receiver is. -/
inductive Copying (recv : List (Act n)) (me : Fin n) (msg m : Line) : List (Act n) → Prop where
  | wait : Copying recv me msg m recv
  | copy {ps : List Piece}
      (h : ∀ b, x86Msg.payload m b = x86Msg.payload msg b ∨ ∃ p ∈ ps, p.Has b.val) :
      Copying recv me msg m (ps.map (.copyIn me) ++ [.store (.recvBuf me) ssmpBufEmpty])
  | done (h : x86Msg.payload m = x86Msg.payload msg) : Copying recv me msg m []

theorem Copying.of_nil {m : Line} {c : List (Act n)} (h : Copying recv me msg m c)
    (hrecv : recv ≠ []) (hc : c = []) : x86Msg.payload m = x86Msg.payload msg := by
  cases h with
  | wait => exact absurd hc hrecv
  | copy _ => simp at hc
  | done h => exact h

/-- The word with the state byte is stored, and the payload of the slot is the one sent. -/
structure After (o : StoreOrder) (recv : List (Act n)) (me dst : Fin n) (msg : Line)
    (s : Sys x86Msg n) : Prop where
  send : ∀ a ∈ (s.proc me).code, ∃ p ∈ o.late, a = .copyOut dst p
  buf : x86Msg.payload (s.proc me).msg = x86Msg.payload msg
  word : x86Msg.payload (s.slot (me, dst)) = x86Msg.payload msg
  recv : Copying recv me msg (s.proc dst).msg (s.proc dst).code

theorem payload_piece (p : Piece) (src l : Line) (b : Fin x86Msg.payloadBytes) :
    x86Msg.payload (copyPiece p src l) b =
      if p.Has b.val then x86Msg.payload src b else x86Msg.payload l b := rfl

theorem Stored.copy {p : Piece} {ps : List Piece} {src old l : Line}
    (h : Stored (p :: ps) msg old l) (hsrc : x86Msg.payload src = x86Msg.payload msg) :
    Stored ps msg old (copyPiece p src l) := by
  intro b
  rw [payload_piece]
  by_cases hp : p.Has b.val
  · rw [if_pos hp]
    exact Or.inl (congrFun hsrc b)
  · rw [if_neg hp]
    rcases h b with hb | ⟨hb, q, hq, hqb⟩
    · exact Or.inl hb
    · rcases List.mem_cons.1 hq with rfl | hq
      · exact absurd hqb hp
      · exact Or.inr ⟨hb, q, hq, hqb⟩

/-- A word of the message on the payload of the message. -/
theorem payload_copy_self {p : Piece} {src l : Line}
    (hsrc : x86Msg.payload src = x86Msg.payload msg) (hl : x86Msg.payload l = x86Msg.payload msg) :
    x86Msg.payload (copyPiece p src l) = x86Msg.payload msg := by
  funext b
  rw [payload_piece, hsrc, hl]
  exact ite_self _

/-- What one store of the copy leaves. -/
theorem copyOut_eq {p : Piece} {rest : List (Act n)}
    (ht : s.execAct me (.copyOut dst p) rest = t) :
    t.slot (me, dst) = copyPiece p (s.proc me).msg (s.slot (me, dst)) ∧
      (t.proc me).code = rest ∧ (t.proc me).msg = (s.proc me).msg := by
  subst ht
  simp only [Sys.execAct]
  split <;> simp [Sys.setProc, Sys.setSlot, Sys.logSent]

/-- Taking a slot leaves its payload, and marks it full only where it was. -/
theorem acquire_cases {lk : Bool} {q : SlotRef n} {v : UInt8} {p : Fin n} {rest : List (Act n)}
    (ht : s.execAct p (acquire lk q v) rest = t) :
    s.flag p q ≠ v ∧ t = s ∨
      s.flag p q = v ∧ (t.proc p).code = rest ∧ (t.proc p).msg = (s.proc p).msg ∧
        x86Msg.payload (t.slot (q.pair p)) = x86Msg.payload (s.slot (q.pair p)) ∧
        (x86Msg.stateOf (t.slot (q.pair p)) = v ∨
          x86Msg.stateOf (t.slot (q.pair p)) = ssmpBufLockd) := by
  subst ht
  by_cases hf : s.flag p q = v
  · refine Or.inr ⟨hf, ?_⟩
    cases lk with
    | false =>
        have hstate : x86Msg.stateOf (s.slot (q.pair p)) = v := hf
        simp [acquire, Sys.execAct, hf, Sys.setProc, hstate]
    | true => simp [acquire, Sys.execAct, hf, Sys.setProc, Sys.setFlag, Sys.setSlot]
  · refine Or.inl ⟨hf, ?_⟩
    cases lk <;> simp [acquire, Sys.execAct, hf]

/-! ### The sender -/

/-- What has been stored before the word with the state byte, and what need not be stored after
it. -/
theorem Stored.of_late {old l : Line} (h : Stored o.late msg old l)
    (hold : ∀ p ∈ o.late, ∀ b : Fin x86Msg.payloadBytes, p.Has b.val →
      x86Msg.payload old b = x86Msg.payload msg b) : x86Msg.payload l = x86Msg.payload msg := by
  funext b
  rcases h b with hb | ⟨hb, p, hp, hpb⟩
  · exact hb
  · exact hb.trans (hold p hp b hpb)

theorem Before.exec_send {old : Line} (hne : me ≠ dst) (h : Before o recv me dst msg old s)
    (hold : ∀ p ∈ o.late, ∀ b : Fin x86Msg.payloadBytes, p.Has b.val →
      x86Msg.payload old b = x86Msg.payload msg b) (hex : s.exec me = some t) :
    Before o recv me dst msg old t ∨ After o recv me dst msg t := by
  rcases h.send with ⟨pre, ps, hcode, hpre, hps, hstored⟩
  have hdst := exec_proc_ne hex (Ne.symm hne)
  have hrecv : (t.proc dst).code = recv := by
    rw [hdst]
    exact h.recv
  cases hpre with
  | wait lk =>
      rcases acquire_cases (Sys.exec_of_code hcode hex) with
        ⟨_, hstay⟩ | ⟨_, hcode', hmsg, hword, hflag⟩
      · rw [hstay]
        exact Or.inl h
      · refine Or.inl ⟨⟨_, ps, hcode', Preamble.mark, hps, ?_⟩, ?_, ?_, hrecv⟩
        · intro b
          rw [show x86Msg.payload (t.slot (me, dst)) b = _ from congrFun hword b]
          exact hstored b
        · rw [hmsg]
          exact h.buf
        · rcases hflag with hflag | hflag
          · exact fun hm => absurd (hflag.symm.trans hm) (by decide)
          · exact fun hm => absurd (hflag.symm.trans hm) (by decide)
  | mark =>
      have ht := Sys.exec_of_code hcode hex
      subst ht
      refine Or.inl ⟨⟨[], ps, ?_, Preamble.copy ?_, hps, hstored⟩, ?_, h.flag, hrecv⟩
      · simp [Sys.execAct]
      · simp [Sys.execAct]
      · simpa [Sys.execAct] using h.buf
  | copy hmark =>
      cases ps with
      | nil =>
          -- the word with the state byte
          rcases copyOut_eq (Sys.exec_of_code hcode hex) with ⟨hslot, hcode', hmsg⟩
          refine Or.inr ⟨?_, ?_, ?_, ?_⟩
          · rw [hcode']
            intro a ha
            rcases List.mem_map.1 ha with ⟨p, hp, rfl⟩
            exact ⟨p, hp, rfl⟩
          · rw [hmsg]
            exact h.buf
          · rw [hslot]
            exact (Stored.copy hstored h.buf).of_late hold
          · rw [hrecv]
            exact Copying.wait
      | cons p ps =>
          rcases copyOut_eq (Sys.exec_of_code hcode hex) with ⟨hslot, hcode', hmsg⟩
          refine Or.inl ⟨⟨[], ps, hcode', Preamble.copy ?_, ?_, ?_⟩, ?_, ?_, hrecv⟩
          · rw [hmsg]
            exact hmark
          · intro q hq
            exact hps q (List.mem_cons_of_mem p hq)
          · rw [hslot]
            exact Stored.copy hstored h.buf
          · rw [hmsg]
            exact h.buf
          · have hspare : ¬ p.Has x86Msg.state :=
              StoreOrder.spares_state (Or.inl (hps p List.mem_cons_self))
            rw [hslot, x86Msg.stateOf_copyPiece, if_neg hspare]
            exact h.flag

theorem After.exec_send (hne : me ≠ dst) (h : After o recv me dst msg s) (hex : s.exec me = some t) :
    After o recv me dst msg t := by
  have hdst := exec_proc_ne hex (Ne.symm hne)
  rcases Sys.exec_eq_some hex with ⟨a, rest, hcode, ht⟩
  rcases h.send a (by simp [hcode]) with ⟨p, hp, rfl⟩
  rcases copyOut_eq ht with ⟨hslot, hcode', hmsg⟩
  refine ⟨?_, ?_, ?_, ?_⟩
  · rw [hcode']
    intro a ha
    exact h.send a (by simp [hcode, ha])
  · rw [hmsg]
    exact h.buf
  · rw [hslot]
    exact payload_copy_self h.buf h.word
  · rw [hdst]
    exact h.recv

/-! ### The receiver -/

/-- What one load of the copy leaves. -/
theorem copyIn_eq {p : Piece} {rest : List (Act n)}
    (ht : s.execAct dst (.copyIn me p) rest = t) :
    t.slot = s.slot ∧ (t.proc dst).code = rest ∧
      (t.proc dst).msg = copyPiece p (s.slot (me, dst)) (s.proc dst).msg := by
  subst ht
  simp [Sys.execAct, Sys.setProc]

/-- What the release of the slot leaves. -/
theorem release_eq {rest : List (Act n)}
    (ht : s.execAct dst (.store (.recvBuf me) ssmpBufEmpty) rest = t) :
    x86Msg.payload (t.slot (me, dst)) = x86Msg.payload (s.slot (me, dst)) ∧
      (t.proc dst).code = rest ∧ (t.proc dst).msg = (s.proc dst).msg := by
  subst ht
  simp [Sys.execAct, Sys.setProc, Sys.setFlag, Sys.setSlot, Sys.logRecvd, SlotRef.pair]

theorem Before.exec_recv {old : Line}
    (h : Before o (back.ssmpRecvFromPlatf useAtomic me) me dst msg old s)
    (hex : s.exec dst = some t) :
    Before o (back.ssmpRecvFromPlatf useAtomic me) me dst msg old t := by
  rcases acquire_cases (Sys.exec_of_code h.recv hex) with ⟨_, hstay⟩ | ⟨hfull, _⟩
  · rw [hstay]
    exact h
  · exact absurd hfull h.flag

theorem After.exec_recv (hne : me ≠ dst)
    (h : After o (back.ssmpRecvFromPlatf useAtomic me) me dst msg s) (hex : s.exec dst = some t) :
    After o (back.ssmpRecvFromPlatf useAtomic me) me dst msg t := by
  have hme := exec_proc_ne hex hne
  have hsend : ∀ a ∈ (t.proc me).code, ∃ p ∈ o.late, a = .copyOut dst p := by
    rw [hme]
    exact h.send
  have hbuf : x86Msg.payload (t.proc me).msg = x86Msg.payload msg := by
    rw [hme]
    exact h.buf
  have hrecv := h.recv
  generalize hcode : (s.proc dst).code = c at hrecv
  cases hrecv with
  | wait =>
      rcases acquire_cases (Sys.exec_of_code hcode hex) with
        ⟨_, hstay⟩ | ⟨_, hcode', hmsg, hword, _⟩
      · rw [hstay]
        exact h
      · refine ⟨hsend, hbuf, hword.trans h.word, ?_⟩
        rw [hcode']
        exact Copying.copy fun b => Or.inr (back.exists_has ⟨b.val, x86Msg.payload_lt b⟩)
  | @copy ps hps =>
      cases ps with
      | nil =>
          rcases release_eq (Sys.exec_of_code hcode hex) with ⟨hword, hcode', hmsg⟩
          refine ⟨hsend, hbuf, hword.trans h.word, ?_⟩
          rw [hcode', hmsg]
          exact Copying.done (funext fun b => (hps b).resolve_right (by simp))
      | cons p ps =>
          rcases copyIn_eq (Sys.exec_of_code hcode hex) with ⟨hslot, hcode', hmsg⟩
          refine ⟨hsend, hbuf, by rw [hslot]; exact h.word, ?_⟩
          rw [hcode', hmsg]
          refine Copying.copy ?_
          intro b
          rw [payload_piece]
          by_cases hp : p.Has b.val
          · rw [if_pos hp]
            exact Or.inl (congrFun h.word b)
          · rw [if_neg hp]
            rcases hps b with hb | ⟨q, hq, hqb⟩
            · exact Or.inl hb
            · rcases List.mem_cons.1 hq with rfl | hq
              · exact absurd hqb hp
              · exact Or.inr ⟨q, hq, hqb⟩
  | done hdone => exact absurd hex (Sys.not_exec hcode)

/-! ### Any interleaving -/

theorem Before.other {old : Line} (h : Before o recv me dst msg old s) (hme : t.proc me = s.proc me)
    (hdst : t.proc dst = s.proc dst) (hslot : t.slot (me, dst) = s.slot (me, dst)) :
    Before o recv me dst msg old t :=
  ⟨by rw [hme, hslot]; exact h.send, by rw [hme]; exact h.buf, by rw [hslot]; exact h.flag,
    by rw [hdst]; exact h.recv⟩

theorem After.other (h : After o recv me dst msg s) (hme : t.proc me = s.proc me)
    (hdst : t.proc dst = s.proc dst) (hslot : t.slot (me, dst) = s.slot (me, dst)) :
    After o recv me dst msg t :=
  ⟨by rw [hme]; exact h.send, by rw [hme]; exact h.buf, by rw [hslot]; exact h.word,
    by rw [hdst]; exact h.recv⟩

theorem runs_before_or_after {old : Line} (hne : me ≠ dst)
    (hold : ∀ p ∈ o.late, ∀ b : Fin x86Msg.payloadBytes, p.Has b.val →
      x86Msg.payload old b = x86Msg.payload msg b)
    (h : Before o (back.ssmpRecvFromPlatf useAtomic me) me dst msg old s) (hrun : Runs s t) :
    Before o (back.ssmpRecvFromPlatf useAtomic me) me dst msg old t ∨
      After o (back.ssmpRecvFromPlatf useAtomic me) me dst msg t := by
  induction hrun with
  | refl => exact Or.inl h
  | @tail u t _ hlast ih =>
      rcases hlast with ⟨p, hex⟩
      by_cases hme : p = me
      · subst hme
        rcases ih with ih | ih
        · exact ih.exec_send hne hold hex
        · exact Or.inr (ih.exec_send hne hex)
      · by_cases hdst : p = dst
        · subst hdst
          rcases ih with ih | ih
          · exact Or.inl (ih.exec_recv hex)
          · exact Or.inr (ih.exec_recv hne hex)
        · -- a third process uses other slots
          have hslot : t.slot (me, dst) = u.slot (me, dst) :=
            exec_slot_ne hex (Ne.symm hme) (Ne.symm hdst)
          rcases ih with ih | ih
          · exact Or.inl (ih.other (exec_proc_ne hex (Ne.symm hme)) (exec_proc_ne hex (Ne.symm hdst))
              hslot)
          · exact Or.inr (ih.other (exec_proc_ne hex (Ne.symm hme)) (exec_proc_ne hex (Ne.symm hdst))
              hslot)

theorem before_enter (hne : me ≠ dst) (hempty : x86Msg.stateOf (s₀.slot (me, dst)) = ssmpBufEmpty)
    (call : StoreOrder.Sending) (buf : Line) :
    Before o recv me dst msg (s₀.slot (me, dst))
      ((s₀.enter me (call.code o useAtomic dst) msg).enter dst recv buf) := by
  have hpieces := StoreOrder.pieces_eq (o := o)
  have hstored : Stored (o.early ++ stateWord :: o.late) msg (s₀.slot (me, dst))
      (s₀.slot (me, dst)) := by
    intro b
    rcases StoreOrder.exists_has (o := o) ⟨b.val, x86Msg.payload_lt b⟩ with ⟨p, hp, hb⟩
    exact Or.inr ⟨rfl, p, hpieces ▸ hp, hb⟩
  have hflag : x86Msg.stateOf (s₀.slot (me, dst)) ≠ ssmpBufMessg := by
    rw [hempty]
    decide
  cases call with
  | send =>
      refine ⟨⟨_, o.early, ?_, Preamble.wait useAtomic, fun p hp => hp, hstored⟩, ?_, hflag, ?_⟩
      · simp [Sys.enter, Sys.setProc, hne, StoreOrder.Sending.code, StoreOrder.ssmpSendPlatf,
          StoreOrder.ssmpSendNoSyncPlatf, hpieces]
      · simp [Sys.enter, Sys.setProc, hne]
      · simp [Sys.enter]
  | noSync =>
      refine ⟨⟨_, o.early, ?_, Preamble.mark, fun p hp => hp, hstored⟩, ?_, hflag, ?_⟩
      · simp [Sys.enter, Sys.setProc, hne, StoreOrder.Sending.code,
          StoreOrder.ssmpSendNoSyncPlatf, hpieces]
      · simp [Sys.enter, Sys.setProc, hne]
      · simp [Sys.enter]

/-! ### A run that tears the message -/

theorem Runs.head {p : Fin n} {a : Act n} {rest : List (Act n)}
    (hcode : (s.proc p).code = a :: rest) :
    ∃ u, s.execAct p a rest = u ∧ s.exec p = some u ∧ Runs s u := by
  have hex : s.exec p = some (s.execAct p a rest) := by simp [Sys.exec, hcode]
  exact ⟨_, rfl, hex, Relation.ReflTransGen.single ⟨p, hex⟩⟩

/-- A slot of the awaited state is taken. -/
theorem runs_acquire {lk : Bool} {q : SlotRef n} {v : UInt8} {p : Fin n} {rest : List (Act n)}
    (hcode : (s.proc p).code = acquire lk q v :: rest) (hflag : s.flag p q = v) :
    ∃ t, Runs s t ∧ (t.proc p).code = rest ∧ (t.proc p).msg = (s.proc p).msg ∧
      (∀ i, i ≠ p → t.proc i = s.proc i) ∧
      x86Msg.payload (t.slot (q.pair p)) = x86Msg.payload (s.slot (q.pair p)) := by
  rcases Runs.head hcode with ⟨u, hu, hex, hrun⟩
  rcases acquire_cases hu with ⟨hne, _⟩ | ⟨_, hcode', hmsg, hword, _⟩
  · exact absurd hflag hne
  · exact ⟨u, hrun, hcode', hmsg, fun i hi => exec_proc_ne hex hi, hword⟩

theorem runs_stores (hne : me ≠ dst) {ps : List Piece} {rest : List (Act n)}
    (hcode : (s.proc me).code = ps.map (.copyOut dst) ++ rest) :
    ∃ t, Runs s t ∧ (t.proc me).code = rest ∧ (t.proc me).msg = (s.proc me).msg ∧
      t.proc dst = s.proc dst ∧ ∀ b : Fin x86Msg.payloadBytes, (∀ p ∈ ps, ¬ p.Has b.val) →
        x86Msg.payload (t.slot (me, dst)) b = x86Msg.payload (s.slot (me, dst)) b := by
  induction ps generalizing s with
  | nil => exact ⟨s, Relation.ReflTransGen.refl, hcode, rfl, rfl, fun _ _ => rfl⟩
  | cons p ps ih =>
      rcases Runs.head hcode with ⟨u, hu, hex, hrun⟩
      rcases copyOut_eq hu with ⟨hslot, hcode', hmsg⟩
      rcases ih hcode' with ⟨t, hrun', hcode'', hmsg', hdst, hbytes⟩
      refine ⟨t, hrun.trans hrun', hcode'', hmsg'.trans hmsg,
        hdst.trans (exec_proc_ne hex (Ne.symm hne)), ?_⟩
      intro b hb
      rw [hbytes b fun q hq => hb q (List.mem_cons_of_mem p hq), hslot, payload_piece,
        if_neg (hb p List.mem_cons_self)]

theorem runs_loads {ps : List Piece} {rest : List (Act n)}
    (hcode : (s.proc dst).code = ps.map (.copyIn me) ++ rest) :
    ∃ t, Runs s t ∧ (t.proc dst).code = rest ∧ t.slot = s.slot ∧
      ∀ b : Fin x86Msg.payloadBytes, (∃ p ∈ ps, p.Has b.val) ∨
          x86Msg.payload (s.proc dst).msg b = x86Msg.payload (s.slot (me, dst)) b →
        x86Msg.payload (t.proc dst).msg b = x86Msg.payload (s.slot (me, dst)) b := by
  induction ps generalizing s with
  | nil => exact ⟨s, Relation.ReflTransGen.refl, hcode, rfl, fun b hb => hb.resolve_left (by simp)⟩
  | cons p ps ih =>
      rcases Runs.head hcode with ⟨u, hu, hex, hrun⟩
      rcases copyIn_eq hu with ⟨hslot, hcode', hmsg⟩
      rcases ih hcode' with ⟨t, hrun', hcode'', hslot', hbytes⟩
      refine ⟨t, hrun.trans hrun', hcode'', hslot'.trans hslot, ?_⟩
      intro b hb
      rw [← hslot]
      refine hbytes b ?_
      rw [hmsg, payload_piece, hslot]
      by_cases hp : p.Has b.val
      · exact Or.inr (if_pos hp)
      · rw [if_neg hp]
        rcases hb with ⟨q, hq, hqb⟩ | hb
        · rcases List.mem_cons.1 hq with rfl | hq
          · exact absurd hqb hp
          · exact Or.inl ⟨q, hq, hqb⟩
        · exact Or.inr hb

/-- The send runs up to the store of the state byte, and leaves the bytes of the later words. -/
theorem runs_publish (hne : me ≠ dst) (call : StoreOrder.Sending)
    (hcode : (s.proc me).code = call.code o useAtomic dst)
    (hempty : x86Msg.stateOf (s.slot (me, dst)) = ssmpBufEmpty) :
    ∃ t, Runs s t ∧ t.proc dst = s.proc dst ∧
      x86Msg.stateOf (t.slot (me, dst)) = ssmpBufMessg ∧
      ∀ p ∈ o.late, ∀ b : Fin x86Msg.payloadBytes, p.Has b.val →
        x86Msg.payload (t.slot (me, dst)) b = x86Msg.payload (s.slot (me, dst)) b := by
  -- to the copy
  have hcopy : ∃ u, Runs s u ∧ (u.proc me).code = o.ssmpSendNoSyncPlatf dst ∧
      u.proc dst = s.proc dst ∧
      x86Msg.payload (u.slot (me, dst)) = x86Msg.payload (s.slot (me, dst)) := by
    cases call with
    | send =>
        rcases runs_acquire hcode hempty with ⟨u, hrun, hcode', _, hproc, hword⟩
        exact ⟨u, hrun, hcode', hproc dst (Ne.symm hne), hword⟩
    | noSync => exact ⟨s, Relation.ReflTransGen.refl, hcode, rfl, rfl⟩
  rcases hcopy with ⟨u, hrun, hcode', hdst, hword⟩
  rcases Runs.head hcode' with ⟨v, hv, hex, hmark⟩
  have hv' : (v.proc me).code = o.early.map (.copyOut dst) ++
      .copyOut dst stateWord :: o.late.map (.copyOut dst) := by
    rw [← hv]
    simp [Sys.execAct, StoreOrder.pieces_eq (o := o)]
  rcases runs_stores hne hv' with ⟨w, hearly, hcodew, hmsgw, hdstw, hbytes⟩
  rcases Runs.head hcodew with ⟨t, ht, hext, hpub⟩
  rcases copyOut_eq ht with ⟨hslot, _, _⟩
  have hstate : x86Msg.stateOf (w.proc me).msg = ssmpBufMessg := by
    rw [hmsgw, ← hv]
    simp [Sys.execAct]
  have hslotv : v.slot = u.slot := by
    rw [← hv]
    rfl
  refine ⟨t, ((hrun.trans hmark).trans hearly).trans hpub, ?_, ?_, ?_⟩
  · rw [exec_proc_ne hext (Ne.symm hne), hdstw, exec_proc_ne hex (Ne.symm hne), hdst]
  · have hhas : stateWord.Has x86Msg.state := by decide
    rw [hslot, x86Msg.stateOf_copyPiece, if_pos hhas, hstate]
  · intro p hp b hb
    rw [hslot, payload_piece, if_neg (StoreOrder.not_has_of_late hp hb (Or.inr rfl)),
      hbytes b fun q hq => StoreOrder.not_has_of_late hp hb (Or.inl hq), hslotv]
    exact congrFun hword b

/-- The receiver takes what is in the slot. -/
theorem runs_receive (hcode : (s.proc dst).code = back.ssmpRecvFromPlatf useAtomic me)
    (hfull : x86Msg.stateOf (s.slot (me, dst)) = ssmpBufMessg) :
    ∃ t, Runs s t ∧ (t.proc dst).code = [] ∧
      x86Msg.payload (t.proc dst).msg = x86Msg.payload (s.slot (me, dst)) := by
  rcases runs_acquire hcode hfull with ⟨u, hrun, hcode', _, _, hword⟩
  rcases runs_loads hcode' with ⟨v, hload, hcodev, hslot, hbytes⟩
  rcases Runs.head hcodev with ⟨t, ht, _, hend⟩
  rcases release_eq ht with ⟨_, hcodet, hmsg⟩
  refine ⟨t, (hrun.trans hload).trans hend, hcodet, ?_⟩
  rw [hmsg]
  funext b
  rw [hbytes b (Or.inl (back.exists_has ⟨b.val, x86Msg.payload_lt b⟩))]
  exact congrFun hword b

/-! ### When no message is torn -/

/-- Whatever else runs, the receiver returns the payload sent, if and only if the words that are
stored after the one with the state byte are in the slot already. -/
theorem untorn_iff (o back : StoreOrder) (call : StoreOrder.Sending) (useAtomic : Bool)
    (hne : me ≠ dst) (hempty : x86Msg.stateOf (s₀.slot (me, dst)) = ssmpBufEmpty) (msg : Line) :
    Untorn (call.code o useAtomic dst) (back.ssmpRecvFromPlatf useAtomic me) me dst msg s₀ ↔
      ∀ p ∈ o.late, ∀ b : Fin x86Msg.payloadBytes, p.Has b.val →
        x86Msg.payload (s₀.slot (me, dst)) b = x86Msg.payload msg b := by
  constructor
  · intro huntorn p hp b hb
    -- the receiver takes the slot between the state byte and the later words
    have hcode : (((s₀.enter me (call.code o useAtomic dst) msg).enter dst
        (back.ssmpRecvFromPlatf useAtomic me) fun _ => 0).proc me).code =
        call.code o useAtomic dst := by
      simp [Sys.enter, Sys.setProc, hne]
    rcases runs_publish hne call hcode hempty with ⟨u, hrun, hdst, hfull, hlate⟩
    have hrecv : (u.proc dst).code = back.ssmpRecvFromPlatf useAtomic me := by
      rw [hdst]
      simp [Sys.enter]
    rcases runs_receive hrecv hfull with ⟨t, hrun', hdone, hpay⟩
    calc
      x86Msg.payload (s₀.slot (me, dst)) b = x86Msg.payload (u.slot (me, dst)) b :=
          (hlate p hp b hb).symm
      _ = x86Msg.payload (t.proc dst).msg b := (congrFun hpay b).symm
      _ = x86Msg.payload msg b := congrFun (huntorn _ t (hrun.trans hrun') hdone) b
  · intro hold buf t hrun hdone
    rcases runs_before_or_after hne hold (before_enter hne hempty call buf) hrun with h | h
    · have hrecv := h.recv
      rw [hdone] at hrecv
      cases hrecv
    · exact h.recv.of_nil (List.cons_ne_nil _ _) hdone

/-! ### The word with the state byte first -/

/-- The stores in descending order. -/
def descending : StoreOrder where
  pieces := dwords.reverse
  perm := dwords.reverse_perm

def ascending : StoreOrder where
  pieces := dwords
  perm := List.Perm.refl _

/-- Process 0 of two has sent a message of bytes 7, up to the store of the state byte, through a slot
of bytes 0; process 1 has received. -/
def tornRecv : Sys x86Msg 2 :=
  ((((Sys.fresh x86Msg 2).enter 0 (descending.ssmpSendPlatf false 1) fun _ => 7).enter 1
    (ascending.ssmpRecvFromPlatf false 0) fun _ => 0).runAlone 0 3).runAlone 1 10

theorem runs_runAlone (p : Fin n) (k : Nat) : Runs s (s.runAlone p k) := by
  induction k generalizing s with
  | zero => exact Relation.ReflTransGen.refl
  | succ k ih =>
      cases hex : s.exec p with
      | none =>
          simp only [Sys.runAlone, hex]
          exact Relation.ReflTransGen.refl
      | some t =>
          simp only [Sys.runAlone, hex]
          exact Relation.ReflTransGen.head ⟨p, hex⟩ ih

/-- The receiver returns bytes 0 where bytes 7 have been sent. -/
theorem not_untorn_descending :
    ¬ Untorn (descending.ssmpSendPlatf false 1) (ascending.ssmpRecvFromPlatf false 0) (0 : Fin 2) 1
        (fun _ => 7) (Sys.fresh x86Msg 2) ∧
      (tornRecv.proc 1).code = [] ∧ x86Msg.payload (tornRecv.proc 1).msg = fun _ => 0 := by
  have hdone : (tornRecv.proc 1).code = [] := rfl
  have hpay : x86Msg.payload (tornRecv.proc 1).msg = fun _ => 0 := by decide +kernel
  refine ⟨?_, hdone, hpay⟩
  intro huntorn
  have hsame := huntorn _ tornRecv ((runs_runAlone 0 3).trans (runs_runAlone 1 10)) hdone
  rw [hpay] at hsame
  exact absurd (congrFun hsame ⟨0, by decide⟩) (by decide)

/-- A slot that holds bytes 7 already. -/
def sevens : Sys x86Msg 2 :=
  { Sys.fresh x86Msg 2 with
    slot := fun _ => x86Msg.setState ssmpBufEmpty fun _ => 7 }

theorem untorn_iff_sevens :
    Untorn (StoreOrder.Sending.code descending false 1 .send)
      (ascending.ssmpRecvFromPlatf false 0) (0 : Fin 2) 1 (fun _ => 7) sevens := by
  refine (untorn_iff descending ascending .send false (by decide) rfl _).2 ?_
  intro p _ b _
  exact congrFun (x86Msg.payload_setState ssmpBufEmpty fun _ => 7) b

end Message

end Generic
end Ssmp
