import Ssmp.Receive.Alone
import Ssmp.Receive.Forward

/-!
# Publications — which actions of a call publish a message

A send publishes its message once, by the copy of the state byte or by a store of its own, and a
broadcast once in each slot to another process, in the order of the ids.  This module counts the
publications that a call has left (`publications`): every step moves one from what is left to what
has been sent (`Good.sent_publications`), and the count tells which processes a waiting broadcast has
already sent to (`publications_of_waitsFor`).
-/

namespace Ssmp

open Lib

/-! ## Actions that publish -/

section Pubs

variable {L : MsgLayout} {n : Nat} {me j d : Fin n} {s t : Sys L n} {a : Act n}
variable {c rest : List (Act n)} {ts : Fin n → Typestate n}

/-- How often an action publishes the message in the slot to `j`. -/
def Act.pubs (L : MsgLayout) (j : Fin n) : Act n → Nat
  | .copyOut d p => if d = j ∧ p.Has L.state then 1 else 0
  | .store (.sendBuf d) v => if d = j ∧ v = ssmpBufMessg then 1 else 0
  | _ => 0

/-- How often the actions `c` publish the message in the slot to `j`. -/
def publications (L : MsgLayout) (j : Fin n) (c : List (Act n)) : Nat :=
  (c.map (Act.pubs L j)).sum

@[simp] theorem publications_nil : publications L j [] = 0 := rfl

@[simp] theorem publications_cons :
    publications L j (a :: c) = a.pubs L j + publications L j c := by
  simp [publications]

@[simp] theorem publications_append {c' : List (Act n)} :
    publications L j (c ++ c') = publications L j c + publications L j c' := by
  simp [publications]

/-- What follows a test publishes nothing. -/
def Act.BodySilent (L : MsgLayout) (a : Act n) : Prop :=
  ∀ k j, publications L j (a.body k) = 0

theorem bodySilent_scanInvariant (L : MsgLayout) : ScanInvariant (Act.BodySilent (n := n) L) := by
  intro num test body k k' h
  exact h

theorem probe_sent (tst : Option (Fin n × Bool)) (hit : List (Act n)) (next : Proc n) :
    (s.probe me tst hit next).sent = s.sent := by
  cases tst with
  | none => rfl
  | some rl =>
      simp only [Sys.probe]
      split
      · split <;> rfl
      · rfl

theorem probe_arg (tst : Option (Fin n × Bool)) (hit : List (Act n)) {next : Proc n}
    (hnext : next.arg = (s.proc me).arg) :
    ((s.probe me tst hit next).proc me).arg = (s.proc me).arg := by
  cases tst with
  | none => simpa [Sys.probe] using hnext
  | some rl =>
      simp only [Sys.probe]
      split
      · split <;> simp
      · simpa using hnext

/-- A process sends only from its own slots. -/
theorem execAct_sent_ne {i : Fin n} (hi : i ≠ me) :
    (s.execAct me a rest).sent (i, j) = s.sent (i, j) := by
  have hlog : ∀ (u : Sys L n) (d : Fin n) (m : L.Payload),
      (u.logSent (me, d) m).sent (i, j) = u.sent (i, j) := by
    intro u d m
    exact Function.update_of_ne (fun heq => hi (Prod.mk.inj heq).1) _ _
  cases a with
  | store q v =>
      cases q with
      | sendBuf d =>
          simp only [Sys.execAct]
          split
          · exact hlog _ _ _
          · rfl
      | recvBuf r => simp only [Sys.execAct]; split <;> rfl
  | copyOut d p =>
      simp only [Sys.execAct]
      split
      · exact hlog _ _ _
      · rfl
  | scan num test body k =>
      simp only [Sys.execAct]
      split
      · rw [probe_sent]
      · rfl
  | scanStart num test body =>
      simp only [Sys.execAct]
      split
      · rw [probe_sent]
      · rfl
  | await q v => simp only [Sys.execAct]; split <;> rfl
  | cas q old new => simp only [Sys.execAct]; split <;> rfl
  | _ => rfl

/-- The message as it was passed to the call stays during the call. -/
theorem execAct_arg : ((s.execAct me a rest).proc me).arg = (s.proc me).arg := by
  cases a with
  | store q v =>
      cases q with
      | sendBuf d => simp only [Sys.execAct]; split <;> simp [Sys.logSent]
      | recvBuf r => simp only [Sys.execAct]; split <;> simp [Sys.logRecvd]
  | copyOut d p => simp only [Sys.execAct]; split <;> simp
  | scan num test body k =>
      simp only [Sys.execAct]
      split
      · exact probe_arg _ _ rfl
      · simp
  | scanStart num test body =>
      simp only [Sys.execAct]
      split
      · exact probe_arg _ _ rfl
      · simp
  | await q v => simp only [Sys.execAct]; split <;> simp
  | cas q old new => simp only [Sys.execAct]; split <;> simp
  | _ => simp [Sys.execAct]

/-- A publishing action logs the message of the call, if the buffer is marked where it must be. -/
theorem execAct_sent
    (hmark : ∀ d p, a = .copyOut d p → p.Has L.state → L.stateOf (s.proc me).msg = ssmpBufMessg) :
    (s.execAct me a rest).sent (me, j) =
      s.sent (me, j) ++ List.replicate (a.pubs L j) (L.payload (s.proc me).arg) := by
  have hlog : ∀ (u : Sys L n) (d : Fin n) (m : L.Payload), u.sent = s.sent →
      (u.logSent (me, d) m).sent (me, j) =
        s.sent (me, j) ++ List.replicate (if d = j then 1 else 0) m := by
    intro u d m hu
    by_cases hd : d = j
    · subst hd
      simp [Sys.logSent, hu]
    · have hne : (me, j) ≠ (me, d) := fun heq => hd (Prod.mk.inj heq).2.symm
      simp [Sys.logSent, Function.update_of_ne hne, hd, hu]
  cases a with
  | store q v =>
      cases q with
      | sendBuf d =>
          simp only [Sys.execAct]
          by_cases hv : v = ssmpBufMessg
          · rw [if_pos hv]
            refine (hlog _ d _ rfl).trans ?_
            simp [Act.pubs, hv]
          · simp [Act.pubs, hv, Sys.setProc, Sys.setFlag, Sys.setSlot]
      | recvBuf r =>
          simp only [Sys.execAct]
          split <;> simp [Act.pubs, Sys.setProc, Sys.setFlag, Sys.setSlot, Sys.logRecvd]
  | copyOut d p =>
      by_cases hp : p.Has L.state
      · simp only [Sys.execAct, hp, hmark d p rfl hp, true_and, if_true]
        simpa [Act.pubs, hp, Sys.setProc] using hlog (s.setSlot (me, d) _) d _ rfl
      · simp [Sys.execAct, hp, Act.pubs, Sys.setProc, Sys.setSlot]
  | scan num test body k =>
      simp only [Sys.execAct]
      split
      · rw [probe_sent]
        simp [Act.pubs]
      · simp [Act.pubs, Sys.setProc]
  | scanStart num test body =>
      simp only [Sys.execAct]
      split
      · rw [probe_sent]
        simp [Act.pubs]
      · simp [Act.pubs, Sys.setProc]
  | await q v => simp only [Sys.execAct]; split <;> simp [Act.pubs, Sys.setProc]
  | cas q old new =>
      simp only [Sys.execAct]
      split <;> simp [Act.pubs, Sys.setProc, Sys.setFlag, Sys.setSlot]
  | _ => simp [Sys.execAct, Act.pubs, Sys.setProc]

/-- What is left to publish after an action. -/
theorem publications_execAct (hcode : (s.proc me).code = a :: rest) (hsilent : a.BodySilent L) :
    publications L j (a :: rest) =
      a.pubs L j + publications L j ((s.execAct me a rest).proc me).code := by
  by_cases hpubs : a.pubs L j = 0
  · rcases execAct_code (s := s) hcode with heq | heq | ⟨k, heq⟩ | ⟨num, test, body, k, k', rfl, heq⟩
    · rw [heq, publications_cons]
    · rw [heq, hpubs, Nat.zero_add]
    · rw [heq, publications_cons, publications_append, hsilent k j, Nat.zero_add]
    · rw [heq, publications_cons, publications_cons]
      simp [Act.pubs]
  · -- a publishing action goes on with the next one
    have heq : ((s.execAct me a rest).proc me).code = rest := by
      cases a with
      | copyOut d p => simp only [Sys.execAct]; split <;> simp
      | store q v =>
          cases q with
          | sendBuf d => simp only [Sys.execAct]; split <;> simp [Sys.logSent]
          | recvBuf r => exact absurd rfl hpubs
      | _ => exact absurd rfl hpubs
    rw [heq, publications_cons]

/-- In a disciplined call a copy of the state byte is one of a marked message. -/
theorem Good.marked_copyOut (h : Good ts s) (hcode : (s.proc me).code = a :: rest) :
    ∀ d p, a = .copyOut d p → p.Has L.state → L.stateOf (s.proc me).msg = ssmpBufMessg := by
  rintro d p rfl hp
  have hD := h.disciplined me
  rw [hcode] at hD
  generalize ht : ts me = t at hD
  cases hD with
  | fill hst _ => exact absurd hp hst
  | trail hst _ _ => exact absurd hp hst
  | publish _ _ _ => exact (h.ok me).marked _ _ _ ht

/-- What has been sent and what is left to publish make up the same sequence after a step. -/
theorem Good.sent_publications (h : Good ts s)
    (hsilent : EveryIn (Act.BodySilent L) (s.proc me).code) (hex : s.exec me = some t) (i j : Fin n) :
    t.sent (i, j) ++ List.replicate (publications L j (t.proc i).code) (L.payload (t.proc i).arg) =
      s.sent (i, j) ++
        List.replicate (publications L j (s.proc i).code) (L.payload (s.proc i).arg) := by
  rcases Sys.exec_eq_some hex with ⟨a, rest, hcode, rfl⟩
  by_cases hi : i = me
  · subst hi
    rw [execAct_sent (h.marked_copyOut hcode), execAct_arg, List.append_assoc, hcode,
      publications_execAct hcode (hsilent a (by simp [hcode])).head, List.replicate_add]
  · rw [execAct_sent_ne hi, execAct_proc_ne hi]

end Pubs

/-! ## The calls of a build -/

section Builds

variable {L : MsgLayout} {n : Nat} {me j d : Fin n} {a : Act n} {c : List (Act n)}

theorem publications_copies {ps : List Piece} (hst : ∀ p ∈ ps, ¬ p.Has L.state) :
    publications L j (ps.map (.copyOut d)) = 0 := by
  induction ps with
  | nil => rfl
  | cons p ps ih =>
      simp only [List.map_cons, publications_cons, Act.pubs, hst p List.mem_cons_self, and_false,
        if_false, Nat.zero_add]
      exact ih fun q hq => hst q (List.mem_cons_of_mem p hq)

theorem publications_toSlot (m : Memcpy L) :
    publications L j (m.toSlot d) = if d = j then 1 else 0 := by
  have hfill := @publications_copies L n j d m.out.fill fun p hp => m.out.flag_once p (by simp [hp])
  have htrail := @publications_copies L n j d m.out.trail fun p hp => m.out.flag_once p (by simp [hp])
  simp [Memcpy.toSlot, CopyOut.pieces, hfill, htrail, Act.pubs, m.out.flag_has]

theorem publications_sendLineNoSync (m : Memcpy L) :
    publications L j (sendLineNoSync m d) = if d = j then 1 else 0 := by
  rw [sendLineNoSync, publications_cons, publications_toSlot]
  simp [Act.pubs]

/-- A blocking send waits for its slot once, at the beginning, and publishes once. -/
structure SendsTo (L : MsgLayout) (d : Fin n) (c : List (Act n)) : Prop where
  waits : ∃ lk tail, c = acquire lk (.sendBuf d) ssmpBufEmpty :: tail ∧
    ∀ a ∈ tail, ∀ q v, a ≠ .await q v ∧ ∀ new, a ≠ .cas q v new
  publishes : ∀ j, publications L j c = if d = j then 1 else 0

theorem pubs_acquire (lk : Bool) (q : SlotRef n) (v : UInt8) : (acquire lk q v).pubs L j = 0 := by
  cases lk <;> rfl

theorem sendsTo_sendLine (m : Memcpy L) (lk : Bool) (d : Fin n) : SendsTo L d (sendLine m lk d) where
  waits := by
    refine ⟨lk, _, rfl, ?_⟩
    intro a ha q v
    rcases List.mem_cons.1 ha with rfl | hmem
    · exact ⟨by simp, by simp⟩
    · rcases List.mem_map.1 hmem with ⟨p, _, rfl⟩
      exact ⟨by simp, by simp⟩
  publishes j := by
    have hrest := @publications_sendLineNoSync L n j d m
    rw [sendLine, publications_cons, pubs_acquire, Nat.zero_add]
    exact hrest

theorem publications_ssmpSendNoSyncPlatf {v : SparcMsg} (o : Niagara.CopyOrder v) :
    publications (sparcMsg v) j (Niagara.ssmpSendNoSyncPlatf o d) = if d = j then 1 else 0 := by
  rw [Niagara.ssmpSendNoSyncPlatf, publications_append, publications_copies o.spares_state]
  simp [Act.pubs]

theorem sendsTo_ssmpSendPlatf {v : SparcMsg} (o : Niagara.CopyOrder v) (d : Fin n) :
    SendsTo (sparcMsg v) d (Niagara.ssmpSendPlatf o d) where
  waits := by
    refine ⟨false, _, rfl, ?_⟩
    intro a ha q w
    rcases List.mem_append.1 ha with hmem | hmem
    · rcases List.mem_map.1 hmem with ⟨p, _, rfl⟩
      exact ⟨by simp, by simp⟩
    · rw [List.mem_singleton.1 hmem]
      exact ⟨by simp, by simp⟩
  publishes j := by
    rw [Niagara.ssmpSendPlatf, publications_cons, publications_ssmpSendNoSyncPlatf]
    simp [Act.pubs]

theorem Build.sendsTo (b : Build) (me d : Fin n) :
    SendsTo b.layout d ((b.platform me).ssmpSendPlatf d) := by
  cases b with
  | niagara v o => exact sendsTo_ssmpSendPlatf o d
  | _ => exact sendsTo_sendLine _ _ d

theorem Build.publications_noSync (b : Build) (me d j : Fin n) :
    publications b.layout j ((b.platform me).ssmpSendNoSyncPlatf d) = if d = j then 1 else 0 := by
  cases b with
  | niagara v o => exact publications_ssmpSendNoSyncPlatf o
  | _ => exact publications_sendLineNoSync _

theorem Build.sends_send (b : Build) (me d : Fin n) :
    ∀ a ∈ (b.platform me).ssmpSendPlatf d, a.Sends := by
  cases b with
  | niagara v o => exact fun a ha => Or.inl (sparesMsg_ssmpSendPlatf o d a ha)
  | _ => exact (marksMsg_sendLine _ _ d).sends

theorem Build.sends_noSync (b : Build) (me d : Fin n) :
    ∀ a ∈ (b.platform me).ssmpSendNoSyncPlatf d, a.Sends := by
  cases b with
  | niagara v o => exact fun a ha => Or.inl (sparesMsg_ssmpSendNoSyncPlatf o d a ha)
  | _ => exact (marksMsg_sendLineNoSync _ d).sends

/-- Sends and broadcasts have no scanning loops. -/
theorem Build.sends (b : Build) (me : Fin n) (call : SendCall n) :
    ∀ a ∈ call.code (b.platform me) me, a.Sends := by
  cases call with
  | send d => exact b.sends_send me d
  | sendNoSync d => exact b.sends_noSync me d
  | broadcast =>
      intro a ha
      rcases mem_broadcast.1 ha with ⟨core, _, hmem⟩
      exact b.sends_send me core a hmem

theorem Act.Sends.body_eq (h : a.Sends) (k : Nat) : a.body k = [] := by
  rcases h with h | rfl
  · cases a with
    | scan num test body i => exact absurd h id
    | scanStart num test body => exact absurd h id
    | _ => rfl
  · rfl

/-! ### A broadcast -/

/-- The sends of a broadcast to the processes `cores`. -/
def broadcastTo (ssmpSend : Fin n → List (Act n)) (me : Fin n) (cores : List (Fin n)) :
    List (Act n) :=
  cores.flatMap fun core => if core = me then [] else ssmpSend core

theorem publications_broadcastTo {ssmpSend : Fin n → List (Act n)}
    (hsend : ∀ d, SendsTo L d (ssmpSend d)) {cores : List (Fin n)} (hnodup : cores.Nodup) :
    publications L j (broadcastTo ssmpSend me cores) = if j ∈ cores ∧ j ≠ me then 1 else 0 := by
  induction cores with
  | nil => simp [broadcastTo]
  | cons core cores ih =>
      rcases List.nodup_cons.1 hnodup with ⟨hcore, hrest⟩
      have htail := ih hrest
      simp only [broadcastTo] at htail
      simp only [broadcastTo, List.flatMap_cons, publications_append, htail]
      by_cases hme : core = me
      · subst hme
        by_cases hj : j = core
        · simp [hj]
        · simp [hj]
      · rw [if_neg hme, (hsend core).publishes]
        by_cases hj : core = j
        · subst hj
          simp [hcore, hme]
        · simp [hj, Ne.symm hj]

/-- The action waits for the slot to `d` to be empty. -/
def WaitsFor (d : Fin n) (a : Act n) : Prop :=
  a = .await (.sendBuf d) ssmpBufEmpty ∨ ∃ new, a = .cas (.sendBuf d) ssmpBufEmpty new

/-- A wait is not among actions that do not wait. -/
theorem suffix_of_waitsFor {tail rest : List (Act n)}
    (htail : ∀ a ∈ tail, ∀ q v, a ≠ .await q v ∧ ∀ new, a ≠ .cas q v new) (ha : WaitsFor d a)
    (h : a :: c <:+ tail ++ rest) : a :: c <:+ rest := by
  induction tail with
  | nil => exact h
  | cons b tail ih =>
      rcases List.suffix_cons_iff.1 h with heq | h
      · injection heq with hb _
        subst hb
        rcases ha with rfl | ⟨new, rfl⟩
        · exact absurd rfl (htail _ List.mem_cons_self _ _).1
        · exact absurd rfl ((htail _ List.mem_cons_self _ _).2 new)
      · exact ih (fun x hx => htail x (List.mem_cons_of_mem b hx)) h

/-- What is left of a broadcast that waits for the slot to `d`: the sends from `d` on. -/
theorem publications_of_waitsFor {ssmpSend : Fin n → List (Act n)}
    (hsend : ∀ d, SendsTo L d (ssmpSend d)) {cores : List (Fin n)}
    (hsorted : cores.Pairwise (· < ·)) (hsuffix : a :: c <:+ broadcastTo ssmpSend me cores)
    (ha : WaitsFor d a) :
    d ∈ cores ∧ d ≠ me ∧
      ∀ j, publications L j (a :: c) = if j ∈ cores ∧ j ≠ me ∧ d ≤ j then 1 else 0 := by
  -- by induction on the processes to send to: `d` is the first one or a later one
  induction cores with
  | nil =>
      have hnil := List.suffix_nil.1 hsuffix
      cases hnil
  | cons core cores ih =>
      rcases List.pairwise_cons.1 hsorted with ⟨hlt, hrest⟩
      have hlater : a :: c <:+ broadcastTo ssmpSend me cores →
          d ∈ core :: cores ∧ d ≠ me ∧
            ∀ j, publications L j (a :: c) = if j ∈ core :: cores ∧ j ≠ me ∧ d ≤ j then 1 else 0 := by
        intro h
        rcases ih hrest h with ⟨hmem, hne, hpubs⟩
        refine ⟨List.mem_cons_of_mem _ hmem, hne, ?_⟩
        intro j
        have hcore : ¬ (j = core ∧ d ≤ j) := by
          rintro ⟨rfl, hle⟩
          exact absurd (hlt d hmem) (Fin.not_lt.2 hle)
        rw [hpubs j]
        refine if_congr ?_ rfl rfl
        rw [List.mem_cons]
        tauto
      have hsplit : broadcastTo ssmpSend me (core :: cores) =
          (if core = me then [] else ssmpSend core) ++ broadcastTo ssmpSend me cores := rfl
      rw [hsplit] at hsuffix
      by_cases hme : core = me
      · rw [if_pos hme] at hsuffix
        exact hlater hsuffix
      · rw [if_neg hme] at hsuffix
        rcases (hsend core).waits with ⟨lk, tail, heq, htail⟩
        rw [heq, List.cons_append, List.suffix_cons_iff] at hsuffix
        rcases hsuffix with hall | hsuffix
        · -- nothing has been sent to `core`
          injection hall with hhead hc
          have hd : d = core := by
            rw [hhead] at ha
            rcases ha with ha | ⟨new, ha⟩
            · cases lk <;> simp [acquire] at ha
              exact ha.symm
            · cases lk <;> simp [acquire] at ha
              exact ha.1.symm
          subst hd
          refine ⟨List.mem_cons_self, hme, ?_⟩
          intro j
          have hpubs := (hsend d).publishes j
          rw [heq, publications_cons] at hpubs
          have hnodup : cores.Nodup := hrest.imp fun hab => ne_of_lt hab
          rw [publications_cons, hhead, hc, publications_append, ← Nat.add_assoc, hpubs,
            publications_broadcastTo hsend hnodup]
          by_cases hj : d = j
          · subst hj
            have hnot : d ∉ cores := fun hmem => absurd (hlt d hmem) (lt_irrefl d)
            simp [hnot, hme]
          · have hle : j ∈ cores → d ≤ j := fun hmem => le_of_lt (hlt j hmem)
            rw [if_neg hj, Nat.zero_add]
            refine if_congr ?_ rfl rfl
            rw [List.mem_cons]
            have hj' : j ≠ d := fun h => hj h.symm
            tauto
        · exact hlater (suffix_of_waitsFor htail ha hsuffix)

/-! ### The other calls -/

theorem bodySilent_of_body_eq (h : ∀ k, a.body k = []) : a.Every (Act.BodySilent L) :=
  Act.Every.single (fun k j => by rw [h k]; rfl) h

theorem Sends.bodySilent (h : ∀ a ∈ c, a.Sends) : EveryIn (Act.BodySilent L) c :=
  fun a ha => bodySilent_of_body_eq (h a ha).body_eq

theorem publications_eq_zero (h : ∀ a ∈ c, a.pubs L j = 0) : publications L j c = 0 := by
  induction c with
  | nil => rfl
  | cons a c ih =>
      rw [publications_cons, h a List.mem_cons_self, Nat.zero_add]
      exact ih fun b hb => h b (List.mem_cons_of_mem a hb)

/-- An action that is neither a test nor writes to another process. -/
def Act.Private : Act n → Prop
  | .isFree _ | .setState _ | .setSender _ | .copyIn _ _ | .advance _ => True
  | .await (.recvBuf _) _ | .cas (.recvBuf _) _ _ | .store (.recvBuf _) _ => True
  | _ => False

theorem Act.Private.pubs_eq (h : a.Private) : a.pubs L j = 0 ∧ ∀ k, a.body k = [] := by
  cases a with
  | await q v => exact ⟨rfl, fun _ => rfl⟩
  | cas q old new => exact ⟨rfl, fun _ => rfl⟩
  | store q v =>
      cases q with
      | sendBuf d => exact absurd h id
      | recvBuf r => exact ⟨rfl, fun _ => rfl⟩
  | copyOut d p => exact absurd h id
  | scan num test body k => exact absurd h id
  | scanStart num test body => exact absurd h id
  | _ => exact ⟨rfl, fun _ => rfl⟩

theorem private_silent (h : ∀ a ∈ c, a.Private) :
    publications L j c = 0 ∧ EveryIn (Act.BodySilent L) c :=
  ⟨publications_eq_zero fun a ha => (h a ha).pubs_eq.1,
    fun a ha => bodySilent_of_body_eq ((h a ha).pubs_eq (L := L) (j := j)).2⟩

theorem private_acquire (lk : Bool) (src : Fin n) (v : UInt8) :
    (acquire lk (.recvBuf src) v).Private := by
  cases lk <;> exact trivial

/-- Reading a message publishes nothing. -/
theorem private_read {ps : List Piece} {read : Fin n → UInt32 → List (Act n)}
    (hread : ReadsPieces ps read) (src : Fin n) (id : UInt32) : ∀ a ∈ read src id, a.Private := by
  rcases hread src id with ⟨tail, heq, htail⟩
  intro a ha
  rw [heq] at ha
  rcases List.mem_append.1 ha with hmem | hmem
  · rcases List.mem_map.1 hmem with ⟨p, _, rfl⟩
    exact trivial
  · rcases htail with rfl | rfl
    · rcases List.mem_pair.1 hmem with rfl | rfl <;> exact trivial
    · rcases List.mem_pair.1 hmem with rfl | rfl <;> exact trivial

theorem private_recvLine (m : Memcpy L) (lk : Bool) (src : Fin n) :
    ∀ a ∈ recvLine m lk src, a.Private := by
  intro a ha
  rcases List.mem_cons.1 ha with rfl | hmem
  · exact private_acquire lk src _
  · rcases List.mem_append.1 hmem with hmem | hmem
    · rcases List.mem_map.1 hmem with ⟨p, _, rfl⟩
      exact trivial
    · rw [List.mem_singleton.1 hmem]
      exact trivial

theorem private_ssmpRecvFromPlatf {v : SparcMsg} (o : Niagara.CopyOrder v) (src : Fin n) :
    ∀ a ∈ Niagara.ssmpRecvFromPlatf o src, a.Private := by
  intro a ha
  rcases List.mem_cons.1 ha with rfl | hmem
  · exact trivial
  · rcases List.mem_append.1 hmem with hmem | hmem
    · rcases List.mem_map.1 hmem with ⟨p, _, rfl⟩
      exact trivial
    · rw [List.mem_singleton.1 hmem]
      exact trivial

theorem Build.private_recvFrom (b : Build) (me src : Fin n) :
    ∀ a ∈ (b.platform me).ssmpRecvFromPlatf src, a.Private := by
  cases b with
  | niagara v o => exact private_ssmpRecvFromPlatf o src
  | _ => exact private_recvLine _ _ src

theorem Build.sendIsFree_eq (b : Build) (me d : Fin n) :
    (b.platform me).ssmpSendIsFreePlatf d = [.isFree d] := by
  cases b <;> rfl

/-- A scanning receive publishes nothing, nor do its bodies. -/
theorem silent_scan {num : Nat} {test : Nat → Option (Fin n × Bool)} {body : Nat → List (Act n)}
    (hbody : ∀ k, ∀ a ∈ body k, a.Private) (hscan : a = .scan num test body 0 ∨
      a = .scanStart num test body) :
    publications L j [a] = 0 ∧ EveryIn (Act.BodySilent L) [a] := by
  have hsilent : ∀ k j, publications L j (body k) = 0 := fun k j => (private_silent (hbody k)).1
  have hevery : ∀ k, EveryIn (Act.BodySilent L) (body k) :=
    fun k => (private_silent (j := j) (hbody k)).2
  rcases hscan with rfl | rfl
  · exact ⟨rfl, EveryIn.cons (Act.Every.intro hsilent hevery) EveryIn.nil⟩
  · exact ⟨rfl, EveryIn.cons (Act.Every.intro hsilent hevery) EveryIn.nil⟩

theorem private_recvBody {ps : List Piece} {read : Fin n → UInt32 → List (Act n)}
    (hread : ReadsPieces ps read) (k : Nat) : ∀ a ∈ recvBody read k, a.Private := by
  intro a ha
  cases hk : idAt n k with
  | none => simp [recvBody, hk] at ha
  | some src =>
      simp only [recvBody, hk] at ha
      exact private_read hread src _ a ha

theorem private_colorBody {ps : List Piece} {read : Fin n → UInt32 → List (Act n)}
    (hread : ReadsPieces ps read) (cbuf : ColorBuf n) (k : Nat) :
    ∀ a ∈ colorBody read cbuf k, a.Private := by
  intro a ha
  cases hk : cbuf.buf[k]? with
  | none => simp [colorBody, hk] at ha
  | some src =>
      simp only [colorBody, hk] at ha
      exact private_read hread src _ a ha

/-- The receives of a build and `ssmp_send_is_free`. -/
inductive Listens (P : Platform n) (me : Fin n) : List (Act n) → Prop where
  | sendIsFree {dst : Fin n} (h : me ≠ dst) : Listens P me (P.ssmpSendIsFreePlatf dst)
  | recvFrom {src : Fin n} (h : src ≠ me) : Listens P me (P.ssmpRecvFromPlatf src)
  | recv : Listens P me P.ssmpRecvPlatf
  | recvColor (color : Int → Int) :
      Listens P me (P.ssmpRecvColorPlatf (ssmpColorBufInitPlatf me color))
  | recvColorStart (color : Int → Int) :
      Listens P me (P.ssmpRecvColorStartPlatf (ssmpColorBufInitPlatf me color))

theorem Listens.silent {b : Build} (h : Listens (b.platform me) me c) (j : Fin n) :
    publications b.layout j c = 0 ∧ EveryIn (Act.BodySilent b.layout) c := by
  rcases b.scansPieces me with ⟨lk, locks, read, readColor, hread, hreadColor, hscans⟩
  cases h with
  | sendIsFree _ =>
      rw [b.sendIsFree_eq]
      exact private_silent fun a ha => by rw [List.mem_singleton.1 ha]; exact trivial
  | recvFrom _ => exact private_silent (b.private_recvFrom me _)
  | recv =>
      rw [hscans.recv]
      exact silent_scan (private_recvBody hread) (Or.inl rfl)
  | recvColor color =>
      rw [hscans.recvColor]
      exact silent_scan (private_colorBody hreadColor _) (Or.inl rfl)
  | recvColorStart color =>
      rw [hscans.recvColorStart]
      refine silent_scan ?_ (Or.inr rfl)
      intro k a ha
      rcases List.mem_append.1 ha with hmem | hmem
      · exact private_colorBody hreadColor _ k a hmem
      · rw [List.mem_singleton.1 hmem]
        exact trivial

theorem Build.sends_publications (b : Build) (me j : Fin n) (call : SendCall n) :
    publications b.layout j (call.code (b.platform me) me) =
      match call with
      | .send d => if d = j then 1 else 0
      | .sendNoSync d => if d = j then 1 else 0
      | .broadcast => if j = me then 0 else 1 := by
  cases call with
  | send d => exact (b.sendsTo me d).publishes j
  | sendNoSync d => exact b.publications_noSync me d j
  | broadcast =>
      refine (publications_broadcastTo (b.sendsTo me) (List.nodup_finRange n)).trans ?_
      simp [ite_not]

end Builds

end Ssmp
