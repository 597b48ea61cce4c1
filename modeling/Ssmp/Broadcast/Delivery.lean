import Ssmp.Broadcast.Publications

/-!
# Delivery — what `ssmp_broadcast` and `ssmp_send` deliver

A broadcast is a loop of blocking sends of one message, in the order of the ids.  While it waits for
one slot, the receivers before it may have the message already.  The processes here make any calls of
the library, and a history records which sends and broadcasts each has issued.
-/

namespace Ssmp

open Lib

/-! ## Systems with a history of calls -/

section Traced

variable {n : Nat} {b : Build} {me j d : Fin n}

/-- The call may be made by `me`: it has no slot to itself, and `ssmp_send_no_sync` needs a free
slot. -/
def SendCall.Allowed (me : Fin n) (free : Fin n → Bool) : SendCall n → Prop
  | .send dst => me ≠ dst
  | .sendNoSync dst => me ≠ dst ∧ free dst = true
  | .broadcast => True

/-- The call of `me` is to send a message to `j`. -/
def SendCall.reaches (me j : Fin n) : SendCall n → Bool
  | .send dst => dst = j
  | .sendNoSync dst => dst = j
  | .broadcast => j ≠ me

/-- The state of the processes; the sends and broadcasts that each has issued, with the messages; and
the one that each is in. -/
structure Traced (b : Build) (n : Nat) where
  sys : Sys b.layout n
  issued : Fin n → List (SendCall n × b.layout.Payload)
  current : Fin n → Option (SendCall n)

/-- The messages that `me` has issued to `j`, in the order of issue. -/
def toward {α : Type} (me j : Fin n) (issued : List (SendCall n × α)) : List α :=
  (issued.filter fun call => call.1.reaches me j).map Prod.snd

/-- The sends and broadcasts of `me` that have returned. -/
def Traced.returned (x : Traced b n) (me : Fin n) : List (SendCall n × b.layout.Payload) :=
  if (x.sys.proc me).code = [] ∨ x.current me = none then x.issued me else (x.issued me).dropLast

namespace Traced

inductive Step (b : Build) : Traced b n → Label n → Traced b n → Prop where
  | send {x : Traced b n} {me : Fin n} (call : SendCall n) (msg : Line)
      (hidle : (x.sys.proc me).code = []) (hcall : call.Allowed me (x.sys.proc me).free) :
      Step b x (.call me (call.code (b.platform me) me) msg)
        { sys := x.sys.enter me (call.code (b.platform me) me) msg
          issued := Function.update x.issued me (x.issued me ++ [(call, b.layout.payload msg)])
          current := Function.update x.current me (some call) }
  | listen {x : Traced b n} {me : Fin n} {code : List (Act n)} (msg : Line)
      (hidle : (x.sys.proc me).code = []) (hcode : Listens (b.platform me) me code) :
      Step b x (.call me code msg)
        { x with
          sys := x.sys.enter me code msg
          current := Function.update x.current me none }
  | run {x : Traced b n} {me : Fin n} {t : Sys b.layout n} (hex : x.sys.exec me = some t) :
      Step b x (.run me) { x with sys := t }

/-- Nothing has been called. -/
structure Init (x : Traced b n) : Prop where
  sys : x.sys.Init
  issued : ∀ me, x.issued me = []
  current : ∀ me, x.current me = none

end Traced

def tracedSystem (b : Build) (n : Nat) : TransSys (Traced b n) (Label n) where
  init := Traced.Init
  step := Traced.Step b

/-- The calls of the processes. -/
abbrev Build.calls (b : Build) (n : Nat) : Program n :=
  Ssmp.calls (fun _ : Unit => b.platform) (· ≠ ·)

theorem calls_of_listens {free : Fin n → Bool} {code : List (Act n)}
    (h : Listens (b.platform me) me code) : b.calls n me free code := by
  cases h with
  | sendIsFree h => exact calls.ssmpSendIsFree () h
  | recvFrom h => exact calls.ssmpRecvFrom () h
  | recv => exact calls.ssmpRecv ()
  | recvColor color => exact calls.ssmpRecvColor () color
  | recvColorStart color => exact calls.ssmpRecvColorStart () color

theorem calls_of_allowed {free : Fin n → Bool} {call : SendCall n} (h : call.Allowed me free) :
    b.calls n me free (call.code (b.platform me) me) := by
  cases call with
  | send dst => exact calls.ssmpSend () h
  | sendNoSync dst => exact calls.ssmpSendNoSync () h.1 h.2
  | broadcast => exact calls.ssmpBroadcast fun _ => ()

theorem Build.disciplined_platform (b : Build) (me : Fin n) :
    (b.platform me).Disciplined b.layout := by
  cases b with
  | generic m useAtomic => exact Generic.disciplined_platform
  | opteron m useAtomic => exact Generic.disciplined_platform
  | xeon m sameSocket useAtomic => exact Xeon.disciplined_platform
  | niagara v o => exact Niagara.disciplined_platform

theorem Build.disciplined_calls (b : Build) (n : Nat) : (b.calls n).Disciplined b.layout :=
  calls_disciplined (fun _ me => b.disciplined_platform me) _

theorem Build.bodySilent_calls (b : Build) (n : Nat) :
    (b.calls n).Every (Act.BodySilent b.layout) := by
  intro me free code hcall
  cases hcall with
  | ssmpSend x h => exact Sends.bodySilent (b.sends_send me _)
  | ssmpSendIsFree x h => exact ((Listens.sendIsFree h).silent me).2
  | ssmpSendNoSync x h hfree => exact Sends.bodySilent (b.sends_noSync me _)
  | ssmpBroadcast x => exact Sends.bodySilent (b.sends me .broadcast)
  | ssmpRecvFrom x h => exact ((Listens.recvFrom h).silent me).2
  | ssmpRecv x => exact (Listens.recv.silent me).2
  | ssmpRecvColor x color => exact ((Listens.recvColor color).silent me).2
  | ssmpRecvColorStart x color => exact ((Listens.recvColorStart color).silent me).2

/-- Without the history the runs are those of the library's calls. -/
theorem reachable_sys {x : Traced b n} (h : (tracedSystem b n).Reachable x) :
    (system b.layout n (b.calls n)).Reachable x.sys := by
  induction h with
  | init h0 => exact TransSys.Reachable.init h0.sys
  | @step x t l _ hst ih =>
      refine TransSys.Reachable.step (l := l) ih ?_
      cases hst with
      | send call msg hidle hcall => exact Sys.Step.call msg hidle (calls_of_allowed hcall)
      | listen msg hidle hcode => exact Sys.Step.call msg hidle (calls_of_listens hcode)
      | run hex => exact Sys.Step.run hex

/-! ## What has been sent -/

/-- What the channels have to do with the calls issued. -/
structure Traced.Inv (x : Traced b n) : Prop where
  pending : ∀ me j, x.sys.sent (me, j) ++
      List.replicate (publications b.layout j (x.sys.proc me).code)
        (b.layout.payload (x.sys.proc me).arg) = toward me j (x.issued me)
  current : ∀ me call, x.current me = some call →
    ∃ issued, x.issued me = issued ++ [(call, b.layout.payload (x.sys.proc me).arg)] ∧
      (x.sys.proc me).code <:+ call.code (b.platform me) me
  listening : ∀ me, x.current me = none → ∀ j, publications b.layout j (x.sys.proc me).code = 0
  others : ∀ me, ∀ call ∈ x.issued me, call.1.reaches me me = false

@[simp] theorem toward_append {α : Type} (l l' : List (SendCall n × α)) :
    toward me j (l ++ l') = toward me j l ++ toward me j l' := by
  simp [toward]

theorem toward_singleton {α : Type} (call : SendCall n) (m : α) :
    toward me j [(call, m)] = List.replicate (if call.reaches me j then 1 else 0) m := by
  cases h : call.reaches me j <;> simp [toward, h]

theorem toward_broadcast {α : Type} (hj : j ≠ me) (m : α) (l : List (SendCall n × α)) :
    toward me j ((.broadcast, m) :: l) = m :: toward me j l := by
  simp [toward, SendCall.reaches, hj]

/-- A call publishes its message as often as it reaches a process. -/
theorem publications_reaches (b : Build) (call : SendCall n) :
    publications b.layout j (call.code (b.platform me) me) =
      if call.reaches me j then 1 else 0 := by
  rw [b.sends_publications]
  cases call with
  | send d => simp [SendCall.reaches]
  | sendNoSync d => simp [SendCall.reaches]
  | broadcast => by_cases hj : j = me <;> simp [SendCall.reaches, hj]

theorem Traced.Inv.init {x : Traced b n} (h : x.Init) : x.Inv where
  pending me j := by
    rw [h.sys.sent, h.sys.idle, h.issued]
    rfl
  current me call hcall := by
    rw [h.current] at hcall
    cases hcall
  listening me _ j := by rw [h.sys.idle]; rfl
  others me call hmem := by
    rw [h.issued] at hmem
    cases hmem

/-- Between calls everything issued has been sent. -/
theorem Traced.Inv.sent_of_idle {x : Traced b n} (h : x.Inv) (hidle : (x.sys.proc me).code = [])
    (j : Fin n) : x.sys.sent (me, j) = toward me j (x.issued me) := by
  have hpending := h.pending me j
  rwa [hidle, publications_nil, List.replicate_zero, List.append_nil] at hpending

theorem Traced.Inv.enter {x : Traced b n} (h : x.Inv) {call : SendCall n} {msg : Line}
    (hidle : (x.sys.proc me).code = []) (hcall : call.Allowed me (x.sys.proc me).free) :
    Traced.Inv
      { sys := x.sys.enter me (call.code (b.platform me) me) msg
        issued := Function.update x.issued me (x.issued me ++ [(call, b.layout.payload msg)])
        current := Function.update x.current me (some call) : Traced b n } := by
  have hother : ∀ {i}, i ≠ me → (x.sys.enter me (call.code (b.platform me) me) msg).proc i =
      x.sys.proc i := fun hi => setProc_proc_ne hi _
  refine ⟨?_, ?_, ?_, ?_⟩
  · intro i j
    by_cases hi : i = me
    · subst hi
      simp only [enter_proc, Function.update_self, toward_append, toward_singleton,
        publications_reaches, ← h.sent_of_idle hidle j]
      rfl
    · simp only [hother hi, Function.update_of_ne hi]
      exact h.pending i j
  · intro i call' hcall'
    by_cases hi : i = me
    · subst hi
      simp only [Function.update_self, Option.some.injEq] at hcall'
      subst hcall'
      refine ⟨x.issued i, ?_, ?_⟩
      · rw [enter_proc]
        exact Function.update_self _ _ _
      · rw [enter_proc]
    · simp only [Function.update_of_ne hi] at hcall'
      simpa only [hother hi, Function.update_of_ne hi] using h.current i call' hcall'
  · intro i hnone
    by_cases hi : i = me
    · subst hi
      simp at hnone
    · simp only [Function.update_of_ne hi] at hnone
      simpa only [hother hi] using h.listening i hnone
  · intro i call' hmem
    by_cases hi : i = me
    · subst hi
      simp only [Function.update_self, List.mem_append, List.mem_singleton] at hmem
      rcases hmem with hmem | rfl
      · exact h.others i call' hmem
      · -- no call reaches its own process
        cases call with
        | send dst => simpa [SendCall.reaches] using Ne.symm hcall
        | sendNoSync dst => simpa [SendCall.reaches] using Ne.symm hcall.1
        | broadcast => simp [SendCall.reaches]
    · simp only [Function.update_of_ne hi] at hmem
      exact h.others i call' hmem

theorem Traced.Inv.listen {x : Traced b n} (h : x.Inv) {code : List (Act n)} {msg : Line}
    (hidle : (x.sys.proc me).code = []) (hcode : Listens (b.platform me) me code) :
    Traced.Inv
      { x with
        sys := x.sys.enter me code msg
        current := Function.update x.current me none } := by
  have hother : ∀ {i}, i ≠ me → (x.sys.enter me code msg).proc i = x.sys.proc i :=
    fun hi => setProc_proc_ne hi _
  refine ⟨?_, ?_, ?_, h.others⟩
  · intro i j
    by_cases hi : i = me
    · subst hi
      rw [enter_proc, (hcode.silent j).1, List.replicate_zero, List.append_nil]
      exact h.sent_of_idle hidle j
    · simp only [hother hi]
      exact h.pending i j
  · intro i call hcall
    by_cases hi : i = me
    · subst hi
      simp at hcall
    · simp only [Function.update_of_ne hi] at hcall
      simpa only [hother hi] using h.current i call hcall
  · intro i hnone j
    by_cases hi : i = me
    · subst hi
      simp only [enter_proc]
      exact (hcode.silent j).1
    · simp only [Function.update_of_ne hi] at hnone
      simpa only [hother hi] using h.listening i hnone j

/-- The actions left of a send are those at its end. -/
theorem code_suffix_of_sends {L : MsgLayout} {s t : Sys L n} {c : List (Act n)}
    (hsends : ∀ a ∈ c, a.Sends) (hsuffix : (s.proc me).code <:+ c) (hex : s.exec me = some t) :
    (t.proc me).code <:+ c := by
  rcases Sys.exec_eq_some hex with ⟨a, rest, hcode, rfl⟩
  rw [hcode] at hsuffix
  have hrest : rest <:+ c := (List.suffix_cons a rest).trans hsuffix
  rcases hsends a (hsuffix.subset List.mem_cons_self) with ha | rfl
  · rcases (SparesMsg.exec ha hcode).2 with heq | heq
    · rw [heq]
      exact hrest
    · rw [heq]
      exact hsuffix
  · simpa [Sys.execAct] using hrest

theorem Traced.Inv.run {x : Traced b n} (h : x.Inv)
    (hx : (system b.layout n (b.calls n)).Reachable x.sys) {t : Sys b.layout n}
    (hex : x.sys.exec me = some t) : Traced.Inv { x with sys := t } := by
  rcases good_of_reachable (b.disciplined_calls n) hx with ⟨ts, hgood⟩
  have hsilent : EveryIn (Act.BodySilent b.layout) (x.sys.proc me).code :=
    everyIn_of_reachable (bodySilent_scanInvariant _) (b.bodySilent_calls n) hx me
  rcases Sys.exec_eq_some hex with ⟨a, rest, hcode, ht⟩
  have harg : (t.proc me).arg = (x.sys.proc me).arg := by
    rw [← ht]
    exact execAct_arg
  refine ⟨?_, ?_, ?_, h.others⟩
  · intro i j
    exact (hgood.sent_publications hsilent hex i j).trans (h.pending i j)
  · intro i call hcall
    rcases h.current i call hcall with ⟨issued, hissued, hsuffix⟩
    by_cases hi : i = me
    · subst hi
      refine ⟨issued, ?_, code_suffix_of_sends (b.sends i call) hsuffix hex⟩
      rw [harg]
      exact hissued
    · rw [exec_proc_ne hex hi]
      exact ⟨issued, hissued, hsuffix⟩
  · intro i hnone j
    by_cases hi : i = me
    · subst hi
      have hzero := h.listening i hnone j
      rw [hcode, publications_execAct hcode (hsilent a (by rw [hcode]; exact List.mem_cons_self)).head,
        ht] at hzero
      exact (Nat.add_eq_zero_iff.1 hzero).2
    · rw [exec_proc_ne hex hi]
      exact h.listening i hnone j

theorem traced_inv {x : Traced b n} (h : (tracedSystem b n).Reachable x) : x.Inv := by
  induction h with
  | init h0 => exact Traced.Inv.init h0
  | step hr hst ih =>
      cases hst with
      | send call msg hidle hcall => exact ih.enter hidle hcall
      | listen msg hidle hcode => exact ih.listen hidle hcode
      | run hex => exact ih.run (reachable_sys hr) hex

theorem publications_suffix {L : MsgLayout} {c c' : List (Act n)} (h : c <:+ c') :
    publications L j c ≤ publications L j c' := by
  rcases h with ⟨p, rfl⟩
  rw [publications_append]
  exact Nat.le_add_left _ _

/-- During a send or a broadcast: all that has returned, and what the call has published. -/
theorem Traced.Inv.sent_current {x : Traced b n} (h : x.Inv) {call : SendCall n}
    {issued : List (SendCall n × b.layout.Payload)} {m : b.layout.Payload}
    (hcall : x.current me = some call) (hissued : x.issued me = issued ++ [(call, m)]) (j : Fin n) :
    x.sys.sent (me, j) = toward me j issued ++ List.replicate
      ((if call.reaches me j then 1 else 0) -
        publications b.layout j (x.sys.proc me).code) m := by
  rcases h.current me call hcall with ⟨issued', hissued', hsuffix⟩
  rw [hissued] at hissued'
  rcases List.append_inj' hissued' rfl with ⟨_, hlast⟩
  have hm : b.layout.payload (x.sys.proc me).arg = m := by
    injection hlast with hpair _
    exact (Prod.mk.inj hpair).2.symm
  have hle := @publications_suffix _ j b.layout _ _ hsuffix
  rw [publications_reaches] at hle
  have hpending := h.pending me j
  rw [hissued, toward_append, toward_singleton, hm] at hpending
  -- what is left to publish ends both sides
  obtain ⟨d, hd⟩ := Nat.exists_eq_add_of_le' hle
  rw [hd, List.replicate_add, ← List.append_assoc] at hpending
  rw [hd, Nat.add_sub_cancel]
  exact List.append_cancel_right hpending

/-- What has returned has been sent, in the order of issue, and what has been sent has been
issued. -/
theorem Traced.Inv.prefixes {x : Traced b n} (h : x.Inv) (me j : Fin n) :
    toward me j (x.returned me) <+: x.sys.sent (me, j) ∧
      x.sys.sent (me, j) <+: toward me j (x.issued me) := by
  refine ⟨?_, ⟨_, h.pending me j⟩⟩
  unfold Traced.returned
  split
  · rename_i hdone
    have hzero : publications b.layout j (x.sys.proc me).code = 0 := by
      rcases hdone with hidle | hnone
      · rw [hidle]
        rfl
      · exact h.listening me hnone j
    have hpending := h.pending me j
    rw [hzero, List.replicate_zero, List.append_nil] at hpending
    rw [hpending]
  · rename_i hbusy
    rcases hcall : x.current me with _ | call
    · exact absurd (Or.inr hcall) hbusy
    · rcases h.current me call hcall with ⟨issued, hissued, _⟩
      rw [hissued, List.dropLast_concat, h.sent_current hcall hissued j]
      exact List.prefix_append _ _

theorem waitsFor_of_waits {L : MsgLayout} {s : Sys L n}
    (h : s.Waits me (.sendBuf d) ssmpBufEmpty) :
    ∃ a rest, (s.proc me).code = a :: rest ∧ WaitsFor d a := by
  have hne : ssmpBufEmpty ≠ ssmpBufMessg := by decide
  unfold Sys.Waits at h
  split at h
  · rename_i hcode
    exact ⟨_, _, hcode, Or.inl (by rw [h.1, h.2])⟩
  · rename_i hcode
    exact ⟨_, _, hcode, Or.inr ⟨_, by rw [h.1, h.2]⟩⟩
  · exact absurd h.2 hne
  · exact absurd h.2 hne
  · exact absurd h id

/-- A broadcast that waits for the slot to `d` has sent its message to the processes of smaller ids,
and to no others. -/
theorem Traced.Inv.blocked {x : Traced b n} (h : x.Inv) (hcall : x.current me = some .broadcast)
    (hwaits : x.sys.Waits me (.sendBuf d) ssmpBufEmpty) :
    d ≠ me ∧ ∃ m, x.issued me = x.returned me ++ [(.broadcast, m)] ∧ ∀ j,
      x.sys.sent (me, j) = toward me j (x.returned me) ++ if j ≠ me ∧ j < d then [m] else [] := by
  rcases waitsFor_of_waits hwaits with ⟨a, rest, hcode, ha⟩
  rcases h.current me _ hcall with ⟨issued, hissued, hsuffix⟩
  rw [hcode] at hsuffix
  rcases publications_of_waitsFor (b.sendsTo me) (List.pairwise_lt_finRange n) hsuffix ha with
    ⟨_, hne, hpubs⟩
  have hreturned : x.returned me = issued := by
    have hbusy : ¬ ((x.sys.proc me).code = [] ∨ x.current me = none) := by
      rw [hcode, hcall]
      simp
    rw [Traced.returned, if_neg hbusy, hissued, List.dropLast_concat]
  refine ⟨hne, _, by rw [hreturned]; exact hissued, ?_⟩
  intro j
  rw [hreturned, h.sent_current hcall hissued j, hcode, hpubs j]
  congr 1
  by_cases hj : j = me
  · simp [SendCall.reaches, hj]
  · by_cases hd : d ≤ j
    · simp [SendCall.reaches, hj, hd, Fin.not_lt.2 hd]
    · simp [SendCall.reaches, hj, hd, Fin.not_le.1 hd]

/-- In every reachable state of any number of processes that broadcast, send and receive: a channel
delivers a prefix of what was issued to it, broadcasts and direct sends in the order of issue; a
broadcast that has returned has put its message once into the channel to every other process,
between the messages of the calls before and after it, and none into a channel to itself; and a
broadcast that waits for the slot to `d` has put it into those of the smaller ids alone. -/
theorem broadcast_delivers {x : Traced b n} (h : (tracedSystem b n).Reachable x) (me : Fin n) :
    (∀ j, ChannelFifo x.sys me j ∧ x.sys.recvd (me, j) <+: toward me j (x.issued me) ∧
        x.sys.sent (me, j) <+: toward me j (x.issued me) ∧
        toward me j (x.returned me) <+: x.sys.sent (me, j)) ∧
      (∀ before m after, x.returned me = before ++ (.broadcast, m) :: after →
        ∀ j, j ≠ me → toward me j before ++ m :: toward me j after <+: x.sys.sent (me, j)) ∧
      x.sys.sent (me, me) = [] ∧
      ∀ d, x.current me = some .broadcast → x.sys.Waits me (.sendBuf d) ssmpBufEmpty →
        d ≠ me ∧ ∃ m, x.issued me = x.returned me ++ [(.broadcast, m)] ∧ ∀ j,
          x.sys.sent (me, j) =
            toward me j (x.returned me) ++ if j ≠ me ∧ j < d then [m] else [] := by
  have hinv := traced_inv h
  rcases good_of_reachable (b.disciplined_calls n) (reachable_sys h) with ⟨ts, hgood⟩
  refine ⟨?_, ?_, ?_, fun d => hinv.blocked⟩
  · intro j
    have hfifo := hgood.channelFifo me j
    rcases hinv.prefixes me j with ⟨hreturned, hissued⟩
    exact ⟨hfifo, hfifo.received.trans hissued, hissued, hreturned⟩
  · intro before m after hsplit j hj
    have hreturned := (hinv.prefixes me j).1
    rwa [hsplit, toward_append, toward_broadcast hj] at hreturned
  · have hself : toward me me (x.issued me) = [] := by
      rw [toward, List.filter_eq_nil_iff.2 fun call hmem => by simp [hinv.others me call hmem]]
      rfl
    have hissued := (hinv.prefixes me me).2
    rwa [hself, List.prefix_nil] at hissued

theorem reachable_traced_runAlone {x : Traced b n} (h : (tracedSystem b n).Reachable x) (me : Fin n)
    (k : Nat) : (tracedSystem b n).Reachable { x with sys := x.sys.runAlone me k } := by
  induction k generalizing x with
  | zero => exact h
  | succ k ih =>
      cases hex : x.sys.exec me with
      | none =>
          simp only [Sys.runAlone, hex]
          exact h
      | some t =>
          simp only [Sys.runAlone, hex]
          exact ih (TransSys.Reachable.step h (Traced.Step.run hex))

/-- Process 0 of three has sent bytes 7 to process 2. -/
def sentToTwo : Traced plainBuild 3 where
  sys := ((Sys.fresh plainBuild.layout 3).enter 0 ((plainBuild.platform 0).ssmpSendPlatf 2)
    fun _ => 7).runAlone 0 18
  issued := Function.update (fun _ => []) 0 ([] ++ [(.send 2, plainBuild.layout.payload fun _ => 7)])
  current := Function.update (fun _ => none) 0 (some (.send 2))

/-- It has begun to broadcast bytes 8, and waits for the slot to process 2. -/
def blockedBroadcast : Traced plainBuild 3 where
  sys := (sentToTwo.sys.enter 0 (SendCall.broadcast.code (plainBuild.platform 0) 0)
    fun _ => 8).runAlone 0 18
  issued := Function.update sentToTwo.issued 0
    (sentToTwo.issued 0 ++ [(.broadcast, plainBuild.layout.payload fun _ => 8)])
  current := Function.update sentToTwo.current 0 (some .broadcast)

theorem reachable_blockedBroadcast :
    (tracedSystem plainBuild 3).Reachable blockedBroadcast := by
  have hfresh : (tracedSystem plainBuild 3).Reachable
      { sys := Sys.fresh plainBuild.layout 3, issued := fun _ => [], current := fun _ => none } :=
    TransSys.Reachable.init ⟨Sys.init_fresh, fun _ => rfl, fun _ => rfl⟩
  have hsend : (tracedSystem plainBuild 3).Reachable sentToTwo :=
    reachable_traced_runAlone (TransSys.Reachable.step hfresh
      (Traced.Step.send (.send 2) (fun _ => 7) rfl (show (0 : Fin 3) ≠ 2 by decide))) 0
      18
  exact reachable_traced_runAlone (TransSys.Reachable.step hsend
    (Traced.Step.send .broadcast (fun _ => 8) rfl trivial)) 0 18

theorem broadcast_delivers_blocked :
    blockedBroadcast.sys.Waits 0 (.sendBuf 2) ssmpBufEmpty ∧
      blockedBroadcast.sys.sent (0, 0) = [] ∧
      ∃ m, blockedBroadcast.issued 0 = blockedBroadcast.returned 0 ++ [(.broadcast, m)] := by
  have hwaits : blockedBroadcast.sys.Waits 0 (.sendBuf 2) ssmpBufEmpty := ⟨rfl, rfl⟩
  have hmain := broadcast_delivers reachable_blockedBroadcast 0
  rcases hmain.2.2.2 2 rfl hwaits with ⟨_, m, hissued, _⟩
  exact ⟨hwaits, hmain.2.2.1, m, hissued⟩

end Traced

end Ssmp
