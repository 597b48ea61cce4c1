import Ssmp.Receive.Sender

/-!
# Forward — sending a received message on

On x86 the sends write `msg->state`, which shares its byte with the low byte of `msg->sender`, in the
buffer of the caller.  On Niagara they leave the buffer alone and write the state of the slot.  So
after any number of sends the buffer is the received one, with the state byte set to
`SSMP_BUF_MESSG` on x86 (`Forwards.msg`), and `sender_kept_iff` says when the sender survives.
-/

namespace Ssmp

open Lib

/-! ## Sends -/

/-- The calls that send the message in the buffer. -/
inductive SendCall (n : Nat) where
  | send (dst : Fin n)
  | sendNoSync (dst : Fin n)
  | broadcast

def SendCall.code {n : Nat} (P : Platform n) (me : Fin n) : SendCall n → List (Act n)
  | .send dst => P.ssmpSendPlatf dst
  | .sendNoSync dst => P.ssmpSendNoSyncPlatf dst
  | .broadcast => ssmpBroadcast P.ssmpSendPlatf me

/-- The platforms whose sends write `msg->state`. -/
def Build.onX86 : Build → Bool
  | .niagara _ _ => false
  | _ => true

/-- What a send leaves of the message in the buffer. -/
def Build.afterSend (b : Build) (m : Line) : Line :=
  if b.onX86 then b.layout.setState ssmpBufMessg m else m

theorem Build.afterSend_afterSend (b : Build) (m : Line) :
    b.afterSend (b.afterSend m) = b.afterSend m := by
  cases h : b.onX86 with
  | false => simp [Build.afterSend, h]
  | true => simp [Build.afterSend, h, MsgLayout.setState]

theorem Build.payload_afterSend (b : Build) (m : Line) :
    b.layout.payload (b.afterSend m) = b.layout.payload m := by
  unfold Build.afterSend
  split
  · exact b.layout.payload_setState _ m
  · rfl

section Sends

variable {L : MsgLayout} {n : Nat} {prog : Program n} {me dst : Fin n} {s t : Sys L n}
variable {a : Act n} {c rest : List (Act n)}

/-- Actions that do not write the message buffer, and go on with what follows them. -/
def Act.SparesMsg : Act n → Prop
  | .await _ _ | .cas _ _ _ | .isFree _ | .copyOut _ _ | .store _ _ => True
  | _ => False

/-- The actions of a send: they do not write the message buffer, or they write its state. -/
def Act.Sends (a : Act n) : Prop :=
  a.SparesMsg ∨ a = .setState ssmpBufMessg

/-- A send on x86 marks the message in the buffer. -/
structure MarksMsg (c : List (Act n)) : Prop where
  sends : ∀ a ∈ c, a.Sends
  marks : .setState ssmpBufMessg ∈ c

/-- What such an action leaves of its process: it may have waited in vain. -/
theorem SparesMsg.proc (ha : a.SparesMsg) :
    ∃ c free locked, (c = rest ∨ c = (s.proc me).code) ∧
      (s.execAct me a rest).proc me =
        { s.proc me with code := c, free := free, locked := locked } := by
  cases a with
  | await q v =>
      simp only [Sys.execAct]
      split
      · exact ⟨rest, _, _, Or.inl rfl, setProc_proc _⟩
      · exact ⟨(s.proc me).code, _, _, Or.inr rfl, rfl⟩
  | cas q old new =>
      simp only [Sys.execAct]
      split
      · exact ⟨rest, _, _, Or.inl rfl, setProc_proc _⟩
      · exact ⟨(s.proc me).code, _, _, Or.inr rfl, rfl⟩
  | isFree d => exact ⟨rest, _, _, Or.inl rfl, setProc_proc _⟩
  | copyOut d p =>
      simp only [Sys.execAct]
      split <;> exact ⟨rest, _, _, Or.inl rfl, setProc_proc _⟩
  | store q v =>
      cases q with
      | sendBuf d =>
          simp only [Sys.execAct]
          split <;> exact ⟨rest, _, _, Or.inl rfl, setProc_proc _⟩
      | recvBuf r =>
          simp only [Sys.execAct]
          split <;> exact ⟨rest, _, _, Or.inl rfl, setProc_proc _⟩
  | _ => exact absurd ha (by simp [Act.SparesMsg])

theorem SparesMsg.exec (ha : a.SparesMsg) (hcode : (s.proc me).code = a :: rest) :
    ((s.execAct me a rest).proc me).msg = (s.proc me).msg ∧
      (((s.execAct me a rest).proc me).code = rest ∨
        ((s.execAct me a rest).proc me).code = a :: rest) := by
  rcases @SparesMsg.proc L n me s a rest ha with ⟨c, free, locked, hc, hproc⟩
  rw [hproc]
  exact ⟨rfl, by simpa [hcode] using hc⟩

/-- A send that spares the buffer: what is left of it spares the buffer, which is still `m`. -/
structure Sparing (me : Fin n) (m : Line) (s : Sys L n) : Prop where
  code : ∀ a ∈ (s.proc me).code, a.SparesMsg
  msg : (s.proc me).msg = m

/-- A send that marks the buffer: it is marked, or it will be. -/
structure Marking (me : Fin n) (m : Line) (s : Sys L n) : Prop where
  code : ∀ a ∈ (s.proc me).code, a.Sends
  msg : (s.proc me).msg = L.setState ssmpBufMessg m ∨
    (s.proc me).msg = m ∧ .setState ssmpBufMessg ∈ (s.proc me).code

theorem Sparing.exec {m : Line} (h : Sparing me m s) (hex : s.exec me = some t) :
    Sparing me m t := by
  rcases Sys.exec_eq_some hex with ⟨a, rest, hcode, rfl⟩
  have ha : a.SparesMsg := h.code a (by simp [hcode])
  have hrest : ∀ b ∈ a :: rest, b.SparesMsg := by simpa [hcode] using h.code
  rcases SparesMsg.exec ha hcode with ⟨hmsg, hnext | hnext⟩
  · exact ⟨fun b hb => hrest b (List.mem_cons_of_mem a (by simpa [hnext] using hb)), hmsg.trans h.msg⟩
  · exact ⟨fun b hb => hrest b (by simpa [hnext] using hb), hmsg.trans h.msg⟩

theorem Marking.exec {m : Line} (h : Marking me m s) (hex : s.exec me = some t) :
    Marking me m t := by
  rcases Sys.exec_eq_some hex with ⟨a, rest, hcode, rfl⟩
  have hrest : ∀ b ∈ a :: rest, b.Sends := by simpa [hcode] using h.code
  rcases hrest a (by simp) with ha | rfl
  · rcases SparesMsg.exec ha hcode with ⟨hmsg, hnext | hnext⟩
    · refine ⟨fun b hb => hrest b (List.mem_cons_of_mem a (by simpa [hnext] using hb)), ?_⟩
      rcases h.msg with hm | ⟨hm, hmem⟩
      · exact Or.inl (hmsg.trans hm)
      · -- the action itself is not the one that marks
        refine Or.inr ⟨hmsg.trans hm, ?_⟩
        rcases List.mem_cons.1 (hcode ▸ hmem) with rfl | hmem'
        · exact absurd ha (by simp [Act.SparesMsg])
        · simpa [hnext] using hmem'
    · refine ⟨fun b hb => hrest b (by simpa [hnext] using hb), ?_⟩
      simpa [hmsg, hnext, hcode] using h.msg
  · -- the buffer is marked, maybe once more
    refine ⟨fun b hb => hrest b (List.mem_cons_of_mem _ (by simpa [Sys.execAct] using hb)), ?_⟩
    refine Or.inl ?_
    rcases h.msg with hm | ⟨hm, _⟩ <;> simp [Sys.execAct, hm, MsgLayout.setState]

theorem Sparing.same {m : Line} (h : Sparing me m s) (hsame : s.Same me t) : Sparing me m t :=
  ⟨by simpa [hsame.proc] using h.code, by simpa [hsame.proc] using h.msg⟩

theorem Marking.same {m : Line} (h : Marking me m s) (hsame : s.Same me t) : Marking me m t :=
  ⟨by simpa [hsame.proc] using h.code, by simpa [hsame.proc] using h.msg⟩

/-! ## The sends of every build -/

theorem marksMsg_sendLineNoSync (m : Memcpy L) (dst : Fin n) :
    MarksMsg (sendLineNoSync m dst) where
  sends a ha := by
    rcases List.mem_cons.1 ha with rfl | hmem
    · exact Or.inr rfl
    · rcases List.mem_map.1 hmem with ⟨p, _, rfl⟩
      exact Or.inl trivial
  marks := List.mem_cons_self

theorem marksMsg_sendLine (m : Memcpy L) (lk : Bool) (dst : Fin n) :
    MarksMsg (sendLine m lk dst) where
  sends a ha := by
    rcases List.mem_cons.1 ha with rfl | hmem
    · cases lk <;> exact Or.inl trivial
    · exact (marksMsg_sendLineNoSync m dst).sends a hmem
  marks := List.mem_cons_of_mem _ (marksMsg_sendLineNoSync m dst).marks

theorem mem_broadcast {ssmpSend : Fin n → List (Act n)} :
    a ∈ ssmpBroadcast ssmpSend me ↔ ∃ core, core ≠ me ∧ a ∈ ssmpSend core := by
  simp only [ssmpBroadcast, List.mem_flatMap, List.mem_finRange, true_and]
  refine exists_congr fun core => ?_
  by_cases hcore : core = me <;> simp [hcore]

/-- A broadcast marks the message if there is another process. -/
theorem marksMsg_broadcast {ssmpSend : Fin n → List (Act n)} (h : ∀ dst, MarksMsg (ssmpSend dst))
    {other : Fin n} (hother : other ≠ me) : MarksMsg (ssmpBroadcast ssmpSend me) where
  sends a ha := by
    rcases mem_broadcast.1 ha with ⟨core, _, hmem⟩
    exact (h core).sends a hmem
  marks := mem_broadcast.2 ⟨other, hother, (h other).marks⟩

theorem sparesMsg_ssmpSendNoSyncPlatf {v : SparcMsg} (o : Niagara.CopyOrder v) (dst : Fin n) :
    ∀ a ∈ Niagara.ssmpSendNoSyncPlatf o dst, a.SparesMsg := by
  intro a ha
  rcases List.mem_append.1 ha with hmem | hmem
  · rcases List.mem_map.1 hmem with ⟨p, _, rfl⟩
    exact trivial
  · rw [List.mem_singleton.1 hmem]
    exact trivial

theorem sparesMsg_ssmpSendPlatf {v : SparcMsg} (o : Niagara.CopyOrder v) (dst : Fin n) :
    ∀ a ∈ Niagara.ssmpSendPlatf o dst, a.SparesMsg := by
  intro a ha
  rcases List.mem_cons.1 ha with rfl | hmem
  · exact trivial
  · exact sparesMsg_ssmpSendNoSyncPlatf o dst a hmem

theorem SendCall.marksMsg {P : Platform n} (hsend : ∀ dst, MarksMsg (P.ssmpSendPlatf dst))
    (hnoSync : ∀ dst, MarksMsg (P.ssmpSendNoSyncPlatf dst)) {other : Fin n} (hother : other ≠ me)
    (call : SendCall n) : MarksMsg (call.code P me) := by
  cases call with
  | send dst => exact hsend dst
  | sendNoSync dst => exact hnoSync dst
  | broadcast => exact marksMsg_broadcast hsend hother

theorem Build.marksMsg {b : Build} (hb : b.onX86 = true) {other : Fin n} (hother : other ≠ me)
    (call : SendCall n) : MarksMsg (call.code (b.platform me) me) := by
  cases b with
  | niagara v o => cases hb
  | _ =>
      exact SendCall.marksMsg (fun dst => marksMsg_sendLine _ _ dst)
        (fun dst => marksMsg_sendLineNoSync _ dst) hother call

theorem Build.sparesMsg {b : Build} (hb : b.onX86 = false) (call : SendCall n) :
    ∀ a ∈ call.code (b.platform me) me, a.SparesMsg := by
  cases b with
  | niagara v o =>
      cases call with
      | send dst => exact sparesMsg_ssmpSendPlatf o dst
      | sendNoSync dst => exact sparesMsg_ssmpSendNoSyncPlatf o dst
      | broadcast =>
          intro a ha
          rcases mem_broadcast.1 ha with ⟨core, _, hmem⟩
          exact sparesMsg_ssmpSendPlatf o core a hmem
  | _ => cases hb

end Sends

/-! ## Runs of sends -/

section Forwards

variable {b : Build} {n : Nat} {prog : Program n} {me src : Fin n} {s₀ s₁ s t : Sys b.layout n}
variable {k : Nat}

/-- From `s₁` to `s` process `me` enters `k` sends, all of them with its message buffer. -/
inductive Forwards (b : Build) (prog : Program n) (me : Fin n) (s₁ : Sys b.layout n) :
    Nat → Sys b.layout n → Prop where
  | start {s : Sys b.layout n} (h : During prog me s₁ s) : Forwards b prog me s₁ 0 s
  | call {k : Nat} {t s : Sys b.layout n} (call : SendCall n) (h : Forwards b prog me s₁ k t)
      (hidle : (t.proc me).code = [])
      (hrun : During prog me (t.enter me (call.code (b.platform me) me) (t.proc me).msg) s) :
      Forwards b prog me s₁ (k + 1) s

/-- While it is idle, a process keeps its buffer. -/
theorem During.idle (h : During prog me s t) (hidle : (s.proc me).code = []) :
    t.proc me = s.proc me := by
  refine h.invariant (I := fun t => t.proc me = s.proc me) ?_ ?_ rfl
  · intro u v hu hsame
    exact hsame.proc.trans hu
  · intro u v hu hex
    exact absurd hex (Sys.not_exec (by rw [hu]; exact hidle))

/-- What one send leaves in the buffer. -/
theorem SendCall.msg {other : Fin n} (hother : other ≠ me) {call : SendCall n}
    (hrun : During prog me (s.enter me (call.code (b.platform me) me) (s.proc me).msg) t)
    (hidle : (t.proc me).code = []) : (t.proc me).msg = b.afterSend (s.proc me).msg := by
  cases hb : b.onX86 with
  | false =>
      have hstart : Sparing me (s.proc me).msg
          (s.enter me (call.code (b.platform me) me) (s.proc me).msg) :=
        ⟨by rw [enter_proc]; exact Build.sparesMsg hb call, by rw [enter_proc]⟩
      have hend := hrun.invariant (fun _ _ h hsame => h.same hsame) (fun _ _ h hex => h.exec hex)
        hstart
      simpa [Build.afterSend, hb] using hend.msg
  | true =>
      have hmarks := Build.marksMsg hb hother call
      have hstart : Marking me (s.proc me).msg
          (s.enter me (call.code (b.platform me) me) (s.proc me).msg) := by
        refine ⟨by rw [enter_proc]; exact hmarks.sends, Or.inr ?_⟩
        rw [enter_proc]
        exact ⟨rfl, hmarks.marks⟩
      have hend := hrun.invariant (fun _ _ h hsame => h.same hsame) (fun _ _ h hex => h.exec hex)
        hstart
      -- nothing is left that could mark the buffer
      rcases hend.msg with hm | ⟨_, hmem⟩
      · simpa [Build.afterSend, hb] using hm
      · simp [hidle] at hmem

/-- What any number of sends leaves in the buffer. -/
theorem Forwards.msg {other : Fin n} (hother : other ≠ me) (h : Forwards b prog me s₁ k s)
    (hstart : (s₁.proc me).code = []) (hidle : (s.proc me).code = []) :
    (s.proc me).msg = if k = 0 then (s₁.proc me).msg else b.afterSend (s₁.proc me).msg := by
  induction h with
  | start hrun => simp [hrun.idle hstart]
  | @call k t s call _ hidle' hrun ih =>
      have hmsg := SendCall.msg hother hrun hidle
      rw [ih hidle'] at hmsg
      -- the second send marks what is marked already
      cases k with
      | zero => simpa using hmsg
      | succ k => simpa [Build.afterSend_afterSend] using hmsg

/-! ## The sender after sends -/

/-- The id that is left when 1 is written over the low byte of the one reported. -/
theorem marked_eq_iff {r : RecvCall} {x : Nat} (hx : x < 256 ^ 4) :
    x % 256 ^ r.idBytes % 256 ^ 4 / 256 * 256 + ssmpBufMessg.toNat = x ↔
      (x < 256 ∨ r = .recv) ∧ x % 256 = 1 := by
  have hone : ssmpBufMessg.toNat = 1 := rfl
  by_cases hr : r = .recv
  · rw [hr, cutOff_recv hx, Nat.mod_eq_of_lt hx, hone]
    simp
    omega
  · rw [cutOff_color hr, hone]
    simp [hr]
    omega

theorem Build.senderOf_afterSend {b : Build} (hb : b.onX86 = true) (m : Line) :
    b.layout.senderOf (b.afterSend m) =
      b.layout.senderOf m / 256 * 256 + ssmpBufMessg.toNat := by
  cases b with
  | niagara v o => cases hb
  | _ => exact x86Msg.senderOf_setState rfl (by decide) _ m

theorem Build.senderBytes_x86 {b : Build} (hb : b.onX86 = true) : b.layout.senderBytes = 4 := by
  cases b with
  | niagara v o => cases hb
  | _ => rfl

/-- A message taken from process `src` and sent on `k` times keeps its payload.  Its sender is
`src` exactly when it was reported rightly and, once a send of an x86 platform has written the
state byte, when the low byte of the id is `SSMP_BUF_MESSG`. -/
theorem sender_kept_iff (hn : n < 2 ^ 31) {r : RecvCall} (h : Returned b prog me r s₀ s₁)
    (htook : Took me src s₀ s₁) (hsends : Forwards b prog me s₁ k s)
    (hidle : (s.proc me).code = []) :
    b.layout.payload (s.proc me).msg = b.layout.payload (s₁.proc me).msg ∧
      (b.layout.senderOf (s.proc me).msg = src.val ↔
        (src.val < 256 ∨ r = .recv ∧ b.layout.senderBytes = 4) ∧
          (k = 0 ∨ b.onX86 = false ∨ src.val % 256 = 1)) := by
  have hlt : src.val < 256 ^ 4 := by
    have := src.isLt
    omega
  have hne : src ≠ me := by
    rcases h.reported with ⟨src', hhears, htook', _⟩
    rw [htook'.unique htook]
    exact RecvCall.ne_of_hears hhears
  have hmsg := hsends.msg hne h.2 hidle
  have hreported : b.layout.senderOf (s₁.proc me).msg = src.val ↔
      src.val < 256 ∨ r = .recv ∧ b.layout.senderBytes = 4 := by
    rw [h.sender_eq htook]
    exact cutOff_eq_iff b.senderBytes_cases hlt
  by_cases hk : k = 0
  · -- the buffer is the one received
    rw [hmsg, if_pos hk]
    simpa [hk] using hreported
  · rw [hmsg, if_neg hk]
    refine ⟨b.payload_afterSend _, ?_⟩
    cases hb : b.onX86 with
    | false => simpa [Build.afterSend, hb] using hreported
    | true =>
        rw [b.senderOf_afterSend hb, h.sender_eq htook, Build.senderBytes_x86 hb]
        simpa [hk] using marked_eq_iff hlt

/-! ## Replies on the generic platform -/

/-- Process 1 of two has sent a message to process 0. -/
def requested : Sys plainBuild.layout 2 :=
  ((Sys.fresh plainBuild.layout 2).enter 1 ((plainBuild.platform 1).ssmpSendPlatf 0)
    fun _ => 7).runAlone 1 18

/-- Process 0 has received it. -/
def served : Sys plainBuild.layout 2 :=
  (requested.enter 0 (RecvCall.recv.code (plainBuild.platform 0) 0) fun _ => 0).runAlone 0 20

/-- Process 0 has sent it back twice, the second time by `ssmp_send_no_sync`. -/
def repliedOnce : Sys plainBuild.layout 2 :=
  (served.enter 0 ((SendCall.send 1).code (plainBuild.platform 0) 0)
    (served.proc 0).msg).runAlone 0 18

def repliedTwice : Sys plainBuild.layout 2 :=
  (repliedOnce.enter 0 ((SendCall.sendNoSync 1).code (plainBuild.platform 0) 0)
    (repliedOnce.proc 0).msg).runAlone 0 17

theorem returned_served : Returned plainBuild (plainCalls 2) 0 .recv requested served :=
  ⟨⟨_, During.refl.runAlone 20⟩, rfl⟩

theorem took_served : Took 0 1 requested served := by
  rcases returned_served.reported with ⟨src, hsrc, htook, _⟩
  have hother : ∀ src : Fin 2, src ≠ 0 → src = 1 := by decide
  rw [← hother src hsrc]
  exact htook

theorem forwards_repliedTwice : Forwards plainBuild (plainCalls 2) 0 served 2 repliedTwice := by
  have hstart : Forwards plainBuild (plainCalls 2) 0 served 0 served :=
    Forwards.start During.refl
  have honce : Forwards plainBuild (plainCalls 2) 0 served 1 repliedOnce :=
    Forwards.call (.send 1) hstart rfl (During.refl.runAlone 18)
  exact Forwards.call (.sendNoSync 1) honce rfl (During.refl.runAlone 17)

theorem sender_kept_iff_repliedTwice :
    plainBuild.layout.senderOf (repliedTwice.proc 0).msg = 1 :=
  (sender_kept_iff (by decide) returned_served took_served forwards_repliedTwice rfl).2.2
    ⟨Or.inl (by decide), Or.inr (Or.inr (by decide))⟩

/-- Process 1 sends the message of process 0 back once. -/
def afterReply : Sys plainBuild.layout 2 :=
  (Sys.enter 1 ((SendCall.send 0).code (plainBuild.platform 1) 1) (afterRecv.proc 1).msg
    afterRecv).runAlone 1 18

/-- After one reply to process 0 the sender in the buffer is 1, which is the process itself. -/
theorem sender_lost_afterReply :
    (Generic.plainSystem 2).Reachable Generic.afterSend ∧
      Returned plainBuild (plainCalls 2) 1 .recv Generic.afterSend afterRecv ∧
      Took 1 0 Generic.afterSend afterRecv ∧
      Forwards plainBuild (plainCalls 2) 1 afterRecv 1 afterReply ∧
      (afterReply.proc 1).code = [] ∧
      plainBuild.layout.senderOf (afterReply.proc 1).msg ≠ (0 : Fin 2).val := by
  refine ⟨Generic.reachable_afterSend, returned_afterRecv, took_afterRecv, ?_, rfl, by decide +kernel⟩
  have hstart : Forwards plainBuild (plainCalls 2) 1 afterRecv 0 afterRecv :=
    Forwards.start During.refl
  exact Forwards.call (.send 0) hstart rfl (During.refl.runAlone 18)

end Forwards

end Ssmp
