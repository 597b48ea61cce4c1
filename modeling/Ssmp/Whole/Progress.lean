import Ssmp.Receive.Cyclic
import Ssmp.Whole.Refines

/-!
# Whole.Progress — the library adds no deadlock

When nothing but the cursors of scans can change any more, every process waits for something that no
process gives it.  Then the processes of the network wait for the same: a full place, a message, the
others at a barrier (`blocked_of_dead`).  So programs that cannot get stuck on the network cannot get
stuck on the library (`Rel.stopped_or_changes`).
-/

namespace Ssmp

open Lib Barrier Network
open PhaseBarrier (Stage Inv)

/-! ## Waits in vain -/

section Waits

variable {L : MsgLayout} {n : Nat} {s : Sys L n} {ts : Fin n → Typestate n} {me d r : Fin n}
variable {a : Act n} {rest : List (Act n)} {q : SlotRef n} {v : UInt8} {lk mk : Bool}
variable {done : List Piece} {c : List (Act n)}

/-- The action waits until slot `q` has state `v`. -/
def Act.WaitsOn (a : Act n) (q : SlotRef n) (v : UInt8) : Prop :=
  a = .await q v ∨ ∃ new, a = .cas q v new

/-- An action of a call that does not scan goes on, unless it waits in vain. -/
theorem waitsOn_of_same (hscan : ∀ num test body k, a ≠ .scan num test body k)
    (hstart : ∀ num test body, a ≠ .scanStart num test body)
    (hsame : ((s.execAct me a rest).proc me).code = a :: rest) :
    ∃ q v, a.WaitsOn q v ∧ s.flag me q ≠ v := by
  have hne : rest ≠ a :: rest := fun h => by simpa using congrArg List.length h
  cases a with
  | await q v =>
      refine ⟨q, v, Or.inl rfl, ?_⟩
      intro hf
      simp only [Sys.execAct, hf, if_true, setProc_proc] at hsame
      exact hne hsame
  | cas q old new =>
      refine ⟨q, old, Or.inr ⟨new, rfl⟩, ?_⟩
      intro hf
      simp only [Sys.execAct, hf, if_true, setProc_proc] at hsame
      exact hne hsame
  | scan num test body k => exact absurd rfl (hscan _ _ _ _)
  | scanStart num test body => exact absurd rfl (hstart _ _ _)
  | copyOut d p =>
      simp only [Sys.execAct] at hsame
      split at hsame <;> simp at hsame
  | store q v =>
      cases q with
      | sendBuf d =>
          simp only [Sys.execAct] at hsame
          split at hsame <;> simp [Sys.logSent] at hsame
      | recvBuf r =>
          simp only [Sys.execAct] at hsame
          split at hsame <;> simp [Sys.logRecvd] at hsame
  | _ => simp [Sys.execAct] at hsame

/-- A process that has taken possession of its slot to `d` publishes a message there. -/
theorem publications_pos (h : Disciplined L (.sending d lk mk done) c) : 0 < publications L d c := by
  generalize ht : Typestate.sending d lk mk done = t at h
  induction h generalizing lk mk done with
  | mark _ ih =>
      cases ht
      simpa [Act.pubs] using ih rfl
  | fill hst _ ih =>
      cases ht
      simpa [Act.pubs, hst] using ih rfl
  | publish hst _ _ _ =>
      cases ht
      simp [Act.pubs, hst]
  | storeMessg _ _ _ =>
      cases ht
      simp [Act.pubs]
  | _ => cases ht

/-- A process that waits to send waits for its slot to be empty, and publishes there later. -/
theorem Good.waits_to_send (h : Good ts s) (hcode : (s.proc me).code = a :: rest) (ha : a.Out)
    (hwaits : a.WaitsOn q v) :
    ∃ d, q = .sendBuf d ∧ v = ssmpBufEmpty ∧ ts me = .idle true ∧
      0 < publications L d (s.proc me).code := by
  have hD := h.disciplined me
  rw [hcode] at hD ⊢
  generalize ht : ts me = τ at hD
  rcases hwaits with rfl | ⟨new, rfl⟩
  · cases hD with
    | awaitSend hD' => exact ⟨_, rfl, rfl, rfl, by simpa [Act.pubs] using publications_pos hD'⟩
    | awaitRecv _ => exact absurd ha id
  · cases hD with
    | casSend hD' => exact ⟨_, rfl, rfl, rfl, by simpa [Act.pubs] using publications_pos hD'⟩
    | casRecv _ => exact absurd ha id

/-- A slot from which everything has been received is empty while its sender does not use it. -/
theorem Good.empty_of_idle {b : Bool} (h : Good ts s) (ht : ts me = .idle b)
    (heq : s.sent (me, d) = s.recvd (me, d)) : L.stateOf (s.slot (me, d)) = ssmpBufEmpty := by
  have hne : (view ts s me d).sent ≠ (view ts s me d).recvd ++ [(view ts s me d).word] := by
    intro hpending
    have hlen := congrArg List.length (hpending.symm.trans heq)
    simp [view] at hlen
  cases hr : (view ts s me d).rcv with
  | reading lk done => exact absurd ((OneSlot.inv_reading hr).1 (h.slots me d)).2.2.1 hne
  | idle =>
      rcases @view_snd_idle L n ts s me d b ht with hs | hs
      · rcases (OneSlot.inv_idle hs hr).1 (h.slots me d) with ⟨hf, _⟩ | ⟨_, hpending⟩
        · exact hf
        · exact absurd hpending hne
      · exact ((OneSlot.inv_filling hs).1 (h.slots me d)).2.1

end Waits

/-! ## Nothing can change -/

namespace Whole

section Dead

variable {n : Nat} {σ : Type}

/-- From `x` to `y` nothing has changed but where scans go on. -/
structure OnlyCursors {L : MsgLayout} (x y : Whole L n σ) : Prop where
  slot : y.sys.slot = x.sys.slot
  code : ∀ p, (y.sys.proc p).code = (x.sys.proc p).code
  msg : ∀ p, (y.sys.proc p).msg = (x.sys.proc p).msg
  bars : y.bars = x.bars
  loc : y.loc = x.loc
  busy : y.busy = x.busy
  inWait : y.inWait = x.inWait

/-- Whatever the processes do, nothing changes but where scans go on. -/
def Dead (b : Build) (N : Network (Fin n) b.layout.Payload σ) (hall : Fin n → σ → Nat)
    (barriers : Nat → SsmpBarrier) (x : Whole b.layout n σ) : Prop :=
  ∀ y, (system b N hall barriers).Steps x y → OnlyCursors x y

/-- What a program scans is the color buffer of some color function. -/
def ScansColors {L : MsgLayout} (N : Network (Fin n) L.Payload σ) : Prop :=
  ∀ p l srcs k, N.next p l = .scan srcs k → ∃ color, (ssmpColorBufInitPlatf p color).buf = srcs

variable {b : Build} {N : Network (Fin n) b.layout.Payload σ} {hall : Fin n → σ → Nat}
variable {barriers : Nat → SsmpBarrier} {x y : Whole b.layout n σ}
variable {a : Meetings (Fin n) b.layout.Payload σ} {p : Fin n}

theorem Dead.step (h : Dead b N hall barriers x) (hst : Step b N hall x p y) : OnlyCursors x y :=
  h y (TransSys.Steps.single hst)

/-- No call can begin, none can return, and no action can be done. -/
theorem Dead.not_call (h : Dead b N hall barriers x) (hidle : x.busy p = false) {code : List (Act n)}
    {msg : Line} : ¬ Linked.Calls b p (N.next p (x.loc p)) code msg := by
  intro hcall
  have hbusy := congrFun (h.step (Step.call hidle hcall)).busy p
  rw [hidle] at hbusy
  exact absurd ((Function.update_self _ _ _).symm.trans hbusy) (by decide)

theorem Dead.not_return (h : Dead b N hall barriers x) (hbusy : x.busy p = true)
    (hcode : (x.sys.proc p).code = []) {k : σ} :
    ¬ Linked.Returns b (x.sys.proc p).msg (N.next p (x.loc p)) k := by
  intro hret
  have hidle := congrFun (h.step (Step.ret hbusy hcode hret)).busy p
  rw [hbusy] at hidle
  exact absurd ((Function.update_self _ _ _).symm.trans hidle) (by decide)

theorem Dead.not_wait (h : Dead b N hall barriers x) (hidle : x.busy p = false)
    (hout : x.inWait p = false) {k : σ} : N.next p (x.loc p) ≠ .meet k := by
  intro hnext
  have hin := congrFun (h.step (Step.wait hidle hout hnext)).inWait p
  rw [hout] at hin
  exact absurd ((Function.update_self _ _ _).symm.trans hin) (by decide)

theorem Dead.exec_same (h : Dead b N hall barriers x) {act : Act n} {rest : List (Act n)}
    (hcode : (x.sys.proc p).code = act :: rest) :
    ((x.sys.execAct p act rest).proc p).code = act :: rest := by
  have hex : x.sys.exec p = some (x.sys.execAct p act rest) := by simp [Sys.exec, hcode]
  rw [← hcode]
  exact (h.step (Step.run hex)).code p

theorem Dead.bars_same (h : Dead b N hall barriers x) (hin : x.inWait p = true) :
    x.bars.step p = x.bars :=
  (h.step (Step.access hin)).bars

/-! ### Between calls -/

/-- A program that is between two calls has stopped. -/
theorem Dead.stop (h : Dead b N hall barriers x) (hcolors : ScansColors N)
    (hidle : x.busy p = false) (hout : x.inWait p = false) : N.next p (x.loc p) = .stop := by
  cases hnext : N.next p (x.loc p) with
  | put d m k =>
      have hcall := @Linked.Calls.send n σ b p d m k _ (payload_lineOf _ m)
      rw [← hnext] at hcall
      exact absurd hcall (h.not_call hidle)
  | overwrite d m k =>
      have hcall := @Linked.Calls.sendNoSync n σ b p d m k _ (payload_lineOf _ m)
      rw [← hnext] at hcall
      exact absurd hcall (h.not_call hidle)
  | take r k =>
      have hcall := @Linked.Calls.recvFrom n σ b p r k fun _ => 0
      rw [← hnext] at hcall
      exact absurd hcall (h.not_call hidle)
  | scan srcs k =>
      rcases hcolors p _ srcs k hnext with ⟨color, hbuf⟩
      have hcall := @Linked.Calls.recvColorStart n σ b p color srcs k (fun _ => 0) hbuf
      rw [← hnext] at hcall
      exact absurd hcall (h.not_call hidle)
  | meet k => exact absurd hnext (h.not_wait hidle hout)
  | stop => rfl

/-! ### In `ssmp_barrier_wait` -/

/-- Who is inside a barrier is in a call. -/
theorem Rel.inWait_of_pc (h : Rel b N hall barriers x a) (hpc : x.bars.pc p ≠ .idle) :
    x.inWait p = true := by
  by_contra hout
  have hstand := h.stand p
  rw [Bool.eq_false_iff.2 hout] at hstand
  exact hpc hstand.of_notWait.2.1

/-- A call that cannot go on waits inside for a participant who has come less often. -/
theorem Dead.blocked_wait (h : Dead b N hall barriers x) (hrel : Rel b N hall barriers x a)
    (hin : x.inWait p = true) : Meetings.Blocked N (halls hall barriers) a p := by
  rcases hrel.idle p hin with ⟨hidle, k, hnext⟩
  have hloc : a.net.loc p = x.loc p := (hrel.linked.idle hidle).2.1
  have hhall : a.hallOf (halls hall barriers) p = hall p (x.loc p) := by
    rw [Meetings.hallOf, hloc]
    rfl
  have hstand := hrel.stand p
  rw [hin] at hstand
  -- nobody inside a barrier can do anything
  have hstuck : ∀ q, x.bars.pc q ≠ .idle → x.bars.step q = x.bars :=
    fun q hq => h.bars_same (hrel.inWait_of_pc hq)
  have hstay : ¬ ∃ q, x.bars.step q ≠ x.bars := by
    rintro ⟨q, hq⟩
    refine hq (hstuck q ?_)
    intro hpc
    have hstandq := hrel.stand q
    cases hinq : x.inWait q with
    | false =>
        rw [hinq] at hstandq
        refine hq ?_
        simp [State.step, hpc, hstandq.of_notWait.1]
    | true => exact hq (h.bars_same hinq)
  rcases stuck_cases (h.bars_same hin) with ⟨hpc, htodo⟩ | ⟨bar, num, hpc, hc⟩ | ⟨bar, hpc, hc⟩
  · -- the call is over
    exfalso
    have hcross := congrFun (h.step (Step.cross hin hpc htodo hnext)).inWait p
    rw [hin] at hcross
    exact absurd ((Function.update_self _ _ _).symm.trans hcross) (by decide)
  · rw [hpc] at hstand
    have hbar := hstand.current_lt rfl (by simp)
    exact absurd (exists_step_of_cleared (hrel.bars bar hbar.2).2 hc) hstay
  · rw [hpc] at hstand
    have hbar := hstand.current_lt rfl (by simp)
    have hi := (hrel.bars bar hbar.2).2
    have hp : (barriers bar).member p = true :=
      hrel.bars.member hbar.2 (by rw [hpc]; rfl) (by rw [hpc]; simp)
    have hheld : (Barrier.view barriers bar x.bars).stage ⟨p, hp⟩ = .held := stageAt_held.2 hpc
    have hdown : (Barrier.view barriers bar x.bars).flag = false := by simp [Barrier.view, hc]
    rcases hi.exists_gathering hheld hdown with ⟨q, hq⟩ | ⟨q, hlt, _⟩
    · -- the last arrival is about to set the flag
      refine absurd ⟨q.1, step_ne_of_pc ?_⟩ hstay
      have hset : x.bars.pc q.1 = .setCleared bar := stageAt_last.1 hq
      simp [State.step, State.setPc, hset]
    · have hwaits : a.net.waits p = true := hstand.waits_of_inside
      unfold Meetings.Blocked
      rw [hloc, hnext]
      refine ⟨hwaits, q.1, ?_, ?_⟩
      · rw [hhall, ← hbar.1]
        simp [halls, hbar.2, q.2]
      · rw [hhall, ← hbar.1, hrel.came, hrel.came]
        exact hlt

/-! ### In a call that sends or receives -/

theorem Rel.good (hrel : Rel b N hall barriers x a) : ∃ ts, Good ts x.sys :=
  hrel.linked.good

theorem Rel.phase (hrel : Rel b N hall barriers x a) (p : Fin n) :
    Linked.Phase b (N.next p (x.loc p)) (x.loc p) (x.sys.proc p) (a.net.loc p) (a.net.cursor p)
      (x.busy p) :=
  hrel.linked.phase p

theorem Dead.waitsOn (h : Dead b N hall barriers x) {act : Act n} {rest : List (Act n)}
    (hcode : (x.sys.proc p).code = act :: rest)
    (hscan : ∀ num test body k, act ≠ .scan num test body k)
    (hstart : ∀ num test body, act ≠ .scanStart num test body) :
    ∃ q v, act.WaitsOn q v ∧ x.sys.flag p q ≠ v :=
  waitsOn_of_same hscan hstart (h.exec_same hcode)

/-- A send that cannot go on waits for a place that is full. -/
theorem Dead.blocked_giving (h : Dead b N hall barriers x) (hrel : Rel b N hall barriers x a)
    (hsafe : N.Safe a.net) {d : Fin n} {m : b.layout.Payload} {k : σ} {pub : Bool}
    (hact : N.next p (x.loc p) = .put d m k ∨ N.next p (x.loc p) = .overwrite d m k)
    (hbusy : x.busy p = true) (hgiving : Giving b.layout d m pub (x.sys.proc p))
    (hloc : a.net.loc p = if pub then k else x.loc p) :
    a.net.loc p = x.loc p ∧ Meetings.Blocked N (halls hall barriers) a p := by
  rcases hrel.good with ⟨ts, hgood⟩
  cases hcode : (x.sys.proc p).code with
  | nil =>
      rcases hact with hact | hact
      · exact absurd (hact ▸ Linked.Returns.send) (h.not_return hbusy hcode (k := k))
      · exact absurd (hact ▸ Linked.Returns.sendNoSync) (h.not_return hbusy hcode (k := k))
  | cons act rest =>
      have hout : act.Out := hgiving.out act (by simp [hcode])
      rcases h.waitsOn hcode (by rintro _ _ _ _ rfl; exact hout) (by rintro _ _ _ rfl; exact hout) with
        ⟨q, v, hwaits, hflag⟩
      rcases Good.waits_to_send (L := b.layout) hgood hcode hout hwaits with ⟨d', rfl, rfl, ht, hpos⟩
      -- it waits for the slot in which it is to publish
      have hleft : publications b.layout d' (x.sys.proc p).code =
          if d = d' ∧ pub = false then 1 else 0 := hgiving.left d'
      have hd : d = d' ∧ pub = false := by
        by_contra hne
        rw [if_neg hne] at hleft
        omega
      rcases hd with ⟨rfl, rfl⟩
      have hfull : (a.net.chan (p, d)).place ≠ none := by
        intro hfree
        have heq := ((hrel.linked.chan.fifo (p, d)).ins_eq hfree)
        rw [hrel.linked.chan.ins, hrel.linked.chan.outs] at heq
        exact hflag (hgood.empty_of_idle ht heq)
      have hloc' : a.net.loc p = x.loc p := hloc
      refine ⟨hloc', ?_⟩
      unfold Meetings.Blocked
      rcases hact with hact | hact
      · rw [hloc', hact]
        exact hfull
      · exact absurd (hsafe p d m k (by rw [hloc', hact])) hfull

/-- A receive that cannot go on waits for a message that is not there. -/
theorem Dead.blocked_pulling (h : Dead b N hall barriers x) (hrel : Rel b N hall barriers x a)
    {r : Fin n} {k : b.layout.Payload → σ} (hact : N.next p (x.loc p) = .take r k)
    (hpulls : Pulls r (x.sys.proc p).code) (hloc : a.net.loc p = x.loc p) :
    Meetings.Blocked N (halls hall barriers) a p := by
  rcases hrel.good with ⟨ts, hgood⟩
  have hempty : x.sys.Waits p (.recvBuf r) ssmpBufMessg →
      b.layout.stateOf (x.sys.slot (r, p)) ≠ ssmpBufMessg → (a.net.chan (r, p)).place = none := by
    intro hwaits hmiss
    rcases hgood.idle_of_waits hwaits with ⟨lk, ht⟩
    exact hrel.linked.chan.place_none (hgood.received_of_miss ht hmiss)
  unfold Meetings.Blocked
  rw [hloc, hact]
  generalize hcode : (x.sys.proc p).code = code at hpulls
  have hwaits := fun act rest hcons => @Dead.waitsOn n σ b N hall barriers x p h act rest hcons
  cases hpulls with
  | await _ =>
      rcases hwaits _ _ hcode (by simp) (by simp) with ⟨q, v, hq | ⟨new, hq⟩, hflag⟩
      · cases hq
        exact hempty (by simp [Sys.Waits, hcode]) hflag
      · cases hq
  | cas _ =>
      rcases hwaits _ _ hcode (by simp) (by simp) with ⟨q, v, hq | ⟨new, hq⟩, hflag⟩
      · cases hq
      · cases hq
        exact hempty (by simp [Sys.Waits, hcode]) hflag
  | copyIn _ =>
      rcases hwaits _ _ hcode (by simp) (by simp) with ⟨q, v, hq | ⟨new, hq⟩, _⟩ <;> cases hq
  | store =>
      rcases hwaits _ _ hcode (by simp) (by simp) with ⟨q, v, hq | ⟨new, hq⟩, _⟩ <;> cases hq

/-- Taking a message does not wait. -/
theorem Dead.not_taking (h : Dead b N hall barriers x) {src : Fin n} {id : UInt32} {st nm : Bool}
    {num : Nat} : ¬ Takes src id [.advance num] st nm (x.sys.proc p).code := by
  intro htakes
  generalize hcode : (x.sys.proc p).code = code at htakes
  have hwaits := fun act rest hcons => @Dead.waitsOn n σ b N hall barriers x p h act rest hcons
  cases htakes with
  | _ => rcases hwaits _ _ hcode (by simp) (by simp) with ⟨q, v, hq | ⟨new, hq⟩, _⟩ <;> cases hq

theorem steps_runAlone (p : Fin n) (k : Nat) (x : Whole b.layout n σ) :
    (system b N hall barriers).Steps x { x with sys := x.sys.runAlone p k } := by
  induction k generalizing x with
  | zero => exact Relation.ReflTransGen.refl
  | succ k ih =>
      cases hex : x.sys.exec p with
      | none =>
          have hstay : x.sys.runAlone p (k + 1) = x.sys := by rw [Sys.runAlone, hex]
          rw [hstay]
          exact Relation.ReflTransGen.refl
      | some t =>
          have hnext : x.sys.runAlone p (k + 1) = t.runAlone p k := by rw [Sys.runAlone, hex]
          rw [hnext]
          exact Relation.ReflTransGen.head ⟨p, Step.run hex⟩ (ih { x with sys := t })

/-- A scan that goes on for ever finds nothing. -/
theorem Dead.blocked_scanning (h : Dead b N hall barriers x) (hrel : Rel b N hall barriers x a)
    {srcs : List (Fin n)} {k : Fin n → b.layout.Payload → σ} {num : Nat}
    {test : Nat → Option (Fin n × Bool)} {body : Nat → List (Act n)}
    (hact : N.next p (x.loc p) = .scan srcs k) (hscans : Scans srcs num test body)
    (hcode : (x.sys.proc p).code = [.scanStart num test body]) (hloc : a.net.loc p = x.loc p) :
    Meetings.Blocked N (halls hall barriers) a p := by
  rcases hrel.good with ⟨ts, hgood⟩
  unfold Meetings.Blocked
  rw [hloc, hact]
  intro r hr
  by_contra hfull
  rcases List.getElem?_of_mem hr with ⟨i, hi⟩
  have hlt : i < num := by
    rw [hscans.len]
    exact (List.getElem?_eq_some_iff.1 hi).1
  -- the slot of `r` is full
  have hidle : ∃ lk, ts p = .idle lk := by
    have hD := hgood.disciplined p
    rw [hcode] at hD
    generalize ht : ts p = τ at hD
    cases hD
    exact ⟨_, rfl⟩
  rcases hidle with ⟨lk, ht⟩
  have hmessg : b.layout.stateOf (x.sys.slot (r, p)) = ssmpBufMessg := by
    by_contra hmiss
    exact hfull (hrel.linked.chan.place_none (hgood.received_of_miss ht hmiss))
  have htest : ∃ lk', test i = some (r, lk') := by
    cases htest : test i with
    | none => exact absurd htest (hscans.tests i hlt)
    | some rl =>
        have hentry := hscans.entry i rl.1 rl.2 htest
        rw [hi] at hentry
        cases hentry
        exact ⟨rl.2, rfl⟩
  rcases htest with ⟨lk', htest⟩
  have hhit : x.sys.hit p test i = true := by
    unfold Sys.hit
    rw [htest]
    exact beq_iff_eq.2 hmessg
  -- so the scan comes to a full slot
  have hsome : ((scanOrder num (x.sys.proc p).startRecvFrom).find? (x.sys.hit p test)).isSome := by
    rw [List.find?_isSome]
    exact ⟨i, mem_scanOrder.2 hlt, hhit⟩
  rcases Option.isSome_iff_exists.1 hsome with ⟨j, hfind⟩
  rcases alone_scanStart hfind hcode with ⟨_, src, lk'', t, htestj, ⟨steps, hrun⟩, hprobed, _⟩
  have hsame := (h _ (steps_runAlone p steps x)).code p
  rcases hscans.takes j src lk'' htestj with ⟨id, _, htakes⟩
  have hbody : body j ++ [] = [.scanStart num test body] := by
    rw [← hprobed.code, ← hcode, ← hsame, ← hrun]
  rw [List.append_nil] at hbody
  rw [hbody] at htakes
  cases htakes

/-! ## Deadlocks -/

/-- In a state of the library that nothing can change, every process of the network is where it is on
the library, and blocked. -/
theorem blocked_of_dead (hn : n ≤ 256) (hcolors : ScansColors N) (hsafe : N.Safe a.net)
    (hrel : Rel b N hall barriers x a) (h : Dead b N hall barriers x) (p : Fin n) :
    a.net.loc p = x.loc p ∧ Meetings.Blocked N (halls hall barriers) a p := by
  cases hin : x.inWait p with
  | true => exact ⟨(hrel.linked.idle (hrel.idle p hin).1).2.1, h.blocked_wait hrel hin⟩
  | false =>
      have hphase := hrel.phase p
      cases hbusy : x.busy p with
      | false =>
          have hloc : a.net.loc p = x.loc p := (hrel.linked.idle hbusy).2.1
          refine ⟨hloc, ?_⟩
          unfold Meetings.Blocked
          rw [hloc, h.stop hcolors hbusy hin]
          trivial
      | true =>
          rw [hbusy] at hphase
          cases hphase with
          | giving hact hgiving hloc _ => exact h.blocked_giving hrel hsafe hact hbusy hgiving hloc
          | pulling hact hpulls hloc _ => exact ⟨hloc, h.blocked_pulling hrel hact hpulls hloc⟩
          | pulled hact hcode _ _ =>
              exact absurd (hact ▸ Linked.Returns.recvFrom) (h.not_return hbusy hcode)
          | scanning hact hscans hcode hloc _ =>
              exact ⟨hloc, h.blocked_scanning hrel hact hscans hcode hloc⟩
          | reading _ _ htakes _ _ _ => exact absurd htakes.code h.not_taking
          | leaving _ _ htakes _ _ => exact absurd htakes.code h.not_taking
          | @read srcs k src hact hcode hsender _ _ =>
              -- the ids of at most 256 processes fit into a byte
              have hsrc : b.layout.senderOf (x.sys.proc p).msg = src.val := by
                rw [hsender]
                exact Nat.mod_eq_of_lt (by omega)
              exact absurd (hact ▸ Linked.Returns.recvColorStart hsrc) (h.not_return hbusy hcode)

/-- Who is in a call has not stopped. -/
theorem Rel.idle_of_stop (hrel : Rel b N hall barriers x a) (hstop : N.next p (x.loc p) = .stop) :
    x.busy p = false ∧ x.inWait p = false := by
  constructor
  · by_contra hbusy
    have hphase := hrel.phase p
    rw [Bool.eq_true_of_not_eq_false hbusy, hstop] at hphase
    cases hphase with
    | giving hact _ _ _ => rcases hact with hact | hact <;> cases hact
    | pulling hact _ _ _ => cases hact
    | pulled hact _ _ _ => cases hact
    | scanning hact _ _ _ _ => cases hact
    | reading hact _ _ _ _ _ => cases hact
    | leaving hact _ _ _ _ => cases hact
    | read hact _ _ _ _ => cases hact
  · by_contra hin
    rcases (hrel.idle p (Bool.eq_true_of_not_eq_false hin)).2 with ⟨k, hk⟩
    rw [hstop] at hk
    cases hk

/-- In a state that stands for one of the network from which the programs cannot get stuck, all
programs have stopped, or something more than the cursors of scans can still change. -/
theorem Rel.stopped_or_changes (hn : n ≤ 256) (hcolors : ScansColors N) (hsafe : N.Safe a.net)
    (hlive : (∀ p, Meetings.Blocked N (halls hall barriers) a p) →
      ∀ p, N.next p (a.net.loc p) = .stop)
    (hrel : Rel b N hall barriers x a) :
    (∀ p, x.busy p = false ∧ x.inWait p = false ∧ N.next p (x.loc p) = .stop) ∨
      ∃ y, (system b N hall barriers).Steps x y ∧ ¬ OnlyCursors x y := by
  by_contra hnone
  rw [not_or] at hnone
  have hdead : Dead b N hall barriers x := by
    intro y hy
    by_contra hchange
    exact hnone.2 ⟨y, hy, hchange⟩
  have hblocked := blocked_of_dead hn hcolors hsafe hrel hdead
  refine hnone.1 fun p => ?_
  have hstop := hlive (fun q => (hblocked q).2) p
  rw [(hblocked p).1] at hstop
  exact ⟨(hrel.idle_of_stop hstop).1, (hrel.idle_of_stop hstop).2, hstop⟩

end Dead

end Whole

end Ssmp
