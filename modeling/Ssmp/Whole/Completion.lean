import Ssmp.Lib.Part
import Ssmp.Whole.Progress

/-!
# Whole.Completion — programs on the library come to their end

Every step of a program on the library brings its call, or the program itself, nearer to its end, but
for those that only move the cursor of a scan or wait in vain.  So if a program has less and less to do
on the network and cannot get stuck there, every run on the library can be completed
(`library_completes`), and a run that goes on for ever comes to rest (`library_rests`).
-/

namespace Ssmp

open Lib Barrier Network

/-! ## Actions -/

section Actions

variable {L : MsgLayout} {n : Nat} {me : Fin n} {s t : Sys L n} {a : Act n} {rest : List (Act n)}

/-- Process `me` has at most moved its cursor. -/
def Sys.Seeks (s : Sys L n) (me : Fin n) (t : Sys L n) : Prop :=
  ∃ c, t = s.setProc me { s.proc me with startRecvFrom := c }

theorem Sys.Seeks.refl : s.Seeks me s := by
  refine ⟨(s.proc me).startRecvFrom, ?_⟩
  show s = { s with proc := Function.update s.proc me (s.proc me) }
  rw [Function.update_eq_self]

/-- An action of a call that does not scan waits in vain, or leaves fewer actions. -/
theorem execAct_shorter (hscan : ∀ num test body k, a ≠ .scan num test body k)
    (hstart : ∀ num test body, a ≠ .scanStart num test body)
    (hcode : (s.proc me).code = a :: rest) :
    s.execAct me a rest = s ∨
      ((s.execAct me a rest).proc me).code.length < (s.proc me).code.length := by
  have hlt : rest.length < (s.proc me).code.length := by simp [hcode]
  cases a with
  | await q v =>
      simp only [Sys.execAct]
      split
      · exact Or.inr (by simpa using hlt)
      · exact Or.inl rfl
  | cas q old new =>
      simp only [Sys.execAct]
      split
      · exact Or.inr (by simpa using hlt)
      · exact Or.inl rfl
  | scan num test body k => exact absurd rfl (hscan _ _ _ _)
  | scanStart num test body => exact absurd rfl (hstart _ _ _)
  | copyOut d p =>
      refine Or.inr ?_
      simp only [Sys.execAct]
      split <;> simpa using hlt
  | store q v =>
      refine Or.inr ?_
      cases q with
      | sendBuf d =>
          simp only [Sys.execAct]
          split <;> simpa [Sys.logSent] using hlt
      | recvBuf r =>
          simp only [Sys.execAct]
          split <;> simpa [Sys.logRecvd] using hlt
  | _ => exact Or.inr (by simpa [Sys.execAct] using hlt)

/-- A test finds a full slot, or the scan goes on. -/
theorem probe_eq (tst : Option (Fin n × Bool)) (hit : List (Act n)) (next : Proc n) :
    s.probe me tst hit next = s.setProc me next ∨
      ∃ src lk, tst = some (src, lk) ∧ ((s.probe me tst hit next).proc me).code = hit := by
  cases tst with
  | none => exact Or.inl rfl
  | some rl =>
      rcases rl with ⟨src, lk⟩
      by_cases hf : s.flag me (.recvBuf src) = ssmpBufMessg
      · refine Or.inr ⟨src, lk, rfl, ?_⟩
        cases lk <;> simp [Sys.probe, hf]
      · refine Or.inl ?_
        simp only [Sys.probe, hf, if_false]

end Actions

/-! ## Calls -/

section Calls

variable {L : MsgLayout} {n : Nat} {me d r src : Fin n} {s t : Sys L n} {m : L.Payload} {p : Proc n}
variable {ts : Fin n → Typestate n} {v : ℕ ×ₗ ℕ} {id : UInt32} {num : Nat} {pub st nm : Bool}

/-- What is left of a call: the network does its action later (1 and 2) or has done it (4), and so many
actions of the call are left. -/
inductive Left (L : MsgLayout) (p : Proc n) : ℕ ×ₗ ℕ → Prop where
  | giving {d : Fin n} {m : L.Payload} {pub : Bool} (h : Giving L d m pub p) :
      Left L p (toLex (if pub then 4 else 1, p.code.length))
  | pulling {r : Fin n} (h : Pulls r p.code) : Left L p (toLex (1, p.code.length))
  | scanning {srcs : List (Fin n)} {num : Nat} {test : Nat → Option (Fin n × Bool)}
      {body : Nat → List (Act n)} (h : Scans srcs num test body)
      (hcode : p.code = [.scanStart num test body]) : Left L p (toLex (2, 0))
  | taking {src : Fin n} {id : UInt32} {num : Nat} {st nm : Bool}
      (h : TakesNow L src id [.advance num] st nm p) :
      Left L p (toLex (if st then 4 else 1, p.code.length))
  | ended (hcode : p.code = []) : Left L p (toLex (4, 0))

theorem Left.seek (h : Left L p v) (c : Nat) : Left L { p with startRecvFrom := c } v := by
  cases h with
  | giving h => exact Left.giving (p := { p with startRecvFrom := c }) ⟨h.out, h.arg, h.left⟩
  | pulling h => exact Left.pulling (p := { p with startRecvFrom := c }) h
  | scanning h hcode => exact Left.scanning (p := { p with startRecvFrom := c }) h hcode
  | taking h => exact Left.taking (p := { p with startRecvFrom := c }) ⟨h.code, h.sender⟩
  | ended hcode => exact Left.ended (p := { p with startRecvFrom := c }) hcode

theorem lex_stage_lt {i j k l : Nat} (h : i < j) : toLex (i, k) < toLex (j, l) :=
  Prod.Lex.toLex_lt_toLex.2 (Or.inl h)

/-- With fewer actions left in the same part of the call, less is left. -/
theorem lex_length_lt {i k l : Nat} (h : k < l) : toLex (i, k) < toLex (i, l) :=
  Prod.Lex.toLex_lt_toLex.2 (Or.inr ⟨rfl, h⟩)

/-- A call that is over has had its action done. -/
theorem Left.of_nil (h : Left L p v) (hcode : p.code = []) : toLex (3, 0) < v := by
  cases h with
  | giving h =>
      rw [h.published hcode]
      exact lex_stage_lt (by simp)
  | pulling h =>
      rw [hcode] at h
      cases h
  | scanning _ hcode' =>
      rw [hcode] at hcode'
      cases hcode'
  | taking h =>
      have hcodes := h.code
      rw [hcode] at hcodes
      cases hcodes
  | ended _ => exact lex_stage_lt (by decide)

/-- The history of process `me` has grown. -/
def Sys.Logs (s t : Sys L n) : Prop :=
  t.sent ≠ s.sent ∨ t.recvd ≠ s.recvd

theorem Sys.Gave.logs (h : s.Gave me d m t) : s.Logs t := by
  refine Or.inl fun heq => ?_
  have hsent := h.sent (me, d)
  rw [heq, if_pos rfl] at hsent
  simpa using congrArg List.length hsent

theorem Sys.Got.logs (h : s.Got r me m t) : s.Logs t := by
  refine Or.inr fun heq => ?_
  have hrecvd := h.recvd (r, me)
  rw [heq, if_pos rfl] at hrecvd
  simpa using congrArg List.length hrecvd

/-- An action of a call at most moves the cursor, or it is the one at which the network does its own,
or less is left behind it. -/
theorem Left.exec (hgood : Good ts s) (hfits : L.SenderFits) (h : Left L (s.proc me) v)
    (hex : s.exec me = some t) :
    s.Seeks me t ∨ (s.Logs t ∧ ∃ w, Left L (t.proc me) w) ∨ ∃ w, w < v ∧ Left L (t.proc me) w := by
  rcases Sys.exec_eq_some hex with ⟨a, rest, hcode, ht⟩
  cases h with
  | @giving d m pub h =>
      rcases (h.exec hgood hex).2 with ⟨_, h'⟩ | ⟨_, hgave, h'⟩
      · have ha : a.Out := h.out a (by simp [hcode])
        have hshort := execAct_shorter (by rintro _ _ _ _ rfl; exact ha) (by rintro _ _ _ rfl; exact ha)
          hcode
        rw [ht] at hshort
        rcases hshort with rfl | hlt
        · exact Or.inl Sys.Seeks.refl
        · exact Or.inr (Or.inr ⟨_, lex_length_lt hlt, Left.giving h'⟩)
      · exact Or.inr (Or.inl ⟨hgave.logs, _, Left.giving h'⟩)
  | @pulling r h =>
      rcases (h.exec hex).2 with ⟨_, h'⟩ | ⟨hgot, hcode'⟩
      · rw [hcode] at h
        have hshort := execAct_shorter (by rintro _ _ _ _ rfl; cases h) (by rintro _ _ _ rfl; cases h)
          hcode
        rw [ht] at hshort
        rcases hshort with rfl | hlt
        · exact Or.inl Sys.Seeks.refl
        · exact Or.inr (Or.inr ⟨_, lex_length_lt hlt, Left.pulling h'⟩)
      · exact Or.inr (Or.inl ⟨hgot.logs, _, Left.ended hcode'⟩)
  | @scanning srcs num test body h hcode' =>
      have ht' := Sys.exec_of_code hcode' hex
      subst ht'
      by_cases hk : (s.proc me).startRecvFrom < num
      · simp only [Sys.execAct, hk, if_true]
        rcases @probe_eq L n me s (test (s.proc me).startRecvFrom)
            (body (s.proc me).startRecvFrom ++ [])
            { s.proc me with startRecvFrom := (s.proc me).startRecvFrom + 1 } with
          hmiss | ⟨src, lk, htest, hbody⟩
        · exact Or.inl ⟨_, hmiss⟩
        · rcases h.takes _ _ _ htest with ⟨id, _, htakes⟩
          rw [List.append_nil] at hbody
          refine Or.inr (Or.inr ⟨_, ?_, @Left.taking n L _ src id num false false ⟨?_, by simp⟩⟩)
          · exact lex_stage_lt (by simp)
          · rw [List.append_nil, hbody]
            exact htakes
      · refine Or.inl ⟨0, ?_⟩
        simp only [Sys.execAct, hk, if_false]
  | @taking src id num st nm h =>
      have hcodes := h.code
      rw [hcode] at hcodes
      rcases h.exec hfits hex with ⟨rfl, rfl, hdone⟩ | ⟨_, ⟨nm', _, h', _⟩ | ⟨rfl, hgot, h'⟩⟩
      · -- the cursor is moved past the slot that has been read
        have ht' := Sys.exec_of_code hdone hex
        refine Or.inr (Or.inr ⟨_, ?_, Left.ended (by rw [← ht']; simp [Sys.execAct])⟩)
        rw [hdone]
        exact lex_length_lt Nat.one_pos
      · have hshort := execAct_shorter (by rintro _ _ _ _ rfl; cases hcodes)
          (by rintro _ _ _ rfl; cases hcodes) hcode
        rw [ht] at hshort
        rcases hshort with rfl | hlt
        · exact Or.inl Sys.Seeks.refl
        · exact Or.inr (Or.inr ⟨_, lex_length_lt hlt, Left.taking h'⟩)
      · exact Or.inr (Or.inl ⟨hgot.logs, _, Left.taking h'⟩)
  | ended hcode' =>
      rw [hcode'] at hcode
      cases hcode

end Calls

/-! ## Calls of `ssmp_barrier_wait` -/

namespace Barrier

section Calls

variable {n : Nat} {s : State n} {p : Fin n}

/-- The steps from here to the return, waits in vain apart. -/
def Pc.rank : Pc → Nat
  | .idle => 0
  | .ret _ => 1
  | .resetCleared _ => 2
  | .subTicket _ => 3
  | .waitSet _ => 4
  | .setCleared _ => 5
  | .addTicket _ _ => 6
  | .waitClear _ _ => 7

/-- The steps that a process has left, with the calls that are still to come. -/
def State.rank (s : State n) (p : Fin n) : Nat :=
  8 * (s.todo p).length + (s.pc p).rank

theorem rank_callPc (bar : Nat) : (s.callPc p bar).rank < 8 := by
  unfold State.callPc
  split
  · simp [Pc.rank]
  · split <;> simp [Pc.rank]

/-- A step of `ssmp_barrier_wait` waits in vain, or fewer are left. -/
theorem step_rank : s.step p = s ∨ (s.step p).rank p < s.rank p := by
  cases hpc : s.pc p with
  | idle =>
      cases htodo : s.todo p with
      | nil => exact Or.inl (by simp [State.step, hpc, htodo])
      | cons bar todo =>
          have hlt := @rank_callPc n s p bar
          refine Or.inr ?_
          simp only [State.step, State.rank, State.setPc, hpc, htodo, Function.update_self,
            List.length_cons]
          omega
  | waitClear bar numPart =>
      by_cases hc : (s.barrier bar).cleared = 1
      · exact Or.inl (by simp [State.step, hpc, hc])
      · exact Or.inr (by simp [State.step, State.rank, State.setPc, Pc.rank, hpc, hc])
  | addTicket bar numPart =>
      refine Or.inr ?_
      simp only [State.step, State.rank, State.setPc, State.setBarrier, hpc, Function.update_self]
      split <;> simp [Pc.rank]
  | waitSet bar =>
      by_cases hc : (s.barrier bar).cleared = 0
      · exact Or.inl (by simp [State.step, hpc, hc])
      · exact Or.inr (by simp [State.step, State.rank, State.setPc, Pc.rank, hpc, hc])
  | subTicket bar =>
      refine Or.inr ?_
      simp only [State.step, State.rank, State.setPc, State.setBarrier, hpc, Function.update_self]
      split <;> simp [Pc.rank]
  | _ =>
      refine Or.inr ?_
      simp [State.step, State.rank, State.setPc, State.setBarrier, hpc, Pc.rank]

end Calls

end Barrier

/-! ## Programs -/

namespace Whole

section Levels

variable {n : Nat} {σ : Type} {b : Build} {N : Network (Fin n) b.layout.Payload σ}
variable {hall : Fin n → σ → Nat} {barriers : Nat → SsmpBarrier} {x y : Whole b.layout n σ}
variable {a : Meetings (Fin n) b.layout.Payload σ} {me p : Fin n} {v : ℕ ×ₗ ℕ}

/-- What is left of what process `p` is at: of a call that sends or receives, or of one of
`ssmp_barrier_wait`.  Between two calls the next one is left. -/
inductive Level (x : Whole b.layout n σ) (p : Fin n) : ℕ ×ₗ ℕ → Prop where
  | idle (hidle : x.busy p = false) (hout : x.inWait p = false) : Level x p (toLex (3, 0))
  | inCall {v : ℕ ×ₗ ℕ} (hbusy : x.busy p = true) (h : Left b.layout (x.sys.proc p) v) : Level x p v
  | inBarrier (hidle : x.busy p = false) (hin : x.inWait p = true) :
      Level x p (toLex (2, x.bars.rank p))

theorem Level.of_same (h : Level x p v) (hproc : y.sys.proc p = x.sys.proc p)
    (hbusy : y.busy p = x.busy p) (hin : y.inWait p = x.inWait p)
    (hrank : y.bars.rank p = x.bars.rank p) : Level y p v := by
  cases h with
  | idle hidle hout => exact Level.idle (hbusy.trans hidle) (hin.trans hout)
  | inCall hb h => exact Level.inCall (hbusy.trans hb) (by rw [hproc]; exact h)
  | inBarrier hidle hin' =>
      rw [← hrank]
      exact Level.inBarrier (hbusy.trans hidle) (hin.trans hin')

theorem Level.of_idle (h : Level x p v) (hidle : x.busy p = false) (hout : x.inWait p = false) :
    v = toLex (3, 0) := by
  cases h with
  | idle _ _ => rfl
  | inCall hbusy _ => exact absurd (hidle.symm.trans hbusy) (by decide)
  | inBarrier _ hin => exact absurd (hout.symm.trans hin) (by decide)

theorem Level.of_busy (h : Level x p v) (hbusy : x.busy p = true) :
    Left b.layout (x.sys.proc p) v := by
  cases h with
  | idle hidle _ => exact absurd (hidle.symm.trans hbusy) (by decide)
  | inCall _ h => exact h
  | inBarrier hidle _ => exact absurd (hidle.symm.trans hbusy) (by decide)

theorem Level.of_inWait (h : Level x p v) (hidle : x.busy p = false) (hin : x.inWait p = true) :
    v = toLex (2, x.bars.rank p) := by
  cases h with
  | idle _ hout => exact absurd (hout.symm.trans hin) (by decide)
  | inCall hbusy _ => exact absurd (hidle.symm.trans hbusy) (by decide)
  | inBarrier _ _ => rfl

/-- At the beginning of a call less is left than before it. -/
theorem left_of_calls {act : Action (Fin n) b.layout.Payload σ} {code : List (Act n)} {msg : Line}
    (h : Linked.Calls b me act code msg) (q : Proc n) :
    ∃ w, w < toLex (3, 0) ∧ Left b.layout { q with code := code, msg := msg, arg := msg } w := by
  cases h with
  | @send d m k _ hmsg =>
      have hgiving : Giving b.layout d m false
          { q with code := (b.platform me).ssmpSendPlatf d, msg := msg, arg := msg } := by
        refine ⟨b.out_send me d, hmsg, ?_⟩
        intro j
        simpa using (b.sendsTo me d).publishes j
      exact ⟨_, lex_stage_lt (by simp), Left.giving hgiving⟩
  | @sendNoSync d m k _ hmsg =>
      have hgiving : Giving b.layout d m false
          { q with code := (b.platform me).ssmpSendNoSyncPlatf d, msg := msg, arg := msg } := by
        refine ⟨b.out_noSync me d, hmsg, ?_⟩
        intro j
        simpa using b.publications_noSync me d j
      exact ⟨_, lex_stage_lt (by simp), Left.giving hgiving⟩
  | recvFrom msg => exact ⟨_, lex_stage_lt (by simp), Left.pulling (b.pulls me _)⟩
  | @recvColorStart color srcs k msg hbuf =>
      rcases b.scans me color with ⟨num, test, body, hcode, hscans⟩
      exact ⟨_, lex_stage_lt (by simp), Left.scanning hscans hcode⟩

/-- What process `me` does is of no consequence to what is left to the others. -/
theorem Step.level_ne (hst : Step b N hall x me y) (hp : p ≠ me) (h : Level x p v) :
    Level y p v := by
  cases hst with
  | call _ _ =>
      refine h.of_same ?_ (Function.update_of_ne hp _ _) rfl rfl
      exact setProc_proc_ne hp _
  | run hex => exact h.of_same (exec_proc_ne hex hp) rfl rfl rfl
  | ret _ _ _ => exact h.of_same rfl (Function.update_of_ne hp _ _) rfl rfl
  | wait _ _ _ =>
      refine h.of_same rfl rfl (Function.update_of_ne hp _ _) ?_
      show 8 * (Function.update x.bars.todo me _ p).length + _ = _
      rw [Function.update_of_ne hp]
      rfl
  | access _ =>
      have hsame := step_same x.bars me
      refine h.of_same rfl rfl rfl ?_
      show 8 * ((x.bars.step me).todo p).length + ((x.bars.step me).pc p).rank = _
      rw [hsame.todo p hp, hsame.pc p hp]
      rfl
  | cross _ _ _ _ => exact h.of_same rfl rfl (Function.update_of_ne hp _ _) rfl

theorem OnlyCursors.refl {L : MsgLayout} (x : Whole L n σ) : OnlyCursors x x :=
  ⟨rfl, fun _ => rfl, fun _ => rfl, rfl, rfl, rfl, rfl⟩

theorem OnlyCursors.trans {L : MsgLayout} {x y z : Whole L n σ} (h : OnlyCursors x y)
    (h' : OnlyCursors y z) : OnlyCursors x z :=
  ⟨h'.slot.trans h.slot, fun p => (h'.code p).trans (h.code p), fun p => (h'.msg p).trans (h.msg p),
    h'.bars.trans h.bars, h'.loc.trans h.loc, h'.busy.trans h.busy, h'.inWait.trans h.inWait⟩

/-- An action that only moves the cursor. -/
theorem onlyCursors_of_seeks {t : Sys b.layout n} (h : x.sys.Seeks me t) :
    OnlyCursors x { x with sys := t } := by
  rcases h with ⟨c, rfl⟩
  refine ⟨rfl, ?_, ?_, rfl, rfl, rfl, rfl⟩
  · intro p
    by_cases hp : p = me
    · subst hp
      simp
    · simp [setProc_proc_ne hp]
  · intro p
    by_cases hp : p = me
    · subst hp
      simp
    · simp [setProc_proc_ne hp]

/-- When the history grows, the network has done its action. -/
theorem acts_of_logs {a' : Meetings (Fin n) b.layout.Payload σ} (h : Rel b N hall barriers x a)
    (h' : Rel b N hall barriers y a') (hlogs : x.sys.Logs y.sys) :
    a' ≠ a ∧ Meetings.Acts N a.net me a'.net := by
  have hchan : a'.net.chan ≠ a.net.chan := by
    intro heq
    rcases hlogs with hsent | hrecvd
    · refine hsent (funext fun ij => ?_)
      rw [h'.sent, h.sent, heq]
    · refine hrecvd (funext fun ij => ?_)
      rw [h'.recvd, h.recvd, heq]
  exact ⟨fun heq => hchan (by rw [heq]), Or.inl hchan⟩

/-- A step at most moves a cursor; or less is left for the process that makes it, or the network has
done more than to scan in vain. -/
theorem Rel.step_level (hready : ∀ bar < ssmpNumBarriers, (barriers bar).Counted n) (hn : n ≤ 256)
    (h : Rel b N hall barriers x a) (hsafe : N.Safe a.net) (hv : Level x me v)
    (hst : Step b N hall x me y) :
    ∃ a', (a' = a ∨ Meetings.Step N (halls hall barriers) a me a') ∧ Rel b N hall barriers y a' ∧
      (OnlyCursors x y ∧ Level y me v ∨
        ∃ w, Level y me w ∧ (w < v ∨ Meetings.Step N (halls hall barriers) a me a' ∧
          Meetings.Acts N a.net me a'.net)) := by
  rcases h.step hready hn hsafe hst with ⟨a', ha', h'⟩
  cases hst with
  | @call code msg hidle hcall =>
      have hout := h.inWait_of_calls hcall
      rcases left_of_calls hcall (x.sys.proc me) with ⟨w, hlt, hw⟩
      rw [← enter_proc] at hw
      refine ⟨a', ha', h', Or.inr ⟨w, Level.inCall (Function.update_self _ _ _) hw, Or.inl ?_⟩⟩
      rw [hv.of_idle hidle hout]
      exact hlt
  | @run t hex =>
      rcases h.good with ⟨ts, hgood⟩
      cases hbusy : x.busy me with
      | false => exact absurd hex (Sys.not_exec (h.linked.idle hbusy).1)
      | true =>
          have hleft := hv.of_busy hbusy
          rcases hleft.exec hgood b.senderFits hex with hseeks | ⟨hlogs, w, hw⟩ | ⟨w, hlt, hw⟩
          · refine ⟨a', ha', h', Or.inl ⟨onlyCursors_of_seeks hseeks, Level.inCall hbusy ?_⟩⟩
            rcases hseeks with ⟨c, rfl⟩
            simpa using hleft.seek c
          · rcases @acts_of_logs n σ b N hall barriers x _ a me a' h h' hlogs with ⟨hne, hacts⟩
            rcases ha' with heq | hstep
            · exact absurd heq hne
            · exact ⟨a', Or.inr hstep, h', Or.inr ⟨w, Level.inCall hbusy hw, Or.inr ⟨hstep, hacts⟩⟩⟩
          · exact ⟨a', ha', h', Or.inr ⟨w, Level.inCall hbusy hw, Or.inl hlt⟩⟩
  | ret hbusy hcode hret =>
      refine ⟨a', ha', h', Or.inr ⟨_, Level.idle (Function.update_self _ _ _) ?_, Or.inl ?_⟩⟩
      · exact h.inWait_of_busy hbusy
      · exact (hv.of_busy hbusy).of_nil hcode
  | wait hidle hout hnext =>
      refine ⟨a', ha', h', Or.inr ⟨_, Level.inBarrier hidle (Function.update_self _ _ _), Or.inl ?_⟩⟩
      rw [hv.of_idle hidle hout]
      exact lex_stage_lt (by decide)
  | access hin =>
      have hidle := (h.idle me hin).1
      rcases @step_rank n x.bars me with hsame | hlt
      · have hxy : { x with bars := x.bars.step me } = x := by rw [hsame]
        rw [hxy] at h' ⊢
        exact ⟨a', ha', h', Or.inl ⟨OnlyCursors.refl x, hv⟩⟩
      · refine ⟨a', ha', h', Or.inr ⟨_, Level.inBarrier hidle hin, Or.inl ?_⟩⟩
        rw [hv.of_inWait hidle hin]
        exact lex_length_lt hlt
  | @cross k hin hpc htodo hnext =>
      have hidle := (h.idle me hin).1
      have hloc : a.net.loc me = x.loc me := (h.linked.idle hidle).2.1
      rcases h.cross hin hpc htodo hnext with ⟨a'', hstep, h''⟩
      refine ⟨a'', Or.inr hstep, h'', Or.inr ⟨_, Level.idle hidle (Function.update_self _ _ _),
        Or.inr ⟨hstep, Or.inr ?_⟩⟩⟩
      intro srcs f hscan
      rw [hloc, hnext] at hscan
      cases hscan

end Levels

/-! ## Locations -/

section Locations

variable {n : Nat} {σ : Type} {b : Build} {N : Network (Fin n) b.layout.Payload σ}
variable {hall : Fin n → σ → Nat} {barriers : Nat → SsmpBarrier} {x y : Whole b.layout n σ} {me : Fin n}
variable {act : Action (Fin n) b.layout.Payload σ} {l : σ}

theorem leads_of_behind (h : Linked.Behind act l) : act.Leads l := by
  cases act with
  | put d m k => exact h
  | overwrite d m k => exact h
  | take q k => exact h
  | scan srcs k => exact h
  | meet k => exact h.elim
  | stop => exact h

theorem behind_map {τ : Type} {part : Action (Fin n) b.layout.Payload τ} {f : τ → σ}
    (h : Linked.Behind (part.map f) l) : ∃ k, Linked.Behind part k ∧ l = f k := by
  cases part with
  | put d m k => exact ⟨k, rfl, h⟩
  | overwrite d m k => exact ⟨k, rfl, h⟩
  | take q k =>
      rcases h with ⟨m, rfl⟩
      exact ⟨k m, ⟨m, rfl⟩, rfl⟩
  | scan srcs k =>
      rcases h with ⟨q, m, rfl⟩
      exact ⟨k q m, ⟨q, m, rfl⟩, rfl⟩
  | meet k => exact h.elim
  | stop => exact h.elim

theorem leads_of_returns {msg : Line} (h : Linked.Returns b msg act l) : act.Leads l := by
  cases h with
  | send => exact rfl
  | sendNoSync => exact rfl
  | recvFrom => exact ⟨_, rfl⟩
  | recvColorStart _ => exact ⟨_, _, rfl⟩

/-- A program goes on as its actions lead it. -/
theorem Step.leads (hst : Step b N hall x me y) (p : Fin n) :
    y.loc p = x.loc p ∨ (N.next p (x.loc p)).Leads (y.loc p) := by
  cases hst with
  | call _ _ => exact Or.inl rfl
  | run _ => exact Or.inl rfl
  | @ret k _ _ hret =>
      by_cases hp : p = me
      · subst hp
        right
        show (N.next p (x.loc p)).Leads (Function.update x.loc p k p)
        rw [Function.update_self]
        exact leads_of_returns hret
      · exact Or.inl (Function.update_of_ne hp _ _)
  | wait _ _ _ => exact Or.inl rfl
  | access _ => exact Or.inl rfl
  | @cross k _ _ _ hnext =>
      by_cases hp : p = me
      · subst hp
        right
        show (N.next p (x.loc p)).Leads (Function.update x.loc p k p)
        rw [Function.update_self, hnext]
        rfl
      · exact Or.inl (Function.update_of_ne hp _ _)

end Locations

/-! ## Runs -/

section Runs

variable {n : Nat} {σ : Type} {b : Build} {N : Network (Fin n) b.layout.Payload σ}
variable {hall : Fin n → σ → Nat} {barriers : Nat → SsmpBarrier} {x : Whole b.layout n σ}
variable {μ : Meetings (Fin n) b.layout.Payload σ → Nat}

/-- What is left in a state of a run: of the network that it stands for, and of what each process is
at. -/
def Measured (b : Build) (N : Network (Fin n) b.layout.Payload σ) (hall : Fin n → σ → Nat)
    (barriers : Nat → SsmpBarrier) (μ : Meetings (Fin n) b.layout.Payload σ → Nat)
    (x : Whole b.layout n σ) (m : ℕ ×ₗ (Fin n → ℕ ×ₗ ℕ)) : Prop :=
  ∃ a v, (Meetings.system N (halls hall barriers)).Reachable a ∧ Rel b N hall barriers x a ∧
    (∀ p, Level x p (v p)) ∧ m = toLex (μ a, v)

theorem descends (hn : n ≤ 256) (hready : ∀ bar < ssmpNumBarriers, (barriers bar).Counted n)
    (hsafe : ∀ a, (Meetings.system N (halls hall barriers)).Reachable a → N.Safe a.net)
    (hμ : Meetings.Lowers N (halls hall barriers) μ) :
    (system b N hall barriers).Descends OnlyCursors (Measured b N hall barriers μ) where
  refl := OnlyCursors.refl
  trans := OnlyCursors.trans
  step := by
    rintro x m me y ⟨a, v, ha, hrel, hv, rfl⟩ hst
    have hstep : Step b N hall x me y := hst
    rcases hrel.step_level hready hn (hsafe a ha) (hv me) hstep with ⟨a', ha', hrel', hcases⟩
    have hreach : (Meetings.system N (halls hall barriers)).Reachable a' := by
      rcases ha' with rfl | hmove
      · exact ha
      · exact TransSys.Reachable.step ha hmove
    have hle : μ a' ≤ μ a := by
      rcases ha' with rfl | hmove
      · exact Nat.le_refl _
      · exact hμ.le a me a' ha hmove
    rcases hcases with ⟨honly, hme⟩ | ⟨w, hw, hless⟩
    · have hv' : ∀ p, Level y p (v p) := by
        intro p
        by_cases hp : p = me
        · rw [hp]
          exact hme
        · exact hstep.level_ne hp (hv p)
      rcases Nat.eq_or_lt_of_le hle with heq | hlt
      · exact Or.inl ⟨honly, a', v, hreach, hrel', hv', by rw [heq]⟩
      · exact Or.inr ⟨_, Prod.Lex.toLex_lt_toLex.2 (Or.inl hlt), a', v, hreach, hrel', hv', rfl⟩
    · have hv' : ∀ p, Level y p (Function.update v me w p) := by
        intro p
        by_cases hp : p = me
        · rw [hp, Function.update_self]
          exact hw
        · rw [Function.update_of_ne hp]
          exact hstep.level_ne hp (hv p)
      refine Or.inr ⟨_, Prod.Lex.toLex_lt_toLex.2 ?_, a', _, hreach, hrel', hv', rfl⟩
      rcases hless with hlt | ⟨hmove, hacts⟩
      · rcases Nat.eq_or_lt_of_le hle with heq | hlt'
        · exact Or.inr ⟨heq, update_lt_self_iff.2 hlt⟩
        · exact Or.inl hlt'
      · exact Or.inl (hμ.lt a me a' ha hmove hacts)

theorem measured_of_reachable (hn : n ≤ 256)
    (hready : ∀ bar < ssmpNumBarriers, (barriers bar).Counted n)
    (hsafe : ∀ a, (Meetings.system N (halls hall barriers)).Reachable a → N.Safe a.net)
    (hμ : Meetings.Lowers N (halls hall barriers) μ) (h : (system b N hall barriers).Reachable x) :
    ∃ m, Measured b N hall barriers μ x m := by
  induction h with
  | @init x h0 =>
      have hinit : Init b N barriers x := h0
      rcases Rel.init hready hn hinit with ⟨a, ha, hrel⟩
      exact ⟨_, a, fun _ => toLex (3, 0), TransSys.Reachable.init ha, hrel,
        fun p => Level.idle (hinit.busy p) (hinit.inWait p), rfl⟩
  | step _ hst ih =>
      rcases ih with ⟨m, hm⟩
      rcases (descends hn hready hsafe hμ).step hm hst with ⟨_, hm'⟩ | ⟨m', _, hm'⟩
      · exact ⟨m, hm'⟩
      · exact ⟨m', hm'⟩

/-- All programs have stopped, and nobody is in a call. -/
def Stopped (N : Network (Fin n) b.layout.Payload σ) (x : Whole b.layout n σ) : Prop :=
  ∀ p, x.busy p = false ∧ x.inWait p = false ∧ N.next p (x.loc p) = .stop

/-- Who has stopped makes no step. -/
theorem Stopped.not_step {y : Whole b.layout n σ} {a : Meetings (Fin n) b.layout.Payload σ}
    (h : Stopped N x) (hrel : Rel b N hall barriers x a) {me : Fin n} :
    ¬ Step b N hall x me y := by
  rcases h me with ⟨hidle, hout, hstop⟩
  intro hst
  cases hst with
  | call _ hcall =>
      rw [hstop] at hcall
      cases hcall
  | run hex => exact Sys.not_exec (hrel.linked.idle hidle).1 hex
  | ret hbusy _ _ => exact absurd (hidle.symm.trans hbusy) (by decide)
  | wait _ _ hnext =>
      rw [hstop] at hnext
      cases hnext
  | access hin => exact absurd (hout.symm.trans hin) (by decide)
  | cross hin _ _ _ => exact absurd (hout.symm.trans hin) (by decide)

section Live

variable (hn : n ≤ 256) (hready : ∀ bar < ssmpNumBarriers, (barriers bar).Ready n)
variable (hcolors : ScansColors N)
variable (hsafe : ∀ a, (Meetings.system N (halls hall barriers)).Reachable a → N.Safe a.net)
variable (hlive : ∀ a, (Meetings.system N (halls hall barriers)).Reachable a →
  (∀ p, Meetings.Blocked N (halls hall barriers) a p) → ∀ p, N.next p (a.net.loc p) = .stop)
variable (hμ : Meetings.Lowers N (halls hall barriers) μ)

include hn hready hcolors hsafe hlive hμ

omit hlive in
/-- If on the network the programs have less and less to do, every run on the whole library can be
continued until nothing can change any more but the cursors of scans.  Then on the network all programs
are blocked, where they are on the library. -/
theorem exists_dead (h : (system b N hall barriers).Reachable x) :
    ∃ y, (system b N hall barriers).Steps x y ∧ Dead b N hall barriers y ∧
      ∃ a, (Meetings.system N (halls hall barriers)).Reachable a ∧ Rel b N hall barriers y a ∧
        ∀ p, a.net.loc p = y.loc p ∧ Meetings.Blocked N (halls hall barriers) a p := by
  have hcounted : ∀ bar < ssmpNumBarriers, (barriers bar).Counted n :=
    fun bar hbar => (hready bar hbar).counted
  rcases measured_of_reachable hn hcounted hsafe hμ h with ⟨m, hm⟩
  refine (descends hn hcounted hsafe hμ).exists_goal ?_ hm
  rintro y m ⟨a, v, ha, hrel, _, _⟩
  by_cases hdead : Dead b N hall barriers y
  · exact Or.inl ⟨hdead, a, ha, hrel, blocked_of_dead hn hcolors (hsafe a ha) hrel hdead⟩
  · right
    unfold Dead at hdead
    push Not at hdead
    exact hdead

/-- If on the network the programs have less and less to do, and cannot all be blocked before they have
stopped, every run on the whole library can be continued until they have stopped. -/
theorem library_completes (h : (system b N hall barriers).Reachable x) :
    ∃ y, (system b N hall barriers).Steps x y ∧ Stopped N y := by
  have hcounted : ∀ bar < ssmpNumBarriers, (barriers bar).Counted n :=
    fun bar hbar => (hready bar hbar).counted
  rcases measured_of_reachable hn hcounted hsafe hμ h with ⟨m, hm⟩
  refine (descends hn hcounted hsafe hμ).exists_goal ?_ hm
  rintro y m ⟨a', v', ha', hrel', _, _⟩
  exact hrel'.stopped_or_changes hn hcolors (hsafe a' ha') (hlive a' ha')

/-- So a run that goes on for ever comes to rest: from some state on nothing changes but the cursors of
scans, although the programs could still be run until they have stopped. -/
theorem library_rests {f : Nat → Whole b.layout n σ} {l : Nat → Fin n}
    (h : (system b N hall barriers).Reachable (f 0))
    (hrun : ∀ k, Step b N hall (f k) (l k) (f (k + 1))) :
    ∃ k, ∀ j, OnlyCursors (f k) (f (k + j)) ∧
      ∃ y, (system b N hall barriers).Steps (f (k + j)) y ∧ Stopped N y ∧
        ¬ OnlyCursors (f (k + j)) y := by
  have hcounted : ∀ bar < ssmpNumBarriers, (barriers bar).Counted n :=
    fun bar hbar => (hready bar hbar).counted
  have hreach : ∀ k, (system b N hall barriers).Reachable (f k) := by
    intro k
    induction k with
    | zero => exact h
    | succ k ih => exact TransSys.Reachable.step ih (hrun k)
  rcases measured_of_reachable hn hcounted hsafe hμ h with ⟨m, hm⟩
  rcases (descends hn hcounted hsafe hμ).rests hrun hm with ⟨k, m', hrest⟩
  refine ⟨k, fun j => ⟨(hrest j).1, ?_⟩⟩
  rcases library_completes hn hready hcolors hsafe hlive hμ (hreach (k + j)) with ⟨y, hsteps, hstop⟩
  refine ⟨y, hsteps, hstop, ?_⟩
  -- otherwise all had stopped before, and the run could not go on
  intro honly
  rcases (hrest j).2 with ⟨a, _, _, hrel, _, _⟩
  have hstopped : Stopped N (f (k + j)) := by
    intro p
    rw [← honly.busy, ← honly.inWait, ← honly.loc]
    exact hstop p
  exact hstopped.not_step hrel (hrun (k + j))

end Live

end Runs

end Whole

end Ssmp
