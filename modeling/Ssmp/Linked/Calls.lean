import Ssmp.Broadcast.Delivery
import Ssmp.Linked.Model

/-!
# Linked.Calls — the calls of a program, action by action

What a call does to the histories is one event: a send logs its message once (`Giving.exec`), a
receive what it has taken once (`Pulls.exec`, `TakesNow.exec`), and the turns of a scanning loop log
nothing (`Scans.exec`).  So a call of `ssmp_recv_from` that has returned has logged the payload of its
buffer, and nothing else (`recvFrom_took`).
-/

namespace Ssmp

open Lib

/-! ## Histories -/

section Histories

variable {L : MsgLayout} {n : Nat} {me d r : Fin n} {m : L.Payload} {s t : Sys L n}

/-- Nothing has been sent or received. -/
structure Sys.Kept (s t : Sys L n) : Prop where
  sent : t.sent = s.sent
  recvd : t.recvd = s.recvd

/-- Process `me` has sent `m` to `d`. -/
structure Sys.Gave (me d : Fin n) (m : L.Payload) (s t : Sys L n) : Prop where
  sent : ∀ ij, t.sent ij = s.sent ij ++ if ij = (me, d) then [m] else []
  recvd : t.recvd = s.recvd

/-- Process `me` has received `m` from `r`. -/
structure Sys.Got (r me : Fin n) (m : L.Payload) (s t : Sys L n) : Prop where
  sent : t.sent = s.sent
  recvd : ∀ ij, t.recvd ij = s.recvd ij ++ if ij = (r, me) then [m] else []

theorem Sys.Kept.refl : s.Kept s := ⟨rfl, rfl⟩

end Histories

/-! ## Sends -/

section Giving

variable {L : MsgLayout} {n : Nat} {me d j : Fin n} {s t : Sys L n} {a : Act n}
variable {rest : List (Act n)} {m : L.Payload} {pub : Bool} {ts : Fin n → Typestate n}

/-- The actions of `ssmp_send` and `ssmp_send_no_sync`. -/
def Act.Out : Act n → Prop
  | .await (.sendBuf _) _ | .cas (.sendBuf _) _ _ | .store (.sendBuf _) _ => True
  | .setState _ | .copyOut _ _ => True
  | _ => False

theorem out_copies (d : Fin n) {ps : List Piece} : ∀ a ∈ ps.map (Act.copyOut d), a.Out := by
  intro a ha
  rcases List.mem_map.1 ha with ⟨p, _, rfl⟩
  exact trivial

theorem out_sendLineNoSync (m : Memcpy L) (d : Fin n) : ∀ a ∈ sendLineNoSync m d, a.Out := by
  intro a ha
  rcases List.mem_cons.1 ha with rfl | hmem
  · exact trivial
  · exact out_copies d a hmem

theorem out_sendLine (m : Memcpy L) (lk : Bool) (d : Fin n) : ∀ a ∈ sendLine m lk d, a.Out := by
  intro a ha
  rcases List.mem_cons.1 ha with rfl | hmem
  · cases lk <;> exact trivial
  · exact out_sendLineNoSync m d a hmem

theorem out_ssmpSendNoSyncPlatf {v : SparcMsg} (o : Niagara.CopyOrder v) (d : Fin n) :
    ∀ a ∈ Niagara.ssmpSendNoSyncPlatf o d, a.Out := by
  intro a ha
  rcases List.mem_append.1 ha with hmem | hmem
  · exact out_copies d a hmem
  · rw [List.mem_singleton.1 hmem]
    exact trivial

theorem Build.out_send (b : Build) (me d : Fin n) :
    ∀ a ∈ (b.platform me).ssmpSendPlatf d, a.Out := by
  cases b with
  | niagara v o =>
      intro a ha
      rcases List.mem_cons.1 ha with rfl | hmem
      · exact trivial
      · exact out_ssmpSendNoSyncPlatf o d a hmem
  | _ => exact out_sendLine _ _ d

theorem Build.out_noSync (b : Build) (me d : Fin n) :
    ∀ a ∈ (b.platform me).ssmpSendNoSyncPlatf d, a.Out := by
  cases b with
  | niagara v o => exact out_ssmpSendNoSyncPlatf o d
  | _ => exact out_sendLineNoSync _ d

/-- Such an action receives nothing and moves no cursor, and it may have waited in vain. -/
theorem Act.Out.exec (ha : a.Out) :
    (s.execAct me a rest).recvd = s.recvd ∧
      ((s.execAct me a rest).proc me).startRecvFrom = (s.proc me).startRecvFrom ∧
      (((s.execAct me a rest).proc me).code = rest ∨
        ((s.execAct me a rest).proc me).code = (s.proc me).code) := by
  cases a with
  | await q v =>
      simp only [Sys.execAct]
      split
      · exact ⟨rfl, by simp, Or.inl (by simp)⟩
      · exact ⟨rfl, rfl, Or.inr rfl⟩
  | cas q old new =>
      simp only [Sys.execAct]
      split
      · exact ⟨rfl, by simp, Or.inl (by simp)⟩
      · exact ⟨rfl, rfl, Or.inr rfl⟩
  | copyOut d p =>
      simp only [Sys.execAct]
      split <;> exact ⟨rfl, by simp, Or.inl (by simp)⟩
  | store q v =>
      cases q with
      | sendBuf d =>
          simp only [Sys.execAct]
          split <;> exact ⟨rfl, by simp [Sys.logSent], Or.inl (by simp [Sys.logSent])⟩
      | recvBuf r => exact absurd ha id
  | setState v => exact ⟨rfl, by simp [Sys.execAct], Or.inl (by simp [Sys.execAct])⟩
  | _ => exact absurd ha id

theorem Act.Out.body_eq (ha : a.Out) (k : Nat) : a.body k = [] := by
  cases a with
  | scan num test body i => exact absurd ha id
  | scanStart num test body => exact absurd ha id
  | _ => rfl

/-- The process is in a call that sends `m` to `d`; `pub` says that `m` is published already. -/
structure Giving (L : MsgLayout) (d : Fin n) (m : L.Payload) (pub : Bool) (p : Proc n) : Prop where
  out : ∀ a ∈ p.code, a.Out
  arg : L.payload p.arg = m
  left : ∀ j, publications L j p.code = if d = j ∧ pub = false then 1 else 0

theorem Giving.published {p : Proc n} (h : Giving L d m pub p) (hcode : p.code = []) :
    pub = true := by
  have hleft := h.left d
  rw [hcode, publications_nil] at hleft
  by_contra hpub
  simp [hpub] at hleft

theorem Giving.exec (hgood : Good ts s) (h : Giving L d m pub (s.proc me))
    (hex : s.exec me = some t) :
    (t.proc me).startRecvFrom = (s.proc me).startRecvFrom ∧
      (s.Kept t ∧ Giving L d m pub (t.proc me) ∨
        pub = false ∧ s.Gave me d m t ∧ Giving L d m true (t.proc me)) := by
  rcases Sys.exec_eq_some hex with ⟨a, rest, hcode, rfl⟩
  have ha : a.Out := h.out a (by simp [hcode])
  rcases @Act.Out.exec L n me s a rest ha with ⟨hrecvd, hstart, hnext⟩
  have hout : ∀ a' ∈ ((s.execAct me a rest).proc me).code, a'.Out := by
    intro a' ha'
    refine h.out a' ?_
    rcases hnext with hnext | hnext
    · rw [hnext] at ha'
      simp [hcode, ha']
    · rwa [hnext] at ha'
  have hleft : ∀ j, a.pubs L j + publications L j ((s.execAct me a rest).proc me).code =
      if d = j ∧ pub = false then 1 else 0 := by
    intro j
    rw [← publications_execAct hcode fun k j => by rw [ha.body_eq]; rfl, ← hcode]
    exact h.left j
  have hsent : ∀ j, (s.execAct me a rest).sent (me, j) =
      s.sent (me, j) ++ List.replicate (a.pubs L j) m := by
    intro j
    rw [execAct_sent (hgood.marked_copyOut hcode), h.arg]
  have hother : ∀ {j}, j ≠ d → a.pubs L j = 0 ∧
      publications L j ((s.execAct me a rest).proc me).code = 0 := by
    intro j hj
    have hzero := hleft j
    rw [if_neg fun heq => hj heq.1.symm] at hzero
    omega
  refine ⟨hstart, ?_⟩
  by_cases hpubs : a.pubs L d = 0
  · refine Or.inl ⟨⟨?_, hrecvd⟩, ⟨hout, by rw [execAct_arg]; exact h.arg, ?_⟩⟩
    · funext ij
      rcases ij with ⟨i, j⟩
      by_cases hi : i = me
      · subst hi
        by_cases hj : j = d
        · rw [hsent, hj, hpubs, List.replicate_zero, List.append_nil]
        · rw [hsent, (hother hj).1, List.replicate_zero, List.append_nil]
      · exact execAct_sent_ne hi
    · intro j
      rw [← hleft j]
      by_cases hj : j = d
      · rw [hj, hpubs, Nat.zero_add]
      · rw [(hother hj).1, Nat.zero_add]
  · -- the action that publishes is the only one
    have hone := hleft d
    have hpub : pub = false := by
      by_contra hpub
      rw [if_neg fun heq => hpub heq.2] at hone
      omega
    rw [if_pos ⟨rfl, hpub⟩] at hone
    have hlast : a.pubs L d = 1 := by omega
    refine Or.inr ⟨hpub, ⟨?_, hrecvd⟩, ⟨hout, by rw [execAct_arg]; exact h.arg, ?_⟩⟩
    · rintro ⟨i, j⟩
      by_cases hi : i = me
      · subst hi
        by_cases hj : j = d
        · rw [hsent, hj, hlast, if_pos rfl]
          rfl
        · rw [hsent, (hother hj).1, if_neg fun heq => hj (Prod.mk.inj heq).2]
          rfl
      · rw [execAct_sent_ne hi, if_neg fun heq => hi (Prod.mk.inj heq).1, List.append_nil]
    · intro j
      rw [if_neg (by simp)]
      by_cases hj : j = d
      · rw [hj]
        omega
      · exact (hother hj).2

end Giving

/-! ## Receives -/

section Taking

variable {L : MsgLayout} {n : Nat} {me src r : Fin n} {s₀ s t : Sys L n} {c rest : List (Act n)}
variable {id : UInt32} {st nm : Bool} {ts : Fin n → Typestate n}

/-- What `ssmp_recv_from` has left to do before its last store. -/
inductive Pulls (r : Fin n) : List (Act n) → Prop where
  | await {c : List (Act n)} (h : Pulls r c) : Pulls r (.await (.recvBuf r) ssmpBufMessg :: c)
  | cas {c : List (Act n)} (h : Pulls r c) :
      Pulls r (.cas (.recvBuf r) ssmpBufMessg ssmpBufLockd :: c)
  | copyIn {p : Piece} {c : List (Act n)} (h : Pulls r c) : Pulls r (.copyIn r p :: c)
  | store : Pulls r [.store (.recvBuf r) ssmpBufEmpty]

theorem Pulls.acquire (lk : Bool) (h : Pulls r c) :
    Pulls r (acquire lk (.recvBuf r) ssmpBufMessg :: c) := by
  cases lk with
  | false => exact Pulls.await h
  | true => exact Pulls.cas h

theorem Pulls.copies {ps : List Piece} (h : Pulls r c) : Pulls r (ps.map (.copyIn r) ++ c) := by
  induction ps with
  | nil => exact h
  | cons p ps ih => exact Pulls.copyIn ih

theorem Build.pulls (b : Build) (me r : Fin n) : Pulls r ((b.platform me).ssmpRecvFromPlatf r) := by
  cases b with
  | niagara v o => exact Pulls.await (Pulls.copies Pulls.store)
  | _ => exact Pulls.acquire _ (Pulls.copies Pulls.store)

theorem execAct_storeEmpty :
    s.Got r me (L.payload (s.proc me).msg) (s.execAct me (.store (.recvBuf r) ssmpBufEmpty) c) where
  sent := rfl
  recvd ij := by
    by_cases hij : ij = (r, me)
    · simp [Sys.execAct, Sys.logRecvd, Sys.setProc, Sys.setFlag, Sys.setSlot, hij]
    · simp [Sys.execAct, Sys.logRecvd, Sys.setProc, Sys.setFlag, Sys.setSlot, hij]

theorem Pulls.exec (h : Pulls r (s.proc me).code) (hex : s.exec me = some t) :
    (t.proc me).startRecvFrom = (s.proc me).startRecvFrom ∧
      (s.Kept t ∧ Pulls r (t.proc me).code ∨
        s.Got r me (L.payload (t.proc me).msg) t ∧ (t.proc me).code = []) := by
  rcases Sys.exec_eq_some hex with ⟨a, c, hcode, rfl⟩
  rw [hcode] at h
  cases h with
  | await h =>
      simp only [Sys.execAct]
      split
      · exact ⟨by simp, Or.inl ⟨⟨rfl, rfl⟩, by simpa using h⟩⟩
      · exact ⟨rfl, Or.inl ⟨Sys.Kept.refl, by rw [hcode]; exact Pulls.await h⟩⟩
  | cas h =>
      simp only [Sys.execAct]
      split
      · exact ⟨by simp, Or.inl ⟨⟨rfl, rfl⟩, by simpa using h⟩⟩
      · exact ⟨rfl, Or.inl ⟨Sys.Kept.refl, by rw [hcode]; exact Pulls.cas h⟩⟩
  | copyIn h =>
      exact ⟨by simp [Sys.execAct], Or.inl ⟨⟨rfl, rfl⟩, by simpa [Sys.execAct] using h⟩⟩
  | store =>
      refine ⟨by simp [Sys.execAct, Sys.logRecvd], Or.inr ⟨?_, by simp [Sys.execAct, Sys.logRecvd]⟩⟩
      have hmsg : ((s.execAct me (.store (.recvBuf r) ssmpBufEmpty) []).proc me).msg =
          (s.proc me).msg := by
        simp [Sys.execAct, Sys.logRecvd]
      rw [hmsg]
      exact execAct_storeEmpty

/-! ### `ssmp_recv_from` up to its return -/

/-- How far a call of `ssmp_recv_from(r)` is that process `me` has entered in `s₀`. -/
inductive Pulling (r me : Fin n) (s₀ s : Sys L n) : Prop where
  | pulling (hpulls : Pulls r (s.proc me).code) (hrecvd : ∀ i, s.recvd (i, me) = s₀.recvd (i, me))
  | ended (hcode : (s.proc me).code = []) (htook : Took me r s₀ s)

theorem Sys.Got.took (h : s.Got r me (L.payload (t.proc me).msg) t)
    (hrecvd : ∀ i, s.recvd (i, me) = s₀.recvd (i, me)) : Took me r s₀ t where
  last := by rw [h.recvd, if_pos rfl, hrecvd]
  others i hi := by
    rw [h.recvd, if_neg fun heq => hi (Prod.mk.inj heq).1, List.append_nil, hrecvd]

theorem Pulling.same (h : Pulling r me s₀ s) (hsame : s.Same me t) : Pulling r me s₀ t := by
  cases h with
  | pulling hpulls hrecvd =>
      exact Pulling.pulling (by rw [hsame.proc]; exact hpulls) fun i => (hsame.recvd i).trans (hrecvd i)
  | ended hcode htook => exact Pulling.ended (by rw [hsame.proc, hcode]) (htook.same hsame)

theorem Pulling.exec (h : Pulling r me s₀ s) (hex : s.exec me = some t) : Pulling r me s₀ t := by
  cases h with
  | pulling hpulls hrecvd =>
      -- the last store logs the payload, and nothing is logged before
      rcases (hpulls.exec hex).2 with ⟨hkept, hnext⟩ | ⟨hgot, hcode⟩
      · exact Pulling.pulling hnext fun i => by rw [hkept.recvd, hrecvd]
      · exact Pulling.ended hcode (hgot.took hrecvd)
  | ended hcode htook => exact absurd hex (Sys.not_exec hcode)

/-- A call of `ssmp_recv_from(r)` that has returned, on any build and whatever the others have done, has
received one message, from `r`, and has it in its buffer. -/
theorem recvFrom_took {b : Build} {prog : Program n} {s₀ s : Sys b.layout n} {msg : Line}
    (h : During prog me (s₀.enter me ((b.platform me).ssmpRecvFromPlatf r) msg) s)
    (hidle : (s.proc me).code = []) : Took me r s₀ s := by
  have hstart : Pulling r me s₀ (s₀.enter me ((b.platform me).ssmpRecvFromPlatf r) msg) :=
    Pulling.pulling (by rw [enter_proc]; exact b.pulls me r) fun _ => rfl
  have hend : Pulling r me s₀ s :=
    h.invariant (fun _ _ h hsame => h.same hsame) (fun _ _ h hex => h.exec hex) hstart
  cases hend with
  | pulling hpulls hrecvd =>
      -- the store is left to do
      rw [hidle] at hpulls
      cases hpulls
  | ended hcode htook => exact htook

/-! ### The body of a scan -/

/-- The process is taking the message of `src`, of which it has written the sender if `nm`. -/
structure TakesNow (L : MsgLayout) (src : Fin n) (id : UInt32) (rest : List (Act n)) (st nm : Bool)
    (p : Proc n) : Prop where
  code : Takes src id rest st nm p.code
  sender : nm = true → L.senderOf p.msg = id.toNat % 256 ^ L.senderBytes

theorem TakesNow.exec (hfits : L.SenderFits) (h : TakesNow L src id rest st nm (s.proc me))
    (hex : s.exec me = some t) :
    (st = true ∧ nm = true ∧ (s.proc me).code = rest) ∨
      (t.proc me).startRecvFrom = (s.proc me).startRecvFrom ∧
        ((∃ nm', s.Kept t ∧ TakesNow L src id rest st nm' (t.proc me) ∧
            (st = true → L.payload (t.proc me).msg = L.payload (s.proc me).msg)) ∨
          st = false ∧ s.Got src me (L.payload (t.proc me).msg) t ∧
            TakesNow L src id rest true nm (t.proc me)) := by
  rcases Sys.exec_eq_some hex with ⟨a, c, hcode, rfl⟩
  have hcodes := h.code
  rw [hcode] at hcodes
  cases hcodes with
  | done => exact Or.inl ⟨rfl, rfl, hcode⟩
  | copyIn hc =>
      refine Or.inr ⟨by simp [Sys.execAct], Or.inl ⟨false, ⟨rfl, rfl⟩, ⟨?_, by simp⟩, by simp⟩⟩
      simpa [Sys.execAct] using hc
  | setSender hc =>
      refine Or.inr ⟨by simp [Sys.execAct], Or.inl ⟨true, ⟨rfl, rfl⟩, ⟨?_, ?_⟩, ?_⟩⟩
      · simpa [Sys.execAct] using hc
      · intro _
        simpa [Sys.execAct] using L.senderOf_setSender hfits id (s.proc me).msg
      · intro _
        simp [Sys.execAct]
  | store hc =>
      have hmsg : ((s.execAct me (.store (.recvBuf src) ssmpBufEmpty) c).proc me).msg =
          (s.proc me).msg := by
        simp [Sys.execAct, Sys.logRecvd]
      refine Or.inr ⟨by simp [Sys.execAct, Sys.logRecvd], Or.inr ⟨rfl, ?_, ?_, ?_⟩⟩
      · rw [hmsg]
        exact execAct_storeEmpty
      · simpa [Sys.execAct, Sys.logRecvd] using hc
      · rw [hmsg]
        exact h.sender

theorem execAct_advance {num : Nat} :
    s.Kept (s.execAct me (.advance num) c) ∧
      (s.execAct me (.advance num) c).proc me = { s.proc me with
        code := c, startRecvFrom := RoundRobin.next num (s.proc me).startRecvFrom } :=
  ⟨⟨rfl, rfl⟩, setProc_proc _⟩

/-! ### Scanning -/

variable {srcs : List (Fin n)} {num : Nat} {test : Nat → Option (Fin n × Bool)}
variable {body : Nat → List (Act n)}

/-- The loop of `ssmp_recv_color_start` over the slots of `srcs`. -/
structure Scans (srcs : List (Fin n)) (num : Nat) (test : Nat → Option (Fin n × Bool))
    (body : Nat → List (Act n)) : Prop where
  len : num = srcs.length
  entry : ∀ k src lk, test k = some (src, lk) → srcs[k]? = some src
  tests : ∀ k, k < num → test k ≠ none
  takes : ∀ k src lk, test k = some (src, lk) → ∃ id : UInt32, id.toNat = src.val % 256 ∧
    Takes src id [.advance num] false false (body k)

theorem Build.scans (b : Build) (me : Fin n) (color : Int → Int) :
    ∃ num test body,
      (b.platform me).ssmpRecvColorStartPlatf (ssmpColorBufInitPlatf me color) =
        [.scanStart num test body] ∧
      Scans (ssmpColorBufInitPlatf me color).buf num test body := by
  rcases b.scansWith me with ⟨lk, locks, read, readColor, _, hread, hscans⟩
  have hw := ssmpColorBufInitPlatf_wellFormed me color
  have hnum := ssmpColorBufInitPlatf_numUes me color
  refine ⟨_, _, _, hscans.recvColorStart _, ⟨hnum, ?_, ?_, ?_⟩⟩
  · intro k src lk' htest
    rw [hw.same]
    exact (colorTest_some htest).1
  · intro k hk hnone
    rw [hnum, hw.same] at hk
    simp [colorTest, List.getElem?_eq_getElem hk] at hnone
  · intro k src lk' htest
    rcases takes_colorBody hread hw htest with ⟨_, id, hid, htakes⟩
    exact ⟨id, by simpa using hid, htakes _⟩

/-- The slot that a test looks at, or is to look at next, is not in use by its receiver; if it is not
full, everything sent has been received. -/
theorem Good.received_of_miss {lk : Bool} (h : Good ts s) (ht : ts me = .idle lk)
    (hmiss : L.stateOf (s.slot (src, me)) ≠ ssmpBufMessg) :
    s.sent (src, me) = s.recvd (src, me) := by
  have hrcv : (view ts s src me).rcv = .idle := by simp [view, ht]
  cases hs : (view ts s src me).snd with
  | idle =>
      rcases (OneSlot.inv_idle hs hrcv).1 (h.slots src me) with ⟨_, heq⟩ | ⟨hf, _⟩
      · exact heq
      · exact absurd hf hmiss
  | filling lk' done => exact ((OneSlot.inv_filling hs).1 (h.slots src me)).2.2.1

/-- One turn of the loop: it finds a message, or it passes a slot, or it starts over. -/
theorem Scans.exec (hgood : Good ts s) (h : Scans srcs num test body)
    (hcode : (s.proc me).code = [.scanStart num test body]) (hex : s.exec me = some t) :
    s.Kept t ∧
      ((∃ src id, srcs[(s.proc me).startRecvFrom]? = some src ∧ id.toNat = src.val % 256 ∧
          TakesNow L src id [.advance num] false false (t.proc me) ∧
          (t.proc me).startRecvFrom = (s.proc me).startRecvFrom) ∨
        (∃ src, srcs[(s.proc me).startRecvFrom]? = some src ∧
          s.sent (src, me) = s.recvd (src, me) ∧
          t.proc me = { s.proc me with startRecvFrom := (s.proc me).startRecvFrom + 1 }) ∨
        (srcs.length ≤ (s.proc me).startRecvFrom ∧
          t.proc me = { s.proc me with startRecvFrom := 0 })) := by
  have ht := Sys.exec_of_code hcode hex
  subst ht
  by_cases hk : (s.proc me).startRecvFrom < num
  · simp only [Sys.execAct, hk, if_true]
    refine ⟨⟨probe_sent _ _ _, probe_recvd _ _ _⟩, ?_⟩
    rcases @probe_cases L n me s (test (s.proc me).startRecvFrom)
        (body (s.proc me).startRecvFrom ++ [])
        { s.proc me with startRecvFrom := (s.proc me).startRecvFrom + 1 } with
      ⟨src, lk, htest, hnext, hstart⟩ | ⟨hproc, hmiss⟩
    · rcases h.takes _ _ _ htest with ⟨id, hid, htakes⟩
      refine Or.inl ⟨src, id, h.entry _ _ _ htest, hid, ⟨?_, by simp⟩, hstart⟩
      rw [hnext, List.append_nil]
      exact htakes
    · cases htest : test (s.proc me).startRecvFrom with
      | none => exact absurd htest (h.tests _ hk)
      | some rl =>
          rcases rl with ⟨src, lk⟩
          rw [htest] at hproc
          have hidle : ∃ b, ts me = .idle b := by
            have hD := hgood.disciplined me
            rw [hcode] at hD
            generalize hts : ts me = τ at hD
            cases hD
            exact ⟨_, rfl⟩
          rcases hidle with ⟨b, hts⟩
          exact Or.inr (Or.inl ⟨src, h.entry _ _ _ htest,
            hgood.received_of_miss hts (hmiss src lk htest), hproc⟩)
  · simp only [Sys.execAct, hk, if_false]
    refine ⟨⟨rfl, rfl⟩, Or.inr (Or.inr ⟨?_, setProc_proc _⟩)⟩
    rw [← h.len]
    exact Nat.not_lt.1 hk

end Taking

end Ssmp
