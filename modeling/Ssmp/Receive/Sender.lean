import Ssmp.Receive.Taking

/-!
# Sender — the sender that a receiving call reports

`ssmp_recv` writes the index of its loop, a `uint32_t`, into `msg->sender`; the color receives write
an entry of `cbuf->from`, a `uint8_t`; and the field itself has one byte in small SPARC messages.
So what a call reports is the id of the process it has read from, cut off to the narrowest of these
(`Receiving.returned`), and the id itself where it fits (`sender_iff`).
-/

namespace Ssmp

open Lib

/-! ## Calls -/

/-- The calls that receive from any process, or from any participant of a color buffer. -/
inductive RecvCall where
  | recv
  | recvColor (color : Int → Int)
  | recvColorStart (color : Int → Int)

namespace RecvCall

variable {n : Nat}

def code (P : Platform n) (me : Fin n) : RecvCall → List (Act n)
  | .recv => P.ssmpRecvPlatf
  | .recvColor color => P.ssmpRecvColorPlatf (ssmpColorBufInitPlatf me color)
  | .recvColorStart color => P.ssmpRecvColorStartPlatf (ssmpColorBufInitPlatf me color)

/-- The processes whose slots the call tests. -/
def Hears (me : Fin n) : RecvCall → Fin n → Prop
  | .recv, src => src ≠ me
  | .recvColor color, src => participants me color src ≠ 0
  | .recvColorStart color, src => participants me color src ≠ 0

/-- The size of what the id is kept in: `uint32_t from`, or an entry of `uint8_t* from`. -/
def idBytes : RecvCall → Nat
  | .recv => 4
  | _ => 1

end RecvCall

/-! ## Ids that are cut off -/

section CutOff

variable {x w : Nat} {r r' : RecvCall}

theorem cutOff_recv (hx : x < 256 ^ 4) : x % 256 ^ RecvCall.recv.idBytes = x :=
  Nat.mod_eq_of_lt hx

theorem cutOff_color (hr : r ≠ .recv) : x % 256 ^ r.idBytes = x % 256 := by
  cases r with
  | recv => exact absurd rfl hr
  | _ => simp [RecvCall.idBytes]

/-- An id is kept if there is room for it on the way and in the field. -/
theorem cutOff_eq_iff (hw : w = 4 ∨ w = 1) (hx : x < 256 ^ 4) :
    x % 256 ^ r.idBytes % 256 ^ w = x ↔ x < 256 ∨ r = .recv ∧ w = 4 := by
  by_cases hr : r = .recv
  · rw [hr, cutOff_recv hx]
    rcases hw with rfl | rfl
    · rw [Nat.mod_eq_of_lt hx]
      simp
    · rw [Nat.mod_eq_iff_lt (by decide)]
      simp
  · rw [cutOff_color hr]
    rcases hw with rfl | rfl
    · simp [hr]
      omega
    · simp [hr]

/-- Two calls agree if neither cuts the id off, or the field does, or they cut it off alike. -/
theorem cutOff_agree_iff (hw : w = 4 ∨ w = 1) (hx : x < 256 ^ 4) :
    x % 256 ^ r'.idBytes % 256 ^ w = x % 256 ^ r.idBytes % 256 ^ w ↔
      x < 256 ∨ w = 1 ∨ (r' = .recv ↔ r = .recv) := by
  by_cases hr : r = .recv
  · by_cases hr' : r' = .recv
    · simp [hr, hr']
    · rw [hr, cutOff_recv hx, cutOff_color hr']
      rcases hw with rfl | rfl
      · simp [hr']
        omega
      · simp
  · by_cases hr' : r' = .recv
    · rw [hr', cutOff_recv hx, cutOff_color hr]
      rcases hw with rfl | rfl
      · simp [hr]
        omega
      · simp
    · simp [cutOff_color hr, cutOff_color hr', hr, hr']

end CutOff

/-! ## A call up to its return -/

section Receiving

variable {L : MsgLayout} {n : Nat} {prog : Program n} {me src : Fin n} {s₀ s t : Sys L n}
variable {hears : Fin n → Prop} {w : Nat}

/-- What follows a test that has succeeded on the slot of `src`. -/
def Found (hears : Fin n → Prop) (w : Nat) (src : Fin n) (c : List (Act n)) : Prop :=
  hears src ∧ ∃ (id : UInt32) (rest : List (Act n)), id.toNat = src.val % 256 ^ w ∧
    (rest = [] ∨ ∃ num, rest = [.advance num]) ∧ Takes src id rest false false c

/-- A scanning loop over the slots of the processes that the call hears. -/
def Finds (hears : Fin n → Prop) (w : Nat) : Act n → Prop
  | .scan num test body _ =>
      ∀ k, k < num → ∀ src lk, test k = some (src, lk) → Found hears w src (body k)
  | .scanStart num test body =>
      ∀ k, k < num → ∀ src lk, test k = some (src, lk) → Found hears w src (body k)
  | _ => False

/-- How far a call is that process `me` has entered in `s₀`. -/
inductive Receiving (hears : Fin n → Prop) (w : Nat) (me : Fin n) (s₀ s : Sys L n) : Prop where
  | scanning {a : Act n} (hcode : (s.proc me).code = [a]) (hfinds : Finds hears w a)
      (hrecvd : ∀ i, s.recvd (i, me) = s₀.recvd (i, me))
  | taking {src : Fin n} {id : UInt32} {rest : List (Act n)} {cur : Nat} {st nm : Bool}
      (hhears : hears src) (hid : id.toNat = src.val % 256 ^ w)
      (hrest : rest = [] ∨ ∃ num, rest = [.advance num])
      (h : Taking me src id rest s₀ cur st nm s)
  | ended {src : Fin n} (hhears : hears src) (hcode : (s.proc me).code = [])
      (htook : Took me src s₀ s)
      (hsender : L.senderOf (s.proc me).msg = src.val % 256 ^ w % 256 ^ L.senderBytes)

theorem Receiving.same (h : Receiving hears w me s₀ s) (hsame : s.Same me t) :
    Receiving hears w me s₀ t := by
  cases h with
  | scanning hcode hfinds hrecvd =>
      exact Receiving.scanning (by simpa [hsame.proc] using hcode) hfinds
        fun i => (hsame.recvd i).trans (hrecvd i)
  | taking hhears hid hrest h => exact Receiving.taking hhears hid hrest (h.same hsame)
  | ended hhears hcode htook hsender =>
      exact Receiving.ended hhears (by simpa [hsame.proc] using hcode) (htook.same hsame)
        (by simpa [hsame.proc] using hsender)

/-- A test succeeds, and the call goes on with the body. -/
theorem Receiving.found {c : List (Act n)} (hfound : Found hears w src c)
    (hcode : (s.proc me).code = c ++ []) (hrecvd : ∀ i, s.recvd (i, me) = s₀.recvd (i, me)) :
    Receiving hears w me s₀ s := by
  rcases hfound with ⟨hhears, id, rest, hid, hrest, htakes⟩
  have htaking : Taking me src id rest s₀ (s.proc me).startRecvFrom false false s :=
    ⟨by simpa [hcode] using htakes, fun _ => hrecvd, by simp, by simp, rfl⟩
  exact Receiving.taking hhears hid hrest htaking

/-- One turn of a scanning loop. -/
theorem Receiving.probe {k : Nat} {test : Nat → Option (Fin n × Bool)}
    {body : Nat → List (Act n)} {a : Act n} {next : Proc n}
    (hbody : ∀ src lk, test k = some (src, lk) → Found hears w src (body k))
    (hrecvd : ∀ i, s.recvd (i, me) = s₀.recvd (i, me)) (hnext : next.code = [a])
    (hfinds : Finds hears w a) :
    Receiving hears w me s₀ (s.probe me (test k) (body k ++ []) next) := by
  have hrecvd' : ∀ i, (s.probe me (test k) (body k ++ []) next).recvd (i, me) =
      s₀.recvd (i, me) := by
    intro i
    rw [probe_recvd]
    exact hrecvd i
  rcases @probe_cases L n me s (test k) (body k ++ []) next with
    ⟨src, lk, htest, hcode, _⟩ | ⟨hproc, _⟩
  · exact Receiving.found (hbody src lk htest) hcode hrecvd'
  · exact Receiving.scanning (by rw [hproc, hnext]) hfinds hrecvd'

theorem Receiving.exec (hfits : L.SenderFits) (h : Receiving hears w me s₀ s)
    (hex : s.exec me = some t) : Receiving hears w me s₀ t := by
  cases h with
  | @scanning a hcode hfinds hrecvd =>
      have ht := Sys.exec_of_code hcode hex
      subst ht
      cases a with
      | scan num test body k =>
          by_cases hk : k < num
          · simp only [Sys.execAct, hk, if_true]
            exact Receiving.probe (hfinds k hk) hrecvd rfl hfinds
          · -- the loop starts over
            simp only [Sys.execAct, hk, if_false]
            exact Receiving.scanning (by simp) (a := .scan num test body 0) hfinds hrecvd
      | scanStart num test body =>
          by_cases hk : (s.proc me).startRecvFrom < num
          · simp only [Sys.execAct, hk, if_true]
            exact Receiving.probe (hfinds _ hk) hrecvd hcode hfinds
          · simp only [Sys.execAct, hk, if_false]
            exact Receiving.scanning (by simpa using hcode) hfinds hrecvd
      | _ => exact absurd hfinds (by simp [Finds])
  | @taking src id rest cur st nm hhears hid hrest h =>
      rcases h.exec hfits hex with ⟨hst, hnm, hcode⟩ | ⟨st', nm', h', _⟩
      · -- what may be left is to advance `start_recv_from`
        rcases hrest with rfl | ⟨num, rfl⟩
        · exact absurd hex (Sys.not_exec hcode)
        · have ht := Sys.exec_of_code hcode hex
          subst ht
          refine Receiving.ended hhears (by simp [Sys.execAct]) ?_ ?_
          · exact ⟨by simpa [Sys.execAct] using (h.took hst).last, (h.took hst).others⟩
          · simpa [Sys.execAct, hid] using h.sender hnm
      · exact Receiving.taking hhears hid hrest h'
  | ended hhears hcode htook hsender => exact absurd hex (Sys.not_exec hcode)

/-- A call that has returned has taken one message and reports the id of its sender, cut off to the
bytes it has passed through. -/
theorem Receiving.returned (h : Receiving hears w me s₀ s) (hidle : (s.proc me).code = []) :
    ∃ src, hears src ∧ Took me src s₀ s ∧
      L.senderOf (s.proc me).msg = src.val % 256 ^ w % 256 ^ L.senderBytes := by
  cases h with
  | scanning hcode hfinds hrecvd => simp [hidle] at hcode
  | @taking src id rest cur st nm hhears hid hrest h =>
      have hcodes := h.code
      rw [hidle] at hcodes
      cases hcodes with
      | done => exact ⟨src, hhears, h.took rfl, by rw [h.sender rfl, hid]⟩
  | @ended src hhears hcode htook hsender => exact ⟨src, hhears, htook, hsender⟩

/-! ## Calls of a build -/

variable {b : Build}

/-- Every receive of every build scans the slots of the processes it hears. -/
theorem RecvCall.finds (b : Build) (me : Fin n) (r : RecvCall) :
    ∃ a, r.code (b.platform me) me = [a] ∧ Finds (r.Hears me) r.idBytes a := by
  rcases b.scansWith me with ⟨lk, locks, read, readColor, hread, hreadColor, hscans⟩
  cases r with
  | recv =>
      refine ⟨_, hscans.recv, ?_⟩
      intro k _ src lk' htest
      rcases takes_recvBody hread htest with ⟨hsrc, id, hid, htakes⟩
      exact ⟨hsrc, id, [], hid, Or.inl rfl, by simpa using htakes []⟩
  | recvColor color =>
      refine ⟨_, hscans.recvColor _, ?_⟩
      intro k _ src lk' htest
      rcases takes_colorBody hreadColor (ssmpColorBufInitPlatf_wellFormed me color) htest with
        ⟨hmem, id, hid, htakes⟩
      exact ⟨mem_ssmpColorBufInitPlatf.1 hmem, id, [], hid, Or.inl rfl, by simpa using htakes []⟩
  | recvColorStart color =>
      refine ⟨_, hscans.recvColorStart _, ?_⟩
      intro k _ src lk' htest
      rcases takes_colorBody hreadColor (ssmpColorBufInitPlatf_wellFormed me color) htest with
        ⟨hmem, id, hid, htakes⟩
      exact ⟨mem_ssmpColorBufInitPlatf.1 hmem, id, [.advance _], hid, Or.inr ⟨_, rfl⟩, htakes _⟩

/-- The call `r` that process `me` has entered in `s₀`, on any message buffer, has returned. -/
def Returned (b : Build) (prog : Program n) (me : Fin n) (r : RecvCall) (s₀ s : Sys b.layout n) :
    Prop :=
  (∃ msg, During prog me (s₀.enter me (r.code (b.platform me) me) msg) s) ∧
    (s.proc me).code = []

theorem Build.senderFits (b : Build) : b.layout.SenderFits := by
  cases b with
  | niagara v o => exact senderFits_sparcMsg v
  | _ => exact senderFits_x86Msg

theorem Build.senderBytes_cases (b : Build) :
    b.layout.senderBytes = 4 ∨ b.layout.senderBytes = 1 := by
  cases b with
  | niagara v o => cases v <;> simp [sparcMsg]
  | _ => exact Or.inl rfl

/-- An id of one byte is kept in the field. -/
theorem Build.mod_senderBytes (b : Build) {x : Nat} (hx : x < 256) :
    x % 256 ^ b.layout.senderBytes = x := by
  rcases b.senderBytes_cases with hbytes | hbytes
  · rw [hbytes]
    omega
  · rw [hbytes]
    omega

theorem RecvCall.ne_of_hears {r : RecvCall} (h : r.Hears me src) : src ≠ me := by
  rintro rfl
  cases r with
  | recv => exact h rfl
  | _ => exact h (by simp [participants])

/-- What a call that has returned has done. -/
theorem Returned.reported {r : RecvCall} {s₀ s : Sys b.layout n} (h : Returned b prog me r s₀ s) :
    ∃ src, r.Hears me src ∧ Took me src s₀ s ∧
      b.layout.senderOf (s.proc me).msg =
        src.val % 256 ^ r.idBytes % 256 ^ b.layout.senderBytes := by
  rcases h with ⟨⟨msg, hduring⟩, hidle⟩
  rcases r.finds b me with ⟨a, hcode, hfinds⟩
  have hstart : Receiving (r.Hears me) r.idBytes me s₀ (s₀.enter me (r.code (b.platform me) me) msg) :=
    Receiving.scanning (by rw [enter_proc]; exact hcode) hfinds fun _ => rfl
  have hend : Receiving (r.Hears me) r.idBytes me s₀ s :=
    hduring.invariant (fun _ _ h hsame => h.same hsame)
      (fun _ _ h hex => h.exec b.senderFits hex) hstart
  exact hend.returned hidle

/-- The message taken tells from which process it came. -/
theorem Took.unique {s₀ s : Sys L n} {src src' : Fin n} (h : Took me src s₀ s)
    (h' : Took me src' s₀ s) : src' = src := by
  by_contra hne
  have hlen := congrArg List.length (h'.last.symm.trans (h.others src' hne))
  simp at hlen

theorem Returned.sender_eq {r : RecvCall} {s₀ s : Sys b.layout n}
    (h : Returned b prog me r s₀ s) (htook : Took me src s₀ s) :
    b.layout.senderOf (s.proc me).msg =
      src.val % 256 ^ r.idBytes % 256 ^ b.layout.senderBytes := by
  rcases h.reported with ⟨src', _, htook', hsender⟩
  rw [htook'.unique htook]
  exact hsender

/-! ## The reported sender -/

/-- A call that has returned has taken one message, from a process it hears.  It reports the id of
that process exactly when the id fits into a byte, or the call is `ssmp_recv` on a build whose
messages keep the sender in four bytes; and two calls that have read from the same slot agree
exactly when the id fits into a byte, or the field keeps no more of it, or both are `ssmp_recv` or
both not. -/
theorem sender_iff (hn : n < 2 ^ 31) {r : RecvCall} {s₀ s : Sys b.layout n}
    (h : Returned b prog me r s₀ s) :
    (∃ src, r.Hears me src ∧ Took me src s₀ s) ∧
      ∀ src, Took me src s₀ s →
        (b.layout.senderOf (s.proc me).msg = src.val ↔
          src.val < 256 ∨ r = .recv ∧ b.layout.senderBytes = 4) ∧
        ∀ (prog' : Program n) (r' : RecvCall) (s₀' s' : Sys b.layout n),
          Returned b prog' me r' s₀' s' → Took me src s₀' s' →
          (b.layout.senderOf (s'.proc me).msg = b.layout.senderOf (s.proc me).msg ↔
            src.val < 256 ∨ b.layout.senderBytes = 1 ∨ (r' = .recv ↔ r = .recv)) := by
  rcases h.reported with ⟨src₀, hhears, htook₀, _⟩
  refine ⟨⟨src₀, hhears, htook₀⟩, ?_⟩
  intro src htook
  have hlt : src.val < 256 ^ 4 := by
    have := src.isLt
    omega
  refine ⟨?_, ?_⟩
  · rw [h.sender_eq htook]
    exact cutOff_eq_iff b.senderBytes_cases hlt
  · intro prog' r' s₀' s' h' htook'
    rw [h.sender_eq htook, h'.sender_eq htook']
    exact cutOff_agree_iff b.senderBytes_cases hlt

/-! ## Runs on the generic platform -/

abbrev plainBuild : Build :=
  .generic Generic.memcpyWords false

def plainCalls (n : Nat) : Program n :=
  calls (fun _ : Unit => plainBuild.platform) (· ≠ ·)

/-- Process 1 of two has received the message that process 0 has sent it. -/
def afterRecv : Sys x86Msg 2 :=
  (Generic.afterSend.enter 1 (RecvCall.recv.code (plainBuild.platform 1) 1) fun _ => 0).runAlone 1 19

theorem returned_afterRecv :
    Returned plainBuild (plainCalls 2) 1 .recv Generic.afterSend afterRecv :=
  ⟨⟨_, During.refl.runAlone 19⟩, rfl⟩

theorem took_afterRecv : Took 1 0 Generic.afterSend afterRecv := by
  rcases returned_afterRecv.reported with ⟨src, hsrc, htook, _⟩
  -- of two processes, the receiver hears the other one
  have hother : ∀ src : Fin 2, src ≠ 1 → src = 0 := by decide
  rw [← hother src hsrc]
  exact htook

theorem sender_iff_afterRecv :
    Took 1 0 Generic.afterSend afterRecv ∧ x86Msg.senderOf (afterRecv.proc 1).msg = 0 := by
  have hmain := sender_iff (by decide) returned_afterRecv
  exact ⟨took_afterRecv, ((hmain.2 0 took_afterRecv).1).2 (Or.inl (by decide))⟩

/-- Process 256 of 257 has sent a message to process 0. -/
def highSend : Sys plainBuild.layout 257 :=
  ((Sys.fresh plainBuild.layout 257).enter 256 ((plainBuild.platform 256).ssmpSendPlatf 0)
    fun _ => 7).runAlone 256 18

theorem reachable_highSend : (system plainBuild.layout 257 (plainCalls 257)).Reachable highSend := by
  refine reachable_runAlone 256 18 ?_
  refine reachable_call _ (TransSys.Reachable.init Sys.init_fresh) rfl ?_
  exact calls.ssmpSend () (by decide)

/-- A color of process 256 alone. -/
def onlyHigh (id : Int) : Int :=
  if id = 256 then 1 else 0

/-- Process 0 has received the message by `ssmp_recv_color`. -/
def afterHighRecv : Sys plainBuild.layout 257 :=
  (highSend.enter 0 (RecvCall.code (plainBuild.platform 0) 0 (.recvColor onlyHigh))
    fun _ => 0).runAlone 0 19

theorem idle_afterHighRecv : (afterHighRecv.proc 0).code.isEmpty = true := by
  decide +kernel

theorem returned_afterHighRecv :
    Returned plainBuild (plainCalls 257) 0 (.recvColor onlyHigh) highSend afterHighRecv :=
  ⟨⟨_, During.refl.runAlone 19⟩, List.isEmpty_iff.1 idle_afterHighRecv⟩

/-- Process 0 has taken the message of process 256, and its `msg->sender` is 0. -/
theorem sender_ne_afterHighRecv :
    (system plainBuild.layout 257 (plainCalls 257)).Reachable highSend ∧
      Returned plainBuild (plainCalls 257) 0 (.recvColor onlyHigh) highSend afterHighRecv ∧
      Took 0 256 highSend afterHighRecv ∧
      plainBuild.layout.senderOf (afterHighRecv.proc 0).msg ≠ (256 : Fin 257).val := by
  rcases returned_afterHighRecv.reported with ⟨src, hhears, htook, hsender⟩
  -- process 256 is the only participant
  have hsrc : src = 256 := by
    by_contra hne
    have hval : (src.val : Int) ≠ 256 := by
      intro h
      exact hne (Fin.ext (Int.ofNat_inj.1 h))
    have hcolor : UInt32.ofInt (onlyHigh src.val) = 0 := by
      rw [onlyHigh, if_neg hval]
      rfl
    refine hhears ?_
    unfold participants
    split
    · rfl
    · exact hcolor
  subst hsrc
  refine ⟨reachable_highSend, returned_afterHighRecv, htook, ?_⟩
  -- 256 does not fit into a byte
  intro h
  rw [hsender] at h
  exact absurd h (by decide)

end Receiving

end Ssmp
