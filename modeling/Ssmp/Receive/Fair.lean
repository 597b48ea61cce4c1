import Ssmp.Lib.RoundRobin
import Ssmp.Receive.Forward

/-!
# Fair — how often `ssmp_recv_color_start` passes a waiting participant by

`start_recv_from` is one static variable for all color buffers of a process.  On one buffer the
calls are a round robin, so a participant whose slot stays full is passed by at most once by each of
the others.  A call on another buffer leaves an index of that buffer in the variable; it does no
harm if the other buffer is `Harmless` in the sense of `Ssmp.Lib.RoundRobin`.
-/

namespace Ssmp

open Lib
open Lib.RoundRobin

/-! ## Calls that leave the cursor alone -/

section Spares

variable {L : MsgLayout} {n : Nat} {me : Fin n} {s : Sys L n} {a : Act n} {rest : List (Act n)}

/-- Actions that do not write `start_recv_from`. -/
def Act.SparesStart : Act n → Prop
  | .advance _ | .scanStart _ _ _ => False
  | _ => True

theorem sparesStart_scanInvariant : ScanInvariant (Act.SparesStart (n := n)) := by
  intro num test body k k' h
  exact h

theorem SparesStart.exec (ha : a.SparesStart) :
    ((s.execAct me a rest).proc me).startRecvFrom = (s.proc me).startRecvFrom := by
  have hspares : a.SparesMsg →
      ((s.execAct me a rest).proc me).startRecvFrom = (s.proc me).startRecvFrom := by
    intro hmsg
    rcases @SparesMsg.proc L n me s a rest hmsg with ⟨c, free, locked, _, hproc⟩
    rw [hproc]
  cases a with
  | setState v => simp [Sys.execAct]
  | setSender v => simp [Sys.execAct]
  | copyIn src p => simp [Sys.execAct]
  | scan num test body k =>
      simp only [Sys.execAct]
      split
      · rcases @probe_cases L n me s (test k) (body k ++ rest)
          { s.proc me with code := .scan num test body (k + 1) :: rest } with
          ⟨_, _, _, _, hstart⟩ | ⟨hproc, _⟩
        · exact hstart
        · rw [hproc]
      · simp
  | advance num => exact absurd ha (by simp [Act.SparesStart])
  | scanStart num test body => exact absurd ha (by simp [Act.SparesStart])
  | _ => exact hspares trivial

end Spares

/-! ## A waiting participant -/

section Waiting

variable {L : MsgLayout} {n : Nat} {prog : Program n} {me p : Fin n} {s₀ s t : Sys L n}
variable {call : List (Act n)} {m : Nat}

/-- The slot from `p` to `me` holds a message. -/
def Sys.Full (p me : Fin n) (s : Sys L n) : Prop :=
  L.stateOf (s.slot (p, me)) = ssmpBufMessg

instance (s : Sys L n) : Decidable (s.Full p me) :=
  inferInstanceAs (Decidable (_ = _))

/-- From `s₀` to `s` the slot from `p` to `me` is full, and process `me` enters `call` `m` times. -/
inductive Waiting (prog : Program n) (p me : Fin n) (call : List (Act n)) (s₀ : Sys L n) :
    Nat → Sys L n → Prop where
  | start (hfull : s₀.Full p me) : Waiting prog p me call s₀ 0 s₀
  | step {m : Nat} {l : Label n} {t u : Sys L n} (h : Waiting prog p me call s₀ m t)
      (hst : Sys.Step prog t l u) (hl : ∀ msg, l ≠ .call me call msg) (hfull : u.Full p me) :
      Waiting prog p me call s₀ m u
  | call {m : Nat} {msg : Line} {t u : Sys L n} (h : Waiting prog p me call s₀ m t)
      (hst : Sys.Step prog t (.call me call msg) u) (hfull : u.Full p me) :
      Waiting prog p me call s₀ (m + 1) u

theorem Waiting.runAlone {i : Fin n} (h : Waiting prog p me call s₀ m t) (k : Nat)
    (hfull : ∀ j, j ≤ k → (t.runAlone i j).Full p me) :
    Waiting prog p me call s₀ m (t.runAlone i k) := by
  induction k generalizing t with
  | zero => exact h
  | succ k ih =>
      cases hex : t.exec i with
      | none => simpa [Sys.runAlone, hex] using h
      | some u =>
          have hrun : ∀ j, t.runAlone i (j + 1) = u.runAlone i j := by
            intro j
            simp [Sys.runAlone, hex]
          rw [hrun]
          have hu : u.Full p me := by
            have := hfull 1 (by omega)
            rwa [hrun] at this
          refine ih (Waiting.step h (Sys.Step.run hex) (by simp) hu) ?_
          intro j hj
          rw [← hrun]
          exact hfull (j + 1) (Nat.succ_le_succ hj)

theorem Waiting.full (h : Waiting prog p me call s₀ m s) : s.Full p me := by
  cases h with
  | start hfull => exact hfull
  | step _ _ _ hfull => exact hfull
  | call _ _ hfull => exact hfull

end Waiting

/-! ## What a call on a color buffer does to the cursor -/

section Stages

variable {L : MsgLayout} {n : Nat} {me p : Fin n} {s t : Sys L n} {m size : Nat}
variable {d : Nat → Nat} {locks : Nat → Bool} {read : Fin n → UInt32 → List (Act n)}

/-- `ssmp_recv_color_start` of a platform with the given tests and reads. -/
def startScan (locks : Nat → Bool) (read : Fin n → UInt32 → List (Act n)) (cbuf : ColorBuf n) :
    Act n :=
  .scanStart cbuf.numUes (colorTest cbuf locks)
    fun k => colorBody read cbuf k ++ [.advance cbuf.numUes]

/-- How far process `me` is after `m` calls on a buffer of `size` participants, `d` being the
distance of the cursor from the waiting participant `p`. -/
inductive Stage (locks : Nat → Bool) (read : Fin n → UInt32 → List (Act n)) (d : Nat → Nat)
    (size : Nat) (p me : Fin n) (m : Nat) (s : Sys L n) : Prop where
  /-- No call on the buffer so far. -/
  | early (hm : m = 0)
  /-- Between calls, or in one that leaves the cursor alone. -/
  | apart (hcode : EveryIn Act.SparesStart (s.proc me).code)
      (hm : m + d (s.proc me).startRecvFrom < size)
  | scanning {cbuf : ColorBuf n} {rank : Nat → Nat} (hw : cbuf.WellFormed)
      (hsize : cbuf.numUes = cbuf.buf.length) (hranks : Ranks d p cbuf.buf rank)
      (hcode : (s.proc me).code = [startScan locks read cbuf])
      (hm : m + rank (s.proc me).startRecvFrom ≤ size)
  | taking {src : Fin n} {id : UInt32} {num cur : Nat} {st nm : Bool} {s₁ : Sys L n}
      (h : Taking me src id [.advance num] s₁ cur st nm s) (hm : m + d (next num cur) < size)
  /-- The call has found the message of `p`, and has yet to release its slot. -/
  | found {id : UInt32} {rest : List (Act n)} {cur : Nat} {nm : Bool} {s₁ : Sys L n}
      (h : Taking me p id rest s₁ cur false nm s)

theorem Stage.same (h : Stage locks read d size p me m s) (hsame : s.Same me t) :
    Stage locks read d size p me m t := by
  cases h with
  | early hm => exact Stage.early hm
  | apart hcode hm =>
      exact Stage.apart (by simpa [hsame.proc] using hcode) (by simpa [hsame.proc] using hm)
  | scanning hw hsize hranks hcode hm =>
      exact Stage.scanning hw hsize hranks (by simpa [hsame.proc] using hcode)
        (by simpa [hsame.proc] using hm)
  | taking h hm => exact Stage.taking (h.same hsame) hm
  | found h => exact Stage.found (h.same hsame)

/-- One turn of the scan of a color buffer, while the slot of `p` is full. -/
theorem Stage.scan (hread : Reads read) {cbuf : ColorBuf n} {rank : Nat → Nat}
    (hw : cbuf.WellFormed) (hsize : cbuf.numUes = cbuf.buf.length)
    (hranks : Ranks d p cbuf.buf rank) (hcode : (s.proc me).code = [startScan locks read cbuf])
    (hm : m + rank (s.proc me).startRecvFrom ≤ size) (hfull : s.Full p me) :
    Stage locks read d size p me m (s.execAct me (startScan locks read cbuf) []) := by
  by_cases hc : (s.proc me).startRecvFrom < cbuf.numUes
  · simp only [startScan, Sys.execAct, hc, if_true]
    rcases @probe_cases L n me s (colorTest cbuf locks (s.proc me).startRecvFrom)
        ((colorBody read cbuf (s.proc me).startRecvFrom ++ [.advance cbuf.numUes]) ++ [])
        { s.proc me with startRecvFrom := (s.proc me).startRecvFrom + 1 } with
      ⟨src, lk, htest, hcode', hstart⟩ | ⟨hproc, hmiss⟩
    · -- the call has found a message
      rcases takes_colorBody hread hw htest with ⟨_, id, _, htakes⟩
      have hbuf : cbuf.buf[(s.proc me).startRecvFrom]? = some src := by
        rw [hw.same]
        exact (colorTest_some htest).1
      have htaking : ∀ u : Sys L n,
          (u.proc me).code = (colorBody read cbuf (s.proc me).startRecvFrom ++
            [.advance cbuf.numUes]) ++ [] →
          (u.proc me).startRecvFrom = (s.proc me).startRecvFrom →
          Taking me src id [.advance cbuf.numUes] u (s.proc me).startRecvFrom false false u := by
        intro u hu hcur
        refine ⟨?_, fun _ _ => rfl, by simp, by simp, hcur⟩
        rw [hu, List.append_nil]
        exact htakes _
      by_cases hsrc : src = p
      · subst hsrc
        exact Stage.found (htaking _ hcode' hstart)
      · refine Stage.taking (htaking _ hcode' hstart) ?_
        have hne : cbuf.buf[(s.proc me).startRecvFrom]? ≠ some p := by
          rw [hbuf]
          simpa using hsrc
        have hstop := hranks.stop _ (hsize ▸ hc) hne
        rw [hsize]
        omega
    · -- the slot of `p` is full, so it is another one that has been passed
      have hne : cbuf.buf[(s.proc me).startRecvFrom]? ≠ some p := by
        intro hp
        refine hmiss p (locks (s.proc me).startRecvFrom) ?_ hfull
        rw [hw.same] at hp
        simp [colorTest, hp]
      refine Stage.scanning hw hsize hranks (by rw [hproc]; exact hcode) ?_
      rw [hproc]
      exact Nat.le_trans (Nat.add_le_add_left (hranks.miss _ (hsize ▸ hc) hne) m) hm
  · -- the scan starts over
    simp only [startScan, Sys.execAct, hc, if_false]
    refine Stage.scanning hw hsize hranks (by simpa [startScan] using hcode) ?_
    have hwrap := hranks.wrap _ (hsize ▸ Nat.le_of_not_lt hc)
    simpa using Nat.le_trans (Nat.add_le_add_left hwrap m) hm

/-- One step of process `me` inside a call, after which the slot of `p` is still full. -/
theorem Stage.exec (hfits : L.SenderFits) (hread : Reads read)
    (h : Stage locks read d size p me m s) (hex : s.exec me = some t) (hfull : s.Full p me)
    (hfull' : t.Full p me) : Stage locks read d size p me m t := by
  cases h with
  | early hm => exact Stage.early hm
  | apart hcode hm =>
      rcases Sys.exec_eq_some hex with ⟨a, rest, hc, rfl⟩
      have hspares : EveryIn Act.SparesStart (a :: rest) := hc ▸ hcode
      refine Stage.apart (everyIn_execAct sparesStart_scanInvariant hc hspares) ?_
      rw [SparesStart.exec (hspares a (by simp)).head]
      exact hm
  | @scanning cbuf rank hw hsize hranks hcode hm =>
      have ht := Sys.exec_of_code hcode hex
      subst ht
      exact Stage.scan hread hw hsize hranks hcode hm hfull
  | @taking src id num cur st nm s₁ h hm =>
      rcases h.exec hfits hex with ⟨_, _, hcode⟩ | ⟨st', nm', h', _⟩
      · have ht := Sys.exec_of_code hcode hex
        subst ht
        refine Stage.apart (by simpa [Sys.execAct] using EveryIn.nil) ?_
        simpa [Sys.execAct, h.start, next] using hm
      · exact Stage.taking h' hm
  | found h =>
      rcases h.exec hfits hex with ⟨hst, _, _⟩ | ⟨st', nm', h', hst' | hempty⟩
      · cases hst
      · subst hst'
        exact Stage.found h'
      · -- the slot has been released
        have hcontra : ssmpBufMessg = ssmpBufEmpty := hfull'.symm.trans hempty
        exact absurd hcontra (by decide)

/-- Between calls there is room for as many more as the cursor is away from `p`. -/
theorem Stage.room (h : Stage locks read d size p me m s) (hd : ∀ c, d c < size)
    (hidle : (s.proc me).code = []) : m + d (s.proc me).startRecvFrom < size := by
  cases h with
  | early hm => simpa [hm] using hd (s.proc me).startRecvFrom
  | apart _ hm => exact hm
  | scanning _ _ _ hcode _ => simp [hidle] at hcode
  | taking h _ => exact absurd hidle (h.not_idle (Or.inr (by simp)))
  | found h => exact absurd hidle (h.not_idle (Or.inl rfl))

end Stages

/-! ## Bounded bypass -/

section Bypass

variable {n : Nat} {b : Build} {prog : Program n} {me p : Fin n} {color : Int → Int}
variable {s₀ s t : Sys b.layout n} {m k : Nat}

/-- Process `me` calls `ssmp_recv_color_start` on color buffers that are harmless to the one of
`color`, and otherwise functions that leave `start_recv_from` alone. -/
def CallsHarmless (b : Build) (prog : Program n) (me : Fin n) (color : Int → Int) : Prop :=
  ∀ free code, prog me free code →
    (∃ color', Harmless (ssmpColorBufInitPlatf me color).buf (ssmpColorBufInitPlatf me color').buf ∧
      code = (b.platform me).ssmpRecvColorStartPlatf (ssmpColorBufInitPlatf me color')) ∨
    EveryIn Act.SparesStart code

theorem Stage.enter {lk : Bool} {locks : Nat → Bool}
    {read readColor : Fin n → UInt32 → List (Act n)} {d rank : Nat → Nat} {size : Nat}
    (hscans : (b.platform me).ScansWith me lk locks read readColor)
    (hranks : Ranks d p (ssmpColorBufInitPlatf me color).buf rank) (msg : Line)
    (hm : m + rank (t.proc me).startRecvFrom ≤ size) :
    Stage locks readColor d size p me m
      (t.enter me ((b.platform me).ssmpRecvColorStartPlatf (ssmpColorBufInitPlatf me color)) msg) := by
  refine Stage.scanning (ssmpColorBufInitPlatf_wellFormed me color)
    (ssmpColorBufInitPlatf_numUes me color) hranks ?_ ?_
  · rw [enter_proc]
    exact hscans.recvColorStart _
  · rw [enter_proc]
    exact hm

/-- While `p` waits, each state of the run is at some stage. -/
theorem Waiting.stage {lk : Bool} {locks : Nat → Bool}
    {read readColor : Fin n → UInt32 → List (Act n)} (hread : Reads readColor)
    (hscans : (b.platform me).ScansWith me lk locks read readColor)
    (hprog : CallsHarmless b prog me color)
    (hk : (ssmpColorBufInitPlatf me color).buf[k]? = some p)
    (h : Waiting prog p me
      ((b.platform me).ssmpRecvColorStartPlatf (ssmpColorBufInitPlatf me color)) s₀ m s) :
    Stage locks readColor (turns (ssmpColorBufInitPlatf me color).buf.length k)
      (ssmpColorBufInitPlatf me color).buf.length p me m s := by
  have hklt := (List.getElem?_eq_some_iff.1 hk).1
  have hroom : ∀ c, turns (ssmpColorBufInitPlatf me color).buf.length k c <
      (ssmpColorBufInitPlatf me color).buf.length := fun c => turns_lt hklt
  induction h with
  | start _ => exact Stage.early rfl
  | @step m l t u hw hst _ hfull ih =>
      by_cases hl : l.actor = me
      · cases hst with
        | @call i code msg hidle hcall =>
            have hi : i = me := hl
            subst hi
            have hlt := ih.room hroom hidle
            rcases hprog _ _ hcall with ⟨color', hharmless, rfl⟩ | hspares
            · -- a call on a harmless buffer
              rcases hharmless.ranks hk with ⟨rank, hrank, hranks⟩
              refine Stage.enter hscans hranks msg ?_
              have := hrank (t.proc i).startRecvFrom
              omega
            · refine Stage.apart ?_ ?_
              · rw [enter_proc]
                exact hspares
              · rw [enter_proc]
                exact hlt
        | @run _ i hex =>
            have hi : i = me := hl
            subst hi
            exact ih.exec b.senderFits hread hex hw.full hfull
      · exact ih.same (same_of_step hst hl)
  | @call m msg t u hw hst hfull ih =>
      cases hst with
      | call msg hidle hcall =>
          have hlt := ih.room hroom hidle
          refine Stage.enter hscans (ranks_self hk) msg ?_
          omega

/-- While the slot of a participant stays full, fewer calls on the color buffer return than it has
participants, whatever the other processes do, if all other buffers that the process receives from
are harmless to this one. -/
theorem bypass_lt (hprog : CallsHarmless b prog me color) (hp : participants me color p ≠ 0)
    (h : Waiting prog p me
      ((b.platform me).ssmpRecvColorStartPlatf (ssmpColorBufInitPlatf me color)) s₀ m s)
    (hidle : (s.proc me).code = []) : m < (ssmpColorBufInitPlatf me color).numUes := by
  rcases b.scansWith me with ⟨lk, locks, read, readColor, _, hread, hscans⟩
  rcases List.getElem?_of_mem (mem_ssmpColorBufInitPlatf.2 hp) with ⟨k, hk⟩
  have hstage := h.stage hread hscans hprog hk
  have hlt := hstage.room (fun c => turns_lt (List.getElem?_eq_some_iff.1 hk).1) hidle
  rw [ssmpColorBufInitPlatf_numUes]
  exact Nat.lt_of_le_of_lt (Nat.le_add_right m _) hlt

/-! ## Senders and one receiver -/

/-- Every process sends, and receives by `ssmp_recv_color_start` on the buffers of some colors. -/
def startCalls (b : Build) (used : List (Int → Int)) (n : Nat) : Program n := fun me _ code =>
  (∃ dst, dst ≠ me ∧ code = (b.platform me).ssmpSendPlatf dst) ∨
    ∃ color ∈ used,
      code = (b.platform me).ssmpRecvColorStartPlatf (ssmpColorBufInitPlatf me color)

theorem sparesStart_send (b : Build) (dst : Fin n) :
    EveryIn Act.SparesStart ((b.platform me).ssmpSendPlatf dst) := by
  have hsends : ∀ a ∈ (b.platform me).ssmpSendPlatf dst, a.Sends := by
    cases b with
    | niagara v o => exact fun a ha => Or.inl (sparesMsg_ssmpSendPlatf o dst a ha)
    | _ => exact (marksMsg_sendLine _ _ dst).sends
  intro a ha
  rcases hsends a ha with hspares | rfl
  · cases a with
    | await q v => exact Act.Every.single trivial fun _ => rfl
    | cas q old new => exact Act.Every.single trivial fun _ => rfl
    | isFree d => exact Act.Every.single trivial fun _ => rfl
    | copyOut d p => exact Act.Every.single trivial fun _ => rfl
    | store q v => exact Act.Every.single trivial fun _ => rfl
    | _ => exact absurd hspares (by simp [Act.SparesMsg])
  · exact Act.Every.single trivial fun _ => rfl

theorem callsHarmless_startCalls {used : List (Int → Int)}
    (h : ∀ color' ∈ used,
      Harmless (ssmpColorBufInitPlatf me color).buf (ssmpColorBufInitPlatf me color').buf) :
    CallsHarmless b (startCalls b used n) me color := by
  intro free code hcall
  rcases hcall with ⟨dst, _, rfl⟩ | ⟨color', hmem, rfl⟩
  · exact Or.inr (sparesStart_send b dst)
  · exact Or.inl ⟨color', h color' hmem, rfl⟩

def anyColor (_ : Int) : Int := 1

def onlyFirst (id : Int) : Int :=
  if id = 1 then 1 else 0

example : ¬ Harmless (ssmpColorBufInitPlatf (0 : Fin 3) anyColor).buf
    (ssmpColorBufInitPlatf (0 : Fin 3) onlyFirst).buf := by decide

/-- Process `i` of three sends a message to process 0. -/
def sendToZero (i : Fin 3) (s : Sys plainBuild.layout 3) : Sys plainBuild.layout 3 :=
  (s.enter i ((plainBuild.platform i).ssmpSendPlatf 0) fun _ => 7).runAlone i 18

/-- Process 0 receives on the buffer of `color`. -/
def startCode (color : Int → Int) : List (Act 3) :=
  (plainBuild.platform 0).ssmpRecvColorStartPlatf (ssmpColorBufInitPlatf 0 color)

def startZero (color : Int → Int) (s : Sys plainBuild.layout 3) : Sys plainBuild.layout 3 :=
  (s.enter 0 (startCode color) fun _ => 0).runAlone 0 21

/-- Processes 1 and 2 have sent a message to process 0. -/
def bothSent : Sys plainBuild.layout 3 :=
  sendToZero 2 (sendToZero 1 (Sys.fresh plainBuild.layout 3))

/-- Process 0 has received from 1, which has sent again. -/
def passedOnce : Sys plainBuild.layout 3 :=
  sendToZero 1 (startZero anyColor bothSent)

/-- It has received this message on the buffer of process 1 alone, and 1 has sent again. -/
def cursorBack : Sys plainBuild.layout 3 :=
  sendToZero 1 (startZero onlyFirst passedOnce)

section Runs

variable {used : List (Int → Int)} {u v : Sys plainBuild.layout 3}

theorem reachable_sendToZero {i : Fin 3} (hi : 0 ≠ i)
    (h : (system plainBuild.layout 3 (startCalls plainBuild used 3)).Reachable u)
    (hidle : (u.proc i).code = []) :
    (system plainBuild.layout 3 (startCalls plainBuild used 3)).Reachable (sendToZero i u) :=
  reachable_runAlone i 18 (reachable_call _ h hidle (Or.inl ⟨0, hi, rfl⟩))

theorem reachable_bothSent :
    (system plainBuild.layout 3 (startCalls plainBuild used 3)).Reachable bothSent := by
  refine reachable_sendToZero (by decide) (reachable_sendToZero (by decide) ?_ rfl) rfl
  exact TransSys.Reachable.init Sys.init_fresh

/-- A send of process 1 while process 2 waits. -/
theorem waiting_sendToZero {call : List (Act 3)}
    (h : Waiting (startCalls plainBuild used 3) 2 0 call v m u) (hidle : (u.proc 1).code = [])
    (hfull : ∀ j, j ≤ 18 → ((u.enter 1 ((plainBuild.platform 1).ssmpSendPlatf 0)
      fun _ => 7).runAlone 1 j).Full 2 0) :
    Waiting (startCalls plainBuild used 3) 2 0 call v m (sendToZero 1 u) := by
  refine Waiting.runAlone ?_ 18 hfull
  refine Waiting.step h (Sys.Step.call _ hidle (Or.inl ⟨0, by decide, rfl⟩)) ?_
    (hfull 0 (Nat.zero_le _))
  intro msg heq
  injection heq with hme
  exact absurd hme (by decide)

/-- A call on the buffer that process 2 waits on. -/
theorem waiting_startZero {color : Int → Int} (hused : color ∈ used)
    (h : Waiting (startCalls plainBuild used 3) 2 0 (startCode color) v m u)
    (hidle : (u.proc 0).code = [])
    (hfull : ∀ j, j ≤ 21 → ((u.enter 0 (startCode color) fun _ => 0).runAlone 0 j).Full 2 0) :
    Waiting (startCalls plainBuild used 3) 2 0 (startCode color) v (m + 1) (startZero color u) := by
  refine Waiting.runAlone ?_ 21 hfull
  exact Waiting.call h (Sys.Step.call _ hidle (Or.inr ⟨color, hused, rfl⟩))
    (hfull 0 (Nat.zero_le _))

theorem waiting_firstTaken (hused : anyColor ∈ used) :
    Waiting (startCalls plainBuild used 3) 2 0 (startCode anyColor) bothSent 1
      (startZero anyColor bothSent) :=
  waiting_startZero hused (Waiting.start rfl) rfl (by decide +kernel)

theorem waiting_passedOnce (hused : anyColor ∈ used) :
    Waiting (startCalls plainBuild used 3) 2 0 (startCode anyColor) bothSent 1 passedOnce :=
  waiting_sendToZero (waiting_firstTaken hused) rfl (by decide +kernel)

/-- A call on the buffer of process 1 alone is not one on the buffer that process 2 waits on. -/
theorem startCode_onlyFirst_ne : startCode onlyFirst ≠ startCode anyColor := by
  intro h
  injection h with hscan _
  injection hscan with hnum
  exact absurd hnum (by decide)

theorem waiting_cursorBack (hused : anyColor ∈ used) (hother : onlyFirst ∈ used) :
    Waiting (startCalls plainBuild used 3) 2 0 (startCode anyColor) bothSent 1 cursorBack := by
  refine waiting_sendToZero (Waiting.runAlone ?_ 21 (by decide +kernel)) rfl (by decide +kernel)
  refine Waiting.step (waiting_passedOnce hused)
    (Sys.Step.call (fun _ => 0) rfl (Or.inr ⟨onlyFirst, hother, rfl⟩)) ?_ (by decide +kernel)
  intro msg heq
  injection heq with _ hcode
  exact startCode_onlyFirst_ne hcode

end Runs

theorem callsHarmless_anyColor :
    CallsHarmless plainBuild (startCalls plainBuild [anyColor] 3) 0 anyColor := by
  refine callsHarmless_startCalls ?_
  intro color hmem
  rw [List.mem_singleton.1 hmem]
  exact Harmless.refl _

theorem bypass_lt_firstTaken : 1 < (ssmpColorBufInitPlatf (0 : Fin 3) anyColor).numUes :=
  bypass_lt (p := 2) callsHarmless_anyColor (by decide)
    (waiting_firstTaken (List.mem_singleton.2 rfl)) rfl

/-- With two color buffers, one of them for process 1 alone, two calls on the other one pass
process 2 by, although it has two participants. -/
theorem bypassed_twice :
    (system plainBuild.layout 3 (startCalls plainBuild [anyColor, onlyFirst] 3)).Reachable bothSent ∧
      participants (0 : Fin 3) anyColor 2 ≠ 0 ∧
      Waiting (startCalls plainBuild [anyColor, onlyFirst] 3) 2 0 (startCode anyColor) bothSent 2
        (startZero anyColor cursorBack) ∧
      ((startZero anyColor cursorBack).proc 0).code = [] ∧
      ¬ 2 < (ssmpColorBufInitPlatf (0 : Fin 3) anyColor).numUes := by
  refine ⟨reachable_bothSent, by decide, ?_, rfl, by decide⟩
  exact waiting_startZero (by simp) (waiting_cursorBack (by simp) (by simp)) rfl (by decide +kernel)

end Bypass

end Ssmp
