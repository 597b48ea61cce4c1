import Ssmp.Actions
import Ssmp.Platform.Build

/-!
# Taking — a receiving call seen from its own process

Nobody but process `me` writes the message buffer of its call, its `start_recv_from` and the log of
what it has received, so a call of `me` can be followed step by step whatever the other processes
do.  This module

* says what a step of another process leaves to `me` (`Sys.Same`),
* describes what follows a test that has succeeded (`Takes`), from the copy to the release,
* and shows that every build's receives are tests followed by such actions.
-/

namespace Ssmp

open Lib

section Steps

variable {L : MsgLayout} {n : Nat} {prog : Program n} {me : Fin n} {s t u : Sys L n}
variable {a : Act n} {rest : List (Act n)}

@[simp] theorem setProc_recvd (p : Proc n) : (s.setProc me p).recvd = s.recvd := rfl

@[simp] theorem setProc_slot (p : Proc n) : (s.setProc me p).slot = s.slot := rfl

theorem enter_proc (code : List (Act n)) (msg : Line) :
    (s.enter me code msg).proc me = { s.proc me with code := code, msg := msg, arg := msg } := by
  simp [Sys.enter]

/-! ## Steps of other processes -/

/-- The process that makes a step. -/
def Label.actor : Label n → Fin n
  | .call me _ _ => me
  | .run me => me

/-- From `s` to `t` nothing changes that only process `me` writes. -/
structure Sys.Same (me : Fin n) (s t : Sys L n) : Prop where
  proc : t.proc me = s.proc me
  recvd : ∀ i, t.recvd (i, me) = s.recvd (i, me)

theorem probe_recvd (tst : Option (Fin n × Bool)) (hit : List (Act n)) (next : Proc n) :
    (s.probe me tst hit next).recvd = s.recvd := by
  cases tst with
  | none => rfl
  | some rl =>
      simp only [Sys.probe]
      split
      · split <;> rfl
      · rfl

/-- A test succeeds on a full slot and leads to the body; otherwise the scan goes on. -/
theorem probe_cases (tst : Option (Fin n × Bool)) (hit : List (Act n)) (next : Proc n) :
    (∃ src lk, tst = some (src, lk) ∧ ((s.probe me tst hit next).proc me).code = hit ∧
        ((s.probe me tst hit next).proc me).startRecvFrom = (s.proc me).startRecvFrom) ∨
      (s.probe me tst hit next).proc me = next ∧
        ∀ src lk, tst = some (src, lk) → L.stateOf (s.slot (src, me)) ≠ ssmpBufMessg := by
  cases tst with
  | none => exact Or.inr ⟨by simp [Sys.probe], by simp⟩
  | some rl =>
      rcases rl with ⟨src, lk⟩
      by_cases hf : s.flag me (.recvBuf src) = ssmpBufMessg
      · refine Or.inl ⟨src, lk, rfl, ?_⟩
        cases lk <;> simp [Sys.probe, hf]
      · refine Or.inr ⟨by simp [Sys.probe, hf], ?_⟩
        intro src' lk' heq
        cases heq
        exact hf

/-- A process logs only what it receives itself. -/
theorem execAct_recvd_ne {i j : Fin n} (hj : j ≠ me) :
    (s.execAct me a rest).recvd (i, j) = s.recvd (i, j) := by
  cases a with
  | store q v =>
      cases q with
      | sendBuf d => simp only [Sys.execAct]; split <;> rfl
      | recvBuf r =>
          simp only [Sys.execAct]
          split
          · simp [Sys.logRecvd, Sys.setProc, Sys.setFlag, Sys.setSlot, hj]
          · rfl
  | scan num test body k =>
      simp only [Sys.execAct]
      split
      · rw [probe_recvd]
      · rfl
  | scanStart num test body =>
      simp only [Sys.execAct]
      split
      · rw [probe_recvd]
      · rfl
  | await q v => simp only [Sys.execAct]; split <;> rfl
  | cas q old new => simp only [Sys.execAct]; split <;> rfl
  | copyOut d pc => simp only [Sys.execAct]; split <;> rfl
  | _ => rfl

theorem same_of_step {l : Label n} (hst : Sys.Step prog s l t) (hne : l.actor ≠ me) :
    s.Same me t := by
  have hme : me ≠ l.actor := Ne.symm hne
  cases hst with
  | call msg hidle hprog => exact ⟨setProc_proc_ne hme _, fun _ => rfl⟩
  | run hex =>
      rcases Sys.exec_eq_some hex with ⟨a, rest, _, rfl⟩
      exact ⟨execAct_proc_ne hme, fun _ => execAct_recvd_ne hme⟩

/-! ## Within one call -/

/-- From `s` to `t` process `me` enters no call, and the others do what they like. -/
inductive During (prog : Program n) (me : Fin n) (s : Sys L n) : Sys L n → Prop where
  | refl : During prog me s s
  | run {t u : Sys L n} (h : During prog me s t) (hst : Sys.Step prog t (.run me) u) :
      During prog me s u
  | other {l : Label n} {t u : Sys L n} (h : During prog me s t) (hne : l.actor ≠ me)
      (hst : Sys.Step prog t l u) : During prog me s u

/-- What the process's own steps keep and what does not look beyond it is kept within a call. -/
theorem During.invariant {I : Sys L n → Prop} (hsame : ∀ s t, I s → s.Same me t → I t)
    (hexec : ∀ s t, I s → s.exec me = some t → I t) (h : During prog me s t) (hs : I s) : I t := by
  induction h with
  | refl => exact hs
  | run _ hst ih =>
      cases hst with
      | run hex => exact hexec _ _ ih hex
  | other _ hne hst ih => exact hsame _ _ ih (same_of_step hst hne)

theorem During.runAlone (k : Nat) (h : During prog me s t) :
    During prog me s (t.runAlone me k) := by
  induction k generalizing t with
  | zero => exact h
  | succ k ih =>
      cases hex : t.exec me with
      | none => simpa [Sys.runAlone, hex] using h
      | some u => simpa [Sys.runAlone, hex] using ih (During.run h (Sys.Step.run hex))

end Steps

/-! ## After a successful test -/

section Taking

variable {L : MsgLayout} {n : Nat} {src me : Fin n} {id : UInt32} {rest c : List (Act n)}
variable {s₀ s t : Sys L n} {st nm : Bool} {cur : Nat}

/-- The actions up to `rest` copy the message of `src` out of its slot, release the slot and write
`id` as the sender.  `st` says that the slot is released already, `nm` that the sender is written. -/
inductive Takes (src : Fin n) (id : UInt32) (rest : List (Act n)) :
    Bool → Bool → List (Act n) → Prop where
  | done : Takes src id rest true true rest
  | copyIn {p : Piece} {c : List (Act n)} (h : Takes src id rest false false c) :
      Takes src id rest false false (.copyIn src p :: c)
  | setSender {st : Bool} {c : List (Act n)} (h : Takes src id rest st true c) :
      Takes src id rest st false (.setSender id :: c)
  | store {nm : Bool} {c : List (Act n)} (h : Takes src id rest true nm c) :
      Takes src id rest false nm (.store (.recvBuf src) ssmpBufEmpty :: c)

theorem Takes.copies {ps : List Piece} (h : Takes src id rest false false c) :
    Takes src id rest false false (ps.map (.copyIn src) ++ c) := by
  induction ps with
  | nil => exact h
  | cons p ps ih => exact Takes.copyIn ih

/-- Since `s₀` process `me` has received one message, from `src`, and has it in its buffer. -/
structure Took (me src : Fin n) (s₀ s : Sys L n) : Prop where
  last : s.recvd (src, me) = s₀.recvd (src, me) ++ [L.payload (s.proc me).msg]
  others : ∀ i, i ≠ src → s.recvd (i, me) = s₀.recvd (i, me)

/-- Process `me` is taking the message of `src`; `cur` is its `start_recv_from`. -/
structure Taking (me src : Fin n) (id : UInt32) (rest : List (Act n)) (s₀ : Sys L n) (cur : Nat)
    (st nm : Bool) (s : Sys L n) : Prop where
  code : Takes src id rest st nm (s.proc me).code
  before : st = false → ∀ i, s.recvd (i, me) = s₀.recvd (i, me)
  took : st = true → Took me src s₀ s
  sender : nm = true → L.senderOf (s.proc me).msg = id.toNat % 256 ^ L.senderBytes
  start : (s.proc me).startRecvFrom = cur

theorem Took.same (h : Took me src s₀ s) (hsame : s.Same me t) : Took me src s₀ t := by
  refine ⟨?_, ?_⟩
  · rw [hsame.recvd, hsame.proc]
    exact h.last
  · intro i hi
    rw [hsame.recvd]
    exact h.others i hi

theorem Taking.same (h : Taking me src id rest s₀ cur st nm s) (hsame : s.Same me t) :
    Taking me src id rest s₀ cur st nm t where
  code := by simpa [hsame.proc] using h.code
  before hst i := (hsame.recvd i).trans (h.before hst i)
  took hst := (h.took hst).same hsame
  sender hnm := by simpa [hsame.proc] using h.sender hnm
  start := by simpa [hsame.proc] using h.start

/-- A call that takes a message is not over before its slot is released, nor before `rest`. -/
theorem Taking.not_idle (h : Taking me src id rest s₀ cur st nm s)
    (hrest : st = false ∨ rest ≠ []) : (s.proc me).code ≠ [] := by
  intro hidle
  have hcodes := h.code
  rw [hidle] at hcodes
  cases hcodes
  simp at hrest

/-- One step of a call that takes a message: the call goes on with `rest`, or it goes on taking, and
the slot is empty once it is released. -/
theorem Taking.exec (hfits : L.SenderFits) (h : Taking me src id rest s₀ cur st nm s)
    (hex : s.exec me = some t) :
    (st = true ∧ nm = true ∧ (s.proc me).code = rest) ∨
      ∃ st' nm', Taking me src id rest s₀ cur st' nm' t ∧
        (st' = st ∨ L.stateOf (t.slot (src, me)) = ssmpBufEmpty) := by
  rcases Sys.exec_eq_some hex with ⟨a, c, hcode, rfl⟩
  have hcodes := h.code
  rw [hcode] at hcodes
  cases hcodes with
  | done => exact Or.inl ⟨rfl, rfl, hcode⟩
  | copyIn hc =>
      refine Or.inr ⟨false, false, ?_, Or.inl rfl⟩
      refine ⟨by simpa [Sys.execAct] using hc, ?_, by simp, by simp, ?_⟩
      · intro _ i
        exact h.before rfl i
      · simpa [Sys.execAct] using h.start
  | setSender hc =>
      refine Or.inr ⟨st, true, ?_, Or.inl rfl⟩
      refine ⟨by simpa [Sys.execAct] using hc, ?_, ?_, ?_, ?_⟩
      · intro hst i
        exact h.before hst i
      · -- the payload is not touched
        intro hst
        refine ⟨?_, (h.took hst).others⟩
        simpa [Sys.execAct] using (h.took hst).last
      · intro _
        simpa [Sys.execAct] using L.senderOf_setSender hfits id (s.proc me).msg
      · simpa [Sys.execAct] using h.start
  | store hc =>
      -- the slot is released with the payload in the buffer
      refine Or.inr ⟨true, nm, ?_, Or.inr ?_⟩
      · refine ⟨by simpa [Sys.execAct, Sys.logRecvd] using hc, by simp, ?_, ?_, ?_⟩
        · intro _
          refine ⟨?_, ?_⟩
          · simp [Sys.execAct, Sys.logRecvd, Sys.setProc, Sys.setFlag, Sys.setSlot, h.before rfl src]
          · intro i hi
            simp [Sys.execAct, Sys.logRecvd, Sys.setProc, Sys.setFlag, Sys.setSlot, hi,
              h.before rfl i]
        · intro hnm
          simpa [Sys.execAct, Sys.logRecvd] using h.sender hnm
        · simpa [Sys.execAct, Sys.logRecvd] using h.start
      · simp [Sys.execAct, Sys.logRecvd, Sys.setProc, Sys.setFlag, Sys.setSlot, SlotRef.pair]

/-! ## What the tests lead to -/

/-- `read src id` takes the message of `src` and names `id` as its sender. -/
def Reads (read : Fin n → UInt32 → List (Act n)) : Prop :=
  ∀ src id rest, Takes src id rest false false (read src id ++ rest)

theorem reads_readLine (m : Memcpy L) : Reads (readLine (n := n) m) := by
  intro src id rest
  rw [readLine, Memcpy.toMsg, List.append_assoc]
  exact Takes.copies (Takes.setSender (Takes.store Takes.done))

theorem reads_readMsg {v : SparcMsg} (o : Niagara.CopyOrder v) :
    Reads (Niagara.readMsg (n := n) o) := by
  intro src id rest
  rw [Niagara.readMsg, List.append_assoc]
  exact Takes.copies (Takes.setSender (Takes.store Takes.done))

theorem reads_readColorMsg {v : SparcMsg} (o : Niagara.CopyOrder v) :
    Reads (Niagara.readColorMsg (n := n) o) := by
  intro src id rest
  rw [Niagara.readColorMsg, List.append_assoc]
  exact Takes.copies (Takes.store (Takes.setSender Takes.done))

variable {read : Fin n → UInt32 → List (Act n)} {lk : Bool} {locks : Nat → Bool} {k : Nat}
variable {cbuf : ColorBuf n} {color : Int → Int}

/-- `ssmp_recv` names the process it has read from, up to what 32 bits hold. -/
theorem takes_recvBody (hread : Reads read) {lk' : Bool}
    (htest : recvTest me lk k = some (src, lk')) :
    src ≠ me ∧ ∃ id : UInt32, id.toNat = src.val % 256 ^ 4 ∧
      ∀ rest, Takes src id rest false false (recvBody read k ++ rest) := by
  have hsrc : idAt n k = some src := (recvTest_some htest).1
  have hval : src.val = k := by
    unfold idAt at hsrc
    split at hsrc
    · simpa using (congrArg Fin.val (Option.some.inj hsrc)).symm
    · cases hsrc
  refine ⟨?_, UInt32.ofNat k, by simp [hval], ?_⟩
  · intro hme
    simp [recvTest, hsrc, hme] at htest
  · intro rest
    simpa [recvBody, hsrc] using hread src (UInt32.ofNat k) rest

/-- The color receives name the participant they have read from, up to what 8 bits hold. -/
theorem takes_colorBody (hread : Reads read) {lk' : Bool} (hw : cbuf.WellFormed)
    (htest : colorTest cbuf locks k = some (src, lk')) :
    src ∈ cbuf.buf ∧ ∃ id : UInt32, id.toNat = src.val % 256 ^ 1 ∧
      ∀ rest, Takes src id rest false false (colorBody read cbuf k ++ rest) := by
  have hbuf : cbuf.buf[k]? = some src := by
    rw [hw.same]
    exact (colorTest_some htest).1
  -- the array `from` has one byte for an id
  have hfrom : cbuf.fromIds.getD k 0 = UInt8.ofNat src.val := by
    simp [hw.ids, List.getD, hbuf]
  refine ⟨List.mem_of_getElem? hbuf, (UInt8.ofNat src.val).toUInt32, by simp, ?_⟩
  intro rest
  simpa only [colorBody, hbuf, hfrom] using hread src (UInt8.ofNat src.val).toUInt32 rest

end Taking

/-! ## The receives of every build -/

/-- The three scanning receives of a platform: `read` and `readColor` follow a test, and `lk` and
`locks` say which tests are by compare-and-swap. -/
structure Platform.ScansWith {n : Nat} (P : Platform n) (me : Fin n) (lk : Bool)
    (locks : Nat → Bool) (read readColor : Fin n → UInt32 → List (Act n)) : Prop where
  recv : P.ssmpRecvPlatf = [.scan n (recvTest me lk) (recvBody read) 0]
  recvColor : ∀ cbuf, P.ssmpRecvColorPlatf cbuf =
    [.scan cbuf.numUes (colorTest cbuf locks) (colorBody readColor cbuf) 0]
  recvColorStart : ∀ cbuf, P.ssmpRecvColorStartPlatf cbuf =
    [.scanStart cbuf.numUes (colorTest cbuf locks)
      fun k => colorBody readColor cbuf k ++ [.advance cbuf.numUes]]

theorem Generic.scansWith {n : Nat} (m : Memcpy x86Msg) (useAtomic : Bool) (me : Fin n) :
    (Generic.platform m useAtomic me).ScansWith me useAtomic (fun _ => useAtomic) (readLine m)
      (readLine m) :=
  ⟨rfl, fun _ => rfl, fun _ => rfl⟩

theorem Build.scansWith {n : Nat} (b : Build) (me : Fin n) :
    ∃ lk locks read readColor, Reads read ∧ Reads readColor ∧
      (b.platform me).ScansWith me lk locks read readColor := by
  cases b with
  | generic m useAtomic =>
      exact ⟨useAtomic, fun _ => useAtomic, readLine m, readLine m, reads_readLine m,
        reads_readLine m, Generic.scansWith m useAtomic me⟩
  | opteron m useAtomic =>
      refine ⟨useAtomic, fun _ => useAtomic, readLine m, readLine m, reads_readLine m,
        reads_readLine m, ?_⟩
      simp only [Build.platform, Opteron.platform_eq_generic]
      exact Generic.scansWith m useAtomic me
  | xeon m sameSocket useAtomic =>
      exact ⟨useAtomic, fun k => !sameSocket me k, readLine m, readLine m, reads_readLine m,
        reads_readLine m, rfl, fun _ => rfl, fun _ => rfl⟩
  | niagara v o =>
      exact ⟨false, fun _ => false, Niagara.readMsg o, Niagara.readColorMsg o, reads_readMsg o,
        reads_readColorMsg o, rfl, fun _ => rfl, fun _ => rfl⟩

end Ssmp
