import Mathlib.Data.List.FinRange
import Mathlib.Data.Fintype.Basic
import Ssmp.Channel

/-!
# Line — sending and receiving one line

What the functions of the platforms have in common: the copies between a message and a slot, the
color buffers, the tests and bodies of the scanning receives.  Each part comes with the lemma that
says how it keeps the discipline.
-/

namespace Ssmp

open Lib

/-! ## Copies of a line -/

/-- The moves of a copy of a line into a slot: the payload first, and the state byte in one move of
its own after it. -/
structure CopyOut (L : MsgLayout) where
  fill : List Piece
  flag : Piece
  trail : List Piece
  whole : ∀ b : Fin ssmpCacheLineSize, ∃ p ∈ fill ++ flag :: trail, p.Has b
  flag_has : flag.Has L.state
  flag_once : ∀ p ∈ fill ++ trail, ¬ p.Has L.state
  payload_first : ∀ p ∈ flag :: trail, ∀ b : Fin L.payloadBytes, ¬ p.Has b

def CopyOut.pieces {L : MsgLayout} (o : CopyOut L) : List Piece :=
  o.fill ++ o.flag :: o.trail

/-- The moves of a copy of the payload, in any order. -/
def CopiesPayload (L : MsgLayout) (ps : List Piece) : Prop :=
  ∀ b : Fin L.payloadBytes, ∃ p ∈ ps, p.Has b

/-- In which moves, and in which order, `memcpy` of a line takes effect: into a slot and out of
one. -/
structure Memcpy (L : MsgLayout) where
  out : CopyOut L
  back : List Piece
  back_whole : ∀ b : Fin ssmpCacheLineSize, ∃ p ∈ back, p.Has b

/-- `memcpy(tmpm, msg, SSMP_CACHE_LINE_SIZE)` -/
def Memcpy.toSlot {L : MsgLayout} {n : Nat} (m : Memcpy L) (dst : Fin n) : List (Act n) :=
  m.out.pieces.map (.copyOut dst)

/-- `memcpy(msg, tmpm, SSMP_CACHE_LINE_SIZE)` -/
def Memcpy.toMsg {L : MsgLayout} {n : Nat} (m : Memcpy L) (src : Fin n) : List (Act n) :=
  m.back.map (.copyIn src)

section Copy

variable {L : MsgLayout} {n : Nat} {d r : Fin n} {lk mk : Bool} {done : List Piece}
variable {c : List (Act n)}

theorem CopyOut.fill_payload (o : CopyOut L) : CopiesPayload L o.fill := by
  intro b
  -- the line is copied whole, and the moves from the flag on bring no payload
  rcases o.whole ⟨b.val, L.payload_lt b⟩ with ⟨p, hp, hb⟩
  rcases List.mem_append.1 hp with hfill | hrest
  · exact ⟨p, hfill, hb⟩
  · exact absurd hb (o.payload_first p hrest b)

theorem Memcpy.back_payload (m : Memcpy L) : CopiesPayload L m.back :=
  fun b => m.back_whole ⟨b.val, L.payload_lt b⟩

theorem CopiesPayload.mem_bytesOf {ps : List Piece} (h : CopiesPayload L ps)
    (b : Fin L.payloadBytes) : b ∈ L.bytesOf (ps.reverse ++ done) := by
  rcases h b with ⟨p, hp, hb⟩
  exact ⟨p, List.mem_append_left _ (List.mem_reverse.2 hp), hb⟩

/-- Moves that spare the state byte. -/
theorem Disciplined.copyFill {ps : List Piece} (hst : ∀ p ∈ ps, ¬ p.Has L.state)
    (h : Disciplined L (.sending d lk mk (ps.reverse ++ done)) c) :
    Disciplined L (.sending d lk mk done) (ps.map (.copyOut d) ++ c) := by
  -- by induction on the moves left; `done` collects those made
  induction ps generalizing done with
  | nil => simpa using h
  | cons p ps ih =>
      refine Disciplined.fill (hst p (by simp)) (ih (fun q hq => hst q (by simp [hq])) ?_)
      simpa using h

/-- Moves that spare both the payload and the state byte. -/
theorem Disciplined.copyTrail {b : Bool} {ps : List Piece} (hst : ∀ p ∈ ps, ¬ p.Has L.state)
    (hno : ∀ p ∈ ps, ∀ x : Fin L.payloadBytes, ¬ p.Has x) (h : Disciplined L (.idle b) c) :
    Disciplined L (.idle b) (ps.map (.copyOut d) ++ c) := by
  induction ps with
  | nil => simpa using h
  | cons p ps ih =>
      have hrest := ih (fun q hq => hst q (by simp [hq])) (fun q hq => hno q (by simp [hq]))
      refine Disciplined.trail (hst p (by simp)) ?_ hrest
      ext x
      simpa [MsgLayout.bytesOf] using hno p (by simp) x

/-- The copy of a marked message into the slot. -/
theorem Disciplined.toSlot (m : Memcpy L) (h : Disciplined L (.idle true) c) :
    Disciplined L (.sending d lk true []) (m.toSlot d ++ c) := by
  have htrail : Disciplined L (.idle true) (m.out.trail.map (.copyOut d) ++ c) :=
    Disciplined.copyTrail (fun p hp => m.out.flag_once p (by simp [hp]))
      (fun p hp => m.out.payload_first p (by simp [hp])) h
  -- the move with the state byte publishes the message
  have hflag : Disciplined L (.sending d lk true (m.out.fill.reverse ++ []))
      (.copyOut d m.out.flag :: (m.out.trail.map (.copyOut d) ++ c)) :=
    Disciplined.publish m.out.flag_has (fun b => m.out.fill_payload.mem_bytesOf b) htrail
  simpa [Memcpy.toSlot, CopyOut.pieces] using
    Disciplined.copyFill (fun p hp => m.out.flag_once p (by simp [hp])) hflag

/-- The copy of the payload into the slot, and the store that publishes it. -/
theorem Disciplined.copyOut_store {ps : List Piece} (hst : ∀ p ∈ ps, ¬ p.Has L.state)
    (hall : CopiesPayload L ps) (h : Disciplined L (.idle true) c) :
    Disciplined L (.sending d lk mk [])
      (ps.map (.copyOut d) ++ .store (.sendBuf d) ssmpBufMessg :: c) :=
  Disciplined.copyFill hst (Disciplined.storeMessg (fun b => hall.mem_bytesOf b) h)

/-- A copy out of the slot. -/
theorem Disciplined.copyIn {ps : List Piece}
    (h : Disciplined L (.reading r lk (ps.reverse ++ done)) c) :
    Disciplined L (.reading r lk done) (ps.map (.copyIn r) ++ c) := by
  induction ps generalizing done with
  | nil => simpa using h
  | cons p ps ih =>
      refine Disciplined.read (ih ?_)
      simpa using h

/-- The copy of the payload out of the slot, and the store that releases it. -/
theorem Disciplined.copyIn_store {ps : List Piece} (hall : CopiesPayload L ps)
    (h : Disciplined L (.idle false) c) :
    Disciplined L (.reading r lk [])
      (ps.map (.copyIn r) ++ .store (.recvBuf r) ssmpBufEmpty :: c) :=
  Disciplined.copyIn (Disciplined.storeEmpty (fun b => hall.mem_bytesOf b) h)

/-- The same with the sender field written in between. -/
theorem Disciplined.copyIn_setSender_store {ps : List Piece} {v : UInt32}
    (hall : CopiesPayload L ps) (h : Disciplined L (.idle false) c) :
    Disciplined L (.reading r lk [])
      (ps.map (.copyIn r) ++ .setSender v :: .store (.recvBuf r) ssmpBufEmpty :: c) :=
  Disciplined.copyIn
    (Disciplined.senderReading (Disciplined.storeEmpty (fun b => hall.mem_bytesOf b) h))

end Copy

/-! ## Taking a slot -/

/-- Wait until the slot `q` has state `v`, and lock it where `lk`. -/
def acquire {n : Nat} (lk : Bool) (q : SlotRef n) (v : UInt8) : Act n :=
  if lk then .cas q v ssmpBufLockd else .await q v

section Acquire

variable {L : MsgLayout} {n : Nat} {d r : Fin n} {lk b : Bool} {c : List (Act n)}

theorem Disciplined.acquireSend (h : Disciplined L (.sending d lk false []) c) :
    Disciplined L (.idle true) (acquire lk (.sendBuf d) ssmpBufEmpty :: c) := by
  cases lk with
  | false => exact Disciplined.awaitSend h
  | true => exact Disciplined.casSend h

theorem Disciplined.acquireRecv (h : Disciplined L (.reading r lk []) c) :
    Disciplined L (.idle b) (acquire lk (.recvBuf r) ssmpBufMessg :: c) := by
  cases lk with
  | false => exact Disciplined.awaitRecv h
  | true => exact Disciplined.casRecv h

end Acquire

/-! ## Color buffers -/

/-- `ssmp_color_buf_t`.  A pointer into `ssmp_recv_buf` is the process whose slot it points to. -/
structure ColorBuf (n : Nat) where
  numUes : Nat
  bufState : List (Fin n)
  buf : List (Fin n)
  fromIds : List UInt8

section ColorBuf

variable {n : Nat}

/-- `participants[ue]`. -/
def participants (me : Fin n) (color : Int → Int) (ue : Fin n) : UInt32 :=
  if ue = me then 0 else UInt32.ofInt (color ue.val)

/-- The first loop of `ssmp_color_buf_init_platf`. -/
def countParticipants (part : Fin n → UInt32) : List (Fin n) → Nat → Nat
  | [], numUes => numUes
  | ue :: ues, numUes => countParticipants part ues (if part ue ≠ 0 then numUes + 1 else numUes)

/-- The second loop of `ssmp_color_buf_init_platf`. -/
def fillColorBuf (part : Fin n → UInt32) : List (Fin n) → ColorBuf n → ColorBuf n
  | [], cbuf => cbuf
  | ue :: ues, cbuf =>
      fillColorBuf part ues
        (if part ue ≠ 0 then
          { cbuf with
            buf := cbuf.buf ++ [ue]
            bufState := cbuf.bufState ++ [ue]
            fromIds := cbuf.fromIds ++ [UInt8.ofNat ue.val] }
        else cbuf)

def ssmpColorBufInitPlatf (me : Fin n) (color : Int → Int) : ColorBuf n :=
  let part := participants me color
  let ues := List.finRange n
  fillColorBuf part ues
    { numUes := countParticipants part ues 0, bufState := [], buf := [], fromIds := [] }

/-- A color buffer finds the flag and the line of a message in the same slot. -/
structure ColorBuf.WellFormed (cbuf : ColorBuf n) : Prop where
  same : cbuf.buf = cbuf.bufState
  ids : cbuf.fromIds = cbuf.buf.map fun ue => UInt8.ofNat ue.val

theorem fillColorBuf_wellFormed (part : Fin n → UInt32) (ues : List (Fin n)) {cbuf : ColorBuf n}
    (h : cbuf.WellFormed) : (fillColorBuf part ues cbuf).WellFormed := by
  -- both lists grow by the same process in the same turn
  induction ues generalizing cbuf with
  | nil => exact h
  | cons ue ues ih =>
      refine ih ?_
      split
      · exact ⟨by simp [h.same], by simp [h.ids]⟩
      · exact h

theorem ssmpColorBufInitPlatf_wellFormed (me : Fin n) (color : Int → Int) :
    (ssmpColorBufInitPlatf me color).WellFormed :=
  fillColorBuf_wellFormed _ _ ⟨rfl, rfl⟩

theorem countParticipants_eq (part : Fin n → UInt32) (ues : List (Fin n)) (numUes : Nat) :
    countParticipants part ues numUes =
      numUes + (ues.filter fun ue => decide (part ue ≠ 0)).length := by
  induction ues generalizing numUes with
  | nil => simp [countParticipants]
  | cons ue ues ih =>
      by_cases hp : part ue = 0
      · simp [countParticipants, ih, hp]
      · simp [countParticipants, ih, hp]
        omega

theorem fillColorBuf_buf (part : Fin n → UInt32) (ues : List (Fin n)) (cbuf : ColorBuf n) :
    (fillColorBuf part ues cbuf).buf = cbuf.buf ++ ues.filter fun ue => decide (part ue ≠ 0) := by
  induction ues generalizing cbuf with
  | nil => simp [fillColorBuf]
  | cons ue ues ih =>
      by_cases hp : part ue = 0
      · simp [fillColorBuf, ih, hp]
      · simp [fillColorBuf, ih, hp]

theorem fillColorBuf_numUes (part : Fin n → UInt32) (ues : List (Fin n)) (cbuf : ColorBuf n) :
    (fillColorBuf part ues cbuf).numUes = cbuf.numUes := by
  induction ues generalizing cbuf with
  | nil => rfl
  | cons ue ues ih =>
      simp only [fillColorBuf, ih]
      split <;> rfl

/-- A color buffer lists the participants in the order of their ids. -/
theorem ssmpColorBufInitPlatf_buf (me : Fin n) (color : Int → Int) :
    (ssmpColorBufInitPlatf me color).buf =
      (List.finRange n).filter fun ue => decide (participants me color ue ≠ 0) := by
  simp [ssmpColorBufInitPlatf, fillColorBuf_buf]

/-- The two loops of `ssmp_color_buf_init_platf` agree on the number of participants. -/
theorem ssmpColorBufInitPlatf_numUes (me : Fin n) (color : Int → Int) :
    (ssmpColorBufInitPlatf me color).numUes = (ssmpColorBufInitPlatf me color).buf.length := by
  rw [ssmpColorBufInitPlatf_buf]
  simp [ssmpColorBufInitPlatf, fillColorBuf_numUes, countParticipants_eq]

theorem mem_ssmpColorBufInitPlatf {me ue : Fin n} {color : Int → Int} :
    ue ∈ (ssmpColorBufInitPlatf me color).buf ↔ participants me color ue ≠ 0 := by
  simp [ssmpColorBufInitPlatf_buf]

end ColorBuf

/-! ## Scanning receives -/

section Receive

variable {L : MsgLayout} {n : Nat}

/-- Process `k`, where there is one. -/
def idAt (n k : Nat) : Option (Fin n) :=
  if h : k < n then some ⟨k, h⟩ else none

/-- `from != ssmp_id_ && ssmp_recv_buf[from]->state == SSMP_BUF_MESSG`, the latter by
compare-and-swap where `lk`. -/
def recvTest (me : Fin n) (lk : Bool) (k : Nat) : Option (Fin n × Bool) :=
  match idAt n k with
  | none => none
  | some src => if src = me then none else some (src, lk)

/-- `*cbuf_state[k] == SSMP_BUF_MESSG`, by compare-and-swap where `lk k`. -/
def colorTest (cbuf : ColorBuf n) (lk : Nat → Bool) (k : Nat) : Option (Fin n × Bool) :=
  match cbuf.bufState[k]? with
  | none => none
  | some src => some (src, lk k)

/-- What follows the test on `ssmp_recv_buf[k]`: `read src v` reads the message of `src`, whose id
is `v`. -/
def recvBody (read : Fin n → UInt32 → List (Act n)) (k : Nat) : List (Act n) :=
  match idAt n k with
  | none => []
  | some src => read src (UInt32.ofNat k)

/-- What follows the test on `cbuf_state[k]`. -/
def colorBody (read : Fin n → UInt32 → List (Act n)) (cbuf : ColorBuf n) (k : Nat) :
    List (Act n) :=
  match cbuf.buf[k]? with
  | none => []
  | some src => read src (cbuf.fromIds.getD k 0).toUInt32

variable {me r : Fin n} {lk : Bool} {locks : Nat → Bool} {cbuf : ColorBuf n} {k : Nat}
variable {read : Fin n → UInt32 → List (Act n)}

theorem recvTest_some {lk' : Bool} (h : recvTest me lk k = some (r, lk')) :
    idAt n k = some r ∧ lk' = lk := by
  cases hk : idAt n k with
  | none => simp [recvTest, hk] at h
  | some src =>
      -- a process does not test a slot of its own
      by_cases hme : src = me
      · simp [recvTest, hk, hme] at h
      · simp only [recvTest, hk, if_neg hme, Option.some.injEq, Prod.mk.injEq] at h
        exact ⟨by rw [h.1], h.2.symm⟩

theorem colorTest_some {lk' : Bool} (h : colorTest cbuf locks k = some (r, lk')) :
    cbuf.bufState[k]? = some r ∧ lk' = locks k := by
  cases hk : cbuf.bufState[k]? with
  | none => simp [colorTest, hk] at h
  | some src =>
      simp only [colorTest, hk, Option.some.injEq, Prod.mk.injEq] at h
      exact ⟨by rw [h.1], h.2.symm⟩

/-! ### Discipline of the scanning receives -/

/-- `read` reads the whole message of the slot it is given and releases it. -/
def ReadsLine (L : MsgLayout) (read : Fin n → UInt32 → List (Act n)) : Prop :=
  ∀ r v lk c, Disciplined L (.idle false) c → Disciplined L (.reading r lk []) (read r v ++ c)

theorem Disciplined.scanIds (hread : ReadsLine L read) :
    Disciplined L (.idle true) [.scan n (recvTest me lk) (recvBody read) 0] := by
  refine Disciplined.scan ?_
  intro k _ r lk' htest
  -- a test that succeeds is one on an existing process
  have hbody : recvBody read k = read r (UInt32.ofNat k) := by
    simp [recvBody, (recvTest_some htest).1]
  rw [hbody]
  exact hread r _ lk' [] Disciplined.nil

/-- The flag tested and the line read belong to one slot. -/
theorem disciplined_colorBody {lk' : Bool} {c : List (Act n)} (hread : ReadsLine L read)
    (hw : cbuf.WellFormed) (htest : colorTest cbuf locks k = some (r, lk'))
    (hc : Disciplined L (.idle false) c) :
    Disciplined L (.reading r lk' []) (colorBody read cbuf k ++ c) := by
  -- the flag is found through `buf_state`, the line through `buf`
  have hbuf : cbuf.buf[k]? = some r := by
    rw [hw.same]
    exact (colorTest_some htest).1
  have hbody : colorBody read cbuf k = read r (cbuf.fromIds.getD k 0).toUInt32 := by
    simp [colorBody, hbuf]
  rw [hbody]
  exact hread r _ lk' c hc

theorem Disciplined.scanColor (hread : ReadsLine L read) (hw : cbuf.WellFormed) :
    Disciplined L (.idle true)
      [.scan cbuf.numUes (colorTest cbuf locks) (colorBody read cbuf) 0] := by
  refine Disciplined.scan ?_
  intro k _ r lk' htest
  exact disciplined_colorBody hread hw htest Disciplined.nil

theorem Disciplined.scanColorStart (hread : ReadsLine L read) (hw : cbuf.WellFormed) :
    Disciplined L (.idle true)
      [.scanStart cbuf.numUes (colorTest cbuf locks)
        fun k => colorBody read cbuf k ++ [.advance cbuf.numUes]] := by
  refine Disciplined.scanStart ?_
  intro k _ r lk' htest
  rw [List.append_assoc]
  exact disciplined_colorBody hread hw htest (Disciplined.advance Disciplined.nil)

/-! ### Properties of all actions -/

theorem EveryIn.recvBody {P : Act n → Prop} (hread : ∀ r v, EveryIn P (read r v)) (k : Nat) :
    EveryIn P (recvBody read k) := by
  cases hk : idAt n k with
  | none =>
      simp only [Ssmp.recvBody, hk]
      exact EveryIn.nil
  | some src =>
      simp only [Ssmp.recvBody, hk]
      exact hread src _

theorem EveryIn.colorBody {P : Act n → Prop} (hread : ∀ r v, EveryIn P (read r v))
    (cbuf : ColorBuf n) (k : Nat) : EveryIn P (colorBody read cbuf k) := by
  cases hk : cbuf.buf[k]? with
  | none =>
      simp only [Ssmp.colorBody, hk]
      exact EveryIn.nil
  | some src =>
      simp only [Ssmp.colorBody, hk]
      exact hread src _

theorem recvTest_noLock (k : Nat) (r : Fin n) : recvTest me false k ≠ some (r, true) := by
  intro h
  exact absurd (recvTest_some h).2 (by simp)

theorem colorTest_noLock (k : Nat) (r : Fin n) :
    colorTest cbuf (fun _ => false) k ≠ some (r, true) := by
  intro h
  exact absurd (colorTest_some h).2 (by simp)

end Receive

/-! ## Lines whose copy publishes them

On x86 the state byte is part of the copied line, so the copy of a marked message publishes it.
The platforms differ in when they lock a slot. -/

section X86

variable {L : MsgLayout} {n : Nat} (m : Memcpy L) (lk : Bool) (locks : Nat → Bool)

def sendLine (dst : Fin n) : List (Act n) :=
  acquire lk (.sendBuf dst) ssmpBufEmpty :: .setState ssmpBufMessg :: m.toSlot dst

def sendLineNoSync (dst : Fin n) : List (Act n) :=
  .setState ssmpBufMessg :: m.toSlot dst

def recvLine (src : Fin n) : List (Act n) :=
  acquire lk (.recvBuf src) ssmpBufMessg ::
    (m.toMsg src ++ [.store (.recvBuf src) ssmpBufEmpty])

/-- What the scanning receives do with the message they have found. -/
def readLine (src : Fin n) (v : UInt32) : List (Act n) :=
  m.toMsg src ++ [.setSender v, .store (.recvBuf src) ssmpBufEmpty]

def recvAnyLine (me : Fin n) : List (Act n) :=
  [.scan n (recvTest me lk) (recvBody (readLine m)) 0]

def recvColorLine (cbuf : ColorBuf n) : List (Act n) :=
  [.scan cbuf.numUes (colorTest cbuf locks) (colorBody (readLine m) cbuf) 0]

def recvColorStartLine (cbuf : ColorBuf n) : List (Act n) :=
  [.scanStart cbuf.numUes (colorTest cbuf locks)
    fun k => colorBody (readLine m) cbuf k ++ [.advance cbuf.numUes]]

variable {m lk locks}

theorem Disciplined.sendLine (dst : Fin n) {c : List (Act n)} (h : Disciplined L (.idle true) c) :
    Disciplined L (.idle true) (sendLine m lk dst ++ c) :=
  Disciplined.acquireSend (Disciplined.mark (Disciplined.toSlot m h))

theorem Disciplined.sendLineNoSync (dst : Fin n) :
    Disciplined L (.sending dst false false []) (sendLineNoSync m dst) := by
  have hcopy : Disciplined L (.sending dst false true []) (m.toSlot dst ++ []) :=
    Disciplined.toSlot m Disciplined.nil
  rw [List.append_nil] at hcopy
  exact Disciplined.mark hcopy

theorem Disciplined.recvLine (src : Fin n) : Disciplined L (.idle true) (recvLine m lk src) :=
  Disciplined.acquireRecv (Disciplined.copyIn_store m.back_payload Disciplined.nil)

theorem readsLine_readLine : ReadsLine L (readLine (n := n) m) := by
  intro r v lk c h
  rw [readLine, List.append_assoc]
  exact Disciplined.copyIn_setSender_store m.back_payload h

/-! ### Without compare-and-swap -/

theorem noLock_single {a : Act n} (h : a.NoLock) (hbody : ∀ k, a.body k = []) :
    EveryIn Act.NoLock [a] :=
  EveryIn.cons (Act.Every.single h hbody) EveryIn.nil

theorem noLock_toMsg (src : Fin n) : EveryIn Act.NoLock (m.toMsg src) :=
  EveryIn.map fun _ _ => Act.Every.single trivial fun _ => rfl

theorem noLock_sendLineNoSync (dst : Fin n) : EveryIn Act.NoLock (sendLineNoSync m dst) := by
  refine EveryIn.cons (Act.Every.single trivial fun _ => rfl) (EveryIn.map ?_)
  intro p _
  exact Act.Every.single trivial fun _ => rfl

theorem noLock_sendLine (dst : Fin n) : EveryIn Act.NoLock (Ssmp.sendLine m false dst) :=
  EveryIn.cons (Act.Every.single trivial fun _ => rfl) (noLock_sendLineNoSync dst)

theorem noLock_recvLine (src : Fin n) : EveryIn Act.NoLock (Ssmp.recvLine m false src) := by
  refine EveryIn.cons (Act.Every.single trivial fun _ => rfl) ?_
  exact EveryIn.append (noLock_toMsg src) (noLock_single trivial fun _ => rfl)

theorem noLock_readLine (src : Fin n) (v : UInt32) : EveryIn Act.NoLock (readLine m src v) := by
  refine EveryIn.append (noLock_toMsg src) ?_
  exact EveryIn.cons (Act.Every.single trivial fun _ => rfl) (noLock_single trivial fun _ => rfl)

theorem noLock_recvAnyLine (me : Fin n) : EveryIn Act.NoLock (recvAnyLine m false me) :=
  EveryIn.cons (Act.Every.intro recvTest_noLock (EveryIn.recvBody noLock_readLine)) EveryIn.nil

theorem noLock_recvColorLine (cbuf : ColorBuf n) :
    EveryIn Act.NoLock (recvColorLine m (fun _ => false) cbuf) :=
  EveryIn.cons (Act.Every.intro colorTest_noLock (EveryIn.colorBody noLock_readLine cbuf))
    EveryIn.nil

theorem noLock_recvColorStartLine (cbuf : ColorBuf n) :
    EveryIn Act.NoLock (recvColorStartLine m (fun _ => false) cbuf) := by
  refine EveryIn.cons (Act.Every.intro colorTest_noLock ?_) EveryIn.nil
  intro k
  exact EveryIn.append (EveryIn.colorBody noLock_readLine cbuf k)
    (noLock_single trivial fun _ => rfl)

end X86

end Ssmp
