import Ssmp.ColorBuf
import Ssmp.Lib.TransSys

/-!
# Prefetch — the array elements that the receives of the Opteron read

`Platform.Opteron` leaves the prefetches out.  Here one process receives through the three functions
of `src/platform/opteron/ssmp_platf.c` that look for a message, and every element that it reads from
one of the five arrays is written down, those that are read only to be prefetched included.  The
other processes store to the state bytes of their slots at any time.
-/

namespace Ssmp
namespace Opteron

open Lib ColorInit

/-! ## Arrays and calls -/

section Arrays

variable {n : Nat} (me : Fin n)

/-- A color buffer of process `me`; the pointers have 8 bytes. -/
structure ColorBufOf where
  mem : ColorMem
  built : ∃ (σ : Type) (color : Int → σ → Int32 × σ) (st : σ) (junk : Fin n → UInt32),
    mem = ColorInit.ssmpColorBufInitPlatf me color (fun i => Arch.x86.slotPtr n i me) .x86 true st
      junk

inductive PtrArray where
  /-- `ssmp_recv_buf` -/
  | recvBuf
  /-- `ssmp_send_buf` -/
  | sendBuf
  | buf (c : ColorBufOf me)
  | bufState (c : ColorBufOf me)
  /-- `cbuf->from` -/
  | fromIds (c : ColorBufOf me)

/-- The number of elements allocated. -/
def PtrArray.length : PtrArray me → Nat
  | recvBuf | sendBuf => n
  | buf c => (c.mem.size .buf).toNat / 8
  | bufState c => (c.mem.size .bufState).toNat / 8
  | fromIds c => (c.mem.size .fromIds).toNat

inductive RecvCall where
  | recv
  | recvColor (c : ColorBufOf me)
  | recvColorStart (c : ColorBufOf me)

/-- Where the process is; `k` is the local `from` of the source. -/
inductive RecvPc where
  | idle
  /-- `for (from = 0; from < num_ues; from++)` of `ssmp_recv_platf` -/
  | recv (k : UInt32)
  /-- `volatile ssmp_msg_t* tmpm = ssmp_recv_buf[from];` to `tmpm->state = SSMP_BUF_EMPTY;` -/
  | recvTake (k : UInt32)
  /-- `PREFETCHW(ssmp_recv_buf[from + 1]);` -/
  | recvAhead (k : UInt32)
  /-- `for (from = 0; from < num_ues; from++)` of `ssmp_recv_color_platf` -/
  | color (c : ColorBufOf me) (k : UInt32)
  /-- `volatile ssmp_msg_t* tmpm = cbuf->buf[from];` to `tmpm->state = SSMP_BUF_EMPTY;` -/
  | colorTake (c : ColorBufOf me) (k : UInt32)
  /-- `PREFETCHW(ssmp_send_buf[msg->sender]);` and `PREFETCHW(buf[from + 1]);` -/
  | colorAhead (c : ColorBufOf me) (k sender : UInt32)
  /-- `for (; start_recv_from < num_ues; start_recv_from++)` of `ssmp_recv_color_start_platf` -/
  | start (c : ColorBufOf me)
  /-- `volatile ssmp_msg_t* tmpm = cbuf->buf[start_recv_from];` to `start_recv_from = 0;` -/
  | startTake (c : ColorBufOf me)
  /-- `PREFETCHW(ssmp_send_buf[msg->sender]);` and `PREFETCHW(buf[start_recv_from]);` -/
  | startAhead (c : ColorBufOf me) (sender : UInt32)

/-- The state bytes of the slots, the process, and the elements it has read. -/
structure RecvState where
  flag : MsgPtr → UInt8
  startRecvFrom : UInt32
  pc : RecvPc me
  reads : List (PtrArray me × Nat)

end Arrays

/-! ## Steps -/

section Steps

variable {n : Nat} {me : Fin n}

def RecvCall.entry : RecvCall me → RecvPc me
  | recv => .recv 0
  | recvColor c => .color c 0
  | recvColorStart c => .start c

namespace RecvState

def goto (pc : RecvPc me) (s : RecvState me) : RecvState me :=
  { s with pc := pc }

def read (a : PtrArray me) (k : UInt32) (s : RecvState me) : RecvState me :=
  { s with reads := s.reads ++ [(a, k.toNat)] }

/-- A read that is made without `USE_ATOMIC` only. -/
def readUnless (useAtomic : Bool) (a : PtrArray me) (k : UInt32) (s : RecvState me) :
    RecvState me :=
  { s with reads := if useAtomic then s.reads else s.reads ++ [(a, k.toNat)] }

/-- `p->state = v;` -/
def setFlag (p : Option MsgPtr) (v : UInt8) (s : RecvState me) : RecvState me :=
  match p with
  | some p => { s with flag := Function.update s.flag p v }
  | none => s

/-- `p->state == SSMP_BUF_MESSG` -/
def Marked (s : RecvState me) (p : Option MsgPtr) : Prop :=
  p.map s.flag = some ssmpBufMessg

instance (s : RecvState me) (p : Option MsgPtr) : Decidable (s.Marked p) :=
  inferInstanceAs (Decidable (_ = _))

/-- What the compare-and-swap of a successful test stores. -/
def lock (useAtomic : Bool) (p : Option MsgPtr) (s : RecvState me) : RecvState me :=
  if useAtomic then s.setFlag p ssmpBufLockd else s

end RecvState

/-- `ssmp_recv_buf[k]` -/
def recvBufAt (me : Fin n) (k : UInt32) : Option MsgPtr :=
  (Arch.x86.ssmpMemInitPlatf me n).ssmpRecvBuf k.toNat

/-- `cbuf->buf_state[k]`, by the message it points into -/
def ColorBufOf.stateAt (c : ColorBufOf me) (k : UInt32) : Option MsgPtr :=
  (c.mem.bufState k.toNat).map StatePtr.msg

/-- `cbuf->from[k]` -/
def ColorBufOf.senderAt (c : ColorBufOf me) (k : UInt32) : UInt32 :=
  ((c.mem.fromIds k.toNat).getD 0).toUInt32

/-- The next step of the process in its call. -/
def RecvState.step (useAtomic : Bool) (s : RecvState me) : RecvState me :=
  match s.pc with
  | .idle => s
  | .recv k =>
      if k < UInt32.ofNat n then
        -- the prefetch comes before the test for the own id
        let s := s.read .recvBuf k
        if k = UInt32.ofNat me then s.goto (.recv (k + 1))
        else
          let s := s.read .recvBuf k
          if s.Marked (recvBufAt me k) then (s.lock useAtomic (recvBufAt me k)).goto (.recvTake k)
          else s.goto (.recv (k + 1))
      else s.goto (.recv 0)
  | .recvTake k =>
      ((s.read .recvBuf k).setFlag (recvBufAt me k) ssmpBufEmpty).goto (.recvAhead k)
  | .recvAhead k => (s.read .recvBuf (k + 1)).goto .idle
  | .color c k =>
      if k < c.mem.numUes then
        let s := (s.read (.buf c) k).read (.bufState c) k
        if s.Marked (c.stateAt k) then (s.lock useAtomic (c.stateAt k)).goto (.colorTake c k)
        else s.goto (.color c (k + 1))
      else s.goto (.color c 0)
  | .colorTake c k =>
      let s := (s.read (.buf c) k).read (.fromIds c) k
      (s.setFlag (c.mem.buf k.toNat) ssmpBufEmpty).goto (.colorAhead c k (c.senderAt k))
  | .colorAhead c k sender => ((s.read .sendBuf sender).read (.buf c) (k + 1)).goto .idle
  | .start c =>
      let k := s.startRecvFrom
      if k < c.mem.numUes then
        let s := (s.readUnless useAtomic (.buf c) k).read (.bufState c) k
        if s.Marked (c.stateAt k) then (s.lock useAtomic (c.stateAt k)).goto (.startTake c)
        else { s with startRecvFrom := k + 1 }
      else { s with startRecvFrom := 0 }
  | .startTake c =>
      let k := s.startRecvFrom
      let s := (s.read (.buf c) k).read (.fromIds c) k
      let s := s.setFlag (c.mem.buf k.toNat) ssmpBufEmpty
      { s with
        startRecvFrom := if k + 1 = c.mem.numUes then 0 else k + 1
        pc := .startAhead c (c.senderAt k) }
  | .startAhead c sender => ((s.read .sendBuf sender).read (.buf c) s.startRecvFrom).goto .idle

/-- The slots are empty and nothing has been received. -/
structure RecvState.Init (s : RecvState me) : Prop where
  flag : ∀ p, s.flag p = ssmpBufEmpty
  start : s.startRecvFrom = 0
  pc : s.pc = .idle
  reads : s.reads = []

inductive RecvLabel (me : Fin n) where
  | call (c : RecvCall me)
  | run
  /-- Process `i` stores to the state byte of its slot. -/
  | store (i : Fin n) (v : UInt8)

/-- The process may make the calls `calls`, and the processes of `sends` send to it. -/
inductive RecvStep (useAtomic : Bool) (calls : RecvCall me → Prop) (sends : Fin n → Prop) :
    RecvState me → RecvLabel me → RecvState me → Prop where
  | call {s : RecvState me} {c : RecvCall me} (hidle : s.pc = .idle) (hc : calls c) :
      RecvStep useAtomic calls sends s (.call c) (s.goto c.entry)
  | run {s : RecvState me} : RecvStep useAtomic calls sends s .run (s.step useAtomic)
  | store {s : RecvState me} {i : Fin n} (v : UInt8) (hne : i ≠ me) (hsends : sends i) :
      RecvStep useAtomic calls sends s (.store i v)
        (s.setFlag (some (Arch.x86.slotPtr n i me)) v)

def recvSystem (useAtomic : Bool) (calls : RecvCall me → Prop) (sends : Fin n → Prop) :
    TransSys (RecvState me) (RecvLabel me) where
  init := RecvState.Init
  step := RecvStep useAtomic calls sends

/-! ## Bounds -/

/-- Every element that has been read is one of its array. -/
def RecvState.InBounds (s : RecvState me) : Prop :=
  ∀ a k, (a, k) ∈ s.reads → k < a.length

/-- When no sequence of messages takes the call beyond an array: `ssmp_recv` if the process with the
last id does not send (or is the one that receives), `ssmp_recv_color` if there is padding behind the
last participant or this one does not send, and the size of the color buffer is not cut off. -/
def RecvCall.Fits (sends : Fin n → Prop) : RecvCall me → Prop
  | recv => ∀ i : Fin n, i.val + 1 = n → i ≠ me → ¬ sends i
  | recvColor c =>
      c.mem.numUes.toNat ≤ 2 ^ 29 - 8 ∧ (8 ∣ c.mem.numUes.toNat → ∀ i : Fin n,
        c.mem.buf (c.mem.numUes.toNat - 1) = some (Arch.x86.slotPtr n i me) → i ≠ me → ¬ sends i)
  | recvColorStart c => c.mem.numUes.toNat ≤ 2 ^ 29 - 8

end Steps

/-! ## Lengths -/

section Lengths

variable {n : Nat} {me : Fin n}

/-- On x86 a block is rounded up to lines, modulo the word. -/
theorem paddedSize_x86_toNat (elem num : UInt32) :
    (paddedSize .x86 elem num).toNat =
      (num.toNat * elem.toNat % 2 ^ 32 + 63) / 64 * 64 % 2 ^ 32 := by
  have hsize : (num * elem).toNat = num.toNat * elem.toNat % 2 ^ 32 := UInt32.toNat_mul _ _
  have hrest : (num * elem % 64).toNat = (num * elem).toNat % 64 := UInt32.toNat_mod _ _
  have hlt : (num * elem).toNat < 2 ^ 32 := (num * elem).toNat_lt
  by_cases hzero : num * elem % 64 = 0
  · have hmod : (num * elem).toNat % 64 = 0 := by
      rw [← hrest, hzero]
      rfl
    simp only [paddedSize, hzero, ne_eq, not_true_eq_false, if_false]
    omega
  · have hmod : (num * elem).toNat % 64 ≠ 0 := by
      intro h
      exact hzero (UInt32.toNat_inj.1 (hrest.trans h))
    have hpad : (64 - num * elem % 64).toNat = 64 - (num * elem).toNat % 64 := by
      rw [UInt32.toNat_sub_of_le _ _ (UInt32.le_iff_toNat_le.2 _), hrest]
      · rfl
      · rw [hrest]
        exact Nat.le_of_lt (Nat.mod_lt _ (by decide))
    simp only [paddedSize, hzero, ne_eq, not_false_eq_true, if_true]
    rw [UInt32.toNat_add, hpad]
    omega

/-- The array of `num` pointers has room for them, as long as the size is not cut off. -/
theorem le_ptrLength_iff {num : UInt32} (hnum : num.toNat < 2 ^ 31) :
    num.toNat ≤ (paddedSize .x86 8 num).toNat / 8 ↔ num.toNat ≤ 2 ^ 29 - 8 := by
  have hsize := paddedSize_x86_toNat 8 num
  have helem : (8 : UInt32).toNat = 8 := rfl
  rw [helem] at hsize
  omega

/-- There is an element behind the last pointer, unless the pointers fill their lines. -/
theorem lt_ptrLength_iff {num : UInt32} (hfits : num.toNat ≤ 2 ^ 29 - 8) :
    num.toNat < (paddedSize .x86 8 num).toNat / 8 ↔ ¬ 8 ∣ num.toNat := by
  have hsize := paddedSize_x86_toNat 8 num
  have helem : (8 : UInt32).toNat = 8 := rfl
  rw [helem] at hsize
  omega

theorem le_idsLength {num : UInt32} (hnum : num.toNat < 2 ^ 31) :
    num.toNat ≤ (paddedSize .x86 1 num).toNat := by
  have hsize := paddedSize_x86_toNat 1 num
  have helem : (1 : UInt32).toNat = 1 := rfl
  rw [helem] at hsize
  omega

end Lengths

/-! ## Color buffers -/

namespace ColorBufOf

variable {n : Nat} {me : Fin n}

/-- The participants are processes other than `me`, each once. -/
theorem exists_participants (c : ColorBufOf me) (hn : n < 2 ^ 31) :
    ∃ ps : List (Fin n), c.mem.numUes.toNat = ps.length ∧ ps.Nodup ∧ me ∉ ps ∧
      Holds (fun i => Arch.x86.slotPtr n i me) 8 ps c.mem := by
  rcases c.built with ⟨σ, color, st, junk, hmem⟩
  have hothers := accepted_sublist_finRange me color st
  refine ⟨_, ?_, ?_, ?_, hmem ▸ holds_init .x86 true me color _ st junk⟩
  · rw [hmem]
    exact init_numUes .x86 true me color _ st junk (by omega)
  · exact hothers.nodup ((List.nodup_finRange n).filter _)
  · intro h
    have hfilter := hothers.subset h
    simp at hfilter

theorem numUes_lt (c : ColorBufOf me) (hn : n < 2 ^ 31) : c.mem.numUes.toNat < 2 ^ 31 := by
  rcases c.built with ⟨σ, color, st, junk, hmem⟩
  have hnum := init_numUes .x86 true me color (fun i => Arch.x86.slotPtr n i me) st junk (by omega)
  have hle := accepted_length_le me color st
  rw [hmem, hnum]
  omega

theorem size_eq (c : ColorBufOf me) (b : Block) :
    c.mem.size b = paddedSize .x86 (elemSize 8 b) c.mem.numUes := by
  rcases c.built with ⟨σ, color, st, junk, hmem⟩
  rw [hmem]
  exact init_size .x86 true me color _ st junk b

/-- What the three arrays hold at the same position. -/
theorem exists_entry (c : ColorBufOf me) (hn : n < 2 ^ 31) {k : UInt32} (hk : k < c.mem.numUes) :
    ∃ i : Fin n, i ≠ me ∧ c.mem.buf k.toNat = some (Arch.x86.slotPtr n i me) ∧
      c.stateAt k = some (Arch.x86.slotPtr n i me) ∧ (c.senderAt k).toNat < n := by
  rcases c.exists_participants hn with ⟨ps, hlen, hnodup, hme, hholds⟩
  have hlt : k.toNat < ps.length := hlen ▸ UInt32.lt_iff_toNat_lt.1 hk
  have hget : ps[k.toNat]? = some ps[k.toNat] := List.getElem?_eq_getElem hlt
  refine ⟨ps[k.toNat], ?_, ?_, ?_, ?_⟩
  · intro h
    exact hme (h ▸ List.getElem_mem hlt)
  · rw [hholds.buf, hget]
    rfl
  · rw [stateAt, hholds.bufState, hget]
    rfl
  · rw [senderAt, hholds.fromIds, hget]
    have hi := ps[k.toNat].isLt
    have hmod : (UInt8.ofNat ps[k.toNat].val).toUInt32.toNat = ps[k.toNat].val % 256 :=
      UInt8.toNat_ofNat'
    have hle := Nat.mod_le ps[k.toNat].val 256
    simp only [Option.map_some, Option.getD_some, hmod]
    omega

/-- Different positions hold different slots. -/
theorem buf_inj (c : ColorBufOf me) (hn : n < 2 ^ 31) {k l : Nat} (hk : k < c.mem.numUes.toNat)
    (hl : l < c.mem.numUes.toNat) (h : c.mem.buf k = c.mem.buf l) : k = l := by
  rcases c.exists_participants hn with ⟨ps, hlen, hnodup, hme, hholds⟩
  rw [hlen] at hk hl
  rw [hholds.buf, hholds.buf, List.getElem?_eq_getElem hk, List.getElem?_eq_getElem hl] at h
  have hne : ∀ {j} (hj : j < ps.length), ps[j].val ≠ me.val := by
    intro j hj heq
    exact hme (Fin.ext heq ▸ List.getElem_mem hj)
  have hval := (slotPtr_inj ps[k].isLt ps[l].isLt (hne hk) (hne hl) (Option.some.inj h)).1
  exact (hnodup.getElem_inj_iff).1 (Fin.ext hval)

/-! ### Room -/

theorem length_buf (c : ColorBufOf me) :
    (PtrArray.buf c).length = (paddedSize .x86 8 c.mem.numUes).toNat / 8 := by
  rw [PtrArray.length, size_eq]
  rfl

theorem length_bufState (c : ColorBufOf me) :
    (PtrArray.bufState c).length = (PtrArray.buf c).length := rfl

theorem length_fromIds (c : ColorBufOf me) :
    (PtrArray.fromIds c).length = (paddedSize .x86 1 c.mem.numUes).toNat := by
  rw [PtrArray.length, size_eq]
  rfl

/-- The positions of the participants are in the arrays. -/
theorem lt_length (c : ColorBufOf me) (hn : n < 2 ^ 31)
    (hfits : c.mem.numUes.toNat ≤ 2 ^ 29 - 8) {k : UInt32} (hk : k < c.mem.numUes) :
    k.toNat < (PtrArray.buf c).length ∧ k.toNat < (PtrArray.bufState c).length ∧
      k.toNat < (PtrArray.fromIds c).length := by
  have hnum := c.numUes_lt hn
  have hlt := UInt32.lt_iff_toNat_lt.1 hk
  have hptrs := (le_ptrLength_iff hnum).2 hfits
  have hids := le_idsLength hnum
  rw [length_bufState, length_buf, length_fromIds]
  exact ⟨by omega, by omega, by omega⟩

end ColorBufOf

/-! ## One step -/

section Keeps

variable {n : Nat} {me : Fin n} {useAtomic : Bool} {calls : RecvCall me → Prop}
variable {sends : Fin n → Prop} {s t : RecvState me} {k : UInt32}

theorem recvBufAt_eq (hk : k.toNat < n) (hne : k.toNat ≠ me.val) :
    recvBufAt me k = some (Arch.x86.slotPtr n k.toNat me) :=
  recv_slotPtr hk me.isLt hne

theorem toNat_ofNat_index {j : Nat} (hj : j < 2 ^ 31) : (UInt32.ofNat j).toNat = j :=
  Nat.mod_eq_of_lt (by omega)

/-- All reads are in bounds, and only slots of processes that send are marked. -/
structure Safe (sends : Fin n → Prop) (s : RecvState me) : Prop where
  reads : s.InBounds
  flag : ∀ i : Fin n, i ≠ me → s.flag (Arch.x86.slotPtr n i me) = ssmpBufMessg → sends i

namespace Safe

theorem goto (h : Safe sends s) (pc : RecvPc me) : Safe sends (s.goto pc) :=
  ⟨h.reads, h.flag⟩

theorem read (h : Safe sends s) {a : PtrArray me} (hk : k.toNat < a.length) :
    Safe sends (s.read a k) := by
  refine ⟨?_, h.flag⟩
  intro b l hl
  rcases List.mem_append.1 hl with hold | hnew
  · exact h.reads b l hold
  · cases List.mem_singleton.1 hnew
    exact hk

theorem readUnless (h : Safe sends s) {a : PtrArray me} (hk : k.toNat < a.length) :
    Safe sends (s.readUnless useAtomic a k) := by
  cases useAtomic with
  | true => exact h
  | false => exact h.read hk

/-- A store of the process that receives marks nothing. -/
theorem setFlag (h : Safe sends s) (p : Option MsgPtr) {v : UInt8} (hv : v ≠ ssmpBufMessg) :
    Safe sends (s.setFlag p v) := by
  cases p with
  | none => exact h
  | some p =>
      refine ⟨h.reads, ?_⟩
      intro i hi hflag
      by_cases hp : Arch.x86.slotPtr n i me = p
      · simp only [RecvState.setFlag, hp, Function.update_self] at hflag
        exact absurd hflag hv
      · simp only [RecvState.setFlag, Function.update_of_ne hp] at hflag
        exact h.flag i hi hflag

theorem lock (h : Safe sends s) (p : Option MsgPtr) : Safe sends (s.lock useAtomic p) := by
  unfold RecvState.lock
  split
  · exact h.setFlag p (by decide)
  · exact h

/-- A process that sends stores to its own slot. -/
theorem store (h : Safe sends s) {i : Fin n} (hi : i ≠ me) (hsends : sends i) (v : UInt8) :
    Safe sends (s.setFlag (some (Arch.x86.slotPtr n i me)) v) := by
  refine ⟨h.reads, ?_⟩
  intro j hj hflag
  by_cases hp : Arch.x86.slotPtr n j me = Arch.x86.slotPtr n i me
  · have hval := (slotPtr_inj j.isLt i.isLt (Fin.val_ne_of_ne hj) (Fin.val_ne_of_ne hi) hp).1
    rwa [Fin.ext hval]
  · simp only [RecvState.setFlag, Function.update_of_ne hp] at hflag
    exact h.flag j hj hflag

/-- Whose slot is marked has sent. -/
theorem sends_of_marked (h : Safe sends s) {i : Fin n} (hi : i ≠ me) {p : Option MsgPtr}
    (hp : p = some (Arch.x86.slotPtr n i me)) (hmarked : s.Marked p) : sends i := by
  subst hp
  exact h.flag i hi (Option.some.inj hmarked)

end Safe

@[simp] theorem goto_startRecvFrom (pc : RecvPc me) :
    (s.goto pc).startRecvFrom = s.startRecvFrom := rfl

@[simp] theorem read_startRecvFrom (a : PtrArray me) (k : UInt32) :
    (s.read a k).startRecvFrom = s.startRecvFrom := rfl

@[simp] theorem readUnless_startRecvFrom (a : PtrArray me) (k : UInt32) :
    (s.readUnless useAtomic a k).startRecvFrom = s.startRecvFrom := rfl

@[simp] theorem setFlag_startRecvFrom (p : Option MsgPtr) (v : UInt8) :
    (s.setFlag p v).startRecvFrom = s.startRecvFrom := by
  cases p <;> rfl

@[simp] theorem lock_startRecvFrom (p : Option MsgPtr) :
    (s.lock useAtomic p).startRecvFrom = s.startRecvFrom := by
  unfold RecvState.lock
  split
  · exact setFlag_startRecvFrom p _
  · rfl

/-- What is known where the process is, so that its next reads are in bounds. -/
def RecvPc.Ahead (calls : RecvCall me → Prop) (pos : UInt32) : RecvPc me → Prop
  | idle => True
  | recv _ => calls .recv
  | recvTake k | recvAhead k => k.toNat + 1 < n
  | color c _ => calls (.recvColor c)
  | colorTake c k =>
      calls (.recvColor c) ∧ k < c.mem.numUes ∧ k.toNat + 1 < (PtrArray.buf c).length
  | colorAhead c k sender => k.toNat + 1 < (PtrArray.buf c).length ∧ sender.toNat < n
  | start c => calls (.recvColorStart c)
  | startTake c => calls (.recvColorStart c) ∧ pos < c.mem.numUes
  | startAhead c sender =>
      calls (.recvColorStart c) ∧ pos < c.mem.numUes ∧ sender.toNat < n

structure KeepsInBounds (calls : RecvCall me → Prop) (sends : Fin n → Prop) (s : RecvState me) :
    Prop where
  safe : Safe sends s
  ahead : s.pc.Ahead calls s.startRecvFrom

/-- The index of the element behind a position. -/
theorem toNat_succ (hk : k.toNat < 2 ^ 31) : (k + 1).toNat = k.toNat + 1 := by
  rw [UInt32.toNat_add, UInt32.toNat_one]
  omega

/-- A message found by `ssmp_recv` is not the one from the last process. -/
theorem succ_lt_of_marked (hsafe : Safe sends s) (hfits : (RecvCall.recv : RecvCall me).Fits sends)
    (hk : k.toNat < n) (hne : k.toNat ≠ me.val) (hmarked : s.Marked (recvBufAt me k)) :
    k.toNat + 1 < n := by
  have hi : (⟨k.toNat, hk⟩ : Fin n) ≠ me := fun h => hne (congrArg Fin.val h)
  have hsends : sends ⟨k.toNat, hk⟩ := hsafe.sends_of_marked hi (recvBufAt_eq hk hne) hmarked
  by_contra hlast
  exact hfits ⟨k.toNat, hk⟩ (by simp only; omega) hi hsends

/-- A message found by `ssmp_recv_color` has an element behind it. -/
theorem succ_lt_of_markedColor (hn : n < 2 ^ 31) {c : ColorBufOf me} (hsafe : Safe sends s)
    (hfits : (RecvCall.recvColor c).Fits sends) (hk : k < c.mem.numUes)
    (hmarked : s.Marked (c.stateAt k)) : k.toNat + 1 < (PtrArray.buf c).length := by
  rcases hfits with ⟨hroom, hlast⟩
  rcases c.exists_entry hn hk with ⟨i, hi, hbuf, hstate, _⟩
  have hsends : sends i := hsafe.sends_of_marked hi hstate hmarked
  have hlt := UInt32.lt_iff_toNat_lt.1 hk
  have hle := (le_ptrLength_iff (c.numUes_lt hn)).2 hroom
  rw [c.length_buf]
  by_contra hge
  -- the message is the last one, and there is no padding
  have heq : k.toNat = c.mem.numUes.toNat - 1 := by omega
  have hdvd : 8 ∣ c.mem.numUes.toNat := by
    by_contra hpad
    have := (lt_ptrLength_iff hroom).2 hpad
    omega
  exact hlast hdvd i (heq ▸ hbuf) hi hsends

/-- `if (++start_recv_from == num_ues) start_recv_from = 0;` leaves a position. -/
theorem wrap_lt {num : UInt32} (hk : k < num) : (if k + 1 = num then 0 else k + 1) < num := by
  have hlt := UInt32.lt_iff_toNat_lt.1 hk
  have hnum := num.toNat_lt
  rw [UInt32.lt_iff_toNat_lt]
  split
  case isTrue => exact Nat.zero_lt_of_lt hlt
  case isFalse hne =>
    have hne' : (k + 1).toNat ≠ num.toNat := fun h => hne (UInt32.toNat_inj.1 h)
    rw [UInt32.toNat_add, UInt32.toNat_one] at hne' ⊢
    omega

theorem keepsInBounds_of_init (h : s.Init) : KeepsInBounds calls sends s where
  safe := by
    constructor
    · intro a k hk
      rw [h.reads] at hk
      cases hk
    · intro i _ hflag
      rw [h.flag] at hflag
      exact absurd hflag (by decide)
  ahead := by
    rw [h.pc]
    trivial

namespace KeepsInBounds

/-- A turn of the loop of `ssmp_recv`. -/
theorem recv (hn : n < 2 ^ 31) (hfits : ∀ c, calls c → c.Fits sends)
    (h : KeepsInBounds calls sends s) (hpc : s.pc = .recv k) :
    KeepsInBounds calls sends (s.step useAtomic) := by
  have hcall : calls .recv := by
    have hahead := h.ahead
    rwa [hpc] at hahead
  simp only [RecvState.step, hpc]
  split
  case isTrue hlt =>
    have hk : k.toNat < n := toNat_ofNat_index hn ▸ UInt32.lt_iff_toNat_lt.1 hlt
    have hread : Safe sends (s.read .recvBuf k) := h.safe.read hk
    split
    case isTrue hme => exact ⟨hread.goto _, hcall⟩
    case isFalse hme =>
      have hne : k.toNat ≠ me.val := by
        intro heq
        refine hme (UInt32.toNat_inj.1 (heq.trans ?_))
        exact (toNat_ofNat_index (by omega)).symm
      have hread' : Safe sends ((s.read .recvBuf k).read .recvBuf k) := hread.read hk
      split
      case isTrue hmarked =>
        exact ⟨(hread'.lock _).goto _, succ_lt_of_marked hread' (hfits _ hcall) hk hne hmarked⟩
      case isFalse => exact ⟨hread'.goto _, hcall⟩
  case isFalse => exact ⟨h.safe.goto _, hcall⟩

/-- A turn of the loop of `ssmp_recv_color`. -/
theorem color (hn : n < 2 ^ 31) (hfits : ∀ c, calls c → c.Fits sends)
    (h : KeepsInBounds calls sends s) {c : ColorBufOf me} (hpc : s.pc = .color c k) :
    KeepsInBounds calls sends (s.step useAtomic) := by
  have hcall : calls (.recvColor c) := by
    have hahead := h.ahead
    rwa [hpc] at hahead
  simp only [RecvState.step, hpc]
  split
  case isTrue hk =>
    have hfit := hfits _ hcall
    rcases c.lt_length hn hfit.1 hk with ⟨hbuf, hstate, _⟩
    have hread : Safe sends ((s.read (.buf c) k).read (.bufState c) k) :=
      (h.safe.read hbuf).read hstate
    split
    case isTrue hmarked =>
      exact ⟨(hread.lock _).goto _, hcall, hk, succ_lt_of_markedColor hn hread hfit hk hmarked⟩
    case isFalse => exact ⟨hread.goto _, hcall⟩
  case isFalse => exact ⟨h.safe.goto _, hcall⟩

/-- A turn of the loop of `ssmp_recv_color_start`. -/
theorem start (hn : n < 2 ^ 31) (hfits : ∀ c, calls c → c.Fits sends)
    (h : KeepsInBounds calls sends s) {c : ColorBufOf me} (hpc : s.pc = .start c) :
    KeepsInBounds calls sends (s.step useAtomic) := by
  have hcall : calls (.recvColorStart c) := by
    have hahead := h.ahead
    rwa [hpc] at hahead
  simp only [RecvState.step, hpc]
  split
  case isTrue hk =>
    rcases c.lt_length hn (hfits _ hcall) hk with ⟨hbuf, hstate, _⟩
    have hread : Safe sends ((s.readUnless useAtomic (.buf c) s.startRecvFrom).read
        (.bufState c) s.startRecvFrom) := (h.safe.readUnless hbuf).read hstate
    split
    case isTrue =>
      refine ⟨(hread.lock _).goto _, hcall, ?_⟩
      simpa using hk
    case isFalse =>
      refine ⟨⟨hread.reads, hread.flag⟩, ?_⟩
      change s.pc.Ahead calls _
      rw [hpc]
      exact hcall
  case isFalse => exact ⟨⟨h.safe.reads, h.safe.flag⟩, hcall⟩

theorem step (hn : n < 2 ^ 31) (hfits : ∀ c, calls c → c.Fits sends)
    (h : KeepsInBounds calls sends s) : KeepsInBounds calls sends (s.step useAtomic) := by
  have hsafe := h.safe
  have hahead := h.ahead
  cases hpc : s.pc with
  | idle =>
      simp only [RecvState.step, hpc]
      exact h
  | recv k => exact h.recv hn hfits hpc
  | recvTake k =>
      rw [hpc] at hahead
      simp only [RecvState.step, hpc]
      have hk : k.toNat < n := Nat.lt_of_succ_lt hahead
      exact ⟨((hsafe.read (a := .recvBuf) hk).setFlag _ (by decide)).goto _, hahead⟩
  | recvAhead k =>
      rw [hpc] at hahead
      simp only [RecvState.step, hpc]
      have hsucc : (k + 1).toNat < n := by
        have hlt : k.toNat + 1 < n := hahead
        rw [toNat_succ (by omega)]
        exact hlt
      exact ⟨(hsafe.read (a := .recvBuf) hsucc).goto _, trivial⟩
  | color c k => exact h.color hn hfits hpc
  | colorTake c k =>
      rw [hpc] at hahead
      simp only [RecvState.step, hpc]
      rcases hahead with ⟨hcall, hk, hsucc⟩
      rcases c.lt_length hn (hfits _ hcall).1 hk with ⟨hbuf, _, hids⟩
      rcases c.exists_entry hn hk with ⟨i, _, _, _, hsender⟩
      exact ⟨(((hsafe.read hbuf).read hids).setFlag _ (by decide)).goto _, hsucc, hsender⟩
  | colorAhead c k sender =>
      rw [hpc] at hahead
      simp only [RecvState.step, hpc]
      rcases hahead with ⟨hsucc, hsender⟩
      have hbehind : (k + 1).toNat < (PtrArray.buf c).length := by
        have hsize := (paddedSize .x86 8 c.mem.numUes).toNat_lt
        have hlength := c.length_buf
        rw [toNat_succ (by omega)]
        exact hsucc
      exact ⟨((hsafe.read (a := .sendBuf) hsender).read hbehind).goto _, trivial⟩
  | start c => exact h.start hn hfits hpc
  | startTake c =>
      rw [hpc] at hahead
      simp only [RecvState.step, hpc]
      rcases hahead with ⟨hcall, hk⟩
      rcases c.lt_length hn (hfits _ hcall) hk with ⟨hbuf, _, hids⟩
      rcases c.exists_entry hn hk with ⟨i, _, _, _, hsender⟩
      have hread := ((hsafe.read hbuf).read hids).setFlag (c.mem.buf s.startRecvFrom.toNat)
        (v := ssmpBufEmpty) (by decide)
      exact ⟨⟨hread.reads, hread.flag⟩, hcall, wrap_lt hk, hsender⟩
  | startAhead c sender =>
      rw [hpc] at hahead
      simp only [RecvState.step, hpc]
      rcases hahead with ⟨hcall, hk, hsender⟩
      rcases c.lt_length hn (hfits _ hcall) hk with ⟨hbuf, _, _⟩
      exact ⟨((hsafe.read (a := .sendBuf) hsender).read hbuf).goto _, trivial⟩

theorem call (h : KeepsInBounds calls sends s) {c : RecvCall me} (hc : calls c) :
    KeepsInBounds calls sends (s.goto c.entry) := by
  refine ⟨h.safe.goto _, ?_⟩
  cases c with
  | recv => exact hc
  | recvColor c => exact hc
  | recvColorStart c => exact hc

end KeepsInBounds

/-- When the calls fit, everything that is ever read is in bounds. -/
theorem keepsInBounds_of_reachable (hn : n < 2 ^ 31) (hfits : ∀ c, calls c → c.Fits sends)
    (h : (recvSystem useAtomic calls sends).Reachable s) : KeepsInBounds calls sends s := by
  refine h.invariant (fun _ => keepsInBounds_of_init) ?_
  rintro s l t hs hst
  cases hst with
  | call hidle hc => exact hs.call hc
  | run => exact hs.step hn hfits
  | store v hne hsends => exact ⟨hs.safe.store hne hsends v, hs.ahead⟩

end Keeps

end Opteron
end Ssmp
