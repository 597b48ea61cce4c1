import Ssmp.Process

/-!
# Memory — where the slots lie

`ssmp_mem_init_platf` of the two architectures (`src/arch/x86/ssmp_arch.c` and
`src/arch/sparc/ssmp_arch.c`) fills `ssmp_recv_buf` and `ssmp_send_buf` of a process with pointers
into shared files.  The two ends of a channel compute their pointers by different formulas; this
module shows that they agree and that different pairs use different memory, so that the `slot` of
`Ssmp.Process` is one place for each ordered pair.

Indices are exact naturals.  The products `id * num_ues` are of type `int` in the source, which is
exact as long as the matrix has at most `2 ^ 31` messages (`sparc_index_exact`).
-/

namespace Ssmp

/-! ## Bytes, messages and pointers -/

/-- `tmp + index`, where `tmp` is where the shared file `file` is mapped. -/
structure MsgPtr where
  file : Nat
  index : Nat
  deriving DecidableEq

/-- The bytes of the shared files. -/
abbrev Memory : Type := Nat → Nat → UInt8

/-- `sizeof(ssmp_msg_t)`: the type is aligned to a line and fits into one. -/
def sizeofMsg : Nat := ssmpCacheLineSize

namespace MsgPtr

/-- The byte at `off` of the file `f` belongs to the message. -/
def Covers (p : MsgPtr) (f off : Nat) : Prop :=
  f = p.file ∧ p.index * sizeofMsg ≤ off ∧ off < p.index * sizeofMsg + sizeofMsg

instance (p : MsgPtr) (f off : Nat) : Decidable (p.Covers f off) :=
  inferInstanceAs (Decidable (_ ∧ _))

def read (p : MsgPtr) (m : Memory) : Line :=
  fun b => m p.file (p.index * sizeofMsg + b.val)

def write (p : MsgPtr) (l : Line) (m : Memory) : Memory :=
  fun f off =>
    if h : p.Covers f off then
      l ⟨off - p.index * sizeofMsg, by
        have hlt := h.2.2
        have hle := h.2.1
        change _ < sizeofMsg
        omega⟩
    else m f off

variable {p q : MsgPtr}

theorem read_write (p : MsgPtr) (l : Line) (m : Memory) : p.read (p.write l m) = l := by
  funext b
  have hcov : p.Covers p.file (p.index * sizeofMsg + b.val) := by
    have hb : b.val < sizeofMsg := b.isLt
    exact ⟨rfl, by omega, by omega⟩
  simp [read, write, hcov]

/-- Different messages have no byte in common. -/
theorem not_covers_of_ne (h : q ≠ p) (b : Fin ssmpCacheLineSize) :
    ¬ p.Covers q.file (q.index * sizeofMsg + b.val) := by
  rintro ⟨hfile, hle, hlt⟩
  have hb : b.val < sizeofMsg := b.isLt
  -- two runs of 64 bytes at multiples of 64 that meet are the same
  have hindex : q.index = p.index := by
    simp only [sizeofMsg, ssmpCacheLineSize] at hle hlt hb
    omega
  apply h
  cases p
  cases q
  simp_all

/-- Writing a message leaves every other message as it is. -/
theorem read_write_of_ne (h : q ≠ p) (l : Line) (m : Memory) :
    q.read (p.write l m) = q.read m := by
  funext b
  simp [read, write, not_covers_of_ne h b]

end MsgPtr

/-! ## `ssmp_mem_init_platf` -/

/-- `ssmp_recv_buf` and `ssmp_send_buf` of one process; `none` is an entry that is not set. -/
structure Buffers where
  ssmpRecvBuf : Nat → Option MsgPtr
  ssmpSendBuf : Nat → Option MsgPtr

/-- `for (core = 0; core < num; core++) if (!skip core) buf[core] = ptr core;` -/
def fillBuf (skip : Nat → Bool) (ptr : Nat → MsgPtr) : Nat → Nat → Option MsgPtr
  | 0 => fun _ => none
  | core + 1 =>
      if skip core then fillBuf skip ptr core
      else Function.update (fillBuf skip ptr core) core (some (ptr core))

theorem fillBuf_eq {skip : Nat → Bool} {ptr : Nat → MsgPtr} {num core : Nat} (hlt : core < num)
    (hskip : skip core = false) : fillBuf skip ptr num core = some (ptr core) := by
  -- later iterations write other entries
  induction num with
  | zero => exact absurd hlt (Nat.not_lt_zero core)
  | succ k ih =>
      by_cases hk : core = k
      · subst hk
        simp [fillBuf, hskip]
      · have hprev := ih (by omega)
        cases hs : skip k with
        | true => simpa [fillBuf, hs] using hprev
        | false => simpa [fillBuf, hs, hk] using hprev

theorem fillBuf_skip {skip : Nat → Bool} {ptr : Nat → MsgPtr} {num core : Nat}
    (hskip : skip core = true) : fillBuf skip ptr num core = none := by
  induction num with
  | zero => rfl
  | succ k ih =>
      by_cases hk : core = k
      · subst hk
        simpa [fillBuf, hskip] using ih
      · cases hs : skip k with
        | true => simpa [fillBuf, hs] using ih
        | false => simpa [fillBuf, hs, hk] using ih

/-- An entry that is set has been set by its own iteration. -/
theorem fillBuf_some {skip : Nat → Bool} {ptr : Nat → MsgPtr} {num core : Nat} {p : MsgPtr}
    (h : fillBuf skip ptr num core = some p) :
    core < num ∧ skip core = false ∧ p = ptr core := by
  induction num with
  | zero => cases h
  | succ k ih =>
      cases hs : skip k with
      | true =>
          have hprev := ih (by simpa [fillBuf, hs] using h)
          exact ⟨by omega, hprev.2⟩
      | false =>
          by_cases hk : core = k
          · subst hk
            have hp : ptr core = p := by simpa [fillBuf, hs] using h
            exact ⟨by omega, hs, hp.symm⟩
          · have hprev := ih (by simpa [fillBuf, hs, hk] using h)
            exact ⟨by omega, hprev.2⟩

namespace X86

/-- Process `id` owns the file `/ssmp_core<id>`, of `num_ues - 1` messages, one for every sender. -/
def ssmpMemInitPlatf (id numUes : Nat) : Buffers :=
  if numUes = 1 then { ssmpRecvBuf := fun _ => none, ssmpSendBuf := fun _ => none }
  else
    { ssmpRecvBuf := fillBuf (fun core => id == core)
        (fun core => { file := id, index := if core > id then core - 1 else core }) numUes
      ssmpSendBuf := fillBuf (fun core => core == id)
        (fun core => { file := core, index := if core < id then id - 1 else id }) numUes }

end X86

namespace Sparc

/-- All messages lie in the matrix `ssmp_mem` of one file, a row for every receiver. -/
def ssmpMemInitPlatf (id numUes : Nat) : Buffers where
  ssmpRecvBuf := fillBuf (fun _ => false)
    (fun core => { file := 0, index := id * numUes + core }) numUes
  ssmpSendBuf := fillBuf (fun _ => false)
    (fun core => { file := 0, index := core * numUes + id }) numUes

end Sparc

inductive Arch where
  | x86
  | sparc
  deriving DecidableEq

def Arch.ssmpMemInitPlatf : Arch → Nat → Nat → Buffers
  | .x86 => X86.ssmpMemInitPlatf
  | .sparc => Sparc.ssmpMemInitPlatf

/-- The number of messages in a shared file. -/
def Arch.segmentMsgs : Arch → Nat → Nat
  | .x86, numUes => numUes - 1
  | .sparc, numUes => numUes * numUes

/-! ## The slot of a pair -/

/-- Where the slot from `i` to `j` lies. -/
def Arch.slotPtr : Arch → Nat → Nat → Nat → MsgPtr
  | .x86, _, i, j => { file := j, index := if i > j then i - 1 else i }
  | .sparc, n, i, j => { file := 0, index := j * n + i }

section Slots

variable {A : Arch} {n i j i' j' : Nat}

/-- The sender's formula. -/
theorem send_slotPtr (hi : i < n) (hj : j < n) (hij : i ≠ j) :
    (A.ssmpMemInitPlatf i n).ssmpSendBuf j = some (A.slotPtr n i j) := by
  cases A with
  | x86 =>
      have hn : n ≠ 1 := by omega
      have hfill : fillBuf (fun core => core == i)
          (fun core => { file := core, index := if core < i then i - 1 else i }) n j = some _ :=
        fillBuf_eq hj (by simpa using Ne.symm hij)
      simpa [Arch.ssmpMemInitPlatf, X86.ssmpMemInitPlatf, hn, Arch.slotPtr] using hfill
  | sparc => exact fillBuf_eq hj rfl

/-- The receiver's formula, with the comparison the other way around. -/
theorem recv_slotPtr (hi : i < n) (hj : j < n) (hij : i ≠ j) :
    (A.ssmpMemInitPlatf j n).ssmpRecvBuf i = some (A.slotPtr n i j) := by
  cases A with
  | x86 =>
      have hn : n ≠ 1 := by omega
      have hfill : fillBuf (fun core => j == core)
          (fun core => { file := j, index := if core > j then core - 1 else core }) n i = some _ :=
        fillBuf_eq hi (by simpa using Ne.symm hij)
      simpa [Arch.ssmpMemInitPlatf, X86.ssmpMemInitPlatf, hn, Arch.slotPtr] using hfill
  | sparc => exact fillBuf_eq hi rfl

/-- Slots lie inside their file. -/
theorem slotPtr_index_lt (hi : i < n) (hj : j < n) (hij : i ≠ j) :
    (A.slotPtr n i j).index < A.segmentMsgs n := by
  cases A with
  | x86 =>
      simp only [Arch.slotPtr, Arch.segmentMsgs]
      -- above its own id a receiver leaves out one slot, so the last index is `n - 2`
      split <;> omega
  | sparc =>
      calc
        j * n + i < j * n + n := Nat.add_lt_add_left hi (j * n)
        _ = (j + 1) * n := (Nat.succ_mul j n).symm
        _ ≤ n * n := Nat.mul_le_mul_right n hj

/-- A row and a column of a matrix with rows of `n` determine the index. -/
theorem matrix_index_inj (hi : i < n) (hi' : i' < n) (h : j * n + i = j' * n + i') :
    i = i' ∧ j = j' := by
  have hn : 0 < n := by omega
  -- column and row are remainder and quotient by `n`
  have hmod : (j * n + i) % n = (j' * n + i') % n := by rw [h]
  have hdiv : (j * n + i) / n = (j' * n + i') / n := by rw [h]
  rw [Nat.mul_comm j, Nat.mul_comm j', Nat.mul_add_mod, Nat.mul_add_mod, Nat.mod_eq_of_lt hi,
    Nat.mod_eq_of_lt hi'] at hmod
  rw [Nat.mul_comm j, Nat.mul_comm j', Nat.mul_add_div hn, Nat.mul_add_div hn,
    Nat.div_eq_of_lt hi, Nat.div_eq_of_lt hi'] at hdiv
  exact ⟨hmod, hdiv⟩

/-- Different pairs have different slots. -/
theorem slotPtr_inj (hi : i < n) (hi' : i' < n) (hij : i ≠ j) (hij' : i' ≠ j')
    (h : A.slotPtr n i j = A.slotPtr n i' j') : i = i' ∧ j = j' := by
  cases A with
  | x86 =>
      simp only [Arch.slotPtr, MsgPtr.mk.injEq] at h
      rcases h with ⟨hfile, hindex⟩
      subst hfile
      refine ⟨?_, rfl⟩
      -- on either side of the receiver the index determines the sender; the sides do not meet
      split at hindex <;> split at hindex <;> omega
  | sparc =>
      simp only [Arch.slotPtr, MsgPtr.mk.injEq, true_and] at h
      exact matrix_index_inj hi hi' h

/-- Up to `46341` processes the products of the source fit into an `int`. -/
theorem sparc_index_exact (hn : n ≤ 46341) (hj : j < n) : j * n < 2 ^ 31 := by
  calc
    j * n ≤ 46340 * 46341 := Nat.mul_le_mul (by omega) hn
    _ < 2 ^ 31 := by decide

end Slots

/-! ## The slots of the channels -/

/-- The line that process `i` reaches through `ssmp_send_buf[j]`. -/
def Arch.slotAt (A : Arch) (n : Nat) (m : Memory) (ij : Fin n × Fin n) : Line :=
  match (A.ssmpMemInitPlatf ij.1 n).ssmpSendBuf ij.2 with
  | some p => p.read m
  | none => fun _ => 0

/-- The two ends of a channel find the same slot, inside its file; and a write through it changes
the slot of that pair alone. -/
theorem mem_init_slots (A : Arch) {n : Nat} {i j : Fin n} (hij : i ≠ j) :
    ∃ p, (A.ssmpMemInitPlatf i n).ssmpSendBuf j = some p ∧
      (A.ssmpMemInitPlatf j n).ssmpRecvBuf i = some p ∧
      p.index < A.segmentMsgs n ∧
      (∀ i' j' : Fin n, i' ≠ j' → (i', j') ≠ (i, j) →
        (A.ssmpMemInitPlatf i' n).ssmpSendBuf j' ≠ some p ∧
          (A.ssmpMemInitPlatf j' n).ssmpRecvBuf i' ≠ some p) ∧
      ∀ l m kl, kl.1 ≠ kl.2 →
        A.slotAt n (p.write l m) kl = Function.update (A.slotAt n m) (i, j) l kl := by
  have hne : ∀ {i j : Fin n}, i ≠ j → i.val ≠ j.val := fun h hv => h (Fin.ext hv)
  have hother : ∀ i' j' : Fin n, i' ≠ j' → (i', j') ≠ (i, j) →
      A.slotPtr n i' j' ≠ A.slotPtr n i j := by
    intro i' j' hij' hpair heq
    rcases slotPtr_inj i'.isLt i.isLt (hne hij') (hne hij) heq with ⟨h1, h2⟩
    exact hpair (by rw [Fin.ext h1, Fin.ext h2])
  -- both formulas give `slotPtr`
  refine ⟨A.slotPtr n i j, send_slotPtr i.isLt j.isLt (hne hij),
    recv_slotPtr i.isLt j.isLt (hne hij), slotPtr_index_lt i.isLt j.isLt (hne hij), ?_, ?_⟩
  · intro i' j' hij' hpair
    rw [send_slotPtr i'.isLt j'.isLt (hne hij'), recv_slotPtr i'.isLt j'.isLt (hne hij')]
    have hptr := hother i' j' hij' hpair
    exact ⟨fun h => hptr (Option.some.inj h), fun h => hptr (Option.some.inj h)⟩
  · rintro l m ⟨k, k'⟩ hk
    have hsend := send_slotPtr (A := A) k.isLt k'.isLt (hne hk)
    by_cases hpair : (k, k') = (i, j)
    · cases hpair
      simp [Arch.slotAt, hsend, MsgPtr.read_write]
    · simp [Arch.slotAt, hsend, hpair, MsgPtr.read_write_of_ne (hother k k' hk hpair)]

/-- The pointers of process 0 to process 2 among three. -/
theorem mem_init_slots_three :
    (Arch.x86.ssmpMemInitPlatf 0 3).ssmpSendBuf 2 = (Arch.x86.ssmpMemInitPlatf 2 3).ssmpRecvBuf 0 ∧
      (Arch.sparc.ssmpMemInitPlatf 0 3).ssmpSendBuf 2 =
        (Arch.sparc.ssmpMemInitPlatf 2 3).ssmpRecvBuf 0 := by
  have hij : (0 : Fin 3) ≠ 2 := by decide
  constructor
  · rcases mem_init_slots .x86 hij with ⟨p, hsend, hrecv, _⟩
    exact hsend.trans hrecv.symm
  · rcases mem_init_slots .sparc hij with ⟨p, hsend, hrecv, _⟩
    exact hsend.trans hrecv.symm

end Ssmp
