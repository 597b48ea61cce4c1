import Ssmp.Startup.Segments

/-!
# Startup.Bounds — which objects lie inside their files

A run that creates its files has room for all its objects, as long as the sizes do not overflow.  A
run that finds files keeps their lengths, and the objects lie inside if and only if each file is long
enough (`in_bounds_iff`).
-/

namespace Ssmp
namespace Startup

open Lib

/-! ## The objects -/

/-- The file of a `MsgPtr`. -/
def fileName (T : Target) (file : Nat) : SegName :=
  match T.arch with
  | .x86 => .core file
  | .sparc => .mem

/-- The objects that the processes of a run of `n` processes address: file, offset and length. -/
inductive Addressed (T : Target) (n : Nat) : SegName → Nat → Nat → Prop where
  /-- `ssmp_barrier + bar` -/
  | barrier {bar : Nat} (hbar : bar < 16) :
      Addressed T n .mem ((sizes T n).sizem.toNat + bar * sizeofBarrier) sizeofBarrier
  /-- `ues_initialized + ue` -/
  | ues {ue : Nat} (hue : ue < n) :
      Addressed T n .mem
        ((sizes T n).sizem.toNat + (sizes T n).sizeb.toNat + ue * sizeofInt) sizeofInt
  /-- `ssmp_chunk_mem + core` -/
  | chunk {core : Nat} (hcore : core < n) :
      Addressed T n .mem
        ((sizes T n).sizem.toNat + (sizes T n).sizeb.toNat + (sizes T n).sizeui.toNat +
          core * T.sizeofChunk) T.sizeofChunk
  | recvBuf {id core : Nat} {p : MsgPtr} (hid : id < n)
      (hp : (T.arch.ssmpMemInitPlatf id n).ssmpRecvBuf core = some p) :
      Addressed T n (fileName T p.file) (p.index * sizeofMsg) sizeofMsg
  | sendBuf {id core : Nat} {p : MsgPtr} (hid : id < n)
      (hp : (T.arch.ssmpMemInitPlatf id n).ssmpSendBuf core = some p) :
      Addressed T n (fileName T p.file) (p.index * sizeofMsg) sizeofMsg

/-- Every object lies inside its file. -/
def Files.InBounds (T : Target) (s : Files) : Prop :=
  ∀ name off len, Addressed T s.numProcs name off len →
    ∃ L, s.seg name = some L ∧ off + len ≤ L

/-- The room for messages in `SSMP_MEM_NAME`. -/
def msgBytes (T : Target) (n : Nat) : Nat :=
  match T.arch with
  | .x86 => 0
  | .sparc => n * n * sizeofMsg

/-- The room that the objects of a run of `n` processes need in a file. -/
def need (T : Target) (n : Nat) : SegName → Nat
  | .mem =>
      msgBytes T n + 16 * sizeofBarrier + (n * sizeofInt + 63) / 64 * 64 + n * T.sizeofChunk
  | .core _ => (n - 1) * sizeofMsg

/-! ## `SSMP_INC_ALIGN` -/

/-- `while (v % SSMP_CACHE_LINE_SIZE) { v++; }` ends with `r`. -/
inductive IncAligns : UInt32 → UInt32 → Prop where
  | done {v : UInt32} (hzero : v % 64 = 0) : IncAligns v v
  | incr {v r : UInt32} (hne : v % 64 ≠ 0) (hnext : IncAligns (v + 1) r) : IncAligns v r

section IncAlign

variable {v : UInt32}

theorem mod_line_eq_zero : v % 64 = 0 ↔ v.toNat % 64 = 0 := by
  rw [← UInt32.toNat_inj, UInt32.toNat_mod]
  rfl

/-- The remainder of the next word. -/
theorem succ_mod_line : (v + 1).toNat % 64 = (v.toNat + 1) % 64 := by
  rw [UInt32.toNat_add, UInt32.toNat_one]
  exact Nat.mod_mod_of_dvd _ (by decide)

theorem incAligns_loop (k : Nat) (hk : (64 - v.toNat % 64) % 64 ≤ k) :
    IncAligns v (ssmpIncAlign.loop k v) := by
  -- by induction on the iterations left
  induction k generalizing v with
  | zero => exact IncAligns.done (mod_line_eq_zero.2 (by omega))
  | succ k ih =>
      rw [ssmpIncAlign.loop]
      split
      case isTrue hzero => exact IncAligns.done hzero
      case isFalse hne =>
        have hpos : v.toNat % 64 ≠ 0 := fun h => hne (mod_line_eq_zero.2 h)
        have hsucc := @succ_mod_line v
        exact IncAligns.incr hne (ih (by omega))

/-- The loop ends for every word. -/
theorem incAligns_ssmpIncAlign (v : UInt32) : IncAligns v (ssmpIncAlign v) :=
  incAligns_loop 63 (by omega)

/-- Without overflow it ends at the next multiple of 64. -/
theorem IncAligns.toNat {r : UInt32} (h : IncAligns v r) (hlt : (v.toNat + 63) / 64 * 64 < 2 ^ 32) :
    r.toNat = (v.toNat + 63) / 64 * 64 := by
  induction h with
  | done hzero =>
      have hmod := mod_line_eq_zero.1 hzero
      omega
  | @incr v r hne hnext ih =>
      have hpos : v.toNat % 64 ≠ 0 := fun h => hne (mod_line_eq_zero.2 h)
      have hsucc : (v + 1).toNat = v.toNat + 1 := by
        rw [UInt32.toNat_add, UInt32.toNat_one]
        exact Nat.mod_eq_of_lt (by omega)
      -- one more leads to the same multiple
      have hsame : (v.toNat + 1 + 63) / 64 * 64 = (v.toNat + 63) / 64 * 64 := by omega
      rw [hsucc, hsame] at ih
      exact ih hlt

theorem incAlign_toNat (x : Nat) (hx : (x + 63) / 64 * 64 < 2 ^ 32) :
    (ssmpIncAlign (UInt32.ofNat x)).toNat = (x + 63) / 64 * 64 := by
  have hx' : (UInt32.ofNat x).toNat = x := by
    simp only [UInt32.toNat_ofNat']
    exact Nat.mod_eq_of_lt (by omega)
  rw [(incAligns_ssmpIncAlign (UInt32.ofNat x)).toNat (by rwa [hx']), hx']

end IncAlign

/-! ## The sizes -/

section Sizes

variable {T : Target} {n : Nat}

theorem sizeb_toNat : (sizes T n).sizeb.toNat = 16 * sizeofBarrier :=
  incAlign_toNat (16 * sizeofBarrier) (by decide)

theorem sizeui_toNat (hn : n * sizeofInt + 63 < 2 ^ 32) :
    (sizes T n).sizeui.toNat = (n * sizeofInt + 63) / 64 * 64 :=
  incAlign_toNat _ (by omega)

theorem sizem_toNat (hn : msgBytes T n < 2 ^ 32) : (sizes T n).sizem.toNat = msgBytes T n := by
  cases T <;> simp only [sizes, msgBytes, Target.arch] at hn ⊢
  · rfl
  · simp only [UInt32.toNat_ofNat']
    exact Nat.mod_eq_of_lt hn
  · simp only [UInt32.toNat_ofNat']
    exact Nat.mod_eq_of_lt hn

theorem sizeofChunk_eq (T : Target) : T.sizeofChunk = 8192 ∨ T.sizeofChunk = 1024 := by
  cases T with
  | x86 => exact Or.inl rfl
  | sparcV9 => exact Or.inl rfl
  | sparcV8 => exact Or.inr rfl

/-- The chunks need no alignment. -/
theorem sizecnk_toNat (hn : n * T.sizeofChunk < 2 ^ 32) :
    (sizes T n).sizecnk.toNat = n * T.sizeofChunk := by
  have hround : (n * T.sizeofChunk + 63) / 64 * 64 = n * T.sizeofChunk := by
    rcases sizeofChunk_eq T with h | h <;> rw [h] <;> omega
  exact (incAlign_toNat _ (by omega)).trans hround

/-- Without overflow, the file gets the length that is needed. -/
theorem newSize_toNat {name : SegName} (h : need T n name < 2 ^ 32) :
    (newSize T n name).toNat = need T n name := by
  cases name with
  | core id =>
      simp only [newSize, coreSize, UInt32.toNat_ofNat']
      exact Nat.mod_eq_of_lt h
  | mem =>
      simp only [need] at h
      have hints : n * sizeofInt + 63 < 2 ^ 32 := by
        simp only [sizeofInt] at h ⊢
        omega
      have hm := sizem_toNat (T := T) (n := n) (by omega)
      have hb := sizeb_toNat (T := T) (n := n)
      have hu := sizeui_toNat (T := T) hints
      have hc := sizecnk_toNat (T := T) (n := n) (by omega)
      simp only [newSize, Sizes.size, need, UInt32.toNat_add, hm, hb, hu, hc]
      omega

end Sizes

/-! ## Objects and room -/

section Objects

variable {T : Target} {n L : Nat} {name : SegName}

theorem recvBuf_index {A : Arch} {id core : Nat} {p : MsgPtr}
    (hp : (A.ssmpMemInitPlatf id n).ssmpRecvBuf core = some p) :
    core < n ∧ (A = .x86 → n ≠ 1 ∧ core ≠ id) ∧ p = A.slotPtr n core id := by
  cases A with
  | x86 =>
      by_cases hn : n = 1
      · simp [Arch.ssmpMemInitPlatf, Ssmp.X86.ssmpMemInitPlatf, hn] at hp
      · simp only [Arch.ssmpMemInitPlatf, Ssmp.X86.ssmpMemInitPlatf, hn, if_false] at hp
        rcases fillBuf_some hp with ⟨hcore, hskip, rfl⟩
        have hne : id ≠ core := by simpa using hskip
        exact ⟨hcore, fun _ => ⟨hn, Ne.symm hne⟩, rfl⟩
  | sparc =>
      rcases fillBuf_some hp with ⟨hcore, _, rfl⟩
      exact ⟨hcore, by simp, rfl⟩

theorem sendBuf_index {A : Arch} {id core : Nat} {p : MsgPtr}
    (hp : (A.ssmpMemInitPlatf id n).ssmpSendBuf core = some p) :
    core < n ∧ (A = .x86 → n ≠ 1 ∧ id ≠ core) ∧ p = A.slotPtr n id core := by
  cases A with
  | x86 =>
      by_cases hn : n = 1
      · simp [Arch.ssmpMemInitPlatf, Ssmp.X86.ssmpMemInitPlatf, hn] at hp
      · simp only [Arch.ssmpMemInitPlatf, Ssmp.X86.ssmpMemInitPlatf, hn, if_false] at hp
        rcases fillBuf_some hp with ⟨hcore, hskip, rfl⟩
        have hne : core ≠ id := by simpa using hskip
        exact ⟨hcore, fun _ => ⟨hn, Ne.symm hne⟩, rfl⟩
  | sparc =>
      rcases fillBuf_some hp with ⟨hcore, _, rfl⟩
      exact ⟨hcore, by simp, rfl⟩

/-- A slot from `i` to `j` lies in a file of the run, in the room for messages. -/
theorem slot_fits {i j : Nat} (hi : i < n) (hj : j < n)
    (hx86 : T.arch = .x86 → n ≠ 1 ∧ i ≠ j) :
    Used T n (fileName T (T.arch.slotPtr n i j).file) ∧
      (T.arch.slotPtr n i j).index * sizeofMsg + sizeofMsg ≤
        match fileName T (T.arch.slotPtr n i j).file with
        | .mem => msgBytes T n
        | .core _ => (n - 1) * sizeofMsg := by
  cases hT : T.arch with
  | x86 =>
      rcases hx86 hT with ⟨hn, hij⟩
      have hlt := slotPtr_index_lt (A := .x86) hi hj hij
      simp only [Arch.segmentMsgs] at hlt
      simp only [fileName, hT, Used, Arch.slotPtr]
      refine ⟨⟨trivial, hn, hj⟩, ?_⟩
      rw [← Nat.succ_mul]
      exact Nat.mul_le_mul_right sizeofMsg hlt
  | sparc =>
      have hlt : j * n + i < n * n := by
        calc
          j * n + i < j * n + n := Nat.add_lt_add_left hi (j * n)
          _ = (j + 1) * n := (Nat.succ_mul j n).symm
          _ ≤ n * n := Nat.mul_le_mul_right n hj
      simp only [fileName, hT, Used, Arch.slotPtr, msgBytes, true_and]
      rw [← Nat.succ_mul]
      exact Nat.mul_le_mul_right sizeofMsg hlt

theorem Addressed.used {off len : Nat} (h : Addressed T n name off len) : Used T n name := by
  cases h with
  | barrier => trivial
  | ues => trivial
  | chunk => trivial
  | recvBuf hid hp =>
      rcases recvBuf_index hp with ⟨hcore, hx86, rfl⟩
      exact (slot_fits hcore hid hx86).1
  | sendBuf hid hp =>
      rcases sendBuf_index hp with ⟨hcore, hx86, rfl⟩
      exact (slot_fits hid hcore hx86).1

/-- The room for messages is part of what a file needs. -/
theorem slot_le_need {i j : Nat} (hi : i < n) (hj : j < n)
    (hx86 : T.arch = .x86 → n ≠ 1 ∧ i ≠ j) :
    (T.arch.slotPtr n i j).index * sizeofMsg + sizeofMsg ≤
      need T n (fileName T (T.arch.slotPtr n i j).file) := by
  have hfits := (slot_fits (T := T) hi hj hx86).2
  cases hname : fileName T (T.arch.slotPtr n i j).file with
  | mem =>
      rw [hname] at hfits
      simp only [need]
      simp only at hfits
      omega
  | core id =>
      rw [hname] at hfits
      exact hfits

/-- Where nothing overflows, every object lies in the room that is needed. -/
theorem Addressed.le_need {off len : Nat} (h : Addressed T n name off len)
    (hneed : need T n name < 2 ^ 32) : off + len ≤ need T n name := by
  have hsizes : name = .mem → n * sizeofInt + 63 < 2 ^ 32 ∧ msgBytes T n < 2 ^ 32 := by
    rintro rfl
    simp only [need, sizeofInt] at hneed ⊢
    omega
  cases h with
  | @barrier bar hbar =>
      rw [sizem_toNat (hsizes rfl).2]
      simp only [need, sizeofBarrier]
      omega
  | @ues ue hue =>
      rw [sizem_toNat (hsizes rfl).2, sizeb_toNat]
      simp only [need, sizeofInt]
      omega
  | @chunk core hcore =>
      have hend : core * T.sizeofChunk + T.sizeofChunk ≤ n * T.sizeofChunk := by
        rw [← Nat.succ_mul]
        exact Nat.mul_le_mul_right _ hcore
      rw [sizem_toNat (hsizes rfl).2, sizeb_toNat, sizeui_toNat (hsizes rfl).1]
      simp only [need]
      omega
  | recvBuf hid hp =>
      rcases recvBuf_index hp with ⟨hcore, hx86, rfl⟩
      exact slot_le_need hcore hid hx86
  | sendBuf hid hp =>
      rcases sendBuf_index hp with ⟨hcore, hx86, rfl⟩
      exact slot_le_need hid hcore hx86

/-- The last slot of a file of its own. -/
theorem need_core_le {id : Nat} (hused : Used T n (.core id))
    (h : ∀ off len, Addressed T n (.core id) off len → off + len ≤ L) :
    need T n (.core id) ≤ L := by
  rcases hused with ⟨hx86, hn, hid⟩
  -- the last sender but the owner itself
  have hlast : ∃ i, i < n ∧ i ≠ id ∧ (Arch.slotPtr .x86 n i id).index = n - 2 := by
    by_cases hend : id = n - 1
    · refine ⟨n - 2, by omega, by omega, ?_⟩
      have hle : ¬ n - 2 > id := by omega
      simp [Arch.slotPtr, hle]
    · refine ⟨n - 1, by omega, Ne.symm hend, ?_⟩
      have hgt : n - 1 > id := by omega
      simp only [Arch.slotPtr, hgt, if_true]
      omega
  rcases hlast with ⟨i, hi, hne, hindex⟩
  have hp : (T.arch.ssmpMemInitPlatf id n).ssmpRecvBuf i = some (Arch.slotPtr .x86 n i id) := by
    rw [hx86]
    exact recv_slotPtr hi hid hne
  have haddr := Addressed.recvBuf hid hp
  have hname : fileName T (Arch.slotPtr .x86 n i id).file = .core id := by
    simp [fileName, hx86, Arch.slotPtr]
  rw [hname, hindex] at haddr
  have hle := h _ _ haddr
  simp only [need, sizeofMsg, ssmpCacheLineSize] at hle ⊢
  omega

/-- The last slot and the last chunk of `SSMP_MEM_NAME`. -/
theorem need_mem_le (hpos : 0 < n) (hL : L < 2 ^ 32)
    (h : ∀ off len, Addressed T n .mem off len → off + len ≤ L) : need T n .mem ≤ L := by
  have hmsgs : msgBytes T n ≤ L := by
    cases hT : T.arch with
    | x86 => simp [msgBytes, hT]
    | sparc =>
        have hp : (T.arch.ssmpMemInitPlatf (n - 1) n).ssmpRecvBuf (n - 1) =
            some { file := 0, index := (n - 1) * n + (n - 1) } := by
          rw [hT]
          exact fillBuf_eq (by omega) rfl
        have haddr := Addressed.recvBuf (by omega) hp
        simp only [fileName, hT] at haddr
        have hle := h _ _ haddr
        have hindex : (n - 1) * n + (n - 1) + 1 = n * n := by
          rw [Nat.add_assoc, Nat.sub_add_cancel hpos, ← Nat.succ_mul, Nat.succ_eq_add_one,
            Nat.sub_add_cancel hpos]
        rw [← Nat.succ_mul, Nat.succ_eq_add_one, hindex] at hle
        simpa [msgBytes, hT] using hle
  have hchunk := h _ _ (Addressed.chunk (T := T) (show n - 1 < n by omega))
  have hchunks : (n - 1) * T.sizeofChunk + T.sizeofChunk = n * T.sizeofChunk := by
    rw [← Nat.succ_mul, Nat.succ_eq_add_one, Nat.sub_add_cancel hpos]
  -- the chunks alone bound the number of processes
  have hints : n * sizeofInt + 63 < 2 ^ 32 := by
    rcases sizeofChunk_eq T with hsize | hsize <;> rw [hsize] at hchunk hchunks <;>
      simp only [sizeofInt] <;> omega
  rw [sizem_toNat (by omega), sizeb_toNat, sizeui_toNat hints] at hchunk
  simp only [need]
  omega

/-- The objects of a file lie below `L` if and only if what they need does. -/
theorem fits_iff (hpos : 0 < n) (hused : Used T n name) (hL : L < 2 ^ 32) :
    (∀ off len, Addressed T n name off len → off + len ≤ L) ↔ need T n name ≤ L := by
  constructor
  · intro h
    cases name with
    | mem => exact need_mem_le hpos hL h
    | core id => exact need_core_le hused h
  · intro hneed off len haddr
    exact (haddr.le_need (Nat.lt_of_le_of_lt hneed hL)).trans hneed

end Objects

/-- After start-up every object lies inside its file if and only if the run has found each of its
files long enough or not at all, and the sizes of those it has created did not overflow. -/
theorem in_bounds_iff {T : Target} {s : Files} (h : (histories T).Reachable s)
    (hstarted : s.Started) :
    s.InBounds T ↔
      ∀ name, Used T s.numProcs name →
        match s.found name with
        | some L => need T s.numProcs name ≤ L
        | none => need T s.numProcs name < 2 ^ 32 := by
  -- file by file: its length decides
  have heach : ∀ name, Used T s.numProcs name →
      ((∀ off len, Addressed T s.numProcs name off len →
          ∃ L, s.seg name = some L ∧ off + len ≤ L) ↔
        match s.found name with
        | some L => need T s.numProcs name ≤ L
        | none => need T s.numProcs name < 2 ^ 32) := by
    intro name hused
    rcases started_length h hstarted hused with ⟨L, hseg, hL, hlength⟩
    have hfits := fits_iff hstarted.some_run hused hL
    have hsome : (∀ off len, Addressed T s.numProcs name off len →
        ∃ L, s.seg name = some L ∧ off + len ≤ L) ↔
          ∀ off len, Addressed T s.numProcs name off len → off + len ≤ L := by
      simp [hseg]
    rw [hsome, hfits]
    cases hfound : s.found name with
    | some L' =>
        rw [hfound] at hlength
        simp only [Option.getD_some] at hlength
        rw [hlength]
    | none =>
        rw [hfound] at hlength
        simp only [Option.getD_none] at hlength
        constructor
        · intro hle
          exact Nat.lt_of_le_of_lt hle hL
        · intro hlt
          rw [hlength, newSize_toNat hlt]
  constructor
  · intro hin name hused
    exact (heach name hused).1 fun off len haddr => hin name off len haddr
  · intro hall name off len haddr
    exact (heach name haddr.used).2 (hall name haddr.used) off len haddr

/-! ### Two runs of two processes -/

/-- `ssmp_init`, then calls of `ssmp_mem_init` under the schedule `ids`. -/
def Files.startUp (T : Target) (n : Nat) (ids : List Nat) (s : Files) : Files :=
  (ids.map some).foldl Files.act (((s.newRun T n).act none).act none)

theorem act_idle {s : Files} {who w : Option Nat} (h : s.code w = []) : (s.act who).code w = [] := by
  by_cases hw : w = who
  · subst hw
    simp [Files.act, h]
  · cases hcode : s.code who with
    | nil => simpa [Files.act, hcode] using h
    | cons a rest =>
        cases a with
        | shmOpen name size =>
            cases hseg : s.seg name <;> simpa [Files.act, hcode, hseg, hw] using h
        | ftruncate name size => simpa [Files.act, hcode, hw] using h

theorem acts_idle {s : Files} {w : Option Nat} (h : s.code w = []) (ids : List Nat) :
    ((ids.map some).foldl Files.act s).code w = [] := by
  induction ids generalizing s with
  | nil => exact h
  | cons id ids ih => exact ih (act_idle h)

theorem acts_reachable {T : Target} {s : Files} (h : (histories T).Reachable s)
    (hinit : s.code none = []) (ids : List Nat) :
    (histories T).Reachable ((ids.map some).foldl Files.act s) := by
  induction ids generalizing s with
  | nil => exact h
  | cons id ids ih =>
      exact ih (TransSys.Reachable.step h (FileStep.memInit hinit)) (act_idle hinit)

theorem startUp_init (T : Target) (n : Nat) (s : Files) :
    (((s.newRun T n).act none).act none).code none = [] := by
  cases hseg : s.seg .mem <;> simp [Files.act, Files.newRun, ssmpInitSegs, hseg]

theorem startUp_reachable {T : Target} {n : Nat} {s : Files} (h : (histories T).Reachable s)
    (hpos : 0 < n) (hn : n < 2 ^ 31) (ids : List Nat) :
    (histories T).Reachable (s.startUp T n ids) := by
  have hrun : (histories T).Reachable (s.newRun T n) :=
    TransSys.Reachable.step h (FileStep.newRun hpos hn)
  have hinit : (histories T).Reachable (((s.newRun T n).act none).act none) :=
    TransSys.Reachable.step (TransSys.Reachable.step hrun FileStep.init) FileStep.init
  exact acts_reachable hinit (startUp_init T n s) ids

/-- Processes with larger ids than the run has do nothing. -/
theorem startUp_idle {T : Target} {n id : Nat} (hid : n ≤ id) (s : Files) (ids : List Nat) :
    (s.startUp T n ids).code (some id) = [] := by
  refine acts_idle (act_idle (act_idle ?_)) ids
  simp [Files.newRun, Nat.not_lt.2 hid]

/-- The first run. -/
def firstRun : Files :=
  Files.empty.startUp .x86 2 [0, 0, 0, 0, 1, 1]

theorem in_bounds_firstRun : firstRun.InBounds .x86 := by
  have hreach : (histories .x86).Reachable firstRun :=
    startUp_reachable (TransSys.Reachable.init rfl) (by decide) (by decide) _
  have hstarted : firstRun.Started := by
    refine ⟨by decide, ?_, by decide⟩
    intro who
    match who with
    | none => exact acts_idle (startUp_init _ _ _) _
    | some 0 => decide
    | some 1 => decide
    | some (id + 2) => exact startUp_idle (by omega) _ _
  refine (in_bounds_iff hreach hstarted).2 ?_
  intro name _
  -- no file was there before
  change need .x86 2 name < 2 ^ 32
  cases name with
  | mem => decide
  | core id =>
      change (2 - 1) * sizeofMsg < 2 ^ 32
      decide

/-- A run of two processes after one of a single process that has not called `ssmp_term`. -/
def secondRun : Files :=
  (Files.empty.startUp .x86 1 []).startUp .x86 2 [0, 0, 0, 0, 1, 1]

/-- The chunk of process 1 begins at 9280, which is the length of the file. -/
theorem not_in_bounds_secondRun :
    (histories .x86).Reachable secondRun ∧ secondRun.Started ∧
      Addressed .x86 2 .mem 9280 8192 ∧ secondRun.seg .mem = some 9280 ∧
      ¬ secondRun.InBounds .x86 := by
  have hfirst : (histories .x86).Reachable (Files.empty.startUp .x86 1 []) :=
    startUp_reachable (TransSys.Reachable.init rfl) (by decide) (by decide) _
  have hstarted : secondRun.Started := by
    refine ⟨by decide, ?_, by decide⟩
    intro who
    match who with
    | none => exact acts_idle (startUp_init _ _ _) _
    | some 0 => decide
    | some 1 => decide
    | some (id + 2) => exact startUp_idle (by omega) _ _
  have hchunk : Addressed .x86 2 .mem 9280 8192 :=
    Addressed.chunk (T := .x86) (show 1 < 2 by decide)
  have hseg : secondRun.seg .mem = some 9280 := by decide
  refine ⟨startUp_reachable hfirst (by decide) (by decide) _, hstarted, hchunk, hseg, ?_⟩
  intro hin
  rcases hin .mem 9280 8192 hchunk with ⟨L, hL, hle⟩
  rw [hseg] at hL
  cases hL
  exact absurd hle (by decide)

end Startup
end Ssmp
