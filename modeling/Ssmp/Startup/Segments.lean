import Ssmp.Lib.TransSys
import Ssmp.Memory

/-!
# Startup.Segments — shared files and their lengths

`ssmp_init` and, on x86, `ssmp_mem_init` open shared files by name.  A file that does not exist is
created, at length 0, and then given its size by `ftruncate`; a file that exists is taken as it is.
Files stay when a program ends without `ssmp_term`, so what a run finds depends on the runs before
it: the system here is a history of runs, each with its own number of processes, any of which may
stop anywhere.
-/

namespace Ssmp
namespace Startup

open Lib

/-! ## Sizes -/

/-- The machines that the two architectures are compiled for. -/
inductive Target where
  | x86
  | sparcV9
  | sparcV8
  deriving DecidableEq

namespace Target

def arch : Target → Arch
  | x86 => .x86
  | sparcV9 | sparcV8 => .sparc

/-- `sizeof(ssmp_chunk_t)`, that is `SSMP_CHUNK_SIZE`. -/
def sizeofChunk : Target → Nat
  | x86 | sparcV9 => 8192
  | sparcV8 => 1024

end Target

/-- `sizeof(ssmp_barrier_t)`: aligned to a line, and fits into one. -/
def sizeofBarrier : Nat := 64

def sizeofInt : Nat := 4

/-- `while (v % SSMP_CACHE_LINE_SIZE) v++;`, which takes at most 63 iterations. -/
def ssmpIncAlign (v : UInt32) : UInt32 :=
  loop 63 v
where
  loop : Nat → UInt32 → UInt32
    | 0, v => v
    | k + 1, v => if v % 64 = 0 then v else loop k (v + 1)

/-- The sizes of the parts of `SSMP_MEM_NAME`, as `unsigned int`s. -/
structure Sizes where
  sizem : UInt32
  sizeb : UInt32
  sizeui : UInt32
  sizecnk : UInt32

/-- The first lines of `ssmp_init_platf`.  On x86 the messages have files of their own. -/
def sizes (T : Target) (numProcs : Nat) : Sizes where
  sizem :=
    match T.arch with
    | .x86 => 0
    | .sparc => UInt32.ofNat (numProcs * numProcs * sizeofMsg)
  sizeb := ssmpIncAlign (UInt32.ofNat (16 * sizeofBarrier))
  sizeui := ssmpIncAlign (UInt32.ofNat (numProcs * sizeofInt))
  sizecnk := ssmpIncAlign (UInt32.ofNat (numProcs * T.sizeofChunk))

def Sizes.size (z : Sizes) : UInt32 :=
  z.sizem + z.sizeb + z.sizeui + z.sizecnk

/-! ## Opening files -/

inductive SegName where
  /-- `SSMP_MEM_NAME` -/
  | mem
  /-- `"/ssmp_core%03d"` -/
  | core (id : Nat)
  deriving DecidableEq

/-- What a process does to the shared files. -/
inductive SegAct where
  /-- `shm_open`, first with `O_EXCL` and if the file exists without it. -/
  | shmOpen (name : SegName) (size : UInt32)
  /-- `ftruncate` of a file that the process has just created. -/
  | ftruncate (name : SegName) (size : UInt32)
  deriving DecidableEq

namespace SegAct

def name : SegAct → SegName
  | shmOpen name _ | ftruncate name _ => name

def size : SegAct → UInt32
  | shmOpen _ size | ftruncate _ size => size

end SegAct

/-- `(num_ues - 1) * sizeof(ssmp_msg_t)` -/
def coreSize (numUes : Nat) : UInt32 :=
  UInt32.ofNat ((numUes - 1) * sizeofMsg)

def ssmpInitSegs (T : Target) (numProcs : Nat) : List SegAct :=
  [.shmOpen .mem (sizes T numProcs).size]

/-- A process opens its own file first, and those of the others after the barrier. -/
def ssmpMemInitSegs (T : Target) (id numUes : Nat) : List SegAct :=
  match T.arch with
  | .x86 =>
      if numUes = 1 then []
      else
        .shmOpen (.core id) (coreSize numUes) ::
          ((List.range numUes).filter (· ≠ id)).map fun core =>
            .shmOpen (.core core) (coreSize numUes)
  | .sparc => []

/-- The files that `ssmp_term_platf` removes. -/
def ssmpTermSegs (T : Target) (id : Nat) : List SegName :=
  (if id = 0 then [.mem] else []) ++
    match T.arch with
    | .x86 => [.core id]
    | .sparc => []

/-! ## Histories -/

/-- The lengths of the files that exist, the number of processes of the current run, and what the
process that calls `ssmp_init` (`none`) and each process have left to open.  The last two fields
record whether a process of this run has called `ssmp_term`, and the files that the run has found. -/
structure Files where
  seg : SegName → Option Nat
  numProcs : Nat
  code : Option Nat → List SegAct
  terminated : Bool
  found : SegName → Option Nat

namespace Files

/-- No file exists and no run has begun. -/
def empty : Files where
  seg _ := none
  numProcs := 0
  code _ := []
  terminated := false
  found _ := none

/-- A new run of `n` processes. -/
def newRun (T : Target) (n : Nat) (s : Files) : Files where
  seg := s.seg
  numProcs := n
  code
    | none => ssmpInitSegs T n
    | some id => if id < n then ssmpMemInitSegs T id n else []
  terminated := false
  found := s.seg

/-- One step of `who` in `ssmp_init` or `ssmp_mem_init`. -/
def act (s : Files) (who : Option Nat) : Files :=
  match s.code who with
  | [] => s
  | .shmOpen name size :: rest =>
      match s.seg name with
      | none =>
          { s with
            seg := Function.update s.seg name (some 0)
            code := Function.update s.code who (.ftruncate name size :: rest) }
      -- a file that exists keeps its length
      | some _ => { s with code := Function.update s.code who rest }
  | .ftruncate name size :: rest =>
      { s with
        seg := if s.seg name = none then s.seg
          else Function.update s.seg name (some size.toNat)
        code := Function.update s.code who rest }

/-- `ssmp_term` by process `id`. -/
def term (T : Target) (id : Nat) (s : Files) : Files :=
  { s with
    seg := fun name => if name ∈ ssmpTermSegs T id then none else s.seg name
    terminated := true }

end Files

inductive FileEvent where
  | newRun (n : Nat)
  | act (who : Option Nat)
  | term (id : Nat)

/-- A run begins at any time, whatever has become of the one before; its processes call
`ssmp_mem_init` after `ssmp_init`, in any order, and `ssmp_term` after that. -/
inductive FileStep (T : Target) : Files → FileEvent → Files → Prop where
  | newRun {s : Files} {n : Nat} (hpos : 0 < n) (hn : n < 2 ^ 31) :
      FileStep T s (.newRun n) (s.newRun T n)
  | init {s : Files} : FileStep T s (.act none) (s.act none)
  | memInit {s : Files} {id : Nat} (hinit : s.code none = []) :
      FileStep T s (.act (some id)) (s.act (some id))
  | term {s : Files} {id : Nat} (hinit : s.code none = []) (hid : id < s.numProcs)
      (hdone : s.code (some id) = []) : FileStep T s (.term id) (s.term T id)

def histories (T : Target) : TransSys Files FileEvent where
  init s := s = Files.empty
  step := FileStep T

/-- `ssmp_init` and all calls of `ssmp_mem_init` of the current run have returned, and no process
has called `ssmp_term`. -/
structure Files.Started (s : Files) : Prop where
  some_run : 0 < s.numProcs
  code : ∀ who, s.code who = []
  terminated : s.terminated = false

/-! ## What a run does to the files -/

/-- The files that a run of `n` processes opens. -/
def Used (T : Target) (n : Nat) : SegName → Prop
  | .mem => True
  | .core id => T.arch = .x86 ∧ n ≠ 1 ∧ id < n

/-- The length that a run of `n` processes gives to a file it creates. -/
def newSize (T : Target) (n : Nat) : SegName → UInt32
  | .mem => (sizes T n).size
  | .core _ => coreSize n

/-- During a run, until a process calls `ssmp_term`. -/
structure Running (T : Target) (s : Files) : Prop where
  size : ∀ who, ∀ a ∈ s.code who, a.size = newSize T s.numProcs a.name
  /-- A file that was there has its old length. -/
  kept : ∀ name L, s.found name = some L → s.seg name = some L
  /-- A file that was not there has its new one, or is about to get it. -/
  created : ∀ name L, s.found name = none → s.seg name = some L →
    L = (newSize T s.numProcs name).toNat ∨ ∃ who size, .ftruncate name size ∈ s.code who
  truncated : ∀ who name size, .ftruncate name size ∈ s.code who → s.found name = none
  opened : ∀ name, Used T s.numProcs name →
    s.seg name ≠ none ∨ ∃ who size, .shmOpen name size ∈ s.code who

section Runs

variable {T : Target} {s : Files} {n id : Nat} {who : Option Nat} {name : SegName} {L : Nat}

theorem memInitSegs_opens (hused : Used T n (.core id)) :
    .shmOpen (.core id) (coreSize n) ∈ ssmpMemInitSegs T id n := by
  rcases hused with ⟨hx86, hn, _⟩
  simp [ssmpMemInitSegs, hx86, hn]

theorem memInitSegs_act {a : SegAct} (h : a ∈ ssmpMemInitSegs T id n) :
    ∃ core, a = .shmOpen (.core core) (coreSize n) := by
  unfold ssmpMemInitSegs at h
  split at h
  · split at h
    · cases h
    · rcases List.mem_cons.1 h with rfl | hrest
      · exact ⟨id, rfl⟩
      · rcases List.mem_map.1 hrest with ⟨core, _, rfl⟩
        exact ⟨core, rfl⟩
  · cases h

theorem Running.newRun (T : Target) (n : Nat) (s : Files) : Running T (s.newRun T n) := by
  have hopens : ∀ who, ∀ a ∈ (s.newRun T n).code who,
      ∃ name, a = .shmOpen name (newSize T n name) := by
    intro who a ha
    cases who with
    | none => exact ⟨.mem, by simpa [Files.newRun, ssmpInitSegs, newSize] using ha⟩
    | some id =>
        simp only [Files.newRun] at ha
        split at ha
        · rcases memInitSegs_act ha with ⟨core, rfl⟩
          exact ⟨.core core, rfl⟩
        · cases ha
  refine ⟨?_, fun _ _ h => h, ?_, ?_, ?_⟩
  · intro who a ha
    rcases hopens who a ha with ⟨name, rfl⟩
    rfl
  · intro name L hfound hseg
    have hnone : s.seg name = none := hfound
    have hsome : s.seg name = some L := hseg
    rw [hnone] at hsome
    cases hsome
  · intro who name size ha
    rcases hopens who _ ha with ⟨name', heq⟩
    cases heq
  · intro name hused
    cases name with
    | mem => exact Or.inr ⟨none, (sizes T n).size, by simp [Files.newRun, ssmpInitSegs]⟩
    | core id =>
        refine Or.inr ⟨some id, coreSize n, ?_⟩
        have hid : id < n := hused.2.2
        simpa [Files.newRun, hid] using memInitSegs_opens hused

theorem ne_of_found {found : SegName → Option Nat} {name' : SegName} (hnew : found name = none)
    (hfound : found name' = some L) : name' ≠ name := by
  rintro rfl
  rw [hnew] at hfound
  cases hfound

/-- The file is there already. -/
theorem Running.openOld {size : UInt32} {rest : List SegAct} (h : Running T s)
    (hcode : s.code who = .shmOpen name size :: rest) (hseg : s.seg name ≠ none) :
    Running T { s with code := Function.update s.code who rest } := by
  refine ⟨?_, h.kept, ?_, ?_, ?_⟩
  · intro w a ha
    exact h.size w a (mem_of_mem_update hcode ha)
  · intro name' L hfound hsome
    refine (h.created name' L hfound hsome).imp_right ?_
    rintro ⟨w, size', hmem⟩
    exact ⟨w, size', mem_update_of_ne hcode hmem (by simp)⟩
  · intro w name' size' hmem
    exact h.truncated w name' size' (mem_of_mem_update hcode hmem)
  · intro name' hused
    by_cases hname : name' = name
    · exact Or.inl (hname ▸ hseg)
    · refine (h.opened name' hused).imp_right ?_
      rintro ⟨w, size', hmem⟩
      exact ⟨w, size', mem_update_of_ne hcode hmem (by simp [hname])⟩

/-- The file is created. -/
theorem Running.openNew {size : UInt32} {rest : List SegAct} (h : Running T s)
    (hcode : s.code who = .shmOpen name size :: rest) (hseg : s.seg name = none) :
    Running T
      { s with
        seg := Function.update s.seg name (some 0)
        code := Function.update s.code who (.ftruncate name size :: rest) } := by
  have hnew : s.found name = none := by
    cases hfound : s.found name with
    | none => rfl
    | some L =>
        rw [h.kept name L hfound] at hseg
        cases hseg
  have hmem_new : ∀ w a, a ∈ Function.update s.code who (.ftruncate name size :: rest) w →
      a ∈ s.code w ∨ a = .ftruncate name size := by
    intro w a ha
    by_cases hw : w = who
    · subst hw
      simp only [Function.update_self] at ha
      rcases List.mem_cons.1 ha with rfl | hrest
      · exact Or.inr rfl
      · exact Or.inl (by simp [hcode, hrest])
    · exact Or.inl (by simpa [hw] using ha)
  have hstill : ∀ w a, a ∈ s.code w → a ≠ .shmOpen name size →
      a ∈ Function.update s.code who (.ftruncate name size :: rest) w := by
    intro w a ha hne
    by_cases hw : w = who
    · subst hw
      rw [hcode] at ha
      have hrest : a ∈ rest := by simpa [hne] using ha
      simp [hrest]
    · simpa [hw] using ha
  refine ⟨?_, ?_, ?_, ?_, ?_⟩
  · intro w a ha
    rcases hmem_new w a ha with hold | rfl
    · exact h.size w a hold
    · exact h.size who (.shmOpen name size) (by simp [hcode])
  · intro name' L hfound
    have hne : name' ≠ name := ne_of_found hnew hfound
    simpa [hne] using h.kept name' L hfound
  · intro name' L hfound hsome
    by_cases hname : name' = name
    · -- the creator is about to give the file its size
      subst hname
      exact Or.inr ⟨who, size, by simp⟩
    · have hold : s.seg name' = some L := by simpa [hname] using hsome
      refine (h.created name' L hfound hold).imp_right ?_
      rintro ⟨w, size', hmem⟩
      exact ⟨w, size', hstill w _ hmem (by simp)⟩
  · intro w name' size' hmem
    rcases hmem_new w _ hmem with hold | heq
    · exact h.truncated w name' size' hold
    · cases heq
      exact hnew
  · intro name' hused
    by_cases hname : name' = name
    · subst hname
      exact Or.inl (by simp)
    · rcases h.opened name' hused with hseg' | ⟨w, size', hmem⟩
      · exact Or.inl (by simpa [hname] using hseg')
      · exact Or.inr ⟨w, size', hstill w _ hmem (by simp [hname])⟩

/-- The file gets its size. -/
theorem Running.truncate {size : UInt32} {rest : List SegAct} (h : Running T s)
    (hcode : s.code who = .ftruncate name size :: rest) :
    Running T
      { s with
        seg := if s.seg name = none then s.seg
          else Function.update s.seg name (some size.toNat)
        code := Function.update s.code who rest } := by
  have hnew : s.found name = none := h.truncated who name size (by simp [hcode])
  have hsize : size = newSize T s.numProcs name :=
    h.size who (.ftruncate name size) (by simp [hcode])
  have hother : ∀ name', name' ≠ name →
      (if s.seg name = none then s.seg else Function.update s.seg name (some size.toNat)) name' =
        s.seg name' := by
    intro name' hne
    split
    · rfl
    · exact Function.update_of_ne hne _ _
  refine ⟨?_, ?_, ?_, ?_, ?_⟩
  · intro w a ha
    exact h.size w a (mem_of_mem_update hcode ha)
  · intro name' L hfound
    have hne : name' ≠ name := ne_of_found hnew hfound
    exact (hother name' hne).trans (h.kept name' L hfound)
  · intro name' L hfound hsome
    by_cases hname : name' = name
    · subst hname
      by_cases hseg : s.seg name' = none
      · simp [hseg] at hsome
      · simp only [hseg, if_false, Function.update_self, Option.some.injEq] at hsome
        exact Or.inl (by rw [← hsome, hsize])
    · have hold : s.seg name' = some L := (hother name' hname).symm.trans hsome
      refine (h.created name' L hfound hold).imp_right ?_
      rintro ⟨w, size', hmem⟩
      exact ⟨w, size', mem_update_of_ne hcode hmem (by simp [hname])⟩
  · intro w name' size' hmem
    exact h.truncated w name' size' (mem_of_mem_update hcode hmem)
  · intro name' hused
    rcases h.opened name' hused with hseg | ⟨w, size', hmem⟩
    · refine Or.inl ?_
      by_cases hname : name' = name
      · subst hname
        simp [hseg]
      · exact fun hnone => hseg ((hother name' hname).symm.trans hnone)
    · exact Or.inr ⟨w, size', mem_update_of_ne hcode hmem (by simp)⟩

theorem Running.act (h : Running T s) (who : Option Nat) : Running T (s.act who) := by
  cases hcode : s.code who with
  | nil => simpa [Files.act, hcode] using h
  | cons a rest =>
      cases a with
      | shmOpen name size =>
          cases hseg : s.seg name with
          | none => simpa [Files.act, hcode, hseg] using h.openNew hcode hseg
          | some L => simpa [Files.act, hcode, hseg] using h.openOld hcode (by simp [hseg])
      | ftruncate name size => simpa only [Files.act, hcode] using h.truncate hcode

/-! ## Every history -/

theorem act_terminated (s : Files) (who : Option Nat) :
    (s.act who).terminated = s.terminated := by
  unfold Files.act
  split
  · rfl
  · split <;> rfl
  · rfl

theorem act_numProcs (s : Files) (who : Option Nat) : (s.act who).numProcs = s.numProcs := by
  unfold Files.act
  split
  · rfl
  · split <;> rfl
  · rfl

theorem running_of_reachable (h : (histories T).Reachable s) (hpos : 0 < s.numProcs)
    (hterm : s.terminated = false) : Running T s := by
  induction h with
  | @init s h0 =>
      have hempty : s = Files.empty := h0
      subst hempty
      exact absurd hpos (Nat.lt_irrefl 0)
  | @step s t l _ hst ih =>
      cases hst with
      | newRun => exact Running.newRun T _ s
      | init =>
          rw [act_numProcs] at hpos
          rw [act_terminated] at hterm
          exact (ih hpos hterm).act none
      | memInit =>
          rw [act_numProcs] at hpos
          rw [act_terminated] at hterm
          exact (ih hpos hterm).act _
      | term => cases hterm

/-- A length that a step writes is an `unsigned int`. -/
theorem act_seg (h : (s.act who).seg name = some L) :
    s.seg name = some L ∨ ∃ size : UInt32, L = size.toNat := by
  cases hcode : s.code who with
  | nil => exact Or.inl (by simpa [Files.act, hcode] using h)
  | cons a rest =>
      cases a with
      | shmOpen name' size =>
          cases hseg : s.seg name' with
          | none =>
              simp only [Files.act, hcode, hseg] at h
              by_cases hname : name = name'
              · subst hname
                have hzero : 0 = L := by simpa using h
                exact Or.inr ⟨0, by simp [← hzero]⟩
              · exact Or.inl (by simpa [hname] using h)
          | some L' => exact Or.inl (by simpa [Files.act, hcode, hseg] using h)
      | ftruncate name' size =>
          simp only [Files.act, hcode] at h
          split at h
          · exact Or.inl h
          · by_cases hname : name = name'
            · subst hname
              exact Or.inr ⟨size, by simpa using h.symm⟩
            · exact Or.inl (by simpa [hname] using h)

/-- No file is longer than an `unsigned int` can tell. -/
theorem length_lt (h : (histories T).Reachable s) (hseg : s.seg name = some L) : L < 2 ^ 32 := by
  induction h generalizing L with
  | @init s h0 =>
      have hempty : s = Files.empty := h0
      subst hempty
      cases hseg
  | @step s t l _ hst ih =>
      have hact : ∀ who, (s.act who).seg name = some L → L < 2 ^ 32 := by
        intro who hwho
        rcases act_seg hwho with hold | ⟨size, rfl⟩
        · exact ih hold
        · exact size.toNat_lt
      cases hst with
      | newRun => exact ih hseg
      | init => exact hact none hseg
      | memInit => exact hact _ hseg
      | term =>
          refine ih ?_
          simp only [Files.term] at hseg
          split at hseg
          · cases hseg
          · exact hseg

/-- After start-up every file of the run has the length it was found with, or the new one. -/
theorem started_length (h : (histories T).Reachable s) (hstarted : s.Started)
    (hused : Used T s.numProcs name) :
    ∃ L, s.seg name = some L ∧ L < 2 ^ 32 ∧
      L = (s.found name).getD (newSize T s.numProcs name).toNat := by
  have hrun := running_of_reachable h hstarted.some_run hstarted.terminated
  have hnone : ∀ who a, a ∉ s.code who := by
    intro who a ha
    rw [hstarted.code who] at ha
    cases ha
  have hsome : s.seg name ≠ none := by
    rcases hrun.opened name hused with hseg | ⟨who, size, hmem⟩
    · exact hseg
    · exact absurd hmem (hnone who _)
  rcases Option.ne_none_iff_exists'.1 hsome with ⟨L, hL⟩
  refine ⟨L, hL, length_lt h hL, ?_⟩
  cases hfound : s.found name with
  | some L' =>
      have hkept := hrun.kept name L' hfound
      rw [hL] at hkept
      exact Option.some.inj hkept
  | none =>
      rcases hrun.created name L hfound hL with hnew | ⟨who, size, hmem⟩
      · exact hnew
      · exact absurd hmem (hnone who _)

end Runs

end Startup
end Ssmp
