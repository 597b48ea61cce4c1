import Ssmp.Barrier.Participants
import Ssmp.Startup.Clean

/-!
# Startup.Ready — what holds a process back until the others have reset

On x86 it is barrier 0: nobody returns from it before all have reset their slots and chunks, so the
start-up is clean whatever the shared memory held (`x86_clean`).  On SPARC there is only the array
`ues_initialized`, which nobody resets: the start-up is clean in every run if and only if the array
was all zeros (`sparc_clean_iff`).
-/

namespace Ssmp
namespace Startup

open Lib
open Barrier (ssmpNumBarriers)

/-! ## The barrier of x86 -/

section X86

variable {L : MsgLayout} {n : Nat} {W : Work n} {M : Leftover n} {s : State L n}
variable {id p q me : Fin n} {b : Nat}

theorem mem_barrierWait (hn : n ≠ 1) : .barrierWait b ∈ memInit .x86 id ↔ b = 0 := by
  have hloop : ∀ core : Fin n, InitAct.barrierWait b ∉
      (if id = core then [] else [InitAct.resetSlot core]) := by
    intro core
    split <;> simp
  simp [memInit, X86.ssmpMemInitPlatf, hn, hloop]

theorem memInitBarriers_x86 (hn : n ≠ 1) : memInitBarriers .x86 id = [0] := by
  have hresets : ((List.finRange n).flatMap fun core => InitAct.resetChunk core ::
      if id = core then [] else [InitAct.resetSlot core]).filterMap InitAct.barrierNum = [] := by
    refine List.filterMap_eq_nil_iff.2 ?_
    intro a ha
    rcases mem_resets ha with ⟨core, rfl | rfl⟩ <;> rfl
  simp [memInitBarriers, memInit, X86.ssmpMemInitPlatf, hn, hresets, InitAct.barrierNum]

/-- How far the processes are at the barrier. -/
structure AtBarrier (W : Work n) (M : Leftover n) (s : State L n) : Prop where
  reach : (Barrier.system (Barrier.ssmpInitBarriers M.barriers)
    fun p => memInitBarriers .x86 p ++ W.waits p).Reachable s.barrier
  before : ∀ p, (∃ a ∈ s.code p, a.isReset = true) → s.barrier.arrived p = []
  inside : ∀ p, (∃ b, .barrierWait b ∈ s.code p) → s.barrier.returned p = []
  after : ∀ p, (∀ b, .barrierWait b ∉ s.code p) → s.barrier.returned p ≠ []

/-- The first call of every process is the one on barrier 0. -/
theorem AtBarrier.calls (h : AtBarrier W M s) (hn : n ≠ 1) (p : Fin n) :
    s.barrier.calls p = 0 :: W.waits p := by
  rw [Barrier.calls_of_reachable h.reach, memInitBarriers_x86 hn]
  rfl

theorem AtBarrier.ret_zero (h : AtBarrier W M s) (hn : n ≠ 1)
    (hret : s.barrier.returned p = []) (hpc : s.barrier.pc p = .ret b) : b = 0 := by
  have hcalls := h.calls hn p
  rw [Barrier.State.calls, hret, hpc] at hcalls
  exact (List.cons.inj hcalls).1

/-- Who has returned from a wait has returned from the one on barrier 0. -/
theorem AtBarrier.count_pos (h : AtBarrier W M s) (hn : n ≠ 1)
    (hret : s.barrier.returned p ≠ []) : 0 < (s.barrier.returned p).count 0 := by
  have hcalls := h.calls hn p
  cases hlist : s.barrier.returned p with
  | nil => exact absurd hlist hret
  | cons b rest =>
      rw [Barrier.State.calls, hlist] at hcalls
      rw [(List.cons.inj hcalls).1]
      simp

/-- The others do not see a step of `me` at the barrier. -/
theorem barrier_other {s t : Barrier.State n} (ht : t = s.step me) (hp : p ≠ me) :
    t.arrived p = s.arrived p ∧ t.returned p = s.returned p := by
  have hsame := Barrier.step_same s me
  rw [ht]
  exact ⟨hsame.arrived p hp, hsame.returned p hp⟩

/-- An action of `me` that has nothing to do with the barrier. -/
theorem AtBarrier.pop {t : State L n} {a : InitAct n} {rest : List (InitAct n)}
    (h : AtBarrier W M s) (hcode : s.code me = a :: rest) (ha : ∀ b, a ≠ .barrierWait b)
    (hbarrier : t.barrier = s.barrier) (ht : t.code = Function.update s.code me rest) :
    AtBarrier W M t := by
  have hsub : ∀ p, ∀ x ∈ t.code p, x ∈ s.code p := by
    intro p x hx
    rw [ht] at hx
    exact mem_of_mem_update hcode hx
  refine ⟨by rw [hbarrier]; exact h.reach, ?_, ?_, ?_⟩
  · rintro p ⟨x, hx, hreset⟩
    rw [hbarrier]
    exact h.before p ⟨x, hsub p x hx, hreset⟩
  · rintro p ⟨b, hb⟩
    rw [hbarrier]
    exact h.inside p ⟨b, hsub p _ hb⟩
  · intro p hnone
    rw [hbarrier]
    refine h.after p ?_
    intro b hb
    refine hnone b ?_
    rw [ht]
    exact mem_update_of_ne hcode hb (Ne.symm (ha b))

/-- A step of `me` at the barrier, with which its call may return. -/
theorem AtBarrier.wait {t : State L n} {rest : List (InitAct n)} (h : AtBarrier W M s)
    (hn : n ≠ 1) (hordered : (s.code me).Pairwise InitAct.Before)
    (hcode : s.code me = .barrierWait 0 :: rest) (hbarrier : t.barrier = s.barrier.step me)
    (ht : t.code = if s.barrier.pc me = .ret 0 then Function.update s.code me rest else s.code) :
    AtBarrier W M t := by
  rw [hcode, List.pairwise_cons] at hordered
  -- what is left after the barrier has neither resets nor another wait
  have hrest : ∀ a ∈ rest, a.isReset = false ∧ ∀ b, a ≠ .barrierWait b := by
    intro a ha
    have hbefore := hordered.1 a ha
    cases a <;> simp_all [InitAct.Before, InitAct.stage, InitAct.isReset]
  have hret : s.barrier.returned me = [] := h.inside me ⟨0, by simp [hcode]⟩
  have hself : ∀ a ∈ t.code me, a = .barrierWait 0 ∨ a ∈ rest := by
    intro a ha
    rw [ht] at ha
    split at ha
    · exact Or.inr (by simpa using ha)
    · rw [hcode] at ha
      exact List.mem_cons.1 ha
  have hother : ∀ p, p ≠ me → t.code p = s.code p := by
    intro p hp
    rw [ht]
    split
    · exact Function.update_of_ne hp _ _
    · rfl
  refine ⟨by rw [hbarrier]; exact TransSys.Reachable.step (l := me) h.reach rfl, ?_, ?_, ?_⟩
  · rintro p ⟨a, ha, hreset⟩
    by_cases hp : p = me
    · subst hp
      rcases hself a ha with rfl | hmem
      · cases hreset
      · rw [(hrest a hmem).1] at hreset
        cases hreset
    · rw [(barrier_other hbarrier hp).1]
      exact h.before p ⟨a, by rwa [hother p hp] at ha, hreset⟩
  · rintro p ⟨b, hb⟩
    by_cases hp : p = me
    · subst hp
      -- the call is still on, so this was not the step with which it returns
      have hpc : s.barrier.pc p ≠ .ret 0 := by
        intro hpc
        rw [ht, if_pos hpc, Function.update_self] at hb
        exact (hrest _ hb).2 b rfl
      have hnot : ∀ b', s.barrier.pc p ≠ .ret b' := by
        intro b' hb'
        exact hpc (h.ret_zero hn hret hb' ▸ hb')
      rw [hbarrier, Barrier.step_returned hnot, hret]
    · rw [(barrier_other hbarrier hp).2]
      exact h.inside p ⟨b, by rwa [hother p hp] at hb⟩
  · intro p hnone
    by_cases hp : p = me
    · subst hp
      have hpc : s.barrier.pc p = .ret 0 := by
        by_contra hpc
        refine hnone 0 ?_
        rw [ht, if_neg hpc, hcode]
        simp
      rw [hbarrier, Barrier.step_ret hpc]
      simp
    · rw [(barrier_other hbarrier hp).2]
      exact h.after p (by rwa [hother p hp] at hnone)

theorem AtBarrier.memInitStep (h : AtBarrier W M s) (hn : n ≠ 1)
    (hreach : (system .x86 L W M).Reachable s) (me : Fin n) :
    AtBarrier W M (s.memInitStep W me) := by
  cases hcode : s.code me with
  | nil => simpa [State.memInitStep, hcode] using h
  | cons a rest =>
      cases a with
      | resetSlot core =>
          exact h.pop hcode (by simp) (by simp [State.memInitStep, hcode, State.next])
            (by simp [State.memInitStep, hcode, State.next])
      | resetChunk core =>
          exact h.pop hcode (by simp) (by simp [State.memInitStep, hcode, State.next])
            (by simp [State.memInitStep, hcode, State.next])
      | setInitialized =>
          exact h.pop hcode (by simp) (by simp [State.memInitStep, hcode, State.next])
            (by simp [State.memInitStep, hcode, State.next])
      | awaitInitialized ue =>
          by_cases hue : s.uesInitialized ue = 0
          · simpa [State.memInitStep, hcode, hue] using h
          · exact h.pop hcode (by simp) (by simp [State.memInitStep, hcode, State.next, hue])
              (by simp [State.memInitStep, hcode, State.next, hue])
      | barrierWait b =>
          have hzero : b = 0 := by
            have hmem : .barrierWait b ∈ memInit .x86 me := by
              rw [← done_append_code hreach me, hcode]
              simp
            exact (mem_barrierWait hn).1 hmem
          subst hzero
          refine h.wait hn (code_ordered hreach me) hcode ?_ ?_
          · simp only [State.memInitStep, hcode]
            split <;> rfl
          · simp only [State.memInitStep, hcode]
            split <;> rfl

theorem atBarrier_of_reachable (hn : n ≠ 1) (h : (system .x86 L W M).Reachable s) :
    AtBarrier W M s := by
  induction h with
  | @init s h0 =>
      have hstart : s = State.start .x86 L W M := h0
      subst hstart
      refine ⟨TransSys.Reachable.init (Barrier.State.init_fresh _ _), fun _ _ => rfl,
        fun _ _ => rfl, ?_⟩
      intro p hnone
      exact absurd ((mem_barrierWait hn).2 rfl) (hnone 0)
  | @step s t l hreach hst ih =>
      cases hst with
      | @memInit me => exact ih.memInitStep hn hreach me
      | small => exact ⟨ih.reach, ih.before, ih.inside, ih.after⟩
      | big => exact ⟨ih.reach, ih.before, ih.inside, ih.after⟩
      | @barrier me hdone =>
          refine ⟨TransSys.Reachable.step (l := me) ih.reach rfl, ?_, ?_, ?_⟩
          · rintro p ⟨a, ha, hreset⟩
            have hp : p ≠ me := by
              rintro rfl
              simp [hdone] at ha
            rw [(barrier_other rfl hp).1]
            exact ih.before p ⟨a, ha, hreset⟩
          · rintro p ⟨b, hb⟩
            have hp : p ≠ me := by
              rintro rfl
              simp [hdone] at hb
            rw [(barrier_other rfl hp).2]
            exact ih.inside p ⟨b, hb⟩
          · intro p hnone
            have hold := ih.after p hnone
            by_cases hp : p = me
            · subst hp
              -- later calls add to what has been returned from
              by_cases hret : ∃ b, s.barrier.pc p = .ret b
              · rcases hret with ⟨b, hb⟩
                simp only [Barrier.step_ret hb]
                simp
              · push Not at hret
                simpa only [Barrier.step_returned hret] using hold
            · rw [(barrier_other rfl hp).2]
              exact hold

/-- Who has returned from `ssmp_mem_init` has waited at barrier 0 for all others. -/
theorem settled_x86 (hn : n ≠ 1) (h64 : n ≤ 64) (h : (system .x86 L W M).Reachable s)
    (hreturned : ∃ p, s.code p = []) : s.Settled := by
  rcases hreturned with ⟨p, hp⟩
  have hat := atBarrier_of_reachable hn h
  have hmember : ∀ q : Fin n, (Barrier.ssmpInitBarriers M.barriers 0).member q = true := by
    intro q
    rw [Barrier.default_member (by decide) (by decide)]
    exact decide_eq_true (by omega)
  have hcounted : (Barrier.ssmpInitBarriers M.barriers 0).Counted n :=
    (Barrier.initBarriers_ready (by decide)).counted
  have hi := (Barrier.inv_of_counted (by omega) (by decide) hcounted hat.reach).2
  have hpos : 0 < (s.barrier.returned p).count 0 :=
    hat.count_pos hn (hat.after p (by simp [hp]))
  intro q a ha
  by_contra hreset
  -- otherwise `q` has not arrived at the barrier that `p` has returned from
  have harrived : s.barrier.arrived q = [] := hat.before q ⟨a, ha, by simpa using hreset⟩
  have hle : (s.barrier.returned p).count 0 ≤ (s.barrier.arrived q).count 0 :=
    hi.completed_le ⟨p, hmember p⟩ ⟨q, hmember q⟩
  rw [harrived] at hle
  exact absurd (Nat.lt_of_lt_of_le hpos hle) (Nat.lt_irrefl 0)

end X86

/-- On x86, with up to 64 processes and whatever the shared memory held before: once a process has
returned from `ssmp_mem_init`, all slots and chunks have been reset and none is reset again. -/
theorem x86_clean {L : MsgLayout} {n : Nat} (h2 : 2 ≤ n) (h64 : n ≤ 64) (W : Work n)
    (M : Leftover n) {s : State L n} (h : (system .x86 L W M).Reachable s)
    (hreturned : ∃ p, s.code p = []) : Clean .x86 W M s :=
  clean_of_settled (by omega) (fun _ hreach => settled_x86 (by omega) h64 hreach) h hreturned

/-- Nothing to do after start-up. -/
def noWork : Work 2 where
  prog _ _ _ := False
  chunkSize := Big.ssmpChunkSize
  moves := Big.wholeMove
  sends _ := []
  asks _ _ := []
  waits _ := []

/-- Memory full of ones, but for the array. -/
def dirty (ues : Fin 2 → Int32) : Leftover 2 where
  messages _ _ := 1
  chunk _ _ := 1
  uesInitialized := ues
  barriers _ := ⟨0, none, 7, 7⟩

/-- Two processes start up, until process 0 has returned. -/
def startedUp : State x86Msg 2 :=
  (State.start .x86 x86Msg noWork (dirty fun _ => 1)).runInit noWork
    [0, 0, 0, 0, 0, 0, 1, 1, 1, 1, 1, 1, 1, 0, 0, 0, 0, 0, 0]

theorem x86_clean_startedUp : Clean .x86 noWork (dirty fun _ => 1) startedUp := by
  have hreach : (system .x86 x86Msg noWork (dirty fun _ => 1)).Reachable startedUp :=
    reachable_runInit (TransSys.Reachable.init rfl) _
  exact x86_clean (by decide) (by decide) noWork _ hreach ⟨0, by decide +kernel⟩

/-! ## The array of SPARC -/

section Sparc

variable {L : MsgLayout} {n : Nat} {A : Arch} {W : Work n} {M : Leftover n} {s t : State L n}
variable {p q me : Fin n}

/-- What the array `ues_initialized` tells, if it was all zeros: an entry is set by a process that
has reset everything, and who has seen an entry set has seen it because it is. -/
structure ArrayOk (s : State L n) : Prop where
  cleared : ∀ q, s.uesInitialized q ≠ 0 → ∀ a ∈ s.code q, a.isReset = false
  seen : ∀ p q, .awaitInitialized q ∈ s.done p → s.uesInitialized q ≠ 0

/-- A step that leaves the array alone. -/
theorem ArrayOk.keep (h : ArrayOk s) (hues : t.uesInitialized = s.uesInitialized)
    (hcode : ∀ p, ∀ a ∈ t.code p, a ∈ s.code p)
    (hdone : ∀ p q, .awaitInitialized q ∈ t.done p →
      .awaitInitialized q ∈ s.done p ∨ s.uesInitialized q ≠ 0) : ArrayOk t := by
  refine ⟨?_, ?_⟩
  · intro q hq a ha
    rw [hues] at hq
    exact h.cleared q hq a (hcode q a ha)
  · intro p q hseen
    rw [hues]
    exact (hdone p q hseen).elim (h.seen p q) id

theorem ArrayOk.memInitStep (h : ArrayOk s) (hreach : (system A L W M).Reachable s)
    (me : Fin n) : ArrayOk (s.memInitStep W me) := by
  cases hcode : s.code me with
  | nil => simpa [State.memInitStep, hcode] using h
  | cons a rest =>
      have hleft : ∀ p, ∀ x ∈ Function.update s.code me rest p, x ∈ s.code p :=
        fun p x hx => mem_of_mem_update hcode hx
      have hdone : ∀ p q, .awaitInitialized q ∈ Function.update s.done me (s.done me ++ [a]) p →
          .awaitInitialized q ∈ s.done p ∨ a = .awaitInitialized q := by
        intro p q hmem
        rcases mem_next hmem with hold | ⟨_, heq⟩
        · exact Or.inl hold
        · exact Or.inr heq.symm
      cases a with
      | resetSlot core =>
          simp only [State.memInitStep, hcode]
          refine h.keep rfl hleft fun p q hmem => Or.inl ((hdone p q hmem).resolve_right (by simp))
      | resetChunk core =>
          simp only [State.memInitStep, hcode]
          refine h.keep rfl hleft fun p q hmem => Or.inl ((hdone p q hmem).resolve_right (by simp))
      | barrierWait b =>
          simp only [State.memInitStep, hcode]
          split
          · exact h.keep rfl hleft fun p q hmem =>
              Or.inl ((hdone p q hmem).resolve_right (by simp))
          · exact h.keep rfl (fun _ _ hx => hx) fun _ _ hmem => Or.inl hmem
      | awaitInitialized ue =>
          simp only [State.memInitStep, hcode]
          split
          · exact h
          · rename_i hue
            refine h.keep rfl hleft fun p q hmem => (hdone p q hmem).imp_right ?_
            intro heq
            cases heq
            exact hue
      | setInitialized =>
          have hordered := code_ordered hreach me
          rw [hcode, List.pairwise_cons] at hordered
          simp only [State.memInitStep, hcode]
          refine ⟨?_, ?_⟩
          · intro q hq a ha
            by_cases hqme : q = me
            · -- nothing that comes after the array is set is a reset
              subst hqme
              have hafter := hordered.1 a (by simpa [State.next] using ha)
              cases a <;> simp_all [InitAct.Before, InitAct.stage, InitAct.isReset]
            · exact h.cleared q (by simpa [hqme] using hq) a (hleft q a ha)
          · intro p q hmem
            by_cases hqme : q = me
            · subst hqme
              simp
            · have hold := (hdone p q hmem).resolve_right (by simp)
              simpa [hqme] using h.seen p q hold

theorem arrayOk_of_reachable (hzero : ∀ q, M.uesInitialized q = 0)
    (h : (system A L W M).Reachable s) : ArrayOk s := by
  induction h with
  | @init s h0 =>
      have hstart : s = State.start A L W M := h0
      subst hstart
      refine ⟨?_, ?_⟩
      · intro q hq
        exact absurd (hzero q) hq
      · intro p q hmem
        cases hmem
  | @step s t l hreach hst ih =>
      cases hst with
      | @memInit me => exact ih.memInitStep hreach me
      | small => exact ⟨ih.cleared, ih.seen⟩
      | big => exact ⟨ih.cleared, ih.seen⟩
      | barrier => exact ⟨ih.cleared, ih.seen⟩

theorem settled_sparc (hzero : ∀ q, M.uesInitialized q = 0)
    (h : (system .sparc L W M).Reachable s) (hreturned : ∃ p, s.code p = []) : s.Settled := by
  rcases hreturned with ⟨p, hp⟩
  have hok := arrayOk_of_reachable hzero h
  intro q
  -- `p` has waited for the entry of `q`
  have hseen : .awaitInitialized q ∈ s.done p := by
    have hall := done_append_code h p
    rw [hp, List.append_nil] at hall
    rw [hall]
    simp [memInit, Sparc.ssmpMemInitPlatf]
  exact hok.cleared q (hok.seen p q hseen)

end Sparc

/-! ## A process that is not waited for -/

section Unawaited

variable {L : MsgLayout} {n : Nat} {A : Arch} {W : Work n} {M : Leftover n} {s t u : State L n}
variable {p q r : Fin n}

/-- A run in which at most the processes `rs` act, all in `ssmp_mem_init`. -/
structure Advance (A : Arch) (W : Work n) (M : Leftover n) (rs : List (Fin n))
    (s t : State L n) : Prop where
  steps : (system A L W M).Steps s t
  others : ∀ q, q ∉ rs → t.code q = s.code q
  kept : ∀ q, s.uesInitialized q ≠ 0 → t.uesInitialized q ≠ 0

theorem Advance.refl (rs : List (Fin n)) (s : State L n) : Advance A W M rs s s :=
  ⟨Relation.ReflTransGen.refl, fun _ _ => rfl, fun _ h => h⟩

theorem Advance.trans {rs rs' : List (Fin n)} (h : Advance A W M rs s t)
    (h' : Advance A W M rs' t u) : Advance A W M (rs ++ rs') s u := by
  refine ⟨h.steps.trans h'.steps, ?_, fun q hq => h'.kept q (h.kept q hq)⟩
  intro q hq
  rw [List.mem_append, not_or] at hq
  rw [h'.others q hq.2, h.others q hq.1]

/-- The same processes go on. -/
theorem Advance.trans_self {rs : List (Fin n)} (h : Advance A W M rs s t)
    (h' : Advance A W M rs t u) : Advance A W M rs s u :=
  ⟨h.steps.trans h'.steps, fun q hq => (h'.others q hq).trans (h.others q hq),
    fun q hq => h'.kept q (h.kept q hq)⟩

theorem advance_single (hothers : ∀ q, q ≠ r → (s.memInitStep W r).code q = s.code q)
    (hkept : ∀ q, s.uesInitialized q ≠ 0 → (s.memInitStep W r).uesInitialized q ≠ 0) :
    Advance A W M [r] s (s.memInitStep W r) :=
  ⟨TransSys.Steps.single Step.memInit, fun q hq => hothers q (by simpa using hq), hkept⟩

/-- Resets never wait. -/
theorem advance_resets {resets rest : List (InitAct n)} (hresets : ∀ a ∈ resets, a.isReset = true)
    (hcode : s.code r = resets ++ rest) : ∃ t, Advance A W M [r] s t ∧ t.code r = rest := by
  induction resets generalizing s with
  | nil => exact ⟨s, Advance.refl _ _, hcode⟩
  | cons a resets ih =>
      have hhead : s.code r = a :: (resets ++ rest) := hcode
      have hstep : Advance A W M [r] s (s.memInitStep W r) ∧
          (s.memInitStep W r).code r = resets ++ rest := by
        have hreset := hresets a (by simp)
        cases a with
        | resetSlot core =>
            refine ⟨advance_single ?_ ?_, ?_⟩ <;>
              simp +contextual [State.memInitStep, hhead, State.next]
        | resetChunk core =>
            refine ⟨advance_single ?_ ?_, ?_⟩ <;>
              simp +contextual [State.memInitStep, hhead, State.next]
        | barrierWait b => cases hreset
        | setInitialized => cases hreset
        | awaitInitialized ue => cases hreset
      rcases ih (fun b hb => hresets b (by simp [hb])) hstep.2 with ⟨t, hadv, ht⟩
      exact ⟨t, hstep.1.trans_self hadv, ht⟩

theorem advance_set {rest : List (InitAct n)} (hcode : s.code r = .setInitialized :: rest) :
    ∃ t, Advance A W M [r] s t ∧ t.code r = rest ∧ t.uesInitialized r ≠ 0 := by
  refine ⟨s.memInitStep W r, advance_single ?_ ?_, ?_, ?_⟩
  · simp +contextual [State.memInitStep, hcode, State.next]
  · intro q hq
    by_cases hqr : q = r
    · subst hqr
      simp [State.memInitStep, hcode]
    · simpa [State.memInitStep, hcode, hqr] using hq
  · simp [State.memInitStep, hcode, State.next]
  · simp [State.memInitStep, hcode]

/-- Waits for entries that are set. -/
theorem advance_awaits {ues : List (Fin n)} (hues : ∀ ue ∈ ues, s.uesInitialized ue ≠ 0)
    (hcode : s.code r = ues.map .awaitInitialized) :
    ∃ t, Advance A W M [r] s t ∧ t.code r = [] := by
  induction ues generalizing s with
  | nil => exact ⟨s, Advance.refl _ _, hcode⟩
  | cons ue ues ih =>
      have hset : s.uesInitialized ue ≠ 0 := hues ue (by simp)
      have hhead : s.code r = .awaitInitialized ue :: ues.map .awaitInitialized := hcode
      have hstep : Advance A W M [r] s (s.memInitStep W r) ∧
          (s.memInitStep W r).code r = ues.map .awaitInitialized := by
        refine ⟨advance_single ?_ ?_, ?_⟩ <;>
          simp +contextual [State.memInitStep, hhead, State.next, hset]
      rcases ih (fun ue' hue' => hstep.1.kept ue' (hues ue' (by simp [hue']))) hstep.2 with
        ⟨t, hadv, ht⟩
      exact ⟨t, hstep.1.trans_self hadv, ht⟩

/-- A process gets to the waits for the array by itself. -/
theorem advance_one (hcode : s.code r = memInit .sparc r) :
    ∃ t, Advance A W M [r] s t ∧ t.code r = (List.finRange n).map .awaitInitialized ∧
      t.uesInitialized r ≠ 0 := by
  have hsplit : s.code r = ((List.finRange n).map .resetSlot ++ [.resetChunk r]) ++
      .setInitialized :: (List.finRange n).map .awaitInitialized := by
    rw [hcode]
    simp [memInit, Sparc.ssmpMemInitPlatf]
  have hresets : ∀ a ∈ (List.finRange n).map InitAct.resetSlot ++ [.resetChunk r],
      a.isReset = true := by
    intro a ha
    simp only [List.mem_append, List.mem_map, List.mem_singleton] at ha
    rcases ha with ⟨core, _, rfl⟩ | rfl <;> rfl
  rcases advance_resets hresets hsplit with ⟨t, hadv, ht⟩
  rcases advance_set ht with ⟨u, hadv', hu, hues⟩
  exact ⟨u, hadv.trans_self hadv', hu, hues⟩

/-- So do any processes, one after the other. -/
theorem advance_all {rs : List (Fin n)} (hnodup : rs.Nodup)
    (hcode : ∀ r ∈ rs, s.code r = memInit .sparc r) :
    ∃ t, Advance A W M rs s t ∧ ∀ r ∈ rs,
      t.code r = (List.finRange n).map .awaitInitialized ∧ t.uesInitialized r ≠ 0 := by
  induction rs generalizing s with
  | nil => exact ⟨s, Advance.refl _ _, by simp⟩
  | cons r rs ih =>
      rw [List.nodup_cons] at hnodup
      rcases advance_one (A := A) (W := W) (M := M) (hcode r (by simp)) with ⟨t, hadv, ht, hues⟩
      have hrest : ∀ r' ∈ rs, t.code r' = memInit .sparc r' := by
        intro r' hr'
        have hne : r' ≠ r := fun heq => hnodup.1 (heq ▸ hr')
        rw [hadv.others r' (by simpa using hne), hcode r' (by simp [hr'])]
      rcases ih hnodup.2 hrest with ⟨u, hadv', hu⟩
      refine ⟨u, hadv.trans hadv', ?_⟩
      intro r' hr'
      rcases List.mem_cons.1 hr' with rfl | hmem
      · exact ⟨(hadv'.others r' hnodup.1).trans ht, hadv'.kept r' hues⟩
      · exact hu r' hmem

/-- If the entry of `q` was set from the start, `p` may return while `q` has not begun. -/
theorem exists_unawaited (hpq : p ≠ q) (hq : M.uesInitialized q ≠ 0) :
    ∃ s : State L n, (system .sparc L W M).Reachable s ∧ s.code p = [] ∧
      s.code q = memInit .sparc q := by
  have hnodup : ((List.finRange n).filter (· ≠ q)).Nodup := (List.nodup_finRange n).filter _
  rcases advance_all (s := State.start .sparc L W M) (A := .sparc) (W := W) (M := M) hnodup
    (fun _ _ => rfl) with ⟨t, hadv, ht⟩
  have hues : ∀ ue ∈ List.finRange n, t.uesInitialized ue ≠ 0 := by
    intro ue _
    by_cases hue : ue = q
    · rw [hue]
      exact hadv.kept q hq
    · exact (ht ue (by simpa using hue)).2
  rcases advance_awaits (A := .sparc) (M := M) hues (ht p (by simpa using hpq)).1 with
    ⟨u, hadv', hu⟩
  refine ⟨u, ?_, hu, ?_⟩
  · have hstart : (system .sparc L W M).Reachable (State.start .sparc L W M) :=
      TransSys.Reachable.init rfl
    exact (hstart.steps hadv.steps).steps hadv'.steps
  · rw [hadv'.others q (by simpa using Ne.symm hpq), hadv.others q (by simp)]
    rfl

/-- Its slots are not clean then. -/
theorem not_clean (hpq : p ≠ q) (h : (system .sparc L W M).Reachable s)
    (hq : s.code q = memInit .sparc q) : ¬ Clean .sparc W M s := by
  intro hclean
  have hnone : s.done q = [] := by
    have hall := done_append_code h q
    rw [hq] at hall
    simpa using hall
  have hslot := hclean.slots p q hpq
  rw [hnone] at hslot
  cases hslot

end Unawaited

/-- On SPARC the start-up is clean in every run if and only if the array `ues_initialized` was all
zeros before. -/
theorem sparc_clean_iff {L : MsgLayout} {n : Nat} (h2 : 2 ≤ n) (W : Work n) (M : Leftover n) :
    (∀ s : State L n, (system .sparc L W M).Reachable s → (∃ p, s.code p = []) →
        Clean .sparc W M s) ↔
      ∀ q, M.uesInitialized q = 0 := by
  constructor
  · intro hall q
    by_contra hq
    have hother : ∃ p, p ≠ q := by
      have hnontrivial : Nontrivial (Fin n) := Fin.nontrivial_iff_two_le.2 h2
      exact exists_ne q
    rcases hother with ⟨p, hpq⟩
    rcases exists_unawaited hpq hq with ⟨s, hreach, hp, hcode⟩
    exact not_clean hpq hreach hcode (hall s hreach ⟨p, hp⟩)
  · intro hzero s hreach hreturned
    exact clean_of_settled (by omega) (fun _ hs => settled_sparc hzero hs) hreach hreturned

/-- The two processes of `startedUp` on SPARC, with the array at 0 before. -/
def startedUpSparc : State (sparcMsg .small) 2 :=
  (State.start .sparc (sparcMsg .small) noWork (dirty fun _ => 0)).runInit noWork
    [0, 0, 0, 0, 1, 1, 1, 1, 0, 0]

theorem sparc_clean_startedUp : Clean .sparc noWork (dirty fun _ => 0) startedUpSparc := by
  have hreach : (system .sparc (sparcMsg .small) noWork (dirty fun _ => 0)).Reachable
      startedUpSparc := reachable_runInit (TransSys.Reachable.init rfl) _
  exact (sparc_clean_iff (by decide) noWork (dirty fun _ => 0)).2 (fun _ => rfl) startedUpSparc
    hreach ⟨0, by decide +kernel⟩

/-- Process 0 alone, after a run that has left the entry of process 1 set. -/
def returnedEarly : State (sparcMsg .small) 2 :=
  (State.start .sparc (sparcMsg .small) noWork (dirty fun _ => 1)).runInit noWork
    [0, 0, 0, 0, 0, 0]

/-- It has returned, and the next step of process 1 resets the slot from 0 to 1. -/
theorem not_clean_returnedEarly :
    (system .sparc (sparcMsg .small) noWork (dirty fun _ => 1)).Reachable returnedEarly ∧
      returnedEarly.code 0 = [] ∧ returnedEarly.done 1 = [] ∧
      (returnedEarly.memInitStep noWork 1).done 1 = [.resetSlot 0] ∧
      ¬ Clean .sparc noWork (dirty fun _ => 1) returnedEarly := by
  have hreach : (system .sparc (sparcMsg .small) noWork (dirty fun _ => 1)).Reachable
      returnedEarly := reachable_runInit (TransSys.Reachable.init rfl) _
  exact ⟨hreach, by decide +kernel, by decide +kernel, by decide +kernel,
    not_clean (p := 0) (q := 1) (by decide) hreach rfl⟩

end Startup
end Ssmp
