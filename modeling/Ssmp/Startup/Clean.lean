import Ssmp.Startup.Model

/-!
# Startup.Clean — a start-up that is over for everybody at once

If no process has a reset left as soon as one process has returned from `ssmp_mem_init`, then the
slots and chunks are handed over clean: everything is reset, nothing is reset again, and from there
on messages travel as in the systems of the other modules (`clean_of_settled`).  What makes the
hypothesis true is different on the two architectures.
-/

namespace Ssmp
namespace Startup

open Lib

/-! ## The order of the actions -/

namespace InitAct

variable {n : Nat}

/-- The place of an action in `ssmp_mem_init_platf`: resets, then the barrier, then the array. -/
def stage : InitAct n → Nat
  | resetSlot _ | resetChunk _ => 0
  | barrierWait _ => 1
  | setInitialized => 2
  | awaitInitialized _ => 3

/-- What may come before `b`; there is one wait at the barrier. -/
def Before (a b : InitAct n) : Prop :=
  a.stage ≤ b.stage ∧ (b.stage = 1 → a.stage = 0)

end InitAct

section Order

variable {A : Arch} {n : Nat} {id i core : Fin n}

/-- Resets, then at most one wait at the barrier, then the array. -/
theorem pairwise_before {resets : List (InitAct n)} (waits : List (InitAct n))
    (hresets : ∀ a ∈ resets, a.stage = 0) (hwaits : waits = [] ∨ ∃ b, waits = [.barrierWait b]) :
    (resets ++ (waits ++ InitAct.setInitialized ::
      (List.finRange n).map InitAct.awaitInitialized)).Pairwise InitAct.Before := by
  have hlast : ((List.finRange n).map InitAct.awaitInitialized).Pairwise InitAct.Before := by
    refine List.pairwise_map.2 (List.pairwise_of_forall ?_)
    simp [InitAct.Before, InitAct.stage]
  have htail : (waits ++ InitAct.setInitialized :: (List.finRange n).map
      InitAct.awaitInitialized).Pairwise InitAct.Before := by
    rcases hwaits with rfl | ⟨b, rfl⟩ <;>
      simp [List.pairwise_cons, hlast, InitAct.Before, InitAct.stage]
  refine List.pairwise_append.2 ⟨?_, htail, ?_⟩
  · refine List.pairwise_of_forall_mem_list ?_
    intro a ha b hb
    simp [InitAct.Before, hresets a ha]
  · intro a ha b _
    simp [InitAct.Before, hresets a ha]

/-- Before the barrier a process of x86 resets. -/
theorem mem_resets {a : InitAct n} (ha : a ∈ (List.finRange n).flatMap fun core =>
      InitAct.resetChunk core :: if id = core then [] else [InitAct.resetSlot core]) :
    ∃ core, a = .resetChunk core ∨ a = .resetSlot core := by
  rcases List.mem_flatMap.1 ha with ⟨core, _, hcore⟩
  rcases List.mem_cons.1 hcore with rfl | hslot
  · exact ⟨core, Or.inl rfl⟩
  · split at hslot
    · cases hslot
    · exact ⟨core, Or.inr (List.mem_singleton.1 hslot)⟩

theorem memInit_ordered (A : Arch) (id : Fin n) : (memInit A id).Pairwise InitAct.Before := by
  cases A with
  | x86 =>
      simp only [memInit, X86.ssmpMemInitPlatf]
      split
      · exact List.Pairwise.nil
      · refine pairwise_before [.barrierWait 0] ?_ (Or.inr ⟨0, rfl⟩)
        intro a ha
        rcases mem_resets ha with ⟨core, rfl | rfl⟩ <;> rfl
  | sparc =>
      have hresets : ∀ a ∈ (List.finRange n).map InitAct.resetSlot ++ [.resetChunk id],
          a.stage = 0 := by
        intro a ha
        simp only [List.mem_append, List.mem_map, List.mem_singleton] at ha
        rcases ha with ⟨core, _, rfl⟩ | rfl <;> rfl
      simpa [memInit, Sparc.ssmpMemInitPlatf] using pairwise_before [] hresets (Or.inl rfl)

theorem mem_resetSlot : .resetSlot i ∈ memInit A id ↔ (A = .x86 → n ≠ 1 ∧ id ≠ i) := by
  cases A with
  | x86 =>
      by_cases hn : n = 1
      · simp [memInit, X86.ssmpMemInitPlatf, hn]
      · by_cases hid : id = i
        · subst hid
          simp [memInit, X86.ssmpMemInitPlatf, hn]
        · simp [memInit, X86.ssmpMemInitPlatf, hn, hid]
  | sparc => simp [memInit, Sparc.ssmpMemInitPlatf]

theorem mem_resetChunk (hn : n ≠ 1) :
    .resetChunk core ∈ memInit A id ↔ (A = .sparc → core = id) := by
  cases A with
  | x86 => simp [memInit, X86.ssmpMemInitPlatf, hn]
  | sparc => simp [memInit, Sparc.ssmpMemInitPlatf]

end Order

/-! ## Steps -/

section Steps

variable {L : MsgLayout} {n : Nat} {A : Arch} {W : Work n} {M : Leftover n}
variable {s t : State L n} {l : Label n} {me p : Fin n}

/-- What a step of `ssmp_mem_init` does to the code: nothing, or it takes the head away. -/
theorem memInitStep_code (s : State L n) (me : Fin n) :
    ((s.memInitStep W me).code = s.code ∧ (s.memInitStep W me).done = s.done) ∨
      ∃ a rest, s.code me = a :: rest ∧
        (s.memInitStep W me).code = Function.update s.code me rest ∧
        (s.memInitStep W me).done = Function.update s.done me (s.done me ++ [a]) := by
  cases hcode : s.code me with
  | nil => exact Or.inl (by simp [State.memInitStep, hcode])
  | cons a rest =>
      cases a with
      | resetSlot core =>
          exact Or.inr ⟨_, rest, rfl, by simp [State.memInitStep, hcode, State.next]⟩
      | resetChunk core =>
          exact Or.inr ⟨_, rest, rfl, by simp [State.memInitStep, hcode, State.next]⟩
      | setInitialized =>
          exact Or.inr ⟨_, rest, rfl, by simp [State.memInitStep, hcode, State.next]⟩
      | barrierWait b =>
          by_cases hret : s.barrier.pc me = .ret b
          · exact Or.inr ⟨_, rest, rfl, by simp [State.memInitStep, hcode, State.next, hret]⟩
          · exact Or.inl (by simp [State.memInitStep, hcode, hret])
      | awaitInitialized ue =>
          by_cases hue : s.uesInitialized ue = 0
          · exact Or.inl (by simp [State.memInitStep, hcode, hue])
          · exact Or.inr ⟨_, rest, rfl, by simp [State.memInitStep, hcode, State.next, hue]⟩

theorem step_code (h : Step W s l t) :
    (t.code = s.code ∧ t.done = s.done) ∨
      ∃ me a rest, s.code me = a :: rest ∧ t.code = Function.update s.code me rest ∧
        t.done = Function.update s.done me (s.done me ++ [a]) := by
  cases h with
  | memInit => exact (memInitStep_code s _).imp_right fun h => ⟨_, h⟩
  | small => exact Or.inl ⟨rfl, rfl⟩
  | big => exact Or.inl ⟨rfl, rfl⟩
  | barrier => exact Or.inl ⟨rfl, rfl⟩

/-- A process that has returned from `ssmp_mem_init` does not come back to it. -/
theorem returned_step (h : Step W s l t) (hp : s.code p = []) : t.code p = [] := by
  rcases step_code h with ⟨hcode, _⟩ | ⟨me, a, rest, hme, hcode, _⟩
  · rw [hcode, hp]
  · have hne : p ≠ me := by
      rintro rfl
      rw [hp] at hme
      cases hme
    rw [hcode, Function.update_of_ne hne, hp]

theorem returned_steps (h : (system A L W M).Steps s t) (hp : s.code p = []) : t.code p = [] := by
  induction h with
  | refl => exact hp
  | tail _ hlast ih =>
      rcases hlast with ⟨l, hl⟩
      exact returned_step hl ih

/-- What is done and what is left make up the call. -/
theorem done_append_code (h : (system A L W M).Reachable s) (p : Fin n) :
    s.done p ++ s.code p = memInit A p := by
  induction h with
  | @init s h0 =>
      have hstart : s = State.start A L W M := h0
      subst hstart
      rfl
  | step _ hst ih =>
      rcases step_code hst with ⟨hcode, hdone⟩ | ⟨me, a, rest, hme, hcode, hdone⟩
      · rw [hcode, hdone, ih]
      · rw [hcode, hdone]
        by_cases hp : p = me
        · subst hp
          rw [Function.update_self, Function.update_self, ← ih, hme]
          simp
        · rw [Function.update_of_ne hp, Function.update_of_ne hp, ih]

theorem code_ordered (h : (system A L W M).Reachable s) (p : Fin n) :
    (s.code p).Pairwise InitAct.Before := by
  have hall := memInit_ordered A p
  rw [← done_append_code h p] at hall
  exact (List.pairwise_append.1 hall).2.1

/-! ## Settled states -/

/-- No process has a reset left. -/
def State.Settled (s : State L n) : Prop :=
  ∀ p, ∀ a ∈ s.code p, a.isReset = false

theorem mem_done (h : (system A L W M).Reachable s) (hset : s.Settled) {a : InitAct n}
    (ha : a ∈ memInit A p) (hreset : a.isReset = true) : a ∈ s.done p := by
  rw [← done_append_code h p] at ha
  rcases List.mem_append.1 ha with hdone | hleft
  · exact hdone
  · rw [hset p a hleft] at hreset
    cases hreset

theorem resets_done (h : (system A L W M).Reachable s) (hset : s.Settled) (p : Fin n) :
    (s.done p).filter InitAct.isReset = (memInit A p).filter InitAct.isReset := by
  have hnone : (s.code p).filter InitAct.isReset = [] := by
    refine List.filter_eq_nil_iff.2 ?_
    intro a ha
    simp [hset p a ha]
  rw [← done_append_code h p, List.filter_append, hnone, List.append_nil]

/-- An action that is no reset leaves slots and chunks alone. -/
theorem memInitStep_keeps (me : Fin n) (h : ∀ a ∈ (s.code me).head?, a.isReset = false) :
    (s.memInitStep W me).sys = s.sys ∧ (s.memInitStep W me).big = s.big := by
  cases hcode : s.code me with
  | nil => simp [State.memInitStep, hcode]
  | cons a rest =>
      have hreset := h a (by simp [hcode])
      cases a with
      | resetSlot core => cases hreset
      | resetChunk core => cases hreset
      | setInitialized => simp [State.memInitStep, hcode, State.next]
      | barrierWait b =>
          by_cases hret : s.barrier.pc me = .ret b <;>
            simp [State.memInitStep, hcode, State.next, hret]
      | awaitInitialized ue =>
          by_cases hue : s.uesInitialized ue = 0 <;>
            simp [State.memInitStep, hcode, State.next, hue]

theorem State.Settled.head (hset : s.Settled) (me : Fin n) :
    ∀ a ∈ (s.code me).head?, a.isReset = false :=
  fun a ha => hset me a (List.mem_of_mem_head? ha)

/-! ## Before the first call -/

/-- The slots and chunks that have been reset are, and nobody has used any. -/
structure Unstarted (A : Arch) (W : Work n) (s : State L n) : Prop where
  proc : s.sys.proc = (Sys.fresh L n).proc
  sent : ∀ ij, s.sys.sent ij = []
  recvd : ∀ ij, s.sys.recvd ij = []
  slot : ∀ i j, .resetSlot i ∈ s.done j ∨ .resetSlot i ∉ memInit A j →
    L.stateOf (s.sys.slot (i, j)) = ssmpBufEmpty
  big : ∀ core, ∃ chunk,
    s.big core = { Big.State.fresh (W.sends core) (W.asks core) with chunk := chunk }
  chunk : ∀ core p, .resetChunk core ∈ s.done p → (s.big core).flag W.chunkSize = 0

/-- On x86 a process has no slot for itself. -/
theorem slotAt_self (m : Memory) {i j : Fin n} (h : .resetSlot i ∉ memInit A j) :
    A.slotAt n m (i, j) = fun _ => 0 := by
  rw [mem_resetSlot] at h
  cases A with
  | sparc => simp at h
  | x86 =>
      by_cases hn : n = 1
      · simp [Arch.slotAt, Arch.ssmpMemInitPlatf, Ssmp.X86.ssmpMemInitPlatf, hn]
      · have hij : j = i := by simpa [hn] using h
        have hnone : fillBuf (fun core => core == i.val)
            (fun core => { file := core, index := if core < i then i - 1 else i }) n i = none :=
          fillBuf_skip (by simp)
        subst hij
        simp [Arch.slotAt, Arch.ssmpMemInitPlatf, Ssmp.X86.ssmpMemInitPlatf, hn, hnone]

theorem Unstarted.start : Unstarted A W (State.start A L W M) := by
  refine ⟨rfl, fun _ => rfl, fun _ => rfl, ?_, fun core => ⟨M.chunk core, rfl⟩, ?_⟩
  · rintro i j (hdone | hnot)
    · cases hdone
    · simp only [State.start, slotAt_self M.messages hnot]
      rfl
  · intro core p hdone
    cases hdone

theorem Unstarted.congr (h : Unstarted A W s) (hsys : t.sys = s.sys) (hbig : t.big = s.big)
    (hdone : ∀ p, ∀ a ∈ t.done p, a.isReset = true → a ∈ s.done p) : Unstarted A W t := by
  refine ⟨by rw [hsys, h.proc], by simpa [hsys] using h.sent, by simpa [hsys] using h.recvd, ?_,
    by simpa [hbig] using h.big, ?_⟩
  · rintro i j hij
    rw [hsys]
    exact h.slot i j (hij.imp_left fun hmem => hdone j _ hmem rfl)
  · intro core p hmem
    rw [hbig]
    exact h.chunk core p (hdone p _ hmem rfl)

/-- The actions done after `me` has done `a`. -/
theorem mem_next {a b : InitAct n} {done : Fin n → List (InitAct n)}
    (h : b ∈ Function.update done me (done me ++ [a]) p) : b ∈ done p ∨ (p = me ∧ b = a) := by
  by_cases hp : p = me
  · subst hp
    simpa using h
  · exact Or.inl (by simpa [hp] using h)

theorem Unstarted.keeps (h : Unstarted A W s) (me : Fin n)
    (hhead : ∀ a ∈ (s.code me).head?, a.isReset = false) :
    Unstarted A W (s.memInitStep W me) := by
  rcases memInitStep_keeps (W := W) me hhead with ⟨hsys, hbig⟩
  refine h.congr hsys hbig ?_
  intro p b hb hreset
  rcases memInitStep_code (W := W) s me with ⟨_, hdone⟩ | ⟨a, rest, hcode, _, hdone⟩
  · rwa [hdone] at hb
  · rw [hdone] at hb
    rcases mem_next hb with hold | ⟨_, rfl⟩
    · exact hold
    · -- the action is the head, which is no reset
      rw [hhead b (by simp [hcode])] at hreset
      cases hreset

theorem Unstarted.memInitStep (h : Unstarted A W s) (me : Fin n) :
    Unstarted A W (s.memInitStep W me) := by
  cases hcode : s.code me with
  | nil => exact h.keeps me (by simp [hcode])
  | cons a rest =>
      cases a with
      | setInitialized => exact h.keeps me (by simp [hcode, InitAct.isReset])
      | barrierWait b => exact h.keeps me (by simp [hcode, InitAct.isReset])
      | awaitInitialized ue => exact h.keeps me (by simp [hcode, InitAct.isReset])
      | resetSlot core =>
          simp only [State.memInitStep, hcode]
          refine ⟨h.proc, h.sent, h.recvd, ?_, h.big, ?_⟩
          · rintro i j hij
            by_cases hhere : (i, j) = (core, me)
            · rw [hhere]
              simp [Sys.setFlag, Sys.setSlot, SlotRef.pair, ssmpBufEmpty]
            · -- another slot has been reset before, if at all
              have hbefore : .resetSlot i ∈ s.done j ∨ .resetSlot i ∉ memInit A j := by
                refine hij.imp_left fun hmem => ?_
                rcases mem_next hmem with hold | ⟨rfl, heq⟩
                · exact hold
                · cases heq
                  exact absurd rfl hhere
              have hslot := h.slot i j hbefore
              simpa [Sys.setFlag, Sys.setSlot, SlotRef.pair, hhere] using hslot
          · intro core' p hmem
            rcases mem_next hmem with hold | ⟨_, heq⟩
            · exact h.chunk core' p hold
            · cases heq
      | resetChunk core =>
          simp only [State.memInitStep, hcode]
          refine ⟨h.proc, h.sent, h.recvd, ?_, ?_, ?_⟩
          · rintro i j hij
            refine h.slot i j (hij.imp_left fun hmem => ?_)
            rcases mem_next hmem with hold | ⟨_, heq⟩
            · exact hold
            · cases heq
          · intro core'
            by_cases hcore : core' = core
            · subst hcore
              rcases h.big core' with ⟨chunk, hbig⟩
              refine ⟨Function.update chunk (W.chunkSize - 1) 0, ?_⟩
              simp only [Function.update_self, hbig]
            · simpa [hcore] using h.big core'
          · intro core' p hmem
            by_cases hcore : core' = core
            · subst hcore
              simp [Big.State.flag]
            · simp only [Function.update_of_ne hcore]
              rcases mem_next hmem with hold | ⟨_, heq⟩
              · exact h.chunk core' p hold
              · cases heq
                exact absurd rfl hcore

/-- If nothing is left to reset, the slots and chunks are as the other modules expect them. -/
theorem Unstarted.small_init (h : Unstarted A W s) (hreach : (system A L W M).Reachable s)
    (hset : s.Settled) : s.sys.Init := by
  refine ⟨?_, ?_, ?_, ?_, ?_, h.sent, h.recvd⟩
  · rintro ⟨i, j⟩
    refine h.slot i j ?_
    by_cases hmem : .resetSlot i ∈ memInit A j
    · exact Or.inl (mem_done hreach hset hmem rfl)
    · exact Or.inr hmem
  · intro p
    rw [h.proc]
    rfl
  · intro p
    rw [h.proc]
    rfl
  · intro p d
    rw [h.proc]
    rfl
  · intro p
    rw [h.proc]
    rfl

theorem Unstarted.big_init (h : Unstarted A W s) (hreach : (system A L W M).Reachable s)
    (hset : s.Settled) (hn : n ≠ 1) (core : Fin n) :
    (s.big core).Init W.chunkSize (W.sends core) (W.asks core) := by
  have hflag : (s.big core).flag W.chunkSize = 0 := by
    refine h.chunk core core (mem_done hreach hset ?_ rfl)
    exact (mem_resetChunk hn).2 fun _ => rfl
  rcases h.big core with ⟨chunk, hbig⟩
  rw [hbig] at hflag ⊢
  exact ⟨hflag, rfl, rfl, rfl, fun _ => rfl, rfl, rfl, rfl, fun _ => rfl, fun _ => rfl⟩

/-! ## The handover -/

/-- Slots and chunks are handed over clean. -/
structure Clean (A : Arch) (W : Work n) (M : Leftover n) (s : State L n) : Prop where
  /-- Every slot has been reset by its receiver, -/
  slots : ∀ i j, i ≠ j → .resetSlot i ∈ s.done j
  /-- and every chunk by its owner, -/
  chunks : ∀ core, .resetChunk core ∈ s.done core
  /-- as all the resets that `ssmp_mem_init` has. -/
  all : ∀ p, ∀ a ∈ memInit A p, a.isReset = true → a ∈ s.done p
  /-- No state is reset again. -/
  last : ∀ t, (system A L W M).Steps s t →
    ∀ p, (t.done p).filter InitAct.isReset = (s.done p).filter InitAct.isReset
  /-- The messages have travelled as if there had been no start-up. -/
  small : (Ssmp.system L n W.prog).Reachable s.sys
  big : ∀ core,
    (Big.system W.chunkSize W.moves (W.sends core) (W.asks core)).Reachable (s.big core)

/-- Either nobody has used a slot, or the calls have begun at clean slots. -/
theorem unstarted_or_small (hn : n ≠ 1)
    (hkey : ∀ s : State L n, (system A L W M).Reachable s → (∃ p, s.code p = []) → s.Settled)
    (h : (system A L W M).Reachable s) :
    Unstarted A W s ∨
      (∃ p, s.code p = []) ∧ (Ssmp.system L n W.prog).Reachable s.sys ∧
        ∀ core,
          (Big.system W.chunkSize W.moves (W.sends core) (W.asks core)).Reachable (s.big core) := by
  induction h with
  | @init s h0 =>
      have hstart : s = State.start A L W M := h0
      rw [hstart]
      exact Or.inl Unstarted.start
  | @step s t l hreach hst ih =>
      -- once somebody has returned, both systems have begun
      have hbegun : (∃ p, s.code p = []) → (Ssmp.system L n W.prog).Reachable s.sys ∧
          ∀ core, (Big.system W.chunkSize W.moves (W.sends core)
            (W.asks core)).Reachable (s.big core) := by
        intro hreturned
        have hset := hkey s hreach hreturned
        rcases ih with hun | ⟨_, hsmall, hbig⟩
        · exact ⟨TransSys.Reachable.init (hun.small_init hreach hset),
            fun core => TransSys.Reachable.init (hun.big_init hreach hset hn core)⟩
        · exact ⟨hsmall, hbig⟩
      cases hst with
      | @memInit me =>
          rcases ih with hun | ⟨⟨p, hp⟩, hsmall, hbig⟩
          · exact Or.inl (hun.memInitStep me)
          · have hset := hkey s hreach ⟨p, hp⟩
            rcases memInitStep_keeps (W := W) me (hset.head me) with ⟨hsys, hbigs⟩
            rw [hsys, hbigs]
            exact Or.inr ⟨⟨p, returned_step Step.memInit hp⟩, hsmall, hbig⟩
      | @small me l u hdone hme hsys =>
          rcases hbegun ⟨me, hdone⟩ with ⟨hsmall, hbig⟩
          exact Or.inr ⟨⟨me, hdone⟩, TransSys.Reachable.step hsmall hsys, hbig⟩
      | @big me core party hdone hme =>
          rcases hbegun ⟨me, hdone⟩ with ⟨hsmall, hbig⟩
          refine Or.inr ⟨⟨me, hdone⟩, hsmall, ?_⟩
          intro core'
          by_cases hcore : core' = core
          · subst hcore
            simp only [Function.update_self]
            exact TransSys.Reachable.step (l := party) (hbig core') rfl
          · simpa [hcore] using hbig core'
      | @barrier me hdone =>
          rcases hbegun ⟨me, hdone⟩ with ⟨hsmall, hbig⟩
          exact Or.inr ⟨⟨me, hdone⟩, hsmall, hbig⟩

/-- A start-up that is over for all when it is over for one hands over clean slots and chunks. -/
theorem clean_of_settled (hn : n ≠ 1)
    (hkey : ∀ s : State L n, (system A L W M).Reachable s → (∃ p, s.code p = []) → s.Settled)
    (h : (system A L W M).Reachable s) (hreturned : ∃ p, s.code p = []) : Clean A W M s := by
  have hset := hkey s h hreturned
  have hboth : (Ssmp.system L n W.prog).Reachable s.sys ∧ ∀ core,
      (Big.system W.chunkSize W.moves (W.sends core) (W.asks core)).Reachable (s.big core) := by
    rcases unstarted_or_small hn hkey h with hun | ⟨_, hsmall, hbig⟩
    · exact ⟨TransSys.Reachable.init (hun.small_init h hset),
        fun core => TransSys.Reachable.init (hun.big_init h hset hn core)⟩
    · exact ⟨hsmall, hbig⟩
  refine ⟨?_, ?_, fun p a ha => mem_done h hset ha, ?_, hboth.1, hboth.2⟩
  · intro i j hij
    exact mem_done h hset (mem_resetSlot.2 fun _ => ⟨hn, Ne.symm hij⟩) rfl
  · intro core
    exact mem_done h hset ((mem_resetChunk hn).2 fun _ => rfl) rfl
  · intro t hsteps p
    rcases hreturned with ⟨q, hq⟩
    have hreach := h.steps hsteps
    rw [resets_done hreach (hkey t hreach ⟨q, returned_steps hsteps hq⟩), resets_done h hset]

end Steps

end Startup
end Ssmp
