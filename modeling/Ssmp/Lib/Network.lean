import Mathlib.Data.Fintype.Basic
import Ssmp.Lib.OneSlot
import Ssmp.Lib.RoundRobin
import Ssmp.Lib.TransSys

/-!
# Network — programs that communicate through one-place channels

Every ordered pair of processes has a one-place buffer (`OnePlace`).  A process is a program of six
kinds of actions: it puts a message where there is room, overwrites what is there, takes a message
from one process, scans several processes in turn from where its last scan stopped, meets the others
at a barrier, or stops.  The steps of the processes interleave.

The runs can be computed (`execs`).  This module says what a step leaves as it is and proves that a
network that overwrites only empty places delivers on every pair what was put, in order and once
(`fifo_of_safe`).
-/

namespace Ssmp
namespace Lib

universe u v w

namespace OnePlace

variable {M : Type*}

/-- `m` is put in, over what may be there. -/
def write (m : M) (b : OnePlace M) : OnePlace M where
  place := some m
  ins := b.ins ++ [m]
  outs := b.outs

/-- `m` is taken out. -/
def clear (m : M) (b : OnePlace M) : OnePlace M where
  place := none
  ins := b.ins
  outs := b.outs ++ [m]

def empty : OnePlace M where
  place := none
  ins := []
  outs := []

@[simp] theorem write_place (m : M) (b : OnePlace M) : (b.write m).place = some m := rfl
@[simp] theorem write_ins (m : M) (b : OnePlace M) : (b.write m).ins = b.ins ++ [m] := rfl
@[simp] theorem write_outs (m : M) (b : OnePlace M) : (b.write m).outs = b.outs := rfl
@[simp] theorem clear_place (m : M) (b : OnePlace M) : (b.clear m).place = none := rfl
@[simp] theorem clear_ins (m : M) (b : OnePlace M) : (b.clear m).ins = b.ins := rfl
@[simp] theorem clear_outs (m : M) (b : OnePlace M) : (b.clear m).outs = b.outs ++ [m] := rfl
@[simp] theorem empty_place : (empty : OnePlace M).place = none := rfl
@[simp] theorem empty_ins : (empty : OnePlace M).ins = [] := rfl
@[simp] theorem empty_outs : (empty : OnePlace M).outs = [] := rfl

variable {b : OnePlace M} {m : M}

theorem Fifo.write (h : b.Fifo) (hfree : b.place = none) : (b.write m).Fifo := by
  have heq : b.ins = b.outs := by simpa [Fifo, hfree] using h
  simp [Fifo, heq]

theorem Fifo.clear (h : b.Fifo) (hm : b.place = some m) : (b.clear m).Fifo := by
  have heq : b.ins = b.outs ++ [m] := by simpa [Fifo, hm] using h
  simp [Fifo, heq]

theorem Fifo.outs_isPrefix (h : b.Fifo) : b.outs <+: b.ins :=
  ⟨_, h.symm⟩

/-- Everything put in has been taken out, if nothing is there. -/
theorem Fifo.ins_eq (h : b.Fifo) (hfree : b.place = none) : b.ins = b.outs := by
  simpa [Fifo, hfree] using h

theorem Fifo.place_eq_none (h : b.Fifo) : b.place = none ↔ b.ins = b.outs := by
  cases hp : b.place with
  | none => simp [h.ins_eq hp]
  | some m =>
      have heq : b.ins = b.outs ++ [m] := by simpa [Fifo, hp] using h
      simp [heq]

end OnePlace

/-! ## Programs -/

/-- What a process does next, and where it goes on. -/
inductive Action (P : Type u) (M : Type v) (σ : Type w) where
  /-- Wait for an empty place and put `m` there. -/
  | put (dst : P) (m : M) (k : σ)
  /-- Put `m` there without a test. -/
  | overwrite (dst : P) (m : M) (k : σ)
  /-- Wait for a message of `src` and take it. -/
  | take (src : P) (k : M → σ)
  /-- Test the processes `srcs` one after the other, over and over, and take the first message
  found. -/
  | scan (srcs : List P) (k : P → M → σ)
  /-- Wait until every process of the group has come to the barrier as often. -/
  | meet (k : σ)
  | stop

/-- A program for every process, by its location, and the group that meets at the barrier. -/
structure Network (P : Type u) (M : Type v) (σ : Type w) where
  next : P → σ → Action P M σ
  group : P → Bool
  start : P → σ

namespace Network

variable {P : Type u} {M : Type v} {σ : Type w}

/-- The locations of the processes, the places, and for every process the index at which its next
scan begins, how often it has come to the barrier, and whether it waits there. -/
structure State (P : Type u) (M : Type v) (σ : Type w) where
  loc : P → σ
  chan : P × P → OnePlace M
  cursor : P → Nat
  met : P → Nat
  waits : P → Bool

namespace State

variable [DecidableEq P] (p : P) (s : State P M σ)

def goto (k : σ) : State P M σ :=
  { s with loc := Function.update s.loc p k }

def onChan (pq : P × P) (f : OnePlace M → OnePlace M) : State P M σ :=
  { s with chan := Function.update s.chan pq (f (s.chan pq)) }

def seek (c : Nat) : State P M σ :=
  { s with cursor := Function.update s.cursor p c }

def arrive : State P M σ :=
  { s with
    met := Function.update s.met p (s.met p + 1)
    waits := Function.update s.waits p true }

def leave : State P M σ :=
  { s with waits := Function.update s.waits p false }

end State

section Simp

variable [DecidableEq P] {p q : P} {s : State P M σ} {k : σ} {c : Nat} {pq rs : P × P}
variable {f : OnePlace M → OnePlace M}

@[simp] theorem goto_loc_self : (s.goto p k).loc p = k := Function.update_self _ _ _
theorem goto_loc_ne (hq : q ≠ p) : (s.goto p k).loc q = s.loc q := Function.update_of_ne hq _ _

/-- Where `p` does not go to is as it was. -/
theorem loc_of_goto {l : σ} (hloc : (s.goto p k).loc q = l) (hne : k ≠ l) : s.loc q = l := by
  have hq : q ≠ p := by
    rintro rfl
    exact hne (goto_loc_self.symm.trans hloc)
  rwa [goto_loc_ne hq] at hloc

@[simp] theorem goto_chan : (s.goto p k).chan = s.chan := rfl
@[simp] theorem goto_cursor : (s.goto p k).cursor = s.cursor := rfl
@[simp] theorem goto_met : (s.goto p k).met = s.met := rfl
@[simp] theorem goto_waits : (s.goto p k).waits = s.waits := rfl

theorem onChan_chan : (s.onChan pq f).chan rs = if rs = pq then f (s.chan pq) else s.chan rs :=
  Function.update_apply _ _ _ _
@[simp] theorem onChan_chan_self : (s.onChan pq f).chan pq = f (s.chan pq) :=
  Function.update_self _ _ _
theorem onChan_chan_ne (h : rs ≠ pq) : (s.onChan pq f).chan rs = s.chan rs :=
  Function.update_of_ne h _ _
@[simp] theorem onChan_loc : (s.onChan pq f).loc = s.loc := rfl
@[simp] theorem onChan_cursor : (s.onChan pq f).cursor = s.cursor := rfl
@[simp] theorem onChan_met : (s.onChan pq f).met = s.met := rfl
@[simp] theorem onChan_waits : (s.onChan pq f).waits = s.waits := rfl

@[simp] theorem ins_clear {m : M} : ((s.onChan pq (.clear m)).chan rs).ins = (s.chan rs).ins := by
  rw [onChan_chan]
  split
  · rename_i heq
    rw [heq, OnePlace.clear_ins]
  · rfl

@[simp] theorem outs_write {m : M} :
    ((s.onChan pq (.write m)).chan rs).outs = (s.chan rs).outs := by
  rw [onChan_chan]
  split
  · rename_i heq
    rw [heq, OnePlace.write_outs]
  · rfl

theorem ins_write {m : M} : ((s.onChan pq (.write m)).chan rs).ins =
    (s.chan rs).ins ++ if rs = pq then [m] else [] := by
  rw [onChan_chan]
  split
  · rename_i heq
    rw [heq, OnePlace.write_ins]
  · rw [List.append_nil]

theorem outs_clear {m : M} : ((s.onChan pq (.clear m)).chan rs).outs =
    (s.chan rs).outs ++ if rs = pq then [m] else [] := by
  rw [onChan_chan]
  split
  · rename_i heq
    rw [heq, OnePlace.clear_outs]
  · rw [List.append_nil]

@[simp] theorem seek_cursor_self : (s.seek p c).cursor p = c := Function.update_self _ _ _
theorem seek_cursor_ne (hq : q ≠ p) : (s.seek p c).cursor q = s.cursor q :=
  Function.update_of_ne hq _ _
@[simp] theorem seek_loc : (s.seek p c).loc = s.loc := rfl
@[simp] theorem seek_chan : (s.seek p c).chan = s.chan := rfl
@[simp] theorem seek_met : (s.seek p c).met = s.met := rfl
@[simp] theorem seek_waits : (s.seek p c).waits = s.waits := rfl

@[simp] theorem arrive_loc : (s.arrive p).loc = s.loc := rfl
@[simp] theorem arrive_chan : (s.arrive p).chan = s.chan := rfl

@[simp] theorem leave_loc : (s.leave p).loc = s.loc := rfl
@[simp] theorem leave_chan : (s.leave p).chan = s.chan := rfl
@[simp] theorem leave_met : (s.leave p).met = s.met := rfl

end Simp

/-! ## Steps -/

section Steps

variable [DecidableEq P] (N : Network P M σ)

/-- One step of process `p`. -/
inductive Step : State P M σ → P → State P M σ → Prop where
  | put {s : State P M σ} {p d : P} {m : M} {k : σ} (h : N.next p (s.loc p) = .put d m k)
      (hfree : (s.chan (p, d)).place = none) :
      Step s p ((s.onChan (p, d) (.write m)).goto p k)
  | overwrite {s : State P M σ} {p d : P} {m : M} {k : σ}
      (h : N.next p (s.loc p) = .overwrite d m k) :
      Step s p ((s.onChan (p, d) (.write m)).goto p k)
  | take {s : State P M σ} {p r : P} {m : M} {k : M → σ} (h : N.next p (s.loc p) = .take r k)
      (hm : (s.chan (r, p)).place = some m) :
      Step s p ((s.onChan (r, p) (.clear m)).goto p (k m))
  | pass {s : State P M σ} {p r : P} {srcs : List P} {k : P → M → σ}
      (h : N.next p (s.loc p) = .scan srcs k) (hr : srcs[s.cursor p]? = some r)
      (hmiss : (s.chan (r, p)).place = none) :
      Step s p (s.seek p (s.cursor p + 1))
  | wrap {s : State P M σ} {p : P} {srcs : List P} {k : P → M → σ}
      (h : N.next p (s.loc p) = .scan srcs k) (hend : srcs.length ≤ s.cursor p) :
      Step s p (s.seek p 0)
  | hit {s : State P M σ} {p r : P} {m : M} {srcs : List P} {k : P → M → σ}
      (h : N.next p (s.loc p) = .scan srcs k) (hr : srcs[s.cursor p]? = some r)
      (hm : (s.chan (r, p)).place = some m) :
      Step s p (((s.onChan (r, p) (.clear m)).seek p
        (RoundRobin.next srcs.length (s.cursor p))).goto p (k r m))
  | arrive {s : State P M σ} {p : P} {k : σ} (h : N.next p (s.loc p) = .meet k)
      (hout : s.waits p = false) : Step s p (s.arrive p)
  | leave {s : State P M σ} {p : P} {k : σ} (h : N.next p (s.loc p) = .meet k)
      (hin : s.waits p = true) (hall : ∀ q, N.group q = true → s.met p ≤ s.met q) :
      Step s p ((s.leave p).goto p k)

/-- At first every process is at its start, and nothing is on its way. -/
structure Init (s : State P M σ) : Prop where
  loc : ∀ p, s.loc p = N.start p
  chan : ∀ pq, s.chan pq = OnePlace.empty
  cursor : ∀ p, s.cursor p = 0
  met : ∀ p, s.met p = 0
  waits : ∀ p, s.waits p = false

def system : TransSys (State P M σ) P where
  init := N.Init
  step := N.Step

end Steps

/-! ## What a step leaves as it is -/

section Frames

variable [DecidableEq P] {N : Network P M σ} {s t : State P M σ} {p q i j : P}

theorem Step.loc_ne (h : N.Step s p t) (hq : q ≠ p) : t.loc q = s.loc q := by
  cases h with
  | put _ _ => exact goto_loc_ne hq
  | overwrite _ => exact goto_loc_ne hq
  | take _ _ => exact goto_loc_ne hq
  | hit _ _ _ => exact goto_loc_ne hq
  | leave _ _ _ => exact goto_loc_ne hq
  | _ => rfl

/-- From `s` to `t` nothing changes that only process `q` changes: its location, what it has put into
its channels and what it has taken from them. -/
structure SameAt (q : P) (s t : State P M σ) : Prop where
  loc : t.loc q = s.loc q
  ins : ∀ d, (t.chan (q, d)).ins = (s.chan (q, d)).ins
  outs : ∀ r, (t.chan (r, q)).outs = (s.chan (r, q)).outs

theorem Step.sameAt (h : N.Step s p t) (hq : q ≠ p) : SameAt q s t := by
  have hsend : ∀ d d' : P, (q, d) ≠ (p, d') := fun _ _ heq => hq (Prod.mk.inj heq).1
  have hrecv : ∀ r r' : P, (r, q) ≠ (r', p) := fun _ _ heq => hq (Prod.mk.inj heq).2
  refine ⟨h.loc_ne hq, ?_, ?_⟩
  · intro d
    cases h with
    | put _ _ => rw [goto_chan, ins_write, if_neg (hsend _ _), List.append_nil]
    | overwrite _ => rw [goto_chan, ins_write, if_neg (hsend _ _), List.append_nil]
    | take _ _ => rw [goto_chan, ins_clear]
    | hit _ _ _ => rw [goto_chan, seek_chan, ins_clear]
    | _ => rfl
  · intro r
    cases h with
    | put _ _ => rw [goto_chan, outs_write]
    | overwrite _ => rw [goto_chan, outs_write]
    | take _ _ => rw [goto_chan, outs_clear, if_neg (hrecv _ _), List.append_nil]
    | hit _ _ _ => rw [goto_chan, seek_chan, outs_clear, if_neg (hrecv _ _), List.append_nil]
    | _ => rfl

/-- What a step of process `p` with the action `a` does. -/
def Effect (N : Network P M σ) (s : State P M σ) (p : P) (a : Action P M σ) (t : State P M σ) :
    Prop :=
  match a with
  | .put d m k => (s.chan (p, d)).place = none ∧ t = (s.onChan (p, d) (.write m)).goto p k
  | .overwrite d m k => t = (s.onChan (p, d) (.write m)).goto p k
  | .take r k =>
      ∃ m, (s.chan (r, p)).place = some m ∧ t = (s.onChan (r, p) (.clear m)).goto p (k m)
  | .scan srcs k =>
      (∃ c, t = s.seek p c) ∨ ∃ r ∈ srcs, ∃ m c, (s.chan (r, p)).place = some m ∧
        t = ((s.onChan (r, p) (.clear m)).seek p c).goto p (k r m)
  | .meet k =>
      s.waits p = false ∧ t = s.arrive p ∨
        s.waits p = true ∧ (∀ q, N.group q = true → s.met p ≤ s.met q) ∧ t = (s.leave p).goto p k
  | .stop => False

theorem Step.effect (h : N.Step s p t) : N.Effect s p (N.next p (s.loc p)) t := by
  cases h with
  | put h hfree => rw [h]; exact ⟨hfree, rfl⟩
  | overwrite h => rw [h]; exact rfl
  | take h hm => rw [h]; exact ⟨_, hm, rfl⟩
  | pass h hr hmiss => rw [h]; exact Or.inl ⟨_, rfl⟩
  | wrap h hend => rw [h]; exact Or.inl ⟨_, rfl⟩
  | hit h hr hm => rw [h]; exact Or.inr ⟨_, List.mem_of_getElem? hr, _, _, hm, rfl⟩
  | arrive h hout => rw [h]; exact Or.inl ⟨hout, rfl⟩
  | leave h hin hall => rw [h]; exact Or.inr ⟨hin, hall, rfl⟩

/-- Whatever is overwritten in a reachable state is an empty place. -/
def Safe (N : Network P M σ) (s : State P M σ) : Prop :=
  ∀ p d m k, N.next p (s.loc p) = .overwrite d m k → (s.chan (p, d)).place = none

theorem fifo_onChan {f : OnePlace M → OnePlace M} {pq : P × P}
    (h : ∀ ij, (s.chan ij).Fifo) (hf : (f (s.chan pq)).Fifo) (ij : P × P) :
    ((s.onChan pq f).chan ij).Fifo := by
  rw [onChan_chan]
  split
  · exact hf
  · exact h ij

theorem Step.fifo (h : N.Step s p t) (hsafe : N.Safe s) (hfifo : ∀ ij, (s.chan ij).Fifo) :
    ∀ ij, (t.chan ij).Fifo := by
  cases h with
  | put _ hfree => exact fifo_onChan hfifo ((hfifo _).write hfree)
  | overwrite h => exact fifo_onChan hfifo ((hfifo _).write (hsafe _ _ _ _ h))
  | take _ hm => exact fifo_onChan hfifo ((hfifo _).clear hm)
  | hit _ _ hm => exact fifo_onChan hfifo ((hfifo _).clear hm)
  | _ => exact hfifo

omit [DecidableEq P] in
theorem Init.fifo (h : N.Init s) (ij : P × P) : (s.chan ij).Fifo := by
  rw [h.chan]
  rfl

/-- If nothing but empty places is ever overwritten, every pair is a FIFO buffer. -/
theorem fifo_of_safe (hsafe : ∀ s, N.system.Reachable s → N.Safe s) (h : N.system.Reachable s)
    (ij : P × P) : (s.chan ij).Fifo := by
  have hall : ∀ ij, (s.chan ij).Fifo := by
    induction h with
    | init h0 => exact h0.fifo
    | step hr hst ih => exact Step.fifo hst (hsafe _ hr) ih
  exact hall ij

/-- The process has something to do: its action is possible now, or a scan will find a message. -/
def Ready (N : Network P M σ) (s : State P M σ) (p : P) : Prop :=
  match N.next p (s.loc p) with
  | .put d _ _ => (s.chan (p, d)).place = none
  | .overwrite _ _ _ => True
  | .take r _ => (s.chan (r, p)).place ≠ none
  | .scan srcs _ => ∃ r ∈ srcs, (s.chan (r, p)).place ≠ none
  | .meet _ => s.waits p = true → ∀ q, N.group q = true → s.met p ≤ s.met q
  | .stop => False

end Frames

/-! ## Computed runs -/

/-- The state in which every run begins. -/
def fresh (N : Network P M σ) : State P M σ where
  loc := N.start
  chan _ := OnePlace.empty
  cursor _ := 0
  met _ := 0
  waits _ := false

section Exec

variable [DecidableEq P] [Fintype P] {N : Network P M σ} {s t : State P M σ} {p : P}

/-- The step of process `p`, if it can make one. -/
def exec (N : Network P M σ) (s : State P M σ) (p : P) : Option (State P M σ) :=
  match N.next p (s.loc p) with
  | .put d m k =>
      match (s.chan (p, d)).place with
      | none => some ((s.onChan (p, d) (.write m)).goto p k)
      | some _ => none
  | .overwrite d m k => some ((s.onChan (p, d) (.write m)).goto p k)
  | .take r k =>
      match (s.chan (r, p)).place with
      | none => none
      | some m => some ((s.onChan (r, p) (.clear m)).goto p (k m))
  | .scan srcs k =>
      match srcs[s.cursor p]? with
      | none => some (s.seek p 0)
      | some r =>
          match (s.chan (r, p)).place with
          | none => some (s.seek p (s.cursor p + 1))
          | some m =>
              some (((s.onChan (r, p) (.clear m)).seek p
                (RoundRobin.next srcs.length (s.cursor p))).goto p (k r m))
  | .meet k =>
      if s.waits p = true then
        if ∀ q, N.group q = true → s.met p ≤ s.met q then some ((s.leave p).goto p k) else none
      else some (s.arrive p)
  | .stop => none

/-- The processes of the list make one step each. -/
def execs (N : Network P M σ) : List P → State P M σ → Option (State P M σ)
  | [], s => some s
  | p :: ps, s => (N.exec s p).bind (execs N ps)

omit [DecidableEq P] [Fintype P] in
theorem init_fresh : N.Init N.fresh where
  loc _ := rfl
  chan _ := rfl
  cursor _ := rfl
  met _ := rfl
  waits _ := rfl

theorem step_of_exec (h : N.exec s p = some t) : N.Step s p t := by
  unfold exec at h
  split at h
  · rename_i hnext
    split at h
    · cases h
      exact Step.put hnext ‹_›
    · cases h
  · rename_i hnext
    cases h
    exact Step.overwrite hnext
  · rename_i hnext
    split at h
    · cases h
    · cases h
      exact Step.take hnext ‹_›
  · rename_i hnext
    split at h
    · cases h
      exact Step.wrap hnext (List.getElem?_eq_none_iff.1 ‹_›)
    · split at h
      · cases h
        exact Step.pass hnext ‹_› ‹_›
      · cases h
        exact Step.hit hnext ‹_› ‹_›
  · rename_i hnext
    split at h
    · split at h
      · cases h
        exact Step.leave hnext ‹_› ‹_›
      · cases h
    · cases h
      exact Step.arrive hnext (Bool.eq_false_iff.2 ‹_›)
  · cases h

theorem reachable_execs {ps : List P} (hs : N.system.Reachable s) (h : N.execs ps s = some t) :
    N.system.Reachable t := by
  induction ps generalizing s with
  | nil =>
      cases h
      exact hs
  | cons p ps ih =>
      rcases Option.bind_eq_some_iff.1 h with ⟨u, hu, ht⟩
      exact ih (TransSys.Reachable.step hs (step_of_exec hu)) ht

/-- The state after a run from the beginning. -/
def after (N : Network P M σ) (ps : List P) : State P M σ :=
  (N.execs ps N.fresh).getD N.fresh

theorem reachable_after (ps : List P) : N.system.Reachable (N.after ps) := by
  have hfresh : N.system.Reachable N.fresh := TransSys.Reachable.init init_fresh
  unfold after
  cases h : N.execs ps N.fresh with
  | none => exact hfresh
  | some t => exact reachable_execs hfresh h

end Exec

end Network
end Lib
end Ssmp
