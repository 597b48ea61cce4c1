import Ssmp.Barrier.Model
import Ssmp.Lib.PhaseBarrier

/-!
# Barrier.Phases — a barrier of the source is a phase barrier

Seen from one barrier, a state of the system is a state of `PhaseBarrier` for the participants
(`view`).  Every step of a process is a move there or invisible, so the invariant of `PhaseBarrier`
holds of the view of every reachable state.
-/

namespace Ssmp
namespace Barrier

open Lib
open PhaseBarrier (Stage Move Inv)

/-! ## The view of one barrier -/

/-- Where a process is, seen from barrier `b`. -/
def stageAt (b : Nat) : Pc → Stage
  | .idle | .waitClear _ _ => .out
  | .addTicket b' _ => if b' = b then .ready else .out
  | .setCleared b' => if b' = b then .last else .out
  | .waitSet b' => if b' = b then .held else .out
  | .subTicket b' => if b' = b then .go else .out
  | .resetCleared b' => if b' = b then .final else .out
  | .ret b' => if b' = b then .done else .out

/-- The state as barrier `b` sees it; the participants are those of `barriers b`. -/
def view {n : Nat} (barriers : Nat → SsmpBarrier) (b : Nat) (s : State n) :
    PhaseBarrier.State (Part (barriers b) n) where
  stage p := stageAt b (s.pc p)
  count := (s.barrier b).ticket.toNat
  flag := decide ((s.barrier b).cleared = 1)
  entered p := (s.arrived p).count b
  completed p := (s.returned p).count b

/-- Within a call on `b` past its first loop, process `p` is a participant and knows their
number. -/
def PcOk {n : Nat} (rec : SsmpBarrier) (b : Nat) (p : Fin n) : Pc → Prop
  | .waitClear b' numPart | .addTicket b' numPart =>
      b' = b → rec.member p = true ∧ numPart = UInt32.ofNat (Fintype.card (Part rec n))
  | .setCleared b' | .waitSet b' | .subTicket b' | .resetCleared b' =>
      b' = b → rec.member p = true
  | .idle | .ret _ => True

/-- What the view of barrier `b` leaves out. -/
structure WellFormed {n : Nat} (barriers : Nat → SsmpBarrier) (b : Nat) (s : State n) : Prop where
  color : (s.barrier b).color = (barriers b).color
  participants : (s.barrier b).participants = (barriers b).participants
  cleared : (s.barrier b).cleared = 0 ∨ (s.barrier b).cleared = 1
  pc : ∀ p, PcOk (barriers b) b p (s.pc p)

section View

variable {n : Nat} {barriers : Nat → SsmpBarrier} {todo : Fin n → List Nat} {b b' : Nat}
variable {s t : State n} {p : Fin n} {pc : Pc}

theorem setBarrier_self (s : State n) (b : Nat) (rec : SsmpBarrier) :
    (s.setBarrier b rec).barrier b = rec := Function.update_self _ _ _

theorem setBarrier_ne (s : State n) (rec : SsmpBarrier) (h : b' ≠ b) :
    (s.setBarrier b' rec).barrier b = s.barrier b := Function.update_of_ne (Ne.symm h) _ _

/-- Where a call begins, for the barrier at hand and for others. -/
theorem callPc_eq (hw : WellFormed barriers b s) (hcounts : (barriers b).Counts n)
    (hb : b < ssmpNumBarriers) (p : Fin n) :
    s.callPc p b =
      if (barriers b).member p then
        .waitClear b (UInt32.ofNat (Fintype.card (Part (barriers b) n)))
      else .ret b := by
  rw [State.callPc, if_neg (by omega), hw.color, hw.participants, hcounts p]
  -- color and bitmap are as they were at the start, so the count is that of `barriers b`
  cases (barriers b).member p <;> rfl

theorem stageAt_callPc (s : State n) (p : Fin n) (h : b' ≠ b) :
    stageAt b (s.callPc p b') = .out := by
  unfold State.callPc
  split
  · simp [stageAt, h]
  · split <;> simp [stageAt, h]

theorem pcOk_callPc (rec : SsmpBarrier) (s : State n) (p : Fin n) (h : b' ≠ b) :
    PcOk rec b p (s.callPc p b') := by
  unfold State.callPc
  split
  · trivial
  · split <;> simp [PcOk, h]

theorem WellFormed.init (h : s.Init barriers todo) (hcleared : (barriers b).cleared = 0) :
    WellFormed barriers b s := by
  refine ⟨by rw [h.barrier], by rw [h.barrier], Or.inl (by rw [h.barrier, hcleared]), ?_⟩
  intro p
  rw [h.pc]
  trivial

/-- A change of one program counter and of the two counters of a barrier. -/
theorem WellFormed.update (hw : WellFormed barriers b s) (hpc : t.pc = Function.update s.pc p pc)
    (hok : PcOk (barriers b) b p pc) (hcolor : (t.barrier b).color = (s.barrier b).color)
    (hpart : (t.barrier b).participants = (s.barrier b).participants)
    (hcleared : (t.barrier b).cleared = (s.barrier b).cleared ∨ (t.barrier b).cleared = 0 ∨
      (t.barrier b).cleared = 1) : WellFormed barriers b t := by
  refine ⟨hcolor.trans hw.color, hpart.trans hw.participants, ?_, ?_⟩
  · rcases hcleared with hsame | hval
    · rw [hsame]
      exact hw.cleared
    · exact hval
  · intro q
    rw [hpc]
    by_cases hq : q = p
    · subst hq
      rw [Function.update_self]
      exact hok
    · rw [Function.update_of_ne hq]
      exact hw.pc q

/-- Writing `ticket` leaves the other fields of every barrier as they are. -/
theorem setBarrier_ticket (s : State n) (b b' : Nat) (x : UInt32) :
    ((s.setBarrier b' { s.barrier b' with ticket := x }).barrier b).color = (s.barrier b).color ∧
      ((s.setBarrier b' { s.barrier b' with ticket := x }).barrier b).participants =
        (s.barrier b).participants ∧
      ((s.setBarrier b' { s.barrier b' with ticket := x }).barrier b).cleared =
        (s.barrier b).cleared := by
  by_cases hb : b' = b
  · subst hb
    simp [setBarrier_self]
  · simp [setBarrier_ne s _ hb]

theorem setBarrier_cleared (s : State n) (b b' : Nat) (x : UInt32) :
    ((s.setBarrier b' { s.barrier b' with cleared := x }).barrier b).color = (s.barrier b).color ∧
      ((s.setBarrier b' { s.barrier b' with cleared := x }).barrier b).participants =
        (s.barrier b).participants ∧
      (((s.setBarrier b' { s.barrier b' with cleared := x }).barrier b).cleared =
          (s.barrier b).cleared ∨
        ((s.setBarrier b' { s.barrier b' with cleared := x }).barrier b).cleared = x) := by
  by_cases hb : b' = b
  · subst hb
    simp [setBarrier_self]
  · simp [setBarrier_ne s _ hb]

theorem WellFormed.step (hw : WellFormed barriers b s) (hcounts : (barriers b).Counts n)
    (hb : b < ssmpNumBarriers) (p : Fin n) : WellFormed barriers b (s.step p) := by
  have hok := hw.pc p
  -- a step writes at most one barrier, and of it only `ticket` or `cleared`
  cases hpc : s.pc p with
  | idle =>
      cases htodo : s.todo p with
      | nil => simpa [State.step, hpc, htodo] using hw
      | cons b' rest =>
          -- what a call finds out about another barrier does not matter here
          have hcall : PcOk (barriers b) b p (s.callPc p b') := by
            by_cases hbb : b' = b
            · subst hbb
              rw [callPc_eq hw hcounts hb]
              cases hmem : (barriers b').member p <;> simp [PcOk, hmem]
            · exact pcOk_callPc _ s p hbb
          simp only [State.step, hpc, htodo]
          exact hw.update rfl hcall rfl rfl (Or.inl rfl)
  | waitClear b' numPart =>
      rw [hpc] at hok
      simp only [State.step, hpc]
      split
      · exact hw
      · exact hw.update rfl hok rfl rfl (Or.inl rfl)
  | addTicket b' numPart =>
      rw [hpc] at hok
      rcases setBarrier_ticket s b b' ((s.barrier b').ticket + 1) with ⟨hcolor, hpart, hcleared⟩
      simp only [State.step, hpc]
      refine hw.update rfl ?_ hcolor hpart (Or.inl hcleared)
      split
      · exact fun hbb => (hok hbb).1
      · exact fun hbb => (hok hbb).1
  | setCleared b' =>
      rw [hpc] at hok
      rcases setBarrier_cleared s b b' 1 with ⟨hcolor, hpart, hcleared⟩
      simp only [State.step, hpc]
      exact hw.update rfl hok hcolor hpart (hcleared.imp_right Or.inr)
  | waitSet b' =>
      rw [hpc] at hok
      simp only [State.step, hpc]
      split
      · exact hw
      · exact hw.update rfl hok rfl rfl (Or.inl rfl)
  | subTicket b' =>
      rw [hpc] at hok
      rcases setBarrier_ticket s b b' ((s.barrier b').ticket - 1) with ⟨hcolor, hpart, hcleared⟩
      simp only [State.step, hpc]
      refine hw.update rfl ?_ hcolor hpart (Or.inl hcleared)
      split
      · exact hok
      · trivial
  | resetCleared b' =>
      rcases setBarrier_cleared s b b' 0 with ⟨hcolor, hpart, hcleared⟩
      simp only [State.step, hpc]
      exact hw.update rfl trivial hcolor hpart (hcleared.imp_right Or.inl)
  | ret b' =>
      simp only [State.step, hpc]
      exact hw.update rfl trivial rfl rfl (Or.inl rfl)

/-! ## Steps that barrier `b` does not see -/

/-- What a step of `p` leaves alone for the other processes. -/
structure SameBut (p : Fin n) (s t : State n) : Prop where
  pc : ∀ q, q ≠ p → t.pc q = s.pc q
  todo : ∀ q, q ≠ p → t.todo q = s.todo q
  arrived : ∀ q, q ≠ p → t.arrived q = s.arrived q
  returned : ∀ q, q ≠ p → t.returned q = s.returned q

theorem step_same (s : State n) (p : Fin n) : SameBut p s (s.step p) := by
  cases hpc : s.pc p with
  | idle =>
      cases htodo : s.todo p <;> constructor <;>
        simp +contextual [State.step, State.setPc, hpc, htodo]
  | waitClear b numPart =>
      by_cases hc : (s.barrier b).cleared = 1 <;> constructor <;>
        simp +contextual [State.step, State.setPc, hpc, hc]
  | addTicket b numPart =>
      constructor <;> simp +contextual [State.step, State.setPc, State.setBarrier, hpc]
  | setCleared b =>
      constructor <;> simp +contextual [State.step, State.setPc, State.setBarrier, hpc]
  | waitSet b =>
      by_cases hc : (s.barrier b).cleared = 0 <;> constructor <;>
        simp +contextual [State.step, State.setPc, hpc, hc]
  | subTicket b =>
      constructor <;> simp +contextual [State.step, State.setPc, State.setBarrier, hpc]
  | resetCleared b =>
      constructor <;> simp +contextual [State.step, State.setPc, State.setBarrier, hpc]
  | ret b => constructor <;> simp +contextual [State.step, State.setPc, hpc]

theorem step_arrived (h : ∀ b numPart, s.pc p ≠ .addTicket b numPart) :
    (s.step p).arrived = s.arrived := by
  cases hpc : s.pc p with
  | addTicket b numPart => exact absurd hpc (h b numPart)
  | idle => cases htodo : s.todo p <;> simp [State.step, State.setPc, hpc, htodo]
  | waitClear b numPart =>
      by_cases hc : (s.barrier b).cleared = 1 <;> simp [State.step, State.setPc, hpc, hc]
  | waitSet b =>
      by_cases hc : (s.barrier b).cleared = 0 <;> simp [State.step, State.setPc, hpc, hc]
  | setCleared b => simp [State.step, State.setPc, State.setBarrier, hpc]
  | subTicket b => simp [State.step, State.setPc, State.setBarrier, hpc]
  | resetCleared b => simp [State.step, State.setPc, State.setBarrier, hpc]
  | ret b => simp [State.step, State.setPc, hpc]

theorem step_returned (h : ∀ b, s.pc p ≠ .ret b) : (s.step p).returned = s.returned := by
  cases hpc : s.pc p with
  | ret b => exact absurd hpc (h b)
  | idle => cases htodo : s.todo p <;> simp [State.step, State.setPc, hpc, htodo]
  | waitClear b numPart =>
      by_cases hc : (s.barrier b).cleared = 1 <;> simp [State.step, State.setPc, hpc, hc]
  | waitSet b =>
      by_cases hc : (s.barrier b).cleared = 0 <;> simp [State.step, State.setPc, hpc, hc]
  | addTicket b numPart => simp [State.step, State.setPc, State.setBarrier, hpc]
  | setCleared b => simp [State.step, State.setPc, State.setBarrier, hpc]
  | subTicket b => simp [State.step, State.setPc, State.setBarrier, hpc]
  | resetCleared b => simp [State.step, State.setPc, State.setBarrier, hpc]

theorem step_ret (h : s.pc p = .ret b) : (s.step p).returned p = s.returned p ++ [b] := by
  simp [State.step, h]

theorem stageAt_other (h : pc.current ≠ some b) : stageAt b pc = .out := by
  cases pc <;> simp_all [stageAt, Pc.current]

theorem view_congr (hbarrier : t.barrier b = s.barrier b)
    (hstage : ∀ q : Part (barriers b) n, stageAt b (t.pc q) = stageAt b (s.pc q))
    (harrived : ∀ q : Part (barriers b) n, (t.arrived q).count b = (s.arrived q).count b)
    (hreturned : ∀ q : Part (barriers b) n, (t.returned q).count b = (s.returned q).count b) :
    view barriers b t = view barriers b s := by
  refine PhaseBarrier.State.ext (funext hstage) ?_ ?_ (funext harrived) (funext hreturned)
  · rw [view, view, hbarrier]
  · rw [view, view, hbarrier]

/-- What a step of a process that is not in a call on `b` does to `b`. -/
structure Elsewhere (barriers : Nat → SsmpBarrier) (b : Nat) (p : Fin n) (s t : State n) : Prop where
  barrier : t.barrier b = s.barrier b
  stage : (barriers b).member p = true → stageAt b (t.pc p) = .out
  arrived : (t.arrived p).count b = (s.arrived p).count b
  returned : (t.returned p).count b = (s.returned p).count b

theorem step_elsewhere (hw : WellFormed barriers b s) (hcounts : (barriers b).Counts n)
    (hb : b < ssmpNumBarriers) (h : (s.pc p).current ≠ some b) :
    Elsewhere barriers b p s (s.step p) := by
  have hout : stageAt b (s.pc p) = .out := stageAt_other h
  cases hpc : s.pc p with
  | idle =>
      cases htodo : s.todo p with
      | nil =>
          have hsame : s.step p = s := by simp [State.step, hpc, htodo]
          rw [hsame]
          exact ⟨rfl, fun _ => hout, rfl, rfl⟩
      | cons b' rest =>
          simp only [State.step, hpc, htodo]
          refine ⟨rfl, ?_, rfl, rfl⟩
          -- the process may begin a call on `b`: a participant then waits outside
          intro hmem
          simp only [State.setPc, Function.update_self]
          by_cases hbb : b' = b
          · subst hbb
            rw [callPc_eq hw hcounts hb, if_pos hmem]
            rfl
          · exact stageAt_callPc s p hbb
  | waitClear b' numPart =>
      simp only [State.step, hpc]
      split
      · exact ⟨rfl, fun _ => hout, rfl, rfl⟩
      · have hbb : b' ≠ b := fun heq => h (by rw [hpc, heq]; rfl)
        exact ⟨rfl, fun _ => by simp [State.setPc, stageAt, hbb], rfl, rfl⟩
  | addTicket b' numPart =>
      have hbb : b' ≠ b := fun heq => h (by rw [hpc, heq]; rfl)
      simp only [State.step, hpc]
      refine ⟨setBarrier_ne s _ hbb, ?_, ?_, rfl⟩
      · intro _
        simp only [State.setPc, Function.update_self]
        split <;> simp [stageAt, hbb]
      · simp [List.count_append, hbb]
  | setCleared b' =>
      have hbb : b' ≠ b := fun heq => h (by rw [hpc, heq]; rfl)
      simp only [State.step, hpc]
      exact ⟨setBarrier_ne s _ hbb, fun _ => by simp [State.setPc, stageAt, hbb], rfl, rfl⟩
  | waitSet b' =>
      have hbb : b' ≠ b := fun heq => h (by rw [hpc, heq]; rfl)
      simp only [State.step, hpc]
      split
      · exact ⟨rfl, fun _ => hout, rfl, rfl⟩
      · exact ⟨rfl, fun _ => by simp [State.setPc, stageAt, hbb], rfl, rfl⟩
  | subTicket b' =>
      have hbb : b' ≠ b := fun heq => h (by rw [hpc, heq]; rfl)
      simp only [State.step, hpc]
      refine ⟨setBarrier_ne s _ hbb, ?_, rfl, rfl⟩
      intro _
      simp only [State.setPc, Function.update_self]
      split <;> simp [stageAt, hbb]
  | resetCleared b' =>
      have hbb : b' ≠ b := fun heq => h (by rw [hpc, heq]; rfl)
      simp only [State.step, hpc]
      exact ⟨setBarrier_ne s _ hbb, fun _ => by simp [State.setPc, stageAt, hbb], rfl, rfl⟩
  | ret b' =>
      have hbb : b' ≠ b := fun heq => h (by rw [hpc, heq]; rfl)
      simp only [State.step, hpc]
      refine ⟨rfl, fun _ => by simp [State.setPc, stageAt], rfl, ?_⟩
      simp [List.count_append, hbb]

theorem view_step_elsewhere (hw : WellFormed barriers b s) (hcounts : (barriers b).Counts n)
    (hb : b < ssmpNumBarriers) (h : (s.pc p).current ≠ some b) :
    view barriers b (s.step p) = view barriers b s := by
  have hstep := step_elsewhere hw hcounts hb h
  have hsame := step_same s p
  -- the view has the participants only; one of them may be `p`
  refine view_congr hstep.barrier ?_ ?_ ?_
  · intro q
    by_cases hq : q.1 = p
    · rw [hq, stageAt_other h]
      exact hstep.stage (hq ▸ q.2)
    · rw [hsame.pc q hq]
  · intro q
    by_cases hq : q.1 = p
    · rw [hq, hstep.arrived]
    · rw [hsame.arrived q hq]
  · intro q
    by_cases hq : q.1 = p
    · rw [hq, hstep.returned]
    · rw [hsame.returned q hq]

/-! ## Steps on barrier `b` -/

theorem update_view {α β : Type} (f : Fin n → α) (v : α) (g : α → β)
    (hp : (barriers b).member p = true) :
    (fun q : Part (barriers b) n => g (Function.update f p v q)) =
      Function.update (fun q : Part (barriers b) n => g (f q)) ⟨p, hp⟩ (g v) := by
  funext q
  by_cases hq : q = ⟨p, hp⟩
  · subst hq
    simp
  · have hne : q.1 ≠ p := fun heq => hq (Subtype.ext heq)
    rw [Function.update_of_ne hne, Function.update_of_ne hq]

theorem count_view (f : Fin n → List Nat) (hp : (barriers b).member p = true) :
    (fun q : Part (barriers b) n => (Function.update f p (f p ++ [b]) q).count b) =
      Function.update (fun q : Part (barriers b) n => (f q).count b) ⟨p, hp⟩ ((f p).count b + 1) := by
  rw [update_view f (f p ++ [b]) (List.count b) hp, List.count_append, List.count_singleton_self]

/-- The view after a step that moves `p` and changes nothing but the counter and the flag. -/
theorem view_setPc {x : Stage} {count : Nat} {flag : Bool} (hp : (barriers b).member p = true)
    (hpc : t.pc = Function.update s.pc p pc) (harrived : t.arrived = s.arrived)
    (hreturned : t.returned = s.returned) (hstage : stageAt b pc = x)
    (hcount : (t.barrier b).ticket.toNat = count)
    (hflag : decide ((t.barrier b).cleared = 1) = flag) :
    view barriers b t =
      { (view barriers b s).put ⟨p, hp⟩ x with count := count, flag := flag } := by
  -- field by field: the stages are those of `s` but for `p`
  refine PhaseBarrier.State.ext ?_ hcount hflag ?_ ?_
  · simp only [view, hpc, ← hstage]
    exact update_view s.pc pc (stageAt b) hp
  · simp only [view, harrived]
    rfl
  · simp only [view, hreturned]
    rfl

/-- The view after `p` has incremented the counter. -/
theorem view_arrive (hp : (barriers b).member p = true) (hpc : t.pc = Function.update s.pc p pc)
    (harrived : t.arrived = Function.update s.arrived p (s.arrived p ++ [b]))
    (hreturned : t.returned = s.returned)
    (hticket : (t.barrier b).ticket.toNat = (s.barrier b).ticket.toNat + 1)
    (hcleared : (t.barrier b).cleared = (s.barrier b).cleared) :
    view barriers b t = (view barriers b s).enter ⟨p, hp⟩ (stageAt b pc) := by
  refine PhaseBarrier.State.ext ?_ hticket ?_ ?_ ?_
  · simp only [view, hpc]
    exact update_view s.pc pc (stageAt b) hp
  · simp only [view, hcleared]
    rfl
  · simp only [view, harrived]
    exact count_view s.arrived hp
  · simp only [view, hreturned]
    rfl

/-- The view after `p` has returned. -/
theorem view_return (hp : (barriers b).member p = true) (hpc : t.pc = Function.update s.pc p .idle)
    (harrived : t.arrived = s.arrived)
    (hreturned : t.returned = Function.update s.returned p (s.returned p ++ [b]))
    (hbarrier : t.barrier b = s.barrier b) :
    view barriers b t =
      { (view barriers b s).put ⟨p, hp⟩ .out with
        completed := Function.update (view barriers b s).completed ⟨p, hp⟩
          ((view barriers b s).completed ⟨p, hp⟩ + 1) } := by
  refine PhaseBarrier.State.ext ?_ ?_ ?_ ?_ ?_
  · simp only [view, hpc]
    exact update_view s.pc .idle (stageAt b) hp
  · rw [view, hbarrier]
    rfl
  · rw [view, hbarrier]
    rfl
  · simp only [view, harrived]
    rfl
  · simp only [view, hreturned]
    exact count_view s.returned hp

theorem card_part_le (rec : SsmpBarrier) (n : Nat) : Fintype.card (Part rec n) ≤ n := by
  have hle := Fintype.card_subtype_le fun p : Fin n => rec.member p = true
  rwa [Fintype.card_fin] at hle

/-- The comparison of `my_ticket` with `num_part` is exact. -/
theorem ticket_add_one (hn : n < 2 ^ 31) {ticket : UInt32} {card : Nat} (hcard : card ≤ n)
    (hle : ticket.toNat ≤ n) :
    (ticket + 1).toNat = ticket.toNat + 1 ∧
      (ticket + 1 = UInt32.ofNat card ↔ ticket.toNat + 1 = card) := by
  -- the counter stays below `2 ^ 31`, far from an overflow
  have hsum : (ticket + 1).toNat = ticket.toNat + 1 := by
    rw [UInt32.toNat_add]
    exact Nat.mod_eq_of_lt (by simp; omega)
  refine ⟨hsum, ?_⟩
  rw [← UInt32.toNat_inj, hsum, UInt32.toNat_ofNat', Nat.mod_eq_of_lt (by omega)]

/-- The comparison of `my_ticket` with 0. -/
theorem ticket_sub_one {ticket : UInt32} (hpos : 0 < ticket.toNat) :
    (ticket - 1).toNat = ticket.toNat - 1 ∧ (ticket - 1 = 0 ↔ ticket.toNat = 1) := by
  have hone : (1 : UInt32) ≤ ticket := by
    rw [UInt32.le_iff_toNat_le]
    exact hpos
  have hsub : (ticket - 1).toNat = ticket.toNat - 1 := UInt32.toNat_sub_of_le _ _ hone
  refine ⟨hsub, ?_⟩
  rw [← UInt32.toNat_inj, hsub]
  change ticket.toNat - 1 = 0 ↔ ticket.toNat = 1
  omega

/-- The increment of the counter is the arrival of `p`, and the comparison of the source is the one of
the move. -/
theorem view_addTicket (hn : n < 2 ^ 31) (hi : Inv (view barriers b s))
    (hp : (barriers b).member p = true)
    (hpc : s.pc p = .addTicket b (UInt32.ofNat (Fintype.card (Part (barriers b) n)))) :
    Move (view barriers b s) ⟨p, hp⟩ (view barriers b (s.step p)) := by
  have hcard := card_part_le (barriers b) n
  have hcount : (s.barrier b).ticket.toNat ≤ Fintype.card (Part (barriers b) n) := hi.count_le
  have hready : (view barriers b s).stage ⟨p, hp⟩ = .ready := by simp [view, hpc, stageAt]
  rcases ticket_add_one hn hcard (hcount.trans hcard) with ⟨hadd, hcmp⟩
  have hview : view barriers b (s.step p) = (view barriers b s).enter ⟨p, hp⟩
      (stageAt b (if (s.barrier b).ticket + 1 = UInt32.ofNat (Fintype.card (Part (barriers b) n))
        then .setCleared b else .waitSet b)) := by
    simp only [State.step, hpc]
    refine view_arrive hp rfl rfl rfl ?_ ?_
    · simp [State.setPc, setBarrier_self, hadd]
    · simp [State.setPc, setBarrier_self]
  rw [hview]
  by_cases hall : (s.barrier b).ticket.toNat + 1 = Fintype.card (Part (barriers b) n)
  · have hlast : stageAt b (.setCleared b) = .last := if_pos rfl
    rw [if_pos (hcmp.2 hall), hlast]
    exact Move.arriveLast hready hall
  · have hheld : stageAt b (.waitSet b) = .held := if_pos rfl
    rw [if_neg (mt hcmp.1 hall), hheld]
    exact Move.arrive hready hall

/-- The decrement of the counter, in which `p` itself is counted, does not wrap around. -/
theorem view_subTicket (hi : Inv (view barriers b s)) (hp : (barriers b).member p = true)
    (hpc : s.pc p = .subTicket b) :
    Move (view barriers b s) ⟨p, hp⟩ (view barriers b (s.step p)) := by
  have hgo : (view barriers b s).stage ⟨p, hp⟩ = .go := by simp [view, hpc, stageAt]
  have hpos : 0 < (s.barrier b).ticket.toNat := hi.count_pos (p := ⟨p, hp⟩) (by rw [hgo]; rfl)
  rcases ticket_sub_one hpos with ⟨hsub, hcmp⟩
  have hview : view barriers b (s.step p) =
      { (view barriers b s).put ⟨p, hp⟩
          (stageAt b (if (s.barrier b).ticket - 1 = 0 then .resetCleared b else .ret b)) with
        count := (view barriers b s).count - 1 } := by
    simp only [State.step, hpc]
    refine view_setPc hp rfl rfl rfl rfl ?_ ?_
    · simp [State.setPc, setBarrier_self, hsub, view]
    · simp [State.setPc, setBarrier_self, view]
  rw [hview]
  by_cases hall : (s.barrier b).ticket.toNat = 1
  · have hfinal : stageAt b (.resetCleared b) = .final := if_pos rfl
    rw [if_pos (hcmp.2 hall), hfinal]
    exact Move.leaveLast hgo hall
  · have hdone : stageAt b (.ret b) = .done := if_pos rfl
    rw [if_neg (mt hcmp.1 hall), hdone]
    exact Move.leave hgo hall

/-- The store of 1 or of 0 to the flag. -/
theorem view_setCleared (hp : (barriers b).member p = true) (hpc : s.pc p = .setCleared b) :
    Move (view barriers b s) ⟨p, hp⟩ (view barriers b (s.step p)) := by
  have hview : view barriers b (s.step p) =
      { (view barriers b s).put ⟨p, hp⟩ .held with flag := true } := by
    simp only [State.step, hpc]
    exact view_setPc hp rfl rfl rfl (if_pos rfl) (by simp [State.setPc, setBarrier_self, view])
      (by simp [State.setPc, setBarrier_self])
  rw [hview]
  exact Move.raise (by simp [view, hpc, stageAt])

theorem view_resetCleared (hp : (barriers b).member p = true) (hpc : s.pc p = .resetCleared b) :
    Move (view barriers b s) ⟨p, hp⟩ (view barriers b (s.step p)) := by
  have hview : view barriers b (s.step p) =
      { (view barriers b s).put ⟨p, hp⟩ .done with flag := false } := by
    simp only [State.step, hpc]
    exact view_setPc hp rfl rfl rfl (if_pos rfl) (by simp [State.setPc, setBarrier_self, view])
      (by simp [State.setPc, setBarrier_self])
  rw [hview]
  exact Move.lower (by simp [view, hpc, stageAt])

/-- A wait that goes on changes nothing; one that ends is a move. -/
theorem view_waitClear {numPart : UInt32} (hp : (barriers b).member p = true)
    (hpc : s.pc p = .waitClear b numPart) :
    view barriers b (s.step p) = view barriers b s ∨
      Move (view barriers b s) ⟨p, hp⟩ (view barriers b (s.step p)) := by
  by_cases hc : (s.barrier b).cleared = 1
  · left
    simp [State.step, hpc, hc]
  · right
    have hview : view barriers b (s.step p) = (view barriers b s).put ⟨p, hp⟩ .ready := by
      simp only [State.step, hpc, if_neg hc]
      exact view_setPc hp rfl rfl rfl (if_pos rfl) rfl rfl
    rw [hview]
    exact Move.pass (by simp [view, hpc, stageAt]) (by simp [view, hc])

theorem view_waitSet (hw : WellFormed barriers b s) (hp : (barriers b).member p = true)
    (hpc : s.pc p = .waitSet b) :
    view barriers b (s.step p) = view barriers b s ∨
      Move (view barriers b s) ⟨p, hp⟩ (view barriers b (s.step p)) := by
  by_cases hc : (s.barrier b).cleared = 0
  · left
    simp [State.step, hpc, hc]
  · right
    -- the flag has no third value
    have hone : (s.barrier b).cleared = 1 := hw.cleared.resolve_left hc
    have hview : view barriers b (s.step p) = (view barriers b s).put ⟨p, hp⟩ .go := by
      simp only [State.step, hpc, if_neg hc]
      exact view_setPc hp rfl rfl rfl (if_pos rfl) rfl rfl
    rw [hview]
    exact Move.see (by simp [view, hpc, stageAt]) (by simp [view, hone])

/-- The return of a process that is no participant is not in the view. -/
theorem view_ret (hpc : s.pc p = .ret b) :
    view barriers b (s.step p) = view barriers b s ∨
      ∃ hp : (barriers b).member p = true,
        Move (view barriers b s) ⟨p, hp⟩ (view barriers b (s.step p)) := by
  have hstep : s.step p =
      { s.setPc p .idle with returned := Function.update s.returned p (s.returned p ++ [b]) } := by
    simp only [State.step, hpc]
  by_cases hp : (barriers b).member p = true
  · have hview : view barriers b (s.step p) =
        { (view barriers b s).put ⟨p, hp⟩ .out with
          completed := Function.update (view barriers b s).completed ⟨p, hp⟩
            ((view barriers b s).completed ⟨p, hp⟩ + 1) } := by
      rw [hstep]
      exact view_return hp rfl rfl rfl rfl
    right
    refine ⟨hp, ?_⟩
    rw [hview]
    exact Move.ret (by simp [view, hpc, stageAt])
  · left
    have hne : ∀ q : Part (barriers b) n, q.1 ≠ p := fun q heq => hp (heq ▸ q.2)
    rw [hstep]
    exact view_congr rfl (fun q => by simp [State.setPc, hne q]) (fun _ => rfl)
      (fun q => by simp [hne q])

theorem view_step_here (hn : n < 2 ^ 31) (hw : WellFormed barriers b s)
    (hi : Inv (view barriers b s)) (h : (s.pc p).current = some b) :
    view barriers b (s.step p) = view barriers b s ∨
      ∃ hp : (barriers b).member p = true,
        Move (view barriers b s) ⟨p, hp⟩ (view barriers b (s.step p)) := by
  have hok := hw.pc p
  -- each program point on `b` is one stage, and its step the move of that stage
  cases hpc : s.pc p with
  | idle => simp [hpc, Pc.current] at h
  | waitClear b' numPart =>
      rcases (show b' = b by simpa [hpc, Pc.current] using h) with rfl
      rw [hpc] at hok
      exact (view_waitClear (hok rfl).1 hpc).imp_right fun hmove => ⟨_, hmove⟩
  | addTicket b' numPart =>
      rcases (show b' = b by simpa [hpc, Pc.current] using h) with rfl
      rw [hpc] at hok
      rcases hok rfl with ⟨hp, rfl⟩
      exact Or.inr ⟨hp, view_addTicket hn hi hp hpc⟩
  | setCleared b' =>
      rcases (show b' = b by simpa [hpc, Pc.current] using h) with rfl
      rw [hpc] at hok
      exact Or.inr ⟨hok rfl, view_setCleared (hok rfl) hpc⟩
  | waitSet b' =>
      rcases (show b' = b by simpa [hpc, Pc.current] using h) with rfl
      rw [hpc] at hok
      exact (view_waitSet hw (hok rfl) hpc).imp_right fun hmove => ⟨_, hmove⟩
  | subTicket b' =>
      rcases (show b' = b by simpa [hpc, Pc.current] using h) with rfl
      rw [hpc] at hok
      exact Or.inr ⟨hok rfl, view_subTicket hi (hok rfl) hpc⟩
  | resetCleared b' =>
      rcases (show b' = b by simpa [hpc, Pc.current] using h) with rfl
      rw [hpc] at hok
      exact Or.inr ⟨hok rfl, view_resetCleared (hok rfl) hpc⟩
  | ret b' =>
      rcases (show b' = b by simpa [hpc, Pc.current] using h) with rfl
      exact view_ret hpc

theorem view_step (hn : n < 2 ^ 31) (hcounts : (barriers b).Counts n) (hb : b < ssmpNumBarriers)
    (hw : WellFormed barriers b s) (hi : Inv (view barriers b s)) (p : Fin n) :
    view barriers b (s.step p) = view barriers b s ∨
      ∃ hp : (barriers b).member p = true,
        Move (view barriers b s) ⟨p, hp⟩ (view barriers b (s.step p)) := by
  by_cases h : (s.pc p).current = some b
  · exact view_step_here hn hw hi h
  · exact Or.inl (view_step_elsewhere hw hcounts hb h)

/-! ## Every reachable state -/

theorem inv_of_counted (hn : n < 2 ^ 31) (hb : b < ssmpNumBarriers)
    (hready : (barriers b).Counted n) (h : (system barriers todo).Reachable s) :
    WellFormed barriers b s ∧ Inv (view barriers b s) := by
  induction h with
  | @init s h0 =>
      have hinit : s.Init barriers todo := h0
      refine ⟨WellFormed.init hinit hready.cleared, Inv.fresh ⟨?_, ?_, ?_, ?_, ?_⟩⟩
      · intro p
        simp [view, hinit.pc, stageAt]
      · simp [view, hinit.barrier, hready.ticket]
      · simp [view, hinit.barrier, hready.cleared]
      · intro p
        simp [view, hinit.arrived]
      · intro p
        simp [view, hinit.returned]
  | @step s t p _ hst ih =>
      rcases ih with ⟨hw, hi⟩
      have hstep : t = s.step p := hst
      subst hstep
      refine ⟨hw.step hready.counts hb p, ?_⟩
      -- a step is a move of the phase barrier or leaves the view as it is
      rcases view_step hn hready.counts hb hw hi p with hsame | ⟨hp, hmove⟩
      · rw [hsame]
        exact hi
      · exact hi.move hmove

theorem inv_of_reachable (hn : n < 2 ^ 31) (hb : b < ssmpNumBarriers)
    (hready : (barriers b).Ready n) (h : (system barriers todo).Reachable s) :
    WellFormed barriers b s ∧ Inv (view barriers b s) :=
  inv_of_counted hn hb hready.counted h

end View

end Barrier
end Ssmp
