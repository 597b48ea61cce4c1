import Ssmp.Barrier.Participants
import Ssmp.Bench.RoundTrip
import Ssmp.Lib.Part

/-!
# Bench.ClientServerMain — the whole of `benchmarks/client_server.c`

Behind `ssmp_mem_init` the processes meet twice at barrier 0 and run their loops.  Then every process
has its turn, in which it sends its throughput to process 0 if it is a client, and all meet behind
every turn.  The model leaves out the measured times, the pauses and the counted samples.

The loops are a part of these programs (`part`).  If barrier 0 holds all processes, no turn begins
before every process has left its loop (`behind_le_one`).
-/

namespace Ssmp
namespace Bench

open Lib Network

namespace ClientServer

section Locations

variable {M : Type}

/-- The process has left its loop. -/
def Loc.over : Loc M → Bool
  | .client c => c.pc = .done
  | .server s => s.pc = .done

/-- The message buffer. -/
def Loc.msg : Loc M → M
  | .client c => c.msg
  | .server s => s.msg

end Locations

namespace Main

/-- Where a process is: at a barrier before the loops, in its loop, at `ssmp_send`, at `ssmp_recv_from`
or at the barrier of a turn, at the barrier behind the turns, or at the end. -/
inductive Pc where
  | opening
  | loop
  | report
  | gather
  | turn
  | last
  | done
  deriving DecidableEq

/-- The variable `co`, the variables of the loops, `*msg` behind them, and the messages whose throughputs
`total_throughput` is the sum of.  Before the loops `co` counts the barriers. -/
structure Proc (M : Type) where
  pc : Pc
  co : Nat
  loop : Loc M
  msg : M
  added : List M

section Programs

variable (args : ClientServerArgs) (reply : Reply) {M : Type} (W : MsgWords M)
variable (report : args.Id → M → M)

/-- `for (; co < ssmp_num_ues(); co++)`, up to the next call.  `report` stands for the `memcpy` of the
throughput. -/
def Proc.close (me : args.Id) (co : Nat) (l : Proc M) : Proc M :=
  if co < args.numProcs then
    if co = me.val then
      if args.isApp me then { l with pc := .report, co := co, msg := report me l.msg }
      else { l with pc := .turn, co := co }
    else if me.val = 0 ∧ colorApp1 args.dslPerCore co = true then { l with pc := .gather, co := co }
    else { l with pc := .turn, co := co }
  else { l with pc := .last }

/-- A process in its loop, or behind it. -/
def Proc.enter (me : args.Id) (l : Proc M) : Proc M :=
  if l.loop.over then Proc.close args report me 0 { l with msg := l.loop.msg }
  else { l with pc := .loop }

def next (me : args.Id) (l : Proc M) : Action args.Id M (Proc M) :=
  match l.pc with
  | .opening =>
      .meet (if l.co + 1 < 2 then { l with co := l.co + 1 } else Proc.enter args report me l)
  | .loop =>
      (ClientServer.next args reply W me l.loop).map fun k =>
        Proc.enter args report me { l with loop := k }
  | .report => args.atId 0 fun d => .put d l.msg { l with pc := .turn }
  | .gather =>
      args.atId l.co fun c => .take c fun m => { l with pc := .turn, msg := m, added := l.added ++ [m] }
  | .turn => .meet (Proc.close args report me (l.co + 1) l)
  | .last => .meet { l with pc := .done }
  | .done => .stop

/-- `buf` is what `memalign` leaves in the message buffers. -/
def start (buf : args.Id → M) (me : args.Id) : Proc M where
  pc := .opening
  co := 0
  loop := ClientServer.start args buf me
  msg := buf me
  added := []

/-- All barriers of the programs are barrier 0. -/
def hall (_me : args.Id) (_l : Proc M) : Nat := 0

def network (buf : args.Id → M) : Network args.Id M (Proc M) where
  next := next args reply W report
  group _ := true
  start := start args buf

/-- The barriers as `main` initialises them, in a build with `XEON` or without. -/
def barriers (xeon : Bool) (old : Nat → Barrier.SsmpBarrier) : Nat → Barrier.SsmpBarrier :=
  let colorAll : Nat → Int32 := fun _ => 1
  let colorOf (color : Nat → Bool) : Nat → Int32 := fun id => if color id then 1 else 0
  let apart := Barrier.ssmpBarrierInitPlatf 1 0 (some (colorOf (colorApp1 args.dslPerCore)))
    (Barrier.ssmpBarrierInitPlatf 2 0 (some (colorOf (colorDsl args.dslPerCore)))
      (Barrier.ssmpInitBarriers old))
  if xeon then
    Barrier.ssmpBarrierInitPlatf 5 0 (some colorAll)
      (Barrier.ssmpBarrierInitPlatf 0 0 (some colorAll) apart)
  else apart

end Programs

/-! ## Where a process can be -/

section Places

variable (args : ClientServerArgs) {M : Type} (report : args.Id → M → M) (buf : args.Id → M)

/-- Where process `me` can be in `main`. -/
inductive Fit (me : args.Id) (l : Proc M) : Prop where
  | opening (hpc : l.pc = .opening) (hco : l.co < 2) (hloop : l.loop = ClientServer.start args buf me)
  | loop (hpc : l.pc = .loop) (hover : l.loop.over = false)
  | report (hpc : l.pc = .report) (hover : l.loop.over = true) (happ : args.isApp me = true)
      (hco : l.co = me.val) (hmsg : l.msg = report me l.loop.msg)
  | gather (hpc : l.pc = .gather) (hover : l.loop.over = true) (hme : me.val = 0)
      (hco : l.co < args.numProcs) (happ : args.isApp ⟨l.co, hco⟩ = true)
  | turn (hpc : l.pc = .turn) (hover : l.loop.over = true) (hco : l.co < args.numProcs)
      (hmsg : l.co < me.val → l.msg = l.loop.msg)
  | past (hpc : l.pc = .last ∨ l.pc = .done) (hover : l.loop.over = true)

/-- How many barriers a process has passed. -/
def pos (l : Proc M) : Nat :=
  match l.pc with
  | .opening => l.co
  | .loop => 2
  | .last => 2 + args.numProcs
  | .done => 3 + args.numProcs
  | _ => 2 + l.co

/-- In how many turns a process has nothing left to do. -/
def behind (l : Proc M) : Nat :=
  match l.pc with
  | .report => l.co
  | .gather => l.co
  | .turn => l.co + 1
  | .last => args.numProcs
  | .done => args.numProcs
  | _ => 0

/-- The barriers that every process comes to. -/
def seq : List Nat :=
  List.replicate (3 + args.numProcs) 0

variable {args}

/-- The process is in its loop. -/
def inside (_p : args.Id) (l : Proc M) : Bool :=
  l.pc = .loop

/-- Where it is in the loop, will be when it enters it, or has been when it has left it. -/
def inLoop (_p : args.Id) (l : Proc M) : Loc M :=
  l.loop

end Places

section Facts

variable {args : ClientServerArgs} {reply : Reply} {M : Type} {W : MsgWords M}
variable {report : args.Id → M → M} {buf : args.Id → M} {me p q c : args.Id} {l k : Proc M} {co : Nat}

@[simp] theorem close_loop : (Proc.close args report me co l).loop = l.loop := by
  unfold Proc.close
  split_ifs <;> rfl

@[simp] theorem close_added : (Proc.close args report me co l).added = l.added := by
  unfold Proc.close
  split_ifs <;> rfl

@[simp] theorem enter_loop : (Proc.enter args report me l).loop = l.loop := by
  unfold Proc.enter
  split_ifs
  · exact close_loop
  · rfl

@[simp] theorem enter_added : (Proc.enter args report me l).added = l.added := by
  unfold Proc.enter
  split_ifs
  · exact close_added
  · rfl

/-! ### The turns -/

/-- What a process does in the turn `co`. -/
inductive Begins (args : ClientServerArgs) (report : args.Id → M → M) (me : args.Id) (co : Nat)
    (l : Proc M) : Proc M → Prop where
  | report (happ : args.isApp me = true) (hco : co = me.val) :
      Begins args report me co l { l with pc := .report, co := co, msg := report me l.msg }
  | gather (hme : me.val = 0) (hco : co < args.numProcs) (happ : args.isApp ⟨co, hco⟩ = true) :
      Begins args report me co l { l with pc := .gather, co := co }
  | turn (hco : co < args.numProcs) (hme : args.isApp me = true → co ≠ me.val)
      (hfirst : me.val = 0 → args.isApp ⟨co, hco⟩ = false) :
      Begins args report me co l { l with pc := .turn, co := co }
  | last (hco : args.numProcs ≤ co) : Begins args report me co l { l with pc := .last }

theorem begins_close : Begins args report me co l (Proc.close args report me co l) := by
  unfold Proc.close
  by_cases hco : co < args.numProcs
  · rw [if_pos hco]
    by_cases hme : co = me.val
    · rw [if_pos hme]
      by_cases happ : args.isApp me = true
      · rw [if_pos happ]
        exact Begins.report happ hme
      · rw [if_neg happ]
        refine Begins.turn hco (fun h => absurd h happ) ?_
        intro _
        have hsame : (⟨co, hco⟩ : args.Id) = me := Fin.ext hme
        rw [hsame]
        simpa using happ
    · rw [if_neg hme]
      by_cases hgather : me.val = 0 ∧ colorApp1 args.dslPerCore co = true
      · rw [if_pos hgather]
        exact Begins.gather hgather.1 hco hgather.2
      · rw [if_neg hgather]
        refine Begins.turn hco (fun _ => hme) ?_
        intro hzero
        have happ : ¬ args.isApp ⟨co, hco⟩ = true := fun h => hgather ⟨hzero, h⟩
        simpa using happ
  · rw [if_neg hco]
    exact Begins.last (Nat.le_of_not_lt hco)

theorem fit_close (hover : l.loop.over = true) (hmsg : co ≤ me.val → l.msg = l.loop.msg) :
    Fit args report buf me (Proc.close args report me co l) := by
  have hbegins := @begins_close args M report me l co
  generalize Proc.close args report me co l = k at hbegins
  cases hbegins with
  | report happ hco => exact Fit.report rfl hover happ hco (by rw [hmsg (Nat.le_of_eq hco)])
  | gather hme hco happ => exact Fit.gather rfl hover hme hco happ
  | turn hco _ _ => exact Fit.turn rfl hover hco fun h => hmsg (Nat.le_of_lt h)
  | last _ => exact Fit.past (Or.inl rfl) hover

theorem pos_close (hco : co ≤ args.numProcs) :
    pos args (Proc.close args report me co l) = 2 + co := by
  have hbegins := @begins_close args M report me l co
  generalize Proc.close args report me co l = k at hbegins
  cases hbegins with
  | last hle =>
      show 2 + args.numProcs = 2 + co
      omega
  | _ => rfl

theorem fit_enter : Fit args report buf me (Proc.enter args report me l) := by
  unfold Proc.enter
  by_cases hover : l.loop.over = true
  · rw [if_pos hover]
    exact fit_close hover fun _ => rfl
  · rw [if_neg hover]
    exact Fit.loop rfl (by simpa using hover)

theorem pos_enter : pos args (Proc.enter args report me l) = 2 := by
  unfold Proc.enter
  split_ifs
  · exact pos_close (Nat.zero_le _)
  · rfl

/-- Nothing is to be done in turn 0. -/
theorem behind_enter : behind args (Proc.enter args report me l) ≤ 1 := by
  unfold Proc.enter
  split_ifs
  · have hbegins := @begins_close args M report me { l with msg := l.loop.msg } 0
    generalize Proc.close args report me 0 { l with msg := l.loop.msg } = k at hbegins
    cases hbegins with
    | last hle => exact absurd Procs.numProcs_pos (Nat.not_lt_of_le hle)
    | report _ _ => exact Nat.zero_le _
    | gather _ _ _ => exact Nat.zero_le _
    | turn _ _ _ => exact Nat.le_refl _
  · exact Nat.zero_le _

theorem behind_le_pos (h : Fit args report buf me l) :
    behind args l + 1 ≤ pos args l ∨ behind args l = 0 := by
  cases h with
  | opening hpc _ _ => exact Or.inr (by simp [behind, hpc])
  | loop hpc _ => exact Or.inr (by simp [behind, hpc])
  | past hpc _ =>
      left
      rcases hpc with hpc | hpc <;> simp only [behind, pos, hpc] <;> omega
  | report hpc _ _ _ _ =>
      left
      simp only [behind, pos, hpc]
      omega
  | gather hpc _ _ _ _ =>
      left
      simp only [behind, pos, hpc]
      omega
  | turn hpc _ _ _ =>
      left
      simp only [behind, pos, hpc]
      omega

/-! ### The calls -/

theorem next_opening (hpc : l.pc = .opening) : next args reply W report me l =
    .meet (if l.co + 1 < 2 then { l with co := l.co + 1 } else Proc.enter args report me l) := by
  simp only [next, hpc]

theorem next_loop (hpc : l.pc = .loop) : next args reply W report me l =
    (ClientServer.next args reply W me l.loop).map fun k =>
      Proc.enter args report me { l with loop := k } := by
  simp only [next, hpc]

theorem next_report (hpc : l.pc = .report) :
    next args reply W report me l = .put args.first l.msg { l with pc := .turn } := by
  simp only [next, hpc]
  exact @Procs.atId_val _ args.first M (Proc M) fun d => .put d l.msg { l with pc := .turn }

theorem next_gather (hpc : l.pc = .gather) (hco : l.co < args.numProcs) :
    next args reply W report me l = .take ⟨l.co, hco⟩ fun m =>
      { l with pc := .turn, msg := m, added := l.added ++ [m] } := by
  simp only [next, hpc]
  exact @Procs.atId_val _ (⟨l.co, hco⟩ : args.Id) M (Proc M) fun c =>
    .take c fun m => { l with pc := .turn, msg := m, added := l.added ++ [m] }

theorem next_turn (hpc : l.pc = .turn) :
    next args reply W report me l = .meet (Proc.close args report me (l.co + 1) l) := by
  simp only [next, hpc]

theorem next_last (hpc : l.pc = .last) :
    next args reply W report me l = .meet { l with pc := .done } := by
  simp only [next, hpc]

theorem next_done (hpc : l.pc = .done) : next args reply W report me l = .stop := by
  simp only [next, hpc]

/-- In the loops nobody meets anybody. -/
theorem loops_not_meet {l k : Loc M} : ClientServer.next args reply W me l ≠ .meet k := by
  intro h
  cases l with
  | client cl =>
      cases hpc : cl.pc with
      | done => simp [ClientServer.next, Client.next, hpc] at h
      | _ =>
          simp only [ClientServer.next, Client.next, hpc] at h
          rcases Procs.exists_of_atId h (by simp) with ⟨_, _, hact⟩
          cases hact
  | server sv =>
      cases hpc : sv.pc with
      | recv => simp [ClientServer.next, Server.next, hpc] at h
      | done => simp [ClientServer.next, Server.next, hpc] at h
      | reply =>
          simp only [ClientServer.next, Server.next, hpc] at h
          rcases Procs.exists_of_atId h (by simp) with ⟨_, _, hact⟩
          split at hact <;> cases hact

theorem Fit.leads (h : Fit args report buf me l) (hk : (next args reply W report me l).Leads k) :
    Fit args report buf me k := by
  cases h with
  | opening hpc hco hloop =>
      rw [next_opening hpc] at hk
      have hk' : k = _ := hk
      rw [hk']
      by_cases hmore : l.co + 1 < 2
      · rw [if_pos hmore]
        exact Fit.opening hpc hmore hloop
      · rw [if_neg hmore]
        exact fit_enter
  | loop hpc _ =>
      rw [next_loop hpc] at hk
      rcases leads_map hk with ⟨k', _, rfl⟩
      exact fit_enter
  | report hpc hover _ hco _ =>
      rw [next_report hpc] at hk
      have hk' : k = _ := hk
      rw [hk']
      refine Fit.turn rfl hover (by rw [hco]; exact me.isLt) ?_
      intro hlt
      exact absurd hco (Nat.ne_of_lt hlt)
  | gather hpc hover hme hco _ =>
      rw [next_gather hpc hco] at hk
      rcases hk with ⟨m, rfl⟩
      refine Fit.turn rfl hover hco ?_
      intro hlt
      exact absurd (hme ▸ hlt) (Nat.not_lt_zero _)
  | turn hpc hover hco hmsg =>
      rw [next_turn hpc] at hk
      have hk' : k = _ := hk
      rw [hk']
      exact fit_close hover hmsg
  | past hpc hover =>
      rcases hpc with hpc | hpc
      · rw [next_last hpc] at hk
        have hk' : k = _ := hk
        rw [hk']
        exact Fit.past (Or.inr rfl) hover
      · rw [next_done hpc] at hk
        exact hk.elim

/-- The calls in between do not take a process past a barrier. -/
theorem Fit.pos_stays (h : Fit args report buf me l) (hk : (next args reply W report me l).Leads k)
    (hmeet : ∀ k', next args reply W report me l ≠ .meet k') : pos args k = pos args l := by
  cases h with
  | opening hpc _ _ => exact absurd (next_opening hpc) (hmeet _)
  | turn hpc _ _ _ => exact absurd (next_turn hpc) (hmeet _)
  | loop hpc _ =>
      rw [next_loop hpc] at hk
      rcases leads_map hk with ⟨k', _, rfl⟩
      rw [pos_enter]
      simp [pos, hpc]
  | report hpc _ _ _ _ =>
      rw [next_report hpc] at hk
      have hk' : k = _ := hk
      simp [hk', pos, hpc]
  | gather hpc _ _ hco _ =>
      rw [next_gather hpc hco] at hk
      rcases hk with ⟨m, rfl⟩
      simp [pos, hpc]
  | past hpc _ =>
      rcases hpc with hpc | hpc
      · exact absurd (next_last hpc) (hmeet _)
      · rw [next_done hpc] at hk
        exact hk.elim

/-- Behind a barrier a process comes to the next. -/
theorem Fit.pos_passes (h : Fit args report buf me l) (hk : next args reply W report me l = .meet k) :
    pos args k = pos args l + 1 ∧ pos args l < 3 + args.numProcs := by
  cases h with
  | opening hpc hco _ =>
      rw [next_opening hpc, Action.meet.injEq] at hk
      have hpos : pos args l = l.co := by simp [pos, hpc]
      rw [← hk, hpos]
      refine ⟨?_, by omega⟩
      by_cases hmore : l.co + 1 < 2
      · rw [if_pos hmore]
        simp [pos, hpc]
      · rw [if_neg hmore, pos_enter]
        omega
  | turn hpc _ hco _ =>
      rw [next_turn hpc, Action.meet.injEq] at hk
      have hpos : pos args l = 2 + l.co := by simp [pos, hpc]
      rw [← hk, hpos, pos_close (Nat.succ_le_of_lt hco)]
      omega
  | loop hpc _ =>
      rw [next_loop hpc] at hk
      rcases map_eq_meet hk with ⟨_, hmeet, _⟩
      exact absurd hmeet loops_not_meet
  | report hpc _ _ _ _ => cases (next_report hpc).symm.trans hk
  | gather hpc _ _ hco _ => cases (next_gather hpc hco).symm.trans hk
  | past hpc _ =>
      rcases hpc with hpc | hpc
      · rw [next_last hpc, Action.meet.injEq] at hk
        rw [← hk]
        simp only [pos, hpc]
        omega
      · cases (next_done hpc).symm.trans hk

/-- What a barrier changes: behind it a turn may begin in which there is nothing to do. -/
structure Crosses (args : ClientServerArgs) (me : args.Id) (l k : Proc M) : Prop where
  loop : k.loop = l.loop
  added : k.added = l.added
  turns : behind args k = behind args l ∨ behind args k = behind args l + 1 ∧
    (args.isApp me = true → behind args l ≠ me.val) ∧
      (me.val = 0 → ∀ h : behind args l < args.numProcs, args.isApp ⟨behind args l, h⟩ = false)

theorem Fit.crosses (h : Fit args report buf me l) (hk : next args reply W report me l = .meet k) :
    Crosses args me l k := by
  cases h with
  | opening hpc hco _ =>
      rw [next_opening hpc, Action.meet.injEq] at hk
      have hzero : behind args l = 0 := by simp [behind, hpc]
      rw [← hk]
      by_cases hmore : l.co + 1 < 2
      · rw [if_pos hmore]
        exact ⟨rfl, rfl, Or.inl (by simp [behind, hpc])⟩
      · rw [if_neg hmore]
        refine ⟨enter_loop, enter_added, ?_⟩
        have hle := @behind_enter args M report me l
        by_cases hsame : behind args (Proc.enter args report me l) = behind args l
        · exact Or.inl hsame
        · refine Or.inr ⟨by omega, ?_, ?_⟩
          · intro happ
            rw [hzero]
            exact Nat.ne_of_lt (Procs.pos_of_isApp happ)
          · intro _ hlt
            have hfirst : (⟨behind args l, hlt⟩ : args.Id) = args.first := Fin.ext hzero
            rw [hfirst, Procs.isApp_eq, Procs.isDsl_first]
            rfl
  | turn hpc _ hco _ =>
      rw [next_turn hpc, Action.meet.injEq] at hk
      have hbehind : behind args l = l.co + 1 := by simp [behind, hpc]
      have hbegins := @begins_close args M report me l (l.co + 1)
      rw [hk] at hbegins
      cases hbegins with
      | report _ _ => exact ⟨rfl, rfl, Or.inl hbehind.symm⟩
      | gather _ _ _ => exact ⟨rfl, rfl, Or.inl hbehind.symm⟩
      | turn hlt hme hfirst =>
          refine ⟨rfl, rfl, Or.inr ⟨by rw [hbehind]; rfl, ?_, ?_⟩⟩
          · rw [hbehind]
            exact hme
          · simp only [hbehind]
            exact fun hzero _ => hfirst hzero
      | last hle =>
          refine ⟨rfl, rfl, Or.inl ?_⟩
          show args.numProcs = _
          omega
  | loop hpc _ =>
      rw [next_loop hpc] at hk
      rcases map_eq_meet hk with ⟨_, hmeet, _⟩
      exact absurd hmeet loops_not_meet
  | report hpc _ _ _ _ => cases (next_report hpc).symm.trans hk
  | gather hpc _ _ hco _ => cases (next_gather hpc hco).symm.trans hk
  | past hpc _ =>
      rcases hpc with hpc | hpc
      · rw [next_last hpc, Action.meet.injEq] at hk
        rw [← hk]
        exact ⟨rfl, rfl, Or.inl (by simp [behind, hpc])⟩
      · cases (next_done hpc).symm.trans hk

end Facts

/-! ## The order of the barriers -/

section Order

variable {args : ClientServerArgs} {reply : Reply} {M : Type} {W : MsgWords M}
variable {report : args.Id → M → M} {buf : args.Id → M} {H : Halls args.Id (Proc M)}
variable {s : Meetings args.Id M (Proc M)} {p q : args.Id}

theorem fit (h : (Meetings.system (network args reply W report buf) H).Reachable s) (p : args.Id) :
    Fit args report buf p (s.net.loc p) := by
  refine loc_invariant (I := Fit args report buf) ?_ (fun _ _ _ hfit hk => hfit.leads hk) h p
  exact fun _ => Fit.opening rfl Nat.two_pos rfl

theorem inOrder (hhall : H.hall = hall args) :
    Meetings.InOrder (network args reply W report buf) H (seq args) fun _ l => pos args l where
  start _ := rfl
  stays _ p _ h hgoes hmeet := (fit h p).pos_stays (leads_of_goes hgoes) hmeet
  passes s p k h hnext := by
    rcases (fit h p).pos_passes hnext with ⟨hpos, hlt⟩
    refine ⟨hpos, ?_⟩
    rw [seq, List.getElem?_replicate, if_pos hlt, Meetings.hallOf, hhall]
    rfl

/-- The loops are a part of the programs, in which nobody meets anybody. -/
theorem part (hhall : H.hall = hall args)
    (hnone : ∀ p, H.member Barrier.ssmpNumBarriers p = false) :
    Part (ClientServer.network args reply W buf) (network args reply W report buf) H
      Barrier.ssmpNumBarriers inside inLoop where
  start _ := rfl
  group := hnone
  next p l hin := by
    refine ⟨_, next_loop (of_decide_eq_true hin), ?_⟩
    intro k
    exact enter_loop
  meets s p k _ hin hnext := by
    have hmap := (next_loop (of_decide_eq_true hin)).symm.trans hnext
    rcases map_eq_meet hmap with ⟨_, hmeet, _⟩
    exact absurd hmeet loops_not_meet
  apart p l k _ _ := by
    rw [hhall]
    exact Nat.ne_of_lt (show 0 < Barrier.ssmpNumBarriers by decide)
  noScan p l srcs k hout hnext := by
    have hpc : l.pc ≠ .loop := of_decide_eq_false hout
    cases hpc' : l.pc with
    | loop => exact hpc hpc'
    | report => cases (next_report hpc').symm.trans hnext
    | gather =>
        simp only [network, next, hpc'] at hnext
        rcases Procs.exists_of_atId hnext (by simp) with ⟨_, _, hact⟩
        cases hact
    | opening => cases (next_opening hpc').symm.trans hnext
    | turn => cases (next_turn hpc').symm.trans hnext
    | last => cases (next_last hpc').symm.trans hnext
    | done => cases (next_done hpc').symm.trans hnext
  stays p l k hout hk := by
    have hpc : l.pc ≠ .loop := of_decide_eq_false hout
    cases hpc' : l.pc with
    | loop => exact absurd hpc' hpc
    | opening =>
        simp only [network, next_opening hpc'] at hk
        have hk' : k = _ := hk
        rw [hk']
        split_ifs
        · rfl
        · exact enter_loop
    | report =>
        simp only [network, next_report hpc'] at hk
        have hk' : k = _ := hk
        rw [hk']
        rfl
    | gather =>
        simp only [network, next, hpc', Procs.atId] at hk
        split at hk
        · rcases hk with ⟨m, rfl⟩
          rfl
        · exact hk.elim
    | turn =>
        simp only [network, next_turn hpc'] at hk
        have hk' : k = _ := hk
        rw [hk']
        exact close_loop
    | last =>
        simp only [network, next_last hpc'] at hk
        have hk' : k = _ := hk
        rw [hk']
        rfl
    | done =>
        simp only [network, next_done hpc'] at hk
        exact hk.elim

/-- No turn with something to do begins before every process has left its loop. -/
theorem behind_le_one (hhall : H.hall = hall args) (hmember : ∀ p, H.member 0 p = true)
    (h : (Meetings.system (network args reply W report buf) H).Reachable s)
    (hp : (s.net.loc p).pc = .loop) (q : args.Id) : behind args (s.net.loc q) ≤ 1 := by
  by_contra hmore
  have hpos : 2 < pos args (s.net.loc q) := by
    rcases behind_le_pos (fit h q) with hle | hzero <;> omega
  have hbarrier : (seq args)[2]? = some 0 := by
    rw [seq, List.getElem?_replicate, if_pos (by omega)]
  have hhere : pos args (s.net.loc p) = 2 := by simp [pos, hp]
  rcases (inOrder hhall).together h hpos hbarrier (hmember q) (hmember p) with hlt | ⟨_, hwaits⟩
  · omega
  · rcases (Meetings.waits_of_reachable h p hwaits).meet with ⟨k, hk⟩
    have hmap := (next_loop hp).symm.trans hk
    rcases map_eq_meet hmap with ⟨_, hmeet, _⟩
    exact absurd hmeet loops_not_meet

end Order

end Main
end ClientServer
end Bench
end Ssmp
