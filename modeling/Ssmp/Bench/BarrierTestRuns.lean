import Ssmp.Bench.BarrierTest

/-!
# Bench.BarrierTestRuns — the runs of `barrier_test.c`

Process 0 has broadcast the numbers of the barriers that it has drawn, the others have taken the first
of them (`Account`), and all come to these barriers one after the other (`inOrder`).  No process waits
in vain, so every run comes to its end (`rounds_terminate`).
-/

namespace Ssmp
namespace Bench

open Lib Network

namespace BarrierTest

/-! ## Where a process is -/

section Stages

variable (args : BarrierTestArgs) {M : Type} (W : MsgWords M) (buf : Nat → M)

/-- The message of round `i`. -/
def drawn (i : Nat) : M :=
  W.set 0 (Int32.ofNat (args.draw i)) (buf i)

/-- The messages of the first `k` rounds. -/
def messages (k : Nat) : List M :=
  (List.range k).map (drawn args W buf)

/-- Where process `p` is in round `k`, or before or behind all of them. -/
inductive Stage (p : args.Id) (l : Proc) : Prop where
  | opening (hpc : l.pc = .opening) (hnum : l.num = 0) (hseeds : l.seeds = args.seeds)
  | send {core k : Nat} (hp : p = args.first) (hpc : l.pc = .send core) (hpos : 0 < core)
      (hcore : core < args.numProcs) (hnum : l.num = k + 1) (hk : k < args.rounds)
      (hseeds : l.seeds = Seeds.next^[k + 1] args.seeds) (hbarr : l.barr = Int32.ofNat (args.draw k))
  | recv {k : Nat} (hp : p ≠ args.first) (hpc : l.pc = .recv) (hnum : l.num = k + 1)
      (hk : k < args.rounds)
  | wait {k : Nat} (hpc : l.pc = .wait) (hnum : l.num = k + 1) (hk : k < args.rounds)
      (hseeds : p = args.first → l.seeds = Seeds.next^[k + 1] args.seeds)
      (hbarr : l.barr = Int32.ofNat (args.draw k))
  | past (hpc : l.pc = .last ∨ l.pc = .done) (hnum : l.num = args.rounds + 1)

/-- How many messages process 0 has put for `d`. -/
def sent (l : Proc) (d : args.Id) : Nat :=
  match l.pc with
  | .send core => if d.val < core then l.num else l.num - 1
  | .wait => l.num
  | _ => l.num - 1

/-- How many messages another process has taken. -/
def taken (l : Proc) : Nat :=
  match l.pc with
  | .wait => l.num
  | _ => l.num - 1

/-- At most what a process has left to do. -/
def left (l : Proc) : Nat :=
  match l.pc with
  | .opening => args.rounds * (args.numProcs + 1) + 3
  | .send core =>
      (args.rounds - l.num) * (args.numProcs + 1) + (args.numProcs - core) + 2
  | .recv => (args.rounds - l.num) * (args.numProcs + 1) + 3
  | .wait => (args.rounds - l.num) * (args.numProcs + 1) + 2
  | .last => 1
  | .done => 0

/-- How many barriers a process has passed. -/
def pos (l : Proc) : Nat :=
  match l.pc with
  | .done => l.num + 1
  | _ => l.num

/-- The barriers that every process comes to. -/
def seq : List Nat :=
  0 :: (List.range args.rounds).map args.draw ++ [10]

end Stages

section Facts

variable {args : BarrierTestArgs} {M : Type} {W : MsgWords M} {buf : Nat → M} {p d : args.Id}
variable {l l' : Proc} {i j k core : Nat} {m : M}

@[simp] theorem length_messages : (messages args W buf k).length = k := by
  simp [messages]

theorem messages_succ :
    messages args W buf (k + 1) = messages args W buf k ++ [drawn args W buf k] := by
  simp [messages, List.range_succ]

theorem first_val : args.first.val = 0 := rfl

theorem ne_first (h : p ≠ args.first) : 0 < p.val := by
  by_contra hzero
  exact h (Fin.ext (by simp only [first_val]; omega))

theorem hall_wait (hpc : l.pc = .wait) (hbarr : l.barr = Int32.ofNat (args.draw k)) :
    hall args p l = args.draw k := by
  have hlt := @BarrierTestArgs.draw_lt args k
  simp only [hall, hpc, hbarr]
  rw [Int32.toInt_ofNat_of_lt (by omega), Int.toNat_natCast]

theorem lt_rounds : (k : Int) < args.numReps ↔ k < args.rounds := by
  unfold BarrierTestArgs.rounds
  omega

/-! ## Going on -/

/-- An action takes a process on: less is left, and only a barrier counts as one. -/
structure Onward (args : BarrierTestArgs) (p : args.Id) (l l' : Proc) (barriers : Nat) : Prop where
  stage : Stage args p l'
  left : left args l' < left args l
  pos : pos l' = pos l + barriers

/-- The broadcast goes on with the next process. -/
theorem broadcast_stage (hp : p = args.first) (hnum : l.num = k + 1) (hk : k < args.rounds)
    (hseeds : l.seeds = Seeds.next^[k + 1] args.seeds)
    (hbarr : l.barr = Int32.ofNat (args.draw k)) :
    Stage args p (Proc.broadcast args p core l) ∧ pos (Proc.broadcast args p core l) = k + 1 ∧
      left args (Proc.broadcast args p core l) ≤
        (args.rounds - (k + 1)) * (args.numProcs + 1) + (args.numProcs - core) + 2 ∧
      ∀ d, d ≠ args.first →
        sent args (Proc.broadcast args p core l) d = if d.val < core then k + 1 else k := by
  have hcore : ∀ d : args.Id, d ≠ args.first →
      (d.val < (if core = p.val then core + 1 else core) ↔ d.val < core) := by
    intro d hd
    have hpos := ne_first hd
    split
    · rename_i heq
      rw [hp, first_val] at heq
      omega
    · exact Iff.rfl
  have hge : core ≤ if core = p.val then core + 1 else core := by
    split <;> omega
  have hpos : 0 < if core = p.val then core + 1 else core := by
    split
    · omega
    · rename_i hne
      rw [hp, first_val] at hne
      omega
  unfold Proc.broadcast
  generalize (if core = p.val then core + 1 else core) = core' at hcore hge hpos
  by_cases hlt : core' < args.numProcs
  · simp only [hlt, if_true]
    refine ⟨Stage.send hp rfl hpos hlt hnum hk hseeds hbarr, hnum, ?_, ?_⟩
    · simp only [left, hnum]
      omega
    · intro d hd
      simp only [sent, hnum, hcore d hd, Nat.add_sub_cancel]
  · simp only [hlt, if_false]
    refine ⟨Stage.wait rfl hnum hk (fun _ => hseeds) hbarr, hnum, ?_, ?_⟩
    · simp only [left, hnum]
      omega
    · intro d hd
      have hd' : d.val < core := (hcore d hd).1 (by omega)
      simp only [sent, hnum, hd', if_true]

/-- The test of the loop, behind the barrier before round `k`. -/
theorem test_stage (hnum : l.num = k) (hk : k ≤ args.rounds)
    (hseeds : p = args.first → l.seeds = Seeds.next^[k] args.seeds) :
    Stage args p (Proc.test args p l) ∧ pos (Proc.test args p l) = k + 1 ∧
      left args (Proc.test args p l) < (args.rounds - k) * (args.numProcs + 1) + 2 ∧
      (p = args.first → ∀ d, d ≠ args.first → sent args (Proc.test args p l) d = k) ∧
      (p ≠ args.first → taken (Proc.test args p l) = k) := by
  unfold Proc.test
  by_cases hmore : k < args.rounds
  · have hstep : (args.rounds - k) * (args.numProcs + 1) =
        (args.rounds - (k + 1)) * (args.numProcs + 1) + (args.numProcs + 1) := by
      rw [← Nat.succ_mul]
      congr 1
      omega
    rw [if_pos (by rw [hnum]; exact lt_rounds.2 hmore)]
    by_cases hp : p = args.first
    · have hme : p.val = 0 := by rw [hp, first_val]
      simp only [hme, if_true]
      have hnext : (xorshf96 l.seeds).2 = Seeds.next^[k + 1] args.seeds := by
        rw [Function.iterate_succ_apply', ← hseeds hp]
        rfl
      have hdraw : (((xorshf96 l.seeds).1 % 16).toNat) = args.draw k := by
        rw [BarrierTestArgs.draw, ← hseeds hp]
      rcases @broadcast_stage args p
        { l with
          num := l.num + 1
          seeds := (xorshf96 l.seeds).2
          barr := Int32.ofNat ((xorshf96 l.seeds).1 % 16).toNat } k 0 hp (by simp [hnum]) hmore
        hnext (by rw [hdraw]) with ⟨hstage, hpos, hleft, hsent⟩
      refine ⟨hstage, hpos, ?_, fun _ d hd => ?_, fun hne => absurd hp hne⟩
      · refine Nat.lt_of_le_of_lt hleft ?_
        rw [hstep]
        omega
      · rw [hsent d hd, if_neg (Nat.not_lt_zero _)]
    · have hme : ¬ p.val = 0 := by
        have := ne_first hp
        omega
      rw [if_neg hme]
      refine ⟨Stage.recv hp rfl (by simp [hnum]) hmore, by simp [pos, hnum], ?_,
        fun h => absurd h hp, fun _ => by simp [taken, hnum]⟩
      simp only [left, hnum]
      rw [hstep]
      have := args.numProcs_pos
      omega
  · have hall : k = args.rounds := by omega
    rw [if_neg (by rw [hnum]; exact fun h => hmore (lt_rounds.1 h))]
    refine ⟨Stage.past (Or.inl rfl) (by simp [hnum, hall]), by simp [pos, hnum], ?_,
      fun _ d _ => by simp [sent, hnum], fun _ => by simp [taken, hnum]⟩
    simp only [left]
    omega

/-! ## One action -/

theorem Stage.put (h : Stage args p l) {l' : Proc} (hnext : next args W buf p l = .put d m l') :
    p = args.first ∧ d ≠ args.first ∧ m = drawn args W buf (sent args l d) ∧
      Onward args p l l' 0 ∧
      ∀ e, e ≠ args.first → sent args l' e = sent args l e + if e = d then 1 else 0 := by
  cases h with
  | @send core k hp hpc hpos hcore hnum hk hseeds hbarr =>
      simp only [next, hpc, hcore, dif_pos, Action.put.injEq] at hnext
      rcases hnext with ⟨rfl, rfl, rfl⟩
      rcases @broadcast_stage args p l k (core + 1) hp hnum hk hseeds hbarr with
        ⟨hstage, hpos', hleft, hsent⟩
      have hd : (⟨core, hcore⟩ : args.Id) ≠ args.first := by
        intro heq
        have := congrArg Fin.val heq
        simp only [first_val] at this
        omega
      refine ⟨hp, hd, ?_, ⟨hstage, ?_, ?_⟩, ?_⟩
      · simp [Proc.message, drawn, sent, hpc, hnum, hbarr]
      · refine Nat.lt_of_le_of_lt hleft ?_
        simp only [left, hpc, hnum]
        omega
      · rw [hpos', pos, hpc, hnum]
      · intro e he
        rw [hsent e he]
        simp only [sent, hpc, hnum, Nat.add_sub_cancel, Fin.ext_iff]
        split <;> split <;> split <;> omega
  | opening hpc _ _ => simp [next, hpc] at hnext
  | recv _ hpc _ _ => simp [next, hpc] at hnext
  | wait hpc _ _ _ _ => simp [next, hpc] at hnext
  | past hpc _ => rcases hpc with hpc | hpc <;> simp [next, hpc] at hnext

theorem Stage.take (h : Stage args p l) {q : args.Id} {f : M → Proc}
    (hnext : next args W buf p l = .take q f) :
    q = args.first ∧ p ≠ args.first ∧
      (m = drawn args W buf (taken l) → Onward args p l (f m) 0 ∧ taken (f m) = taken l + 1) := by
  cases h with
  | @recv k hp hpc hnum hk =>
      simp only [next, hpc, Action.take.injEq] at hnext
      rcases hnext with ⟨rfl, rfl⟩
      refine ⟨rfl, hp, ?_⟩
      rintro rfl
      have hbarr : W.get 0 (drawn args W buf (taken l)) = Int32.ofNat (args.draw k) := by
        simp [drawn, W.get_set, taken, hpc, hnum]
      refine ⟨⟨Stage.wait rfl hnum hk (fun h => absurd h hp) hbarr, ?_, by simp [pos, hpc]⟩, ?_⟩
      · simp [left, hpc]
      · simp [taken, hpc, hnum]
  | send _ hpc _ hcore _ _ _ _ => simp [next, hpc, hcore] at hnext
  | opening hpc _ _ => simp [next, hpc] at hnext
  | wait hpc _ _ _ _ => simp [next, hpc] at hnext
  | past hpc _ => rcases hpc with hpc | hpc <;> simp [next, hpc] at hnext

theorem Stage.meet (h : Stage args p l) {l' : Proc} (hnext : next args W buf p l = .meet l') :
    Onward args p l l' 1 ∧ (p = args.first → ∀ d, d ≠ args.first → sent args l' d = sent args l d) ∧
      (p ≠ args.first → taken l' = taken l) ∧ (seq args)[pos l]? = some (hall args p l) := by
  cases h with
  | opening hpc hnum hseeds =>
      simp only [next, hpc, Action.meet.injEq] at hnext
      subst hnext
      rcases @test_stage args p l 0 hnum (Nat.zero_le _) (fun _ => hseeds) with
        ⟨hstage, hpos, hleft, hsent, htaken⟩
      have hhere : left args l = args.rounds * (args.numProcs + 1) + 3 := by simp [left, hpc]
      have hplace : pos l = 0 := by simp [pos, hpc, hnum]
      rw [Nat.sub_zero] at hleft
      refine ⟨⟨hstage, by omega, by omega⟩, ?_, ?_, ?_⟩
      · intro hp d hd
        rw [hsent hp d hd]
        simp [sent, hpc, hnum]
      · intro hp
        rw [htaken hp]
        simp [taken, hpc, hnum]
      · simp [hplace, seq, hall, hpc]
  | @wait k hpc hnum hk hseeds hbarr =>
      simp only [next, hpc, Action.meet.injEq] at hnext
      subst hnext
      rcases @test_stage args p l (k + 1) hnum hk hseeds with ⟨hstage, hpos, hleft, hsent, htaken⟩
      have hhere : left args l = (args.rounds - (k + 1)) * (args.numProcs + 1) + 2 := by
        simp [left, hpc, hnum]
      have hplace : pos l = k + 1 := by simp [pos, hpc, hnum]
      refine ⟨⟨hstage, by omega, by omega⟩, ?_, ?_, ?_⟩
      · intro hp d hd
        rw [hsent hp d hd]
        simp [sent, hpc, hnum]
      · intro hp
        rw [htaken hp]
        simp [taken, hpc, hnum]
      · rw [hall_wait hpc hbarr, hplace]
        simp [seq, List.getElem?_append, hk]
  | past hpc hnum =>
      rcases hpc with hpc | hpc
      · simp only [next, hpc, Action.meet.injEq] at hnext
        subst hnext
        refine ⟨⟨Stage.past (Or.inr rfl) hnum, by simp [left, hpc], by simp [pos, hpc]⟩,
          fun _ _ _ => by simp [sent, hpc], fun _ => by simp [taken, hpc], ?_⟩
        simp [seq, pos, hall, hpc, hnum]
      · simp [next, hpc] at hnext
  | send _ hpc _ hcore _ _ _ _ => simp [next, hpc, hcore] at hnext
  | recv _ hpc _ _ => simp [next, hpc] at hnext

theorem Stage.sent_le (h : Stage args p l) : sent args l d ≤ args.rounds := by
  cases h with
  | opening hpc hnum _ => simp [sent, hpc, hnum]
  | send _ hpc _ _ hnum hk _ _ =>
      simp only [sent, hpc, hnum]
      split <;> omega
  | recv _ hpc hnum hk =>
      simp only [sent, hpc, hnum]
      omega
  | wait hpc hnum hk _ _ =>
      simp only [sent, hpc, hnum]
      omega
  | past hpc hnum => rcases hpc with hpc | hpc <;> simp [sent, hpc, hnum]

end Facts

/-! ## Every run -/

section Runs

variable (args : BarrierTestArgs) {M : Type} (W : MsgWords M) (buf : Nat → M)

/-- What is true of process `p` by itself: process 0 puts the messages of the rounds for all others,
which take them, and nothing else is sent. -/
structure Account (p : args.Id) (l : Proc) (ins outs : args.Id → List M) : Prop where
  stage : Stage args p l
  puts : ∀ d, ins d = if p = args.first ∧ d ≠ args.first then messages args W buf (sent args l d)
    else []
  takes : ∀ q, outs q = if q = args.first ∧ p ≠ args.first then messages args W buf (taken l) else []

variable {args W buf} {H : Halls args.Id Proc} {p q : args.Id} {l : Proc}
variable {s t : Meetings args.Id M Proc}

theorem waits_to_put {d : args.Id} {m : M} {l' : Proc} :
    (network args W buf).next p l ≠ .overwrite d m l' := by
  cases hpc : l.pc with
  | send core =>
      simp only [network, next, hpc]
      split <;> simp
  | _ => simp [network, next, hpc]

theorem noScan : Meetings.NoScan (network args W buf) := by
  intro p l srcs k
  cases hpc : l.pc with
  | send core =>
      simp only [network, next, hpc]
      split <;> simp
  | _ => simp [network, next, hpc]

theorem safe (r : Network.State args.Id M Proc) : (network args W buf).Safe r :=
  safe_of_waits (fun _ _ _ _ _ => waits_to_put) r

theorem localProof : LocalProof (network args W buf) (Account args W buf) where
  start p :=
    { stage := Stage.opening rfl rfl rfl
      puts := fun d => by simp [network, start, sent, messages]
      takes := fun q => by simp [network, start, taken, messages] }
  put {p l ins outs d m k} h hnext := by
    rcases hnext with hnext | hnext
    · rcases h.stage.put hnext with ⟨rfl, hd, rfl, honward, hsent⟩
      refine ⟨honward.stage, ?_, ?_⟩
      · intro e
        by_cases he : e = d
        · subst he
          rw [Function.update_self, h.puts, if_pos ⟨rfl, hd⟩, if_pos ⟨rfl, hd⟩, hsent e hd, if_pos rfl,
            messages_succ]
        · rw [Function.update_of_ne he, h.puts]
          by_cases hfirst : e = args.first
          · rw [if_neg fun h => h.2 hfirst, if_neg fun h => h.2 hfirst]
          · rw [if_pos ⟨rfl, hfirst⟩, if_pos ⟨rfl, hfirst⟩, hsent e hfirst, if_neg he, Nat.add_zero]
      · intro q
        rw [h.takes, if_neg fun h => h.2 rfl, if_neg fun h => h.2 rfl]
    · exact absurd hnext waits_to_put
  take {p l ins outs q l' ins' outs' f m} h h' hnext hm := by
    rcases @Stage.take args M W buf p l m h.stage q f hnext with ⟨rfl, hp, honward⟩
    rw [h.takes, if_pos ⟨rfl, hp⟩, h'.puts, if_pos ⟨rfl, hp⟩] at hm
    rcases honward (next_of_range hm).2 with ⟨honward, htaken⟩
    refine ⟨honward.stage, ?_, ?_⟩
    · intro d
      rw [h.puts, if_neg fun h => hp h.1, if_neg fun h => hp h.1]
    · intro e
      by_cases he : e = args.first
      · subst he
        rw [Function.update_self, h.takes, if_pos ⟨rfl, hp⟩, if_pos ⟨rfl, hp⟩, htaken, messages_succ,
          (next_of_range hm).2]
      · rw [Function.update_of_ne he, h.takes, if_neg fun h => he h.1, if_neg fun h => he h.1]
  scan _ _ hnext _ _ := absurd hnext (noScan _ _ _ _)
  meet {p l ins outs k} h hnext := by
    rcases h.stage.meet hnext with ⟨honward, hsent, htaken, _⟩
    refine ⟨honward.stage, ?_, ?_⟩
    · intro d
      rw [h.puts]
      by_cases hboth : p = args.first ∧ d ≠ args.first
      · rw [if_pos hboth, if_pos hboth, hsent hboth.1 d hboth.2]
      · rw [if_neg hboth, if_neg hboth]
    · intro q
      rw [h.takes]
      by_cases hboth : q = args.first ∧ p ≠ args.first
      · rw [if_pos hboth, if_pos hboth, htaken hboth.2]
      · rw [if_neg hboth, if_neg hboth]

theorem account (h : (Meetings.system (network args W buf) H).Reachable s) (p : args.Id) :
    Account args W buf p (s.net.loc p) (s.net.puts p) (s.net.takes p) :=
  localProof.holds (fun s _ => safe s.net) h p

/-- A message that process `p` can take is the one of its round. -/
theorem take_onward (h : (Meetings.system (network args W buf) H).Reachable s) {f : M → Proc} {m : M}
    (hnext : next args W buf p (s.net.loc p) = .take q f)
    (hm : (s.net.chan (q, p)).place = some m) : Onward args p (s.net.loc p) (f m) 0 := by
  have hp := account h p
  rcases @Stage.take args M W buf p _ m hp.stage q f hnext with ⟨rfl, hne, honward⟩
  have hfifo := Meetings.fifo (fun s _ => safe s.net) h (args.first, p)
  have hprefix := LocalProof.prefix_of_fifo hfifo hm
  rw [hp.takes, if_pos ⟨rfl, hne⟩, (account h args.first).puts, if_pos ⟨rfl, hne⟩] at hprefix
  exact (honward (next_of_range hprefix).2).1

/-- Wherever a process goes on, it gets ahead. -/
theorem onward_of_goes (h : (Meetings.system (network args W buf) H).Reachable s) {l' : Proc}
    (hgoes : Meetings.Goes (network args W buf) s.net p l') :
    ∃ b, Onward args p (s.net.loc p) l' b ∧
      ((∀ k, (network args W buf).next p (s.net.loc p) ≠ .meet k) → b = 0) := by
  have hp := account h p
  unfold Meetings.Goes at hgoes
  cases hnext : (network args W buf).next p (s.net.loc p) with
  | put d m k =>
      rw [hnext] at hgoes
      rcases hp.stage.put hnext with ⟨_, _, _, honward, _⟩
      exact ⟨0, hgoes.2 ▸ honward, fun _ => rfl⟩
  | take q f =>
      rw [hnext] at hgoes
      rcases hgoes with ⟨m, hm, rfl⟩
      exact ⟨0, take_onward h hnext hm, fun _ => rfl⟩
  | meet k =>
      rw [hnext] at hgoes
      subst hgoes
      exact ⟨1, (hp.stage.meet hnext).1, fun hmeet => absurd rfl (hmeet _)⟩
  | overwrite d m k => exact absurd hnext waits_to_put
  | scan srcs f => exact absurd hnext (noScan _ _ _ _)
  | stop =>
      rw [hnext] at hgoes
      exact hgoes.elim

/-- All processes come to the barriers that process 0 draws. -/
theorem inOrder (hhall : H.hall = hall args) :
    Meetings.InOrder (network args W buf) H (seq args) fun _ => pos where
  start _ := rfl
  stays s p k h hgoes hmeet := by
    rcases onward_of_goes h hgoes with ⟨b, honward, hb⟩
    rw [honward.pos, hb hmeet]
    rfl
  passes s p k h hnext := by
    rcases (account h p).stage.meet hnext with ⟨honward, _, _, hseq⟩
    refine ⟨honward.pos, ?_⟩
    rw [hseq, Meetings.hallOf, hhall]

theorem ranked :
    Meetings.Ranked (network args W buf) H fun p r => left args (r.loc p) :=
  Meetings.Ranked.ofLoc noScan fun _ _ _ h hgoes => by
    rcases onward_of_goes h hgoes with ⟨_, honward, _⟩
    exact honward.left

/-! ### Nobody gets stuck -/

/-- The channel from process 0 to `p` holds the messages that `p` has not taken. -/
theorem in_channel (h : (Meetings.system (network args W buf) H).Reachable s) (hp : p ≠ args.first) :
    (s.net.chan (args.first, p)).place = none ∧
        sent args (s.net.loc args.first) p = taken (s.net.loc p) ∨
      (s.net.chan (args.first, p)).place ≠ none ∧
        sent args (s.net.loc args.first) p = taken (s.net.loc p) + 1 := by
  have hfifo := Meetings.fifo (fun s _ => safe s.net) h (args.first, p)
  have hins := (account h args.first).puts p
  have houts := (account h p).takes args.first
  rw [if_pos ⟨rfl, hp⟩] at hins houts
  have hlen := congrArg List.length hfifo
  rw [List.length_append, show (s.net.chan (args.first, p)).ins = _ from hins,
    show (s.net.chan (args.first, p)).outs = _ from houts, length_messages, length_messages] at hlen
  cases hplace : (s.net.chan (args.first, p)).place with
  | none => exact Or.inl ⟨rfl, by simpa [hplace] using hlen⟩
  | some m => exact Or.inr ⟨by simp, by simpa [hplace] using hlen⟩

theorem next_opening (hpc : l.pc = .opening) :
    (network args W buf).next p l = .meet (Proc.test args p l) := by
  simp only [network, next, hpc]

theorem next_wait (hpc : l.pc = .wait) :
    (network args W buf).next p l = .meet (Proc.test args p l) := by
  simp only [network, next, hpc]

theorem next_last (hpc : l.pc = .last) :
    (network args W buf).next p l = .meet { l with pc := .done } := by
  simp only [network, next, hpc]

/-- If process 0 waits in its broadcast, another process is at a barrier that process 0 has passed. -/
theorem behind_sender (h : (Meetings.system (network args W buf) H).Reachable s)
    (hblocked : ∀ p, Meetings.Blocked (network args W buf) H s p) {core : Nat}
    (hpc : (s.net.loc args.first).pc = .send core) :
    ∃ c k, (network args W buf).next c (s.net.loc c) = .meet k ∧
      pos (s.net.loc c) < pos (s.net.loc args.first) := by
  cases (account h args.first).stage with
  | @send core' k _ hpc' hpos hcore hnum hk _ _ =>
      obtain rfl : core = core' := by
        rw [hpc] at hpc'
        exact Pc.send.inj hpc'
      have hc : (⟨core, hcore⟩ : args.Id) ≠ args.first := by
        intro heq
        have := congrArg Fin.val heq
        simp only [first_val] at this
        omega
      -- the place is full, with a message of an earlier round
      have hfull := hblocked args.first
      unfold Meetings.Blocked at hfull
      simp only [network, next, hpc, hcore, dif_pos] at hfull
      have htaken : taken (s.net.loc ⟨core, hcore⟩) + 1 = k := by
        rcases in_channel h hc with ⟨hfree, _⟩ | ⟨_, heq⟩
        · exact absurd hfree hfull
        · simpa [sent, hpc, hnum] using heq.symm
      have hahead : pos (s.net.loc args.first) = k + 1 := by simp [pos, hpc, hnum]
      cases (account h (⟨core, hcore⟩ : args.Id)).stage with
      | opening hpcc hnumc _ =>
          exact ⟨_, _, next_opening hpcc, by rw [hahead]; simp [pos, hpcc, hnumc]⟩
      | send hfirst _ _ _ _ _ _ _ => exact absurd hfirst hc
      | recv _ hpcc _ _ =>
          have hempty := hblocked ⟨core, hcore⟩
          unfold Meetings.Blocked at hempty
          simp only [network, next, hpcc] at hempty
          exact absurd hempty hfull
      | wait hpcc hnumc _ _ _ =>
          refine ⟨_, _, next_wait hpcc, ?_⟩
          simp only [taken, hpcc] at htaken
          rw [hahead]
          simp only [pos, hpcc]
          omega
      | past hpcc hnumc =>
          rcases hpcc with hpcc | hpcc <;> simp only [taken, hpcc] at htaken <;> omega
  | opening hpc' _ _ => simp [hpc] at hpc'
  | recv hp _ _ _ => exact absurd rfl hp
  | wait hpc' _ _ _ _ => simp [hpc] at hpc'
  | past hpc' _ => simp [hpc] at hpc'

/-- If another process waits for its message, process 0 is behind it at a barrier, or somebody is whom
process 0 waits for. -/
theorem behind_receiver (h : (Meetings.system (network args W buf) H).Reachable s)
    (hblocked : ∀ p, Meetings.Blocked (network args W buf) H s p) (hpc : (s.net.loc p).pc = .recv) :
    ∃ c k, (network args W buf).next c (s.net.loc c) = .meet k ∧
      pos (s.net.loc c) < pos (s.net.loc p) := by
  cases (account h p).stage with
  | @recv k hp hpc' hnum hk =>
      have hempty := hblocked p
      unfold Meetings.Blocked at hempty
      simp only [network, next, hpc] at hempty
      have hsent : sent args (s.net.loc args.first) p = k := by
        rcases in_channel h hp with ⟨_, heq⟩ | ⟨hfull, _⟩
        · simpa [taken, hpc, hnum] using heq
        · exact absurd hempty hfull
      have hahead : pos (s.net.loc p) = k + 1 := by simp [pos, hpc, hnum]
      cases (account h args.first).stage with
      | opening hpc₀ hnum₀ _ =>
          exact ⟨_, _, next_opening hpc₀, by rw [hahead]; simp [pos, hpc₀, hnum₀]⟩
      | @send core k₀ _ hpc₀ _ _ hnum₀ _ _ _ =>
          rcases behind_sender h hblocked hpc₀ with ⟨c, l', hc, hlt⟩
          refine ⟨c, l', hc, Nat.lt_of_lt_of_le hlt ?_⟩
          have hle : k₀ ≤ k := by
            simp only [sent, hpc₀, hnum₀] at hsent
            split at hsent <;> omega
          rw [hahead]
          simp only [pos, hpc₀, hnum₀]
          omega
      | recv hp₀ _ _ _ => exact absurd rfl hp₀
      | wait hpc₀ hnum₀ _ _ _ =>
          refine ⟨_, _, next_wait hpc₀, ?_⟩
          simp only [sent, hpc₀] at hsent
          rw [hahead]
          simp only [pos, hpc₀]
          omega
      | past hpc₀ hnum₀ =>
          rcases hpc₀ with hpc₀ | hpc₀ <;> simp only [sent, hpc₀] at hsent <;> omega
  | opening hpc' _ _ => simp [hpc] at hpc'
  | send _ hpc' _ _ _ _ _ _ => simp [hpc] at hpc'
  | wait hpc' _ _ _ _ => simp [hpc] at hpc'
  | past hpc' _ => simp [hpc] at hpc'

/-- Whoever is behind all others at the barriers, and not at one, has come to its end. -/
theorem not_stuck (h : (Meetings.system (network args W buf) H).Reachable s)
    (hblocked : ∀ p, Meetings.Blocked (network args W buf) H s p)
    (hmeet : ∀ k, (network args W buf).next p (s.net.loc p) ≠ .meet k)
    (hleast : ∀ r k, (network args W buf).next r (s.net.loc r) = .meet k →
      pos (s.net.loc p) ≤ pos (s.net.loc r)) : (s.net.loc p).pc = .done := by
  have hstage := (account h p).stage
  cases hpc : (s.net.loc p).pc with
  | opening => exact absurd (next_opening hpc) (hmeet _)
  | wait => exact absurd (next_wait hpc) (hmeet _)
  | last => exact absurd (next_last hpc) (hmeet _)
  | send core =>
      obtain rfl : p = args.first := by
        cases hstage with
        | send hp _ _ _ _ _ _ _ => exact hp
        | opening hpc' _ _ => simp [hpc] at hpc'
        | recv _ hpc' _ _ => simp [hpc] at hpc'
        | wait hpc' _ _ _ _ => simp [hpc] at hpc'
        | past hpc' _ => simp [hpc] at hpc'
      rcases behind_sender h hblocked hpc with ⟨c, k, hc, hlt⟩
      exact absurd (hleast c k hc) (Nat.not_le_of_lt hlt)
  | recv =>
      rcases behind_receiver h hblocked hpc with ⟨c, k, hc, hlt⟩
      exact absurd (hleast c k hc) (Nat.not_le_of_lt hlt)
  | done => rfl

theorem done_of_blocked (hhall : H.hall = hall args)
    (h : (Meetings.system (network args W buf) H).Reachable s)
    (hblocked : ∀ p, Meetings.Blocked (network args W buf) H s p) (p : args.Id) :
    (s.net.loc p).pc = .done := by
  have hnone : ∀ r k, (network args W buf).next r (s.net.loc r) ≠ .meet k := by
    intro r k hr
    rcases (inOrder hhall).exists_behind h hblocked hr with ⟨q, hmeet, hleast⟩
    have hdone := not_stuck h hblocked hmeet hleast
    -- one that has come to its end has passed all barriers
    have hle := hleast r k hr
    have hq : pos (s.net.loc q) = args.rounds + 2 := by
      cases (account h q).stage with
      | past _ hnum => simp [pos, hdone, hnum]
      | opening hpc _ _ => simp [hdone] at hpc
      | send _ hpc _ _ _ _ _ _ => simp [hdone] at hpc
      | recv _ hpc _ _ => simp [hdone] at hpc
      | wait hpc _ _ _ _ => simp [hdone] at hpc
    have hseq := (List.getElem?_eq_some_iff.1 ((inOrder hhall).passes s r k h hr).2).1
    simp only [seq, List.cons_append, List.length_cons, List.length_append, List.length_map,
      List.length_range, List.length_nil] at hseq
    omega
  exact not_stuck h hblocked (hnone p) fun r k hr => absurd hr (hnone r k)

end Runs

/-! ## The end -/

section End

variable (args : BarrierTestArgs) {M : Type} (W : MsgWords M) (buf : Nat → M)

/-- Barriers with any participants. -/
def halls (member : Nat → args.Id → Bool) : Halls args.Id Proc where
  hall := hall args
  member := member

/-- Whatever is drawn, whoever takes part in the barriers and whatever the order of the steps: a run of
the network is bounded, and can be continued until all processes have come to their end. -/
theorem rounds_terminate (member : Nat → args.Id → Bool) :
    (∀ s t k, Meetings.Init (network args W buf) s →
      (Meetings.system (network args W buf) (halls args member)).Run k s t →
        k ≤ args.numProcs * (2 * (args.rounds * (args.numProcs + 1) + 3) + 1)) ∧
      ∀ s, (Meetings.system (network args W buf) (halls args member)).Reachable s →
        ∃ t, (Meetings.system (network args W buf) (halls args member)).Steps s t ∧
          ∀ p, (t.net.loc p).pc = .done := by
  refine ⟨?_, ?_⟩
  · intro s t k hinit hrun
    refine Nat.le_trans (ranked.length_le noScan (TransSys.Reachable.init hinit) hrun) (Nat.le_of_eq ?_)
    have hwork : ∀ p, Meetings.workOf (fun p r => left args (r.loc p)) s p =
        2 * (args.rounds * (args.numProcs + 1) + 3) + 1 := by
      intro p
      simp [Meetings.workOf, hinit.net.loc, hinit.net.waits, network, start, left]
    rw [Meetings.work, Finset.sum_congr rfl fun p _ => hwork p, Finset.sum_const, Finset.card_univ,
      Fintype.card_fin, smul_eq_mul]
  · intro s hs
    rcases ranked.exists_blocked noScan hs with ⟨t, hsteps, hblocked⟩
    exact ⟨t, hsteps, done_of_blocked rfl (hs.steps hsteps) hblocked⟩

end End

end BarrierTest
end Bench
end Ssmp
