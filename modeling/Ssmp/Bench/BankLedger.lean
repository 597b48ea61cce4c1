import Mathlib.Algebra.Order.BigOperators.Group.Finset
import Ssmp.Bench.BankServers

/-!
# Bench.BankLedger — the servers of `benchmarks/bank.c` keep a book

Until process 1 sends `EXIT`, what a server has taken are requests.  Its balances, which are machine
integers, are those of the book into which these requests are entered in the order in which it took
them, as long as no deposit overflows, and its answers are those of the book.
-/

namespace Ssmp
namespace Bench

open Lib Network Accounts

namespace Bank

/-! ## One request -/

section Serve

variable {Id M : Type} {W : MsgWords M} {accs : Balances} {b : Book Int32} {r : Request Int32} {m : M}

/-- The balances of a server are those of the book. -/
def Tracks (accs : Balances) (b : Book Int32) : Prop :=
  ∀ acc, (accs acc).toInt = b.balance acc

theorem toInt_add_of_lt {x y : Int32} (hx : 0 ≤ x.toInt) (hy : 0 ≤ y.toInt)
    (hlt : x.toInt + y.toInt < 2 ^ 31) : (x + y).toInt = x.toInt + y.toInt := by
  rw [Int32.toInt_add]
  exact Int.bmod_eq_of_le (by omega) (by omega)

theorem toInt_sub_of_le {x y : Int32} (hy : 0 ≤ y.toInt) (hle : y ≤ x) :
    (x - y).toInt = x.toInt - y.toInt :=
  Int32.toInt_sub_of_le x y (Int32.le_iff_toInt_le.2 hy) hle

theorem tracks_deposit (h : Tracks accs b) (hsolvent : b.Solvent) (acc amount : Int32)
    (hamount : 0 ≤ amount.toInt)
    (hunits : ∀ a, (b.enter (.deposit acc amount.toInt)).balance a < 2 ^ 31) :
    Tracks (Function.update accs acc (accs acc + amount)) (b.enter (.deposit acc amount.toInt)) := by
  intro a
  have hlt := hunits a
  rw [Book.balance_deposit] at hlt ⊢
  by_cases ha : a = acc
  · subst ha
    rw [if_pos rfl] at hlt ⊢
    rw [← h a] at hlt ⊢
    rw [Function.update_self]
    exact toInt_add_of_lt (by rw [h a]; exact hsolvent.balance a) hamount hlt
  · rw [if_neg ha, Function.update_of_ne ha, h a, Int.add_zero]

theorem tracks_withdraw (h : Tracks accs b) (acc amount : Int32) (hamount : 0 ≤ amount.toInt)
    (hle : amount ≤ accs acc) :
    Tracks (Function.update accs acc (accs acc - amount)) (b.enter (.withdraw acc amount.toInt)) := by
  intro a
  have hbalance : amount.toInt ≤ b.balance acc := by
    rw [← h acc]
    exact Int32.le_iff_toInt_le.1 hle
  rw [Book.balance_withdraw]
  by_cases ha : a = acc
  · subst ha
    rw [if_pos ⟨rfl, hbalance⟩, Function.update_self, ← h a]
    exact toInt_sub_of_le hamount hle
  · rw [if_neg fun hboth => ha hboth.1, Function.update_of_ne ha, h a, Int.sub_zero]

/-- A server does with a request what the book says. -/
theorem serve_enter (h : Tracks accs b) (hsolvent : b.Solvent) (hdec : decode W m = some r)
    (hr : r.Nonneg) (hunits : ∀ a, (b.enter r).balance a < 2 ^ 31) :
    ∃ accs' answer, serve W accs m = some (accs', answer) ∧ Tracks accs' (b.enter r) ∧
      answer.map (fun m => (W.get 2 m).toInt) = b.answer r := by
  unfold decode at hdec
  unfold serve
  by_cases hdeposit : W.get 0 m = bankDeposit
  · rw [if_pos hdeposit, Option.some.injEq] at hdec
    subst hdec
    rw [if_pos hdeposit]
    exact ⟨_, _, rfl, tracks_deposit h hsolvent _ _ hr hunits, rfl⟩
  · rw [if_neg hdeposit] at hdec ⊢
    by_cases hwithdraw : W.get 0 m = bankWithdraw
    · rw [if_pos hwithdraw, Option.some.injEq] at hdec
      subst hdec
      rw [if_pos hwithdraw]
      by_cases hle : W.get 2 m ≤ accs (W.get 1 m)
      · have hbalance : (W.get 2 m).toInt ≤ b.balance (W.get 1 m) := by
          rw [← h]
          exact Int32.le_iff_toInt_le.1 hle
        rw [if_pos hle]
        refine ⟨_, _, rfl, tracks_withdraw h _ _ hr hle, ?_⟩
        simp [Book.answer, hbalance, W.get_set]
      · have hbalance : ¬ (W.get 2 m).toInt ≤ b.balance (W.get 1 m) := by
          rw [← h]
          exact fun hge => hle (Int32.le_iff_toInt_le.2 hge)
        rw [if_neg hle, Book.enter_refused hbalance]
        refine ⟨_, _, rfl, h, ?_⟩
        simp [Book.answer, hbalance, W.get_set]
    · rw [if_neg hwithdraw] at hdec ⊢
      by_cases hcheck : W.get 0 m = bankCheck
      · rw [if_pos hcheck, Option.some.injEq] at hdec
        subst hdec
        rw [if_pos hcheck]
        refine ⟨_, _, rfl, h, ?_⟩
        simp [Book.answer, W.get_set, h (W.get 1 m)]
      · rw [if_neg hcheck] at hdec
        cases hdec

/-! ## All requests -/

/-- The requests of a log, with the processes that made them. -/
def requestsOf (W : MsgWords M) (log : List (Id × M)) : List (Id × Request Int32) :=
  log.filterMap fun e => (decode W e.2).map (Prod.mk e.1)

variable {log : List (Id × M)} {e : Id × M}

theorem requestsOf_concat (hdec : decode W e.2 = some r) :
    requestsOf W (log ++ [e]) = requestsOf W log ++ [(e.1, r)] := by
  simp [requestsOf, List.filterMap_append, hdec]

theorem map_requestsOf (h : ∀ e ∈ log, decode W e.2 ≠ none) :
    log.map (fun e => (e.1, decode W e.2)) = (requestsOf W log).map fun e => (e.1, some e.2) := by
  induction log using List.reverseRecOn with
  | nil => rfl
  | append_singleton log e ih =>
      rcases Option.ne_none_iff_exists'.1 (h e (by simp)) with ⟨r, hdec⟩
      rw [requestsOf_concat hdec, List.map_append, List.map_append,
        ih fun e' he' => h e' (by simp [he'])]
      simp [hdec]

theorem map_ofClient_requestsOf [DecidableEq Id] (h : ∀ e ∈ log, decode W e.2 ≠ none) (p : Id) :
    (ofClient p (requestsOf W log)).map some = (ofClient p log).map (decode W) := by
  induction log using List.reverseRecOn with
  | nil => rfl
  | append_singleton log e ih =>
      rcases Option.ne_none_iff_exists'.1 (h e (by simp)) with ⟨r, hdec⟩
      rw [requestsOf_concat hdec, ofClient_append, ofClient_append, List.map_append, List.map_append,
        ih fun e' he' => h e' (by simp [he']), ofClient_singleton, ofClient_singleton]
      by_cases hp : e.1 = p <;> simp [hp, hdec]

/-- The balances and the answers of a server are those of the book. -/
theorem served_replay (h : ∀ e ∈ log, decode W e.2 ≠ none)
    (hnonneg : ∀ e ∈ requestsOf W log, e.2.Nonneg)
    (hunits : ∀ acc, ((requestsOf W log).map fun e => Book.amountInto acc e.2).sum < 2 ^ 31) :
    Tracks (served W log).1 (Book.replay ((requestsOf W log).map Prod.snd)) ∧
      (served W log).2.map (fun e => (e.1, (W.get 2 e.2).toInt)) =
        Book.replies Book.empty (requestsOf W log) := by
  induction log using List.reverseRecOn with
  | nil => exact ⟨fun _ => rfl, rfl⟩
  | append_singleton log e ih =>
      rcases Option.ne_none_iff_exists'.1 (h e (by simp)) with ⟨r, hdec⟩
      rw [requestsOf_concat hdec] at hnonneg hunits ⊢
      have hr : r.Nonneg := hnonneg (e.1, r) (by simp)
      have hunits' : ∀ acc,
          ((requestsOf W log).map fun e => Book.amountInto acc e.2).sum < 2 ^ 31 := by
        intro acc
        have hlt := hunits acc
        have hge : 0 ≤ Book.amountInto acc (e.1, r).2 := Book.amountInto_nonneg hr
        rw [List.map_append, List.sum_append, List.map_singleton, List.sum_singleton] at hlt
        omega
      rcases ih (fun e' he' => h e' (by simp [he'])) (fun e' he' => hnonneg e' (by simp [he']))
        hunits' with ⟨htracks, hreplies⟩
      have hall : ∀ r' ∈ (requestsOf W log).map Prod.snd ++ [r], r'.Nonneg := by
        intro r' hr'
        rw [List.mem_append, List.mem_singleton] at hr'
        rcases hr' with hr' | rfl
        · rcases List.mem_map.1 hr' with ⟨e', he', rfl⟩
          exact hnonneg e' (by simp [he'])
        · exact hr
      have hsolvent := Book.Solvent.replay (fun r' hr' => hall r' (List.mem_append_left _ hr'))
      have hbelow : ∀ acc,
          ((Book.replay ((requestsOf W log).map Prod.snd)).enter r).balance acc < 2 ^ 31 := by
        intro acc
        rw [← Book.replay_concat]
        refine Int.lt_of_le_of_lt ((Book.Solvent.replay hall).balance_le acc) ?_
        rw [Book.deposited_replay]
        simpa [List.map_append, Function.comp_def] using hunits acc
      rcases serve_enter htracks hsolvent hdec hr hbelow with ⟨accs', answer, hserve, hnext, hanswer⟩
      rw [served_concat, handle, hserve, List.map_append, List.map_singleton, Book.replay_concat,
        Book.replies_concat]
      refine ⟨hnext, ?_⟩
      rw [List.map_append, hreplies]
      have hlast : ((requestsOf W log).map Prod.snd).foldl Book.enter Book.empty =
          Book.replay ((requestsOf W log).map Prod.snd) := rfl
      rw [hlast, ← hanswer]
      cases answer <;> rfl

end Serve

/-! ## Before `EXIT` is sent -/

section Ledger

variable {run : BankRun} {M : Type} {W : MsgWords M} {report : run.Id → M → M}
variable {buf : run.Id → M} {s : State run.Id M (Loc M run.Id)} {p d : run.Id}
variable {a : App M run.Id} {sv : Dsl M run.Id} {l : List (Op run.Id)}

/-- Process 1 has not sent `EXIT`. -/
def BeforeExit (run : BankRun) (s : State run.Id M (Loc M run.Id)) : Prop :=
  ∀ p a, p.val = 1 → s.loc p = .app a →
    a.pc = .call ∨ a.pc = .await ∨ a.pc = .barrier ∨ a.pc = .exit 0

theorem exists_app (h : (network run W report buf).system.Reachable s)
    (hp : run.isApp p = true) : ∃ a, s.loc p = .app a := by
  cases hloc : s.loc p with
  | app a => exact ⟨a, rfl⟩
  | dsl sv => exact absurd (dslInv h hloc).dsl (Procs.isApp_iff.1 hp)

theorem exists_dsl (h : (network run W report buf).system.Reachable s)
    (hd : run.isDsl d = true) : ∃ sv, s.loc d = .dsl sv := by
  cases hloc : s.loc d with
  | app a => exact absurd hd (Procs.isApp_iff.1 (appInv h hloc).app)
  | dsl sv => exact ⟨sv, rfl⟩

/-- Nobody has sent anything but requests. -/
theorem BeforeExit.flags (h : (network run W report buf).system.Reachable s)
    (hexit : BeforeExit run s) (hloc : s.loc p = .app a) (d : run.Id) :
    a.exited run p d = false ∧ a.reported d = false := by
  by_cases hp : p.val = 1
  · exact flags_early (hexit p a hp hloc) p d
  · refine ⟨by simp [App.exited, hp], ?_⟩
    rcases exists_app h Procs.isApp_one with ⟨one, hone⟩
    have hle := (meeting h).passed_le Procs.isApp_one hone hloc
    have hwaits := (meeting h).waits _ _ hone
    -- process 1 has not come to the second barrier
    have hlt : one.pc.passed + (s.waits ⟨1, run.two_le_numProcs⟩).toNat ≤ 1 := by
      rcases hexit _ _ rfl hone with hpc | hpc | hpc | hpc
      · simpa [hpc, AppPc.passed] using Bool.toNat_le _
      · simpa [hpc, AppPc.passed] using Bool.toNat_le _
      · simpa [hpc, AppPc.passed] using Bool.toNat_le _
      · rw [(meeting h).not_waits hone (by simp [hpc]), hpc]
        exact Nat.le_refl 1
    have hpc : a.pc ≠ .done := by
      intro hpc
      rw [hpc] at hle
      exact absurd (Nat.le_trans hle hlt) (by decide)
    simp [App.reported, hpc]

/-- What an application has sent to a server are its requests. -/
theorem BeforeExit.ins (h : (network run W report buf).system.Reachable s)
    (hexit : BeforeExit run s) (hd : run.isDsl d = true) (hloc : s.loc p = .app a) :
    ∃ issued, a.Issued run p issued ∧
      (s.chan (p, d)).ins.map (decode W) = (requestsTo d issued).map some ∧
      (s.chan (d, p)).outs.length + (a.waitsFor d).toNat = (asksTo d issued).length := by
  rcases (appInv h hloc).done with ⟨issued, hissued, hall⟩
  rcases hall d hd with ⟨hsent, hlen⟩
  have hflags := hexit.flags h hloc d
  rw [hflags.1, hflags.2] at hsent
  rcases hsent with ⟨reqs, reports, heq, hmap, hreports⟩
  have hnil : reports = [] := List.eq_nil_of_length_eq_zero hreports
  subst hnil
  refine ⟨issued, hissued, ?_, hlen⟩
  rw [heq, List.append_nil, hmap]
  simp

/-- A server has taken requests only. -/
theorem BeforeExit.handled (h : (network run W report buf).system.Reachable s)
    (hexit : BeforeExit run s) (hloc : s.loc d = .dsl sv) :
    ∀ e ∈ sv.handled, decode W e.2 ≠ none := by
  intro e he
  have hinv := dslInv h hloc
  rcases exists_app h (hinv.apps e he) with ⟨a, ha⟩
  rcases hexit.ins h hinv.dsl ha with ⟨issued, _, hmap, _⟩
  have hout : e.2 ∈ (s.chan (e.1, d)).outs := by
    rw [← hinv.log]
    exact List.mem_map.2 ⟨e, List.mem_filter.2 ⟨he, by simp⟩, rfl⟩
  have hin : decode W e.2 ∈ (requestsTo d issued).map some := by
    rw [← hmap]
    exact List.mem_map_of_mem ((fifo h _).outs_isPrefix.subset hout)
  rcases List.mem_map.1 hin with ⟨r, _, heq⟩
  simp [← heq]

theorem App.Issued.isPrefix (h : a.Issued run p l) : l <+: run.ops p := by
  cases h with
  | call _ h => exact ⟨_, h.symm⟩
  | await _ _ _ h => exact ⟨_, by rw [h, List.append_assoc, List.singleton_append]⟩
  | ended _ _ => exact List.prefix_refl _

theorem nonneg_requestsTo (h : ∀ op ∈ l, op.request.Nonneg) (d : run.Id) :
    ∀ r ∈ requestsTo d l, r.Nonneg := by
  intro r hr
  rcases List.mem_map.1 hr with ⟨op, hop, rfl⟩
  exact h op (List.mem_filter.1 hop).1

/-- What a server has taken of an application are its first requests to that server. -/
theorem ofClient_isPrefix (h : (network run W report buf).system.Reachable s)
    (hexit : BeforeExit run s) (hloc : s.loc d = .dsl sv) (hp : run.isApp p = true) :
    ofClient p (requestsOf W sv.handled) <+: requestsTo d (run.ops p) := by
  have hinv := dslInv h hloc
  rcases exists_app h hp with ⟨a, ha⟩
  rcases hexit.ins h hinv.dsl ha with ⟨issued, hissued, hmap, _⟩
  have hsome : (ofClient p (requestsOf W sv.handled)).map some <+: (requestsTo d issued).map some := by
    rw [map_ofClient_requestsOf (hexit.handled h hloc), hinv.log, ← hmap]
    exact (fifo h _).outs_isPrefix.map _
  have hissuedTo : ofClient p (requestsOf W sv.handled) <+: requestsTo d issued :=
    (List.prefix_map_iff_of_injective (Option.some_injective _)).1 hsome
  exact hissuedTo.trans ((hissued.isPrefix.filter _).map _)

/-- What a server has taken deposits no more than the calls of all applications do. -/
theorem units_requestsOf (h : (network run W report buf).system.Reachable s)
    (hexit : BeforeExit run s) (hloc : s.loc d = .dsl sv)
    (hnonneg : ∀ p, ∀ op ∈ run.ops p, op.request.Nonneg) (acc : Int32) :
    ((requestsOf W sv.handled).map fun e => Book.amountInto acc e.2).sum ≤
      ∑ p with run.isApp p = true, ((requestsTo d (run.ops p)).map (Book.amountInto acc)).sum := by
  rw [sum_ofClient, ← Finset.sum_filter_add_sum_filter_not _ fun p => run.isApp p = true]
  have hothers : ∑ p with ¬ run.isApp p = true,
      ((ofClient p (requestsOf W sv.handled)).map (Book.amountInto acc)).sum = 0 := by
    refine Finset.sum_eq_zero ?_
    intro p hp
    have happ := (Finset.mem_filter.1 hp).2
    have hnil : ofClient p (requestsOf W sv.handled) = [] := by
      rw [← List.map_eq_nil_iff (f := some), map_ofClient_requestsOf (hexit.handled h hloc)]
      simp only [List.map_eq_nil_iff, ofClient, List.filter_eq_nil_iff, decide_eq_true_eq]
      intro e he heq
      exact happ (heq ▸ (dslInv h hloc).apps e he)
    rw [hnil, List.map_nil, List.sum_nil]
  rw [hothers, Int.add_zero]
  refine Finset.sum_le_sum ?_
  intro p hp
  exact Book.sum_amountInto_le (nonneg_requestsTo (hnonneg p) d)
    (ofClient_isPrefix h hexit hloc (Finset.mem_filter.1 hp).2)

/-- The balances and answers of server `d` are those of the book with the requests it has taken. -/
theorem BeforeExit.book (h : (network run W report buf).system.Reachable s)
    (hexit : BeforeExit run s) (hnonneg : ∀ p, ∀ op ∈ run.ops p, op.request.Nonneg)
    (hunits : ∀ acc, ∑ p with run.isApp p = true,
      ((requestsTo d (run.ops p)).map (Book.amountInto acc)).sum < 2 ^ 31)
    (hloc : s.loc d = .dsl sv) :
    (∀ acc, (sv.accs acc).toInt =
        (Book.replay ((requestsOf W sv.handled).map Prod.snd)).balance acc ∧
      0 ≤ (sv.accs acc).toInt) ∧
      ∀ p, ofClient p (Book.replies Book.empty (requestsOf W sv.handled)) =
        ((s.chan (d, p)).ins ++ sv.serves p).map fun m => (W.get 2 m).toInt := by
  have hinv := dslInv h hloc
  have hrequests := hexit.handled h hloc
  have hall : ∀ e ∈ requestsOf W sv.handled, e.2.Nonneg := by
    intro e he
    rcases List.mem_filterMap.1 he with ⟨e', he', hdec⟩
    rcases Option.map_eq_some_iff.1 hdec with ⟨r, _, rfl⟩
    have hmem : r ∈ ofClient e'.1 (requestsOf W sv.handled) :=
      List.mem_map.2 ⟨_, List.mem_filter.2 ⟨he, by simp⟩, rfl⟩
    exact nonneg_requestsTo (hnonneg e'.1) d r
      ((ofClient_isPrefix h hexit hloc (hinv.apps e' he')).subset hmem)
  rcases served_replay hrequests hall fun acc =>
    Int.lt_of_le_of_lt (units_requestsOf h hexit hloc hnonneg acc) (hunits acc)
    with ⟨htracks, hreplies⟩
  rw [← hinv.accs] at htracks
  refine ⟨?_, ?_⟩
  · intro acc
    refine ⟨htracks acc, ?_⟩
    rw [htracks acc]
    refine (Book.Solvent.replay ?_).balance acc
    intro r hr
    rcases List.mem_map.1 hr with ⟨e, he, rfl⟩
    exact hall e he
  · intro p
    rw [← hreplies, ← hinv.answers p]
    simp [ofClient, List.filter_map, Function.comp_def]

/-- In every reachable state before `EXIT` is sent, if no amount is negative and fewer than `2 ^ 31`
units are deposited into each account of server `d`: the requests that the server has taken, in the
order in which it took them, are a history of a book whose balances are those of the server and are
not negative.  The requests of each application stand in it in the order of its calls, up to the one
that is in the slot; its replies are the answers of the book to these requests, in this order, and
it has had them but for the one on its way; and it has had one for every call that has returned. -/
theorem linearizable (h : (network run W report buf).system.Reachable s)
    (hexit : BeforeExit run s) (hnonneg : ∀ p, ∀ op ∈ run.ops p, op.request.Nonneg)
    (hunits : ∀ acc, ∑ p with run.isApp p = true,
      ((requestsTo d (run.ops p)).map (Book.amountInto acc)).sum < 2 ^ 31)
    (hloc : s.loc d = .dsl sv) :
    ∃ rs : List (run.Id × Request Int32),
      sv.handled.map (fun e => (e.1, decode W e.2)) = rs.map (fun e => (e.1, some e.2)) ∧
      (∀ acc, (sv.accs acc).toInt = (Book.replay (rs.map Prod.snd)).balance acc ∧
        0 ≤ (sv.accs acc).toInt) ∧
      ∀ p a, s.loc p = .app a → ∃ issued, a.Issued run p issued ∧
        (ofClient p rs).map some ++ (s.chan (p, d)).place.toList.map (decode W) =
          (requestsTo d issued).map some ∧
        ofClient p (Book.replies Book.empty rs) =
          ((s.chan (d, p)).outs ++ (s.chan (d, p)).place.toList ++ sv.serves p).map
            (fun m => (W.get 2 m).toInt) ∧
        (s.chan (d, p)).outs.length + (a.waitsFor d).toNat = (asksTo d issued).length := by
  have hinv := dslInv h hloc
  have hrequests := hexit.handled h hloc
  rcases hexit.book h hnonneg hunits hloc with ⟨hbalances, hreplies⟩
  refine ⟨requestsOf W sv.handled, map_requestsOf hrequests, hbalances, ?_⟩
  intro p a ha
  rcases hexit.ins h hinv.dsl ha with ⟨issued, hissued, hmap, hlen⟩
  have hto : (s.chan (p, d)).ins = (s.chan (p, d)).outs ++ (s.chan (p, d)).place.toList :=
    fifo h (p, d)
  have hback : (s.chan (d, p)).ins = (s.chan (d, p)).outs ++ (s.chan (d, p)).place.toList :=
    fifo h (d, p)
  refine ⟨issued, hissued, ?_, ?_, hlen⟩
  · rw [map_ofClient_requestsOf hrequests, hinv.log, ← List.map_append, ← hto, hmap]
  · rw [hreplies, hback]

end Ledger

/-! ## A run with one server and one application -/

/-- A deposit and a look at the account. -/
def savings : BankRun where
  toProcs := twoProcs
  ops _ := [.deposit 0 ⟨0, by decide⟩ 5, .check 0 ⟨0, by decide⟩]
  dsl := by decide

abbrev savingsServer : savings.Id := ⟨0, by decide⟩

abbrev savingsApp : savings.Id := ⟨1, by decide⟩

def savingsNetwork : Network savings.Id (Fin 3 → Int32) (Loc (Fin 3 → Int32) savings.Id) :=
  network savings threeWords (fun _ m => m) fun _ _ => 7

/-- Both messages have been taken, and the answer to the second has come back. -/
def savingsRun : List savings.Id :=
  [savingsApp, savingsServer, savingsApp, savingsServer, savingsServer, savingsApp]

theorem linearizable_savingsRun :
    ∃ rs : List (savings.Id × Request Int32),
      rs = [(savingsApp, .deposit 0 5), (savingsApp, .check 0)] ∧
      ofClient savingsApp (Book.replies Book.empty rs) =
        ((savingsNetwork.after savingsRun).chan (savingsServer, savingsApp)).outs.map
          (fun m => (threeWords.get 2 m).toInt) := by
  have hreach : savingsNetwork.system.Reachable (savingsNetwork.after savingsRun) :=
    reachable_after (N := savingsNetwork) savingsRun
  have hpc : (match (savingsNetwork.after savingsRun).loc savingsApp with
      | .app a => a.pc
      | .dsl _ => .done) = .barrier := by decide +kernel
  have hexit : BeforeExit savings (savingsNetwork.after savingsRun) := by
    intro p a hp ha
    have hpapp : p = savingsApp := Fin.ext hp
    subst hpapp
    rw [ha] at hpc
    exact Or.inr (Or.inr (Or.inl hpc))
  have hunits : ∀ acc, ∑ p with savings.isApp p = true,
      ((requestsTo savingsServer (savings.ops p)).map (Book.amountInto acc)).sum < 2 ^ 31 := by
    intro acc
    have happs : (Finset.univ.filter fun p => savings.isApp p = true) = {savingsApp} := by decide
    have hops : requestsTo savingsServer (savings.ops savingsApp) =
        [.deposit 0 5, .check 0] := by decide
    rw [happs, Finset.sum_singleton, hops]
    simp only [List.map_cons, List.map_nil, List.sum_cons, List.sum_nil, Book.amountInto]
    split <;> decide
  have hhandled : (match (savingsNetwork.after savingsRun).loc savingsServer with
      | .app _ => []
      | .dsl sv => sv.handled.map fun e => (e.1, decode threeWords e.2)) =
      [(savingsApp, some (.deposit 0 5)), (savingsApp, some (.check 0))] := by decide +kernel
  have hserver : (match (savingsNetwork.after savingsRun).loc savingsServer with
      | .app _ => DslPc.done
      | .dsl sv => sv.pc) = .recv := by decide +kernel
  have hplace : ((savingsNetwork.after savingsRun).chan (savingsServer, savingsApp)).place = none := by
    decide +kernel
  cases hloc : (savingsNetwork.after savingsRun).loc savingsServer with
  | app a =>
      rw [hloc] at hhandled
      cases hhandled
  | dsl sv =>
      cases hloc' : (savingsNetwork.after savingsRun).loc savingsApp with
      | dsl sv' =>
          rw [hloc'] at hpc
          cases hpc
      | app a =>
          rcases linearizable hreach hexit (by decide) hunits hloc with ⟨rs, hrs, _, happ⟩
          rcases happ savingsApp a hloc' with ⟨_, _, _, hreplies, _⟩
          rw [hloc] at hhandled hserver
          refine ⟨rs, ?_, ?_⟩
          · have hinj : Function.Injective fun e : savings.Id × Request Int32 => (e.1, some e.2) := by
              rintro ⟨c, r⟩ ⟨c', r'⟩ heq
              simpa using heq
            exact List.map_injective_iff.2 hinj (hrs.symm.trans hhandled)
          · have hpc : sv.pc = .recv := hserver
            have hserves : sv.serves savingsApp = [] := serves_of_pc (by simp [hpc]) _
            rw [hreplies, hserves, hplace]
            simp

end Bank
end Bench
end Ssmp
