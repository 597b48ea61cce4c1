import Ssmp.Bench.Bank
import Ssmp.Lib.Accounts

/-!
# Bench.BankRuns — what the applications and the servers of `benchmarks/bank.c` have done

Each process alone decides what it has sent and what it has received.  An application has sent the
calls that it has begun, and after the barrier the messages that end the run; and it has had a reply
to every call that waits for one.  A server has answered the messages that it has taken, one after
the other, and its balances are what these messages make of empty accounts.
-/

namespace Ssmp
namespace Bench

open Lib Network Accounts

namespace Bank

section Moves

variable {run : BankRun} {M : Type} {W : MsgWords M} {report : run.Id → M → M}
variable {buf : run.Id → M} {s t : State run.Id M (Loc M run.Id)} {p : run.Id}

/-! ## The steps of the processes -/

/-- What process `p` can do in one step. -/
inductive Move (run : BankRun) (W : MsgWords M) (report : run.Id → M → M)
    (s : State run.Id M (Loc M run.Id)) (p : run.Id) : State run.Id M (Loc M run.Id) → Prop where
  | call {a : App M run.Id} {op : Op run.Id} {ops : List (Op run.Id)} (hloc : s.loc p = .app a)
      (hpc : a.pc = .call) (hops : a.ops = op :: ops) :
      Move run W report s p ((s.onChan (p, op.dsl) (.write (op.fill W a.msg))).goto p
        (.app (if op.asks then { a with pc := .await, msg := op.fill W a.msg }
          else App.loop run (op.fill W a.msg) ops)))
  | await {a : App M run.Id} {op : Op run.Id} {ops : List (Op run.Id)} {m : M}
      (hloc : s.loc p = .app a) (hpc : a.pc = .await) (hops : a.ops = op :: ops) :
      Move run W report s p ((s.onChan (op.dsl, p) (.clear m)).goto p (.app (App.loop run m ops)))
  | arrive {a : App M run.Id} (hloc : s.loc p = .app a)
      (hpc : a.pc = .barrier ∨ a.pc = .barrierAgain) (hout : s.waits p = false) :
      Move run W report s p (s.arrive p)
  | leave {a : App M run.Id} (hloc : s.loc p = .app a) (hpc : a.pc = .barrier)
      (hin : s.waits p = true) (hall : ∀ q, run.isApp q = true → s.met p ≤ s.met q) :
      Move run W report s p ((s.leave p).goto p (.app (a.passed run p)))
  | leaveAgain {a : App M run.Id} (hloc : s.loc p = .app a) (hpc : a.pc = .barrierAgain)
      (hin : s.waits p = true) (hall : ∀ q, run.isApp q = true → s.met p ≤ s.met q) :
      Move run W report s p ((s.leave p).goto p (.app { a with pc := .report }))
  | exit {a : App M run.Id} {i : Nat} {d : run.Id} (hloc : s.loc p = .app a) (hpc : a.pc = .exit i)
      (hd : run.dslSeq i = d.val) :
      Move run W report s p ((s.onChan (p, d) (.write (W.set 0 bankExit a.msg))).goto p
        (.app (App.exits run { a with msg := W.set 0 bankExit a.msg } (i + 1))))
  | report {a : App M run.Id} {d : run.Id} (hloc : s.loc p = .app a) (hpc : a.pc = .report)
      (hd : d.val = 0) :
      Move run W report s p ((s.onChan (p, d) (.write (report p a.msg))).goto p
        (.app { a with pc := .done, msg := report p a.msg }))
  | seek {sv : Dsl M run.Id} (k : Nat) (hloc : s.loc p = .dsl sv) (hpc : sv.pc = .recv) :
      Move run W report s p (s.seek p k)
  | hit {sv : Dsl M run.Id} {src : run.Id} {m : M} (k : Nat) (hloc : s.loc p = .dsl sv)
      (hpc : sv.pc = .recv) (hsrc : src ∈ run.cbuf p) :
      Move run W report s p (((s.onChan (src, p) (.clear m)).seek p k).goto p
        (.dsl (sv.took run W src m)))
  | answer {sv : Dsl M run.Id} {c : run.Id} (hloc : s.loc p = .dsl sv) (hpc : sv.pc = .reply)
      (hc : sv.sender = c.val) :
      Move run W report s p ((s.onChan (p, c) (.write sv.msg)).goto p
        (.dsl { sv with pc := .recv }))

theorem Move.of_step (h : (network run W report buf).Step s p t) : Move run W report s p t := by
  have heff := h.effect
  cases hloc : s.loc p with
  | app a =>
      cases hpc : a.pc with
      | call =>
          cases hops : a.ops with
          | nil =>
              simp only [network, hloc, next, bankApp, hpc, hops] at heff
              exact False.elim heff
          | cons op ops =>
              simp only [network, hloc, next, bankApp, hpc, hops] at heff
              rcases heff with ⟨_, rfl⟩
              exact hops ▸ Move.call hloc hpc hops
      | await =>
          cases hops : a.ops with
          | nil =>
              simp only [network, hloc, next, bankApp, hpc, hops] at heff
              exact False.elim heff
          | cons op ops =>
              simp only [network, hloc, next, bankApp, hpc, hops] at heff
              rcases heff with ⟨m, _, rfl⟩
              exact Move.await hloc hpc hops
      | barrier =>
          simp only [network, hloc, next, bankApp, hpc] at heff
          rcases heff with ⟨hout, rfl⟩ | ⟨hin, hall, rfl⟩
          · exact Move.arrive hloc (Or.inl hpc) hout
          · exact Move.leave hloc hpc hin hall
      | exit i =>
          simp only [network, hloc, next, bankApp, hpc] at heff
          rcases Procs.effect_atId heff with ⟨d, hd, _, rfl⟩
          exact Move.exit hloc hpc hd
      | barrierAgain =>
          simp only [network, hloc, next, bankApp, hpc] at heff
          rcases heff with ⟨hout, rfl⟩ | ⟨hin, hall, rfl⟩
          · exact Move.arrive hloc (Or.inr hpc) hout
          · exact Move.leaveAgain hloc hpc hin hall
      | report =>
          simp only [network, hloc, next, bankApp, hpc] at heff
          rcases Procs.effect_atId heff with ⟨d, hd, _, rfl⟩
          exact Move.report hloc hpc hd.symm
      | done =>
          simp only [network, hloc, next, bankApp, hpc] at heff
          exact False.elim heff
  | dsl sv =>
      cases hpc : sv.pc with
      | recv =>
          simp only [network, hloc, next, bankDsl, hpc] at heff
          rcases heff with ⟨k, rfl⟩ | ⟨src, hsrc, m, k, _, rfl⟩
          · exact Move.seek k hloc hpc
          · exact Move.hit k hloc hpc hsrc
      | reply =>
          simp only [network, hloc, next, bankDsl, hpc] at heff
          rcases Procs.effect_atId heff with ⟨c, hc, _, rfl⟩
          exact Move.answer hloc hpc hc
      | done =>
          simp only [network, hloc, next, bankDsl, hpc] at heff
          exact False.elim heff

/-- Nothing is overwritten. -/
theorem safe (s : State run.Id M (Loc M run.Id)) : (network run W report buf).Safe s := by
  intro p d m k h
  have hno : ∀ {id : Nat} {f : run.Id → Action run.Id M (Loc M run.Id)},
      (∀ q, f q ≠ .overwrite d m k) → run.atId id f ≠ .overwrite d m k := by
    intro id f hf
    unfold Procs.atId
    split
    · exact hf _
    · simp
  cases hloc : s.loc p with
  | app a =>
      simp only [network, hloc, next, bankApp] at h
      split at h <;> first | exact absurd h (hno fun q => by simp) | cases h
  | dsl sv =>
      simp only [network, hloc, next, bankDsl] at h
      split at h <;> first | exact absurd h (hno fun q => by simp) | cases h

theorem fifo (h : (network run W report buf).system.Reachable s) (ij : run.Id × run.Id) :
    (s.chan ij).Fifo :=
  fifo_of_safe (fun s _ => safe s) h ij

end Moves

/-! ## Requests -/

section Requests

variable {run : BankRun} {M : Type} {W : MsgWords M}

/-- The request that a message makes of a server; other messages end its loop. -/
def decode (W : MsgWords M) (m : M) : Option (Request Int32) :=
  if W.get 0 m = bankDeposit then some (.deposit (W.get 1 m) (W.get 2 m).toInt)
  else if W.get 0 m = bankWithdraw then some (.withdraw (W.get 1 m) (W.get 2 m).toInt)
  else if W.get 0 m = bankCheck then some (.check (W.get 1 m))
  else none

def Op.request {Id : Type} : Op Id → Request Int32
  | .deposit acc _ amount => .deposit acc.toInt32 amount.toInt32.toInt
  | .withdraw acc _ amount => .withdraw acc.toInt32 amount.toInt32.toInt
  | .check acc _ => .check acc.toInt32

/-- The requests to `d` among the calls of an application, in the order of the calls. -/
def requestsTo (d : run.Id) (ops : List (Op run.Id)) : List (Request Int32) :=
  (ops.filter fun op => op.dsl = d).map Op.request

theorem asks_request {Id : Type} (op : Op Id) : op.request.asks = op.asks := by
  cases op <;> rfl

theorem decode_fill (op : Op run.Id) (m : M) : decode W (op.fill W m) = some op.request := by
  have hne : ∀ {j k : Fin 3} {v : Int32} {m : M}, j ≠ k → W.get j (W.set k v m) = W.get j m :=
    fun h => W.get_set_ne _ _ _ _ h
  cases op with
  | deposit acc dsl amount =>
      have h0 : W.get 0 (Op.fill W m (.deposit acc dsl amount)) = bankDeposit := by
        rw [Op.fill, hne (by decide), hne (by decide), W.get_set]
      have h1 : W.get 1 (Op.fill W m (.deposit acc dsl amount)) = acc.toInt32 := by
        rw [Op.fill, hne (by decide), W.get_set]
      have h2 : W.get 2 (Op.fill W m (.deposit acc dsl amount)) = amount.toInt32 := by
        rw [Op.fill, W.get_set]
      rw [decode, if_pos h0, h1, h2]
      rfl
  | withdraw acc dsl amount =>
      have h0 : W.get 0 (Op.fill W m (.withdraw acc dsl amount)) = bankWithdraw := by
        rw [Op.fill, hne (by decide), hne (by decide), W.get_set]
      have h1 : W.get 1 (Op.fill W m (.withdraw acc dsl amount)) = acc.toInt32 := by
        rw [Op.fill, hne (by decide), W.get_set]
      have h2 : W.get 2 (Op.fill W m (.withdraw acc dsl amount)) = amount.toInt32 := by
        rw [Op.fill, W.get_set]
      rw [decode, if_neg (by rw [h0]; decide), if_pos h0, h1, h2]
      rfl
  | check acc dsl =>
      have h0 : W.get 0 (Op.fill W m (.check acc dsl)) = bankCheck := by
        rw [Op.fill, hne (by decide), W.get_set]
      have h1 : W.get 1 (Op.fill W m (.check acc dsl)) = acc.toInt32 := by
        rw [Op.fill, W.get_set]
      rw [decode, if_neg (by rw [h0]; decide), if_neg (by rw [h0]; decide), if_pos h0, h1]
      rfl

theorem decode_exit (m : M) : decode W (W.set 0 bankExit m) = none := by
  have h0 : W.get 0 (W.set 0 bankExit m) = bankExit := W.get_set _ _ _
  rw [decode, if_neg (by rw [h0]; decide), if_neg (by rw [h0]; decide),
    if_neg (by rw [h0]; decide)]

/-- The messages of an application to `d`: the requests of the calls, the `EXIT` of process 1, and
the report. -/
def Sent (W : MsgWords M) (d : run.Id) (issued : List (Op run.Id)) (exited reported : Bool)
    (ins : List M) : Prop :=
  ∃ reqs reports, ins = reqs ++ reports ∧
    reqs.map (decode W) = (requestsTo d issued).map some ++ (if exited then [none] else []) ∧
    reports.length = reported.toNat

variable {d : run.Id} {issued : List (Op run.Id)} {exited : Bool} {ins : List M}

theorem requestsTo_concat (op : Op run.Id) : requestsTo d (issued ++ [op]) =
    requestsTo d issued ++ if op.dsl = d then [op.request] else [] := by
  by_cases hd : op.dsl = d <;> simp [requestsTo, hd]

theorem Sent.nil : Sent W d [] false false [] :=
  ⟨[], [], rfl, rfl, rfl⟩

theorem Sent.call (h : Sent W d issued false false ins) (op : Op run.Id) (m : M) :
    Sent W d (issued ++ [op]) false false (ins ++ if op.dsl = d then [op.fill W m] else []) := by
  rcases h with ⟨reqs, reports, rfl, hmap, hlen⟩
  have hnil : reports = [] := List.eq_nil_of_length_eq_zero hlen
  subst hnil
  refine ⟨reqs ++ if op.dsl = d then [op.fill W m] else [], [], by simp, ?_, rfl⟩
  rw [List.map_append, hmap, requestsTo_concat]
  by_cases hd : op.dsl = d
  · simp [hd, decode_fill]
  · simp [hd]

theorem Sent.exit (h : Sent W d issued false false ins) {m : M} (hm : decode W m = none) :
    Sent W d issued true false (ins ++ [m]) := by
  rcases h with ⟨reqs, reports, rfl, hmap, hlen⟩
  have hnil : reports = [] := List.eq_nil_of_length_eq_zero hlen
  subst hnil
  refine ⟨reqs ++ [m], [], by simp, ?_, rfl⟩
  simp [hmap, hm]

theorem Sent.report (h : Sent W d issued exited false ins) (m : M) :
    Sent W d issued exited true (ins ++ [m]) := by
  rcases h with ⟨reqs, reports, rfl, hmap, hlen⟩
  have hnil : reports = [] := List.eq_nil_of_length_eq_zero hlen
  subst hnil
  exact ⟨reqs, [m], by simp, hmap, rfl⟩

end Requests

/-! ## What an application has done -/

section Apps

variable {run : BankRun} {M : Type} {W : MsgWords M} {report : run.Id → M → M}
variable {buf : run.Id → M} {s t : State run.Id M (Loc M run.Id)} {p d : run.Id}
variable {a : App M run.Id} {l : List (Op run.Id)}

/-- The calls whose requests an application has sent. -/
inductive App.Issued (run : BankRun) (p : run.Id) (a : App M run.Id) : List (Op run.Id) → Prop where
  | call {l : List (Op run.Id)} (hpc : a.pc = .call) (h : run.ops p = l ++ a.ops) :
      App.Issued run p a l
  | await {l ops : List (Op run.Id)} {op : Op run.Id} (hpc : a.pc = .await) (hops : a.ops = op :: ops)
      (hasks : op.asks = true) (h : run.ops p = l ++ op :: ops) : App.Issued run p a (l ++ [op])
  | ended (hcall : a.pc ≠ .call) (hawait : a.pc ≠ .await) : App.Issued run p a (run.ops p)

/-- The application waits for a reply of `d`. -/
def App.waitsFor (d : run.Id) (a : App M run.Id) : Bool :=
  match a.pc, a.ops with
  | .await, op :: _ => op.dsl = d
  | _, _ => false

/-- Process 1 has sent `EXIT` to `d`. -/
def App.exited (run : BankRun) (p d : run.Id) (a : App M run.Id) : Bool :=
  p.val = 1 &&
    match a.pc with
    | .exit i => decide (∃ j, j < i ∧ run.dslSeq j = d.val)
    | .barrierAgain | .report | .done => true
    | _ => false

/-- The application has sent its report to `d`. -/
def App.reported (d : run.Id) (a : App M run.Id) : Bool :=
  a.pc = .done && d.val = 0

/-- The calls that wait for a reply of `d`. -/
def asksTo (d : run.Id) (ops : List (Op run.Id)) : List (Op run.Id) :=
  ops.filter fun op => op.dsl = d && op.asks

/-- An application has sent what it has issued and has had a reply to what it does not wait for. -/
structure AppInv (run : BankRun) (W : MsgWords M) (s : State run.Id M (Loc M run.Id)) (p : run.Id)
    (a : App M run.Id) : Prop where
  app : run.isApp p = true
  exit : ∀ i, a.pc = .exit i → p.val = 1 ∧ i < run.numDsl
  done : ∃ issued, a.Issued run p issued ∧ ∀ d, run.isDsl d = true →
    Sent W d issued (a.exited run p d) (a.reported d) (s.chan (p, d)).ins ∧
      (s.chan (d, p)).outs.length + (a.waitsFor d).toNat = (asksTo d issued).length

theorem asksTo_concat (op : Op run.Id) : asksTo d (l ++ [op]) =
    asksTo d l ++ if op.dsl = d ∧ op.asks = true then [op] else [] := by
  by_cases hd : op.dsl = d
  · cases hasks : op.asks <;> simp [asksTo, hd, hasks]
  · simp [asksTo, hd]

theorem issued_loop {msg : M} {ops : List (Op run.Id)} (h : run.ops p = l ++ ops) :
    (App.loop run msg ops).Issued run p l := by
  cases ops with
  | nil =>
      have hl : l = run.ops p := by simpa using h.symm
      rw [hl]
      exact App.Issued.ended (by simp [App.loop]) (by simp [App.loop])
  | cons op ops => exact App.Issued.call (by simp [App.loop]) h

theorem pc_loop {msg : M} {ops : List (Op run.Id)} :
    (App.loop run msg ops).pc = .call ∨ (App.loop run msg ops).pc = .barrier := by
  cases ops with
  | nil => exact Or.inr rfl
  | cons op ops => exact Or.inl rfl

/-- Before the first `EXIT` an application has sent requests only. -/
theorem flags_early (h : a.pc = .call ∨ a.pc = .await ∨ a.pc = .barrier ∨ a.pc = .exit 0)
    (p d : run.Id) : a.exited run p d = false ∧ a.reported d = false := by
  rcases h with h | h | h | h <;> simp [App.exited, App.reported, h]

theorem flags_loop {msg : M} {ops : List (Op run.Id)} (p d : run.Id) :
    (App.loop run msg ops).exited run p d = false ∧ (App.loop run msg ops).reported d = false := by
  refine flags_early ?_ p d
  rcases @pc_loop run M msg ops with h | h
  · exact Or.inl h
  · exact Or.inr (Or.inr (Or.inl h))

theorem waitsFor_of_pc (h : a.pc ≠ .await) (d : run.Id) : a.waitsFor d = false := by
  unfold App.waitsFor
  split
  · exact absurd ‹_› h
  · rfl

theorem waitsFor_loop {msg : M} {ops : List (Op run.Id)} (d : run.Id) :
    (App.loop run msg ops).waitsFor d = false := by
  refine waitsFor_of_pc ?_ d
  rcases @pc_loop run M msg ops with h | h <;> simp [h]

theorem exited_exits {i : Nat} (hd : run.isDsl d = true) (hi : i ≤ run.numDsl) (hp : p.val = 1) :
    (a.exits run i).exited run p d = decide (∃ j, j < i ∧ run.dslSeq j = d.val) := by
  by_cases hlt : i < run.numDsl
  · simp [App.exited, App.exits, hlt, hp]
  · -- every server is in the table
    have heq : i = run.numDsl := by omega
    rcases Procs.exists_dslSeq hd with ⟨j, hj, hseq⟩
    have hex : ∃ j, j < run.numDsl ∧ run.dslSeq j = d.val := ⟨j, hj, hseq⟩
    simp [App.exited, App.exits, hp, heq, hex]

theorem AppInv.frame (h : AppInv run W s p a) (hsame : SameAt p s t) : AppInv run W t p a := by
  rcases h with ⟨happ, hexit, issued, hissued, hall⟩
  refine ⟨happ, hexit, issued, hissued, ?_⟩
  intro d hd
  rw [hsame.ins, hsame.outs]
  exact hall d hd

theorem App.Issued.at_call (h : a.Issued run p l) (hpc : a.pc = .call) :
    run.ops p = l ++ a.ops := by
  cases h with
  | call _ h => exact h
  | await hpc' _ _ _ => simp [hpc] at hpc'
  | ended hcall _ => exact absurd hpc hcall

theorem App.Issued.at_await (h : a.Issued run p l) (hpc : a.pc = .await) {op : Op run.Id}
    {ops : List (Op run.Id)} (hops : a.ops = op :: ops) :
    op.asks = true ∧ ∃ l', l = l' ++ [op] ∧ run.ops p = l' ++ op :: ops := by
  cases h with
  | call hpc' _ => simp [hpc] at hpc'
  | await _ hops' hasks h =>
      rw [hops] at hops'
      cases hops'
      exact ⟨hasks, _, rfl, h⟩
  | ended _ hawait => exact absurd hpc hawait

/-- After the calls everything has been issued. -/
theorem App.Issued.at_over (h : a.Issued run p l) (hcall : a.pc ≠ .call) (hawait : a.pc ≠ .await) :
    l = run.ops p := by
  cases h with
  | call hpc _ => exact absurd hpc hcall
  | await hpc _ _ _ => exact absurd hpc hawait
  | ended _ _ => rfl

/-- An application goes on behind its calls without sending or receiving. -/
theorem AppInv.goes (h : AppInv run W s p a) {a' : App M run.Id}
    (hcall : a.pc ≠ .call) (hawait : a.pc ≠ .await) (hcall' : a'.pc ≠ .call)
    (hawait' : a'.pc ≠ .await)
    (hexit : ∀ i, a'.pc = .exit i → p.val = 1 ∧ i < run.numDsl)
    (hflags : ∀ d, run.isDsl d = true →
      a'.exited run p d = a.exited run p d ∧ a'.reported d = a.reported d)
    (hins : ∀ d, (t.chan (p, d)).ins = (s.chan (p, d)).ins)
    (houts : ∀ d, (t.chan (d, p)).outs = (s.chan (d, p)).outs) : AppInv run W t p a' := by
  rcases h with ⟨happ, _, l, hissued, hall⟩
  have hl := hissued.at_over hcall hawait
  subst hl
  refine ⟨happ, hexit, _, App.Issued.ended hcall' hawait', ?_⟩
  intro d hd
  rcases hflags d hd with ⟨hexited, hreported⟩
  have hold := hall d hd
  rw [waitsFor_of_pc hawait] at hold
  rw [hexited, hreported, waitsFor_of_pc hawait', hins, houts]
  exact hold

theorem AppInv.call (h : AppInv run W s p a) {op : Op run.Id} {ops : List (Op run.Id)}
    (hpc : a.pc = .call) (hops : a.ops = op :: ops) {a' : App M run.Id}
    (ha' : a' = if op.asks then { a with pc := .await, msg := op.fill W a.msg }
      else App.loop run (op.fill W a.msg) ops) :
    AppInv run W ((s.onChan (p, op.dsl) (.write (op.fill W a.msg))).goto p (.app a')) p a' := by
  rcases h with ⟨happ, _, l, hissued, hall⟩
  have hrun := hissued.at_call hpc
  rw [hops] at hrun
  have hpc' : a'.pc = .call ∨ a'.pc = .await ∨ a'.pc = .barrier ∨ a'.pc = .exit 0 := by
    rw [ha']
    split
    · exact Or.inr (Or.inl rfl)
    · rcases @pc_loop run M (op.fill W a.msg) ops with h | h
      · exact Or.inl h
      · exact Or.inr (Or.inr (Or.inl h))
  have hwaits : ∀ d, a'.waitsFor d = (decide (op.dsl = d) && op.asks) := by
    intro d
    rw [ha']
    cases hasks : op.asks with
    | true => simp [App.waitsFor, hops]
    | false => simp [waitsFor_loop]
  refine ⟨happ, ?_, l ++ [op], ?_, ?_⟩
  · intro i hi
    rw [hi] at hpc'
    simp at hpc'
    rw [ha'] at hi
    split at hi
    · cases hi
    · rcases @pc_loop run M (op.fill W a.msg) ops with h | h <;> simp [h] at hi
  · rw [ha']
    cases hasks : op.asks with
    | true => exact App.Issued.await rfl hops hasks hrun
    | false => exact issued_loop (by rw [hrun, List.append_assoc]; rfl)
  · intro d hd
    rcases hall d hd with ⟨hsent, hlen⟩
    have hold := flags_early (Or.inl hpc) p d
    have hnew := flags_early hpc' p d
    rw [hold.1, hold.2] at hsent
    rw [waitsFor_of_pc (by simp [hpc])] at hlen
    rw [hnew.1, hnew.2, goto_chan, outs_write, ins_write, hwaits, asksTo_concat]
    refine ⟨?_, ?_⟩
    · have hif : (if (p, d) = (p, op.dsl) then [op.fill W a.msg] else []) =
          if op.dsl = d then [op.fill W a.msg] else [] := by
        by_cases hd' : op.dsl = d
        · simp [hd']
        · simp [hd', Ne.symm hd']
      rw [hif]
      exact hsent.call op a.msg
    · by_cases hd' : op.dsl = d
      · cases hasks : op.asks with
        | true => simpa [hd'] using hlen
        | false => simpa [hd'] using hlen
      · simpa [hd'] using hlen

theorem AppInv.await (h : AppInv run W s p a) {op : Op run.Id} {ops : List (Op run.Id)} {m : M}
    (hpc : a.pc = .await) (hops : a.ops = op :: ops) :
    AppInv run W ((s.onChan (op.dsl, p) (.clear m)).goto p (.app (App.loop run m ops))) p
      (App.loop run m ops) := by
  rcases h with ⟨happ, _, l, hissued, hall⟩
  rcases hissued.at_await hpc hops with ⟨hasks, l', rfl, hrun⟩
  refine ⟨happ, ?_, l' ++ [op], issued_loop (by rw [hrun, List.append_assoc]; rfl), ?_⟩
  · intro i hi
    rcases @pc_loop run M m ops with h | h <;> simp [h] at hi
  · intro d hd
    rcases hall d hd with ⟨hsent, hlen⟩
    have hold := flags_early (Or.inr (Or.inl hpc)) p d
    have hnew := @flags_loop run M m ops p d
    rw [hold.1, hold.2] at hsent
    rw [hnew.1, hnew.2, goto_chan, ins_clear, outs_clear, waitsFor_loop, ← hlen]
    refine ⟨hsent, ?_⟩
    have hwaits : a.waitsFor d = decide (op.dsl = d) := by simp [App.waitsFor, hpc, hops]
    rw [hwaits]
    by_cases hd' : op.dsl = d
    · simp [hd']
    · simp [hd', Ne.symm hd']

theorem AppInv.exit_step (h : AppInv run W s p a) {i : Nat} (hpc : a.pc = .exit i)
    (hseq : run.dslSeq i = d.val) {a' : App M run.Id}
    (ha' : a' = App.exits run { a with msg := W.set 0 bankExit a.msg } (i + 1)) :
    AppInv run W ((s.onChan (p, d) (.write (W.set 0 bankExit a.msg))).goto p (.app a')) p a' := by
  rcases h with ⟨happ, hexit, l, hissued, hall⟩
  rcases hexit i hpc with ⟨hone, hi⟩
  have hl := hissued.at_over (by simp [hpc]) (by simp [hpc])
  subst hl
  have hpc' : a'.pc = if i + 1 < run.numDsl then .exit (i + 1) else .barrierAgain := by
    rw [ha']
    rfl
  have hcall' : a'.pc ≠ .call := by
    rw [hpc']
    split <;> simp
  have hawait' : a'.pc ≠ .await := by
    rw [hpc']
    split <;> simp
  refine ⟨happ, ?_, _, App.Issued.ended hcall' hawait', ?_⟩
  · intro k hk
    rw [hpc'] at hk
    split at hk
    · cases hk
      exact ⟨hone, ‹_›⟩
    · cases hk
  · intro d' hd'
    rcases hall d' hd' with ⟨hsent, hlen⟩
    have hreported : a.reported d' = false := by simp [App.reported, hpc]
    have hreported' : a'.reported d' = false := by
      rw [App.reported, hpc']
      split <;> simp
    have hexited : a.exited run p d' = decide (∃ j, j < i ∧ run.dslSeq j = d'.val) := by
      simp [App.exited, hpc, hone]
    have hexited' : a'.exited run p d' = decide (∃ j, j < i + 1 ∧ run.dslSeq j = d'.val) := by
      rw [ha']
      exact exited_exits hd' hi hone
    rw [hreported, hexited] at hsent
    rw [waitsFor_of_pc (by simp [hpc])] at hlen
    rw [hreported', hexited', waitsFor_of_pc hawait', goto_chan, outs_write, ins_write]
    refine ⟨?_, hlen⟩
    by_cases hdd : d' = d
    · -- the first `EXIT` to `d`
      subst hdd
      have hyes : ∃ j, j < i + 1 ∧ run.dslSeq j = d'.val := ⟨i, Nat.lt_succ_self i, hseq⟩
      rw [decide_eq_false (Procs.not_before hi hseq)] at hsent
      rw [decide_eq_true hyes, if_pos rfl]
      exact hsent.exit (decode_exit a.msg)
    · rw [if_neg fun heq => hdd (Prod.mk.inj heq).2, List.append_nil]
      simpa only [Procs.exists_before_succ hseq hdd] using hsent

theorem AppInv.report_step (h : AppInv run W s p a) (hpc : a.pc = .report) (hd : d.val = 0) (m : M) :
    AppInv run W ((s.onChan (p, d) (.write m)).goto p (.app { a with pc := .done, msg := m })) p
      { a with pc := .done, msg := m } := by
  rcases h with ⟨happ, hexit, l, hissued, hall⟩
  have hl := hissued.at_over (by simp [hpc]) (by simp [hpc])
  subst hl
  refine ⟨happ, by simp, _, App.Issued.ended (by simp) (by simp), ?_⟩
  intro d' hd'
  rcases hall d' hd' with ⟨hsent, hlen⟩
  have hexited : App.exited run p d' { a with pc := .done, msg := m } = a.exited run p d' := by
    simp [App.exited, hpc]
  have hreported : a.reported d' = false := by simp [App.reported, hpc]
  rw [hreported] at hsent
  rw [waitsFor_of_pc (by simp [hpc])] at hlen
  rw [hexited, waitsFor_of_pc (by simp), goto_chan, outs_write, ins_write]
  refine ⟨?_, hlen⟩
  by_cases hdd : d' = d
  · have hreported' : App.reported d' { a with pc := .done, msg := m } = true := by
      simp [App.reported, hdd, hd]
    rw [hreported', if_pos (by rw [hdd])]
    exact hsent.report m
  · have hne : d'.val ≠ 0 := fun heq => hdd (Fin.ext (heq.trans hd.symm))
    have hreported' : App.reported d' { a with pc := .done, msg := m } = false := by
      simp [App.reported, hne]
    rw [hreported', if_neg fun heq => hdd (Prod.mk.inj heq).2, List.append_nil]
    exact hsent

theorem AppInv.init (h : (network run W report buf).Init s) (hloc : s.loc p = .app a) :
    AppInv run W s p a := by
  have hstart := h.loc p
  simp only [network, start, hloc] at hstart
  split at hstart
  · cases hstart
  · rename_i hdsl
    cases hstart
    refine ⟨Procs.isApp_iff.2 hdsl, ?_, [], issued_loop rfl, ?_⟩
    · intro i hi
      rcases @pc_loop run M (buf p) (run.ops p) with h | h <;> simp [h] at hi
    · intro d _
      have hflags := @flags_loop run M (buf p) (run.ops p) p d
      rw [hflags.1, hflags.2, waitsFor_loop, h.chan, h.chan]
      exact ⟨Sent.nil, rfl⟩

/-- What a step of its own leaves of an application. -/
theorem AppInv.move (h : ∀ a, s.loc p = .app a → AppInv run W s p a)
    (hmove : Move run W report s p t) (hloc : t.loc p = .app a) : AppInv run W t p a := by
  cases hmove with
  | call hloc' hpc hops =>
      rw [goto_loc_self, Loc.app.injEq] at hloc
      rw [hloc]
      exact (h _ hloc').call hpc hops hloc.symm
  | await hloc' hpc hops =>
      rw [goto_loc_self, Loc.app.injEq] at hloc
      subst hloc
      exact (h _ hloc').await hpc hops
  | arrive hloc' hpc hout =>
      rcases h a hloc with ⟨happ, hexit, hdone⟩
      exact ⟨happ, hexit, hdone⟩
  | @leave a₀ hloc' hpc hin hall =>
      rw [goto_loc_self, Loc.app.injEq] at hloc
      subst hloc
      have hpc' : (a₀.passed run p).pc = .exit 0 ∧ p.val = 1 ∨
          (a₀.passed run p).pc = .barrierAgain ∧ p.val ≠ 1 := by
        unfold App.passed
        split
        · exact Or.inl ⟨if_pos Procs.numDsl_pos, ‹_›⟩
        · exact Or.inr ⟨rfl, ‹_›⟩
      refine (h _ hloc').goes (by simp [hpc]) (by simp [hpc]) ?_ ?_ ?_ ?_ (fun _ => rfl) fun _ => rfl
      · rcases hpc' with ⟨hpc', _⟩ | ⟨hpc', _⟩ <;> simp [hpc']
      · rcases hpc' with ⟨hpc', _⟩ | ⟨hpc', _⟩ <;> simp [hpc']
      · intro i hi
        rcases hpc' with ⟨hpc', hone⟩ | ⟨hpc', _⟩
        · rw [hpc'] at hi
          cases hi
          exact ⟨hone, Procs.numDsl_pos⟩
        · rw [hpc'] at hi
          cases hi
      · intro d _
        rcases hpc' with ⟨hpc', hone⟩ | ⟨hpc', hone⟩ <;>
          simp [App.exited, App.reported, hpc, hpc', hone]
  | leaveAgain hloc' hpc hin hall =>
      rw [goto_loc_self, Loc.app.injEq] at hloc
      subst hloc
      refine (h _ hloc').goes (by simp [hpc]) (by simp [hpc]) (by simp) (by simp) (by simp) ?_
        (fun _ => rfl) fun _ => rfl
      intro d _
      simp [App.exited, App.reported, hpc]
  | exit hloc' hpc hd =>
      rw [goto_loc_self, Loc.app.injEq] at hloc
      rw [hloc]
      exact (h _ hloc').exit_step hpc hd hloc.symm
  | report hloc' hpc hd =>
      rw [goto_loc_self, Loc.app.injEq] at hloc
      subst hloc
      exact (h _ hloc').report_step hpc hd _
  | seek k hloc' hpc =>
      rw [seek_loc, hloc'] at hloc
      cases hloc
  | hit k hloc' hpc hsrc =>
      rw [goto_loc_self] at hloc
      cases hloc
  | answer hloc' hpc hc =>
      rw [goto_loc_self] at hloc
      cases hloc

theorem appInv (h : (network run W report buf).system.Reachable s) (hloc : s.loc p = .app a) :
    AppInv run W s p a := by
  induction h generalizing p a with
  | init h0 => exact AppInv.init h0 hloc
  | @step s t q _ hst ih =>
      by_cases hp : p = q
      · subst hp
        exact AppInv.move (fun a hloc => ih hloc) (Move.of_step hst) hloc
      · have hsame := Step.sameAt hst hp
        exact (ih (hsame.loc.symm.trans hloc)).frame hsame

end Apps

/-! ## The barriers -/

section Barriers

variable {run : BankRun} {M : Type} {W : MsgWords M} {report : run.Id → M → M}
variable {buf : run.Id → M} {s t : State run.Id M (Loc M run.Id)} {p q : run.Id}
variable {a b : App M run.Id}

/-- How often an application has passed the barrier. -/
def AppPc.passed : AppPc → Nat
  | .call => 0
  | .await => 0
  | .barrier => 0
  | .exit _ => 1
  | .barrierAgain => 1
  | .report => 2
  | .done => 2

/-- Who has passed the barrier has been joined there by all. -/
structure Meeting (run : BankRun) (s : State run.Id M (Loc M run.Id)) : Prop where
  met : ∀ p a, s.loc p = .app a → s.met p = a.pc.passed + (s.waits p).toNat
  waits : ∀ p a, s.loc p = .app a → s.waits p = true → a.pc = .barrier ∨ a.pc = .barrierAgain
  passed : ∀ p a, s.loc p = .app a → ∀ q, run.isApp q = true → a.pc.passed ≤ s.met q

/-- No application is further than one that may wait for it. -/
theorem Meeting.passed_le (h : Meeting run s) (hp : run.isApp p = true) (hlocp : s.loc p = .app a)
    (hlocq : s.loc q = .app b) : b.pc.passed ≤ a.pc.passed + (s.waits p).toNat := by
  rw [← h.met p a hlocp]
  exact h.passed q b hlocq p hp

theorem Meeting.not_waits (h : Meeting run s) (hloc : s.loc p = .app a)
    (hpc : ¬ (a.pc = .barrier ∨ a.pc = .barrierAgain)) : s.waits p = false := by
  by_contra hwaits
  exact hpc (h.waits p a hloc (by simpa using hwaits))

/-- A step that passes no barrier. -/
theorem Meeting.goes (h : Meeting run s) (hmet : t.met = s.met) (hwaits : t.waits = s.waits)
    (hloc : ∀ p a, t.loc p = .app a → ∃ a₀, s.loc p = .app a₀ ∧ a.pc.passed = a₀.pc.passed ∧
      (a.pc = a₀.pc ∨ ¬ (a₀.pc = .barrier ∨ a₀.pc = .barrierAgain))) : Meeting run t := by
  refine ⟨?_, ?_, ?_⟩
  · intro p a hp
    rcases hloc p a hp with ⟨a₀, hp₀, heq, _⟩
    rw [hmet, hwaits, heq]
    exact h.met p a₀ hp₀
  · intro p a hp hin
    rcases hloc p a hp with ⟨a₀, hp₀, _, hpc⟩
    rw [hwaits] at hin
    rcases hpc with hpc | hpc
    · rw [hpc]
      exact h.waits p a₀ hp₀ hin
    · exact absurd (h.waits p a₀ hp₀ hin) hpc
  · intro p a hp q hq
    rcases hloc p a hp with ⟨a₀, hp₀, heq, _⟩
    rw [hmet, heq]
    exact h.passed p a₀ hp₀ q hq

/-- An application goes on without the barrier. -/
theorem Meeting.app (h : Meeting run s) (hloc : s.loc p = .app a)
    (hpc : ¬ (a.pc = .barrier ∨ a.pc = .barrierAgain)) {a' : App M run.Id}
    (heq : a'.pc.passed = a.pc.passed) (pq : run.Id × run.Id) (f : OnePlace M → OnePlace M) :
    Meeting run ((s.onChan pq f).goto p (.app a')) := by
  refine h.goes rfl rfl ?_
  intro q b hq
  by_cases hqp : q = p
  · subst hqp
    rw [goto_loc_self, Loc.app.injEq] at hq
    subst hq
    exact ⟨a, hloc, heq, Or.inr hpc⟩
  · rw [goto_loc_ne hqp] at hq
    exact ⟨b, hq, rfl, Or.inl rfl⟩

/-- A server goes on. -/
theorem Meeting.dsl (h : Meeting run s) (sv : Dsl M run.Id) (hmet : t.met = s.met)
    (hwaits : t.waits = s.waits) (hself : t.loc p = .dsl sv)
    (hother : ∀ q, q ≠ p → t.loc q = s.loc q) : Meeting run t := by
  refine h.goes hmet hwaits ?_
  intro q b hq
  by_cases hqp : q = p
  · rw [hqp, hself] at hq
    cases hq
  · rw [hother q hqp] at hq
    exact ⟨b, hq, rfl, Or.inl rfl⟩

theorem Meeting.arrive (h : Meeting run s) (hloc : s.loc p = .app a)
    (hpc : a.pc = .barrier ∨ a.pc = .barrierAgain) (hout : s.waits p = false) :
    Meeting run (s.arrive p) := by
  refine ⟨?_, ?_, ?_⟩
  · intro q b hq
    have hold := h.met q b hq
    by_cases hqp : q = p
    · subst hqp
      simpa [State.arrive, hout] using hold
    · simpa [State.arrive, hqp] using hold
  · intro q b hq hin
    by_cases hqp : q = p
    · subst hqp
      rw [arrive_loc, hloc, Loc.app.injEq] at hq
      exact hq ▸ hpc
    · exact h.waits q b hq (by simpa [State.arrive, hqp] using hin)
  · intro q b hq r hr
    have hold := h.passed q b hq r hr
    by_cases hrp : r = p
    · subst hrp
      simp only [State.arrive, Function.update_self]
      omega
    · simpa [State.arrive, hrp] using hold

theorem Meeting.leave (h : Meeting run s) (hloc : s.loc p = .app a) {a' : App M run.Id}
    (heq : a'.pc.passed = a.pc.passed + 1) (hin : s.waits p = true)
    (hall : ∀ q, run.isApp q = true → s.met p ≤ s.met q) :
    Meeting run ((s.leave p).goto p (.app a')) := by
  have hmet := h.met p a hloc
  rw [hin, Bool.toNat_true, ← heq] at hmet
  refine ⟨?_, ?_, ?_⟩
  · intro q b hq
    by_cases hqp : q = p
    · subst hqp
      rw [goto_loc_self, Loc.app.injEq] at hq
      subst hq
      simpa [State.leave] using hmet
    · rw [goto_loc_ne hqp] at hq
      simpa [State.leave, hqp] using h.met q b hq
  · intro q b hq hwaits
    by_cases hqp : q = p
    · subst hqp
      simp [State.leave] at hwaits
    · rw [goto_loc_ne hqp] at hq
      exact h.waits q b hq (by simpa [State.leave, hqp] using hwaits)
  · intro q b hq r hr
    by_cases hqp : q = p
    · subst hqp
      rw [goto_loc_self, Loc.app.injEq] at hq
      subst hq
      exact hmet ▸ hall r hr
    · rw [goto_loc_ne hqp] at hq
      exact h.passed q b hq r hr

theorem passed_loop {msg : M} {ops : List (Op run.Id)} : (App.loop run msg ops).pc.passed = 0 := by
  rcases @pc_loop run M msg ops with h | h <;> simp [h, AppPc.passed]

theorem passed_exits (i : Nat) : (a.exits run i).pc.passed = 1 := by
  unfold App.exits
  split <;> rfl

theorem Meeting.move (h : Meeting run s) (hmove : Move run W report s p t) : Meeting run t := by
  cases hmove with
  | call hloc hpc hops =>
      refine h.app hloc (by simp [hpc]) ?_ _ _
      rw [hpc]
      split
      · rfl
      · exact passed_loop
  | await hloc hpc hops => exact h.app hloc (by simp [hpc]) (by rw [hpc]; exact passed_loop) _ _
  | arrive hloc hpc hout => exact h.arrive hloc hpc hout
  | leave hloc hpc hin hall =>
      refine h.leave hloc ?_ hin hall
      rw [hpc, App.passed]
      split
      · exact passed_exits 0
      · rfl
  | leaveAgain hloc hpc hin hall => exact h.leave hloc (by rw [hpc]; rfl) hin hall
  | exit hloc hpc hd =>
      exact h.app hloc (by simp [hpc]) (by rw [hpc]; exact passed_exits _) _ _
  | report hloc hpc hd => exact h.app hloc (by simp [hpc]) (by rw [hpc]; rfl) _ _
  | seek k hloc hpc => exact h.goes rfl rfl fun q b hq => ⟨b, hq, rfl, Or.inl rfl⟩
  | hit k hloc hpc hsrc => exact h.dsl _ rfl rfl goto_loc_self fun q hq => goto_loc_ne hq
  | answer hloc hpc hc => exact h.dsl _ rfl rfl goto_loc_self fun q hq => goto_loc_ne hq

theorem Meeting.init (h : (network run W report buf).Init s) : Meeting run s := by
  have hpassed : ∀ p a, s.loc p = .app a → a.pc.passed = 0 := by
    intro p a hp
    have hstart := h.loc p
    simp only [network, start, hp] at hstart
    split at hstart
    · cases hstart
    · cases hstart
      exact passed_loop
  refine ⟨?_, ?_, ?_⟩
  · intro p a hp
    rw [h.met, h.waits, hpassed p a hp]
    rfl
  · intro p a _ hin
    rw [h.waits] at hin
    cases hin
  · intro p a hp q _
    rw [hpassed p a hp]
    exact Nat.zero_le _

theorem meeting (h : (network run W report buf).system.Reachable s) : Meeting run s := by
  refine h.invariant (I := fun s => Meeting run s) ?_ ?_
  · intro s hs
    exact Meeting.init hs
  · intro s p t hs hst
    exact hs.move (Move.of_step hst)

end Barriers

end Bank
end Bench
end Ssmp
