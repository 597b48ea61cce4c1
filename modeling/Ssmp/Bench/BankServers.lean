import Ssmp.Bench.BankRuns

/-!
# Bench.BankServers — what the servers of `benchmarks/bank.c` have done

A server has handled the messages that it has taken one after the other (`served`): they give its
balances and its answers, and what it has sent to an application are the answers to that application,
up to the one that it is about to send.
-/

namespace Ssmp
namespace Bench

open Lib Network Accounts

namespace Bank

/-! ## Handling a list of messages -/

section Served

variable {Id M : Type} (W : MsgWords M)

/-- The balances and the answers so far, and a message with the process that sent it. -/
def handle (st : Balances × List (Id × M)) (e : Id × M) : Balances × List (Id × M) :=
  match serve W st.1 e.2 with
  | none => st
  | some (accs, answer) => (accs, st.2 ++ answer.toList.map (Prod.mk e.1))

def served (log : List (Id × M)) : Balances × List (Id × M) :=
  log.foldl (handle W) (fun _ => 0, [])

variable {W}

theorem served_concat (log : List (Id × M)) (e : Id × M) :
    served W (log ++ [e]) = handle W (served W log) e := by
  simp [served]

/-- A message that is no request ends the loop. -/
theorem serve_eq_none {accs : Balances} {m : M} : serve W accs m = none ↔ decode W m = none := by
  unfold serve decode
  by_cases hdeposit : W.get 0 m = bankDeposit
  · simp [hdeposit]
  · by_cases hwithdraw : W.get 0 m = bankWithdraw
    · by_cases hle : W.get 2 m ≤ accs (W.get 1 m) <;> simp [hwithdraw, hle, bankDeposit, bankWithdraw]
    · by_cases hcheck : W.get 0 m = bankCheck
      · simp [hcheck, bankDeposit, bankWithdraw, bankCheck]
      · simp [hdeposit, hwithdraw, hcheck]

/-- The messages that are answered are the requests that ask. -/
theorem serve_asks {accs accs' : Balances} {m : M} {answer : Option M}
    (h : serve W accs m = some (accs', answer)) :
    answer.toList.length = ((decode W m).any Request.asks).toNat := by
  unfold serve at h
  unfold decode
  by_cases hdeposit : W.get 0 m = bankDeposit
  · rw [if_pos hdeposit] at h ⊢
    cases h
    rfl
  · rw [if_neg hdeposit] at h ⊢
    by_cases hwithdraw : W.get 0 m = bankWithdraw
    · rw [if_pos hwithdraw] at h ⊢
      split at h <;>
        · cases h
          rfl
    · rw [if_neg hwithdraw] at h ⊢
      by_cases hcheck : W.get 0 m = bankCheck
      · rw [if_pos hcheck] at h ⊢
        cases h
        rfl
      · rw [if_neg hcheck] at h
        cases h

theorem length_answers [DecidableEq Id] (log : List (Id × M)) (p : Id) :
    (ofClient p (served W log).2).length =
      (ofClient p log).countP fun m => (decode W m).any Request.asks := by
  induction log using List.reverseRecOn with
  | nil => rfl
  | append_singleton log e ih =>
      rw [served_concat, ofClient_append, List.countP_append, ← ih, ofClient_singleton, handle]
      cases hserve : serve W (served W log).1 e.2 with
      | none =>
          have hdec := serve_eq_none.1 hserve
          by_cases hp : e.1 = p <;> simp [hp, hdec]
      | some r =>
          rcases r with ⟨accs, answer⟩
          have hlen := serve_asks hserve
          have hanswer : ofClient p (answer.toList.map (Prod.mk e.1)) =
              if e.1 = p then answer.toList else [] := by
            cases answer with
            | none => simp [ofClient]
            | some m => exact ofClient_singleton
          simp only [ofClient_append, hanswer, List.length_append]
          by_cases hp : e.1 = p
          · rw [if_pos hp, if_pos hp, hlen, List.countP_singleton]
            cases (decode W e.2).any Request.asks <;> rfl
          · rw [if_neg hp, if_neg hp, List.countP_nil, List.length_nil]

end Served

/-! ## The invariant of a server -/

section Servers

variable {run : BankRun} {M : Type} {W : MsgWords M} {report : run.Id → M → M}
variable {buf : run.Id → M} {s t : State run.Id M (Loc M run.Id)} {p d : run.Id} {sv : Dsl M run.Id}

/-- The answer that a server is about to send to `p`. -/
def Dsl.serves (p : run.Id) (sv : Dsl M run.Id) : List M :=
  if sv.pc = .reply ∧ sv.sender = p.val then [sv.msg] else []

/-- The messages that a server has taken are what has been taken from its applications; it has the
balances that they lead to, has answered them, and has left its loop at the first that is no
request. -/
structure DslInv (run : BankRun) (W : MsgWords M) (s : State run.Id M (Loc M run.Id)) (d : run.Id)
    (sv : Dsl M run.Id) : Prop where
  dsl : run.isDsl d = true
  apps : ∀ e ∈ sv.handled, run.isApp e.1 = true
  log : ∀ p, ofClient p sv.handled = (s.chan (p, d)).outs
  accs : sv.accs = (served W sv.handled).1
  answers : ∀ p, ofClient p (served W sv.handled).2 = (s.chan (d, p)).ins ++ sv.serves p
  sender : sv.pc = .reply → ∃ c, run.isApp c = true ∧ sv.sender = c.val
  requests : ∃ l last, sv.handled = l ++ last ∧ (∀ e ∈ l, decode W e.2 ≠ none) ∧
    last.map (fun e => decode W e.2) = if sv.pc = .done then [none] else []

theorem serves_of_pc (hpc : sv.pc ≠ .reply) (p : run.Id) : sv.serves p = [] :=
  if_neg fun h => hpc h.1

theorem DslInv.frame (h : DslInv run W s d sv) (hsame : SameAt d s t) : DslInv run W t d sv where
  dsl := h.dsl
  apps := h.apps
  log p := (h.log p).trans (hsame.outs p).symm
  accs := h.accs
  answers p := by
    rw [hsame.ins]
    exact h.answers p
  sender := h.sender
  requests := h.requests

/-- In its loop a server has taken requests only. -/
theorem DslInv.in_loop (h : DslInv run W s d sv) (hpc : sv.pc ≠ .done) :
    ∀ e ∈ sv.handled, decode W e.2 ≠ none := by
  rcases h.requests with ⟨l, last, heq, hl, hlast⟩
  rw [if_neg hpc, List.map_eq_nil_iff] at hlast
  subst hlast
  simpa [heq] using hl

theorem DslInv.hit (h : DslInv run W s d sv) (hpc : sv.pc = .recv) {src : run.Id} {m : M}
    (hsrc : src ∈ run.cbuf d) (k : Nat) :
    DslInv run W (((s.onChan (src, d) (.clear m)).seek d k).goto d (.dsl (sv.took run W src m))) d
      (sv.took run W src m) := by
  have happ := (Procs.mem_cbuf h.dsl).1 hsrc
  have hhandled : (sv.took run W src m).handled = sv.handled ++ [(src, m)] := by
    unfold Dsl.took
    split <;> rfl
  have hserved : served W (sv.took run W src m).handled = handle W (served W sv.handled) (src, m) := by
    rw [hhandled, served_concat]
  refine ⟨h.dsl, ?_, ?_, ?_, ?_, ?_, ?_⟩
  · intro e he
    rw [hhandled, List.mem_append, List.mem_singleton] at he
    rcases he with he | rfl
    · exact h.apps e he
    · exact happ
  · intro p
    rw [hhandled, ofClient_append, ofClient_singleton, h.log, goto_chan, seek_chan, outs_clear]
    by_cases hp : src = p
    · simp [hp]
    · simp [hp, Ne.symm hp]
  · rw [hserved, handle, ← h.accs, Dsl.took]
    cases hserve : serve W sv.accs m with
    | none => simp [h.accs]
    | some r => rcases r with ⟨accs, _ | answer⟩ <;> rfl
  · intro p
    have hold := h.answers p
    rw [serves_of_pc (by simp [hpc]), List.append_nil] at hold
    rw [hserved, handle, ← h.accs, goto_chan, seek_chan, ins_clear, ← hold, Dsl.took]
    -- the answer is about to be sent
    cases hserve : serve W sv.accs m with
    | none => simp [Dsl.serves]
    | some r =>
        rcases r with ⟨accs, _ | answer⟩
        · simp [Dsl.serves]
        · simp [Dsl.serves, ofClient_append, ofClient_singleton, Fin.val_inj]
  · intro hreply
    unfold Dsl.took at hreply ⊢
    split at hreply
    · cases hreply
    · cases hreply
    · exact ⟨src, happ, rfl⟩
  · have hl := h.in_loop (by simp [hpc])
    cases hserve : serve W sv.accs m with
    | none =>
        refine ⟨sv.handled, [(src, m)], hhandled, hl, ?_⟩
        have hdone : (sv.took run W src m).pc = .done := by simp [Dsl.took, hserve]
        rw [if_pos hdone, List.map_singleton, serve_eq_none.1 hserve]
    | some r =>
        refine ⟨sv.handled ++ [(src, m)], [], by rw [hhandled, List.append_nil], ?_, ?_⟩
        · intro e he
          rw [List.mem_append, List.mem_singleton] at he
          rcases he with he | rfl
          · exact hl e he
          · rw [ne_eq, ← @serve_eq_none M W sv.accs m, hserve]
            simp
        · have hloop : (sv.took run W src m).pc ≠ .done := by
            rcases r with ⟨accs, _ | answer⟩ <;> simp [Dsl.took, hserve]
          rw [if_neg hloop, List.map_nil]

theorem DslInv.answer (h : DslInv run W s d sv) (hpc : sv.pc = .reply) {c : run.Id}
    (hc : sv.sender = c.val) :
    DslInv run W ((s.onChan (d, c) (.write sv.msg)).goto d (.dsl { sv with pc := .recv })) d
      { sv with pc := .recv } := by
  refine ⟨h.dsl, h.apps, ?_, h.accs, ?_, by simp, ?_⟩
  · intro p
    rw [goto_chan, outs_write]
    exact h.log p
  · intro p
    have hserves : Dsl.serves p { sv with pc := .recv } = [] := serves_of_pc (by simp) p
    rw [goto_chan, ins_write, hserves, List.append_nil, h.answers p]
    by_cases hp : p = c
    · simp [Dsl.serves, hpc, hc, hp]
    · simp [Dsl.serves, hc, hp, Fin.val_inj, Ne.symm hp]
  · rcases h.requests with ⟨l, last, heq, hl, hlast⟩
    refine ⟨l, last, heq, hl, ?_⟩
    rw [hlast]
    simp [hpc]

theorem DslInv.init (h : (network run W report buf).Init s) (hloc : s.loc d = .dsl sv) :
    DslInv run W s d sv := by
  have hstart := h.loc d
  simp only [network, start, hloc] at hstart
  split at hstart
  · rename_i hdsl
    cases hstart
    refine ⟨hdsl, by simp, ?_, rfl, ?_, by simp, [], [], rfl, by simp, by simp⟩
    · intro p
      rw [h.chan]
      rfl
    · intro p
      rw [h.chan]
      rfl
  · cases hstart

/-- What a step of its own leaves of a server. -/
theorem DslInv.move (h : ∀ sv, s.loc d = .dsl sv → DslInv run W s d sv)
    (hmove : Move run W report s d t) (hloc : t.loc d = .dsl sv) : DslInv run W t d sv := by
  cases hmove with
  | seek k hloc' hpc =>
      rcases h sv hloc with ⟨hdsl, happs, hlog, haccs, hanswers, hsender, hrequests⟩
      exact ⟨hdsl, happs, hlog, haccs, hanswers, hsender, hrequests⟩
  | hit k hloc' hpc hsrc =>
      rw [goto_loc_self, Loc.dsl.injEq] at hloc
      subst hloc
      exact (h _ hloc').hit hpc hsrc k
  | answer hloc' hpc hc =>
      rw [goto_loc_self, Loc.dsl.injEq] at hloc
      subst hloc
      exact (h _ hloc').answer hpc hc
  | arrive hloc' hpc hout =>
      rw [arrive_loc, hloc'] at hloc
      cases hloc
  | _ =>
      rw [goto_loc_self] at hloc
      cases hloc

theorem dslInv (h : (network run W report buf).system.Reachable s) (hloc : s.loc d = .dsl sv) :
    DslInv run W s d sv := by
  induction h generalizing d sv with
  | init h0 => exact DslInv.init h0 hloc
  | @step s t q _ hst ih =>
      by_cases hd : d = q
      · subst hd
        exact DslInv.move (fun sv hloc => ih hloc) (Move.of_step hst) hloc
      · have hsame := Step.sameAt hst hd
        exact (ih (hsame.loc.symm.trans hloc)).frame hsame

end Servers

end Bank
end Bench
end Ssmp
