import Mathlib.Algebra.BigOperators.Group.Finset.Piecewise
import Mathlib.Algebra.Order.BigOperators.Group.Finset
import Ssmp.Bench.ClientServer

/-!
# Bench.ExitCount — how the servers of `benchmarks/client_server.c` know that they are done

A server counts the messages whose number is below the number of servers.  Every client sends it
exactly one, as its last, and the channels keep the order, so a server that has counted as many as
there are clients has had every message.  In the builds with replies every message on its way is the
one that its client waits for, so that a reply never finds its slot occupied.
-/

namespace Ssmp
namespace Bench

open Lib Network

namespace ClientServer

section Moves

variable {args : ClientServerArgs} {reply : Reply} {M : Type} {W : MsgWords M}
variable {buf : args.Id → M} {s t : State args.Id M (Loc M)} {p : args.Id}

/-! ## The steps of the processes -/

/-- The server after it has taken `m` from `src`. -/
def Server.took (sv : Server M) (src : Nat) (m : M) : Server M :=
  { sv with msg := m, sender := src }

/-- What process `p` can do in one step. -/
inductive Move (args : ClientServerArgs) (reply : Reply) (W : MsgWords M)
    (s : State args.Id M (Loc M)) (p : args.Id) : State args.Id M (Loc M) → Prop where
  | send {c : Client M} {d : args.Id} (hloc : s.loc p = .client c) (hpc : c.pc = .send)
      (hd : c.dst = d.val) (hfree : (s.chan (p, d)).place = none) :
      Move args reply W s p ((s.onChan (p, d) (.write (c.request W))).goto p
        (.client (if reply = .oneWay then Client.turn args { c with msg := c.request W }
          else { c with msg := c.request W, pc := .recv })))
  | recv {c : Client M} {d : args.Id} {m : M} (hloc : s.loc p = .client c) (hpc : c.pc = .recv)
      (hd : c.dst = d.val) (hm : (s.chan (d, p)).place = some m) :
      Move args reply W s p ((s.onChan (d, p) (.clear m)).goto p
        (.client (Client.turn args { c with msg := m })))
  | seek {sv : Server M} (k : Nat) (hloc : s.loc p = .server sv) (hpc : sv.pc = .recv) :
      Move args reply W s p (s.seek p k)
  | hit {sv : Server M} {src : args.Id} {m : M} (k : Nat) (hloc : s.loc p = .server sv)
      (hpc : sv.pc = .recv) (hsrc : src ∈ args.cbuf p) (hm : (s.chan (src, p)).place = some m) :
      Move args reply W s p (((s.onChan (src, p) (.clear m)).seek p k).goto p
        (.server (if reply = .oneWay then (sv.took src.val m).test args W
          else { sv.took src.val m with pc := .reply })))
  | reply {sv : Server M} {c : args.Id} (hloc : s.loc p = .server sv) (hpc : sv.pc = .reply)
      (hc : sv.sender = c.val) (hfree : reply = .noSync ∨ (s.chan (p, c)).place = none) :
      Move args reply W s p ((s.onChan (p, c) (.write sv.msg)).goto p (.server (sv.test args W)))

theorem Move.of_step (h : (network args reply W buf).Step s p t) : Move args reply W s p t := by
  have heff := h.effect
  cases hloc : s.loc p with
  | client c =>
      cases hpc : c.pc with
      | send =>
          simp only [network, hloc, next, Client.next, hpc] at heff
          rcases Procs.effect_atId heff with ⟨d, hd, hfree, rfl⟩
          exact Move.send hloc hpc hd hfree
      | recv =>
          simp only [network, hloc, next, Client.next, hpc] at heff
          rcases Procs.effect_atId heff with ⟨d, hd, m, hm, rfl⟩
          exact Move.recv hloc hpc hd hm
      | done =>
          simp only [network, hloc, next, Client.next, hpc] at heff
          exact False.elim heff
  | server sv =>
      cases hpc : sv.pc with
      | recv =>
          simp only [network, hloc, next, Server.next, hpc] at heff
          rcases heff with ⟨k, rfl⟩ | ⟨src, hsrc, m, k, hm, rfl⟩
          · exact Move.seek k hloc hpc
          · exact Move.hit k hloc hpc hsrc hm
      | reply =>
          simp only [network, hloc, next, Server.next, hpc] at heff
          rcases Procs.effect_atId heff with ⟨c, hc, heff⟩
          split at heff
          · have ht : t = _ := heff
            subst ht
            exact Move.reply hloc hpc hc (Or.inl ‹_›)
          · rcases heff with ⟨hfree, rfl⟩
            exact Move.reply hloc hpc hc (Or.inr hfree)
      | done =>
          simp only [network, hloc, next, Server.next, hpc] at heff
          exact False.elim heff

end Moves

/-! ## What a client has sent -/

section Progress

variable {args : ClientServerArgs} {reply : Reply} {M : Type} {W : MsgWords M}
variable {buf : args.Id → M} {s t : State args.Id M (Loc M)} {p : args.Id} {c : Client M} {i : Nat}

/-- The client is in the turn of its loop with the `i`-th message. -/
structure Client.At (args : ClientServerArgs) (c : Client M) (i : Nat) : Prop where
  lt : i < args.numMsgs
  numMsgs1 : c.numMsgs1 = args.numMsgs - 1 - i
  dst : c.dst = dstAt args i
  dstIdx : c.dstIdx = i % args.numDsl

/-- The client has sent `i` messages. -/
inductive Client.Sent (args : ClientServerArgs) (c : Client M) : Nat → Prop where
  | send {i : Nat} (hpc : c.pc = .send) (h : c.At args i) : Client.Sent args c i
  | recv {i : Nat} (hpc : c.pc = .recv) (h : c.At args i) : Client.Sent args c (i + 1)
  | done (hpc : c.pc = .done) : Client.Sent args c args.numMsgs

theorem Client.turn_last (h : c.numMsgs1 = 0) : (c.turn args).pc = .done := by
  simp [Client.turn, Client.test, h]

theorem Client.turn_next (h : c.numMsgs1 ≠ 0) :
    c.turn args = { c with
      pc := .send
      numMsgs1 := c.numMsgs1 - 1
      dst := args.dslSeq c.dstIdx
      dstIdx := if c.dstIdx + 1 = args.numDsl then 0 else c.dstIdx + 1 } := by
  simp [Client.turn, Client.test, h]

theorem succ_mod {i D : Nat} (hD : 0 < D) :
    (if i % D + 1 = D then 0 else i % D + 1) = (i + 1) % D := by
  have hlt := Nat.mod_lt i hD
  rw [← Nat.mod_add_mod i D 1]
  split
  · rename_i heq
    rw [heq, Nat.mod_self]
  · exact (Nat.mod_eq_of_lt (by omega)).symm

theorem Client.At.sent_turn (h : c.At args i) : (c.turn args).Sent args (i + 1) := by
  have hlt := h.lt
  have hnum := h.numMsgs1
  by_cases hlast : c.numMsgs1 = 0
  · rw [show i + 1 = args.numMsgs by omega]
    exact Client.Sent.done (Client.turn_last hlast)
  · rw [Client.turn_next hlast]
    refine Client.Sent.send rfl ⟨by omega, ?_, ?_, ?_⟩
    · show c.numMsgs1 - 1 = _
      omega
    · rw [h.dstIdx, dstAt, if_neg (Nat.succ_ne_zero i), Nat.add_sub_cancel]
    · rw [h.dstIdx]
      exact succ_mod Procs.numDsl_pos

theorem word0_request (h : c.At args i) : word0 W (c.request W) = args.numMsgs - 1 - i := by
  have hlt := args.numMsgs_lt
  rw [word0, Client.request, W.get_set, h.numMsgs1, Int32.toUInt32_ofNat', UInt32.toNat_ofNat']
  exact Nat.mod_eq_of_lt (by omega)

/-- A client has sent the first messages of its script, and nothing else. -/
structure Progress (args : ClientServerArgs) (W : MsgWords M) (s : State args.Id M (Loc M))
    (p : args.Id) : Prop where
  client : ∀ c, s.loc p = .client c → args.isApp p = true ∧ ∃ i, c.Sent args i ∧
    ∀ d, (s.chan (p, d)).ins.map (word0 W) = script args d.val i
  server : ∀ sv, s.loc p = .server sv → args.isDsl p = true

theorem Client.At.load (h : c.At args i) (m : M) (pc : ClientPc) :
    Client.At args { c with msg := m, pc := pc } i :=
  ⟨h.lt, h.numMsgs1, h.dst, h.dstIdx⟩

theorem Client.Sent.at_send {j : Nat} (h : c.Sent args j) (hpc : c.pc = .send) : c.At args j := by
  cases h with
  | send _ h => exact h
  | recv hpc' _ => simp [hpc] at hpc'
  | done hpc' => simp [hpc] at hpc'

theorem Client.Sent.at_recv {j : Nat} (h : c.Sent args j) (hpc : c.pc = .recv) :
    ∃ i, c.At args i ∧ j = i + 1 := by
  cases h with
  | send hpc' _ => simp [hpc] at hpc'
  | recv _ h => exact ⟨_, h, rfl⟩
  | done hpc' => simp [hpc] at hpc'

theorem Client.Sent.of_done (hpc : c.pc = .done) (hi : args.numMsgs = i) : c.Sent args i := by
  subst hi
  exact Client.Sent.done hpc

/-- Without messages the loop is over at once. -/
theorem Client.Sent.first (m : M) :
    Client.Sent args (Client.test
      { pc := .send, msg := m, numMsgs1 := args.numMsgs, dst := 0, dstIdx := 0 }) 0 := by
  by_cases hzero : args.numMsgs = 0
  · exact Client.Sent.of_done (by simp [Client.test, hzero]) hzero
  · refine Client.Sent.send (by simp [Client.test, hzero]) ⟨by omega, ?_, ?_, ?_⟩
    · simp [Client.test, hzero]
    · simp [Client.test, hzero, dstAt]
    · simp [Client.test, hzero]

theorem Progress.init (h : (network args reply W buf).Init s) (p : args.Id) :
    Progress args W s p := by
  have hloc := h.loc p
  simp only [network, start] at hloc
  refine ⟨?_, ?_⟩
  · intro c hc
    rw [hc] at hloc
    split at hloc
    · cases hloc
    · rename_i hdsl
      cases hloc
      refine ⟨Procs.isApp_iff.2 hdsl, 0, ?_, ?_⟩
      · exact Client.Sent.first (buf p)
      · intro d
        simp [h.chan, script]
  · intro sv hsv
    rw [hsv] at hloc
    split at hloc
    · assumption
    · cases hloc

/-- What other processes do is of no consequence to what a process has sent. -/
theorem Progress.frame (h : Progress args W s p) (hloc : t.loc p = s.loc p)
    (hins : ∀ d, (t.chan (p, d)).ins = (s.chan (p, d)).ins) : Progress args W t p := by
  refine ⟨?_, ?_⟩
  · intro c hc
    rw [hloc] at hc
    rcases h.client c hc with ⟨happ, i, hsent, hmap⟩
    exact ⟨happ, i, hsent, fun d => by rw [hins]; exact hmap d⟩
  · intro sv hsv
    rw [hloc] at hsv
    exact h.server sv hsv

theorem Progress.move {q : args.Id} (h : ∀ p, Progress args W s p) (hmove : Move args reply W s q t)
    (p : args.Id) : Progress args W t p := by
  cases hmove with
  | @send c d hloc hpc hd hfree =>
      by_cases hp : p = q
      · subst hp
        rcases (h p).client c hloc with ⟨happ, i, hsent, hmap⟩
        have hat := hsent.at_send hpc
        refine ⟨?_, ?_⟩
        · intro c' hc'
          rw [goto_loc_self, Loc.client.injEq] at hc'
          refine ⟨happ, i + 1, ?_, ?_⟩
          · rw [← hc']
            split
            · exact (hat.load _ c.pc).sent_turn
            · exact Client.Sent.recv rfl (hat.load _ .recv)
          · intro d'
            rw [goto_chan, ins_write, List.map_append, hmap d', script_succ, ← hat.dst, hd]
            by_cases hd' : d' = d
            · rw [if_pos (by rw [hd']), if_pos (by rw [hd']), List.map_singleton,
                word0_request hat]
            · have hne : d.val ≠ d'.val := fun heq => hd' (Fin.ext heq.symm)
              have hne' : (p, d') ≠ (p, d) := fun heq => hd' (Prod.mk.inj heq).2
              rw [if_neg hne', if_neg hne, List.map_nil]
        · intro sv hsv
          rw [goto_loc_self] at hsv
          cases hsv
      · refine (h p).frame (goto_loc_ne hp) ?_
        intro d'
        rw [goto_chan, ins_write, if_neg fun heq => hp (Prod.mk.inj heq).1, List.append_nil]
  | @recv c d m hloc hpc hd hm =>
      by_cases hp : p = q
      · subst hp
        rcases (h p).client c hloc with ⟨happ, j, hsent, hmap⟩
        rcases hsent.at_recv hpc with ⟨i, hat, rfl⟩
        refine ⟨?_, ?_⟩
        · intro c' hc'
          rw [goto_loc_self, Loc.client.injEq] at hc'
          refine ⟨happ, i + 1, ?_, ?_⟩
          · rw [← hc']
            exact (hat.load m c.pc).sent_turn
          · intro d'
            rw [goto_chan, ins_clear]
            exact hmap d'
        · intro sv hsv
          rw [goto_loc_self] at hsv
          cases hsv
      · exact (h p).frame (goto_loc_ne hp) fun d' => by rw [goto_chan, ins_clear]
  | seek k hloc hpc => exact (h p).frame rfl fun _ => rfl
  | hit k hloc hpc hsrc hm =>
      by_cases hp : p = q
      · subst hp
        refine ⟨?_, ?_⟩
        · intro c' hc'
          rw [goto_loc_self] at hc'
          cases hc'
        · intro sv' _
          exact (h p).server _ hloc
      · exact (h p).frame (goto_loc_ne hp) fun d' => by rw [goto_chan, seek_chan, ins_clear]
  | reply hloc hpc hc hfree =>
      by_cases hp : p = q
      · subst hp
        refine ⟨?_, ?_⟩
        · intro c' hc'
          rw [goto_loc_self] at hc'
          cases hc'
        · intro sv' _
          exact (h p).server _ hloc
      · refine (h p).frame (goto_loc_ne hp) ?_
        intro d'
        rw [goto_chan, ins_write, if_neg fun heq => hp (Prod.mk.inj heq).1, List.append_nil]

theorem progress (h : (network args reply W buf).system.Reachable s) (p : args.Id) :
    Progress args W s p := by
  have hall : ∀ p, Progress args W s p := by
    refine h.invariant (I := fun s => ∀ p, Progress args W s p) ?_ ?_
    · intro s hs
      exact Progress.init hs
    · intro s q t hs hst
      exact Progress.move hs (Move.of_step hst)
  exact hall p

end Progress

/-! ## Requests and replies -/

section Exchange

variable {args : ClientServerArgs} {reply : Reply} {M : Type} {W : MsgWords M}
variable {buf : args.Id → M} {s t : State args.Id M (Loc M)} {p c d : args.Id}

/-- The request whose reply a client waits for from `d`. -/
def Loc.awaits (d : Nat) : Loc M → List M
  | .client c => if c.pc = .recv ∧ c.dst = d then [c.msg] else []
  | .server _ => []

/-- The message that a server is about to send back to `c`. -/
def Loc.serves (c : Nat) : Loc M → List M
  | .client _ => []
  | .server sv => if sv.pc = .reply ∧ sv.sender = c then [sv.msg] else []

theorem Client.pc_turn (c : Client M) :
    (c.turn args).pc = .send ∨ (c.turn args).pc = .done := by
  by_cases hlast : c.numMsgs1 = 0
  · exact Or.inr (Client.turn_last hlast)
  · rw [Client.turn_next hlast]
    exact Or.inl rfl

theorem Server.pc_test (sv : Server M) :
    (sv.test args W).pc = .recv ∨ (sv.test args W).pc = .done := by
  unfold Server.test
  split
  · simp only
    split
    · exact Or.inr rfl
    · exact Or.inl rfl
  · exact Or.inl rfl

theorem awaits_of_pc {c : Client M} (hpc : c.pc ≠ .recv) (d : Nat) :
    Loc.awaits d (.client c) = [] :=
  if_neg fun h => hpc h.1

theorem awaits_turn (c : Client M) (d : Nat) : Loc.awaits d (.client (c.turn args)) = [] := by
  refine awaits_of_pc ?_ d
  rcases @Client.pc_turn args M c with h | h <;> simp [h]

theorem serves_of_pc {sv : Server M} (hpc : sv.pc ≠ .reply) (c : Nat) :
    Loc.serves c (.server sv) = [] :=
  if_neg fun h => hpc h.1

theorem serves_test (sv : Server M) (c : Nat) :
    Loc.serves c (.server (sv.test args W)) = [] := by
  refine serves_of_pc ?_ c
  rcases @Server.pc_test args M W sv with h | h <;> simp [h]

theorem isDsl_dstAt {i : Nat} (h : d.val = dstAt args i) : args.isDsl d = true := by
  have hpos := @Procs.numDsl_pos args.toProcs
  have hserver : ∃ j, j < args.numDsl ∧ d.val = args.dslSeq j := by
    unfold dstAt at h
    split at h
    · exact ⟨0, hpos, h.trans Procs.dslSeq_zero.symm⟩
    · exact ⟨_, Nat.mod_lt _ hpos, h⟩
  rcases hserver with ⟨j, hj, heq⟩
  have hd : d = ⟨args.dslSeq j, Procs.dslSeq_lt hj⟩ := Fin.ext heq
  rw [hd]
  exact Procs.isDsl_dslSeq hj

/-- In the builds with replies a server has answered what it has taken, up to the message that it is
about to send back, and a client has sent what it has had back, up to the request that it waits
for. -/
structure Exchange (args : ClientServerArgs) (reply : Reply) (s : State args.Id M (Loc M)) :
    Prop where
  fifo : ∀ ij, (s.chan ij).Fifo
  asked : reply ≠ .oneWay → ∀ c d, args.isApp c = true → args.isDsl d = true →
    (s.chan (c, d)).ins = (s.chan (d, c)).outs ++ (s.loc c).awaits d.val
  answered : reply ≠ .oneWay → ∀ c d, args.isApp c = true → args.isDsl d = true →
    (s.chan (c, d)).outs = (s.chan (d, c)).ins ++ (s.loc d).serves c.val
  sender : ∀ d sv, s.loc d = .server sv → sv.pc = .reply →
    reply ≠ .oneWay ∧ ∃ c, args.isApp c = true ∧ sv.sender = c.val
  waits : ∀ c cl, s.loc c = .client cl → cl.pc = .recv → reply ≠ .oneWay

/-- The request that a client waits for is its reply on the way back, or with the server, or on its
way there. -/
theorem Exchange.awaits_eq (h : Exchange args reply s) (hreply : reply ≠ .oneWay)
    (hc : args.isApp c = true) (hd : args.isDsl d = true) :
    (s.loc c).awaits d.val = (s.chan (d, c)).place.toList ++ (s.loc d).serves c.val ++
      (s.chan (c, d)).place.toList := by
  have hasked := h.asked hreply c d hc hd
  have hto : (s.chan (c, d)).ins = (s.chan (c, d)).outs ++ (s.chan (c, d)).place.toList :=
    h.fifo (c, d)
  have hback : (s.chan (d, c)).ins = (s.chan (d, c)).outs ++ (s.chan (d, c)).place.toList :=
    h.fifo (d, c)
  rw [hto, h.answered hreply c d hc hd, hback] at hasked
  simpa [List.append_assoc] using hasked.symm

theorem length_awaits (l : Loc M) (d : Nat) : (l.awaits d).length ≤ 1 := by
  cases l with
  | client c =>
      simp only [Loc.awaits]
      split <;> simp
  | server sv => simp [Loc.awaits]

/-- A server that is about to reply finds nothing in the slot to its client. -/
theorem Exchange.reply_free (h : Exchange args reply s) {sv : Server M} (hd : args.isDsl d = true)
    (hloc : s.loc d = .server sv) (hpc : sv.pc = .reply) (hsender : sv.sender = c.val) :
    (s.chan (d, c)).place = none := by
  rcases h.sender d sv hloc hpc with ⟨hreply, c', hc', heq⟩
  have hcc : c' = c := Fin.ext (heq.symm.trans hsender)
  subst hcc
  have hlen := length_awaits (s.loc c') d.val
  have hserves : (s.loc d).serves c'.val = [sv.msg] := by
    rw [hloc]
    exact if_pos ⟨hpc, hsender⟩
  rw [h.awaits_eq hreply hc' hd, hserves] at hlen
  cases hplace : (s.chan (d, c')).place with
  | none => rfl
  | some m =>
      rw [hplace] at hlen
      simp at hlen

theorem Exchange.init (h : (network args reply W buf).Init s) : Exchange args reply s where
  fifo := h.fifo
  asked _ c d hc hd := by
    have hloc := h.loc c
    simp only [network, start, if_neg (Procs.isApp_iff.1 hc)] at hloc
    rw [h.chan, h.chan, hloc, OnePlace.empty_ins, OnePlace.empty_outs, List.nil_append]
    refine (awaits_of_pc ?_ _).symm
    unfold Client.test
    split <;> simp
  answered _ c d hc hd := by
    have hloc := h.loc d
    simp only [network, start, if_pos hd] at hloc
    rw [h.chan, h.chan, hloc]
    simp [Loc.serves]
  sender d sv hsv hpc := by
    have hloc := h.loc d
    simp only [network, start, hsv] at hloc
    split at hloc
    · cases hloc
      cases hpc
    · cases hloc
  waits c cl hcl hpc := by
    have hloc := h.loc c
    simp only [network, start, hcl] at hloc
    split at hloc
    · cases hloc
    · cases hloc
      unfold Client.test at hpc
      split at hpc <;> cases hpc

theorem Exchange.send (h : Exchange args reply s) (hp : args.isApp p = true) {cl : Client M}
    (hloc : s.loc p = .client cl) (hpc : cl.pc = .send) (hd : cl.dst = d.val)
    (hfree : (s.chan (p, d)).place = none) :
    Exchange args reply ((s.onChan (p, d) (.write (cl.request W))).goto p
      (.client (if reply = .oneWay then Client.turn args { cl with msg := cl.request W }
        else { cl with msg := cl.request W, pc := .recv }))) := by
  have hother : ∀ {q}, args.isDsl q = true → q ≠ p := fun hq heq => Procs.ne_of_isApp hp hq heq.symm
  refine ⟨?_, ?_, ?_, ?_, ?_⟩
  · exact fifo_onChan h.fifo ((h.fifo _).write hfree)
  · intro hreply c' d' hc' hd'
    rw [goto_chan, ins_write, outs_write, h.asked hreply c' d' hc' hd', List.append_assoc]
    by_cases hcp : c' = p
    · -- the request is what the client waits for
      subst hcp
      rw [hloc, awaits_of_pc (by simp [hpc]), List.nil_append, goto_loc_self, if_neg hreply]
      by_cases hdd : d' = d
      · simp [hdd, Loc.awaits, hd]
      · have hne : d ≠ d' := Ne.symm hdd
        simp [hdd, Loc.awaits, hd, Fin.val_inj, hne]
    · rw [goto_loc_ne hcp, if_neg fun heq => hcp (Prod.mk.inj heq).1, List.append_nil, onChan_loc]
  · intro hreply c' d' hc' hd'
    rw [goto_chan, outs_write, ins_write, if_neg fun heq => hother hd' (Prod.mk.inj heq).1,
      List.append_nil, goto_loc_ne (hother hd')]
    exact h.answered hreply c' d' hc' hd'
  · intro d' sv hsv hpc'
    have hloc' : s.loc d' = .server sv := loc_of_goto hsv (by simp)
    exact h.sender d' sv hloc' hpc'
  · intro c' cl' hcl' hpc'
    by_cases hcp : c' = p
    · subst hcp
      rw [goto_loc_self, Loc.client.injEq] at hcl'
      by_cases hreply : reply = .oneWay
      · rw [if_pos hreply] at hcl'
        rcases @Client.pc_turn args M { cl with msg := cl.request W } with hturn | hturn <;>
          · rw [hcl', hpc'] at hturn
            cases hturn
      · exact hreply
    · rw [goto_loc_ne hcp] at hcl'
      exact h.waits c' cl' hcl' hpc'

theorem Exchange.recv (h : Exchange args reply s) (hp : args.isApp p = true)
    (hdsl : args.isDsl d = true) {cl : Client M} {m : M} (hloc : s.loc p = .client cl)
    (hpc : cl.pc = .recv) (hd : cl.dst = d.val) (hm : (s.chan (d, p)).place = some m) :
    Exchange args reply ((s.onChan (d, p) (.clear m)).goto p
      (.client (Client.turn args { cl with msg := m }))) := by
  have hother : ∀ {q}, args.isDsl q = true → q ≠ p := fun hq heq => Procs.ne_of_isApp hp hq heq.symm
  refine ⟨?_, ?_, ?_, ?_, ?_⟩
  · exact fifo_onChan h.fifo ((h.fifo _).clear hm)
  · intro hreply c' d' hc' hd'
    rw [goto_chan, ins_clear, outs_clear, h.asked hreply c' d' hc' hd', List.append_assoc]
    by_cases hcp : c' = p
    · subst hcp
      rw [goto_loc_self, awaits_turn, List.append_nil]
      by_cases hdd : d' = d
      · -- what comes back is the request
        subst hdd
        have hawaits := h.awaits_eq hreply hp hdsl
        rw [hm, hloc] at hawaits
        rw [hloc]
        have hmsg : Loc.awaits d'.val (.client cl) = [cl.msg] := if_pos ⟨hpc, hd⟩
        rw [hmsg] at hawaits
        rw [hmsg]
        simp only [Option.toList_some, List.cons_append, List.cons.injEq] at hawaits
        simp [hawaits.1]
      · have hnone : Loc.awaits d'.val (s.loc c') = [] := by
          rw [hloc]
          exact if_neg fun hboth => hdd (Fin.ext (hboth.2.symm.trans hd))
        rw [hnone, if_neg fun heq => hdd (Prod.mk.inj heq).1]
    · rw [goto_loc_ne hcp, if_neg fun heq => hcp (Prod.mk.inj heq).2, List.nil_append, onChan_loc]
  · intro hreply c' d' hc' hd'
    have hne : (c', d') ≠ (d, p) := fun heq => hother hd' (Prod.mk.inj heq).2
    rw [goto_chan, outs_clear, ins_clear, if_neg hne, List.append_nil, goto_loc_ne (hother hd')]
    exact h.answered hreply c' d' hc' hd'
  · intro d' sv hsv hpc'
    have hloc' : s.loc d' = .server sv := loc_of_goto hsv (by simp)
    exact h.sender d' sv hloc' hpc'
  · intro c' cl' hcl' hpc'
    by_cases hcp : c' = p
    · exact h.waits p cl hloc hpc
    · rw [goto_loc_ne hcp] at hcl'
      exact h.waits c' cl' hcl' hpc'

theorem Exchange.hit (h : Exchange args reply s) (hp : args.isDsl p = true) (hc : args.isApp c = true)
    {sv : Server M} {m : M} (k : Nat) (hloc : s.loc p = .server sv) (hpc : sv.pc = .recv)
    (hm : (s.chan (c, p)).place = some m) :
    Exchange args reply (((s.onChan (c, p) (.clear m)).seek p k).goto p
      (.server (if reply = .oneWay then (sv.took c.val m).test args W
        else { sv.took c.val m with pc := .reply }))) := by
  have hother : ∀ {q}, args.isApp q = true → q ≠ p := fun hq heq => Procs.ne_of_isApp hq hp heq
  refine ⟨?_, ?_, ?_, ?_, ?_⟩
  · exact fifo_onChan h.fifo ((h.fifo _).clear hm)
  · intro hreply c' d' hc' hd'
    have hne : (d', c') ≠ (c, p) := fun heq => hother hc' (Prod.mk.inj heq).2
    rw [goto_chan, seek_chan, ins_clear, outs_clear, if_neg hne, List.append_nil,
      goto_loc_ne (hother hc'), seek_loc, onChan_loc]
    exact h.asked hreply c' d' hc' hd'
  · intro hreply c' d' hc' hd'
    rw [goto_chan, seek_chan, ins_clear, outs_clear, h.answered hreply c' d' hc' hd',
      List.append_assoc]
    by_cases hdp : d' = p
    · subst hdp
      rw [hloc, serves_of_pc (by simp [hpc]), List.nil_append, goto_loc_self, if_neg hreply]
      by_cases hcc : c' = c
      · simp [hcc, Loc.serves, Server.took]
      · have hne : c ≠ c' := Ne.symm hcc
        simp [hcc, Loc.serves, Server.took, Fin.val_inj, hne]
    · rw [goto_loc_ne hdp, if_neg fun heq => hdp (Prod.mk.inj heq).2, List.append_nil, seek_loc,
        onChan_loc]
  · intro d' sv' hsv' hpc'
    by_cases hdp : d' = p
    · subst hdp
      rw [goto_loc_self, Loc.server.injEq] at hsv'
      by_cases hreply : reply = .oneWay
      · rw [if_pos hreply] at hsv'
        rcases @Server.pc_test args M W (sv.took c.val m) with htest | htest <;>
          · rw [hsv', hpc'] at htest
            cases htest
      · rw [if_neg hreply] at hsv'
        exact ⟨hreply, c, hc, by rw [← hsv']; rfl⟩
    · rw [goto_loc_ne hdp] at hsv'
      exact h.sender d' sv' hsv' hpc'
  · intro c' cl' hcl' hpc'
    have hloc' : s.loc c' = .client cl' := loc_of_goto hcl' (by simp)
    exact h.waits c' cl' hloc' hpc'

theorem Exchange.answer (h : Exchange args reply s) (hp : args.isDsl p = true) {sv : Server M}
    (hloc : s.loc p = .server sv) (hpc : sv.pc = .reply) (hc : sv.sender = c.val) :
    Exchange args reply ((s.onChan (p, c) (.write sv.msg)).goto p (.server (sv.test args W))) := by
  have hother : ∀ {q}, args.isApp q = true → q ≠ p := fun hq heq => Procs.ne_of_isApp hq hp heq
  refine ⟨?_, ?_, ?_, ?_, ?_⟩
  · exact fifo_onChan h.fifo ((h.fifo _).write (h.reply_free hp hloc hpc hc))
  · intro hreply c' d' hc' hd'
    have hne : (c', d') ≠ (p, c) := fun heq => hother hc' (Prod.mk.inj heq).1
    rw [goto_chan, ins_write, outs_write, if_neg hne, List.append_nil, goto_loc_ne (hother hc'),
      onChan_loc]
    exact h.asked hreply c' d' hc' hd'
  · intro hreply c' d' hc' hd'
    rw [goto_chan, ins_write, outs_write, h.answered hreply c' d' hc' hd', List.append_assoc]
    by_cases hdp : d' = p
    · -- what was about to be sent has been sent
      subst hdp
      rw [goto_loc_self, serves_test, List.append_nil, hloc]
      by_cases hcc : c' = c
      · simp [hcc, Loc.serves, hpc, hc]
      · have hne : c ≠ c' := Ne.symm hcc
        simp [hcc, Loc.serves, hc, Fin.val_inj, hne]
    · rw [goto_loc_ne hdp, if_neg fun heq => hdp (Prod.mk.inj heq).1, List.nil_append, onChan_loc]
  · intro d' sv' hsv' hpc'
    by_cases hdp : d' = p
    · subst hdp
      rw [goto_loc_self, Loc.server.injEq] at hsv'
      rcases @Server.pc_test args M W sv with htest | htest <;>
        · rw [hsv', hpc'] at htest
          cases htest
    · rw [goto_loc_ne hdp] at hsv'
      exact h.sender d' sv' hsv' hpc'
  · intro c' cl' hcl' hpc'
    have hloc' : s.loc c' = .client cl' := loc_of_goto hcl' (by simp)
    exact h.waits c' cl' hloc' hpc'

theorem Exchange.move {q : args.Id} (h : Exchange args reply s) (hprog : Progress args W s q)
    (hmove : Move args reply W s q t) : Exchange args reply t := by
  cases hmove with
  | send hloc hpc hd hfree => exact h.send (hprog.client _ hloc).1 hloc hpc hd hfree
  | recv hloc hpc hd hm =>
      rcases hprog.client _ hloc with ⟨happ, j, hsent, _⟩
      rcases hsent.at_recv hpc with ⟨i, hat, _⟩
      exact h.recv happ (isDsl_dstAt (hd.symm.trans hat.dst)) hloc hpc hd hm
  | seek k hloc hpc => exact ⟨h.fifo, h.asked, h.answered, h.sender, h.waits⟩
  | hit k hloc hpc hsrc hm =>
      have hdsl := hprog.server _ hloc
      exact h.hit hdsl ((Procs.mem_cbuf hdsl).1 hsrc) k hloc hpc hm
  | reply hloc hpc hc hfree => exact h.answer (hprog.server _ hloc) hloc hpc hc

theorem exchange (h : (network args reply W buf).system.Reachable s) : Exchange args reply s := by
  induction h with
  | init h0 => exact Exchange.init h0
  | step hr hst ih => exact ih.move (progress hr _) (Move.of_step hst)

end Exchange

/-! ## The count of a server -/

section Count

variable {args : ClientServerArgs} {reply : Reply} {M : Type} {W : MsgWords M}
variable {buf : args.Id → M} {s t : State args.Id M (Loc M)} {p c d : args.Id} {sv : Server M}
variable {total : Nat}

/-- How many messages have a number that the exit test counts. -/
def ends (args : ClientServerArgs) (W : MsgWords M) (msgs : List M) : Nat :=
  msgs.countP fun m => word0 W m < args.numDsl

/-- How many of the messages that `d` has taken the exit test counts. -/
def taken (W : MsgWords M) (s : State args.Id M (Loc M)) (d : args.Id) : Nat :=
  ∑ c ∈ Finset.univ.filter fun c => args.isApp c = true, ends args W (s.chan (c, d)).outs

/-- Of `total` messages the server has still to count the one that it is about to send back; it is in
its loop as long as some are missing. -/
structure Counts (args : ClientServerArgs) (W : MsgWords M) (total : Nat) (sv : Server M) :
    Prop where
  pos : sv.pc = .done ∧ sv.numZeros.toNat = 0 ∨ sv.pc ≠ .done ∧ 0 < sv.numZeros.toNat
  sum : sv.numZeros.toNat + total =
    args.numApp + if sv.pc = .reply then ends args W [sv.msg] else 0

theorem ends_append (msgs msgs' : List M) :
    ends args W (msgs ++ msgs') = ends args W msgs + ends args W msgs' :=
  List.countP_append

theorem ends_singleton (m : M) :
    ends args W [m] = if word0 W m < args.numDsl then 1 else 0 := by
  simp [ends, List.countP_singleton]

theorem Counts.took (h : Counts args W total sv) (hpc : sv.pc = .recv) (src : Nat) (m : M) :
    Counts args W (total + ends args W [m]) { sv.took src m with pc := .reply } := by
  have hsum := h.sum
  rw [if_neg (by simp [hpc])] at hsum
  rcases h.pos with ⟨hdone, _⟩ | ⟨_, hpos⟩
  · rw [hpc] at hdone
    cases hdone
  · refine ⟨Or.inr ⟨by simp, hpos⟩, ?_⟩
    show sv.numZeros.toNat + (total + ends args W [m]) = args.numApp + ends args W [m]
    omega

theorem Counts.test (h : Counts args W total sv) (hpc : sv.pc = .reply) :
    Counts args W total (sv.test args W) := by
  have hsum := h.sum
  rw [if_pos hpc, ends_singleton] at hsum
  have hpos : 0 < sv.numZeros.toNat := by
    rcases h.pos with ⟨hdone, _⟩ | ⟨_, hpos⟩
    · rw [hpc] at hdone
      cases hdone
    · exact hpos
  by_cases hend : word0 W sv.msg < args.numDsl
  · rw [if_pos hend] at hsum
    have hpred : (sv.numZeros - 1).toNat = sv.numZeros.toNat - 1 :=
      UInt32.toNat_sub_of_le _ _ (UInt32.le_iff_toNat_le.2 hpos)
    by_cases hlast : sv.numZeros - 1 = 0
    · have hzero : sv.numZeros.toNat - 1 = 0 := by rw [← hpred, hlast]; rfl
      have htest : sv.test args W = { sv with pc := .done, numZeros := sv.numZeros - 1 } := by
        simp [Server.test, hend, hlast]
      rw [htest]
      refine ⟨Or.inl ⟨rfl, hpred.trans hzero⟩, ?_⟩
      show (sv.numZeros - 1).toNat + total = args.numApp + 0
      omega
    · have hne : sv.numZeros.toNat - 1 ≠ 0 := by
        intro hzero
        exact hlast (UInt32.toNat_inj.1 (hpred.trans hzero))
      have htest : sv.test args W = { sv with pc := .recv, numZeros := sv.numZeros - 1 } := by
        simp [Server.test, hend, hlast]
      rw [htest]
      refine ⟨Or.inr ⟨by simp, ?_⟩, ?_⟩
      · show 0 < (sv.numZeros - 1).toNat
        omega
      · show (sv.numZeros - 1).toNat + total = args.numApp + 0
        omega
  · rw [if_neg hend] at hsum
    have htest : sv.test args W = { sv with pc := .recv } := by simp [Server.test, hend]
    rw [htest]
    refine ⟨Or.inr ⟨by simp, hpos⟩, ?_⟩
    show sv.numZeros.toNat + total = args.numApp + 0
    omega

/-- The test does not look at where the server is. -/
theorem Server.test_pc (sv : Server M) (pc : ServerPc) :
    Server.test args W { sv with pc := pc } = sv.test args W := by
  simp [Server.test]

theorem taken_goto {l : Loc M} : taken W (s.goto p l) d = taken W s d := rfl

theorem taken_seek {k : Nat} : taken W (s.seek p k) d = taken W s d := rfl

theorem taken_write {m : M} {pq : args.Id × args.Id} :
    taken W (s.onChan pq (.write m)) d = taken W s d := by
  simp [taken]

theorem taken_clear {m : M} (hc : args.isApp c = true) :
    taken W (s.onChan (c, p) (.clear m)) d =
      taken W s d + if d = p then ends args W [m] else 0 := by
  have hone : ∀ c' ∈ Finset.univ.filter fun c' : args.Id => args.isApp c' = true,
      ends args W ((s.onChan (c, p) (.clear m)).chan (c', d)).outs =
        ends args W (s.chan (c', d)).outs +
          if c' = c then (if d = p then ends args W [m] else 0) else 0 := by
    intro c' _
    rw [outs_clear, ends_append]
    by_cases hcc : c' = c
    · by_cases hdp : d = p
      · simp [hcc, hdp]
      · simp [hcc, hdp, ends]
    · simp [hcc, ends]
  rw [taken, Finset.sum_congr rfl hone, Finset.sum_add_distrib, Finset.sum_ite_eq', taken,
    if_pos (Finset.mem_filter.2 ⟨Finset.mem_univ c, hc⟩)]

theorem taken_clear_dsl {m : M} (hdsl : args.isDsl c = true) :
    taken W (s.onChan (c, p) (.clear m)) d = taken W s d := by
  refine Finset.sum_congr rfl ?_
  intro c' hc'
  have hne : (c', d) ≠ (c, p) := fun heq =>
    Procs.ne_of_isApp (Finset.mem_filter.1 hc').2 hdsl (Prod.mk.inj heq).1
  rw [onChan_chan_ne hne]

theorem Counts.init (h : (network args reply W buf).Init s) (hloc : s.loc d = .server sv) :
    Counts args W (taken W s d) sv := by
  have hstart := h.loc d
  simp only [network, start, hloc] at hstart
  have hle : args.numApp < 256 := UInt8.toNat_lt _
  have hnum : (UInt32.ofNat args.numApp).toNat = args.numApp := by
    rw [UInt32.toNat_ofNat']
    exact Nat.mod_eq_of_lt (by omega)
  have hzero : taken W s d = 0 := by
    refine Finset.sum_eq_zero ?_
    intro c _
    rw [h.chan]
    rfl
  have hpos : 0 < args.numApp := by
    rw [Procs.numApp_eq]
    exact Finset.card_pos.2 ⟨_, Finset.mem_filter.2 ⟨Finset.mem_univ _, Procs.isApp_one⟩⟩
  split at hstart
  · cases hstart
    refine ⟨Or.inr ⟨by simp, ?_⟩, ?_⟩
    · show 0 < (UInt32.ofNat args.numApp).toNat
      omega
    · show (UInt32.ofNat args.numApp).toNat + _ = args.numApp + 0
      omega
  · cases hstart

theorem Counts.move {q : args.Id} (h : ∀ d sv, s.loc d = .server sv → Counts args W (taken W s d) sv)
    (hprog : Progress args W s q) (hmove : Move args reply W s q t)
    (d : args.Id) (sv : Server M) (hloc : t.loc d = .server sv) :
    Counts args W (taken W t d) sv := by
  cases hmove with
  | send hlocq hpc hd hfree =>
      rw [taken_goto, taken_write]
      exact h d sv (loc_of_goto hloc (by simp))
  | recv hlocq hpc hd hm =>
      rcases hprog.client _ hlocq with ⟨_, j, hsent, _⟩
      rcases hsent.at_recv hpc with ⟨i, hat, _⟩
      rw [taken_goto, taken_clear_dsl (isDsl_dstAt (hd.symm.trans hat.dst))]
      exact h d sv (loc_of_goto hloc (by simp))
  | seek k hlocq hpc => exact h d sv hloc
  | @hit sv₀ src m k hlocq hpc hsrc hm =>
      have hdsl := hprog.server _ hlocq
      rw [taken_goto, taken_seek, taken_clear ((Procs.mem_cbuf hdsl).1 hsrc)]
      by_cases hdq : d = q
      · subst hdq
        rw [goto_loc_self, Loc.server.injEq] at hloc
        have htook := (h d _ hlocq).took hpc src.val m
        rw [if_pos rfl, ← hloc]
        split
        · rw [← Server.test_pc _ .reply]
          exact htook.test rfl
        · exact htook
      · rw [goto_loc_ne hdq] at hloc
        rw [if_neg hdq, Nat.add_zero]
        exact h d sv hloc
  | reply hlocq hpc hc hfree =>
      rw [taken_goto, taken_write]
      by_cases hdq : d = q
      · subst hdq
        rw [goto_loc_self, Loc.server.injEq] at hloc
        rw [← hloc]
        exact (h d _ hlocq).test hpc
      · rw [goto_loc_ne hdq] at hloc
        exact h d sv hloc

theorem counts (h : (network args reply W buf).system.Reachable s) (hloc : s.loc d = .server sv) :
    Counts args W (taken W s d) sv := by
  have hall : ∀ d sv, s.loc d = .server sv → Counts args W (taken W s d) sv := by
    clear hloc
    induction h with
    | init h0 => exact fun d sv hloc => Counts.init h0 hloc
    | step hr hst ih => exact Counts.move ih (progress hr _) (Move.of_step hst)
  exact hall d sv hloc

/-! ## What a server has had -/

theorem Client.Sent.le {cl : Client M} {i : Nat} (h : cl.Sent args i) : i ≤ args.numMsgs := by
  cases h with
  | send _ h => exact Nat.le_of_lt h.lt
  | recv _ h => exact h.lt
  | done _ => exact Nat.le_refl _

theorem exists_client (h : (network args reply W buf).system.Reachable s)
    (hc : args.isApp c = true) : ∃ cl, s.loc c = .client cl := by
  cases hloc : s.loc c with
  | client cl => exact ⟨cl, rfl⟩
  | server sv => exact absurd ((progress h c).server sv hloc) (Procs.isApp_iff.1 hc)

theorem exists_server (h : (network args reply W buf).system.Reachable s)
    (hd : args.isDsl d = true) : ∃ sv, s.loc d = .server sv := by
  cases hloc : s.loc d with
  | client cl => exact absurd hd (Procs.isApp_iff.1 ((progress h d).client cl hloc).1)
  | server sv => exact ⟨sv, rfl⟩

/-- A client has sent the first messages of its script, and all of them when it is done. -/
theorem sent_script (h : (network args reply W buf).system.Reachable s)
    (hc : args.isApp c = true) (d : args.Id) :
    (s.chan (c, d)).ins.map (word0 W) <+: script args d.val args.numMsgs ∧
      ∀ cl, s.loc c = .client cl → cl.pc = .done →
        (s.chan (c, d)).ins.map (word0 W) = script args d.val args.numMsgs := by
  rcases exists_client h hc with ⟨cl, hloc⟩
  rcases (progress h c).client cl hloc with ⟨_, i, hsent, hmap⟩
  refine ⟨?_, ?_⟩
  · rw [hmap d]
    exact script_prefix hsent.le
  · intro cl' hloc' hpc
    rw [hloc, Loc.client.injEq] at hloc'
    subst hloc'
    rw [hmap d]
    cases hsent with
    | send hpc' _ => simp [hpc] at hpc'
    | recv hpc' _ => simp [hpc] at hpc'
    | done _ => rfl

section More

variable (hmsgs : args.numDsl < args.numMsgs)

include hmsgs

/-- The exit test has counted one message of a client from which everything has been taken, and none
of another. -/
theorem ends_cases (h : (network args reply W buf).system.Reachable s)
    (hc : args.isApp c = true) (hd : args.isDsl d = true) :
    ((s.chan (c, d)).outs.map (word0 W) = script args d.val args.numMsgs ∧
        ends args W (s.chan (c, d)).outs = 1) ∨
      ((s.chan (c, d)).outs.map (word0 W) ≠ script args d.val args.numMsgs ∧
        ends args W (s.chan (c, d)).outs = 0) := by
  rcases script_last hmsgs d.isLt hd with ⟨pre, v, hscript, hv, hpre⟩
  have hprefix : (s.chan (c, d)).outs.map (word0 W) <+: pre ++ [v] := by
    rw [← hscript]
    exact ((exchange h).fifo (c, d)).outs_isPrefix.map _ |>.trans (sent_script h hc d).1
  have hends : ends args W (s.chan (c, d)).outs =
      ((s.chan (c, d)).outs.map (word0 W)).countP fun x => x < args.numDsl := by
    rw [List.countP_map]
    rfl
  have hnone : ∀ xs, xs <+: pre → (xs.countP fun x => x < args.numDsl) = 0 := by
    intro xs hxs
    refine List.countP_eq_zero.2 ?_
    intro x hx
    have := hpre x (hxs.subset hx)
    simpa using this
  rw [hends, hscript]
  rcases List.prefix_concat_iff.1 hprefix with heq | hxs
  · refine Or.inl ⟨heq, ?_⟩
    rw [heq, List.countP_append, hnone pre (List.prefix_refl _), List.countP_singleton]
    simp [hv]
  · refine Or.inr ⟨?_, hnone _ hxs⟩
    intro heq
    have := hxs.length_le
    rw [heq] at this
    simp at this

/-- A server that has left its loop has had everything. -/
theorem complete_of_done (h : (network args reply W buf).system.Reachable s)
    (hloc : s.loc d = .server sv) (hpc : sv.pc = .done) (hc : args.isApp c = true) :
    (s.chan (c, d)).outs.map (word0 W) = script args d.val args.numMsgs := by
  have hd := (progress h d).server sv hloc
  have hcount := counts h hloc
  have htaken : taken W s d = args.numApp := by
    have hsum := hcount.sum
    rw [if_neg (by simp [hpc])] at hsum
    rcases hcount.pos with ⟨_, hzero⟩ | ⟨hne, _⟩
    · omega
    · exact absurd hpc hne
  rcases ends_cases hmsgs h hc hd with ⟨heq, _⟩ | ⟨_, hzero⟩
  · exact heq
  · -- one message for each of the others is not enough
    have hlt : taken W s d < ∑ c ∈ Finset.univ.filter fun c : args.Id => args.isApp c = true, 1 := by
      refine Finset.sum_lt_sum ?_ ⟨c, Finset.mem_filter.2 ⟨Finset.mem_univ c, hc⟩, by omega⟩
      intro c' hc'
      rcases ends_cases hmsgs h (Finset.mem_filter.1 hc').2 hd with ⟨_, hone⟩ | ⟨_, hzero'⟩ <;> omega
    rw [← Finset.card_eq_sum_ones, ← Procs.numApp_eq] at hlt
    omega

/-- A server in its loop misses something of some client. -/
theorem exists_missing (h : (network args reply W buf).system.Reachable s)
    (hloc : s.loc d = .server sv) (hpc : sv.pc = .recv) :
    ∃ c, args.isApp c = true ∧
      (s.chan (c, d)).outs.map (word0 W) ≠ script args d.val args.numMsgs := by
  have hd := (progress h d).server sv hloc
  have hcount := counts h hloc
  by_contra hnone
  have hall : taken W s d = ∑ c ∈ Finset.univ.filter fun c : args.Id => args.isApp c = true, 1 := by
    refine Finset.sum_congr rfl ?_
    intro c hc
    have happ := (Finset.mem_filter.1 hc).2
    rcases ends_cases hmsgs h happ hd with ⟨_, hone⟩ | ⟨hne, _⟩
    · exact hone
    · exact absurd ⟨c, happ, hne⟩ hnone
  rw [← Finset.card_eq_sum_ones, ← Procs.numApp_eq] at hall
  have hsum := hcount.sum
  rw [if_neg (by simp [hpc])] at hsum
  rcases hcount.pos with ⟨hdone, _⟩ | ⟨_, hpos⟩
  · rw [hpc] at hdone
    cases hdone
  · omega

omit hmsgs in
/-- A server that has had everything from `c` has nothing of `c` in its slot. -/
theorem place_of_complete (h : (network args reply W buf).system.Reachable s)
    (hc : args.isApp c = true)
    (hall : (s.chan (c, d)).outs.map (word0 W) = script args d.val args.numMsgs) :
    (s.chan (c, d)).place = none := by
  have hfifo := (exchange h).fifo (c, d)
  have hlen := (sent_script h hc d).1.length_le
  rw [← hall, List.length_map, List.length_map] at hlen
  exact hfifo.place_eq_none.2 (hfifo.outs_isPrefix.eq_of_length_le hlen).symm

/-! ## Nobody is stuck -/

omit hmsgs in
/-- A server that is about to reply can do so. -/
theorem reply_ready (h : (network args reply W buf).system.Reachable s)
    (hloc : s.loc d = .server sv) (hpc : sv.pc = .reply) :
    (network args reply W buf).Ready s d := by
  rcases (exchange h).sender d sv hloc hpc with ⟨_, c, _, hsender⟩
  have hfree := (exchange h).reply_free ((progress h d).server sv hloc) hloc hpc hsender
  simp only [Network.Ready, network, hloc, next, Server.next, hpc, hsender, Procs.atId_val]
  by_cases hreply : reply = .noSync
  · simp [hreply]
  · simpa [hreply] using hfree

/-- A server for which a message is waiting has something to do. -/
theorem server_ready (h : (network args reply W buf).system.Reachable s)
    (hc : args.isApp c = true) (hd : args.isDsl d = true)
    (hplace : (s.chan (c, d)).place ≠ none) : (network args reply W buf).Ready s d := by
  rcases exists_server h hd with ⟨sv, hloc⟩
  cases hpc : sv.pc with
  | recv =>
      simp only [Network.Ready, network, hloc, next, Server.next, hpc]
      exact ⟨c, (Procs.mem_cbuf hd).2 hc, hplace⟩
  | reply => exact reply_ready h hloc hpc
  | done =>
      exact absurd (place_of_complete h hc (complete_of_done hmsgs h hloc hpc hc)) hplace

/-- A client that is not done has something to do, or a server has. -/
theorem client_ready (h : (network args reply W buf).system.Reachable s)
    (hc : args.isApp c = true) {cl : Client M} (hloc : s.loc c = .client cl) (hpc : cl.pc ≠ .done) :
    ∃ p, (network args reply W buf).Ready s p := by
  rcases (progress h c).client cl hloc with ⟨_, j, hsent, _⟩
  have hat : ∃ i, cl.At args i := by
    cases hsent with
    | send _ h => exact ⟨_, h⟩
    | recv _ h => exact ⟨_, h⟩
    | done hpc' => exact absurd hpc' hpc
  rcases hat with ⟨i, hat⟩
  have hlt : cl.dst < args.numProcs := by
    have hpos := @Procs.numDsl_pos args.toProcs
    rw [hat.dst, dstAt]
    split
    · exact Nat.lt_of_lt_of_le (by decide) args.two_le_numProcs
    · exact Procs.dslSeq_lt (Nat.mod_lt _ hpos)
  have hd : cl.dst = (⟨cl.dst, hlt⟩ : args.Id).val := rfl
  generalize (⟨cl.dst, hlt⟩ : args.Id) = d at hd
  have hdsl : args.isDsl d = true := isDsl_dstAt (hd.symm.trans hat.dst)
  cases hpc' : cl.pc with
  | send =>
      cases hplace : (s.chan (c, d)).place with
      | none =>
          refine ⟨c, ?_⟩
          simp only [Network.Ready, network, hloc, next, Client.next, hpc', hd, Procs.atId_val]
          exact hplace
      | some m => exact ⟨d, server_ready hmsgs h hc hdsl (by simp [hplace])⟩
  | recv =>
      -- the request is somewhere on its way
      have hreply := (exchange h).waits c cl hloc hpc'
      have hawaits := (exchange h).awaits_eq hreply hc hdsl
      have hmsg : (s.loc c).awaits d.val = [cl.msg] := by
        rw [hloc]
        exact if_pos ⟨hpc', hd⟩
      rw [hmsg] at hawaits
      cases hback : (s.chan (d, c)).place with
      | some m =>
          refine ⟨c, ?_⟩
          simp only [Network.Ready, network, hloc, next, Client.next, hpc', hd, Procs.atId_val]
          simp [hback]
      | none =>
          cases hto : (s.chan (c, d)).place with
          | some m => exact ⟨d, server_ready hmsgs h hc hdsl (by simp [hto])⟩
          | none =>
              rw [hback, hto] at hawaits
              rcases exists_server h hdsl with ⟨sv, hsv⟩
              rw [hsv] at hawaits
              by_cases hserve : sv.pc = .reply ∧ sv.sender = c.val
              · exact ⟨d, reply_ready h hsv hserve.1⟩
              · simp [Loc.serves, hserve] at hawaits
  | done => exact absurd hpc' hpc

/-- As long as some process has not left its loop, some process has something to do. -/
theorem ready_or_done (h : (network args reply W buf).system.Reachable s) :
    (∀ p, (network args reply W buf).next p (s.loc p) = .stop) ∨
      ∃ p, (network args reply W buf).Ready s p := by
  by_cases hclients : ∀ c cl, s.loc c = .client cl → cl.pc = .done
  · by_cases hservers : ∀ d sv, s.loc d = .server sv → sv.pc = .done
    · refine Or.inl ?_
      intro p
      cases hloc : s.loc p with
      | client cl => simp [network, next, Client.next, hclients p cl hloc]
      | server sv => simp [network, next, Server.next, hservers p sv hloc]
    · refine Or.inr ?_
      push Not at hservers
      rcases hservers with ⟨d, sv, hloc, hpc⟩
      have hdsl := (progress h d).server sv hloc
      cases hpc' : sv.pc with
      | recv =>
          -- the missing message is in the slot, as its client is done
          rcases exists_missing hmsgs h hloc hpc' with ⟨c, hc, hne⟩
          rcases exists_client h hc with ⟨cl, hcl⟩
          refine ⟨d, server_ready hmsgs h hc hdsl ?_⟩
          intro hplace
          refine hne ?_
          rw [← ((exchange h).fifo (c, d)).ins_eq hplace]
          exact (sent_script h hc d).2 cl hcl (hclients c cl hcl)
      | reply => exact ⟨d, reply_ready h hloc hpc'⟩
      | done => exact absurd hpc' hpc
  · refine Or.inr ?_
    push Not at hclients
    rcases hclients with ⟨c, cl, hloc, hpc⟩
    exact client_ready hmsgs h ((progress h c).client cl hloc).1 hloc hpc

/-- In every reachable state of every build, if there are more messages than servers: a client sends
to every server one message with a number below the number of servers, as its last; a server that has
left its loop has received everything its clients send to it, and nothing is in its slots; a server
that waits misses a message that is in its slot or will be sent; and while some process is in its
loop, some process has something to do. -/
theorem exit_count (h : (network args reply W buf).system.Reachable s) :
    (∀ c d, args.isApp c = true → args.isDsl d = true →
        (∃ pre v, script args d.val args.numMsgs = pre ++ [v] ∧ v < args.numDsl ∧
          ∀ x ∈ pre, args.numDsl ≤ x) ∧
        (s.chan (c, d)).ins.map (word0 W) <+: script args d.val args.numMsgs ∧
        ∀ cl, s.loc c = .client cl → cl.pc = .done →
          (s.chan (c, d)).ins.map (word0 W) = script args d.val args.numMsgs) ∧
      (∀ d sv, s.loc d = .server sv →
        (sv.pc = .done → ∀ c, args.isApp c = true →
          (s.chan (c, d)).outs.map (word0 W) = script args d.val args.numMsgs ∧
            (s.chan (c, d)).place = none) ∧
        (sv.pc = .recv → ∃ c, args.isApp c = true ∧
          (s.chan (c, d)).outs.map (word0 W) ≠ script args d.val args.numMsgs ∧
            ((s.chan (c, d)).place ≠ none ∨
              (s.chan (c, d)).ins.map (word0 W) ≠ script args d.val args.numMsgs))) ∧
      ((∀ p, (network args reply W buf).next p (s.loc p) = .stop) ∨
        ∃ p, (network args reply W buf).Ready s p) := by
  refine ⟨?_, ?_, ready_or_done hmsgs h⟩
  · intro c d hc hd
    exact ⟨script_last hmsgs d.isLt hd, sent_script h hc d⟩
  · intro d sv hloc
    refine ⟨?_, ?_⟩
    · intro hpc c hc
      have hall := complete_of_done hmsgs h hloc hpc hc
      exact ⟨hall, place_of_complete h hc hall⟩
    · intro hpc
      rcases exists_missing hmsgs h hloc hpc with ⟨c, hc, hne⟩
      refine ⟨c, hc, hne, ?_⟩
      by_contra hboth
      push Not at hboth
      rw [← ((exchange h).fifo (c, d)).ins_eq hboth.1] at hne
      exact hne hboth.2

end More

/-- One client and one server, and two messages. -/
def pairArgs : ClientServerArgs where
  toProcs := twoProcs
  numMsgs := 2
  numMsgs_lt := by decide

abbrev pairServer : pairArgs.Id := ⟨0, by decide⟩

abbrev pairClient : pairArgs.Id := ⟨1, by decide⟩

def pairNetwork : Network pairArgs.Id (Fin 3 → Int32) (Loc (Fin 3 → Int32)) :=
  network pairArgs .sync threeWords fun _ _ => 7

/-- Each of the messages has been sent, taken, sent back and received. -/
def pairRun : List pairArgs.Id :=
  [pairClient, pairServer, pairServer, pairClient, pairClient, pairServer, pairServer, pairClient]

theorem exit_count_pairRun :
    ((pairNetwork.after pairRun).chan (pairClient, pairServer)).outs.map (word0 threeWords) =
        [1, 0] ∧
      ((pairNetwork.after pairRun).chan (pairClient, pairServer)).place = none := by
  have hmsgs : pairArgs.numDsl < pairArgs.numMsgs := by decide +kernel
  have hmain := exit_count hmsgs (reachable_after (N := pairNetwork) pairRun)
  have hdone : (match (pairNetwork.after pairRun).loc pairServer with
      | .server sv => sv.pc
      | .client _ => .recv) = .done := by decide +kernel
  cases hloc : (pairNetwork.after pairRun).loc pairServer with
  | client cl =>
      rw [hloc] at hdone
      cases hdone
  | server sv =>
      rw [hloc] at hdone
      have hscript : script pairArgs pairServer.val pairArgs.numMsgs = [1, 0] := by decide +kernel
      have hall := (hmain.2.1 pairServer sv hloc).1 hdone pairClient (by decide)
      rw [hscript] at hall
      exact hall

end Count

end ClientServer
end Bench
end Ssmp
