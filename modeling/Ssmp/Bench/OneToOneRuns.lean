import Ssmp.Bench.OneToOne

/-!
# Bench.OneToOneRuns — the runs of `one2one.c` and `cs.c`

A sender has put its first messages, a receiver has taken the first of them, and with `ROUNDTRIP` the
receiver has sent these back (`Stage`).  Every action takes a process on in its program, so no process
does more than a bounded number of them (`left`), and it comes to the same barriers as the others
(`pos`).
-/

namespace Ssmp
namespace Bench

open Lib Network

namespace OneToOne

/-! ## Where a process is -/

section Stages

variable (V : Variant) (args : OneToOneArgs) {M : Type} (W : MsgWords M) (buf : args.Id → M)

/-- The first `k` messages that `p` puts: numbers, or replies. -/
def given (p : args.Id) (k : Nat) : List M :=
  if args.receives p then replies V args W buf p k else numbers args W buf p k

/-- The first `k` messages that `p` takes. -/
def got (p : args.Id) (k : Nat) : List M :=
  if args.receives p then numbers args W buf p k else replies V args W buf p k

/-- The message `k` of the pair of `p`. -/
def message (p : args.Id) (k : Nat) : M :=
  numbered W (buf (sender args p)) k

/-- Where process `p` is when it has done its puts for the messages before `i`, and its takes for those
before `j`. -/
inductive Stage (p : args.Id) (l : Proc M) : Nat → Nat → Prop where
  | opening (hpc : l.pc = .opening) (hco : l.co < V.opening) (hmsg : l.msg = buf p)
      (hrep : l.reported = false) : Stage p l 0 0
  | recv {k : Nat} (hp : args.receives p = true) (hpc : l.pc = .recv)
      (hexp : V.checks = true → l.expected.toNat = k) (hk : k < args.total ∨ k = 0)
      (hrep : l.reported = false) : Stage p l k k
  | reply {k : Nat} (hrt : V.roundTrip = true) (hp : args.receives p = true) (hpc : l.pc = .reply)
      (hmsg : l.msg = message args W buf p k) (hexp : V.checks = true → l.expected.toNat = k)
      (hk : k < args.total) (hrep : l.reported = false) : Stage p l k (k + 1)
  | send {k : Nat} (hp : args.receives p = false) (hpc : l.pc = .send)
      (hmsg : l.msg = message args W buf p k) (hnum : l.numMsgs1.toNat = k) (hk : k < args.total)
      (hrep : l.reported = false) : Stage p l k k
  | await {k : Nat} (hrt : V.roundTrip = true) (hp : args.receives p = false) (hpc : l.pc = .await)
      (hnum : l.numMsgs1.toNat = k) (hk : k < args.total) (hrep : l.reported = false) :
      Stage p l (k + 1) k
  | past (hpc : l.pc = .closing ∧ V.closes = true ∧ l.co < args.numProcs ∧
        l.reported = decide (p.val ≤ l.co) ∨ l.pc = .done ∧ l.reported = true)
      (htotal : args.receives p = true → 0 < args.total ∧
        l.totalSamples = (V.samples * Int32.ofNat args.total).toInt) :
      Stage p l args.total args.total

/-- At most what a process has left to do when it has taken `j` messages. -/
def left (l : Proc M) (j : Nat) : Nat :=
  match l.pc with
  | .opening => (V.opening - l.co) + args.numProcs + 2 * args.total + 1
  | .recv => args.numProcs + 2 * (args.total - j) + 1
  | .reply => args.numProcs + 2 * (args.total - j) + 2
  | .send => args.numProcs + 2 * (args.total - l.numMsgs1.toNat) + 1
  | .await => args.numProcs + 2 * (args.total - l.numMsgs1.toNat)
  | .closing => args.numProcs - l.co
  | .done => 0

/-- How many barriers a process has passed. -/
def pos (l : Proc M) : Nat :=
  match l.pc with
  | .opening => l.co
  | .closing => V.opening + l.co
  | .done => V.opening + if V.closes then args.numProcs else 0
  | _ => V.opening

/-- The barriers that every process comes to. -/
def seq : List Nat :=
  List.replicate (V.opening + if V.closes then args.numProcs else 0) 0

end Stages

section Facts

variable {V : Variant} {args : OneToOneArgs} {M : Type} {W : MsgWords M} {buf : args.Id → M}
variable {p : args.Id} {l l' : Proc M} {i j k n : Nat} {m : M}

theorem given_partner : given V args W buf (args.partner p) k = got V args W buf p k := by
  unfold given got
  rw [OneToOneArgs.receives_partner, replies_partner, numbers_partner]
  cases args.receives p <;> rfl

@[simp] theorem given_zero : given V args W buf p 0 = [] := by
  simp [given]

@[simp] theorem got_zero : got V args W buf p 0 = [] := by
  simp [got]

theorem Stage.le_total (h : Stage V args W buf p l i j) : i ≤ args.total ∧ j ≤ args.total := by
  cases h with
  | recv _ _ _ hk _ => rcases hk with hk | rfl <;> omega
  | _ => omega

theorem message_of_sends (hp : args.receives p = false) :
    message args W buf p k = numbered W (buf p) k := by
  rw [message, sender, if_neg (by simp [hp])]

/-- A message is numbered. -/
theorem word_message : (W.get 0 (message args W buf p k)).toUInt32 = UInt32.ofNat k := by
  rw [message, get_numbered]
  rfl

theorem numMsgs_eq (h : 0 < args.total) : args.numMsgs = args.total := by
  unfold OneToOneArgs.total at h ⊢
  omega

/-- The number `out` is the last. -/
theorem ofNat_eq_out (hk : k < args.total) : UInt32.ofNat k = out args ↔ k + 1 = args.total := by
  have hlt := @OneToOneArgs.total_lt args
  have hmod : (args.numMsgs - 1) % 2 ^ 32 = ((args.total - 1 : Nat) : Int) := by
    rw [numMsgs_eq (by omega)]
    omega
  have hout : out args = UInt32.ofNat (args.total - 1) := by
    rw [out, UInt32.ofInt, hmod, Int.toNat_natCast]
  rw [hout]
  constructor
  · intro heq
    have hnat := congrArg UInt32.toNat heq
    rw [UInt32.toNat_ofNat', UInt32.toNat_ofNat', Nat.mod_eq_of_lt (by omega),
      Nat.mod_eq_of_lt (by omega)] at hnat
    omega
  · intro heq
    rw [show args.total - 1 = k by omega]

/-! ## Going on -/

/-- A process goes on in its loop, or leaves it. -/
structure After (V : Variant) (args : OneToOneArgs) (W : MsgWords M) (buf : args.Id → M) (p : args.Id)
    (l : Proc M) (i j n : Nat) : Prop where
  stage : Stage V args W buf p l i j
  left : left V args l j ≤ n
  pos : pos V args l = V.opening
  printed : l.printed = []

theorem after_close (hprinted : l.printed = []) (hrep : l.reported = false)
    (htotal : args.receives p = true → 0 < args.total ∧
      l.totalSamples = (V.samples * Int32.ofNat args.total).toInt) :
    After V args W buf p (Proc.close V args p 0 l) args.total args.total args.numProcs := by
  have hpos := args.numProcs_pos
  unfold Proc.close
  cases hcloses : V.closes with
  | true =>
      simp only [if_true, if_pos hpos]
      refine ⟨Stage.past (Or.inl ⟨rfl, hcloses, hpos, ?_⟩) htotal, ?_, rfl, hprinted⟩
      · rw [hrep]
        simp only [Bool.false_or, Nat.le_zero]
        exact Bool.eq_iff_iff.2 ⟨fun h => by simpa using (beq_iff_eq.1 h).symm, fun h => by
          simpa using (of_decide_eq_true h).symm⟩
      · exact Nat.sub_le _ _
  | false =>
      refine ⟨Stage.past (Or.inr ⟨rfl, rfl⟩) htotal, Nat.zero_le _, ?_, hprinted⟩
      simp [OneToOne.pos, hcloses]

/-- A receiver that has the message `k` and has sent it back, if it does. -/
theorem after_testRecv (hp : args.receives p = true) (hmsg : l.msg = message args W buf p k)
    (hk : k < args.total) (hexp : V.checks = true → l.expected.toNat = k) (hprinted : l.printed = [])
    (hrep : l.reported = false) :
    After V args W buf p (Proc.testRecv V args W p l) (k + 1) (k + 1)
      (args.numProcs + 2 * (args.total - (k + 1)) + 1) := by
  have hword : (W.get 0 l.msg).toUInt32 = UInt32.ofNat k := by
    rw [hmsg, word_message]
  have hlt := @OneToOneArgs.total_lt args
  have hofNat : (UInt32.ofNat k).toNat = k := by
    rw [UInt32.toNat_ofNat', Nat.mod_eq_of_lt (by omega)]
  unfold Proc.testRecv
  rw [hword]
  by_cases hlast : k + 1 = args.total
  · rw [if_pos ((ofNat_eq_out hk).2 hlast), hlast]
    have hsamples : W.get 0 l.msg + 1 = Int32.ofNat args.total := by
      rw [hmsg, message, get_numbered, ← hlast, Int32.ofNat_add]
      rfl
    have hclose := @after_close V args M W buf p
      { l with totalSamples := (V.samples * (W.get 0 l.msg + 1)).toInt } hprinted hrep fun _ =>
        ⟨by omega, by rw [hsamples]⟩
    exact ⟨hclose.stage, Nat.le_trans hclose.left (by omega), hclose.pos, hclose.printed⟩
  · rw [if_neg fun h => hlast ((ofNat_eq_out hk).1 h)]
    cases hchecks : V.checks with
    | false =>
        refine ⟨Stage.recv hp rfl (by simp [hchecks]) (Or.inl (by omega)) hrep, ?_, rfl, hprinted⟩
        exact Nat.le_refl _
    | true =>
        -- the number is the one expected
        have heq : UInt32.ofNat k = l.expected := by
          rw [← UInt32.toNat_inj, hofNat, hexp hchecks]
        simp only [if_true, heq, ne_eq, not_true, if_false]
        refine ⟨Stage.recv hp rfl ?_ (Or.inl (by omega)) hrep, Nat.le_refl _, rfl, hprinted⟩
        intro _
        show (l.expected + 1).toNat = k + 1
        rw [UInt32.toNat_add, hexp hchecks, UInt32.toNat_one, Nat.mod_eq_of_lt (by omega)]

/-- A sender that is about to begin its turn `k`. -/
theorem after_testSend (hp : args.receives p = false) (hnum : l.numMsgs1.toNat = k)
    (hk : k ≤ args.total) (hmsg : W.set 0 (Int32.ofNat k) l.msg = message args W buf p k)
    (hprinted : l.printed = []) (hrep : l.reported = false) :
    After V args W buf p (Proc.testSend V args W p l) k k
      (args.numProcs + 2 * (args.total - k) + 1) := by
  have hword : l.numMsgs1.toInt32 = Int32.ofNat k := by
    rw [← hnum]
    conv_lhs => rw [← @UInt32.ofNat_toNat l.numMsgs1]
    rfl
  unfold Proc.testSend
  by_cases hmore : k < args.total
  · rw [if_pos (by rw [hnum, numMsgs_eq (by omega)]; exact_mod_cast hmore), hword, hmsg]
    refine ⟨Stage.send hp rfl rfl hnum hmore hrep, ?_, rfl, hprinted⟩
    show args.numProcs + 2 * (args.total - l.numMsgs1.toNat) + 1 ≤ _
    rw [hnum]
  · have hall : k = args.total := by omega
    have hstop : ¬ ((l.numMsgs1.toNat : Int) < args.numMsgs) := by
      rw [hnum, hall]
      unfold OneToOneArgs.total
      omega
    rw [if_neg hstop, hall]
    have hclose := @after_close V args M W buf p l hprinted hrep fun h => by
      rw [hp] at h
      cases h
    exact ⟨hclose.stage, Nat.le_trans hclose.left (by omega), hclose.pos, hclose.printed⟩

theorem after_turn (hp : args.receives p = false) (hmsg : l.msg = message args W buf p k)
    (hnum : l.numMsgs1.toNat = k) (hk : k < args.total) (hprinted : l.printed = [])
    (hrep : l.reported = false) :
    After V args W buf p (Proc.turn V args W p l) (k + 1) (k + 1)
      (args.numProcs + 2 * (args.total - (k + 1)) + 1) := by
  have hlt := @OneToOneArgs.total_lt args
  refine after_testSend hp ?_ hk ?_ hprinted hrep
  · show (l.numMsgs1 + 1).toNat = k + 1
    rw [UInt32.toNat_add, hnum, UInt32.toNat_one, Nat.mod_eq_of_lt (by omega)]
  · show W.set 0 (Int32.ofNat (k + 1)) l.msg = _
    rw [hmsg]
    rfl

theorem after_enter (hmsg : l.msg = buf p) (hprinted : l.printed = []) (hrep : l.reported = false) :
    After V args W buf p (Proc.enter V args W p l) 0 0 (args.numProcs + 2 * args.total + 1) := by
  unfold Proc.enter
  cases hp : args.receives p with
  | true =>
      refine ⟨Stage.recv hp rfl (fun _ => rfl) (Or.inr rfl) hrep, ?_, rfl, hprinted⟩
      exact Nat.le_refl _
  | false =>
      refine after_testSend hp rfl (Nat.zero_le _) ?_ hprinted hrep
      rw [message_of_sends hp]
      show W.set 0 (Int32.ofNat 0) l.msg = _
      rw [hmsg]
      rfl

/-! ## One action -/

theorem given_succ_of_sends (hp : args.receives p = false) : given V args W buf p (k + 1) =
    given V args W buf p k ++ [message args W buf p k] := by
  rw [given, given, if_neg (by simp [hp]), if_neg (by simp [hp]), numbers_succ]
  rfl

theorem given_succ_of_replies (hp : args.receives p = true) (hrt : V.roundTrip = true) :
    given V args W buf p (k + 1) = given V args W buf p k ++ [message args W buf p k] := by
  rw [given, given, if_pos hp, if_pos hp, replies_of_roundTrip hrt, replies_of_roundTrip hrt,
    numbers_succ]
  rfl

theorem given_of_oneWay (hp : args.receives p = true) (hrt : V.roundTrip = false) :
    given V args W buf p k = [] := by
  rw [given, if_pos hp, replies_of_oneWay hrt]

theorem got_succ_of_receives (hp : args.receives p = true) : got V args W buf p (k + 1) =
    got V args W buf p k ++ [message args W buf p k] := by
  rw [← given_partner, ← given_partner,
    given_succ_of_sends (by simp [OneToOneArgs.receives_partner, hp]), message, message, sender_partner]

theorem got_succ_of_replies (hp : args.receives p = false) (hrt : V.roundTrip = true) :
    got V args W buf p (k + 1) = got V args W buf p k ++ [message args W buf p k] := by
  rw [← given_partner, ← given_partner,
    given_succ_of_replies (by simp [OneToOneArgs.receives_partner, hp]) hrt, message, message,
    sender_partner]

theorem got_of_oneWay (hp : args.receives p = false) (hrt : V.roundTrip = false) :
    got V args W buf p k = [] := by
  rw [← given_partner, given_of_oneWay (by simp [OneToOneArgs.receives_partner, hp]) hrt]

/-- What a process takes behind its first `j` messages is the next. -/
theorem next_of_got {J : Nat} (h : got V args W buf p j ++ [m] <+: got V args W buf p J) :
    (args.receives p = true ∨ V.roundTrip = true) ∧ j < J ∧ m = message args W buf p j := by
  unfold got at h
  cases hp : args.receives p with
  | true =>
      rw [hp] at h
      exact ⟨Or.inl rfl, next_of_range h⟩
  | false =>
      rw [hp] at h
      cases hrt : V.roundTrip with
      | true =>
          simp only [Bool.false_eq_true, if_false, replies_of_roundTrip hrt] at h
          exact ⟨Or.inr rfl, next_of_range h⟩
      | false =>
          simp only [Bool.false_eq_true, if_false, replies_of_oneWay hrt] at h
          simp at h

/-- What is left of a process does not depend on how many replies a sender has had. -/
theorem Stage.left_length (h : Stage V args W buf p l i j) :
    left V args l (got V args W buf p j).length = left V args l j := by
  cases h with
  | recv hp _ _ _ _ => rw [got, if_pos hp, length_numbers]
  | reply _ hp _ _ _ _ _ => rw [got, if_pos hp, length_numbers]
  | past hpc _ => rcases hpc with ⟨hpc, _⟩ | ⟨hpc, _⟩ <;> simp [left, hpc]
  | opening hpc _ _ _ => simp [left, hpc]
  | send _ hpc _ _ _ _ => simp [left, hpc]
  | await _ _ hpc _ _ _ => simp [left, hpc]

/-- An action takes a process on: less is left, and only a barrier counts as one. -/
structure Onward (V : Variant) (args : OneToOneArgs) (W : MsgWords M) (buf : args.Id → M)
    (p : args.Id) (l l' : Proc M) (j i' j' barriers : Nat) : Prop where
  stage : Stage V args W buf p l' i' j'
  left : left V args l' j' < left V args l j
  pos : pos V args l' = pos V args l + barriers
  printed : l'.printed = []

theorem After.onward {b : Nat} (h : After V args W buf p l' i j n) (hn : n < OneToOne.left V args l k)
    (hpos : OneToOne.pos V args l + b = V.opening) : Onward V args W buf p l l' k i j b :=
  ⟨h.stage, Nat.lt_of_le_of_lt h.left hn, by rw [h.pos, hpos], h.printed⟩

/-- The reply with the number of the message. -/
theorem testReply_eq (h : (W.get 0 l.msg).toUInt32 = l.numMsgs1) :
    Proc.testReply V args W p l = Proc.turn V args W p l :=
  if_neg (not_not.2 h)

theorem Stage.put (h : Stage V args W buf p l i j) {d : args.Id} {k : Proc M}
    (hnext : next V args W p l = .put d m k) (hprinted : l.printed = []) :
    d = args.partner p ∧ ∃ i' j', given V args W buf p i' = given V args W buf p i ++ [m] ∧
      got V args W buf p j' = got V args W buf p j ∧ Onward V args W buf p l k j i' j' 0 := by
  cases h with
  | @reply c hrt hp hpc hmsg hexp hk hrep =>
      simp only [next, hpc, Action.put.injEq] at hnext
      rcases hnext with ⟨rfl, rfl, rfl⟩
      refine ⟨rfl, _, _, by rw [hmsg]; exact given_succ_of_replies hp hrt, rfl, ?_⟩
      refine (after_testRecv hp hmsg hk hexp hprinted hrep).onward ?_ ?_
      · simp only [left, hpc]
        omega
      · simp [pos, hpc]
  | @send c hp hpc hmsg hnum hk hrep =>
      simp only [next, hpc, Action.put.injEq] at hnext
      rcases hnext with ⟨rfl, rfl, rfl⟩
      have hgiven := @given_succ_of_sends V args M W buf p i hp
      rw [← hmsg] at hgiven
      cases hrt : V.roundTrip with
      | true =>
          refine ⟨rfl, _, _, hgiven, rfl, Stage.await hrt hp rfl hnum hk hrep, ?_, ?_, hprinted⟩
          · simp [left, hpc]
          · simp [pos, hpc]
      | false =>
          refine ⟨rfl, _, i + 1, hgiven, ?_, ?_⟩
          · rw [got_of_oneWay hp hrt, got_of_oneWay hp hrt]
          · refine (after_turn hp hmsg hnum hk hprinted hrep).onward ?_ ?_
            · simp only [left, hpc, hnum]
              omega
            · simp [pos, hpc]
  | opening hpc _ _ _ => simp [next, hpc] at hnext
  | recv _ hpc _ _ _ => simp [next, hpc] at hnext
  | await _ _ hpc _ _ _ => simp [next, hpc] at hnext
  | past hpc _ => rcases hpc with ⟨hpc, _⟩ | ⟨hpc, _⟩ <;> simp [next, hpc] at hnext

theorem Stage.take (h : Stage V args W buf p l i j) {q : args.Id} {f : M → Proc M} {J : Nat}
    (hnext : next V args W p l = .take q f) (hprinted : l.printed = [])
    (hm : got V args W buf p j ++ [m] <+: got V args W buf p J) (hJ : J ≤ args.total) :
    q = args.partner p ∧ ∃ i' j', given V args W buf p i' = given V args W buf p i ∧
      got V args W buf p j' = got V args W buf p j ++ [m] ∧ Onward V args W buf p l (f m) j i' j' 0 := by
  rcases next_of_got hm with ⟨_, hlt, rfl⟩
  cases h with
  | recv hp hpc hexp hk hrep =>
      simp only [next, hpc, Action.take.injEq] at hnext
      rcases hnext with ⟨rfl, rfl⟩
      refine ⟨rfl, ?_⟩
      cases hrt : V.roundTrip with
      | true =>
          refine ⟨i, i + 1, rfl, got_succ_of_receives hp,
            Stage.reply hrt hp rfl rfl hexp (by omega) hrep, ?_, ?_, hprinted⟩
          · simp only [left, hpc, if_true]
            omega
          · simp [pos, hpc]
      | false =>
          refine ⟨i + 1, i + 1, ?_, got_succ_of_receives hp, ?_⟩
          · rw [given_of_oneWay hp hrt, given_of_oneWay hp hrt]
          · refine After.onward (after_testRecv hp rfl (by omega) hexp hprinted hrep) ?_ ?_
            · simp only [left, hpc]
              omega
            · simp [pos, hpc]
  | await hrt hp hpc hnum hk hrep =>
      simp only [next, hpc, Action.take.injEq] at hnext
      rcases hnext with ⟨rfl, rfl⟩
      refine ⟨rfl, j + 1, j + 1, rfl, got_succ_of_replies hp hrt, ?_⟩
      have hword : (W.get 0 (message args W buf p j)).toUInt32 = l.numMsgs1 := by
        rw [word_message, ← hnum, UInt32.ofNat_toNat]
      show Onward V args W buf p l (Proc.testReply V args W p _) j _ _ 0
      rw [testReply_eq hword]
      refine After.onward (after_turn hp rfl hnum hk hprinted hrep) ?_ ?_
      · simp only [left, hpc, hnum]
        omega
      · simp [pos, hpc]
  | opening hpc _ _ _ => simp [next, hpc] at hnext
  | reply _ _ hpc _ _ _ _ => simp [next, hpc] at hnext
  | send _ hpc _ _ _ _ => simp [next, hpc] at hnext
  | past hpc _ => rcases hpc with ⟨hpc, _⟩ | ⟨hpc, _⟩ <;> simp [next, hpc] at hnext

theorem Stage.meet (h : Stage V args W buf p l i j) {k : Proc M}
    (hnext : next V args W p l = .meet k) (hprinted : l.printed = []) :
    Onward V args W buf p l k j i j 1 := by
  cases h with
  | opening hpc hco hmsg hrep =>
      simp only [next, hpc, Action.meet.injEq] at hnext
      subst hnext
      by_cases hmore : l.co + 1 < V.opening
      · rw [if_pos hmore]
        refine ⟨Stage.opening rfl hmore hmsg hrep, ?_, ?_, hprinted⟩
        · simp only [left, hpc]
          omega
        · simp [pos, hpc]
      · rw [if_neg hmore]
        refine (after_enter hmsg hprinted hrep).onward ?_ ?_
        · simp only [left, hpc]
          omega
        · simp only [pos, hpc]
          omega
  | past hpc htotal =>
      rcases hpc with ⟨hpc, hcloses, hco, hrep⟩ | ⟨hpc, _⟩
      · simp only [next, hpc, Action.meet.injEq] at hnext
        subst hnext
        unfold Proc.close
        simp only [hcloses, if_true]
        by_cases hmore : l.co + 1 < args.numProcs
        · rw [if_pos hmore]
          refine ⟨Stage.past (Or.inl ⟨rfl, hcloses, hmore, ?_⟩) htotal, ?_, ?_, hprinted⟩
          · show (l.reported || l.co + 1 == p.val) = decide (p.val ≤ l.co + 1)
            rw [hrep, Bool.eq_iff_iff]
            simp only [Bool.or_eq_true, decide_eq_true_eq, beq_iff_eq]
            omega
          · simp only [left, hpc]
            omega
          · simp [pos, hpc, Nat.add_assoc]
        · rw [if_neg hmore]
          refine ⟨Stage.past (Or.inr ⟨rfl, ?_⟩) htotal, ?_, ?_, hprinted⟩
          · have hlt := p.isLt
            show l.reported = true
            rw [hrep, decide_eq_true_eq]
            omega
          · simp only [left, hpc]
            omega
          · simp only [pos, hpc, hcloses, if_true]
            omega
      · simp [next, hpc] at hnext
  | recv _ hpc _ _ _ => simp [next, hpc] at hnext
  | reply _ _ hpc _ _ _ _ => simp [next, hpc] at hnext
  | send _ hpc _ _ _ _ => simp [next, hpc] at hnext
  | await _ _ hpc _ _ _ => simp [next, hpc] at hnext

end Facts

/-! ## Every run -/

section Runs

variable (V : Variant) (args : OneToOneArgs) {M : Type} (W : MsgWords M) (buf : args.Id → M)

/-- What is true of process `p` by itself: it has printed no `*** expected`, and has exchanged messages
with its partner only, as many as its stage says. -/
structure Account (p : args.Id) (l : Proc M) (ins outs : args.Id → List M) : Prop where
  printed : l.printed = []
  others : ∀ d, d ≠ args.partner p → ins d = [] ∧ outs d = []
  pair : ∃ i j, Stage V args W buf p l i j ∧ ins (args.partner p) = given V args W buf p i ∧
    outs (args.partner p) = got V args W buf p j

variable {V args W buf} {H : Halls args.Id (Proc M)} {p q : args.Id} {l : Proc M}
variable {s t : Meetings args.Id M (Proc M)}

theorem partner_of_take {f : M → Proc M} (hnext : next V args W p l = .take q f) :
    q = args.partner p := by
  cases hpc : l.pc with
  | recv => exact (by simpa [next, hpc] using hnext : args.partner p = q ∧ _).1.symm
  | await => exact (by simpa [next, hpc] using hnext : args.partner p = q ∧ _).1.symm
  | _ => simp [next, hpc] at hnext

theorem waits_to_put {d : args.Id} {m : M} {k : Proc M} :
    (network V args W buf).next p l ≠ .overwrite d m k := by
  cases hpc : l.pc with
  | _ => simp [network, next, hpc]

theorem noScan : Meetings.NoScan (network V args W buf) := by
  intro p l srcs k
  cases hpc : l.pc with
  | _ => simp [network, next, hpc]

theorem safe (r : Network.State args.Id M (Proc M)) : (network V args W buf).Safe r :=
  safe_of_waits (fun _ _ _ _ _ => waits_to_put) r

/-- What the partner has put is what there is to take. -/
theorem Account.to_take {ins outs : args.Id → List M}
    (h : Account V args W buf (args.partner p) l ins outs) :
    ∃ J, J ≤ args.total ∧ ins p = got V args W buf p J := by
  rcases h.pair with ⟨J, _, hstage, hins, _⟩
  rw [OneToOneArgs.partner_partner] at hins
  exact ⟨J, hstage.le_total.1, by rw [hins, given_partner]⟩

theorem localProof : LocalProof (network V args W buf) (Account V args W buf) where
  start p := ⟨rfl, fun _ _ => ⟨rfl, rfl⟩, 0, 0,
    Stage.opening rfl V.opening_pos rfl rfl, given_zero.symm, got_zero.symm⟩
  put {p l ins outs d m k} h hnext := by
    rcases hnext with hnext | hnext
    · rcases h.pair with ⟨i, j, hstage, hins, houts⟩
      rcases hstage.put hnext h.printed with ⟨rfl, i', j', hgiven, hgot, honward⟩
      refine ⟨honward.printed, ?_, i', j', honward.stage, ?_, ?_⟩
      · intro d hd
        rw [Function.update_of_ne hd]
        exact h.others d hd
      · rw [Function.update_self, hins, hgiven]
      · rw [houts, hgot]
    · exact absurd hnext waits_to_put
  take {p l ins outs q l' ins' outs' f m} h h' hnext hm := by
    obtain rfl := partner_of_take hnext
    rcases h.pair with ⟨i, j, hstage, hins, houts⟩
    rcases h'.to_take with ⟨J, hJ, hput⟩
    rw [houts, hput] at hm
    rcases hstage.take hnext h.printed hm hJ with ⟨_, i', j', hgiven, hgot, honward⟩
    refine ⟨honward.printed, ?_, i', j', honward.stage, ?_, ?_⟩
    · intro d hd
      rw [Function.update_of_ne hd]
      exact h.others d hd
    · rw [hins, hgiven]
    · rw [Function.update_self, houts, hgot]
  scan _ _ hnext _ _ := absurd hnext (noScan _ _ _ _)
  meet {p l ins outs k} h hnext := by
    rcases h.pair with ⟨i, j, hstage, hins, houts⟩
    have honward := hstage.meet hnext h.printed
    exact ⟨honward.printed, h.others, i, j, honward.stage, hins, houts⟩

theorem account (h : (Meetings.system (network V args W buf) H).Reachable s) (p : args.Id) :
    Account V args W buf p (s.net.loc p) (s.net.puts p) (s.net.takes p) :=
  localProof.holds (fun s _ => safe s.net) h p

/-! ### Barriers -/

theorem Stage.pos_lt {i j : Nat} {k : Proc M} (h : Stage V args W buf p l i j)
    (hnext : next V args W p l = .meet k) :
    pos V args l < V.opening + if V.closes then args.numProcs else 0 := by
  cases h with
  | opening hpc hco _ _ =>
      simp only [pos, hpc]
      omega
  | past hpc _ =>
      rcases hpc with ⟨hpc, hcloses, hco, _⟩ | ⟨hpc, _⟩
      · simp only [pos, hpc, hcloses, if_true]
        omega
      · simp [next, hpc] at hnext
  | recv _ hpc _ _ _ => simp [next, hpc] at hnext
  | reply _ _ hpc _ _ _ _ => simp [next, hpc] at hnext
  | send _ hpc _ _ _ _ => simp [next, hpc] at hnext
  | await _ _ hpc _ _ _ => simp [next, hpc] at hnext

/-- A message that process `p` can take is the next of its partner. -/
theorem take_onward (h : (Meetings.system (network V args W buf) H).Reachable s) {f : M → Proc M}
    {m : M} (hnext : next V args W p (s.net.loc p) = .take q f)
    (hm : (s.net.chan (q, p)).place = some m) {i j : Nat}
    (hstage : Stage V args W buf p (s.net.loc p) i j)
    (houts : s.net.takes p (args.partner p) = got V args W buf p j) :
    ∃ i' j', got V args W buf p j' = got V args W buf p j ++ [m] ∧
      Onward V args W buf p (s.net.loc p) (f m) j i' j' 0 := by
  obtain rfl := partner_of_take hnext
  have hfifo := Meetings.fifo (fun s _ => safe s.net) h (args.partner p, p)
  have hprefix := LocalProof.prefix_of_fifo hfifo hm
  rcases (account h (args.partner p)).to_take with ⟨J, hJ, hput⟩
  rw [houts, hput] at hprefix
  rcases hstage.take hnext (account h p).printed hprefix hJ with ⟨_, i', j', _, hgot, honward⟩
  exact ⟨i', j', hgot, honward⟩

/-- All processes come to the same barriers. -/
theorem inOrder (hhall : H.hall = hall args) :
    Meetings.InOrder (network V args W buf) H (seq V args) fun _ => pos V args where
  start _ := rfl
  stays s p k h hgoes hmeet := by
    rcases (account h p).pair with ⟨i, j, hstage, _, houts⟩
    have hprinted := (account h p).printed
    unfold Meetings.Goes at hgoes
    cases hnext : (network V args W buf).next p (s.net.loc p) with
    | put d m k' =>
        rw [hnext] at hgoes
        rcases hstage.put hnext hprinted with ⟨_, _, _, _, _, honward⟩
        rw [hgoes.2]
        exact honward.pos
    | take q f =>
        rw [hnext] at hgoes
        rcases hgoes with ⟨m, hm, rfl⟩
        rcases take_onward h hnext hm hstage houts with ⟨_, _, _, honward⟩
        exact honward.pos
    | overwrite d m k' => exact absurd hnext waits_to_put
    | scan srcs f => exact absurd hnext (noScan _ _ _ _)
    | meet k' => exact absurd hnext (hmeet k')
    | stop =>
        rw [hnext] at hgoes
        exact hgoes.elim
  passes s p k h hnext := by
    rcases (account h p).pair with ⟨i, j, hstage, _, _⟩
    refine ⟨(hstage.meet hnext (account h p).printed).pos, ?_⟩
    rw [seq, List.getElem?_replicate, if_pos (hstage.pos_lt hnext), Meetings.hallOf, hhall]
    rfl

/-! ### Bounded runs -/

/-- What process `p` has left to do. -/
def rank (V : Variant) (args : OneToOneArgs) {M : Type} (p : args.Id)
    (r : Network.State args.Id M (Proc M)) : Nat :=
  left V args (r.loc p) (r.takes p (args.partner p)).length

theorem ranked : Meetings.Ranked (network V args W buf) H (rank V args) where
  same p r u h := by
    unfold rank
    rw [h.loc, SameAt.takes h]
  moves s p u h hmove _ hmeet := by
    rcases (account h p).pair with ⟨i, j, hstage, _, houts⟩
    have hprinted := (account h p).printed
    unfold rank
    rw [houts, hstage.left_length]
    cases hmove with
    | @put d m k hnext _ =>
        rcases hstage.put hnext hprinted with ⟨_, i', j', _, hgot, honward⟩
        show left V args ((Network.State.goto p _ k).loc p)
          ((s.net.onChan (p, d) (.write m)).takes p (args.partner p)).length < _
        rw [goto_loc_self, takes_write, houts, ← hgot, honward.stage.left_length]
        exact honward.left
    | @take q m f hnext hm =>
        rcases take_onward h hnext hm hstage houts with ⟨i', j', hgot, honward⟩
        obtain rfl := partner_of_take hnext
        show left V args ((Network.State.goto p _ (f m)).loc p)
          ((s.net.onChan (args.partner p, p) (.clear m)).takes p (args.partner p)).length < _
        rw [goto_loc_self, takes_clear, Function.update_self, houts, ← hgot,
          honward.stage.left_length]
        exact honward.left
    | overwrite hnext => exact absurd hnext waits_to_put
    | pass hnext _ _ => exact absurd hnext (noScan _ _ _ _)
    | wrap hnext _ => exact absurd hnext (noScan _ _ _ _)
    | hit hnext _ _ => exact absurd hnext (noScan _ _ _ _)
    | arrive hnext _ => exact absurd hnext (hmeet _)
    | leave hnext _ _ => exact absurd hnext (hmeet _)
  meets s p k h hnext := by
    rcases (account h p).pair with ⟨i, j, hstage, _, houts⟩
    have honward := hstage.meet hnext (account h p).printed
    have houts' : (s.net.goto p k).takes p (args.partner p) = got V args W buf p j := houts
    unfold rank
    rw [goto_loc_self, houts', houts, hstage.left_length, honward.stage.left_length]
    exact honward.left

end Runs

end OneToOne
end Bench
end Ssmp
