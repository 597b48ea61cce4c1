import Ssmp.Bench.Procs
import Ssmp.Lib.LocalProof

/-!
# Bench.OneToOne — `benchmarks/one2one.c` and `benchmarks/cs.c`

The processes work in pairs: one with an odd id sends numbered messages to the one before it.  In a
`ROUNDTRIP` build of `one2one.c` every message is sent back.  The two programs differ in the barriers
before and behind the loops, in the comparison of the numbers and in what they count as a sample
(`Variant`).  The model begins behind `ssmp_mem_init`; it leaves out the measured times and the pauses.
-/

namespace Ssmp
namespace Bench

open Lib Network

/-! ## Arguments -/

/-- `int num_procs = 2` -/
def OneToOne.defaultNumProcs : Nat := 2

/-- The options; `num_msgs` is read by `atoi`, and `main` asserts that the number of processes is
even.  The ids are in a byte. -/
structure OneToOneArgs where
  numProcs : Nat
  numMsgs : Int
  numProcs_pos : 0 < numProcs
  numProcs_even : numProcs % 2 = 0
  numProcs_le : numProcs ≤ 256
  numMsgs_ge : -2 ^ 31 ≤ numMsgs
  numMsgs_lt : numMsgs < 2 ^ 31

namespace OneToOneArgs

variable (args : OneToOneArgs)

abbrev Id : Type := Fin args.numProcs

/-- `ID % 2 == 0` -/
def receives (me : args.Id) : Bool :=
  me.val % 2 = 0

theorem partner_lt (me : args.Id) :
    (if args.receives me then me.val + 1 else me.val - 1) < args.numProcs := by
  have hlt := me.isLt
  have heven := args.numProcs_even
  unfold receives
  split
  · rename_i hme
    have hme' : me.val % 2 = 0 := of_decide_eq_true hme
    omega
  · omega

/-- `from` of a receiver and `to` of a sender. -/
def partner (me : args.Id) : args.Id :=
  ⟨if args.receives me then me.val + 1 else me.val - 1, args.partner_lt me⟩

/-- The number of messages that a sender sends. -/
def total : Nat := args.numMsgs.toNat

variable {args} {me : args.Id}

theorem partner_val_of_receives (h : args.receives me = true) :
    (args.partner me).val = me.val + 1 :=
  if_pos h

theorem partner_val_of_sends (h : args.receives me = false) : (args.partner me).val = me.val - 1 :=
  if_neg (by simp [h])

theorem receives_partner : args.receives (args.partner me) = !args.receives me := by
  cases hme : args.receives me with
  | true =>
      have heven : me.val % 2 = 0 := of_decide_eq_true hme
      unfold receives
      rw [partner_val_of_receives hme]
      simp only [Bool.not_true, decide_eq_false_iff_not]
      omega
  | false =>
      have hodd : ¬ me.val % 2 = 0 := of_decide_eq_false hme
      unfold receives
      rw [partner_val_of_sends hme]
      simp only [Bool.not_false, decide_eq_true_eq]
      omega

@[simp] theorem partner_partner : args.partner (args.partner me) = me := by
  have hback := @receives_partner args me
  refine Fin.ext ?_
  cases hme : args.receives me with
  | true =>
      rw [hme] at hback
      rw [partner_val_of_sends hback, partner_val_of_receives hme]
      rfl
  | false =>
      have hodd : ¬ me.val % 2 = 0 := of_decide_eq_false hme
      rw [hme] at hback
      rw [partner_val_of_receives hback, partner_val_of_sends hme]
      omega

theorem total_lt : args.total < 2 ^ 31 := by
  have := args.numMsgs_lt
  unfold total
  omega

end OneToOneArgs

/-! ## Programs -/

/-- What the programs differ in: whether messages are sent back, whether their numbers are compared,
how many barriers come before the loops, whether the processes meet in the last loop, and how many
samples a message counts for. -/
structure Variant where
  roundTrip : Bool
  checks : Bool
  opening : Nat
  opening_pos : 0 < opening
  closes : Bool
  samples : Int32

def one2one (roundTrip : Bool) : Variant where
  roundTrip := roundTrip
  checks := true
  opening := 2
  opening_pos := Nat.two_pos
  closes := true
  samples := 1

def cs : Variant where
  roundTrip := false
  checks := false
  opening := 1
  opening_pos := Nat.one_pos
  closes := false
  samples := 2

namespace OneToOne

/-- Where a process is: at a barrier before the loops, at the calls of its loop, at the barrier of the
last loop, or at the end. -/
inductive Pc where
  | opening
  | recv
  | reply
  | send
  | await
  | closing
  | done
  deriving DecidableEq

/-- The variables `co`, `*msgp`, `expected`, `num_msgs1` and `total_samples[0]`, the lines `*** expected`
that have been printed, and whether the turn of the last loop in which `PF_PRINT` stands has begun.
Before the loops `co` counts the barriers. -/
structure Proc (M : Type) where
  pc : Pc
  co : Nat
  msg : M
  expected : UInt32
  numMsgs1 : UInt32
  totalSamples : Int
  printed : List (UInt32 × Int32)
  reported : Bool

section Programs

variable (V : Variant) (args : OneToOneArgs) {M : Type} (W : MsgWords M)

/-- `uint32_t out = num_msgs - 1;` -/
def out : UInt32 :=
  UInt32.ofInt (args.numMsgs - 1)

/-- `for (; co < ssmp_num_ues(); co++) { if (co == ssmp_id()) PF_PRINT; ssmp_barrier_wait(0); }`; without
the barrier the loop runs through. -/
def Proc.close (me : args.Id) (co : Nat) (l : Proc M) : Proc M :=
  if V.closes then
    if co < args.numProcs then
      { l with pc := .closing, co := co, reported := l.reported || co == me.val }
    else { l with pc := .done }
  else { l with pc := .done, reported := true }

/-- What is behind the calls in the loop of a receiver. -/
def Proc.testRecv (me : args.Id) (l : Proc M) : Proc M :=
  if (W.get 0 l.msg).toUInt32 = out args then
    Proc.close V args me 0 { l with totalSamples := (V.samples * (W.get 0 l.msg + 1)).toInt }
  else if V.checks then
    let l' := { l with pc := .recv, expected := l.expected + 1 }
    if (W.get 0 l.msg).toUInt32 ≠ l.expected then
      { l' with printed := l.printed ++ [(l'.expected, W.get 0 l.msg)] }
    else l'
  else { l with pc := .recv }

/-- `for (; num_msgs1 < num_msgs; ...) { msgp->w0 = num_msgs1;` -/
def Proc.testSend (me : args.Id) (l : Proc M) : Proc M :=
  if (l.numMsgs1.toNat : Int) < args.numMsgs then
    { l with pc := .send, msg := W.set 0 l.numMsgs1.toInt32 l.msg }
  else Proc.close V args me 0 l

/-- The end of a turn of the loop of a sender. -/
def Proc.turn (me : args.Id) (l : Proc M) : Proc M :=
  Proc.testSend V args W me { l with numMsgs1 := l.numMsgs1 + 1 }

/-- What is behind the reply in the loop of a sender. -/
def Proc.testReply (me : args.Id) (l : Proc M) : Proc M :=
  if (W.get 0 l.msg).toUInt32 ≠ l.numMsgs1 then
    Proc.turn V args W me { l with printed := l.printed ++ [(l.numMsgs1, W.get 0 l.msg)] }
  else Proc.turn V args W me l

/-- The loops begin. -/
def Proc.enter (me : args.Id) (l : Proc M) : Proc M :=
  if args.receives me then { l with pc := .recv, expected := 0 }
  else Proc.testSend V args W me { l with numMsgs1 := 0 }

def next (me : args.Id) (l : Proc M) : Action args.Id M (Proc M) :=
  match l.pc with
  | .opening =>
      .meet (if l.co + 1 < V.opening then { l with co := l.co + 1 } else Proc.enter V args W me l)
  | .recv =>
      .take (args.partner me) fun m =>
        if V.roundTrip then { l with pc := .reply, msg := m }
        else Proc.testRecv V args W me { l with msg := m }
  | .reply => .put (args.partner me) l.msg (Proc.testRecv V args W me l)
  | .send =>
      .put (args.partner me) l.msg
        (if V.roundTrip then { l with pc := .await } else Proc.turn V args W me l)
  | .await => .take (args.partner me) fun m => Proc.testReply V args W me { l with msg := m }
  | .closing => .meet (Proc.close V args me (l.co + 1) l)
  | .done => .stop

/-- `buf` is what `memalign` leaves in the message buffers. -/
def start (buf : args.Id → M) (me : args.Id) : Proc M where
  pc := .opening
  co := 0
  msg := buf me
  expected := 0
  numMsgs1 := 0
  totalSamples := 0
  printed := []
  reported := false

/-- All barriers of the programs are barrier 0. -/
def hall (_me : args.Id) (_l : Proc M) : Nat := 0

def network (buf : args.Id → M) : Network args.Id M (Proc M) where
  next := next V args W
  group _ := true
  start := start args buf

end Programs

/-! ## The messages of a pair -/

section Messages

variable (V : Variant) (args : OneToOneArgs) {M : Type} (W : MsgWords M) (buf : args.Id → M)

/-- The message with number `i` of a sender whose buffer holds `m` at first. -/
def numbered (m : M) : Nat → M
  | 0 => W.set 0 0 m
  | i + 1 => W.set 0 (Int32.ofNat (i + 1)) (numbered m i)

theorem get_numbered (m : M) (i : Nat) : W.get 0 (numbered W m i) = Int32.ofNat i := by
  cases i with
  | zero => exact W.get_set _ _ _
  | succ i => exact W.get_set _ _ _

/-- The process of a pair that sends. -/
def sender (p : args.Id) : args.Id :=
  if args.receives p then args.partner p else p

/-- The first `k` messages of the pair of `p`. -/
def numbers (p : args.Id) (k : Nat) : List M :=
  (List.range k).map (numbered W (buf (sender args p)))

/-- What is sent back of them. -/
def replies (p : args.Id) (k : Nat) : List M :=
  if V.roundTrip then numbers args W buf p k else []

variable {V args W buf} {p : args.Id} {k : Nat}

theorem sender_partner : sender args (args.partner p) = sender args p := by
  unfold sender
  rw [OneToOneArgs.receives_partner, OneToOneArgs.partner_partner]
  cases args.receives p <;> rfl

theorem numbers_partner : numbers args W buf (args.partner p) k = numbers args W buf p k := by
  rw [numbers, numbers, sender_partner]

theorem replies_partner : replies V args W buf (args.partner p) k = replies V args W buf p k := by
  rw [replies, replies, numbers_partner]

@[simp] theorem length_numbers : (numbers args W buf p k).length = k := by
  simp [numbers]

theorem numbers_succ : numbers args W buf p (k + 1) =
    numbers args W buf p k ++ [numbered W (buf (sender args p)) k] := by
  simp [numbers, List.range_succ]

@[simp] theorem numbers_zero : numbers args W buf p 0 = [] := rfl

@[simp] theorem replies_zero : replies V args W buf p 0 = [] := by
  simp [replies]

theorem replies_of_roundTrip (h : V.roundTrip = true) :
    replies V args W buf p k = numbers args W buf p k :=
  if_pos h

theorem replies_of_oneWay (h : V.roundTrip = false) : replies V args W buf p k = [] :=
  if_neg (by simp [h])

end Messages

end OneToOne
end Bench
end Ssmp
