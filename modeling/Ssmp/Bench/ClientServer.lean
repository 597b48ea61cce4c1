import Mathlib.Data.Nat.ModEq
import Ssmp.Bench.Procs

/-!
# Bench.ClientServer — the main loops of `benchmarks/client_server.c`

A client sends `num_msgs` numbered messages to the servers in turn, and a server takes messages until
it has had one of the last numbers from every client.  In a `ROUNDTRIP` build every message is sent
back.  The model begins behind the barrier before the loops, at which all slots are empty, and lets
every process enter its loop at any time.
-/

namespace Ssmp
namespace Bench

open Lib

/-- The options; `num_msgs` is a `uint32_t`. -/
structure ClientServerArgs extends Procs where
  numMsgs : Nat
  numMsgs_lt : numMsgs < 2 ^ 32

/-- The builds: without `ROUNDTRIP`, with it, and with it and `NO_SYNC_SRV`. -/
inductive Reply where
  | oneWay
  | sync
  | noSync
  deriving DecidableEq

namespace ClientServer

/-! ## Locations -/

/-- Where a client is in its loop: at `ssmp_send`, at `ssmp_recv_from`, or behind it. -/
inductive ClientPc where
  | send
  | recv
  | done
  deriving DecidableEq

/-- The variables `msg`, `num_msgs1`, `to` and `to_idx` of a client. -/
structure Client (M : Type) where
  pc : ClientPc
  msg : M
  numMsgs1 : Nat
  dst : Nat
  dstIdx : Nat

/-- Where a server is in its loop: at `ssmp_recv_color_start`, at the reply, or behind it. -/
inductive ServerPc where
  | recv
  | reply
  | done
  deriving DecidableEq

/-- The variables `msg`, `msg->sender` and `num_zeros` of a server. -/
structure Server (M : Type) where
  pc : ServerPc
  msg : M
  sender : Nat
  numZeros : UInt32

inductive Loc (M : Type) where
  | client (c : Client M)
  | server (s : Server M)

/-! ## Loops -/

section Loops

variable (args : ClientServerArgs) (reply : Reply) {M : Type} (W : MsgWords M)

/-- `while (num_msgs1--)` -/
def Client.test (c : Client M) : Client M :=
  if c.numMsgs1 = 0 then { c with pc := .done }
  else { c with pc := .send, numMsgs1 := c.numMsgs1 - 1 }

/-- `to = dsl_seq[to_idx++]; if (to_idx == num_dsl) to_idx = 0;` and the next test of the loop. -/
def Client.turn (c : Client M) : Client M :=
  Client.test
    { c with
      dst := args.dslSeq c.dstIdx
      dstIdx := if c.dstIdx + 1 = args.numDsl then 0 else c.dstIdx + 1 }

/-- `msg->w0` as the `uint32_t` that it is compared as. -/
def word0 (m : M) : Nat := (W.get 0 m).toUInt32.toNat

/-- `if (msg->w0 < lim_zeros) if (--num_zeros == 0) break;` -/
def Server.test (s : Server M) : Server M :=
  if word0 W s.msg < args.numDsl then
    let s' := { s with numZeros := s.numZeros - 1 }
    if s'.numZeros = 0 then { s' with pc := .done } else { s' with pc := .recv }
  else { s with pc := .recv }

/-- The message as the client sends it. -/
def Client.request (c : Client M) : M :=
  W.set 0 (Int32.ofNat c.numMsgs1) c.msg

def Client.next (c : Client M) : Action args.Id M (Loc M) :=
  match c.pc with
  | .send =>
      let c' := { c with msg := c.request W }
      args.atId c.dst fun d =>
        .put d c'.msg (.client (if reply = .oneWay then c'.turn args else { c' with pc := .recv }))
  | .recv => args.atId c.dst fun d => .take d fun m => .client (Client.turn args { c with msg := m })
  | .done => .stop

def Server.next (me : args.Id) (s : Server M) : Action args.Id M (Loc M) :=
  match s.pc with
  | .recv =>
      .scan (args.cbuf me) fun src m =>
        let s' := { s with msg := m, sender := src.val }
        .server (if reply = .oneWay then s'.test args W else { s' with pc := .reply })
  | .reply =>
      args.atId s.sender fun c =>
        if reply = .noSync then .overwrite c s.msg (.server (s.test args W))
        else .put c s.msg (.server (s.test args W))
  | .done => .stop

def next (me : args.Id) : Loc M → Action args.Id M (Loc M)
  | .client c => c.next args reply W
  | .server s => s.next args reply W me

/-- The locations before the loops; `buf` is what `memalign` leaves in the message buffers. -/
def start (buf : args.Id → M) (me : args.Id) : Loc M :=
  if args.isDsl me then
    .server { pc := .recv, msg := buf me, sender := 0, numZeros := UInt32.ofNat args.numApp }
  else
    .client (Client.test
      { pc := .send, msg := buf me, numMsgs1 := args.numMsgs, dst := 0, dstIdx := 0 })

/-- The processes of a run; nobody meets anybody in the loops. -/
def network (buf : args.Id → M) : Network args.Id M (Loc M) where
  next := next args reply W
  group _ := false
  start := start args buf

end Loops

/-! ## The messages of a client -/

section Script

variable (args : ClientServerArgs)

/-- The process to which a client sends its `i`-th message: the first two go to the same server. -/
def dstAt (i : Nat) : Nat :=
  if i = 0 then 0 else args.dslSeq ((i - 1) % args.numDsl)

/-- The numbers of the messages to `d` among the first `i` of a client. -/
def script (d i : Nat) : List Nat :=
  ((List.range i).filter fun j => dstAt args j = d).map fun j => args.numMsgs - 1 - j

variable {args} {d i j : Nat}

theorem script_succ : script args d (i + 1) =
    script args d i ++ if dstAt args i = d then [args.numMsgs - 1 - i] else [] := by
  by_cases hd : dstAt args i = d <;> simp [script, List.range_succ, hd]

theorem script_add (d i k : Nat) : script args d i <+: script args d (i + k) := by
  induction k with
  | zero => exact List.prefix_refl _
  | succ k ih =>
      rw [← Nat.add_assoc, script_succ]
      exact ih.trans (List.prefix_append _ _)

theorem script_prefix (h : i ≤ j) : script args d i <+: script args d j := by
  obtain ⟨k, rfl⟩ := Nat.exists_eq_add_of_le h
  exact script_add d i k

/-- Among as many numbers in a row as the modulus, one has a given remainder. -/
theorem exists_mod_eq {D r : Nat} (hr : r < D) (q : Nat) :
    ∃ x, q ≤ x ∧ x < q + D ∧ x % D = r := by
  have hD : 0 < D := Nat.lt_of_le_of_lt (Nat.zero_le r) hr
  refine ⟨q + (r + (D - q % D)) % D, Nat.le_add_right _ _,
    Nat.add_lt_add_left (Nat.mod_lt _ hD) q, ?_⟩
  have hq := Nat.mod_lt q hD
  have hsum : q + (r + (D - q % D)) = r + D * (q / D + 1) := by
    have := Nat.div_add_mod q D
    rw [Nat.mul_add, Nat.mul_one]
    omega
  rw [Nat.add_mod_mod, hsum, Nat.add_mul_mod_self_left, Nat.mod_eq_of_lt hr]

/-- The last messages, as many as there are servers, go to different servers. -/
theorem dstAt_ne (hlt : args.numDsl < args.numMsgs) (hi : args.numMsgs - args.numDsl ≤ i)
    (hij : i < j) (hj : j < args.numMsgs) : dstAt args i ≠ dstAt args j := by
  have hpos := @Procs.numDsl_pos args.toProcs
  intro heq
  rw [dstAt, dstAt, if_neg (by omega), if_neg (by omega)] at heq
  have hmod := Procs.dslSeq_inj (Nat.mod_lt _ hpos) (Nat.mod_lt _ hpos) heq
  have hdvd : args.numDsl ∣ (j - 1) - (i - 1) :=
    (Nat.modEq_iff_dvd' (by omega)).1 hmod
  have := Nat.le_of_dvd (by omega) hdvd
  omega

/-- One of them goes to each server. -/
theorem exists_dstAt (hlt : args.numDsl < args.numMsgs) (hd : d < args.numProcs)
    (hdsl : args.isDsl ⟨d, hd⟩ = true) :
    ∃ i, args.numMsgs - args.numDsl ≤ i ∧ i < args.numMsgs ∧ dstAt args i = d := by
  rcases Procs.exists_dslSeq hdsl with ⟨j, hj, heq⟩
  rcases exists_mod_eq hj (args.numMsgs - args.numDsl - 1) with ⟨x, hge, hlt', hx⟩
  refine ⟨x + 1, by omega, by omega, ?_⟩
  rw [dstAt, if_neg (Nat.succ_ne_zero x), Nat.add_sub_cancel, hx]
  exact heq

/-- If there are more messages than servers, a client sends to every server one message with a number
below the number of servers, and it is the last one it sends there. -/
theorem script_last (hlt : args.numDsl < args.numMsgs) (hd : d < args.numProcs)
    (hdsl : args.isDsl ⟨d, hd⟩ = true) :
    ∃ pre v, script args d args.numMsgs = pre ++ [v] ∧ v < args.numDsl ∧
      ∀ x ∈ pre, args.numDsl ≤ x := by
  rcases exists_dstAt hlt hd hdsl with ⟨i, hi, hin, heq⟩
  -- after the `i`-th message nothing goes to `d`
  have hrest : ∀ k, i + 1 + k ≤ args.numMsgs → script args d (i + 1 + k) = script args d (i + 1) := by
    intro k
    induction k with
    | zero => intro _; rfl
    | succ k ih =>
        intro hk
        have hne : dstAt args (i + 1 + k) ≠ d := by
          rw [← heq]
          exact Ne.symm (dstAt_ne hlt hi (by omega) (by omega))
        rw [← Nat.add_assoc, script_succ, if_neg hne, List.append_nil]
        exact ih (by omega)
  have hall := hrest (args.numMsgs - (i + 1)) (by omega)
  rw [show i + 1 + (args.numMsgs - (i + 1)) = args.numMsgs by omega, script_succ, if_pos heq] at hall
  refine ⟨_, _, hall, by omega, ?_⟩
  intro x hx
  -- an earlier message to `d` is not among the last
  simp only [script, List.mem_map, List.mem_filter, List.mem_range, decide_eq_true_eq] at hx
  rcases hx with ⟨j, ⟨hj, hdst⟩, rfl⟩
  by_contra hsmall
  exact dstAt_ne hlt (by omega) hj hin (hdst.trans heq.symm)

end Script

end ClientServer
end Bench
end Ssmp
