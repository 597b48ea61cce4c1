import Ssmp.Platform.Generic

/-!
# Xeon — `src/platform/xeon/ssmp_platf.c`

On this platform a slot between two sockets is taken by compare-and-swap and a slot within one
socket by a plain test.  The two ends of a slot decide separately, by
`ssmp_cores_on_same_socket_platf`, which is the parameter `sameSocket` here; the color receives even
ask it about an index of the color buffer.  The main result lets every call of every process choose
its own path.
-/

namespace Ssmp
namespace Xeon

open Lib

variable {n : Nat}

/-! ## Functions -/

section Functions

variable (m : Memcpy x86Msg) (sameSocket : Nat → Nat → Bool) (useAtomic : Bool) (me : Fin n)

def ssmpRecvFromPlatf (src : Fin n) : List (Act n) :=
  recvLine m (!sameSocket me src) src

def ssmpRecvPlatf : List (Act n) :=
  recvAnyLine m useAtomic me

/-- The `start_recv_from` that the source advances before it returns is a dead local here. -/
def ssmpRecvColorPlatf (cbuf : ColorBuf n) : List (Act n) :=
  recvColorLine m (fun k => !sameSocket me k) cbuf

def ssmpRecvColorStartPlatf (cbuf : ColorBuf n) : List (Act n) :=
  recvColorStartLine m (fun k => !sameSocket me k) cbuf

def ssmpSendPlatf (dst : Fin n) : List (Act n) :=
  sendLine m (!sameSocket me dst) dst

def ssmpSendIsFreePlatf (dst : Fin n) : List (Act n) :=
  [.isFree dst]

def ssmpSendNoSyncPlatf (dst : Fin n) : List (Act n) :=
  sendLineNoSync m dst

def platform : Platform n where
  ssmpSendPlatf := ssmpSendPlatf m sameSocket me
  ssmpSendIsFreePlatf := ssmpSendIsFreePlatf
  ssmpSendNoSyncPlatf := ssmpSendNoSyncPlatf m
  ssmpRecvFromPlatf := ssmpRecvFromPlatf m sameSocket me
  ssmpRecvPlatf := ssmpRecvPlatf m useAtomic me
  ssmpRecvColorPlatf := ssmpRecvColorPlatf m sameSocket me
  ssmpRecvColorStartPlatf := ssmpRecvColorStartPlatf m sameSocket me

end Functions

theorem disciplined_platform {m : Memcpy x86Msg} {sameSocket : Nat → Nat → Bool}
    {useAtomic : Bool} {me : Fin n} :
    (platform m sameSocket useAtomic me).Disciplined x86Msg where
  send dst _ h := Disciplined.sendLine dst h
  sendIsFree _ := Disciplined.isFree Disciplined.nil
  sendNoSync dst := Disciplined.sendLineNoSync dst
  recvFrom src := Disciplined.recvLine src
  recv := Disciplined.scanIds readsLine_readLine
  recvColor _ hw := Disciplined.scanColor readsLine_readLine hw
  recvColorStart _ hw := Disciplined.scanColorStart readsLine_readLine hw

/-! ## Locking and plain calls on one slot -/

/-- The functions one call may come from: this platform with any outcome of its socket tests, or
the generic one with or without `USE_ATOMIC`, each with any order of its copies. -/
inductive Path where
  | xeon (m : Memcpy x86Msg) (sameSocket : Nat → Nat → Bool) (useAtomic : Bool)
  | generic (m : Memcpy x86Msg) (useAtomic : Bool)

def Path.platform {n : Nat} : Path → Fin n → Platform n
  | .xeon m sameSocket useAtomic, me => Xeon.platform m sameSocket useAtomic me
  | .generic m useAtomic, me => Generic.platform m useAtomic me

/-- Every call chooses its own path. -/
def mixedCalls (n : Nat) : Program n :=
  calls Path.platform (· ≠ ·)

def mixedSystem (n : Nat) : TransSys (Sys x86Msg n) (Label n) :=
  system x86Msg n (mixedCalls n)

theorem disciplined_mixedCalls : (mixedCalls n).Disciplined x86Msg := by
  refine calls_disciplined ?_ _
  intro path me
  -- the discipline does not ask how a slot was taken
  cases path with
  | xeon m sameSocket useAtomic => exact disciplined_platform
  | generic m useAtomic => exact Generic.disciplined_platform

/-- Whatever paths the calls choose, a slot refines a one-place FIFO buffer; it is locked exactly
while one of its ends is between its compare-and-swap and its releasing store; and if both ends
wait on it, the test of one of them succeeds. -/
theorem mixedSystem_slot {s : Sys x86Msg n} (h : (mixedSystem n).Reachable s) (i j : Fin n) :
    Relation.ReflTransGen OnePlace.Step ⟨none, [], []⟩ (s.buffer i j) ∧
      (∀ l t, (mixedSystem n).step s l t →
        Relation.ReflTransGen OnePlace.Step (s.buffer i j) (t.buffer i j)) ∧
      (s.buffer i j).Fifo ∧
      (x86Msg.stateOf (s.slot (i, j)) = ssmpBufLockd ↔
        Xor (s.SenderHolds i j) (s.ReceiverHolds i j)) ∧
      (s.Waits i (.sendBuf j) ssmpBufEmpty → s.Waits j (.recvBuf i) ssmpBufMessg →
        x86Msg.stateOf (s.slot (i, j)) = ssmpBufEmpty ∨
          x86Msg.stateOf (s.slot (i, j)) = ssmpBufMessg) := by
  rcases good_of_reachable disciplined_mixedCalls h with ⟨ts, hgood⟩
  refine ⟨buffer_of_reachable disciplined_mixedCalls h i j, ?_, ?_, hgood.locked_iff i j, ?_⟩
  · intro l t hst
    exact buffer_step disciplined_mixedCalls h hst i j
  · exact (hgood.slots i j).fifo
  · exact hgood.not_both_wait

/-- Process 0 of two has locked its slot to process 1, on another socket. -/
def afterLock : Sys x86Msg 2 :=
  ((Sys.fresh x86Msg 2).enter 0 (ssmpSendPlatf Generic.memcpyWords (fun _ _ => false) 0 1)
    fun _ => 7).runAlone 0 1

theorem reachable_afterLock : (mixedSystem 2).Reachable afterLock := by
  refine reachable_runAlone 0 1 ?_
  refine reachable_call _ (TransSys.Reachable.init Sys.init_fresh) rfl ?_
  exact calls.ssmpSend (Path.xeon Generic.memcpyWords (fun _ _ => false) false) (by decide)

theorem mixedSystem_slot_afterLock :
    x86Msg.stateOf (afterLock.slot (0, 1)) = ssmpBufLockd ∧
      Xor (afterLock.SenderHolds 0 1) (afterLock.ReceiverHolds 0 1) := by
  have hflag : x86Msg.stateOf (afterLock.slot (0, 1)) = ssmpBufLockd := rfl
  exact ⟨hflag, (mixedSystem_slot reachable_afterLock 0 1).2.2.2.1.1 hflag⟩

end Xeon
end Ssmp
