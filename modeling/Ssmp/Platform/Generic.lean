import Ssmp.Api

/-!
# Generic — `src/platform/generic/ssmp_platf.c`

The functions for messages of one line.  `useAtomic` stands for `USE_ATOMIC == 1` and `m` for the
order in which the moves of a `memcpy` take effect.
-/

namespace Ssmp
namespace Generic

open Lib

variable {n : Nat}

/-! ## Copies -/

/-- The words of a line in ascending order. -/
def lineWords : List Piece :=
  (List.range (ssmpCacheLineSize / 4)).map fun w => ⟨4 * w, 4⟩

/-- A `memcpy` that moves the words of a line in ascending order: the payload, the word with the
state byte, the rest of `pad`. -/
def memcpyWords : Memcpy x86Msg where
  out :=
    { fill := (List.range 14).map fun w => ⟨4 * w, 4⟩
      flag := ⟨4 * 14, 4⟩
      trail := [⟨4 * 15, 4⟩]
      whole := by decide
      flag_has := by decide
      flag_once := by decide
      payload_first := by decide }
  back := lineWords
  back_whole := by decide

example : memcpyWords.out.pieces = lineWords := by decide

/-! ## Functions -/

section Functions

variable (m : Memcpy x86Msg) (useAtomic : Bool) (me : Fin n)

def ssmpRecvFromPlatf (src : Fin n) : List (Act n) :=
  recvLine m useAtomic src

def ssmpRecvPlatf : List (Act n) :=
  recvAnyLine m useAtomic me

def ssmpRecvColorPlatf (cbuf : ColorBuf n) : List (Act n) :=
  recvColorLine m (fun _ => useAtomic) cbuf

def ssmpRecvColorStartPlatf (cbuf : ColorBuf n) : List (Act n) :=
  recvColorStartLine m (fun _ => useAtomic) cbuf

def ssmpSendPlatf (dst : Fin n) : List (Act n) :=
  sendLine m useAtomic dst

def ssmpSendIsFreePlatf (dst : Fin n) : List (Act n) :=
  [.isFree dst]

def ssmpSendNoSyncPlatf (dst : Fin n) : List (Act n) :=
  sendLineNoSync m dst

def platform : Platform n where
  ssmpSendPlatf := ssmpSendPlatf m useAtomic
  ssmpSendIsFreePlatf := ssmpSendIsFreePlatf
  ssmpSendNoSyncPlatf := ssmpSendNoSyncPlatf m
  ssmpRecvFromPlatf := ssmpRecvFromPlatf m useAtomic
  ssmpRecvPlatf := ssmpRecvPlatf m useAtomic me
  ssmpRecvColorPlatf := ssmpRecvColorPlatf m useAtomic
  ssmpRecvColorStartPlatf := ssmpRecvColorStartPlatf m useAtomic

end Functions

/-! ## Discipline -/

variable {m : Memcpy x86Msg} {useAtomic : Bool} {me : Fin n}

theorem disciplined_platform : (platform m useAtomic me).Disciplined x86Msg where
  send dst _ h := Disciplined.sendLine dst h
  sendIsFree _ := Disciplined.isFree Disciplined.nil
  sendNoSync dst := Disciplined.sendLineNoSync dst
  recvFrom src := Disciplined.recvLine src
  recv := Disciplined.scanIds readsLine_readLine
  recvColor _ hw := Disciplined.scanColor readsLine_readLine hw
  recvColorStart _ hw := Disciplined.scanColorStart readsLine_readLine hw

theorem noLock_platform : (platform m false me).Every Act.NoLock where
  send dst := noLock_sendLine dst
  sendIsFree _ := noLock_single trivial fun _ => rfl
  sendNoSync dst := noLock_sendLineNoSync dst
  recvFrom src := noLock_recvLine src
  recv := noLock_recvAnyLine me
  recvColor cbuf := noLock_recvColorLine cbuf
  recvColorStart cbuf := noLock_recvColorStartLine cbuf

/-! ## The channel of an ordered pair -/

/-- `n` processes on this platform, built with `USE_ATOMIC` 0, every copy moving the words of a
line in ascending order. -/
def plainSystem (n : Nat) : TransSys (Sys x86Msg n) (Label n) :=
  system x86Msg n (calls (fun _ : Unit => platform memcpyWords false) (· ≠ ·))

/-- On every ordered pair, whatever calls the processes mix and however they interleave, the
payloads received are those sent, in the order of sending and each of them once, up to one message;
a message is on its way exactly while the slot has state `SSMP_BUF_MESSG`, and it is the content of
the slot. -/
theorem plainSystem_channel {s : Sys x86Msg n} (h : (plainSystem n).Reachable s) (i j : Fin n) :
    s.recvd (i, j) <+: s.sent (i, j) ∧
      (s.sent (i, j)).length ≤ (s.recvd (i, j)).length + 1 ∧
      (s.sent (i, j) ≠ s.recvd (i, j) ↔ x86Msg.stateOf (s.slot (i, j)) = ssmpBufMessg) ∧
      (s.sent (i, j) ≠ s.recvd (i, j) →
        s.sent (i, j) = s.recvd (i, j) ++ [x86Msg.payload (s.slot (i, j))]) := by
  rcases good_of_reachable (calls_disciplined (fun _ _ => disciplined_platform) _) h with ⟨ts, hgood⟩
  have hlocked := locked_of_reachable (calls_every (fun _ _ => noLock_platform) _) h
  have hfifo := hgood.channelFifo i j
  exact ⟨hfifo.received, hfifo.behind, hgood.pending_iff hlocked, hfifo.pending⟩

/-- Process 0 of two has sent a message to process 1. -/
def afterSend : Sys x86Msg 2 :=
  ((Sys.fresh x86Msg 2).enter 0 (ssmpSendPlatf memcpyWords false 1) fun _ => 7).runAlone 0 18

theorem reachable_afterSend : (plainSystem 2).Reachable afterSend := by
  refine reachable_runAlone 0 18 ?_
  refine reachable_call _ (TransSys.Reachable.init Sys.init_fresh) rfl ?_
  exact calls.ssmpSend () (by decide)

theorem plainSystem_channel_afterSend :
    afterSend.sent (0, 1) = [fun _ => 7] ∧ afterSend.recvd (0, 1) = [] ∧
      x86Msg.stateOf (afterSend.slot (0, 1)) = ssmpBufMessg := by
  have hsent : afterSend.sent (0, 1) = [fun _ => 7] := rfl
  have hrecvd : afterSend.recvd (0, 1) = [] := rfl
  refine ⟨hsent, hrecvd, ?_⟩
  refine (plainSystem_channel reachable_afterSend 0 1).2.2.1.1 ?_
  rw [hsent, hrecvd]
  exact List.cons_ne_nil _ _

end Generic
end Ssmp
