import Mathlib.Data.List.Perm.Basic
import Ssmp.Api

/-!
# Niagara — `src/platform/niagara/ssmp_platf.c`

Here `memcpy64` copies the double words of the payload only, and a store of its own publishes the
message.  The messages are those of `include/ssmp_sparc.h`, with `SPARC_SMALL_MSG` or without.
-/

namespace Ssmp
namespace Niagara

open Lib

variable {n : Nat}

/-! ## `memcpy64` -/

/-- `SSMP_CACHE_LINE_DW` -/
def ssmpCacheLineDw : SparcMsg → Nat
  | .small => 2
  | .large => 7

/-- The double words that `memcpy64` copies.  For small messages it ignores its count and copies
`dst[0]` and `dst[1]`, which `SSMP_CACHE_LINE_DW` agrees with. -/
def memcpy64 (v : SparcMsg) : List Piece :=
  (List.range (ssmpCacheLineDw v)).map fun w => ⟨8 * w, 8⟩

/-- An order in which the double words of one `memcpy64` take effect. -/
structure CopyOrder (v : SparcMsg) where
  pieces : List Piece
  perm : pieces.Perm (memcpy64 v)

theorem memcpy64_spares_state (v : SparcMsg) : ∀ p ∈ memcpy64 v, ¬ p.Has (sparcMsg v).state := by
  cases v with
  | small => decide
  | large => decide

theorem memcpy64_payload (v : SparcMsg) : CopiesPayload (sparcMsg v) (memcpy64 v) := by
  cases v with
  | small =>
      have h : ∀ b : Fin 16, ∃ p ∈ memcpy64 .small, p.Has b := by decide
      exact h
  | large =>
      have h : ∀ b : Fin 56, ∃ p ∈ memcpy64 .large, p.Has b := by decide
      exact h

theorem CopyOrder.spares_state {v : SparcMsg} (o : CopyOrder v) :
    ∀ p ∈ o.pieces, ¬ p.Has (sparcMsg v).state := by
  intro p hp
  exact memcpy64_spares_state v p (o.perm.mem_iff.1 hp)

theorem CopyOrder.payload {v : SparcMsg} (o : CopyOrder v) :
    CopiesPayload (sparcMsg v) o.pieces := by
  intro b
  rcases memcpy64_payload v b with ⟨p, hp, hb⟩
  exact ⟨p, o.perm.mem_iff.2 hp, hb⟩

/-! ## Functions -/

section Functions

variable {v : SparcMsg} (o : CopyOrder v) (me : Fin n)

def ssmpRecvFromPlatf (src : Fin n) : List (Act n) :=
  .await (.recvBuf src) ssmpBufMessg ::
    (o.pieces.map (.copyIn src) ++ [.store (.recvBuf src) ssmpBufEmpty])

/-- What `ssmp_recv_platf` does with the message it has found. -/
def readMsg (src : Fin n) (id : UInt32) : List (Act n) :=
  o.pieces.map (.copyIn src) ++ [.setSender id, .store (.recvBuf src) ssmpBufEmpty]

/-- The color receives release the slot before they write the sender. -/
def readColorMsg (src : Fin n) (id : UInt32) : List (Act n) :=
  o.pieces.map (.copyIn src) ++ [.store (.recvBuf src) ssmpBufEmpty, .setSender id]

def ssmpRecvPlatf : List (Act n) :=
  [.scan n (recvTest me false) (recvBody (readMsg o)) 0]

/-- The `start_recv_from` that the source advances before it returns is a dead local here. -/
def ssmpRecvColorPlatf (cbuf : ColorBuf n) : List (Act n) :=
  [.scan cbuf.numUes (colorTest cbuf fun _ => false) (colorBody (readColorMsg o) cbuf) 0]

def ssmpRecvColorStartPlatf (cbuf : ColorBuf n) : List (Act n) :=
  [.scanStart cbuf.numUes (colorTest cbuf fun _ => false)
    fun k => colorBody (readColorMsg o) cbuf k ++ [.advance cbuf.numUes]]

def ssmpSendNoSyncPlatf (dst : Fin n) : List (Act n) :=
  o.pieces.map (.copyOut dst) ++ [.store (.sendBuf dst) ssmpBufMessg]

def ssmpSendPlatf (dst : Fin n) : List (Act n) :=
  .await (.sendBuf dst) ssmpBufEmpty :: ssmpSendNoSyncPlatf o dst

def ssmpSendIsFreePlatf (dst : Fin n) : List (Act n) :=
  [.isFree dst]

def platform : Platform n where
  ssmpSendPlatf := ssmpSendPlatf o
  ssmpSendIsFreePlatf := ssmpSendIsFreePlatf
  ssmpSendNoSyncPlatf := ssmpSendNoSyncPlatf o
  ssmpRecvFromPlatf := ssmpRecvFromPlatf o
  ssmpRecvPlatf := ssmpRecvPlatf o me
  ssmpRecvColorPlatf := ssmpRecvColorPlatf o
  ssmpRecvColorStartPlatf := ssmpRecvColorStartPlatf o

end Functions

/-! ## Discipline -/

variable {v : SparcMsg} {o : CopyOrder v} {me : Fin n}

theorem readsLine_readMsg : ReadsLine (sparcMsg v) (readMsg (n := n) o) := by
  intro r id lk c h
  rw [readMsg, List.append_assoc]
  exact Disciplined.copyIn_setSender_store o.payload h

theorem readsLine_readColorMsg : ReadsLine (sparcMsg v) (readColorMsg (n := n) o) := by
  intro r id lk c h
  rw [readColorMsg, List.append_assoc]
  exact Disciplined.copyIn_store o.payload (Disciplined.senderIdle h)

theorem disciplined_noSync {dst : Fin n} {c : List (Act n)}
    (h : Disciplined (sparcMsg v) (.idle true) c) :
    Disciplined (sparcMsg v) (.sending dst false false []) (ssmpSendNoSyncPlatf o dst ++ c) := by
  rw [ssmpSendNoSyncPlatf, List.append_assoc]
  exact Disciplined.copyOut_store o.spares_state o.payload h

theorem disciplined_platform : (platform o me).Disciplined (sparcMsg v) where
  send _ _ h := Disciplined.awaitSend (disciplined_noSync h)
  sendIsFree _ := Disciplined.isFree Disciplined.nil
  sendNoSync _ := Disciplined.copyOut_store o.spares_state o.payload Disciplined.nil
  recvFrom _ := Disciplined.awaitRecv (Disciplined.copyIn_store o.payload Disciplined.nil)
  recv := Disciplined.scanIds readsLine_readMsg
  recvColor _ hw := Disciplined.scanColor readsLine_readColorMsg hw
  recvColorStart _ hw := Disciplined.scanColorStart readsLine_readColorMsg hw

/-! ## No copy moves a state byte -/

def IsCopy : Act n → Prop
  | .copyOut _ _ => True
  | .copyIn _ _ => True
  | _ => False

/-- The action locks no slot and copies no state byte. -/
def SparesState (L : MsgLayout) (a : Act n) : Prop :=
  a.NoLock ∧ match a with
    | .copyOut _ p => ¬ p.Has L.state
    | .copyIn _ p => ¬ p.Has L.state
    | _ => True

theorem sparesState_scanInvariant (L : MsgLayout) : ScanInvariant (SparesState (n := n) L) := by
  intro num test body k k' h
  exact h

theorem sparesState_single {L : MsgLayout} {a : Act n} (h : SparesState L a)
    (hbody : ∀ k, a.body k = []) : EveryIn (SparesState L) [a] :=
  EveryIn.cons (Act.Every.single h hbody) EveryIn.nil

theorem sparesState_copyIn (src : Fin n) :
    EveryIn (SparesState (sparcMsg v)) (o.pieces.map (.copyIn src)) :=
  EveryIn.map fun p hp => Act.Every.single ⟨trivial, o.spares_state p hp⟩ fun _ => rfl

theorem sparesState_noSync (dst : Fin n) :
    EveryIn (SparesState (sparcMsg v)) (ssmpSendNoSyncPlatf o dst) := by
  refine EveryIn.append ?_ (sparesState_single ⟨trivial, trivial⟩ fun _ => rfl)
  exact EveryIn.map fun p hp => Act.Every.single ⟨trivial, o.spares_state p hp⟩ fun _ => rfl

theorem sparesState_readMsg (src : Fin n) (id : UInt32) :
    EveryIn (SparesState (sparcMsg v)) (readMsg o src id) := by
  refine EveryIn.append (sparesState_copyIn src) ?_
  exact EveryIn.cons (Act.Every.single ⟨trivial, trivial⟩ fun _ => rfl)
    (sparesState_single ⟨trivial, trivial⟩ fun _ => rfl)

theorem sparesState_readColorMsg (src : Fin n) (id : UInt32) :
    EveryIn (SparesState (sparcMsg v)) (readColorMsg o src id) := by
  refine EveryIn.append (sparesState_copyIn src) ?_
  exact EveryIn.cons (Act.Every.single ⟨trivial, trivial⟩ fun _ => rfl)
    (sparesState_single ⟨trivial, trivial⟩ fun _ => rfl)

theorem sparesState_platform : (platform o me).Every (SparesState (sparcMsg v)) where
  send dst := EveryIn.cons (Act.Every.single ⟨trivial, trivial⟩ fun _ => rfl) (sparesState_noSync dst)
  sendIsFree _ := sparesState_single ⟨trivial, trivial⟩ fun _ => rfl
  sendNoSync dst := sparesState_noSync dst
  recvFrom src := by
    refine EveryIn.cons (Act.Every.single ⟨trivial, trivial⟩ fun _ => rfl) ?_
    exact EveryIn.append (sparesState_copyIn src)
      (sparesState_single ⟨trivial, trivial⟩ fun _ => rfl)
  recv := by
    refine EveryIn.cons (Act.Every.intro ⟨recvTest_noLock, trivial⟩ ?_) EveryIn.nil
    exact EveryIn.recvBody sparesState_readMsg
  recvColor cbuf := by
    refine EveryIn.cons (Act.Every.intro ⟨colorTest_noLock, trivial⟩ ?_) EveryIn.nil
    exact EveryIn.colorBody sparesState_readColorMsg cbuf
  recvColorStart cbuf := by
    refine EveryIn.cons (Act.Every.intro ⟨colorTest_noLock, trivial⟩ ?_) EveryIn.nil
    intro k
    exact EveryIn.append (EveryIn.colorBody sparesState_readColorMsg cbuf k)
      (sparesState_single ⟨trivial, trivial⟩ fun _ => rfl)

/-- A copy that spares the state byte leaves the flags of all slots and of all message buffers. -/
theorem execAct_spares_state {L : MsgLayout} {s : Sys L n} {a : Act n} {rest : List (Act n)}
    (h : SparesState L a) (hcopy : IsCopy a) :
    (∀ ij, L.stateOf ((s.execAct me a rest).slot ij) = L.stateOf (s.slot ij)) ∧
      ∀ p, L.stateOf ((s.execAct me a rest).proc p).msg = L.stateOf (s.proc p).msg := by
  cases a with
  | copyOut d pc =>
      -- of the slots only the one copied to may change, and of its bytes not the state
      have hst : ¬ pc.Has L.state := h.2
      simp only [Sys.execAct, hst, false_and, if_false]
      constructor
      · intro ij
        by_cases hij : ij = (me, d)
        · subst hij
          simp [Sys.setProc, Sys.setSlot, L.stateOf_copyPiece, hst]
        · simp [Sys.setProc, Sys.setSlot, hij]
      · intro p
        by_cases hp : p = me
        · subst hp
          simp [Sys.setSlot]
        · rw [setProc_proc_ne hp]
          rfl
  | copyIn r pc =>
      have hst : ¬ pc.Has L.state := h.2
      constructor
      · intro ij
        rfl
      · intro p
        by_cases hp : p = me
        · subst hp
          simp [Sys.execAct, L.stateOf_copyPiece, hst]
        · rw [execAct_proc_ne hp]
  | _ => exact absurd hcopy id

/-! ## The channel of an ordered pair -/

/-- `n` processes on this platform; every call has its own order of copies. -/
def niagaraSystem (v : SparcMsg) (n : Nat) : TransSys (Sys (sparcMsg v) n) (Label n) :=
  system (sparcMsg v) n (calls (platform (v := v)) fun _ _ => True)

/-- Every slot refines the one-place FIFO buffer: the payloads received are a prefix of those sent,
at most one behind, and a message on its way is the content of its full slot.  No copy changes the
state byte of a slot, or that of the message buffer it is copied to. -/
theorem niagaraSystem_channel {s : Sys (sparcMsg v) n} (h : (niagaraSystem v n).Reachable s)
    (i j : Fin n) :
    Relation.ReflTransGen OnePlace.Step ⟨none, [], []⟩ (s.buffer i j) ∧
      s.recvd (i, j) <+: s.sent (i, j) ∧
      (s.sent (i, j)).length ≤ (s.recvd (i, j)).length + 1 ∧
      (s.sent (i, j) ≠ s.recvd (i, j) ↔ (sparcMsg v).stateOf (s.slot (i, j)) = ssmpBufMessg) ∧
      (s.sent (i, j) ≠ s.recvd (i, j) →
        s.sent (i, j) = s.recvd (i, j) ++ [(sparcMsg v).payload (s.slot (i, j))]) ∧
      ∀ me t a rest, (s.proc me).code = a :: rest → IsCopy a →
        (niagaraSystem v n).step s (.run me) t →
        (∀ ij, (sparcMsg v).stateOf (t.slot ij) = (sparcMsg v).stateOf (s.slot ij)) ∧
          ∀ p, (sparcMsg v).stateOf (t.proc p).msg = (sparcMsg v).stateOf (s.proc p).msg := by
  have hdisc : (calls (platform (v := v) (n := n)) fun _ _ => True).Disciplined (sparcMsg v) :=
    calls_disciplined (fun _ _ => disciplined_platform) _
  have hevery : (calls (platform (v := v) (n := n)) fun _ _ => True).Every
      (SparesState (sparcMsg v)) := calls_every (fun _ _ => sparesState_platform) _
  rcases good_of_reachable hdisc h with ⟨ts, hgood⟩
  have hfifo := hgood.channelFifo i j
  have hlocked : ∀ p, (s.proc p).locked = none := by
    refine locked_of_reachable ?_ h
    intro me free code hcall a ha
    exact (hevery me free code hcall a ha).imp fun _ hspare => hspare.1
  refine ⟨buffer_of_reachable hdisc h i j, hfifo.received, hfifo.behind,
    hgood.pending_iff hlocked, hfifo.pending, ?_⟩
  -- the action at hand is one of the program, so it spares the state byte
  intro me t a rest hcode hcopy hst
  cases hst with
  | run hex =>
      have ht := Sys.exec_of_code hcode hex
      subst ht
      have hspare := everyIn_of_reachable (sparesState_scanInvariant _) hevery h me a (by simp [hcode])
      exact execAct_spares_state hspare.head hcopy

/-- `memcpy64` of a small message with its second double word first. -/
def secondFirst : CopyOrder .small where
  pieces := [⟨8, 8⟩, ⟨0, 8⟩]
  perm := by decide

/-- Process 0 of two has sent a message to process 1. -/
def afterSend : Sys (sparcMsg .small) 2 :=
  ((Sys.fresh (sparcMsg .small) 2).enter 0 (ssmpSendPlatf secondFirst 1) fun _ => 7).runAlone 0 4

theorem reachable_afterSend : (niagaraSystem .small 2).Reachable afterSend := by
  refine reachable_runAlone 0 4 ?_
  refine reachable_call _ (TransSys.Reachable.init Sys.init_fresh) rfl ?_
  exact calls.ssmpSend secondFirst trivial

theorem niagaraSystem_channel_afterSend :
    afterSend.sent (0, 1) = [fun _ => 7] ∧ afterSend.recvd (0, 1) = [] ∧
      (sparcMsg .small).stateOf (afterSend.slot (0, 1)) = ssmpBufMessg := by
  have hsent : afterSend.sent (0, 1) = [fun _ => 7] := rfl
  have hrecvd : afterSend.recvd (0, 1) = [] := rfl
  refine ⟨hsent, hrecvd, ?_⟩
  -- the message is on its way, so the slot is full
  refine (niagaraSystem_channel reachable_afterSend 0 1).2.2.2.1.1 ?_
  rw [hsent, hrecvd]
  exact List.cons_ne_nil _ _

end Niagara
end Ssmp
