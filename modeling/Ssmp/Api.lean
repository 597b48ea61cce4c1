import Ssmp.Line

/-!
# Api — the calls of the library over a platform

The functions of `src/ssmp_send.c`, `src/ssmp_recv.c` and `src/ssmp_broadcast.c` pass to a platform
(`src/platform/*/ssmp_platf.c`).  This module says which calls a process may make (`calls`) and
reduces the discipline of all calls to that of the platform's functions.
-/

namespace Ssmp

open Lib

/-! ## Platforms and calls -/

/-- The functions a platform defines for one of its processes, as lists of actions. -/
structure Platform (n : Nat) where
  ssmpSendPlatf : Fin n → List (Act n)
  ssmpSendIsFreePlatf : Fin n → List (Act n)
  ssmpSendNoSyncPlatf : Fin n → List (Act n)
  ssmpRecvFromPlatf : Fin n → List (Act n)
  ssmpRecvPlatf : List (Act n)
  ssmpRecvColorPlatf : ColorBuf n → List (Act n)
  ssmpRecvColorStartPlatf : ColorBuf n → List (Act n)

section Calls

variable {L : MsgLayout} {n : Nat} {ι : Type}

/-- `ssmp_broadcast`: a send to every other process in the order of the ids. -/
def ssmpBroadcast (ssmpSend : Fin n → List (Act n)) (me : Fin n) : List (Act n) :=
  (List.finRange n).flatMap fun core => if core = me then [] else ssmpSend core

/-- The calls of process `me`.  Each call may take another member of the family `P`, and `hasSlot`
says which pairs have a slot.  `ssmp_send_no_sync` needs a free slot. -/
inductive calls (P : ι → Fin n → Platform n) (hasSlot : Fin n → Fin n → Prop) : Program n where
  | ssmpSend (x : ι) {me dst : Fin n} {free : Fin n → Bool} (h : hasSlot me dst) :
      calls P hasSlot me free ((P x me).ssmpSendPlatf dst)
  | ssmpSendIsFree (x : ι) {me dst : Fin n} {free : Fin n → Bool} (h : hasSlot me dst) :
      calls P hasSlot me free ((P x me).ssmpSendIsFreePlatf dst)
  | ssmpSendNoSync (x : ι) {me dst : Fin n} {free : Fin n → Bool} (h : hasSlot me dst)
      (hfree : free dst = true) : calls P hasSlot me free ((P x me).ssmpSendNoSyncPlatf dst)
  | ssmpBroadcast (x : Fin n → ι) {me : Fin n} {free : Fin n → Bool} :
      calls P hasSlot me free
        (Ssmp.ssmpBroadcast (fun core => (P (x core) me).ssmpSendPlatf core) me)
  | ssmpRecvFrom (x : ι) {me src : Fin n} {free : Fin n → Bool} (h : hasSlot src me) :
      calls P hasSlot me free ((P x me).ssmpRecvFromPlatf src)
  | ssmpRecv (x : ι) {me : Fin n} {free : Fin n → Bool} :
      calls P hasSlot me free ((P x me).ssmpRecvPlatf)
  | ssmpRecvColor (x : ι) {me : Fin n} {free : Fin n → Bool} (color : Int → Int) :
      calls P hasSlot me free ((P x me).ssmpRecvColorPlatf (ssmpColorBufInitPlatf me color))
  | ssmpRecvColorStart (x : ι) {me : Fin n} {free : Fin n → Bool} (color : Int → Int) :
      calls P hasSlot me free ((P x me).ssmpRecvColorStartPlatf (ssmpColorBufInitPlatf me color))

/-- What a platform has to prove of its functions. -/
structure Platform.Disciplined (L : MsgLayout) (P : Platform n) : Prop where
  send : ∀ dst c, Ssmp.Disciplined L (.idle true) c →
    Ssmp.Disciplined L (.idle true) (P.ssmpSendPlatf dst ++ c)
  sendIsFree : ∀ dst, Ssmp.Disciplined L (.idle true) (P.ssmpSendIsFreePlatf dst)
  sendNoSync : ∀ dst, Ssmp.Disciplined L (.sending dst false false []) (P.ssmpSendNoSyncPlatf dst)
  recvFrom : ∀ src, Ssmp.Disciplined L (.idle true) (P.ssmpRecvFromPlatf src)
  recv : Ssmp.Disciplined L (.idle true) P.ssmpRecvPlatf
  recvColor : ∀ cbuf : ColorBuf n, cbuf.WellFormed →
    Ssmp.Disciplined L (.idle true) (P.ssmpRecvColorPlatf cbuf)
  recvColorStart : ∀ cbuf : ColorBuf n, cbuf.WellFormed →
    Ssmp.Disciplined L (.idle true) (P.ssmpRecvColorStartPlatf cbuf)

theorem Disciplined.broadcast {ssmpSend : Fin n → List (Act n)}
    (h : ∀ dst c, Disciplined L (.idle true) c →
      Disciplined L (.idle true) (ssmpSend dst ++ c)) (me : Fin n) :
    Disciplined L (.idle true) (ssmpBroadcast ssmpSend me) := by
  unfold ssmpBroadcast
  -- by induction on the processes left to send to
  induction List.finRange n with
  | nil => exact Disciplined.nil
  | cons core cores ih =>
      rw [List.flatMap_cons]
      split
      · exact ih
      · exact h core _ ih

theorem calls_disciplined {P : ι → Fin n → Platform n} (h : ∀ x me, (P x me).Disciplined L)
    (hasSlot : Fin n → Fin n → Prop) : (calls P hasSlot).Disciplined L := by
  intro me free code hcall
  -- only `ssmp_send_no_sync` begins in possession of its slot
  cases hcall with
  | @ssmpSend x _ dst _ hslot =>
      have hsend := (h x me).send dst [] Disciplined.nil
      rw [List.append_nil] at hsend
      exact Or.inl hsend
  | ssmpSendIsFree x hslot => exact Or.inl ((h x me).sendIsFree _)
  | ssmpSendNoSync x hslot hfree => exact Or.inr ⟨_, hfree, (h x me).sendNoSync _⟩
  | ssmpBroadcast x => exact Or.inl (Disciplined.broadcast (fun dst => (h (x dst) me).send dst) me)
  | ssmpRecvFrom x hslot => exact Or.inl ((h x me).recvFrom _)
  | ssmpRecv x => exact Or.inl ((h x me).recv)
  | ssmpRecvColor x color =>
      exact Or.inl ((h x me).recvColor _ (ssmpColorBufInitPlatf_wellFormed me color))
  | ssmpRecvColorStart x color =>
      exact Or.inl ((h x me).recvColorStart _ (ssmpColorBufInitPlatf_wellFormed me color))

/-- `P` holds of all actions of the platform's functions. -/
structure Platform.Every (P : Act n → Prop) (F : Platform n) : Prop where
  send : ∀ dst, EveryIn P (F.ssmpSendPlatf dst)
  sendIsFree : ∀ dst, EveryIn P (F.ssmpSendIsFreePlatf dst)
  sendNoSync : ∀ dst, EveryIn P (F.ssmpSendNoSyncPlatf dst)
  recvFrom : ∀ src, EveryIn P (F.ssmpRecvFromPlatf src)
  recv : EveryIn P F.ssmpRecvPlatf
  recvColor : ∀ cbuf, EveryIn P (F.ssmpRecvColorPlatf cbuf)
  recvColorStart : ∀ cbuf, EveryIn P (F.ssmpRecvColorStartPlatf cbuf)

theorem EveryIn.broadcast {P : Act n → Prop} {ssmpSend : Fin n → List (Act n)}
    (h : ∀ dst, EveryIn P (ssmpSend dst)) (me : Fin n) :
    EveryIn P (Ssmp.ssmpBroadcast ssmpSend me) := by
  refine EveryIn.flatMap ?_
  intro core _
  split
  · exact EveryIn.nil
  · exact h core

theorem calls_every {P : Act n → Prop} {F : ι → Fin n → Platform n}
    (h : ∀ x me, (F x me).Every P) (hasSlot : Fin n → Fin n → Prop) :
    (calls F hasSlot).Every P := by
  intro me free code hcall
  cases hcall with
  | ssmpSend x hslot => exact (h x me).send _
  | ssmpSendIsFree x hslot => exact (h x me).sendIsFree _
  | ssmpSendNoSync x hslot hfree => exact (h x me).sendNoSync _
  | ssmpBroadcast x => exact EveryIn.broadcast (fun dst => (h (x dst) me).send dst) me
  | ssmpRecvFrom x hslot => exact (h x me).recvFrom _
  | ssmpRecv x => exact (h x me).recv
  | ssmpRecvColor x color => exact (h x me).recvColor _
  | ssmpRecvColorStart x color => exact (h x me).recvColorStart _

end Calls

end Ssmp
