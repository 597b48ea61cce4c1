import Ssmp.Broadcast.Delivery
import Ssmp.Lib.Network

/-!
# Linked — programs that run with the library

The programs of a network are run with the calls of a build of the library: a process puts a message
with `ssmp_send`, overwrites with `ssmp_send_no_sync`, takes a message with `ssmp_recv_from` and scans
with `ssmp_recv_color_start`, and all atomic actions of these calls interleave.  A program goes on
with what its call leaves in the message buffer.  Only the barrier is taken as it should be.
-/

namespace Ssmp

open Lib

/-- The state of the library, where each process is in its program and whether it is in a call, how
often it has come to the barrier, and whether it waits there. -/
structure Linked (L : MsgLayout) (n : Nat) (σ : Type) where
  sys : Sys L n
  loc : Fin n → σ
  busy : Fin n → Bool
  met : Fin n → Nat
  waits : Fin n → Bool

namespace Linked

section Steps

variable {n : Nat} {σ : Type} (b : Build)

/-- The call with which process `me` does an action of its program, and its message buffer.  What a
program puts is the payload; the other bytes of the buffer are whatever is there. -/
inductive Calls (me : Fin n) :
    Action (Fin n) b.layout.Payload σ → List (Act n) → Line → Prop where
  | send {d : Fin n} {m : b.layout.Payload} {k : σ} {msg : Line} (hmsg : b.layout.payload msg = m) :
      Calls me (.put d m k) ((b.platform me).ssmpSendPlatf d) msg
  | sendNoSync {d : Fin n} {m : b.layout.Payload} {k : σ} {msg : Line}
      (hmsg : b.layout.payload msg = m) :
      Calls me (.overwrite d m k) ((b.platform me).ssmpSendNoSyncPlatf d) msg
  | recvFrom {r : Fin n} {k : b.layout.Payload → σ} (msg : Line) :
      Calls me (.take r k) ((b.platform me).ssmpRecvFromPlatf r) msg
  | recvColorStart {color : Int → Int} {srcs : List (Fin n)} {k : Fin n → b.layout.Payload → σ}
      (msg : Line) (hbuf : (ssmpColorBufInitPlatf me color).buf = srcs) :
      Calls me (.scan srcs k)
        ((b.platform me).ssmpRecvColorStartPlatf (ssmpColorBufInitPlatf me color)) msg

/-- Where a program goes on when its call has left `msg` in the buffer: with the payload and, after a
scan, with `msg->sender`. -/
inductive Returns (msg : Line) : Action (Fin n) b.layout.Payload σ → σ → Prop where
  | send {d : Fin n} {m : b.layout.Payload} {k : σ} : Returns msg (.put d m k) k
  | sendNoSync {d : Fin n} {m : b.layout.Payload} {k : σ} : Returns msg (.overwrite d m k) k
  | recvFrom {r : Fin n} {k : b.layout.Payload → σ} :
      Returns msg (.take r k) (k (b.layout.payload msg))
  | recvColorStart {srcs : List (Fin n)} {k : Fin n → b.layout.Payload → σ} {src : Fin n}
      (hsender : b.layout.senderOf msg = src.val) :
      Returns msg (.scan srcs k) (k src (b.layout.payload msg))

variable (N : Network (Fin n) b.layout.Payload σ)

inductive Step : Linked b.layout n σ → Fin n → Linked b.layout n σ → Prop where
  | call {x : Linked b.layout n σ} {me : Fin n} {code : List (Act n)} {msg : Line}
      (hidle : x.busy me = false) (hcall : Calls b me (N.next me (x.loc me)) code msg) :
      Step x me
        { x with sys := x.sys.enter me code msg, busy := Function.update x.busy me true }
  | run {x : Linked b.layout n σ} {me : Fin n} {t : Sys b.layout n} (hex : x.sys.exec me = some t) :
      Step x me { x with sys := t }
  | ret {x : Linked b.layout n σ} {me : Fin n} {k : σ} (hbusy : x.busy me = true)
      (hcode : (x.sys.proc me).code = [])
      (hret : Returns b (x.sys.proc me).msg (N.next me (x.loc me)) k) :
      Step x me
        { x with loc := Function.update x.loc me k, busy := Function.update x.busy me false }
  | arrive {x : Linked b.layout n σ} {me : Fin n} {k : σ} (hidle : x.busy me = false)
      (hnext : N.next me (x.loc me) = .meet k) (hout : x.waits me = false) :
      Step x me
        { x with
          met := Function.update x.met me (x.met me + 1)
          waits := Function.update x.waits me true }
  | leave {x : Linked b.layout n σ} {me : Fin n} {k : σ} (hidle : x.busy me = false)
      (hnext : N.next me (x.loc me) = .meet k) (hin : x.waits me = true)
      (hall : ∀ q, N.group q = true → x.met me ≤ x.met q) :
      Step x me
        { x with
          loc := Function.update x.loc me k
          waits := Function.update x.waits me false }

/-- The programs begin when the library is set up. -/
structure Init (x : Linked b.layout n σ) : Prop where
  sys : x.sys.Init
  loc : ∀ p, x.loc p = N.start p
  busy : ∀ p, x.busy p = false
  met : ∀ p, x.met p = 0
  waits : ∀ p, x.waits p = false

def system : TransSys (Linked b.layout n σ) (Fin n) where
  init := Init b N
  step := Step b N

end Steps

/-! ## Runs in which one process is at it -/

section Runs

variable {n : Nat} {σ : Type} {b : Build} {N : Network (Fin n) b.layout.Payload σ}
variable {x : Linked b.layout n σ} {me : Fin n} {code : List (Act n)} {msg : Line} {l : σ}

/-- Process `me` is in a call and takes up to `k` steps. -/
def alone (me : Fin n) (k : Nat) (x : Linked b.layout n σ) : Linked b.layout n σ :=
  { x with sys := x.sys.runAlone me k }

theorem reachable_alone (k : Nat) (h : (system b N).Reachable x) :
    (system b N).Reachable (x.alone me k) := by
  induction k generalizing x with
  | zero => exact h
  | succ k ih =>
      cases hex : x.sys.exec me with
      | none =>
          have hstay : x.sys.runAlone me (k + 1) = x.sys := by rw [Sys.runAlone, hex]
          rw [alone, hstay]
          exact h
      | some t =>
          have hnext : x.sys.runAlone me (k + 1) = t.runAlone me k := by rw [Sys.runAlone, hex]
          rw [alone, hnext]
          exact ih (TransSys.Reachable.step h (Step.run hex))

/-- A call of process `me` from its beginning to its end, of up to `k` actions, with nobody else at
it. -/
def callAlone (me : Fin n) (code : List (Act n)) (msg : Line) (k : Nat) (l : σ)
    (x : Linked b.layout n σ) : Linked b.layout n σ :=
  { x with
    sys := (x.sys.enter me code msg).runAlone me k
    loc := Function.update x.loc me l
    busy := Function.update (Function.update x.busy me true) me false }

theorem reachable_callAlone (k : Nat) (h : (system b N).Reachable x) (hidle : x.busy me = false)
    (hcall : Calls b me (N.next me (x.loc me)) code msg)
    (hcode : ((x.callAlone me code msg k l).sys.proc me).code = [])
    (hret : Returns b ((x.callAlone me code msg k l).sys.proc me).msg (N.next me (x.loc me)) l) :
    (system b N).Reachable (x.callAlone me code msg k l) := by
  have hrun := @reachable_alone n σ b N _ me k (TransSys.Reachable.step h (Step.call hidle hcall))
  exact TransSys.Reachable.step hrun (Step.ret (Function.update_self _ _ _) hcode hret)

end Runs

end Linked
end Ssmp
