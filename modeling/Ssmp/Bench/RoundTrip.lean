import Ssmp.Bench.ExitCount
import Ssmp.Linked.Refines

/-!
# Bench.RoundTrip — replies without a test

With `ROUNDTRIP` and `NO_SYNC_SRV` the servers of `benchmarks/client_server.c` send every message back
with `ssmp_send_no_sync`, which does not look at the slot.  A client has at most one request on its
way, so the slot from the server to it is empty whenever the server replies (`noSync_replies`).
-/

namespace Ssmp
namespace Bench

open Lib Network

namespace ClientServer

section NoSync

variable {args : ClientServerArgs} {M : Type} {W : MsgWords M} {buf : args.Id → M}
variable {reply : Reply}

/-- A reply overwrites an empty place. -/
theorem safe {s : State args.Id M (Loc M)} (h : (network args reply W buf).system.Reachable s) :
    (network args reply W buf).Safe s := by
  intro p d m k hnext
  cases hloc : s.loc p with
  | client cl =>
      -- clients do not overwrite
      cases hpc : cl.pc with
      | send =>
          simp only [network, hloc, next, Client.next, hpc] at hnext
          rcases Procs.exists_of_atId hnext (by simp) with ⟨q, _, hq⟩
          cases hq
      | recv =>
          simp only [network, hloc, next, Client.next, hpc] at hnext
          rcases Procs.exists_of_atId hnext (by simp) with ⟨q, _, hq⟩
          cases hq
      | done =>
          simp only [network, hloc, next, Client.next, hpc] at hnext
          cases hnext
  | server sv =>
      cases hpc : sv.pc with
      | recv =>
          simp only [network, hloc, next, Server.next, hpc] at hnext
          cases hnext
      | reply =>
          simp only [network, hloc, next, Server.next, hpc] at hnext
          rcases Procs.exists_of_atId hnext (by simp) with ⟨c, hc, hq⟩
          split at hq
          · cases hq
            exact (exchange h).reply_free ((progress h p).server sv hloc) hloc hpc hc
          · cases hq
      | done =>
          simp only [network, hloc, next, Server.next, hpc] at hnext
          cases hnext

end NoSync

/-! ## On the library -/

section Replies

variable {b : Build} {args : ClientServerArgs} {W : MsgWords b.layout.Payload}
variable {buf : args.Id → b.layout.Payload}
variable {x : Linked b.layout args.numProcs (Loc b.layout.Payload)}

theorem length_serves {M : Type} (l : Loc M) (c : Nat) : (l.serves c).length ≤ 1 := by
  cases l with
  | client cl => simp [Loc.serves]
  | server sv =>
      simp only [Loc.serves]
      split <;> simp

/-- What the programs do on the library they can do on the network. -/
theorem refined {reply : Reply} (h : (Linked.system b (network args reply W buf)).Reachable x) :
    ∃ s, (network args reply W buf).system.Reachable s ∧
      Linked.Rel b (network args reply W buf) x s :=
  Linked.refines Procs.numProcs_le_256 (fun _ => safe) h

/-- In every run of the clients and servers on any build of the library: whenever a server calls
`ssmp_send_no_sync` the slot to its client is empty; and the replies that a client has had from a
server are its requests to the server in order, up to the request that it waits for. -/
theorem noSync_replies (h : (Linked.system b (network args .noSync W buf)).Reachable x) :
    (∀ d c m k, x.busy d = false → (network args .noSync W buf).next d (x.loc d) = .overwrite c m k →
        b.layout.stateOf (x.sys.slot (d, c)) = ssmpBufEmpty) ∧
      ∀ c d, args.isApp c = true → args.isDsl d = true →
        ChannelFifo x.sys d c ∧
        (∃ served, x.sys.recvd (c, d) = x.sys.sent (d, c) ++ served ∧ served.length ≤ 1) ∧
        (∃ waiting, x.sys.sent (c, d) = x.sys.recvd (d, c) ++ waiting ∧ waiting.length ≤ 1) ∧
        (x.busy c = false → x.sys.sent (c, d) = x.sys.recvd (d, c) ++ (x.loc c).awaits d.val) := by
  rcases refined h with ⟨a, ha, hrel⟩
  rcases hrel.good with ⟨ts, hgood⟩
  have hexchange := exchange ha
  refine ⟨?_, ?_⟩
  · intro d c m k hidle hnext
    rcases hrel.idle hidle with ⟨hcode, hloc, _⟩
    rw [← hloc] at hnext
    refine hgood.empty_of_received hcode ?_
    rw [← hrel.chan.ins, ← hrel.chan.outs]
    exact (hexchange.fifo (d, c)).ins_eq (safe ha d c m k hnext)
  · intro c d hc hd
    have hasked := hexchange.asked (by simp) c d hc hd
    have hanswered := hexchange.answered (by simp) c d hc hd
    rw [hrel.chan.ins, hrel.chan.outs] at hasked hanswered
    refine ⟨hgood.channelFifo d c, ⟨_, hanswered, length_serves _ _⟩,
      ⟨_, hasked, length_awaits _ _⟩, ?_⟩
    intro hidle
    rw [← (hrel.idle hidle).2.1]
    exact hasked

end Replies

/-! ### One client and one server -/

def plainWords : MsgWords plainBuild.layout.Payload :=
  payloadWords x86Msg (by decide)

def plainPair : Network pairArgs.Id plainBuild.layout.Payload (Loc plainBuild.layout.Payload) :=
  network pairArgs .noSync plainWords fun _ _ => 7

def pairStart : Linked plainBuild.layout pairArgs.numProcs (Loc plainBuild.layout.Payload) where
  sys := Sys.fresh _ _
  loc := plainPair.start
  busy _ := false
  met _ := 0
  waits _ := false

/-- The client waits for the reply to its first message. -/
def firstRequest : Client plainBuild.layout.Payload where
  pc := .recv
  msg := plainWords.set 0 1 fun _ => 7
  numMsgs1 := 1
  dst := 0
  dstIdx := 0

def requestLine : Line :=
  fun b => if h : b.val < 56 then firstRequest.msg ⟨b.val, h⟩ else 7

theorem payload_requestLine : plainBuild.layout.payload requestLine = firstRequest.msg := by
  funext b
  exact dif_pos b.isLt

def asked : Linked plainBuild.layout pairArgs.numProcs (Loc plainBuild.layout.Payload) :=
  pairStart.callAlone pairClient ((plainBuild.platform pairClient).ssmpSendPlatf pairServer)
    requestLine 18 (.client firstRequest)

theorem reachable_asked : (Linked.system plainBuild plainPair).Reachable asked := by
  have hinit : (Linked.system plainBuild plainPair).Reachable pairStart :=
    TransSys.Reachable.init ⟨Sys.init_fresh, fun _ => rfl, fun _ => rfl, fun _ => rfl, fun _ => rfl⟩
  have hnext : plainPair.next pairClient (pairStart.loc pairClient) =
      .put pairServer firstRequest.msg (.client firstRequest) := rfl
  refine Linked.reachable_callAlone 18 hinit rfl ?_ (List.isEmpty_iff.1 (by decide +kernel)) ?_
  · rw [hnext]
    exact Linked.Calls.send payload_requestLine
  · rw [hnext]
    exact Linked.Returns.send

/-- The server has taken the message and is about to reply. -/
def firstServed : Server plainBuild.layout.Payload where
  pc := .reply
  msg := firstRequest.msg
  sender := 1
  numZeros := 1

def collected : Linked plainBuild.layout pairArgs.numProcs (Loc plainBuild.layout.Payload) :=
  asked.callAlone pairServer
    ((plainBuild.platform pairServer).ssmpRecvColorStartPlatf
      (ssmpColorBufInitPlatf pairServer fun id =>
        if colorApp1 pairArgs.dslPerCore id.toNat then 1 else 0))
    (fun _ => 0) 20 (.server firstServed)

theorem reachable_collected : (Linked.system plainBuild plainPair).Reachable collected := by
  have hnext : plainPair.next pairServer (asked.loc pairServer) = .scan (pairArgs.cbuf pairServer)
      fun src m => .server { pc := .reply, msg := m, sender := src.val, numZeros := 1 } := rfl
  have hmsg : plainBuild.layout.payload (collected.sys.proc pairServer).msg = firstRequest.msg := by
    funext b
    revert b
    decide +kernel
  have hsender : plainBuild.layout.senderOf (collected.sys.proc pairServer).msg = pairClient.val := by
    decide +kernel
  refine Linked.reachable_callAlone 20 reachable_asked rfl ?_
    (List.isEmpty_iff.1 (by decide +kernel)) ?_
  · rw [hnext]
    exact Linked.Calls.recvColorStart _ rfl
  · have hserved : Loc.server firstServed = .server
        { pc := .reply
          msg := plainBuild.layout.payload (collected.sys.proc pairServer).msg
          sender := pairClient.val
          numZeros := 1 } := by
      rw [hmsg]
      rfl
    rw [hnext, hserved]
    exact Linked.Returns.recvColorStart hsender

/-- The server has replied. -/
def replied : Linked plainBuild.layout pairArgs.numProcs (Loc plainBuild.layout.Payload) :=
  collected.callAlone pairServer ((plainBuild.platform pairServer).ssmpSendNoSyncPlatf pairClient)
    requestLine 17 (.server (firstServed.test pairArgs plainWords))

theorem reachable_replied : (Linked.system plainBuild plainPair).Reachable replied := by
  have hnext : plainPair.next pairServer (collected.loc pairServer) =
      .overwrite pairClient firstRequest.msg (.server (firstServed.test pairArgs plainWords)) := rfl
  refine Linked.reachable_callAlone 17 reachable_collected rfl ?_
    (List.isEmpty_iff.1 (by decide +kernel)) ?_
  · rw [hnext]
    exact Linked.Calls.sendNoSync payload_requestLine
  · rw [hnext]
    exact Linked.Returns.sendNoSync

/-- The client has received the reply. -/
def received : Linked plainBuild.layout pairArgs.numProcs (Loc plainBuild.layout.Payload) :=
  replied.callAlone pairClient ((plainBuild.platform pairClient).ssmpRecvFromPlatf pairServer)
    (fun _ => 0) 18 (.client (firstRequest.turn pairArgs))

theorem reachable_received : (Linked.system plainBuild plainPair).Reachable received := by
  have hnext : plainPair.next pairClient (replied.loc pairClient) = .take pairServer
      fun m => .client (Client.turn pairArgs { firstRequest with msg := m }) := rfl
  have hmsg : plainBuild.layout.payload (received.sys.proc pairClient).msg = firstRequest.msg := by
    funext b
    revert b
    decide +kernel
  refine Linked.reachable_callAlone 18 reachable_replied rfl ?_
    (List.isEmpty_iff.1 (by decide +kernel)) ?_
  · rw [hnext]
    exact Linked.Calls.recvFrom _
  · have hturn : Loc.client (firstRequest.turn pairArgs) = .client (Client.turn pairArgs
        { firstRequest with msg := plainBuild.layout.payload (received.sys.proc pairClient).msg }) := by
      rw [hmsg]
    rw [hnext, hturn]
    exact Linked.Returns.recvFrom

/-- The slot is empty when the server replies, and the reply is the request. -/
theorem noSync_replies_received :
    plainBuild.layout.stateOf (collected.sys.slot (pairServer, pairClient)) = ssmpBufEmpty ∧
      received.sys.sent (pairClient, pairServer) = [firstRequest.msg] ∧
      received.sys.recvd (pairServer, pairClient) = [firstRequest.msg] := by
  have hnext : plainPair.next pairServer (collected.loc pairServer) =
      .overwrite pairClient firstRequest.msg (.server (firstServed.test pairArgs plainWords)) := rfl
  have hsent : received.sys.sent (pairClient, pairServer) = [firstRequest.msg] := by
    rw [← payload_requestLine]
    rfl
  have hmain := noSync_replies reachable_received
  have hall := (hmain.2 pairClient pairServer (by decide) (by decide)).2.2.2 rfl
  -- the client waits for nothing
  have hawaits : (received.loc pairClient).awaits pairServer.val = [] := rfl
  rw [hawaits, List.append_nil, hsent] at hall
  exact ⟨(noSync_replies reachable_collected).1 _ _ _ _ rfl hnext, hsent, hall.symm⟩

end ClientServer
end Bench
end Ssmp
