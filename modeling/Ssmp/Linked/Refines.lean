import Ssmp.Linked.Calls

/-!
# Linked.Refines — programs on the library run as on the network

A program that uses the library does what the same program does on one-place channels, if it
overwrites empty places only (`refines`): a call is one action of the network, which takes place when
the call publishes its message, releases the slot it has read, or turns to the next slot of a scan.
At most 256 processes can be told apart by `msg->sender`.
-/

namespace Ssmp

open Lib Network

namespace Linked

section Relation

variable {n : Nat} {σ : Type} {b : Build} {N : Network (Fin n) b.layout.Payload σ}

/-- The places and histories of the network are those of the slots. -/
structure Matches {L : MsgLayout} (s : Sys L n) (chan : Fin n × Fin n → OnePlace L.Payload) :
    Prop where
  fifo : ∀ ij, (chan ij).Fifo
  ins : ∀ ij, (chan ij).ins = s.sent ij
  outs : ∀ ij, (chan ij).outs = s.recvd ij

/-- How far a process `p` is in the action `act` of its program at `l`, and where the network has it:
at `l'`, with the cursor `cur`.  The flag says that it is in a call. -/
inductive Phase (b : Build) (act : Action (Fin n) b.layout.Payload σ) (l : σ) (p : Proc n) (l' : σ)
    (cur : Nat) : Bool → Prop where
  | idle (hcode : p.code = []) (hloc : l' = l) (hcur : cur = p.startRecvFrom) :
      Phase b act l p l' cur false
  | giving {d : Fin n} {m : b.layout.Payload} {k : σ} {pub : Bool}
      (hact : act = .put d m k ∨ act = .overwrite d m k) (hgiving : Giving b.layout d m pub p)
      (hloc : l' = if pub then k else l) (hcur : cur = p.startRecvFrom) :
      Phase b act l p l' cur true
  | pulling {r : Fin n} {k : b.layout.Payload → σ} (hact : act = .take r k)
      (hpulls : Pulls r p.code) (hloc : l' = l) (hcur : cur = p.startRecvFrom) :
      Phase b act l p l' cur true
  | pulled {r : Fin n} {k : b.layout.Payload → σ} (hact : act = .take r k) (hcode : p.code = [])
      (hloc : l' = k (b.layout.payload p.msg)) (hcur : cur = p.startRecvFrom) :
      Phase b act l p l' cur true
  | scanning {srcs : List (Fin n)} {k : Fin n → b.layout.Payload → σ} {num : Nat}
      {test : Nat → Option (Fin n × Bool)} {body : Nat → List (Act n)} (hact : act = .scan srcs k)
      (hscans : Scans srcs num test body) (hcode : p.code = [.scanStart num test body])
      (hloc : l' = l) (hcur : cur = p.startRecvFrom) : Phase b act l p l' cur true
  | reading {srcs : List (Fin n)} {k : Fin n → b.layout.Payload → σ} {src : Fin n} {id : UInt32}
      {nm : Bool} (hact : act = .scan srcs k) (hid : id.toNat = src.val % 256)
      (htakes : TakesNow b.layout src id [.advance srcs.length] false nm p)
      (hsrc : srcs[p.startRecvFrom]? = some src) (hloc : l' = l) (hcur : cur = p.startRecvFrom) :
      Phase b act l p l' cur true
  | leaving {srcs : List (Fin n)} {k : Fin n → b.layout.Payload → σ} {src : Fin n} {id : UInt32}
      {nm : Bool} (hact : act = .scan srcs k) (hid : id.toNat = src.val % 256)
      (htakes : TakesNow b.layout src id [.advance srcs.length] true nm p)
      (hloc : l' = k src (b.layout.payload p.msg))
      (hcur : cur = RoundRobin.next srcs.length p.startRecvFrom) : Phase b act l p l' cur true
  | read {srcs : List (Fin n)} {k : Fin n → b.layout.Payload → σ} {src : Fin n}
      (hact : act = .scan srcs k) (hcode : p.code = [])
      (hsender : b.layout.senderOf p.msg = src.val % 256)
      (hloc : l' = k src (b.layout.payload p.msg)) (hcur : cur = p.startRecvFrom) :
      Phase b act l p l' cur true

/-- The state `a` of the network is the one that `x` stands for. -/
structure Rel (b : Build) (N : Network (Fin n) b.layout.Payload σ) (x : Linked b.layout n σ)
    (a : Network.State (Fin n) b.layout.Payload σ) : Prop where
  good : ∃ ts, Good ts x.sys
  chan : Matches x.sys a.chan
  met : a.met = x.met
  waits : a.waits = x.waits
  phase : ∀ p, Phase b (N.next p (x.loc p)) (x.loc p) (x.sys.proc p) (a.loc p) (a.cursor p) (x.busy p)

end Relation

/-! ## Histories and places -/

section Places

variable {L : MsgLayout} {n : Nat} {s t : Sys L n} {chan : Fin n × Fin n → OnePlace L.Payload}
variable {ts : Fin n → Typestate n} {me d r : Fin n} {m : L.Payload} {ij : Fin n × Fin n}

theorem Matches.kept (h : Matches s chan) (hkept : s.Kept t) : Matches t chan :=
  ⟨h.fifo, by rw [hkept.sent]; exact h.ins, by rw [hkept.recvd]; exact h.outs⟩

theorem Matches.place_none (h : Matches s chan) (heq : s.sent ij = s.recvd ij) :
    (chan ij).place = none :=
  (h.fifo ij).place_eq_none.2 (by rw [h.ins, h.outs, heq])

/-- A message is published where there is room. -/
theorem Matches.room (h : Matches s chan) (hgood : Good ts t) (hgave : s.Gave me d m t) :
    (chan (me, d)).place = none := by
  refine h.place_none ?_
  have hbehind := (hgood.channelFifo me d).behind
  rw [hgave.sent, hgave.recvd, if_pos rfl, List.length_append, List.length_singleton] at hbehind
  have hpre : s.recvd (me, d) <+: s.sent (me, d) := by
    rw [← h.ins, ← h.outs]
    exact (h.fifo _).outs_isPrefix
  exact (hpre.eq_of_length_le (by omega)).symm

/-- What is received is what is there. -/
theorem Matches.full (h : Matches s chan) (hgood : Good ts t) (hgot : s.Got r me m t) :
    (chan (r, me)).place = some m := by
  have hreceived := (hgood.channelFifo r me).received
  rw [hgot.sent, hgot.recvd, if_pos rfl, ← h.ins, ← h.outs] at hreceived
  have hfifo : (chan (r, me)).ins = (chan (r, me)).outs ++ (chan (r, me)).place.toList := h.fifo _
  rw [hfifo, List.prefix_append_right_inj] at hreceived
  cases hplace : (chan (r, me)).place with
  | none =>
      rw [hplace] at hreceived
      simp at hreceived
  | some m' =>
      rw [hplace] at hreceived
      have heq := hreceived.eq_of_length (by simp)
      simpa using heq.symm

variable {σ : Type} {a : Network.State (Fin n) L.Payload σ}

theorem Matches.gave (h : Matches s a.chan) (hgood : Good ts t) (hgave : s.Gave me d m t) :
    Matches t (a.onChan (me, d) (.write m)).chan where
  fifo := fifo_onChan h.fifo ((h.fifo _).write (h.room hgood hgave))
  ins ij := by rw [ins_write, hgave.sent, h.ins]
  outs ij := by rw [outs_write, hgave.recvd, h.outs]

theorem Matches.got (h : Matches s a.chan) (hgood : Good ts t) (hgot : s.Got r me m t) :
    Matches t (a.onChan (r, me) (.clear m)).chan where
  fifo := fifo_onChan h.fifo ((h.fifo _).clear (h.full hgood hgot))
  ins ij := by rw [ins_clear, hgot.sent, h.ins]
  outs ij := by rw [outs_clear, hgot.recvd, h.outs]

end Places

/-! ## One step -/

section Steps

variable {n : Nat} {σ : Type} {b : Build} {N : Network (Fin n) b.layout.Payload σ}
variable {x y : Linked b.layout n σ} {a : Network.State (Fin n) b.layout.Payload σ}
variable {ts ts' : Fin n → Typestate n} {s t : Sys b.layout n} {me : Fin n} {l : σ}

/-- From `a` to `a'` the network follows a step of process `me` that is in a call, after which the
library is in the state `t`. -/
structure Follows (N : Network (Fin n) b.layout.Payload σ) (me : Fin n) (l : σ) (t : Sys b.layout n)
    (a a' : Network.State (Fin n) b.layout.Payload σ) : Prop where
  step : a' = a ∨ N.Step a me a'
  chan : Matches t a'.chan
  met : a'.met = a.met
  waits : a'.waits = a.waits
  cursor : ∀ q, q ≠ me → a'.cursor q = a.cursor q
  phase : Phase b (N.next me l) l (t.proc me) (a'.loc me) (a'.cursor me) true

theorem Follows.stay (hchan : Matches t a.chan)
    (hphase : Phase b (N.next me l) l (t.proc me) (a.loc me) (a.cursor me) true) :
    Follows N me l t a a :=
  ⟨Or.inl rfl, hchan, rfl, rfl, fun _ _ => rfl, hphase⟩

/-- A step that puts a message. -/
theorem Follows.write {d : Fin n} {m : b.layout.Payload} {k : σ} (hloc : a.loc me = l)
    (hact : N.next me l = .put d m k ∨ N.next me l = .overwrite d m k) (hchan : Matches s a.chan)
    (hgood : Good ts t) (hgave : s.Gave me d m t)
    (hphase : Phase b (N.next me l) l (t.proc me) k (a.cursor me) true) :
    Follows N me l t a ((a.onChan (me, d) (.write m)).goto me k) where
  step := by
    rw [← hloc] at hact
    rcases hact with hact | hact
    · exact Or.inr (Step.put hact (hchan.room hgood hgave))
    · exact Or.inr (Step.overwrite hact)
  chan := hchan.gave hgood hgave
  met := rfl
  waits := rfl
  cursor _ _ := rfl
  phase := by
    rw [goto_loc_self]
    exact hphase

/-- A step of a scan that finds no message. -/
theorem Follows.seek {c : Nat} (hst : N.Step a me (a.seek me c)) (hchan : Matches t a.chan)
    (hphase : Phase b (N.next me l) l (t.proc me) (a.loc me) c true) :
    Follows N me l t a (a.seek me c) where
  step := Or.inr hst
  chan := hchan
  met := rfl
  waits := rfl
  cursor _ hq := seek_cursor_ne hq
  phase := by
    rw [seek_cursor_self]
    exact hphase

/-- What the network does when a process in a call makes a step. -/
theorem Phase.exec (hgood : Good ts s) (hgood' : Good ts' t) (hchan : Matches s a.chan)
    (h : Phase b (N.next me l) l (s.proc me) (a.loc me) (a.cursor me) true)
    (hex : s.exec me = some t) : ∃ a', Follows N me l t a a' := by
  cases h with
  | @giving d m k pub hact hgiving hloc hcur =>
      rcases hgiving.exec hgood hex with ⟨hstart, ⟨hkept, hgiving'⟩ | ⟨rfl, hgave, hgiving'⟩⟩
      · exact ⟨a, Follows.stay (hchan.kept hkept)
          (Phase.giving hact hgiving' hloc (hcur.trans hstart.symm))⟩
      · exact ⟨_, Follows.write hloc hact hchan hgood' hgave
          (Phase.giving hact hgiving' rfl (hcur.trans hstart.symm))⟩
  | @pulling r k hact hpulls hloc hcur =>
      rcases hpulls.exec hex with ⟨hstart, ⟨hkept, hpulls'⟩ | ⟨hgot, hcode⟩⟩
      · exact ⟨a, Follows.stay (hchan.kept hkept)
          (Phase.pulling hact hpulls' hloc (hcur.trans hstart.symm))⟩
      · have hfull := hchan.full hgood' hgot
        refine ⟨_, Or.inr (Step.take (hloc.symm ▸ hact) hfull), hchan.got hgood' hgot, rfl, rfl,
          fun _ _ => rfl, ?_⟩
        rw [goto_loc_self]
        exact Phase.pulled hact hcode rfl (hcur.trans hstart.symm)
  | pulled hact hcode hloc hcur => exact absurd hex (Sys.not_exec hcode)
  | @scanning srcs k num test body hact hscans hcode hloc hcur =>
      have hact' : N.next me (a.loc me) = .scan srcs k := by rw [hloc, hact]
      rcases hscans.exec hgood hcode hex with
        ⟨hkept, ⟨src, id, hsrc, hid, htakes, hstart⟩ | ⟨src, hsrc, hmiss, hproc⟩ | ⟨hend, hproc⟩⟩
      · -- the test has succeeded, but the message is still in its slot
        rw [hscans.len] at htakes
        rw [← hstart] at hsrc
        exact ⟨a, Follows.stay (hchan.kept hkept)
          (Phase.reading hact hid htakes hsrc hloc (hcur.trans hstart.symm))⟩
      · rw [← hcur] at hsrc
        refine ⟨_, Follows.seek (Step.pass hact' hsrc (hchan.place_none hmiss)) (hchan.kept hkept) ?_⟩
        rw [hproc]
        exact Phase.scanning hact hscans hcode hloc (by rw [hcur])
      · rw [← hcur] at hend
        refine ⟨_, Follows.seek (Step.wrap hact' hend) (hchan.kept hkept) ?_⟩
        rw [hproc]
        exact Phase.scanning hact hscans hcode hloc rfl
  | @reading srcs k src id nm hact hid htakes hsrc hloc hcur =>
      rcases htakes.exec b.senderFits hex with
        ⟨hst, _, _⟩ | ⟨hstart, ⟨nm', hkept, htakes', _⟩ | ⟨_, hgot, htakes'⟩⟩
      · cases hst
      · exact ⟨a, Follows.stay (hchan.kept hkept)
          (Phase.reading hact hid htakes' (by rw [hstart]; exact hsrc) hloc (hcur.trans hstart.symm))⟩
      · have hfull := hchan.full hgood' hgot
        have hact' : N.next me (a.loc me) = .scan srcs k := by rw [hloc, hact]
        refine ⟨_, Or.inr (Step.hit hact' (by rw [hcur]; exact hsrc) hfull), hchan.got hgood' hgot,
          rfl, rfl, fun _ hq => seek_cursor_ne hq, ?_⟩
        rw [goto_loc_self, goto_cursor, seek_cursor_self]
        exact Phase.leaving hact hid htakes' rfl (by rw [hcur, hstart])
  | @leaving srcs k src id nm hact hid htakes hloc hcur =>
      rcases htakes.exec b.senderFits hex with
        ⟨_, hnm, hcode⟩ | ⟨hstart, ⟨nm', hkept, htakes', hpayload⟩ | ⟨hst, _, _⟩⟩
      · have ht := Sys.exec_of_code hcode hex
        subst ht
        rcases @execAct_advance b.layout n me s [] srcs.length with ⟨hkept, hproc⟩
        refine ⟨a, Follows.stay (hchan.kept hkept) ?_⟩
        rw [hproc]
        refine Phase.read hact rfl ?_ hloc hcur
        rw [htakes.sender hnm, hid, b.mod_senderBytes (Nat.mod_lt _ (by decide))]
      · refine ⟨a, Follows.stay (hchan.kept hkept) ?_⟩
        refine Phase.leaving hact hid htakes' ?_ (by rw [hcur, hstart])
        rw [hpayload rfl]
        exact hloc
      · cases hst
  | read hact hcode hsender hloc hcur => exact absurd hex (Sys.not_exec hcode)

/-! ## Every step -/

/-- What process `me` does is of no consequence to where the others are. -/
theorem Rel.of_follows (h : Rel b N x a) (hgood : ∃ ts, Good ts t) (hbusy : x.busy me = true)
    (hother : ∀ p, p ≠ me → t.proc p = x.sys.proc p)
    {a' : Network.State (Fin n) b.layout.Payload σ} (hfol : Follows N me (x.loc me) t a a') :
    Rel b N { x with sys := t } a' := by
  refine ⟨hgood, hfol.chan, hfol.met.trans h.met, hfol.waits.trans h.waits, ?_⟩
  intro p
  by_cases hp : p = me
  · subst hp
    rw [hbusy]
    exact hfol.phase
  · have hloc : a'.loc p = a.loc p := by
      rcases hfol.step with rfl | hst
      · rfl
      · exact hst.loc_ne hp
    show Phase b _ _ (t.proc p) (a'.loc p) (a'.cursor p) (x.busy p)
    rw [hother p hp, hloc, hfol.cursor p hp]
    exact h.phase p

/-- Where a program can go on behind the call of an action. -/
def Behind : Action (Fin n) b.layout.Payload σ → σ → Prop
  | .put _ _ k, l => l = k
  | .overwrite _ _ k, l => l = k
  | .take _ k, l => ∃ m, l = k m
  | .scan _ k, l => ∃ src m, l = k src m
  | .meet _, _ => False
  | .stop, _ => False

/-- The network is at most one action ahead of a process. -/
theorem Phase.ahead {act : Action (Fin n) b.layout.Payload σ} {p : Proc n} {l l' : σ} {cur : Nat}
    {busy : Bool} (h : Phase b act l p l' cur busy) : l' = l ∨ Behind act l' := by
  cases h with
  | idle hcode hloc hcur => exact Or.inl hloc
  | @giving d m k pub hact hgiving hloc hcur =>
      cases pub with
      | false => exact Or.inl hloc
      | true => rcases hact with rfl | rfl <;> exact Or.inr hloc
  | pulling hact hpulls hloc hcur => exact Or.inl hloc
  | pulled hact hcode hloc hcur =>
      subst hact
      exact Or.inr ⟨_, hloc⟩
  | scanning hact hscans hcode hloc hcur => exact Or.inl hloc
  | reading hact hid htakes hsrc hloc hcur => exact Or.inl hloc
  | leaving hact hid htakes hloc hcur =>
      subst hact
      exact Or.inr ⟨_, _, hloc⟩
  | read hact hcode hsender hloc hcur =>
      subst hact
      exact Or.inr ⟨_, _, hloc⟩

/-- A process that is not in a call is where the network has it. -/
theorem Rel.idle (h : Rel b N x a) (hidle : x.busy me = false) :
    (x.sys.proc me).code = [] ∧ a.loc me = x.loc me ∧
      a.cursor me = (x.sys.proc me).startRecvFrom := by
  have hphase := h.phase me
  rw [hidle] at hphase
  cases hphase with
  | idle hcode hloc hcur => exact ⟨hcode, hloc, hcur⟩

/-- The phase in which a call begins. -/
theorem Calls.phase {act : Action (Fin n) b.layout.Payload σ} {code : List (Act n)} {msg : Line}
    (h : Calls b me act code msg) (p : Proc n) :
    Phase b act l { p with code := code, msg := msg, arg := msg } l p.startRecvFrom true := by
  cases h with
  | @send d m k _ hmsg =>
      have hgiving : Giving b.layout d m false
          { p with code := (b.platform me).ssmpSendPlatf d, msg := msg, arg := msg } := by
        refine ⟨b.out_send me d, hmsg, ?_⟩
        intro j
        simpa using (b.sendsTo me d).publishes j
      exact Phase.giving (Or.inl rfl) hgiving rfl rfl
  | @sendNoSync d m k _ hmsg =>
      have hgiving : Giving b.layout d m false
          { p with code := (b.platform me).ssmpSendNoSyncPlatf d, msg := msg, arg := msg } := by
        refine ⟨b.out_noSync me d, hmsg, ?_⟩
        intro j
        simpa using b.publications_noSync me d j
      exact Phase.giving (Or.inr rfl) hgiving rfl rfl
  | recvFrom msg => exact Phase.pulling rfl (b.pulls me _) rfl rfl
  | @recvColorStart color srcs k msg hbuf =>
      rcases b.scans me color with ⟨num, test, body, hcode, hscans⟩
      rw [hbuf] at hscans
      exact Phase.scanning rfl hscans hcode rfl rfl

/-- A call finds its slots as its discipline asks. -/
theorem Calls.simulates (hgood : Good ts s) {code : List (Act n)} {msg : Line}
    (hidle : (s.proc me).code = []) {act : Action (Fin n) b.layout.Payload σ}
    (h : Calls b me act code msg)
    (hfree : ∀ d m k, act = .overwrite d m k → s.sent (me, d) = s.recvd (me, d)) :
    Simulates ts s me (s.enter me code msg) := by
  have hP := b.disciplined_platform me
  -- `ssmp_send_no_sync` alone does not test its slot
  have htests : ∀ code, Disciplined b.layout (.idle true) code →
      Simulates ts s me (s.enter me code msg) := by
    intro code hD
    exact @Good.enter b.layout n ts s me (fun _ _ c => Disciplined b.layout (.idle true) c) code msg
      hgood (fun _ _ _ hD => Or.inl hD) hidle hD
  cases h with
  | @send d m k _ hmsg =>
      have hsend := hP.send d [] Disciplined.nil
      rw [List.append_nil] at hsend
      exact htests _ hsend
  | @sendNoSync d m k _ hmsg =>
      exact hgood.enterFree hidle (hgood.empty_of_received hidle (hfree d m k rfl)) (hP.sendNoSync d)
  | recvFrom msg => exact htests _ (hP.recvFrom _)
  | @recvColorStart color srcs k msg hbuf =>
      exact htests _ (hP.recvColorStart _ (ssmpColorBufInitPlatf_wellFormed me color))

theorem Rel.enter (h : Rel b N x a) (hsafe : N.Safe a) (hidle : x.busy me = false)
    {code : List (Act n)} {msg : Line} (hcall : Calls b me (N.next me (x.loc me)) code msg) :
    Rel b N { x with sys := x.sys.enter me code msg, busy := Function.update x.busy me true } a := by
  rcases h.good with ⟨ts, hgood⟩
  rcases h.idle hidle with ⟨hcode, hloc, hcur⟩
  have hsim := hcall.simulates hgood hcode (by
    intro d m k hact
    rw [← hloc] at hact
    have hplace := (h.chan.fifo (me, d)).ins_eq (hsafe me d m k hact)
    rwa [h.chan.ins, h.chan.outs] at hplace)
  rcases hgood.of_simulates hsim with ⟨ts', hgood', _⟩
  refine ⟨⟨ts', hgood'⟩, h.chan.kept ⟨rfl, rfl⟩, h.met, h.waits, ?_⟩
  intro p
  by_cases hp : p = me
  · subst hp
    have hphase := @Calls.phase n σ b p (x.loc p) (N.next p (x.loc p)) code msg hcall (x.sys.proc p)
    rw [← enter_proc] at hphase
    show Phase b _ _ ((x.sys.enter p code msg).proc p) (a.loc p) (a.cursor p)
      (Function.update x.busy p true p)
    rw [Function.update_self, hloc, hcur]
    exact hphase
  · show Phase b _ _ ((x.sys.enter me code msg).proc p) (a.loc p) (a.cursor p)
      (Function.update x.busy me true p)
    rw [Function.update_of_ne hp, Sys.enter, setProc_proc_ne hp]
    exact h.phase p

/-- A call returns where the network has come to. -/
theorem Phase.returned (hn : n ≤ 256) {act : Action (Fin n) b.layout.Payload σ} {p : Proc n}
    {l' k : σ} {cur : Nat} (h : Phase b act l p l' cur true) (hcode : p.code = [])
    (hret : Returns b p.msg act k) : l' = k ∧ cur = p.startRecvFrom := by
  cases h with
  | @giving d m k' pub hact hgiving hloc hcur =>
      rw [hgiving.published hcode] at hloc
      rcases hact with rfl | rfl
      · cases hret with
        | send => exact ⟨hloc, hcur⟩
      · cases hret with
        | sendNoSync => exact ⟨hloc, hcur⟩
  | pulling hact hpulls hloc hcur =>
      rw [hcode] at hpulls
      cases hpulls
  | pulled hact _ hloc hcur =>
      subst hact
      cases hret with
      | recvFrom => exact ⟨hloc, hcur⟩
  | scanning hact hscans hcode' hloc hcur =>
      rw [hcode] at hcode'
      cases hcode'
  | reading hact hid htakes hsrc hloc hcur =>
      have hcodes := htakes.code
      rw [hcode] at hcodes
      cases hcodes
  | leaving hact hid htakes hloc hcur =>
      have hcodes := htakes.code
      rw [hcode] at hcodes
      cases hcodes
  | @read srcs k' src hact _ hsender hloc hcur =>
      subst hact
      cases hret with
      | @recvColorStart _ _ src' hsender' =>
          -- the ids of at most 256 processes fit into a byte
          have hsrc : src' = src := by
            have := src.isLt
            refine Fin.ext (hsender'.symm.trans (hsender.trans ?_))
            exact Nat.mod_eq_of_lt (by omega)
          rw [hsrc]
          exact ⟨hloc, hcur⟩

theorem Rel.leaveCall (hn : n ≤ 256) (h : Rel b N x a) (hbusy : x.busy me = true)
    (hcode : (x.sys.proc me).code = []) {k : σ}
    (hret : Returns b (x.sys.proc me).msg (N.next me (x.loc me)) k) :
    Rel b N
      { x with loc := Function.update x.loc me k, busy := Function.update x.busy me false } a := by
  refine ⟨h.good, h.chan, h.met, h.waits, ?_⟩
  intro p
  have hphase := h.phase p
  show Phase b (N.next p (Function.update x.loc me k p)) (Function.update x.loc me k p)
    (x.sys.proc p) (a.loc p) (a.cursor p) (Function.update x.busy me false p)
  by_cases hp : p = me
  · subst hp
    rw [hbusy] at hphase
    rcases hphase.returned hn hcode hret with ⟨hloc, hcur⟩
    rw [Function.update_self, Function.update_self]
    exact Phase.idle hcode hloc hcur
  · rw [Function.update_of_ne hp, Function.update_of_ne hp]
    exact hphase

theorem Rel.arrive (h : Rel b N x a) :
    Rel b N
      { x with
        met := Function.update x.met me (x.met me + 1)
        waits := Function.update x.waits me true }
      (a.arrive me) := by
  refine ⟨h.good, h.chan, ?_, ?_, h.phase⟩
  · rw [← h.met]
    rfl
  · rw [← h.waits]
    rfl

theorem Rel.leave (h : Rel b N x a) (hidle : x.busy me = false) (k : σ) :
    Rel b N
      { x with
        loc := Function.update x.loc me k
        waits := Function.update x.waits me false }
      ((a.leave me).goto me k) := by
  rcases h.idle hidle with ⟨hcode, _, hcur⟩
  refine ⟨h.good, h.chan, h.met, ?_, ?_⟩
  · rw [← h.waits]
    rfl
  · intro p
    show Phase b (N.next p (Function.update x.loc me k p)) (Function.update x.loc me k p)
      (x.sys.proc p) (((a.leave me).goto me k).loc p) (a.cursor p) (x.busy p)
    by_cases hp : p = me
    · subst hp
      rw [hidle, Function.update_self, goto_loc_self]
      exact Phase.idle hcode rfl hcur
    · rw [Function.update_of_ne hp, goto_loc_ne hp]
      exact h.phase p

/-- A step of a program that uses the library is a step of the network, or none. -/
theorem Rel.step (hn : n ≤ 256) (h : Rel b N x a) (hsafe : N.Safe a) (hst : Step b N x me y) :
    ∃ a', (a' = a ∨ N.Step a me a') ∧ Rel b N y a' := by
  cases hst with
  | call hidle hcall => exact ⟨a, Or.inl rfl, h.enter hsafe hidle hcall⟩
  | @run t hex =>
      rcases h.good with ⟨ts, hgood⟩
      rcases hgood.of_simulates (hgood.exec hex) with ⟨ts', hgood', _⟩
      have hphase := h.phase me
      cases hbusy : x.busy me with
      | false => exact absurd hex (Sys.not_exec (h.idle hbusy).1)
      | true =>
          rw [hbusy] at hphase
          rcases hphase.exec hgood hgood' h.chan hex with ⟨a', hfol⟩
          exact ⟨a', hfol.step, h.of_follows ⟨ts', hgood'⟩ hbusy (fun p hp => exec_proc_ne hex hp) hfol⟩
  | ret hbusy hcode hret => exact ⟨a, Or.inl rfl, h.leaveCall hn hbusy hcode hret⟩
  | arrive hidle hnext hout =>
      rw [← (h.idle hidle).2.1] at hnext
      rw [← h.waits] at hout
      exact ⟨_, Or.inr (Network.Step.arrive hnext hout), h.arrive⟩
  | leave hidle hnext hin hall =>
      rw [← (h.idle hidle).2.1] at hnext
      rw [← h.waits] at hin
      rw [← h.met] at hall
      exact ⟨_, Or.inr (Network.Step.leave hnext hin hall), h.leave hidle _⟩

theorem Rel.init (h : Init b N x) : ∃ a, N.Init a ∧ Rel b N x a := by
  refine ⟨N.fresh, init_fresh, ⟨_, Good.init h.sys⟩, ⟨init_fresh.fifo, ?_, ?_⟩, ?_, ?_, ?_⟩
  · intro ij
    rw [h.sys.sent]
    rfl
  · intro ij
    rw [h.sys.recvd]
    rfl
  · funext p
    exact (h.met p).symm
  · funext p
    exact (h.waits p).symm
  · intro p
    rw [h.busy]
    exact Phase.idle (h.sys.idle p) (h.loc p).symm (h.sys.start p).symm

/-- Every run of programs on the library is a run of the network, if the network overwrites empty
places only. -/
theorem refines (hn : n ≤ 256) (hsafe : ∀ a, N.system.Reachable a → N.Safe a)
    (h : (Linked.system b N).Reachable x) : ∃ a, N.system.Reachable a ∧ Rel b N x a := by
  induction h with
  | init h0 =>
      rcases Rel.init h0 with ⟨a, ha, hrel⟩
      exact ⟨a, TransSys.Reachable.init ha, hrel⟩
  | step _ hst ih =>
      rcases ih with ⟨a, ha, hrel⟩
      rcases hrel.step hn (hsafe a ha) hst with ⟨a', rfl | hstep, hrel'⟩
      · exact ⟨a', ha, hrel'⟩
      · exact ⟨a', TransSys.Reachable.step ha hstep, hrel'⟩

end Steps

end Linked
end Ssmp
