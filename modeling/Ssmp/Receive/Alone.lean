import Ssmp.Receive.Sender

/-!
# Alone — a scanning receive on slots that do not change

While only process `me` runs, the slots keep their states but for what `me` itself writes.  So the
outcome of a scanning receive is determined by the first index of its loop whose slot is full
(`alone_scan`), and what follows that test copies the message, releases the slot and writes the
sender, in one of two orders that make no difference (`alone_read`).
-/

namespace Ssmp

open Lib

/-! ## Lines -/

section Lines

variable {L : MsgLayout} {l l' : Line}

/-- The bytes of `ps`, moved one piece after the other. -/
def copyLine (ps : List Piece) (src dst : Line) : Line :=
  ps.foldl (fun l p => copyPiece p src l) dst

/-- The lines agree, up to the state byte. -/
def SameButState (L : MsgLayout) (l l' : Line) : Prop :=
  ∀ b, b ≠ L.state → l b = l' b

theorem sameButState_setState (v : UInt8) (l : Line) : SameButState L (L.setState v l) l := by
  intro b hb
  exact Function.update_of_ne hb _ _

theorem SameButState.copyLine {src src' : Line} (ps : List Piece) (hsrc : SameButState L src src')
    (h : SameButState L l l') :
    SameButState L (copyLine ps src l) (Ssmp.copyLine ps src' l') := by
  induction ps generalizing l l' with
  | nil => exact h
  | cons p ps ih =>
      refine ih ?_
      intro b hb
      simp only [copyPiece, hsrc b hb, h b hb]

/-- The sender field covers the state byte. -/
theorem SameButState.setSender (hpos : 0 < L.senderBytes) (h : SameButState L l l') (v : UInt32) :
    L.setSender v l = L.setSender v l' := by
  funext b
  by_cases hb : b = L.state
  · simp [MsgLayout.setSender, hb, hpos]
  · simp [MsgLayout.setSender, h b hb]

theorem payload_copyLine {ps : List Piece} (hall : CopiesPayload L ps) (src dst : Line) :
    L.payload (copyLine ps src dst) = L.payload src := by
  funext b
  -- from the first piece with the byte on it is the one of `src`
  have hstay : ∀ (ps : List Piece) (dst : Line), L.payload dst b = L.payload src b →
      L.payload (copyLine ps src dst) b = L.payload src b := by
    intro ps
    induction ps with
    | nil => exact fun _ h => h
    | cons p ps ih =>
        intro dst h
        refine ih _ ?_
        simp only [MsgLayout.payload, copyPiece] at h ⊢
        rw [h]
        exact ite_self _
  rcases hall b with ⟨p, hp, hb⟩
  clear hall
  induction ps generalizing dst with
  | nil => cases hp
  | cons q ps ih =>
      rcases List.mem_cons.1 hp with rfl | hp
      · refine hstay ps _ ?_
        simp [MsgLayout.payload, copyPiece, hb]
      · exact ih _ hp

end Lines

/-! ## Runs of one process -/

section Alone

variable {L : MsgLayout} {n : Nat} {me src : Fin n} {s t u : Sys L n} {a : Act n}
variable {rest : List (Act n)} {ps : List Piece} {id : UInt32}

/-- Process `me` alone leads from `s` to `t`. -/
def Sys.Alone (me : Fin n) (s t : Sys L n) : Prop :=
  ∃ k, s.runAlone me k = t

theorem Sys.Alone.refl : s.Alone me s := ⟨0, rfl⟩

theorem Sys.Alone.head (hcode : (s.proc me).code = a :: rest) (h : (s.execAct me a rest).Alone me t) :
    s.Alone me t := by
  rcases h with ⟨k, hk⟩
  exact ⟨k + 1, by simpa [Sys.runAlone, Sys.exec, hcode] using hk⟩

theorem Sys.Alone.trans (h : s.Alone me t) (h' : t.Alone me u) : s.Alone me u := by
  rcases h with ⟨k, rfl⟩
  induction k generalizing s with
  | zero => exact h'
  | succ k ih =>
      cases hcode : (s.proc me).code with
      | nil => simpa [Sys.runAlone, Sys.exec, hcode] using h'
      | cons a rest =>
          refine Sys.Alone.head hcode (ih ?_)
          simpa [Sys.runAlone, Sys.exec, hcode] using h'

theorem Sys.Alone.two {b : Act n} (hcode : (s.proc me).code = a :: b :: rest)
    (hnext : ((s.execAct me a (b :: rest)).proc me).code = b :: rest) :
    s.Alone me ((s.execAct me a (b :: rest)).execAct me b rest) :=
  Sys.Alone.head hcode (Sys.Alone.head hnext Sys.Alone.refl)

theorem Sys.runAlone_idle (hidle : (s.proc me).code = []) (k : Nat) : s.runAlone me k = s := by
  cases k <;> simp [Sys.runAlone, Sys.exec, hidle]

/-- A call that runs alone returns in one state. -/
theorem Sys.Alone.unique (h : s.Alone me t) (h' : s.Alone me u) (ht : (t.proc me).code = [])
    (hu : (u.proc me).code = []) : t = u := by
  rcases h with ⟨k, rfl⟩
  rcases h' with ⟨k', rfl⟩
  induction k generalizing s k' with
  | zero => exact (Sys.runAlone_idle ht k').symm
  | succ k ih =>
      cases hex : s.exec me with
      | none =>
          simp only [Sys.runAlone, hex] at ht ⊢
          exact (Sys.runAlone_idle ht k').symm
      | some v =>
          cases k' with
          | zero => exact absurd hex (Sys.not_exec hu)
          | succ k' =>
              simp only [Sys.runAlone, hex] at ht hu ⊢
              exact ih ht k' hu

/-! ## Reading -/

/-- `read src id` copies the pieces `ps` of the slot of `src`, releases it and writes `id` as the
sender, in one of the two orders. -/
def ReadsPieces (ps : List Piece) (read : Fin n → UInt32 → List (Act n)) : Prop :=
  ∀ src id, ∃ tail, read src id = ps.map (.copyIn src) ++ tail ∧
    (tail = [.setSender id, .store (.recvBuf src) ssmpBufEmpty] ∨
      tail = [.store (.recvBuf src) ssmpBufEmpty, .setSender id])

/-- From `s` to `t` process `me` has taken the message of `src`, the sender being `id`. -/
structure TakesAlone (me src : Fin n) (id : UInt32) (ps : List Piece) (rest : List (Act n))
    (s t : Sys L n) : Prop where
  code : (t.proc me).code = rest
  msg : (t.proc me).msg = L.setSender id (copyLine ps (s.slot (src, me)) (s.proc me).msg)
  slot : t.slot =
    Function.update s.slot (src, me) (L.setState ssmpBufEmpty (s.slot (src, me)))
  start : (t.proc me).startRecvFrom = (s.proc me).startRecvFrom

theorem alone_copyIn (hcode : (s.proc me).code = ps.map (.copyIn src) ++ rest) :
    ∃ t, s.Alone me t ∧ (t.proc me).code = rest ∧
      (t.proc me).msg = copyLine ps (s.slot (src, me)) (s.proc me).msg ∧ t.slot = s.slot ∧
      (t.proc me).startRecvFrom = (s.proc me).startRecvFrom := by
  induction ps generalizing s with
  | nil => exact ⟨s, Sys.Alone.refl, hcode, rfl, rfl, rfl⟩
  | cons p ps ih =>
      have hnext : ((s.execAct me (.copyIn src p) (ps.map (.copyIn src) ++ rest)).proc me).code =
          ps.map (.copyIn src) ++ rest := by
        simp [Sys.execAct]
      rcases ih hnext with ⟨t, hrun, hcode', hmsg, hslot, hstart⟩
      refine ⟨t, Sys.Alone.head hcode hrun, hcode', ?_, hslot, ?_⟩
      · simpa [Sys.execAct, copyLine] using hmsg
      · simpa [Sys.execAct] using hstart

theorem alone_read {read : Fin n → UInt32 → List (Act n)} (hread : ReadsPieces ps read)
    (hcode : (s.proc me).code = read src id ++ rest) :
    ∃ t, s.Alone me t ∧ TakesAlone me src id ps rest s t := by
  rcases hread src id with ⟨tail, heq, htail⟩
  rw [heq, List.append_assoc] at hcode
  rcases alone_copyIn hcode with ⟨u, hrun, hcode', hmsg, hslot, hstart⟩
  -- the two actions left work on different places
  rcases htail with rfl | rfl
  · refine ⟨_, hrun.trans (Sys.Alone.two hcode' (by simp [Sys.execAct])), ?_⟩
    refine ⟨?_, ?_, ?_, ?_⟩ <;>
      simp [Sys.execAct, Sys.setProc, Sys.setFlag, Sys.setSlot, Sys.logRecvd, SlotRef.pair, hmsg,
        hslot, hstart]
  · refine ⟨_, hrun.trans (Sys.Alone.two hcode' (by simp [Sys.execAct, Sys.logRecvd])), ?_⟩
    refine ⟨?_, ?_, ?_, ?_⟩ <;>
      simp [Sys.execAct, Sys.setProc, Sys.setFlag, Sys.setSlot, Sys.logRecvd, SlotRef.pair, hmsg,
        hslot, hstart]

/-! ## Scanning -/

variable {num k c : Nat} {test : Nat → Option (Fin n × Bool)} {body : Nat → List (Act n)} {lk : Bool}

/-- The test at index `k` would succeed. -/
def Sys.hit (s : Sys L n) (me : Fin n) (test : Nat → Option (Fin n × Bool)) (k : Nat) : Bool :=
  match test k with
  | none => false
  | some (src, _) => L.stateOf (s.slot (src, me)) == ssmpBufMessg

/-- From `s` to `t` a test has succeeded on the slot of `src`, which may be locked now. -/
structure Probed (me src : Fin n) (c : List (Act n)) (s t : Sys L n) : Prop where
  code : (t.proc me).code = c
  msg : (t.proc me).msg = (s.proc me).msg
  slot : t.slot = s.slot ∨
    t.slot = Function.update s.slot (src, me) (L.setState ssmpBufLockd (s.slot (src, me)))

/-- The slots and the message buffer of `me` are the same in `s` and `t`. -/
structure Quiet (me : Fin n) (s t : Sys L n) : Prop where
  msg : (t.proc me).msg = (s.proc me).msg
  slot : t.slot = s.slot

theorem Quiet.hit (h : Quiet me s t) (k : Nat) : t.hit me test k = s.hit me test k := by
  unfold Sys.hit
  rw [h.slot]

theorem Probed.of_quiet {c : List (Act n)} (h : Quiet me s t) (h' : Probed me src c t u) :
    Probed me src c s u :=
  ⟨h'.code, h'.msg.trans h.msg, by simpa [h.slot] using h'.slot⟩

theorem Sys.exists_of_hit (h : s.hit me test k = true) :
    ∃ src lk, test k = some (src, lk) ∧ L.stateOf (s.slot (src, me)) = ssmpBufMessg := by
  unfold Sys.hit at h
  cases htest : test k with
  | none => simp [htest] at h
  | some rl => exact ⟨rl.1, rl.2, rfl, by simpa [htest] using h⟩

theorem probe_hit {hit : List (Act n)} {next : Proc n} (htest : test k = some (src, lk))
    (hfull : L.stateOf (s.slot (src, me)) = ssmpBufMessg) :
    Probed me src hit s (s.probe me (test k) hit next) ∧
      ((s.probe me (test k) hit next).proc me).startRecvFrom = (s.proc me).startRecvFrom := by
  have hf : s.flag me (.recvBuf src) = ssmpBufMessg := hfull
  rw [htest]
  cases lk with
  | false =>
      refine ⟨⟨?_, ?_, Or.inl ?_⟩, ?_⟩ <;> simp [Sys.probe, hf]
  | true =>
      refine ⟨⟨?_, ?_, Or.inr ?_⟩, ?_⟩ <;>
        simp [Sys.probe, hf, Sys.setFlag, Sys.setSlot, SlotRef.pair]

theorem probe_miss {hit : List (Act n)} {next : Proc n} (hmiss : s.hit me test k = false) :
    s.probe me (test k) hit next = s.setProc me next := by
  unfold Sys.hit at hmiss
  cases htest : test k with
  | none => rfl
  | some rl =>
      have hstate : L.stateOf (s.slot (rl.1, me)) ≠ ssmpBufMessg := by simpa [htest] using hmiss
      have hf : s.flag me (.recvBuf rl.1) ≠ ssmpBufMessg := hstate
      simp [Sys.probe, hf]

/-- A loop with a counter of its own comes to the first index from `c` on whose test succeeds. -/
theorem alone_scan (hck : c ≤ k) (hk : k < num) (hmiss : ∀ j, c ≤ j → j < k → s.hit me test j = false)
    (htest : test k = some (src, lk)) (hfull : L.stateOf (s.slot (src, me)) = ssmpBufMessg)
    (hcode : (s.proc me).code = .scan num test body c :: rest) :
    ∃ t, s.Alone me t ∧ Probed me src (body k ++ rest) s t := by
  -- by induction on the tests that fail before it
  induction hd : k - c generalizing s c with
  | zero =>
      have hck' : c = k := by omega
      subst hck'
      have hnext : s.execAct me (.scan num test body c) rest =
          s.probe me (test c) (body c ++ rest)
            { s.proc me with code := .scan num test body (c + 1) :: rest } := by
        simp only [Sys.execAct, if_pos hk]
      refine ⟨_, Sys.Alone.head hcode Sys.Alone.refl, ?_⟩
      rw [hnext]
      exact (probe_hit htest hfull).1
  | succ d ih =>
      have hc : c < num := by omega
      have hnext : s.execAct me (.scan num test body c) rest =
          s.setProc me { s.proc me with code := .scan num test body (c + 1) :: rest } := by
        simp only [Sys.execAct, if_pos hc]
        exact probe_miss (hmiss c (Nat.le_refl c) (by omega))
      have hquiet : Quiet me s (s.execAct me (.scan num test body c) rest) := by
        rw [hnext]
        exact ⟨by simp, rfl⟩
      have hmiss' : ∀ j, c + 1 ≤ j → j < k →
          (s.execAct me (.scan num test body c) rest).hit me test j = false := by
        intro j hj hjk
        exact (hquiet.hit j).trans (hmiss j (by omega) hjk)
      rcases ih (by omega) hmiss' (by rw [hquiet.slot]; exact hfull) (by rw [hnext]; simp) (by omega)
        with ⟨t, hrun, hprobed⟩
      exact ⟨t, Sys.Alone.head hcode hrun, hprobed.of_quiet hquiet⟩

/-- The order in which the loop over `start_recv_from` tests `num` slots, from the value `c` on: once
around, and from 0 on where `c` is behind the end. -/
def scanOrder (num c : Nat) : List Nat :=
  if c < num then List.range' c (num - c) ++ List.range c else List.range num

theorem Quiet.trans (h : Quiet me s t) (h' : Quiet me t u) : Quiet me s u :=
  ⟨h'.msg.trans h.msg, h'.slot.trans h.slot⟩

/-- The loop over `start_recv_from` passes tests that fail. -/
theorem alone_pass (hck : c ≤ k) (hk : k ≤ num) (hmiss : ∀ j, c ≤ j → j < k → s.hit me test j = false)
    (hstart : (s.proc me).startRecvFrom = c)
    (hcode : (s.proc me).code = .scanStart num test body :: rest) :
    ∃ t, s.Alone me t ∧ Quiet me s t ∧ (t.proc me).code = .scanStart num test body :: rest ∧
      (t.proc me).startRecvFrom = k := by
  induction hd : k - c generalizing s c with
  | zero =>
      have hck' : c = k := by omega
      exact ⟨s, Sys.Alone.refl, ⟨rfl, rfl⟩, hcode, hstart.trans hck'⟩
  | succ d ih =>
      have hc : c < num := by omega
      have hnext : s.execAct me (.scanStart num test body) rest =
          s.setProc me { s.proc me with startRecvFrom := c + 1 } := by
        simp only [Sys.execAct, hstart, if_pos hc]
        exact probe_miss (hmiss c (Nat.le_refl c) (by omega))
      have hquiet : Quiet me s (s.execAct me (.scanStart num test body) rest) := by
        rw [hnext]
        exact ⟨by simp, rfl⟩
      have hmiss' : ∀ j, c + 1 ≤ j → j < k →
          (s.execAct me (.scanStart num test body) rest).hit me test j = false := by
        intro j hj hjk
        exact (hquiet.hit j).trans (hmiss j (by omega) hjk)
      rcases ih (by omega) hmiss' (by rw [hnext]; simp) (by rw [hnext]; simpa using hcode)
        (by omega) with ⟨t, hrun, hquiet', hcode', hstart'⟩
      exact ⟨t, Sys.Alone.head hcode hrun, hquiet.trans hquiet', hcode', hstart'⟩

/-- Behind the end it starts over. -/
theorem alone_wrap (hc : num ≤ (s.proc me).startRecvFrom)
    (hcode : (s.proc me).code = .scanStart num test body :: rest) :
    ∃ t, s.Alone me t ∧ Quiet me s t ∧ (t.proc me).code = .scanStart num test body :: rest ∧
      (t.proc me).startRecvFrom = 0 := by
  have hnext : s.execAct me (.scanStart num test body) rest =
      s.setProc me { s.proc me with startRecvFrom := 0 } := by
    simp only [Sys.execAct, if_neg (Nat.not_lt.2 hc)]
  refine ⟨_, Sys.Alone.head hcode Sys.Alone.refl, ?_, ?_, ?_⟩
  · rw [hnext]
    exact ⟨by simp, rfl⟩
  · rw [hnext]
    simpa using hcode
  · rw [hnext]
    simp

/-- It comes to the first index of its order whose test succeeds. -/
theorem alone_scanStart
    (hfind : (scanOrder num (s.proc me).startRecvFrom).find? (s.hit me test) = some k)
    (hcode : (s.proc me).code = .scanStart num test body :: rest) :
    k < num ∧ ∃ src lk t, test k = some (src, lk) ∧ s.Alone me t ∧
      Probed me src (body k ++ rest) s t ∧ (t.proc me).startRecvFrom = k := by
  -- the position of the loop when it comes to `k`
  have harrive : k < num ∧ ∃ u, s.Alone me u ∧ Quiet me s u ∧
      (u.proc me).code = .scanStart num test body :: rest ∧ (u.proc me).startRecvFrom = k := by
    have hlap : ∀ u, s.Alone me u → Quiet me s u →
        (u.proc me).code = .scanStart num test body :: rest → (u.proc me).startRecvFrom = 0 →
        k < num → (∀ j, j < k → s.hit me test j = false) →
        k < num ∧ ∃ v, s.Alone me v ∧ Quiet me s v ∧
          (v.proc me).code = .scanStart num test body :: rest ∧ (v.proc me).startRecvFrom = k := by
      intro u hrun hquiet hcodeu hstart hk hmiss
      rcases alone_pass (Nat.zero_le k) (Nat.le_of_lt hk)
        (fun j _ hjk => (hquiet.hit j).trans (hmiss j hjk)) hstart hcodeu with
        ⟨v, hrun', hquiet', hcodev, hstartv⟩
      exact ⟨hk, v, hrun.trans hrun', hquiet.trans hquiet', hcodev, hstartv⟩
    unfold scanOrder at hfind
    split at hfind
    · rename_i hc
      rcases hpart : (List.range' (s.proc me).startRecvFrom
          (num - (s.proc me).startRecvFrom)).find? (s.hit me test) with _ | i
      · -- nothing up to the end: a second lap
        rw [List.find?_append, hpart, Option.none_or, List.find?_range_eq_some] at hfind
        rw [List.find?_range'_eq_none] at hpart
        rcases alone_pass (Nat.le_of_lt hc) (Nat.le_refl num)
          (fun j hj hjn => by simpa using hpart j hj (by omega)) rfl hcode with
          ⟨u, hrun, hquiet, hcodeu, hstart⟩
        rcases alone_wrap (Nat.le_of_eq hstart.symm) hcodeu with
          ⟨v, hrun', hquiet', hcodev, hstartv⟩
        have hk : k < (s.proc me).startRecvFrom := by simpa using hfind.2.1
        exact hlap v (hrun.trans hrun') (hquiet.trans hquiet') hcodev hstartv (by omega)
          fun j hj => by simpa using hfind.2.2 j hj
      · rw [List.find?_append, hpart, Option.some_or] at hfind
        cases hfind
        rw [List.find?_range'_eq_some] at hpart
        have hk := List.mem_range'_1.1 hpart.2.1
        rcases alone_pass hk.1 (by omega)
          (fun j hj hjk => by simpa using hpart.2.2 j hj hjk) rfl hcode with
          ⟨u, hrun, hquiet, hcodeu, hstart⟩
        exact ⟨by omega, u, hrun, hquiet, hcodeu, hstart⟩
    · rename_i hc
      rw [List.find?_range_eq_some] at hfind
      rcases alone_wrap (Nat.not_lt.1 hc) hcode with ⟨u, hrun, hquiet, hcodeu, hstart⟩
      exact hlap u hrun hquiet hcodeu hstart (by simpa using hfind.2.1)
        fun j hj => by simpa using hfind.2.2 j hj
  rcases harrive with ⟨hk, u, hrun, hquiet, hcodeu, hstart⟩
  refine ⟨hk, ?_⟩
  have hhit : u.hit me test k = true := by
    rw [hquiet.hit]
    exact List.find?_some hfind
  rcases Sys.exists_of_hit hhit with ⟨src, lk, htest, hfull⟩
  have hnext : u.execAct me (.scanStart num test body) rest =
      u.probe me (test k) (body k ++ rest) { u.proc me with startRecvFrom := k + 1 } := by
    simp only [Sys.execAct, hstart, if_pos hk]
  have hprobe := @probe_hit L n me src u k test lk (body k ++ rest)
    { u.proc me with startRecvFrom := k + 1 } htest hfull
  rw [← hnext] at hprobe
  exact ⟨src, lk, _, htest, hrun.trans (Sys.Alone.head hcodeu Sys.Alone.refl),
    hprobe.1.of_quiet hquiet, hprobe.2.trans hstart⟩

/-- What a lock has written is overwritten when the message has been taken. -/
theorem Probed.takes {c : List (Act n)} (hpos : 0 < L.senderBytes) (h : Probed me src c s t)
    (htakes : TakesAlone me src id ps rest t u) :
    (u.proc me).msg = L.setSender id (copyLine ps (s.slot (src, me)) (s.proc me).msg) ∧
      u.slot = Function.update s.slot (src, me) (L.setState ssmpBufEmpty (s.slot (src, me))) := by
  have hmsg := htakes.msg
  have hslot := htakes.slot
  rw [h.msg] at hmsg
  rcases h.slot with heq | heq
  · rw [heq] at hmsg hslot
    exact ⟨hmsg, hslot⟩
  · rw [heq] at hmsg hslot
    refine ⟨?_, ?_⟩
    · rw [hmsg, Function.update_self]
      have hsame : SameButState L
          (copyLine ps (L.setState ssmpBufLockd (s.slot (src, me))) (s.proc me).msg)
          (copyLine ps (s.slot (src, me)) (s.proc me).msg) :=
        SameButState.copyLine ps (sameButState_setState _ _) fun _ _ => rfl
      exact hsame.setSender hpos id
    · rw [hslot, Function.update_self, Function.update_idem]
      simp [MsgLayout.setState]

end Alone

/-! ## The receives of every build -/

theorem readsPieces_readLine {L : MsgLayout} {n : Nat} (m : Memcpy L) :
    ReadsPieces m.back (readLine (n := n) m) :=
  fun _ _ => ⟨_, rfl, Or.inl rfl⟩

theorem readsPieces_readMsg {n : Nat} {v : SparcMsg} (o : Niagara.CopyOrder v) :
    ReadsPieces o.pieces (Niagara.readMsg (n := n) o) :=
  fun _ _ => ⟨_, rfl, Or.inl rfl⟩

theorem readsPieces_readColorMsg {n : Nat} {v : SparcMsg} (o : Niagara.CopyOrder v) :
    ReadsPieces o.pieces (Niagara.readColorMsg (n := n) o) :=
  fun _ _ => ⟨_, rfl, Or.inr rfl⟩

/-- What the receives of a build copy. -/
def Build.loads : Build → List Piece
  | .generic m _ | .opteron m _ | .xeon m _ _ => m.back
  | .niagara _ o => o.pieces

theorem Build.copiesPayload_loads (b : Build) : CopiesPayload b.layout b.loads := by
  cases b with
  | niagara v o => exact o.payload
  | generic m useAtomic => exact m.back_payload
  | opteron m useAtomic => exact m.back_payload
  | xeon m sameSocket useAtomic => exact m.back_payload

theorem Build.senderBytes_pos (b : Build) : 0 < b.layout.senderBytes := by
  rcases b.senderBytes_cases with h | h <;> omega

/-- The scanning receives of a build are tests, each followed by copies of the same pieces. -/
theorem Build.scansPieces {n : Nat} (b : Build) (me : Fin n) :
    ∃ lk locks read readColor, ReadsPieces b.loads read ∧ ReadsPieces b.loads readColor ∧
      (b.platform me).ScansWith me lk locks read readColor := by
  cases b with
  | generic m useAtomic =>
      exact ⟨useAtomic, fun _ => useAtomic, readLine m, readLine m, readsPieces_readLine m,
        readsPieces_readLine m, Generic.scansWith m useAtomic me⟩
  | opteron m useAtomic =>
      refine ⟨useAtomic, fun _ => useAtomic, readLine m, readLine m, readsPieces_readLine m,
        readsPieces_readLine m, ?_⟩
      simp only [Build.platform, Opteron.platform_eq_generic]
      exact Generic.scansWith m useAtomic me
  | xeon m sameSocket useAtomic =>
      exact ⟨useAtomic, fun k => !sameSocket me k, readLine m, readLine m, readsPieces_readLine m,
        readsPieces_readLine m, rfl, fun _ => rfl, fun _ => rfl⟩
  | niagara v o =>
      exact ⟨false, fun _ => false, Niagara.readMsg o, Niagara.readColorMsg o,
        readsPieces_readMsg o, readsPieces_readColorMsg o, rfl, fun _ => rfl, fun _ => rfl⟩

end Ssmp
