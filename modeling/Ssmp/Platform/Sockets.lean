import Ssmp.Lib.Ascending
import Ssmp.Platform.Xeon

/-!
# Platform.Sockets — who locks a slot on the Xeon

A slot between two sockets is taken by compare-and-swap at both ends, and a slot within a socket by
polling.  `ssmp_send` and `ssmp_recv_from` ask the tables of `src/platform/xeon/ssmp_platf.c` about
the ids of the two processes; `ssmp_recv_color` and `ssmp_recv_color_start` ask about the id of the
receiver and the position in the color buffer.  `sameDiscipline_iff` says for which colors that makes
no difference.
-/

namespace Ssmp
namespace Xeon

open Lib Ascending

/-! ## The tables -/

def idToCore : List UInt8 :=
  [1, 2, 3, 4, 5, 6, 7, 8, 9, 10,
    11, 12, 13, 14, 15, 16, 17, 18, 19, 20,
    21, 22, 23, 24, 25, 26, 27, 28, 29, 30,
    31, 32, 33, 34, 35, 36, 37, 38, 39, 40,
    0, 41, 42, 43, 44, 45, 46, 47, 48, 49,
    50, 51, 52, 53, 54, 55, 56, 57, 58, 59,
    60, 61, 62, 63, 64, 65, 66, 67, 68, 69,
    70, 71, 72, 73, 74, 75, 76, 77, 78, 79,
    80, 81, 82, 83, 84, 85, 86, 87, 88, 89, 90, 91, 92, 93, 94, 95,
    96, 97, 98, 99, 100, 101, 102, 103, 104, 105, 106, 107, 108, 109, 110, 111,
    112, 113, 114, 115, 116, 117, 118, 119, 120, 121, 122, 123, 124, 125, 126, 127,
    128, 129, 130, 131, 132, 133, 134, 135, 136, 137, 138, 139, 140, 141, 142, 143,
    144, 145, 146, 147, 148, 149, 150, 151, 152, 153, 154, 155, 156, 157, 158, 159,
    160, 161, 162, 163, 164, 165, 166, 167, 168, 169, 170, 171, 172, 173, 174, 175,
    176, 177, 178, 179, 180, 181, 182, 183, 184, 185, 186, 187, 188, 189, 190, 191,
    192, 193, 194, 195, 196, 197, 198, 199, 200, 201, 202, 203, 204, 205, 206, 207,
    208, 209, 210, 211, 212, 213, 214, 215, 216, 217, 218, 219, 220, 221, 222, 223,
    224, 225, 226, 227, 228, 229, 230, 231, 232, 233, 234, 235, 236, 237, 238, 239,
    240, 241, 242, 243, 244, 245, 246, 247, 248, 249, 250, 251, 252, 253, 254, 255]

def idToNode : List UInt8 :=
  [4, 0, 0, 0, 0, 0, 0, 0, 0, 0,
    0, 1, 1, 1, 1, 1, 1, 1, 1, 1, 1,
    2, 2, 2, 2, 2, 2, 2, 2, 2, 2,
    3, 3, 3, 3, 3, 3, 3, 3, 3, 3,
    4, 4, 4, 4, 4, 4, 4, 4, 4,
    5, 5, 5, 5, 5, 5, 5, 5, 5, 5,
    6, 6, 6, 6, 6, 6, 6, 6, 6, 6,
    7, 7, 7, 7, 7, 7, 7, 7, 7, 7]

/-- `id_to_node[id_to_core[id]]` -/
def socketOf (id : Nat) : UInt8 :=
  idToNode.getD (idToCore.getD id 0).toNat 0

def ssmpCoresOnSameSocketPlatf (core1 core2 : Nat) : Bool :=
  socketOf core1 == socketOf core2

/-- The tables give every socket ten consecutive ids. -/
theorem socketOf_toNat {id : Nat} (hid : id < idToNode.length) : (socketOf id).toNat = id / 10 := by
  have htable : ∀ i : Fin idToNode.length, (socketOf i).toNat = i.val / 10 := by decide +kernel
  exact htable ⟨id, hid⟩

theorem sameSocket_eq {i j : Nat} (hi : i < idToNode.length) (hj : j < idToNode.length) :
    ssmpCoresOnSameSocketPlatf i j = decide (i / 10 = j / 10) := by
  rw [ssmpCoresOnSameSocketPlatf, ← socketOf_toNat hi, ← socketOf_toNat hj, Bool.beq_eq_decide_eq,
    decide_eq_decide, UInt8.toNat_inj]

/-! ## Which path a call takes -/

section Paths

variable {n : Nat} {q : SlotRef n} {c : List (Act n)} {lk b : Bool} {src dst : Fin n}
variable {m : Memcpy x86Msg} {locks : Nat → Bool} {cbuf : ColorBuf n}

/-- The code `c` takes the slot `q` by compare-and-swap (`true`), or when it reads the state awaited
(`false`). -/
inductive Takes (q : SlotRef n) (c : List (Act n)) : Bool → Prop where
  | cas {old new : UInt8} (h : .cas q old new ∈ c) : Takes q c true
  | await {v : UInt8} (h : .await q v ∈ c) : Takes q c false
  | scan {num k start : Nat} {test : Nat → Option (Fin n × Bool)} {body : Nat → List (Act n)}
      {src : Fin n} {lk : Bool} (h : .scan num test body start ∈ c) (hk : k < num)
      (htest : test k = some (src, lk)) (hq : q = .recvBuf src) : Takes q c lk
  | scanStart {num k : Nat} {test : Nat → Option (Fin n × Bool)} {body : Nat → List (Act n)}
      {src : Fin n} {lk : Bool} (h : .scanStart num test body ∈ c) (hk : k < num)
      (htest : test k = some (src, lk)) (hq : q = .recvBuf src) : Takes q c lk

/-- An action that neither waits nor tests. -/
def Act.Moves : Act n → Prop
  | .setState _ | .setSender _ | .copyOut .. | .copyIn .. | .store .. => True
  | _ => False

theorem moves_toSlot (dst : Fin n) : ∀ a ∈ m.toSlot dst, Act.Moves a := by
  intro a ha
  rcases List.mem_map.1 ha with ⟨p, _, rfl⟩
  trivial

theorem moves_toMsg (src : Fin n) : ∀ a ∈ m.toMsg src, Act.Moves a := by
  intro a ha
  rcases List.mem_map.1 ha with ⟨p, _, rfl⟩
  trivial

/-- A call that takes the slot first, and then only moves data. -/
theorem takes_acquire_iff {v : UInt8} (hrest : ∀ a ∈ c, Act.Moves a) :
    Takes q (acquire lk q v :: c) b ↔ b = lk := by
  have hmem : ∀ a ∈ acquire lk q v :: c, ¬ Act.Moves a → a = acquire lk q v := by
    intro a ha hnot
    rcases List.mem_cons.1 ha with heq | htail
    · exact heq
    · exact absurd (hrest a htail) hnot
  constructor
  · intro h
    cases h with
    | cas h =>
        have heq := hmem _ h id
        cases lk with
        | true => rfl
        | false => cases heq
    | await h =>
        have heq := hmem _ h id
        cases lk with
        | true => cases heq
        | false => rfl
    | scan h => cases lk <;> cases hmem _ h id
    | scanStart h => cases lk <;> cases hmem _ h id
  · rintro rfl
    cases b with
    | true => exact Takes.cas List.mem_cons_self
    | false => exact Takes.await List.mem_cons_self

theorem takes_sendLine_iff : Takes (.sendBuf dst) (sendLine m lk dst) b ↔ b = lk := by
  refine takes_acquire_iff ?_
  intro a ha
  rcases List.mem_cons.1 ha with rfl | htail
  · trivial
  · exact moves_toSlot dst a htail

theorem takes_recvLine_iff : Takes (.recvBuf src) (recvLine m lk src) b ↔ b = lk := by
  refine takes_acquire_iff ?_
  intro a ha
  rcases List.mem_append.1 ha with hcopy | hstore
  · exact moves_toMsg src a hcopy
  · rw [List.mem_singleton.1 hstore]
    trivial

/-- A color receive takes a slot by the path of its positions in the buffer. -/
theorem takes_recvColorLine_iff :
    Takes (.recvBuf src) (recvColorLine m locks cbuf) b ↔
      ∃ k, k < cbuf.numUes ∧ cbuf.bufState[k]? = some src ∧ b = locks k := by
  constructor
  · intro h
    cases h with
    | cas h => simp [recvColorLine] at h
    | await h => simp [recvColorLine] at h
    | scanStart h => simp [recvColorLine] at h
    | scan h hk htest hq =>
        cases hq
        cases List.mem_singleton.1 h
        exact ⟨_, hk, colorTest_some htest⟩
  · rintro ⟨k, hk, hsrc, rfl⟩
    exact Takes.scan List.mem_cons_self hk (by simp [colorTest, hsrc]) rfl

theorem takes_recvColorStartLine_iff :
    Takes (.recvBuf src) (recvColorStartLine m locks cbuf) b ↔
      ∃ k, k < cbuf.numUes ∧ cbuf.bufState[k]? = some src ∧ b = locks k := by
  constructor
  · intro h
    cases h with
    | cas h => simp [recvColorStartLine] at h
    | await h => simp [recvColorStartLine] at h
    | scan h => simp [recvColorStartLine] at h
    | scanStart h hk htest hq =>
        cases hq
        cases List.mem_singleton.1 h
        exact ⟨_, hk, colorTest_some htest⟩
  · rintro ⟨k, hk, hsrc, rfl⟩
    exact Takes.scanStart List.mem_cons_self hk (by simp [colorTest, hsrc]) rfl

end Paths

/-! ## The two ends of a slot -/

section Ends

variable {n : Nat}

/-- Whether a slot between the two processes is to be locked. -/
def differentSockets (s r : Fin n) : Bool :=
  socketOf s != socketOf r

/-- Every call at either end of the slot from `s` to `r` takes it by compare-and-swap if the two are
on different sockets, and by polling if they are not. -/
structure SameDiscipline (m : Memcpy x86Msg) (cbuf : ColorBuf n) (r s : Fin n) : Prop where
  send : ∀ b, Takes (.sendBuf r) (ssmpSendPlatf m (ssmpCoresOnSameSocketPlatf · ·) s r) b ↔
    b = differentSockets s r
  recvFrom : ∀ b, Takes (.recvBuf s) (ssmpRecvFromPlatf m (ssmpCoresOnSameSocketPlatf · ·) r s) b ↔
    b = differentSockets s r
  recvColor : ∀ b,
    Takes (.recvBuf s) (ssmpRecvColorPlatf m (ssmpCoresOnSameSocketPlatf · ·) r cbuf) b ↔
      b = differentSockets s r
  recvColorStart : ∀ b,
    Takes (.recvBuf s) (ssmpRecvColorStartPlatf m (ssmpCoresOnSameSocketPlatf · ·) r cbuf) b ↔
      b = differentSockets s r

/-- The ids of the receiver's socket. -/
def socketIds (r : Fin n) : Set Nat :=
  Set.Ico (r.val / 10 * 10) (r.val / 10 * 10 + 10)

theorem mem_socketIds {r : Fin n} {k : Nat} : k ∈ socketIds r ↔ k / 10 = r.val / 10 := by
  rw [socketIds, Set.mem_Ico]
  omega

/-- No participant is on the receiver's socket, and they are no more than the ids below that socket;
or all processes below the socket participate, and none above it. -/
def SocketAligned (r : Fin n) (color : Int → Int) : Prop :=
  ((∀ s, participants r color s ≠ 0 → s.val ∉ socketIds r) ∧
      ((List.finRange n).filter fun s => decide (participants r color s ≠ 0)).length ≤
        r.val / 10 * 10) ∨
    ((∀ s : Fin n, s.val < r.val / 10 * 10 → participants r color s ≠ 0) ∧
      ∀ s, participants r color s ≠ 0 → s.val < r.val / 10 * 10 + 10)

variable {m : Memcpy x86Msg} {r s : Fin n} {color : Int → Int} {cbuf : ColorBuf n}

theorem not_sameSocket_eq (r s : Fin n) :
    (!ssmpCoresOnSameSocketPlatf r s) = differentSockets s r := by
  rw [differentSockets, ssmpCoresOnSameSocketPlatf, bne, Bool.beq_comm]

/-- The color receives are right if and only if the answer about each position is the one about the
process there. -/
theorem sameDiscipline_buf_iff (hw : cbuf.WellFormed) (hnum : cbuf.numUes = cbuf.buf.length) :
    (∀ s ∈ cbuf.buf, SameDiscipline m cbuf r s) ↔
      ∀ k, ∀ hk : k < cbuf.buf.length,
        (!ssmpCoresOnSameSocketPlatf r k) = differentSockets cbuf.buf[k] r := by
  constructor
  · intro h k hk
    have hcolor := (h _ (List.getElem_mem hk)).recvColor
    refine (hcolor _).1 (takes_recvColorLine_iff.2 ⟨k, by omega, ?_, rfl⟩)
    rw [← hw.same]
    exact List.getElem?_eq_getElem hk
  · intro h s hs
    -- what a position says about its process
    have hpath : ∀ b, (∃ k, k < cbuf.numUes ∧ cbuf.bufState[k]? = some s ∧
        b = !ssmpCoresOnSameSocketPlatf r k) ↔ b = differentSockets s r := by
      intro b
      rw [← hw.same]
      constructor
      · rintro ⟨k, _, hk, rfl⟩
        rcases List.getElem?_eq_some_iff.1 hk with ⟨hlt, rfl⟩
        exact h k hlt
      · rintro rfl
        rcases List.mem_iff_getElem.1 hs with ⟨k, hk, rfl⟩
        exact ⟨k, by omega, List.getElem?_eq_getElem hk, (h k hk).symm⟩
    refine ⟨?_, ?_, ?_, ?_⟩
    · intro b
      rw [ssmpSendPlatf, takes_sendLine_iff, not_sameSocket_eq]
      simp only [differentSockets, bne, Bool.beq_comm]
    · intro b
      rw [ssmpRecvFromPlatf, takes_recvLine_iff, not_sameSocket_eq]
    · intro b
      exact takes_recvColorLine_iff.trans (hpath b)
    · intro b
      exact takes_recvColorStartLine_iff.trans (hpath b)

theorem answers_iff {k : Nat} (hn : n ≤ idToNode.length) (hk : k < n) :
    (!ssmpCoresOnSameSocketPlatf r k) = differentSockets s r ↔
      (k ∈ socketIds r ↔ s.val ∈ socketIds r) := by
  have hr := Nat.lt_of_lt_of_le r.isLt hn
  rw [← not_sameSocket_eq, sameSocket_eq hr (Nat.lt_of_lt_of_le hk hn),
    sameSocket_eq hr (Nat.lt_of_lt_of_le s.isLt hn), mem_socketIds, mem_socketIds,
    Bool.not_inj_iff, decide_eq_decide, eq_comm, @eq_comm _ (r.val / 10)]

/-- For every number of processes that the tables tell the sockets of, every receiver and every
color: both ends of the slots of all participants choose the same discipline if and only if the
participants are aligned with the receiver's socket. -/
theorem sameDiscipline_iff (m : Memcpy x86Msg) (hn : n ≤ idToNode.length) (r : Fin n)
    (color : Int → Int) :
    (∀ s ∈ (ssmpColorBufInitPlatf r color).buf,
        SameDiscipline m (ssmpColorBufInitPlatf r color) r s) ↔ SocketAligned r color := by
  have hbuf := ssmpColorBufInitPlatf_buf r color
  have hmem : ∀ s, s ∈ (ssmpColorBufInitPlatf r color).buf ↔ participants r color s ≠ 0 :=
    fun s => mem_ssmpColorBufInitPlatf
  have hlen : (ssmpColorBufInitPlatf r color).buf.length ≤ n := by
    rw [hbuf]
    exact (List.length_filter_le _ _).trans (List.length_finRange ▸ Nat.le_refl _)
  -- the ids of the participants, in ascending order and without the receiver's
  have hasc : ((ssmpColorBufInitPlatf r color).buf.map Fin.val).Pairwise (· < ·) := by
    rw [hbuf, List.pairwise_map]
    exact (List.pairwise_lt_finRange n).sublist List.filter_sublist
  have hout : r.val ∉ (ssmpColorBufInitPlatf r color).buf.map Fin.val := by
    intro h
    rcases List.mem_map.1 h with ⟨s, hs, hval⟩
    have hsr : s = r := Fin.ext hval
    exact (hmem s).1 hs (by simp [participants, hsr])
  have hall : ∀ Q : Nat → Prop, (∀ x ∈ (ssmpColorBufInitPlatf r color).buf.map Fin.val, Q x) ↔
      ∀ s : Fin n, participants r color s ≠ 0 → Q s.val := by
    intro Q
    constructor
    · intro h s hs
      exact h s.val (List.mem_map.2 ⟨s, (hmem s).2 hs, rfl⟩)
    · rintro h x hx
      rcases List.mem_map.1 hx with ⟨s, hs, rfl⟩
      exact h s ((hmem s).1 hs)
  have hin : r.val ∈ socketIds r := mem_socketIds.2 rfl
  rw [sameDiscipline_buf_iff (ssmpColorBufInitPlatf_wellFormed r color)
    (ssmpColorBufInitPlatf_numUes r color)]
  have hiff := mem_Ico_iff hasc hin hout
  simp only [List.length_map, List.getElem_map] at hiff
  refine Iff.trans ?_ (hiff.trans ?_)
  · constructor
    · intro h k hk
      exact (answers_iff hn (Nat.lt_of_lt_of_le hk hlen)).1 (h k hk)
    · intro h k hk
      exact (answers_iff hn (Nat.lt_of_lt_of_le hk hlen)).2 (h k hk)
  · have hlow : r.val / 10 * 10 ≤ r.val := Nat.div_mul_le_self _ _
    rw [SocketAligned, ← hbuf]
    refine or_congr (and_congr ?_ Iff.rfl) (and_congr ?_ ?_)
    · exact hall fun x => x ∉ socketIds r
    · constructor
      · intro h s hs
        rcases List.mem_map.1 (h s.val hs) with ⟨s', hs', hval⟩
        rw [← Fin.ext hval]
        exact (hmem s').1 hs'
      · intro h x hx
        have hxn : x < n := by omega
        exact List.mem_map.2 ⟨⟨x, hxn⟩, (hmem _).2 (h ⟨x, hxn⟩ hx), rfl⟩
    · exact hall fun x => x < r.val / 10 * 10 + 10

/-- Ten processes fit on one socket, so all colors are aligned. -/
theorem sameDiscipline_iff_ten :
    10 ≤ idToNode.length ∧
      ((∀ s ∈ (ssmpColorBufInitPlatf (3 : Fin 10) fun _ => 1).buf,
        SameDiscipline Generic.memcpyWords (ssmpColorBufInitPlatf (3 : Fin 10) fun _ => 1) 3 s) ↔
          SocketAligned (3 : Fin 10) fun _ => 1) :=
  ⟨by decide, sameDiscipline_iff Generic.memcpyWords (by decide) 3 fun _ => 1⟩

/-- Only process 10 participates in the color buffer of process 0, on another socket: process 10
locks the slot, and the position 0 lets process 0 poll. -/
def onlyTen (id : Int) : Int :=
  if id = 10 then 1 else 0

theorem not_sameDiscipline_onlyTen :
    11 ≤ idToNode.length ∧ (10 : Fin 11) ∈ (ssmpColorBufInitPlatf (0 : Fin 11) onlyTen).buf ∧
      Takes (.sendBuf 0)
        (ssmpSendPlatf Generic.memcpyWords (ssmpCoresOnSameSocketPlatf · ·) (10 : Fin 11) 0) true ∧
      Takes (.recvBuf 10) (ssmpRecvColorPlatf Generic.memcpyWords (ssmpCoresOnSameSocketPlatf · ·)
        (0 : Fin 11) (ssmpColorBufInitPlatf 0 onlyTen)) false ∧
      Takes (.recvBuf 10) (ssmpRecvColorStartPlatf Generic.memcpyWords
        (ssmpCoresOnSameSocketPlatf · ·) (0 : Fin 11) (ssmpColorBufInitPlatf 0 onlyTen)) false ∧
      ¬ ∀ s ∈ (ssmpColorBufInitPlatf (0 : Fin 11) onlyTen).buf,
        SameDiscipline Generic.memcpyWords (ssmpColorBufInitPlatf 0 onlyTen) 0 s := by
  have hmem : (10 : Fin 11) ∈ (ssmpColorBufInitPlatf (0 : Fin 11) onlyTen).buf :=
    mem_ssmpColorBufInitPlatf.2 (by decide)
  have hfirst : (ssmpColorBufInitPlatf (0 : Fin 11) onlyTen).bufState[0]? = some 10 := by
    decide +kernel
  have hnum : 0 < (ssmpColorBufInitPlatf (0 : Fin 11) onlyTen).numUes := by decide +kernel
  have hcolor : Takes (.recvBuf 10) (ssmpRecvColorPlatf Generic.memcpyWords
      (ssmpCoresOnSameSocketPlatf · ·) (0 : Fin 11) (ssmpColorBufInitPlatf 0 onlyTen)) false :=
    takes_recvColorLine_iff.2 ⟨0, hnum, hfirst, by decide⟩
  refine ⟨by decide, hmem, takes_sendLine_iff.2 (by decide), hcolor,
    takes_recvColorStartLine_iff.2 ⟨0, hnum, hfirst, by decide⟩, ?_⟩
  intro h
  exact absurd (((h 10 hmem).recvColor false).1 hcolor) (by decide)

end Ends

end Xeon
end Ssmp
