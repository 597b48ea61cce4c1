import Mathlib
import Ssmp.Lib.OneSlot

/-!
# Message — the message lines of `ssmp_msg_t`

Both message types (`include/ssmp_x86.h` and `include/ssmp_sparc.h`) are aligned to a cache line,
so a message is a line of `SSMP_CACHE_LINE_SIZE` bytes.  What differs is the layout: how many
payload bytes come first, where the `state` byte lies, and how many bytes its union partner
`sender` has.
-/

namespace Ssmp

open Lib

/-! ## Settings of `include/ssmp.h` -/

def ssmpCacheLineSize : Nat := 64

def ssmpBufEmpty : UInt8 := 0
def ssmpBufMessg : UInt8 := 1
def ssmpBufLockd : UInt8 := 2

/-- The three slot states are the flag values of a one-slot channel. -/
def slotCode : OneSlot.FlagCode UInt8 where
  empty := ssmpBufEmpty
  full := ssmpBufMessg
  locked := ssmpBufLockd
  empty_ne_full := by decide
  empty_ne_locked := by decide
  full_ne_locked := by decide

/-! ## Lines and layouts -/

/-- The bytes of one `ssmp_msg_t`. -/
abbrev Line : Type := Fin ssmpCacheLineSize → UInt8

/-- Where the fields of `ssmp_msg_t` lie, and in which order the bytes of `sender`. -/
structure MsgLayout where
  payloadBytes : Nat
  state : Fin ssmpCacheLineSize
  senderBytes : Nat
  bigEndian : Bool
  payload_le : payloadBytes ≤ state

/-- `ssmp_msg_t` on x86: `w0` .. `w7` and `f[6]`, then the union of `state`, `sender` (4 bytes) and
`pad` (8 bytes). -/
def x86Msg : MsgLayout where
  payloadBytes := 8 * 4 + 6 * 4
  state := ⟨56, by decide⟩
  senderBytes := 4
  bigEndian := false
  payload_le := by decide

/-- `SPARC_SMALL_MSG` defined or not. -/
inductive SparcMsg where
  | small
  | large
  deriving DecidableEq

/-- `ssmp_msg_t` on SPARC.  Small: `w0` .. `w3`, `pad[3]`, then the union of `state` and `sender`
(1 byte).  Large: as on x86. -/
def sparcMsg : SparcMsg → MsgLayout
  | .small =>
      { payloadBytes := 4 * 4
        state := ⟨19, by decide⟩
        senderBytes := 1
        bigEndian := true
        payload_le := by decide }
  | .large =>
      { payloadBytes := 8 * 4 + 6 * 4
        state := ⟨56, by decide⟩
        senderBytes := 4
        bigEndian := true
        payload_le := by decide }

/-- A run of bytes that one copy instruction moves. -/
structure Piece where
  off : Nat
  len : Nat
  deriving DecidableEq

def Piece.Has (p : Piece) (b : Nat) : Prop :=
  p.off ≤ b ∧ b < p.off + p.len

instance (p : Piece) (b : Nat) : Decidable (p.Has b) :=
  inferInstanceAs (Decidable (_ ∧ _))

/-- Move the bytes of `p` from `src` over those of `dst`. -/
def copyPiece (p : Piece) (src dst : Line) : Line :=
  fun b => if p.Has b then src b else dst b

/-- The value of `w` bytes, of which `f i` is the one of weight `256 ^ i`. -/
def bytesValue : Nat → (Nat → UInt8) → Nat
  | 0, _ => 0
  | w + 1, f => (f 0).toNat + 256 * bytesValue w fun i => f (i + 1)

/-- Byte `k` of a line. -/
def byteAt (m : Line) (k : Nat) : UInt8 :=
  if h : k < ssmpCacheLineSize then m ⟨k, h⟩ else 0

/-- The low bytes of a number have its value, up to what they cannot hold. -/
theorem bytesValue_ofNat (w v : Nat) :
    bytesValue w (fun i => UInt8.ofNat (v >>> (8 * i))) = v % 256 ^ w := by
  induction w generalizing v with
  | zero => simp [bytesValue, Nat.mod_one]
  | succ w ih =>
      -- the bytes above the lowest are those of `v / 256`
      have hshift : (fun i => UInt8.ofNat (v >>> (8 * (i + 1)))) =
          fun i => UInt8.ofNat ((v / 256) >>> (8 * i)) := by
        funext i
        rw [Nat.mul_succ, Nat.add_comm, Nat.shiftRight_add]
        simp [Nat.shiftRight_eq_div_pow]
      calc
        bytesValue (w + 1) (fun i => UInt8.ofNat (v >>> (8 * i)))
            = v % 256 + 256 * bytesValue w fun i => UInt8.ofNat (v >>> (8 * (i + 1))) := by
              simp [bytesValue]
        _ = v % 256 + 256 * (v / 256 % 256 ^ w) := by rw [hshift, ih]
        _ = v % 256 ^ (w + 1) := by rw [Nat.pow_succ', Nat.mod_mul]

theorem bytesValue_congr {w : Nat} {f g : Nat → UInt8} (h : ∀ i, i < w → f i = g i) :
    bytesValue w f = bytesValue w g := by
  induction w generalizing f g with
  | zero => rfl
  | succ w ih =>
      simp only [bytesValue]
      rw [h 0 (Nat.succ_pos w), ih fun i hi => h (i + 1) (Nat.succ_lt_succ hi)]

namespace MsgLayout

variable (L : MsgLayout)

/-- `m->state`. -/
def stateOf (m : Line) : UInt8 := m L.state

/-- `m->state = v`. -/
def setState (v : UInt8) (m : Line) : Line :=
  Function.update m L.state v

/-- `m->sender = v`: the low bytes of `v` over the union. -/
def setSender (v : UInt32) (m : Line) : Line :=
  fun b =>
    if L.state.val ≤ b.val ∧ b.val < L.state.val + L.senderBytes then
      let k := b.val - L.state.val
      -- the most significant byte comes first on SPARC
      UInt8.ofNat (v.toNat >>> (8 * if L.bigEndian then L.senderBytes - 1 - k else k))
    else m b

/-- Where the byte of weight `256 ^ i` of `sender` lies, counted from the state byte. -/
def senderPlace (i : Nat) : Nat :=
  if L.bigEndian then L.senderBytes - 1 - i else i

/-- `m->sender` -/
def senderOf (m : Line) : Nat :=
  bytesValue L.senderBytes fun i => byteAt m (L.state + L.senderPlace i)

/-- The payload words of a message, byte by byte. -/
abbrev Payload : Type := Fin L.payloadBytes → UInt8

theorem payload_lt (b : Fin L.payloadBytes) : b.val < ssmpCacheLineSize :=
  Nat.lt_of_lt_of_le b.isLt (Nat.le_trans L.payload_le (Nat.le_of_lt L.state.isLt))

def payload (m : Line) : L.Payload :=
  fun b => m ⟨b.val, L.payload_lt b⟩

/-! ## The fields do not overlap -/

@[simp] theorem stateOf_setState (v : UInt8) (m : Line) : L.stateOf (L.setState v m) = v := by
  simp [stateOf, setState]

@[simp] theorem payload_setState (v : UInt8) (m : Line) :
    L.payload (L.setState v m) = L.payload m := by
  funext b
  -- the payload ends before the state byte
  have hne : (⟨b.val, L.payload_lt b⟩ : Fin ssmpCacheLineSize) ≠ L.state := by
    intro h
    have hb : b.val = L.state.val := congrArg Fin.val h
    have := L.payload_le
    omega
  simp [payload, setState, hne]

@[simp] theorem payload_setSender (v : UInt32) (m : Line) :
    L.payload (L.setSender v m) = L.payload m := by
  funext b
  -- nor does it reach into the union with `sender`
  have hlt : ¬ (L.state.val ≤ b.val ∧ b.val < L.state.val + L.senderBytes) := by
    have := L.payload_le
    omega
  simp [payload, setSender, hlt]

/-! ## Copying pieces -/

/-- The payload bytes that some piece of `ps` moves. -/
def bytesOf (ps : List Piece) : Set (Fin L.payloadBytes) :=
  {b | ∃ p ∈ ps, p.Has b.val}

@[simp] theorem bytesOf_nil : L.bytesOf [] = ∅ := by
  simp [bytesOf]

theorem bytesOf_cons (p : Piece) (ps : List Piece) :
    L.bytesOf (p :: ps) = L.bytesOf ps ∪ L.bytesOf [p] := by
  ext b
  simp [bytesOf, or_comm]

theorem payload_copyPiece (p : Piece) (src dst : Line) :
    OneSlot.Overlay (L.bytesOf [p]) (L.payload src) (L.payload dst)
      (L.payload (copyPiece p src dst)) := by
  constructor
  · intro b hb
    have hp : p.Has b.val := by simpa [bytesOf] using hb
    simp [payload, copyPiece, hp]
  · intro b hb
    have hp : ¬ p.Has b.val := by simpa [bytesOf] using hb
    simp [payload, copyPiece, hp]

theorem stateOf_copyPiece (p : Piece) (src dst : Line) :
    L.stateOf (copyPiece p src dst) =
      if p.Has L.state then L.stateOf src else L.stateOf dst := by
  simp [stateOf, copyPiece]

/-! ## The value of `sender` -/

/-- The field `sender` lies within the line. -/
def SenderFits : Prop := L.state + L.senderBytes ≤ ssmpCacheLineSize

theorem senderPlace_lt {i : Nat} (hi : i < L.senderBytes) : L.senderPlace i < L.senderBytes := by
  unfold senderPlace
  split <;> omega

theorem byteAt_setState (v : UInt8) (m : Line) (k : Nat) :
    byteAt (L.setState v m) k = if k = L.state then v else byteAt m k := by
  by_cases hk : k < ssmpCacheLineSize
  · simp [byteAt, hk, setState, Function.update_apply, Fin.ext_iff]
  · have hne : k ≠ L.state := by
      have := L.state.isLt
      omega
    simp [byteAt, hk, hne]

theorem senderOf_setSender (hfits : L.SenderFits) (v : UInt32) (m : Line) :
    L.senderOf (L.setSender v m) = v.toNat % 256 ^ L.senderBytes := by
  rw [← bytesValue_ofNat]
  refine bytesValue_congr ?_
  intro i hi
  have hplace := L.senderPlace_lt hi
  have hline : L.state.val + L.senderPlace i < ssmpCacheLineSize := by
    unfold SenderFits at hfits
    omega
  -- the byte written there is the one of that weight
  have hweight :
      (if L.bigEndian then L.senderBytes - 1 - L.senderPlace i else L.senderPlace i) = i := by
    unfold senderPlace
    split <;> omega
  simp [byteAt, setSender, hline, hplace, hweight]

/-- On a little-endian machine the state byte is the low byte of `sender`. -/
theorem senderOf_setState (hle : L.bigEndian = false) (hpos : 0 < L.senderBytes) (v : UInt8)
    (m : Line) : L.senderOf (L.setState v m) = L.senderOf m / 256 * 256 + v.toNat := by
  obtain ⟨w, hw⟩ : ∃ w, L.senderBytes = w + 1 := ⟨L.senderBytes - 1, by omega⟩
  have hlow := (byteAt m L.state).toNat_lt
  simp only [senderOf, hw, bytesValue, senderPlace, hle, byteAt_setState]
  simp
  omega

end MsgLayout

theorem senderFits_x86Msg : x86Msg.SenderFits := by
  unfold MsgLayout.SenderFits
  decide

theorem senderFits_sparcMsg (v : SparcMsg) : (sparcMsg v).SenderFits := by
  cases v <;> (unfold MsgLayout.SenderFits; decide)

end Ssmp
