import Ssmp.Platform.Niagara
import Ssmp.Platform.Opteron
import Ssmp.Platform.Xeon

/-!
# Build — the platform the library is built for

A library is built for one platform, which fixes the layout of its messages.  The parameters are
those of the platform modules.
-/

namespace Ssmp

inductive Build where
  | generic (m : Memcpy x86Msg) (useAtomic : Bool)
  | opteron (m : Memcpy x86Msg) (useAtomic : Bool)
  | xeon (m : Memcpy x86Msg) (sameSocket : Nat → Nat → Bool) (useAtomic : Bool)
  | niagara (v : SparcMsg) (o : Niagara.CopyOrder v)

namespace Build

@[simp] def layout : Build → MsgLayout
  | .niagara v _ => sparcMsg v
  | _ => x86Msg

def platform {n : Nat} : Build → Fin n → Platform n
  | .generic m useAtomic, me => Generic.platform m useAtomic me
  | .opteron m useAtomic, me => Opteron.platform m useAtomic me
  | .xeon m sameSocket useAtomic, me => Xeon.platform m sameSocket useAtomic me
  | .niagara _ o, me => Niagara.platform o me

end Build
end Ssmp
