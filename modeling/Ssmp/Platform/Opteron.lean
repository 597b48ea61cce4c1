import Ssmp.Platform.Generic

/-!
# Opteron — `src/platform/opteron/ssmp_platf.c`

The functions for messages of one line do what those of the generic platform do.  They prefetch in
between, which moves no data.
-/

namespace Ssmp
namespace Opteron

variable {n : Nat} (m : Memcpy x86Msg) (useAtomic : Bool) (me : Fin n)

def ssmpRecvFromPlatf (src : Fin n) : List (Act n) :=
  recvLine m useAtomic src

def ssmpRecvPlatf : List (Act n) :=
  recvAnyLine m useAtomic me

def ssmpRecvColorPlatf (cbuf : ColorBuf n) : List (Act n) :=
  recvColorLine m (fun _ => useAtomic) cbuf

def ssmpRecvColorStartPlatf (cbuf : ColorBuf n) : List (Act n) :=
  recvColorStartLine m (fun _ => useAtomic) cbuf

def ssmpSendPlatf (dst : Fin n) : List (Act n) :=
  sendLine m useAtomic dst

def ssmpSendIsFreePlatf (dst : Fin n) : List (Act n) :=
  [.isFree dst]

def ssmpSendNoSyncPlatf (dst : Fin n) : List (Act n) :=
  sendLineNoSync m dst

def platform : Platform n where
  ssmpSendPlatf := ssmpSendPlatf m useAtomic
  ssmpSendIsFreePlatf := ssmpSendIsFreePlatf
  ssmpSendNoSyncPlatf := ssmpSendNoSyncPlatf m
  ssmpRecvFromPlatf := ssmpRecvFromPlatf m useAtomic
  ssmpRecvPlatf := ssmpRecvPlatf m useAtomic me
  ssmpRecvColorPlatf := ssmpRecvColorPlatf m useAtomic
  ssmpRecvColorStartPlatf := ssmpRecvColorStartPlatf m useAtomic

/-- So what the generic platform is proved to do holds here too. -/
theorem platform_eq_generic : platform m useAtomic me = Generic.platform m useAtomic me := rfl

end Opteron
end Ssmp
