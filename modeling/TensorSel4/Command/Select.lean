/-
The argument of `guest-start`, from `include/trace/cmd_ring.h`.

The low sixteen bits say which guest, with the harness mode in the low eight,
and the next eight which vCPU.  The VMM's side of the vCPU is
`Vmm.guestSelectVcpu`.
-/
import Mathlib.Data.UInt

namespace TensorSel4
namespace Command

def guestSelectDefault : UInt64 := 0x0
def guestSelectLinux : UInt64 := 0x1
def guestSelectHarness : UInt64 := 0x100
def guestSelectVcpuShift : UInt64 := 16

def guestSelectHarnessMode (s : UInt64) : UInt64 := s &&& 0xff
def guestSelectGuest (s : UInt64) : UInt64 := s &&& 0xffff
def guestSelectIsHarness (s : UInt64) : Bool := guestSelectGuest s &&& ~~~0xff == guestSelectHarness

end Command
end TensorSel4
