/-
The console of `vmm/exynos_uart_emul.c`.

`line` is `line[0..line_len)`.  It never fills the 256-byte buffer, since
`console_flush` stores a terminator after it, and the structure carries that
bound.  `printf` prints the line with `%s`, so up to its first NUL.
-/
import Mathlib.Data.UInt

namespace TensorSel4
namespace Vmm

def exynosUartUfcon : UInt64 := 0x08
def exynosUartUtrstat : UInt64 := 0x10
def exynosUartUfstat : UInt64 := 0x18
def exynosUartUtxh : UInt64 := 0x20

def exynosUartUfconFifomode : UInt32 := (1 : UInt32) <<< 0
def exynosUartUtrstatTxfe : UInt32 := (1 : UInt32) <<< 1
def exynosUartUtrstatTxe : UInt32 := (1 : UInt32) <<< 2

def consoleLineMax : Nat := 256

theorem nil_bounded : ([] : List UInt8).length ≤ consoleLineMax - 1 := Nat.zero_le _

structure ExynosUartEmul where
  line : List UInt8 := []
  /-- The bytes of each line printed so far. -/
  printed : List (List UInt8) := []
  bounded : line.length ≤ consoleLineMax - 1 := by exact TensorSel4.Vmm.nil_bounded

namespace ExynosUartEmul

/-- The bytes of `"guest| "`. -/
def guestPrompt : List UInt8 := [0x67, 0x75, 0x65, 0x73, 0x74, 0x7c, 0x20]

/-- `"guest| %s"`, without the newline that ends it. -/
def guestLine (line : List UInt8) : List UInt8 := guestPrompt ++ line.takeWhile (· ≠ 0)

/-- `exynos_uart_emul_init`, without the handler that it registers. -/
def exynosUartEmulInit (u : ExynosUartEmul) : ExynosUartEmul := { line := [], printed := u.printed }

def consoleFlush (u : ExynosUartEmul) : ExynosUartEmul :=
  { line := [], printed := u.printed ++ [guestLine u.line] }

/-- `line[line_len++] = c`, where there is room for it. -/
def append (u : ExynosUartEmul) (c : UInt8) (h : u.line.length < consoleLineMax - 1) :
    ExynosUartEmul :=
  { u with
    line := u.line ++ [c]
    bounded := by
      rw [List.length_append]
      exact h }

def consolePutc (u : ExynosUartEmul) (c : UInt8) : ExynosUartEmul :=
  if c = 0x0d then u
  else if c = 0x0a then u.consoleFlush
  else if h : u.line.length = consoleLineMax - 1 then u.consoleFlush.append c (Nat.zero_lt_succ 254)
  else u.append c (Nat.lt_of_le_of_ne u.bounded h)

end ExynosUartEmul

/-- The registers that `uart_read` emulates. -/
def uartReadValue (offset : UInt64) : Option UInt32 :=
  if offset = exynosUartUfcon then some exynosUartUfconFifomode
  else if offset = exynosUartUtrstat then some (exynosUartUtrstatTxe ||| exynosUartUtrstatTxfe)
  else if offset = exynosUartUfstat then some 0
  else none

end Vmm
end TensorSel4
