import TensorSel4.Trace.DumpRequest
import TensorSel4.Vmm.Machine
import TensorSel4.Vmm.Exit
import TensorSel4.Vmm.Lifecycle
import TensorSel4.Vmm.GuestPower
import TensorSel4.Vmm.Activity
import TensorSel4.Vmm.RunBrackets
import TensorSel4.Vmm.GuestRuns
import TensorSel4.Vmm.MmioRecords
import TensorSel4.Trace.SmcAdjacent
import TensorSel4.Bytes.Hex
import TensorSel4.Bytes.Layout
import TensorSel4.Text.Lines
import TensorSel4.Text.Search
import TensorSel4.Trace.Dump
import TensorSel4.Decode.Parse
import TensorSel4.Decode.Decoder
import TensorSel4.Decode.Log
import TensorSel4.Decode.DumpLines
import TensorSel4.Decode.RoundTrip
import TensorSel4.Decode.GuestText
import TensorSel4.Decode.Damage
import TensorSel4.Vmm.Boot
import TensorSel4.Vmm.Firmware
import TensorSel4.Command.Select
import TensorSel4.Vmm.GuestImage
import TensorSel4.Vmm.SmcBracket
import TensorSel4.Vmm.FreshStart
import TensorSel4.Fbcon.Geometry
import TensorSel4.Fbcon.Grid
import TensorSel4.Text.Words
import TensorSel4.Uartrx.Args
import TensorSel4.Uartrx.GuestSelect
import TensorSel4.Bytes.Decimal
import TensorSel4.Uartrx.Console
import TensorSel4.Uartrx.Line
import TensorSel4.Uartrx.LineEndings
import TensorSel4.Console.Fifo
import TensorSel4.Command.Delivery
import TensorSel4.Command.Host
import TensorSel4.Command.Completion
import TensorSel4.Automaton.Causes
import TensorSel4.Control.System
import TensorSel4.Control.Causes
import TensorSel4.Control.Lifecycle
import TensorSel4.Mirror.Ring
import TensorSel4.Mirror.Caught
import TensorSel4.Wakeup.System
import TensorSel4.Console.Newline
import TensorSel4.Wakeup.Moves
import TensorSel4.Wakeup.Places
import TensorSel4.Wakeup.Awake
import TensorSel4.Decode.Sound
import TensorSel4.Freezewatch.Watch
import TensorSel4.Loader.Memcpy
import TensorSel4.Kernel.Rootserver
import TensorSel4.Kernel.RootserverOrder
import TensorSel4.Kernel.KernelDevices
import TensorSel4.Fbcon.Framebuffer
import TensorSel4.Fbcon.Picture
import TensorSel4.Automaton.Recorded
import TensorSel4.Fbcon.Echo
import TensorSel4.Mirror.Accounting
import TensorSel4.Text.Cut
import TensorSel4.Vmm.GuestLines
import TensorSel4.Bytes.HexNumber
import TensorSel4.Initramfs.Newc
import TensorSel4.Initramfs.Mkcpio
import TensorSel4.Kernel.InstanceLabel
import TensorSel4.Bytes.BitRows
import TensorSel4.Fbcon.Bdf2c
import TensorSel4.Fbcon.Glyph
import TensorSel4.Harness.PageTables
import TensorSel4.Harness.WalkRounds
import TensorSel4.Assembly.Frame
import TensorSel4.Harness.Vectors
import TensorSel4.Memory.Published
import TensorSel4.Vmm.Breadcrumb
import TensorSel4.Platform.Program
import TensorSel4.Vmm.Board
import TensorSel4.Harness.Transcript
import TensorSel4.Fbcon.Scanout
