import ByteVerse.Run
import ByteVerse.SlotTable
import ByteVerse.ParentPath
import ByteVerse.Unwinding
import ByteVerse.FileSystem
import ByteVerse.Kernel
import ByteVerse.Console
import ByteVerse.Keyboard
import ByteVerse.Descriptors
import ByteVerse.Execute
import ByteVerse.Terminal
import ByteVerse.DescriptorTable
import ByteVerse.Machine
import ByteVerse.ProcessTable
import ByteVerse.Context
import ByteVerse.Display
import ByteVerse.Line
import ByteVerse.Reader
import ByteVerse.InputIsolation
import ByteVerse.InputLines
import ByteVerse.ReadRace
import ByteVerse.VirtualRtc
import ByteVerse.TerminalSwitch
import ByteVerse.CommandLine
import ByteVerse.FileStream
import ByteVerse.ListedFiles
import ByteVerse.ExecuteContract
import ByteVerse.Cells
import ByteVerse.Echo
import ByteVerse.HaltRace
import ByteVerse.OwnPaths
import ByteVerse.HaltSafety
import ByteVerse.Accesses
import ByteVerse.CommandBounds
import ByteVerse.ImageLayout
import ByteVerse.DataAccess
import ByteVerse.DirectoryListing
import ByteVerse.BufferSize
import ByteVerse.BufferAddress
import ByteVerse.InputBounds
import ByteVerse.LineEditing
import ByteVerse.CurrentLine
import ByteVerse.ModifierKeys
import ByteVerse.KeyboardHalt
import ByteVerse.TextLayout
import ByteVerse.ConsoleText
import ByteVerse.HardwareCursor
import ByteVerse.CellStores
import ByteVerse.RtcWait
import ByteVerse.RtcOpen
import ByteVerse.Numerals
import ByteVerse.NumberText
import ByteVerse.Format
import ByteVerse.KernelEcho
import ByteVerse.Words
import ByteVerse.X86
import ByteVerse.StackFrames
import ByteVerse.SyscallEntry
import ByteVerse.BitFields
import ByteVerse.Mmu
import ByteVerse.Paging
import ByteVerse.BuiltPids
import ByteVerse.TableStmts
import ByteVerse.AddressSpace
import ByteVerse.PortIo
import ByteVerse.Pic
import ByteVerse.Board
import ByteVerse.I8259
import ByteVerse.Idt
import ByteVerse.Interrupts
import ByteVerse.UserCalls
import ByteVerse.UserPrograms
import ByteVerse.Lines
import ByteVerse.Grep
import ByteVerse.StringAsm
import ByteVerse.MemoryRoutines
