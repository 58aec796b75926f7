import FalloutEmu.MapRuns
import FalloutEmu.FlatMemory
import FalloutEmu.VirtualAlloc
import FalloutEmu.ThreadContext
import FalloutEmu.Disassembly
import FalloutEmu.MultiplyDivide
import FalloutEmu.StringInstructions
import FalloutEmu.ConditionCodes
import FalloutEmu.FPUInstructions
import FalloutEmu.Frames
import FalloutEmu.FetchInvariant
import FalloutEmu.CacheTransparency
import FalloutEmu.RegisterStack
import FalloutEmu.Division
import FalloutEmu.Multiplication
import FalloutEmu.SignExtension
import FalloutEmu.Repetition
import FalloutEmu.DataMoves
import FalloutEmu.Scans
import FalloutEmu.Release
import FalloutEmu.ComponentPath
import FalloutEmu.Paths
import FalloutEmu.Runs
import FalloutEmu.ProcessIsolation
import FalloutEmu.Grouping
import FalloutEmu.ImportsProxy
import FalloutEmu.StaticBinding
import FalloutEmu.DynamicImports
import FalloutEmu.AccessRights
import FalloutEmu.WideAccess
import FalloutEmu.StackDiscipline
import FalloutEmu.StackBounds
import FalloutEmu.LockStep
import FalloutEmu.CleanRecord
import FalloutEmu.DeliveredModRM
import FalloutEmu.FPUOperands
import FalloutEmu.CompareAndBranch
import FalloutEmu.PackedFields
import FalloutEmu.TagWord
import FalloutEmu.StackEffects
import FalloutEmu.Records
import FalloutEmu.ArrayBytes
import FalloutEmu.ArrayLists
import FalloutEmu.ArrayInsertion
import FalloutEmu.ArrayRuns
import FalloutEmu.ArraySort
import FalloutEmu.DescriptorTable
import FalloutEmu.MallocLedger
import FalloutEmu.FPUIntegers
import FalloutEmu.HandleTable
import FalloutEmu.HandleClosing
import FalloutEmu.FilePositions
import FalloutEmu.Sections
import FalloutEmu.RegisterAliasing
import FalloutEmu.SystemTime
import FalloutEmu.StringMarshalling
import FalloutEmu.Surfaces
import FalloutEmu.LongArithmetic
import FalloutEmu.CarryFlag
import FalloutEmu.StoredOperands
import FalloutEmu.CarryChains
import FalloutEmu.PackedDecimal
import FalloutEmu.ProgramLogic
import FalloutEmu.Assembly
import FalloutEmu.KnownCode
import FalloutEmu.AssemblyOperands
import FalloutEmu.AssemblyTurns
import FalloutEmu.StackFrames
import FalloutEmu.AssemblySimulation
import FalloutEmu.AssemblyImage
import FalloutEmu.MessagePump
import FalloutEmu.ImportCalls
import FalloutEmu.ImportAllocations
import FalloutEmu.WindowMessages
import FalloutEmu.WindowCalls
import FalloutEmu.InterfaceObjects
