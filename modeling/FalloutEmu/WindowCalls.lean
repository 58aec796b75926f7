import FalloutEmu.AssemblyImage
import FalloutEmu.GuestCalls
import FalloutEmu.WindowMessages

/-! # Calls of `UpdateWindow` and `DispatchMessageA` by guest code -/
namespace FalloutEmu.WindowCalls
open ByteStore Emulator
open Assembly (Register Operand Machine Instruction word)
open AssemblySimulation
open GuestCalls (CallsImport word_push)
open ImportCalls
open ImportAllocations
open KnownCode (Program)
open MessagePump (InPump callArguments)
open FlatMemory (InBlock)
open WindowMessages
variable {F : Type} {env : Environment F} {program : Program} {s u : FEProcess F} {m : Machine}

section Arguments
variable {a next : U32}

end Arguments

section Functions
variable {handleDetails : U32→Option Payload} {hosts : Hosts} {details : Payload} {hWnd next : U32}

end Functions

section Calls
variable {handleDetails : U32→Option Payload} {hosts : Hosts} {details : Payload} {handler : U32}
  {operand : Operand} {n : ℕ} {funcName : String} {body : Emulator F U8}

end Calls

section Example
open AssemblyImage
open FEMemoryMap (WellFormed mallocBlock)
open MessagePump (listing size_listing)
open StaticImports (Gigabyte)

/-- A call of an imported function, and behind it a window procedure that only returns. -/
def callerListing : List (Instruction×ℕ) :=
  [(.callTo (.operand (.register .eax)),2),(.nop,1),(.retn 16,3)]

theorem callerListing_hasEncoding : ∀instruction∈callerListing,HasEncoding instruction.1 ∧
    0 < instruction.2 := by
  simp [callerListing,HasEncoding]

theorem packed_imageMap : Packed imageMap importsBlock where
  gigabyte := by
    refine ⟨wellFormed_imageMap,rfl,fun b hb => ?_⟩
    rcases mem_imageMap.mp hb with rfl | rfl | rfl <;> decide
  spanned := ⟨rfl,rfl,rfl⟩
  elements := ⟨[codeBlock,stackBlock],imageMap_elements⟩
  nonempty := by
    rw [imageMap_elements]
    decide
  first := by
    rw [imageMap_elements]
    decide
  adjacent := by
    rw [imageMap_elements]
    decide

end Example

end FalloutEmu.WindowCalls
