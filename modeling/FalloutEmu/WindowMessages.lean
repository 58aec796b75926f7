import FalloutEmu.ImportAllocations
import FalloutEmu.MessagePump

/-! # The functions of user32 that send messages to a window

They inject the message pump into the guest, rebuild the stack for it and return into it instead of
to their caller. -/
namespace FalloutEmu.WindowMessages
open ByteStore Emulator
open Assembly (Register Operand Source Machine Instruction word withWord)
open AssemblySimulation
open FEMemoryMap (WellFormed)
open FEMemoryMapBlock (Contains)
open FlatMemory (Holds InBlock Extends)
open ImportCalls
open ImportAllocations
open KnownCode (Program Entry)
open MessagePump (WNDMESSAGE Array Activates InPump Provides Pumping Roomy Entered callArguments
  listing size_listing positive_listing)
open ProgramLogic (Leads Trace)
open StackFrames (Layout)
open StaticImports (Gigabyte)
variable {F : Type} {env : Environment F} {program program' : Program} {s t u : FEProcess F}
  {m m' m'' : Machine}

section Functions

def messagesHandler : List Char := "FEMessagesHandler".toList

def windowsMessages : List Char := "Windows Messages".toList

/-- What the host answers to the allocations of `handleMessages:…`. -/
structure Hosts where
  handler : HostAllocation
  messages : HostAllocation
  deriving DecidableEq,Repr

/-- The address of the pump, which is injected at its first use. -/
def handlerAddress (host : HostAllocation) : Emulator F U32 := do
  match (← Exec.get).memory.map.blockWithTag messagesHandler with
  | some memoryBlock => return memoryBlock.virtualAddress
  | none => do
    let handler ← malloc 128 ⟨true,true,true⟩ messagesHandler host
    Emulator.store fun memory => memory.memcpyToVirtualFromReal handler MessagePump.handleMessages
    match (← Exec.get).memory.map.blockWithTag messagesHandler with
    | some memoryBlock => do
      setAccessModeAtAddress ⟨true,false,true⟩ memoryBlock.virtualAddress memoryBlock.size
      return handler
    | none => Exec.fail .nullBlock

def bytesOf (message : WNDMESSAGE) : List U8 :=
  littleEndian 4 message.message.toNat++littleEndian 4 message.wParam.toNat++littleEndian 4
    message.lParam.toNat

def handleMessages (hosts : Hosts) (messages : List WNDMESSAGE) (wndProc wndHandle result : U32) :
    Emulator F U32 := do
  let handler ← handlerAddress hosts.handler
  let count := .ofNat 32 messages.length
  let vmessages ← malloc (12*count) .readWrite windowsMessages hosts.messages
  Emulator.store fun memory => memory.memcpyToVirtualFromReal vmessages (messages.flatMap bytesOf)
  push32 result
  push32 wndProc
  push32 count
  push32 vmessages
  push32 wndHandle
  return handler

abbrev Payload := NSString→Option U32

/-- `[details[@"payload"][key] unsignedIntegerValue]`, which is 0 for `nil`. -/
def number (details : Option Payload) (key : String) : U32 :=
  (details.bind fun payload => payload key.toList).getD 0

end Functions

section Injection

variable {handler : U32} {block : FEMemoryMapBlock} {map : FEMemoryMap DisasmContext}

end Injection

section Messages
variable {messages : List WNDMESSAGE} {layout : Layout} {flat : ℕ→U8}

end Messages

section Frames
variable {top : U32} {block : FEMemoryMapBlock}

/-- The stack below `top` has room for the arguments of the pump and for its frame. -/
structure FrameRoom (m : Machine) (top : U32) : Prop where
  low : 60 ≤ top.toNat
  slots : ∀n<15,(top-.ofNat 32 (4*(n+1))).toNat∈m.stack

/-- A byte outside of the double words of the room is outside of the room. -/
theorem FrameRoom.outside (h : FrameRoom m top) {p : ℕ} (hp : ∀a∈m.stack,p<a ∨ a+4 ≤ p) :
    p+60<top.toNat ∨ top.toNat ≤ p := by
  have hlow := h.low
  by_contra hin
  have hn : (top.toNat-1-p)/4<15 := by omega
  have hslot := hp _ (h.slots _ hn)
  have haddress : (top-.ofNat 32 (4*((top.toNat-1-p)/4+1))).toNat=
    top.toNat-4*((top.toNat-1-p)/4+1) := by bv_omega
  omega

/-- The frame of the pump, and the messages in their block. -/
structure Frame (m : Machine) (top : U32) (block : FEMemoryMapBlock) : Prop where
  room : FrameRoom m top
  stack : m.stack⊆m.data
  data : slots block⊆m.data
  apart : ∀p,block.Contains p→∀a∈m.stack,p<a ∨ a+4 ≤ p

/-- A double word of the frame, counted from its top. -/
theorem frame_cell {k : ℤ} (hlow : -8 ≤ k) (hhigh : k<7) :
    ∃n<15,top-28+.ofInt 32 (4*k)=top-.ofNat 32 (4*(n+1)) := by
  obtain ⟨n,rfl⟩ : ∃n : ℕ,k=6-n := ⟨(6-k).toNat,by omega⟩
  have hcell : ∀n : ℕ,n<15→(-28 : U32)+.ofInt 32 (4*(6-(n : ℤ)))= -.ofNat 32 (4*(n+1)) := by decide
  have hn : n<15 := by omega
  refine ⟨n,hn,?_⟩
  rw [BitVec.sub_eq_add_neg,BitVec.add_assoc,hcell n hn,←BitVec.sub_eq_add_neg]

namespace Frame

/-- The frame as the pump sees it; of the rest of the memory it reads the messages. -/
def layout (h : Frame m top block) : Layout where
  base := top-28
  low := -8
  high := 7
  outer a :=
    if block.virtualAddress.toNat ≤ a.toNat ∧
      a.toNat+4 ≤ block.virtualAddress.toNat+block.size.toNat then
      some (word m.memory a)
    else none
  data := m.data
  stack := m.stack
  low_le := by
    have hlow := h.room.low
    bv_omega
  high_le := by
    have hlow := h.room.low
    bv_omega
  apart a ha k hlow hhigh := by
    obtain ⟨n,hn,hcell⟩ := frame_cell hlow hhigh
    rw [hcell]
    have hslot := h.room.slots n hn
    split_ifs at ha with hin
    · have hfirst := h.apart a.toNat ⟨hin.1,by omega⟩ _ hslot
      have hlast := h.apart (a.toNat+3) ⟨by omega,by omega⟩ _ hslot
      have hsecond := h.apart (a.toNat+1) ⟨by omega,by omega⟩ _ hslot
      have hthird := h.apart (a.toNat+2) ⟨by omega,by omega⟩ _ hslot
      unfold Assembly.Apart
      omega
    · cases ha
  slots k hlow hhigh := by
    obtain ⟨n,hn,hcell⟩ := frame_cell hlow hhigh
    rw [hcell]
    exact h.room.slots n hn
  readable a ha := by
    split_ifs at ha with hin
    · exact h.data hin
    · cases ha
  stack_subset := h.stack

variable {handler returnAddr wndHandle wndProc result : U32} {messages : List WNDMESSAGE}

end Frame

end Frames

section Calls
variable {hosts : Hosts} {messages : List WNDMESSAGE}
  {handler returnAddr wndHandle wndProc result : U32}
  {block : FEMemoryMapBlock}

end Calls
end FalloutEmu.WindowMessages
