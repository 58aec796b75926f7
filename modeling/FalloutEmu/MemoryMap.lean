import FalloutEmu.ByteStore
import FalloutEmu.FEArray

/-! # The guest memory map: blocks, page shadows, allocation and byte access -/
namespace FalloutEmu
open ByteStore

structure FEMemoryAccessMode where
  read : Bool
  write : Bool
  execute : Bool
  deriving DecidableEq,Repr

def FEMemoryAccessMode.none : FEMemoryAccessMode := ⟨false,false,false⟩

def FEMemoryAccessMode.readWrite : FEMemoryAccessMode := ⟨true,true,false⟩

/-- A mapped block. Only the `context` pointer of a block changes once the block is mapped, so the
map keeps the contexts, under the block's own address `pointer`. -/
structure FEMemoryMapBlock where
  pointer : ℕ
  virtualAddress : U32
  blockEnd : U32
  size : U32
  localAddress : ℕ
  freeWhenDone : Bool
  tag : List Char
  deriving DecidableEq,Repr,Inhabited

instance : FEArray.ElementSize FEMemoryMapBlock := ⟨8⟩

namespace FEMemoryMapBlock

def containsVirtualAddress (block : FEMemoryMapBlock) (address : U32) : Bool :=
  block.virtualAddress ≤ address ∧ block.blockEnd>address

def compare (block₁ block₂ : FEMemoryMapBlock) : FEComparisonResult :=
  if block₁.virtualAddress<block₂.virtualAddress then .ascendent
  else if block₁.virtualAddress>block₂.virtualAddress then .descendent
  else .same

/-- `strndup(tag,256)` as `fe_memoryMapBlock_create` stores it. -/
def tagCopy (tag : List Char) : List Char := tag.take 256

end FEMemoryMapBlock

/-- An array with one slot for each page of the guest address space; `fe_memoryMap_create` fills all
of its slots, and indexing it is not checked. -/
structure Shadow (α : Type) where
  capacity : ℕ
  slot : ℕ→α

namespace Shadow
variable {α : Type}

def get (shadow : Shadow α) (i : ℕ) : Except Stop α :=
  if i < shadow.capacity then .ok (shadow.slot i) else .error .outOfBounds

def set (shadow : Shadow α) (i : ℕ) (a : α) : Except Stop (Shadow α) :=
  if i < shadow.capacity then .ok { shadow with slot := fun p => if p=i then a else shadow.slot p }
  else .error .outOfBounds

/-- Stores `a` in `n` slots from `i`, lowest first. -/
def fill (a : α) : ℕ→ℕ→Shadow α→Except Stop (Shadow α)
  | 0,_,shadow => .ok shadow
  | n+1,i,shadow => do fill a n (i+1) (← shadow.set i a)

end Shadow

/-- Host memory handed to `free`: a block's buffer, its tag and its descriptor. -/
inductive Released where
  | buffer (address : ℕ)
  | tag (block : ℕ)
  | descriptor (block : ℕ)
  deriving DecidableEq,Repr

/-- `memoryMapAccessModeChangeCallback` is either unset or `memoryMapAccessModeChange`, the only
function the program installs. The type `κ` is that of a block's `context`. -/
structure FEMemoryMap (κ : Type) where
  size : U32
  memoryMapBlocksShadow : Shadow (Option FEMemoryMapBlock)
  memoryMapRightsShadow : Shadow FEMemoryAccessMode
  memoryMapBlocks : FEArray FEMemoryMapBlock
  memoryMapAccessModeChangeCallback : Bool
  context : ℕ→Option κ

def alignment : ℕ := 4096

def shadowIndex (address : U32) : ℕ := address.toNat/alignment

def roundUp (address : U32) : U32 :=
  (address/4096+(if address%4096≠0 then 1 else 0))*4096

/-- The host allocator's answers inside `fe_memoryMap_malloc`: the buffer and the descriptor. -/
structure HostAllocation where
  realAddress : Option ℕ
  newBlock : Option ℕ
  deriving DecidableEq,Repr

namespace FEMemoryMap
variable {κ : Type}

def create (size : U32) : FEMemoryMap κ where
  size := size
  memoryMapBlocksShadow := ⟨shadowIndex size+1,fun _ => none⟩
  memoryMapRightsShadow := ⟨shadowIndex size+1,fun _ => .none⟩
  memoryMapBlocks := .create 16
  memoryMapAccessModeChangeCallback := false
  context := fun _ => none

def blockFromVirtualAddress (memoryMap : FEMemoryMap κ) (address : U32) :
    Except Stop (Option FEMemoryMapBlock) :=
  memoryMap.memoryMapBlocksShadow.get (shadowIndex address)

/-- `memoryMapAccessModeChange`: drops the decode cache of the block at `address`. -/
def memoryMapAccessModeChange (memoryMap : FEMemoryMap κ) (address : U32) :
    Except Stop (FEMemoryMap κ) := do
  match ← memoryMap.blockFromVirtualAddress address with
  | some block => .ok { memoryMap with
      context := fun pointer => if pointer=block.pointer then none else memoryMap.context pointer }
  | none => .ok memoryMap

def accessModeAtAddress (memoryMap : FEMemoryMap κ) (address : U32) :
    Except Stop FEMemoryAccessMode :=
  memoryMap.memoryMapRightsShadow.get (shadowIndex address)

/-- `fe_memoryMap_setAccessModeAtAddress`; the loop stops before the page of the last byte. -/
def setAccessModeAtAddress (memoryMap : FEMemoryMap κ) (mode : FEMemoryAccessMode)
    (address size : U32) : Except Stop (FEMemoryMap κ) := do
  let sindex := shadowIndex address
  let eindex := shadowIndex (address+size-1)
  let rights ← memoryMap.memoryMapRightsShadow.fill mode (eindex-sindex) sindex
  let memoryMap := { memoryMap with memoryMapRightsShadow := rights }
  if memoryMap.memoryMapAccessModeChangeCallback then memoryMap.memoryMapAccessModeChange address
  else .ok memoryMap

/-- The shadow loop of `_fe_memory_map_appendMemoryBlock` over `n` pages from `i`. -/
def claimPages (build : Build) (block : FEMemoryMapBlock) :
    ℕ→ℕ→Shadow (Option FEMemoryMapBlock)→Except Stop (Shadow (Option FEMemoryMapBlock))
  | 0,_,shadow => .ok shadow
  | n+1,i,shadow => do
    let currentBlock ← shadow.get i
    assertThat build currentBlock.isNone
    claimPages build block n (i+1) (← shadow.set i (some block))

/-- `_fe_memory_map_appendMemoryBlock`, whose result is always 1. -/
def appendMemoryBlock (build : Build) (memoryMap : FEMemoryMap κ) (block : FEMemoryMapBlock)
    (mode : FEMemoryAccessMode) : Except Stop (FEMemoryMap κ) := do
  let first := shadowIndex block.virtualAddress
  let last := shadowIndex (block.size+block.virtualAddress-1)
  let shadow ← claimPages build block (last+1-first) first memoryMap.memoryMapBlocksShadow
  let blocks ← memoryMap.memoryMapBlocks.append block
  let memoryMap := { memoryMap with
    memoryMapBlocksShadow := shadow, memoryMapBlocks := blocks.mergeSort FEMemoryMapBlock.compare }
  memoryMap.setAccessModeAtAddress mode block.virtualAddress block.size

def map (build : Build) (memoryMap : FEMemoryMap κ) (block : FEMemoryMapBlock)
    (mode : FEMemoryAccessMode) : Except Stop (FEMemoryMap κ) :=
  memoryMap.appendMemoryBlock build block mode

/-- The gap search of `fe_memoryMap_malloc`; `isFirst` is the test `i == 0`. -/
def searchGaps (size : U32) : Bool→List FEMemoryMapBlock→Option U32
  | _,[] => none
  | isFirst,first::rest =>
    if isFirst ∧ first.virtualAddress>4096 ∧ size<first.virtualAddress-4096 then some 4096
    else match rest with
      | [] => none
      | second::rest =>
        let address := roundUp (first.virtualAddress+first.size)
        if address+size < second.virtualAddress then some address
        else searchGaps size false (second::rest)

/-- Where `fe_memoryMap_malloc` places a block of `size` bytes; `none` is its label `fail`. -/
def findAddress (memoryMap : FEMemoryMap κ) (size : U32) : Except Stop (Option U32) :=
  match searchGaps size true memoryMap.memoryMapBlocks.elements with
  | some address => .ok (some address)
  | none =>
    if memoryMap.memoryMapBlocks.size=0 then
      if size>memoryMap.size-4096 then .ok none else .ok (some 4096)
    else do
      let lastBlock ← memoryMap.memoryMapBlocks.last
      let address := roundUp (lastBlock.virtualAddress+lastBlock.size)
      if address+size≥memoryMap.size then .ok none else .ok (some address)

/-- The descriptor `fe_memoryMap_malloc` fills in. -/
def mallocBlock (size : U32) (tag : List Char) (realAddress newBlock : ℕ) (address : U32) :
    FEMemoryMapBlock where
  pointer := newBlock
  virtualAddress := address
  blockEnd := address+size
  size := size
  localAddress := realAddress
  freeWhenDone := true
  tag := FEMemoryMapBlock.tagCopy tag

/-- `fe_memoryMapBlock_create` clears the context of the new descriptor. -/
def clearContext (memoryMap : FEMemoryMap κ) (block : ℕ) : FEMemoryMap κ :=
  { memoryMap with context := fun pointer => if pointer=block then none
    else memoryMap.context pointer }

/-- The address `fe_memoryMap_malloc` returns, the map it leaves and what it released. -/
structure MallocResult (κ : Type) where
  address : U32
  map : FEMemoryMap κ
  released : List Released

/-- `fe_memoryMap_malloc`. On the label `fail` the descriptor's own release already frees the
buffer that the next statement frees. -/
def malloc (build : Build) (memoryMap : FEMemoryMap κ) (size : U32) (mode : FEMemoryAccessMode)
    (tag : List Char) (host : HostAllocation) : Except Stop (MallocResult κ) :=
  match host.realAddress with
  | none => do
    assertThat build false
    .ok ⟨0,memoryMap,[]⟩
  | some realAddress =>
    match host.newBlock with
    | none => do
      assertThat build false
      .ok ⟨0,memoryMap,[.buffer realAddress]⟩
    | some newBlock => do
      let memoryMap := memoryMap.clearContext newBlock
      match ← memoryMap.findAddress size with
      | some address =>
        let block := mallocBlock size tag realAddress newBlock address
        let memoryMap ← memoryMap.appendMemoryBlock build block mode
        .ok ⟨address,memoryMap,[]⟩
      | none =>
        assertThat build false
        .ok ⟨0,memoryMap,
          [.buffer realAddress,.tag newBlock,.descriptor newBlock,.buffer realAddress]⟩

/-- `fe_memoryMap_free`: clears the shadow of the page at `address` and leaves the block list. -/
def free (memoryMap : FEMemoryMap κ) (address : U32) : Except Stop (FEMemoryMap κ) := do
  let shadow ← memoryMap.memoryMapBlocksShadow.set (shadowIndex address) none
  .ok { memoryMap with memoryMapBlocksShadow := shadow }

/-- `fe_memoryMap_blockWithTag`: the first block with the tag. -/
def blockWithTag (memoryMap : FEMemoryMap κ) (tag : List Char) : Option FEMemoryMapBlock :=
  memoryMap.memoryMapBlocks.elements.find? fun block => block.tag=tag

/-- `_fe_memory_map_localAddressFromVirtualAddress`, which uses neither the size nor the access. -/
def localAddressFromVirtualAddress (memoryMap : FEMemoryMap κ) (virtualAddress : U32) :
    Except Stop ℕ := do
  match ← memoryMap.memoryMapBlocksShadow.get (shadowIndex virtualAddress) with
  | some block => .ok (block.localAddress+(virtualAddress-block.virtualAddress).toNat)
  | none => .error .nullBlock

end FEMemoryMap

/-- The guest's memory: the map and the host bytes behind the blocks' local addresses. -/
structure Memory (κ : Type) where
  map : FEMemoryMap κ
  host : ℕ→U8

namespace Memory
variable {κ : Type}

def load (memory : Memory κ) (address : U32) (n : ℕ) : Except Stop (List U8) := do
  let ptr ← memory.map.localAddressFromVirtualAddress address
  .ok (readAt memory.host ptr n)

def store (memory : Memory κ) (address : U32) (bytes : List U8) : Except Stop (Memory κ) := do
  let ptr ← memory.map.localAddressFromVirtualAddress address
  .ok { memory with host := writeAt memory.host ptr bytes }

def value32AtAddress (memory : Memory κ) (address : U32) : Except Stop U32 := do
  .ok (BitVec.ofNat 32 (value (← memory.load address 4)))

def value16AtAddress (memory : Memory κ) (address : U32) : Except Stop U16 := do
  .ok (BitVec.ofNat 16 (value (← memory.load address 2)))

def value8AtAddress (memory : Memory κ) (address : U32) : Except Stop U8 := do
  .ok (BitVec.ofNat 8 (value (← memory.load address 1)))

def setValue32 (memory : Memory κ) (address : U32) (v : U32) : Except Stop (Memory κ) :=
  memory.store address (littleEndian 4 v.toNat)

def setValue16 (memory : Memory κ) (address : U32) (v : U16) : Except Stop (Memory κ) :=
  memory.store address (littleEndian 2 v.toNat)

def setValue8 (memory : Memory κ) (address : U32) (v : U8) : Except Stop (Memory κ) :=
  memory.store address (littleEndian 1 v.toNat)

/-- `fe_memoryMap_memcpyToVirtualFromReal` of the host bytes `src`. -/
def memcpyToVirtualFromReal (memory : Memory κ) (dst : U32) (src : List U8) :
    Except Stop (Memory κ) :=
  memory.store dst src

def memcpyToRealFromVirtual (memory : Memory κ) (src size : U32) : Except Stop (List U8) :=
  memory.load src size.toNat

/-- `fe_memoryMap_memcpyToVirtualFromVirtual`, for ranges that do not overlap in the host. -/
def memcpyToVirtualFromVirtual (memory : Memory κ) (dst src size : U32) :
    Except Stop (Memory κ) := do
  memory.store dst (← memory.load src size.toNat)

end Memory
end FalloutEmu
