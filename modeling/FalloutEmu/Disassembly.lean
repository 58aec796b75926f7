import FalloutEmu.MemoryMap

/-! # Decoded instructions and their cache -/
namespace FalloutEmu

/-- `MEMORYTYPE`. An `Int32` of the disassembler is its bit pattern here. -/
structure MEMORYTYPE where
  BaseRegister : U32
  IndexRegister : U32
  Scale : U32
  Displacement : BitVec 64
  deriving DecidableEq,Repr,Inhabited

structure ARGTYPE where
  ArgType : U32
  ArgSize : U32
  ArgPosition : U32
  AccessMode : U32
  Memory : MEMORYTYPE
  SegmentReg : U32
  deriving DecidableEq,Repr,Inhabited

structure INSTRTYPE where
  Category : U32
  Opcode : U32
  AddrValue : BitVec 64
  Immediat : BitVec 64
  deriving DecidableEq,Repr,Inhabited

structure PREFIXINFO where
  Number : U32
  LockPrefix : U8
  RepnePrefix : U8
  RepPrefix : U8
  deriving DecidableEq,Repr,Inhabited

structure InternalDatas where
  REGOPCODE : U32
  third_arg : U32
  deriving DecidableEq,Repr,Inhabited

/-- The record that `Disasm` reads and fills in; the default one is all zero. `EIP` is a host
address. -/
structure DISASM where
  EIP : ℕ
  VirtualAddr : BitVec 64
  Archi : U32
  Instruction : INSTRTYPE
  Argument1 : ARGTYPE
  Argument2 : ARGTYPE
  Argument3 : ARGTYPE
  Prefix : PREFIXINFO
  Reserved_ : InternalDatas
  deriving DecidableEq,Repr,Inhabited

instance : FEArray.ElementSize DISASM := ⟨653⟩

instance : FEArray.ElementSize ℤ := ⟨4⟩

/-- `Disasm` of the BeaEngine library: the record it is given and the host's memory determine the
record it leaves and the length it returns. -/
abbrev Disassembler := DISASM→(ℕ→U8)→DISASM×ℤ

def UNKNOWN_OPCODE : ℤ := -1

/-- The decode cache of a block: an index for each of its bytes, -1 where nothing is decoded. -/
structure DisasmContext where
  indexes : Shadow ℤ
  disasmed : FEArray DISASM
  lens : FEArray ℤ

/-- The cache that the first fetch from a block allocates; the byte count of `indexes` is a
`uint32_t`. -/
def DisasmContext.create (size : U32) : DisasmContext where
  indexes := ⟨(size*4).toNat/4,fun _ => -1⟩
  disasmed := .create 512
  lens := .create 512

/-- Where `op` points: into the cache of a block, or at the static record `dummyOp`. -/
inductive DisasmPointer where
  | dummyOp
  | cached (block index : ℕ)
  deriving DecidableEq,Repr

/-- The results of a fetch and the memory and static record it leaves. -/
structure Fetched where
  memory : Memory DisasmContext
  dummyOp : DISASM
  op : DisasmPointer
  len : ℤ
  modrm : U8

def DISASM.handed (record : DISASM) (reip : ℕ) (eip : U32) : DISASM :=
  { record with Archi := 32,EIP := reip,VirtualAddr := eip.setWidth 64 }

namespace DisasmContext

/-- A new element of `disasmed`: past the capacity a copy of `dummyOp`, else the slot as it is. -/
def nextRecord (context : DisasmContext) (dummyOp : DISASM) : Except Stop (FEArray DISASM) :=
  if h : context.disasmed.size<context.disasmed.capacity then .ok (context.disasmed.increment h)
  else context.disasmed.append dummyOp

/-- A fetch that finds nothing at `offset`: it decodes into a new element. -/
def decode (disasm : Disassembler) (host : ℕ→U8) (dummyOp : DISASM) (context : DisasmContext)
    (reip : ℕ) (eip : U32) (offset : ℕ) : Except Stop (DisasmContext×ℕ×ℤ) := do
  let i := context.disasmed.size
  let indexes ← context.indexes.set offset i
  let disasmed ← context.nextRecord dummyOp
  let record ← disasmed.index i
  let result := disasm (record.handed reip eip) host
  if result.2=UNKNOWN_OPCODE then .error .exit
  else do
    let lens ← context.lens.append result.2
    .ok (⟨indexes,disasmed.store i result.1,lens⟩,i,result.2)

def fetch (disasm : Disassembler) (host : ℕ→U8) (dummyOp : DISASM) (context : DisasmContext)
    (reip : ℕ) (eip : U32) (offset : ℕ) : Except Stop (DisasmContext×ℕ×ℤ) := do
  let indexAtDisasmed ← context.indexes.get offset
  if indexAtDisasmed= -1 then context.decode disasm host dummyOp reip eip offset
  else
    let len ← context.lens.index indexAtDisasmed.toNat
    .ok (context,indexAtDisasmed.toNat,len)

end DisasmContext

def FEMemoryMap.setContext {κ : Type} (memoryMap : FEMemoryMap κ) (block : ℕ) (context : κ) :
    FEMemoryMap κ :=
  { memoryMap with
    context := fun pointer => if pointer=block then some context else memoryMap.context pointer }

def updateDisasmFromContext (build : Build) (disasm : Disassembler) (memory : Memory DisasmContext)
    (dummyOp : DISASM) (eip : U32) : Except Stop Fetched := do
  match ← memory.map.blockFromVirtualAddress eip with
  | none => do
    assertThat build false
    .error .nullBlock
  | some memoryMapBlock => do
    let mode ← memory.map.accessModeAtAddress eip
    let offset := (eip-memoryMapBlock.virtualAddress).toNat
    let reip := memoryMapBlock.localAddress+offset
    let modrm := memory.host (reip+1)
    if mode.write then
      let result := disasm ((default : DISASM).handed reip eip) memory.host
      if result.2=UNKNOWN_OPCODE then .error .exit
      else .ok ⟨memory,result.1,.dummyOp,result.2,modrm⟩
    else do
      let context := (memory.map.context memoryMapBlock.pointer).getD (.create memoryMapBlock.size)
      let (context,i,len) ← context.fetch disasm memory.host dummyOp reip eip offset
      .ok ⟨{ memory with map := memory.map.setContext memoryMapBlock.pointer context },dummyOp,
        .cached memoryMapBlock.pointer i,len,modrm⟩

def DisasmPointer.deref (memory : Memory DisasmContext) (dummyOp : DISASM) :
    DisasmPointer→Except Stop DISASM
  | .dummyOp => .ok dummyOp
  | .cached block index =>
    match memory.map.context block with
    | some context => context.disasmed.index index
    | none => .error .freed

end FalloutEmu
