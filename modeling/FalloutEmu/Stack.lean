import FalloutEmu.MemoryMap

/-! # The guest stack and its direct access path -/
namespace FalloutEmu
open ByteStore

/-- A thread's stack. Its block is looked up once, when the stack is created; `esp` lives in the
thread context and is passed to each operation. -/
structure FEStack where
  stackBlock : Option FEMemoryMapBlock
  size : U32
  start : U32
  base : U32
  deriving DecidableEq,Repr,Inhabited

namespace FEStack
variable {κ : Type}

/-- `fe_stack_create`; the new `esp` is `start+size`, that is `base`. -/
def create (build : Build) (memoryMap : FEMemoryMap κ) (size : U32) (host : HostAllocation) :
    Except Stop (FEStack×FEMemoryMap κ) := do
  assertThat build (size≠0)
  let result ← memoryMap.malloc build size .readWrite ".stack".toList host
  let stackBlock ← result.map.blockFromVirtualAddress result.address
  .ok (⟨stackBlock,size,result.address,result.address+size⟩,result.map)

/-- `fe_stack_release`, which frees the address behind the stack. -/
def release (stack : FEStack) (memoryMap : FEMemoryMap κ) : Except Stop (FEMemoryMap κ) :=
  memoryMap.free stack.base

/-- The host address behind a stack pointer, reached through the stack's own block. -/
def localAddress (stack : FEStack) (stackPtr : U32) : Except Stop ℕ :=
  match stack.stackBlock with
  | some block => .ok (block.localAddress+(stackPtr-stack.start).toNat)
  | none => .error .nullBlock

def push32 (build : Build) (stack : FEStack) (memory : Memory κ) (esp v : U32) :
    Except Stop (U32×Memory κ) := do
  let stackPtr := esp-4
  assertThat build (stackPtr>stack.start ∧ stackPtr ≤ stack.base-4)
  let ptr ← stack.localAddress stackPtr
  .ok (stackPtr,{ memory with host := writeAt memory.host ptr (littleEndian 4 v.toNat) })

def pop32 (build : Build) (stack : FEStack) (memory : Memory κ) (esp : U32) :
    Except Stop (U32×U32) := do
  assertThat build (esp < stack.base)
  let ptr ← stack.localAddress esp
  .ok (BitVec.ofNat 32 (value (readAt memory.host ptr 4)),esp+4)

def push16 (build : Build) (stack : FEStack) (memory : Memory κ) (esp : U32) (v : U16) :
    Except Stop (U32×Memory κ) := do
  let stackPtr := esp-2
  assertThat build (stackPtr>stack.start)
  .ok (stackPtr,← memory.setValue16 stackPtr v)

def pop16 (build : Build) (stack : FEStack) (memory : Memory κ) (esp : U32) :
    Except Stop (U16×U32) := do
  assertThat build (esp < stack.base)
  let ptr ← stack.localAddress esp
  .ok (BitVec.ofNat 16 (value (readAt memory.host ptr 2)),esp+2)

/-- `fe_stack_push`; a byte is pushed as a sign-extended double word. -/
def push (build : Build) (stack : FEStack) (memory : Memory κ) (esp v : U32) :
    FEBitWidth→Except Stop (U32×Memory κ)
  | .k32bit => stack.push32 build memory esp v
  | .k16bit => stack.push16 build memory esp (v.setWidth 16)
  | .k8bit => stack.push32 build memory esp ((v.setWidth 8).signExtend 32)

/-- `fe_stack_pop`, which has no case for a byte. -/
def pop (build : Build) (stack : FEStack) (memory : Memory κ) (esp : U32) :
    FEBitWidth→Except Stop (U32×U32)
  | .k32bit => stack.pop32 build memory esp
  | .k16bit => do
    let (v,esp) ← stack.pop16 build memory esp
    .ok (v.setWidth 32,esp)
  | .k8bit => do
    assertThat build false
    .ok (0,esp)

end FEStack
end FalloutEmu
