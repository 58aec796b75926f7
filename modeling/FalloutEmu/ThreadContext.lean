import FalloutEmu.CPUFlags
import FalloutEmu.FPU
import FalloutEmu.Stack

/-! # A thread's registers and the arithmetic on them -/
namespace FalloutEmu
open ByteStore
open X86 (StatusFlags BinaryInstruction UnaryInstruction)

inductive FERegisterName where
  | kEAX | kAX | kAL | kAH
  | kEBX | kBX | kBL | kBH
  | kECX | kCX | kCL | kCH
  | kEDX | kDX | kDL | kDH
  | kESI | kSI
  | kEDI | kDI
  | kEBP | kBP
  | kESP | kSP
  | kEIP | kIP
  | kCS | kDS | kES | kFS | kGS | kSS
  deriving DecidableEq,Repr

/-- `regMap`: where a register starts, in bytes from the field `eax`. -/
def FERegisterName.regMap : FERegisterName→ℕ
  | kEAX | kAX | kAL => 0
  | kAH => 1
  | kEBX | kBX | kBL => 4
  | kBH => 5
  | kECX | kCX | kCL => 8
  | kCH => 9
  | kEDX | kDX | kDL => 12
  | kDH => 13
  | kESI | kSI => 16
  | kEDI | kDI => 20
  | kEBP | kBP => 24
  | kESP | kSP => 28
  | kEIP | kIP => 32
  | kCS => 36
  | kDS => 38
  | kES => 40
  | kFS => 42
  | kGS => 44
  | kSS => 46

/-- A thread. The bytes of the structure from `eax` on are `registers`, since the source reads and
writes them through untyped pointers; `threadId` follows `ss` at 48 and `TIBAddress` is at 52. -/
structure FEThreadContext (F : Type) where
  stack : FEStack
  fpu : FEFPU F
  cpuFlags : FECPUFlags
  registers : ℕ→U8
  deriving Inhabited

namespace FEThreadContext
variable {F : Type}

/-- `fe_threadContext_register32`; a field such as `threadContext->eip` is read the same way. -/
def register32 (threadContext : FEThreadContext F) (name : FERegisterName) : U32 :=
  BitVec.ofNat 32 (value (readAt threadContext.registers name.regMap 4))

def setRegister32 (threadContext : FEThreadContext F) (name : FERegisterName) (v : U32) :
    FEThreadContext F :=
  { threadContext with
    registers := writeAt threadContext.registers name.regMap (littleEndian 4 v.toNat) }

def register16 (threadContext : FEThreadContext F) (name : FERegisterName) : U16 :=
  BitVec.ofNat 16 (value (readAt threadContext.registers name.regMap 2))

def setRegister16 (threadContext : FEThreadContext F) (name : FERegisterName) (v : U16) :
    FEThreadContext F :=
  { threadContext with
    registers := writeAt threadContext.registers name.regMap (littleEndian 2 v.toNat) }

def register8 (threadContext : FEThreadContext F) (name : FERegisterName) : U8 :=
  BitVec.ofNat 8 (value (readAt threadContext.registers name.regMap 1))

def setRegister8 (threadContext : FEThreadContext F) (name : FERegisterName) (v : U8) :
    FEThreadContext F :=
  { threadContext with
    registers := writeAt threadContext.registers name.regMap (littleEndian 1 v.toNat) }

def setRegister (threadContext : FEThreadContext F) (name : FERegisterName) (v : U32) :
    FEBitWidth→FEThreadContext F
  | .k8bit => threadContext.setRegister8 name (v.setWidth 8)
  | .k16bit => threadContext.setRegister16 name (v.setWidth 16)
  | .k32bit => threadContext.setRegister32 name v

def register (threadContext : FEThreadContext F) (name : FERegisterName) : FEBitWidth→U32
  | .k8bit => (threadContext.register8 name).setWidth 32
  | .k16bit => (threadContext.register16 name).setWidth 32
  | .k32bit => threadContext.register32 name

abbrev eax (threadContext : FEThreadContext F) : U32 := threadContext.register32 .kEAX
abbrev ecx (threadContext : FEThreadContext F) : U32 := threadContext.register32 .kECX
abbrev edx (threadContext : FEThreadContext F) : U32 := threadContext.register32 .kEDX
abbrev esi (threadContext : FEThreadContext F) : U32 := threadContext.register32 .kESI
abbrev edi (threadContext : FEThreadContext F) : U32 := threadContext.register32 .kEDI
abbrev ebp (threadContext : FEThreadContext F) : U32 := threadContext.register32 .kEBP
abbrev esp (threadContext : FEThreadContext F) : U32 := threadContext.register32 .kESP
abbrev eip (threadContext : FEThreadContext F) : U32 := threadContext.register32 .kEIP

section Creation
variable {κ : Type}

/-- `fe_threadContext_create` in the memory `allocated` that the host's `malloc` left as it was. The
requested size of the stack is not used. -/
def create (build : Build) (memory : Memory κ) (_stack_size : U32) (allocated : FEThreadContext F)
    (stackHost tibHost : HostAllocation) : Except Stop (FEThreadContext F×Memory κ) := do
  let (stack,map) ← FEStack.create build memory.map (8*1024) stackHost
  let threadContext := { allocated with
    stack := stack
    cpuFlags := ⟨0,0,0,0,0,0,0,0,0⟩
    registers := writeAt allocated.registers 48 (littleEndian 2 1) }
  let threadContext := threadContext.setRegister32 .kESP (stack.start+8*1024)
  let tib ← map.malloc build (3*1024) .readWrite ".TIB".toList tibHost
  let threadContext := { threadContext with
    registers := writeAt threadContext.registers 52 (littleEndian 4 tib.address.toNat) }
  let memory : Memory κ := { memory with map := tib.map }
  let memory ← memory.setValue32 tib.address 0
  let memory ← memory.setValue32 (tib.address+0x4) stack.base
  let memory ← memory.setValue32 (tib.address+0x8) stack.start
  let memory ← memory.setValue32 (tib.address+0x20) 0
  let memory ← memory.setValue32 (tib.address+0x24) 1
  .ok (threadContext,memory)

end Creation

section Arithmetic
variable {w : ℕ}

/-- The inline assembly of `ALU_32bit_2arg_op` and its kin: the guest's flags become the host's, the
instruction runs, and the host's flags become the guest's. The assembly leaves the guest's direction
flag in the host's; what this does to the host's own code is not modelled. -/
def withHostFlags (threadContext : FEThreadContext F) (instruction : StatusFlags→BitVec w×
    StatusFlags) :
    BitVec w×FEThreadContext F :=
  let flagsVector := threadContext.cpuFlags.cpuflags16
  let result := instruction (hostStatus flagsVector)
  (result.1,{ threadContext with
    cpuFlags := threadContext.cpuFlags.fillFrom16it (withHostStatus flagsVector result.2) })

def binary (instruction : BinaryInstruction) (undefined : StatusFlags)
    (threadContext : FEThreadContext F) (arg1 arg2 : U32) : FEBitWidth→U32×FEThreadContext F
  | .k8bit =>
    let result := threadContext.withHostFlags fun flags =>
      instruction (arg1.setWidth 8) (arg2.setWidth 8) flags undefined
    (result.1.setWidth 32,result.2)
  | .k16bit =>
    let result := threadContext.withHostFlags fun flags =>
      instruction (arg1.setWidth 16) (arg2.setWidth 16) flags undefined
    (result.1.setWidth 32,result.2)
  | .k32bit => threadContext.withHostFlags fun flags => instruction arg1 arg2 flags undefined

def unary (instruction : UnaryInstruction) (threadContext : FEThreadContext F) (arg1 : U32) :
    FEBitWidth→U32×FEThreadContext F
  | .k8bit =>
    let result := threadContext.withHostFlags (instruction (arg1.setWidth 8))
    (result.1.setWidth 32,result.2)
  | .k16bit =>
    let result := threadContext.withHostFlags (instruction (arg1.setWidth 16))
    (result.1.setWidth 32,result.2)
  | .k32bit => threadContext.withHostFlags (instruction arg1)

end Arithmetic
end FEThreadContext

section SignExtension

def signExtend (v : U32) : FEBitWidth→BitVec 64
  | .k32bit => v.signExtend 64
  | .k16bit => (v.setWidth 16).signExtend 64
  | .k8bit => (v.setWidth 8).signExtend 64

/-- `beu_carry_for_8`; both sums are computed as `int`. -/
def carryFor8 (v1 v2 : U8) : Bool :=
  let v16_1 : U16 := v1.setWidth 16
  let v16_2 : U16 := v2.setWidth 16
  v1.toNat+v2.toNat≠v16_1.toNat+v16_2.toNat

end SignExtension
end FalloutEmu
