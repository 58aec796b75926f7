import FalloutEmu.Disassembly
import FalloutEmu.Exec
import FalloutEmu.ImportsProxy
import FalloutEmu.ThreadContext

/-! # The emulated process and the operands of its instructions -/
namespace FalloutEmu
open X86 (StatusFlags BinaryInstruction UnaryInstruction)

/-- `FELocalDescriptorTable`, of which only the addresses are read. -/
abbrev FELocalDescriptorTable := Shadow U32

/-- A process inside `run`, whose locals `op`, `len` and `modrm` are kept here as well, with the
static record of the decoder. -/
structure FEProcess (F : Type) where
  memory : Memory DisasmContext
  ldt : FELocalDescriptorTable
  currentThread : FEThreadContext F
  importsProxy : Option FEImportsProxy
  exit : Bool
  exitCode : U32
  instructionCounter : BitVec 64
  dummyOp : DISASM
  op : DisasmPointer
  len : ℤ
  modrm : U8

/-- What the emulator runs on: its build, the disassembler, the host's floating point, the values
that status flags the architecture leaves undefined take at an instruction, and the functions that
the proxies of the imported libraries implement. -/
structure Environment (F : Type) where
  build : Build
  disasm : Disassembler
  float : HostFloat F
  undefinedFlags : BitVec 64→StatusFlags
  executeFunction : ProxyCoordinates→Exec Stop Unit (FEProcess F) U8

abbrev Emulator (F α : Type) := Exec Stop (Environment F) (FEProcess F) α

namespace Emulator
variable {F : Type}

def assert (condition : Bool) : Emulator F Unit := Exec.atomic fun env s =>
  (assertThat env.build condition).map fun _ => ((),s)

/-- A part of the program that only an assertion guards: `assert(false)` and no value after it. -/
def unreachable {α : Type} : Emulator F α := do
  assert false
  Exec.fail .undefinedBehaviour

/-- `assert(false)` before `@throw`. -/
def throw {α : Type} : Emulator F α := do
  assert false
  Exec.fail .exception

def thread : Emulator F (FEThreadContext F) := fun _ s => .ok (s.currentThread,s)

def setMemory (memory : Memory DisasmContext) : Emulator F Unit :=
  Exec.modify fun s => { s with memory := memory }

/-- The cast `(FEBitWidth)ArgSize`, as the `switch` statements over a width take it. -/
def bitWidth (argSize : U32) : Emulator F FEBitWidth :=
  if argSize=8 then pure .k8bit
  else if argSize=16 then pure .k16bit
  else if argSize=32 then pure .k32bit
  else unreachable

section Registers

def register32 (name : FERegisterName) : Emulator F U32 := do
  return (← thread).register32 name

def setRegister32 (name : FERegisterName) (v : U32) : Emulator F Unit :=
  Exec.modify fun s => { s with currentThread := s.currentThread.setRegister32 name v }

def register16 (name : FERegisterName) : Emulator F U16 := do
  return (← thread).register16 name

def setRegister16 (name : FERegisterName) (v : U16) : Emulator F Unit :=
  Exec.modify fun s => { s with currentThread := s.currentThread.setRegister16 name v }

def register8 (name : FERegisterName) : Emulator F U8 := do
  return (← thread).register8 name

def setRegister8 (name : FERegisterName) (v : U8) : Emulator F Unit :=
  Exec.modify fun s => { s with currentThread := s.currentThread.setRegister8 name v }

def register (name : FERegisterName) (width : FEBitWidth) : Emulator F U32 := do
  return (← thread).register name width

def setRegister (name : FERegisterName) (v : U32) (width : FEBitWidth) : Emulator F Unit :=
  Exec.modify fun s => { s with currentThread := s.currentThread.setRegister name v width }

def cpuFlags : Emulator F FECPUFlags := do
  return (← thread).cpuFlags

def setFlags (change : FECPUFlags→FECPUFlags) : Emulator F Unit :=
  Exec.modify fun s =>
    { s with currentThread := { s.currentThread with cpuFlags := change s.currentThread.cpuFlags } }

/-- A call of one of the functions that `ALU_IMP_2arg_op` defines. -/
def binary (instruction : BinaryInstruction) (arg1 arg2 : U32)
    (width : FEBitWidth) : Emulator F U32 :=
  fun env s =>
    let result := s.currentThread.binary instruction (env.undefinedFlags s.instructionCounter)
      arg1 arg2 width
    .ok (result.1,{ s with currentThread := result.2 })

/-- A call of one of the functions that `ALU_IMP_1arg_op` defines. -/
def unary (instruction : UnaryInstruction) (arg1 : U32) (width : FEBitWidth) : Emulator F U32 :=
  fun _ s =>
    let result := s.currentThread.unary instruction arg1 width
    .ok (result.1,{ s with currentThread := result.2 })

end Registers

section Stack

/-- An operation on the stack of the current thread, which moves `esp`. -/
def stackPush (operation : Build→FEStack→Memory DisasmContext→U32→
    Except Stop (U32×Memory DisasmContext)) :
    Emulator F Unit := Exec.atomic fun env s => do
  let (esp,memory) ← operation env.build s.currentThread.stack s.memory s.currentThread.esp
  .ok ((),{ s with memory := memory,currentThread := s.currentThread.setRegister32 .kESP esp })

def stackPop {α : Type} (operation : Build→FEStack→Memory DisasmContext→U32→Except Stop (α×U32)) :
    Emulator F α := Exec.atomic fun env s => do
  let (v,esp) ← operation env.build s.currentThread.stack s.memory s.currentThread.esp
  .ok (v,{ s with currentThread := s.currentThread.setRegister32 .kESP esp })

def push32 (v : U32) : Emulator F Unit :=
  stackPush fun build stack memory esp => stack.push32 build memory esp v

def pop32 : Emulator F U32 := stackPop fun build stack memory esp => stack.pop32 build memory esp

def push (v : U32) (width : FEBitWidth) : Emulator F Unit :=
  stackPush fun build stack memory esp => stack.push build memory esp v width

def pop (width : FEBitWidth) : Emulator F U32 :=
  stackPop fun build stack memory esp => stack.pop build memory esp width

end Stack

section Memory

def load (read : Memory DisasmContext→Except Stop α) : Emulator F α := do
  Exec.ofExcept (read (← Exec.get).memory)

def store (write : Memory DisasmContext→Except Stop (Memory DisasmContext)) : Emulator F Unit := do
  setMemory (← Exec.ofExcept (write (← Exec.get).memory))

end Memory

def updateDisasmFromContext : Emulator F Unit := Exec.atomic fun env s => do
  let fetched ← FalloutEmu.updateDisasmFromContext env.build env.disasm s.memory s.dummyOp
    s.currentThread.eip
  .ok ((),{ s with
    memory := fetched.memory
    dummyOp := fetched.dummyOp
    op := fetched.op
    len := fetched.len
    modrm := fetched.modrm })

section Reads
variable {R : FEProcess F→FEProcess F→Prop} [Std.Refl R]

theorem assert_within (condition : Bool) : (assert condition : Emulator F Unit).Within R := by
  intro env s a t h
  have hs := Exec.atomic_eq_ok.mp h
  cases hc : assertThat env.build condition with
  | ok u =>
    simp only [hc] at hs
    cases hs
    exact refl_of R s
  | error e =>
    simp only [hc] at hs
    cases hs

theorem thread_within : (thread : Emulator F _).Within R := by
  intro env s a t h
  cases h
  exact refl_of R s

variable [IsTrans (FEProcess F) R]

theorem unreachable_within {α : Type} : (unreachable : Emulator F α).Within R :=
  .bind (assert_within _) fun _ => .fail _

theorem throw_within {α : Type} : (throw : Emulator F α).Within R :=
  .bind (assert_within _) fun _ => .fail _

theorem bitWidth_within (argSize : U32) : (bitWidth argSize : Emulator F _).Within R :=
  .ite (.pure _) (.ite (.pure _) (.ite (.pure _) unreachable_within))

theorem register32_within (name : FERegisterName) : (register32 name : Emulator F _).Within R :=
  .bind thread_within fun _ => .pure _

theorem register16_within (name : FERegisterName) : (register16 name : Emulator F _).Within R :=
  .bind thread_within fun _ => .pure _

theorem register8_within (name : FERegisterName) : (register8 name : Emulator F _).Within R :=
  .bind thread_within fun _ => .pure _

theorem register_within (name : FERegisterName) (width : FEBitWidth) :
    (register name width : Emulator F _).Within R :=
  .bind thread_within fun _ => .pure _

theorem cpuFlags_within : (cpuFlags : Emulator F _).Within R :=
  .bind thread_within fun _ => .pure _

theorem load_within {α : Type} (read : Memory DisasmContext→Except Stop α) :
    (load read : Emulator F α).Within R :=
  .bind .get fun _ => .ofExcept _

end Reads

end Emulator
end FalloutEmu
