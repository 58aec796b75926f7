import FalloutEmu.IntegerInstructions

/-! # Multiplication and division -/
namespace FalloutEmu

/-- The product as `fe_threadContext_imul32` compares it: truncated and sign-extended again, with
the sign of the truncated value. -/
def truncatedProduct (result : BitVec 64) : FEBitWidth→BitVec 64×Bool
  | .k8bit => ((result.setWidth 8).signExtend 64,(result.setWidth 8).msb)
  | .k16bit => ((result.setWidth 16).signExtend 64,(result.setWidth 16).msb)
  | .k32bit => ((result.setWidth 32).signExtend 64,(result.setWidth 32).msb)

def productFlags (cpuFlags : FECPUFlags) (result : BitVec 64) (flag sign : Bool) : FECPUFlags :=
  { cpuFlags.fillParityFromByte (result.setWidth 8) with
    CF := BitVec.ofBool flag
    OF := BitVec.ofBool flag
    SF := BitVec.ofBool sign }

namespace FEThreadContext
variable {F : Type}

def imul32 (threadContext : FEThreadContext F) (arg1 arg2 : U32) (width : FEBitWidth) :
    BitVec 64×FEThreadContext F :=
  let result := signExtend arg1 width*signExtend arg2 width
  let (truncated,sign) := truncatedProduct result width
  (result,{ threadContext with
    cpuFlags := productFlags threadContext.cpuFlags result (truncated≠result) sign })

/-- An operand of `fe_threadContext_mul32`. -/
def zeroExtend (v : U32) : FEBitWidth→BitVec 64
  | .k8bit => (v.setWidth 8).setWidth 64
  | .k16bit => (v.setWidth 16).setWidth 64
  | .k32bit => v.setWidth 64

/-- The upper half of a product of `fe_threadContext_mul32`. -/
def upperHalf (result : BitVec 64) : FEBitWidth→BitVec 64
  | .k8bit => result>>>8&&&0xff
  | .k16bit => result>>>16&&&0xffff
  | .k32bit => result>>>32&&&0xffffffff

def mul32 (threadContext : FEThreadContext F) (arg1 arg2 : U32) (width : FEBitWidth) :
    BitVec 64×FEThreadContext F :=
  let result := zeroExtend arg1 width*zeroExtend arg2 width
  let (_,sign) := truncatedProduct result width
  (result,{ threadContext with
    cpuFlags := productFlags threadContext.cpuFlags result (upperHalf result width≠0) sign })

end FEThreadContext

namespace Emulator
variable {F : Type}

def multiply (product : FEThreadContext F→U32→U32→FEBitWidth→BitVec 64×FEThreadContext F)
    (arg1 arg2 : U32) (width : FEBitWidth) : Emulator F (BitVec 64) := fun _ s =>
  let result := product s.currentThread arg1 arg2 width
  .ok (result.1,{ s with currentThread := result.2 })

/-- The range tests of `fe_threadContext_idiv32`. -/
def quotientTooLarge (quotient : ℤ) : FEBitWidth→Bool
  | .k8bit => quotient>0x7f ∨ quotient< -0x80
  | .k16bit => quotient>0x7fff ∨ quotient< -0x8000
  | .k32bit => quotient>0x7fffffff ∨ quotient< -0x80000000

/-- `fe_threadContext_idiv32`: quotient and remainder. The host traps on a zero divisor and on a
quotient that does not fit in 64 bits. -/
def idiv32 (arg1 arg2 : BitVec 64) (width : FEBitWidth) : Emulator F (BitVec 64×BitVec 64) := do
  assert (arg2≠0)
  if arg2=0 ∨ (arg1=BitVec.intMin 64 ∧ arg2= -1) then Exec.fail .undefinedBehaviour
  else do
    let quotient := arg1.sdiv arg2
    assert (!quotientTooLarge quotient.toInt width)
    return (quotient,arg1.srem arg2)

/-- The range tests of `fe_threadContext_div32`. -/
def unsignedQuotientTooLarge (quotient : BitVec 64) : FEBitWidth→Bool
  | .k8bit => quotient>0xff
  | .k16bit => quotient>0xffff
  | .k32bit => quotient>0xffffffff

def div32 (arg1 arg2 : BitVec 64) (width : FEBitWidth) : Emulator F (BitVec 64×BitVec 64) := do
  assert (arg2≠0)
  if arg2=0 then Exec.fail .undefinedBehaviour
  else do
    let quotient := arg1/arg2
    assert (!unsignedQuotientTooLarge quotient width)
    return (quotient,arg1%arg2)

def imul (op : DISASM) : Emulator F Flow := do
  let arg1Value ← loadArg1 op
  let arg2Value ← loadArg2 op
  let result ← multiply FEThreadContext.imul32 arg1Value arg2Value (← bitWidth op.Argument1.ArgSize)
  storeValueInArg op.Argument1 (result.setWidth 32)
  return .jumpToNextInstr

def imulImmediate (op : DISASM) : Emulator F Flow :=
  if op.Reserved_.third_arg=0 then imul op
  else do
    let _ ← loadArg1 op
    let arg2Value ← loadArg2 op
    let arg3Value ← loadArgValue op.Argument3 (op.Instruction.Immediat.setWidth 32)
    let result ← multiply FEThreadContext.imul32 arg2Value arg3Value
      (← bitWidth op.Argument2.ArgSize)
    storeValueInArg op.Argument1 (result.setWidth 32)
    return .jumpToNextInstr

/-- The cases 4 and 5 of `instruction_f6`. -/
def multiplyByte (product : FEThreadContext F→U32→U32→FEBitWidth→BitVec 64×FEThreadContext F)
    (op : DISASM) : Emulator F Flow := do
  assert (op.Argument1.ArgSize=8)
  let arg1Value ← loadArg1 op
  let arg2Value ← loadArg2 op
  let result ← multiply product arg1Value arg2Value (← bitWidth op.Argument1.ArgSize)
  setRegister16 .kAX (result.setWidth 16)
  return .jumpToNextInstr

def setByteQuotient (result : BitVec 64×BitVec 64) : Emulator F Flow := do
  setRegister8 .kAL (result.1.setWidth 8)
  setRegister8 .kAH (result.2.setWidth 8)
  return .jumpToNextInstr

def instructionF6 (op : DISASM) : Emulator F Flow :=
  if op.Reserved_.REGOPCODE=0 ∨ op.Reserved_.REGOPCODE=1 then compareInstruction X86.and op
  else if op.Reserved_.REGOPCODE=2 then unaryInstruction X86.not op
  else if op.Reserved_.REGOPCODE=3 then unaryInstruction X86.neg op
  else if op.Reserved_.REGOPCODE=4 then multiplyByte FEThreadContext.mul32 op
  else if op.Reserved_.REGOPCODE=5 then multiplyByte FEThreadContext.imul32 op
  else if op.Reserved_.REGOPCODE=6 then do
    assert (op.Argument2.ArgSize=8)
    let divident := (← register16 .kAX).setWidth 64
    let divider := (← loadArg2 op).setWidth 64
    setByteQuotient (← div32 divident divider (← bitWidth op.Argument2.ArgSize))
  else if op.Reserved_.REGOPCODE=7 then do
    assert (op.Argument2.ArgSize=8)
    let arg1Value := signExtend ((← register16 .kAX).setWidth 32) .k16bit
    let divider := signExtend (← loadArg2 op) .k8bit
    setByteQuotient (← idiv32 arg1Value divider (← bitWidth op.Argument2.ArgSize))
  else do
    assert false
    return .jumpToNextInstr

/-- Two halves of a result: a product, or quotient and remainder. -/
def setWordPair (argSize : U32) (low high : BitVec 64) : Emulator F Flow :=
  if argSize=16 then do
    setRegister16 .kAX (low.setWidth 16)
    setRegister16 .kDX (high.setWidth 16)
    return .jumpToNextInstr
  else if argSize=32 then do
    setRegister32 .kEAX (low.setWidth 32)
    setRegister32 .kEDX (high.setWidth 32)
    return .jumpToNextInstr
  else do
    assert false
    return .jumpToNextInstr

/-- The cases 4 and 5 of `instruction_f7`, after the loads that precede its `switch`. -/
def multiplyWord (product : FEThreadContext F→U32→U32→FEBitWidth→BitVec 64×FEThreadContext F)
    (op : DISASM) : Emulator F Flow := do
  let arg1Value ← loadArg1 op
  let arg2Value ← loadArg2 op
  let result ← multiply product arg1Value arg2Value (← bitWidth op.Argument1.ArgSize)
  setWordPair op.Argument1.ArgSize result
    (if op.Argument1.ArgSize=16 then result>>>16 else result>>>32)

/-- The dividend of the cases 6 and 7 of `instruction_f7`; without its assertion an unknown size
leaves the initial 0. -/
def divident (argSize : U32) : Emulator F (BitVec 64) :=
  if argSize=16 then do
    let dx ← register16 .kDX
    let ax ← register16 .kAX
    return signExtend (dx.setWidth 32<<<16|||ax.setWidth 32) .k32bit
  else if argSize=32 then do
    let edx ← register32 .kEDX
    let eax ← register32 .kEAX
    return edx.setWidth 64<<<32|||eax.setWidth 64
  else do
    assert false
    return 0

/-- `instruction_f7`; its unknown cases store an uninitialised result. -/
def instructionF7 (op : DISASM) : Emulator F Flow :=
  if op.Reserved_.REGOPCODE=2 then unaryInstruction X86.not op
  else if op.Reserved_.REGOPCODE=3 then unaryInstruction X86.neg op
  else do
    assertSameSize op
    let arg2Value ← loadArg2 op
    if op.Reserved_.REGOPCODE=0 ∨ op.Reserved_.REGOPCODE=1 then do
      let arg1Value ← loadArg1 op
      let _ ← binary X86.test arg1Value arg2Value (← bitWidth op.Argument1.ArgSize)
      return .jumpToNextInstr
    else if op.Reserved_.REGOPCODE=4 then multiplyWord FEThreadContext.mul32 op
    else if op.Reserved_.REGOPCODE=5 then multiplyWord FEThreadContext.imul32 op
    else if op.Reserved_.REGOPCODE=6 then do
      let divident ← divident op.Argument2.ArgSize
      let divider := (← loadArg2 op).setWidth 64
      let result ← div32 divident divider (← bitWidth op.Argument2.ArgSize)
      setWordPair op.Argument2.ArgSize result.1 result.2
    else if op.Reserved_.REGOPCODE=7 then do
      let divident ← divident op.Argument2.ArgSize
      let width ← bitWidth op.Argument2.ArgSize
      let divider := signExtend (← loadArg2 op) width
      let result ← idiv32 divident divider width
      setWordPair op.Argument2.ArgSize result.1 result.2
    else unreachable

end Emulator
end FalloutEmu
