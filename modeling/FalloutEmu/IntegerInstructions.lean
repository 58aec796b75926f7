import FalloutEmu.Operands

/-! # The integer instructions of the interpreter -/
namespace FalloutEmu.Emulator
open X86 (BinaryInstruction UnaryInstruction)
variable {F : Type}

/-- How a branch of the `switch` in `run` ends: `break` to the label `jump_to_next_instr`, or
`continue`. -/
inductive Flow where
  | jumpToNextInstr
  | continueLoop
  deriving DecidableEq,Repr

def loadArg1 (op : DISASM) : Emulator F U32 :=
  loadArgValue op.Argument1 (op.Instruction.Immediat.setWidth 32)

def loadArg2 (op : DISASM) : Emulator F U32 :=
  loadArgValue op.Argument2 (op.Instruction.Immediat.setWidth 32)

def assertSameSize (op : DISASM) : Emulator F Unit :=
  assert (op.Argument1.ArgSize=op.Argument2.ArgSize)

section Moves

def mov (op : DISASM) : Emulator F Flow := do
  assertSameSize op
  let arg2Value ← loadArg2 op
  storeValueInArg op.Argument1 arg2Value
  return .jumpToNextInstr

/-- A move that does not compare the sizes of its operands. -/
def moveAnySize (op : DISASM) : Emulator F Flow := do
  let arg2Value ← loadArg2 op
  storeValueInArg op.Argument1 arg2Value
  return .jumpToNextInstr

def movImmediate : DISASM→Emulator F Flow := moveAnySize

def movzx : DISASM→Emulator F Flow := moveAnySize

def pushArg (op : DISASM) : Emulator F Flow := do
  let v ← loadArg2 op
  push v (← bitWidth op.Argument2.ArgSize)
  return .jumpToNextInstr

def pushSegment (op : DISASM) : Emulator F Flow := do
  let arg2Value ← loadArg2 op
  push32 arg2Value
  return .jumpToNextInstr

/-- `0x1f`, `0x07`, `0x17`, `0xfa1` and `0xfa9`; the popped double word passes through a
`uint16_t`. -/
def popSegment (op : DISASM) : Emulator F Flow := do
  let v := (← pop32).setWidth 16
  storeValueInArg op.Argument1 (v.setWidth 32)
  return .jumpToNextInstr

def popArg (op : DISASM) : Emulator F Flow := do
  let v ← pop (← bitWidth op.Argument1.ArgSize)
  storeValueInArg op.Argument1 v
  return .jumpToNextInstr

def xchg (op : DISASM) : Emulator F Flow := do
  assertSameSize op
  let arg1Value ← loadArg1 op
  let arg2Value ← loadArg2 op
  storeValueInArg op.Argument1 arg2Value
  storeValueInArg op.Argument2 arg1Value
  return .jumpToNextInstr

def lea (op : DISASM) : Emulator F Flow := do
  assert (op.Argument2.ArgType&&&MEMORY_TYPE≠0)
  assert (op.Argument2.ArgSize=32)
  assert (op.Argument1.ArgType&&&REGISTER_TYPE≠0)
  assert (op.Argument1.ArgType&&&GENERAL_REG≠0)
  assert (op.Argument1.ArgSize=32)
  let address ← addressFromArgtype op.Argument2
  let registerName ← register32FromArgtype op.Argument1.ArgType op.Argument1.ArgPosition
  setRegister32 registerName address
  return .jumpToNextInstr

def signExtended (v argSize : U32) : Emulator F U32 :=
  if argSize=8 then return (v.setWidth 8).signExtend 32
  else if argSize=16 then return (v.setWidth 16).signExtend 32
  else do
    assert false
    return v

def movsx (op : DISASM) : Emulator F Flow := do
  let arg2Value ← loadArg2 op
  let extended ← signExtended arg2Value op.Argument2.ArgSize
  storeValueInArg op.Argument1 extended
  return .jumpToNextInstr

/-- `0x98`; the extended value is masked with the upper half where the sign is set. -/
def cbw (op : DISASM) : Emulator F Flow :=
  if op.Argument1.ArgSize=32 then do
    let ax ← register16 .kAX
    setRegister32 .kEAX (if ax.msb then 0xffff0000&&&ax.setWidth 32 else ax.setWidth 32)
    return .jumpToNextInstr
  else if op.Argument1.ArgSize=16 then do
    let al ← register8 .kAL
    setRegister16 .kAX (if al.msb then 0xff00&&&al.setWidth 16 else al.setWidth 16)
    return .jumpToNextInstr
  else return .jumpToNextInstr

def cwd (op : DISASM) : Emulator F Flow :=
  if op.Argument1.ArgSize=32 then do
    let eax ← register32 .kEAX
    setRegister32 .kEDX (if eax.msb then 0xffffffff else 0)
    return .jumpToNextInstr
  else if op.Argument1.ArgSize=16 then do
    let ax ← register16 .kAX
    setRegister16 .kDX (if ax.msb then 0xffff else 0)
    return .jumpToNextInstr
  else return .jumpToNextInstr

def pushfd (_ : DISASM) : Emulator F Flow := do
  push32 ((← cpuFlags).cpuflags16.setWidth 32)
  return .jumpToNextInstr

def popfd (op : DISASM) : Emulator F Flow := do
  assert (op.Argument1.ArgType&&&REGISTER_TYPE≠0)
  assert (op.Argument1.ArgType&&&SPECIAL_REG≠0)
  assert (op.Argument1.ArgType&&&REG0≠0)
  let flags ← pop (← bitWidth op.Argument1.ArgSize)
  setFlags fun cpuFlags => cpuFlags.fillFrom16it (flags.setWidth 16)
  return .jumpToNextInstr

def nop (_ : DISASM) : Emulator F Flow := return .jumpToNextInstr

end Moves

section Arithmetic

def binaryInstruction (instruction : BinaryInstruction) (op : DISASM) : Emulator F Flow := do
  assertSameSize op
  let arg1Value ← loadArg1 op
  let arg2Value ← loadArg2 op
  let result ← binary instruction arg1Value arg2Value (← bitWidth op.Argument1.ArgSize)
  storeValueInArg op.Argument1 result
  return .jumpToNextInstr

def add : DISASM→Emulator F Flow := binaryInstruction X86.add

def or : DISASM→Emulator F Flow := binaryInstruction X86.or

def adc : DISASM→Emulator F Flow := binaryInstruction X86.adc

def sbb : DISASM→Emulator F Flow := binaryInstruction X86.sbb

def and : DISASM→Emulator F Flow := binaryInstruction X86.and

def sub : DISASM→Emulator F Flow := binaryInstruction X86.sub

def xor : DISASM→Emulator F Flow := binaryInstruction X86.xor

/-- A two-operand instruction of which only the flags are kept. -/
def compareInstruction (instruction : BinaryInstruction) (op : DISASM) : Emulator F Flow := do
  assertSameSize op
  let arg1Value ← loadArg1 op
  let arg2Value ← loadArg2 op
  let _ ← binary instruction arg1Value arg2Value (← bitWidth op.Argument1.ArgSize)
  return .jumpToNextInstr

def cmp : DISASM→Emulator F Flow := compareInstruction X86.sub

def test : DISASM→Emulator F Flow := compareInstruction X86.test

def unaryInstruction (instruction : UnaryInstruction) (op : DISASM) : Emulator F Flow := do
  let arg1Value ← loadArg1 op
  let result ← unary instruction arg1Value (← bitWidth op.Argument1.ArgSize)
  storeValueInArg op.Argument1 result
  return .jumpToNextInstr

def inc : DISASM→Emulator F Flow := unaryInstruction X86.inc

def dec : DISASM→Emulator F Flow := unaryInstruction X86.dec

def incDec (op : DISASM) : Emulator F Flow :=
  if op.Reserved_.REGOPCODE=0 then inc op
  else if op.Reserved_.REGOPCODE=1 then dec op
  else do
    assert false
    return .jumpToNextInstr

/-- The instruction that the register field of group 1 selects. -/
def group1 (regopcode : U32) : Option BinaryInstruction :=
  if regopcode=0 then some X86.add
  else if regopcode=1 then some X86.or
  else if regopcode=2 then some X86.adc
  else if regopcode=3 then some X86.sbb
  else if regopcode=4 then some X86.and
  else if regopcode=5 then some X86.sub
  else if regopcode=6 then some X86.xor
  else none

def instruction8081 (op : DISASM) : Emulator F Flow := do
  assertSameSize op
  let width ← bitWidth op.Argument1.ArgSize
  let arg1Value ← loadArg1 op
  let arg2Value ← loadArg2 op
  match group1 op.Reserved_.REGOPCODE with
  | some instruction => do
    let result ← binary instruction arg1Value arg2Value width
    storeValueInArg op.Argument1 result
    return .jumpToNextInstr
  | none =>
    if op.Reserved_.REGOPCODE=7 then do
      let _ ← binary X86.sub arg1Value arg2Value width
      return .jumpToNextInstr
    else do
      assert false
      return .jumpToNextInstr

/-- `0x83`, that is the two assertions before `instruction_83` and the function itself; without its
assertion an unknown register field stores the initial result 0. -/
def instruction83 (op : DISASM) : Emulator F Flow := do
  assert (op.Argument2.ArgType&&&CONSTANT_TYPE≠0)
  assert (op.Argument2.ArgSize=8)
  let width ← bitWidth op.Argument1.ArgSize
  let arg1Value ← loadArg1 op
  let arg2Value ← loadArg2 op
  let arg2Value := (arg2Value.setWidth 8).signExtend 32
  match group1 op.Reserved_.REGOPCODE with
  | some instruction => do
    let result ← binary instruction arg1Value arg2Value width
    storeValueInArg op.Argument1 result
    return .jumpToNextInstr
  | none =>
    if op.Reserved_.REGOPCODE=7 then do
      let _ ← binary X86.sub arg1Value arg2Value width
      return .jumpToNextInstr
    else do
      assert false
      storeValueInArg op.Argument1 0
      return .jumpToNextInstr

/-- The instruction that the register field of group 2 selects. -/
def group2 (regopcode : U32) : Option BinaryInstruction :=
  if regopcode=0 then some X86.rol
  else if regopcode=1 then some X86.ror
  else if regopcode=2 then some X86.rcl
  else if regopcode=3 then some X86.rcr
  else if regopcode=4 ∨ regopcode=6 then some X86.shl
  else if regopcode=5 then some X86.shr
  else if regopcode=7 then some X86.sar
  else none

def shift (op : DISASM) : Emulator F Flow := do
  let arg1Value ← loadArg1 op
  let arg2Value ← loadArg2 op
  match group2 op.Reserved_.REGOPCODE with
  | some instruction => do
    let result ← binary instruction arg1Value arg2Value (← bitWidth op.Argument1.ArgSize)
    storeValueInArg op.Argument1 result
    return .jumpToNextInstr
  | none => do
    assert false
    storeValueInArg op.Argument1 0
    return .jumpToNextInstr

end Arithmetic

section Flags

def cmc (_ : DISASM) : Emulator F Flow := do
  setFlags fun cpuFlags => { cpuFlags with CF := if cpuFlags.CF=0 then 1 else 0 }
  return .jumpToNextInstr

def cld (_ : DISASM) : Emulator F Flow := do
  setFlags fun cpuFlags => { cpuFlags with DF := 0 }
  return .jumpToNextInstr

def std (_ : DISASM) : Emulator F Flow := do
  setFlags fun cpuFlags => { cpuFlags with DF := 1 }
  return .jumpToNextInstr

def sahf (_ : DISASM) : Emulator F Flow := do
  let ah ← register8 .kAH
  setFlags fun cpuFlags => { cpuFlags with
    CF := (ah&&&1).setWidth 1
    PF := (ah>>>2&&&1).setWidth 1
    AF := (ah>>>4&&&1).setWidth 1
    ZF := (ah>>>6&&&1).setWidth 1
    SF := (ah>>>7&&&1).setWidth 1 }
  return .jumpToNextInstr

end Flags

section Decimal

/-- The last statements of the decimal adjustments: parity, sign and zero of a byte. -/
def setByteFlags (al : U8) : Emulator F Unit :=
  setFlags fun cpuFlags => { cpuFlags.fillParityFromByte al with
    SF := (al>>>7&&&1).setWidth 1
    ZF := if al=0 then 1 else 0 }

def lowDigitAdjusts (al : U8) : Emulator F Bool := do
  return al&&&0x0f>9 ∨ (← cpuFlags).AF=1

/-- The first `if` of `daa` and `das`; `carry` is the carry or borrow it finds. -/
def adjustLowDigit (al old_al : U8) (old_cf : BitVec 1) (carry : Bool) : Emulator F Unit := do
  if ← lowDigitAdjusts old_al then do
    setRegister8 .kAL al
    setFlags fun cpuFlags => { cpuFlags with CF := BitVec.ofBool (old_cf≠0 ∨ carry),AF := 1 }
  else setFlags fun cpuFlags => { cpuFlags with AF := 0 }

def daa (_ : DISASM) : Emulator F Flow := do
  let old_al ← register8 .kAL
  let old_cf := (← cpuFlags).CF
  setFlags fun cpuFlags => { cpuFlags with CF := 0 }
  adjustLowDigit (old_al+6) old_al old_cf (carryFor8 old_al 6)
  let al ← register8 .kAL
  (if old_al>0x99 ∨ old_cf=1 then do
    setRegister8 .kAL (al+0x60)
    setFlags fun cpuFlags => { cpuFlags with CF := 1 }
  else setFlags fun cpuFlags => { cpuFlags with CF := 0 })
  setByteFlags (← register8 .kAL)
  return .jumpToNextInstr

def das (_ : DISASM) : Emulator F Flow := do
  let old_al ← register8 .kAL
  let old_cf := (← cpuFlags).CF
  setFlags fun cpuFlags => { cpuFlags with CF := 0 }
  adjustLowDigit (old_al-6) old_al old_cf (old_al<6)
  let al ← register8 .kAL
  (if old_al>0x99 ∨ old_cf=1 then do
    setRegister8 .kAL (al-0x60)
    setFlags fun cpuFlags => { cpuFlags with CF := 1 }
  else pure ())
  setByteFlags (← register8 .kAL)
  return .jumpToNextInstr

def setAdjustFlags (v : BitVec 1) : Emulator F Unit :=
  setFlags fun cpuFlags => { cpuFlags with AF := v,CF := v }

/-- `0x37`; the flags are those of `AL` before its upper half is cleared. -/
def aaa (_ : DISASM) : Emulator F Flow := do
  (if ← lowDigitAdjusts (← register8 .kAL) then do
    let ax ← register16 .kAX
    setRegister16 .kAX (ax+0x106)
    setAdjustFlags 1
  else setAdjustFlags 0)
  let al ← register8 .kAL
  setRegister8 .kAL (al&&&0xf)
  setByteFlags al
  return .jumpToNextInstr

def aas (_ : DISASM) : Emulator F Flow := do
  (if ← lowDigitAdjusts (← register8 .kAL) then do
    let ax ← register16 .kAX
    setRegister16 .kAX (ax-6)
    let ah ← register8 .kAH
    setRegister8 .kAH (ah-1)
    setAdjustFlags 1
  else setAdjustFlags 0)
  let al ← register8 .kAL
  setRegister8 .kAL (al&&&0xf)
  setByteFlags (← register8 .kAL)
  return .jumpToNextInstr

/-- `0xd4`; `modrm` is the byte after the opcode. -/
def aam (_ : DISASM) : Emulator F Flow := do
  assert ((← Exec.get).modrm=0xa)
  let imm8 : U8 := 0x0a
  let al ← register8 .kAL
  setRegister8 .kAH (al/imm8)
  setRegister8 .kAL (al%imm8)
  setByteFlags (← register8 .kAL)
  return .jumpToNextInstr

def aad (_ : DISASM) : Emulator F Flow := do
  assert ((← Exec.get).modrm=0xa)
  let al ← register8 .kAL
  let ah ← register8 .kAH
  setRegister8 .kAL (al+ah*0xa)
  setRegister8 .kAH 0
  setByteFlags (← register8 .kAL)
  return .jumpToNextInstr

end Decimal
end FalloutEmu.Emulator
