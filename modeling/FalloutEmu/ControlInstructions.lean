import FalloutEmu.IntegerInstructions

/-! # Branches, calls and the conditional instructions -/
namespace FalloutEmu.Emulator
variable {F : Type}

section Branches

def goto (eip : U32) : Emulator F Flow := do
  setRegister32 .kEIP eip
  updateDisasmFromContext
  return .continueLoop

def branchTarget (op : DISASM) : U32 := op.Instruction.AddrValue.setWidth 32

def assertRelative (op : DISASM) : Emulator F Unit := do
  assert (op.Argument1.ArgType&&&RELATIVE_≠0)
  assert (op.Argument1.ArgType&&&CONSTANT_TYPE≠0)

def jump (taken : FECPUFlags→Bool) (op : DISASM) : Emulator F Flow := do
  assertRelative op
  assert (op.Argument1.ArgSize=32)
  if taken (← cpuFlags) then goto (branchTarget op) else return .jumpToNextInstr

/-- A conditional jump that does not check the size of its operand. -/
def jumpAnySize (taken : FECPUFlags→Bool) (op : DISASM) : Emulator F Flow := do
  assertRelative op
  if taken (← cpuFlags) then goto (branchTarget op) else return .jumpToNextInstr

def jo : DISASM→Emulator F Flow := jump fun cpuFlags => cpuFlags.OF=1

def jno : DISASM→Emulator F Flow := jumpAnySize fun cpuFlags => cpuFlags.OF=0

def jc : DISASM→Emulator F Flow := jump fun cpuFlags => cpuFlags.CF=1

def jnc : DISASM→Emulator F Flow := jump fun cpuFlags => cpuFlags.CF≠1

def je : DISASM→Emulator F Flow := jump fun cpuFlags => cpuFlags.ZF=1

def jne : DISASM→Emulator F Flow := jump fun cpuFlags => cpuFlags.ZF=0

def jbe : DISASM→Emulator F Flow := jump fun cpuFlags => cpuFlags.CF=1 ∨ cpuFlags.ZF=1

def jnbe : DISASM→Emulator F Flow := jump fun cpuFlags => cpuFlags.CF=0 ∧ cpuFlags.ZF=0

def js : DISASM→Emulator F Flow := jump fun cpuFlags => cpuFlags.SF=1

def jns : DISASM→Emulator F Flow := jump fun cpuFlags => cpuFlags.SF=0

def jp : DISASM→Emulator F Flow := jump fun cpuFlags => cpuFlags.PF=1

def jnp : DISASM→Emulator F Flow := jump fun cpuFlags => cpuFlags.PF=0

def jl : DISASM→Emulator F Flow := jump fun cpuFlags => cpuFlags.SF≠cpuFlags.OF

def jnl : DISASM→Emulator F Flow := jumpAnySize fun cpuFlags => cpuFlags.SF=cpuFlags.OF

def jngl : DISASM→Emulator F Flow := jumpAnySize fun cpuFlags => cpuFlags.ZF=1 ∨
    cpuFlags.SF≠cpuFlags.OF

def jg : DISASM→Emulator F Flow := jumpAnySize fun cpuFlags => cpuFlags.ZF=0 ∧
    cpuFlags.SF=cpuFlags.OF

def jecxz (op : DISASM) : Emulator F Flow := do
  assertRelative op
  assert (op.Argument1.ArgSize=32)
  if (← register32 .kECX)=0 then goto (branchTarget op) else return .jumpToNextInstr

def jmp (op : DISASM) : Emulator F Flow := do
  assertRelative op
  assert (op.Argument1.ArgSize=32)
  goto (branchTarget op)

end Branches

section Conditional

/-- `0xf40` to `0xf4f`: the second operand is loaded whether or not it is moved. -/
def moveIf (taken : FECPUFlags→Bool) (op : DISASM) : Emulator F Flow := do
  let arg2Value ← loadArg2 op
  if taken (← cpuFlags) then do
    storeValueInArg op.Argument1 arg2Value
    return .jumpToNextInstr
  else return .jumpToNextInstr

def cmovo : DISASM→Emulator F Flow := moveIf fun cpuFlags => cpuFlags.OF=1

def cmovno : DISASM→Emulator F Flow := moveIf fun cpuFlags => cpuFlags.OF=0

def cmovb : DISASM→Emulator F Flow := moveIf fun cpuFlags => cpuFlags.CF=1

def cmovnb : DISASM→Emulator F Flow := moveIf fun cpuFlags => cpuFlags.CF=0

def cmove : DISASM→Emulator F Flow := moveIf fun cpuFlags => cpuFlags.ZF=1

def cmovne : DISASM→Emulator F Flow := moveIf fun cpuFlags => cpuFlags.ZF=0

def cmovbe : DISASM→Emulator F Flow := moveIf fun cpuFlags => cpuFlags.CF=1 ∨ cpuFlags.ZF=1

def cmovnbe : DISASM→Emulator F Flow := moveIf fun cpuFlags => cpuFlags.CF=0 ∧ cpuFlags.ZF=0

def cmovs : DISASM→Emulator F Flow := moveIf fun cpuFlags => cpuFlags.SF=1

def cmovns : DISASM→Emulator F Flow := moveIf fun cpuFlags => cpuFlags.SF=0

def cmovp : DISASM→Emulator F Flow := moveIf fun cpuFlags => cpuFlags.PF=1

def cmovnp : DISASM→Emulator F Flow := moveIf fun cpuFlags => cpuFlags.PF=0

def cmovl : DISASM→Emulator F Flow := moveIf fun cpuFlags => cpuFlags.SF≠cpuFlags.OF

def cmovnl : DISASM→Emulator F Flow := moveIf fun cpuFlags => cpuFlags.SF=cpuFlags.OF

def cmovle : DISASM→Emulator F Flow := moveIf fun cpuFlags => cpuFlags.ZF=1 ∨
    cpuFlags.SF≠cpuFlags.OF

def cmovg : DISASM→Emulator F Flow := moveIf fun cpuFlags => cpuFlags.ZF=0 ∧ cpuFlags.SF=cpuFlags.OF

def setIf (taken : FECPUFlags→Bool) (op : DISASM) : Emulator F Flow := do
  storeValueInArg op.Argument1 (if taken (← cpuFlags) then 1 else 0)
  return .jumpToNextInstr

def seto : DISASM→Emulator F Flow := setIf fun cpuFlags => cpuFlags.OF=1

def setno : DISASM→Emulator F Flow := setIf fun cpuFlags => cpuFlags.OF=0

def setb : DISASM→Emulator F Flow := setIf fun cpuFlags => cpuFlags.CF=1

def setnb : DISASM→Emulator F Flow := setIf fun cpuFlags => cpuFlags.CF=0

def sete : DISASM→Emulator F Flow := setIf fun cpuFlags => cpuFlags.ZF=1

def setne : DISASM→Emulator F Flow := setIf fun cpuFlags => cpuFlags.ZF=0

def setbe : DISASM→Emulator F Flow := setIf fun cpuFlags => cpuFlags.CF=1 ∨ cpuFlags.ZF=1

def setnbe : DISASM→Emulator F Flow := setIf fun cpuFlags => cpuFlags.CF=0 ∧ cpuFlags.ZF=0

def sets : DISASM→Emulator F Flow := setIf fun cpuFlags => cpuFlags.SF=1

def setns : DISASM→Emulator F Flow := setIf fun cpuFlags => cpuFlags.SF=0

def setp : DISASM→Emulator F Flow := setIf fun cpuFlags => cpuFlags.PF=1

def setnp : DISASM→Emulator F Flow := setIf fun cpuFlags => cpuFlags.PF=0

def setl : DISASM→Emulator F Flow := setIf fun cpuFlags => cpuFlags.SF≠cpuFlags.OF

def setnl : DISASM→Emulator F Flow := setIf fun cpuFlags => cpuFlags.SF=cpuFlags.OF

def setle : DISASM→Emulator F Flow := setIf fun cpuFlags => cpuFlags.ZF=1 ∨ cpuFlags.SF≠cpuFlags.OF

def setg : DISASM→Emulator F Flow := setIf fun cpuFlags => cpuFlags.ZF=0 ∧ cpuFlags.SF=cpuFlags.OF

end Conditional

section Calls

def nextEIP : Emulator F U32 := do
  let eip ← register32 .kEIP
  return eip+BitVec.ofInt 32 (← Exec.get).len

def call (op : DISASM) : Emulator F Flow := do
  assertRelative op
  assert (op.Argument1.ArgSize=32)
  push32 (← nextEIP)
  goto (branchTarget op)

def ret (_ : DISASM) : Emulator F Flow := do
  goto (← pop32)

/-- `0xc2`; the operand belongs to the instruction before the fetch. -/
def retn (op : DISASM) : Emulator F Flow := do
  setRegister32 .kEIP (← pop32)
  updateDisasmFromContext
  let offset ← loadArg1 op
  let esp ← register32 .kESP
  setRegister32 .kESP (esp+offset)
  return .continueLoop

def retFar (_ : DISASM) : Emulator F Flow := do
  assert false
  let eip ← pop32
  let cs ← pop32
  setRegister32 .kEIP eip
  setRegister16 .kCS (cs.setWidth 16)
  updateDisasmFromContext
  return .continueLoop

def retnFar (op : DISASM) : Emulator F Flow := do
  assert false
  let eip ← pop32
  let cs ← pop32
  setRegister32 .kEIP eip
  setRegister16 .kCS (cs.setWidth 16)
  updateDisasmFromContext
  let offset ← loadArg1 op
  let esp ← register32 .kESP
  setRegister32 .kESP (esp+offset)
  return .continueLoop

def leave (_ : DISASM) : Emulator F Flow := do
  setRegister32 .kESP (← register32 .kEBP)
  setRegister32 .kEBP (← pop32)
  return .jumpToNextInstr

def enterLevels : ℕ→Emulator F Unit
  | 0 => pure ()
  | n+1 => do
    let ebp ← register32 .kEBP
    setRegister32 .kEBP (ebp-4)
    push32 (ebp-4)
    enterLevels n

/-- `0xc8`, whose operands are read behind the host address of the instruction. -/
def enter (op : DISASM) : Emulator F Flow := do
  let host := (← Exec.get).memory.host
  let frame_size : U16 := BitVec.ofNat 16 (ByteStore.value (ByteStore.readAt host (op.EIP+1) 2))
  let nest_level := host (op.EIP+3)
  assert (nest_level=0)
  let nest_level := nest_level%32
  push32 (← register32 .kEBP)
  let frame_temp ← register32 .kESP
  (if nest_level≠0 then do
    enterLevels (nest_level.toNat-1)
    push32 frame_temp
  else pure ())
  setRegister32 .kEBP frame_temp
  let esp ← register32 .kESP
  setRegister32 .kESP (esp-frame_size.setWidth 32)
  return .jumpToNextInstr

def executeFunctionAtAddress (proxy : FEImportsProxy) (address : U32) : Emulator F U8 := do
  match ← Exec.ofExcept (proxy.functionAtAddress address) with
  | some coordinates => fun env s => env.executeFunction coordinates () s
  | none => return 0

/-- The call of an imported function by `instruction_ff`. -/
def callImport (proxy : FEImportsProxy) (address : U32) : Emulator F Flow := do
  let argumentsSize ← executeFunctionAtAddress proxy address
  setRegister32 .kEIP (← pop32)
  let esp ← register32 .kESP
  setRegister32 .kESP (esp+argumentsSize.setWidth 32)
  updateDisasmFromContext
  return .continueLoop

def instructionFF (op : DISASM) : Emulator F Flow := do
  let arg1Value ← loadArg1 op
  let regopcode := op.Reserved_.REGOPCODE
  if 2≤regopcode ∧ regopcode ≤ 5 then do
    (if regopcode=2 ∨ regopcode=3 then do push32 (← nextEIP) else pure ())
    match (← Exec.get).importsProxy with
    | some proxy =>
      if ← Exec.ofExcept (proxy.isAddressWithinLoadedImports arg1Value)
        then callImport proxy arg1Value
      else goto arg1Value
    | none => goto arg1Value
  else if regopcode=0 then do
    let result ← unary X86.inc arg1Value (← bitWidth op.Argument1.ArgSize)
    storeValueInArg op.Argument1 result
    return .jumpToNextInstr
  else if regopcode=1 then do
    let result ← unary X86.dec arg1Value (← bitWidth op.Argument1.ArgSize)
    storeValueInArg op.Argument1 result
    return .jumpToNextInstr
  else if regopcode=6 then pushArg op
  else return .jumpToNextInstr

end Calls
end FalloutEmu.Emulator
