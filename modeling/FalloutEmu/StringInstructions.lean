import FalloutEmu.IntegerInstructions

/-! # The string instructions and their repetition -/
namespace FalloutEmu.Emulator
variable {F : Type}

/-- `repxx_prefix`: whether it goes to the next instruction at once. -/
def repxxPrefix (op : DISASM) : Emulator F Bool :=
  if op.Prefix.Number≠0 then do
    assert (op.Prefix.LockPrefix=0)
    if op.Prefix.RepnePrefix=1 ∨ op.Prefix.RepPrefix=1 then return (← register32 .kECX)=0
    else return false
  else return false

/-- The statements that both branches of `repxx_postfix` start with. -/
def decrementECX : Emulator F Unit := do
  let ecx ← register32 .kECX
  setRegister32 .kECX (ecx-1)

/-- The instructions that compare and whose repetition ends on `ZF`. -/
def comparesStrings (opcode : U32) : Bool := opcode=0xa6 ∨ opcode=0xa7 ∨ opcode=0xae ∨ opcode=0xaf

def repxxPostfix (op : DISASM) : Emulator F Flow :=
  if op.Prefix.Number≠0 then do
    assert (op.Prefix.LockPrefix=0)
    if op.Prefix.RepnePrefix=1 then do
      decrementECX
      if (← cpuFlags).ZF=1 then return .jumpToNextInstr else return .continueLoop
    else if op.Prefix.RepPrefix=1 then do
      decrementECX
      if comparesStrings op.Instruction.Opcode ∧ (← cpuFlags).ZF=0 then return .jumpToNextInstr
      else return .continueLoop
    else return .jumpToNextInstr
  else return .jumpToNextInstr

/-- A string instruction between its `repxx_prefix` and `repxx_postfix`. -/
def repeated (body : DISASM→Emulator F Unit) (op : DISASM) : Emulator F Flow := do
  if ← repxxPrefix op then return .jumpToNextInstr
  else do
    assertSameSize op
    body op
    repxxPostfix op

/-- Moves an index register by the operand size, down when `DF` is set. -/
def advance (op : DISASM) (name : FERegisterName) : Emulator F Unit := do
  let v ← register32 name
  let diff : U8 := (op.Argument1.ArgSize/8).setWidth 8
  if (← cpuFlags).DF=0 then setRegister32 name (v+diff.setWidth 32)
  else setRegister32 name (v-diff.setWidth 32)

/-- `0xa6` and `0xa7`; the second operand minus the first. -/
def cmps : DISASM→Emulator F Flow := repeated fun op => do
  let arg1Value ← loadArg1 op
  let arg2Value ← loadArg2 op
  let _ ← binary X86.sub arg2Value arg1Value (← bitWidth op.Argument1.ArgSize)
  advance op .kESI
  advance op .kEDI

/-- `0xae` and `0xaf`; the register that moves is the base of the second operand. -/
def scas : DISASM→Emulator F Flow := repeated fun op => do
  let arg1Value ← loadArg1 op
  let arg2Value ← loadArg2 op
  let _ ← binary X86.sub arg1Value arg2Value (← bitWidth op.Argument1.ArgSize)
  advance op (← register32FromArgtype op.Argument2.Memory.BaseRegister 0)

def copyArg (op : DISASM) : Emulator F Unit := do
  let arg2Value ← loadArg2 op
  storeValueInArg op.Argument1 arg2Value

def stos : DISASM→Emulator F Flow := repeated fun op => do
  copyArg op
  advance op .kEDI

def movs : DISASM→Emulator F Flow := repeated fun op => do
  copyArg op
  advance op .kESI
  advance op .kEDI

def lods : DISASM→Emulator F Flow := repeated fun op => do
  copyArg op
  advance op .kESI

end FalloutEmu.Emulator
