import FalloutEmu.Operands

/-! # The floating-point instructions of the interpreter -/
namespace FalloutEmu.Emulator
open ByteStore
variable {F : Type}

def fpu : Emulator F (FEFPU F) := do
  return (← thread).fpu

def setFPU (change : FEFPU F→FEFPU F) : Emulator F Unit :=
  Exec.modify fun s => { s with currentThread := { s.currentThread with
    fpu := change s.currentThread.fpu } }

def fpuRegister (name : FEFPURegisterName) : Emulator F F := do
  return (← fpu).register name

def setFPURegister (name : FEFPURegisterName) (v : F) : Emulator F Unit :=
  setFPU fun fpu => fpu.setRegister name v

def float : Emulator F (HostFloat F) := do
  return (← Exec.environment).float

/-- `fe_memoryMap_memcpyToRealFromVirtual` of the double word behind an operand. -/
def loadFloat (arg : ARGTYPE) : Emulator F U32 := do
  let address ← addressFromArgtype arg
  return BitVec.ofNat 32 (value (← load fun memory => memory.memcpyToRealFromVirtual address 4))

def loadDouble (arg : ARGTYPE) : Emulator F (BitVec 64) := do
  let address ← addressFromArgtype arg
  return BitVec.ofNat 64 (value (← load fun memory => memory.memcpyToRealFromVirtual address 8))

/-- `fe_memoryMap_memcpyToVirtualFromReal` of the `n` bytes of a value. -/
def storeReal (arg : ARGTYPE) (n v : ℕ) : Emulator F Unit := do
  let address ← addressFromArgtype arg
  store fun memory => memory.memcpyToVirtualFromReal address (littleEndian n v)

def popTagged : Emulator F Unit := setFPU fun fpu => (fpu.setTag 0 .kEmpty).incrementTop

def compareFlags (st0 source : F) : Emulator F Unit := do
  let float ← float
  setFPU fun fpu =>
    let fpu := fpu.clearFlag .kC1
    if float.lt source st0 then ((fpu.clearFlag .kC0).clearFlag .kC2).clearFlag .kC3
    else if float.lt st0 source then ((fpu.setFlag .kC0).clearFlag .kC2).clearFlag .kC3
    else ((fpu.clearFlag .kC0).clearFlag .kC2).setFlag .kC3

def pushReal (v : F) : Emulator F Unit := do
  setFPU FEFPU.decrementTop
  setFPURegister 0 v

def unimplemented : Emulator F Unit := assert false

/-- The register form that an FPU opcode selects: the upper half of `modrm`, and whether its lower
half is at most 7. -/
def registerForm (modrm : U8) : U8×Bool := (modrm&&&0xf0,modrm&&&0xf ≤ 7)

/-- `ST(0)` and the `double` behind the second operand, combined into `ST(0)`. -/
def combineDouble (op : DISASM) (combine : HostFloat F→F→BitVec 64→F) : Emulator F Unit := do
  let st0 ← fpuRegister 0
  let mValue ← loadDouble op.Argument2
  setFPURegister 0 (combine (← float) st0 mValue)

def instructionFPUDC (op : DISASM) (modrm : U8) : Emulator F Unit :=
  let regopcode := op.Reserved_.REGOPCODE
  if modrm ≤ 0xbf then
    if regopcode=0 then combineDouble op fun float st0 m => float.add st0 (float.ofDouble m)
    else if regopcode=1 then combineDouble op fun float st0 m => float.mul st0 (float.ofDouble m)
    else if regopcode=2 ∨ regopcode=3 then do
      let st0 ← fpuRegister 0
      let mValue ← loadDouble op.Argument2
      compareFlags st0 ((← float).ofDouble mValue)
      if regopcode=3 then setFPU FEFPU.incrementTop else pure ()
    else if regopcode=4 then
      -- `ST(0)` passes through a `float` here
      combineDouble op fun float st0 m =>
        float.ofDouble (float.doubleSub (float.doubleOfFloat (float.toFloat st0)) m)
    else if regopcode=6 then combineDouble op fun float st0 m => float.div st0 (float.ofDouble m)
    else if regopcode=7 then combineDouble op fun float st0 m => float.div (float.ofDouble m) st0
    else unimplemented
  else if registerForm modrm=(0xe0,false) then do
    let regName ← fpuRegisterFromArgtype op.Argument1.ArgType
    let arg1Value ← fpuRegister regName
    let arg2Value ← fpuRegister 0
    setFPURegister regName ((← float).sub arg1Value arg2Value)
  else unimplemented

/-- `ST(0)` as a `float` and the `float` behind the second operand, combined into `ST(0)`. -/
def combineFloat (op : DISASM) (combine : HostFloat F→U32→U32→U32) : Emulator F Unit := do
  let float ← float
  let st0Value := float.toFloat (← fpuRegister 0)
  let mValue ← loadFloat op.Argument2
  setFPURegister 0 (float.ofFloat (combine float st0Value mValue))

def combineRegister (arg : ARGTYPE) (combine : HostFloat F→F→F→F) : Emulator F Unit := do
  let argRegName ← fpuRegisterFromArgtype arg.ArgType
  let st0 ← fpuRegister 0
  let sti ← fpuRegister argRegName
  setFPURegister 0 (combine (← float) st0 sti)

def instructionFPUD8 (op : DISASM) (modrm : U8) : Emulator F Unit :=
  let regopcode := op.Reserved_.REGOPCODE
  if modrm ≤ 0xbf then
    if regopcode=0 then combineFloat op HostFloat.floatAdd
    else if regopcode=1 then do
      let st0Value ← fpuRegister 0
      let mValue ← loadFloat op.Argument2
      let float ← float
      setFPURegister 0 (float.mul st0Value (float.ofFloat mValue))
    else if regopcode=4 then combineFloat op HostFloat.floatSub
    else if regopcode=6 then combineFloat op HostFloat.floatDiv
    else unimplemented
  else if registerForm modrm=(0xc0,false) then combineRegister op.Argument2 HostFloat.mul
  else if registerForm modrm=(0xd0,false) then do
    let arg2RegName ← fpuRegisterFromArgtype op.Argument2.ArgType
    let st0Value ← fpuRegister 0
    let st1Value ← fpuRegister arg2RegName
    compareFlags st0Value st1Value
    setFPU FEFPU.incrementTop
  else if registerForm modrm=(0xe0,true) then combineRegister op.Argument1 HostFloat.sub
  else if registerForm modrm=(0xf0,true) then combineRegister op.Argument2 HostFloat.div
  else unimplemented

def instructionFPUDF (op : DISASM) (modrm : U8) : Emulator F Unit :=
  let regopcode := op.Reserved_.REGOPCODE
  if modrm ≤ 0xbf then
    if regopcode=5 then do
      setFPU FEFPU.decrementTop
      let v ← loadDouble op.Argument2
      setFPURegister 0 ((← float).ofUInt64 v)
    else if regopcode=7 then do
      let st0 ← fpuRegister 0
      let v := (← float).toUInt64 st0
      assert (op.Argument1.ArgSize/8=8)
      storeReal op.Argument1 8 v.toNat
      popTagged
    else unimplemented
  else if modrm=0xe0 then do
    setRegister16 .kAX (← fpu).statusWord
  else unimplemented

def instructionFPUDD (op : DISASM) (modrm : U8) : Emulator F Unit :=
  let regopcode := op.Reserved_.REGOPCODE
  if modrm ≤ 0xbf then
    if regopcode=0 then do
      setFPU FEFPU.decrementTop
      let v ← loadDouble op.Argument2
      setFPURegister 0 ((← float).ofDouble v)
    else if regopcode=2 then do
      let st0 := (← float).toDouble (← fpuRegister 0)
      storeReal op.Argument1 8 st0.toNat
    else if regopcode=3 then do
      let st0 := (← float).toDouble (← fpuRegister 0)
      storeReal op.Argument1 8 st0.toNat
      popTagged
    else if regopcode=7 then do
      storeValueInArg op.Argument1 ((← fpu).statusWord.setWidth 32)
    else unimplemented
  else if registerForm modrm=(0xd0,false) then do
    let registerName ← fpuRegisterFromArgtype op.Argument1.ArgType
    let st0 ← fpuRegister 0
    setFPURegister registerName st0
    popTagged
  else unimplemented

/-- `ST(1)` combined with `ST(0)`, and a pop; the operand of the instruction is not consulted. -/
def combineIntoST1 (combine : HostFloat F→F→F→F) : Emulator F Unit := do
  let st0Value ← fpuRegister 0
  let st1Value ← fpuRegister 1
  setFPURegister 1 (combine (← float) st1Value st0Value)
  setFPU FEFPU.incrementTop

def instructionFPUDE (op : DISASM) (modrm : U8) : Emulator F Unit :=
  if modrm ≤ 0xbf then unimplemented
  else if registerForm modrm=(0xc0,true) then do
    let arg1RegName ← fpuRegisterFromArgtype op.Argument1.ArgType
    let sti ← fpuRegister arg1RegName
    let st0 ← fpuRegister 0
    setFPURegister arg1RegName ((← float).add sti st0)
    setFPU FEFPU.incrementTop
  else if registerForm modrm=(0xc0,false) then combineIntoST1 fun float st1 st0 => float.mul st0 st1
  else if modrm=0xd9 then do
    let st0Value ← fpuRegister 0
    let st1Value ← fpuRegister 1
    compareFlags st0Value st1Value
    setFPU FEFPU.incrementTop
    setFPU FEFPU.incrementTop
  else if registerForm modrm=(0xe0,false) then combineIntoST1 HostFloat.sub
  else if registerForm modrm=(0xf0,false) then do
    let arg1RegName ← fpuRegisterFromArgtype op.Argument1.ArgType
    let arg1Value ← fpuRegister arg1RegName
    let arg2Value ← fpuRegister 0
    setFPURegister arg1RegName ((← float).div arg1Value arg2Value)
    popTagged
  else unimplemented

def instructionFPU9B (_ : DISASM) (_ : U8) : Emulator F Unit := pure ()

/-- The memory forms of `instruction_fpu_d9`. -/
def memoryFormD9 (op : DISASM) : Emulator F Unit :=
  let regopcode := op.Reserved_.REGOPCODE
  if regopcode=0 then do
    setFPU FEFPU.decrementTop
    let v ← loadFloat op.Argument2
    setFPURegister 0 ((← float).ofFloat v)
  else if regopcode=2 then do
    let st0 := (← float).toFloat (← fpuRegister 0)
    storeReal op.Argument1 4 st0.toNat
  else if regopcode=5 then do
    assert (op.Argument2.ArgSize=16)
    let v ← loadArgValue op.Argument2 (op.Instruction.Immediat.setWidth 32)
    setFPU fun fpu => { fpu with controlWord := v.setWidth 16 }
  else if regopcode=7 then do
    assert (op.Argument1.ArgSize=16)
    storeValueInArg op.Argument1 ((← fpu).controlWord.setWidth 32)
  else unimplemented

/-- The register forms `0xe0` to `0xff` of `instruction_fpu_d9`. -/
def registerFormD9 (modrm : U8) : Emulator F Unit := do
  let float ← float
  let st0 ← fpuRegister 0
  let st1 ← fpuRegister 1
  if modrm=0xe0 then setFPURegister 0 (float.neg st0)
  else if modrm=0xe1 then setFPURegister 0 (float.fabsl st0)
  else if modrm=0xe4 then compareFlags st0 (float.ofUInt64 0)
  else if modrm=0xe8 then pushReal (float.ofUInt64 1)
  else if modrm=0xea then pushReal float.log2e
  else if modrm=0xed then pushReal float.ln2
  else if modrm=0xee then pushReal (float.ofUInt64 0)
  else if modrm=0xf0 then
    setFPURegister 0 (float.sub (float.powl (float.ofUInt64 2) st0) (float.ofUInt64 1))
  else if modrm=0xf1 then setFPURegister 1 (float.mul st1 (float.log2l st0))
  else if modrm=0xfc then setFPURegister 0 (float.ofUInt64 (float.toUInt64 st0))
  else if modrm=0xfd then
    setFPURegister 0 (float.mul st0 (float.powl (float.ofUInt64 2) (float.truncl st1)))
  else unimplemented

/-- `instruction_fpu_d9`; its exchange always takes `ST(1)`. -/
def instructionFPUD9 (op : DISASM) (modrm : U8) : Emulator F Unit :=
  if modrm ≤ 0xbf then memoryFormD9 op
  else if registerForm modrm=(0xc0,true) then do
    let registerName ← fpuRegisterFromArgtype op.Argument1.ArgType
    let v ← fpuRegister registerName
    pushReal v
  else if registerForm modrm=(0xc0,false) then do
    let st0 ← fpuRegister 0
    let st1 ← fpuRegister 1
    setFPURegister 0 st1
    setFPURegister 1 st0
  else registerFormD9 modrm

def instructionFPUDB (op : DISASM) (modrm : U8) : Emulator F Unit :=
  let regopcode := op.Reserved_.REGOPCODE
  if modrm ≤ 0xbf then
    if regopcode=0 then do
      setFPU FEFPU.decrementTop
      let v ← loadArgValue op.Argument2 (op.Instruction.Immediat.setWidth 32)
      setFPURegister 0 ((← float).ofUInt64 (v.setWidth 64))
    else if regopcode=3 then do
      let st0 ← fpuRegister 0
      let v := (← float).toUInt32 st0
      storeValueInArg op.Argument1 v
      popTagged
    else unimplemented
  else if modrm=0xe3 then setFPU FEFPU.fninit
  else unimplemented

section Reads
variable {R : FEProcess F→FEProcess F→Prop} [Std.Refl R]

theorem unimplemented_within : (unimplemented : Emulator F Unit).Within R := assert_within _

variable [IsTrans (FEProcess F) R]

theorem fpu_within : (fpu : Emulator F (FEFPU F)).Within R := .bind thread_within fun _ => .pure _

theorem fpuRegister_within (name : FEFPURegisterName) :
    (fpuRegister name : Emulator F F).Within R :=
  .bind fpu_within fun _ => .pure _

theorem float_within : (float : Emulator F (HostFloat F)).Within R :=
  .bind .environment fun _ => .pure _

theorem loadFloat_within (arg : ARGTYPE) : (loadFloat arg : Emulator F U32).Within R :=
  .bind (addressFromArgtype_within _) fun _ => .bind (load_within _) fun _ => .pure _

theorem loadDouble_within (arg : ARGTYPE) : (loadDouble arg : Emulator F (BitVec 64)).Within R :=
  .bind (addressFromArgtype_within _) fun _ => .bind (load_within _) fun _ => .pure _

end Reads

end FalloutEmu.Emulator
