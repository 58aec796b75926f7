import FalloutEmu.Process

/-! # The operands of a decoded instruction -/
namespace FalloutEmu

def GENERAL_PURPOSE_INSTRUCTION : U32 := 0x10000
def FPU_INSTRUCTION : U32 := 0x20000

def REGISTER_TYPE : U32 := 0x20000000
def MEMORY_TYPE : U32 := 0x40000000
def CONSTANT_TYPE : U32 := 0x80000000
def GENERAL_REG : U32 := 0x20000
def FPU_REG : U32 := 0x40000
def SPECIAL_REG : U32 := 0x400000
def SEGMENT_REG : U32 := 0x1000000
def RELATIVE_ : U32 := 0x4000000
def WRITE : U32 := 2
def REG0 : U32 := 1

namespace Emulator
variable {F : Type}

def firstRegister {α : Type} (argtype : U32) : List α→ℕ→Emulator F α
  | [],_ => throw
  | name::names,i => if argtype.getLsbD i then pure name else firstRegister argtype names (i+1)

def register32FromArgtype (argtype argposition : U32) : Emulator F FERegisterName := do
  assert (argposition=0)
  firstRegister argtype [.kEAX,.kECX,.kEDX,.kEBX,.kESP,.kEBP,.kESI,.kEDI] 0

def register16FromArgtype (argtype argposition : U32) : Emulator F FERegisterName := do
  assert (argposition=0)
  firstRegister argtype [.kAX,.kCX,.kDX,.kBX,.kSP,.kBP,.kSI,.kDI] 0

def register8FromArgtype (argtype argposition : U32) : Emulator F FERegisterName :=
  if argposition=0 then firstRegister argtype [.kAL,.kCL,.kDL,.kBL] 0
  else if argposition=1 then firstRegister argtype [.kAH,.kCH,.kDH,.kBH] 0
  else throw

def segRegisterFromArgtype (argtype : U32) : Emulator F FERegisterName :=
  firstRegister argtype [.kES,.kCS,.kSS,.kDS,.kFS,.kGS] 0

def fpuRegisterFromArgtype (argtype : U32) : Emulator F FEFPURegisterName := do
  assert (argtype&&&FPU_REG≠0)
  firstRegister argtype [0,1,2,3,4,5,6,7] 0

/-- `beu_seg_register_from_number`; the unused first entry of its table is `kEAX`. -/
def segRegisterFromNumber (number : U8) : Emulator F FERegisterName := do
  assert (number>0 ∧ number<7)
  match [FERegisterName.kEAX,.kES,.kDS,.kFS,.kGS,.kCS,.kSS][number.toNat]? with
  | some name => pure name
  | none => Exec.fail .outOfBounds

def registerFromArgtype (argtype argposition : U32) : FEBitWidth→Emulator F FERegisterName
  | .k8bit => register8FromArgtype argtype argposition
  | .k16bit => register16FromArgtype argtype argposition
  | .k32bit => register32FromArgtype argtype argposition

/-- A base or index register of an address, 0 where there is none. -/
def addressRegister (argtype : U32) : Emulator F U32 :=
  if argtype≠0 then do register32 (← register32FromArgtype argtype 0) else pure 0

def addressFromArgtype (addressArg : ARGTYPE) : Emulator F U32 := do
  let baseRegister ← addressRegister addressArg.Memory.BaseRegister
  let indexRegister ← addressRegister addressArg.Memory.IndexRegister
  let selector ← register16 (← segRegisterFromNumber (addressArg.SegmentReg.setWidth 8))
  let segAddress ← Exec.ofExcept ((← Exec.get).ldt.get selector.toNat)
  return segAddress+baseRegister+indexRegister*addressArg.Memory.Scale
    +addressArg.Memory.Displacement.setWidth 32

/-- The assertions of `beu_load_8bit`, `beu_store_8bit` and their kin. -/
def assertMemoryArg (addressArg : ARGTYPE) (size : U32) : Emulator F Unit := do
  assert (addressArg.ArgType&&&MEMORY_TYPE≠0)
  assert (addressArg.ArgSize=size)

/-- `beu_load`. -/
def loadArg (addressArg : ARGTYPE) : FEBitWidth→Emulator F U32
  | .k8bit => do
    assertMemoryArg addressArg 8
    let address ← addressFromArgtype addressArg
    return (← load fun memory => memory.value8AtAddress address).setWidth 32
  | .k16bit => do
    assertMemoryArg addressArg 16
    let address ← addressFromArgtype addressArg
    return (← load fun memory => memory.value16AtAddress address).setWidth 32
  | .k32bit => do
    assertMemoryArg addressArg 32
    let address ← addressFromArgtype addressArg
    load fun memory => memory.value32AtAddress address

/-- `beu_store`. -/
def storeArg (v : U32) (addressArg : ARGTYPE) : FEBitWidth→Emulator F Unit
  | .k8bit => do
    assertMemoryArg addressArg 8
    assert (addressArg.AccessMode=WRITE)
    let address ← addressFromArgtype addressArg
    store fun memory => memory.setValue8 address (v.setWidth 8)
  | .k16bit => do
    assertMemoryArg addressArg 16
    assert (addressArg.AccessMode=WRITE)
    let address ← addressFromArgtype addressArg
    store fun memory => memory.setValue16 address (v.setWidth 16)
  | .k32bit => do
    assertMemoryArg addressArg 32
    assert (addressArg.AccessMode=WRITE)
    let address ← addressFromArgtype addressArg
    store fun memory => memory.setValue32 address v

def loadArgValue (arg : ARGTYPE) (immediat : U32) : Emulator F U32 :=
  if arg.ArgType&&&REGISTER_TYPE≠0 then
    if arg.ArgType&&&GENERAL_REG≠0 then do
      let width ← bitWidth arg.ArgSize
      register (← registerFromArgtype arg.ArgType arg.ArgPosition width) width
    else if arg.ArgType&&&SEGMENT_REG≠0 then do
      let name ← segRegisterFromArgtype arg.ArgType
      register name (← bitWidth arg.ArgSize)
    else do
      assert false
      return 0
  else if arg.ArgType&&&MEMORY_TYPE≠0 then do loadArg arg (← bitWidth arg.ArgSize)
  else if arg.ArgType&&&CONSTANT_TYPE≠0 then do
    return (signExtend immediat (← bitWidth arg.ArgSize)).setWidth 32
  else do
    assert false
    return 0

def storeValueInArg (arg : ARGTYPE) (v : U32) : Emulator F Unit :=
  if arg.ArgType&&&REGISTER_TYPE≠0 then
    if arg.ArgType&&&GENERAL_REG≠0 then do
      let width ← bitWidth arg.ArgSize
      setRegister (← registerFromArgtype arg.ArgType arg.ArgPosition width) v width
    else if arg.ArgType&&&SEGMENT_REG≠0 then do
      let name ← segRegisterFromArgtype arg.ArgType
      setRegister name v (← bitWidth arg.ArgSize)
    else assert false
  else if arg.ArgType&&&MEMORY_TYPE≠0 then do storeArg v arg (← bitWidth arg.ArgSize)
  else assert false

section Reads
variable {R : FEProcess F→FEProcess F→Prop} [Std.Refl R] [IsTrans (FEProcess F) R]

theorem firstRegister_within {α : Type} (argtype : U32) (names : List α) (i : ℕ) :
    (firstRegister argtype names i : Emulator F α).Within R := by
  induction names generalizing i with
  | nil => exact throw_within
  | cons name names ih => exact .ite (.pure _) (ih (i+1))

theorem registerFromArgtype_within (argtype argposition : U32) (width : FEBitWidth) :
    (registerFromArgtype argtype argposition width : Emulator F _).Within R := by
  cases width with
  | k8bit => exact .ite (firstRegister_within _ _ _) (.ite (firstRegister_within _ _ _)
    throw_within)
  | k16bit => exact .bind (assert_within _) fun _ => firstRegister_within _ _ _
  | k32bit => exact .bind (assert_within _) fun _ => firstRegister_within _ _ _

theorem register32FromArgtype_within (argtype argposition : U32) :
    (register32FromArgtype argtype argposition : Emulator F _).Within R :=
  registerFromArgtype_within argtype argposition .k32bit

theorem fpuRegisterFromArgtype_within (argtype : U32) :
    (fpuRegisterFromArgtype argtype : Emulator F _).Within R :=
  .bind (assert_within _) fun _ => firstRegister_within _ _ _

theorem segRegisterFromNumber_within (number : U8) :
    (segRegisterFromNumber number : Emulator F _).Within R := by
  refine .bind (assert_within _) fun _ => ?_
  split
  · exact .pure _
  · exact .fail _

theorem addressRegister_within (argtype : U32) :
    (addressRegister argtype : Emulator F _).Within R :=
  .ite (.bind (register32FromArgtype_within _ _) fun _ => register32_within _) (.pure _)

theorem addressFromArgtype_within (addressArg : ARGTYPE) :
    (addressFromArgtype addressArg : Emulator F _).Within R :=
  .bind (addressRegister_within _) fun _ => .bind (addressRegister_within _) fun _ =>
    .bind (segRegisterFromNumber_within _) fun _ => .bind (register16_within _) fun _ =>
      .bind .get fun _ => .bind (.ofExcept _) fun _ => .pure _

theorem assertMemoryArg_within (addressArg : ARGTYPE) (size : U32) :
    (assertMemoryArg addressArg size : Emulator F _).Within R :=
  .bind (assert_within _) fun _ => assert_within _

theorem loadArg_within (addressArg : ARGTYPE) (width : FEBitWidth) :
    (loadArg addressArg width : Emulator F _).Within R := by
  cases width with
  | k8bit | k16bit =>
    exact .bind (assertMemoryArg_within _ _) fun _ => .bind (addressFromArgtype_within _) fun _ =>
      .bind (load_within _) fun _ => .pure _
  | k32bit =>
    exact .bind (assertMemoryArg_within _ _) fun _ => .bind (addressFromArgtype_within _) fun _ =>
      load_within _

theorem loadArgValue_within (arg : ARGTYPE) (immediat : U32) :
    (loadArgValue arg immediat : Emulator F _).Within R :=
  .ite
    (.ite
      (.bind (bitWidth_within _) fun _ => .bind (registerFromArgtype_within _ _ _) fun _ =>
        register_within _ _)
      (.ite
        (.bind (firstRegister_within _ _ _) fun _ => .bind (bitWidth_within _) fun _ =>
          register_within _ _)
        (.bind (assert_within _) fun _ => .pure _)))
    (.ite (.bind (bitWidth_within _) fun _ => loadArg_within _ _)
      (.ite (.bind (bitWidth_within _) fun _ => .pure _)
        (.bind (assert_within _) fun _ => .pure _)))

end Reads

end Emulator
end FalloutEmu
