import FalloutEmu.Host
import Mathlib.Algebra.GroupWithZero.Nat

/-! # The x87 register stack -/
namespace FalloutEmu

/-- The host's floating-point operations on `long double`, here `F`; a `float` and a `double` are
their bit patterns. -/
structure HostFloat (F : Type) where
  add : F→F→F
  sub : F→F→F
  mul : F→F→F
  div : F→F→F
  neg : F→F
  fabsl : F→F
  powl : F→F→F
  log2l : F→F
  truncl : F→F
  lt : F→F→Bool
  ofUInt64 : BitVec 64→F
  toUInt64 : F→BitVec 64
  toUInt32 : F→U32
  ofFloat : U32→F
  toFloat : F→U32
  ofDouble : BitVec 64→F
  toDouble : F→BitVec 64
  doubleOfFloat : U32→BitVec 64
  floatAdd : U32→U32→U32
  floatSub : U32→U32→U32
  floatDiv : U32→U32→U32
  doubleSub : BitVec 64→BitVec 64→BitVec 64
  log2e : F
  ln2 : F
  deriving Inhabited

abbrev FEFPURegisterName := Fin 8

instance eight_neZero : NeZero 8 := ⟨by decide⟩

inductive FEFPUTag where
  | kValid
  | kZero
  | kSpecial
  | kEmpty
  deriving DecidableEq,Repr

def FEFPUTag.number : FEFPUTag→U16
  | kValid => 0
  | kZero => 1
  | kSpecial => 2
  | kEmpty => 3

inductive FEFPUFlag where
  | kC0
  | kC1
  | kC2
  | kC3
  deriving DecidableEq,Repr

def FEFPUFlag.bit : FEFPUFlag→ℕ
  | kC0 => 8
  | kC1 => 9
  | kC2 => 10
  | kC3 => 14

structure FEFPU (F : Type) where
  controlWord : U16
  statusWord : U16
  tagWord : U16
  instructionPointerOffset : U32
  instructionPointerSelector : U32
  operandPointerOffset : U32
  operandPointerSelector : U32
  data : Fin 8→F
  deriving Inhabited

namespace FEFPU
variable {F : Type}

def top (fpu : FEFPU F) : U8 := (fpu.statusWord>>>11&&&7).setWidth 8

def setFlag (fpu : FEFPU F) (flag : FEFPUFlag) : FEFPU F :=
  { fpu with statusWord := fpu.statusWord|||(1 : U16)<<<flag.bit }

def clearFlag (fpu : FEFPU F) (flag : FEFPUFlag) : FEFPU F :=
  { fpu with statusWord := fpu.statusWord&&&~~~((1 : U16)<<<flag.bit) }

def fninit (fpu : FEFPU F) : FEFPU F :=
  { fpu with
    controlWord := 0x37f
    statusWord := 0
    tagWord := 0xffff
    instructionPointerOffset := 0
    instructionPointerSelector := 0
    operandPointerOffset := 0
    operandPointerSelector := 0 }

def setTag (fpu : FEFPU F) (registerName : FEFPURegisterName) (tag : FEFPUTag) : FEFPU F :=
  let tagWord := fpu.tagWord&&&~~~((3 : U16)<<<(2*registerName.val))
  { fpu with tagWord := tagWord|||tag.number<<<(2*registerName.val) }

/-- `fe_fpu_tag`; the tags of the registers above are not masked out. -/
def tag (fpu : FEFPU F) (registerName : FEFPURegisterName) : U16 :=
  fpu.tagWord>>>(2*registerName.val)

/-- The last two statements of `fe_fpu_decrementTop` and `fe_fpu_incrementTop`. -/
def setTop (fpu : FEFPU F) (top : U8) : FEFPU F :=
  { fpu with statusWord := fpu.statusWord&&&~~~((7 : U16)<<<11)|||(top&&&7).setWidth 16<<<11 }

/-- `fe_fpu_decrementTop`; the tag of `ST(0)` is cleared only when `TOP` does not wrap. -/
def decrementTop (fpu : FEFPU F) : FEFPU F :=
  if fpu.top=0 then fpu.setTop 7 else (fpu.setTag 0 .kEmpty).setTop (fpu.top-1)

def incrementTop (fpu : FEFPU F) : FEFPU F :=
  let top := fpu.top+1
  fpu.setTop (if top>7 then top-8 else top)

def offset (fpu : FEFPU F) (registerName : FEFPURegisterName) : FEFPURegisterName :=
  let offset := registerName.val+fpu.top.toNat
  Fin.ofNat 8 (if offset>7 then offset-8 else offset)

def register (fpu : FEFPU F) (registerName : FEFPURegisterName) : F :=
  fpu.data (fpu.offset registerName)

def setRegister (fpu : FEFPU F) (registerName : FEFPURegisterName) (v : F) : FEFPU F :=
  let offset := fpu.offset registerName
  let fpu := fpu.setTag offset .kValid
  { fpu with data := fun i => if i=offset then v else fpu.data i }

end FEFPU
end FalloutEmu
