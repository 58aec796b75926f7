import FalloutEmu.Frames
import FalloutEmu.RegisterFile

/-! # The names of a general register -/
namespace FalloutEmu
open ByteStore Emulator

namespace FERegisterName

/-- The table that `fe_threadContext_create` copies to `regMap`, in bytes from the field `eax`. -/
def pointers : List ℕ :=
  [0,0,0,0+1,
    4,4,4,4+1,
    8,8,8,8+1,
    12,12,12,12+1,
    16,16,
    20,20,
    24,24,
    28,28,
    32,32,
    36,38,40,42,44,46]

/-- The entries of the table stand in the order of the names. -/
theorem pointers_ctorIdx (name : FERegisterName) : pointers[name.ctorIdx]?=some name.regMap := by
  cases name <;> rfl

def whole : FERegisterName→FERegisterName
  | kEAX | kAX | kAL | kAH => kEAX
  | kEBX | kBX | kBL | kBH => kEBX
  | kECX | kCX | kCL | kCH => kECX
  | kEDX | kDX | kDL | kDH => kEDX
  | kESI | kSI => kESI
  | kEDI | kDI => kEDI
  | kEBP | kBP => kEBP
  | kESP | kSP => kESP
  | kEIP | kIP => kEIP
  | name => name

/-- The bits of that register below the part: 8 for `AH` and its kin. -/
def shift (name : FERegisterName) : ℕ := 8*(name.regMap-name.whole.regMap)

def general : FEBitWidth→List FERegisterName
  | .k8bit => [kAL,kCL,kDL,kBL,kAH,kCH,kDH,kBH]
  | .k16bit => [kAX,kCX,kDX,kBX,kSP,kBP,kSI,kDI]
  | .k32bit => [kEAX,kECX,kEDX,kEBX,kESP,kEBP,kESI,kEDI]

def segments : List FERegisterName := [kCS,kDS,kES,kFS,kGS,kSS]

/-- The decoder's bits select the name for the width. -/
def Selected (F : Type) (name : FERegisterName) (width : FEBitWidth) : Prop :=
  ∃argtype argposition,∃(env : Environment F) (s t : FEProcess F),
    registerFromArgtype argtype argposition width env s=.ok (name,t)

end FERegisterName

open FERegisterName

section Selection
variable {F : Type}

/-- No other name than a general register of the width is selected. -/
theorem registerFromArgtype_general (argtype argposition : U32) (width : FEBitWidth) :
    (registerFromArgtype argtype argposition width : Emulator F _).Returns (· ∈ general width) := by
  cases width with
  | k8bit =>
    exact .ite (firstRegister_returns argtype (by decide) 0)
      (.ite (firstRegister_returns argtype (by decide) 0) (.bind fun _ => .fail _))
  | k16bit | k32bit => exact .bind fun _ => firstRegister_returns argtype (by decide) 0

namespace FERegisterName
variable {name name' : FERegisterName} {width width' : FEBitWidth}

theorem Selected.mem (h : Selected F name width) : name∈general width := by
  obtain ⟨argtype,argposition,env,s,t,h⟩ := h
  exact registerFromArgtype_general argtype argposition width env s name t h

theorem whole_mem (h : name∈general width) : name.whole∈general .k32bit := by
  revert name
  cases width <;> decide

theorem within_whole (h : name∈general width) :
    8*name.regMap=8*name.whole.regMap+name.shift ∧ name.shift+width.bits ≤ 32 := by
  revert name
  cases width <;> decide

theorem general_apart : ∀name∈general .k32bit,∀name'∈general .k32bit,name≠name'→
    name.regMap+4 ≤ name'.regMap ∨ name'.regMap+4 ≤ name.regMap := by decide

theorem apart_of_ne (h : name∈general width) (h' : name'∈general width')
    (hne : name'.whole≠name.whole) :
    FEThreadContext.Apart name width name' width' := by
  have hstart := within_whole h
  have hstart' := within_whole h'
  have hbits : width.bits=8*width.bytes := rfl
  have hbits' : width'.bits=8*width'.bytes := rfl
  rcases general_apart _ (whole_mem h) _ (whole_mem h') hne.symm with hbelow|habove
  · exact Or.inl (by omega)
  · exact Or.inr (by omega)

theorem general_below : ∀name∈general .k32bit,name.regMap+4 ≤ 32 := by decide

/-- The general registers lie below `eip` and the segment registers. -/
theorem below_eip (h : name∈general width) : name.regMap+width.bytes ≤ 32 := by
  have hstart := within_whole h
  have hbits : width.bits=8*width.bytes := rfl
  have hbelow := general_below _ (whole_mem h)
  omega

theorem segments_above : ∀name∈segments,32 ≤ name.regMap := by decide

end FERegisterName
end Selection

namespace FEThreadContext
variable {F : Type} (threadContext : FEThreadContext F)
variable {name name' : FERegisterName} {width width' : FEBitWidth}

/-- A view is the run of bits that starts at its pointer. -/
theorem getLsbD_read (name : FERegisterName) (width : FEBitWidth) (i : ℕ) (h : i<width.bits) :
    (threadContext.read name width).getLsbD i=bit threadContext.registers (8*name.regMap+i) := by
  rw [read,BitVec.getLsbD_ofNat,testBit_value_readAt _ _ _ _ h]
  simp [h]

theorem getLsbD_register32 (name : FERegisterName) (i : ℕ) (h : i<32) :
    (threadContext.register32 name).getLsbD i=bit threadContext.registers (8*name.regMap+i) :=
  threadContext.getLsbD_read name .k32bit i h

theorem bit_write (name : FERegisterName) {width : FEBitWidth} (v : BitVec width.bits) (i : ℕ) :
    bit (threadContext.write name v).registers i=
      if 8*name.regMap ≤ i ∧ i<8*name.regMap+width.bits then v.getLsbD (i-8*name.regMap)
      else bit threadContext.registers i := by
  have hbits : 8*(name.regMap+width.bytes)=8*name.regMap+width.bits := Nat.mul_add 8 _ _
  rw [write,bit_writeAt_littleEndian,hbits]
  rfl

/-- A part of a register is a run of the bits of the register. -/
theorem read_eq_slice (h : name∈general width) :
    threadContext.read name width=(threadContext.register32 name.whole>>>name.shift).setWidth
      width.bits := by
  obtain ⟨hstart,hend⟩ := within_whole h
  apply BitVec.eq_of_getLsbD_eq
  intro i hi
  have hbit : name.shift+i<32 := by omega
  have hpos : 8*name.regMap+i=8*name.whole.regMap+(name.shift+i) := by omega
  rw [threadContext.getLsbD_read name width i hi,BitVec.getLsbD_setWidth,BitVec.getLsbD_ushiftRight,
    threadContext.getLsbD_register32 _ _ hbit,hpos]
  simp [hi]

/-- A write to a part replaces the part and leaves the rest of the register. -/
theorem getLsbD_write_whole (h : name∈general width) (v : BitVec width.bits) (i : ℕ) (hi : i<32) :
    ((threadContext.write name v).register32 name.whole).getLsbD i=
      if name.shift ≤ i ∧ i<name.shift+width.bits then v.getLsbD (i-name.shift)
      else (threadContext.register32 name.whole).getLsbD i := by
  obtain ⟨hstart,hend⟩ := within_whole h
  have hindex : 8*name.whole.regMap+i-8*name.regMap=i-name.shift := by omega
  have hslice : (8*name.regMap ≤ 8*name.whole.regMap+i ∧
    8*name.whole.regMap+i<8*name.regMap+width.bits) ↔
      (name.shift ≤ i ∧ i<name.shift+width.bits) := by omega
  rw [getLsbD_register32 _ _ _ hi,getLsbD_register32 _ _ _ hi,bit_write,hindex]
  simp only [hslice]

/-- What `fe_threadContext_setRegister` did to the registers, at the place that the table of
pointers has for the name. -/
structure Aliased (before after : FEThreadContext F) (name : FERegisterName)
    (width : FEBitWidth) (v : U32) :
    Prop where
  table : pointers[name.ctorIdx]?=some name.regMap
  same : after.register name width=(v.setWidth width.bits).setWidth 32
  overlapping : ∀name' width',Selected F name' width'→¬Apart name width name' width'→
    name'.whole=name.whole
  slice : ∀name' width',Selected F name' width'→name'.whole=name.whole→
    after.register name' width'=((after.register32 name.whole>>>name'.shift).setWidth
      width'.bits).setWidth 32
  rest : ∀i<32,¬(name.shift ≤ i ∧ i<name.shift+width.bits)→
    (after.register32 name.whole).getLsbD i=(before.register32 name.whole).getLsbD i
  others : ∀name' width',Selected F name' width'→name'.whole≠name.whole→
    after.register name' width'=before.register name' width'
  eip : after.eip=before.eip
  segments : ∀name'∈segments,after.register16 name'=before.register16 name'
  frame : after={ before with registers := after.registers }
  outside : ∀i,32 ≤ i→after.registers i=before.registers i

/-- `fe_threadContext_setRegister` changes the part that the name stands for and nothing else. -/
theorem setRegister_aliased (h : Selected F name width) (v : U32) :
    Aliased threadContext (threadContext.setRegister name v width) name width v := by
  rw [setRegister_eq_write]
  constructor
  case table => exact name.pointers_ctorIdx
  case same => rw [register_eq_read,read_write_self]
  case overlapping =>
    intro name' width' h' hoverlap
    by_contra hne
    exact hoverlap (apart_of_ne h.mem h'.mem hne)
  case slice =>
    intro name' width' h' hwhole
    rw [register_eq_read,read_eq_slice _ h'.mem,hwhole]
  case rest =>
    intro i hi hrest
    rw [getLsbD_write_whole _ h.mem _ _ hi,if_neg hrest]
  case others =>
    intro name' width' h' hne
    rw [register_eq_read,register_eq_read,read_write_of_apart _ (apart_of_ne h.mem h'.mem hne)]
  case eip =>
    have hapart : Apart name width .kEIP .k32bit := Or.inl (below_eip h.mem)
    exact read_write_of_apart threadContext hapart _
  case segments =>
    intro name' hname'
    have hapart : Apart name width name' .k16bit :=
      Or.inl ((below_eip h.mem).trans (segments_above _ hname'))
    exact read_write_of_apart threadContext hapart _
  case frame => rfl
  case outside =>
    intro i hi
    exact registers_write_of_outside threadContext (Or.inr ((below_eip h.mem).trans hi)) _

theorem setRegister_aliased_kAH :
    Aliased (default : FEThreadContext Unit)
    ((default : FEThreadContext Unit).setRegister .kAH 0x1234 .k8bit)
      .kAH .k8bit 0x1234 :=
  setRegister_aliased default
    ⟨REG0,1,.bare .debug,.ofRegisters (fun _ => 0),.ofRegisters (fun _ => 0),rfl⟩ 0x1234

end FEThreadContext
end FalloutEmu
