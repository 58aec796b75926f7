import FalloutEmu.Interpreter

/-! # The registers as views of their bytes -/
namespace FalloutEmu
open ByteStore

namespace FEBitWidth

def bytes : FEBitWidth→ℕ
  | k8bit => 1
  | k16bit => 2
  | k32bit => 4

def bits (width : FEBitWidth) : ℕ := 8*width.bytes

theorem bits_pos (width : FEBitWidth) : 0<width.bits := by cases width <;> decide

theorem bits_le (width : FEBitWidth) : width.bits ≤ 32 := by cases width <;> decide

def double : FEBitWidth→FEBitWidth
  | k8bit => k16bit
  | k16bit | k32bit => k32bit

theorem eight_le_bits (width : FEBitWidth) : 8 ≤ width.bits := by cases width <;> decide

def argSize (width : FEBitWidth) : U32 := BitVec.ofNat 32 width.bits

end FEBitWidth

namespace FEThreadContext
variable {F : Type}

def read (threadContext : FEThreadContext F) (name : FERegisterName) (width : FEBitWidth) :
    BitVec width.bits :=
  BitVec.ofNat width.bits (value (readAt threadContext.registers name.regMap width.bytes))

def write (threadContext : FEThreadContext F) (name : FERegisterName) {width : FEBitWidth}
    (v : BitVec width.bits) : FEThreadContext F :=
  { threadContext with
    registers := writeAt threadContext.registers name.regMap (littleEndian width.bytes v.toNat) }

theorem register_eq_read (threadContext : FEThreadContext F) (name : FERegisterName)
    (width : FEBitWidth) :
    threadContext.register name width=(threadContext.read name width).setWidth 32 := by
  cases width with
  | k8bit | k16bit => rfl
  | k32bit => exact (BitVec.setWidth_eq _).symm

theorem setRegister_eq_write (threadContext : FEThreadContext F) (name : FERegisterName) (v : U32)
    (width : FEBitWidth) :
    threadContext.setRegister name v width=threadContext.write name (v.setWidth width.bits) := by
  cases width with
  | k8bit | k16bit => rfl
  | k32bit =>
    have hv : v.setWidth FEBitWidth.k32bit.bits=v := BitVec.setWidth_eq v
    rw [hv]
    rfl

@[simp] theorem read_write_self (threadContext : FEThreadContext F) (name : FERegisterName)
    {width : FEBitWidth} (v : BitVec width.bits) :
    (threadContext.write name v).read name width=v := by
  have hread : readAt (threadContext.write name v).registers name.regMap width.bytes=
      littleEndian width.bytes v.toNat := by
    have hself := readAt_writeAt_self threadContext.registers name.regMap
      (littleEndian width.bytes v.toNat)
    rwa [length_littleEndian] at hself
  rw [read,hread]
  exact ofNat_value_littleEndian rfl v

@[simp] theorem register32_setRegister32_self (threadContext : FEThreadContext F)
    (name : FERegisterName) (v : U32) :
    (threadContext.setRegister32 name v).register32 name=v :=
  @read_write_self F threadContext name .k32bit v

def Apart (name : FERegisterName) (width : FEBitWidth) (name' : FERegisterName)
    (width' : FEBitWidth) : Prop :=
  name.regMap+width.bytes ≤ name'.regMap ∨ name'.regMap+width'.bytes ≤ name.regMap

theorem read_write_of_apart (threadContext : FEThreadContext F) {name name' : FERegisterName}
    {width width' : FEBitWidth} (h : Apart name width name' width') (v : BitVec width.bits) :
    (threadContext.write name v).read name' width'=threadContext.read name' width' := by
  have hread : readAt (threadContext.write name v).registers name'.regMap width'.bytes=
      readAt threadContext.registers name'.regMap width'.bytes := by
    apply readAt_writeAt_of_disjoint
    rwa [length_littleEndian]
  rw [read,hread]
  rfl

/-- A byte that belongs to none of the registers. -/
def Outside (names : List FERegisterName) (width : FEBitWidth) (i : ℕ) : Prop :=
  ∀name∈names,i<name.regMap ∨ name.regMap+width.bytes ≤ i

theorem registers_write_of_outside (threadContext : FEThreadContext F) {name : FERegisterName}
    {width : FEBitWidth} {i : ℕ} (h : i<name.regMap ∨ name.regMap+width.bytes ≤ i)
    (v : BitVec width.bits) :
    (threadContext.write name v).registers i=threadContext.registers i := by
  apply writeAt_apply_of_outside
  rwa [length_littleEndian]

theorem registers_setRegister32_of_outside (threadContext : FEThreadContext F)
    {name : FERegisterName} {i : ℕ} (h : Outside [name] .k32bit i) (v : U32) :
    (threadContext.setRegister32 name v).registers i=threadContext.registers i :=
  @registers_write_of_outside F threadContext name .k32bit i (h name (by simp)) v

end FEThreadContext

namespace FEProcess
variable {F : Type}

def withThread (s : FEProcess F) (threadContext : FEThreadContext F) : FEProcess F :=
  { s with currentThread := threadContext }

def withRegisters (s : FEProcess F) (registers : ℕ→U8) : FEProcess F :=
  s.withThread { s.currentThread with registers := registers }

def withFlags (s : FEProcess F) (cpuFlags : FECPUFlags) : FEProcess F :=
  s.withThread { s.currentThread with cpuFlags := cpuFlags }

structure ChangesOnly (names : List FERegisterName) (width : FEBitWidth)
    (s t : FEProcess F) : Prop where
  process : t=s.withRegisters t.currentThread.registers
  outside : ∀i,FEThreadContext.Outside names width i→t.currentThread.registers i=
    s.currentThread.registers i

theorem changesOnly_write (s : FEProcess F) (name : FERegisterName) {width : FEBitWidth}
    (v : BitVec width.bits) :
    ChangesOnly [name] width s (s.withThread (s.currentThread.write name v)) where
  process := rfl
  outside := fun _ hi => s.currentThread.registers_write_of_outside (hi name (by simp)) v

theorem changesOnly_write_pair (s : FEProcess F) (name name' : FERegisterName) {width : FEBitWidth}
    (v v' : BitVec width.bits) :
    ChangesOnly [name,name'] width s (s.withThread ((s.currentThread.write name v).write
      name' v')) where
  process := rfl
  outside := by
    intro i hi
    show ((s.currentThread.write name v).write name' v').registers i=_
    rw [FEThreadContext.registers_write_of_outside _ (hi name' (by simp)),
      FEThreadContext.registers_write_of_outside _ (hi name (by simp))]

end FEProcess

section Accumulator

namespace FEBitWidth

def accumulator : FEBitWidth→FERegisterName
  | k8bit => .kAL
  | k16bit => .kAX
  | k32bit => .kEAX

def extension : FEBitWidth→FERegisterName
  | k8bit => .kAH
  | k16bit => .kDX
  | k32bit => .kEDX

theorem accumulator_apart (width : FEBitWidth) :
    FEThreadContext.Apart width.accumulator width width.extension width := by
  cases width <;> exact Or.inl (by decide)

theorem extension_apart (width : FEBitWidth) :
    FEThreadContext.Apart width.extension width width.accumulator width :=
  (width.accumulator_apart).symm

end FEBitWidth

namespace FEThreadContext
variable {F : Type}

/-- `AX`, `DX:AX` or `EDX:EAX`. -/
def pair (threadContext : FEThreadContext F) (width : FEBitWidth) :
    BitVec (width.bits+width.bits) :=
  threadContext.read width.extension width++threadContext.read width.accumulator width

theorem toNat_pair (threadContext : FEThreadContext F) (width : FEBitWidth) :
    (threadContext.pair width).toNat=(threadContext.read width.extension width).toNat*2^width.bits+
      (threadContext.read width.accumulator width).toNat := by
  rw [pair,BitVec.toNat_append,←Nat.shiftLeft_add_eq_or_of_lt (BitVec.isLt _),Nat.shiftLeft_eq]

theorem toNat_pair_k8bit (threadContext : FEThreadContext F) :
    (threadContext.pair .k8bit).toNat=(threadContext.register16 .kAX).toNat := by
  have h₀ := (threadContext.registers 0).isLt
  have h₁ := (threadContext.registers 1).isLt
  rw [toNat_pair,register16,BitVec.toNat_ofNat]
  simp [read,FEBitWidth.bits,FEBitWidth.bytes,FEBitWidth.accumulator,FEBitWidth.extension,
    FERegisterName.regMap,readAt,value,List.range_succ]
  omega

/-- A write to `AX` is a write to `AL` and one to `AH`. -/
theorem setRegister16_kAX (threadContext : FEThreadContext F) (v : U16) :
    threadContext.setRegister16 .kAX v=
      (threadContext.write .kAL (show BitVec FEBitWidth.k8bit.bits from v.setWidth 8)).write .kAH
        (show BitVec FEBitWidth.k8bit.bits from (v>>>8).setWidth 8) := by
  have hbytes : littleEndian 2 v.toNat=
      littleEndian 1 (v.setWidth 8).toNat++littleEndian 1 ((v>>>8).setWidth 8).toNat := by
    simp only [littleEndian,List.cons_append,List.nil_append,List.cons.injEq,and_true]
    constructor
    · apply BitVec.eq_of_toNat_eq
      simp
    · apply BitVec.eq_of_toNat_eq
      simp [Nat.shiftRight_eq_div_pow]
  simp only [setRegister16,write,hbytes,writeAt_append]
  rfl

end FEThreadContext

end Accumulator

section Operands
open Emulator
variable {F : Type} {env : Environment F} {s : FEProcess F}

theorem Emulator.assert_run {condition : Bool} (h : condition=true) :
    assert condition env s=.ok ((),s) := by
  refine Exec.atomic_of_ok ?_
  rw [h,assertThat_true]
  rfl

theorem Emulator.assert_release {condition : Bool} (h : env.build=.release) :
    assert condition env s=.ok ((),s) := by
  refine Exec.atomic_of_ok ?_
  rw [h,assertThat_release]
  rfl

theorem Emulator.assert_stops {condition : Bool} (h : env.build=.debug) (hc : condition=false) :
    assert condition env s=.error (.assertion,s) := by
  refine Exec.atomic_of_error ?_
  rw [h,hc,assertThat_debug_false]
  rfl

theorem Emulator.bitWidth_run (width : FEBitWidth) :
    bitWidth width.argSize env s=.ok (width,s) := by
  cases width <;> rfl

theorem FEBitWidth.setWidth_back {width : FEBitWidth} (v : BitVec width.bits) :
    (v.setWidth 32).setWidth width.bits=v := by
  rw [BitVec.setWidth_setWidth_of_le _ width.bits_le,BitVec.setWidth_eq]

theorem FEBitWidth.signExtend_setWidth {width : FEBitWidth} (v : BitVec width.bits) :
    signExtend (v.setWidth 32) width=v.signExtend 64 := by
  have hback := FEBitWidth.setWidth_back v
  cases width with
  | k8bit | k16bit => exact congrArg (BitVec.signExtend 64) hback
  | k32bit => exact congrArg (BitVec.signExtend 64) (BitVec.setWidth_eq v)

theorem FEBitWidth.setWidth_setWidth {width : FEBitWidth} (v : BitVec width.bits) :
    (v.setWidth 32).setWidth 64=v.setWidth 64 := by
  have hlt := v.isLt.trans_le (Nat.pow_le_pow_right (by decide) width.bits_le)
  apply BitVec.eq_of_toNat_eq
  rw [BitVec.toNat_setWidth,BitVec.toNat_setWidth,BitVec.toNat_setWidth,Nat.mod_eq_of_lt hlt]

/-- The instructions of `0xf6` and `0xf7`, as the decoder describes them. -/
structure IsGroup3 (op : DISASM) (regopcode : U32) (width : FEBitWidth) : Prop where
  category : op.Instruction.Category&&&GENERAL_PURPOSE_INSTRUCTION≠0
  opcode : op.Instruction.Opcode=if width=.k8bit then 0xf6 else 0xf7
  regopcode : op.Reserved_.REGOPCODE=regopcode
  argument1 : op.Argument1.ArgSize=width.argSize
  argument2 : op.Argument2.ArgSize=width.argSize

theorem IsGroup3.execute {op : DISASM} {regopcode : U32} {width : FEBitWidth}
    (h : IsGroup3 op regopcode width) :
    (execute op : Emulator F Flow)=if width=.k8bit then instructionF6 op else instructionF7 op := by
  cases width <;> exact execute_of_opcode h.category h.opcode rfl

theorem IsGroup3.sameSize {op : DISASM} {regopcode : U32} {width : FEBitWidth}
    (h : IsGroup3 op regopcode width) : assertSameSize op env s=.ok ((),s) := by
  apply assert_run
  rw [h.argument1,h.argument2]
  exact decide_eq_true rfl

structure IsRegister (F : Type) (arg : ARGTYPE) (name : FERegisterName)
    (width : FEBitWidth) : Prop where
  register : arg.ArgType&&&REGISTER_TYPE≠0
  general : arg.ArgType&&&GENERAL_REG≠0
  size : arg.ArgSize=width.argSize
  names : ∀(env : Environment F) s,
    registerFromArgtype arg.ArgType arg.ArgPosition width env s=.ok (name,s)

namespace IsRegister
variable {arg : ARGTYPE} {name : FERegisterName} {width : FEBitWidth}

theorem load (h : IsRegister F arg name width) (immediat : U32) :
    loadArgValue arg immediat env s=.ok ((s.currentThread.read name width).setWidth 32,s) := by
  rw [loadArgValue,if_pos h.register,if_pos h.general,h.size,Exec.bind_run (bitWidth_run width),
    Exec.bind_run (h.names env s),←FEThreadContext.register_eq_read]
  rfl

theorem store (h : IsRegister F arg name width) (v : U32) :
    storeValueInArg arg v env s=
      .ok ((),s.withThread (s.currentThread.write name (v.setWidth width.bits))) := by
  rw [storeValueInArg,if_pos h.register,if_pos h.general,h.size,Exec.bind_run (bitWidth_run width),
    Exec.bind_run (h.names env s),←FEThreadContext.setRegister_eq_write]
  rfl

theorem accumulator (htype : arg.ArgType=REGISTER_TYPE+GENERAL_REG+REG0)
    (hposition : arg.ArgPosition=0) (hsize : arg.ArgSize=width.argSize) :
    IsRegister F arg width.accumulator width where
  register := htype ▸ (by decide : REGISTER_TYPE+GENERAL_REG+REG0&&&REGISTER_TYPE≠0)
  general := htype ▸ (by decide : REGISTER_TYPE+GENERAL_REG+REG0&&&GENERAL_REG≠0)
  size := hsize
  names := by
    intro env s
    rw [htype,hposition]
    have hposition : assert true env s=.ok ((),s) := assert_run rfl
    cases width with
    | k8bit => rfl
    | k16bit | k32bit => exact (Exec.bind_run hposition).trans rfl

end IsRegister

theorem setWidth_signExtend {n v k : ℕ} (h : k ≤ v) (x : BitVec n) :
    (x.signExtend v).setWidth k=x.signExtend k := by
  ext i hi
  have hv : i<v := hi.trans_le h
  simp [BitVec.getElem_signExtend,hv]

/-- An operand that is a constant of the instruction. -/
structure IsImmediate (arg : ARGTYPE) (width : FEBitWidth) : Prop where
  noRegister : ¬arg.ArgType&&&REGISTER_TYPE≠0
  noMemory : ¬arg.ArgType&&&MEMORY_TYPE≠0
  constant : arg.ArgType&&&CONSTANT_TYPE≠0
  size : arg.ArgSize=width.argSize

theorem IsImmediate.load {arg : ARGTYPE} {width : FEBitWidth} (h : IsImmediate arg width)
    (immediat : U32) :
    loadArgValue arg immediat env s=.ok ((immediat.setWidth width.bits).signExtend 32,s) := by
  have hvalue : (signExtend immediat width).setWidth 32=
    (immediat.setWidth width.bits).signExtend 32 := by
    cases width with
    | k8bit | k16bit => exact setWidth_signExtend (by decide) _
    | k32bit =>
      have hsame : immediat.setWidth FEBitWidth.k32bit.bits=immediat := BitVec.setWidth_eq immediat
      rw [hsame]
      exact setWidth_signExtend (by decide) _
  rw [loadArgValue,if_neg h.noRegister,if_neg h.noMemory,if_pos h.constant,h.size,
    Exec.bind_run (bitWidth_run width),hvalue]
  rfl

/-- A target that the decoder has computed from the address of the instruction. -/
structure IsRelative (op : DISASM) (target : U32) : Prop where
  relative : op.Argument1.ArgType&&&RELATIVE_≠0
  constant : op.Argument1.ArgType&&&CONSTANT_TYPE≠0
  size : op.Argument1.ArgSize=32
  target : op.Instruction.AddrValue.setWidth 32=target

theorem IsRelative.assertRelative_run {op : DISASM} {target : U32} (h : IsRelative op target) :
    assertRelative op env s=.ok ((),s) := by
  rw [assertRelative,Exec.bind_run (assert_run (decide_eq_true h.relative))]
  exact assert_run (decide_eq_true h.constant)

def group3OnECX (regopcode : U32) (width : FEBitWidth) : DISASM :=
  { (default : DISASM) with
    Instruction := { (default : INSTRTYPE) with
      Category := GENERAL_PURPOSE_INSTRUCTION
      Opcode := if width=.k8bit then 0xf6 else 0xf7 }
    Argument1 := { (default : ARGTYPE) with ArgType := REGISTER_TYPE+GENERAL_REG+REG0,ArgSize :=
      width.argSize }
    Argument2 := { (default : ARGTYPE) with ArgType := REGISTER_TYPE+GENERAL_REG+2,ArgSize :=
      width.argSize }
    Reserved_ := { (default : InternalDatas) with REGOPCODE := regopcode } }

theorem group3OnECX_isGroup3 (regopcode : U32) (width : FEBitWidth) :
    IsGroup3 (group3OnECX regopcode width) regopcode width :=
  ⟨(by decide : GENERAL_PURPOSE_INSTRUCTION&&&GENERAL_PURPOSE_INSTRUCTION≠0),rfl,rfl,rfl,rfl⟩

theorem group3OnECX_load (regopcode : U32) {width : FEBitWidth} {d : BitVec width.bits}
    (hd : s.currentThread.read .kECX width=d) :
    loadArg2 (group3OnECX regopcode width) env s=.ok (d.setWidth 32,s) := by
  have hload : (loadArg2 (group3OnECX regopcode width) : Emulator F U32)=(do
      let width ← bitWidth width.argSize
      register (← registerFromArgtype (REGISTER_TYPE+GENERAL_REG+2) 0 width) width) :=
    (if_pos (by decide : REGISTER_TYPE+GENERAL_REG+2&&&REGISTER_TYPE≠0)).trans
      (if_pos (by decide : REGISTER_TYPE+GENERAL_REG+2&&&GENERAL_REG≠0))
  rw [hload,Exec.bind_run (bitWidth_run width),←hd,←FEThreadContext.register_eq_read]
  cases width with
  | k8bit => rfl
  | k16bit | k32bit =>
    rw [Exec.bind_run (Exec.bind_run (assert_run rfl))]
    rfl

def FEProcess.ofRegisters (registers : ℕ→U8) : FEProcess Unit where
  memory := ⟨.create 0x1000,fun _ => 0⟩
  ldt := ⟨1,fun _ => 0⟩
  currentThread := { (default : FEThreadContext Unit) with registers := registers }
  importsProxy := none
  exit := false
  exitCode := 0
  instructionCounter := 0
  dummyOp := default
  op := .dummyOp
  len := 0
  modrm := 0

def FEProcess.withOperands (eax ecx edx : List U8) : FEProcess Unit :=
  .ofRegisters (writeAt (writeAt (writeAt (fun _ => 0) 0 eax) 8 ecx) 12 edx)

def Environment.bare (build : Build) : Environment Unit where
  build := build
  disasm := fun record _ => (record,0)
  float := default
  undefinedFlags := default
  executeFunction := fun _ => Exec.fail .exception

end Operands
end FalloutEmu
