import FalloutEmu.RegisterFile
import FalloutEmu.WordNumbers

/-! # The widening instructions -/
namespace FalloutEmu.SignExtension
open ByteStore
open Emulator
open WordNumbers
open FEThreadContext (Outside)
open FEProcess (ChangesOnly changesOnly_write withOperands)
variable {F : Type}

/-- The instructions that extend a signed operand; the destination of the immediate group is a
register or memory. -/
inductive Widening where
  | accumulator (source : FEBitWidth)
  | extension (width : FEBitWidth)
  | move (source width : FEBitWidth) (name : FERegisterName)
  | push
  | immediateGroup (width : FEBitWidth) (destination : Option FERegisterName)

def topOfStack (s : FEProcess F) : Except Stop U32 :=
  (s.currentThread.stack.localAddress s.currentThread.esp).map fun ptr =>
    BitVec.ofNat 32 (value (readAt s.memory.host ptr 4))

/-- What `instruction_83` does with its operands. -/
def groupOperation (op : DISASM) (width : FEBitWidth) (arg1Value arg2Value : U32) :
    Emulator F Flow :=
  match group1 op.Reserved_.REGOPCODE with
  | some instruction => do
    let result ← binary instruction arg1Value arg2Value width
    storeValueInArg op.Argument1 result
    return .jumpToNextInstr
  | none =>
    if op.Reserved_.REGOPCODE=7 then do
      let _ ← binary X86.sub arg1Value arg2Value width
      return .jumpToNextInstr
    else do
      assert false
      storeValueInArg op.Argument1 0
      return .jumpToNextInstr

def immediateByte (op : DISASM) : U8 := op.Instruction.Immediat.setWidth 8

def IsDestination (F : Type) (arg : ARGTYPE) (width : FEBitWidth) : Option FERegisterName→Prop
  | some name => IsRegister F arg name width
  | none => ¬arg.ArgType&&&REGISTER_TYPE≠0

def Decoded (F : Type) (op : DISASM) : Widening→Prop
  | .accumulator source => source≠.k32bit ∧ op.Instruction.Opcode=0x98 ∧ op.Argument1.ArgSize=
    source.double.argSize
  | .extension width => width≠.k8bit ∧ op.Instruction.Opcode=0x99 ∧ op.Argument1.ArgSize=
    width.argSize
  | .move source width name => source≠.k32bit ∧ source.bits ≤ width.bits ∧
    (op.Instruction.Opcode=0xfbe ∨ op.Instruction.Opcode=0xfbf) ∧ op.Argument2.ArgSize=
      source.argSize ∧
    IsRegister F op.Argument1 name width
  | .push => op.Instruction.Opcode=0x6a ∧ IsImmediate op.Argument2 .k8bit
  | .immediateGroup width destination => op.Instruction.Opcode=0x83 ∧
    IsImmediate op.Argument2 .k8bit ∧
    op.Argument1.ArgSize=width.argSize ∧ IsDestination F op.Argument1 width destination

/-- The destination has the number of the source, and nothing else changes. -/
def Preserves (env : Environment F) (op : DISASM) (s : FEProcess F) : Widening→Prop
  | .accumulator source => ∃t,execute op env s=.ok (.jumpToNextInstr,t) ∧
    (t.currentThread.read source.double.accumulator source.double).toInt=
      (s.currentThread.read source.accumulator source).toInt ∧
    ChangesOnly [source.double.accumulator] source.double s t
  | .extension width => ∃t,execute op env s=.ok (.jumpToNextInstr,t) ∧
    (t.currentThread.pair width).toInt=(s.currentThread.read width.accumulator width).toInt ∧
    ChangesOnly [width.extension] width s t
  | .move source width name => ∀v,loadArg2 op env s=.ok (v,s)→
    ∃t,execute op env s=.ok (.jumpToNextInstr,t) ∧
      (t.currentThread.read name width).toInt=(v.setWidth source.bits).toInt ∧
        ChangesOnly [name] width s t
  | .push => ∀flow t,execute op env s=.ok (flow,t)→
    (∃v,topOfStack t=.ok v ∧ v.toInt=(immediateByte op).toInt) ∧
    t.currentThread.cpuFlags=s.currentThread.cpuFlags ∧
    ∀i,Outside [.kESP] .k32bit i→t.currentThread.registers i=s.currentThread.registers i
  | .immediateGroup width destination =>
    (∃v : U32,(v.setWidth width.bits).toInt=(immediateByte op).toInt ∧
      ∀x,loadArg1 op env s=.ok (x,s)→execute op env s=groupOperation op width x v env s) ∧
    ∀flow t,execute op env s=.ok (flow,t)→
      ∀i,Outside destination.toList width i→t.currentThread.registers i=s.currentThread.registers i

section Accumulator
variable {op : DISASM} {env : Environment F} {s : FEProcess F}

theorem upper_and_setWidth {n v : ℕ} {mask : BitVec v} (hmask : ∀i<n,mask.getLsbD i=false)
    (x : BitVec n) :
    mask&&&x.setWidth v=0 := by
  apply BitVec.eq_of_getLsbD_eq
  intro i hi
  by_cases h : i<n
  · simp [hmask i h]
  · simp [BitVec.getLsbD_of_ge x i (by omega)]

theorem cbw_run {source : FEBitWidth} (hsource : source≠.k32bit)
    (hsize : op.Argument1.ArgSize=source.double.argSize) :
    cbw op env s=.ok (.jumpToNextInstr,s.withThread (s.currentThread.write source.double.accumulator
      (if (s.currentThread.read source.accumulator source).msb then 0
        else (s.currentThread.read source.accumulator source).setWidth source.double.bits))) := by
  cases source with
  | k32bit => exact absurd rfl hsource
  | k8bit =>
    have hmask : (0xff00 : U16)&&&(s.currentThread.register8 .kAL).setWidth 16=0 :=
      upper_and_setWidth (by decide) _
    have hbody : cbw op=(do
        let al ← register8 .kAL
        setRegister16 .kAX (if al.msb then 0xff00&&&al.setWidth 16 else al.setWidth 16)
        return .jumpToNextInstr : Emulator F Flow) := by
      rw [cbw,hsize]
      rfl
    rw [hbody]
    show Except.ok (Flow.jumpToNextInstr,s.withThread (s.currentThread.setRegister16 .kAX _))=_
    rw [hmask]
    rfl
  | k16bit =>
    have hmask : (0xffff0000 : U32)&&&(s.currentThread.register16 .kAX).setWidth 32=0 :=
      upper_and_setWidth (by decide) _
    have hbody : cbw op=(do
        let ax ← register16 .kAX
        setRegister32 .kEAX (if ax.msb then 0xffff0000&&&ax.setWidth 32 else ax.setWidth 32)
        return .jumpToNextInstr : Emulator F Flow) := by
      rw [cbw,hsize]
      rfl
    rw [hbody]
    show Except.ok (Flow.jumpToNextInstr,s.withThread (s.currentThread.setRegister32 .kEAX _))=_
    rw [hmask]
    rfl

theorem cwd_run {width : FEBitWidth} (hwide : width≠.k8bit)
    (hsize : op.Argument1.ArgSize=width.argSize) :
    cwd op env s=.ok (.jumpToNextInstr,s.withThread (s.currentThread.write width.extension
      (signFill true (s.currentThread.read width.accumulator width)))) := by
  cases width with
  | k8bit => exact absurd rfl hwide
  | k16bit =>
    have hbody : cwd op=(do
        let ax ← register16 .kAX
        setRegister16 .kDX (if ax.msb then 0xffff else 0)
        return .jumpToNextInstr : Emulator F Flow) := by
      rw [cwd,hsize]
      rfl
    rw [hbody]
    rfl
  | k32bit =>
    have hbody : cwd op=(do
        let eax ← register32 .kEAX
        setRegister32 .kEDX (if eax.msb then 0xffffffff else 0)
        return .jumpToNextInstr : Emulator F Flow) := by
      rw [cwd,hsize]
      rfl
    rw [hbody]
    rfl

theorem double_bits (source : FEBitWidth) : source.bits ≤ source.double.bits := by
  cases source <;> decide

theorem accumulator_preserves_iff {source : FEBitWidth}
    (hcategory : op.Instruction.Category&&&GENERAL_PURPOSE_INSTRUCTION≠0)
    (h : Decoded F op (.accumulator source)) :
    Preserves env op s (.accumulator source) ↔
    ¬(s.currentThread.read source.accumulator source).toInt<0 := by
  obtain ⟨hsource,hopcode,hsize⟩ := h
  have hrun : execute op env s=_ :=
    (congrFun (congrFun (execute_of_opcode hcategory hopcode rfl) env) s).trans
      (cbw_run hsource hsize)
  have hmsb := BitVec.msb_eq_toInt (x:=s.currentThread.read source.accumulator source)
  constructor
  · rintro ⟨t,ht,hvalue,_⟩ hnegative
    rw [hrun] at ht
    cases ht
    have hread : ((s.currentThread.write source.double.accumulator
      (0 : BitVec source.double.bits)).read
        source.double.accumulator source.double).toInt=0 := by
      rw [FEThreadContext.read_write_self]
      exact BitVec.toInt_zero
    rw [hmsb,decide_eq_true hnegative,if_pos rfl] at hvalue
    have hzero := hread.symm.trans hvalue
    omega
  · intro hnonneg
    rw [hmsb,decide_eq_false hnonneg,if_neg Bool.false_ne_true] at hrun
    refine ⟨_,hrun,?_,changesOnly_write s _ _⟩
    have hextend := BitVec.signExtend_eq_setWidth_of_msb_false (v:=source.double.bits)
      (hmsb.trans (decide_eq_false hnonneg))
    show (FEThreadContext.read (FEThreadContext.write _ _ _) _ _).toInt=_
    rw [FEThreadContext.read_write_self,←hextend]
    exact BitVec.toInt_signExtend_of_le (double_bits source)

theorem extension_preserves {width : FEBitWidth}
    (hcategory : op.Instruction.Category&&&GENERAL_PURPOSE_INSTRUCTION≠0)
    (h : Decoded F op (.extension width)) : Preserves env op s (.extension width) := by
  obtain ⟨hwide,hopcode,hsize⟩ := h
  have hrun : execute op env s=_ :=
    (congrFun (congrFun (execute_of_opcode hcategory hopcode rfl) env) s).trans
      (cwd_run hwide hsize)
  refine ⟨_,hrun,?_,changesOnly_write s _ _⟩
  have hhigh : (s.currentThread.write width.extension
      (signFill true (s.currentThread.read width.accumulator width))).read width.extension width=
      signFill true (s.currentThread.read width.accumulator width) :=
        FEThreadContext.read_write_self _ _ _
  have hlow : (s.currentThread.write width.extension
      (signFill true (s.currentThread.read width.accumulator width))).read width.accumulator width=
      s.currentThread.read width.accumulator width :=
    FEThreadContext.read_write_of_apart _ width.extension_apart _
  show (FEThreadContext.pair (FEThreadContext.write _ _ _) _).toInt=_
  rw [FEThreadContext.pair,hhigh,hlow,(append_eq_extend_iff true _ _).mpr rfl]
  have hnumber : number true (extend true (width.bits+width.bits)
      (s.currentThread.read width.accumulator width))=
        number true (s.currentThread.read width.accumulator width) :=
    number_extend (Nat.le_add_left _ _) _
  exact hnumber

theorem move_preserves {source width : FEBitWidth} {name : FERegisterName}
    (hcategory : op.Instruction.Category&&&GENERAL_PURPOSE_INSTRUCTION≠0)
    (h : Decoded F op (.move source width name)) :
    Preserves env op s (.move source width name) := by
  obtain ⟨hsource,hwide,hopcode,hsize,hdestination⟩ := h
  intro v hv
  have hmovsx : (execute op : Emulator F Flow)=movsx op := by
    rcases hopcode with hopcode | hopcode <;> exact execute_of_opcode hcategory hopcode rfl
  have hextended : (signExtended v op.Argument2.ArgSize : Emulator F U32) env s=
      .ok ((v.setWidth source.bits).signExtend 32,s) := by
    rw [hsize]
    cases source with
    | k8bit | k16bit => rfl
    | k32bit => exact absurd rfl hsource
  have hrun : movsx op env s=.ok (.jumpToNextInstr,s.withThread (s.currentThread.write name
      (((v.setWidth source.bits).signExtend 32).setWidth width.bits))) := by
    rw [movsx,Exec.bind_run hv,Exec.bind_run hextended,Exec.bind_run (hdestination.store _)]
    rfl
  rw [hmovsx]
  refine ⟨_,hrun,?_,changesOnly_write s _ _⟩
  show (FEThreadContext.read (FEThreadContext.write _ _ _) _ _).toInt=_
  rw [FEThreadContext.read_write_self,setWidth_signExtend width.bits_le]
  exact BitVec.toInt_signExtend_of_le hwide

end Accumulator

section Immediate
variable {op : DISASM} {env : Environment F} {s : FEProcess F}

theorem setWidth_immediat (op : DISASM) : (op.Instruction.Immediat.setWidth 32).setWidth 8=
    immediateByte op :=
  BitVec.setWidth_setWidth_of_le _ (by decide)

theorem loadArg2_immediate (h : IsImmediate op.Argument2 .k8bit) :
    loadArg2 op env s=.ok ((immediateByte op).signExtend 32,s) := by
  rw [←setWidth_immediat]
  exact h.load _

theorem signExtend_byte (v : U8) : ((v.signExtend 32).setWidth 8).signExtend 32=
    v.signExtend 32 := by
  rw [setWidth_signExtend (by decide),BitVec.signExtend_eq]

theorem push32_top {v : U32} {t : FEProcess F} (h : push32 v env s=.ok ((),t)) :
    topOfStack t=.ok v ∧ t.currentThread.cpuFlags=s.currentThread.cpuFlags ∧
      ∀i,Outside [.kESP] .k32bit i→t.currentThread.registers i=s.currentThread.registers i := by
  have hstack : stackPush (fun build stack memory esp => stack.push32 build memory esp v) env s=
    .ok ((),t) := h
  obtain ⟨⟨stackPtr,memory⟩,hpush,ht⟩ := FalloutEmu.bind_eq_ok.mp (Exec.atomic_eq_ok.mp hstack)
  cases ht
  obtain ⟨_,_,hpush⟩ := FalloutEmu.bind_eq_ok.mp hpush
  obtain ⟨ptr,hptr,hpush⟩ := FalloutEmu.bind_eq_ok.mp hpush
  cases hpush
  have hesp : (s.currentThread.setRegister32 .kESP (s.currentThread.esp-4)).esp=
    s.currentThread.esp-4 := by simp
  have hread : readAt (writeAt s.memory.host ptr (littleEndian 4 v.toNat)) ptr 4=
    littleEndian 4 v.toNat := by
    have hself := readAt_writeAt_self s.memory.host ptr (littleEndian 4 v.toNat)
    rwa [length_littleEndian] at hself
  refine ⟨?_,rfl,?_⟩
  · have hptr' : (s.currentThread.setRegister32 .kESP (s.currentThread.esp-4)).stack.localAddress
        (s.currentThread.setRegister32 .kESP (s.currentThread.esp-4)).esp=.ok ptr := by
      rw [hesp]
      exact hptr
    show (FEStack.localAddress _ _).map _=_
    rw [hptr']
    show Except.ok (BitVec.ofNat 32 (value (readAt _ ptr 4)))=_
    rw [hread]
    exact congrArg Except.ok (ofNat_value_littleEndian (by decide : 32=8*4) v)
  · intro i hi
    exact s.currentThread.registers_setRegister32_of_outside hi _

theorem push_preserves (hcategory : op.Instruction.Category&&&GENERAL_PURPOSE_INSTRUCTION≠0)
    (h : Decoded F op .push) : Preserves env op s .push := by
  obtain ⟨hopcode,himmediate⟩ := h
  have hbody : execute op env s=
      (push32 ((immediateByte op).signExtend 32) >>= fun _ => pure Flow.jumpToNextInstr) env s := by
    have hwidth : bitWidth op.Argument2.ArgSize env s=.ok (.k8bit,s) :=
      himmediate.size ▸ bitWidth_run .k8bit
    have hpush (v : U8) : (push (v.signExtend 32) .k8bit : Emulator F Unit)=
      push32 (v.signExtend 32) := by
      show push32 (((v.signExtend 32).setWidth 8).signExtend 32)=_
      rw [signExtend_byte]
    have hselect : select generalBranches 0x6a=some (pushArg : DISASM→Emulator F Flow) := rfl
    rw [execute_of_opcode hcategory hopcode hselect,pushArg,
      Exec.bind_run (loadArg2_immediate himmediate),Exec.bind_run hwidth,hpush]
  intro flow t ht
  rw [hbody] at ht
  obtain ⟨_,u,hpush,ht⟩ := Exec.bind_eq_ok.mp ht
  cases ht
  obtain ⟨htop,hflags,hregisters⟩ := push32_top hpush
  exact ⟨⟨_,htop,BitVec.toInt_signExtend_of_le (by decide)⟩,hflags,hregisters⟩

def SameOutside (names : List FERegisterName) (width : FEBitWidth) (s t : FEProcess F) : Prop :=
  ∀i,Outside names width i→t.currentThread.registers i=s.currentThread.registers i

instance (names : List FERegisterName) (width : FEBitWidth) :
    Std.Refl (SameOutside (F:=F) names width) := ⟨fun _ _ _ => rfl⟩

instance (names : List FERegisterName) (width : FEBitWidth) :
    IsTrans (FEProcess F) (SameOutside names width) :=
  ⟨fun _ _ _ h₁ h₂ i hi => (h₂ i hi).trans (h₁ i hi)⟩

theorem binary_sameOutside (names : List FERegisterName) (width : FEBitWidth)
    (instruction : X86.BinaryInstruction) (arg1 arg2 : U32) (width' : FEBitWidth) :
    (binary instruction arg1 arg2 width' : Emulator F U32).Within (SameOutside names width) := by
  intro env s a t h i hi
  cases h
  cases width' <;> rfl

theorem storeArg_sameOutside (names : List FERegisterName) (width : FEBitWidth) (v : U32)
    (arg : ARGTYPE) (width' : FEBitWidth) :
    (storeArg v arg width' : Emulator F Unit).Within (SameOutside names width) := by
  have hstore (write : Memory DisasmContext→Except Stop (Memory DisasmContext)) :
      (store write : Emulator F Unit).Within (SameOutside names width) :=
    .bind .get fun _ => .bind (.ofExcept _) fun _ => .modify fun _ _ _ => rfl
  cases width' <;>
    exact .bind (assertMemoryArg_within _ _) fun _ => .bind (assert_within _) fun _ =>
      .bind (addressFromArgtype_within _) fun _ => hstore _

theorem storeValueInArg_sameOutside {arg : ARGTYPE} {width : FEBitWidth}
    {destination : Option FERegisterName} (h : IsDestination F arg width destination) (v : U32) :
    (storeValueInArg arg v : Emulator F Unit).Within (SameOutside destination.toList width) := by
  cases destination with
  | none =>
    rw [storeValueInArg,if_neg h]
    exact .ite (.bind (bitWidth_within _) fun _ => storeArg_sameOutside _ _ _ _ _) (assert_within _)
  | some name =>
    intro env s a t ht i hi
    rw [IsRegister.store h] at ht
    cases ht
    exact s.currentThread.registers_write_of_outside (hi name (by simp)) _

theorem groupOperation_sameOutside {width : FEBitWidth} {destination : Option FERegisterName}
    (h : IsDestination F op.Argument1 width destination) (arg1Value arg2Value : U32) :
    (groupOperation op width arg1Value arg2Value : Emulator F Flow).Within
      (SameOutside destination.toList width) := by
  rw [groupOperation]
  split
  · exact .bind (binary_sameOutside _ _ _ _ _ _) fun _ => .bind (storeValueInArg_sameOutside h _)
      fun _ => .pure _
  · exact .ite (.bind (binary_sameOutside _ _ _ _ _ _) fun _ => .pure _)
      (.bind (assert_within _) fun _ => .bind (storeValueInArg_sameOutside h _) fun _ => .pure _)

theorem immediateGroup_preserves {width : FEBitWidth} {destination : Option FERegisterName}
    (hcategory : op.Instruction.Category&&&GENERAL_PURPOSE_INSTRUCTION≠0)
    (h : Decoded F op (.immediateGroup width destination)) :
    Preserves env op s (.immediateGroup width destination) := by
  obtain ⟨hopcode,himmediate,hsize,hdestination⟩ := h
  have hbody : (execute op : Emulator F Flow)=(do
      assert (op.Argument2.ArgType&&&CONSTANT_TYPE≠0)
      assert (op.Argument2.ArgSize=8)
      let width ← bitWidth op.Argument1.ArgSize
      let arg1Value ← loadArg1 op
      let arg2Value ← loadArg2 op
      groupOperation op width arg1Value ((arg2Value.setWidth 8).signExtend 32)) :=
    execute_of_opcode hcategory hopcode rfl
  have hconstant : assert (op.Argument2.ArgType&&&CONSTANT_TYPE≠0) env s=.ok ((),s) :=
    assert_run (decide_eq_true himmediate.constant)
  have hbyte : assert (op.Argument2.ArgSize=8) env s=.ok ((),s) :=
    assert_run (decide_eq_true himmediate.size)
  have hwidth : bitWidth op.Argument1.ArgSize env s=.ok (width,s) := hsize ▸ bitWidth_run width
  refine ⟨⟨(immediateByte op).signExtend 32,?_,?_⟩,?_⟩
  · rw [setWidth_signExtend width.bits_le]
    exact BitVec.toInt_signExtend_of_le width.eight_le_bits
  · intro x hx
    rw [hbody,Exec.bind_run hconstant,Exec.bind_run hbyte,Exec.bind_run hwidth,Exec.bind_run hx,
      Exec.bind_run (loadArg2_immediate himmediate),signExtend_byte]
  · intro flow t ht
    rw [hbody,Exec.bind_run hconstant,Exec.bind_run hbyte,Exec.bind_run hwidth] at ht
    have hwithin : (loadArg1 op >>= fun arg1Value => loadArg2 op >>= fun arg2Value =>
        groupOperation op width arg1Value ((arg2Value.setWidth 8).signExtend 32) :
          Emulator F Flow).Within
        (SameOutside destination.toList width) :=
      .bind (loadArgValue_within _ _) fun _ => .bind (loadArgValue_within _ _) fun _ =>
        groupOperation_sameOutside hdestination _ _
    exact hwithin env s flow t ht

def NegativeAccumulator (s : FEProcess F) : Widening→Prop
  | .accumulator source => (s.currentThread.read source.accumulator source).toInt<0
  | _ => False

/-- Every widening instruction keeps the number of its operand, but for `CBW` and `CWDE` of a
negative operand. -/
theorem widening_preserves_iff (instruction : Widening)
    (hcategory : op.Instruction.Category&&&GENERAL_PURPOSE_INSTRUCTION≠0)
    (h : Decoded F op instruction) :
    Preserves env op s instruction ↔ ¬NegativeAccumulator s instruction := by
  cases instruction with
  | accumulator source => exact accumulator_preserves_iff hcategory h
  | extension width => exact iff_of_true (extension_preserves hcategory h) not_false
  | move source width name => exact iff_of_true (move_preserves hcategory h) not_false
  | push => exact iff_of_true (push_preserves hcategory h) not_false
  | immediateGroup width destination =>
    exact iff_of_true (immediateGroup_preserves hcategory h) not_false

def cwde : DISASM :=
  { (default : DISASM) with
    Instruction := { (default : INSTRTYPE) with
      Category := GENERAL_PURPOSE_INSTRUCTION,Opcode := 0x98 }
    Argument1 := { (default : ARGTYPE) with ArgSize := 32 } }

theorem widening_preserves_positive :
    Preserves (.bare .debug) cwde (withOperands [0x34,0x12] [] []) (.accumulator .k16bit) :=
  (widening_preserves_iff (.accumulator .k16bit)
    (by decide : GENERAL_PURPOSE_INSTRUCTION&&&GENERAL_PURPOSE_INSTRUCTION≠0)
    ⟨by decide,rfl,rfl⟩).mpr
    (by decide +kernel : ¬((withOperands [0x34,0x12] [] []).currentThread.read .kAX
      .k16bit).toInt<0)

/-- `cwde` of -1. -/
theorem widening_loses_sign :
    ¬Preserves (.bare .debug) cwde (withOperands [0xff,0xff] [] []) (.accumulator .k16bit) := by
  rintro ⟨t,ht,hvalue,_⟩
  cases ht
  revert hvalue
  decide +kernel

end Immediate

end FalloutEmu.SignExtension
