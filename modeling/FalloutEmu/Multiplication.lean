import FalloutEmu.RegisterFile
import FalloutEmu.WordNumbers

/-! # Multiplication -/
namespace FalloutEmu.Multiplication
open Emulator
open WordNumbers
open FEProcess (ChangesOnly changesOnly_write changesOnly_write_pair withOperands)
variable {F : Type}

/-- `fe_threadContext_imul32` or `fe_threadContext_mul32`. -/
def product (signed : Bool) : FEThreadContext F→U32→U32→FEBitWidth→BitVec 64×FEThreadContext F :=
  if signed then FEThreadContext.imul32 else FEThreadContext.mul32

structure Reports (flags : FECPUFlags) (overflow : Prop) {n : ℕ} (truncated : BitVec n) : Prop where
  CF : flags.CF=1 ↔ overflow
  OF : flags.OF=1 ↔ overflow
  SF : flags.SF=1 ↔ truncated.msb=true
  PF : flags.PF=1 ↔ X86.evenParity truncated=true

/-- `fe_cpuflags_fillParityFromByte` counts the bits. -/
theorem fillParityFromByte_PF (flags : FECPUFlags) (byte : U8) :
    (flags.fillParityFromByte byte).PF=1 ↔ X86.evenParity byte=true := by
  have hbytes : ∀i : Fin 256,((default : FECPUFlags).fillParityFromByte (BitVec.ofNat 8 i)).PF=1 ↔
      X86.evenParity (BitVec.ofNat 8 i)=true := by
    decide +kernel
  have hbyte := hbytes byte.toFin
  rwa [BitVec.val_toFin,BitVec.ofNat_toNat,BitVec.setWidth_eq] at hbyte

theorem evenParity_setWidth {n : ℕ} (h : 8 ≤ n) (x : BitVec 64) :
    X86.evenParity (x.setWidth 8)=X86.evenParity (x.setWidth n) := by
  have hcount : X86.onesInLowByte (x.setWidth 8)=X86.onesInLowByte (x.setWidth n) := by
    apply List.countP_congr
    intro i hi
    have hlt : i<8 := List.mem_range.mp hi
    simp [hlt,hlt.trans_le h]
  rw [X86.evenParity,X86.evenParity,hcount]

theorem truncatedProduct_eq (result : BitVec 64) (width : FEBitWidth) :
    truncatedProduct result width=
      ((result.setWidth width.bits).signExtend 64,(result.setWidth width.bits).msb) := by
  cases width <;> rfl

theorem and_ne_zero_iff {n : ℕ} {mask : BitVec 64} (hmask : mask.toNat=2^n-1) (v : BitVec 64) :
    v&&&mask≠0 ↔ v.setWidth n≠0 := by
  rw [not_iff_not,BitVec.toNat_eq,BitVec.toNat_eq,BitVec.toNat_and,BitVec.toNat_setWidth,hmask,
    Nat.and_two_pow_sub_one_eq_mod]
  rfl

theorem upperHalf_ne_zero_iff (result : BitVec 64) (width : FEBitWidth) :
    FEThreadContext.upperHalf result width≠0 ↔ (result>>>width.bits).setWidth width.bits≠0 := by
  cases width <;> exact and_ne_zero_iff (by decide) _

section Product
variable {signed : Bool} {width : FEBitWidth} (x y : U32)

def result (signed : Bool) (width : FEBitWidth) (x y : U32) : BitVec 64 :=
  extend signed 64 (x.setWidth width.bits)*extend signed 64 (y.setWidth width.bits)

theorem number_result : number signed (result signed width x y)=
    number signed (x.setWidth width.bits)*number signed (y.setWidth width.bits) := by
  have hbits := width.bits_le
  exact number_extend_mul signed width.bits_pos (by omega) _ _

def overflowed (signed : Bool) (result : BitVec 64) (width : FEBitWidth) : Bool :=
  if signed then (result.setWidth width.bits).signExtend 64≠result
  else FEThreadContext.upperHalf result width≠0

theorem product_eq (signed : Bool) (threadContext : FEThreadContext F) (width : FEBitWidth) :
    product signed threadContext x y width=(result signed width x y,{ threadContext with
      cpuFlags := productFlags threadContext.cpuFlags (result signed width x y)
        (overflowed signed (result signed width x y) width)
          ((result signed width x y).setWidth width.bits).msb }) := by
  cases signed with
  | false =>
    have hextend (v : U32) : FEThreadContext.zeroExtend v width=
      (v.setWidth width.bits).setWidth 64 := by
      cases width with
      | k8bit | k16bit => rfl
      | k32bit => exact congrArg (BitVec.setWidth 64) (BitVec.setWidth_eq v).symm
    have hmul : product false threadContext x y width=threadContext.mul32 x y width := rfl
    rw [hmul]
    simp only [FEThreadContext.mul32,hextend,truncatedProduct_eq]
    rfl
  | true =>
    have hextend (v : U32) : signExtend v width=(v.setWidth width.bits).signExtend 64 := by
      cases width with
      | k8bit | k16bit => rfl
      | k32bit => exact congrArg (BitVec.signExtend 64) (BitVec.setWidth_eq v).symm
    have himul : product true threadContext x y width=threadContext.imul32 x y width := rfl
    rw [himul]
    simp only [FEThreadContext.imul32,hextend,truncatedProduct_eq]
    rfl

theorem number_halves (signed : Bool) (width : FEBitWidth) :
    number signed ((result signed width x y>>>width.bits).setWidth width.bits++
      (result signed width x y).setWidth width.bits)=
    number signed (x.setWidth width.bits)*number signed (y.setWidth width.bits) := by
  have hpos := width.bits_pos
  have hbits := width.bits_le
  rw [append_halves,number_setWidth (by omega),number_result]
  exact wrap_of_fits (by omega) (fits_mul signed hpos _ _)

theorem overflowed_iff (signed : Bool) (width : FEBitWidth) :
    overflowed signed (result signed width x y) width=true ↔
      ¬Fits signed width.bits (number signed (x.setWidth width.bits)*number signed
        (y.setWidth width.bits)) := by
  have hbits := width.bits_le
  cases signed with
  | false =>
    have hhigh := high_eq_signFill_iff false width.bits_pos
      ((result false width x y>>>width.bits).setWidth width.bits)
        ((result false width x y).setWidth width.bits)
    rw [number_halves] at hhigh
    rw [←hhigh,overflowed,if_neg Bool.false_ne_true,decide_eq_true_iff]
    exact upperHalf_ne_zero_iff _ width
  | true =>
    have hnumber : number true (((result true width x y).setWidth width.bits).signExtend 64)=
        wrap true width.bits (number true (result true width x y)) := by
      rw [←number_setWidth (by omega)]
      exact number_extend (by omega) _
    rw [overflowed,if_pos rfl,decide_eq_true_iff,←number_result,
      ←wrap_eq_self_iff true width.bits_pos,←hnumber,number_inj]

theorem product_run (signed : Bool) (width : FEBitWidth) (env : Environment F)
    (s : FEProcess F) : ∃flags,
    multiply (product signed) x y width env s=.ok (result signed width x y,s.withFlags flags) ∧
    Reports flags
      (¬Fits signed width.bits (number signed (x.setWidth width.bits)*number signed
        (y.setWidth width.bits)))
      ((result signed width x y).setWidth width.bits) := by
  have hparity := fillParityFromByte_PF s.currentThread.cpuFlags
    ((result signed width x y).setWidth 8)
  have hoverflow := overflowed_iff x y signed width
  rw [evenParity_setWidth width.eight_le_bits] at hparity
  refine ⟨productFlags s.currentThread.cpuFlags (result signed width x y)
    (overflowed signed (result signed width x y) width)
      ((result signed width x y).setWidth width.bits).msb,
    ?_,?_,?_,?_,hparity⟩
  · rw [multiply,product_eq]
    rfl
  · exact (ofBool_eq_one _).trans hoverflow
  · exact (ofBool_eq_one _).trans hoverflow
  · exact ofBool_eq_one _

end Product

section Accumulator
variable {op : DISASM} {env : Environment F} {s : FEProcess F} {signed : Bool}
  {width : FEBitWidth} {x y : U32}

/-- What `MUL` and `IMUL` of the accumulator leave. -/
structure FullProduct (signed : Bool) {width : FEBitWidth} (a b : BitVec width.bits)
    (s t : FEProcess F) :
    Prop where
  product : number signed (t.currentThread.pair width)=number signed a*number signed b
  flags : Reports t.currentThread.cpuFlags
    (t.currentThread.read width.extension width≠signFill signed
      (t.currentThread.read width.accumulator width))
    (t.currentThread.read width.accumulator width)
  unchanged : ChangesOnly [width.accumulator,width.extension] width
    (s.withFlags t.currentThread.cpuFlags) t

def storeHalves (s : FEProcess F) (width : FEBitWidth) (result : BitVec 64) : FEProcess F :=
  s.withThread ((s.currentThread.write width.accumulator (result.setWidth width.bits)).write
    width.extension
    ((result>>>width.bits).setWidth width.bits))

theorem instructionF6_run (h : IsGroup3 op (if signed then 5 else 4) .k8bit)
    (hx : loadArg1 op env s=.ok (x,s)) (hy : loadArg2 op env s=.ok (y,s)) {flags : FECPUFlags}
    (hproduct : multiply (product signed) x y .k8bit env s=.ok (result signed .k8bit x y,
      s.withFlags flags)) :
    instructionF6 op env s=
      .ok (.jumpToNextInstr,storeHalves (s.withFlags flags) .k8bit (result signed .k8bit x y)) := by
  have hbody : instructionF6 op=(multiplyByte (product signed) op : Emulator F Flow) := by
    cases signed <;> simp only [instructionF6,h.regopcode] <;> rfl
  have hsize : assert (op.Argument1.ArgSize=8) env s=.ok ((),s) :=
    assert_run (decide_eq_true h.argument1)
  have hwidth : bitWidth op.Argument1.ArgSize env s=.ok (.k8bit,s) :=
    h.argument1 ▸ bitWidth_run .k8bit
  rw [hbody,multiplyByte,Exec.bind_run hsize,Exec.bind_run hx,Exec.bind_run hy,Exec.bind_run hwidth,
    Exec.bind_run hproduct]
  have hstore : (s.withFlags flags).currentThread.setRegister16 .kAX
    ((result signed .k8bit x y).setWidth 16)=
      (storeHalves (s.withFlags flags) .k8bit (result signed .k8bit x y)).currentThread := by
    have hlow : ((result signed .k8bit x y).setWidth 16).setWidth 8=
      (result signed .k8bit x y).setWidth 8 :=
      BitVec.setWidth_setWidth_of_le _ (by decide)
    have hhigh : (((result signed .k8bit x y).setWidth 16)>>>8).setWidth 8=
        ((result signed .k8bit x y)>>>8).setWidth 8 := by
      apply BitVec.eq_of_toNat_eq
      simp only [BitVec.toNat_setWidth,BitVec.toNat_ushiftRight,Nat.shiftRight_eq_div_pow]
      omega
    rw [FEThreadContext.setRegister16_kAX,hlow,hhigh]
    rfl
  exact congrArg (fun thread => Except.ok (Flow.jumpToNextInstr,(s.withFlags flags).withThread
    thread)) hstore

theorem instructionF7_run (hwide : width≠.k8bit) (h : IsGroup3 op (if signed then 5 else 4) width)
    (hx : loadArg1 op env s=.ok (x,s)) (hy : loadArg2 op env s=.ok (y,s)) {flags : FECPUFlags}
    (hproduct : multiply (product signed) x y width env s=.ok (result signed width x y,
      s.withFlags flags)) :
    instructionF7 op env s=
      .ok (.jumpToNextInstr,storeHalves (s.withFlags flags) width (result signed width x y)) := by
  have hbody : instructionF7 op=(do
      assertSameSize op
      let _ ← loadArg2 op
      multiplyWord (product signed) op : Emulator F Flow) := by
    cases signed <;> simp only [instructionF7,h.regopcode] <;> rfl
  have hwidth : bitWidth op.Argument1.ArgSize env s=.ok (width,s) :=
    h.argument1 ▸ bitWidth_run width
  rw [hbody,Exec.bind_run h.sameSize,Exec.bind_run hy,multiplyWord,Exec.bind_run hx,
    Exec.bind_run hy,Exec.bind_run hwidth,Exec.bind_run hproduct,h.argument1]
  cases width with
  | k8bit => exact absurd rfl hwide
  | k16bit | k32bit => rfl

theorem execute_run (h : IsGroup3 op (if signed then 5 else 4) width)
    (hx : loadArg1 op env s=.ok (x,s)) (hy : loadArg2 op env s=.ok (y,s)) {flags : FECPUFlags}
    (hproduct : multiply (product signed) x y width env s=.ok (result signed width x y,
      s.withFlags flags)) :
    execute op env s=
      .ok (.jumpToNextInstr,storeHalves (s.withFlags flags) width (result signed width x y)) := by
  rw [h.execute]
  by_cases hwidth : width=.k8bit
  · subst hwidth
    exact instructionF6_run h hx hy hproduct
  · rw [if_neg hwidth]
    exact instructionF7_run hwidth h hx hy hproduct

theorem accumulator_product (h : IsGroup3 op (if signed then 5 else 4) width)
    (hx : loadArg1 op env s=.ok (x,s)) (hy : loadArg2 op env s=.ok (y,s)) :
    ∃t,execute op env s=.ok (.jumpToNextInstr,t) ∧
      FullProduct signed (x.setWidth width.bits) (y.setWidth width.bits) s t := by
  obtain ⟨flags,hproduct,hreports⟩ := product_run x y signed width env s
  refine ⟨_,execute_run h hx hy hproduct,?_⟩
  have hlow : (storeHalves (s.withFlags flags) width (result signed width x y)).currentThread.read
      width.accumulator width=(result signed width x y).setWidth width.bits := by
    show FEThreadContext.read (FEThreadContext.write _ _ _) _ _=_
    rw [FEThreadContext.read_write_of_apart _ width.extension_apart,FEThreadContext.read_write_self]
  have hhigh : (storeHalves (s.withFlags flags) width (result signed width x y)).currentThread.read
      width.extension width=(result signed width x y>>>width.bits).setWidth width.bits :=
    FEThreadContext.read_write_self _ _ _
  have hnumber := number_halves x y signed width
  have hoverflow := high_eq_signFill_iff signed width.bits_pos
    ((result signed width x y>>>width.bits).setWidth width.bits)
      ((result signed width x y).setWidth width.bits)
  rw [hnumber] at hoverflow
  refine ⟨?_,?_,changesOnly_write_pair (s.withFlags flags) _ _ _ _⟩
  · rw [FEThreadContext.pair,hlow,hhigh]
    exact hnumber
  · rw [hlow,hhigh,Ne,hoverflow]
    exact hreports

end Accumulator

section Truncating
variable {op : DISASM} {env : Environment F} {s : FEProcess F} {name : FERegisterName}
  {width : FEBitWidth}
  {x y : U32}

/-- What `IMUL` with two or three operands leaves. -/
structure TruncatedProduct (name : FERegisterName) {width : FEBitWidth} (a b : BitVec width.bits)
    (s t : FEProcess F) : Prop where
  product : t.currentThread.read name width=a*b
  flags : Reports t.currentThread.cpuFlags (¬Fits true width.bits (number true a*number true b))
    (a*b)
  unchanged : ChangesOnly [name] width (s.withFlags t.currentThread.cpuFlags) t

theorem setWidth_result : (result true width x y).setWidth width.bits=
    x.setWidth width.bits*y.setWidth width.bits := by
  have hbits : width.bits ≤ 64 := width.bits_le.trans (by decide)
  rw [result,BitVec.setWidth_mul _ _ hbits]
  congr 1 <;> (show (BitVec.signExtend 64 _).setWidth _=_) <;>
    rw [setWidth_signExtend hbits,BitVec.signExtend_eq]

def storeTruncated (s : FEProcess F) (flags : FECPUFlags) (name : FERegisterName)
    (width : FEBitWidth) (result : BitVec 64) : FEProcess F :=
  (s.withFlags flags).withThread ((s.withFlags flags).currentThread.write name
    ((result.setWidth 32).setWidth width.bits))

theorem truncatedProduct_of_run (s : FEProcess F) (name : FERegisterName) {flags : FECPUFlags}
    (hreports : Reports flags
      (¬Fits true width.bits (number true (x.setWidth width.bits)*number true
        (y.setWidth width.bits)))
      ((result true width x y).setWidth width.bits)) :
    TruncatedProduct name (x.setWidth width.bits) (y.setWidth width.bits) s
      (storeTruncated s flags name width (result true width x y)) where
  product := by
    show FEThreadContext.read (FEThreadContext.write _ _ _) _ _=_
    rw [FEThreadContext.read_write_self,BitVec.setWidth_setWidth_of_le _ width.bits_le,
      setWidth_result]
  flags := by
    rw [←setWidth_result]
    exact hreports
  unchanged := changesOnly_write (s.withFlags flags) name _

/-- `IMUL` with a destination register, as the decoder describes it. -/
structure IsImul (F : Type) (op : DISASM) (name : FERegisterName) (width : FEBitWidth) : Prop where
  category : op.Instruction.Category&&&GENERAL_PURPOSE_INSTRUCTION≠0
  destination : IsRegister F op.Argument1 name width
  source : op.Argument2.ArgSize=width.argSize

theorem imul_run (h : IsImul F op name width) (hy : loadArg2 op env s=.ok (y,s)) :
    ∃t,imul op env s=.ok (.jumpToNextInstr,t) ∧
      TruncatedProduct name (s.currentThread.read name width) (y.setWidth width.bits) s t := by
  obtain ⟨flags,hproduct,hreports⟩ :=
    product_run ((s.currentThread.read name width).setWidth 32) y true width env s
  have hwidth : bitWidth op.Argument1.ArgSize env s=.ok (width,s) :=
    h.destination.size ▸ bitWidth_run width
  change multiply FEThreadContext.imul32 _ _ _ _ _=_ at hproduct
  have hdestination : loadArg1 op env s=.ok ((s.currentThread.read name width).setWidth 32,s) :=
    h.destination.load _
  have htruncated := truncatedProduct_of_run s name hreports
  rw [width.setWidth_back] at htruncated
  refine ⟨_,?_,htruncated⟩
  rw [imul,Exec.bind_run hdestination,Exec.bind_run hy,Exec.bind_run hwidth,
    Exec.bind_run hproduct,Exec.bind_run (h.destination.store _)]
  rfl

theorem imulImmediate_run {immediateWidth : FEBitWidth} (h : IsImul F op name width)
    (hthird : op.Reserved_.third_arg≠0) (himmediate : IsImmediate op.Argument3 immediateWidth)
    (hx : loadArg2 op env s=.ok (x,s)) :
    ∃t,imulImmediate op env s=.ok (.jumpToNextInstr,t) ∧
      TruncatedProduct name (x.setWidth width.bits)
        ((op.Instruction.Immediat.setWidth immediateWidth.bits).signExtend width.bits) s t := by
  have hload : loadArgValue op.Argument3 (op.Instruction.Immediat.setWidth 32) env s=
      .ok ((op.Instruction.Immediat.setWidth immediateWidth.bits).signExtend 32,s) := by
    rw [himmediate.load,BitVec.setWidth_setWidth_of_le _ immediateWidth.bits_le]
  obtain ⟨flags,hproduct,hreports⟩ := product_run x
    ((op.Instruction.Immediat.setWidth immediateWidth.bits).signExtend 32) true width env s
  have hwidth : bitWidth op.Argument2.ArgSize env s=.ok (width,s) := h.source ▸ bitWidth_run width
  change multiply FEThreadContext.imul32 _ _ _ _ _=_ at hproduct
  have hdestination : loadArg1 op env s=.ok ((s.currentThread.read name width).setWidth 32,s) :=
    h.destination.load _
  have htruncated := truncatedProduct_of_run s name hreports
  rw [setWidth_signExtend width.bits_le] at htruncated
  refine ⟨_,?_,htruncated⟩
  rw [imulImmediate,if_neg hthird,Exec.bind_run hdestination,Exec.bind_run hx,Exec.bind_run hload,
    Exec.bind_run hwidth,Exec.bind_run hproduct,Exec.bind_run (h.destination.store _)]
  rfl

theorem execute_imul (h : IsImul F op name width) (hopcode : op.Instruction.Opcode=0xfaf) :
    (execute op : Emulator F Flow)=imul op := execute_of_opcode h.category hopcode rfl

theorem execute_imulImmediate (h : IsImul F op name width)
    (hopcode : op.Instruction.Opcode=0x69 ∨ op.Instruction.Opcode=0x6b) :
    (execute op : Emulator F Flow)=imulImmediate op := by
  rcases hopcode with hopcode | hopcode <;> exact execute_of_opcode h.category hopcode rfl

end Truncating

/-- `MUL` and `IMUL` in all of their forms. -/
theorem multiplication (env : Environment F) (s : FEProcess F) (op : DISASM) (width : FEBitWidth) :
    (∀signed x y,IsGroup3 op (if signed then 5 else 4) width→
      loadArg1 op env s=.ok (x,s)→loadArg2 op env s=.ok (y,s)→
      ∃t,execute op env s=.ok (.jumpToNextInstr,t) ∧
        FullProduct signed (x.setWidth width.bits) (y.setWidth width.bits) s t) ∧
    (∀name y,IsImul F op name width→
      op.Instruction.Opcode=0xfaf ∨
        (op.Instruction.Opcode=0x69 ∨ op.Instruction.Opcode=0x6b) ∧ op.Reserved_.third_arg=0→
      loadArg2 op env s=.ok (y,s)→
      ∃t,execute op env s=.ok (.jumpToNextInstr,t) ∧
        TruncatedProduct name (s.currentThread.read name width) (y.setWidth width.bits) s t) ∧
    ∀name x immediateWidth,IsImul F op name width→
      op.Instruction.Opcode=0x69 ∧ immediateWidth=width ∨ op.Instruction.Opcode=0x6b ∧
      immediateWidth=.k8bit→
      op.Reserved_.third_arg≠0→IsImmediate op.Argument3 immediateWidth→loadArg2 op env s=.ok (x,s)→
      ∃t,execute op env s=.ok (.jumpToNextInstr,t) ∧
        TruncatedProduct name (x.setWidth width.bits)
          ((op.Instruction.Immediat.setWidth immediateWidth.bits).signExtend width.bits) s t := by
  refine ⟨?_,?_,?_⟩
  · intro signed x y h hx hy
    exact accumulator_product h hx hy
  · intro name y h hopcode hy
    rcases hopcode with hopcode | ⟨hopcode,hthird⟩
    · rw [execute_imul h hopcode]
      exact imul_run h hy
    · rw [execute_imulImmediate h hopcode,imulImmediate,if_pos hthird]
      exact imul_run h hy
  · intro name x immediateWidth h hopcode hthird himmediate hx
    rw [execute_imulImmediate h (hopcode.imp And.left And.left)]
    exact imulImmediate_run h hthird himmediate hx

def imulEAX (immediat : BitVec 64) : DISASM :=
  { (default : DISASM) with
    Instruction := { (default : INSTRTYPE) with
      Category := GENERAL_PURPOSE_INSTRUCTION
      Opcode := 0x6b
      Immediat := immediat }
    Argument1 := { (default : ARGTYPE) with
      ArgType := REGISTER_TYPE+GENERAL_REG+REG0,ArgSize := 32 }
    Argument2 := { (default : ARGTYPE) with ArgType := REGISTER_TYPE+GENERAL_REG+2,ArgSize := 32 }
    Argument3 := { (default : ARGTYPE) with ArgType := CONSTANT_TYPE,ArgSize := 8 }
    Reserved_ := { (default : InternalDatas) with third_arg := 1 } }

theorem imulEAX_isImul (immediat : BitVec 64) :
    IsImul Unit (imulEAX immediat) FEBitWidth.k32bit.accumulator .k32bit :=
  ⟨(by decide : GENERAL_PURPOSE_INSTRUCTION&&&GENERAL_PURPOSE_INSTRUCTION≠0),
    .accumulator rfl rfl rfl,rfl⟩

theorem multiplication_ecx :
    (∃t,execute (group3OnECX 4 .k32bit) (.bare .debug) (withOperands [0xff] [2] [])=
      .ok (.jumpToNextInstr,t) ∧
      FullProduct false (0xff : BitVec FEBitWidth.k32bit.bits) (2 : BitVec FEBitWidth.k32bit.bits)
        (withOperands [0xff] [2] []) t) ∧
    ∃t,execute (imulEAX 0xff) (.bare .debug) (withOperands [] [2] [])=.ok (.jumpToNextInstr,t) ∧
      TruncatedProduct .kEAX (2 : BitVec FEBitWidth.k32bit.bits)
      (0xffffffff : BitVec FEBitWidth.k32bit.bits)
        (withOperands [] [2] []) t :=
  ⟨(multiplication (.bare .debug) (withOperands [0xff] [2] []) (group3OnECX 4 .k32bit) .k32bit).1
    false 0xff 2
      (group3OnECX_isGroup3 4 .k32bit) rfl rfl,
    (multiplication (.bare .debug) (withOperands [] [2] []) (imulEAX 0xff) .k32bit).2.2
      .kEAX 2 .k8bit
      (imulEAX_isImul 0xff) (.inr ⟨rfl,rfl⟩) (by decide)
      ⟨(by decide : ¬CONSTANT_TYPE&&&REGISTER_TYPE≠0),(by decide : ¬CONSTANT_TYPE&&&MEMORY_TYPE≠0),
        (by decide : CONSTANT_TYPE&&&CONSTANT_TYPE≠0),rfl⟩ rfl⟩

end FalloutEmu.Multiplication
