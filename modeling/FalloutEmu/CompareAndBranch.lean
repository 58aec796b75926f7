import FalloutEmu.ConditionCodes
import FalloutEmu.FPUOperands
import FalloutEmu.Frames
import FalloutEmu.Repetition

/-! # Floating-point comparisons and the branches on them -/
namespace FalloutEmu.CompareAndBranch
open Emulator RegisterStack
open ConditionCodes (code Branches WentTo)
open FPUOperands (NamesST fpuRegisterFromArgtype_run)
open FEThreadContext (Apart)
open Repetition (counted iteration_jump)
variable {F : Type} {env : Environment F} {s : FEProcess F} {op : DISASM}

/-- The comparisons of `ST(0)`: with a double, with a stack register, with `ST(1)` and with zero. -/
inductive Comparison where
  | fcom (m : BitVec 64)
  | fcomp (m : BitVec 64)
  | fcompST (i : FEFPURegisterName)
  | fcompp
  | ftst

namespace Comparison

def opcode : Comparison→U32
  | fcom _ | fcomp _ => 0xdc
  | fcompST _ => 0xd8
  | fcompp => 0xde
  | ftst => 0xd9

def Operands (env : Environment F) (s : FEProcess F) (op : DISASM) : Comparison→Prop
  | fcom m => s.modrm ≤ 0xbf ∧ op.Reserved_.REGOPCODE=2 ∧ loadDouble op.Argument2 env s=.ok (m,s)
  | fcomp m => s.modrm ≤ 0xbf ∧ op.Reserved_.REGOPCODE=3 ∧ loadDouble op.Argument2 env s=.ok (m,s)
  | fcompST i => s.modrm=0xd8+BitVec.ofNat 8 i.val ∧ NamesST op.Argument2.ArgType i
  | fcompp => s.modrm=0xd9
  | ftst => s.modrm=0xe4

def source (float : HostFloat F) (fpu : FEFPU F) : Comparison→F
  | fcom m | fcomp m => float.ofDouble m
  | fcompST i => fpu.register i
  | fcompp => fpu.register 1
  | ftst => float.ofUInt64 0

def pops : Comparison→Fin 8
  | fcom _ | ftst => 0
  | fcomp _ | fcompST _ => 1
  | fcompp => 2

def handler : Comparison→DISASM→U8→Emulator F Unit
  | fcom _ | fcomp _ => instructionFPUDC
  | fcompST _ => instructionFPUD8
  | fcompp => instructionFPUDE
  | ftst => instructionFPUD9

theorem select_opcode (comparison : Comparison) :
    select fpuBranches comparison.opcode=some (comparison.handler (F:=F)) := by
  cases comparison <;> rfl

/-- The instruction is the comparison, as the decoder describes it. -/
structure Decoded (env : Environment F) (s : FEProcess F) (op : DISASM)
    (comparison : Comparison) : Prop where
  notGeneral : op.Instruction.Category&&&GENERAL_PURPOSE_INSTRUCTION=0
  category : op.Instruction.Category&&&FPU_INSTRUCTION≠0
  opcode : op.Instruction.Opcode=comparison.opcode
  operands : comparison.Operands env s op

end Comparison

section StatusWord

def otherBits (fpu : FEFPU F) : U16 := fpu.statusWord&&&~~~(0x4700|||(7 : U16)<<<11)

/-- What a comparison makes of the status word, up to the pops behind it. -/
structure Compared [LinearOrder F] (st0 source : F) (before after : FEFPU F)
    (pops : Fin 8) : Prop where
  c0 : after.statusWord[8]=decide (st0<source)
  c3 : after.statusWord[14]=decide (st0=source)
  top : topCell after=topCell before+pops
  others : otherBits after=otherBits before

section Top
variable (fpu : FEFPU F) (top : U8)

theorem c0_setTop : (fpu.setTop top).statusWord[8]=fpu.statusWord[8] := by
  simp [FEFPU.setTop]

theorem c3_setTop : (fpu.setTop top).statusWord[14]=fpu.statusWord[14] := by
  simp [FEFPU.setTop]

theorem otherBits_setTop : otherBits (fpu.setTop top)=otherBits fpu := by
  ext i hi
  simp only [otherBits,FEFPU.setTop]
  interval_cases i <;> simp

end Top

theorem Compared.incrementTop [LinearOrder F] {st0 source : F} {before after : FEFPU F}
    {pops : Fin 8} (h : Compared st0 source before after pops) :
    Compared st0 source before after.incrementTop (pops+1) where
  c0 := (c0_setTop after _).trans h.c0
  c3 := (c3_setTop after _).trans h.c3
  top := by
    rw [topCell_incrementTop,h.top,add_assoc]
  others := (otherBits_setTop after _).trans h.others

section Flags
variable (fpu : FEFPU F) (flag : FEFPUFlag)

theorem getElem_setFlag {k : ℕ} (hk : k<16) :
    (fpu.setFlag flag).statusWord[k]=(fpu.statusWord[k] || decide (k=flag.bit)) := by
  cases flag <;> simp only [FEFPU.setFlag,FEFPUFlag.bit] <;> interval_cases k <;> simp

theorem getElem_clearFlag {k : ℕ} (hk : k<16) :
    (fpu.clearFlag flag).statusWord[k]=(fpu.statusWord[k] && decide (k≠flag.bit)) := by
  cases flag <;> simp only [FEFPU.clearFlag,FEFPUFlag.bit] <;> interval_cases k <;> simp

theorem otherBits_setFlag : otherBits (fpu.setFlag flag)=otherBits fpu := by
  ext i hi
  simp only [otherBits,FEFPU.setFlag]
  cases flag <;> interval_cases i <;> simp [FEFPUFlag.bit]

theorem otherBits_clearFlag : otherBits (fpu.clearFlag flag)=otherBits fpu := by
  ext i hi
  simp only [otherBits,FEFPU.clearFlag]
  cases flag <;> interval_cases i <;> simp [FEFPUFlag.bit]

end Flags

/-- Two flags set or cleared and `C1` and `C2` cleared make a comparison. -/
theorem compared_of_flags [LinearOrder F] {st0 source : F} {before after : FEFPU F}
    (hc0 : after.statusWord[8]=decide (st0<source)) (hc3 : after.statusWord[14]=decide (st0=source))
    (htop : after.top=before.top) (hothers : otherBits after=otherBits before) :
    Compared st0 source before after 0 where
  c0 := hc0
  c3 := hc3
  top := by rw [topCell,topCell,htop,add_zero]
  others := hothers

/-- The three outcomes set the flags of the table in the source. -/
theorem compareFlags_run [LinearOrder F] (hlt : ∀a b,env.float.lt a b=decide (a<b))
    (st0 source : F) :
    ∃fpu,compareFlags st0 source env s=.ok ((),s.withFPU fpu) ∧
      Compared st0 source s.currentThread.fpu fpu 0 := by
  refine ⟨_,rfl,?_⟩
  simp only [hlt,decide_eq_true_eq]
  rcases lt_trichotomy source st0 with h | h | h
  · rw [if_pos h]
    apply compared_of_flags
    · simp [getElem_clearFlag,FEFPUFlag.bit,h.le]
    · simp [getElem_clearFlag,FEFPUFlag.bit,h.ne']
    · simp only [top_clearFlag]
    · simp only [otherBits_clearFlag]
  · rw [if_neg h.not_lt,if_neg h.not_gt]
    apply compared_of_flags
    · simp [getElem_clearFlag,getElem_setFlag,FEFPUFlag.bit,h]
    · simp [getElem_setFlag,FEFPUFlag.bit,h]
    · simp only [top_setFlag,top_clearFlag]
    · simp only [otherBits_setFlag,otherBits_clearFlag]
  · rw [if_neg h.not_gt,if_pos h]
    apply compared_of_flags
    · simp [getElem_clearFlag,getElem_setFlag,FEFPUFlag.bit,h]
    · simp [getElem_clearFlag,FEFPUFlag.bit,h.ne]
    · simp only [top_setFlag,top_clearFlag]
    · simp only [otherBits_setFlag,otherBits_clearFlag]

end StatusWord

section Handlers
variable {comparison : Comparison}

theorem registerForm_fcomp : ∀i : FEFPURegisterName,¬(0xd8+BitVec.ofNat 8 i.val : U8) ≤ 0xbf ∧
    registerForm (0xd8+BitVec.ofNat 8 i.val)=(0xd0,false) := by
  decide

/-- Every comparison returns with its flags set and its pops made. -/
theorem compare_run [LinearOrder F] (hlt : ∀a b,env.float.lt a b=decide (a<b))
    (h : comparison.Decoded env s op) :
    ∃fpu,execute op env s=.ok (.jumpToNextInstr,s.withFPU fpu) ∧
      Compared (s.currentThread.fpu.register 0) (comparison.source env.float s.currentThread.fpu)
        s.currentThread.fpu fpu comparison.pops := by
  obtain ⟨hgeneral,hcategory,hopcode,hoperands⟩ := h
  suffices hbody : ∃fpu,comparison.handler op s.modrm env s=.ok ((),s.withFPU fpu) ∧
      Compared (s.currentThread.fpu.register 0) (comparison.source env.float s.currentThread.fpu)
        s.currentThread.fpu fpu comparison.pops by
    obtain ⟨fpu,hbody,hcompared⟩ := hbody
    exact ⟨fpu,execute_of_handler hgeneral hcategory hopcode comparison.select_opcode hbody,
      hcompared⟩
  obtain ⟨fpu,hrun,hcompared⟩ := compareFlags_run (s:=s) hlt (s.currentThread.fpu.register 0)
    (comparison.source env.float s.currentThread.fpu)
  have hst0 : ∀i,fpuRegister i env s=.ok (s.currentThread.fpu.register i,s) := fun _ => rfl
  have hfloat : float env s=.ok (env.float,s) := rfl
  cases comparison with
  | fcom m =>
    obtain ⟨hmemory,hregopcode,hload⟩ := hoperands
    refine ⟨fpu,?_,hcompared⟩
    rw [Comparison.handler,instructionFPUDC,if_pos hmemory,hregopcode]
    exact (Exec.bind_run (hst0 0)).trans <| (Exec.bind_run hload).trans <|
      (Exec.bind_run hfloat).trans <|
      (Exec.bind_run hrun).trans rfl
  | fcomp m =>
    obtain ⟨hmemory,hregopcode,hload⟩ := hoperands
    refine ⟨fpu.incrementTop,?_,hcompared.incrementTop⟩
    rw [Comparison.handler,instructionFPUDC,if_pos hmemory,hregopcode]
    exact (Exec.bind_run (hst0 0)).trans <| (Exec.bind_run hload).trans <|
      (Exec.bind_run hfloat).trans <|
      (Exec.bind_run hrun).trans rfl
  | fcompST i =>
    obtain ⟨hmodrm,hargument⟩ := hoperands
    obtain ⟨hregister,hform⟩ := registerForm_fcomp i
    rw [←hmodrm] at hregister hform
    refine ⟨fpu.incrementTop,?_,hcompared.incrementTop⟩
    rw [Comparison.handler,instructionFPUD8,if_neg hregister,if_neg (by rw [hform]; decide),
      if_pos hform,Exec.bind_run (fpuRegisterFromArgtype_run hargument)]
    exact (Exec.bind_run (hst0 0)).trans <| (Exec.bind_run (hst0 i)).trans <|
      (Exec.bind_run hrun).trans rfl
  | fcompp =>
    refine ⟨fpu.incrementTop.incrementTop,?_,hcompared.incrementTop.incrementTop⟩
    have hmodrm : s.modrm=0xd9 := hoperands
    rw [hmodrm]
    exact (Exec.bind_run (hst0 0)).trans <| (Exec.bind_run (hst0 1)).trans <|
      (Exec.bind_run hrun).trans rfl
  | ftst =>
    refine ⟨fpu,?_,hcompared⟩
    have hmodrm : s.modrm=0xe4 := hoperands
    rw [hmodrm]
    exact hrun

end Handlers

section Sequence

def ah (s : FEProcess F) : U8 := s.currentThread.register8 .kAH

/-- What the instructions of the sequence hand on to each other. -/
structure HandsOn (s t : FEProcess F) : Prop where
  fpu : t.currentThread.fpu=s.currentThread.fpu
  flags : t.currentThread.cpuFlags=s.currentThread.cpuFlags
  high : ah t=ah s

/-- The instruction returns to the jump to the next one, and wherever that jump succeeds the next
turn starts from a process with the property. -/
def After (env : Environment F) (op : DISASM) (s : FEProcess F) (P : FEProcess F→Prop) : Prop :=
  ∃t,execute op env s=.ok (.jumpToNextInstr,t) ∧
    ∀u,jumpToNextInstr env t=.ok ((),u)→P (counted u)

theorem jumpToNextInstr_handsOn {u : FEProcess F}
    (h : jumpToNextInstr env s=.ok ((),u)) : HandsOn s u := by
  obtain ⟨v,hthread⟩ := jumpToNextInstr_thread h
  refine ⟨?_,?_,?_⟩
  · rw [hthread]
    rfl
  · rw [hthread]
    rfl
  · have hapart : Apart .kEIP .k32bit .kAH .k8bit := Or.inr (by decide)
    rw [ah,hthread]
    exact FEThreadContext.read_write_of_apart s.currentThread hapart
      (show BitVec FEBitWidth.k32bit.bits from v)

theorem After.intro {P : FEProcess F→Prop} {t : FEProcess F}
    (hrun : execute op env s=.ok (.jumpToNextInstr,t)) (h : ∀u,HandsOn t u→P u) :
    After env op s P := by
  refine ⟨t,hrun,?_⟩
  intro u hu
  obtain ⟨hfpu,hflags,hhigh⟩ := jumpToNextInstr_handsOn hu
  exact h _ ⟨hfpu,hflags,hhigh⟩

/-- A turn of the loop leads from the start of one instruction to the start of the next. -/
theorem After.turn {P : FEProcess F→Prop} {u : FEProcess F} (h : After env op (counted s) P)
    (hop : s.op.deref s.memory s.dummyOp=.ok op) (hturn : Turn env s u) : P (counted u) := by
  obtain ⟨t,hrun,hnext⟩ := h
  exact hnext u ((iteration_jump hop hrun).symm.trans hturn.2)

structure IsFSTSW (op : DISASM) (modrm : U8) : Prop where
  notGeneral : op.Instruction.Category&&&GENERAL_PURPOSE_INSTRUCTION=0
  category : op.Instruction.Category&&&FPU_INSTRUCTION≠0
  opcode : op.Instruction.Opcode=0xdf
  modrm : modrm=0xe0

theorem fstsw_run (h : IsFSTSW op s.modrm) :
    execute op env s=.ok (.jumpToNextInstr,
      s.withThread (s.currentThread.setRegister16 .kAX s.currentThread.fpu.statusWord)) := by
  apply execute_of_handler h.notGeneral h.category h.opcode rfl
  rw [h.modrm]
  rfl

theorem ah_setRegister16 (s : FEProcess F) (v : U16) :
    ah (s.withThread (s.currentThread.setRegister16 .kAX v))=(v>>>8).setWidth 8 := by
  rw [FEThreadContext.setRegister16_kAX]
  exact FEThreadContext.read_write_self _ .kAH
    (show BitVec FEBitWidth.k8bit.bits from (v>>>8).setWidth 8)

structure IsSAHF (op : DISASM) : Prop where
  category : op.Instruction.Category&&&GENERAL_PURPOSE_INSTRUCTION≠0
  opcode : op.Instruction.Opcode=0x9e

/-- `SAHF` takes the carry from bit 0 of `AH` and the zero flag from bit 6. -/
theorem sahf_run (h : IsSAHF op) :
    ∃flags : FECPUFlags,execute op env s=.ok (.jumpToNextInstr,s.withFlags flags) ∧
      flags.CF=(ah s&&&1).setWidth 1 ∧ flags.ZF=(ah s>>>6&&&1).setWidth 1 := by
  have hbody : execute op=(sahf op : Emulator F Flow) := execute_of_opcode h.category h.opcode rfl
  rw [hbody]
  exact ⟨_,rfl,rfl,rfl⟩

end Sequence

section Branch

inductive Jump where
  | jb
  | jbe
  | je
  | jne
  | jae
  | ja

namespace Jump

def condition : Jump→X86.Condition
  | jb => .B
  | jbe => .BE
  | je => .E
  | jne => .NE
  | jae => .AE
  | ja => .A

def Holds [LinearOrder F] (st0 source : F) : Jump→Prop
  | jb => st0<source
  | jbe => st0 ≤ source
  | je => st0=source
  | jne => st0≠source
  | jae => source ≤ st0
  | ja => source<st0

end Jump

/-- A conditional jump, short or near, with the operand that its handler asserts. -/
structure IsJump (op : DISASM) (branch : Jump) : Prop where
  category : op.Instruction.Category&&&GENERAL_PURPOSE_INSTRUCTION≠0
  opcode : op.Instruction.Opcode∈[0x70+code branch.condition,0xf80+code branch.condition]
  relative : op.Argument1.ArgType&&&RELATIVE_≠0
  constant : op.Argument1.ArgType&&&CONSTANT_TYPE≠0
  size : op.Argument1.ArgSize=32

theorem IsJump.isRelative {branch : Jump} (h : IsJump op branch) :
    IsRelative op (branchTarget op) :=
  ⟨h.relative,h.constant,h.size,rfl⟩

theorem select_jump (branch : Jump) :
    ∀opcode∈[0x70+code branch.condition,0xf80+code branch.condition],
    select generalBranches opcode=some (jump (F:=F) fun flags => ConditionCodes.test flags
      branch.condition) := by
  cases branch
  case jae =>
    rw [Jump.condition,←ConditionCodes.jnc_eq]
    exact List.forall_mem_cons.mpr ⟨rfl,List.forall_mem_cons.mpr ⟨rfl,by simp⟩⟩
  all_goals exact List.forall_mem_cons.mpr ⟨rfl,List.forall_mem_cons.mpr ⟨rfl,by simp⟩⟩

theorem jump_branches {branch : Jump} (h : IsJump op branch) {p : Prop}
    (hp : ConditionCodes.test s.currentThread.cpuFlags branch.condition=true ↔ p) :
    Branches env s (execute op) (branchTarget op) p := by
  have hbody : execute op=(jump (fun flags => ConditionCodes.test flags branch.condition)
    op : Emulator F Flow) :=
    execute_of_opcode h.category rfl (select_jump branch _ h.opcode)
  rw [hbody]
  exact (ConditionCodes.jump_branches (fun _ => h.isRelative) _).congr hp

/-- Which branch is taken follows from the two flags. -/
theorem test_iff [LinearOrder F] {flags : FECPUFlags} {st0 source : F}
    (hcarry : flags.CF=1 ↔ st0<source) (hzero : flags.ZF=1 ↔ st0=source) (branch : Jump) :
    ConditionCodes.test flags branch.condition=true ↔ branch.Holds st0 source := by
  have hcarry' : flags.CF=0 ↔ ¬st0<source := by
    rw [←hcarry,ConditionCodes.eq_zero_iff,ConditionCodes.eq_one_iff,Bool.not_eq_true]
  have hzero' : flags.ZF=0 ↔ ¬st0=source := by
    rw [←hzero,ConditionCodes.eq_zero_iff,ConditionCodes.eq_one_iff,Bool.not_eq_true]
  cases branch with
  | jb => simp only [Jump.condition,ConditionCodes.test,Jump.Holds,decide_eq_true_eq,hcarry]
  | jbe => simp only [Jump.condition,ConditionCodes.test,Jump.Holds,decide_eq_true_eq,hcarry,hzero,
    le_iff_lt_or_eq]
  | je => simp only [Jump.condition,ConditionCodes.test,Jump.Holds,decide_eq_true_eq,hzero]
  | jne => simp only [Jump.condition,ConditionCodes.test,Jump.Holds,decide_eq_true_eq,hzero',ne_eq]
  | jae => simp only [Jump.condition,ConditionCodes.test,Jump.Holds,decide_eq_true_eq,
    hcarry',not_lt]
  | ja =>
    simp only [Jump.condition,ConditionCodes.test,Jump.Holds,decide_eq_true_eq,hcarry',
      hzero',not_lt]
    rw [lt_iff_le_and_ne,ne_comm]

/-- `C0` reaches the carry flag by way of bit 0 of `AH`. -/
theorem carry_iff (statusWord : U16) :
    ((statusWord>>>8).setWidth 8&&&1 : U8).setWidth 1=(1 : BitVec 1) ↔ statusWord[8]=true := by
  rw [ConditionCodes.eq_one_iff]
  simp

theorem zero_iff (statusWord : U16) :
    ((statusWord>>>8).setWidth 8>>>6&&&1 : U8).setWidth 1=(1 : BitVec 1) ↔ statusWord[14]=true := by
  rw [ConditionCodes.eq_one_iff]
  simp

end Branch

/-- The comparison makes its pops and changes no bit of the status word but `C0` to `C3` and `TOP`;
after it, `FSTSW AX` and `SAHF`, a branch goes to its target exactly when what it says holds of
`ST(0)` and the source, and changes nothing otherwise. -/
theorem compare_and_branch [LinearOrder F] {comparison : Comparison}
    (hlt : ∀a b,env.float.lt a b=decide (a<b)) (h : comparison.Decoded env s op) :
    (∃t,execute op env s=.ok (.jumpToNextInstr,t) ∧
      topCell t.currentThread.fpu=topCell s.currentThread.fpu+comparison.pops ∧
      otherBits t.currentThread.fpu=otherBits s.currentThread.fpu) ∧
    After env op s fun s₁ => ∀fstsw,IsFSTSW fstsw s₁.modrm→After env fstsw s₁ fun s₂ =>
      ∀sahf,IsSAHF sahf→After env sahf s₂ fun s₃ => ∀jump branch,IsJump jump branch→
        Branches env s₃ (execute jump) (branchTarget jump)
        (branch.Holds (s.currentThread.fpu.register 0)
          (comparison.source env.float s.currentThread.fpu)) := by
  obtain ⟨fpu,hcompare,hcompared⟩ := compare_run hlt h
  refine ⟨⟨_,hcompare,hcompared.top,hcompared.others⟩,.intro hcompare ?_⟩
  intro s₁ h₁ fstsw hfstsw
  refine .intro (fstsw_run hfstsw) ?_
  intro s₂ h₂ sahf hsahf
  obtain ⟨flags,hrun,hcarry,hzero⟩ := @sahf_run F env s₂ sahf hsahf
  refine .intro hrun ?_
  intro s₃ h₃ jump branch hjump
  have hfpu : s₁.currentThread.fpu=fpu := h₁.fpu
  have hah : ah s₂=(fpu.statusWord>>>8).setWidth 8 := by
    rw [h₂.high,ah_setRegister16,hfpu]
  have hflags : s₃.currentThread.cpuFlags=flags := h₃.flags
  apply jump_branches hjump
  rw [hflags]
  apply test_iff
  · rw [hcarry,hah,carry_iff,hcompared.c0,decide_eq_true_iff]
  · rw [hzero,hah,zero_iff,hcompared.c3,decide_eq_true_iff]

section Example

/-- `fcompp`, `fstsw ax`, `sahf` and `jb` to the address 0x80. -/
def sequenceHost : ℕ→U8 := fun a =>
  if a=0 then 0xde else if a=1 then 0xd9 else if a=2 then 0xdf else if a=3 then 0xe0
  else if a=4 then 0x9e else if a=5 then 0x72 else 0

def sequenceRecord (first : U8) (offset : ℕ) : DISASM :=
  { (default : DISASM) with
    EIP := offset
    VirtualAddr := BitVec.ofNat 64 offset
    Instruction := { (default : INSTRTYPE) with
      Category := if first<0xd8 then GENERAL_PURPOSE_INSTRUCTION else FPU_INSTRUCTION
      Opcode := first.setWidth 32
      AddrValue := 0x80 }
    Argument1 := { (default : ARGTYPE) with ArgType := CONSTANT_TYPE+RELATIVE_,ArgSize := 32 } }

def sequenceEnvironment : Environment ℤ :=
  { Environment.ofFloat { (default : HostFloat ℤ) with lt := fun a b => decide (a<b) } with
    disasm := fun record host =>
      (sequenceRecord (host record.EIP) record.EIP,if host record.EIP=0x9e then 1 else 2) }

/-- A writable page of code in which the comparison has just been fetched. -/
def sequenceStart : FEProcess ℤ :=
  { FEProcess.ofFPU FPUOperands.counted 0xd9 with
    memory := ⟨.ofBlocks [(⟨1,0,0x1000,0x1000,0,false,".text".toList⟩,.readWrite)],sequenceHost⟩
    dummyOp := sequenceRecord 0xde 0
    len := 2 }

set_option maxRecDepth 8000 in
/-- Three turns of the loop, with the instructions at their ends, and the fetch at the target of the
branch. -/
theorem sequence_run : ∃(u₁ u₂ u₃ : FEProcess ℤ) (fetched : Fetched),
    Turn sequenceEnvironment sequenceStart u₁ ∧ Turn sequenceEnvironment u₁ u₂ ∧
    Turn sequenceEnvironment u₂ u₃ ∧
      u₁.modrm=0xe0 ∧ u₁.op.deref u₁.memory u₁.dummyOp=.ok (sequenceRecord 0xdf 2) ∧
      u₂.op.deref u₂.memory u₂.dummyOp=.ok (sequenceRecord 0x9e 4) ∧
      FalloutEmu.updateDisasmFromContext .debug sequenceEnvironment.disasm u₃.memory u₃.dummyOp
        0x80=.ok fetched :=
  ⟨_,_,_,_,⟨rfl,rfl⟩,⟨rfl,rfl⟩,⟨rfl,rfl⟩,rfl,rfl,rfl,rfl⟩

/-- `ST(0)` is 2 and `ST(1)` is 3, and `jb` goes to its target; `jae` stays behind. -/
theorem compare_and_branch_fcompp : ∃u₁ u₂ u₃ t : FEProcess ℤ,
    Turn sequenceEnvironment sequenceStart u₁ ∧ Turn sequenceEnvironment u₁ u₂ ∧
    Turn sequenceEnvironment u₂ u₃ ∧
      execute (sequenceRecord 0x72 5) sequenceEnvironment (counted u₃)=.ok (.continueLoop,t) ∧
      t.currentThread.eip=0x80 ∧
      execute (sequenceRecord 0x73 5) sequenceEnvironment (counted u₃)=.ok (.jumpToNextInstr,
        counted u₃) := by
  obtain ⟨u₁,u₂,u₃,fetched,hturn₁,hturn₂,hturn₃,hmodrm,hop₁,hop₂,hfetch⟩ := sequence_run
  have hdecoded : Comparison.fcompp.Decoded sequenceEnvironment (counted sequenceStart)
    (sequenceRecord 0xde 0) :=
    ⟨by decide,by decide,rfl,rfl⟩
  have hlt : ∀a b,sequenceEnvironment.float.lt a b=decide (a<b) := fun _ _ => rfl
  have hafter := (compare_and_branch hlt hdecoded).2
  have hfstsw := hafter.turn rfl hturn₁ (sequenceRecord 0xdf 2) ⟨by decide,by decide,rfl,hmodrm⟩
  have hsahf := hfstsw.turn hop₁ hturn₂ (sequenceRecord 0x9e 4) ⟨by decide,rfl⟩
  have hbelow := hsahf.turn hop₂ hturn₃ (sequenceRecord 0x72 5) .jb
    ⟨by decide,by decide,by decide,by decide,rfl⟩
  have habove := hsahf.turn hop₂ hturn₃ (sequenceRecord 0x73 5) .jae
    ⟨by decide,by decide,by decide,by decide,rfl⟩
  have hwent : WentTo sequenceEnvironment (counted u₃) 0x80 _ :=
    ⟨FEThreadContext.register32_setRegister32_self _ .kEIP 0x80,fetched,hfetch,rfl⟩
  exact ⟨u₁,u₂,u₃,_,hturn₁,hturn₂,hturn₃,(hbelow.taken (by decide : (2 : ℤ)<3) _ _).mpr ⟨rfl,hwent⟩,
    hwent.eip,habove.notTaken (by decide : ¬(3 : ℤ) ≤ 2)⟩

end Example

end FalloutEmu.CompareAndBranch
