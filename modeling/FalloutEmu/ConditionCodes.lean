import FalloutEmu.MemoryMapInvariant
import FalloutEmu.StoredOperands

/-! # The conditional instructions decide the comparison that set the flags -/
namespace FalloutEmu.ConditionCodes
open Emulator
open X86 (Condition StatusFlags)
variable {F : Type}

def code : Condition→U32
  | .O => 0x0
  | .NO => 0x1
  | .B => 0x2
  | .AE => 0x3
  | .E => 0x4
  | .NE => 0x5
  | .BE => 0x6
  | .A => 0x7
  | .S => 0x8
  | .NS => 0x9
  | .P => 0xa
  | .NP => 0xb
  | .L => 0xc
  | .GE => 0xd
  | .LE => 0xe
  | .G => 0xf

/-- What a condition says about two operands of the given width. -/
def Compares (a b : U32) (c : Condition) : FEBitWidth→Prop
  | .k8bit => c.Compares (a.setWidth 8) (b.setWidth 8)
  | .k16bit => c.Compares (a.setWidth 16) (b.setWidth 16)
  | .k32bit => c.Compares a b

/-- The test of a condition on the bit fields, as the handlers write it. -/
def test (flags : FECPUFlags) : Condition→Bool
  | .O => flags.OF=1
  | .NO => flags.OF=0
  | .B => flags.CF=1
  | .AE => flags.CF=0
  | .E => flags.ZF=1
  | .NE => flags.ZF=0
  | .BE => flags.CF=1 ∨ flags.ZF=1
  | .A => flags.CF=0 ∧ flags.ZF=0
  | .S => flags.SF=1
  | .NS => flags.SF=0
  | .P => flags.PF=1
  | .NP => flags.PF=0
  | .L => flags.SF≠flags.OF
  | .GE => flags.SF=flags.OF
  | .LE => flags.ZF=1 ∨ flags.SF≠flags.OF
  | .G => flags.ZF=0 ∧ flags.SF=flags.OF

section Bits

theorem eq_one_iff (x : BitVec 1) : x=1 ↔ x.getLsbD 0=true := by
  revert x
  decide

theorem eq_zero_iff (x : BitVec 1) : x=0 ↔ x.getLsbD 0=false := by
  revert x
  decide

theorem test_eq_holds (flags : FECPUFlags) (c : Condition) : test flags c=c.holds flags.status := by
  cases c <;> simp only [test,Condition.holds,FECPUFlags.status,eq_one_iff,eq_zero_iff] <;> grind

end Bits

section Handlers

theorem jnc_eq : (jnc : DISASM→Emulator F Flow)=jump fun flags => test flags .AE := by
  have htest : (fun flags : FECPUFlags => decide (flags.CF≠1))=fun flags => test flags .AE := by
    funext flags
    simp only [test,ne_eq,eq_one_iff,eq_zero_iff,Bool.not_eq_true]
  rw [jnc,htest]

/-- The short and the near jump of a condition are one branch. -/
theorem select_jump (c : Condition) : ∃form∈[jump (F:=F),jumpAnySize],
    ∀opcode∈[0x70+code c,0xf80+code c],
      select generalBranches opcode=some (form fun flags => test flags c) := by
  cases c
  case AE =>
    refine ⟨jump,by simp,?_⟩
    rw [←jnc_eq]
    simp only [List.forall_mem_cons,List.not_mem_nil,false_imp_iff,implies_true,and_true]
    exact ⟨rfl,rfl⟩
  all_goals
    first
    | exact ⟨jump,by simp,List.forall_mem_cons.mpr ⟨rfl,List.forall_mem_cons.mpr ⟨rfl,by simp⟩⟩⟩
    | exact ⟨jumpAnySize,by simp,List.forall_mem_cons.mpr ⟨rfl,
      List.forall_mem_cons.mpr ⟨rfl,by simp⟩⟩⟩

theorem select_set (c : Condition) :
    select generalBranches (0xf90+code c)=some (setIf (F:=F) fun flags => test flags c) := by
  cases c <;> rfl

theorem select_move (c : Condition) :
    select generalBranches (0xf40+code c)=some (moveIf (F:=F) fun flags => test flags c) := by
  cases c <;> rfl

end Handlers

section Effects
variable {env : Environment F} {s t : FEProcess F} {op : DISASM}

/-- The process has gone to `target`: `eip` is the target, the instruction there has been fetched,
and nothing else has changed. -/
structure WentTo (env : Environment F) (s : FEProcess F) (target : U32)
    (t : FEProcess F) : Prop where
  eip : t.currentThread.eip=target
  fetched : ∃fetched,
    FalloutEmu.updateDisasmFromContext env.build env.disasm s.memory s.dummyOp target=.ok fetched ∧
    t={ s with
      currentThread := s.currentThread.setRegister32 .kEIP target
      memory := fetched.memory
      dummyOp := fetched.dummyOp
      op := fetched.op
      len := fetched.len
      modrm := fetched.modrm }

theorem goto_eq_ok {target : U32} {flow : Flow} :
    goto target env s=.ok (flow,t) ↔ flow=.continueLoop ∧ WentTo env s target t := by
  have heip : (s.currentThread.setRegister32 .kEIP target).eip=target :=
    s.currentThread.register32_setRegister32_self .kEIP target
  have hset : setRegister32 .kEIP target env s=
    .ok ((),{ s with currentThread := s.currentThread.setRegister32 .kEIP target }) := rfl
  rw [goto,Exec.bind_run hset]
  constructor
  · intro h
    obtain ⟨_,u,hfetch,h⟩ := Exec.bind_eq_ok.mp h
    cases h
    obtain ⟨fetched,hfetched,hrecord⟩ := bind_eq_ok.mp (Exec.atomic_eq_ok.mp hfetch)
    rw [heip] at hfetched
    cases hrecord
    exact ⟨rfl,heip,fetched,hfetched,rfl⟩
  · rintro ⟨rfl,-,fetched,hfetched,rfl⟩
    refine (Exec.bind_run (a:=()) (Exec.atomic_of_ok ?_)).trans rfl
    rw [heip,hfetched]
    rfl

/-- A branch on a statement: where it holds, the process goes to the target, and where it does not,
to the next instruction with everything as it was. -/
structure Branches (env : Environment F) (s : FEProcess F) (x : Emulator F Flow) (target : U32)
    (p : Prop) :
    Prop where
  taken : p→∀flow t,x env s=.ok (flow,t) ↔ flow=.continueLoop ∧ WentTo env s target t
  notTaken : ¬p→x env s=.ok (.jumpToNextInstr,s)

theorem Branches.congr {x : Emulator F Flow} {target : U32} {p q : Prop}
    (h : Branches env s x target p) (hpq : p ↔ q) : Branches env s x target q :=
  ⟨fun hq => h.taken (hpq.mpr hq),fun hq => h.notTaken (mt hpq.mp hq)⟩

theorem branches_of_ite {x : Emulator F Flow} {taken : Bool} {target : U32}
    (h : x env s=(if taken then goto target else pure .jumpToNextInstr) env s) :
    Branches env s x target (taken=true) where
  taken htaken flow t := by
    rw [h,if_pos htaken]
    exact goto_eq_ok
  notTaken htaken := by
    rw [h,if_neg htaken]
    rfl

theorem cpuFlags_run : cpuFlags env s=.ok (s.currentThread.cpuFlags,s) := rfl

theorem assertion_run {condition : Bool} (h : env.build=.debug→condition=true) :
    assert condition env s=.ok ((),s) := by
  cases hbuild : env.build with
  | debug => exact assert_run (h hbuild)
  | release => exact assert_release hbuild

/-- The assertions of a jump hold for the operand that a jump has, and a release build does not make
them. -/
theorem assertRelative_returns {target : U32} (h : env.build=.debug→IsRelative op target) :
    assertRelative op env s=.ok ((),s) :=
  (Exec.bind_run (assertion_run fun hbuild => decide_eq_true (h hbuild).relative)).trans
    (assertion_run fun hbuild => decide_eq_true (h hbuild).constant)

theorem jump_branches {target : U32} (h : env.build=.debug→IsRelative op target)
    (taken : FECPUFlags→Bool) :
    Branches env s (jump taken op) (branchTarget op) (taken s.currentThread.cpuFlags=true) := by
  apply branches_of_ite
  rw [jump,Exec.bind_run (assertRelative_returns h),
    Exec.bind_run (assertion_run fun hbuild => decide_eq_true (h hbuild).size),
      Exec.bind_run cpuFlags_run]

theorem jumpAnySize_branches {target : U32} (h : env.build=.debug→IsRelative op target)
    (taken : FECPUFlags→Bool) :
    Branches env s (jumpAnySize taken op) (branchTarget op)
    (taken s.currentThread.cpuFlags=true) := by
  apply branches_of_ite
  rw [jumpAnySize,Exec.bind_run (assertRelative_returns h),Exec.bind_run cpuFlags_run]

/-- The instruction stores the value in its first operand, from which it is read back, and goes on
to the next one. -/
structure StoresFirst (env : Environment F) (s : FEProcess F) (x : Emulator F Flow) (op : DISASM)
    (width : FEBitWidth) (v : U32) : Prop where
  stored : ∀flow t,x env s=.ok (flow,t) ↔ flow=.jumpToNextInstr ∧
    Stored env s op.Argument1 width v t
  readBack : ∀flow t,x env s=.ok (flow,t)→loadArg1 op env t=
    .ok ((v.setWidth width.bits).setWidth 32,t)

theorem storesFirst {x : Emulator F Flow} {width : FEBitWidth} {v : U32}
    (harg : IsDestination op.Argument1 width)
    (h : x env s=(storeValueInArg op.Argument1 v >>= fun _ => pure .jumpToNextInstr) env s) :
    StoresFirst env s x op width v := by
  have hstored : ∀flow t,x env s=.ok (flow,t) ↔ flow=.jumpToNextInstr ∧
    Stored env s op.Argument1 width v t := by
    intro flow t
    rw [h,←storeValueInArg_eq_ok harg]
    constructor
    · intro h
      obtain ⟨_,u,hstore,h⟩ := Exec.bind_eq_ok.mp h
      cases h
      exact ⟨rfl,hstore⟩
    · rintro ⟨rfl,hstore⟩
      exact (Exec.bind_run hstore).trans rfl
  exact ⟨hstored,fun flow t ht => ((hstored flow t).mp ht).2.reads_back harg _⟩

theorem setIf_stores {width : FEBitWidth} (harg : IsDestination op.Argument1 width)
    (taken : FECPUFlags→Bool) :
    StoresFirst env s (setIf taken op) op width (if taken s.currentThread.cpuFlags then 1
      else 0) := by
  apply storesFirst harg
  rw [setIf,Exec.bind_run cpuFlags_run]

/-- The second operand is moved to the first one if the decision is taken. -/
structure MovesIf (env : Environment F) (s : FEProcess F) (x : Emulator F Flow) (op : DISASM)
    (width : FEBitWidth) (taken : Prop) : Prop where
  moved : taken→∀v,loadArg2 op env s=.ok (v,s)→StoresFirst env s x op width v
  kept : ¬taken→∀v,loadArg2 op env s=.ok (v,s)→x env s=.ok (.jumpToNextInstr,s)

theorem moveIf_moves {width : FEBitWidth} (harg : IsDestination op.Argument1 width)
    (taken : FECPUFlags→Bool) :
    MovesIf env s (moveIf taken op) op width (taken s.currentThread.cpuFlags=true) := by
  constructor
  · intro htaken v hload
    apply storesFirst harg
    rw [moveIf,Exec.bind_run hload,Exec.bind_run cpuFlags_run,if_pos htaken]
  · intro htaken v hload
    rw [moveIf,Exec.bind_run hload,Exec.bind_run cpuFlags_run,if_neg htaken]
    rfl

end Effects

theorem status_withHostFlags {w : ℕ} (thread : FEThreadContext F)
    (instruction : StatusFlags→BitVec w×StatusFlags) :
    (thread.withHostFlags instruction).2.cpuFlags.status=
      (instruction thread.cpuFlags.status).2 := by
  simp only [FEThreadContext.withHostFlags,FECPUFlags.status_fillFrom16it,hostStatus_withHostStatus,
    FECPUFlags.hostStatus_cpuflags16]

/-- After `fe_threadContext_sub` every condition holds of the flags exactly when its comparison
holds of the operands. -/
theorem holds_sub (thread : FEThreadContext F) (undefined : StatusFlags) (a b : U32)
    (width : FEBitWidth) (c : Condition) :
    c.holds (thread.binary X86.sub undefined a b width).2.cpuFlags.status ↔
    Compares a b c width := by
  cases width with
  | k8bit =>
    simp only [FEThreadContext.binary,status_withHostFlags,Compares]
    exact X86.sub_holds_iff (by decide) _ _ _ _ c
  | k16bit =>
    simp only [FEThreadContext.binary,status_withHostFlags,Compares]
    exact X86.sub_holds_iff (by decide) _ _ _ _ c
  | k32bit =>
    simp only [FEThreadContext.binary,status_withHostFlags,Compares]
    exact X86.sub_holds_iff (by decide) _ _ _ _ c

/-- The process after a comparison has left the flags of a thread in it. -/
def withFlagsOf (s : FEProcess F) (thread : FEThreadContext F) : FEProcess F :=
  { s with currentThread := { s.currentThread with cpuFlags := thread.cpuFlags } }

/-- After `CMP` of two operands of any width, the short and near jumps go to their target, the byte
that `SETcc` stores is 1 and `CMOVcc` moves its operand exactly when the comparison that their
condition names holds; otherwise the jumps and the move change nothing and the byte is 0. -/
theorem conditionCodes_agree (env : Environment F) (thread : FEThreadContext F)
    (undefined : StatusFlags) (a b : U32) (width : FEBitWidth) (s : FEProcess F) (c : Condition)
    (op : DISASM) :
    let t := withFlagsOf s (thread.binary X86.sub undefined a b width).2
    ∃taken : Bool,(taken ↔ Compares a b c width) ∧
      (∀opcode∈[0x70+code c,0xf80+code c],∃branch,select generalBranches opcode=some branch ∧
        ((env.build=.debug→IsRelative op (branchTarget op))→
          Branches env t (branch op) (branchTarget op) (taken=true))) ∧
      (∃branch,select generalBranches (0xf90+code c)=some branch ∧ ∀argSize,
        IsDestination op.Argument1 argSize→
        StoresFirst env t (branch op) op argSize (if taken then 1 else 0)) ∧
      (∃branch,select generalBranches (0xf40+code c)=some branch ∧ ∀argSize,
        IsDestination op.Argument1 argSize→
        MovesIf env t (branch op) op argSize (taken=true)) := by
  intro t
  have htest : test t.currentThread.cpuFlags c=c.holds t.currentThread.cpuFlags.status :=
    test_eq_holds _ c
  refine ⟨test t.currentThread.cpuFlags c,?_,?_,?_,?_⟩
  · rw [htest]
    exact holds_sub thread undefined a b width c
  · obtain ⟨form,hform,hselect⟩ := select_jump (F:=F) c
    refine fun opcode hopcode => ⟨_,hselect opcode hopcode,fun hrelative => ?_⟩
    have hcases : form=jump ∨ form=jumpAnySize := by simpa using hform
    rcases hcases with rfl | rfl
    · exact jump_branches hrelative _
    · exact jumpAnySize_branches hrelative _
  · exact ⟨_,select_set c,fun _ harg => setIf_stores harg _⟩
  · exact ⟨_,select_move c,fun _ harg => moveIf_moves harg _⟩

section Example

/-- A writable page of code, with 7 in `EAX` and 9 in `ECX`, after `CMP` of 3 and 5. -/
def belowStart : FEProcess Unit :=
  { FEProcess.withOperands [7] [9] [] with
    memory := ⟨.ofBlocks [(⟨1,0,0x1000,0x1000,0,false,".text".toList⟩,.readWrite)],fun _ => 0⟩ }

def below : FEProcess Unit :=
  withFlagsOf belowStart (belowStart.currentThread.binary X86.sub default 3 5 .k32bit).2

def jumpRecord : DISASM :=
  { (default : DISASM) with
    Instruction := { (default : INSTRTYPE) with AddrValue := 0x80 }
    Argument1 := { (default : ARGTYPE) with ArgType := CONSTANT_TYPE+RELATIVE_,ArgSize := 32 } }

/-- An instruction on the operands `EAX` and `ECX`, or `AL` and `CL`. -/
def registerRecord (width : FEBitWidth) : DISASM :=
  { (default : DISASM) with
    Argument1 := { (default : ARGTYPE) with ArgType := REGISTER_TYPE+GENERAL_REG+REG0,ArgSize :=
      width.argSize }
    Argument2 := { (default : ARGTYPE) with ArgType := REGISTER_TYPE+GENERAL_REG+2,ArgSize :=
      width.argSize } }

theorem registerRecord_isDestination (width : FEBitWidth) :
    IsDestination (registerRecord width).Argument1 width := by
  have hkind : REGISTER_TYPE+GENERAL_REG+REG0&&&REGISTER_TYPE≠0 ∧
    REGISTER_TYPE+GENERAL_REG+REG0&&&GENERAL_REG≠0 := by
    decide
  exact ⟨rfl,.inl hkind⟩

set_option maxRecDepth 8000 in
theorem below_fetches : ∃fetched,
    FalloutEmu.updateDisasmFromContext .debug (Environment.bare .debug).disasm below.memory
      below.dummyOp 0x80=
      .ok fetched :=
  ⟨_,rfl⟩

/-- `jl` goes to its target, `setae` stores 0 in `AL`, `cmovb` moves `ECX` to `EAX` and `cmovg` does
not. -/
theorem conditionCodes_agree_below : ∃(jl setae cmovb cmovg : DISASM→Emulator Unit Flow)
    (t u v : FEProcess Unit),
    (select generalBranches 0x7c=some jl ∧
      jl jumpRecord (.bare .debug) below=.ok (.continueLoop,t) ∧ t.currentThread.eip=0x80) ∧
    (select generalBranches 0xf93=some setae ∧
      setae (registerRecord .k8bit) (.bare .debug) below=.ok (.jumpToNextInstr,u) ∧
      u.currentThread.eax=0) ∧
    (select generalBranches 0xf42=some cmovb ∧
      cmovb (registerRecord .k32bit) (.bare .debug) below=.ok (.jumpToNextInstr,v) ∧
      v.currentThread.eax=9) ∧
    select generalBranches 0xf4f=some cmovg ∧
      cmovg (registerRecord .k32bit) (.bare .debug) below=.ok (.jumpToNextInstr,below) := by
  have hagree := conditionCodes_agree (.bare .debug) belowStart.currentThread default 3 5
    .k32bit belowStart
  obtain ⟨_,hl,hjl,-,-⟩ := hagree .L jumpRecord
  obtain ⟨_,hae,-,⟨setae,hselect₂,hsetae⟩,-⟩ := hagree .AE (registerRecord .k8bit)
  obtain ⟨_,hb,-,-,cmovb,hselect₃,hcmovb⟩ := hagree .B (registerRecord .k32bit)
  obtain ⟨_,hg,-,-,cmovg,hselect₄,hcmovg⟩ := hagree .G (registerRecord .k32bit)
  obtain ⟨jl,hselect₁,hjl⟩ := hjl 0x7c (by decide)
  have hrelative : IsRelative jumpRecord 0x80 := ⟨by decide,by decide,rfl,rfl⟩
  have hnames (width : FEBitWidth) : registerFromArgtype (REGISTER_TYPE+GENERAL_REG+REG0) 0 width
    (.bare .debug) below=
      .ok (width.accumulator,below) := by
    cases width <;> rfl
  have hkind := (by decide : REGISTER_TYPE+GENERAL_REG+REG0&&&REGISTER_TYPE≠0)
  have hless : Compares 3 5 .L .k32bit := (by decide : (3 : U32).toInt<(5 : U32).toInt)
  have hnotAbove : ¬Compares 3 5 .AE .k32bit := (by decide : ¬(5 : U32).toNat ≤ (3 : U32).toNat)
  have hbelow : Compares 3 5 .B .k32bit := (by decide : (3 : U32).toNat<(5 : U32).toNat)
  have hnotGreater : ¬Compares 3 5 .G .k32bit := (by decide : ¬(5 : U32).toInt<(3 : U32).toInt)
  rw [if_neg (mt hae.mp hnotAbove)] at hsetae
  obtain ⟨fetched,hfetch⟩ := below_fetches
  have hwent : WentTo (.bare .debug) below 0x80 _ :=
    ⟨FEThreadContext.register32_setRegister32_self _ .kEIP 0x80,fetched,hfetch,rfl⟩
  have hjump := ((hjl fun _ => hrelative).taken (hl.mpr hless) _ _).mpr ⟨rfl,hwent⟩
  have hset := ((hsetae .k8bit (registerRecord_isDestination _)).stored _ _).mpr ⟨rfl,
    .register hkind (hnames .k8bit)⟩
  have hmove := (((hcmovb .k32bit (registerRecord_isDestination _)).moved (hb.mpr hbelow) 9
    rfl).stored _ _).mpr
    ⟨rfl,.register hkind (hnames .k32bit)⟩
  have hstay := (hcmovg .k32bit (registerRecord_isDestination _)).kept (mt hg.mp hnotGreater) 9 rfl
  exact ⟨jl,setae,cmovb,cmovg,_,_,_,⟨hselect₁,hjump,hwent.eip⟩,⟨hselect₂,hset,by decide +kernel⟩,
    ⟨hselect₃,hmove,by decide +kernel⟩,hselect₄,hstay⟩

end Example

end FalloutEmu.ConditionCodes
