import FalloutEmu.Frames

/-! # The instructions that leave the carry flag -/
namespace FalloutEmu
open X86 (UnaryInstruction)
variable {F : Type}

section Host

theorem ofBool_getLsbD (x : BitVec 1) : BitVec.ofBool (x.getLsbD 0)=x := by
  revert x
  decide

def X86.LeavesCF (instruction : UnaryInstruction) : Prop :=
  ∀{w : ℕ} (a : BitVec w) flags,(instruction a flags).2.CF=flags.CF

theorem X86.inc_leavesCF : X86.LeavesCF X86.inc := fun _ _ => rfl

theorem X86.dec_leavesCF : X86.LeavesCF X86.dec := fun _ _ => rfl

theorem X86.not_leavesCF : X86.LeavesCF X86.not := fun _ _ => rfl

namespace FEThreadContext

theorem fst_withHostFlags {w : ℕ} (threadContext : FEThreadContext F)
    (instruction : X86.StatusFlags→BitVec w×X86.StatusFlags) :
    (threadContext.withHostFlags instruction).1=(instruction threadContext.cpuFlags.status).1 := by
  rw [withHostFlags,FECPUFlags.hostStatus_cpuflags16]

theorem carry_withHostFlags {w : ℕ} (threadContext : FEThreadContext F)
    (instruction : X86.StatusFlags→BitVec w×X86.StatusFlags) :
    (threadContext.withHostFlags instruction).2.cpuFlags.CF=
      .ofBool (instruction threadContext.cpuFlags.status).2.CF := by
  rw [withHostFlags,FECPUFlags.fillFrom16it_withHostStatus,FECPUFlags.hostStatus_cpuflags16]

theorem carry_unary {instruction : UnaryInstruction} (h : X86.LeavesCF instruction)
    (threadContext : FEThreadContext F) (arg1 : U32) (width : FEBitWidth) :
    (threadContext.unary instruction arg1 width).2.cpuFlags.CF=threadContext.cpuFlags.CF := by
  cases width <;>
    exact (threadContext.carry_withHostFlags _).trans (by rw [h]; exact ofBool_getLsbD _)

end FEThreadContext
end Host

namespace Emulator

def SameCF (s t : FEProcess F) : Prop := t.currentThread.cpuFlags.CF=s.currentThread.cpuFlags.CF

instance : FrameRelation (SameCF (F:=F)) where
  refl _ := rfl
  trans _ _ _ h k := k.trans h
  registers _ _ _ _ _ := rfl
  memory _ _ _ := rfl

section Primitives

theorem setRegister32_sameCF (name : FERegisterName) (v : U32) :
    (setRegister32 name v : Emulator F Unit).Within SameCF :=
  .modify fun _ => rfl

theorem unary_sameCF {instruction : UnaryInstruction} (h : X86.LeavesCF instruction) (arg1 : U32)
    (width : FEBitWidth) : (unary instruction arg1 width : Emulator F U32).Within SameCF := by
  intro env s a t ht
  cases ht
  exact s.currentThread.carry_unary h arg1 width

theorem updateDisasmFromContext_sameCF :
    (updateDisasmFromContext : Emulator F Unit).Within SameCF := by
  intro env s a t h
  show t.currentThread.cpuFlags.CF=_
  rw [updateDisasmFromContext_thread h]

end Primitives

section Arithmetic

/-- `NOT`, the case 2 of `instruction_f6` and `instruction_f7`. -/
theorem instructionF6_not {op : DISASM} (h : op.Reserved_.REGOPCODE=2) :
    (instructionF6 op : Emulator F Flow)=unaryInstruction X86.not op := by
  simp [instructionF6,h]

theorem instructionF7_not {op : DISASM} (h : op.Reserved_.REGOPCODE=2) :
    (instructionF7 op : Emulator F Flow)=unaryInstruction X86.not op := by
  simp [instructionF7,h]

end Arithmetic

section Branches

theorem goto_sameCF (eip : U32) : (goto eip : Emulator F Flow).Within SameCF :=
  .bind (setRegister32_sameCF _ _) fun _ => .bind updateDisasmFromContext_sameCF fun _ => .pure _

theorem jumpAnySize_sameCF (taken : FECPUFlags→Bool) (op : DISASM) :
    (jumpAnySize taken op : Emulator F Flow).Within SameCF :=
  .bind (assertRelative_within op) fun _ => .bind cpuFlags_within fun _ => .ite (goto_sameCF _)
    (.pure _)

theorem jump_sameCF (taken : FECPUFlags→Bool) (op : DISASM) :
    (jump taken op : Emulator F Flow).Within SameCF :=
  .bind (assertRelative_within op) fun _ => .bind (assert_within _) fun _ =>
    .bind cpuFlags_within fun _ =>
    .ite (goto_sameCF _) (.pure _)

theorem jecxz_sameCF (op : DISASM) : (jecxz op : Emulator F Flow).Within SameCF :=
  .bind (assertRelative_within op) fun _ => .bind (assert_within _) fun _ =>
    .bind (register32_within _) fun _ =>
    .ite (goto_sameCF _) (.pure _)

theorem jmp_sameCF (op : DISASM) : (jmp op : Emulator F Flow).Within SameCF :=
  .bind (assertRelative_within op) fun _ => .bind (assert_within _) fun _ => goto_sameCF _

end Branches

section Calls

theorem call_sameCF (op : DISASM) : (call op : Emulator F Flow).Within SameCF :=
  .bind (assertRelative_within op) fun _ => .bind (assert_within _) fun _ =>
    .bind nextEIP_within fun _ =>
    .bind (push32_within _) fun _ => goto_sameCF _

theorem ret_sameCF (op : DISASM) : (ret op : Emulator F Flow).Within SameCF :=
  .bind pop32_within fun _ => goto_sameCF _

theorem releaseArguments_sameCF (op : DISASM) :
    (do
      updateDisasmFromContext
      let offset ← loadArg1 op
      let esp ← register32 .kESP
      setRegister32 .kESP (esp+offset)
      return .continueLoop : Emulator F Flow).Within SameCF :=
  .bind updateDisasmFromContext_sameCF fun _ => .bind (loadArgValue_within _ _) fun _ =>
    .bind (register32_within _) fun _ => .bind (setRegister32_sameCF _ _) fun _ => .pure _

theorem retn_sameCF (op : DISASM) : (retn op : Emulator F Flow).Within SameCF :=
  .bind pop32_within fun _ => .bind (setRegister32_sameCF _ _) fun _ => releaseArguments_sameCF op

theorem retFar_sameCF (op : DISASM) : (retFar op : Emulator F Flow).Within SameCF :=
  .bind (assert_within _) fun _ => .bind pop32_within fun _ => .bind pop32_within fun _ =>
    .bind (setRegister32_sameCF _ _) fun _ => .bind (setRegister16_within (by decide) _) fun _ =>
      .bind updateDisasmFromContext_sameCF fun _ => .pure _

theorem retnFar_sameCF (op : DISASM) : (retnFar op : Emulator F Flow).Within SameCF :=
  .bind (assert_within _) fun _ => .bind pop32_within fun _ => .bind pop32_within fun _ =>
    .bind (setRegister32_sameCF _ _) fun _ => .bind (setRegister16_within (by decide) _) fun _ =>
      releaseArguments_sameCF op

end Calls

section Imports
variable {env : Environment F}

/-- The functions of the imported libraries leave `CF`. -/
def ImportsLeaveCF (env : Environment F) : Prop :=
  ∀coordinates s argumentsSize t,env.executeFunction coordinates () s=.ok (argumentsSize,t)→
    SameCF s t

/-- In this environment the program leaves `CF`. -/
def LeavesCF {α : Type} (env : Environment F) (x : Emulator F α) : Prop :=
  ∀s a t,x env s=.ok (a,t)→SameCF s t

namespace LeavesCF
variable {α β : Type}

theorem of_within {x : Emulator F α} (h : x.Within SameCF) : LeavesCF env x := h env

theorem bind {x : Emulator F α} {f : α→Emulator F β} (hx : LeavesCF env x)
    (hf : ∀a,LeavesCF env (f a)) :
    LeavesCF env (x >>= f) := by
  intro s b t h
  obtain ⟨a,u,hu,h⟩ := Exec.bind_eq_ok.mp h
  exact trans_of SameCF (hx s a u hu) (hf a u b t h)

theorem ite {c : Prop} [Decidable c] {x y : Emulator F α} (hx : LeavesCF env x)
    (hy : LeavesCF env y) :
    LeavesCF env (if c then x else y) := by
  split
  · exact hx
  · exact hy

end LeavesCF

theorem executeFunctionAtAddress_leavesCF (h : ImportsLeaveCF env) (proxy : FEImportsProxy)
    (address : U32) :
    LeavesCF env (executeFunctionAtAddress proxy address : Emulator F U8) := by
  refine .bind (.of_within (.ofExcept _)) fun coordinates => ?_
  cases coordinates with
  | none => exact .of_within (.pure _)
  | some coordinates => exact fun s argumentsSize t => h coordinates s argumentsSize t

theorem callImport_leavesCF (h : ImportsLeaveCF env) (proxy : FEImportsProxy) (address : U32) :
    LeavesCF env (callImport proxy address : Emulator F Flow) :=
  .bind (executeFunctionAtAddress_leavesCF h proxy address) fun _ => .of_within <|
    .bind pop32_within fun _ => .bind (setRegister32_sameCF _ _) fun _ =>
      .bind (register32_within _) fun _ =>
      .bind (setRegister32_sameCF _ _) fun _ => .bind updateDisasmFromContext_sameCF
        fun _ => .pure _

theorem instructionFF_leavesCF (h : ImportsLeaveCF env) (op : DISASM) :
    LeavesCF env (instructionFF op) := by
  refine .bind (.of_within (loadArgValue_within _ _)) fun arg1Value => .ite ?_ (.of_within ?_)
  · refine .bind (.of_within (.ite (.bind nextEIP_within fun _ => push32_within _) (.pure _)))
      fun _ =>
      .bind (.of_within .get) fun s => ?_
    cases s.importsProxy with
    | none => exact .of_within (goto_sameCF _)
    | some proxy =>
      exact .bind (.of_within (.ofExcept _)) fun _ =>
        .ite (callImport_leavesCF h proxy _) (.of_within (goto_sameCF _))
  · exact .ite (.bind (bitWidth_within _) fun _ => .bind (unary_sameCF X86.inc_leavesCF _ _)
      fun _ =>
        .bind (storeValueInArg_within _ _) fun _ => .pure _) <|
      .ite (.bind (bitWidth_within _) fun _ => .bind (unary_sameCF X86.dec_leavesCF _ _) fun _ =>
        .bind (storeValueInArg_within _ _) fun _ => .pure _) <|
      .ite (pushArg_within op) (.pure _)

end Imports

section Instructions
variable {env : Environment F}

/-- The ranges of the opcodes of which every instruction leaves `CF`, by the definition of the
architecture. -/
def neutralRanges : List (ℕ×ℕ) :=
  -- `MOV`, `MOVZX`, `MOVSX`, `CMOVcc`, `SETcc`, `LEA`, `XCHG`, `NOP`, `CBW` and `CWD`
  [(0x88,0x8c),(0x8e,0x8e),(0xa0,0xa3),(0xb0,0xbf),(0xc6,0xc7),(0xfb6,0xfb7),(0xfbe,0xfbf),
    (0xf40,0xf4f),(0xf90,0xf9f),(0x8d,0x8d),(0x86,0x87),(0x90,0x92),(0x98,0x99),
  -- `PUSH`, `POP`, `PUSHFD`, `LEAVE` and `ENTER`
    (0x50,0x57),(0x68,0x68),(0x6a,0x6a),(0x06,0x07),(0x0e,0x0e),(0x16,0x17),(0x1e,0x1f),
      (0xfa0,0xfa1),(0xfa8,0xfa9),(0x58,0x5f),(0x8f,0x8f),(0x9c,0x9c),(0xc8,0xc9),
  -- `INC`, `DEC`, `CLD` and `STD`
    (0x40,0x4f),(0xfe,0xfe),(0xfc,0xfd),
  -- `MOVS`, `STOS` and `LODS`
    (0xa4,0xa5),(0xaa,0xab),(0xac,0xad),
  -- `Jcc`, `JECXZ`, `JMP`, `CALL` and `RET`, with the increments, calls, jumps and pushes of `0xff`
    (0x70,0x7f),(0xf80,0xf8f),(0xe3,0xe3),(0xe9,0xe9),(0xeb,0xeb),(0xe8,0xe8),(0xc2,0xc3),
      (0xca,0xcb),(0xff,0xff)]

def neutralOpcode (opcode : U32) : Bool :=
  neutralRanges.any fun range => range.1 ≤ opcode.toNat ∧ opcode.toNat ≤ range.2

/-- The instruction leaves `CF` by the definition of the architecture; the last two are `NOT`. -/
def IsNeutral (op : DISASM) : Prop :=
  op.Instruction.Category&&&GENERAL_PURPOSE_INSTRUCTION≠0 ∧
    (neutralOpcode op.Instruction.Opcode ∨
      op.Instruction.Opcode∈([0xf6,0xf7] : List U32) ∧ op.Reserved_.REGOPCODE=2)

theorem generalBranches_leaveCF (h : ImportsLeaveCF env) {op : DISASM}
    (hop : neutralOpcode op.Instruction.Opcode) :
    ∀branch∈generalBranches (F:=F),op.Instruction.Opcode∈branch.labels→
    LeavesCF env (branch.body op) := by
  have within {x : DISASM→Emulator F Flow} {labels : List U32} (hx : ∀op,(x op).Within SameCF) :
      op.Instruction.Opcode∈labels→LeavesCF env (x op) := fun _ => .of_within (hx op)
  have other {x : DISASM→Emulator F Flow} {labels : List U32}
    (hlabels : labels.all (fun opcode => !neutralOpcode opcode)) :
      op.Instruction.Opcode∈labels→LeavesCF env (x op) := fun hmem => by
    simpa [hop] using List.all_eq_true.mp hlabels _ hmem
  simp only [generalBranches,List.forall_mem_cons]
  exact ⟨within mov_within,within pushArg_within,within pushSegment_within,other rfl,
    within popSegment_within,other rfl,other rfl,other rfl,other rfl,other rfl,other rfl,other rfl,
    other rfl,other rfl,other rfl,
    within (incDec_within (unary_sameCF X86.inc_leavesCF) (unary_sameCF X86.dec_leavesCF)),
    within (unaryInstruction_within (unary_sameCF X86.inc_leavesCF)),other rfl,
    within (unaryInstruction_within (unary_sameCF X86.dec_leavesCF)),within popArg_within,other rfl,
    within (jump_sameCF _),within (jump_sameCF _),within (jump_sameCF _),within (jump_sameCF _),
    within (jump_sameCF _),within (jump_sameCF _),within (jump_sameCF _),within (jump_sameCF _),
    within (jump_sameCF _),within (jump_sameCF _),within (jump_sameCF _),within (jump_sameCF _),
    within (jumpAnySize_sameCF _),within (jumpAnySize_sameCF _),within (jumpAnySize_sameCF _),
    within (jumpAnySize_sameCF _),other rfl,other rfl,other rfl,within xchg_within,
    within lea_within,other rfl,other rfl,within stos_within,within movs_within,within lods_within,
    within fun _ => .pure _,within cbw_within,within cwd_within,within pushfd_within,other rfl,
    other rfl,within ret_sameCF,within retFar_sameCF,within retn_sameCF,within retnFar_sameCF,
    within moveAnySize_within,within leave_within,other rfl,other rfl,within jecxz_sameCF,
    within jmp_sameCF,within call_sameCF,other rfl,other rfl,other rfl,
    fun _ => instructionFF_leavesCF h op,within (moveIf_within _),within (moveIf_within _),
    within (moveIf_within _),within (moveIf_within _),within (moveIf_within _),
    within (moveIf_within _),within (moveIf_within _),within (moveIf_within _),
    within (moveIf_within _),within (moveIf_within _),within (moveIf_within _),
    within (moveIf_within _),within (moveIf_within _),within (moveIf_within _),
    within (moveIf_within _),within (moveIf_within _),within (setIf_within _),
    within (setIf_within _),within (setIf_within _),within (setIf_within _),within (setIf_within _),
    within (setIf_within _),within (setIf_within _),within (setIf_within _),within (setIf_within _),
    within (setIf_within _),within (setIf_within _),within (setIf_within _),within (setIf_within _),
    within (setIf_within _),within (setIf_within _),within (setIf_within _),other rfl,
    within movsx_within,within moveAnySize_within,
    within fun _ => .bind (.modify fun _ => rfl) fun _ => .pure _,
    within fun _ => .bind (.modify fun _ => rfl) fun _ => .pure _,other rfl,within enter_within,
    by simp⟩

theorem mem_labels_of_select {α : Type} {branches : List (Branch α)} {opcode : U32} {body : α}
    (h : select branches opcode=some body) : ∃branch∈branches,opcode∈branch.labels ∧
    branch.body=body := by
  obtain ⟨branch,hfind,hbody⟩ := Option.map_eq_some_iff.mp h
  exact ⟨branch,List.mem_of_find?_eq_some hfind,by simpa using List.find?_some hfind,hbody⟩

/-- What the emulator does for an instruction that leaves `CF` does leave it. -/
theorem execute_leavesCF (h : ImportsLeaveCF env) {op : DISASM} (hop : IsNeutral op) :
    LeavesCF env (execute op) := by
  obtain ⟨hgeneral,hopcode | ⟨hopcode,hregister⟩⟩ := hop
  · cases hselect : select (generalBranches (F:=F)) op.Instruction.Opcode with
    | none =>
      rw [execute,if_pos hgeneral,hselect]
      exact .of_within (.bind (assert_within _) fun _ => .fail _)
    | some body =>
      obtain ⟨branch,hbranch,hlabel,rfl⟩ := mem_labels_of_select hselect
      rw [execute_of_opcode hgeneral rfl hselect]
      exact generalBranches_leaveCF h hopcode branch hbranch hlabel
  · have hnot : (execute op : Emulator F Flow)=unaryInstruction X86.not op := by
      simp only [List.mem_cons,List.not_mem_nil,or_false] at hopcode
      rcases hopcode with hopcode | hopcode
      · exact (execute_of_opcode hgeneral hopcode rfl).trans (instructionF6_not hregister)
      · exact (execute_of_opcode hgeneral hopcode rfl).trans (instructionF7_not hregister)
    rw [hnot]
    exact .of_within (unaryInstruction_within (unary_sameCF X86.not_leavesCF) op)

theorem jumpToNextInstr_sameCF : (jumpToNextInstr : Emulator F Unit).Within SameCF :=
  .bind derefOp_within fun _ => .bind .get fun _ => .bind (setRegister32_sameCF _ _) fun _ =>
    updateDisasmFromContext_sameCF

end Instructions

end Emulator
end FalloutEmu
