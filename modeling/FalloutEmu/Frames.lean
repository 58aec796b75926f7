import FalloutEmu.Interpreter

/-! # What the instructions that do not branch leave alone -/
namespace FalloutEmu
open ByteStore
variable {F : Type}

section Registers

/-- A write of at most four bytes at the register does not reach `eip`. -/
def FERegisterName.LeavesEIP (name : FERegisterName) : Prop := name.regMap+4 ≤ 32 ∨ 36 ≤ name.regMap

instance (name : FERegisterName) : Decidable name.LeavesEIP := by
  unfold FERegisterName.LeavesEIP
  infer_instance

namespace FEThreadContext

theorem eip_writeAt (threadContext : FEThreadContext F) (name : FERegisterName) (h : name.LeavesEIP)
    {bs : List U8} (hbs : bs.length ≤ 4) :
    FEThreadContext.eip { threadContext with
      registers := writeAt threadContext.registers name.regMap bs }=
      threadContext.eip := by
  have hdisjoint : name.regMap+bs.length ≤ 32 ∨ 32+4 ≤ name.regMap := by
    rcases h with h | h <;> omega
  exact congrArg (fun bs => BitVec.ofNat 32 (value bs)) (readAt_writeAt_of_disjoint hdisjoint)

theorem eip_setRegister (threadContext : FEThreadContext F) {name : FERegisterName}
    (h : name.LeavesEIP) (v : U32) (width : FEBitWidth) :
    (threadContext.setRegister name v width).eip=threadContext.eip := by
  cases width <;> exact eip_writeAt _ name h (by simp)

theorem eip_binary (threadContext : FEThreadContext F) (instruction : X86.BinaryInstruction)
    (undefined : X86.StatusFlags) (arg1 arg2 : U32) (width : FEBitWidth) :
    (threadContext.binary instruction undefined arg1 arg2 width).2.eip=threadContext.eip := by
  cases width <;> rfl

theorem eip_unary (threadContext : FEThreadContext F) (instruction : X86.UnaryInstruction)
    (arg1 : U32) (width : FEBitWidth) : (threadContext.unary instruction arg1 width).2.eip=
      threadContext.eip := by
  cases width <;> rfl

end FEThreadContext
end Registers

section Stack
variable {κ : Type}

theorem Memory.store_map {memory t : Memory κ} {address : U32} {bytes : List U8}
    (h : memory.store address bytes=.ok t) : t.map=memory.map := by
  obtain ⟨_,_,h⟩ := bind_eq_ok.mp h
  cases h
  rfl

namespace FEStack

theorem push32_map {build : Build} {stack : FEStack} {memory t : Memory κ} {esp v stackPtr : U32}
    (h : stack.push32 build memory esp v=.ok (stackPtr,t)) : t.map=memory.map := by
  obtain ⟨_,_,h⟩ := bind_eq_ok.mp h
  obtain ⟨_,_,h⟩ := bind_eq_ok.mp h
  cases h
  rfl

theorem push_map {build : Build} {stack : FEStack} {memory t : Memory κ} {esp v stackPtr : U32}
    {width : FEBitWidth} (h : stack.push build memory esp v width=.ok (stackPtr,t)) :
    t.map=memory.map := by
  cases width with
  | k8bit | k32bit => exact push32_map h
  | k16bit =>
    obtain ⟨_,_,h⟩ := bind_eq_ok.mp h
    obtain ⟨_,hstore,h⟩ := bind_eq_ok.mp h
    cases h
    exact Memory.store_map hstore

end FEStack
end Stack

namespace Emulator

/-- The relation holds of every write of an instruction: of a register other than `eip`, and of the
memory under the same map. -/
class FrameRelation (R : FEProcess F→FEProcess F→Prop) : Prop
  extends Std.Refl R, IsTrans (FEProcess F) R where
  registers (s : FEProcess F) {name : FERegisterName} (h : name.LeavesEIP) {bs : List U8}
    (hbs : bs.length ≤ 4) :
    R s { s with currentThread :=
      { s.currentThread with registers := writeAt s.currentThread.registers name.regMap bs } }
  memory (s : FEProcess F) {memory : Memory DisasmContext} (h : memory.map=s.memory.map) :
    R s { s with memory := memory }

/-- The operation neither moves `eip` nor fetches, nor does it change the memory map. -/
structure SameFetch (s t : FEProcess F) : Prop where
  map : t.memory.map=s.memory.map
  eip : t.currentThread.eip=s.currentThread.eip
  dummyOp : t.dummyOp=s.dummyOp
  op : t.op=s.op
  len : t.len=s.len

instance : FrameRelation (SameFetch (F:=F)) where
  refl _ := ⟨rfl,rfl,rfl,rfl,rfl⟩
  trans _ _ _ h k :=
    ⟨k.map.trans h.map,k.eip.trans h.eip,k.dummyOp.trans h.dummyOp,k.op.trans h.op,
      k.len.trans h.len⟩
  registers s _ h _ hbs := ⟨rfl,s.currentThread.eip_writeAt _ h hbs,rfl,rfl,rfl⟩
  memory _ _ h := ⟨h,rfl,rfl,rfl,rfl⟩

section Primitives
variable {R : FEProcess F→FEProcess F→Prop} [FrameRelation R]

theorem setRegister_within {name : FERegisterName} (h : name.LeavesEIP) (v : U32)
    (width : FEBitWidth) :
    (setRegister name v width : Emulator F Unit).Within R := by
  cases width <;> exact .modify fun s => FrameRelation.registers s h (by simp)

theorem setRegister32_within {name : FERegisterName} (h : name.LeavesEIP) (v : U32) :
    (setRegister32 name v : Emulator F Unit).Within R :=
  .modify fun s => FrameRelation.registers s h (by simp)

theorem setRegister16_within {name : FERegisterName} (h : name.LeavesEIP) (v : U16) :
    (setRegister16 name v : Emulator F Unit).Within R :=
  .modify fun s => FrameRelation.registers s h (by simp)

theorem setRegister8_within {name : FERegisterName} (h : name.LeavesEIP) (v : U8) :
    (setRegister8 name v : Emulator F Unit).Within R :=
  .modify fun s => FrameRelation.registers s h (by simp)

theorem setFlags_within (change : FECPUFlags→FECPUFlags) :
    (setFlags change : Emulator F Unit).Within SameFetch :=
  .modify fun _ => ⟨rfl,rfl,rfl,rfl,rfl⟩

theorem binary_within (instruction : X86.BinaryInstruction) (arg1 arg2 : U32) (width : FEBitWidth) :
    (binary instruction arg1 arg2 width : Emulator F U32).Within SameFetch := by
  intro env s a t h
  cases h
  exact ⟨rfl,FEThreadContext.eip_binary _ _ _ _ _ _,rfl,rfl,rfl⟩

theorem unary_within (instruction : X86.UnaryInstruction) (arg1 : U32) (width : FEBitWidth) :
    (unary instruction arg1 width : Emulator F U32).Within SameFetch := by
  intro env s a t h
  cases h
  exact ⟨rfl,FEThreadContext.eip_unary _ _ _ _,rfl,rfl,rfl⟩

theorem stackPush_within
    {operation : Build→FEStack→Memory DisasmContext→U32→Except Stop (U32×Memory DisasmContext)}
    (h : ∀build stack memory esp stackPtr t,operation build stack memory esp=.ok (stackPtr,t)→
      t.map=memory.map) :
    (stackPush operation : Emulator F Unit).Within R := by
  intro env s a t ht
  obtain ⟨⟨stackPtr,memory⟩,hpush,ht⟩ := bind_eq_ok.mp (Exec.atomic_eq_ok.mp ht)
  cases ht
  have hmemory : R s { s with memory := memory } := FrameRelation.memory s (h _ _ _ _ _ _ hpush)
  exact trans_of R hmemory (FrameRelation.registers _ (by decide) (by simp))

theorem stackPop_within {α : Type} (operation : Build→FEStack→Memory DisasmContext→U32→
    Except Stop (α×U32)) :
    (stackPop operation : Emulator F α).Within R := by
  intro env s a t ht
  obtain ⟨⟨v,esp⟩,_,ht⟩ := bind_eq_ok.mp (Exec.atomic_eq_ok.mp ht)
  cases ht
  exact FrameRelation.registers s (by decide) (by simp)

theorem push32_within (v : U32) : (push32 v : Emulator F Unit).Within R :=
  stackPush_within fun _ _ _ _ _ _ => FEStack.push32_map

theorem push_within (v : U32) (width : FEBitWidth) : (push v width : Emulator F Unit).Within R :=
  stackPush_within fun _ _ _ _ _ _ => FEStack.push_map

theorem pop32_within : (pop32 : Emulator F U32).Within R := stackPop_within _

theorem pop_within (width : FEBitWidth) : (pop width : Emulator F U32).Within R := stackPop_within _

theorem store_within {write : Memory DisasmContext→Except Stop (Memory DisasmContext)}
    (h : ∀memory t,write memory=.ok t→t.map=memory.map) :
    (store write : Emulator F Unit).Within R := by
  intro env s a t ht
  obtain ⟨memory,u,hget,ht⟩ := Exec.bind_eq_ok.mp ht
  cases hget
  obtain ⟨memory,u,hwrite,ht⟩ := Exec.bind_eq_ok.mp ht
  obtain ⟨hw,rfl⟩ := Exec.ofExcept_eq_ok.mp hwrite
  cases ht
  exact FrameRelation.memory s (h _ _ hw)

theorem updateDisasmFromContext_thread {env : Environment F} {s t : FEProcess F}
    (h : updateDisasmFromContext env s=.ok ((),t)) : t.currentThread=s.currentThread := by
  obtain ⟨fetched,_,ht⟩ := bind_eq_ok.mp (Exec.atomic_eq_ok.mp h)
  cases ht
  rfl

end Primitives

section Operands
variable {R : FEProcess F→FEProcess F→Prop} [FrameRelation R]

theorem firstRegister_returns {α : Type} {P : α→Prop} (argtype : U32) {names : List α}
    (h : ∀name∈names,P name) (i : ℕ) :
    (firstRegister argtype names i : Emulator F α).Returns P := by
  induction names generalizing i with
  | nil => exact .bind fun _ => .fail _
  | cons name names ih =>
    exact .ite (.pure (h name List.mem_cons_self))
      (ih (fun a ha => h a (List.mem_cons_of_mem _ ha)) (i+1))

theorem registerFromArgtype_returns (argtype argposition : U32) (width : FEBitWidth) :
    (registerFromArgtype argtype argposition width : Emulator F _).Returns
      FERegisterName.LeavesEIP := by
  cases width with
  | k8bit =>
    exact .ite (firstRegister_returns argtype (by decide) 0)
      (.ite (firstRegister_returns argtype (by decide) 0) (.bind fun _ => .fail _))
  | k16bit | k32bit => exact .bind fun _ => firstRegister_returns argtype (by decide) 0

theorem segRegisterFromArgtype_returns (argtype : U32) :
    (segRegisterFromArgtype argtype : Emulator F _).Returns FERegisterName.LeavesEIP :=
  firstRegister_returns argtype (by decide) 0

theorem storeArg_within (v : U32) (addressArg : ARGTYPE) (width : FEBitWidth) :
    (storeArg v addressArg width : Emulator F Unit).Within R := by
  cases width <;>
    exact .bind (assertMemoryArg_within _ _) fun _ => .bind (assert_within _) fun _ =>
      .bind (addressFromArgtype_within _) fun _ => store_within fun _ _ => Memory.store_map

theorem storeValueInArg_within (arg : ARGTYPE) (v : U32) :
    (storeValueInArg arg v : Emulator F Unit).Within R :=
  .ite
    (.ite
      (.bind (bitWidth_within _) fun _ =>
        .bind_returns (registerFromArgtype_returns _ _ _)
          (registerFromArgtype_within _ _ _) fun _ h =>
          setRegister_within h _ _)
      (.ite
        (.bind_returns (segRegisterFromArgtype_returns _) (firstRegister_within _ _ _) fun _ h =>
          .bind (bitWidth_within _) fun _ => setRegister_within h _ _)
        (assert_within _)))
    (.ite (.bind (bitWidth_within _) fun _ => storeArg_within _ _ _) (assert_within _))

theorem loadArg1_within (op : DISASM) : (loadArg1 op : Emulator F U32).Within R :=
  loadArgValue_within _ _

theorem loadArg2_within (op : DISASM) : (loadArg2 op : Emulator F U32).Within R :=
  loadArgValue_within _ _

theorem assertRelative_within (op : DISASM) : (assertRelative op : Emulator F Unit).Within R :=
  .bind (assert_within _) fun _ => assert_within _

theorem nextEIP_within : (nextEIP : Emulator F U32).Within R :=
  .bind (register32_within _) fun _ => .bind .get fun _ => .pure _

theorem derefOp_within : (derefOp : Emulator F DISASM).Within R := by
  intro env s op t h
  obtain ⟨_,rfl⟩ := derefOp_eq_ok.mp h
  exact refl_of R s

theorem assertSameSize_within (op : DISASM) : (assertSameSize op : Emulator F Unit).Within R :=
  assert_within _

end Operands

section Moves
variable {R : FEProcess F→FEProcess F→Prop} [FrameRelation R]

theorem moveAnySize_within (op : DISASM) : (moveAnySize op : Emulator F Flow).Within R :=
  .bind (loadArg2_within op) fun _ => .bind (storeValueInArg_within _ _) fun _ => .pure _

theorem mov_within (op : DISASM) : (mov op : Emulator F Flow).Within R :=
  .bind (assertSameSize_within op) fun _ => moveAnySize_within op

theorem pushArg_within (op : DISASM) : (pushArg op : Emulator F Flow).Within R :=
  .bind (loadArg2_within op) fun _ => .bind (bitWidth_within _) fun _ =>
    .bind (push_within _ _) fun _ => .pure _

theorem pushSegment_within (op : DISASM) : (pushSegment op : Emulator F Flow).Within R :=
  .bind (loadArg2_within op) fun _ => .bind (push32_within _) fun _ => .pure _

theorem popSegment_within (op : DISASM) : (popSegment op : Emulator F Flow).Within R :=
  .bind pop32_within fun _ => .bind (storeValueInArg_within _ _) fun _ => .pure _

theorem popArg_within (op : DISASM) : (popArg op : Emulator F Flow).Within R :=
  .bind (bitWidth_within _) fun _ => .bind (pop_within _) fun _ =>
    .bind (storeValueInArg_within _ _) fun _ => .pure _

theorem xchg_within (op : DISASM) : (xchg op : Emulator F Flow).Within R :=
  .bind (assertSameSize_within op) fun _ => .bind (loadArg1_within op) fun _ =>
    .bind (loadArg2_within op) fun _ => .bind (storeValueInArg_within _ _) fun _ =>
      .bind (storeValueInArg_within _ _) fun _ => .pure _

theorem lea_within (op : DISASM) : (lea op : Emulator F Flow).Within R :=
  .bind (assert_within _) fun _ => .bind (assert_within _) fun _ => .bind (assert_within _) fun _ =>
    .bind (assert_within _) fun _ => .bind (assert_within _) fun _ =>
      .bind (addressFromArgtype_within _) fun _ =>
        .bind_returns (registerFromArgtype_returns _ _ .k32bit)
          (register32FromArgtype_within _ _) fun _ h =>
          .bind (setRegister32_within h _) fun _ => .pure _

theorem signExtended_within (v argSize : U32) :
    (signExtended v argSize : Emulator F U32).Within R :=
  .ite (.pure _) (.ite (.pure _) (.bind (assert_within _) fun _ => .pure _))

theorem movsx_within (op : DISASM) : (movsx op : Emulator F Flow).Within R :=
  .bind (loadArg2_within op) fun _ => .bind (signExtended_within _ _) fun _ =>
    .bind (storeValueInArg_within _ _) fun _ => .pure _

theorem cbw_within (op : DISASM) : (cbw op : Emulator F Flow).Within R :=
  .ite (.bind (register16_within _) fun _ => .bind (setRegister32_within (by decide) _)
    fun _ => .pure _)
    (.ite (.bind (register8_within _) fun _ => .bind (setRegister16_within (by decide) _)
      fun _ => .pure _)
      (.pure _))

theorem cwd_within (op : DISASM) : (cwd op : Emulator F Flow).Within R :=
  .ite (.bind (register32_within _) fun _ => .bind (setRegister32_within (by decide) _)
    fun _ => .pure _)
    (.ite (.bind (register16_within _) fun _ => .bind (setRegister16_within (by decide) _)
      fun _ => .pure _)
      (.pure _))

theorem pushfd_within (op : DISASM) : (pushfd op : Emulator F Flow).Within R :=
  .bind cpuFlags_within fun _ => .bind (push32_within _) fun _ => .pure _

theorem popfd_within (op : DISASM) : (popfd op : Emulator F Flow).Within SameFetch :=
  .bind (assert_within _) fun _ => .bind (assert_within _) fun _ => .bind (assert_within _) fun _ =>
    .bind (bitWidth_within _) fun _ => .bind (pop_within _) fun _ => .bind (setFlags_within _)
      fun _ => .pure _

end Moves

section Arithmetic
variable {R : FEProcess F→FEProcess F→Prop} [FrameRelation R]

theorem binaryInstruction_within (instruction : X86.BinaryInstruction) (op : DISASM) :
    (binaryInstruction instruction op : Emulator F Flow).Within SameFetch :=
  .bind (assertSameSize_within op) fun _ => .bind (loadArg1_within op) fun _ =>
    .bind (loadArg2_within op) fun _ => .bind (bitWidth_within _) fun _ =>
      .bind (binary_within _ _ _ _) fun _ => .bind (storeValueInArg_within _ _) fun _ => .pure _

theorem compareInstruction_within (instruction : X86.BinaryInstruction) (op : DISASM) :
    (compareInstruction instruction op : Emulator F Flow).Within SameFetch :=
  .bind (assertSameSize_within op) fun _ => .bind (loadArg1_within op) fun _ =>
    .bind (loadArg2_within op) fun _ => .bind (bitWidth_within _) fun _ =>
      .bind (binary_within _ _ _ _) fun _ => .pure _

theorem unaryInstruction_within {instruction : X86.UnaryInstruction}
    (h : ∀arg1 width,(unary instruction arg1 width : Emulator F U32).Within R) (op : DISASM) :
    (unaryInstruction instruction op : Emulator F Flow).Within R :=
  .bind (loadArg1_within op) fun _ => .bind (bitWidth_within _) fun _ =>
    .bind (h _ _) fun _ => .bind (storeValueInArg_within _ _) fun _ => .pure _

theorem incDec_within (hinc : ∀arg1 width,(unary X86.inc arg1 width : Emulator F U32).Within R)
    (hdec : ∀arg1 width,(unary X86.dec arg1 width : Emulator F U32).Within R) (op : DISASM) :
    (incDec op : Emulator F Flow).Within R :=
  .ite (unaryInstruction_within hinc op)
    (.ite (unaryInstruction_within hdec op) (.bind (assert_within _) fun _ => .pure _))

theorem instruction8081_within (op : DISASM) :
    (instruction8081 op : Emulator F Flow).Within SameFetch := by
  refine .bind (assertSameSize_within op) fun _ => .bind (bitWidth_within _) fun _ =>
    .bind (loadArg1_within op) fun _ => .bind (loadArg2_within op) fun _ => ?_
  cases group1 op.Reserved_.REGOPCODE with
  | some instruction =>
    exact .bind (binary_within _ _ _ _) fun _ => .bind (storeValueInArg_within _ _) fun _ => .pure _
  | none =>
    exact .ite (.bind (binary_within _ _ _ _) fun _ => .pure _)
      (.bind (assert_within _) fun _ => .pure _)

theorem instruction83_within (op : DISASM) :
    (instruction83 op : Emulator F Flow).Within SameFetch := by
  refine .bind (assert_within _) fun _ => .bind (assert_within _) fun _ =>
    .bind (bitWidth_within _) fun _ =>
    .bind (loadArg1_within op) fun _ => .bind (loadArg2_within op) fun _ => ?_
  cases group1 op.Reserved_.REGOPCODE with
  | some instruction =>
    exact .bind (binary_within _ _ _ _) fun _ => .bind (storeValueInArg_within _ _) fun _ => .pure _
  | none =>
    exact .ite (.bind (binary_within _ _ _ _) fun _ => .pure _)
      (.bind (assert_within _) fun _ => .bind (storeValueInArg_within _ _) fun _ => .pure _)

theorem shift_within (op : DISASM) : (shift op : Emulator F Flow).Within SameFetch := by
  refine .bind (loadArg1_within op) fun _ => .bind (loadArg2_within op) fun _ => ?_
  cases group2 op.Reserved_.REGOPCODE with
  | some instruction =>
    exact .bind (bitWidth_within _) fun _ => .bind (binary_within _ _ _ _) fun _ =>
      .bind (storeValueInArg_within _ _) fun _ => .pure _
  | none =>
    exact .bind (assert_within _) fun _ => .bind (storeValueInArg_within _ _) fun _ => .pure _

end Arithmetic

section Flags

theorem cmc_within (op : DISASM) : (cmc op : Emulator F Flow).Within SameFetch :=
  .bind (setFlags_within _) fun _ => .pure _

theorem cld_within (op : DISASM) : (cld op : Emulator F Flow).Within SameFetch :=
  .bind (setFlags_within _) fun _ => .pure _

theorem std_within (op : DISASM) : (std op : Emulator F Flow).Within SameFetch :=
  .bind (setFlags_within _) fun _ => .pure _

theorem sahf_within (op : DISASM) : (sahf op : Emulator F Flow).Within SameFetch :=
  .bind (register8_within _) fun _ => .bind (setFlags_within _) fun _ => .pure _

end Flags

section Decimal

theorem lowDigitAdjusts_within (al : U8) :
    (lowDigitAdjusts al : Emulator F Bool).Within SameFetch :=
  .bind cpuFlags_within fun _ => .pure _

theorem adjustLowDigit_within (al old_al : U8) (old_cf : BitVec 1) (carry : Bool) :
    (adjustLowDigit al old_al old_cf carry : Emulator F Unit).Within SameFetch :=
  .bind (lowDigitAdjusts_within _) fun _ =>
    .ite (.bind (setRegister8_within (by decide) _) fun _ => setFlags_within _) (setFlags_within _)

theorem daa_within (op : DISASM) : (daa op : Emulator F Flow).Within SameFetch :=
  .bind (register8_within _) fun _ => .bind cpuFlags_within fun _ =>
    .bind (setFlags_within _) fun _ =>
    .bind (adjustLowDigit_within _ _ _ _) fun _ => .bind (register8_within _) fun _ =>
      .bind (.ite (.bind (setRegister8_within (by decide) _) fun _ => setFlags_within _)
        (setFlags_within _))
        fun _ => .bind (register8_within _) fun _ => .bind (setFlags_within _) fun _ => .pure _

theorem das_within (op : DISASM) : (das op : Emulator F Flow).Within SameFetch :=
  .bind (register8_within _) fun _ => .bind cpuFlags_within fun _ =>
    .bind (setFlags_within _) fun _ =>
    .bind (adjustLowDigit_within _ _ _ _) fun _ => .bind (register8_within _) fun _ =>
      .bind (.ite (.bind (setRegister8_within (by decide) _) fun _ => setFlags_within _) (.pure _))
        fun _ => .bind (register8_within _) fun _ => .bind (setFlags_within _) fun _ => .pure _

theorem aaa_within (op : DISASM) : (aaa op : Emulator F Flow).Within SameFetch :=
  .bind (register8_within _) fun _ => .bind (lowDigitAdjusts_within _) fun _ =>
    .bind (.ite (.bind (register16_within _) fun _ => .bind (setRegister16_within (by decide) _)
      fun _ =>
        setFlags_within _) (setFlags_within _))
      fun _ => .bind (register8_within _) fun _ => .bind (setRegister8_within (by decide) _)
        fun _ =>
        .bind (setFlags_within _) fun _ => .pure _

theorem aas_within (op : DISASM) : (aas op : Emulator F Flow).Within SameFetch :=
  .bind (register8_within _) fun _ => .bind (lowDigitAdjusts_within _) fun _ =>
    .bind (.ite (.bind (register16_within _) fun _ => .bind (setRegister16_within (by decide) _)
      fun _ =>
        .bind (register8_within _) fun _ => .bind (setRegister8_within (by decide) _) fun _ =>
          setFlags_within _) (setFlags_within _))
      fun _ => .bind (register8_within _) fun _ => .bind (setRegister8_within (by decide) _)
        fun _ =>
        .bind (register8_within _) fun _ => .bind (setFlags_within _) fun _ => .pure _

theorem aam_within (op : DISASM) : (aam op : Emulator F Flow).Within SameFetch :=
  .bind .get fun _ => .bind (assert_within _) fun _ => .bind (register8_within _) fun _ =>
    .bind (setRegister8_within (by decide) _) fun _ => .bind (setRegister8_within (by decide) _)
      fun _ =>
      .bind (register8_within _) fun _ => .bind (setFlags_within _) fun _ => .pure _

theorem aad_within (op : DISASM) : (aad op : Emulator F Flow).Within SameFetch :=
  .bind .get fun _ => .bind (assert_within _) fun _ => .bind (register8_within _) fun _ =>
    .bind (register8_within _) fun _ => .bind (setRegister8_within (by decide) _) fun _ =>
      .bind (setRegister8_within (by decide) _) fun _ => .bind (register8_within _) fun _ =>
        .bind (setFlags_within _) fun _ => .pure _

end Decimal

section MultiplyDivide

theorem multiply_within {product : FEThreadContext F→U32→U32→FEBitWidth→BitVec 64×FEThreadContext F}
    (h : ∀threadContext arg1 arg2 width,(product threadContext arg1 arg2 width).2.eip=
      threadContext.eip)
    (arg1 arg2 : U32) (width : FEBitWidth) :
    (multiply product arg1 arg2 width : Emulator F (BitVec 64)).Within SameFetch := by
  intro env s a t ht
  cases ht
  exact ⟨rfl,h _ _ _ _,rfl,rfl,rfl⟩

theorem imul32_within (arg1 arg2 : U32) (width : FEBitWidth) :
    (multiply FEThreadContext.imul32 arg1 arg2 width : Emulator F (BitVec 64)).Within SameFetch :=
  multiply_within (fun _ _ _ _ => rfl) arg1 arg2 width

theorem idiv32_within (arg1 arg2 : BitVec 64) (width : FEBitWidth) :
    (idiv32 arg1 arg2 width : Emulator F (BitVec 64×BitVec 64)).Within SameFetch :=
  .bind (assert_within _) fun _ => .ite (.fail _) (.bind (assert_within _) fun _ => .pure _)

theorem div32_within (arg1 arg2 : BitVec 64) (width : FEBitWidth) :
    (div32 arg1 arg2 width : Emulator F (BitVec 64×BitVec 64)).Within SameFetch :=
  .bind (assert_within _) fun _ => .ite (.fail _) (.bind (assert_within _) fun _ => .pure _)

theorem imul_within (op : DISASM) : (imul op : Emulator F Flow).Within SameFetch :=
  .bind (loadArg1_within op) fun _ => .bind (loadArg2_within op) fun _ =>
    .bind (bitWidth_within _) fun _ =>
    .bind (imul32_within _ _ _) fun _ => .bind (storeValueInArg_within _ _) fun _ => .pure _

theorem imulImmediate_within (op : DISASM) :
    (imulImmediate op : Emulator F Flow).Within SameFetch :=
  .ite (imul_within op)
    (.bind (loadArg1_within op) fun _ => .bind (loadArg2_within op) fun _ =>
      .bind (loadArgValue_within _ _) fun _ => .bind (bitWidth_within _) fun _ =>
        .bind (imul32_within _ _ _) fun _ => .bind (storeValueInArg_within _ _) fun _ => .pure _)

theorem multiplyByte_within {product : FEThreadContext F→U32→U32→FEBitWidth→BitVec 64×
    FEThreadContext F}
    (h : ∀threadContext arg1 arg2 width,(product threadContext arg1 arg2 width).2.eip=
      threadContext.eip)
    (op : DISASM) : (multiplyByte product op : Emulator F Flow).Within SameFetch :=
  .bind (assert_within _) fun _ => .bind (loadArg1_within op) fun _ =>
    .bind (loadArg2_within op) fun _ =>
    .bind (bitWidth_within _) fun _ => .bind (multiply_within h _ _ _) fun _ =>
      .bind (setRegister16_within (by decide) _) fun _ => .pure _

theorem setByteQuotient_within (result : BitVec 64×BitVec 64) :
    (setByteQuotient result : Emulator F Flow).Within SameFetch :=
  .bind (setRegister8_within (by decide) _) fun _ => .bind (setRegister8_within (by decide) _)
    fun _ => .pure _

theorem instructionF6_within (op : DISASM) :
    (instructionF6 op : Emulator F Flow).Within SameFetch :=
  .ite (compareInstruction_within _ op) <| .ite (unaryInstruction_within (unary_within _) op) <|
    .ite (unaryInstruction_within (unary_within _) op) <|
      .ite (multiplyByte_within (fun _ _ _ _ => rfl) op) <|
    .ite (multiplyByte_within (fun _ _ _ _ => rfl) op) <|
    .ite (.bind (assert_within _) fun _ => .bind (register16_within _) fun _ =>
      .bind (loadArg2_within op) fun _ => .bind (bitWidth_within _) fun _ =>
        .bind (div32_within _ _ _) fun _ => setByteQuotient_within _) <|
    .ite (.bind (assert_within _) fun _ => .bind (register16_within _) fun _ =>
      .bind (loadArg2_within op) fun _ => .bind (bitWidth_within _) fun _ =>
        .bind (idiv32_within _ _ _) fun _ => setByteQuotient_within _) <|
    .bind (assert_within _) fun _ => .pure _

theorem setWordPair_within (argSize : U32) (low high : BitVec 64) :
    (setWordPair argSize low high : Emulator F Flow).Within SameFetch :=
  .ite
    (.bind (setRegister16_within (by decide) _) fun _ => .bind (setRegister16_within (by decide) _)
      fun _ => .pure _)
    (.ite
      (.bind (setRegister32_within (by decide) _) fun _ => .bind (setRegister32_within (by decide)
        _) fun _ => .pure _)
      (.bind (assert_within _) fun _ => .pure _))

theorem multiplyWord_within {product : FEThreadContext F→U32→U32→FEBitWidth→BitVec 64×
    FEThreadContext F}
    (h : ∀threadContext arg1 arg2 width,(product threadContext arg1 arg2 width).2.eip=
      threadContext.eip)
    (op : DISASM) : (multiplyWord product op : Emulator F Flow).Within SameFetch :=
  .bind (loadArg1_within op) fun _ => .bind (loadArg2_within op) fun _ =>
    .bind (bitWidth_within _) fun _ =>
    .bind (multiply_within h _ _ _) fun _ => setWordPair_within _ _ _

theorem divident_within (argSize : U32) :
    (divident argSize : Emulator F (BitVec 64)).Within SameFetch :=
  .ite (.bind (register16_within _) fun _ => .bind (register16_within _) fun _ => .pure _)
    (.ite (.bind (register32_within _) fun _ => .bind (register32_within _) fun _ => .pure _)
      (.bind (assert_within _) fun _ => .pure _))

theorem instructionF7_within (op : DISASM) :
    (instructionF7 op : Emulator F Flow).Within SameFetch :=
  .ite (unaryInstruction_within (unary_within _) op) <|
    .ite (unaryInstruction_within (unary_within _) op) <|
    .bind (assertSameSize_within op) fun _ => .bind (loadArg2_within op) fun _ =>
      .ite (.bind (loadArg1_within op) fun _ => .bind (bitWidth_within _) fun _ =>
        .bind (binary_within _ _ _ _) fun _ => .pure _) <|
      .ite (multiplyWord_within (fun _ _ _ _ => rfl) op) <|
      .ite (multiplyWord_within (fun _ _ _ _ => rfl) op) <|
      .ite (.bind (divident_within _) fun _ => .bind (loadArg2_within op) fun _ =>
        .bind (bitWidth_within _) fun _ => .bind (div32_within _ _ _) fun _ =>
          setWordPair_within _ _ _) <|
      .ite (.bind (divident_within _) fun _ => .bind (bitWidth_within _) fun _ =>
        .bind (loadArg2_within op) fun _ => .bind (idiv32_within _ _ _) fun _ =>
          setWordPair_within _ _ _)
        unreachable_within

end MultiplyDivide

section Strings
variable {R : FEProcess F→FEProcess F→Prop} [FrameRelation R]

theorem repxxPrefix_within (op : DISASM) : (repxxPrefix op : Emulator F Bool).Within R :=
  .ite (.bind (assert_within _) fun _ => .ite (.bind (register32_within _) fun _ => .pure _)
    (.pure _)) (.pure _)

theorem decrementECX_within : (decrementECX : Emulator F Unit).Within R :=
  .bind (register32_within _) fun _ => setRegister32_within (by decide) _

theorem repxxPostfix_within (op : DISASM) : (repxxPostfix op : Emulator F Flow).Within R :=
  .ite
    (.bind (assert_within _) fun _ =>
      .ite (.bind decrementECX_within fun _ => .bind cpuFlags_within fun _ => .ite (.pure _)
        (.pure _))
        (.ite (.bind decrementECX_within fun _ => .bind cpuFlags_within fun _ => .ite (.pure _)
          (.pure _))
          (.pure _)))
    (.pure _)

theorem repeated_within {body : DISASM→Emulator F Unit} (h : ∀op,(body op).Within R) (op : DISASM) :
    (repeated body op).Within R :=
  .bind (repxxPrefix_within op) fun _ =>
    .ite (.pure _) (.bind (assertSameSize_within op) fun _ => .bind (h op) fun _ =>
      repxxPostfix_within op)

theorem advance_within (op : DISASM) {name : FERegisterName} (h : name.LeavesEIP) :
    (advance op name : Emulator F Unit).Within R :=
  .bind (register32_within _) fun _ => .bind cpuFlags_within fun _ =>
    .ite (setRegister32_within h _) (setRegister32_within h _)

theorem copyArg_within (op : DISASM) : (copyArg op : Emulator F Unit).Within R :=
  .bind (loadArg2_within op) fun _ => storeValueInArg_within _ _

theorem cmps_within (op : DISASM) : (cmps op : Emulator F Flow).Within SameFetch :=
  repeated_within (fun op => .bind (loadArg1_within op) fun _ => .bind (loadArg2_within op) fun _ =>
    .bind (bitWidth_within _) fun _ => .bind (binary_within _ _ _ _) fun _ =>
      .bind (advance_within op (by decide)) fun _ => advance_within op (by decide)) op

theorem scas_within (op : DISASM) : (scas op : Emulator F Flow).Within SameFetch :=
  repeated_within (fun op => .bind (loadArg1_within op) fun _ => .bind (loadArg2_within op) fun _ =>
    .bind (bitWidth_within _) fun _ => .bind (binary_within _ _ _ _) fun _ =>
      .bind_returns (registerFromArgtype_returns _ _ .k32bit)
        (register32FromArgtype_within _ _) fun _ h =>
        advance_within op h) op

theorem stos_within (op : DISASM) : (stos op : Emulator F Flow).Within R :=
  repeated_within (fun op => .bind (copyArg_within op) fun _ => advance_within op (by decide)) op

theorem movs_within (op : DISASM) : (movs op : Emulator F Flow).Within R :=
  repeated_within (fun op => .bind (copyArg_within op) fun _ =>
    .bind (advance_within op (by decide)) fun _ => advance_within op (by decide)) op

theorem lods_within (op : DISASM) : (lods op : Emulator F Flow).Within R :=
  repeated_within (fun op => .bind (copyArg_within op) fun _ => advance_within op (by decide)) op

end Strings

section Conditional
variable {R : FEProcess F→FEProcess F→Prop} [FrameRelation R]

theorem moveIf_within (taken : FECPUFlags→Bool) (op : DISASM) :
    (moveIf taken op : Emulator F Flow).Within R :=
  .bind (loadArg2_within op) fun _ => .bind cpuFlags_within fun _ =>
    .ite (.bind (storeValueInArg_within _ _) fun _ => .pure _) (.pure _)

theorem setIf_within (taken : FECPUFlags→Bool) (op : DISASM) :
    (setIf taken op : Emulator F Flow).Within R :=
  .bind cpuFlags_within fun _ => .bind (storeValueInArg_within _ _) fun _ => .pure _

end Conditional

section Frames
variable {R : FEProcess F→FEProcess F→Prop} [FrameRelation R]

theorem leave_within (op : DISASM) : (leave op : Emulator F Flow).Within R :=
  .bind (register32_within _) fun _ => .bind (setRegister32_within (by decide) _) fun _ =>
    .bind pop32_within fun _ => .bind (setRegister32_within (by decide) _) fun _ => .pure _

theorem enterLevels_within (n : ℕ) : (enterLevels n : Emulator F Unit).Within R := by
  induction n with
  | zero => exact .pure _
  | succ n ih =>
    exact .bind (register32_within _) fun _ => .bind (setRegister32_within (by decide) _) fun _ =>
      .bind (push32_within _) fun _ => ih

theorem enter_within (op : DISASM) : (enter op : Emulator F Flow).Within R :=
  .bind .get fun _ => .bind (assert_within _) fun _ => .bind (register32_within _) fun _ =>
    .bind (push32_within _) fun _ => .bind (register32_within _) fun _ =>
      .bind (.ite (.bind (enterLevels_within _) fun _ => push32_within _) (.pure _)) fun _ =>
        .bind (setRegister32_within (by decide) _) fun _ => .bind (register32_within _) fun _ =>
          .bind (setRegister32_within (by decide) _) fun _ => .pure _

/-- The jump to the next instruction writes no register but `EIP`. -/
theorem jumpToNextInstr_thread {env : Environment F} {s t : FEProcess F}
    (h : jumpToNextInstr env s=.ok ((),t)) :
    ∃v,t.currentThread=s.currentThread.setRegister32 .kEIP v := by
  obtain ⟨op,u,hderef,h⟩ := Exec.bind_eq_ok.mp h
  obtain ⟨_,rfl⟩ := derefOp_eq_ok.mp hderef
  obtain ⟨s',v,hget,h⟩ := Exec.bind_eq_ok.mp h
  cases hget
  obtain ⟨_,w,hset,h⟩ := Exec.bind_eq_ok.mp h
  cases hset
  exact ⟨_,updateDisasmFromContext_thread h⟩

end Frames

section FPU

theorem setFPU_within (change : FEFPU F→FEFPU F) :
    (setFPU change : Emulator F Unit).Within SameFetch :=
  .modify fun _ => ⟨rfl,rfl,rfl,rfl,rfl⟩

theorem storeReal_within (arg : ARGTYPE) (n v : ℕ) :
    (storeReal arg n v : Emulator F Unit).Within SameFetch :=
  .bind (addressFromArgtype_within _) fun _ => store_within fun _ _ => Memory.store_map

theorem compareFlags_within (st0 source : F) :
    (compareFlags st0 source : Emulator F Unit).Within SameFetch :=
  .bind float_within fun _ => setFPU_within _

theorem pushReal_within (v : F) : (pushReal v : Emulator F Unit).Within SameFetch :=
  .bind (setFPU_within _) fun _ => setFPU_within _

theorem combineDouble_within (op : DISASM) (combine : HostFloat F→F→BitVec 64→F) :
    (combineDouble op combine : Emulator F Unit).Within SameFetch :=
  .bind (fpuRegister_within _) fun _ => .bind (loadDouble_within _) fun _ =>
    .bind float_within fun _ =>
    setFPU_within _

theorem combineFloat_within (op : DISASM) (combine : HostFloat F→U32→U32→U32) :
    (combineFloat op combine : Emulator F Unit).Within SameFetch :=
  .bind float_within fun _ => .bind (fpuRegister_within _) fun _ =>
    .bind (loadFloat_within _) fun _ =>
    setFPU_within _

theorem combineRegister_within (arg : ARGTYPE) (combine : HostFloat F→F→F→F) :
    (combineRegister arg combine : Emulator F Unit).Within SameFetch :=
  .bind (fpuRegisterFromArgtype_within _) fun _ => .bind (fpuRegister_within _) fun _ =>
    .bind (fpuRegister_within _) fun _ => .bind float_within fun _ => setFPU_within _

theorem combineIntoST1_within (combine : HostFloat F→F→F→F) :
    (combineIntoST1 combine : Emulator F Unit).Within SameFetch :=
  .bind (fpuRegister_within _) fun _ => .bind (fpuRegister_within _) fun _ =>
    .bind float_within fun _ =>
    .bind (setFPU_within _) fun _ => setFPU_within _

theorem instructionFPUDC_within (op : DISASM) (modrm : U8) :
    (instructionFPUDC op modrm : Emulator F Unit).Within SameFetch :=
  .ite
    (.ite (combineDouble_within _ _) <| .ite (combineDouble_within _ _) <|
      .ite (.bind (fpuRegister_within _) fun _ => .bind (loadDouble_within _) fun _ =>
        .bind float_within fun _ =>
        .bind (compareFlags_within _ _) fun _ => .ite (setFPU_within _) (.pure _)) <|
      .ite (combineDouble_within _ _) <| .ite (combineDouble_within _ _) <|
        .ite (combineDouble_within _ _)
        unimplemented_within)
    (.ite
      (.bind (fpuRegisterFromArgtype_within _) fun _ => .bind (fpuRegister_within _) fun _ =>
        .bind (fpuRegister_within _) fun _ => .bind float_within fun _ => setFPU_within _)
      unimplemented_within)

theorem instructionFPUD8_within (op : DISASM) (modrm : U8) :
    (instructionFPUD8 op modrm : Emulator F Unit).Within SameFetch :=
  .ite
    (.ite (combineFloat_within _ _) <|
      .ite (.bind (fpuRegister_within _) fun _ => .bind (loadFloat_within _) fun _ =>
        .bind float_within fun _ =>
        setFPU_within _) <|
      .ite (combineFloat_within _ _) <| .ite (combineFloat_within _ _) unimplemented_within) <|
  .ite (combineRegister_within _ _) <|
  .ite (.bind (fpuRegisterFromArgtype_within _) fun _ => .bind (fpuRegister_within _) fun _ =>
    .bind (fpuRegister_within _) fun _ => .bind (compareFlags_within _ _) fun _ =>
      setFPU_within _) <|
  .ite (combineRegister_within _ _) <| .ite (combineRegister_within _ _) unimplemented_within

theorem instructionFPUDF_within (op : DISASM) (modrm : U8) :
    (instructionFPUDF op modrm : Emulator F Unit).Within SameFetch :=
  .ite
    (.ite (.bind (setFPU_within _) fun _ => .bind (loadDouble_within _) fun _ =>
      .bind float_within fun _ =>
        setFPU_within _) <|
      .ite (.bind (fpuRegister_within _) fun _ => .bind float_within fun _ =>
        .bind (assert_within _) fun _ =>
        .bind (storeReal_within _ _ _) fun _ => setFPU_within _)
        unimplemented_within)
    (.ite (.bind fpu_within fun _ => setRegister16_within (by decide) _) unimplemented_within)

theorem instructionFPUDD_within (op : DISASM) (modrm : U8) :
    (instructionFPUDD op modrm : Emulator F Unit).Within SameFetch :=
  .ite
    (.ite (.bind (setFPU_within _) fun _ => .bind (loadDouble_within _) fun _ =>
      .bind float_within fun _ =>
        setFPU_within _) <|
      .ite (.bind float_within fun _ => .bind (fpuRegister_within _) fun _ =>
        storeReal_within _ _ _) <|
      .ite (.bind float_within fun _ => .bind (fpuRegister_within _) fun _ =>
        .bind (storeReal_within _ _ _) fun _ => setFPU_within _) <|
      .ite (.bind fpu_within fun _ => storeValueInArg_within _ _) unimplemented_within)
    (.ite (.bind (fpuRegisterFromArgtype_within _) fun _ => .bind (fpuRegister_within _) fun _ =>
      .bind (setFPU_within _) fun _ => setFPU_within _) unimplemented_within)

theorem instructionFPUDE_within (op : DISASM) (modrm : U8) :
    (instructionFPUDE op modrm : Emulator F Unit).Within SameFetch :=
  .ite unimplemented_within <|
  .ite (.bind (fpuRegisterFromArgtype_within _) fun _ => .bind (fpuRegister_within _) fun _ =>
    .bind (fpuRegister_within _) fun _ => .bind float_within fun _ =>
      .bind (setFPU_within _) fun _ =>
      setFPU_within _) <|
  .ite (combineIntoST1_within _) <|
  .ite (.bind (fpuRegister_within _) fun _ => .bind (fpuRegister_within _) fun _ =>
    .bind (compareFlags_within _ _) fun _ => .bind (setFPU_within _) fun _ => setFPU_within _) <|
  .ite (combineIntoST1_within _) <|
  .ite (.bind (fpuRegisterFromArgtype_within _) fun _ => .bind (fpuRegister_within _) fun _ =>
    .bind (fpuRegister_within _) fun _ => .bind float_within fun _ =>
      .bind (setFPU_within _) fun _ =>
      setFPU_within _) unimplemented_within

theorem memoryFormD9_within (op : DISASM) : (memoryFormD9 op : Emulator F Unit).Within SameFetch :=
  .ite (.bind (setFPU_within _) fun _ => .bind (loadFloat_within _) fun _ =>
    .bind float_within fun _ =>
    setFPU_within _) <|
  .ite (.bind float_within fun _ => .bind (fpuRegister_within _) fun _ => storeReal_within _ _ _) <|
  .ite (.bind (assert_within _) fun _ => .bind (loadArgValue_within _ _) fun _ =>
    setFPU_within _) <|
  .ite (.bind (assert_within _) fun _ => .bind fpu_within fun _ => storeValueInArg_within _ _)
    unimplemented_within

theorem registerFormD9_within (modrm : U8) :
    (registerFormD9 modrm : Emulator F Unit).Within SameFetch :=
  .bind float_within fun _ => .bind (fpuRegister_within _) fun _ =>
    .bind (fpuRegister_within _) fun _ =>
    .ite (setFPU_within _) <| .ite (setFPU_within _) <| .ite (compareFlags_within _ _) <|
    .ite (pushReal_within _) <| .ite (pushReal_within _) <| .ite (pushReal_within _) <|
    .ite (pushReal_within _) <| .ite (setFPU_within _) <| .ite (setFPU_within _) <|
    .ite (setFPU_within _) <| .ite (setFPU_within _) unimplemented_within

theorem instructionFPUD9_within (op : DISASM) (modrm : U8) :
    (instructionFPUD9 op modrm : Emulator F Unit).Within SameFetch :=
  .ite (memoryFormD9_within op) <|
  .ite (.bind (fpuRegisterFromArgtype_within _) fun _ => .bind (fpuRegister_within _) fun _ =>
    pushReal_within _) <|
  .ite (.bind (fpuRegister_within _) fun _ => .bind (fpuRegister_within _) fun _ =>
    .bind (setFPU_within _) fun _ => setFPU_within _) <|
  registerFormD9_within modrm

theorem instructionFPUDB_within (op : DISASM) (modrm : U8) :
    (instructionFPUDB op modrm : Emulator F Unit).Within SameFetch :=
  .ite
    (.ite (.bind (setFPU_within _) fun _ => .bind (loadArgValue_within _ _) fun _ =>
      .bind float_within fun _ =>
        setFPU_within _) <|
      .ite (.bind (fpuRegister_within _) fun _ => .bind float_within fun _ =>
        .bind (storeValueInArg_within _ _) fun _ => setFPU_within _)
        unimplemented_within)
    (.ite (setFPU_within _) unimplemented_within)

/-- No floating-point instruction moves `eip` or fetches. -/
theorem fpuBranches_within : ∀branch∈fpuBranches (F:=F),∀op modrm,
    (branch.body op modrm).Within SameFetch := by
  simp only [fpuBranches,List.forall_mem_cons]
  exact ⟨instructionFPUDB_within,instructionFPUD9_within,fun _ _ => .pure _,instructionFPUD8_within,
    instructionFPUDD_within,instructionFPUDE_within,instructionFPUDC_within,instructionFPUDF_within,
      by simp⟩

end FPU

end Emulator
end FalloutEmu
