import FalloutEmu.CompareAndBranch

/-! # Integers in the x87 registers: `FILD`, `FISTP` and the sign of what was loaded -/
namespace FalloutEmu.FPUIntegers
open ByteStore Emulator
open CompareAndBranch (Comparison compare_run)
open Repetition (load_run store_run)
variable {F : Type} {env : Environment F} {s t : FEProcess F}

section Reads

/-- A part of the program that changes nothing and does not look at the FPU. -/
def IgnoresFPU {α : Type} (x : Emulator F α) : Prop :=
  ∀env s a t,x env s=.ok (a,t)→t=s ∧ ∀fpu,x env (s.withFPU fpu)=.ok (a,s.withFPU fpu)

namespace IgnoresFPU
variable {α β : Type} {x y : Emulator F α}

theorem pure (a : α) : IgnoresFPU (pure a : Emulator F α) := by
  intro env s b t h
  cases h
  exact ⟨rfl,fun _ => rfl⟩

theorem fail (stop : Stop) : IgnoresFPU (Exec.fail stop : Emulator F α) := by
  intro env s b t h
  cases h

theorem bind {f : α→Emulator F β} (hx : IgnoresFPU x) (hf : ∀a,IgnoresFPU (f a)) :
    IgnoresFPU (x >>= f) := by
  intro env s b t h
  obtain ⟨a,u,hrun,hrest⟩ := Exec.bind_eq_ok.mp h
  obtain ⟨rfl,hother⟩ := hx env s a u hrun
  obtain ⟨rfl,hother'⟩ := hf a env u b t hrest
  refine ⟨rfl,fun fpu => ?_⟩
  rw [Exec.bind_run (hother fpu)]
  exact hother' fpu

theorem ite {c : Prop} [Decidable c] (hx : IgnoresFPU x) (hy : IgnoresFPU y) :
    IgnoresFPU (if c then x else y) := by
  split
  · exact hx
  · exact hy

theorem assert (condition : Bool) : IgnoresFPU (Emulator.assert condition : Emulator F Unit) := by
  intro env s a t h
  have hassert := Exec.atomic_eq_ok.mp h
  cases hc : assertThat env.build condition with
  | error stop =>
    rw [hc] at hassert
    cases hassert
  | ok u =>
    rw [hc] at hassert
    cases hassert
    refine ⟨rfl,fun fpu => Exec.atomic_eq_ok.mpr ?_⟩
    rw [hc]
    rfl

theorem throw : IgnoresFPU (Emulator.throw : Emulator F α) := (assert false).bind fun _ => fail _

theorem firstRegister (argtype : U32) (names : List α) (i : ℕ) :
    IgnoresFPU (firstRegister argtype names i : Emulator F α) := by
  induction names generalizing i with
  | nil => exact throw
  | cons name names ih => exact .ite (.pure _) (ih (i+1))

theorem readThread {read : FEThreadContext F→α} (h : ∀thread fpu,read { thread with fpu := fpu }=
    read thread) :
    IgnoresFPU (do return read (← thread) : Emulator F α) := by
  intro env s a t hrun
  cases hrun
  refine ⟨rfl,fun fpu => ?_⟩
  exact congrArg (fun a => Except.ok (a,s.withFPU fpu)) (h s.currentThread fpu)

theorem addressRegister (argtype : U32) : IgnoresFPU (addressRegister argtype : Emulator F U32) :=
  .ite (.bind (.bind (.assert _) fun _ => .firstRegister _ _ _) fun _ => .readThread fun _ _ => rfl)
    (.pure _)

theorem segRegisterFromNumber (number : U8) :
    IgnoresFPU (segRegisterFromNumber number : Emulator F FERegisterName) := by
  refine .bind (.assert _) fun _ => ?_
  split
  · exact .pure _
  · exact .fail _

theorem readLDT (selector : ℕ) (f : U32→α) :
    IgnoresFPU (do return f (← Exec.ofExcept ((← Exec.get).ldt.get selector)) : Emulator F α) := by
  intro env s a t h
  rw [Exec.bind_run (Exec.get_run env s)] at h
  obtain ⟨address,u,hget,hrest⟩ := Exec.bind_eq_ok.mp h
  obtain ⟨hslot,rfl⟩ := Exec.ofExcept_eq_ok.mp hget
  cases hrest
  refine ⟨rfl,fun fpu => ?_⟩
  have hother : Exec.ofExcept ((s.withFPU fpu).ldt.get selector) env (s.withFPU fpu)=
    .ok (address,s.withFPU fpu) :=
    Exec.ofExcept_eq_ok.mpr ⟨hslot,rfl⟩
  exact (Exec.bind_run (Exec.get_run env _)).trans ((Exec.bind_run hother).trans rfl)

theorem addressFromArgtype (arg : ARGTYPE) : IgnoresFPU (addressFromArgtype arg : Emulator F U32) :=
  .bind (.addressRegister _) fun _ => .bind (.addressRegister _) fun _ =>
    .bind (.segRegisterFromNumber _)
    fun _ => .bind (.readThread fun _ _ => rfl) fun _ => .readLDT _ _

end IgnoresFPU
end Reads
section Operands

/-- The memory operands of `FILD` and `FISTP` that the source implements. -/
inductive IntegerForm where
  | m32int
  | m64int

namespace IntegerForm

def bits : IntegerForm→ℕ
  | m32int => 32
  | m64int => 64

def bytes : IntegerForm→ℕ
  | m32int => 4
  | m64int => 8

def argSize : IntegerForm→U32
  | m32int => 32
  | m64int => 64

def opcode : IntegerForm→U32
  | m32int => 0xdb
  | m64int => 0xdf

def fild : IntegerForm→U32
  | m32int => 0
  | m64int => 5

def fistp : IntegerForm→U32
  | m32int => 3
  | m64int => 7

def handler : IntegerForm→DISASM→U8→Emulator F Unit
  | m32int => instructionFPUDB
  | m64int => instructionFPUDF

/-- The conversion of `ST(0)` to the unsigned variable that is stored. -/
def converted (float : HostFloat F) (st0 : F) : (form : IntegerForm)→BitVec form.bits
  | m32int => float.toUInt32 st0
  | m64int => float.toUInt64 st0

theorem bits_le (form : IntegerForm) : form.bits ≤ 64 := by
  cases form <;> decide

theorem select_opcode (form : IntegerForm) :
    select fpuBranches form.opcode=some (form.handler (F:=F)) := by
  cases form <;> rfl

end IntegerForm

structure OperandAt (env : Environment F) (s : FEProcess F) (arg : ARGTYPE)
    (size address : U32) : Prop where
  noRegister : ¬arg.ArgType&&&REGISTER_TYPE≠0
  memory : arg.ArgType&&&MEMORY_TYPE≠0
  size : arg.ArgSize=size
  address : addressFromArgtype arg env s=.ok (address,s)

/-- The instruction with this opcode in its memory form, as the decoder describes it. -/
structure IsMemoryForm (s : FEProcess F) (op : DISASM) (opcode regopcode : U32) : Prop where
  notGeneral : op.Instruction.Category&&&GENERAL_PURPOSE_INSTRUCTION=0
  category : op.Instruction.Category&&&FPU_INSTRUCTION≠0
  opcode : op.Instruction.Opcode=opcode
  modrm : s.modrm ≤ 0xbf
  regopcode : op.Reserved_.REGOPCODE=regopcode

def Stands (memory : Memory DisasmContext) (form : IntegerForm) (address : U32)
    (v : BitVec form.bits) : Prop :=
  memory.load address form.bytes=.ok (littleEndian form.bytes v.toNat)

theorem OperandAt.withFPU {arg : ARGTYPE} {size address : U32}
    (h : OperandAt env s arg size address) (fpu : FEFPU F) :
    OperandAt env (s.withFPU fpu) arg size address :=
  ⟨h.noRegister,h.memory,h.size,(IgnoresFPU.addressFromArgtype arg env s address s h.address).2 fpu⟩

/-- What is stored where something could be read is read back. -/
theorem store_of_load {memory : Memory DisasmContext} {address : U32} {n : ℕ} {old : List U8}
    (h : memory.load address n=.ok old) (bytes : List U8) :
    ∃memory',memory.store address bytes=.ok memory' ∧ memory'.load address bytes.length=
      .ok bytes := by
  obtain ⟨ptr,hptr,_⟩ := bind_eq_ok.mp h
  refine ⟨{ memory with host := writeAt memory.host ptr bytes },?_,?_⟩
  · rw [Memory.store,hptr]
    rfl
  · rw [Memory.load,hptr,ok_bind,readAt_writeAt_self]

theorem loadArgValue_run {arg : ARGTYPE} {address immediat : U32} {v : U32}
    (h : OperandAt env s arg 32 address) (hload : Stands s.memory .m32int address v) :
    loadArgValue arg immediat env s=.ok (v,s) := by
  have hassert : assertMemoryArg arg 32 env s=.ok ((),s) := by
    rw [assertMemoryArg,Exec.bind_run (assert_run (decide_eq_true h.memory))]
    exact assert_run (decide_eq_true h.size)
  have hbytes : s.memory.load address 4=.ok (littleEndian 4 v.toNat) := hload
  have hvalue : s.memory.value32AtAddress address=.ok v := by
    rw [Memory.value32AtAddress,hbytes,ok_bind,ofNat_value_littleEndian (n:=4) rfl]
  have hwidth : bitWidth 32 env s=.ok (.k32bit,s) := Emulator.bitWidth_run .k32bit
  rw [loadArgValue,if_neg h.noRegister,if_pos h.memory,h.size,Exec.bind_run hwidth]
  exact (Exec.bind_run hassert).trans ((Exec.bind_run h.address).trans (load_run hvalue))

theorem loadDouble_run {arg : ARGTYPE} {address : U32} {v : BitVec 64}
    (h : OperandAt env s arg 64 address) (hload : Stands s.memory .m64int address v) :
    loadDouble arg env s=.ok (v,s) := by
  have hvalue : s.memory.memcpyToRealFromVirtual address 8=.ok (littleEndian 8 v.toNat) := hload
  have hword : BitVec.ofNat 64 (value (littleEndian 8 v.toNat))=v :=
    ofNat_value_littleEndian (n:=8) rfl v
  rw [loadDouble,Exec.bind_run h.address,Exec.bind_run (load_run hvalue),hword]
  rfl

end Operands

section Instructions
variable {form : IntegerForm} {op : DISASM} {address : U32}

/-- `FILD` pushes the operand as the unsigned variable it is read into. -/
theorem fild_run {v : BitVec form.bits} (h : IsMemoryForm s op form.opcode form.fild)
    (harg : OperandAt env s op.Argument2 form.argSize address)
    (hload : Stands s.memory form address v) :
    execute op env s=.ok (.jumpToNextInstr,s.withFPU
      (s.currentThread.fpu.decrementTop.setRegister 0 (env.float.ofUInt64 (v.setWidth 64)))) := by
  refine execute_of_handler h.notGeneral h.category h.opcode form.select_opcode ?_
  have hpushed : setFPU FEFPU.decrementTop env s=
    .ok ((),s.withFPU s.currentThread.fpu.decrementTop) := rfl
  have harg' := harg.withFPU s.currentThread.fpu.decrementTop
  cases form with
  | m32int =>
    rw [IntegerForm.handler,instructionFPUDB,if_pos h.modrm,h.regopcode]
    exact (Exec.bind_run hpushed).trans ((Exec.bind_run (loadArgValue_run harg' hload)).trans rfl)
  | m64int =>
    rw [IntegerForm.handler,instructionFPUDF,if_pos h.modrm,h.regopcode]
    have hsame : BitVec.setWidth 64 v=v := BitVec.setWidth_eq (n:=64) v
    rw [hsame]
    exact (Exec.bind_run hpushed).trans ((Exec.bind_run (loadDouble_run harg' hload)).trans rfl)

/-- `FISTP` stores the unsigned variable that `ST(0)` is converted to. -/
theorem fistp_run {old : List U8} (h : IsMemoryForm s op form.opcode form.fistp)
    (harg : OperandAt env s op.Argument1 form.argSize address)
    (hwrite : op.Argument1.AccessMode=WRITE) (hmapped : s.memory.load address form.bytes=.ok old) :
    ∃t,execute op env s=.ok (.jumpToNextInstr,t) ∧
      Stands t.memory form address (form.converted env.float (s.currentThread.fpu.register 0)) := by
  let v := form.converted env.float (s.currentThread.fpu.register 0)
  obtain ⟨memory,hstore,hback⟩ := store_of_load hmapped (littleEndian form.bytes v.toNat)
  rw [length_littleEndian] at hback
  have hst0 : fpuRegister 0 env s=.ok (s.currentThread.fpu.register 0,s) := rfl
  have hfloat : float env s=.ok (env.float,s) := rfl
  refine ⟨({ s with memory := memory } : FEProcess F).withFPU (s.currentThread.fpu.setTag 0
    .kEmpty).incrementTop,execute_of_handler h.notGeneral h.category h.opcode form.select_opcode ?_,
    hback⟩
  cases form with
  | m32int =>
    have hassert : assertMemoryArg op.Argument1 32 env s=.ok ((),s) := by
      rw [assertMemoryArg,Exec.bind_run (assert_run (decide_eq_true harg.memory))]
      exact assert_run (decide_eq_true harg.size)
    have haccess : assert (op.Argument1.AccessMode=WRITE) env s=.ok ((),s) :=
      assert_run (decide_eq_true hwrite)
    have hwidth : bitWidth op.Argument1.ArgSize env s=.ok (.k32bit,s) := by
      rw [harg.size]
      exact Emulator.bitWidth_run .k32bit
    have hstored : storeValueInArg op.Argument1
      (env.float.toUInt32 (s.currentThread.fpu.register 0)) env s=
        .ok ((),{ s with memory := memory }) := by
      rw [storeValueInArg,if_neg harg.noRegister,if_pos harg.memory,Exec.bind_run hwidth]
      exact (Exec.bind_run hassert).trans ((Exec.bind_run haccess).trans
        ((Exec.bind_run harg.address).trans (store_run hstore)))
    rw [IntegerForm.handler,instructionFPUDB,if_pos h.modrm,h.regopcode]
    exact (Exec.bind_run hst0).trans ((Exec.bind_run hfloat).trans
      ((Exec.bind_run hstored).trans rfl))
  | m64int =>
    have hsize : assert (op.Argument1.ArgSize/8=8) env s=.ok ((),s) := by
      rw [harg.size]
      exact assert_run rfl
    have hstored : storeReal op.Argument1 8 v.toNat env s=.ok ((),{ s with memory := memory }) :=
      (Exec.bind_run harg.address).trans (store_run hstore)
    rw [IntegerForm.handler,instructionFPUDF,if_pos h.modrm,h.regopcode]
    exact (Exec.bind_run hst0).trans ((Exec.bind_run hfloat).trans ((Exec.bind_run hsize).trans
      ((Exec.bind_run hstored).trans rfl)))

end Instructions

section Signed

/-- A `long double` in which the whole numbers of up to 64 bits are exact; the conversions to
unsigned types are known where C defines them. -/
structure ExactIntegers [LinearOrder F] (float : HostFloat F) (exact : ℤ→F) : Prop where
  ofUInt64 : ∀v,float.ofUInt64 v=exact v.toNat
  toUInt64 : ∀n : ℕ,n<2^64→float.toUInt64 (exact n)=.ofNat 64 n
  toUInt32 : ∀n : ℕ,n<2^32→float.toUInt32 (exact n)=.ofNat 32 n
  lt : ∀a b,float.lt a b=decide (a<b)
  exact_lt : ∀m n : ℤ,|m| ≤ 2^64→|n| ≤ 2^64→(exact m<exact n ↔ m < n)
  neg : ∀n : ℤ,|n| ≤ 2^64→float.neg (exact n)=exact (-n)

structure IsFILD (env : Environment F) (s : FEProcess F) (op : DISASM) (form : IntegerForm)
    (v : BitVec form.bits) :
    Prop where
  decoded : IsMemoryForm s op form.opcode form.fild
  operand : ∃address,OperandAt env s op.Argument2 form.argSize address ∧
    Stands s.memory form address v

/-- The instruction is a `FISTP` to this address. -/
structure IsFISTP (env : Environment F) (s : FEProcess F) (op : DISASM) (form : IntegerForm)
    (address : U32) : Prop where
  decoded : IsMemoryForm s op form.opcode form.fistp
  operand : OperandAt env s op.Argument1 form.argSize address
  access : op.Argument1.AccessMode=WRITE
  mapped : ∃old,s.memory.load address form.bytes=.ok old

structure IsFCHS (s : FEProcess F) (op : DISASM) : Prop where
  notGeneral : op.Instruction.Category&&&GENERAL_PURPOSE_INSTRUCTION=0
  category : op.Instruction.Category&&&FPU_INSTRUCTION≠0
  opcode : op.Instruction.Opcode=0xd9
  modrm : s.modrm=0xe0

variable (env) (exact : ℤ→F) (form : IntegerForm) (v : BitVec form.bits)

def LoadsSigned : Prop := ∀s op,IsFILD env s op form v→
  ∃t,execute op env s=.ok (.jumpToNextInstr,t) ∧ t.currentThread.fpu.register 0=exact v.toInt

def StoresSigned : Prop := ∀s op address,IsFISTP env s op form address→
    s.currentThread.fpu.register 0=exact v.toInt→
  ∃t,execute op env s=.ok (.jumpToNextInstr,t) ∧ Stands t.memory form address v

/-- `FISTP` stores the word that `FILD` has loaded; in between the next instruction is fetched. -/
def RoundTrips : Prop := ∀s op t,IsFILD env s op form v→execute op env s=.ok (.jumpToNextInstr,t)→
  ∀s' op' address,s'.currentThread.fpu=t.currentThread.fpu→IsFISTP env s' op' form address→
    ∃u,execute op' env s'=.ok (.jumpToNextInstr,u) ∧ Stands u.memory form address v

/-- A comparison of `ST(0)` with a whole number has the outcome that the signed value has: `C0` is
`<` and `C3` is `=`. -/
def ComparesSigned : Prop := ∀s op t,IsFILD env s op form v→execute op env s=
    .ok (.jumpToNextInstr,t)→
  ∀(s' : FEProcess F) (op' : DISASM) (comparison : Comparison) (c : ℤ),
    s'.currentThread.fpu=t.currentThread.fpu→comparison.Decoded env s' op'→
    comparison.source env.float s'.currentThread.fpu=exact c→|c| ≤ 2^64→
    ∃u,execute op' env s'=.ok (.jumpToNextInstr,u) ∧ u.currentThread.fpu.statusWord.getLsbD 8=
      decide (v.toInt<c) ∧
      u.currentThread.fpu.statusWord.getLsbD 14=decide (v.toInt=c)

/-- `FCHS` changes the sign of the signed value. -/
def NegatesSigned : Prop := ∀s op t,IsFILD env s op form v→execute op env s=
    .ok (.jumpToNextInstr,t)→
  ∀s' op',s'.currentThread.fpu=t.currentThread.fpu→IsFCHS s' op'→
    ∃u,execute op' env s'=.ok (.jumpToNextInstr,u) ∧ u.currentThread.fpu.register 0=exact (-v.toInt)

structure SignedIntegers : Prop where
  loads : LoadsSigned env exact form v
  stores : StoresSigned env exact form v
  roundTrips : RoundTrips env form v
  compares : ComparesSigned env exact form v
  negates : NegatesSigned env exact form v

variable {env exact form v}

theorem register_setRegister (fpu : FEFPU F) (v : F) : (fpu.setRegister 0 v).register 0=v :=
  if_pos rfl

theorem toNat_lt (v : BitVec form.bits) : v.toNat<2^64 :=
  v.isLt.trans_le (Nat.pow_le_pow_right (by decide) form.bits_le)

theorem toInt_of_nonneg {w : ℕ} {v : BitVec w} (h : 0 ≤ v.toInt) : v.toInt=v.toNat := by
  have hlt := v.isLt
  rw [BitVec.toInt_eq_toNat_cond] at h ⊢
  split at h
  · next hhalf => rw [if_pos hhalf]
  · omega

theorem abs_toInt_le (v : BitVec form.bits) : |v.toInt| ≤ 2^64 := by
  have hlt := toNat_lt v
  have hpow : (2 : ℕ)^form.bits ≤ 2^64 := Nat.pow_le_pow_right (by decide) form.bits_le
  rw [BitVec.toInt_eq_toNat_cond,abs_le]
  split <;> constructor <;> omega

variable [LinearOrder F]

theorem ExactIntegers.injective (h : ExactIntegers env.float exact) {m n : ℤ} (hm : |m| ≤ 2^64)
    (hn : |n| ≤ 2^64) (heq : exact m=exact n) : m=n := by
  have hmn : ¬m < n := fun hlt => ((h.exact_lt m n hm hn).mpr hlt).ne heq
  have hnm : ¬n < m := fun hlt => ((h.exact_lt n m hn hm).mpr hlt).ne' heq
  omega

theorem ExactIntegers.fild (h : ExactIntegers env.float exact) {op : DISASM}
    (hop : IsFILD env s op form v) :
    ∃t,execute op env s=.ok (.jumpToNextInstr,t) ∧ t.currentThread.fpu.register 0=
      exact v.toNat := by
  obtain ⟨address,harg,hstands⟩ := hop.operand
  refine ⟨_,fild_run hop.decoded harg hstands,?_⟩
  have hwide : (v.setWidth 64).toNat=v.toNat := by
    rw [BitVec.toNat_setWidth,Nat.mod_eq_of_lt (toNat_lt v)]
  refine (register_setRegister _ _).trans ?_
  rw [h.ofUInt64,hwide]

theorem ExactIntegers.converted (h : ExactIntegers env.float exact) (v : BitVec form.bits) :
    form.converted env.float (exact v.toNat)=v := by
  cases form with
  | m32int => exact (h.toUInt32 v.toNat v.isLt).trans ((BitVec.ofNat_toNat 32 v).trans
    (BitVec.setWidth_eq v))
  | m64int => exact (h.toUInt64 v.toNat v.isLt).trans ((BitVec.ofNat_toNat 64 v).trans
    (BitVec.setWidth_eq v))

theorem ExactIntegers.fistp (h : ExactIntegers env.float exact) {op : DISASM} {address : U32}
    (hop : IsFISTP env s op form address) (hst0 : s.currentThread.fpu.register 0=exact v.toNat) :
    ∃t,execute op env s=.ok (.jumpToNextInstr,t) ∧ Stands t.memory form address v := by
  obtain ⟨old,hmapped⟩ := hop.mapped
  obtain ⟨t,hrun,hstands⟩ := fistp_run hop.decoded hop.operand hop.access hmapped
  rw [hst0,h.converted] at hstands
  exact ⟨t,hrun,hstands⟩

/-- Both conversions are unsigned, so they undo each other. -/
theorem roundTrips (h : ExactIntegers env.float exact) : RoundTrips env form v := by
  intro s op t hop hrun s' op' address hfpu hop'
  obtain ⟨t',hrun',hst0⟩ := h.fild hop
  cases hrun.symm.trans hrun'
  exact h.fistp hop' (by rw [hfpu,hst0])

theorem signed_of_nonneg (h : ExactIntegers env.float exact) (hv : 0 ≤ v.toInt) :
    SignedIntegers env exact form v where
  loads s op hop := by
    rw [toInt_of_nonneg hv]
    exact h.fild hop
  stores s op address hop hst0 := h.fistp hop (by rw [hst0,toInt_of_nonneg hv])
  roundTrips := roundTrips h
  compares s op t hop hrun s' op' comparison c hfpu hdecoded hsource hc := by
    obtain ⟨t',hrun',hst0⟩ := h.fild hop
    cases hrun.symm.trans hrun'
    have habs := abs_toInt_le v
    rw [toInt_of_nonneg hv] at habs ⊢
    obtain ⟨fpu,hcompare,hcompared⟩ := compare_run h.lt hdecoded
    refine ⟨_,hcompare,hcompared.c0.trans ?_,hcompared.c3.trans ?_⟩
    · rw [hsource,hfpu,hst0]
      exact decide_eq_decide.mpr (h.exact_lt _ _ habs hc)
    · rw [hsource,hfpu,hst0]
      exact decide_eq_decide.mpr ⟨h.injective habs hc,congrArg exact⟩
  negates s op t hop hrun s' op' hfpu hop' := by
    obtain ⟨t',hrun',hst0⟩ := h.fild hop
    cases hrun.symm.trans hrun'
    have habs := abs_toInt_le v
    rw [toInt_of_nonneg hv] at habs ⊢
    have hbody : instructionFPUD9 op' s'.modrm env s'=
      .ok ((),s'.withFPU (s'.currentThread.fpu.setRegister 0
        (env.float.neg (s'.currentThread.fpu.register 0)))) := by
      rw [hop'.modrm]
      rfl
    refine ⟨_,execute_of_handler hop'.notGeneral hop'.category hop'.opcode rfl hbody,?_⟩
    refine (register_setRegister _ _).trans ?_
    rw [hfpu,hst0,h.neg _ habs]

end Signed

section Probe

def pageMap : FEMemoryMap DisasmContext := .ofBlocks [(⟨1,0,0x1000,0x1000,0,true,[]⟩,.readWrite)]

def holding [Inhabited F] (form : IntegerForm) (v : BitVec form.bits) : FEProcess F :=
  { FEProcess.ofFPU (default : FEFPU F) 0 with
    memory := ⟨pageMap,writeAt (fun _ => 0) 0 (littleEndian form.bytes v.toNat)⟩ }

def fildRecord (form : IntegerForm) : DISASM :=
  { (default : DISASM) with
    Instruction := { (default : INSTRTYPE) with Category := FPU_INSTRUCTION,Opcode := form.opcode }
    Argument2 := { (default : ARGTYPE) with
      ArgType := MEMORY_TYPE,ArgSize := form.argSize,SegmentReg := 1 }
    Reserved_ := { (default : InternalDatas) with REGOPCODE := form.fild } }

theorem isFILD_record [Inhabited F] (env : Environment F) (form : IntegerForm)
    (v : BitVec form.bits) :
    IsFILD env (holding form v) (fildRecord form) form v where
  decoded := ⟨(by decide : FPU_INSTRUCTION&&&GENERAL_PURPOSE_INSTRUCTION=0),
    (by decide : FPU_INSTRUCTION&&&FPU_INSTRUCTION≠0),rfl,(by decide : (0 : U8) ≤ 0xbf),rfl⟩
  operand := by
    refine ⟨0,⟨(by decide : ¬MEMORY_TYPE&&&REGISTER_TYPE≠0),
      (by decide : MEMORY_TYPE&&&MEMORY_TYPE≠0),rfl,?_⟩,?_⟩
    · obtain ⟨build,_,_,_,_⟩ := env
      cases build <;> rfl
    · have hread : readAt (writeAt (fun _ => 0) 0 (littleEndian form.bytes v.toNat)) 0 form.bytes=
          littleEndian form.bytes v.toNat := by
        have hself := readAt_writeAt_self (fun _ => 0) 0 (littleEndian form.bytes v.toNat)
        rwa [length_littleEndian] at hself
      exact congrArg Except.ok hread

/-- A load that pushes the signed value has pushed the unsigned one. -/
theorem nonneg_of_loadsSigned [LinearOrder F] {env : Environment F} {exact : ℤ→F}
    {form : IntegerForm} {v : BitVec form.bits} (h : ExactIntegers env.float exact)
    (hloads : LoadsSigned env exact form v) : 0 ≤ v.toInt := by
  let inhabited : Inhabited F := ⟨exact 0⟩
  have hop := isFILD_record env form v
  obtain ⟨t,hrun,hsigned⟩ := hloads _ _ hop
  obtain ⟨t',hrun',hunsigned⟩ := h.fild hop
  cases hrun.symm.trans hrun'
  have hlt := toNat_lt v
  have habs : |(v.toNat : ℤ)| ≤ 2^64 := by
    rw [abs_le]
    omega
  rw [h.injective (abs_toInt_le v) habs (hsigned.symm.trans hunsigned)]
  exact Int.natCast_nonneg _

end Probe

/-- Loads and stores of a word are signed exactly where its sign bit is clear. -/
theorem signedIntegers_iff [LinearOrder F] {exact : ℤ→F} (h : ExactIntegers env.float exact)
    (form : IntegerForm) (v : BitVec form.bits) : SignedIntegers env exact form v ↔ 0 ≤ v.toInt :=
  ⟨fun hsigned => nonneg_of_loadsSigned h hsigned.loads,signed_of_nonneg h⟩

def integerHost : HostFloat ℤ :=
  { (default : HostFloat ℤ) with
    ofUInt64 := fun v => v.toNat
    toUInt64 := fun n => .ofInt 64 n
    toUInt32 := fun n => .ofInt 32 n
    lt := fun a b => decide (a<b)
    neg := fun n => -n }

theorem exactIntegers_integerHost : ExactIntegers (Environment.ofFloat integerHost).float id where
  ofUInt64 _ := rfl
  toUInt64 n _ := BitVec.ofInt_natCast 64 n
  toUInt32 n _ := BitVec.ofInt_natCast 32 n
  lt _ _ := rfl
  exact_lt _ _ _ _ := Iff.rfl
  neg _ _ := rfl

theorem signedIntegers_five :
    SignedIntegers (Environment.ofFloat integerHost) id .m32int (5 : U32) :=
  (signedIntegers_iff exactIntegers_integerHost .m32int 5).mpr (by decide)

/-- The double word -1 is loaded as 4294967295. -/
theorem signedIntegers_minus_one :
    ¬SignedIntegers (Environment.ofFloat integerHost) id .m32int (-1 : U32) := by
  intro h
  exact absurd (nonneg_of_loadsSigned exactIntegers_integerHost h.loads) (by decide)

end FalloutEmu.FPUIntegers
