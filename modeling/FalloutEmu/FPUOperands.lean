import FalloutEmu.Interpreter
import FalloutEmu.RegisterFile
import FalloutEmu.RegisterStack

/-! # Which stack registers the x87 instructions combine -/
namespace FalloutEmu

def FEProcess.withFPU {F : Type} (s : FEProcess F) (fpu : FEFPU F) : FEProcess F :=
  s.withThread { s.currentThread with fpu := fpu }

def FEProcess.ofFPU {F : Type} [Inhabited F] (fpu : FEFPU F) (modrm : U8) : FEProcess F where
  memory := ⟨.create 0x1000,fun _ => 0⟩
  ldt := ⟨1,fun _ => 0⟩
  currentThread := { (default : FEThreadContext F) with fpu := fpu }
  importsProxy := none
  exit := false
  exitCode := 0
  instructionCounter := 0
  dummyOp := default
  op := .dummyOp
  len := 0
  modrm := modrm

/-- An environment of which such a process only asks the arithmetic. -/
def Environment.ofFloat {F : Type} (float : HostFloat F) : Environment F where
  build := .debug
  disasm := fun record _ => (record,0)
  float := float
  undefinedFlags := default
  executeFunction := fun _ => Exec.fail .exception

namespace FPUOperands
open Emulator RegisterStack
open CircularStack (cellOf cellOf_injective)
variable {F : Type} {env : Environment F} {s : FEProcess F}

/-- The operand type that names `ST(i)`: of the bits from `REG0` on, only the one of the register is
set. -/
structure NamesST (argtype : U32) (i : FEFPURegisterName) : Prop where
  fpu : argtype&&&FPU_REG≠0
  register : ∀j : FEFPURegisterName,argtype.getLsbD j.val=decide (j=i)

theorem firstRegister_run {α : Type} {argtype : U32} {names : List α} {name : α} {n k : ℕ}
    (hname : names[k]?=some name) (hset : argtype.getLsbD (n+k)=true)
    (hbelow : ∀j<k,argtype.getLsbD (n+j)=false) :
    firstRegister argtype names n env s=.ok (name,s) := by
  induction names generalizing n k with
  | nil => cases hname
  | cons first names ih =>
    cases k with
    | zero =>
      cases hname
      have hbit : argtype.getLsbD n=true := hset
      rw [firstRegister,if_pos hbit]
      rfl
    | succ k =>
      have hbit : ¬argtype.getLsbD n=true := ne_true_of_eq_false (hbelow 0 k.succ_pos)
      rw [firstRegister,if_neg hbit]
      apply ih hname
      · rwa [Nat.add_right_comm]
      · intro j hj
        rw [Nat.add_right_comm]
        exact hbelow (j+1) (Nat.succ_lt_succ hj)

theorem fpuRegisterFromArgtype_run {argtype : U32} {i : FEFPURegisterName} (h : NamesST argtype i) :
    fpuRegisterFromArgtype argtype env s=.ok (i,s) := by
  have hassert : assert (argtype&&&FPU_REG≠0) env s=.ok ((),s) := assert_run (decide_eq_true h.fpu)
  have hname : ∀k : FEFPURegisterName,([0,1,2,3,4,5,6,7] : List FEFPURegisterName)[k.val]?=
    some k := by
    decide
  rw [fpuRegisterFromArgtype,Exec.bind_run hassert]
  apply firstRegister_run (hname i)
  · rw [Nat.zero_add,h.register i]
    exact decide_eq_true rfl
  · intro j hj
    rw [Nat.zero_add]
    exact (h.register ⟨j,hj.trans i.isLt⟩).trans (decide_eq_false fun he =>
      hj.ne (congrArg Fin.val he))

/-- The exchange, the arithmetic on two stack registers and `FYL2X`. -/
inductive Form where
  | fxch
  | fsub
  | fmul
  | fdiv
  | faddp
  | fmulp
  | fsubp
  | fdivp
  | fyl2x
  deriving DecidableEq,Repr

namespace Form

def opcode : Form→U32
  | fxch | fyl2x => 0xd9
  | fsub | fmul | fdiv => 0xd8
  | faddp | fmulp | fsubp | fdivp => 0xde

/-- The second byte of the instruction on `ST(i)`; that of `FYL2X` takes no register. -/
def modrm (i : FEFPURegisterName) : Form→U8
  | fxch | fmul | fmulp => 0xc8+BitVec.ofNat 8 i.val
  | fsub => 0xe0+BitVec.ofNat 8 i.val
  | fdiv => 0xf0+BitVec.ofNat 8 i.val
  | faddp => 0xc0+BitVec.ofNat 8 i.val
  | fsubp => 0xe8+BitVec.ofNat 8 i.val
  | fdivp => 0xf8+BitVec.ofNat 8 i.val
  | fyl2x => 0xf1

/-- The operands that the decoder writes: `ST(0)` and `ST(i)` for `0xd8`, `ST(i)` first for
`0xde`. -/
def Arguments (op : DISASM) (i : FEFPURegisterName) : Form→Prop
  | fxch | fyl2x => True
  | fsub | fmul | fdiv => NamesST op.Argument1.ArgType 0 ∧ NamesST op.Argument2.ArgType i
  | faddp | fmulp | fsubp | fdivp => NamesST op.Argument1.ArgType i

/-- The registers after the instruction, under their names before it. -/
def result (float : HostFloat F) (i : FEFPURegisterName) (st : FEFPURegisterName→F) :
    Form→FEFPURegisterName→F
  | fxch => Function.update (Function.update st 0 (st i)) i (st 0)
  | fsub => Function.update st 0 (float.sub (st 0) (st i))
  | fmul => Function.update st 0 (float.mul (st 0) (st i))
  | fdiv => Function.update st 0 (float.div (st 0) (st i))
  | faddp => Function.update st i (float.add (st i) (st 0))
  | fmulp => Function.update st i (float.mul (st i) (st 0))
  | fsubp => Function.update st i (float.sub (st i) (st 0))
  | fdivp => Function.update st i (float.div (st i) (st 0))
  | fyl2x => Function.update st 1 (float.mul (st 1) (float.log2l (st 0)))

def pops : Form→Fin 8
  | fxch | fsub | fmul | fdiv => 0
  | faddp | fmulp | fsubp | fdivp | fyl2x => 1

/-- The registers that the instruction of the form is right for. -/
def Right (i : FEFPURegisterName) : Form→Prop
  | fxch | fmulp | fsubp => i=1
  | fsub => i=0
  | fmul | fdiv | faddp | fdivp => True
  | fyl2x => False

instance (i : FEFPURegisterName) : (form : Form)→Decidable (form.Right i)
  | fxch | fmulp | fsubp => inferInstanceAs (Decidable (i=1))
  | fsub => inferInstanceAs (Decidable (i=0))
  | fmul | fdiv | faddp | fdivp => isTrue trivial
  | fyl2x => isFalse not_false

def handled (float : HostFloat F) (i : FEFPURegisterName) (st : FEFPURegisterName→F) :
    Form→FEFPURegisterName→F
  | fxch => Function.update (Function.update st 0 (st 1)) 1 (st 0)
  | fsub => Function.update st 0 (float.sub (st 0) (st 0))
  | fmulp => Function.update st 1 (float.mul (st 0) (st 1))
  | fsubp => Function.update st 1 (float.sub (st 1) (st 0))
  | form => form.result float i st

def handledPops : Form→Fin 8
  | fyl2x => 0
  | form => form.pops

end Form

/-- The record of a form on `ST(i)`, and the second byte of it. -/
structure Decoded (op : DISASM) (modrm : U8) (form : Form) (i : FEFPURegisterName) : Prop where
  notGeneral : op.Instruction.Category&&&GENERAL_PURPOSE_INSTRUCTION=0
  category : op.Instruction.Category&&&FPU_INSTRUCTION≠0
  opcode : op.Instruction.Opcode=form.opcode
  modrm : modrm=form.modrm i
  arguments : form.Arguments op i

/-- The registers hold the given values, under the names they had before, and `TOP` has advanced. -/
structure Leaves (before after : FEFPU F) (st : FEFPURegisterName→F) (pops : Fin 8) : Prop where
  registers : ∀j,after.data (before.offset j)=st j
  top : topCell after=topCell before+pops

/-- The instruction returns and does to the register stack what its form says. -/
def Meets (env : Environment F) (s : FEProcess F) (op : DISASM) (form : Form)
    (i : FEFPURegisterName) : Prop :=
  ∃t,execute op env s=.ok (.jumpToNextInstr,t) ∧
    Leaves s.currentThread.fpu t.currentThread.fpu
      (form.result env.float i s.currentThread.fpu.register) form.pops

namespace Leaves
variable {before after : FEFPU F} {st : FEFPURegisterName→F} {pops : Fin 8}

theorem refl (fpu : FEFPU F) : Leaves fpu fpu fpu.register 0 where
  registers := fun _ => rfl
  top := (add_zero _).symm

theorem setRegister (h : Leaves before after st 0) (i : FEFPURegisterName) (v : F) :
    Leaves before (after.setRegister i v) (Function.update st i v) 0 where
  registers := by
    intro j
    have htop : topCell after=topCell before := h.top.trans (add_zero _)
    rw [data_setRegister,htop,offset_eq]
    rcases eq_or_ne j i with rfl | hne
    · rw [Function.update_self,Function.update_self]
    · have hcell : cellOf (topCell before) j.val≠cellOf (topCell before) i.val := fun he =>
        hne (Fin.ext (cellOf_injective j.isLt i.isLt he))
      rw [Function.update_of_ne hcell,Function.update_of_ne hne,←offset_eq]
      exact h.registers j
  top := h.top

theorem setTag (h : Leaves before after st pops) (registerName : FEFPURegisterName)
    (tag : FEFPUTag) :
    Leaves before (after.setTag registerName tag) st pops := ⟨h.registers,h.top⟩

theorem incrementTop (h : Leaves before after st 0) : Leaves before after.incrementTop st 1 where
  registers := h.registers
  top := by
    rw [topCell_incrementTop,h.top,add_zero]

theorem unique (h : Leaves before after st pops) {st' : FEFPURegisterName→F} {pops' : Fin 8}
    (h' : Leaves before after st' pops') : st=st' ∧ pops=pops' := by
  constructor
  · funext j
    exact (h.registers j).symm.trans (h'.registers j)
  · exact add_left_cancel (h.top.symm.trans h'.top)

end Leaves

section Handlers
variable {op : DISASM} {i : FEFPURegisterName} {registerName : FEFPURegisterName}

theorem combineRegister_run {arg : ARGTYPE} (h : NamesST arg.ArgType i)
    (combine : HostFloat F→F→F→F) :
    combineRegister arg combine env s=.ok ((),s.withFPU <| s.currentThread.fpu.setRegister 0
      (combine env.float (s.currentThread.fpu.register 0) (s.currentThread.fpu.register i))) := by
  rw [combineRegister,Exec.bind_run (fpuRegisterFromArgtype_run h)]
  rfl

theorem combineIntoST1_run (combine : HostFloat F→F→F→F) :
    combineIntoST1 combine env s=.ok ((),s.withFPU <| (s.currentThread.fpu.setRegister 1
      (combine env.float (s.currentThread.fpu.register 1)
        (s.currentThread.fpu.register 0))).incrementTop) := rfl

theorem registerForm_modrm : ∀(form : Form) (i : FEFPURegisterName),
    ¬form.modrm i ≤ 0xbf ∧ registerForm (form.modrm i)=match form with
      | .fxch | .fmul | .fmulp => (0xc0,false)
      | .fsub => (0xe0,true)
      | .fdiv | .fyl2x => (0xf0,true)
      | .faddp => (0xc0,true)
      | .fsubp => (0xe0,false)
      | .fdivp => (0xf0,false) := by
  intro form
  cases form <;> decide

def Form.handler : Form→DISASM→U8→Emulator F Unit
  | fxch | fyl2x => instructionFPUD9
  | fsub | fmul | fdiv => instructionFPUD8
  | faddp | fmulp | fsubp | fdivp => instructionFPUDE

theorem select_opcode (form : Form) :
    select fpuBranches form.opcode=some (form.handler (F:=F)) := by
  cases form <;> rfl

theorem notCompare : ∀(form : Form) (i : FEFPURegisterName),form.modrm i≠0xd9 := by
  intro form
  cases form <;> decide

/-- Every handler returns, having done to the registers what `handled` says. -/
theorem handler_run (env : Environment F) {form : Form} (h : Decoded op s.modrm form i) :
    ∃t,form.handler op s.modrm env s=.ok ((),t) ∧
      Leaves s.currentThread.fpu t.currentThread.fpu
        (form.handled env.float i s.currentThread.fpu.register) form.handledPops := by
  obtain ⟨_,_,_,hmodrm,harguments⟩ := h
  obtain ⟨hregister,hform⟩ := registerForm_modrm form i
  have hcompare := notCompare form i
  rw [←hmodrm] at hregister hform hcompare
  let fpu := s.currentThread.fpu
  have hleaves : Leaves fpu fpu fpu.register 0 := .refl fpu
  cases form with
  | fxch =>
    refine ⟨s.withFPU ((fpu.setRegister 0 (fpu.register 1)).setRegister 1 (fpu.register 0)),?_,
      (hleaves.setRegister _ _).setRegister _ _⟩
    rw [Form.handler,instructionFPUD9,if_neg hregister,if_neg (by rw [hform]; decide),if_pos hform]
    rfl
  | fsub =>
    refine ⟨s.withFPU (fpu.setRegister 0 (env.float.sub (fpu.register 0) (fpu.register 0))),?_,
      hleaves.setRegister _ _⟩
    rw [Form.handler,instructionFPUD8,if_neg hregister,if_neg (by rw [hform]; decide),
      if_neg (by rw [hform]; decide),if_pos hform]
    exact combineRegister_run harguments.1 _
  | fmul =>
    refine ⟨s.withFPU (fpu.setRegister 0 (env.float.mul (fpu.register 0) (fpu.register i))),?_,
      hleaves.setRegister _ _⟩
    rw [Form.handler,instructionFPUD8,if_neg hregister,if_pos hform]
    exact combineRegister_run harguments.2 _
  | fdiv =>
    refine ⟨s.withFPU (fpu.setRegister 0 (env.float.div (fpu.register 0) (fpu.register i))),?_,
      hleaves.setRegister _ _⟩
    rw [Form.handler,instructionFPUD8,if_neg hregister,if_neg (by rw [hform]; decide),
      if_neg (by rw [hform]; decide),if_neg (by rw [hform]; decide),if_pos hform]
    exact combineRegister_run harguments.2 _
  | faddp =>
    refine ⟨s.withFPU (fpu.setRegister i (env.float.add (fpu.register i)
      (fpu.register 0))).incrementTop,?_,(hleaves.setRegister _ _).incrementTop⟩
    rw [Form.handler,instructionFPUDE,if_neg hregister,if_pos hform,
      Exec.bind_run (fpuRegisterFromArgtype_run harguments)]
    rfl
  | fmulp =>
    refine ⟨s.withFPU (fpu.setRegister 1 (env.float.mul (fpu.register 0)
      (fpu.register 1))).incrementTop,?_,(hleaves.setRegister _ _).incrementTop⟩
    rw [Form.handler,instructionFPUDE,if_neg hregister,if_neg (by rw [hform]; decide),if_pos hform]
    exact combineIntoST1_run _
  | fsubp =>
    refine ⟨s.withFPU (fpu.setRegister 1 (env.float.sub (fpu.register 1)
      (fpu.register 0))).incrementTop,?_,(hleaves.setRegister _ _).incrementTop⟩
    rw [Form.handler,instructionFPUDE,if_neg hregister,if_neg (by rw [hform]; decide),
      if_neg (by rw [hform]; decide),if_neg hcompare,if_pos hform]
    exact combineIntoST1_run _
  | fdivp =>
    refine ⟨s.withFPU ((fpu.setRegister i
      (env.float.div (fpu.register i) (fpu.register 0))).setTag 0 .kEmpty).incrementTop,?_,
      ((hleaves.setRegister _ _).setTag 0 .kEmpty).incrementTop⟩
    rw [Form.handler,instructionFPUDE,if_neg hregister,if_neg (by rw [hform]; decide),
      if_neg (by rw [hform]; decide),if_neg hcompare,if_neg (by rw [hform]; decide),if_pos hform,
      Exec.bind_run (fpuRegisterFromArgtype_run harguments)]
    rfl
  | fyl2x =>
    refine ⟨s.withFPU (fpu.setRegister 1 (env.float.mul (fpu.register 1)
      (env.float.log2l (fpu.register 0)))),?_,hleaves.setRegister _ _⟩
    rw [hmodrm,Form.handler,Form.modrm]
    rfl

theorem execute_run (env : Environment F) {form : Form} (h : Decoded op s.modrm form i) :
    ∃t,execute op env s=.ok (.jumpToNextInstr,t) ∧
      Leaves s.currentThread.fpu t.currentThread.fpu
        (form.handled env.float i s.currentThread.fpu.register) form.handledPops := by
  obtain ⟨t,ht,hleaves⟩ := handler_run env h
  exact ⟨t,execute_of_handler h.notGeneral h.category h.opcode (select_opcode form) ht,hleaves⟩

/-- So an instruction meets its form exactly when its handler makes of the registers what the form
says. -/
theorem meets_iff {form : Form} (h : Decoded op s.modrm form i) :
    Meets env s op form i ↔
      form.result env.float i s.currentThread.fpu.register=
        form.handled env.float i s.currentThread.fpu.register ∧
        form.pops=form.handledPops := by
  obtain ⟨t,ht,hhandled⟩ := execute_run env h
  constructor
  · rintro ⟨u,hu,hleaves⟩
    rw [ht] at hu
    cases hu
    exact hleaves.unique hhandled
  · rintro ⟨hresult,hpops⟩
    refine ⟨t,ht,?_⟩
    rw [hresult,hpops]
    exact hhandled

end Handlers

section Registers
variable {float : HostFloat F} {form : Form} {i : FEFPURegisterName}

/-- Where the form is right, only the order of the factors of `FMULP` differs. -/
theorem result_eq_handled (h : form.Right i) (hmul : form=.fmulp→∀a b,float.mul a b=float.mul b a)
    (st : FEFPURegisterName→F) :
    form.result float i st=form.handled float i st ∧ form.pops=form.handledPops := by
  cases form with
  | fmul | fdiv | faddp | fdivp => exact ⟨rfl,rfl⟩
  | fxch | fsub | fsubp =>
    subst h
    exact ⟨rfl,rfl⟩
  | fmulp =>
    subst h
    refine ⟨?_,rfl⟩
    rw [Form.result,Form.handled,hmul rfl]
  | fyl2x => exact h.elim

end Registers

section Probe

def wholeNumbers (mul : ℤ→ℤ→ℤ) : HostFloat ℤ :=
  { (default : HostFloat ℤ) with add := (·+·),sub := (·-·),mul := mul }

def counted : FEFPU ℤ := { (default : FEFPU ℤ) with data := fun j => j.val+2 }

def argType (i : FEFPURegisterName) : U32 := REGISTER_TYPE+FPU_REG+REG0<<<i.val

theorem namesST_argType (i : FEFPURegisterName) : NamesST (argType i) i where
  fpu := by
    revert i
    decide
  register := by
    revert i
    decide

def Form.record (form : Form) (i : FEFPURegisterName) : DISASM :=
  let (first,second) := if form.opcode=0xd8 then (0,i) else (i,0)
  { (default : DISASM) with
    Instruction := { (default : INSTRTYPE) with Category := FPU_INSTRUCTION,Opcode := form.opcode }
    Argument1 := { (default : ARGTYPE) with ArgType := argType first }
    Argument2 := { (default : ARGTYPE) with ArgType := argType second } }

theorem decoded_record (form : Form) (i : FEFPURegisterName) :
    Decoded (form.record i) (form.modrm i) form i where
  notGeneral := by
    cases form <;> exact (by decide : FPU_INSTRUCTION&&&GENERAL_PURPOSE_INSTRUCTION=0)
  category := by
    cases form <;> exact (by decide : FPU_INSTRUCTION&&&FPU_INSTRUCTION≠0)
  opcode := by cases form <;> rfl
  modrm := rfl
  arguments := by
    cases form with
    | fxch | fyl2x => trivial
    | fsub | fmul | fdiv => exact ⟨namesST_argType 0,namesST_argType i⟩
    | faddp | fmulp | fsubp | fdivp => exact namesST_argType i

/-- The form on the counted registers, with a multiplication of choice. -/
def MeetsOnCounted (mul : ℤ→ℤ→ℤ) (form : Form) (i : FEFPURegisterName) : Prop :=
  Meets (Environment.ofFloat (wholeNumbers mul)) (FEProcess.ofFPU counted (form.modrm i))
    (form.record i) form i

theorem meetsOnCounted_iff {mul : ℤ→ℤ→ℤ} {form : Form} {i : FEFPURegisterName} :
    MeetsOnCounted mul form i ↔
      form.result (wholeNumbers mul) i (fun j => j.val+2)=
        form.handled (wholeNumbers mul) i (fun j => j.val+2) ∧
        form.pops=form.handledPops := by
  have hregisters : counted.register=fun j => (j.val+2 : ℤ) := by
    funext j
    revert j
    decide
  have hdecoded : Decoded (form.record i) (FEProcess.ofFPU counted (form.modrm i)).modrm form i :=
    decoded_record form i
  have h : MeetsOnCounted mul form i ↔ _ := meets_iff hdecoded
  simp only [Environment.ofFloat,FEProcess.ofFPU,hregisters] at h
  exact h

/-- With the product of whole numbers, a form that takes the wrong registers shows. -/
theorem right_of_meetsOnCounted {form : Form} {i : FEFPURegisterName}
    (h : MeetsOnCounted (·*·) form i) :
    form.Right i := by
  have hcounted := meetsOnCounted_iff.mp h
  clear h
  revert i
  cases form <;> decide

/-- With a product that does not commute, the order of the factors shows as well. -/
theorem ne_fmulp_of_meetsOnCounted {form : Form} {i : FEFPURegisterName}
    (h : MeetsOnCounted (·-·) form i) :
    form.Right i ∧ form≠.fmulp := by
  have hcounted := meetsOnCounted_iff.mp h
  clear h
  revert i
  cases form <;> decide

end Probe

/-- On every FPU state and for every arithmetic with a commutative product, exactly the right forms
do to the register stack what they say; where the product need not commute, `FMULP` does not. -/
theorem x87_operands_iff (form : Form) (i : FEFPURegisterName) :
    ((∀(F : Type) (env : Environment F) (s : FEProcess F) (op : DISASM),
        (∀a b,env.float.mul a b=env.float.mul b a)→Decoded op s.modrm form i→
        Meets env s op form i) ↔
      form.Right i) ∧
    ((∀(F : Type) (env : Environment F) (s : FEProcess F) (op : DISASM),
        Decoded op s.modrm form i→Meets env s op form i) ↔ form.Right i ∧ form≠.fmulp) := by
  refine ⟨⟨?_,?_⟩,?_,?_⟩
  · intro h
    exact right_of_meetsOnCounted (h ℤ _ _ _ (fun a b => Int.mul_comm a b) (decoded_record form i))
  · intro h F env s op hmul hdecoded
    exact (meets_iff hdecoded).mpr (result_eq_handled h (fun _ => hmul) _)
  · intro h
    exact ne_fmulp_of_meetsOnCounted (h ℤ _ _ _ (decoded_record form i))
  · rintro ⟨h,hform⟩ F env s op hdecoded
    exact (meets_iff hdecoded).mpr (result_eq_handled h (fun he => (hform he).elim) _)

/-- `FXCH ST(2)` exchanges `ST(0)` with `ST(1)`. -/
theorem fxch_takes_st1 : ¬∀(F : Type) (env : Environment F) (s : FEProcess F) (op : DISASM)
    (form : Form) (i : FEFPURegisterName),(∀a b,env.float.mul a b=env.float.mul b a)→
    Decoded op s.modrm form i→
      Meets env s op form i := by
  intro h
  have hmeets : MeetsOnCounted (·*·) .fxch 2 :=
    h ℤ _ _ _ .fxch 2 (fun a b => Int.mul_comm a b) (decoded_record .fxch 2)
  have hright := right_of_meetsOnCounted hmeets
  revert hright
  decide


end FPUOperands
end FalloutEmu
