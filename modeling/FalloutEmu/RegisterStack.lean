import FalloutEmu.FPU
import FalloutEmu.CircularStack
import Mathlib.Tactic.IntervalCases

/-! # The x87 registers as a list stack -/
namespace FalloutEmu.RegisterStack
open CircularStack (cellOf)
variable {F : Type}

def topCell (fpu : FEFPU F) : Fin 8 := Fin.ofNat 8 fpu.top.toNat

def conditionBits (fpu : FEFPU F) : U16 := fpu.statusWord&&&~~~((7 : U16)<<<11)

theorem top_lt (fpu : FEFPU F) : fpu.top.toNat<8 := by
  have hbits : (fpu.statusWord>>>11&&&7).toNat<8 := by
    rw [BitVec.toNat_and]
    exact Nat.and_lt_two_pow (n:=3) _ (by decide)
  rw [FEFPU.top,BitVec.toNat_setWidth]
  exact (Nat.mod_le _ _).trans_lt hbits

theorem offset_eq (fpu : FEFPU F) (registerName : FEFPURegisterName) :
    fpu.offset registerName=cellOf (topCell fpu) registerName.val := by
  have htop := top_lt fpu
  have hname := registerName.isLt
  apply Fin.ext
  simp only [FEFPU.offset,cellOf,topCell,Fin.val_add,Fin.ofNat]
  split <;> omega

theorem top_setTop (fpu : FEFPU F) (top : U8) : (fpu.setTop top).top=top&&&7 := by
  ext i hi
  simp only [FEFPU.top,FEFPU.setTop]
  interval_cases i <;> simp

theorem conditionBits_setTop (fpu : FEFPU F) (top : U8) :
    conditionBits (fpu.setTop top)=conditionBits fpu := by
  ext i hi
  simp only [conditionBits,FEFPU.setTop]
  interval_cases i <;> simp

theorem topCell_setTop (fpu : FEFPU F) (top : U8) :
    topCell (fpu.setTop top)=Fin.ofNat 8 top.toNat := by
  rw [topCell,top_setTop,BitVec.toNat_and]
  apply Fin.ext
  exact congrArg (·%8) (Nat.and_two_pow_sub_one_eq_mod top.toNat 3) |>.trans (Nat.mod_mod _ _)

theorem topCell_decrementTop (fpu : FEFPU F) : topCell fpu.decrementTop=topCell fpu-1 := by
  have htop := top_lt fpu
  unfold FEFPU.decrementTop
  split
  next hzero =>
    rw [topCell_setTop,topCell,hzero]
    rfl
  next hne =>
    rw [topCell_setTop,topCell]
    have hsub : (fpu.top-1).toNat=fpu.top.toNat-1 := by bv_omega
    apply Fin.ext
    simp only [hsub,Fin.ofNat,Fin.sub_def]
    have hpos : fpu.top.toNat ≠ 0 := fun h => hne (BitVec.eq_of_toNat_eq h)
    omega

theorem topCell_incrementTop (fpu : FEFPU F) : topCell fpu.incrementTop=topCell fpu+1 := by
  have htop := top_lt fpu
  rw [FEFPU.incrementTop,topCell_setTop,topCell]
  apply Fin.ext
  simp only [Fin.ofNat,Fin.val_add]
  split <;> bv_omega

theorem data_setRegister (fpu : FEFPU F) (registerName : FEFPURegisterName) (v : F) :
    (fpu.setRegister registerName v).data=
      Function.update fpu.data (cellOf (topCell fpu) registerName.val) v := by
  funext i
  rw [←offset_eq,Function.update_apply]
  rfl

theorem data_decrementTop (fpu : FEFPU F) : fpu.decrementTop.data=fpu.data := by
  unfold FEFPU.decrementTop
  split <;> rfl

theorem conditionBits_decrementTop (fpu : FEFPU F) :
    conditionBits fpu.decrementTop=conditionBits fpu := by
  unfold FEFPU.decrementTop
  split
  · exact conditionBits_setTop fpu 7
  · exact conditionBits_setTop (fpu.setTag 0 .kEmpty) (fpu.top-1)

theorem conditionBits_incrementTop (fpu : FEFPU F) :
    conditionBits fpu.incrementTop=conditionBits fpu :=
  conditionBits_setTop fpu _

section Flags
variable (fpu : FEFPU F) (flag : FEFPUFlag)

theorem top_setFlag : (fpu.setFlag flag).top=fpu.top := by
  ext i hi
  simp only [FEFPU.top,FEFPU.setFlag]
  cases flag <;> interval_cases i <;> simp [FEFPUFlag.bit]

theorem top_clearFlag : (fpu.clearFlag flag).top=fpu.top := by
  ext i hi
  simp only [FEFPU.top,FEFPU.clearFlag]
  cases flag <;> interval_cases i <;> simp [FEFPUFlag.bit]

end Flags

inductive Operation (F : Type) where
  | push (v : F)
  | pop
  | write (registerName : FEFPURegisterName) (v : F)

namespace Operation

def apply (fpu : FEFPU F) : Operation F→FEFPU F
  | push v => fpu.decrementTop.setRegister 0 v
  | pop => fpu.incrementTop
  | write registerName v => fpu.setRegister registerName v

/-- The same on a list, as long as the depth stays between 0 and 8 and only live registers are
written. -/
def onList : List F→Operation F→Option (List F)
  | entries,push v => if entries.length<8 then some (v::entries) else none
  | [],pop => none
  | _::entries,pop => some entries
  | entries,write registerName v =>
    if registerName.val<entries.length then some (entries.set registerName.val v) else none

end Operation

abbrev Holds (fpu : FEFPU F) (entries : List F) : Prop :=
  CircularStack.Holds fpu.data (topCell fpu) entries

theorem holds_fninit (fpu : FEFPU F) : Holds fpu.fninit [] := CircularStack.Holds.empty _ _

theorem holds_apply {fpu : FEFPU F} {entries entries' : List F} (h : Holds fpu entries)
    (operation : Operation F) (hlist : Operation.onList entries operation=some entries') :
    Holds (operation.apply fpu) entries' := by
  cases operation with
  | push v =>
    obtain ⟨hroom,rfl⟩ : entries.length<8 ∧ v::entries=entries' := by
      simpa [Operation.onList] using hlist
    have hpush := h.push hroom v
    have htop : topCell (fpu.decrementTop.setRegister 0 v)=topCell fpu-1 := topCell_decrementTop fpu
    have hcell : cellOf (topCell fpu.decrementTop) (0 : Fin 8).val=topCell fpu-1 := by
      rw [topCell_decrementTop]
      exact CircularStack.cellOf_zero _
    rwa [Holds,Operation.apply,data_setRegister,data_decrementTop,hcell,htop]
  | pop =>
    cases entries with
    | nil => cases hlist
    | cons v entries =>
      cases hlist
      rw [Holds,Operation.apply,topCell_incrementTop]
      exact h.pop
  | write registerName v =>
    obtain ⟨hlive,rfl⟩ : registerName.val<entries.length ∧ entries.set registerName.val v=
      entries' := by
      simpa [Operation.onList] using hlist
    rw [Holds,Operation.apply,data_setRegister]
    exact h.set hlive v

theorem Holds.register {fpu : FEFPU F} {entries : List F} (h : Holds fpu entries)
    (registerName : FEFPURegisterName) (hlive : registerName.val<entries.length) :
    fpu.register registerName=entries[registerName.val] := by
  rw [FEFPU.register,offset_eq]
  exact h.entry registerName.val hlive

theorem holds_run {operations : List (Operation F)} {fpu : FEFPU F} {entries entries' : List F}
    (h : Holds fpu entries) (hlist : operations.foldlM Operation.onList entries=some entries') :
    Holds (operations.foldl Operation.apply fpu) entries' := by
  induction operations generalizing fpu entries with
  | nil =>
    cases hlist
    exact h
  | cons operation operations ih =>
    obtain ⟨next,hnext,hrest⟩ := Option.bind_eq_some_iff.mp hlist
    exact ih (holds_apply h operation hnext) hrest

/-- After `fninit` the registers are a list stack, and pushes and pops leave the condition bits. -/
theorem registerStack (fpu : FEFPU F) (operations : List (Operation F)) (entries : List F)
    (h : operations.foldlM Operation.onList []=some entries) :
    (∀(registerName : FEFPURegisterName) (hlive : registerName.val<entries.length),
      (operations.foldl Operation.apply fpu.fninit).register registerName=
        entries[registerName.val]) ∧
    ∀(machine : FEFPU F) (v : F),
      conditionBits (Operation.apply machine (.push v))=conditionBits machine ∧
      conditionBits (Operation.apply machine .pop)=conditionBits machine := by
  refine ⟨?_,?_⟩
  · intro registerName hlive
    exact Holds.register (holds_run (holds_fninit fpu) h) registerName hlive
  · intro machine v
    exact ⟨conditionBits_decrementTop machine,conditionBits_incrementTop machine⟩

theorem registerStack_pushes :
    ((List.foldl Operation.apply (default : FEFPU ℕ).fninit
      [.push 5,.push 6,.write 1 7,.pop]).register 0=7) ∧
    ∀(machine : FEFPU ℕ) (v : ℕ),
      conditionBits (Operation.apply machine (.push v))=conditionBits machine ∧
      conditionBits (Operation.apply machine .pop)=conditionBits machine :=
  have h := registerStack (default : FEFPU ℕ) [.push 5,.push 6,.write 1 7,.pop] [7] (by decide)
  ⟨h.1 0 (by decide),h.2⟩

end FalloutEmu.RegisterStack
