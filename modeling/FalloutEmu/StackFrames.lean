import FalloutEmu.Assembly

/-! # Straight-line code on a stack frame

The frame is the double words around the one that `EBP` points at, numbered from there. -/
namespace FalloutEmu.StackFrames
open Assembly (Register Address Operand Source Binary Machine Instruction Apart word withWord
  word_withWord_self
  word_withWord_of_apart)
open X86 (StatusFlags)

/-- Neither the stack pointer nor the frame pointer. -/
def General (r : Register) : Prop := r≠.esp ∧ r≠.ebp

instance (r : Register) : Decidable (General r) := inferInstanceAs (Decidable (_ ∧ _))

/-- A frame, and the double words outside of it that its code reads. -/
structure Layout where
  base : BitVec 32
  low : ℤ
  high : ℤ
  outer : BitVec 32→Option (BitVec 32)
  data : Set ℕ
  stack : Set ℕ
  low_le : 0 ≤ base.toNat+4*low
  high_le : base.toNat+4*high ≤ 2^32
  apart : ∀a,(outer a).isSome→∀k,low ≤ k→k<high→Apart (base+.ofInt 32 (4*k)) a
  slots : ∀k,low ≤ k→k<high→(base+.ofInt 32 (4*k)).toNat∈stack
  readable : ∀a,(outer a).isSome→a.toNat∈data
  stack_subset : stack⊆data

namespace Layout
variable {layout : Layout} {j k : ℤ}

def InFrame (layout : Layout) (k : ℤ) : Prop := layout.low ≤ k ∧ k<layout.high

instance (k : ℤ) : Decidable (layout.InFrame k) := inferInstanceAs (Decidable (_ ∧ _))

def cell (layout : Layout) (k : ℤ) : BitVec 32 := layout.base+.ofInt 32 (4*k)

theorem toNat_cell (h : layout.InFrame k) : ((layout.cell k).toNat : ℤ)=layout.base.toNat+4*k := by
  have hlow := layout.low_le
  have hhigh := layout.high_le
  have hmod : (((layout.base.toNat : ℤ)+4*k%2^32)%2^32)=layout.base.toNat+4*k := by
    rw [Int.add_emod_emod]
    exact Int.emod_eq_of_lt (by unfold InFrame at h; omega) (by unfold InFrame at h; omega)
  rw [cell,BitVec.toNat_add,BitVec.toNat_ofInt,Int.natCast_emod,Nat.cast_add,
    Int.toNat_of_nonneg (by omega)]
  exact_mod_cast hmod

theorem cell_apart (hj : layout.InFrame j) (hk : layout.InFrame k) (h : j≠k) :
    Apart (layout.cell j) (layout.cell k) := by
  have hj' := toNat_cell hj
  have hk' := toNat_cell hk
  unfold Apart
  omega

theorem cell_add (k n : ℤ) : layout.cell k+.ofInt 32 (4*n)=layout.cell (k+n) := by
  rw [cell,cell,BitVec.add_assoc,←BitVec.ofInt_add,←mul_add]

theorem cell_sub (k n : ℤ) : layout.cell k-.ofInt 32 (4*n)=layout.cell (k-n) := by
  rw [BitVec.sub_eq_add_neg,←BitVec.ofInt_neg,←mul_neg,cell_add,Int.sub_eq_add_neg]

theorem cell_zero : layout.cell 0=layout.base := BitVec.add_zero _

end Layout

structure View where
  register : Register→BitVec 32
  depth : ℤ
  cells : ℤ→BitVec 32

namespace View

def set (v : View) (r : Register) (x : BitVec 32) : View :=
  { v with register := Function.update v.register r x }

def save (v : View) (k : ℤ) (x : BitVec 32) : View :=
  { v with cells := Function.update v.cells k x }

def moveTo (v : View) (depth : ℤ) : View := { v with depth := depth }

section Fields
variable (v : View) (r r' : Register) (k k' : ℤ) (x : BitVec 32)

@[simp] theorem register_set : (v.set r x).register r'=if r'=r then x else v.register r' :=
  Function.update_apply _ _ _ _
@[simp] theorem depth_set : (v.set r x).depth=v.depth := rfl
@[simp] theorem cells_set : (v.set r x).cells=v.cells := rfl

@[simp] theorem register_save : (v.save k x).register=v.register := rfl
@[simp] theorem depth_save : (v.save k x).depth=v.depth := rfl
@[simp] theorem cells_save : (v.save k x).cells k'=if k'=k then x else v.cells k' :=
  Function.update_apply _ _ _ _

@[simp] theorem register_moveTo : (v.moveTo k).register=v.register := rfl
@[simp] theorem depth_moveTo : (v.moveTo k).depth=k := rfl
@[simp] theorem cells_moveTo : (v.moveTo k).cells=v.cells := rfl

end Fields
end View

structure Shows (layout : Layout) (m : Machine) (v : View) : Prop where
  register : ∀r,General r→m.register r=v.register r
  base : m.register .ebp=layout.base
  top : m.register .esp=layout.cell v.depth
  cells : ∀k,layout.InFrame k→word m.memory (layout.cell k)=v.cells k
  outer : ∀a w,layout.outer a=some w→word m.memory a=w
  data : m.data=layout.data
  stack : m.stack=layout.stack

namespace Shows
variable {layout : Layout} {m : Machine} {v : View} {r : Register} {k : ℤ} {x : BitVec 32}

theorem goto (h : Shows layout m v) (a : BitVec 32) : Shows layout (m.goto a) v :=
  ⟨h.register,h.base,h.top,h.cells,h.outer,h.data,h.stack⟩

theorem withFlags (h : Shows layout m v) (flags : StatusFlags) :
    Shows layout (m.withFlags flags) v :=
  ⟨h.register,h.base,h.top,h.cells,h.outer,h.data,h.stack⟩

theorem set (h : Shows layout m v) (hr : General r) (x : BitVec 32) : Shows layout (m.set r x)
    (v.set r x) where
  register r' hr' := by
    rw [Machine.register_set,View.register_set,h.register r' hr']
  base := by rw [Machine.register_set,if_neg hr.2.symm,h.base]
  top := by rw [Machine.register_set,if_neg hr.1.symm,h.top,View.depth_set]
  cells := h.cells
  outer := h.outer
  data := h.data
  stack := h.stack

theorem save (h : Shows layout m v) (hk : layout.InFrame k) (x : BitVec 32) :
    Shows layout (m.store (layout.cell k) x) (v.save k x) where
  register := h.register
  base := h.base
  top := h.top
  cells j hj := by
    rw [Machine.memory_store,View.cells_save]
    split
    · next heq => rw [heq,word_withWord_self]
    · next hne => rw [word_withWord_of_apart _ (layout.cell_apart hk hj (Ne.symm hne)),h.cells j hj]
  outer a w hw := by
    have hapart : Apart (layout.cell k) a := layout.apart a (Option.isSome_of_mem hw) k hk.1 hk.2
    rw [Machine.memory_store,word_withWord_of_apart _ hapart,h.outer a w hw]
  data := h.data
  stack := h.stack

theorem moveTo (h : Shows layout m v) (k : ℤ) : Shows layout (m.set .esp (layout.cell k))
    (v.moveTo k) where
  register r hr := by rw [Machine.register_set,if_neg hr.1,h.register r hr,View.register_moveTo]
  base := by rw [Machine.register_set,if_neg (by decide),h.base]
  top := by rw [Machine.register_set,if_pos rfl,View.depth_moveTo]
  cells := h.cells
  outer := h.outer
  data := h.data
  stack := h.stack

theorem push (h : Shows layout m v) (hk : layout.InFrame (v.depth-1)) (x : BitVec 32) :
    Shows layout (m.push x) ((v.save (v.depth-1) x).moveTo (v.depth-1)) := by
  have htop : m.register .esp-4=layout.cell (v.depth-1) := by
    rw [h.top]
    exact layout.cell_sub v.depth 1
  rw [Machine.push,htop]
  exact (h.save hk x).moveTo _

theorem slot (h : Shows layout m v) (hk : layout.InFrame k) : (layout.cell k).toNat∈m.stack := by
  rw [h.stack]
  exact layout.slots k hk.1 hk.2

theorem top_eq (h : Shows layout m v) (hk : layout.InFrame v.depth) : m.top=v.cells v.depth := by
  rw [Machine.top,h.top,h.cells _ hk]

end Shows

/-- The instructions of straight-line code, with the double words of the frame for their
operands. -/
inductive Code where
  | load (r : Register) (k : ℤ)
  | save (k : ℤ) (r : Register)
  | fetch (r r' : Register)
  | copy (r r' : Register)
  | add (r : Register) (x : BitVec 32)
  | reserve (n : ℕ)
  | push (r : Register)
  | nop
  deriving DecidableEq,Repr

namespace Code

def frameCell (k : ℤ) : Operand := .memory ⟨some .ebp,none,.ofInt 32 (4*k)⟩

def atRegister (r : Register) : Operand := .memory ⟨some r,none,0⟩

def instruction : Code→Instruction
  | load r k => .mov (.register r) (.operand (frameCell k))
  | save k r => .mov (frameCell k) (.operand (.register r))
  | fetch r r' => .mov (.register r) (.operand (atRegister r'))
  | copy r r' => .mov (.register r) (.operand (.register r'))
  | add r x => .binary .add (.register r) (.immediate x)
  | reserve n => .binary .sub (.register .esp) (.immediate (.ofNat 32 (4*n)))
  | push r => .push (.operand (.register r))
  | nop => .nop

def run (layout : Layout) (v : View) : Code→View
  | load r k => v.set r (v.cells k)
  | save k r => v.save k (v.register r)
  | fetch r r' => v.set r ((layout.outer (v.register r')).getD 0)
  | copy r r' => v.set r (v.register r')
  | add r x => v.set r (v.register r+x)
  | reserve n => v.moveTo (v.depth-n)
  | push r => (v.save (v.depth-1) (v.register r)).moveTo (v.depth-1)
  | nop => v

/-- The instruction stays inside the frame, or reads what is known. -/
def Safe (layout : Layout) (v : View) : Code→Prop
  | load r k | save k r => General r ∧ layout.InFrame k
  | fetch r r' => General r ∧ General r' ∧ (layout.outer (v.register r')).isSome
  | copy r r' => General r ∧ General r'
  | add r _ => General r
  | push r => General r ∧ layout.InFrame (v.depth-1)
  | reserve _ | nop => True

end Code

section Run
variable {layout : Layout} {m : Machine} {v : View}

theorem Shows.address_frameCell (h : Shows layout m v) (k : ℤ) :
    m.address ⟨some .ebp,none,.ofInt 32 (4*k)⟩=layout.cell k := by
  simp [Machine.address,h.base,Layout.cell]

theorem Shows.address_atRegister (h : Shows layout m v) {r : Register} (hr : General r) :
    m.address ⟨some r,none,0⟩=v.register r := by
  simp [Machine.address,h.register r hr]

theorem Shows.push_slot (h : Shows layout m v) : m.register .esp-4=layout.cell (v.depth-1) := by
  rw [h.top]
  exact layout.cell_sub v.depth 1

theorem Shows.accessible (h : Shows layout m v) {k : ℤ} (hk : layout.InFrame k) :
    m.Accessible (Code.frameCell k) := by
  have hslot := layout.stack_subset (layout.slots k hk.1 hk.2)
  rw [←h.data] at hslot
  rwa [←Layout.cell,←h.address_frameCell] at hslot

theorem Shows.safe (h : Shows layout m v) {code : Code} (hsafe : code.Safe layout v) :
    code.instruction.Safe m := by
  cases code with
  | load r k => exact ⟨h.accessible hsafe.2,trivial⟩
  | save k r => exact ⟨trivial,h.accessible hsafe.2⟩
  | fetch r r' =>
    have hreadable := layout.readable _ hsafe.2.2
    rw [←h.data,←h.address_atRegister hsafe.2.1] at hreadable
    exact ⟨hreadable,trivial⟩
  | push r =>
    have hslot := h.slot hsafe.2
    rw [←h.push_slot] at hslot
    exact ⟨trivial,hslot⟩
  | copy r r' => exact ⟨trivial,trivial⟩
  | add r x => exact ⟨trivial,trivial⟩
  | reserve n => exact ⟨trivial,trivial⟩
  | nop => trivial

/-- One instruction of the code on the machine and on the view. -/
theorem Shows.exec (h : Shows layout m v) {code : Code} (hsafe : code.Safe layout v)
    (undefined : StatusFlags) (next : BitVec 32) :
    Shows layout (code.instruction.exec undefined m next) (code.run layout v) := by
  cases code with
  | load r k =>
    have hmov : (Code.load r k).instruction.exec undefined m next=
      (m.set r (v.cells k)).goto next := by
      rw [←h.cells k hsafe.2,←h.address_frameCell k]
      rfl
    exact hmov ▸ (h.set hsafe.1 _).goto next
  | save k r =>
    have hmov : (Code.save k r).instruction.exec undefined m next=
        (m.store (layout.cell k) (v.register r)).goto next := by
      rw [←h.address_frameCell k,←h.register r hsafe.1]
      rfl
    exact hmov ▸ (h.save hsafe.2 _).goto next
  | fetch r r' =>
    obtain ⟨hr,hr',hsome⟩ := hsafe
    obtain ⟨w,hw⟩ := Option.isSome_iff_exists.mp hsome
    have hmov : (Code.fetch r r').instruction.exec undefined m next=(m.set r w).goto next := by
      rw [←h.outer _ w hw,←h.address_atRegister hr']
      rfl
    have hrun : (Code.fetch r r').run layout v=v.set r w := by
      rw [Code.run,hw,Option.getD_some]
    exact hmov ▸ hrun ▸ (h.set hr w).goto next
  | copy r r' =>
    rw [Code.run,←h.register r' hsafe.2]
    exact (h.set hsafe.1 _).goto next
  | add r x =>
    let result := X86.add (m.register r) x m.flags undefined
    have hadd : (Code.add r x).instruction.exec undefined m next=
      ((m.withFlags result.2).set r result.1).goto next := rfl
    have hresult : result.1=m.register r+x := BitVec.add_zero _
    rw [Code.run,←h.register r hsafe,hadd,hresult]
    exact ((h.withFlags _).set hsafe _).goto next
  | reserve n =>
    have hsub : (Code.reserve n).instruction.exec undefined m next=
        ((m.withFlags (X86.sub (m.register .esp) (.ofNat 32 (4*n)) m.flags undefined).2).set .esp
          (m.register .esp-.ofInt 32 (4*n))).goto next := by
      rfl
    rw [hsub,h.top,layout.cell_sub]
    exact ((h.withFlags _).moveTo _).goto next
  | push r =>
    rw [Code.run,←h.register r hsafe.1]
    exact (h.push hsafe.2 _).goto next
  | nop => exact h.goto next

theorem Code.eip_exec (code : Code) (undefined : StatusFlags) (m : Machine) (next : BitVec 32) :
    (code.instruction.exec undefined m next).eip=next := by
  cases code <;> rfl

end Run

section Blocks
variable {layout : Layout}

/-- The view behind a block of code, each instruction with the number of its bytes. -/
def runs (layout : Layout) : View→List (Code×ℕ)→View
  | v,[] => v
  | v,(code,_)::block => runs layout (code.run layout v) block

def Safes (layout : Layout) : View→List (Code×ℕ)→Prop
  | _,[] => True
  | v,(code,_)::block => code.Safe layout v ∧ Safes layout (code.run layout v) block

def instructions (block : List (Code×ℕ)) : List (Instruction×ℕ) :=
  block.map fun code => (code.1.instruction,code.2)

end Blocks

section Calls
variable {layout : Layout} {m m' : Machine} {v : View} {n : ℕ}

def arguments (m : Machine) (n : ℕ) : List (BitVec 32) :=
  (List.range n).map fun i => word m.memory (m.register .esp+.ofNat 32 (4*(i+1)))

/-- A procedure with `n` arguments has returned and has taken them off the stack. -/
structure Returned (kept : BitVec 32→Prop) (n : ℕ) (m m' : Machine) : Prop where
  eip : m'.eip=m.top
  esp : m'.register .esp=m.register .esp+.ofNat 32 (4*(n+1))
  ebp : m'.register .ebp=m.register .ebp
  data : m'.data=m.data
  stack : m'.stack=m.stack
  kept : ∀a,kept a→word m'.memory a=word m.memory a

/-- The frame from the double word `depth` on, and what its code reads elsewhere. -/
def KeptFrom (layout : Layout) (depth : ℤ) (a : BitVec 32) : Prop :=
  (∃k,depth ≤ k ∧ layout.InFrame k ∧ a=layout.cell k) ∨ (layout.outer a).isSome

theorem Shows.arguments (h : Shows layout m v) (hin : ∀i<n,layout.InFrame (v.depth+(i+1 : ℕ))) :
    arguments m n=(List.range n).map fun i => v.cells (v.depth+(i+1 : ℕ)) := by
  refine List.map_congr_left fun i hi => ?_
  rw [←h.cells _ (hin i (List.mem_range.mp hi)),h.top]
  congr 1
  exact layout.cell_add v.depth (i+1 : ℕ)

def View.after (layout : Layout) (depth : ℤ) (m : Machine) : View :=
  ⟨m.register,depth,fun k => word m.memory (layout.cell k)⟩

theorem Shows.returned (h : Shows layout m v) {depth : ℤ}
    (hr : Returned (KeptFrom layout depth) n m m') :
    Shows layout m' (.after layout (v.depth+(n+1 : ℕ)) m') where
  register _ _ := rfl
  base := hr.ebp.trans h.base
  top := by
    rw [hr.esp,h.top]
    exact layout.cell_add v.depth (n+1 : ℕ)
  cells _ _ := rfl
  outer a w hw := by
    rw [hr.kept a (.inr (Option.isSome_of_mem hw))]
    exact h.outer a w hw
  data := hr.data.trans h.data
  stack := hr.stack.trans h.stack

theorem Shows.cells_after (h : Shows layout m v) {depth k : ℤ}
    (hr : Returned (KeptFrom layout depth) n m m') (hk : layout.InFrame k) (hdepth : depth ≤ k) :
    (View.after layout (v.depth+(n+1 : ℕ)) m').cells k=v.cells k := by
  rw [←h.cells k hk]
  exact hr.kept _ (.inl ⟨k,hdepth,hk,rfl⟩)

end Calls

section Pushes
variable {m : Machine} {vs : List (BitVec 32)} {i : ℕ}

theorem register_push (v : BitVec 32) {r : Register} (hr : r≠.esp) :
    (m.push v).register r=m.register r := by
  rw [Machine.push,Machine.register_set,if_neg hr,Machine.register_store]

theorem esp_push (v : BitVec 32) : (m.push v).register .esp=m.register .esp-4 := by
  rw [Machine.push,Machine.register_set,if_pos rfl]

end Pushes
end FalloutEmu.StackFrames
