import Mathlib.Logic.Basic

/-! # What the emulator assumes of its host: fixed-width integers and the ways a run stops -/
namespace FalloutEmu

abbrev U8 := BitVec 8
abbrev U16 := BitVec 16
abbrev U32 := BitVec 32

/-- `FEBitWidth`; a cast from any other number is left to the code that makes it. -/
inductive FEBitWidth where
  | k8bit
  | k16bit
  | k32bit
  deriving DecidableEq,Repr

inductive Stop where
  /-- an `assert` of a debug build -/
  | assertion
  /-- an access outside an allocated array -/
  | outOfBounds
  /-- an access through a `NULL` block -/
  | nullBlock
  /-- a read of host memory already handed to `free` -/
  | freed
  /-- an Objective-C exception -/
  | exception
  /-- `exit(-1)` -/
  | exit
  /-- a statement of no defined effect, such as the end of a function without its `return` -/
  | undefinedBehaviour
  deriving DecidableEq,Repr

/-- A debug build keeps its assertions, the release build defines `NDEBUG`. -/
inductive Build where
  | debug
  | release
  deriving DecidableEq,Repr

def assertThat (build : Build) (condition : Bool) : Except Stop Unit :=
  match build with
  | .debug => if condition then .ok () else .error .assertion
  | .release => .ok ()

@[simp] theorem assertThat_true (build : Build) : assertThat build true=.ok () := by
  cases build <;> rfl

@[simp] theorem assertThat_release (condition : Bool) : assertThat .release condition=.ok () := rfl

@[simp] theorem assertThat_debug_false : assertThat .debug false=.error .assertion := rfl

theorem assertThat_debug_ok {condition : Bool} {u : Unit} :
    assertThat .debug condition=.ok u ↔ condition=true := by
  cases condition <;> simp

theorem assertThat_pos {build : Build} {p : Prop} [Decidable p] (h : p) :
    assertThat build (decide p)=.ok () := by
  rw [decide_eq_true h,assertThat_true]

theorem assertThat_neg {p : Prop} [Decidable p] (h : ¬p) :
    assertThat .debug (decide p)=.error .assertion := by
  rw [decide_eq_false h,assertThat_debug_false]

@[simp] theorem ok_bind {ε α β : Type} (a : α) (f : α→Except ε β) : (.ok a >>= f)=f a := rfl

@[simp] theorem error_bind {ε α β : Type} (e : ε) (f : α→Except ε β) : (.error e >>= f)=.error e :=
  rfl

theorem bind_ok_eq_map {ε α β : Type} (x : Except ε α) (f : α→β) :
    (x >>= fun a => .ok (f a))=x.map f := by
  cases x <;> rfl

theorem bind_eq_ok {ε α β : Type} {x : Except ε α} {f : α→Except ε β} {b : β} :
    x >>= f=.ok b ↔ ∃a,x=.ok a ∧ f a=.ok b := by
  cases x <;> simp [bind,Except.bind]

end FalloutEmu
