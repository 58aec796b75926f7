import FalloutEmu.ByteStore
import FalloutEmu.ProgramLogic
import FalloutEmu.X86
import Mathlib.Data.Set.Defs
import Mathlib.Logic.Function.Basic

/-! # A 32-bit x86 machine over flat memory -/
namespace FalloutEmu.Assembly
open ByteStore
open X86 (StatusFlags BinaryInstruction UnaryInstruction Condition)

inductive Register where
  | eax | ecx | edx | ebx | esp | ebp | esi | edi
  deriving DecidableEq,Repr

structure Address where
  base : Option Register
  index : Option (Register×BitVec 32)
  displacement : BitVec 32
  deriving DecidableEq,Repr

inductive Operand where
  | register (name : Register)
  | memory (address : Address)
  deriving DecidableEq,Repr

inductive Source where
  | operand (operand : Operand)
  | immediate (v : BitVec 32)
  deriving DecidableEq,Repr

inductive Binary where
  | add | or | adc | sbb | and | sub | xor
  deriving DecidableEq,Repr

def Binary.host : Binary→BinaryInstruction
  | add => X86.add
  | or => X86.or
  | adc => X86.adc
  | sbb => X86.sbb
  | and => X86.and
  | sub => X86.sub
  | xor => X86.xor

inductive Comparison where
  | cmp | test
  deriving DecidableEq,Repr

def Comparison.host : Comparison→BinaryInstruction
  | cmp => X86.sub
  | test => X86.test

inductive Unary where
  | inc | dec | not | neg
  deriving DecidableEq,Repr

def Unary.host : Unary→UnaryInstruction
  | inc => X86.inc
  | dec => X86.dec
  | not => X86.not
  | neg => X86.neg

inductive Instruction where
  | mov (dst : Operand) (src : Source)
  | push (src : Source)
  | pop (dst : Operand)
  | binary (operation : Binary) (dst : Operand) (src : Source)
  | compare (operation : Comparison) (dst : Operand) (src : Source)
  | unary (operation : Unary) (dst : Operand)
  | lea (dst : Register) (address : Address)
  | jump (target : BitVec 32)
  | jumpIf (condition : Condition) (target : BitVec 32)
  | jumpTo (src : Source)
  | call (target : BitVec 32)
  | callTo (src : Source)
  | ret
  | retn (size : BitVec 32)
  | leave
  | nop
  deriving DecidableEq,Repr

/-- The registers and the memory, with the addresses of the double words that a program may access:
those in `data` by its moves, those in `stack` also by its pushes and pops. -/
structure Machine where
  register : Register→BitVec 32
  eip : BitVec 32
  flags : StatusFlags
  memory : ℕ→BitVec 8
  data : Set ℕ
  stack : Set ℕ

def word (memory : ℕ→BitVec 8) (a : BitVec 32) : BitVec 32 :=
  .ofNat 32 (value (readAt memory a.toNat 4))

def withWord (memory : ℕ→BitVec 8) (a v : BitVec 32) : ℕ→BitVec 8 :=
  writeAt memory a.toNat (littleEndian 4 v.toNat)

section Words
variable (memory : ℕ→BitVec 8)

@[simp] theorem word_withWord_self (a v : BitVec 32) : word (withWord memory a v) a=v := by
  have hread := readAt_writeAt_self memory a.toNat (littleEndian 4 v.toNat)
  rw [length_littleEndian] at hread
  rw [word,withWord,hread]
  exact ofNat_value_littleEndian (w:=32) rfl v

def Apart (a b : BitVec 32) : Prop := a.toNat+4 ≤ b.toNat ∨ b.toNat+4 ≤ a.toNat

theorem word_withWord_of_apart {a b : BitVec 32} (h : Apart a b) (v : BitVec 32) :
    word (withWord memory a v) b=word memory b := by
  rw [word,withWord,readAt_writeAt_of_disjoint (by rwa [length_littleEndian])]
  rfl

theorem withWord_apply_of_outside {a : BitVec 32} {p : ℕ} (h : p<a.toNat ∨ a.toNat+4 ≤ p)
    (v : BitVec 32) :
    withWord memory a v p=memory p :=
  writeAt_apply_of_outside (by rwa [length_littleEndian])

end Words

namespace Machine

def set (m : Machine) (name : Register) (v : BitVec 32) : Machine :=
  { m with register := Function.update m.register name v }

def store (m : Machine) (a v : BitVec 32) : Machine := { m with memory := withWord m.memory a v }

def goto (m : Machine) (eip : BitVec 32) : Machine := { m with eip := eip }

def withFlags (m : Machine) (flags : StatusFlags) : Machine := { m with flags := flags }

def address (m : Machine) (a : Address) : BitVec 32 :=
  a.base.elim 0 m.register+a.index.elim 0 (fun index => m.register index.1*index.2)+a.displacement

def value : Machine→Operand→BitVec 32
  | m,.register name => m.register name
  | m,.memory a => word m.memory (m.address a)

def read : Machine→Source→BitVec 32
  | m,.operand operand => m.value operand
  | _,.immediate v => v

def write (m : Machine) (v : BitVec 32) : Operand→Machine
  | .register name => m.set name v
  | .memory a => m.store (m.address a) v

def push (m : Machine) (v : BitVec 32) : Machine :=
  (m.store (m.register .esp-4) v).set .esp (m.register .esp-4)

def top (m : Machine) : BitVec 32 := word m.memory (m.register .esp)

def drop (m : Machine) (size : BitVec 32) : Machine := m.set .esp (m.register .esp+size)

def Accessible (m : Machine) : Operand→Prop
  | .register _ => True
  | .memory a => (m.address a).toNat∈m.data

def Readable (m : Machine) : Source→Prop
  | .operand operand => m.Accessible operand
  | .immediate _ => True

section Fields
variable (m : Machine) (name name' : Register) (a v : BitVec 32) (flags : StatusFlags)

@[simp] theorem register_set : (m.set name v).register name'=if name'=name then v
    else m.register name' := by
  simp [set,Function.update_apply]

@[simp] theorem eip_set : (m.set name v).eip=m.eip := rfl
@[simp] theorem flags_set : (m.set name v).flags=m.flags := rfl
@[simp] theorem memory_set : (m.set name v).memory=m.memory := rfl
@[simp] theorem data_set : (m.set name v).data=m.data := rfl
@[simp] theorem stack_set : (m.set name v).stack=m.stack := rfl

@[simp] theorem register_store : (m.store a v).register=m.register := rfl
@[simp] theorem eip_store : (m.store a v).eip=m.eip := rfl
@[simp] theorem flags_store : (m.store a v).flags=m.flags := rfl
@[simp] theorem memory_store : (m.store a v).memory=withWord m.memory a v := rfl
@[simp] theorem data_store : (m.store a v).data=m.data := rfl
@[simp] theorem stack_store : (m.store a v).stack=m.stack := rfl

@[simp] theorem register_goto : (m.goto a).register=m.register := rfl
@[simp] theorem eip_goto : (m.goto a).eip=a := rfl
@[simp] theorem flags_goto : (m.goto a).flags=m.flags := rfl
@[simp] theorem memory_goto : (m.goto a).memory=m.memory := rfl
@[simp] theorem data_goto : (m.goto a).data=m.data := rfl
@[simp] theorem stack_goto : (m.goto a).stack=m.stack := rfl

@[simp] theorem register_withFlags : (m.withFlags flags).register=m.register := rfl
@[simp] theorem eip_withFlags : (m.withFlags flags).eip=m.eip := rfl
@[simp] theorem flags_withFlags : (m.withFlags flags).flags=flags := rfl
@[simp] theorem memory_withFlags : (m.withFlags flags).memory=m.memory := rfl
@[simp] theorem data_withFlags : (m.withFlags flags).data=m.data := rfl
@[simp] theorem stack_withFlags : (m.withFlags flags).stack=m.stack := rfl

@[simp] theorem data_write (operand : Operand) : (m.write v operand).data=m.data := by
  cases operand <;> rfl

@[simp] theorem stack_write (operand : Operand) : (m.write v operand).stack=m.stack := by
  cases operand <;> rfl

end Fields

/-- A byte outside the double words that a program may access. -/
def Untouched (m : Machine) (p : ℕ) : Prop := ∀a∈m.data,p<a ∨ a+4 ≤ p

theorem memory_write_of_untouched {m : Machine} {operand : Operand} {p : ℕ}
    (h : m.Accessible operand) (hp : m.Untouched p) (v : BitVec 32) :
    (m.write v operand).memory p=m.memory p := by
  cases operand with
  | register name => rfl
  | memory a => exact withWord_apply_of_outside _ (hp _ h) v

theorem memory_push_of_untouched {m : Machine} {p : ℕ} (h : (m.register .esp-4).toNat∈m.data)
    (hp : m.Untouched p) (v : BitVec 32) : (m.push v).memory p=m.memory p :=
  withWord_apply_of_outside _ (hp _ h) v

end Machine

namespace Instruction
open Machine

def Safe (m : Machine) : Instruction→Prop
  | mov dst src => m.Readable src ∧ m.Accessible dst
  | push src => m.Readable src ∧ (m.register .esp-4).toNat∈m.stack
  | pop dst => (m.register .esp).toNat∈m.stack ∧ (m.drop 4).Accessible dst
  | binary _ dst src | compare _ dst src => m.Accessible dst ∧ m.Readable src
  | unary _ dst => m.Accessible dst
  | lea _ _ | jump _ | jumpIf _ _ | nop => True
  | jumpTo src => m.Readable src
  | call _ => (m.register .esp-4).toNat∈m.stack
  | callTo src => m.Readable src ∧ (m.register .esp-4).toNat∈m.stack
  | ret | retn _ => (m.register .esp).toNat∈m.stack
  | leave => (m.register .ebp).toNat∈m.stack

/-- The machine after the instruction, `next` being the address behind it; `undefined` are the
values of the flags that the architecture leaves open. -/
def exec (undefined : StatusFlags) (m : Machine) (next : BitVec 32) : Instruction→Machine
  | mov dst src => (m.write (m.read src) dst).goto next
  | push src => (m.push (m.read src)).goto next
  | pop dst => ((m.drop 4).write m.top dst).goto next
  | binary operation dst src =>
    let result := operation.host (m.value dst) (m.read src) m.flags undefined
    ((m.withFlags result.2).write result.1 dst).goto next
  | compare operation dst src =>
    (m.withFlags (operation.host (m.value dst) (m.read src) m.flags undefined).2).goto next
  | unary operation dst =>
    let result := operation.host (m.value dst) m.flags
    ((m.withFlags result.2).write result.1 dst).goto next
  | lea dst address => (m.set dst (m.address address)).goto next
  | jump target => m.goto target
  | jumpIf condition target => m.goto (if condition.holds m.flags then target else next)
  | jumpTo src => m.goto (m.read src)
  | call target => (m.push next).goto target
  | callTo src => (m.push next).goto (m.read src)
  | ret => (m.drop 4).goto m.top
  | retn size => ((m.drop 4).drop size).goto m.top
  | leave =>
    let frame := m.set .esp (m.register .ebp)
    ((frame.drop 4).set .ebp frame.top).goto next
  | nop => m.goto next

section Frame
variable (undefined : StatusFlags) (m : Machine) (next : BitVec 32) (instruction : Instruction)

@[simp] theorem data_exec : (instruction.exec undefined m next).data=m.data := by
  cases instruction <;> simp [exec,Machine.push,Machine.drop]

@[simp] theorem stack_exec : (instruction.exec undefined m next).stack=m.stack := by
  cases instruction <;> simp [exec,Machine.push,Machine.drop]

/-- An instruction whose accesses are allowed writes nothing else. -/
theorem memory_exec_of_untouched {undefined : StatusFlags} {m : Machine} {next : BitVec 32}
    {instruction : Instruction} (h : instruction.Safe m) (hstack : m.stack⊆m.data) {p : ℕ}
    (hp : m.Untouched p) :
    (instruction.exec undefined m next).memory p=m.memory p := by
  cases instruction with
  | mov dst src => exact memory_write_of_untouched h.2 hp _
  | push src => exact memory_push_of_untouched (hstack h.2) hp _
  | pop dst => exact memory_write_of_untouched (m:=m.drop 4) h.2 hp _
  | binary operation dst src =>
    let result := operation.host (m.value dst) (m.read src) m.flags undefined
    exact memory_write_of_untouched (m:=m.withFlags result.2) h.1 hp result.1
  | unary operation dst =>
    let result := operation.host (m.value dst) m.flags
    exact memory_write_of_untouched (m:=m.withFlags result.2) h hp result.1
  | call target => exact memory_push_of_untouched (hstack h) hp _
  | callTo src => exact memory_push_of_untouched (hstack h.2) hp _
  | _ => rfl

end Frame
end Instruction
end FalloutEmu.Assembly
