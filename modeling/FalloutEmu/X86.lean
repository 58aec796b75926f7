import Mathlib.Data.BitVec
import Mathlib.Tactic.Ring

/-! # The x86 integer instructions and condition codes, at every operand width -/
namespace FalloutEmu.X86

structure StatusFlags where
  CF : Bool
  PF : Bool
  AF : Bool
  ZF : Bool
  SF : Bool
  OF : Bool
  deriving DecidableEq,Repr,Inhabited

variable {w : ℕ}

def onesInLowByte (x : BitVec w) : ℕ := (List.range 8).countP fun i => x.getLsbD i

def evenParity (x : BitVec w) : Bool := onesInLowByte x%2=0

def signedOverflow (w : ℕ) (z : ℤ) : Bool := z< -2^(w-1) ∨ 2^(w-1) ≤ z

/-- The flags that every instruction sets from its result, around the others. -/
def StatusFlags.ofResult (result : BitVec w) (CF AF OF : Bool) : StatusFlags :=
  ⟨CF,evenParity result,AF,result=0,result.msb,OF⟩

/-- An instruction on two operands: the operands, the flags before it and, for the flags that the
architecture leaves undefined, the values they happen to take. -/
abbrev BinaryInstruction :=
  ∀{w : ℕ},BitVec w→BitVec w→StatusFlags→StatusFlags→BitVec w×StatusFlags

abbrev UnaryInstruction := ∀{w : ℕ},BitVec w→StatusFlags→BitVec w×StatusFlags

section Arithmetic

def adc : BinaryInstruction := fun {w} a b flags _ =>
  let carry := flags.CF.toNat
  let result := a+b+BitVec.ofNat w carry
  (result,.ofResult result (2^w ≤ a.toNat+b.toNat+carry) (16 ≤ a.toNat%16+b.toNat%16+carry)
    (signedOverflow w (a.toInt+b.toInt+carry)))

def sbb : BinaryInstruction := fun {w} a b flags _ =>
  let borrow := flags.CF.toNat
  let result := a-b-BitVec.ofNat w borrow
  (result,.ofResult result (a.toNat<b.toNat+borrow) (a.toNat%16<b.toNat%16+borrow)
    (signedOverflow w (a.toInt-b.toInt-borrow)))

def add : BinaryInstruction :=
  fun a b flags undefined => adc a b { flags with CF := false } undefined

def sub : BinaryInstruction := fun {w} a b _ _ =>
  let result := a-b
  (result,.ofResult result (a.toNat<b.toNat) (a.toNat%16<b.toNat%16)
    (signedOverflow w (a.toInt-b.toInt)))

def inc : UnaryInstruction := fun {w} a flags =>
  let result := a+1
  (result,.ofResult result flags.CF (16 ≤ a.toNat%16+1) (signedOverflow w (a.toInt+1)))

def dec : UnaryInstruction := fun {w} a flags =>
  let result := a-1
  (result,.ofResult result flags.CF (a.toNat%16<1) (signedOverflow w (a.toInt-1)))

def neg : UnaryInstruction := fun a flags => sub 0 a flags flags

def not : UnaryInstruction := fun a flags => (~~~a,flags)

end Arithmetic

section Logic

def logic (result : BitVec w) (undefined : StatusFlags) : BitVec w×StatusFlags :=
  (result,.ofResult result false undefined.AF false)

def and : BinaryInstruction := fun a b _ undefined => logic (a&&&b) undefined

def or : BinaryInstruction := fun a b _ undefined => logic (a|||b) undefined

def xor : BinaryInstruction := fun a b _ undefined => logic (a^^^b) undefined

def test : BinaryInstruction := fun a b _ undefined => (a,(logic (a&&&b) undefined).2)

end Logic

section Shifts

/-- The count of a shift or rotation: the five low bits of `CL`. -/
def shiftCount (count : BitVec w) : ℕ := count.toNat%32

def shl : BinaryInstruction := fun {w} a b flags undefined =>
  let count := shiftCount b
  let result := a<<<count
  let CF := if count<w then a.getLsbD (w-count) else undefined.CF
  if count=0 then (a,flags)
  else (result,.ofResult result CF undefined.AF
    (if count=1 then result.msb^^CF else undefined.OF))

def shr : BinaryInstruction := fun {w} a b flags undefined =>
  let count := shiftCount b
  let result := a>>>count
  let CF := if count<w then a.getLsbD (count-1) else undefined.CF
  if count=0 then (a,flags)
  else (result,.ofResult result CF undefined.AF (if count=1 then a.msb else undefined.OF))

def sar : BinaryInstruction := fun a b flags undefined =>
  let count := shiftCount b
  let result := a.sshiftRight count
  if count=0 then (a,flags)
  else (result,.ofResult result ((a.sshiftRight (count-1)).getLsbD 0) undefined.AF
    (if count=1 then false else undefined.OF))

/-- A rotation changes `CF` and `OF` only. -/
def rotation (count : ℕ) (result : BitVec w) (CF OF : Bool) (flags undefined : StatusFlags) :
    BitVec w×StatusFlags :=
  if count=0 then (result,flags)
  else (result,{ flags with CF := CF,OF := if count=1 then OF else undefined.OF })

def rol : BinaryInstruction := fun a b flags undefined =>
  let count := shiftCount b
  let result := a.rotateLeft count
  rotation count result (result.getLsbD 0) (result.msb^^result.getLsbD 0) flags undefined

def ror : BinaryInstruction := fun a b flags undefined =>
  let count := shiftCount b
  let result := a.rotateRight count
  rotation count result result.msb (result.msb^^result.getMsbD 1) flags undefined

def rcl : BinaryInstruction := fun {w} a b flags undefined =>
  let count := shiftCount b
  let rotated := (BitVec.cons flags.CF a).rotateLeft count
  let result := rotated.setWidth w
  rotation count result rotated.msb (result.msb^^rotated.msb) flags undefined

def rcr : BinaryInstruction := fun {w} a b flags undefined =>
  let count := shiftCount b
  let rotated := (BitVec.cons flags.CF a).rotateRight count
  rotation count (rotated.setWidth w) rotated.msb (a.msb^^flags.CF) flags undefined

end Shifts

/-! ## Condition codes -/

inductive Condition where
  | O | NO | B | AE | E | NE | BE | A | S | NS | P | NP | L | GE | LE | G
  deriving DecidableEq,Repr

namespace Condition

def holds (flags : StatusFlags) : Condition→Bool
  | O => flags.OF
  | NO => !flags.OF
  | B => flags.CF
  | AE => !flags.CF
  | E => flags.ZF
  | NE => !flags.ZF
  | BE => flags.CF || flags.ZF
  | A => !flags.CF && !flags.ZF
  | S => flags.SF
  | NS => !flags.SF
  | P => flags.PF
  | NP => !flags.PF
  | L => flags.SF != flags.OF
  | GE => flags.SF == flags.OF
  | LE => flags.ZF || flags.SF != flags.OF
  | G => !flags.ZF && flags.SF == flags.OF

/-- What the condition says about the operands of the comparison that set the flags. -/
def Compares (a b : BitVec w) : Condition→Prop
  | O => signedOverflow w (a.toInt-b.toInt)
  | NO => ¬signedOverflow w (a.toInt-b.toInt)
  | B => a.toNat<b.toNat
  | AE => b.toNat ≤ a.toNat
  | E => a=b
  | NE => a≠b
  | BE => a.toNat ≤ b.toNat
  | A => b.toNat<a.toNat
  | S => (a-b).toInt<0
  | NS => 0 ≤ (a-b).toInt
  | P => 2∣onesInLowByte (a-b)
  | NP => ¬2∣onesInLowByte (a-b)
  | L => a.toInt<b.toInt
  | GE => b.toInt ≤ a.toInt
  | LE => a.toInt ≤ b.toInt
  | G => b.toInt<a.toInt

end Condition

section Comparison

theorem sub_eq_zero_iff (a b : BitVec w) : a-b=0 ↔ a=b := by
  constructor
  · intro h
    have hb := BitVec.sub_add_cancel a b
    rw [h] at hb
    simpa using hb.symm
  · intro h
    rw [h]
    exact BitVec.sub_self b

/-- The sign of the difference is wrong exactly on signed overflow. -/
theorem msb_sub_ne_overflow (hw : 0<w) (a b : BitVec w) :
    ((a-b).msb != signedOverflow w (a.toInt-b.toInt))=decide (a.toInt<b.toInt) := by
  obtain ⟨n,rfl⟩ : ∃n,w=n+1 := ⟨w-1,by omega⟩
  have ha := a.toInt_lt
  have hb := b.toInt_lt
  have ha' := a.le_toInt
  have hb' := b.le_toInt
  have hmod : ((2^(n+1) : ℕ) : ℤ)=2*2^n := by push_cast; ring
  simp only [Nat.add_sub_cancel] at ha hb ha' hb'
  rw [BitVec.msb_eq_toInt,BitVec.toInt_sub,Int.bmod_def,hmod]
  simp only [signedOverflow,Nat.add_sub_cancel]
  generalize (2 : ℤ)^n=m at *
  generalize a.toInt=x at *
  generalize b.toInt=y at *
  by_cases hlt : x<y
  · have hrem : (x-y)%(2*m)=x-y+2*m := by
      rw [←Int.add_mul_emod_self_left (x-y) (2*m) 1,Int.emod_eq_of_lt (by omega) (by omega)]
      ring
    rw [hrem]
    grind
  · have hrem : (x-y)%(2*m)=x-y := Int.emod_eq_of_lt (by omega) (by omega)
    rw [hrem]
    grind

/-- After a subtraction every condition decides its comparison of the operands. -/
theorem sub_holds_iff (hw : 0<w) (a b : BitVec w) (flags undefined : StatusFlags) (c : Condition) :
    c.holds (sub a b flags undefined).2 ↔ c.Compares a b := by
  have hsign := msb_sub_ne_overflow hw a b
  have hzero := sub_eq_zero_iff a b
  have hint : a=b ↔ a.toInt=b.toInt := BitVec.toInt_inj.symm
  have hnat : a=b ↔ a.toNat=b.toNat := BitVec.toNat_inj.symm
  have hparity := Nat.dvd_iff_mod_eq_zero (n:=onesInLowByte (a-b)) (m:=2)
  cases c <;> simp only [Condition.holds,Condition.Compares,sub,StatusFlags.ofResult,evenParity,
    BitVec.msb_eq_toInt] at * <;> grind

end Comparison
end FalloutEmu.X86
