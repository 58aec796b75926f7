import FalloutEmu.Runs
import Mathlib.Data.Nat.Digits.Defs

/-! # Long addition and subtraction, digit by digit in any base -/
namespace FalloutEmu.LongArithmetic

/-- What meets in one place: the two digits and the digit that is written below them. -/
structure Place (α : Type) where
  a : α
  b : α
  r : α

def Place.map {α β : Type} (f : α→β) (p : Place α) : Place β := ⟨f p.a,f p.b,f p.r⟩

inductive Operation where
  | addition
  | subtraction
  deriving DecidableEq,Repr

namespace Operation

/-- One place in the base `B`, with the carry or borrow `c` into it and the one, `c'`, out of it. -/
def Digit (B : ℕ) (p : Place ℕ) (c c' : ℕ) : Operation→Prop
  | addition => p.r+B*c'=p.a+p.b+c
  | subtraction => p.r+p.b+c=p.a+B*c'

/-- The result is the operation's modulo `M`, and `c` says whether the operation carries or
borrows. -/
def Exact (M : ℕ) (p : Place ℕ) (c : ℕ) : Operation→Prop
  | addition => p.r=(p.a+p.b)%M ∧ c=(p.a+p.b)/M
  | subtraction => (p.r : ℤ)=((p.a : ℤ)-p.b)%M ∧ c=if p.a<p.b then 1 else 0

end Operation

variable {operation : Operation} {B M : ℕ} {p q : Place ℕ} {c c' c'' : ℕ}

/-- Two numbers and the result below them, from the digits at the lowest place on. -/
def whole (B : ℕ) (ps : List (Place ℕ)) : Place ℕ :=
  ⟨Nat.ofDigits B (ps.map Place.a),Nat.ofDigits B (ps.map Place.b),Nat.ofDigits B (ps.map Place.r)⟩

section Digits

/-- A place above places that count as one, of base `M`. -/
theorem Digit.above (hp : operation.Digit M p c c') (hq : operation.Digit B q c' c'') :
    operation.Digit (M*B) ⟨p.a+M*q.a,p.b+M*q.b,p.r+M*q.r⟩ c c'' := by
  cases operation with
  | addition =>
    have hp : p.r+M*c'=p.a+p.b+c := hp
    have hq : q.r+B*c''=q.a+q.b+c' := hq
    show p.r+M*q.r+M*B*c''=p.a+M*q.a+(p.b+M*q.b)+c
    calc p.r+M*q.r+M*B*c''=p.r+M*(q.r+B*c'') := by ring
      _=p.r+M*c'+M*(q.a+q.b) := by rw [hq]; ring
      _=p.a+M*q.a+(p.b+M*q.b)+c := by rw [hp]; ring
  | subtraction =>
    have hp : p.r+p.b+c=p.a+M*c' := hp
    have hq : q.r+q.b+c'=q.a+B*c'' := hq
    show p.r+M*q.r+(p.b+M*q.b)+c=p.a+M*q.a+M*B*c''
    calc p.r+M*q.r+(p.b+M*q.b)+c=p.r+p.b+c+M*(q.r+q.b) := by ring
      _=p.a+M*(q.r+q.b+c') := by rw [hp]; ring
      _=p.a+M*q.a+M*B*c'' := by rw [hq]; ring

theorem whole_snoc (ps : List (Place ℕ)) (q : Place ℕ) :
    whole B (ps++[q])=⟨(whole B ps).a+B^ps.length*q.a,(whole B ps).b+B^ps.length*q.b,
      (whole B ps).r+B^ps.length*q.r⟩ := by
  simp [whole,Nat.ofDigits_append,Nat.ofDigits_singleton]

/-- The places so far count as one place of a larger base, and the next one is above it. -/
theorem Digit.snoc {ps : List (Place ℕ)} (hps : operation.Digit (B^ps.length) (whole B ps) c c')
    (hq : operation.Digit B q c' c'') :
    operation.Digit (B^(ps++[q]).length) (whole B (ps++[q])) c c'' := by
  rw [whole_snoc,List.length_append,List.length_singleton,pow_succ]
  exact Digit.above hps hq

theorem whole_cons (p : Place ℕ) (ps : List (Place ℕ)) :
    whole B (p::ps)=⟨p.a+B*(whole B ps).a,p.b+B*(whole B ps).b,p.r+B*(whole B ps).r⟩ := by
  simp [whole,Nat.ofDigits_cons]

/-- The places above the first one count as one place. -/
theorem Digit.cons {ps : List (Place ℕ)} (hp : operation.Digit B p c c')
    (hps : operation.Digit (B^ps.length) (whole B ps) c' c'') :
    operation.Digit (B^(p::ps).length) (whole B (p::ps)) c c'' := by
  rw [whole_cons,List.length_cons,pow_succ']
  exact Digit.above hp hps

/-- Without a carry into it, a place holds the result of the operation. -/
theorem Digit.exact (h : operation.Digit M p 0 c) (hr : p.r<M) (hc : c ≤ 1) :
    operation.Exact M p c := by
  have hpos : 0<M := Nat.zero_lt_of_lt hr
  cases operation with
  | addition =>
    have h : p.r+M*c=p.a+p.b := h
    refine ⟨?_,?_⟩
    · rw [←h,Nat.add_mul_mod_self_left,Nat.mod_eq_of_lt hr]
    · rw [←h,Nat.add_mul_div_left _ _ hpos,Nat.div_eq_of_lt hr,Nat.zero_add]
  | subtraction =>
    have h : p.r+p.b=p.a+M*c := h
    have hint : (p.a : ℤ)-p.b=p.r-M*c := by
      have hcast : (p.r : ℤ)+p.b=p.a+M*c := by exact_mod_cast h
      linarith
    refine ⟨?_,?_⟩
    · rw [hint,Int.sub_mul_emod_self_left]
      exact (Int.emod_eq_of_lt (by omega) (by omega)).symm
    · rcases Nat.le_one_iff_eq_zero_or_eq_one.mp hc with rfl | rfl
      · rw [if_neg (by omega)]
      · rw [if_pos (by omega)]

/-- Digit by digit, from no carry on, the operation on the whole numbers is made. -/
theorem exact_of_digits {ps : List (Place ℕ)} (hB : 1<B) (hps : ∀p∈ps,p.r<B) (hc : c ≤ 1)
    (h : operation.Digit (B^ps.length) (whole B ps) 0 c) : operation.Exact (B^ps.length)
    (whole B ps) c := by
  have hlt : Nat.ofDigits B (ps.map Place.r)<B^(ps.map Place.r).length :=
    Nat.ofDigits_lt_base_pow_length hB (by simpa using hps)
  rw [List.length_map] at hlt
  exact Digit.exact h hlt hc

end Digits
end FalloutEmu.LongArithmetic
