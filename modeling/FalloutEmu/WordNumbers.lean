import Mathlib.Data.Nat.Notation
import Mathlib.Data.Int.Init
import Mathlib.Tactic.Ring
import Mathlib.Tactic.Linarith

/-! # The signed and unsigned numbers of machine words -/
namespace FalloutEmu.WordNumbers
variable {n v : ℕ}

def number (signed : Bool) (x : BitVec n) : ℤ := if signed then x.toInt else x.toNat

def Fits (signed : Bool) (n : ℕ) (z : ℤ) : Prop :=
  if signed then -2^(n-1) ≤ z ∧ z<2^(n-1) else 0 ≤ z ∧ z<2^n

instance (signed : Bool) (n : ℕ) (z : ℤ) : Decidable (Fits signed n z) := by
  unfold Fits
  infer_instance

def wrap (signed : Bool) (n : ℕ) (z : ℤ) : ℤ := if signed then z.bmod (2^n) else z%2^n

theorem number_inj (signed : Bool) {x y : BitVec n} : number signed x=number signed y ↔ x=y := by
  cases signed with
  | false => simp [number,BitVec.toNat_eq]
  | true => simp [number,BitVec.toInt_inj]

theorem fits_number (signed : Bool) (x : BitVec n) : Fits signed n (number signed x) := by
  cases signed with
  | false =>
    have hlt : (x.toNat : ℤ)<2^n := by exact_mod_cast x.isLt
    simpa [Fits,number] using hlt
  | true => exact ⟨BitVec.le_toInt x,BitVec.toInt_lt⟩

theorem two_pow_half (hn : 0<n) : (2 : ℤ)^n=2*2^(n-1) := by
  rw [←pow_succ',Nat.sub_add_cancel hn]

theorem wrap_of_fits {signed : Bool} {z : ℤ} (hn : 0<n) (h : Fits signed n z) :
    wrap signed n z=z := by
  cases signed with
  | false => exact Int.emod_eq_of_lt h.1 h.2
  | true =>
    have hhalf := two_pow_half hn
    have hbounds : -2^(n-1) ≤ z ∧ z<2^(n-1) := h
    refine Int.bmod_eq_of_le_mul_two ?_ ?_ <;> push_cast <;> omega

theorem fits_wrap (signed : Bool) (hn : 0<n) (z : ℤ) : Fits signed n (wrap signed n z) := by
  have hpos : (0 : ℤ)<2^n := by positivity
  cases signed with
  | false => exact ⟨Int.emod_nonneg _ hpos.ne',Int.emod_lt_of_pos _ hpos⟩
  | true =>
    have hhalf := two_pow_half hn
    have hlow := Int.le_bmod (x:=z) (Nat.two_pow_pos n)
    have hhigh := Int.bmod_lt (x:=z) (Nat.two_pow_pos n)
    simp only [Nat.cast_pow,Nat.cast_ofNat] at hlow hhigh
    simp only [Fits,wrap,if_true]
    omega

/-- Keeping `n` bits loses nothing exactly when the number fits. -/
theorem wrap_eq_self_iff (signed : Bool) (hn : 0<n) (z : ℤ) :
    wrap signed n z=z ↔ Fits signed n z := by
  refine ⟨?_,wrap_of_fits hn⟩
  intro h
  rw [←h]
  exact fits_wrap signed hn z

theorem number_setWidth {signed : Bool} (h : v ≤ n) (x : BitVec n) :
    number signed (x.setWidth v)=wrap signed v (number signed x) := by
  have hdvd : 2^v∣2^n := pow_dvd_pow 2 h
  cases signed with
  | false => simp [number,wrap]
  | true =>
    simp only [number,wrap,if_true]
    rw [BitVec.toInt_setWidth,BitVec.toInt_eq_toNat_bmod x,Int.bmod_bmod_of_dvd hdvd]

def extend (signed : Bool) (v : ℕ) (x : BitVec n) : BitVec v :=
  if signed then x.signExtend v else x.setWidth v

theorem number_extend {signed : Bool} (h : n ≤ v) (x : BitVec n) :
    number signed (extend signed v x)=number signed x := by
  cases signed with
  | false =>
    have hlt := x.isLt.trans_le (Nat.pow_le_pow_right (by decide) h)
    simp only [number,extend,Bool.false_eq_true,if_false,BitVec.toNat_setWidth,Nat.mod_eq_of_lt hlt]
  | true =>
    simp only [number,extend,if_true]
    exact BitVec.toInt_signExtend_of_le h

section Division

def quotient (signed : Bool) (a b : BitVec n) : BitVec n := if signed then a.sdiv b else a/b

def remainder (signed : Bool) (a b : BitVec n) : BitVec n := if signed then a.srem b else a%b

theorem number_quotient {signed : Bool} {a b : BitVec n}
    (h : signed=true→a≠BitVec.intMin n ∨ b≠ -1) :
    number signed (quotient signed a b)=(number signed a).tdiv (number signed b) := by
  cases signed with
  | false => simp [number,quotient]
  | true => exact BitVec.toInt_sdiv_of_ne_or_ne a b (h rfl)

theorem number_remainder (signed : Bool) (a b : BitVec n) :
    number signed (remainder signed a b)=(number signed a).tmod (number signed b) := by
  cases signed with
  | false => simp [number,remainder,Int.tmod_eq_emod_of_nonneg]
  | true => exact BitVec.toInt_srem a b

theorem number_eq_zero {signed : Bool} {x : BitVec n} : number signed x=0 ↔ x=0 := by
  have hzero : number signed (0 : BitVec n)=0 := by cases signed <;> simp [number]
  rw [←hzero]
  exact number_inj signed

/-- A quotient and a remainder as the processor leaves them. -/
structure IsDivision (dividend divisor q r : ℤ) : Prop where
  equation : dividend=q*divisor+r
  bounded : r.natAbs<divisor.natAbs
  sign : r=0 ∨ (r<0 ↔ dividend<0)

theorem isDivision_tdiv (dividend : ℤ) {divisor : ℤ} (h : divisor≠0) :
    IsDivision dividend divisor (dividend.tdiv divisor) (dividend.tmod divisor) where
  equation := by
    have hsum := Int.mul_tdiv_add_tmod dividend divisor
    rw [mul_comm] at hsum
    exact hsum.symm
  bounded := by
    rw [Int.natAbs_tmod]
    exact Nat.mod_lt _ (Int.natAbs_pos.mpr h)
  sign := by
    by_cases hdvd : divisor∣dividend
    · exact Or.inl (Int.tmod_eq_zero_of_dvd hdvd)
    · right
      have hsign := Int.sign_tmod dividend divisor
      rw [if_neg hdvd] at hsign
      rw [←Int.sign_eq_neg_one_iff_neg,←Int.sign_eq_neg_one_iff_neg,hsign]

theorem isDivision_natCast {dividend divisor q r : ℕ} (h : 0<divisor) :
    IsDivision dividend divisor q r ↔ q=dividend/divisor ∧ r=dividend%divisor := by
  constructor
  · intro hd
    have hequation : r+divisor*q=dividend := by
      have heq := hd.equation
      have hcomm := mul_comm divisor q
      zify at hcomm ⊢
      omega
    have hlt : r<divisor := by simpa using hd.bounded
    obtain ⟨hq,hr⟩ := (Nat.div_mod_unique h).mpr ⟨hequation,hlt⟩
    exact ⟨hq.symm,hr.symm⟩
  · rintro ⟨rfl,rfl⟩
    have hd := isDivision_tdiv dividend (Nat.cast_ne_zero.mpr h.ne' : (divisor : ℤ)≠0)
    simpa [Int.tmod_eq_emod_of_nonneg] using hd

theorem fits_tmod {signed : Bool} {dividend divisor : ℤ} (hdividend : signed=false→0 ≤ dividend)
    (hdivisor : Fits signed n divisor) (hne : divisor≠0) :
    Fits signed n (dividend.tmod divisor) := by
  have hbounded := (isDivision_tdiv dividend hne).bounded
  cases signed with
  | false =>
    have hnonneg := Int.tmod_nonneg divisor (hdividend rfl)
    have hrange : 0 ≤ divisor ∧ divisor<2^n := hdivisor
    exact ⟨hnonneg,by omega⟩
  | true =>
    have hrange : -2^(n-1) ≤ divisor ∧ divisor<2^(n-1) := hdivisor
    show -2^(n-1) ≤ dividend.tmod divisor ∧ dividend.tmod divisor<2^(n-1)
    omega

end Division

section Multiplication

theorem number_mul (signed : Bool) (x y : BitVec n) :
    number signed (x*y)=wrap signed n (number signed x*number signed y) := by
  cases signed with
  | false => simp [number,wrap]
  | true => simp [number,wrap]

/-- A product has at most twice the bits of its factors. -/
theorem fits_mul (signed : Bool) (hn : 0<n) (x y : BitVec n) :
    Fits signed (n+n) (number signed x*number signed y) := by
  cases signed with
  | false =>
    have hlt : x.toNat*y.toNat<2^n*2^n := Nat.mul_lt_mul'' x.isLt y.isLt
    rw [←pow_add] at hlt
    show 0 ≤ (x.toNat : ℤ)*y.toNat ∧ (x.toNat : ℤ)*y.toNat<2^(n+n)
    exact ⟨by positivity,by exact_mod_cast hlt⟩
  | true =>
    have hlow := BitVec.le_toInt_mul_toInt (x:=x) (y:=y)
    have hhigh := BitVec.toInt_mul_toInt_le (x:=x) (y:=y)
    have hpow : (2 : ℤ)^(n*2-2)<2^(n+n-1) := pow_lt_pow_right₀ (by decide) (by omega)
    show -2^(n+n-1) ≤ x.toInt*y.toInt ∧ x.toInt*y.toInt<2^(n+n-1)
    omega

theorem fits_mono {signed : Bool} (h : n ≤ v) {z : ℤ} (hz : Fits signed n z) : Fits signed v z := by
  cases signed with
  | false => exact ⟨hz.1,hz.2.trans_le (pow_le_pow_right₀ (by decide) h)⟩
  | true =>
    have hpow : (2 : ℤ)^(n-1) ≤ 2^(v-1) := pow_le_pow_right₀ (by decide) (by omega)
    have hrange : -2^(n-1) ≤ z ∧ z<2^(n-1) := hz
    show -2^(v-1) ≤ z ∧ z<2^(v-1)
    omega

theorem number_extend_mul (signed : Bool) (hn : 0<n) (h : n+n ≤ v) (x y : BitVec n) :
    number signed (extend signed v x*extend signed v y)=number signed x*number signed y := by
  rw [number_mul,number_extend (by omega),number_extend (by omega)]
  exact wrap_of_fits (by omega) (fits_mono h (fits_mul signed hn x y))

/-- The upper half of a double word that says no more than its lower half. -/
def signFill (signed : Bool) (low : BitVec n) : BitVec n :=
  if signed && low.msb then BitVec.allOnes n else 0

theorem append_eq_extend_iff (signed : Bool) (high low : BitVec n) :
    high++low=extend signed (n+n) low ↔ high=signFill signed low := by
  have hextend : extend signed (n+n) low=signFill signed low++low := by
    have hlt : low.toNat<2^(n+n) := low.isLt.trans_le (Nat.pow_le_pow_right (by decide)
      (Nat.le_add_left n n))
    apply BitVec.eq_of_toNat_eq
    rw [BitVec.toNat_append,←Nat.shiftLeft_add_eq_or_of_lt low.isLt,Nat.shiftLeft_eq]
    cases signed with
    | false =>
      show (low.setWidth (n+n)).toNat=(0 : BitVec n).toNat*2^n+low.toNat
      rw [BitVec.toNat_setWidth,Nat.mod_eq_of_lt hlt]
      simp
    | true =>
      show (low.signExtend (n+n)).toNat=(signFill true low).toNat*2^n+low.toNat
      rw [BitVec.toNat_signExtend,BitVec.toNat_setWidth,Nat.mod_eq_of_lt hlt]
      cases hmsb : low.msb with
      | false => simp [signFill,hmsb]
      | true => simp [signFill,hmsb,Nat.pow_add,Nat.sub_mul,Nat.add_comm]
  rw [hextend]
  exact BitVec.append_left_inj low

/-- The upper half says nothing exactly when the number fits the lower half. -/
theorem high_eq_signFill_iff (signed : Bool) (hn : 0<n) (high low : BitVec n) :
    high=signFill signed low ↔ Fits signed n (number signed (high++low)) := by
  have hlow : (high++low).setWidth n=low := BitVec.setWidth_append_eq_right
  have hnumber : number signed low=wrap signed n (number signed (high++low)) := by
    rw [←number_setWidth (Nat.le_add_left n n),hlow]
  rw [←append_eq_extend_iff,←wrap_eq_self_iff signed hn,←hnumber,←number_inj signed,
    number_extend (Nat.le_add_left n n)]
  exact eq_comm

theorem append_halves (x : BitVec v) :
    (x>>>n).setWidth n++x.setWidth n=x.setWidth (n+n) := by
  apply BitVec.eq_of_getLsbD_eq
  intro i hi
  rw [BitVec.getLsbD_append]
  by_cases hlow : i<n
  · simp [hlow,hi]
  · have hhigh : i-n<n := by omega
    simp [hlow,hi,hhigh,Nat.add_sub_cancel' (Nat.le_of_not_lt hlow)]

end Multiplication
end FalloutEmu.WordNumbers
