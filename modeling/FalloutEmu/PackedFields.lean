import Mathlib.Data.Nat.Notation
import Mathlib.Logic.Basic

/-! # Fields of one width packed into a word -/
namespace FalloutEmu.PackedFields
variable {w k : ℕ} (word : BitVec w) (p q : ℕ) (v : BitVec k)

def field (k : ℕ) (word : BitVec w) (p : ℕ) : BitVec k := (word>>>(k*p)).setWidth k

def setField (word : BitVec w) (p : ℕ) (v : BitVec k) : BitVec w :=
  word&&&~~~((BitVec.allOnes k).setWidth w<<<(k*p))|||v.setWidth w<<<(k*p)

theorem getLsbD_field {i : ℕ} (hi : i<k) : (field k word p).getLsbD i=word.getLsbD (k*p+i) := by
  simp [field,hi]

theorem getLsbD_setField {i : ℕ} (hi : i<w) :
    (setField word p v).getLsbD i=
      if k*p ≤ i ∧ i<k*p+k then v.getLsbD (i-k*p) else word.getLsbD i := by
  simp only [setField,BitVec.getLsbD_or,BitVec.getLsbD_and,BitVec.getLsbD_not,
    BitVec.getLsbD_shiftLeft,BitVec.getLsbD_setWidth,BitVec.getLsbD_allOnes]
  by_cases hlow : i<k*p
  · simp [hi,hlow,Nat.not_le.mpr hlow]
  · have hsub : i-k*p<w := by omega
    by_cases hhigh : i-k*p<k
    · have hin : k*p ≤ i ∧ i<k*p+k := by omega
      simp [hi,hlow,hsub,hhigh,hin]
    · have hout : ¬(k*p ≤ i ∧ i<k*p+k) := by omega
      have hzero : v.getLsbD (i-k*p)=false := BitVec.getLsbD_of_ge _ _ (by omega)
      simp [hi,hlow,hsub,hhigh,hout,hzero]

theorem field_setField_self (h : k*p+k ≤ w) : field k (setField word p v) p=v := by
  ext i hi
  have hbit := getLsbD_field (setField word p v) p hi
  rw [getLsbD_setField word p v (by omega),if_pos (by omega),Nat.add_sub_cancel_left] at hbit
  exact hbit

theorem places_apart {p q i : ℕ} (hne : p≠q) (hi : i<k) : ¬(k*p ≤ k*q+i ∧ k*q+i<k*p+k) := by
  rintro ⟨hlow,hhigh⟩
  rcases Nat.lt_or_gt_of_ne hne with h | h
  · have hmul := Nat.mul_le_mul_left k (Nat.succ_le_of_lt h)
    rw [Nat.mul_succ] at hmul
    omega
  · have hmul := Nat.mul_le_mul_left k (Nat.succ_le_of_lt h)
    rw [Nat.mul_succ] at hmul
    omega

theorem field_setField_of_ne {p q : ℕ} (hne : p≠q) :
    field k (setField word p v) q=field k word q := by
  ext i hi
  have hset := getLsbD_field (setField word p v) q hi
  have hbit := getLsbD_field word q hi
  by_cases hw : k*q+i<w
  · rw [getLsbD_setField word p v hw,if_neg (places_apart hne hi)] at hset
    exact hset.trans hbit.symm
  · rw [BitVec.getLsbD_of_ge _ _ (Nat.le_of_not_lt hw)] at hset hbit
    exact hset.trans hbit.symm

/-- To write the field that is there changes nothing. -/
theorem setField_field : setField word p (field k word p)=word := by
  ext i hi
  have hbit := getLsbD_setField word p (field k word p) hi
  split at hbit
  next hin =>
    rw [getLsbD_field word p (by omega),Nat.add_sub_cancel' hin.1] at hbit
    exact hbit
  next => exact hbit

/-- Nothing is left from the place `p` on exactly when all fields from there on are zero. -/
theorem shift_eq_zero_iff (hk : 0<k) : word>>>(k*p)=0 ↔ ∀q,p ≤ q→field k word q=0 := by
  constructor
  · intro h q hq
    obtain ⟨n,rfl⟩ := Nat.exists_eq_add_of_le hq
    apply BitVec.eq_of_getLsbD_eq
    intro i hi
    have hbit : (word>>>(k*p)).getLsbD (k*n+i)=false := by
      rw [h]
      exact BitVec.getLsbD_zero
    rw [getLsbD_field word (p+n) hi,Nat.mul_add,Nat.add_assoc,←BitVec.getLsbD_ushiftRight,hbit]
    exact BitVec.getLsbD_zero.symm
  · intro h
    apply BitVec.eq_of_getLsbD_eq
    intro i hi
    have hbit := getLsbD_field word (p+i/k) (Nat.mod_lt i hk)
    rw [h (p+i/k) (Nat.le_add_right _ _),Nat.mul_add,Nat.add_assoc,Nat.div_add_mod] at hbit
    rw [BitVec.getLsbD_ushiftRight,←hbit]
    exact BitVec.getLsbD_zero.trans BitVec.getLsbD_zero.symm

/-- What a shift without a mask reads: the field at the place, if all the fields above it are
zero. -/
theorem shift_eq_iff (hk : 0<k) (hkw : k ≤ w) :
    word>>>(k*p)=v.setWidth w ↔ field k word p=v ∧ ∀q,p<q→field k word q=0 := by
  have habove : (∀q,p<q→field k word q=0) ↔ word>>>(k*(p+1))=0 :=
    (shift_eq_zero_iff word (p+1) hk).symm
  rw [habove]
  constructor
  · intro h
    constructor
    · rw [field,h,BitVec.setWidth_setWidth_of_le _ hkw,BitVec.setWidth_eq]
    · rw [Nat.mul_succ,BitVec.shiftRight_add,h]
      apply BitVec.eq_of_getLsbD_eq
      intro i hi
      simp
  · rintro ⟨hfield,hzero⟩
    apply BitVec.eq_of_getLsbD_eq
    intro i hi
    rw [BitVec.getLsbD_ushiftRight,BitVec.getLsbD_setWidth]
    by_cases hik : i<k
    · rw [←getLsbD_field word p hik,hfield]
      simp [hi]
    · have hbit : (word>>>(k*(p+1))).getLsbD (i-k)=false := by
        rw [hzero]
        exact BitVec.getLsbD_zero
      have hplace : k*(p+1)+(i-k)=k*p+i := by
        rw [Nat.mul_succ]
        omega
      rw [BitVec.getLsbD_ushiftRight,hplace] at hbit
      rw [hbit,BitVec.getLsbD_of_ge v i (Nat.le_of_not_lt hik),Bool.and_false]

theorem field_of_ge (h : w ≤ k*p) : field k word p=0 := by
  apply BitVec.eq_of_getLsbD_eq
  intro i hi
  rw [getLsbD_field word p hi,BitVec.getLsbD_of_ge word _ (Nat.le_trans h (Nat.le_add_right _ _))]
  exact BitVec.getLsbD_zero.symm

/-- A field is read in a shifted word at its distance from the shift. -/
theorem field_shift {p q : ℕ} (h : q ≤ p) : field k (word>>>(k*q)) (p-q)=field k word p := by
  rw [field,field,←BitVec.shiftRight_add,←Nat.mul_add,Nat.add_sub_cancel' h]

theorem shift_setField_of_lt {p q : ℕ} (h : p<q) : (setField word p v)>>>(k*q)=word>>>(k*q) := by
  apply BitVec.eq_of_getLsbD_eq
  intro i hi
  have hmul := Nat.mul_le_mul_left k (Nat.succ_le_of_lt h)
  rw [Nat.mul_succ] at hmul
  rw [BitVec.getLsbD_ushiftRight,BitVec.getLsbD_ushiftRight]
  by_cases hw : k*q+i<w
  · rw [getLsbD_setField word p v hw,if_neg (by omega)]
  · rw [BitVec.getLsbD_of_ge _ _ (Nat.le_of_not_lt hw),
      BitVec.getLsbD_of_ge _ _ (Nat.le_of_not_lt hw)]

/-- A shift to a lower place leaves the field in view, so it stays the same only if the field
does. -/
theorem shift_setField_iff {p q : ℕ} (h : q<p) (hw : k*p+k ≤ w) :
    (setField word p v)>>>(k*q)=word>>>(k*q) ↔ field k word p=v := by
  constructor
  · intro hshift
    have hfield := field_setField_self word p v hw
    rw [←field_shift _ (Nat.le_of_lt h),hshift,field_shift _ (Nat.le_of_lt h)] at hfield
    exact hfield
  · intro hfield
    rw [←hfield,setField_field]

end FalloutEmu.PackedFields
