import FalloutEmu.Host
import Mathlib.Data.List.Basic
import Mathlib.Tactic.Linarith

/-! # Growable arrays and their merge sort -/
namespace FalloutEmu

inductive FEComparisonResult where
  | ascendent
  | descendent
  | same
  deriving DecidableEq,Repr

/-- An array of `size` elements in `capacity` slots. The host's allocator is taken to succeed. -/
structure FEArray (α : Type) where
  p : List α
  size : ℕ
  capacity : ℕ
  length_p : p.length=capacity
  size_le : size ≤ capacity

namespace FEArray

/-- `element_size`: how many bytes an array allocates for an element. -/
class ElementSize (α : Type) where
  elementSize : U32

export ElementSize (elementSize)

variable {α : Type}

def elements (array : FEArray α) : List α := array.p.take array.size

/-- `fe_array_create`; a fresh slot holds `default`, the all-zero element. -/
def create [Inhabited α] (capacity : ℕ) : FEArray α :=
  ⟨List.replicate capacity default,0,capacity,List.length_replicate,Nat.zero_le _⟩

/-- `fe_array_index`, which checks no bound of its own. -/
def index (array : FEArray α) (i : ℕ) : Except Stop α :=
  match array.p[i]? with
  | some element => .ok element
  | none => .error .outOfBounds

/-- `fe_array_last`; the index `size-1` wraps on the empty array. -/
def last (array : FEArray α) : Except Stop α :=
  if array.size=0 then .error .outOfBounds else array.index (array.size-1)

theorem length_elements (array : FEArray α) : array.elements.length=array.size := by
  simp [elements,array.length_p,array.size_le]

section Append
variable [ElementSize α]

def allocated (array : FEArray α) : ℕ :=
  let capacity : U32 := .ofNat 32 array.capacity*3/2+1
  (capacity*elementSize α).toNat

/-- A slot is free, or the elements in use and one more fit the allocation that a growth makes. -/
def Grows (array : FEArray α) : Prop :=
  array.size<array.capacity ∨ (array.size+1)*(elementSize α).toNat ≤ array.allocated

instance (array : FEArray α) : Decidable array.Grows := inferInstanceAs (Decidable (_ ∨ _))

/-- The array with one more element; behind the copied elements a new allocation is fresh. -/
def appended [Inhabited α] (array : FEArray α) (element : α) : FEArray α :=
  if h : array.size<array.capacity then
    ⟨array.p.set array.size element,array.size+1,array.capacity,
      List.length_set.trans array.length_p,h⟩
  else
    let fresh := array.allocated/(elementSize α).toNat-(array.size+1)
    ⟨array.elements++element::List.replicate fresh default,array.size+1,array.size+1+fresh,
      by simp only [List.length_append,List.length_cons,List.length_replicate,
        length_elements]; omega,by omega⟩

/-- `fe_array_append`. Both byte counts of a growth wrap, and the copy of the elements does not look
at how much was allocated. -/
def append [Inhabited α] (array : FEArray α) (element : α) : Except Stop (FEArray α) :=
  if array.Grows then .ok (array.appended element) else .error .outOfBounds

theorem append_eq_ok [Inhabited α] {array array' : FEArray α} {element : α} :
    array.append element=.ok array' ↔ array.Grows ∧ array'=array.appended element := by
  unfold append
  split <;> simp [*,eq_comm]

theorem Grows.append_eq [Inhabited α] {array : FEArray α} (h : array.Grows) (element : α) :
    array.append element=.ok (array.appended element) :=
  append_eq_ok.mpr ⟨h,rfl⟩

/-- A growth that does not wrap allocates all slots. -/
theorem allocated_eq {array : FEArray α} (hcapacity : array.capacity*3<2^32)
    (hbytes : (array.capacity*3/2+1)*(elementSize α).toNat<2^32) :
    array.allocated=(array.capacity*3/2+1)*(elementSize α).toNat := by
  have hthree : (3 : U32).toNat=3 := rfl
  have htriple : (BitVec.ofNat 32 array.capacity*3).toNat=array.capacity*3 := by
    rw [BitVec.toNat_mul,BitVec.toNat_ofNat,hthree,Nat.mod_eq_of_lt (a:=array.capacity) (by omega)]
    exact Nat.mod_eq_of_lt hcapacity
  have hslots : (BitVec.ofNat 32 array.capacity*3/2+1).toNat=array.capacity*3/2+1 := by
    rw [BitVec.toNat_add,BitVec.toNat_udiv,htriple]
    exact Nat.mod_eq_of_lt (by simp; omega)
  simp only [allocated]
  rw [BitVec.toNat_mul,hslots,Nat.mod_eq_of_lt hbytes]

theorem grows_of_fits {array : FEArray α} (hcapacity : array.capacity*3<2^32)
    (hbytes : (array.capacity*3/2+1)*(elementSize α).toNat<2^32) : array.Grows := by
  have h := array.size_le
  rw [Grows,allocated_eq hcapacity hbytes]
  exact .inr (Nat.mul_le_mul_right _ (by omega))

end Append

/-- `array->size++` where a slot is left; the slot keeps what it held. -/
def increment (array : FEArray α) (h : array.size<array.capacity) : FEArray α :=
  ⟨array.p,array.size+1,array.capacity,array.length_p,h⟩

/-- A store through `fe_array_index_addr`. -/
def store (array : FEArray α) (i : ℕ) (element : α) : FEArray α :=
  ⟨array.p.set i element,array.size,array.capacity,List.length_set.trans array.length_p,
    array.size_le⟩

@[simp] theorem size_create [Inhabited α] (capacity : ℕ) : (create capacity : FEArray α).size=0 :=
  rfl

@[simp] theorem capacity_create [Inhabited α] (capacity : ℕ) :
    (create capacity : FEArray α).capacity=capacity := rfl

@[simp] theorem elements_create [Inhabited α] (capacity : ℕ) :
    (create capacity : FEArray α).elements=[] := rfl

@[simp] theorem size_appended [ElementSize α] [Inhabited α] (array : FEArray α) (element : α) :
    (array.appended element).size=array.size+1 := by
  unfold appended
  split <;> rfl

private theorem take_set_succ (xs : List α) (n : ℕ) (a : α) (h : n<xs.length) :
    (xs.set n a).take (n+1)=xs.take n++[a] := by
  rw [List.take_add_one,List.take_set_of_le (Nat.le_refl n)]
  simp [h]

@[simp] theorem elements_appended [ElementSize α] [Inhabited α] (array : FEArray α) (element : α) :
    (array.appended element).elements=array.elements++[element] := by
  unfold appended
  split
  · next h => exact take_set_succ _ _ _ (by rw [array.length_p]; exact h)
  · simp only [elements]
    rw [List.append_cons,List.take_left']
    simp [array.length_p,array.size_le]

theorem index_eq_ok {array : FEArray α} {i : ℕ} {a : α} (h : array.elements[i]?=some a) :
    array.index i=.ok a := by
  obtain ⟨hi,ha⟩ := List.getElem?_eq_some_iff.mp h
  simp only [elements,List.getElem_take] at ha
  have hp : i<array.p.length := by simp [elements] at hi; omega
  simp [index,hp,ha]

theorem last_eq_ok (array : FEArray α) (h : array.elements≠[]) :
    array.last=.ok (array.elements.getLast h) := by
  have hs : array.size≠0 := by
    rw [←array.length_elements]
    simpa using h
  have hget : array.elements[array.size-1]?=some (array.elements.getLast h) := by
    rw [List.getLast_eq_getElem,List.getElem?_eq_getElem (by rw [length_elements]; omega)]
    simp only [length_elements]
  rw [last,if_neg hs,index_eq_ok hget]

section MergeSort
variable (compare : α→α→FEComparisonResult)

/-- The two copying loops at the end of `_merge`. -/
def copyInto : List α→ℕ→List α→List α
  | [],_,p => p
  | a::rest,k,p => copyInto rest (k+1) (p.set k a)

/-- The loops of `_merge`, from the remaining halves `L` and `R` into the slots from `k`. -/
def mergeInto : List α→List α→ℕ→List α→List α
  | left::L,right::R,k,p =>
    match compare left right with
    | .descendent => mergeInto (left::L) R (k+1) (p.set k right)
    | _ => mergeInto L (right::R) (k+1) (p.set k left)
  | L,[],k,p => copyInto L k p
  | [],R,k,p => copyInto R k p
  termination_by L R => L.length+R.length

def merge (p : List α) (l m r : ℕ) : List α :=
  mergeInto compare ((p.drop l).take (m+1-l)) ((p.drop (m+1)).take (r-m)) l p

/-- `_mergeSort` on the slots `l..r`; the indices are signed because an empty array has `r=-1`. -/
def mergeSortFrom (p : List α) (l r : ℤ) : List α :=
  if l < r then
    let m := l+(r-l)/2
    let p₁ := mergeSortFrom p l m
    let p₂ := mergeSortFrom p₁ (m+1) r
    merge compare p₂ l.toNat m.toNat r.toNat
  else p
  termination_by (r-l).toNat
  decreasing_by all_goals omega

/-- The order a comparator stands for: `x` may stand before `y`. -/
def before (x y : α) : Bool := compare x y≠.descendent

theorem copyInto_eq (xs p : List α) (k : ℕ) (h : k+xs.length ≤ p.length) :
    copyInto xs k p=p.take k++xs++p.drop (k+xs.length) := by
  induction xs generalizing k p with
  | nil => simp [copyInto]
  | cons a xs ih =>
    have hk : k < p.length := by simp at h; omega
    have hset : k+1+xs.length≤(p.set k a).length := by simp at h ⊢; omega
    rw [copyInto,ih _ _ hset,take_set_succ p k a hk,List.drop_set_of_lt (by omega)]
    simp [Nat.add_assoc,Nat.add_comm 1]

theorem mergeInto_eq (L R p : List α) (k : ℕ) (h : k+(L.length+R.length) ≤ p.length) :
    mergeInto compare L R k p
      =p.take k++List.merge L R (before compare)++p.drop (k+(L.length+R.length)) := by
  induction L,R,k,p using mergeInto.induct compare with
  | case1 left L right R k p hc ih =>
    have hk : k < p.length := by simp at h; omega
    have hlen : k+1+((left::L).length+R.length)≤(p.set k right).length := by simp at h ⊢; omega
    have hb : before compare left right=false := by simp [before,hc]
    rw [mergeInto,hc]
    simp only [ih hlen,take_set_succ p k right hk]
    rw [List.drop_set_of_lt (by omega),List.merge]
    simp [hb,Nat.add_comm,Nat.add_left_comm]
  | case2 left L right R k p hc ih =>
    have hk : k < p.length := by simp at h; omega
    have hlen : k+1+(L.length+(right::R).length)≤(p.set k left).length := by simp at h ⊢; omega
    have hb : before compare left right=true := by simp [before]; exact hc
    have hm : mergeInto compare (left::L) (right::R) k p
        =mergeInto compare L (right::R) (k+1) (p.set k left) := by
      rw [mergeInto]
      split
      · exact absurd ‹_› hc
      · rfl
    rw [hm,ih hlen,take_set_succ p k left hk,List.drop_set_of_lt (by omega),List.merge]
    simp [hb,Nat.add_comm,Nat.add_left_comm]
  | case3 L k p =>
    have hc := copyInto_eq L p k (by simpa using h)
    cases L <;> simpa [mergeInto] using hc
  | case4 R k p _ =>
    have hc := copyInto_eq R p k (by simpa using h)
    cases R <;> simpa [mergeInto] using hc

theorem merge_append {A L R B : List α} (hL : L≠[]) :
    merge compare (A++(L++R)++B) A.length (A.length+L.length-1) (A.length+L.length-1+R.length)
      =A++List.merge L R (before compare)++B := by
  have hpos : 0<L.length := List.length_pos_iff.mpr hL
  have hm : A.length+L.length-1+1=A.length+L.length := by omega
  have hl : ((A++(L++R)++B).drop A.length).take (A.length+L.length-1+1-A.length)=L := by
    rw [hm]
    simp
  have hr : ((A++(L++R)++B).drop (A.length+L.length-1+1)).take
      (A.length+L.length-1+R.length-(A.length+L.length-1))=R := by
    rw [hm,Nat.add_sub_cancel_left,←List.append_assoc A L R,List.append_assoc,
      List.drop_left' (by simp),List.take_left' rfl]
  rw [merge,hl,hr,mergeInto_eq _ _ _ _ _ (by simp)]
  congr 1
  · simp
  · rw [List.drop_left' (by simp)]

/-- The two halves `_mergeSort` sorts are the halves the library's stable merge sort takes. -/
theorem mergeSort_halves (le : α→α→Bool) {L R : List α} (hL : L≠[]) (hR : R≠[])
    (h : L.length=(L.length+R.length+1)/2) :
    (L++R).mergeSort le=List.merge (L.mergeSort le) (R.mergeSort le) le := by
  match hs : L++R with
  | [] => simp_all
  | [a] =>
    have := congrArg List.length hs
    have := List.length_pos_iff.mpr hL
    have := List.length_pos_iff.mpr hR
    simp at *
    omega
  | a::b::rest =>
    have hlen : L.length=((a::b::rest).length+1)/2 := by rw [←hs,List.length_append]; exact h
    rw [List.mergeSort]
    simp only [List.MergeSort.Internal.splitInTwo,List.splitAt_eq,←hlen]
    rw [←hs,List.take_left,List.drop_left]

theorem mergeSortFrom_eq (A S B : List α) :
    mergeSortFrom compare (A++S++B) A.length (A.length+S.length-1)
      =A++S.mergeSort (before compare)++B := by
  induction hn : S.length using Nat.strong_induction_on generalizing A S B with
  | _ n ih =>
    subst hn
    rw [mergeSortFrom]
    split
    case isFalse h =>
      match S with
      | [] => simp
      | [a] => simp
      | a::b::rest => simp at h; omega
    case isTrue h =>
      have hlen : 2≤S.length := by omega
      -- `m` is the last index of the first half
      obtain ⟨L,R,rfl,hL⟩ : ∃L R,S=L++R ∧ L.length=(S.length+1)/2 :=
        ⟨S.take ((S.length+1)/2),S.drop ((S.length+1)/2),by simp,by simp; omega⟩
      simp only [List.length_append] at hL hlen h ih ⊢
      have hLne : L≠[] := List.length_pos_iff.mp (by omega)
      have hRne : R≠[] := List.length_pos_iff.mp (by omega)
      have hmid : (A.length:ℤ)+(((A.length+L.length:ℕ):ℤ)+R.length-1-A.length)/2
          =A.length+L.length-1 := by omega
      have hfirst := ih L.length (by omega) A L (R++B) rfl
      have hsecond := ih R.length (by omega) (A++L.mergeSort (before compare)) R B rfl
      simp only [List.length_append,List.length_mergeSort] at hsecond
      have hstart : (A.length:ℤ)+L.length-1+1=((A.length+L.length:ℕ):ℤ) := by omega
      have hend : (A.length:ℤ)+(L.length+R.length:ℕ)-1=((A.length+L.length:ℕ):ℤ)+R.length-1 := by
        omega
      have hne : L.mergeSort (before compare)≠[] := by
        intro he
        exact hLne (by simpa using congrArg List.length he)
      have hmerge := merge_append compare (A:=A) (B:=B) (R:=R.mergeSort (before compare)) hne
      simp only [List.length_mergeSort] at hmerge
      have hshape : A++(L++R)++B=A++L++(R++B) := by simp
      have hshape' : A++L.mergeSort (before compare)++(R++B)=
        A++L.mergeSort (before compare)++R++B := by simp
      simp only [hend,hmid,hstart]
      rw [hshape,hfirst,hshape',hsecond,mergeSort_halves _ hLne hRne hL,←hmerge]
      congr 1
      · simp
      · omega
      · omega

theorem length_mergeSortFrom (p : List α) (n : ℕ) (h : n ≤ p.length) :
    (mergeSortFrom compare p 0 (n-1)).length=p.length := by
  have hs := mergeSortFrom_eq compare [] (p.take n) (p.drop n)
  simp only [List.nil_append,List.take_append_drop,List.length_nil,List.length_take,
    Nat.min_eq_left h,Nat.cast_zero,zero_add] at hs
  rw [hs]
  simp
  omega

def mergeSort (array : FEArray α) : FEArray α where
  p := mergeSortFrom compare array.p 0 (array.size-1)
  size := array.size
  capacity := array.capacity
  length_p := by
    have h := array.size_le
    rw [length_mergeSortFrom compare array.p array.size (by rw [array.length_p]; exact h),
      array.length_p]
  size_le := array.size_le

@[simp] theorem size_mergeSort (array : FEArray α) : (array.mergeSort compare).size=array.size :=
  rfl

/-- The in-place sort is the library's stable merge sort of the elements in use. -/
@[simp] theorem elements_mergeSort (array : FEArray α) :
    (array.mergeSort compare).elements=array.elements.mergeSort (before compare) := by
  have hs := mergeSortFrom_eq compare [] array.elements (array.p.drop array.size)
  simp only [List.nil_append,elements,List.take_append_drop,List.length_nil,List.length_take,
    array.length_p,Nat.min_eq_left array.size_le,Nat.cast_zero,zero_add] at hs
  have htake := congrArg (List.take array.size) hs
  rwa [List.take_left' (by simp [array.length_p,array.size_le])] at htake

end MergeSort

end FEArray
end FalloutEmu
