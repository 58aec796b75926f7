import FalloutEmu.ArrayLists

/-! # The merge sort on the bytes of an array -/
namespace FalloutEmu.ArrayBytes
open ByteStore Records FEArray

section Definitions
variable (compare : List U8→List U8→FEComparisonResult) (es : U32)

/-- `fe_array_index_addr` of an `int`. -/
def address (i : ℤ) : ℕ := (es*BitVec.ofInt 32 i).toNat

/-- The `memcpy` of the element `j` of `src` over the element `i` of `dst`. -/
def copyElement (dst : Allocation) (i : ℤ) (src : Allocation) (j : ℤ) : Except Stop Allocation := do
  let el ← src.read (address es j) es.toNat
  dst.write (address es i) el

/-- The copying loops of `_merge`, with `n` rounds to go. -/
def copyElements (dst : Allocation) (i : ℤ) (src : Allocation) (j : ℤ) : ℕ→Except Stop Allocation
  | 0 => .ok dst
  | n+1 => do
    let dst ← copyElement es dst i src j
    copyElements dst (i+1) src (j+1) n

/-- The loops of `_merge` behind the copies of the halves. -/
def mergeLoop (L R : Allocation) (n1 n2 : ℤ) (p : Allocation) (i j k : ℤ) :
    Except Stop Allocation :=
  if i<n1 ∧ j<n2 then do
    let left ← L.read (address es i) es.toNat
    let right ← R.read (address es j) es.toNat
    if compare left right=.descendent then do
      let p ← copyElement es p k R j
      mergeLoop L R n1 n2 p i (j+1) (k+1)
    else do
      let p ← copyElement es p k L i
      mergeLoop L R n1 n2 p (i+1) j (k+1)
  else do
    let p ← copyElements es p k L i (n1-i).toNat
    copyElements es p (k+(n1-i).toNat) R j (n2-j).toNat
  termination_by ((n1-i)+(n2-j)).toNat
  decreasing_by all_goals omega

/-- `_merge`; `freshL` and `freshR` are what the two temporary arrays hold at first. -/
def merge (freshL freshR : ℕ→U8) (p : Allocation) (l m r : ℤ) : Except Stop Allocation := do
  let n1 := m-l+1
  let n2 := r-m
  let L ← copyElements es (RawArray.create freshL es (.ofInt 32 n1) false).p 0 p l n1.toNat
  let R ← copyElements es (RawArray.create freshR es (.ofInt 32 n2) false).p 0 p (m+1) n2.toNat
  mergeLoop compare es L R n1 n2 p 0 0 l

/-- `_mergeSort`; the contents of fresh memory depend on the range that is merged. Below `2^31`
elements no `int` overflows. -/
def mergeSortFrom (freshL freshR : ℤ→ℤ→ℕ→U8) (p : Allocation) (l r : ℤ) : Except Stop Allocation :=
  if l < r then do
    let m := l+(r-l)/2
    let p ← mergeSortFrom freshL freshR p l m
    let p ← mergeSortFrom freshL freshR p (m+1) r
    merge compare es (freshL l r) (freshR l r) p l m r
  else .ok p
  termination_by (r-l).toNat
  decreasing_by all_goals omega

/-- `fe_array_merge_sort`; the conversion of `size-1` to `int` gives `-1` for an empty array. -/
def RawArray.mergeSort (freshL freshR : ℤ→ℤ→ℕ→U8) (array : RawArray) : Except Stop RawArray := do
  let p ← mergeSortFrom compare array.element_size freshL freshR array.p 0 (array.size-1).toInt
  .ok { array with p := p }

end Definitions

/-- An allocation whose first records are `xs`; no index and no address in them wraps. -/
structure Slots (k : ℕ) (a : Allocation) (xs : List (List U8)) : Prop where
  room : k*xs.length ≤ a.length
  small : a.length<2^32
  few : xs.length<2^31
  records : records a.bytes k xs.length=xs

section Copies
variable {es : U32} {src dst p : Allocation} {xs ys : List (List U8)}

theorem Slots.address {k : ℕ} {i : ℕ} (h : Slots k p xs) (hk : k=es.toNat) (hi : i<xs.length) :
    address es i=k*i ∧ k*i+k ≤ p.length := by
  subst hk
  have hend := record_end (k:=es.toNat) hi
  have hroom := h.room
  have hsmall := h.small
  have hfew := h.few
  have hindex : (BitVec.ofNat 32 i).toNat=i := by
    rw [BitVec.toNat_ofNat]
    exact Nat.mod_eq_of_lt (by omega)
  refine ⟨?_,by omega⟩
  rw [ArrayBytes.address,BitVec.ofInt_natCast,toNat_mul_eq (by rw [hindex]; omega),hindex]

theorem Slots.read {i : ℕ} (h : Slots es.toNat p xs) (hi : i<xs.length) :
    p.read (ArrayBytes.address es i) es.toNat=.ok xs[i] := by
  obtain ⟨haddress,hend⟩ := h.address rfl hi
  refine Allocation.read_eq_ok.mpr ⟨by omega,?_⟩
  have hget := getElem?_records (m:=p.bytes) (k:=es.toNat) hi
  rw [h.records,List.getElem?_eq_getElem hi] at hget
  rw [haddress]
  exact (Option.some.inj hget).symm

theorem Slots.length_getElem {k i : ℕ} (h : Slots k p xs) (hi : i<xs.length) : xs[i].length=k := by
  apply length_of_mem_records (m:=p.bytes) (n:=xs.length)
  rw [h.records]
  exact List.getElem_mem hi

theorem Slots.write {i : ℕ} {x : List U8} (h : Slots es.toNat p xs) (hi : i<xs.length)
    (hx : x.length=es.toNat) :
    ∃p',p.write (ArrayBytes.address es i) x=.ok p' ∧ p'.length=p.length ∧
    Slots es.toNat p' (xs.set i x) := by
  obtain ⟨haddress,hend⟩ := h.address rfl hi
  refine ⟨_,Allocation.write_eq_ok.mpr ⟨by omega,rfl⟩,rfl,?_,h.small,?_,?_⟩
  · rw [List.length_set]
    exact h.room
  · rw [List.length_set]
    exact h.few
  · rw [List.length_set,haddress,records_writeAt hx,h.records]

theorem copyElement_eq {i j : ℕ} (hdst : Slots es.toNat dst xs) (hsrc : Slots es.toNat src ys)
    (hi : i<xs.length) (hj : j<ys.length) : ∃dst',copyElement es dst i src j=.ok dst' ∧ dst'.length=
      dst.length ∧
      Slots es.toNat dst' (xs.set i ys[j]) := by
  rw [copyElement,hsrc.read hj,ok_bind]
  exact hdst.write hi (hsrc.length_getElem hj)

theorem copyElements_eq {i j n : ℕ} (hdst : Slots es.toNat dst xs) (hsrc : Slots es.toNat src ys)
    (hi : i+n ≤ xs.length) (hj : j+n ≤ ys.length) :
    ∃dst',copyElements es dst i src j n=.ok dst' ∧ dst'.length=dst.length ∧
      Slots es.toNat dst' (copyInto ((ys.drop j).take n) i xs) := by
  induction n generalizing dst xs i j with
  | zero => exact ⟨dst,rfl,rfl,by simpa [copyInto] using hdst⟩
  | succ n ih =>
    obtain ⟨next,hcopy,hlength,hnext⟩ := copyElement_eq hdst hsrc (i:=i) (j:=j)
      (by omega) (by omega)
    obtain ⟨dst',hrest,hlength',hend⟩ := ih (i:=i+1) (j:=j+1) hnext (by rw [List.length_set]; omega)
      (by omega)
    refine ⟨dst',?_,hlength'.trans hlength,?_⟩
    · rw [copyElements,hcopy,ok_bind]
      exact hrest
    · rw [List.drop_eq_getElem_cons (by omega),List.take_succ_cons,copyInto]
      exact hend

theorem copyInto_all {α : Type} {xs p : List α} (h : xs.length=p.length) : copyInto xs 0 p=xs := by
  rw [copyInto_eq _ _ _ (by omega),List.drop_eq_nil_of_le (by omega)]
  simp

/-- A temporary array takes the elements of one half. -/
theorem copyHalf_eq (fresh : ℕ→U8) {l n : ℕ} (hp : Slots es.toNat p xs) (hn : l+n ≤ xs.length) :
    ∃half,copyElements es (RawArray.create fresh es (.ofInt 32 n) false).p 0 p l n=.ok half ∧
      Slots es.toNat half ((xs.drop l).take n) := by
  have hbytes := Nat.mul_le_mul_left es.toNat (show n ≤ xs.length by omega)
  have hroom := hp.room
  have hsmall := hp.small
  have hfew := hp.few
  have hindex : (BitVec.ofNat 32 n).toNat=n := by
    rw [BitVec.toNat_ofNat]
    exact Nat.mod_eq_of_lt (by omega)
  have hlength : (RawArray.create fresh es (.ofInt 32 n) false).p.length=es.toNat*n := by
    rw [BitVec.ofInt_natCast]
    exact (toNat_mul_eq (by rw [hindex]; omega)).trans (by rw [hindex])
  have hslots : Slots es.toNat (RawArray.create fresh es (.ofInt 32 n) false).p
    (records fresh es.toNat n) := by
    refine ⟨?_,by omega,by rw [length_records]; omega,by rw [length_records]; rfl⟩
    rw [hlength,length_records]
  obtain ⟨half,hcopy,_,hhalf⟩ := copyElements_eq (i:=0) (j:=l)
    (n:=n) hslots hp (by rw [length_records]; omega) hn
  refine ⟨half,hcopy,?_⟩
  rwa [copyInto_all (by rw [length_records,List.length_take,List.length_drop]; omega)] at hhalf

end Copies

section Merging
variable (compare : List U8→List U8→FEComparisonResult)

@[simp] theorem length_copyInto {α : Type} (xs p : List α) (k : ℕ) :
    (copyInto xs k p).length=p.length := by
  induction xs generalizing k p with
  | nil => rfl
  | cons a xs ih => rw [copyInto,ih,List.length_set]

variable {compare}

theorem mergeInto_right {a b : List U8} (h : compare a b=.descendent) (L R p : List (List U8))
    (k : ℕ) :
    mergeInto compare (a::L) (b::R) k p=mergeInto compare (a::L) R (k+1) (p.set k b) := by
  rw [mergeInto,h]

theorem mergeInto_left {a b : List U8} (h : compare a b≠.descendent) (L R p : List (List U8))
    (k : ℕ) :
    mergeInto compare (a::L) (b::R) k p=mergeInto compare L (b::R) (k+1) (p.set k a) := by
  rw [mergeInto]
  split
  · next hc => exact absurd hc h
  · rfl

theorem mergeInto_rest {L R : List (List U8)} (h : L=[] ∨ R=[]) (p : List (List U8)) (k : ℕ) :
    mergeInto compare L R k p=copyInto R (k+L.length) (copyInto L k p) := by
  rcases h with rfl|rfl
  · cases R with
    | nil => simp [mergeInto,copyInto]
    | cons b R => simp [mergeInto,copyInto]
  · cases L with
    | nil => simp [mergeInto,copyInto]
    | cons a L => simp [mergeInto,copyInto]

variable (compare)
variable {es : U32} {L R p : Allocation} {ls rs xs : List (List U8)}

theorem mergeLoop_rest {i j k : ℕ} (hL : Slots es.toNat L ls) (hR : Slots es.toNat R rs)
    (hp : Slots es.toNat p xs) (hi : i ≤ ls.length) (hj : j ≤ rs.length)
    (hk : k+(ls.length-i)+(rs.length-j) ≤ xs.length) (hdone : ls.length ≤ i ∨ rs.length ≤ j) :
    ∃p',mergeLoop compare es L R ls.length rs.length p i j k=.ok p' ∧ p'.length=p.length ∧
      Slots es.toNat p' (mergeInto compare (ls.drop i) (rs.drop j) k xs) := by
  have hcond : ¬((i : ℤ)<ls.length ∧ (j : ℤ)<rs.length) := by omega
  have hleft : ((ls.length : ℤ)-i).toNat=ls.length-i := by omega
  have hright : ((rs.length : ℤ)-j).toNat=rs.length-j := by omega
  obtain ⟨next,hcopy,hlength,hnext⟩ := copyElements_eq (i:=k) (j:=i)
    (n:=ls.length-i) hp hL (by omega) (by omega)
  obtain ⟨p',hrest,hlength',hend⟩ := copyElements_eq (i:=k+(ls.length-i)) (j:=j)
    (n:=rs.length-j) hnext hR
    (by rw [length_copyInto]; omega) (by omega)
  refine ⟨p',?_,hlength'.trans hlength,?_⟩
  · rw [mergeLoop,if_neg hcond,hleft,hright,hcopy,ok_bind]
    exact hrest
  · rw [List.take_of_length_le (by rw [List.length_drop]),
      List.take_of_length_le (by rw [List.length_drop])] at hend
    rw [mergeInto_rest,List.length_drop]
    · exact hend
    · exact hdone.imp List.drop_eq_nil_of_le List.drop_eq_nil_of_le

theorem mergeLoop_eq {i j k : ℕ} (hL : Slots es.toNat L ls) (hR : Slots es.toNat R rs)
    (hp : Slots es.toNat p xs) (hi : i ≤ ls.length) (hj : j ≤ rs.length)
    (hk : k+(ls.length-i)+(rs.length-j) ≤ xs.length) :
    ∃p',mergeLoop compare es L R ls.length rs.length p i j k=.ok p' ∧ p'.length=p.length ∧
      Slots es.toNat p' (mergeInto compare (ls.drop i) (rs.drop j) k xs) := by
  induction hn : (ls.length-i)+(rs.length-j) generalizing i j k p xs with
  | zero =>
    refine mergeLoop_rest compare hL hR hp hi hj hk ?_
    omega
  | succ n ih =>
    by_cases hc : i<ls.length ∧ j<rs.length
    · obtain ⟨hil,hjr⟩ := hc
      have hcond : (i : ℤ)<ls.length ∧ (j : ℤ)<rs.length := by omega
      rw [List.drop_eq_getElem_cons hil,List.drop_eq_getElem_cons hjr,mergeLoop,if_pos hcond,
        hL.read hil,ok_bind,hR.read hjr,ok_bind]
      by_cases hd : compare ls[i] rs[j]=.descendent
      · obtain ⟨next,hcopy,hlength,hnext⟩ := copyElement_eq hp hR (i:=k) (j:=j) (by omega) hjr
        obtain ⟨p',hrest,hlength',hend⟩ := ih (i:=i) (j:=j+1) (k:=k+1) hnext hi hjr
          (by rw [List.length_set]; omega) (by omega)
        rw [List.drop_eq_getElem_cons hil] at hend
        rw [if_pos hd,hcopy,ok_bind,mergeInto_right hd]
        exact ⟨p',hrest,hlength'.trans hlength,hend⟩
      · obtain ⟨next,hcopy,hlength,hnext⟩ := copyElement_eq hp hL (i:=k) (j:=i) (by omega) hil
        obtain ⟨p',hrest,hlength',hend⟩ := ih (i:=i+1) (j:=j) (k:=k+1) hnext hil hj
          (by rw [List.length_set]; omega) (by omega)
        rw [List.drop_eq_getElem_cons hjr] at hend
        rw [if_neg hd,hcopy,ok_bind,mergeInto_left hd]
        exact ⟨p',hrest,hlength'.trans hlength,hend⟩
    · refine mergeLoop_rest compare hL hR hp hi hj hk ?_
      omega

theorem merge_eq (freshL freshR : ℕ→U8) {l m r : ℕ} (hp : Slots es.toNat p xs) (hlm : l ≤ m)
    (hmr : m ≤ r) (hr : r<xs.length) : ∃p',merge compare es freshL freshR p l m r=.ok p' ∧
    p'.length=p.length ∧
      Slots es.toNat p' (FEArray.merge compare xs l m r) := by
  have hn1 : (m : ℤ)-l+1=((m+1-l : ℕ) : ℤ) := by omega
  have hn2 : (r : ℤ)-m=((r-m : ℕ) : ℤ) := by omega
  obtain ⟨L,hcopyL,hL⟩ := copyHalf_eq freshL hp (show l+(m+1-l) ≤ xs.length by omega)
  obtain ⟨R,hcopyR,hR⟩ := copyHalf_eq freshR hp (show m+1+(r-m) ≤ xs.length by omega)
  have hlenL : ((xs.drop l).take (m+1-l)).length=m+1-l := by simp; omega
  have hlenR : ((xs.drop (m+1)).take (r-m)).length=r-m := by simp; omega
  obtain ⟨p',hloop,hlength,hend⟩ := mergeLoop_eq compare (i:=0) (j:=0)
    (k:=l) hL hR hp (Nat.zero_le _)
    (Nat.zero_le _) (by omega)
  rw [hlenL,hlenR] at hloop
  refine ⟨p',?_,hlength,hend⟩
  simp only [merge,hn1,hn2,Int.toNat_natCast,hcopyL,ok_bind]
  rw [←Nat.cast_succ,hcopyR,ok_bind]
  exact hloop

theorem length_mergeInto (L R p : List (List U8)) (k : ℕ) : (mergeInto compare L R k p).length=
    p.length := by
  induction L,R,k,p using mergeInto.induct compare with
  | case1 left L right R k p hc ih => rw [mergeInto_right hc,ih,List.length_set]
  | case2 left L right R k p hc ih => rw [mergeInto_left hc,ih,List.length_set]
  | case3 L k p => rw [mergeInto_rest (.inr rfl),length_copyInto,length_copyInto]
  | case4 R k p => rw [mergeInto_rest (.inl rfl),length_copyInto,length_copyInto]

/-- Each call works on the bytes as the sort of the elements works on them. -/
theorem mergeSortFrom_eq (freshL freshR : ℤ→ℤ→ℕ→U8) {l r : ℤ} (hp : Slots es.toNat p xs)
    (hl : 0 ≤ l) (hr : r<xs.length) : ∃p',mergeSortFrom compare es freshL freshR p l r=.ok p' ∧
    p'.length=p.length ∧
      Slots es.toNat p' (FEArray.mergeSortFrom compare xs l r) ∧
      (FEArray.mergeSortFrom compare xs l r).length=xs.length := by
  induction hn : (r-l).toNat using Nat.strong_induction_on generalizing l r p xs with
  | _ n ih =>
    subst hn
    rw [mergeSortFrom,FEArray.mergeSortFrom]
    by_cases hlr : l < r
    · rw [if_pos hlr,if_pos hlr]
      obtain ⟨p₁,hsort₁,hlength₁,hp₁,hxs₁⟩ := ih _ (by omega) (l:=l)
        (r:=l+(r-l)/2) hp hl (by omega) rfl
      obtain ⟨p₂,hsort₂,hlength₂,hp₂,hxs₂⟩ := ih _ (by omega) (l:=l+(r-l)/2+1) (r:=r) hp₁ (by omega)
        (by omega) rfl
      have hcast : ∀{i : ℤ},0 ≤ i→((i.toNat : ℕ) : ℤ)=i := Int.toNat_of_nonneg
      obtain ⟨p',hmerge,hlength,hend⟩ := merge_eq compare (freshL l r) (freshR l r)
        (l:=l.toNat) (m:=(l+(r-l)/2).toNat) (r:=r.toNat) hp₂ (by omega) (by omega) (by omega)
      rw [hcast hl,hcast (by omega),hcast (by omega)] at hmerge
      refine ⟨p',?_,hlength.trans (hlength₂.trans hlength₁),hend,?_⟩
      · simp only [hsort₁,hsort₂,ok_bind]
        exact hmerge
      · exact (length_mergeInto _ _ _ _ _).trans (hxs₂.trans hxs₁)
    · rw [if_neg hlr,if_neg hlr]
      exact ⟨p,rfl,rfl,hp,rfl⟩

theorem toInt_pred {size : U32} (h : size.toNat<2^31) : (size-1).toInt=(size.toNat : ℤ)-1 := by
  by_cases hzero : size=0
  · subst hzero
    decide
  · have hpos : size.toNat≠0 := fun he => hzero (BitVec.eq_of_toNat_eq he)
    have hpred : (size-1).toNat=size.toNat-1 := by bv_omega
    rw [BitVec.toInt_eq_toNat_of_lt (by omega),hpred]
    omega

theorem mergeSort_eq (freshL freshR : ℤ→ℤ→ℕ→U8) {array : RawArray} (h : array.Valid)
    (hsize : array.size.toNat<2^31) :
    ∃p',array.mergeSort compare freshL freshR=.ok { array with p := p' } ∧
      records p'.bytes array.element_size.toNat array.size.toNat=array.elements.mergeSort
        (before compare) := by
  have hused := h.used_le
  have hsmall := h.small
  have hroom := h.length
  have hp : Slots array.element_size.toNat array.p array.elements := by
    refine ⟨?_,by omega,by rwa [RawArray.length_elements],by rw [RawArray.length_elements]; rfl⟩
    rw [RawArray.length_elements]
    omega
  have hlast := toInt_pred hsize
  obtain ⟨p',hsort,hlength,hend,hxs⟩ := mergeSortFrom_eq compare freshL freshR (l:=0)
    (r:=array.size.toNat-1) hp (Int.le_refl 0) (by rw [RawArray.length_elements]; omega)
  have hsorted := FEArray.mergeSortFrom_eq compare [] array.elements []
  simp only [List.nil_append,List.append_nil,List.length_nil,Nat.cast_zero,zero_add,
    RawArray.length_elements] at hsorted
  have hrecords := hend.records
  rw [hsorted,List.length_mergeSort,RawArray.length_elements] at hrecords
  refine ⟨p',?_,hrecords⟩
  rw [RawArray.mergeSort,hlast,hsort,ok_bind]

end Merging

section Order

/-- Elements that may stand in both orders keep theirs. -/
theorem filter_mergeSort {α : Type} {le : α→α→Bool} (htrans : ∀x y z,le x y→le y z→le x z)
    (htotal : ∀x y,le x y || le y x) (x : α) (xs : List α) :
    (xs.mergeSort le).filter (fun y => le x y && le y x)=xs.filter (fun y => le x y && le y x) := by
  let same := fun y => le x y && le y x
  have hsame : ∀{y},same y→le x y ∧ le y x := fun h => by simpa [same] using h
  have hpairwise : (xs.filter same).Pairwise fun y z => le y z := by
    apply List.pairwise_of_forall_mem_list
    intro y hy z hz
    exact htrans _ _ _ (hsame (List.mem_filter.mp hy).2).2 (hsame (List.mem_filter.mp hz).2).1
  have hsub := (List.sublist_mergeSort htrans htotal hpairwise List.filter_sublist).filter same
  rw [List.filter_filter] at hsub
  simp only [Bool.and_self] at hsub
  exact (hsub.eq_of_length ((List.mergeSort_perm xs le).filter same).length_eq.symm).symm

/-- A comparator that orders the elements of `k` bytes; `same` is the equivalence of its
preorder. -/
structure TotalPreorder (k : ℕ) (compare : List U8→List U8→FEComparisonResult) : Prop where
  trans : ∀x y z,x.length=k→y.length=k→z.length=k→before compare x y→before compare y z→
    before compare x z
  total : ∀x y,x.length=k→y.length=k→before compare x y ∨ before compare y x
  same_iff : ∀x y,x.length=k→y.length=k→(compare x y=.same ↔ before compare x y ∧
    before compare y x)

def byKey (key : List U8→ℕ) (x y : List U8) : FEComparisonResult :=
  if key x<key y then .ascendent else if key x=key y then .same else .descendent

theorem before_byKey (key : List U8→ℕ) (x y : List U8) : before (byKey key) x y ↔
    key x ≤ key y := by
  simp only [before,byKey,ne_eq]
  split
  · simp; omega
  · split <;> simp <;> omega

theorem TotalPreorder.byKey (k : ℕ) (key : List U8→ℕ) : TotalPreorder k (byKey key) where
  trans x y z _ _ _ := by
    simp only [before_byKey]
    omega
  total x y _ _ := by
    simp only [before_byKey]
    omega
  same_iff x y _ _ := by
    simp only [before_byKey,ArrayBytes.byKey]
    split
    · simp; omega
    · split <;> simp <;> omega

variable {compare : List U8→List U8→FEComparisonResult} {k : ℕ}

/-- What the comparator orders is sorted, and elements that compare the same keep their order. -/
theorem TotalPreorder.mergeSort (h : TotalPreorder k compare) (xs : List (List U8))
    (hxs : ∀x∈xs,x.length=k) :
    (xs.mergeSort (before compare)).Pairwise (fun x y => before compare x y) ∧
      ∀x : List U8,x.length=k→
        (xs.mergeSort (before compare)).filter (compare x ·=.same)=
          xs.filter (compare x ·=.same) := by
  let le : {x : List U8//x.length=k}→{x : List U8//x.length=k}→Bool :=
    fun x y => before compare x.1 y.1
  have htrans : ∀x y z,le x y→le y z→le x z := fun x y z => h.trans _ _ _ x.2 y.2 z.2
  have htotal : ∀x y,le x y || le y x := fun x y => by simpa [le] using h.total _ _ x.2 y.2
  obtain ⟨ys,rfl⟩ : ∃ys : List {x : List U8//x.length=k},ys.map Subtype.val=xs :=
    ⟨xs.attachWith _ hxs,List.attachWith_map_subtype_val hxs⟩
  have hmap : (ys.map Subtype.val).mergeSort (before compare)=(ys.mergeSort le).map Subtype.val :=
    (List.map_mergeSort (f:=Subtype.val) fun _ _ _ _ => rfl).symm
  rw [hmap]
  refine ⟨?_,?_⟩
  · rw [List.pairwise_map]
    exact List.pairwise_mergeSort htrans htotal ys
  · intro x hx
    have hsame : (fun y : {x : List U8//x.length=k} => decide (compare x y.1=.same))=
        fun y => le ⟨x,hx⟩ y && le y ⟨x,hx⟩ := by
      funext y
      rw [Bool.eq_iff_iff,Bool.and_eq_true,decide_eq_true_iff]
      exact h.same_iff _ _ hx y.2
    rw [List.filter_map,List.filter_map,Function.comp_def,hsame,filter_mergeSort htrans htotal]

/-- `fe_array_merge_sort` ends with the elements stably sorted in the same array. -/
theorem mergeSort_sorts (freshL freshR : ℤ→ℤ→ℕ→U8) (array : RawArray) (h : array.Valid)
    (hsize : array.size.toNat<2^31) (hc : TotalPreorder array.element_size.toNat compare) :
    ∃array',array.mergeSort compare freshL freshR=.ok array' ∧ array'.elements.Perm array.elements ∧
      array'.elements.Pairwise (fun x y => before compare x y) ∧
      (∀x : List U8,x.length=array.element_size.toNat→
        array'.elements.filter (compare x ·=.same)=array.elements.filter (compare x ·=.same)) ∧
      array'.size=array.size ∧ array'.capacity=array.capacity := by
  obtain ⟨p,hsort,hrecords⟩ := mergeSort_eq compare freshL freshR h hsize
  obtain ⟨hpairwise,hstable⟩ := hc.mergeSort array.elements fun x hx => length_of_mem_records hx
  have helements : ({ array with p := p } : RawArray).elements=array.elements.mergeSort
    (before compare) := hrecords
  refine ⟨_,hsort,?_,?_,?_,rfl,rfl⟩
  · rw [helements]
    exact List.mergeSort_perm _ _
  · rwa [helements]
  · rwa [helements]

/-- Three elements of two bytes, ordered by the first byte. -/
theorem mergeSort_sorts_three : let array : RawArray :=
  ⟨⟨fun a => .ofNat 8 (6-a),6⟩,false,3,3,2,false⟩
    ∃array',array.mergeSort (byKey fun x => (x.headD 0).toNat) (fun _ _ _ => 0) (fun _ _ _ => 0)=
      .ok array' ∧
      array'.elements.Pairwise fun x y => before (byKey fun x => (x.headD 0).toNat) x y := by
  obtain ⟨array',hsort,_,hpairwise,_⟩ := mergeSort_sorts (fun _ _ _ => 0) (fun _ _ _ => 0)
    ⟨⟨fun a => .ofNat 8 (6-a),6⟩,false,3,3,2,false⟩ ⟨rfl,by decide,by decide⟩ (by decide)
    (.byKey 2 fun x => (x.headD 0).toNat)
  exact ⟨array',hsort,hpairwise⟩

end Order
end FalloutEmu.ArrayBytes
