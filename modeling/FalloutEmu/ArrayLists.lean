import FalloutEmu.ArrayBytes
import FalloutEmu.Runs

/-! # The bytes of an array as the list of its elements -/
namespace FalloutEmu.ArrayBytes
open ByteStore Records

theorem toNat_mul_eq {a b : U32} (h : a.toNat*b.toNat<2^32) : (a*b).toNat=a.toNat*b.toNat := by
  rw [BitVec.toNat_mul,Nat.mod_eq_of_lt h]

namespace RawArray
variable {array array' : RawArray} {fresh : ℕ→U8} {build : Build} {element : Allocation}
  {index : U32}

def elements (array : RawArray) : List (List U8) :=
  records array.p.bytes array.element_size.toNat array.size.toNat

def pointee (array : RawArray) (element : Allocation) : List U8 :=
  readAt element.bytes 0 array.element_size.toNat

/-- The allocation has room for `capacity` elements, and no more than these are in use. -/
structure Valid (array : RawArray) : Prop where
  length : array.p.length=array.element_size.toNat*array.capacity.toNat
  small : array.element_size.toNat*array.capacity.toNat<2^32
  size_le : array.size.toNat ≤ array.capacity.toNat

@[simp] theorem length_elements (array : RawArray) : array.elements.length=array.size.toNat :=
  length_records _ _ _

theorem Valid.used_le (h : array.Valid) :
    array.element_size.toNat*array.size.toNat ≤ array.element_size.toNat*array.capacity.toNat :=
  Nat.mul_le_mul_left _ h.size_le

/-- The bytes in use, as the growth and the append count them. -/
theorem Valid.toNat_used (h : array.Valid) :
    (array.size*array.element_size).toNat=array.element_size.toNat*array.size.toNat := by
  have hused := h.used_le
  have hsmall := h.small
  rw [Nat.mul_comm]
  exact toNat_mul_eq (by rw [Nat.mul_comm]; omega)

/-- An element of the allocation is where the product says, and all of it is inside. -/
theorem Valid.indexAddr (h : array.Valid) (hi : index.toNat<array.capacity.toNat) :
    array.indexAddr index=array.element_size.toNat*index.toNat ∧
      array.indexAddr index+array.element_size.toNat ≤ array.p.length := by
  have hend := record_end (k:=array.element_size.toNat) hi
  have hsmall := h.small
  have haddress : array.indexAddr index=array.element_size.toNat*index.toNat :=
    toNat_mul_eq (by omega)
  refine ⟨haddress,?_⟩
  rw [haddress,h.length]
  exact hend

theorem Valid.read (h : array.Valid) (hi : index.toNat<array.capacity.toNat) :
    array.p.read (array.indexAddr index) array.element_size.toNat=
      .ok (record array.p.bytes array.element_size.toNat index.toNat) := by
  obtain ⟨haddress,hend⟩ := h.indexAddr hi
  refine Allocation.read_eq_ok.mpr ⟨hend,?_⟩
  rw [haddress]
  rfl

section Append

def grownBytes (array : RawArray) : ℕ := ((array.capacity*3/2+1)*array.element_size).toNat

/-- The growth keeps the elements where the new allocation has room for them. -/
theorem Valid.grow (h : array.Valid) (fresh : ℕ→U8)
    (hroom : array.element_size.toNat*array.size.toNat ≤ array.grownBytes) :
    ∃p,array.grow fresh=.ok { array with p := p, capacity := array.capacity*3/2+1 } ∧
    p.length=array.grownBytes ∧
      records p.bytes array.element_size.toNat array.size.toNat=array.elements := by
  have hused := h.used_le
  have hsmall := h.small
  have hproduct := h.toNat_used
  let used := readAt array.p.bytes 0 (array.element_size.toNat*array.size.toNat)
  let p := alloc array.allocate_zeroed fresh ((array.capacity*3/2+1)*array.element_size)
  have hread : array.p.read 0 (array.size*array.element_size).toNat=.ok used := by
    rw [hproduct]
    exact Allocation.read_eq_ok.mpr ⟨by rw [h.length]; omega,rfl⟩
  have hwrite : p.write 0 used=.ok ⟨writeAt p.bytes 0 used,p.length⟩ := by
    refine Allocation.write_eq_ok.mpr ⟨?_,rfl⟩
    rw [length_readAt,Nat.zero_add]
    exact hroom
  refine ⟨⟨writeAt p.bytes 0 used,p.length⟩,?_,rfl,?_⟩
  · rw [RawArray.grow,hread,ok_bind,hwrite]
    rfl
  · apply records_congr
    intro i hi
    apply record_congr (n:=array.size.toNat) ?_ hi
    intro a ha
    have hin : a<used.length := by rwa [length_readAt]
    have hget := writeAt_apply_add p.bytes 0 used a hin
    rwa [getElem_readAt,Nat.zero_add] at hget

theorem records_push {p : Allocation} {el : List U8} {k n : ℕ} {xs : List (List U8)}
    (hel : el.length=k) (hroom : k*(n+1) ≤ p.length) (hxs : records p.bytes k n=xs) :
    ∃p',p.write (k*n) el=.ok p' ∧ p'.length=p.length ∧ records p'.bytes k (n+1)=xs++[el] := by
  refine ⟨⟨writeAt p.bytes (k*n) el,p.length⟩,?_,rfl,?_⟩
  · refine Allocation.write_eq_ok.mpr ⟨?_,rfl⟩
    rw [hel]
    rwa [Nat.mul_succ] at hroom
  · rw [records_succ,record_writeAt_self _ hel,←hxs]
    congr 1
    apply records_congr
    intro i hi
    exact record_writeAt_of_lt hi

structure Appended (array array' : RawArray) (el : List U8) : Prop where
  size : array'.size=array.size+1
  capacity : array'.capacity=if array.size=array.capacity then array.capacity*3/2+1
    else array.capacity
  element_size : array'.element_size=array.element_size
  cleanup : array'.cleanup=array.cleanup
  length : array'.p.length=if array.size=array.capacity then array.grownBytes else array.p.length
  records : records array'.p.bytes array.element_size.toNat (array.size.toNat+1)=
    array.elements++[el]

theorem Appended.records_old {el : List U8} (h : array.Appended array' el) :
    Records.records array'.p.bytes array.element_size.toNat array.size.toNat=array.elements := by
  have hrecords := h.records
  rw [records_succ] at hrecords
  exact (List.append_inj' hrecords rfl).1

/-- What `fe_array_append` does where the element finds room. -/
theorem Valid.append (h : array.Valid) (fresh : ℕ→U8)
    (hel : array.element_size.toNat ≤ element.length) (hroom : array.size=array.capacity→
      array.element_size.toNat*(array.size.toNat+1) ≤ array.grownBytes) :
    ∃array',array.append fresh element=.ok array' ∧
    array.Appended array' (array.pointee element) := by
  have hused := h.used_le
  have hsmall := h.small
  have hproduct := h.toNat_used
  have hread : element.read 0 array.element_size.toNat=.ok (array.pointee element) :=
    Allocation.read_eq_ok.mpr ⟨by omega,rfl⟩
  have hlength : (array.pointee element).length=array.element_size.toNat := length_readAt _ _ _
  by_cases hfull : array.size=array.capacity
  · have hroom := hroom hfull
    obtain ⟨p,hgrow,hp,hrecords⟩ := h.grow fresh (by rw [Nat.mul_succ] at hroom; omega)
    obtain ⟨p',hwrite,hp',hpush⟩ := records_push hlength (hp ▸ hroom) hrecords
    have hge : array.size ≥ array.capacity := BitVec.le_of_eq hfull.symm
    refine ⟨{ array with p := p',size := array.size+1,capacity := array.capacity*3/2+1 },?_,rfl,
      (if_pos hfull).symm,rfl,rfl,?_,hpush⟩
    · rw [RawArray.append,if_pos hge,hgrow,ok_bind]
      simp only [hread,ok_bind,hproduct,hwrite]
    · rw [if_pos hfull]
      exact hp'.trans hp
  · have hlt : array.size.toNat<array.capacity.toNat :=
      lt_of_le_of_ne h.size_le fun he => hfull (BitVec.eq_of_toNat_eq he)
    have hnotFull : ¬array.size ≥ array.capacity := by
      rw [ge_iff_le,BitVec.le_def]
      omega
    have hend : array.element_size.toNat*(array.size.toNat+1) ≤ array.p.length := by
      rw [h.length]
      exact Nat.mul_le_mul_left _ hlt
    obtain ⟨p',hwrite,hp',hpush⟩ := records_push hlength hend (Eq.refl array.elements)
    refine ⟨{ array with p := p',size := array.size+1 },?_,rfl,(if_neg hfull).symm,rfl,rfl,?_,hpush⟩
    · rw [RawArray.append,if_neg hnotFull,ok_bind]
      simp only [hread,ok_bind,hproduct,hwrite]
    · rw [if_neg hfull]
      exact hp'

/-- Where a full array has taken another element the growth had room for it. -/
theorem Valid.room_of_append (h : array.Valid) (hfull : array.size=array.capacity)
    (happend : array.append fresh element=.ok array') :
    array.element_size.toNat*(array.size.toNat+1) ≤ array.grownBytes := by
  have hused := h.used_le
  have hsmall := h.small
  have hproduct := h.toNat_used
  have hge : array.size ≥ array.capacity := BitVec.le_of_eq hfull.symm
  rw [RawArray.append,if_pos hge] at happend
  obtain ⟨grown,hgrow,happend⟩ := bind_eq_ok.mp happend
  obtain ⟨used,_,hgrow⟩ := bind_eq_ok.mp hgrow
  obtain ⟨p,hcopy,hgrow⟩ := bind_eq_ok.mp hgrow
  obtain ⟨_,rfl⟩ := Allocation.write_eq_ok.mp hcopy
  cases hgrow
  obtain ⟨el,hread,happend⟩ := bind_eq_ok.mp happend
  obtain ⟨_,rfl⟩ := Allocation.read_eq_ok.mp hread
  obtain ⟨_,hwrite,_⟩ := bind_eq_ok.mp happend
  have hend := (Allocation.write_eq_ok.mp hwrite).1
  rw [hproduct,length_readAt] at hend
  rw [Nat.mul_succ]
  exact hend

end Append

section Elements

/-- One element less: those behind it have moved down. -/
theorem records_erase {m : ℕ→U8} {k n i : ℕ} (hi : i<n) :
    records (writeAt m (k*i) (readAt m (k*(i+1)) (k*(n-1-i)))) k (n-1)=
      (records m k n).eraseIdx i := by
  apply List.ext_getElem
  · rw [length_records,List.length_eraseIdx_of_lt (by rwa [length_records]),length_records]
  · intro j hj _
    rw [length_records] at hj
    rw [getElem_records,List.getElem_eraseIdx]
    split
    · next hlt => rw [record_writeAt_of_lt hlt,getElem_records]
    · next hge =>
      have hend := record_end (k:=k) (show j-i < n-1-i by omega)
      rw [record_writeAt_readAt (Nat.le_of_not_lt hge) hend,getElem_records]
      congr 1
      omega

theorem records_erase_last {m : ℕ→U8} {k n : ℕ} : records m k n=(records m k (n+1)).eraseIdx n := by
  rw [records_succ,List.eraseIdx_append_of_length_le (by rw [length_records]),length_records,
    Nat.sub_self]
  simp

theorem Valid.shiftOut (h : array.Valid) (hindex : index<array.size) :
    ∃p,array.shiftOut index=.ok p ∧ p.length=array.p.length ∧
      records p.bytes array.element_size.toNat (array.size.toNat-1)=
        array.elements.eraseIdx index.toNat := by
  have hlt := BitVec.lt_def.mp hindex
  have hle := h.size_le
  have hpred : (array.size-1).toNat=array.size.toNat-1 := by bv_omega
  obtain ⟨haddress,_⟩ := h.indexAddr (hlt.trans_le hle)
  by_cases hlast : array.size-1>index
  · have hlast' := BitVec.lt_def.mp hlast
    rw [hpred] at hlast'
    have hsucc : (index+1).toNat=index.toNat+1 := by bv_omega
    have hnextIn : (index+1).toNat<array.capacity.toNat := by omega
    obtain ⟨hnext,_⟩ := h.indexAddr hnextIn
    have hcount : (array.size-1-index).toNat=array.size.toNat-1-index.toNat := by bv_omega
    -- the tail ends with the last element in use
    have htail :
        array.element_size.toNat*(index.toNat+1)+
          array.element_size.toNat*(array.size.toNat-1-index.toNat)=
        array.element_size.toNat*array.size.toNat := by
      rw [←Nat.mul_add]
      congr 1
      omega
    have hused := h.used_le
    have hsmall := h.small
    have hlen : (array.element_size*(array.size-1-index)).toNat=
        array.element_size.toNat*(array.size.toNat-1-index.toNat) := by
      rw [toNat_mul_eq (by rw [hcount]; omega),hcount]
    let temp := readAt array.p.bytes (array.indexAddr (index+1))
      (array.element_size.toNat*(array.size.toNat-1-index.toNat))
    have hsource : array.indexAddr
      (index+1)+array.element_size.toNat*(array.size.toNat-1-index.toNat) ≤
        array.p.length := by
      rw [hnext,hsucc,htail,h.length]
      exact hused
    have htarget : array.indexAddr index+temp.length ≤ array.p.length := by
      rw [length_readAt,haddress]
      rw [hnext,hsucc,Nat.mul_succ] at hsource
      omega
    refine ⟨⟨writeAt array.p.bytes (array.indexAddr index) temp,array.p.length⟩,?_,rfl,?_⟩
    · simp only [RawArray.shiftOut,if_pos hlast,hlen,Allocation.read_eq_ok.mpr ⟨hsource,rfl⟩,
        ok_bind]
      exact Allocation.write_eq_ok.mpr ⟨htarget,rfl⟩
    · simp only [temp,haddress,hnext,hsucc]
      exact records_erase hlt
  · have hlast' : array.size.toNat=index.toNat+1 := by
      have hge := BitVec.le_def.mp (BitVec.not_lt.mp hlast)
      omega
    refine ⟨array.p,?_,rfl,?_⟩
    · rw [RawArray.shiftOut,if_neg hlast]
    · rw [RawArray.elements,hlast',Nat.add_sub_cancel]
      exact records_erase_last

theorem Valid.cleaned (h : array.Valid) (hindex : index<array.size) :
    array.cleaned index=.ok (if array.cleanup then (array.elements[index.toNat]?).toList
      else []) := by
  have hlt := BitVec.lt_def.mp hindex
  unfold RawArray.cleaned
  split
  · rw [h.read (hlt.trans_le h.size_le),ok_bind,RawArray.elements,getElem?_records hlt]
    rfl
  · rfl

theorem Valid.removeIndex (h : array.Valid) (build : Build) (hindex : index<array.size) :
    ∃p,array.removeIndex build index=.ok ({ array with p := p,size := array.size-1 },true,
        if array.cleanup then (array.elements[index.toNat]?).toList else []) ∧
          p.length=array.p.length ∧
      records p.bytes array.element_size.toNat (array.size.toNat-1)=array.elements.eraseIdx
        index.toNat := by
  obtain ⟨p,hshift,hp,hrecords⟩ := h.shiftOut hindex
  refine ⟨p,?_,hp,hrecords⟩
  rw [RawArray.removeIndex,assertThat_pos hindex,ok_bind,if_neg (BitVec.not_le.mpr hindex),
    h.cleaned hindex,ok_bind,hshift,ok_bind]

def swapped (xs : List (List U8)) (i j : ℕ) : List (List U8) :=
  (xs.set i (xs.getD j [])).set j (xs.getD i [])

theorem Valid.swap {i j : U32} (h : array.Valid) (hi : i<array.size) (hj : j<array.size) :
    ∃p,array.swap i j=.ok { array with p := p } ∧ p.length=array.p.length ∧
      records p.bytes array.element_size.toNat array.size.toNat=swapped array.elements i.toNat
        j.toNat := by
  have hi := BitVec.lt_def.mp hi
  have hj := BitVec.lt_def.mp hj
  obtain ⟨haddressI,hendI⟩ := h.indexAddr (hi.trans_le h.size_le)
  obtain ⟨haddressJ,hendJ⟩ := h.indexAddr (hj.trans_le h.size_le)
  let first := record array.p.bytes array.element_size.toNat i.toNat
  let second := record array.p.bytes array.element_size.toNat j.toNat
  let p : Allocation := ⟨writeAt array.p.bytes (array.indexAddr i) second,array.p.length⟩
  have hfirst : array.p.write (array.indexAddr i) second=.ok p :=
    Allocation.write_eq_ok.mpr ⟨by rwa [length_record],rfl⟩
  have hsecond : p.write (array.indexAddr j) first=.ok ⟨writeAt p.bytes (array.indexAddr j) first,
    p.length⟩ :=
    Allocation.write_eq_ok.mpr ⟨by rwa [length_record],rfl⟩
  refine ⟨⟨writeAt p.bytes (array.indexAddr j) first,p.length⟩,?_,rfl,?_⟩
  · simp only [RawArray.swap,h.read (hi.trans_le h.size_le),h.read (hj.trans_le h.size_le),ok_bind]
    rw [hfirst,ok_bind,hsecond]
    rfl
  · simp only [p,haddressI,haddressJ]
    rw [records_writeAt (length_record _ _ _),records_writeAt (length_record _ _ _),swapped,
      List.getD_eq_getElem?_getD,List.getD_eq_getElem?_getD,RawArray.elements,getElem?_records hi,
      getElem?_records hj]
    rfl

/-- What `fe_array_index_of` makes of the position of an element. -/
def foundIndex : Option ℕ→U32
  | some i => .ofNat 32 i
  | none => FENotFound

theorem Valid.indexOfFrom (h : array.Valid) (hel : array.element_size.toNat ≤ element.length)
    {n : ℕ} {i : U32} (hn : i.toNat+n=array.size.toNat) :
    array.indexOfFrom element n i=
      .ok (foundIndex (((array.elements.drop i.toNat).idxOf? (array.pointee element)).map
        (i.toNat+·))) := by
  have hread : element.read 0 array.element_size.toNat=.ok (array.pointee element) :=
    Allocation.read_eq_ok.mpr ⟨by omega,rfl⟩
  induction n generalizing i with
  | zero =>
    rw [List.drop_eq_nil_of_le (by rw [length_elements]; omega)]
    rfl
  | succ n ih =>
    have hi : i.toNat<array.size.toNat := by omega
    have hle := h.size_le
    have hdrop : array.elements.drop i.toNat=
        record array.p.bytes array.element_size.toNat i.toNat::array.elements.drop (i.toNat+1) := by
      rw [List.drop_eq_getElem_cons (by rwa [length_elements])]
      congr 1
      exact getElem_records _
    rw [RawArray.indexOfFrom,h.read (hi.trans_le hle),ok_bind,hread,ok_bind,hdrop,List.idxOf?_cons]
    split
    · next heq =>
      rw [if_pos (beq_iff_eq.mpr heq)]
      simp [foundIndex]
    · next hne =>
      have hsucc : (i+1).toNat=i.toNat+1 := by bv_omega
      rw [if_neg (fun he => hne (beq_iff_eq.mp he)),ih (by omega),hsucc,Option.map_map]
      congr 3
      funext k
      simp only [Function.comp_apply]
      omega

theorem Valid.indexOf (h : array.Valid) (hel : array.element_size.toNat ≤ element.length) :
    array.indexOf element=.ok (foundIndex (array.elements.idxOf? (array.pointee element))) := by
  rw [RawArray.indexOf,h.indexOfFrom hel (by simp)]
  simp

end Elements
end RawArray
end FalloutEmu.ArrayBytes
