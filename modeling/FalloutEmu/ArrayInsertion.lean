import FalloutEmu.ArrayLists

/-! # Insertion into an array -/
namespace FalloutEmu.ArrayBytes
open ByteStore Records

namespace RawArray
variable {array array' : RawArray} {fresh dummy : ℕ→U8} {build : Build} {element : Allocation}
  {index : U32}

/-- What an insertion promises: the list with the element in it, one element more, no access
outside. -/
def Inserted (build : Build) (array : RawArray) (fresh dummy : ℕ→U8) (index : U32)
    (element : Allocation) : Prop :=
  ∃array',array.insert build fresh dummy index element=.ok (array',true) ∧
    array'.elements=array.elements.take index.toNat++[array.pointee element]++array.elements.drop
      index.toNat ∧
    array'.size.toNat=array.size.toNat+1

/-- The bytes that an insertion shifts, when the array has grown. -/
def shiftedBytes (array : RawArray) (index : U32) : ℕ :=
  array.element_size.toNat*(array.size.toNat+1)-index.toNat

/-- No slot is spare, and what is shifted fits behind the slot `index+1` of the grown allocation. -/
structure ShiftFits (array : RawArray) (index : U32) : Prop where
  full : array.size=array.capacity
  size_lt : array.size.toNat+1<2^32
  index_le : index.toNat ≤ array.element_size.toNat*(array.size.toNat+1)
  room : array.element_size.toNat*(index.toNat+1)+array.shiftedBytes index ≤ array.grownBytes

/-- The new record between those before `i` and the shifted ones. -/
theorem records_insert {m : ℕ→U8} {k n i len : ℕ} {x : List U8} {xs : List (List U8)}
    (hx : x.length=k) (hi : i<n) (hxs : records m k n=xs) (hlen : k*(n-i) ≤ len) :
    records (writeAt (writeAt m (k*(i+1)) (readAt m (k*i) len)) (k*i) x) k (n+1)=
      xs.take i++[x]++xs.drop i := by
  subst hxs
  apply List.ext_getElem (by simp; omega)
  intro j hj _
  rw [length_records] at hj
  have hlength : ((records m k n).take i++[x]).length=i+1 := by simp; omega
  rw [getElem_records]
  rcases Nat.lt_trichotomy j i with hlt | rfl | hgt
  · rw [record_writeAt_of_lt hlt,record_writeAt_of_lt (Nat.lt_succ_of_lt hlt),
      List.getElem_append_left (by omega),List.getElem_append_left (by simp; omega),
        List.getElem_take,getElem_records]
  · rw [record_writeAt_self _ hx,List.getElem_append_left (by omega),
      List.getElem_append_right (by simp)]
    simp
  · have hcopied : k*(j-(i+1))+k ≤ len := by
      have hle := record_end (k:=k) (show j-(i+1) < n-i by omega)
      omega
    have hindex : i+(j-((records m k n).take i++[x]).length)=i+(j-(i+1)) := by rw [hlength]
    rw [record_writeAt_of_ne hx (Nat.ne_of_gt hgt),record_writeAt_readAt hgt hcopied,
      List.getElem_append_right (by omega),List.getElem_drop,getElem_records,hindex]

theorem spare_lt_one_iff (h : array.Valid) : array.capacity-array.size<1 ↔ array.size=
    array.capacity := by
  have hle := h.size_le
  constructor
  · intro hlt
    apply BitVec.eq_of_toNat_eq
    bv_omega
  · intro hfull
    rw [hfull,BitVec.sub_self]
    decide

theorem toNat_shifted (hsize : array.size.toNat+1<2^32)
    (hproduct : array.element_size.toNat*(array.size.toNat+1)<2^32)
    (hindex : index.toNat ≤ array.element_size.toNat*(array.size.toNat+1)) :
    (array.element_size*(array.size+1)-index).toNat=array.shiftedBytes index := by
  have hsucc : (array.size+1).toNat=array.size.toNat+1 := by
    rw [BitVec.toNat_add]
    exact Nat.mod_eq_of_lt hsize
  have hmul : (array.element_size*(array.size+1)).toNat=
    array.element_size.toNat*(array.size.toNat+1) := by
    rw [toNat_mul_eq (by rw [hsucc]; exact hproduct),hsucc]
  rw [shiftedBytes,←hmul]
  apply BitVec.toNat_sub_of_le
  rw [BitVec.le_def,hmul]
  exact hindex

theorem shiftIn_eq_ok {src dst len : ℕ} (hsrc : (array.element_size*index).toNat=src)
    (hdst : (array.element_size*(index+1)).toNat=dst)
    (hlen : (array.element_size*array.size-index).toNat=len)
    (hel : array.element_size.toNat ≤ element.length) :
    array.shiftIn index element=.ok array' ↔ src+len ≤ array.p.length ∧ dst+len ≤ array.p.length ∧
      src+array.element_size.toNat ≤ array.p.length ∧
      { array with p := ⟨writeAt (writeAt array.p.bytes dst (readAt array.p.bytes src len)) src
        (array.pointee element),array.p.length⟩ }=array' := by
  have hread : element.read 0 array.element_size.toNat=.ok (array.pointee element) :=
    Allocation.read_eq_ok.mpr ⟨by omega,rfl⟩
  simp only [shiftIn,hsrc,hdst,hlen,hread,ok_bind]
  constructor
  · intro hshift
    obtain ⟨temp,htemp,hshift⟩ := bind_eq_ok.mp hshift
    obtain ⟨hfirst,rfl⟩ := Allocation.read_eq_ok.mp htemp
    obtain ⟨p,hcopy,hshift⟩ := bind_eq_ok.mp hshift
    obtain ⟨hsecond,rfl⟩ := Allocation.write_eq_ok.mp hcopy
    obtain ⟨p,hstore,hshift⟩ := bind_eq_ok.mp hshift
    obtain ⟨hthird,rfl⟩ := Allocation.write_eq_ok.mp hstore
    cases hshift
    rw [length_readAt] at hsecond
    rw [pointee,length_readAt] at hthird
    exact ⟨hfirst,hsecond,hthird,rfl⟩
  · rintro ⟨hfirst,hsecond,hthird,rfl⟩
    rw [Allocation.read_eq_ok.mpr ⟨hfirst,rfl⟩,ok_bind,
      Allocation.write_eq_ok.mpr ⟨by rwa [length_readAt],rfl⟩,ok_bind,
      Allocation.write_eq_ok.mpr ⟨by rwa [pointee,length_readAt],rfl⟩]
    rfl

theorem le_shiftedBytes (hlt : index.toNat<array.size.toNat) :
    array.element_size.toNat*(array.size.toNat-index.toNat) ≤ array.shiftedBytes index := by
  unfold shiftedBytes
  rcases Nat.eq_zero_or_pos array.element_size.toNat with hzero | hpos
  · rw [hzero,Nat.zero_mul]
    exact Nat.zero_le _
  · have hmul := Nat.le_mul_of_pos_left (index.toNat+1) hpos
    have hsplit : array.element_size.toNat*(array.size.toNat+1)=
        array.element_size.toNat*(array.size.toNat-index.toNat)+
          array.element_size.toNat*(index.toNat+1) := by
      rw [←Nat.mul_add]
      congr 1
      omega
    omega

/-- Elements without bytes leave nothing to read, so only the first index is shifted. -/
theorem index_le_of_read {size : U32} (hlt : index.toNat<array.size.toNat)
    (hread : (array.element_size*size-index).toNat ≤ array.grownBytes) :
    index.toNat ≤ array.element_size.toNat*(array.size.toNat+1) := by
  by_cases hzero : array.element_size=0
  · have hempty : array.grownBytes=0 := by simp [grownBytes,hzero]
    rw [hempty,hzero] at hread
    have hneg : (-index).toNat=0 := by simpa using hread
    have hindex : index=0 := BitVec.neg_eq_zero_iff.mp (BitVec.eq_of_toNat_eq hneg)
    rw [hindex]
    exact Nat.zero_le _
  · have hpos : 0<array.element_size.toNat := by
      rw [Nat.pos_iff_ne_zero]
      exact fun he => hzero (BitVec.eq_of_toNat_eq he)
    have hmul := Nat.le_mul_of_pos_left (array.size.toNat+1) hpos
    omega

/-- Where the shifted bytes fit, the element that the growth adds fits as well. -/
theorem insert_fits (hle : index.toNat ≤ array.element_size.toNat*(array.size.toNat+1))
    (hroom : array.element_size.toNat*(index.toNat+1)+array.shiftedBytes index ≤ array.grownBytes) :
    array.element_size.toNat*(array.size.toNat+1) ≤ array.grownBytes := by
  unfold shiftedBytes at hroom
  rcases Nat.eq_zero_or_pos array.element_size.toNat with hzero | hpos
  · rw [hzero,Nat.zero_mul]
    exact Nat.zero_le _
  · have hmul := Nat.le_mul_of_pos_left (index.toNat+1) hpos
    omega

theorem insert_of_append {array₁ : RawArray} (hindex : index<array.size)
    (hspare : array.capacity-array.size<1)
    (happend : array.append fresh (alloc array.allocate_zeroed dummy array.element_size)=.ok array₁)
    (hshift : array₁.shiftIn index element=.ok array') :
    array.insert build fresh dummy index element=.ok (array',true) := by
  have hnot : ¬index ≥ array.size := BitVec.not_le.mpr hindex
  rw [insert,assertThat_pos hindex,ok_bind,if_neg hnot,if_pos hspare,happend,ok_bind,hshift,ok_bind]

/-- An insertion keeps its promise exactly where no slot is spare and the shifted bytes fit. -/
theorem insert_iff (h : array.Valid) (hindex : index<array.size)
    (hel : array.element_size.toNat ≤ element.length) :
    Inserted build array fresh dummy index element ↔ array.ShiftFits index := by
  have hlt := BitVec.lt_def.mp hindex
  have hused := h.used_le
  have hsmall := h.small
  have hbound := record_end (k:=array.element_size.toNat) hlt
  have hdst : (array.element_size*(index+1)).toNat=array.element_size.toNat*(index.toNat+1) := by
    have hsucc : (index+1).toNat=index.toNat+1 := by bv_omega
    rw [toNat_mul_eq (by rw [hsucc,Nat.mul_succ]; omega),hsucc]
  have hsrc : (array.element_size*index).toNat=array.element_size.toNat*index.toNat :=
    toNat_mul_eq (by omega)
  have hdummy : array.element_size.toNat ≤ (alloc array.allocate_zeroed dummy
    array.element_size).length :=
    Nat.le_refl _
  constructor
  · rintro ⟨array',hinsert,_,hsize⟩
    have hnot : ¬index ≥ array.size := BitVec.not_le.mpr hindex
    rw [insert,assertThat_pos hindex,ok_bind,if_neg hnot] at hinsert
    split at hinsert
    · next hspare =>
      have hfull := (spare_lt_one_iff h).mp hspare
      obtain ⟨grown,hgrown,hinsert⟩ := bind_eq_ok.mp hinsert
      have hroom := h.room_of_append hfull hgrown
      obtain ⟨array₁,happend,happended⟩ := h.append fresh hdummy fun _ => hroom
      cases hgrown.symm.trans happend
      obtain ⟨shifted,hshift,hinsert⟩ := bind_eq_ok.mp hinsert
      cases hinsert
      have hlength := happended.length
      rw [if_pos hfull] at hlength
      rw [←happended.element_size] at hsrc hdst
      obtain ⟨hfirst,hsecond,_,rfl⟩ :=
        (shiftIn_eq_ok hsrc hdst rfl (happended.element_size ▸ hel)).mp hshift
      rw [hlength] at hfirst hsecond
      have hsucc : array.size.toNat+1<2^32 := by
        rw [←hsize]
        exact BitVec.isLt _
      have hle : index.toNat ≤ array.element_size.toNat*(array.size.toNat+1) := by
        rw [happended.element_size] at hfirst
        exact index_le_of_read hlt (Nat.le_of_add_left_le hfirst)
      refine ⟨hfull,hsucc,hle,?_⟩
      rw [happended.element_size,happended.size,toNat_shifted hsucc (hroom.trans_lt (BitVec.isLt _))
        hle] at hsecond
      exact hsecond
    · next hspare =>
      -- nothing has changed the size
      obtain ⟨shifted,hshift,hinsert⟩ := bind_eq_ok.mp hinsert
      cases hinsert
      obtain ⟨_,_,_,rfl⟩ := (shiftIn_eq_ok hsrc hdst rfl hel).mp hshift
      simp at hsize
  · rintro ⟨hfull,hsize,hle,hroom⟩
    have hend := insert_fits hle hroom
    obtain ⟨array₁,happend,happended⟩ := h.append fresh hdummy fun _ => hend
    have hlength := happended.length
    rw [if_pos hfull] at hlength
    have hlen : (array₁.element_size*array₁.size-index).toNat=array.shiftedBytes index := by
      rw [happended.element_size,happended.size,
        toNat_shifted hsize (hend.trans_lt (BitVec.isLt _)) hle]
    rw [←happended.element_size] at hsrc hdst
    have hpointee : array₁.pointee element=array.pointee element := by
      rw [pointee,pointee,happended.element_size]
    have hel₁ : array₁.element_size.toNat ≤ element.length := by rwa [happended.element_size]
    have hsucc : array₁.size.toNat=array.size.toNat+1 := by
      rw [happended.size,BitVec.toNat_add]
      exact Nat.mod_eq_of_lt hsize
    have hfirst : array₁.element_size.toNat*index.toNat+array.shiftedBytes
      index ≤ array₁.p.length := by
      rw [hlength,happended.element_size]
      rw [Nat.mul_succ] at hroom
      omega
    have hsecond : array₁.element_size.toNat*(index.toNat+1)+array.shiftedBytes
      index ≤ array₁.p.length := by
      rw [hlength,happended.element_size]
      exact hroom
    have hthird :
        array₁.element_size.toNat*index.toNat+array₁.element_size.toNat ≤ array₁.p.length := by
      rw [←Nat.mul_add_one]
      exact Nat.le_of_add_right_le hsecond
    have hshift := (shiftIn_eq_ok hsrc hdst hlen hel₁).mpr ⟨hfirst,hsecond,hthird,rfl⟩
    refine ⟨_,insert_of_append hindex ((spare_lt_one_iff h).mpr hfull) happend hshift,?_,hsucc⟩
    simp only [RawArray.elements,hsucc,happended.element_size,hpointee]
    exact records_insert (length_readAt _ _ _) hlt happended.records_old (le_shiftedBytes hlt)

/-- Two elements of four bytes that fill their allocation: inserting in front works. -/
theorem insert_iff_full : Inserted .release ⟨⟨fun a => .ofNat 8 a,8⟩,false,2,2,4,false⟩ (fun _ => 0)
    (fun _ => 0) 0
    ⟨fun _ => 7,4⟩ := by
  refine (insert_iff ⟨rfl,by decide,by decide⟩ (by decide) (by decide)).mpr ⟨rfl,
    by decide,by decide,?_⟩
  exact Nat.le_refl 16

/-- One byte in an allocation of two: the insertion leaves the size as it is. -/
theorem insert_spare : let array : RawArray := ⟨⟨fun _ => 1,2⟩,false,1,2,1,false⟩
    array.Valid ∧ (0 : U32)<array.size ∧ ¬Inserted .release array (fun _ => 0)
      (fun _ => 0) 0 ⟨fun _ => 7,1⟩ := by
  refine ⟨⟨rfl,by decide,by decide⟩,by decide,?_⟩
  rintro ⟨array',hinsert,_,hsize⟩
  simp only [insert,assertThat_release,ok_bind] at hinsert
  rw [if_neg (by decide),if_neg (by decide)] at hinsert
  obtain ⟨shifted,hshift,hinsert⟩ := bind_eq_ok.mp hinsert
  cases hinsert
  obtain ⟨_,_,_,rfl⟩ := (shiftIn_eq_ok rfl rfl rfl (by decide)).mp hshift
  exact absurd hsize (by decide)

end RawArray
end FalloutEmu.ArrayBytes
