import FalloutEmu.ArrayLists

/-! # Any sequence of operations on an array, against the list it stands for -/
namespace FalloutEmu.ArrayBytes
open ByteStore Records RawArray

/-- A call on an array. The element of an append is in memory of the caller, and `fresh` is what a
new allocation holds. -/
inductive Operation where
  | append (fresh : ℕ→U8) (element : Allocation)
  | removeIndex (index : U32)
  | swap (index1 index2 : U32)
  | indexOf (element : Allocation)

/-- What a call answers; a removal comes with the elements that `cleanup` was called on. -/
inductive Answer where
  | nothing
  | removed (result : Bool) (cleaned : List (List U8))
  | found (index : U32)
  deriving DecidableEq

def RawArray.execute (build : Build) (array : RawArray) : Operation→Except Stop (RawArray×Answer)
  | .append fresh element => do
    let array ← array.append fresh element
    .ok (array,.nothing)
  | .removeIndex index => do
    let (array,result,cleaned) ← array.removeIndex build index
    .ok (array,.removed result cleaned)
  | .swap index1 index2 => do
    let array ← array.swap index1 index2
    .ok (array,.nothing)
  | .indexOf element => do
    let index ← array.indexOf element
    .ok (array,.found index)

def RawArray.executeAll (build : Build) (array : RawArray) :
    List Operation→Except Stop (RawArray×List Answer)
  | [] => .ok (array,[])
  | op::ops => do
    let (array,answer) ← array.execute build op
    let (array,answers) ← array.executeAll build ops
    .ok (array,answer::answers)

structure ListState where
  elements : List (List U8)
  capacity : ℕ

namespace ListState
variable (k : ℕ) (cleanup : Bool) (s : ListState)

def snoc (x : List U8) : ListState where
  elements := s.elements++[x]
  capacity := if s.elements.length=s.capacity then s.capacity*3/2+1 else s.capacity

def apply : Operation→ListState×Answer
  | .append _ element => (s.snoc (readAt element.bytes 0 k),.nothing)
  | .removeIndex index => ({ s with elements := s.elements.eraseIdx index.toNat },
      .removed true (if cleanup then (s.elements[index.toNat]?).toList else []))
  | .swap index1 index2 => ({ s with elements := swapped s.elements index1.toNat index2.toNat },
    .nothing)
  | .indexOf element => (s,.found (foundIndex (s.elements.idxOf? (readAt element.bytes 0 k))))

def applyAll (s : ListState) : List Operation→ListState×List Answer
  | [] => (s,[])
  | op::ops =>
    let next := s.apply k cleanup op
    let rest := applyAll next.1 ops
    (rest.1,next.2::rest.2)

/-- Indices are below the size, pointers have an element behind them, and the bytes stay below
`2^31`. -/
def Allowed : Operation→Prop
  | .append _ element => k ≤ element.length ∧ k*(s.snoc (readAt element.bytes 0 k)).capacity<2^31
  | .removeIndex index => index.toNat<s.elements.length
  | .swap index1 index2 => index1.toNat<s.elements.length ∧ index2.toNat<s.elements.length
  | .indexOf element => k ≤ element.length

def AllowedAll (s : ListState) : List Operation→Prop
  | [] => True
  | op::ops => s.Allowed k op ∧ AllowedAll (s.apply k cleanup op).1 ops

end ListState

/-- The array holds this list, in an allocation of `element_size*capacity` bytes. -/
structure Represents (k : U32) (c : Bool) (array : RawArray) (s : ListState) : Prop where
  valid : array.Valid
  element_size : array.element_size=k
  cleanup : array.cleanup=c
  elements : array.elements=s.elements
  capacity : array.capacity.toNat=s.capacity
  small : k.toNat*s.capacity<2^31

namespace Represents
variable {build : Build} {k : U32} {c : Bool} {array : RawArray} {s : ListState}

theorem size (h : Represents k c array s) : array.size.toNat=s.elements.length := by
  rw [←h.elements,length_elements]

theorem create (fresh : ℕ→U8) {capacity : U32} (zeroed : Bool)
    (hsmall : k.toNat*capacity.toNat<2^31) :
    Represents k c { RawArray.create fresh k capacity zeroed with cleanup := c }
      ⟨[],capacity.toNat⟩ where
  valid := ⟨toNat_mul_eq (by omega),by simp only [RawArray.create]; omega,Nat.zero_le _⟩
  element_size := rfl
  cleanup := rfl
  elements := rfl
  capacity := rfl
  small := hsmall

/-- The new capacity, where it is computed without a wrap. -/
theorem toNat_grown {capacity : U32} {n : ℕ} (hc : capacity.toNat=n) (hn : n*3/2+1<2^31) :
    (capacity*3/2+1).toNat=n*3/2+1 := by
  have hthree : (3 : U32).toNat=3 := rfl
  have hmul : (capacity*3).toNat=n*3 := by
    rw [toNat_mul_eq (by rw [hc,hthree]; omega),hc,hthree]
  rw [BitVec.toNat_add,BitVec.toNat_udiv,hmul]
  exact Nat.mod_eq_of_lt (by simp; omega)

theorem append (h : Represents k c array s) (hpos : k≠0) (fresh : ℕ→U8)
    {element : Allocation} (hop : s.Allowed k.toNat (.append fresh element)) :
    ∃array',array.append fresh element=.ok array' ∧
      Represents k c array' (s.snoc (readAt element.bytes 0 k.toNat)) := by
  obtain ⟨hel,hsmall⟩ := hop
  have hes : 0<k.toNat := Nat.pos_of_ne_zero fun he => hpos (BitVec.eq_of_toNat_eq he)
  have hle := h.valid.size_le
  have hcap := (Nat.le_mul_of_pos_left s.capacity hes).trans_lt h.small
  have hfull : array.size=array.capacity ↔ s.elements.length=s.capacity := by
    rw [←h.size,←h.capacity]
    exact BitVec.toNat_inj.symm
  have hnext := (Nat.le_mul_of_pos_left _ hes).trans_lt hsmall
  have hgrown : s.elements.length=s.capacity →
      (array.capacity*3/2+1).toNat=s.capacity*3/2+1 ∧ array.grownBytes=
        k.toNat*(s.capacity*3/2+1) := by
    intro hc
    simp only [ListState.snoc,if_pos hc] at hnext hsmall
    have hnew := toNat_grown h.capacity (by omega)
    refine ⟨hnew,?_⟩
    rw [grownBytes,h.element_size,toNat_mul_eq (by rw [hnew,Nat.mul_comm]; omega),hnew,Nat.mul_comm]
  have hroom : array.size=array.capacity→
    array.element_size.toNat*(array.size.toNat+1) ≤ array.grownBytes := by
    intro hc
    rw [(hgrown (hfull.mp hc)).2,h.element_size,h.size,hfull.mp hc]
    exact Nat.mul_le_mul_left _ (by omega)
  obtain ⟨array',happend,happended⟩ := h.valid.append fresh (by rwa [h.element_size]) hroom
  have hcapacity : array'.capacity.toNat=(s.snoc (readAt element.bytes 0 k.toNat)).capacity := by
    rw [happended.capacity,ListState.snoc]
    by_cases hc : s.elements.length=s.capacity
    · rw [if_pos (hfull.mpr hc),if_pos hc,(hgrown hc).1]
    · rw [if_neg (fun he => hc (hfull.mp he)),if_neg hc,h.capacity]
  have hsize : array'.size.toNat=array.size.toNat+1 := by
    have hcapacity := h.capacity
    rw [happended.size]
    bv_omega
  have helements : array'.elements=s.elements++[readAt element.bytes 0 k.toNat] := by
    rw [RawArray.elements,hsize,happended.element_size,happended.records,h.elements,pointee,
      h.element_size]
  have hsame : array'.element_size=k := by rw [happended.element_size,h.element_size]
  refine ⟨array',happend,⟨?_,?_,?_⟩,hsame,
    by rw [happended.cleanup,h.cleanup],helements,hcapacity,hsmall⟩
  · rw [happended.length,hcapacity,hsame,ListState.snoc]
    by_cases hc : s.elements.length=s.capacity
    · rw [if_pos (hfull.mpr hc),if_pos hc,(hgrown hc).2]
    · rw [if_neg (fun he => hc (hfull.mp he)),if_neg hc,h.valid.length,h.element_size,h.capacity]
  · rw [hsame,hcapacity]
    omega
  · have hsize' := h.size
    have hcapacity' := h.capacity
    rw [hsize,hcapacity]
    simp only [ListState.snoc]
    split <;> omega

/-- The array and the list it stands for, after elements of the allocation have been rewritten. -/
theorem rewrite {p : Allocation} {n : U32} {xs : List (List U8)} (h : Represents k c array s)
    (hp : p.length=array.p.length) (hn : n.toNat ≤ array.size.toNat)
    (hxs : records p.bytes array.element_size.toNat n.toNat=xs) :
    Represents k c { array with p := p,size := n } { s with elements := xs } where
  valid := ⟨hp.trans h.valid.length,h.valid.small,hn.trans h.valid.size_le⟩
  element_size := h.element_size
  cleanup := h.cleanup
  elements := hxs
  capacity := h.capacity
  small := h.small

theorem execute (h : Represents k c array s) (hpos : k≠0) (build : Build) {op : Operation}
    (hop : s.Allowed k.toNat op) :
    ∃array',array.execute build op=.ok (array',(s.apply k.toNat c op).2) ∧
      Represents k c array' (s.apply k.toNat c op).1 := by
  cases op with
  | append fresh element =>
    obtain ⟨array',happend,hnext⟩ := h.append hpos fresh hop
    refine ⟨array',?_,hnext⟩
    rw [RawArray.execute,happend]
    rfl
  | removeIndex index =>
    have hindex : index<array.size := BitVec.lt_def.mpr (h.size ▸ hop)
    have hpred : (array.size-1).toNat=array.size.toNat-1 := by bv_omega
    obtain ⟨p,hremove,hp,hrecords⟩ := h.valid.removeIndex build hindex
    rw [←hpred] at hrecords
    refine ⟨_,?_,h.rewrite hp (by omega) (hrecords.trans (by rw [h.elements]))⟩
    rw [RawArray.execute,hremove,h.cleanup,h.elements]
    rfl
  | swap index1 index2 =>
    have hindex1 : index1<array.size := BitVec.lt_def.mpr (h.size ▸ hop.1)
    have hindex2 : index2<array.size := BitVec.lt_def.mpr (h.size ▸ hop.2)
    obtain ⟨p,hswap,hp,hrecords⟩ := h.valid.swap hindex1 hindex2
    refine ⟨_,?_,h.rewrite hp (Nat.le_refl _) (hrecords.trans (by rw [h.elements]))⟩
    rw [RawArray.execute,hswap]
    rfl
  | indexOf element =>
    have hel : array.element_size.toNat ≤ element.length := by
      rw [h.element_size]
      exact hop
    refine ⟨array,?_,h⟩
    rw [RawArray.execute,h.valid.indexOf hel,h.elements,pointee,h.element_size]
    rfl

theorem executeAll (h : Represents k c array s) (hpos : k≠0) (build : Build)
    {ops : List Operation} (hops : s.AllowedAll k.toNat c ops) :
    ∃array',array.executeAll build ops=.ok (array',(s.applyAll k.toNat c ops).2) ∧
      Represents k c array' (s.applyAll k.toNat c ops).1 := by
  induction ops generalizing array s with
  | nil => exact ⟨array,rfl,h⟩
  | cons op ops ih =>
    obtain ⟨next,hstep,hnext⟩ := h.execute hpos build hops.1
    obtain ⟨array',hrest,hend⟩ := ih hnext hops.2
    refine ⟨array',?_,hend⟩
    simp only [RawArray.executeAll,hstep,ok_bind,hrest]
    rfl

end Represents

/-- An array is its list: after any calls the elements and the answers are the list's, no more slots
are in use than there are, and no call has left the allocation of `element_size*capacity` bytes. -/
theorem array_as_list (build : Build) (fresh : ℕ→U8) (element_size capacity : U32)
    (zeroed cleanup : Bool) (ops : List Operation) (hpos : element_size≠0)
    (hsmall : element_size.toNat*capacity.toNat<2^31)
    (hops : ListState.AllowedAll element_size.toNat cleanup ⟨[],capacity.toNat⟩ ops) :
    let s := ListState.applyAll element_size.toNat cleanup ⟨[],capacity.toNat⟩ ops
    ∃array,RawArray.executeAll build { create fresh element_size capacity zeroed with cleanup :=
      cleanup } ops=
        .ok (array,s.2) ∧ array.elements=s.1.elements ∧ array.size.toNat=s.1.elements.length ∧
      array.size.toNat ≤ array.capacity.toNat ∧
      array.p.length=array.capacity.toNat*element_size.toNat := by
  obtain ⟨array,hrun,h⟩ := (Represents.create fresh zeroed hsmall).executeAll hpos build hops
  refine ⟨array,hrun,h.elements,h.size,h.valid.size_le,?_⟩
  rw [h.valid.length,h.element_size,Nat.mul_comm]

/-- From no capacity at all: two elements, the first removed again. -/
theorem array_as_list_two : ∃array,
    RawArray.executeAll .debug { create (fun _ => 0) 2 0 false with cleanup := true }
      [.append (fun _ => 9) ⟨fun _ => 5,2⟩,.append (fun _ => 9) ⟨fun _ => 6,2⟩,.removeIndex 0,
        .indexOf ⟨fun _ => 6,2⟩]=
        .ok (array,[.nothing,.nothing,.removed true [[5,5]],.found 0]) ∧ array.elements=
          [[6,6]] := by
  obtain ⟨array,hrun,helements,_⟩ := array_as_list .debug (fun _ => 0) 2 0 false true
    [.append (fun _ => 9) ⟨fun _ => 5,2⟩,.append (fun _ => 9) ⟨fun _ => 6,2⟩,.removeIndex 0,
      .indexOf ⟨fun _ => 6,2⟩] (by decide) (by decide)
    ⟨⟨by decide,by decide⟩,⟨by decide,by decide⟩,Nat.zero_lt_two,Nat.le_refl 2,trivial⟩
  exact ⟨array,hrun,helements⟩

end FalloutEmu.ArrayBytes
