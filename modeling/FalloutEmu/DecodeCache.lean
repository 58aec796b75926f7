import FalloutEmu.Disassembly
import FalloutEmu.MemoryMapInvariant
import Mathlib.Data.Finset.Card

/-! # What the decode caches of the blocks hold -/
namespace FalloutEmu
variable {κ : Type}

namespace FEArray
variable {α : Type}

theorem getElem?_append_of_some {xs ys : List α} {i : ℕ} {a : α} (h : xs[i]?=some a) :
    (xs++ys)[i]?=some a := by
  rw [List.getElem?_append_left (List.getElem?_eq_some_iff.mp h).1,h]

variable [ElementSize α] [Inhabited α]

theorem elements_store_increment (array : FEArray α) (h : array.size<array.capacity) (element : α) :
    ((array.increment h).store array.size element).elements=array.elements++[element] := by
  have happend := array.elements_appended element
  rw [appended,dif_pos h] at happend
  exact happend

theorem elements_store_appended (array : FEArray α) (a element : α) :
    ((array.appended a).store array.size element).elements=array.elements++[element] := by
  have happend := array.elements_appended a
  simp only [elements,size_appended] at happend
  simp only [elements,store,size_appended,List.take_set,happend]
  rw [List.set_append_right _ _ (by simp [array.length_p,array.size_le])]
  simp [array.length_p,array.size_le]

/-- The capacity that a growth leaves, where its byte count does not wrap. -/
theorem capacity_appended {array : FEArray α} (hpos : 0<(elementSize α).toNat)
    (hcapacity : array.capacity*3<2^32) (hbytes : (array.capacity*3/2+1)*(elementSize α).toNat<2^32)
    (element : α) :
    (array.appended element).capacity=if array.size<array.capacity then array.capacity
      else array.capacity*3/2+1 := by
  have hle := array.size_le
  have hslots : array.allocated/(elementSize α).toNat=array.capacity*3/2+1 := by
    rw [allocated_eq hcapacity hbytes,Nat.mul_div_cancel _ hpos]
  unfold appended
  split
  · rfl
  · simp only [hslots]
    omega

/-- The capacities of an array that starts with 512 slots, up to the last one whose records fit 32
bits. -/
def capacities : List ℕ :=
  [512,769,1154,1732,2599,3899,5849,8774,13162,19744,29617,44426,66640,99961,149942,224914,337372,
    506059,759089,1138634,1707952,2561929,3842894,5764342]

def mostRecords : ℕ := 5764342

theorem capacities_le : ∀c∈capacities,c ≤ mostRecords := by decide

theorem capacities_lt : ∀c∈capacities,c≠mostRecords→c ≤ 3842894 := by decide

theorem capacities_next : ∀c∈capacities,c≠mostRecords→c*3/2+1∈capacities := by decide

/-- Until it is full with that many, `disasmed` grows; then its byte counts wrap. -/
theorem grows_records_iff {array : FEArray DISASM} (h : array.capacity∈capacities) :
    array.Grows ↔ array.size≠mostRecords := by
  have hle := array.size_le
  constructor
  · rintro hgrows hsize
    have hcapacity : array.capacity=mostRecords := Nat.le_antisymm (capacities_le _ h) (hsize ▸ hle)
    rw [Grows,allocated,hcapacity,hsize] at hgrows
    revert hgrows
    decide
  · intro hsize
    by_cases hfree : array.size<array.capacity
    · exact .inl hfree
    · have hlow := capacities_lt _ h (by omega)
      have hbytes : (array.capacity*3/2+1)*(elementSize DISASM).toNat≤5764342*653 :=
        Nat.mul_le_mul (by omega) (Nat.le_refl _)
      exact grows_of_fits (by omega) (by omega)

theorem grows_lens {array : FEArray ℤ} (h : array.capacity∈capacities) : array.Grows := by
  have hle : array.capacity ≤ 5764342 := capacities_le _ h
  have hbytes : (array.capacity*3/2+1)*(elementSize ℤ).toNat≤8646514*4 :=
    Nat.mul_le_mul (by omega) (Nat.le_refl _)
  exact grows_of_fits (by omega) (by omega)

/-- One more element keeps the capacity among those, for elements that are no larger than a
record. -/
theorem capacity_appended_mem {array : FEArray α} (h : array.capacity∈capacities)
    (hpos : 0<(elementSize α).toNat) (hsmall : (elementSize α).toNat≤653)
    (hsize : array.size≠mostRecords) (element : α) :
    (array.appended element).capacity∈capacities := by
  have hle := array.size_le
  by_cases hfree : array.size<array.capacity
  · rw [appended,dif_pos hfree]
    exact h
  · have hne : array.capacity≠mostRecords := by omega
    have hlow := capacities_lt _ h hne
    have hbytes : (array.capacity*3/2+1)*(elementSize α).toNat≤5764342*653 :=
      Nat.mul_le_mul (by omega) hsmall
    rw [capacity_appended hpos (by omega) (by omega),if_neg hfree]
    exact capacities_next _ h hne

end FEArray

namespace DisasmContext
open FEArray

def offsets (context : DisasmContext) : Finset ℕ :=
  (Finset.range context.indexes.capacity).filter fun offset => context.indexes.slot offset≠ -1

/-- The sizes of a cache: each of its elements belongs to one offset. -/
structure Sized (context : DisasmContext) : Prop where
  sizes : context.disasmed.size=context.lens.size
  count : context.disasmed.size=context.offsets.card
  records : context.disasmed.capacity∈capacities
  lengths : context.lens.capacity∈capacities

/-- A consistent cache whose entry for the byte at an offset is a record and a length that `P`
allows there. -/
structure Holds (P : ℕ→DISASM→ℤ→Prop) (context : DisasmContext) : Prop extends Sized context where
  entries : ∀offset i,context.indexes.get offset=.ok i→i≠ -1→
    ∃record len,context.disasmed.elements[i.toNat]?=some record ∧
      context.lens.elements[i.toNat]?=some len ∧
      P offset record len

def Entry (context : DisasmContext) (offset : ℕ) (record : DISASM) (len : ℤ) : Prop :=
  ∃i,context.indexes.get offset=.ok i ∧ i≠ -1 ∧ context.disasmed.elements[i.toNat]?=some record ∧
    context.lens.elements[i.toNat]?=some len

theorem Holds.mono {P Q : ℕ→DISASM→ℤ→Prop} {context : DisasmContext} (h : context.Holds P)
    (hPQ : ∀offset record len,P offset record len→Q offset record len) : context.Holds Q where
  toSized := h.toSized
  entries := by
    intro offset i hi hne
    obtain ⟨record,len,hrecord,hlen,hP⟩ := h.entries offset i hi hne
    exact ⟨record,len,hrecord,hlen,hPQ offset record len hP⟩

theorem sized_create (size : U32) : (create size).Sized where
  sizes := rfl
  count := by simp [offsets,create]
  records := by rw [create,capacity_create]; decide
  lengths := by rw [create,capacity_create]; decide

theorem holds_create (P : ℕ→DISASM→ℤ→Prop) (size : U32) : (create size).Holds P where
  toSized := sized_create size
  entries := by
    intro offset i hi hne
    obtain ⟨_,hslot⟩ := Shadow.get_eq_ok.mp hi
    exact absurd hslot.symm hne

/-- `disasmed` with a new element, which is still to be filled. -/
def nextSlots (context : DisasmContext) (dummyOp : DISASM) : FEArray DISASM :=
  if h : context.disasmed.size<context.disasmed.capacity then context.disasmed.increment h
  else context.disasmed.appended dummyOp

theorem nextRecord_eq_ok {context : DisasmContext} {dummyOp : DISASM} {disasmed : FEArray DISASM} :
    context.nextRecord dummyOp=.ok disasmed ↔ context.disasmed.Grows ∧
    disasmed=context.nextSlots dummyOp := by
  unfold nextRecord nextSlots
  split
  · next hfree => simp [Grows,hfree,eq_comm]
  · exact append_eq_ok

theorem Sized.nextRecord {context : DisasmContext} (h : context.Sized)
    (hsize : context.disasmed.size≠mostRecords) (dummyOp : DISASM) :
    context.nextRecord dummyOp=.ok (context.nextSlots dummyOp) :=
  nextRecord_eq_ok.mpr ⟨(grows_records_iff h.records).mpr hsize,rfl⟩

/-- The new element: a slot as it is, or the template. -/
theorem index_nextSlots (context : DisasmContext) (dummyOp : DISASM) :
    ∃stale,(context.nextSlots dummyOp).index context.disasmed.size=.ok stale := by
  unfold nextSlots
  split
  · next hfree =>
    obtain ⟨stale,hslot⟩ : ∃stale,context.disasmed.p[context.disasmed.size]?=some stale :=
      ⟨_,List.getElem?_eq_getElem (by rw [context.disasmed.length_p]; exact hfree)⟩
    exact ⟨stale,by simp only [index,increment,hslot]⟩
  · refine ⟨dummyOp,index_eq_ok ?_⟩
    rw [elements_appended,←length_elements,List.getElem?_concat_length]

theorem elements_store_nextSlots (context : DisasmContext) (dummyOp record : DISASM) :
    ((context.nextSlots dummyOp).store context.disasmed.size record).elements=
      context.disasmed.elements++[record] := by
  simp only [nextSlots]
  split
  · exact elements_store_increment _ _ _
  · exact elements_store_appended _ _ _

/-- What a decode that returns has done: one more element in each of the arrays, and its index at
`offset`. -/
theorem decode_ok {disasm : Disassembler} {host : ℕ→U8} {dummyOp : DISASM}
    {context context' : DisasmContext} {reip offset i : ℕ} {eip : U32} {len : ℤ}
    (h : context.decode disasm host dummyOp reip eip offset=.ok (context',i,len)) :
    ∃stale record,(context.nextSlots dummyOp).index context.disasmed.size=.ok stale ∧
      disasm (stale.handed reip eip) host=(record,len) ∧ i=context.disasmed.size ∧
      offset<context.indexes.capacity ∧ context.disasmed.Grows ∧
      context'=⟨⟨context.indexes.capacity,fun p => if p=offset then (i : ℤ)
        else context.indexes.slot p⟩,(context.nextSlots dummyOp).store i record,
        context.lens.appended len⟩ := by
  obtain ⟨indexes,hindexes,h⟩ := bind_eq_ok.mp h
  obtain ⟨disasmed,hnext,h⟩ := bind_eq_ok.mp h
  obtain ⟨stale,hstale,h⟩ := bind_eq_ok.mp h
  obtain ⟨hlt,rfl⟩ := Shadow.set_eq_ok.mp hindexes
  obtain ⟨hgrows,rfl⟩ := nextRecord_eq_ok.mp hnext
  obtain ⟨record,newLen,hresult⟩ : ∃record newLen,disasm (stale.handed reip eip) host=
    (record,newLen) :=
    ⟨_,_,rfl⟩
  simp only [hresult] at h
  split at h
  · cases h
  · obtain ⟨lens,hlens,h⟩ := bind_eq_ok.mp h
    obtain ⟨_,rfl⟩ := append_eq_ok.mp hlens
    cases h
    exact ⟨stale,record,hstale,hresult,rfl,hlt,hgrows,rfl⟩

/-- A decode returns where the arrays can grow and the disassembler knows the bytes. -/
theorem decode_returns {disasm : Disassembler} {host : ℕ→U8} {dummyOp : DISASM}
    {context : DisasmContext} {reip offset : ℕ} {eip : U32} (h : context.Sized)
    (hoffset : offset<context.indexes.capacity) (hsize : context.disasmed.size≠mostRecords)
    (hdisasm : ∀stale : DISASM,(disasm (stale.handed reip eip) host).2≠UNKNOWN_OPCODE) :
    ∃context' i len,context.decode disasm host dummyOp reip eip offset=.ok (context',i,len) := by
  obtain ⟨stale,hstale⟩ := context.index_nextSlots dummyOp
  have hset : context.indexes.set offset (context.disasmed.size : ℤ)=.ok _ :=
    Shadow.set_eq_ok.mpr ⟨hoffset,rfl⟩
  simp only [decode,hset,ok_bind,h.nextRecord hsize dummyOp,hstale]
  rw [if_neg (hdisasm stale),(grows_lens h.lengths).append_eq,ok_bind]
  exact ⟨_,_,_,rfl⟩

section Decoded
variable {disasm : Disassembler} {host : ℕ→U8} {dummyOp : DISASM} {context context' : DisasmContext}
  {reip offset i : ℕ} {eip : U32} {len : ℤ}

theorem decode_size (h : context.decode disasm host dummyOp reip eip offset=.ok (context',i,len)) :
    i=context.disasmed.size ∧ context'.disasmed.size=context.disasmed.size+1 := by
  obtain ⟨_,record,_,_,rfl,_,_,rfl⟩ := decode_ok h
  refine ⟨rfl,?_⟩
  rw [←length_elements,elements_store_nextSlots,List.length_append,length_elements,
    List.length_singleton]

theorem decode_index (h : context.decode disasm host dummyOp reip eip offset=.ok (context',i,len)) :
    context'.indexes.get offset=.ok (i : ℤ) := by
  obtain ⟨_,_,_,_,_,hlt,_,rfl⟩ := decode_ok h
  refine Shadow.get_eq_ok.mpr ⟨hlt,?_⟩
  simp only [↓reduceIte]

theorem index_of_decode (h : context.decode disasm host dummyOp reip eip offset=
    .ok (context',i,len)) {o : ℕ} {j : ℤ}
    (hj : context'.indexes.get o=.ok j) : o=offset ∧ j=i ∨ o≠offset ∧
    context.indexes.get o=.ok j := by
  obtain ⟨_,_,_,_,_,_,_,rfl⟩ := decode_ok h
  obtain ⟨hlt,hslot⟩ := Shadow.get_eq_ok.mp hj
  simp only at hlt hslot
  split at hslot
  · next ho => exact .inl ⟨ho,hslot.symm⟩
  · next ho => exact .inr ⟨ho,Shadow.get_eq_ok.mpr ⟨hlt,hslot⟩⟩

/-- A decode adds its offset to those that have an entry. -/
theorem offsets_decode (h : context.decode disasm host dummyOp reip eip offset=
    .ok (context',i,len)) :
    context'.offsets=insert offset context.offsets := by
  obtain ⟨_,_,_,_,_,hlt,_,rfl⟩ := decode_ok h
  ext o
  simp only [offsets,Finset.mem_filter,Finset.mem_range,Finset.mem_insert]
  by_cases ho : o=offset
  · subst ho
    simp only [↓reduceIte,true_or,iff_true]
    exact ⟨hlt,by omega⟩
  · simp only [ho,↓reduceIte,false_or]

theorem Sized.decode (h : context.Sized) (hmiss : context.indexes.get offset=.ok (-1))
    (hdecode : context.decode disasm host dummyOp reip eip offset=.ok (context',i,len)) :
    context'.Sized := by
  have hnew : offset∉context.offsets := by simp [offsets,(Shadow.get_eq_ok.mp hmiss).2]
  have hcard : context'.offsets.card=context.offsets.card+1 := by
    rw [offsets_decode hdecode,Finset.card_insert_of_notMem hnew]
  have hsize := (decode_size hdecode).2
  obtain ⟨_,_,_,_,rfl,_,hgrows,rfl⟩ := decode_ok hdecode
  have hmost := (grows_records_iff h.records).mp hgrows
  have hslots : (context.nextSlots dummyOp).capacity∈capacities := by
    unfold nextSlots
    split
    · exact h.records
    · exact capacity_appended_mem h.records (by decide) (by decide) hmost dummyOp
  refine ⟨?_,?_,?_,?_⟩
  · rw [hsize,h.sizes]
    exact (size_appended _ _).symm
  · rw [hsize,hcard,h.count]
  · exact hslots
  · exact capacity_appended_mem h.lengths (by decide) (by decide) (h.sizes ▸ hmost) len

/-- As long as an offset has no entry, a block of so many bytes is not full. -/
theorem Sized.size_ne (h : context.Sized) (hmiss : context.indexes.get offset=.ok (-1))
    (hsmall : context.indexes.capacity ≤ mostRecords) : context.disasmed.size≠mostRecords := by
  obtain ⟨hlt,hslot⟩ := Shadow.get_eq_ok.mp hmiss
  have hsubset : context.offsets⊆(Finset.range context.indexes.capacity).erase offset := by
    intro o ho
    obtain ⟨hin,hne⟩ := Finset.mem_filter.mp ho
    refine Finset.mem_erase.mpr ⟨?_,hin⟩
    rintro rfl
    exact hne hslot
  have hcard := Finset.card_le_card hsubset
  rw [Finset.card_erase_of_mem (Finset.mem_range.mpr hlt),Finset.card_range,←h.count] at hcard
  omega

end Decoded

/-- A fetch either reads the entry of its offset or decodes. -/
theorem fetch_ok {disasm : Disassembler} {host : ℕ→U8} {dummyOp : DISASM}
    {context context' : DisasmContext} {reip offset i : ℕ} {eip : U32} {len : ℤ}
    (h : context.fetch disasm host dummyOp reip eip offset=.ok (context',i,len)) :
    (∃index : ℤ,context.indexes.get offset=.ok index ∧ index≠ -1 ∧ i=index.toNat ∧
      context.lens.index i=.ok len ∧ context'=context) ∨
    (context.indexes.get offset=.ok (-1) ∧
      context.decode disasm host dummyOp reip eip offset=.ok (context',i,len)) := by
  obtain ⟨index,hindex,h⟩ := bind_eq_ok.mp h
  split at h
  · next hmiss => exact .inr ⟨hmiss ▸ hindex,h⟩
  · next hne =>
    obtain ⟨entryLen,hlen,h⟩ := bind_eq_ok.mp h
    cases h
    exact .inl ⟨index,hindex,hne,rfl,hlen,rfl⟩

section Delivered
variable {P : ℕ→DISASM→ℤ→Prop} {disasm : Disassembler} {host : ℕ→U8} {dummyOp : DISASM}
  {context context' : DisasmContext} {reip offset i : ℕ} {eip : U32} {len : ℤ}

/-- A decode that returns adds one entry, which `P` has to allow, and keeps the others. -/
theorem Holds.decode (h : context.Holds P) (hmiss : context.indexes.get offset=.ok (-1))
    (hnew : ∀stale record : DISASM,disasm (stale.handed reip eip) host=(record,len)→
      context'.disasmed.elements[i]?=some record→P offset record len)
    (hdecode : context.decode disasm host dummyOp reip eip offset=.ok (context',i,len)) :
    context'.Holds P ∧ ∃record,context'.disasmed.elements[i]?=some record ∧
    context'.Entry offset record len ∧
      P offset record len := by
  have hsized := h.toSized.decode hmiss hdecode
  have hindex := decode_index hdecode
  obtain ⟨stale,record,_,hresult,rfl,_,_,rfl⟩ := decode_ok hdecode
  simp only [elements_store_nextSlots] at hnew
  have hlast : (context.disasmed.elements++[record])[context.disasmed.size]?=some record := by
    rw [←length_elements,List.getElem?_concat_length]
  have hlen : (context.lens.elements++[len])[context.disasmed.size]?=some len := by
    rw [h.sizes,←length_elements,List.getElem?_concat_length]
  have hP := hnew stale record hresult hlast
  refine ⟨⟨hsized,?_⟩,record,?_,⟨_,hindex,by omega,?_,?_⟩,hP⟩
  · intro o j hj hne
    simp only [elements_store_nextSlots,elements_appended]
    rcases index_of_decode hdecode hj with ⟨rfl,rfl⟩ | ⟨_,hbefore⟩
    · exact ⟨record,len,hlast,hlen,hP⟩
    · obtain ⟨old,oldLen,hold,holdLen,hPold⟩ := h.entries o j hbefore hne
      exact ⟨old,oldLen,getElem?_append_of_some hold,getElem?_append_of_some holdLen,hPold⟩
  · rw [elements_store_nextSlots]
    exact hlast
  · simp only [elements_store_nextSlots]
    exact hlast
  · simp only [elements_appended]
    exact hlen

/-- A fetch through the cache delivers the entry of its offset, which is one that the cache
allows. -/
theorem Holds.fetch (h : context.Holds P)
    (hnew : ∀stale record : DISASM,disasm (stale.handed reip eip) host=(record,len)→
      context'.disasmed.elements[i]?=some record→P offset record len)
    (hfetch : context.fetch disasm host dummyOp reip eip offset=.ok (context',i,len)) :
    context'.Holds P ∧ ∃record,context'.disasmed.elements[i]?=some record ∧
    context'.Entry offset record len ∧
      P offset record len := by
  rcases fetch_ok hfetch with ⟨index,hindex,hne,rfl,hlen,rfl⟩ | ⟨hmiss,hdecode⟩
  · obtain ⟨record,entryLen,hrecord,hentry,hP⟩ := h.entries offset index hindex hne
    have hsame := (index_eq_ok hentry).symm.trans hlen
    cases hsame
    exact ⟨h,record,hrecord,⟨index,hindex,hne,hrecord,hentry⟩,hP⟩
  · exact h.decode hmiss hnew hdecode

end Delivered
end DisasmContext

namespace FEMemoryMap

/-- An operation that leaves the map with no page owner and no context it did not have. -/
structure Keeps (m m' : FEMemoryMap κ) : Prop where
  slot : ∀p b,m'.memoryMapBlocksShadow.slot p=some b→∃q,m.memoryMapBlocksShadow.slot q=some b
  context : ∀pointer c,m'.context pointer=some c→m.context pointer=some c

theorem Keeps.refl (m : FEMemoryMap κ) : Keeps m m := ⟨fun p _ h => ⟨p,h⟩,fun _ _ h => h⟩

theorem memoryMapAccessModeChange_keeps {m m' : FEMemoryMap κ} {address : U32}
    (h : m.memoryMapAccessModeChange address=.ok m') : Keeps m m' := by
  obtain ⟨block?,_,h⟩ := bind_eq_ok.mp h
  cases block? with
  | none =>
    cases h
    exact .refl m
  | some block =>
    cases h
    refine ⟨fun p _ h => ⟨p,h⟩,fun pointer c hc => ?_⟩
    by_cases hp : pointer=block.pointer
    · simp [hp] at hc
    · simpa [hp] using hc

theorem setAccessMode_keeps {m m' : FEMemoryMap κ} {mode : FEMemoryAccessMode} {address size : U32}
    (h : m.setAccessModeAtAddress mode address size=.ok m') : Keeps m m' := by
  obtain ⟨rights,_,h⟩ := bind_eq_ok.mp h
  simp only at h
  split at h
  · have hkeeps := memoryMapAccessModeChange_keeps h
    exact ⟨hkeeps.slot,hkeeps.context⟩
  · cases h
    exact ⟨fun p _ hp => ⟨p,hp⟩,fun _ _ hc => hc⟩

theorem free_keeps {m m' : FEMemoryMap κ} {address : U32}
    (h : m.free address=.ok m') : Keeps m m' := by
  obtain ⟨shadow,hshadow,h⟩ := bind_eq_ok.mp h
  obtain ⟨_,rfl⟩ := Shadow.set_eq_ok.mp hshadow
  cases h
  refine ⟨fun p b hp => ⟨p,?_⟩,fun _ _ h => h⟩
  simp only at hp
  split at hp
  · cases hp
  · exact hp

/-- The pages that a loop of claims leaves: those of the new block and those it has not reached. -/
theorem claimPages_slot {build : Build} {block : FEMemoryMapBlock} {n i : ℕ}
    {s t : Shadow (Option FEMemoryMapBlock)} (h : claimPages build block n i s=.ok t) (p : ℕ) :
    t.slot p=some block ∨ t.slot p=s.slot p := by
  induction n generalizing i s with
  | zero =>
    cases h
    exact .inr rfl
  | succ n ih =>
    obtain ⟨_,_,h⟩ := bind_eq_ok.mp h
    obtain ⟨_,_,h⟩ := bind_eq_ok.mp h
    obtain ⟨u,hu,h⟩ := bind_eq_ok.mp h
    obtain ⟨_,rfl⟩ := Shadow.set_eq_ok.mp hu
    rcases ih h with hblock | hold
    · exact .inl hblock
    · by_cases hp : p=i
      · exact .inl (by rw [hold]; simp [hp])
      · exact .inr (by rw [hold]; simp [hp])

/-- Appending a block adds at most that block and no context. -/
theorem appendMemoryBlock_keeps {build : Build} {m m' : FEMemoryMap κ} {block : FEMemoryMapBlock}
    {mode : FEMemoryAccessMode} (h : m.appendMemoryBlock build block mode=.ok m') :
    (∀p b,m'.memoryMapBlocksShadow.slot p=some b→b=block ∨
      ∃q,m.memoryMapBlocksShadow.slot q=some b) ∧
      ∀pointer c,m'.context pointer=some c→m.context pointer=some c := by
  obtain ⟨shadow,hshadow,h⟩ := bind_eq_ok.mp h
  obtain ⟨blocks,_,h⟩ := bind_eq_ok.mp h
  have hkeeps := setAccessMode_keeps h
  refine ⟨fun p b hb => ?_,hkeeps.context⟩
  obtain ⟨q,hq⟩ := hkeeps.slot p b hb
  rcases claimPages_slot hshadow q with hnew | hold
  · exact .inl (Option.some.inj (hq.symm.trans hnew))
  · exact .inr ⟨q,hold.symm.trans hq⟩

/-- Every decode cache holds what `P` allows for its block, and no two owners share a descriptor. -/
structure CachesHold (P : FEMemoryMapBlock→ℕ→DISASM→ℤ→Prop)
    (m : FEMemoryMap DisasmContext) : Prop where
  pointers : ∀p q b c,m.memoryMapBlocksShadow.slot p=some b→m.memoryMapBlocksShadow.slot q=some c→
    b.pointer=c.pointer→b=c
  holds : ∀p b c,m.memoryMapBlocksShadow.slot p=some b→m.context b.pointer=some c→c.Holds (P b)

def Cached (m : FEMemoryMap DisasmContext) (block : FEMemoryMapBlock) (offset : ℕ) (record : DISASM)
    (len : ℤ) : Prop :=
  ∃context,m.context block.pointer=some context ∧ context.Entry offset record len

namespace CachesHold
variable {P Q : FEMemoryMapBlock→ℕ→DISASM→ℤ→Prop} {m m' : FEMemoryMap DisasmContext}

theorem create (size : U32) : CachesHold P (.create size) where
  pointers := by
    intro p q b c hb
    cases hb
  holds := by
    intro p b c hb
    cases hb

theorem mono (h : CachesHold P m) (hPQ : ∀b offset record len,P b offset record len→
    Q b offset record len) :
    CachesHold Q m where
  pointers := h.pointers
  holds := fun p b c hb hc => (h.holds p b c hb hc).mono (hPQ b)

theorem keeps (h : CachesHold P m) (hm : Keeps m m') : CachesHold P m' where
  pointers := by
    intro p q b c hb hc
    obtain ⟨_,hb⟩ := hm.slot p b hb
    obtain ⟨_,hc⟩ := hm.slot q c hc
    exact h.pointers _ _ b c hb hc
  holds := by
    intro p b c hb hc
    obtain ⟨_,hb⟩ := hm.slot p b hb
    exact h.holds _ b c hb (hm.context _ c hc)

/-- A block whose descriptor is fresh starts without a cache. -/
theorem append {build : Build} {block : FEMemoryMapBlock} {mode : FEMemoryAccessMode}
    (h : CachesHold P m) (hfresh : ∀p b,m.memoryMapBlocksShadow.slot p=some b→
      b.pointer≠block.pointer)
    (happend : (m.clearContext block.pointer).appendMemoryBlock build block mode=.ok m') :
    CachesHold P m' := by
  obtain ⟨hslot,hcontext⟩ := appendMemoryBlock_keeps happend
  have hclear : ∀pointer c,m'.context pointer=some c→pointer≠block.pointer ∧ m.context pointer=
    some c := by
    intro pointer c hc
    have hc := hcontext pointer c hc
    by_cases hp : pointer=block.pointer
    · simp [clearContext,hp] at hc
    · exact ⟨hp,by simpa [clearContext,hp] using hc⟩
  constructor
  · intro p q b c hb hc hbc
    rcases hslot p b hb with rfl | ⟨p',hb'⟩ <;> rcases hslot q c hc with rfl | ⟨q',hc'⟩
    · rfl
    · exact absurd hbc.symm (hfresh q' c hc')
    · exact absurd hbc (hfresh p' b hb')
    · exact h.pointers p' q' b c hb' hc' hbc
  · intro p b c hb hc
    obtain ⟨hne,hc⟩ := hclear _ c hc
    rcases hslot p b hb with rfl | ⟨p',hb'⟩
    · exact absurd rfl hne
    · exact h.holds p' b c hb' hc

theorem present (h : CachesHold P m) :
    CachesHold (fun b offset record len => P b offset record len ∧
      m.Cached b offset record len) m where
  pointers := h.pointers
  holds := by
    intro p b context hb hcontext
    have hholds := h.holds p b context hb hcontext
    refine ⟨hholds.toSized,fun offset i hi hne => ?_⟩
    obtain ⟨record,len,hrecord,hlen,hP⟩ := hholds.entries offset i hi hne
    exact ⟨record,len,hrecord,hlen,hP,context,hcontext,i,hi,hne,hrecord,hlen⟩

/-- A block keeps its place when it gets a new cache. -/
theorem setContext {b : FEMemoryMapBlock} {p : ℕ} {c : DisasmContext} (h : CachesHold P m)
    (hb : m.memoryMapBlocksShadow.slot p=some b) (hc : c.Holds (P b)) :
    CachesHold P (m.setContext b.pointer c) where
  pointers := h.pointers
  holds := by
    intro q b' c' hb' hc'
    by_cases hp : b'.pointer=b.pointer
    · cases h.pointers q p b' b hb' hb hp
      simp only [FEMemoryMap.setContext,↓reduceIte,Option.some.injEq] at hc'
      exact hc' ▸ hc
    · simp only [FEMemoryMap.setContext,hp,↓reduceIte] at hc'
      exact h.holds q b' c' hb' hc'

end CachesHold
end FEMemoryMap

open FEMemoryMap

/-- What a fetch that returns has done: on a writable page it decoded into the static record, on
another page it went through the cache of the block. -/
theorem updateDisasmFromContext_ok {build : Build} {disasm : Disassembler}
    {memory : Memory DisasmContext} {dummyOp : DISASM} {eip : U32} {fetched : Fetched}
    (h : updateDisasmFromContext build disasm memory dummyOp eip=.ok fetched) :
    ∃block mode,memory.map.blockFromVirtualAddress eip=.ok (some block) ∧
      memory.map.accessModeAtAddress eip=.ok mode ∧
      let offset := (eip-block.virtualAddress).toNat
      let reip := block.localAddress+offset
      (mode.write=true ∧ disasm ((default : DISASM).handed reip eip) memory.host=
        (fetched.dummyOp,fetched.len) ∧
        fetched.memory=memory ∧ fetched.op=.dummyOp) ∨
      (mode.write=false ∧ ∃context i,
        ((memory.map.context block.pointer).getD (.create block.size)).fetch disasm memory.host
          dummyOp reip eip
          offset=.ok (context,i,fetched.len) ∧
        fetched.memory={ memory with map := memory.map.setContext block.pointer context } ∧
        fetched.op=.cached block.pointer i) := by
  obtain ⟨block?,hblock,h⟩ := bind_eq_ok.mp h
  cases block? with
  | none =>
    obtain ⟨_,_,h⟩ := bind_eq_ok.mp h
    cases h
  | some block =>
    obtain ⟨mode,hmode,h⟩ := bind_eq_ok.mp h
    refine ⟨block,mode,hblock,hmode,?_⟩
    simp only at h
    split at h
    · next hwrite =>
      split at h
      · cases h
      · cases h
        exact .inl ⟨hwrite,rfl,rfl,rfl⟩
    · next hwrite =>
      obtain ⟨⟨context,i,len⟩,hfetch,h⟩ := bind_eq_ok.mp h
      cases h
      exact .inr ⟨by simpa using hwrite,context,i,hfetch,rfl,rfl⟩

/-- On a page without `Write` a fetch goes through the cache of the block. -/
theorem updateDisasmFromContext_cached (build : Build) {disasm : Disassembler}
    {memory : Memory DisasmContext} {dummyOp : DISASM} {eip : U32} {block : FEMemoryMapBlock}
    {mode : FEMemoryAccessMode} {context : DisasmContext} {i : ℕ} {len : ℤ}
    (hblock : memory.map.blockFromVirtualAddress eip=.ok (some block))
    (hmode : memory.map.accessModeAtAddress eip=.ok mode) (hwrite : mode.write=false)
    (hfetch : ((memory.map.context block.pointer).getD (.create block.size)).fetch disasm
      memory.host dummyOp
      (block.localAddress+(eip-block.virtualAddress).toNat) eip (eip-block.virtualAddress).toNat=
        .ok (context,i,len)) :
    ∃fetched,updateDisasmFromContext build disasm memory dummyOp eip=.ok fetched ∧
      fetched.memory={ memory with map := memory.map.setContext block.pointer context } ∧
      fetched.dummyOp=dummyOp := by
  simp only [updateDisasmFromContext,hblock,hmode,ok_bind,hwrite,Bool.false_eq_true,
    ↓reduceIte,hfetch]
  exact ⟨_,rfl,rfl,rfl⟩

/-- A fetch changes neither the bytes nor the owners of the pages. -/
theorem updateDisasmFromContext_same {build : Build} {disasm : Disassembler}
    {memory : Memory DisasmContext} {dummyOp : DISASM} {eip : U32} {fetched : Fetched}
    (h : updateDisasmFromContext build disasm memory dummyOp eip=.ok fetched) :
    fetched.memory.host=memory.host ∧
      fetched.memory.map.memoryMapBlocksShadow=memory.map.memoryMapBlocksShadow := by
  obtain ⟨_,_,_,_,⟨_,_,hmemory,_⟩ | ⟨_,_,_,_,hmemory,_⟩⟩ := updateDisasmFromContext_ok h <;>
    rw [hmemory] <;>
    exact ⟨rfl,rfl⟩

section Delivered
variable {P : FEMemoryMapBlock→ℕ→DISASM→ℤ→Prop} {disasm : Disassembler}
  {memory : Memory DisasmContext}
  {dummyOp : DISASM} {eip : U32}

/-- A fetch through the cache of a block keeps the caches consistent and delivers an entry that they
allow. -/
theorem fetchCached_delivers {block : FEMemoryMapBlock} {context : DisasmContext}
    {reip offset i : ℕ} {len : ℤ} (h : memory.map.CachesHold P)
    (hblock : memory.map.blockFromVirtualAddress eip=.ok (some block))
    (hnew : ∀stale record : DISASM,disasm (stale.handed reip eip) memory.host=(record,len)→
      context.disasmed.elements[i]?=some record→P block offset record len)
    (hfetch : ((memory.map.context block.pointer).getD (.create block.size)).fetch disasm
      memory.host dummyOp reip
      eip offset=.ok (context,i,len)) :
    (memory.map.setContext block.pointer context).CachesHold P ∧
      ∃record,(∀host dummyOp,(DisasmPointer.cached block.pointer i).deref
        ⟨memory.map.setContext block.pointer context,host⟩ dummyOp=.ok record) ∧
        (memory.map.setContext block.pointer context).Cached block offset record len ∧
        P block offset record len := by
  have hslot := (Shadow.get_eq_ok.mp hblock).2
  have hholds : ((memory.map.context block.pointer).getD (.create block.size)).Holds (P block) := by
    cases hc : memory.map.context block.pointer with
    | none => exact DisasmContext.holds_create _ _
    | some c => exact h.holds _ block c hslot hc
  obtain ⟨hnext,record,hrecord,hentry,hP⟩ := hholds.fetch hnew hfetch
  refine ⟨h.setContext hslot hnext,record,fun host dummyOp => ?_,⟨context,?_,hentry⟩,hP⟩
  · simp only [DisasmPointer.deref,FEMemoryMap.setContext,↓reduceIte]
    exact FEArray.index_eq_ok hrecord
  · simp only [FEMemoryMap.setContext,↓reduceIte]

/-- A fetch keeps the caches consistent and delivers a record and a length that they allow for the
block at `eip`, if what a decode now delivers is allowed there: on a writable page that decode, on
another page the entry that the cache has then. -/
theorem updateDisasmFromContext_delivers {build : Build} {fetched : Fetched}
    (h : memory.map.CachesHold P) (hnew : ∀block,memory.map.blockFromVirtualAddress eip=
      .ok (some block)→
      ∀stale record : DISASM,
        disasm (stale.handed (block.localAddress+(eip-block.virtualAddress).toNat) eip) memory.host=
          (record,fetched.len)→
        fetched.op.deref fetched.memory fetched.dummyOp=.ok record→
          P block (eip-block.virtualAddress).toNat record fetched.len)
    (hfetch : updateDisasmFromContext build disasm memory dummyOp eip=.ok fetched) :
    fetched.memory.map.CachesHold P ∧
      ∃block record mode,memory.map.blockFromVirtualAddress eip=.ok (some block) ∧
        fetched.op.deref fetched.memory fetched.dummyOp=.ok record ∧
        P block (eip-block.virtualAddress).toNat record fetched.len ∧
        fetched.memory.map.accessModeAtAddress eip=.ok mode ∧
        (mode.write=true ∧ disasm ((default : DISASM).handed
            (block.localAddress+(eip-block.virtualAddress).toNat) eip) memory.host=
              (record,fetched.len) ∨
          mode.write=false ∧
            fetched.memory.map.Cached block (eip-block.virtualAddress).toNat record
              fetched.len) := by
  obtain ⟨block,mode,hblock,hmode,⟨hwrite,hdecode,hmemory,hop⟩ | ⟨hwrite,context,i,hcached,
    hmemory,hop⟩⟩ :=
    updateDisasmFromContext_ok hfetch
  · rw [hmemory,hop] at hnew ⊢
    exact ⟨h,block,fetched.dummyOp,mode,hblock,rfl,hnew block hblock _ _ hdecode rfl,hmode,
      .inl ⟨hwrite,hdecode⟩⟩
  · rw [hmemory,hop] at hnew ⊢
    have hslots : ∀stale record : DISASM,
        disasm (stale.handed (block.localAddress+(eip-block.virtualAddress).toNat) eip) memory.host=
          (record,fetched.len)→
        context.disasmed.elements[i]?=some record→
          P block (eip-block.virtualAddress).toNat record fetched.len := by
      intro stale record hdecode hslot
      refine hnew block hblock stale record hdecode ?_
      simp only [DisasmPointer.deref,FEMemoryMap.setContext,↓reduceIte]
      exact FEArray.index_eq_ok hslot
    obtain ⟨hcaches,record,hderef,hentry,hP⟩ := fetchCached_delivers h hblock hslots hcached
    exact ⟨hcaches,block,record,mode,hblock,hderef _ _,hP,hmode,.inr ⟨hwrite,hentry⟩⟩

end Delivered
end FalloutEmu
