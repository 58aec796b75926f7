import FalloutEmu.MemoryMap
import FalloutEmu.Runs
import Mathlib.Data.List.Sort

/-! # The representation invariant of the memory map -/
namespace FalloutEmu

namespace Shadow
variable {α : Type}

theorem get_eq_ok {shadow : Shadow α} {i : ℕ} {a : α} :
    shadow.get i=.ok a ↔ i < shadow.capacity ∧ shadow.slot i=a := by
  unfold get
  split <;> simp [*]

theorem set_eq_ok {shadow t : Shadow α} {i : ℕ} {a : α} : shadow.set i a=.ok t ↔
    i < shadow.capacity ∧ t={ shadow with slot := fun p => if p=i then a else shadow.slot p } := by
  unfold set
  split <;> simp [*,eq_comm]

def filled (shadow : Shadow α) (a : α) (n i : ℕ) : Shadow α :=
  { shadow with slot := fun p => if i ≤ p ∧ p < i+n then a else shadow.slot p }

theorem filled_zero (shadow : Shadow α) (a : α) (i : ℕ) : shadow.filled a 0 i=shadow := by
  have hp (p : ℕ) : ¬(i ≤ p ∧ p < i) := by omega
  simp [filled,hp]

theorem filled_succ (shadow : Shadow α) (a : α) (n i : ℕ) :
    ({ shadow with slot := fun p => if p=i then a else shadow.slot p } : Shadow α).filled a n (i+1)
      =shadow.filled a (n+1) i := by
  simp only [filled,Shadow.mk.injEq,true_and]
  funext p
  split_ifs <;> first | rfl | omega

theorem filled_slot_of_outside {shadow : Shadow α} {a : α} {n i p : ℕ} (h : p < i ∨ i+n ≤ p) :
    (shadow.filled a n i).slot p=shadow.slot p := by
  have hn : ¬(i ≤ p ∧ p < i+n) := by omega
  simp [filled,hn]

theorem fill_eq_ok {shadow t : Shadow α} {a : α} {n i : ℕ} : shadow.fill a n i=.ok t ↔
    (n=0 ∨ i+n ≤ shadow.capacity) ∧ t=shadow.filled a n i := by
  induction n generalizing i shadow with
  | zero => simp [fill,filled_zero,eq_comm]
  | succ n ih =>
    simp only [fill,bind_eq_ok,set_eq_ok,ih]
    constructor
    · rintro ⟨u,⟨hi,rfl⟩,hn,rfl⟩
      exact ⟨by simp at hn; omega,filled_succ _ _ _ _⟩
    · rintro ⟨hn,rfl⟩
      exact ⟨_,⟨by omega,rfl⟩,by simp; omega,(filled_succ _ _ _ _).symm⟩

end Shadow

namespace FEMemoryMapBlock

def firstPage (block : FEMemoryMapBlock) : ℕ := block.virtualAddress.toNat/4096

/-- The page after the last one of a block. -/
def pageEnd (block : FEMemoryMapBlock) : ℕ :=
  (block.virtualAddress.toNat+block.size.toNat+4095)/4096

def OwnsPage (block : FEMemoryMapBlock) (p : ℕ) : Prop := block.firstPage ≤ p ∧ p<block.pageEnd

instance (block : FEMemoryMapBlock) (p : ℕ) : Decidable (block.OwnsPage p) :=
  inferInstanceAs (Decidable (_ ∧ _))

def Contains (block : FEMemoryMapBlock) (a : ℕ) : Prop :=
  block.virtualAddress.toNat ≤ a ∧ a<block.virtualAddress.toNat+block.size.toNat

theorem Contains.ownsPage {block : FEMemoryMapBlock} {a : ℕ} (h : block.Contains a) :
    block.OwnsPage (a/4096) := by
  obtain ⟨h₁,h₂⟩ := h
  constructor
  · exact Nat.div_le_div_right h₁
  · unfold pageEnd
    omega

/-- The last page as the source computes it, `(va+size-1)/4096`. -/
theorem pageEnd_eq {block : FEMemoryMapBlock} (h : 0<block.size.toNat) :
    block.pageEnd=(block.virtualAddress.toNat+block.size.toNat-1)/4096+1 := by
  unfold pageEnd
  omega

end FEMemoryMapBlock

/-- The list of blocks grows as long as it is not longer than this. -/
theorem FEArray.grows_blocks {array : FEArray FEMemoryMapBlock}
    (h : array.elements.length<2^28) : array.Grows := by
  rw [length_elements] at h
  by_cases hfree : array.size<array.capacity
  · exact .inl hfree
  · have hbytes : (elementSize FEMemoryMapBlock).toNat=8 := rfl
    exact grows_of_fits (by omega) (by rw [hbytes]; omega)

namespace FEMemoryMap
variable {κ : Type}
open FEMemoryMapBlock

theorem claimPages_debug {block : FEMemoryMapBlock} {n i : ℕ}
    {s t : Shadow (Option FEMemoryMapBlock)} :
    claimPages .debug block n i s=.ok t ↔
      (n=0 ∨ i+n ≤ s.capacity) ∧ (∀p,i ≤ p→p < i+n→s.slot p=none) ∧
      t=s.filled (some block) n i := by
  induction n generalizing i s with
  | zero =>
    have hp : ∀p,i ≤ p→p < i→s.slot p=none := by omega
    simpa [claimPages,Shadow.filled_zero,eq_comm] using fun _ => hp
  | succ n ih =>
    simp only [claimPages,bind_eq_ok,Shadow.get_eq_ok,assertThat_debug_ok,Shadow.set_eq_ok,ih]
    constructor
    · rintro ⟨current,⟨hi,rfl⟩,_,hnone,u,⟨-,rfl⟩,hn,hfree,rfl⟩
      refine ⟨by simp at hn; omega,?_,Shadow.filled_succ _ _ _ _⟩
      intro p hp hlt
      by_cases h : p=i
      · subst h
        simpa using hnone
      · simpa [h] using hfree p (by omega) (by omega)
    · rintro ⟨hn,hfree,rfl⟩
      refine ⟨_,⟨by omega,rfl⟩,(),by simp [hfree i (Nat.le_refl i) (by omega)],
        _,⟨by omega,rfl⟩,by simp; omega,?_,(Shadow.filled_succ _ _ _ _).symm⟩
      intro p hp hlt
      have hne : p≠i := by omega
      simpa [hne] using hfree p (by omega) (by omega)

theorem claimPages_free (build : Build) (block : FEMemoryMapBlock) {n i : ℕ}
    {s : Shadow (Option FEMemoryMapBlock)} (hfree : ∀p,i ≤ p→p < i+n→p < s.capacity ∧
      s.slot p=none) :
    claimPages build block n i s=.ok (s.filled (some block) n i) := by
  induction n generalizing i s with
  | zero => rw [claimPages,Shadow.filled_zero]
  | succ n ih =>
    obtain ⟨hcap,hnone⟩ := hfree i (Nat.le_refl i) (by omega)
    have hget : s.get i=.ok none := Shadow.get_eq_ok.mpr ⟨hcap,hnone⟩
    have hset : s.set i (some block)=
      .ok { s with slot := fun p => if p=i then some block else s.slot p } :=
      Shadow.set_eq_ok.mpr ⟨hcap,rfl⟩
    rw [claimPages,hget,ok_bind,Option.isNone_none,assertThat_true,ok_bind,hset,ok_bind,
      ←Shadow.filled_succ]
    apply ih
    intro p hp hlt
    obtain ⟨hin,hslot⟩ := hfree p (by omega) (by omega)
    have hne : p≠i := by omega
    exact ⟨hin,(if_neg hne).trans hslot⟩

structure SameBlocks (m m' : FEMemoryMap κ) : Prop where
  size : m'.size=m.size
  shadow : m'.memoryMapBlocksShadow=m.memoryMapBlocksShadow
  blocks : m'.memoryMapBlocks=m.memoryMapBlocks
  callback : m'.memoryMapAccessModeChangeCallback=m.memoryMapAccessModeChangeCallback
  rights : m'.memoryMapRightsShadow.capacity=m.memoryMapRightsShadow.capacity

theorem memoryMapAccessModeChange_sameBlocks {m m' : FEMemoryMap κ} {address : U32}
    (h : m.memoryMapAccessModeChange address=.ok m') : SameBlocks m m' := by
  unfold memoryMapAccessModeChange at h
  obtain ⟨block?,-,h⟩ := bind_eq_ok.mp h
  cases block? <;> cases h <;> exact ⟨rfl,rfl,rfl,rfl,rfl⟩

theorem setAccessMode_sameBlocks {m m' : FEMemoryMap κ} {mode : FEMemoryAccessMode}
    {address size : U32} (h : m.setAccessModeAtAddress mode address size=.ok m') :
    SameBlocks m m' := by
  unfold setAccessModeAtAddress at h
  obtain ⟨rights,hfill,h⟩ := bind_eq_ok.mp h
  obtain ⟨-,rfl⟩ := Shadow.fill_eq_ok.mp hfill
  dsimp only at h
  split at h
  · have hs := memoryMapAccessModeChange_sameBlocks h
    exact ⟨hs.size,hs.shadow,hs.blocks,hs.callback,hs.rights⟩
  · cases h
    exact ⟨rfl,rfl,rfl,rfl,rfl⟩

/-- A change of rights returns where the pages of the first and of the last byte exist. -/
theorem setAccessMode_returns {m : FEMemoryMap κ} (mode : FEMemoryAccessMode) {address size : U32}
    (hfirst : shadowIndex address < m.memoryMapBlocksShadow.capacity)
    (hlast : shadowIndex (address+size-1) < m.memoryMapRightsShadow.capacity) :
    ∃m',m.setAccessModeAtAddress mode address size=.ok m' := by
  obtain ⟨rights,hfill⟩ : ∃rights,m.memoryMapRightsShadow.fill mode
      (shadowIndex (address+size-1)-shadowIndex address) (shadowIndex address)=.ok rights :=
    ⟨_,Shadow.fill_eq_ok.mpr ⟨by omega,rfl⟩⟩
  rw [setAccessModeAtAddress,hfill,ok_bind]
  simp only
  split
  · have hget : m.memoryMapBlocksShadow.get (shadowIndex address)=
        .ok (m.memoryMapBlocksShadow.slot (shadowIndex address)) :=
          Shadow.get_eq_ok.mpr ⟨hfirst,rfl⟩
    simp only [memoryMapAccessModeChange,blockFromVirtualAddress,hget,ok_bind]
    cases m.memoryMapBlocksShadow.slot (shadowIndex address) <;> exact ⟨_,rfl⟩
  · exact ⟨_,rfl⟩

/-- The loop sets the pages before the one of the last byte. -/
theorem setAccessMode_rights {m m' : FEMemoryMap κ} {mode : FEMemoryAccessMode} {address size : U32}
    (h : m.setAccessModeAtAddress mode address size=.ok m') :
    m'.memoryMapRightsShadow=m.memoryMapRightsShadow.filled mode
      (shadowIndex (address+size-1)-shadowIndex address) (shadowIndex address) := by
  obtain ⟨rights,hrights,h⟩ := bind_eq_ok.mp h
  obtain ⟨_,rfl⟩ := Shadow.fill_eq_ok.mp hrights
  simp only at h
  split at h
  · obtain ⟨block?,_,h⟩ := bind_eq_ok.mp h
    cases block? <;> cases h <;> rfl
  · cases h
    rfl

/-- The map after a block took its pages and its place in the list, before its rights are set. -/
def withBlock (m : FEMemoryMap κ) (block : FEMemoryMapBlock) : FEMemoryMap κ :=
  { m with
    memoryMapBlocksShadow :=
      m.memoryMapBlocksShadow.filled (some block) (block.pageEnd-block.firstPage) block.firstPage
    memoryMapBlocks := (m.memoryMapBlocks.appended block).mergeSort FEMemoryMapBlock.compare }

/-- A block whose last page the source computes without wrapping. -/
structure Placeable (block : FEMemoryMapBlock) : Prop where
  noWrap : block.virtualAddress.toNat+block.size.toNat≤2^32
  reach : 0<block.virtualAddress.toNat+block.size.toNat

theorem Placeable.pageCount {block : FEMemoryMapBlock} (h : Placeable block) :
    shadowIndex (block.size+block.virtualAddress-1)+1-shadowIndex block.virtualAddress
      =block.pageEnd-block.firstPage := by
  have hw := h.noWrap
  have hn := h.reach
  have hlast : (block.size+block.virtualAddress-1).toNat
      =block.virtualAddress.toNat+block.size.toNat-1 := by
    bv_omega
  simp only [shadowIndex,hlast,alignment,pageEnd,firstPage]
  omega

theorem Placeable.append_eq {build : Build} {m : FEMemoryMap κ} {block : FEMemoryMapBlock}
    {mode : FEMemoryAccessMode} (h : Placeable block) : m.appendMemoryBlock build block mode=
      (claimPages build block (block.pageEnd-block.firstPage) block.firstPage
        m.memoryMapBlocksShadow >>=
        fun shadow => m.memoryMapBlocks.append block >>= fun blocks => { m with
          memoryMapBlocksShadow := shadow
          memoryMapBlocks := blocks.mergeSort FEMemoryMapBlock.compare
          }.setAccessModeAtAddress mode block.virtualAddress block.size) := by
  unfold appendMemoryBlock
  simp only [h.pageCount]
  rfl

def Free (m : FEMemoryMap κ) (block : FEMemoryMapBlock) : Prop :=
  ∀p,block.OwnsPage p→p < m.memoryMapBlocksShadow.capacity ∧ m.memoryMapBlocksShadow.slot p=none

/-- A block on free pages is appended in both builds, if the list of blocks can grow. -/
theorem Placeable.append_free (build : Build) {m : FEMemoryMap κ} {block : FEMemoryMapBlock}
    (mode : FEMemoryAccessMode) (h : Placeable block) (hfree : m.Free block)
    (hgrows : m.memoryMapBlocks.Grows)
    (hfirst : shadowIndex block.virtualAddress < m.memoryMapBlocksShadow.capacity)
    (hlast : shadowIndex (block.virtualAddress+block.size-1) < m.memoryMapRightsShadow.capacity) :
    ∃m',m.appendMemoryBlock build block mode=.ok m' ∧ SameBlocks (m.withBlock block) m' := by
  have hclaim := claimPages_free build block (n:=block.pageEnd-block.firstPage) fun p hlow hhigh =>
    hfree p ⟨hlow,by omega⟩
  obtain ⟨m',hset⟩ := setAccessMode_returns (m:=m.withBlock block) mode hfirst hlast
  refine ⟨m',?_,setAccessMode_sameBlocks hset⟩
  rw [h.append_eq,hclaim,ok_bind,hgrows.append_eq,ok_bind]
  exact hset

/-- `_fe_memory_map_appendMemoryBlock` of a debug build: the pages were free, and the rights are
all that changes besides. -/
theorem appendMemoryBlock_ok {m m' : FEMemoryMap κ} {block : FEMemoryMapBlock}
    {mode : FEMemoryAccessMode} (hp : Placeable block)
    (h : m.appendMemoryBlock .debug block mode=.ok m') :
    m.Free block ∧ (m.withBlock block).setAccessModeAtAddress mode block.virtualAddress block.size=
      .ok m' := by
  rw [hp.append_eq] at h
  obtain ⟨shadow,hclaim,h⟩ := bind_eq_ok.mp h
  obtain ⟨hcap,hfree,rfl⟩ := claimPages_debug.mp hclaim
  obtain ⟨blocks,hblocks,h⟩ := bind_eq_ok.mp h
  obtain ⟨_,rfl⟩ := FEArray.append_eq_ok.mp hblocks
  refine ⟨?_,h⟩
  rintro p ⟨h₁,h₂⟩
  exact ⟨by omega,hfree p h₁ (by omega)⟩

theorem before_compare (b c : FEMemoryMapBlock) :
    FEArray.before FEMemoryMapBlock.compare b c=
      decide (b.virtualAddress.toNat ≤ c.virtualAddress.toNat) := by
  unfold FEArray.before FEMemoryMapBlock.compare
  simp only [BitVec.lt_def,gt_iff_lt]
  split_ifs <;> simp <;> omega

/-- The block list, the page shadow and the blocks' ranges agree. An empty block owns no page. -/
structure WellFormed (m : FEMemoryMap κ) : Prop where
  sorted : m.memoryMapBlocks.elements.Pairwise fun b c =>
    b.virtualAddress.toNat ≤ c.virtualAddress.toNat
  owner : ∀p b,m.memoryMapBlocksShadow.slot p=some b ↔ b∈m.memoryMapBlocks.elements ∧ b.OwnsPage p
  bounded : ∀p b,m.memoryMapBlocksShadow.slot p=some b→p < m.memoryMapBlocksShadow.capacity
  noWrap : ∀b∈m.memoryMapBlocks.elements,b.virtualAddress.toNat+b.size.toNat≤2^32
  reach : ∀b∈m.memoryMapBlocks.elements,0<b.virtualAddress.toNat+b.size.toNat

/-- The map of 1 GiB after `fe_memoryMap_map` of the blocks in turn; the empty map if one of them
does not fit. -/
def ofBlocks (blocks : List (FEMemoryMapBlock×FEMemoryAccessMode)) : FEMemoryMap κ :=
  let empty : FEMemoryMap κ := .create 0x40000000
  (blocks.foldlM (fun (m : FEMemoryMap κ) entry => m.map .debug entry.1 entry.2)
    empty).toOption.getD empty

theorem WellFormed.create (size : U32) : WellFormed (create size : FEMemoryMap κ) where
  sorted := by simp [FEMemoryMap.create]
  owner := by simp [FEMemoryMap.create]
  bounded := by simp [FEMemoryMap.create]
  noWrap := by simp [FEMemoryMap.create]
  reach := by simp [FEMemoryMap.create]

theorem WellFormed.sameBlocks {m m' : FEMemoryMap κ} (h : WellFormed m) (hs : SameBlocks m m') :
    WellFormed m' where
  sorted := by rw [hs.blocks]; exact h.sorted
  owner := by rw [hs.blocks,hs.shadow]; exact h.owner
  bounded := by rw [hs.shadow]; exact h.bounded
  noWrap := by rw [hs.blocks]; exact h.noWrap
  reach := by rw [hs.blocks]; exact h.reach

theorem withBlock_perm (m : FEMemoryMap κ) (block : FEMemoryMapBlock) :
    (m.withBlock block).memoryMapBlocks.elements.Perm (m.memoryMapBlocks.elements++[block]) := by
  simpa [withBlock] using List.mergeSort_perm _ _

theorem mem_withBlock {m : FEMemoryMap κ} {block b : FEMemoryMapBlock} :
    b∈(m.withBlock block).memoryMapBlocks.elements ↔ b∈m.memoryMapBlocks.elements ∨ b=block := by
  simpa using (m.withBlock_perm block).mem_iff

theorem withBlock_sorted (m : FEMemoryMap κ) (block : FEMemoryMapBlock) :
    (m.withBlock block).memoryMapBlocks.elements.Pairwise
      fun b c => b.virtualAddress.toNat ≤ c.virtualAddress.toNat := by
  have htrans : ∀a b c,FEArray.before FEMemoryMapBlock.compare a b→
    FEArray.before FEMemoryMapBlock.compare b c→
      FEArray.before FEMemoryMapBlock.compare a c :=
    fun a b c => by simpa [before_compare] using Nat.le_trans
  have htotal : ∀a b,FEArray.before FEMemoryMapBlock.compare a b || FEArray.before
    FEMemoryMapBlock.compare b a :=
    fun a b => by simpa [before_compare] using Nat.le_total _ _
  have hs := List.pairwise_mergeSort htrans htotal (m.memoryMapBlocks.elements++[block])
  simpa [withBlock,before_compare] using hs

theorem withBlock_slot (m : FEMemoryMap κ) (block : FEMemoryMapBlock) (p : ℕ) :
    (m.withBlock block).memoryMapBlocksShadow.slot p
      =if block.OwnsPage p then some block else m.memoryMapBlocksShadow.slot p := by
  have hiff : (block.firstPage ≤ p ∧ p<block.firstPage+(block.pageEnd-block.firstPage))
      ↔ block.OwnsPage p := by
    unfold OwnsPage
    omega
  simp only [withBlock,Shadow.filled,hiff]

theorem WellFormed.withBlock {m : FEMemoryMap κ} {block : FEMemoryMapBlock} (h : WellFormed m)
    (hfree : m.Free block) (hplace : Placeable block) : WellFormed (m.withBlock block) where
  sorted := m.withBlock_sorted block
  owner p b := by
    rw [withBlock_slot,mem_withBlock]
    split
    case isTrue hown =>
      constructor
      · intro hb
        cases hb
        exact ⟨Or.inr rfl,hown⟩
      · rintro ⟨hb|rfl,hp⟩
        · -- an earlier owner of `p` contradicts that `p` was free
          have hslot := (h.owner p b).mpr ⟨hb,hp⟩
          rw [(hfree p hown).2] at hslot
          cases hslot
        · rfl
    case isFalse hown =>
      rw [h.owner]
      constructor
      · exact fun ⟨hb,hp⟩ => ⟨Or.inl hb,hp⟩
      · rintro ⟨hb|rfl,hp⟩
        · exact ⟨hb,hp⟩
        · exact absurd hp hown
  bounded p b hp := by
    rw [withBlock_slot] at hp
    split at hp
    case isTrue hown => exact (hfree p hown).1
    case isFalse => exact h.bounded p b hp
  noWrap b hb := by
    rcases mem_withBlock.mp hb with hb|rfl
    · exact h.noWrap b hb
    · exact hplace.noWrap
  reach b hb := by
    rcases mem_withBlock.mp hb with hb|rfl
    · exact h.reach b hb
    · exact hplace.reach

/-- Two blocks that share a page are the same block. -/
theorem WellFormed.owner_unique {m : FEMemoryMap κ} (h : WellFormed m) {b c : FEMemoryMapBlock}
    {p : ℕ} (hb : b∈m.memoryMapBlocks.elements) (hc : c∈m.memoryMapBlocks.elements)
    (hbp : b.OwnsPage p) (hcp : c.OwnsPage p) : b=c := by
  have h₁ := (h.owner p b).mpr ⟨hb,hbp⟩
  have h₂ := (h.owner p c).mpr ⟨hc,hcp⟩
  rw [h₁] at h₂
  exact Option.some.inj h₂

theorem WellFormed.disjoint {m : FEMemoryMap κ} (h : WellFormed m) {b c : FEMemoryMapBlock} {a : ℕ}
    (hb : b∈m.memoryMapBlocks.elements) (hc : c∈m.memoryMapBlocks.elements)
    (hba : b.Contains a) (hca : c.Contains a) : b=c :=
  h.owner_unique hb hc hba.ownsPage hca.ownsPage

/-- `_fe_memory_map_appendMemoryBlock` on a well-formed map: the new list and the new shadow. -/
theorem WellFormed.append {m m' : FEMemoryMap κ} {mode : FEMemoryAccessMode} (h : WellFormed m)
    (block : FEMemoryMapBlock) (hplace : Placeable block)
    (ha : m.appendMemoryBlock .debug block mode=.ok m') :
    WellFormed m' ∧ SameBlocks (m.withBlock block) m' ∧ m.Free block := by
  obtain ⟨hfree,hset⟩ := appendMemoryBlock_ok hplace ha
  have hsame := setAccessMode_sameBlocks hset
  exact ⟨(h.withBlock hfree hplace).sameBlocks hsame,hsame,hfree⟩

section Search

/-- The start of the page after a block, where the gap search tries to place the next one. -/
def roundedEnd (block : FEMemoryMapBlock) : ℕ := 4096*block.pageEnd

theorem toNat_roundUp (block : FEMemoryMapBlock) (h : roundedEnd block<2^32) :
    (roundUp (block.virtualAddress+block.size)).toNat=roundedEnd block := by
  unfold roundedEnd pageEnd at *
  unfold roundUp
  have hsum : (block.virtualAddress+block.size).toNat=
    block.virtualAddress.toNat+block.size.toNat := by
    bv_omega
  generalize block.virtualAddress+block.size=sum at *
  have hdiv : (sum/4096).toNat=sum.toNat/4096 := rfl
  have hmod : (sum%4096).toNat=sum.toNat%4096 := rfl
  generalize sum/4096=q at *
  generalize sum%4096=r at *
  split_ifs <;> bv_omega

/-- The first gap that the search accepts between `blocks`, or above the last one and below `limit`,
if there is one, starts at an address with `P`. -/
def FirstGap (P : U32→Prop) (size limit : U32) : List FEMemoryMapBlock→Prop
  | [] => True
  | first::rest =>
    let address := roundUp (first.virtualAddress+first.size)
    let next := match rest with
      | [] => limit
      | second::_ => second.virtualAddress
    (address+size<next→P address) ∧ (address+size<next ∨ FirstGap P size limit rest)

/-- The place the map offers to `size` bytes, if any, has the property `P`. -/
def Offers (m : FEMemoryMap κ) (size : U32) (P : U32→Prop) : Prop :=
  match m.memoryMapBlocks.elements with
  | [] => size ≤ m.size-4096→P 4096
  | first::rest =>
    if first.virtualAddress>4096 ∧ size<first.virtualAddress-4096 then P 4096
    else FirstGap P size m.size (first::rest)

theorem searchGaps_between (size : U32) (first second : FEMemoryMapBlock)
    (rest : List FEMemoryMapBlock) :
    searchGaps size false (first::second::rest)=
      if roundUp (first.virtualAddress+first.size)+size < second.virtualAddress then
        some (roundUp (first.virtualAddress+first.size))
      else searchGaps size false (second::rest) := by
  rw [searchGaps.eq_def]
  simp only [Bool.false_eq_true,false_and,if_false]

theorem searchGaps_start (size : U32) (first : FEMemoryMapBlock) (rest : List FEMemoryMapBlock) :
    searchGaps size true (first::rest)=
      if first.virtualAddress>4096 ∧ size<first.virtualAddress-4096 then some 4096
      else searchGaps size false (first::rest) := by
  rw [searchGaps.eq_def,searchGaps.eq_def size false]
  simp only [true_and,Bool.false_eq_true,false_and,if_false]

/-- `FirstGap` describes the loop of the search and the test of the last gap after it. -/
theorem firstGap_iff {P : U32→Prop} {size limit : U32} {first : FEMemoryMapBlock}
    {rest : List FEMemoryMapBlock} : FirstGap P size limit (first::rest) ↔
      match searchGaps size false (first::rest) with
      | some address => P address
      | none => let last := (first::rest).getLast (by simp)
        let address := roundUp (last.virtualAddress+last.size)
        address+size<limit→P address := by
  induction rest generalizing first with
  | nil => simp [searchGaps,FirstGap]
  | cons second rest ih =>
    rw [FirstGap,ih,searchGaps_between]
    dsimp only
    by_cases h : roundUp (first.virtualAddress+first.size)+size < second.virtualAddress
    · simp [h]
    · simp [h]

/-- `Offers` describes the search of `fe_memoryMap_malloc`. -/
theorem offers_iff {m : FEMemoryMap κ} {size : U32} {P : U32→Prop} :
    m.Offers size P ↔ ∀address,m.findAddress size=.ok (some address)→P address := by
  have hsize := m.memoryMapBlocks.length_elements
  have hlast := m.memoryMapBlocks.last_eq_ok
  unfold Offers findAddress
  generalize m.memoryMapBlocks.elements=blocks at *
  match blocks with
  | [] =>
    have hzero : m.memoryMapBlocks.size=0 := hsize.symm
    simp only [searchGaps,hzero,if_true,gt_iff_lt]
    split
    case isTrue h =>
      have hn : ¬size ≤ m.size-4096 := BitVec.not_le.mpr h
      exact ⟨fun _ _ he => (by cases he),fun _ hle => absurd hle hn⟩
    case isFalse h =>
      have hn : size ≤ m.size-4096 := BitVec.not_lt.mp h
      exact ⟨fun hP _ he => (by cases he; exact hP hn),fun hP _ => hP _ rfl⟩
  | first::rest =>
    have hpos : m.memoryMapBlocks.size≠0 := by rw [←hsize]; simp
    simp only [searchGaps_start]
    by_cases hgap : first.virtualAddress>4096 ∧ size<first.virtualAddress-4096
    · simp only [if_pos hgap]
      exact ⟨fun hP _ he => (by cases he; exact hP),fun hP => hP _ rfl⟩
    · simp only [if_neg hgap,firstGap_iff]
      cases searchGaps size false (first::rest) with
      | some address =>
        exact ⟨fun hP _ he => (by cases he; exact hP),fun hP => hP _ rfl⟩
      | none =>
        simp only [if_neg hpos,hlast (by simp),bind,Except.bind,ge_iff_le]
        split
        case isTrue h =>
          have hn := BitVec.not_lt.mpr h
          exact ⟨fun _ _ he => (by cases he),fun _ hlt => absurd hlt hn⟩
        case isFalse h =>
          have hn := BitVec.not_le.mp h
          exact ⟨fun hP _ he => (by cases he; exact hP hn),fun hP _ => hP _ rfl⟩

theorem findAddress_total (m : FEMemoryMap κ) (size : U32) :
    ∃found?,m.findAddress size=.ok found? := by
  unfold findAddress
  split
  · exact ⟨_,rfl⟩
  · split
    · split <;> exact ⟨_,rfl⟩
    · next hsize =>
      have hne : m.memoryMapBlocks.elements≠[] := by
        intro hnil
        exact hsize (by rw [←FEArray.length_elements,hnil]; rfl)
      simp only [m.memoryMapBlocks.last_eq_ok hne,bind,Except.bind]
      split <;> exact ⟨_,rfl⟩

theorem FirstGap.of_forall {P : U32→Prop} {size limit : U32} {blocks : List FEMemoryMapBlock}
    (h : ∀first∈blocks,∀next:U32,(next=limit ∨ ∃b∈blocks,next=b.virtualAddress)→
      roundUp (first.virtualAddress+first.size)+size<next→
      P (roundUp (first.virtualAddress+first.size))) :
    FirstGap P size limit blocks := by
  induction blocks with
  | nil => trivial
  | cons first rest ih =>
    rw [FirstGap.eq_def]
    refine ⟨?_,Or.inr (ih ?_)⟩
    · match rest with
      | [] => exact h first (by simp) limit (Or.inl rfl)
      | second::_ => exact h first (by simp) _ (Or.inr ⟨second,by simp,rfl⟩)
    · intro b hb next hnext
      refine h b (List.mem_cons_of_mem _ hb) next (hnext.imp id ?_)
      rintro ⟨c,hc,rfl⟩
      exact ⟨c,List.mem_cons_of_mem _ hc,rfl⟩

/-- A page-aligned place for `size` bytes above the first page and below `limit`. -/
structure Fits (limit : ℕ) (size address : U32) : Prop where
  aligned : address.toNat%4096=0
  low : 4096 ≤ address.toNat
  high : address.toNat+size.toNat ≤ limit

theorem fits_roundUp {block : FEMemoryMapBlock} {size : U32} {limit : ℕ}
    (hreach : 0<block.virtualAddress.toNat+block.size.toNat)
    (hno : roundedEnd block+size.toNat<2^32)
    (hfit : (roundUp (block.virtualAddress+block.size)+size).toNat ≤ limit) :
    Fits limit size (roundUp (block.virtualAddress+block.size)) := by
  have hround := toNat_roundUp block (by omega)
  have hsum : (roundUp (block.virtualAddress+block.size)+size).toNat=
    roundedEnd block+size.toNat := by
    rw [BitVec.toNat_add,hround,Nat.mod_eq_of_lt hno]
  rw [hsum] at hfit
  refine ⟨?_,?_,by omega⟩ <;> rw [hround] <;> unfold roundedEnd pageEnd <;> omega

/-- If all blocks lie below the end of the map and no sum of the gap search can wrap, the map offers
room inside it. -/
theorem WellFormed.offers_fits {m : FEMemoryMap κ} {size : U32} (h : WellFormed m)
    (hin : ∀b∈m.memoryMapBlocks.elements,b.virtualAddress.toNat+b.size.toNat ≤ m.size.toNat)
    (hno : ∀b∈m.memoryMapBlocks.elements,roundedEnd b+size.toNat<2^32)
    (hempty : m.memoryMapBlocks.elements=[]→4096 ≤ m.size.toNat) :
    m.Offers size (Fits m.size.toNat size) := by
  have hreach := h.reach
  unfold Offers
  generalize m.memoryMapBlocks.elements=blocks at *
  match blocks with
  | [] =>
    intro hfit
    have hmin := hempty rfl
    refine ⟨by decide,by decide,?_⟩
    bv_omega
  | first::rest =>
    dsimp only
    split
    case isTrue hgap =>
      obtain ⟨habove,hsize⟩ := hgap
      have hfirst := hin first (by simp)
      refine ⟨by decide,by decide,?_⟩
      bv_omega
    case isFalse =>
      apply FirstGap.of_forall
      intro b hb next hnext hlt
      have hle : next.toNat ≤ m.size.toNat := by
        rcases hnext with rfl|⟨c,hc,rfl⟩
        · exact Nat.le_refl _
        · have := hin c hc
          omega
      exact fits_roundUp (hreach b hb) (hno b hb) ((Nat.le_of_lt hlt).trans hle)

/-- A successful `fe_memoryMap_malloc` of a debug build. -/
theorem malloc_ok {m : FEMemoryMap κ} {size : U32} {mode : FEMemoryAccessMode} {tag : List Char}
    {host : HostAllocation} {result : MallocResult κ}
    (h : m.malloc .debug size mode tag host=.ok result) :
    ∃realAddress newBlock,host=⟨some realAddress,some newBlock⟩ ∧ result.released=[] ∧
      (m.clearContext newBlock).findAddress size=.ok (some result.address) ∧
      (m.clearContext newBlock).appendMemoryBlock .debug
        (mallocBlock size tag realAddress newBlock result.address) mode=.ok result.map := by
  obtain ⟨real?,new?⟩ := host
  unfold malloc at h
  match real?,new? with
  | none,_ => simp at h
  | some _,none => simp at h
  | some realAddress,some newBlock =>
    simp only at h
    obtain ⟨found,hfound,h⟩ := bind_eq_ok.mp h
    cases found with
    | none => simp at h
    | some address =>
      obtain ⟨m',happend,h⟩ := bind_eq_ok.mp h
      cases h
      exact ⟨realAddress,newBlock,rfl,rfl,hfound,happend⟩

theorem clearContext_sameBlocks (m : FEMemoryMap κ) (block : ℕ) :
    SameBlocks m (m.clearContext block) :=
  ⟨rfl,rfl,rfl,rfl,rfl⟩

theorem Offers.sameBlocks {m m' : FEMemoryMap κ} {size : U32} {P : U32→Prop} (h : m.Offers size P)
    (hs : SameBlocks m m') : m'.Offers size P := by
  unfold Offers at *
  rwa [hs.blocks,hs.size]

/-- What a successful allocation establishes, provided that the place it is offered is no defect. -/
theorem WellFormed.malloc {m : FEMemoryMap κ} {size : U32} {mode : FEMemoryAccessMode}
    {tag : List Char} {realAddress newBlock : ℕ} {result : MallocResult κ} {P : U32→Prop}
    (h : WellFormed m) (hoffer : m.Offers size P)
    (hP : ∀address,P address→0<address.toNat+size.toNat ∧ address.toNat+size.toNat≤2^32)
    (hm : m.malloc .debug size mode tag ⟨some realAddress,some newBlock⟩=.ok result) :
    WellFormed result.map ∧
      SameBlocks (m.withBlock (mallocBlock size tag realAddress newBlock result.address))
        result.map ∧
      P result.address ∧ m.Free (mallocBlock size tag realAddress newBlock result.address) := by
  obtain ⟨_,_,hhost,-,hfind,happend⟩ := malloc_ok hm
  cases hhost
  have hs := m.clearContext_sameBlocks newBlock
  have hplace : P result.address := offers_iff.mp (hoffer.sameBlocks hs) _ hfind
  obtain ⟨hreach,hno⟩ := hP _ hplace
  obtain ⟨hw',hsame,hfree⟩ := (h.sameBlocks hs).append
    (mallocBlock size tag realAddress newBlock result.address) ⟨hno,hreach⟩ happend
  exact ⟨hw',⟨hsame.size,hsame.shadow,hsame.blocks,hsame.callback,hsame.rights⟩,hplace,hfree⟩

/-- A change of rights over an empty page loop, at an address the callback can look up. -/
theorem setAccessMode_noPages {m : FEMemoryMap κ} (mode : FEMemoryAccessMode) {address size : U32}
    (hpages : shadowIndex (address+size-1) ≤ shadowIndex address)
    (hcallback : m.memoryMapAccessModeChangeCallback=true→
      shadowIndex address < m.memoryMapBlocksShadow.capacity) :
    ∃m',m.setAccessModeAtAddress mode address size=.ok m' := by
  have hzero : shadowIndex (address+size-1)-shadowIndex address=0 := by omega
  unfold setAccessModeAtAddress
  simp only [hzero,Shadow.fill,bind,Except.bind]
  split
  case isTrue hcb =>
    have hget : m.memoryMapBlocksShadow.get (shadowIndex address)
        =.ok (m.memoryMapBlocksShadow.slot (shadowIndex address)) :=
      Shadow.get_eq_ok.mpr ⟨hcallback hcb,rfl⟩
    simp only [memoryMapAccessModeChange,blockFromVirtualAddress,hget,bind,Except.bind]
    cases m.memoryMapBlocksShadow.slot (shadowIndex address) <;> exact ⟨_,rfl⟩
  case isFalse => exact ⟨_,rfl⟩

/-- A block that runs past the end of the address space takes no page at all. -/
theorem append_wrapped (build : Build) (m : FEMemoryMap κ) (block : FEMemoryMapBlock)
    (mode : FEMemoryAccessMode) (haligned : block.virtualAddress.toNat%4096=0)
    (hwrap : 2^32<block.virtualAddress.toNat+block.size.toNat) (hgrows : m.memoryMapBlocks.Grows)
    (hcallback : m.memoryMapAccessModeChangeCallback=true→
      shadowIndex block.virtualAddress < m.memoryMapBlocksShadow.capacity) :
    ∃m',m.appendMemoryBlock build block mode=.ok m' ∧
      m'.memoryMapBlocksShadow=m.memoryMapBlocksShadow ∧ block∈m'.memoryMapBlocks.elements := by
  have hlast : shadowIndex (block.size+block.virtualAddress-1)+1-shadowIndex block.virtualAddress=
    0 := by
    simp only [shadowIndex,alignment]
    bv_omega
  have hlast' : shadowIndex (block.virtualAddress+block.size-1) ≤ shadowIndex
    block.virtualAddress := by
    rw [BitVec.add_comm]
    omega
  obtain ⟨m',hset⟩ := setAccessMode_noPages (m:={ m with
    memoryMapBlocks := (m.memoryMapBlocks.appended block).mergeSort FEMemoryMapBlock.compare })
    mode hlast' hcallback
  have hsame := setAccessMode_sameBlocks hset
  refine ⟨m',?_,hsame.shadow,?_⟩
  · simp only [appendMemoryBlock,hlast,claimPages,ok_bind,hgrows.append_eq]
    exact hset
  · rw [hsame.blocks,FEArray.elements_mergeSort,FEArray.elements_appended]
    exact (List.mergeSort_perm _ _).mem_iff.mpr
      (List.mem_append_right _ (List.mem_singleton_self _))

/-- An allocation whose end wraps is returned although no page of it is mapped. -/
theorem malloc_wrapped (build : Build) {m : FEMemoryMap κ} {size address : U32}
    (mode : FEMemoryAccessMode) (tag : List Char) (realAddress newBlock : ℕ)
    (hfind : m.findAddress size=.ok (some address)) (haligned : address.toNat%4096=0)
    (hwrap : 2^32<address.toNat+size.toNat) (hgrows : m.memoryMapBlocks.Grows)
    (hcallback : m.memoryMapAccessModeChangeCallback=true→
      shadowIndex address < m.memoryMapBlocksShadow.capacity) :
    ∃m',m.malloc build size mode tag ⟨some realAddress,some newBlock⟩=.ok ⟨address,m',[]⟩ ∧
      m'.memoryMapBlocksShadow=m.memoryMapBlocksShadow ∧
      mallocBlock size tag realAddress newBlock address∈m'.memoryMapBlocks.elements := by
  obtain ⟨m',happend,hshadow,hmem⟩ := append_wrapped build (m.clearContext newBlock)
    (mallocBlock size tag realAddress newBlock address) mode haligned hwrap hgrows hcallback
  have hfind' : (m.clearContext newBlock).findAddress size=.ok (some address) := hfind
  refine ⟨m',?_,hshadow,hmem⟩
  simp only [malloc,hfind',bind,Except.bind,happend]

end Search

end FEMemoryMap
end FalloutEmu
