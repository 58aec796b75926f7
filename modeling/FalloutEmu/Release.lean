import FalloutEmu.ByteStore
import FalloutEmu.MapRuns
import FalloutEmu.Stack

/-! # What a release of memory gives back -/
namespace FalloutEmu.Release
open FEMemoryMap (create mallocBlock WellFormed SameBlocks withBlock mem_withBlock)
open FEMemoryMapBlock (OwnsPage)
variable {κ : Type} {build : Build} {m m' : FEMemoryMap κ}

/-- Memory that the program allocates: a region of `VirtualAlloc` or `Lock`, or a thread's stack. -/
inductive Allocation where
  | region (block : FEMemoryMapBlock)
  | stack (threadStack : FEStack) (block : FEMemoryMapBlock)
  deriving DecidableEq

namespace Allocation

def block : Allocation→FEMemoryMapBlock
  | region block => block
  | stack _ block => block

/-- `VirtualFree` and `Unlock` free the base of a region; a thread releases its stack. -/
def release (m : FEMemoryMap κ) : Allocation→Except Stop (FEMemoryMap κ)
  | region block => m.free block.virtualAddress
  | stack threadStack _ => threadStack.release m

end Allocation

section Runs

inductive HeapEvent where
  | map (block : FEMemoryMapBlock) (mode : FEMemoryAccessMode)
  | allocate (size : U32) (mode : FEMemoryAccessMode) (tag : List Char) (realAddress newBlock : ℕ)
    (address : U32)
  | createStack (size : U32) (realAddress newBlock : ℕ) (stack : FEStack)
  | setAccessMode (mode : FEMemoryAccessMode) (address size : U32)
  | release (allocation : Allocation)

def HeapEvent.live (allocations : List Allocation) : HeapEvent→List Allocation
  | allocate size _ tag realAddress newBlock address =>
    .region (mallocBlock size tag realAddress newBlock address)::allocations
  | createStack size realAddress newBlock stack =>
    .stack stack (mallocBlock size ".stack".toList realAddress newBlock stack.start)::allocations
  | release allocation => allocations.erase allocation
  | _ => allocations

structure Heap (κ : Type) where
  map : FEMemoryMap κ
  live : List Allocation

def HeapStep (build : Build) (heap : Heap κ) (event : HeapEvent) (heap' : Heap κ) : Prop :=
  heap'.live=event.live heap.live ∧
  match event with
  | .map block mode => heap.map.map build block mode=.ok heap'.map
  | .allocate size mode tag realAddress newBlock address =>
    heap.map.malloc build size mode tag ⟨some realAddress,some newBlock⟩=.ok ⟨address,heap'.map,[]⟩
  | .createStack size realAddress newBlock stack =>
    FEStack.create build heap.map size ⟨some realAddress,some newBlock⟩=.ok (stack,heap'.map) ∧
      heap.map.malloc build size .readWrite ".stack".toList ⟨some realAddress,some newBlock⟩=
        .ok ⟨stack.start,heap'.map,[]⟩
  | .setAccessMode mode address size => heap.map.setAccessModeAtAddress mode address size=
    .ok heap'.map
  | .release allocation => allocation∈heap.live ∧ allocation.release heap.map=.ok heap'.map

def start (size : U32) : Heap κ := ⟨create size,[]⟩

structure Releases (m : FEMemoryMap κ) (allocation : Allocation) (m' : FEMemoryMap κ) : Prop where
  returns : allocation.release m=.ok m'
  unmapped : ∀p,allocation.block.OwnsPage p→m'.memoryMapBlocksShadow.slot p=none
  forgotten : allocation.block∉m'.memoryMapBlocks.elements
  others : ∀b∈m.memoryMapBlocks.elements,b≠allocation.block→∀p,b.OwnsPage p→
    m'.memoryMapBlocksShadow.slot p=m.memoryMapBlocksShadow.slot p

/-- `fe_memoryMap_free` takes one page from its owner and leaves the list of blocks. -/
theorem free_ok {address : U32} (h : m.free address=.ok m') :
    m'.memoryMapBlocks=m.memoryMapBlocks ∧ ∀p,m'.memoryMapBlocksShadow.slot p=
      if p=shadowIndex address then none else m.memoryMapBlocksShadow.slot p := by
  obtain ⟨shadow,hshadow,h⟩ := bind_eq_ok.mp h
  obtain ⟨_,rfl⟩ := Shadow.set_eq_ok.mp hshadow
  cases h
  exact ⟨rfl,fun _ => rfl⟩

/-- The address that a release hands to `fe_memoryMap_free`. -/
def Allocation.freed : Allocation→U32
  | region block => block.virtualAddress
  | stack threadStack _ => threadStack.base

theorem Allocation.release_eq (m : FEMemoryMap κ) (allocation : Allocation) :
    allocation.release m=m.free allocation.freed := by
  cases allocation <;> rfl

/-- `_fe_memory_map_appendMemoryBlock` adds its block to the list. -/
theorem append_blocks {block : FEMemoryMapBlock} {mode : FEMemoryAccessMode}
    (h : m.appendMemoryBlock build block mode=.ok m') :
    m'.memoryMapBlocks.elements.Perm (m.memoryMapBlocks.elements++[block]) := by
  obtain ⟨shadow,_,h⟩ := bind_eq_ok.mp h
  obtain ⟨blocks,hblocks,h⟩ := bind_eq_ok.mp h
  obtain ⟨_,rfl⟩ := FEArray.append_eq_ok.mp hblocks
  rw [(FEMemoryMap.setAccessMode_sameBlocks h).blocks]
  simpa using List.mergeSort_perm _ _

theorem malloc_blocks {size address : U32} {mode : FEMemoryAccessMode} {tag : List Char}
    {realAddress newBlock : ℕ} (h : m.malloc build size mode tag ⟨some realAddress,some newBlock⟩=
      .ok ⟨address,m',[]⟩) :
    m'.memoryMapBlocks.elements.Perm
      (m.memoryMapBlocks.elements++[mallocBlock size tag realAddress newBlock address]) := by
  simp only [FEMemoryMap.malloc] at h
  obtain ⟨found,_,h⟩ := bind_eq_ok.mp h
  cases found with
  | some address' =>
    obtain ⟨m₁,happend,h⟩ := bind_eq_ok.mp h
    cases h
    have hblocks := append_blocks happend
    exact hblocks
  | none =>
    obtain ⟨_,_,h⟩ := bind_eq_ok.mp h
    cases h

/-- The block of every live allocation is in the list. -/
def Listed (heap : Heap κ) : Prop := ∀a∈heap.live,a.block∈heap.map.memoryMapBlocks.elements

theorem listed_step (heap : Heap κ) (event : HeapEvent) (heap' : Heap κ) (h : Listed heap)
    (hstep : HeapStep build heap event heap') : Listed heap' := by
  obtain ⟨hlive,hstep⟩ := hstep
  intro a ha
  rw [hlive] at ha
  cases event with
  | map block mode =>
    rw [(append_blocks hstep).mem_iff]
    exact List.mem_append_left _ (h a ha)
  | allocate size mode tag realAddress newBlock address =>
    rw [(malloc_blocks hstep).mem_iff]
    rcases List.mem_cons.mp ha with rfl | ha
    · exact List.mem_append_right _ (by simp [Allocation.block])
    · exact List.mem_append_left _ (h a ha)
  | createStack size realAddress newBlock stack =>
    rw [(malloc_blocks hstep.2).mem_iff]
    rcases List.mem_cons.mp ha with rfl | ha
    · exact List.mem_append_right _ (by simp [Allocation.block])
    · exact List.mem_append_left _ (h a ha)
  | setAccessMode mode address size =>
    rw [(FEMemoryMap.setAccessMode_sameBlocks hstep).blocks]
    exact h a ha
  | release allocation =>
    obtain ⟨_,hrelease⟩ := hstep
    rw [Allocation.release_eq] at hrelease
    rw [(free_ok hrelease).1]
    exact h a (List.mem_of_mem_erase ha)

theorem listed_run {size : U32} {events : List HeapEvent} {heap : Heap κ}
    (h : Runs (HeapStep build) (start size) events heap) : Listed heap :=
  h.invariant (I:=Listed) (fun _ ha => by cases ha) listed_step

/-- Every release leaves the block of its allocation in the list. -/
theorem not_releases {heap : Heap κ} (h : Listed heap) {allocation : Allocation}
    (hlive : allocation∈heap.live) :
    ¬Releases heap.map allocation m' := by
  intro hreleases
  have hreturns := hreleases.returns
  rw [Allocation.release_eq] at hreturns
  exact hreleases.forgotten ((free_ok hreturns).1 ▸ h allocation hlive)

end Runs

section Packed
open Intervals (Before Apart)
open FEMemoryMap (Fits FirstGap roundedEnd)

def startOf (block : FEMemoryMapBlock) : ℕ := block.virtualAddress.toNat

def sizeOf (block : FEMemoryMapBlock) : ℕ := block.size.toNat

/-- The blocks in the list lie one behind the other in a map of 1 GiB, whatever their pages say. -/
structure Packed (m : FEMemoryMap κ) : Prop where
  size : m.size=0x40000000
  sorted : m.memoryMapBlocks.elements.Pairwise fun b c => startOf b ≤ startOf c
  disjoint : m.memoryMapBlocks.elements.Pairwise (Apart startOf sizeOf)
  positive : ∀b∈m.memoryMapBlocks.elements,0<sizeOf b
  inside : ∀b∈m.memoryMapBlocks.elements,startOf b+sizeOf b≤0x40000000

def total (m : FEMemoryMap κ) : ℕ := (m.memoryMapBlocks.elements.map sizeOf).sum

theorem Packed.before (h : Packed m) :
    m.memoryMapBlocks.elements.Pairwise (Before startOf sizeOf) :=
  Intervals.pairwise_before h.sorted h.disjoint h.positive

theorem Packed.total_le (h : Packed m) : total m≤0x40000000 := by
  have hroom := Intervals.sum_size_le h.before (Nat.zero_le 0x40000000)
    (fun _ _ => Nat.zero_le _) h.inside
  rwa [Nat.zero_add] at hroom

/-- Maps that are built without a release are packed. -/
theorem packed_of_run {events : List MapRuns.MapEvent}
    (h : Runs MapRuns.MapStep (create 0x40000000) events m) :
    Packed m := by
  have hrun := h.history MapRuns.runInvariant_start MapRuns.runInvariant_step
  have hsize : m.size.toNat=0x40000000 := by
    rw [hrun.size]
    rfl
  refine ⟨hrun.size,hrun.wellFormed.sorted,?_,hrun.positive,fun b hb => hsize ▸ hrun.inside b hb⟩
  refine (hrun.complete.nodup_iff.mpr hrun.once).pairwise_of_forall_ne ?_
  intro b hb c hc hne
  have hbpos := hrun.positive b hb
  have hcpos := hrun.positive c hc
  unfold Apart Before startOf sizeOf
  by_contra hmeet
  rw [not_or] at hmeet
  -- the higher of the two starts lies in both
  rcases Nat.le_total b.virtualAddress.toNat c.virtualAddress.toNat with hle | hle
  · exact hne (hrun.wellFormed.disjoint (a:=c.virtualAddress.toNat) hb hc ⟨hle,by omega⟩
      ⟨le_rfl,by omega⟩)
  · exact hne (hrun.wellFormed.disjoint (a:=b.virtualAddress.toNat) hb hc ⟨le_rfl,by omega⟩
      ⟨hle,by omega⟩)

/-- A place for `size` bytes inside the map that meets none of the blocks. -/
def Spare (blocks : List FEMemoryMapBlock) (size address : U32) : Prop :=
  Fits 0x40000000 size address ∧
    ∀b∈blocks,startOf b+sizeOf b ≤ address.toNat ∨ address.toNat+size.toNat ≤ startOf b

/-- The gap that the search accepts is behind the blocks before it and before those behind it. -/
theorem firstGap_spare {earlier blocks : List FEMemoryMapBlock} {size limit : U32}
    (hlimit : limit=0x40000000) (hsize : size.toNat≤0x40000000)
    (hbefore : (earlier++blocks).Pairwise (Before startOf sizeOf))
    (hpositive : ∀b∈earlier++blocks,0<sizeOf b)
    (hinside : ∀b∈earlier++blocks,startOf b+sizeOf b≤0x40000000) :
    FirstGap (Spare (earlier++blocks) size) size limit blocks := by
  induction blocks generalizing earlier with
  | nil => trivial
  | cons first rest ih =>
    have hassoc : earlier++first::rest=(earlier++[first])++rest := by simp
    unfold FirstGap
    refine ⟨?_,.inr ?_⟩
    · have hend := hinside first (by simp)
      have hpos := hpositive first (by simp)
      unfold startOf sizeOf at hend hpos
      have hrounded : first.virtualAddress.toNat+first.size.toNat ≤ roundedEnd first ∧
          roundedEnd first<first.virtualAddress.toNat+first.size.toNat+4096 := by
        unfold roundedEnd FEMemoryMapBlock.pageEnd
        omega
      have haddress := FEMemoryMap.toNat_roundUp first (by omega)
      have hsum : (roundUp (first.virtualAddress+first.size)+size).toNat=
        roundedEnd first+size.toNat := by
        rw [BitVec.toNat_add,haddress,Nat.mod_eq_of_lt (by omega)]
      have hlimit' : limit.toNat=0x40000000 := by
        rw [hlimit]
        rfl
      -- the blocks up to `first` end before the gap, and those behind it start after `next`
      have hspare : ∀next : ℕ,roundedEnd first+size.toNat<next→next≤0x40000000→
          (∀b∈rest,next ≤ startOf b)→
          Spare (earlier++first::rest) size (roundUp (first.virtualAddress+first.size)) := by
        intro next hlt hnext hrest
        refine ⟨FEMemoryMap.fits_roundUp (by omega) (by omega) (by omega),?_⟩
        intro b hb
        rw [haddress]
        rcases List.mem_append.mp hb with hb | hb
        · have hfirst : Before startOf sizeOf b first :=
            (List.pairwise_append.mp hbefore).2.2 b hb first (by simp)
          unfold Before startOf at hfirst
          exact .inl (by unfold startOf; omega)
        · rcases List.mem_cons.mp hb with rfl | hb
          · exact .inl (by unfold startOf sizeOf; omega)
          · have hnext := hrest b hb
            exact .inr (by omega)
      cases rest with
      | nil =>
        intro hlt
        have hlt' := BitVec.lt_def.mp hlt
        rw [hsum,hlimit'] at hlt'
        exact hspare 0x40000000 hlt' le_rfl (by simp)
      | cons second rest =>
        intro hlt
        have hlt' := BitVec.lt_def.mp hlt
        rw [hsum] at hlt'
        have hsecond := hinside second (by simp)
        refine hspare (startOf second) hlt' (by omega) ?_
        intro b hb
        rcases List.mem_cons.mp hb with rfl | hb
        · exact le_rfl
        · have hpair := (List.pairwise_append.mp hbefore).2.1
          rw [List.pairwise_cons,List.pairwise_cons] at hpair
          have hfollows : Before startOf sizeOf second b := hpair.2.1 b hb
          unfold Before at hfollows
          omega
    · rw [hassoc] at hbefore hpositive hinside ⊢
      exact ih hbefore hpositive hinside

theorem Packed.offers (h : Packed m) {size : U32} (hsize : size.toNat≤0x40000000) :
    m.Offers size (Spare m.memoryMapBlocks.elements size) := by
  have hbefore := h.before
  have hpositive := h.positive
  have hinside := h.inside
  unfold FEMemoryMap.Offers
  rw [h.size]
  generalize m.memoryMapBlocks.elements=blocks at *
  match blocks with
  | [] =>
    intro hfit
    refine ⟨⟨by decide,by decide,?_⟩,by simp⟩
    bv_omega
  | first::rest =>
    dsimp only
    split
    case isTrue hgap =>
      obtain ⟨habove,hbelow⟩ := hgap
      have hfirst := hinside first (by simp)
      unfold startOf at hfirst
      refine ⟨⟨by decide,by decide,by bv_omega⟩,?_⟩
      intro b hb
      have hstart : startOf first ≤ startOf b := by
        rcases List.mem_cons.mp hb with rfl | hb
        · exact le_rfl
        · have hfollows : Before startOf sizeOf first b := (List.pairwise_cons.mp hbefore).1 b hb
          unfold Before at hfollows
          omega
      unfold startOf at hstart ⊢
      exact .inr (by bv_omega)
    case isFalse =>
      have hgap : FirstGap (Spare ([]++first::rest) size) size 0x40000000 (first::rest) :=
        firstGap_spare rfl hsize hbefore hpositive hinside
      exact hgap

theorem Packed.sameList (h : Packed m) (hsize : m'.size=m.size)
    (hblocks : m'.memoryMapBlocks=m.memoryMapBlocks) :
    Packed m' where
  size := hsize.trans h.size
  sorted := by rw [hblocks]; exact h.sorted
  disjoint := by rw [hblocks]; exact h.disjoint
  positive := by rw [hblocks]; exact h.positive
  inside := by rw [hblocks]; exact h.inside

theorem Packed.withBlock (h : Packed m) {block : FEMemoryMapBlock} (hpos : 0<sizeOf block)
    (hspare : Spare m.memoryMapBlocks.elements block.size block.virtualAddress) :
    Packed (m.withBlock block) where
  size := h.size
  sorted := m.withBlock_sorted block
  disjoint := by
    refine ((m.withBlock_perm block).pairwise_iff Or.symm).mpr ?_
    rw [List.pairwise_append]
    refine ⟨h.disjoint,List.pairwise_singleton _ _,?_⟩
    intro b hb c hc
    rw [List.mem_singleton] at hc
    subst hc
    exact hspare.2 b hb
  positive b hb := by
    rcases mem_withBlock.mp hb with hb | rfl
    · exact h.positive b hb
    · exact hpos
  inside b hb := by
    rcases mem_withBlock.mp hb with hb | rfl
    · exact h.inside b hb
    · exact hspare.1.high

end Packed

section Alternation
open FEMemoryMap (malloc_ok appendMemoryBlock_ok offers_iff setAccessMode_sameBlocks Placeable)
variable {size address : U32} {mode : FEMemoryAccessMode} {tag : List Char}

/-- A successful allocation takes its bytes from those that are left. -/
theorem Packed.malloc (h : Packed m) (hpos : 0<size.toNat) (hsize : size.toNat≤0x40000000)
    {realAddress newBlock : ℕ}
    (hm : m.malloc .debug size mode tag ⟨some realAddress,some newBlock⟩=.ok ⟨address,m',[]⟩) :
    Packed m' ∧ total m'=total m+size.toNat ∧
    shadowIndex address < m'.memoryMapBlocksShadow.capacity := by
  have htotal : total m'=total m+size.toNat := by
    have hsum := ((malloc_blocks hm).map sizeOf).sum_eq
    rw [List.map_append,List.sum_append] at hsum
    exact hsum
  obtain ⟨_,_,hhost,-,hfind,happend⟩ := malloc_ok hm
  cases hhost
  have hclear : Packed (m.clearContext newBlock) := h.sameList rfl rfl
  have hspare : Spare m.memoryMapBlocks.elements size address :=
    offers_iff.mp (hclear.offers hsize) _ hfind
  have hhigh := hspare.1.high
  have hplace : Placeable (mallocBlock size tag realAddress newBlock address) := by
    refine ⟨?_,?_⟩
    · show address.toNat+size.toNat≤2^32
      omega
    · show 0<address.toNat+size.toNat
      omega
  obtain ⟨hfree,hset⟩ := appendMemoryBlock_ok hplace happend
  have hsame := setAccessMode_sameBlocks hset
  have hadded : Packed ((m.clearContext newBlock).withBlock (mallocBlock size tag realAddress
    newBlock address)) :=
    hclear.withBlock hpos hspare
  refine ⟨hadded.sameList hsame.size hsame.blocks,htotal,?_⟩
  have hown : (mallocBlock size tag realAddress newBlock address).OwnsPage
    (shadowIndex address) := by
    refine ⟨le_rfl,?_⟩
    show address.toNat/4096<(address.toNat+size.toNat+4095)/4096
    omega
  have hcapacity : m'.memoryMapBlocksShadow.capacity=m.memoryMapBlocksShadow.capacity := by
    rw [hsame.shadow]
    rfl
  rw [hcapacity]
  exact (hfree _ hown).1

/-- Allocations of one size, each of them freed before the next. -/
inductive Alternates (size : U32) (mode : FEMemoryAccessMode) (tag : List Char)
    (m : FEMemoryMap κ) :
    ℕ→FEMemoryMap κ→Prop
  | start : Alternates size mode tag m 0 m
  | next {n realAddress newBlock : ℕ} {m₁ m₂ m₃ : FEMemoryMap κ} {address : U32} :
    Alternates size mode tag m n m₁→
    m₁.malloc .debug size mode tag ⟨some realAddress,some newBlock⟩=.ok ⟨address,m₂,[]⟩→
    m₂.free address=.ok m₃→Alternates size mode tag m (n+1) m₃

/-- After the first, every allocation of such a run returns. -/
def NeverFails (size : U32) (mode : FEMemoryAccessMode) (tag : List Char)
    (m : FEMemoryMap κ) : Prop :=
  ∀n m₁,Alternates size mode tag m (n+1) m₁→∀realAddress newBlock,∃address m₂,
    m₁.malloc .debug size mode tag ⟨some realAddress,some newBlock⟩=.ok ⟨address,m₂,[]⟩

theorem Packed.free (h : Packed m) (hfree : m.free address=.ok m') :
    Packed m' ∧ total m'=total m := by
  have hsize : m'.size=m.size := by
    obtain ⟨_,_,h⟩ := bind_eq_ok.mp hfree
    cases h
    rfl
  have hblocks := (free_ok hfree).1
  exact ⟨h.sameList hsize hblocks,by rw [total,total,hblocks]⟩

theorem Alternates.total_eq (h : Packed m) (hpos : 0<size.toNat) (hsize : size.toNat≤0x40000000)
    {n : ℕ} (hrun : Alternates size mode tag m n m') :
    Packed m' ∧ total m'=total m+n*size.toNat := by
  induction hrun with
  | start => exact ⟨h,by simp⟩
  | next _ hmalloc hfree ih =>
    obtain ⟨hpacked,htotal⟩ := ih
    obtain ⟨hpacked₂,htotal₂,_⟩ := hpacked.malloc hpos hsize hmalloc
    obtain ⟨hpacked₃,htotal₃⟩ := hpacked₂.free hfree
    refine ⟨hpacked₃,?_⟩
    rw [htotal₃,htotal₂,htotal,Nat.succ_mul,Nat.add_assoc]

/-- If no allocation failed, the run could go on for ever. -/
theorem NeverFails.alternates (hnever : NeverFails size mode tag m) (h : Packed m)
    (hpos : 0<size.toNat) (hsize : size.toNat≤0x40000000)
    (hfirst : ∃m₁,Alternates size mode tag m 1 m₁) (n : ℕ) :
    ∃m₁,Alternates size mode tag m (n+1) m₁ := by
  induction n with
  | zero => exact hfirst
  | succ n ih =>
    obtain ⟨m₁,hrun⟩ := ih
    obtain ⟨address,m₂,hmalloc⟩ := hnever n m₁ hrun 0 0
    obtain ⟨_,_,hpage⟩ := (hrun.total_eq h hpos hsize).1.malloc hpos hsize hmalloc
    have hfree : m₂.free address=.ok { m₂ with memoryMapBlocksShadow :=
        { m₂.memoryMapBlocksShadow with
          slot := fun p => if p=shadowIndex address then none
            else m₂.memoryMapBlocksShadow.slot p } } := by
      rw [FEMemoryMap.free,Shadow.set_eq_ok.mpr ⟨hpage,rfl⟩]
      rfl
    exact ⟨_,hrun.next hmalloc hfree⟩

theorem not_neverFails (h : Packed m) (hpos : 0<size.toNat) (hsize : size.toNat≤0x40000000)
    (hfirst : ∃m₁,Alternates size mode tag m 1 m₁) : ¬NeverFails size mode tag m := by
  intro hnever
  obtain ⟨m₁,hrun⟩ := hnever.alternates h hpos hsize hfirst 0x40000000
  obtain ⟨hpacked,htotal⟩ := hrun.total_eq h hpos hsize
  have hroom := hpacked.total_le
  have hmany : 0x40000001 ≤ (0x40000000+1)*size.toNat := Nat.le_mul_of_pos_right _ hpos
  omega

end Alternation

/-- No release frees its allocation: the block stays in the list in every run. And no allocation of
a size that the map has can be repeated for ever, however often it is freed. -/
theorem release_frees_nothing {start : U32} {events : List HeapEvent} {heap : Heap κ}
    (h : Runs (HeapStep build) (Release.start start) events heap) {allocation : Allocation}
    (hlive : allocation∈heap.live) :
    (¬∃m',Releases heap.map allocation m') ∧
    ∀(events : List MapRuns.MapEvent) (m : FEMemoryMap κ),
    Runs MapRuns.MapStep (create 0x40000000) events m→
      ∀(size : U32) (mode : FEMemoryAccessMode) (tag : List Char),0<size.toNat→
      size.toNat≤0x40000000→
        (∃m₁,Alternates size mode tag m 1 m₁)→¬NeverFails size mode tag m := by
  constructor
  · rintro ⟨m',hreleases⟩
    exact not_releases (listed_run h) hlive hreleases
  · intro events m hrun size mode tag hpos hsize hfirst
    exact not_neverFails (packed_of_run hrun) hpos hsize hfirst

def twoPages : HeapEvent := .allocate 0x2000 .readWrite [] 0x10000 1 0x1000

theorem twoPages_run : ∃heap : Heap Unit,Runs (HeapStep .debug) (start 0x40000000) [twoPages] heap ∧
    .region (mallocBlock 0x2000 [] 0x10000 1 0x1000)∈heap.live ∧
    ∃m',(Allocation.region (mallocBlock 0x2000 [] 0x10000 1 0x1000)).release heap.map=.ok m' ∧
      m'.memoryMapBlocksShadow.slot 2≠none :=
  ⟨⟨_,_⟩,.next .start ⟨rfl,rfl⟩,List.mem_singleton_self _,_,rfl,by decide⟩

/-- The pages are not released, and two pages cannot be had and freed for ever. -/
theorem release_frees_nothing_twoPages : ∃heap : Heap Unit,
    .region (mallocBlock 0x2000 [] 0x10000 1 0x1000)∈heap.live ∧
      (¬∃m',Releases heap.map (.region (mallocBlock 0x2000 [] 0x10000 1 0x1000)) m') ∧
      (∃m,Alternates 0x2000 .readWrite [] (create 0x40000000 : FEMemoryMap Unit) 1 m) ∧
      ¬NeverFails 0x2000 .readWrite [] (create 0x40000000 : FEMemoryMap Unit) := by
  obtain ⟨heap,hrun,hlive,_⟩ := twoPages_run
  obtain ⟨hreleases,halternates⟩ := release_frees_nothing hrun hlive
  have hmalloc : (create 0x40000000 : FEMemoryMap Unit).malloc .debug 0x2000 .readWrite []
    ⟨some 0x10000,some 1⟩=
      .ok ⟨0x1000,_,[]⟩ := rfl
  have hfirst : ∃m,Alternates 0x2000 .readWrite [] (create 0x40000000 : FEMemoryMap Unit) 1 m :=
    ⟨_,.next .start hmalloc rfl⟩
  exact ⟨heap,hlive,hreleases,hfirst,halternates [] _ .start _ _ _ (by decide) (by decide) hfirst⟩

/-- After the release of two pages the second one is still mapped. -/
theorem release_keeps_page : ¬∀(events : List HeapEvent) (heap : Heap Unit),
    Runs (HeapStep .debug) (start 0x40000000) events heap→
      ∀allocation∈heap.live,∃m',Releases heap.map allocation m' := by
  intro hreleases
  obtain ⟨heap,hrun,hlive,m',hm',hmapped⟩ := twoPages_run
  obtain ⟨m'',hreturns,hunmapped,-,-⟩ := hreleases _ heap hrun _ hlive
  cases hm'.symm.trans hreturns
  exact hmapped (hunmapped 2 ⟨by decide,by decide⟩)

end FalloutEmu.Release
