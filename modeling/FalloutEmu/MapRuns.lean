import FalloutEmu.MemoryMapInvariant

/-! # Runs of block mapping and allocation -/
namespace FalloutEmu.MapRuns
open FEMemoryMap (create mallocBlock WellFormed SameBlocks Fits Free roundedEnd mem_withBlock)
open FEMemoryMapBlock (OwnsPage Contains firstPage pageEnd pageEnd_eq)
variable {κ : Type}

/-- A completed call; an allocation records the host's answers and the address it returned. -/
inductive MapEvent where
  | map (block : FEMemoryMapBlock) (mode : FEMemoryAccessMode)
  | malloc (size : U32) (mode : FEMemoryAccessMode) (tag : List Char) (realAddress newBlock : ℕ)
      (address : U32)

def MapEvent.block : MapEvent→FEMemoryMapBlock
  | .map block _ => block
  | .malloc size _ tag realAddress newBlock address =>
    mallocBlock size tag realAddress newBlock address

/-- One successful call of a debug build, with arguments the map can hold. -/
def MapStep (m : FEMemoryMap κ) : MapEvent→FEMemoryMap κ→Prop
  | .map block mode,m' =>
    0<block.size.toNat ∧ block.virtualAddress.toNat+block.size.toNat ≤ m.size.toNat ∧
      m.map .debug block mode=.ok m'
  | .malloc size mode tag realAddress newBlock address,m' =>
    1 ≤ size.toNat ∧ size.toNat ≤ m.size.toNat ∧
      m.malloc .debug size mode tag ⟨some realAddress,some newBlock⟩=.ok ⟨address,m',[]⟩

/-- What `fe_memoryMap_malloc` promises about the address it returned. -/
structure GoodAddress (m : FEMemoryMap κ) (block : FEMemoryMapBlock)
    (size address : U32) : Prop where
  aligned : address.toNat%4096=0
  aboveFirstPage : 4096 ≤ address.toNat
  insideMap : address.toNat+size.toNat ≤ m.size.toNat
  disjoint : ∀b∈m.memoryMapBlocks.elements,b≠block→
    ∀a,address.toNat ≤ a→a<address.toNat+size.toNat→¬b.Contains a

/-- The representation invariant, in the terms of the three tables of the map. -/
structure Representation (m : FEMemoryMap κ) (events : List MapEvent) : Prop where
  sorted : m.memoryMapBlocks.elements.Pairwise fun b c => b.virtualAddress<c.virtualAddress
  complete : m.memoryMapBlocks.elements.Perm (events.map MapEvent.block)
  once : (events.map MapEvent.block).Nodup
  disjointPages : ∀b∈m.memoryMapBlocks.elements,∀c∈m.memoryMapBlocks.elements,b≠c→
    ∀p,¬((b.virtualAddress.toNat/4096 ≤ p ∧ p≤(b.virtualAddress.toNat+b.size.toNat-1)/4096) ∧
      (c.virtualAddress.toNat/4096 ≤ p ∧ p≤(c.virtualAddress.toNat+c.size.toNat-1)/4096))
  shadow : ∀p b,m.memoryMapBlocksShadow.slot p=some b ↔ b∈m.memoryMapBlocks.elements ∧
    b.virtualAddress.toNat/4096 ≤ p ∧ p≤(b.virtualAddress.toNat+b.size.toNat-1)/4096
  returned : ∀size mode tag realAddress newBlock address,
    .malloc size mode tag realAddress newBlock address∈events→
      GoodAddress m (mallocBlock size tag realAddress newBlock address) size address

structure RunInvariant (events : List MapEvent) (m : FEMemoryMap κ) : Prop where
  size : m.size=0x40000000
  wellFormed : WellFormed m
  complete : m.memoryMapBlocks.elements.Perm (events.map MapEvent.block)
  once : (events.map MapEvent.block).Nodup
  inside : ∀b∈m.memoryMapBlocks.elements,b.virtualAddress.toNat+b.size.toNat ≤ m.size.toNat
  positive : ∀b∈m.memoryMapBlocks.elements,0<b.size.toNat
  returned : ∀size mode tag realAddress newBlock address,
    .malloc size mode tag realAddress newBlock address∈events→Fits m.size.toNat size address

theorem runInvariant_start : RunInvariant [] (create 0x40000000 : FEMemoryMap κ) where
  size := rfl
  wellFormed := .create _
  complete := .nil
  once := .nil
  inside := by simp [create]
  positive := by simp [create]
  returned := by simp

theorem RunInvariant.offers {events : List MapEvent} {m : FEMemoryMap κ} (h : RunInvariant events m)
    {size : U32} (hs : size.toNat ≤ m.size.toNat) : m.Offers size (Fits m.size.toNat size) := by
  have hsize : m.size.toNat=0x40000000 := by rw [h.size]; rfl
  refine h.wellFormed.offers_fits h.inside ?_ (fun _ => by omega)
  intro b hb
  have hin := h.inside b hb
  unfold roundedEnd pageEnd
  omega

/-- A block of positive size that took free pages is new. -/
private theorem not_mem_of_free {m : FEMemoryMap κ} (h : WellFormed m) {block : FEMemoryMapBlock}
    (hpos : 0<block.size.toNat) (hfree : m.Free block) : block∉m.memoryMapBlocks.elements := by
  intro hmem
  have hown : block.OwnsPage block.firstPage := by
    unfold OwnsPage firstPage pageEnd
    omega
  have hslot := (h.owner _ block).mpr ⟨hmem,hown⟩
  rw [(hfree _ hown).2] at hslot
  cases hslot

/-- The part of a step that mapping and allocation share. -/
private theorem RunInvariant.add {events : List MapEvent} {m m' : FEMemoryMap κ} {event : MapEvent}
    (h : RunInvariant events m) (hw : WellFormed m')
    (hsame : SameBlocks (m.withBlock event.block) m') (hpos : 0<event.block.size.toNat)
    (hfree : m.Free event.block)
    (hin : event.block.virtualAddress.toNat+event.block.size.toNat ≤ m.size.toNat)
    (hret : ∀size mode tag realAddress newBlock address,
      event=.malloc size mode tag realAddress newBlock address→Fits m.size.toNat size address) :
    RunInvariant (events++[event]) m' := by
  have hnew := not_mem_of_free h.wellFormed hpos hfree
  have hsize : m'.size=m.size := hsame.size
  refine ⟨hsize.trans h.size,hw,?_,?_,?_,?_,?_⟩
  · rw [hsame.blocks,List.map_append]
    exact (m.withBlock_perm _).trans (h.complete.append_right _)
  · rw [List.map_append,List.nodup_append]
    refine ⟨h.once,List.nodup_singleton _,?_⟩
    intro b hb c hc
    rw [List.map_singleton,List.mem_singleton] at hc
    rintro rfl
    exact hnew (hc ▸ h.complete.mem_iff.mpr hb)
  · intro b hb
    rw [hsame.blocks] at hb
    rw [hsize]
    rcases mem_withBlock.mp hb with hb|rfl
    · exact h.inside b hb
    · exact hin
  · intro b hb
    rw [hsame.blocks] at hb
    rcases mem_withBlock.mp hb with hb|rfl
    · exact h.positive b hb
    · exact hpos
  · intro size mode tag realAddress newBlock address hmem
    rw [hsize]
    rcases List.mem_append.mp hmem with hmem|hmem
    · exact h.returned _ _ _ _ _ _ hmem
    · exact hret _ _ _ _ _ _ (List.mem_singleton.mp hmem).symm

theorem runInvariant_step (events : List MapEvent) (m : FEMemoryMap κ) (event : MapEvent)
    (m' : FEMemoryMap κ) (h : RunInvariant events m) (hstep : MapStep m event m') :
    RunInvariant (events++[event]) m' := by
  cases event with
  | map block mode =>
    obtain ⟨hpos,hin,hmap⟩ := hstep
    have hlt := m.size.isLt
    obtain ⟨hw,hsame,hfree⟩ := h.wellFormed.append block ⟨by omega,by omega⟩ hmap
    exact h.add hw hsame hpos hfree hin (by simp)
  | malloc size mode tag realAddress newBlock address =>
    obtain ⟨hpos,hle,hmalloc⟩ := hstep
    have hlt := m.size.isLt
    obtain ⟨hw,hsame,hfits,hfree⟩ := h.wellFormed.malloc (h.offers hle)
      (fun a hfits => ⟨by have := hfits.low; omega,by have := hfits.high; omega⟩) hmalloc
    refine h.add hw hsame hpos hfree hfits.high ?_
    intro _ _ _ _ _ _ he
    cases he
    exact hfits

theorem RunInvariant.representation {events : List MapEvent} {m : FEMemoryMap κ}
    (h : RunInvariant events m) : Representation m events := by
  have hpages : ∀b∈m.memoryMapBlocks.elements,∀p,b.OwnsPage p ↔
      b.virtualAddress.toNat/4096 ≤ p ∧ p≤(b.virtualAddress.toNat+b.size.toNat-1)/4096 := by
    intro b hb p
    rw [OwnsPage,pageEnd_eq (h.positive b hb),Nat.lt_succ_iff]
    rfl
  refine ⟨?_,h.complete,h.once,?_,?_,?_⟩
  · have hnodup := h.complete.nodup_iff.mpr h.once
    refine (h.wellFormed.sorted.and hnodup).imp_of_mem ?_
    rintro b c hb hc ⟨hle,hne⟩
    -- equal addresses would make both blocks own the same first page
    refine BitVec.lt_def.mpr (Nat.lt_of_le_of_ne hle fun heq => hne ?_)
    have hbp := h.positive b hb
    have hcp := h.positive c hc
    refine h.wellFormed.disjoint (a:=b.virtualAddress.toNat) hb hc ?_ ?_ <;>
      unfold Contains <;> omega
  · rintro b hb c hc hne p ⟨hbp,hcp⟩
    exact hne (h.wellFormed.owner_unique hb hc ((hpages b hb p).mpr hbp) ((hpages c hc p).mpr hcp))
  · intro p b
    rw [h.wellFormed.owner]
    constructor <;> rintro ⟨hb,hp⟩
    · exact ⟨hb,(hpages b hb p).mp hp⟩
    · exact ⟨hb,(hpages b hb p).mpr hp⟩
  · intro size mode tag realAddress newBlock address hmem
    obtain ⟨haligned,hlow,hhigh⟩ := h.returned _ _ _ _ _ _ hmem
    have hblock := h.complete.mem_iff.mpr (List.mem_map_of_mem (f:=MapEvent.block) hmem)
    refine ⟨haligned,hlow,hhigh,?_⟩
    intro b hb hne a ha₁ ha₂ hba
    exact hne (h.wellFormed.disjoint hb hblock hba ⟨ha₁,ha₂⟩)

/-- In a map of 1 GiB the three tables agree after every run of mapping and allocation. -/
theorem memoryMap_representation {events : List MapEvent} {m : FEMemoryMap κ}
    (h : Runs MapStep (create 0x40000000) events m) : Representation m events :=
  (h.history runInvariant_start runInvariant_step).representation

def imageBlock : FEMemoryMapBlock := ⟨2,0x401000,0x401800,0x800,0x20000,true,".text".toList⟩

theorem memoryMap_representation_image : ∃m : FEMemoryMap Unit,
    Runs MapStep (create 0x40000000)
      [.malloc 0x1800 .readWrite ".stack".toList 0x10000 1 0x1000,.map imageBlock .readWrite] m ∧
    Representation m
      [.malloc 0x1800 .readWrite ".stack".toList 0x10000 1 0x1000,.map imageBlock .readWrite] := by
  have hrun : Runs MapStep (create 0x40000000 : FEMemoryMap Unit)
      [.malloc 0x1800 .readWrite ".stack".toList 0x10000 1 0x1000,.map imageBlock .readWrite] _ :=
    .next (.next .start ⟨by decide,by decide,rfl⟩) ⟨by decide,by decide,rfl⟩
  exact ⟨_,hrun,memoryMap_representation hrun⟩

end FalloutEmu.MapRuns
