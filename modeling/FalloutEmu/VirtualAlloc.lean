import FalloutEmu.MemoryMapInvariant
import FalloutEmu.Runs

/-! # `VirtualAlloc`: where the guest's allocations are placed -/
namespace FalloutEmu.VirtualAlloc
open FEMemoryMap (create mallocBlock SameBlocks Offers Fits Placeable Free claimPages mem_withBlock)
open FEMemoryMapBlock (OwnsPage)
variable {κ : Type}

/-- The memory map of a process and the static counter of `fe_VirtualAlloc`. -/
structure AllocState (κ : Type) where
  map : FEMemoryMap κ
  calls : U32

structure VirtualAllocArgs where
  lpAddress : U32
  dwSize : U32
  flAllocationType : U32
  flProtect : U32
  deriving DecidableEq,Repr

def allocTag (eip : U32) : List Char := "VirtualAlloc from 0x".toList++Nat.toDigits 16 eip.toNat

/-- `fe_VirtualAlloc` on its four arguments, in a build with assertions: the first call maps at a
fixed address, later calls use the gap search. -/
def virtualAlloc (s : AllocState κ) (args : VirtualAllocArgs) (eip : U32) (host : HostAllocation) :
    Except Stop (U32×AllocState κ) := do
  assertThat .debug (args.lpAddress=0)
  assertThat .debug (args.flProtect=0x40)
  assertThat .debug (args.flAllocationType=0x1000)
  assertThat .debug (args.dwSize≠0)
  if s.calls≠0 then
    let result ← s.map.malloc .debug args.dwSize .readWrite (allocTag eip) host
    .ok (result.address,⟨result.map,s.calls+1⟩)
  else
    match host.newBlock with
    | none => .error .nullBlock
    | some newBlock =>
      let block := mallocBlock args.dwSize (allocTag eip)
        (host.realAddress.getD 0) newBlock 0x3f0000
      let map ← (s.map.clearContext newBlock).map .debug block .readWrite
      .ok (0x3f0000,⟨map,s.calls+1⟩)

/-- The call stops at an assertion, or its whole range lies in the map, was free and is now owned by
one block. -/
def AllocationGood (m : FEMemoryMap κ) (dwSize : U32) : Except Stop (U32×AllocState κ)→Prop
  | .error stop => stop=.assertion
  | .ok (base,s) => base.toNat+dwSize.toNat ≤ m.size.toNat ∧
    ∃block∈s.map.memoryMapBlocks.elements,block.virtualAddress=base ∧ block.size=dwSize ∧
      ∀p,base.toNat/4096 ≤ p→p≤(base.toNat+dwSize.toNat-1)/4096→
        s.map.memoryMapBlocksShadow.slot p=some block ∧ m.memoryMapBlocksShadow.slot p=none

/-- A range at `address` lies in the map, whose list takes one more block, or ends within the
address space and meets an owned page. -/
def PlaceGood (m : FEMemoryMap κ) (dwSize address : U32) : Prop :=
  address.toNat+dwSize.toNat ≤ m.size.toNat ∧ m.memoryMapBlocks.Grows ∨
    (address.toNat+dwSize.toNat≤2^32 ∧
      ∃p,address.toNat/4096 ≤ p ∧ p≤(address.toNat+dwSize.toNat-1)/4096 ∧
        m.memoryMapBlocksShadow.slot p≠none)

/-- Where the next call would place `dwSize` bytes is no defect. -/
def CallGood (s : AllocState κ) (dwSize : U32) : Prop :=
  if s.calls=0 then PlaceGood s.map dwSize 0x3f0000 else s.map.Offers dwSize
    (PlaceGood s.map dwSize)

/-- Facts about a 1 GiB map that hold whatever was allocated, freed or reprotected. -/
structure Bounds (m : FEMemoryMap κ) : Prop where
  size : m.size=0x40000000
  pages : m.memoryMapBlocksShadow.capacity=0x40001
  rights : m.memoryMapRightsShadow.capacity=0x40001
  bounded : ∀p,m.memoryMapBlocksShadow.slot p≠none→p<0x40001
  inside : ∀b∈m.memoryMapBlocks.elements,b.virtualAddress.toNat+b.size.toNat≤0x40000000
  reach : ∀b∈m.memoryMapBlocks.elements,0<b.virtualAddress.toNat+b.size.toNat

section Placement

/-- An owned page within the range stops the loop at the assertion. -/
theorem claimPages_owned (block : FEMemoryMapBlock) {n i p : ℕ}
    {s : Shadow (Option FEMemoryMapBlock)} (hi : i ≤ p) (hp : p < i+n) (hcap : p < s.capacity)
    (howned : s.slot p≠none) :
    claimPages .debug block n i s=.error .assertion := by
  induction n generalizing i s with
  | zero => omega
  | succ n ih =>
    have hget : s.get i=.ok (s.slot i) := Shadow.get_eq_ok.mpr ⟨by omega,rfl⟩
    by_cases hfree : s.slot i=none
    · have hne : p≠i := by
        rintro rfl
        exact howned hfree
      have hset : s.set i (some block)=.ok _ := Shadow.set_eq_ok.mpr ⟨by omega,rfl⟩
      simp only [claimPages,hget,hfree,hset,bind,Except.bind,Option.isNone_none,assertThat_true]
      exact ih (by omega) (by omega) hcap (by simpa [hne] using howned)
    · have hsome : (s.slot i).isNone=false := by simpa [Option.isSome_iff_ne_none] using hfree
      simp [claimPages,hget,hsome,bind,Except.bind]

/-- Without an owned page the assertion never fails. -/
theorem claimPages_assertion {block : FEMemoryMapBlock} {n i : ℕ}
    {s : Shadow (Option FEMemoryMapBlock)} (h : claimPages .debug block n i s=.error .assertion) :
    ∃p,i ≤ p ∧ p < i+n ∧ s.slot p≠none := by
  induction n generalizing i s with
  | zero => simp [claimPages] at h
  | succ n ih =>
    by_cases hfree : s.slot i=none
    · by_cases hi : i < s.capacity
      · have hget : s.get i=.ok none := Shadow.get_eq_ok.mpr ⟨hi,hfree⟩
        have hset : s.set i (some block)=.ok _ := Shadow.set_eq_ok.mpr ⟨hi,rfl⟩
        simp only [claimPages,hget,hset,bind,Except.bind,Option.isNone_none,assertThat_true] at h
        obtain ⟨p,hp,hlt,howned⟩ := ih h
        have hne : p≠i := by omega
        exact ⟨p,by omega,by omega,by simpa [hne] using howned⟩
      · simp [claimPages,Shadow.get,hi,bind,Except.bind] at h
    · exact ⟨i,Nat.le_refl i,by omega,hfree⟩

variable {m : FEMemoryMap κ} (block : FEMemoryMapBlock) (mode : FEMemoryAccessMode)

theorem append_owned (hp : Placeable block) (hb : Bounds m) {p : ℕ} (hown : block.OwnsPage p)
    (howned : m.memoryMapBlocksShadow.slot p≠none) :
    m.appendMemoryBlock .debug block mode=.error .assertion := by
  have hcap := hb.bounded p howned
  obtain ⟨h₁,h₂⟩ := hown
  have hclaim := claimPages_owned block (i:=block.firstPage) (n:=block.pageEnd-block.firstPage)
    h₁ (by omega) (by rw [hb.pages]; exact hcap) howned
  rw [hp.append_eq,hclaim]
  rfl

theorem setAccessMode_noAssertion {address size : U32} :
    m.setAccessModeAtAddress mode address size≠.error .assertion := by
  have hget (shadow : Shadow (Option FEMemoryMapBlock)) (i : ℕ) :
    shadow.get i≠.error .assertion := by
    unfold Shadow.get
    split <;> simp
  have hfill : ∀n i,∀shadow : Shadow FEMemoryAccessMode,shadow.fill mode n i≠.error .assertion := by
    intro n
    induction n with
    | zero => simp [Shadow.fill]
    | succ n ih =>
      intro i shadow
      simp only [Shadow.fill,Shadow.set]
      split
      · exact ih _ _
      · simp [bind,Except.bind]
  intro h
  unfold FEMemoryMap.setAccessModeAtAddress at h
  dsimp only at h
  generalize hr : m.memoryMapRightsShadow.fill mode _ _=rights at h
  cases rights with
  | error stop =>
    cases h
    exact hfill _ _ _ hr
  | ok rights =>
    simp only [bind,Except.bind] at h
    split at h
    · unfold FEMemoryMap.memoryMapAccessModeChange FEMemoryMap.blockFromVirtualAddress at h
      generalize hg : Shadow.get _ _=block? at h
      cases block? with
      | error stop =>
        cases h
        exact hget _ _ hg
      | ok block? => cases block? <;> cases h
    · cases h

/-- Once the pages are claimed, no assertion follows. -/
theorem append_claimed {shadow : Shadow (Option FEMemoryMapBlock)}
    (hclaim : claimPages .debug block (shadowIndex (block.size+block.virtualAddress-1)+1-shadowIndex
      block.virtualAddress)
      (shadowIndex block.virtualAddress) m.memoryMapBlocksShadow=.ok shadow) :
    m.appendMemoryBlock .debug block mode≠.error .assertion := by
  intro h
  simp only [FEMemoryMap.appendMemoryBlock,hclaim,ok_bind] at h
  by_cases hgrows : m.memoryMapBlocks.Grows
  · rw [hgrows.append_eq,ok_bind] at h
    exact setAccessMode_noAssertion mode h
  · rw [FEArray.append,if_neg hgrows] at h
    cases h

theorem append_assertion (hp : Placeable block)
    (h : m.appendMemoryBlock .debug block mode=.error .assertion) :
    ∃p,block.OwnsPage p ∧ m.memoryMapBlocksShadow.slot p≠none := by
  cases hc : claimPages .debug block (block.pageEnd-block.firstPage) block.firstPage
    m.memoryMapBlocksShadow with
  | error stop =>
    rw [hp.append_eq,hc] at h
    cases h
    obtain ⟨p,h₁,h₂,howned⟩ := claimPages_assertion hc
    exact ⟨p,⟨by omega,by omega⟩,howned⟩
  | ok shadow => exact absurd h (append_claimed block mode (by rw [hp.pageCount]; exact hc))

/-- A block on free pages is not appended to a list that does not grow. -/
theorem append_full (hp : Placeable block) (hfull : ¬m.memoryMapBlocks.Grows) {m' : FEMemoryMap κ} :
    m.appendMemoryBlock .debug block mode≠.ok m' := by
  intro h
  rw [hp.append_eq] at h
  obtain ⟨_,_,h⟩ := bind_eq_ok.mp h
  obtain ⟨_,hblocks,_⟩ := bind_eq_ok.mp h
  exact hfull (FEArray.append_eq_ok.mp hblocks).1

/-- A block on free pages inside the map is appended. -/
theorem append_inside (hp : Placeable block) (hb : Bounds m) (hfree : m.Free block)
    (hgrows : m.memoryMapBlocks.Grows)
    (hin : block.virtualAddress.toNat+block.size.toNat≤0x40000000) :
    ∃m',m.appendMemoryBlock .debug block mode=.ok m' := by
  have hreach := hp.reach
  have hend : (block.virtualAddress+block.size-1).toNat=
    block.virtualAddress.toNat+block.size.toNat-1 := by bv_omega
  have hfirst : shadowIndex block.virtualAddress < m.memoryMapBlocksShadow.capacity := by
    rw [hb.pages,shadowIndex,alignment]
    omega
  have hlast :
      shadowIndex (block.virtualAddress+block.size-1) < m.memoryMapRightsShadow.capacity := by
    rw [hb.rights,shadowIndex,alignment,hend]
    omega
  obtain ⟨m',happend,_⟩ := hp.append_free .debug mode hfree hgrows hfirst hlast
  exact ⟨m',happend⟩

/-- Appending a block of `dwSize` bytes at a page boundary is good exactly when its place is. -/
theorem append_good {s : FEMemoryMap κ→AllocState κ} (hs : ∀m,(s m).map=m) (hb : Bounds m)
    (haligned : block.virtualAddress.toNat%4096=0) (hlow : block.virtualAddress.toNat≤0x40000000)
    (hpos : 0<block.size.toNat) :
    AllocationGood m block.size ((m.appendMemoryBlock .debug block mode).map fun m' =>
      (block.virtualAddress,s m')) ↔ PlaceGood m block.size block.virtualAddress := by
  have hmap : m.size.toNat=0x40000000 := by rw [hb.size]; rfl
  have hrange : block.virtualAddress.toNat+block.size.toNat≤2^32→∀p,block.OwnsPage p ↔
      block.virtualAddress.toNat/4096 ≤ p ∧
        p≤(block.virtualAddress.toNat+block.size.toNat-1)/4096 := by
    intro _ p
    rw [OwnsPage,FEMemoryMapBlock.pageEnd_eq hpos,Nat.lt_succ_iff]
    rfl
  by_cases hwrap : block.virtualAddress.toNat+block.size.toNat≤2^32
  · have hp : Placeable block := ⟨hwrap,by omega⟩
    by_cases howned : ∃p,block.OwnsPage p ∧ m.memoryMapBlocksShadow.slot p≠none
    · obtain ⟨p,hown,hslot⟩ := howned
      have hr := (hrange hwrap p).mp hown
      rw [append_owned block mode hp hb hown hslot]
      exact ⟨fun _ => Or.inr ⟨hwrap,p,hr.1,hr.2,hslot⟩,fun _ => rfl⟩
    · have hin : PlaceGood m block.size block.virtualAddress ↔
          block.virtualAddress.toNat+block.size.toNat ≤ m.size.toNat ∧ m.memoryMapBlocks.Grows := by
        refine or_iff_left ?_
        rintro ⟨-,p,h₁,h₂,hslot⟩
        exact howned ⟨p,(hrange hwrap p).mpr ⟨h₁,h₂⟩,hslot⟩
      rw [hin]
      cases hr : m.appendMemoryBlock .debug block mode with
      | error stop =>
        constructor
        · intro hstop
          rw [show stop=.assertion from hstop] at hr
          exact absurd (append_assertion block mode hp hr) howned
        · rintro ⟨hle,hgrows⟩
          -- all pages exist and are free, so the append cannot fail
          have hfree : m.Free block := by
            intro p hown
            refine ⟨?_,not_not.mp fun hslot => howned ⟨p,hown,hslot⟩⟩
            have hlast := ((hrange hwrap p).mp hown).2
            rw [hb.pages]
            omega
          obtain ⟨m',hok⟩ := append_inside block mode hp hb hfree hgrows (by omega)
          rw [hr] at hok
          cases hok
      | ok m' =>
        constructor
        · exact fun h => ⟨h.1,not_not.mp fun hfull => append_full block mode hp hfull hr⟩
        · rintro ⟨hle,-⟩
          obtain ⟨hfree,hset⟩ := FEMemoryMap.appendMemoryBlock_ok hp hr
          have hsame := FEMemoryMap.setAccessMode_sameBlocks hset
          refine ⟨hle,block,?_,rfl,rfl,?_⟩
          · rw [hs,hsame.blocks,mem_withBlock]
            exact Or.inr rfl
          · intro p h₁ h₂
            have hown := (hrange hwrap p).mpr ⟨h₁,h₂⟩
            rw [hs,hsame.shadow,FEMemoryMap.withBlock_slot,if_pos hown]
            exact ⟨rfl,(hfree p hown).2⟩
  · -- the end of the block wraps: no page is claimed, and a range that is returned lies outside
    -- the map
    have hnot : ¬PlaceGood m block.size block.virtualAddress := by
      rintro (h|⟨h,-⟩) <;> omega
    have hpages : shadowIndex (block.size+block.virtualAddress-1)+1-shadowIndex
      block.virtualAddress=0 := by
      simp only [shadowIndex,alignment]
      bv_omega
    refine iff_of_false ?_ hnot
    cases hr : m.appendMemoryBlock .debug block mode with
    | error stop =>
      intro hstop
      rw [show stop=.assertion from hstop] at hr
      exact append_claimed block mode (by rw [hpages]; rfl) hr
    | ok m' =>
      intro h
      have hin : block.virtualAddress.toNat+block.size.toNat ≤ m.size.toNat := h.1
      omega

/-- The same for the descriptor of an allocation, whose context the caller clears first. -/
theorem mallocBlock_good {s : FEMemoryMap κ→AllocState κ} (hs : ∀m,(s m).map=m) (hb : Bounds m)
    {size address : U32} (tag : List Char) (realAddress newBlock : ℕ)
    (haligned : address.toNat%4096=0) (hlow : address.toNat≤0x40000000) (hpos : 0 < size.toNat) :
    AllocationGood m size (((m.clearContext newBlock).appendMemoryBlock .debug
      (mallocBlock size tag realAddress newBlock address) mode).map fun m' => (address,s m')) ↔
      PlaceGood m size address :=
  append_good (mallocBlock size tag realAddress newBlock address) mode hs
    ⟨hb.size,hb.pages,hb.rights,hb.bounded,hb.inside,hb.reach⟩ haligned hlow hpos

end Placement

/-- The place that the search offers is page aligned, above the first page and inside the map. -/
theorem Bounds.offers_place {m : FEMemoryMap κ} (h : Bounds m) (size : U32) :
    m.Offers size (Fits 0x40000000 0) := by
  have hround : ∀b∈m.memoryMapBlocks.elements,
    Fits 0x40000000 0 (roundUp (b.virtualAddress+b.size)) := by
    intro b hb
    have hin := h.inside b hb
    have hreach := h.reach b hb
    have hend : 4096≤FEMemoryMap.roundedEnd b ∧ FEMemoryMap.roundedEnd b≤0x40000000 := by
      unfold FEMemoryMap.roundedEnd FEMemoryMapBlock.pageEnd
      omega
    have hround := FEMemoryMap.toNat_roundUp b (by omega)
    refine ⟨?_,?_,?_⟩
    · rw [hround]
      exact Nat.mul_mod_right _ _
    · rw [hround]
      exact hend.1
    · rw [hround]
      exact hend.2
  unfold Offers
  generalize m.memoryMapBlocks.elements=blocks at *
  match blocks with
  | [] => exact fun _ => ⟨by decide,by decide,by decide⟩
  | first::rest =>
    dsimp only
    split
    · exact ⟨by decide,by decide,by decide⟩
    · exact FEMemoryMap.FirstGap.of_forall fun b hb _ _ _ => hround b hb

/-- In a 1 GiB map the search either offers nothing, and the call stops, or its offer decides. -/
theorem malloc_good {m : FEMemoryMap κ} {s : FEMemoryMap κ→AllocState κ} (hs : ∀m,(s m).map=m)
    (hb : Bounds m) {dwSize : U32} {tag : List Char} {realAddress newBlock : ℕ}
    (hpos : 0<dwSize.toNat) :
    AllocationGood m dwSize
      ((m.malloc .debug dwSize .readWrite tag ⟨some realAddress,some newBlock⟩).map fun result =>
        (result.address,s result.map)) ↔ m.Offers dwSize (PlaceGood m dwSize) := by
  obtain ⟨found?,hfound⟩ := m.findAddress_total dwSize
  have hfound' : (m.clearContext newBlock).findAddress dwSize=.ok found? := hfound
  cases found? with
  | none =>
    simp only [FEMemoryMap.malloc,hfound',bind,Except.bind,assertThat_debug_false]
    refine iff_of_true rfl (FEMemoryMap.offers_iff.mpr ?_)
    intro address h
    rw [hfound] at h
    cases h
  | some address =>
    have hfits := FEMemoryMap.offers_iff.mp (hb.offers_place dwSize) address hfound
    have hoffer : m.Offers dwSize (PlaceGood m dwSize) ↔ PlaceGood m dwSize address := by
      rw [FEMemoryMap.offers_iff]
      refine ⟨fun h => h address hfound,fun h address' h' => ?_⟩
      rw [hfound] at h'
      cases h'
      exact h
    rw [hoffer]
    refine Iff.trans (iff_of_eq ?_) (mallocBlock_good .readWrite hs hb tag realAddress newBlock
      hfits.aligned hfits.high hpos)
    simp only [FEMemoryMap.malloc,hfound',bind,Except.bind]
    cases FEMemoryMap.appendMemoryBlock .debug (m.clearContext newBlock)
      (mallocBlock dwSize tag realAddress newBlock address) .readWrite <;> rfl

/-- The arguments that `fe_VirtualAlloc` asserts. -/
def VirtualAllocArgs.Expected (args : VirtualAllocArgs) : Prop :=
  args.lpAddress=0 ∧ args.flProtect=0x40 ∧ args.flAllocationType=0x1000

theorem virtualAlloc_first {s : AllocState κ} {args : VirtualAllocArgs} {eip : U32}
    {realAddress newBlock : ℕ} (hargs : args.Expected) (hpos : args.dwSize≠0) (hcalls : s.calls=0) :
    virtualAlloc s args eip ⟨some realAddress,some newBlock⟩=
      ((s.map.clearContext newBlock).appendMemoryBlock .debug
        (mallocBlock args.dwSize (allocTag eip) realAddress newBlock 0x3f0000) .readWrite).map
        fun m => (0x3f0000,⟨m,s.calls+1⟩) := by
  unfold virtualAlloc
  rw [assertThat_pos hargs.1,assertThat_pos hargs.2.1,assertThat_pos hargs.2.2,assertThat_pos hpos]
  simp only [ok_bind,Option.getD_some,FEMemoryMap.map]
  rw [if_neg (not_not.mpr hcalls),bind_ok_eq_map]

theorem virtualAlloc_later {s : AllocState κ} {args : VirtualAllocArgs} {eip : U32}
    {host : HostAllocation} (hargs : args.Expected) (hpos : args.dwSize≠0) (hcalls : s.calls≠0) :
    virtualAlloc s args eip host=
      (s.map.malloc .debug args.dwSize .readWrite (allocTag eip) host).map fun result =>
        (result.address,⟨result.map,s.calls+1⟩) := by
  unfold virtualAlloc
  rw [assertThat_pos hargs.1,assertThat_pos hargs.2.1,assertThat_pos hargs.2.2,assertThat_pos hpos]
  simp only [ok_bind]
  rw [if_pos hcalls,bind_ok_eq_map]

theorem virtualAlloc_unexpected {s : AllocState κ} {args : VirtualAllocArgs} {eip : U32}
    {host : HostAllocation} (hargs : ¬args.Expected) :
    virtualAlloc s args eip host=.error .assertion := by
  unfold virtualAlloc
  by_cases h₁ : args.lpAddress=0
  · rw [assertThat_pos h₁,ok_bind]
    by_cases h₂ : args.flProtect=0x40
    · rw [assertThat_pos h₂,ok_bind,assertThat_neg fun h₃ => hargs ⟨h₁,h₂,h₃⟩,error_bind]
    · rw [assertThat_neg h₂,error_bind]
  · rw [assertThat_neg h₁,error_bind]

/-- `fe_VirtualAlloc` behaves well exactly when it stops at its arguments or its place is no
defect. -/
theorem virtualAlloc_good {s : AllocState κ} (hb : Bounds s.map) {args : VirtualAllocArgs}
    (eip : U32) (realAddress newBlock : ℕ) (hpos : args.dwSize≠0) :
    AllocationGood s.map args.dwSize (virtualAlloc s args eip ⟨some realAddress,some newBlock⟩) ↔
      (args.Expected→CallGood s args.dwSize) := by
  have hsize : 0<args.dwSize.toNat := by bv_omega
  by_cases hargs : args.Expected
  · have hcall : (args.Expected→CallGood s args.dwSize) ↔ CallGood s args.dwSize :=
      ⟨fun h => h hargs,fun h _ => h⟩
    rw [hcall,CallGood]
    by_cases hcalls : s.calls=0
    · rw [virtualAlloc_first hargs hpos hcalls,if_pos hcalls]
      exact mallocBlock_good _ (fun _ => rfl) hb _ _ _ (by decide) (by decide) hsize
    · rw [virtualAlloc_later hargs hpos hcalls,if_neg hcalls]
      exact malloc_good (s:=fun m => ⟨m,s.calls+1⟩) (fun _ => rfl) hb hsize
  · rw [virtualAlloc_unexpected hargs]
    exact iff_of_true rfl fun h => absurd h hargs

/-- A completed step of the process that touches its memory map. -/
inductive AllocEvent where
  | map (block : FEMemoryMapBlock) (mode : FEMemoryAccessMode)
  | malloc (size : U32) (mode : FEMemoryAccessMode) (tag : List Char) (realAddress newBlock : ℕ)
  | free (address : U32)
  | setAccessMode (mode : FEMemoryAccessMode) (address size : U32)
  | virtualAlloc (args : VirtualAllocArgs) (eip : U32) (realAddress newBlock : ℕ)

/-- A step that does not stop the program. Mapped blocks lie inside the map. -/
def AllocStep (s : AllocState κ) (event : AllocEvent) (s' : AllocState κ) : Prop :=
  match event with
  | .map block mode => 0<block.size.toNat ∧
    block.virtualAddress.toNat+block.size.toNat ≤ s.map.size.toNat ∧
    ∃m,s.map.map .debug block mode=.ok m ∧ s'={ s with map := m }
  | .malloc size mode tag realAddress newBlock =>
    ∃result,s.map.malloc .debug size mode tag ⟨some realAddress,some newBlock⟩=.ok result ∧
      s'={ s with map := result.map }
  | .free address => ∃m,s.map.free address=.ok m ∧ s'={ s with map := m }
  | .setAccessMode mode address size =>
    ∃m,s.map.setAccessModeAtAddress mode address size=.ok m ∧ s'={ s with map := m }
  | .virtualAlloc args eip realAddress newBlock =>
    ∃base,VirtualAlloc.virtualAlloc s args eip ⟨some realAddress,some newBlock⟩=.ok (base,s')

def EventGood (s : AllocState κ) : AllocEvent→Prop
  | .malloc size _ _ _ _ => s.map.Offers size (PlaceGood s.map size)
  | .virtualAlloc args _ _ _ => CallGood s args.dwSize
  | _ => True

theorem Bounds.sameBlocks {m m' : FEMemoryMap κ} (h : Bounds m)
    (hs : SameBlocks m m') : Bounds m' where
  size := hs.size.trans h.size
  pages := by rw [hs.shadow]; exact h.pages
  rights := hs.rights.trans h.rights
  bounded := by rw [hs.shadow]; exact h.bounded
  inside := by rw [hs.blocks]; exact h.inside
  reach := by rw [hs.blocks]; exact h.reach

theorem Bounds.append {m m' : FEMemoryMap κ} {block : FEMemoryMapBlock} {mode : FEMemoryAccessMode}
    (h : Bounds m) (hreach : 0<block.virtualAddress.toNat+block.size.toNat)
    (hin : block.virtualAddress.toNat+block.size.toNat≤0x40000000)
    (ha : m.appendMemoryBlock .debug block mode=.ok m') : Bounds m' := by
  obtain ⟨hfree,hset⟩ := FEMemoryMap.appendMemoryBlock_ok ⟨by omega,hreach⟩ ha
  have hblock : Bounds (m.withBlock block) := by
    refine ⟨h.size,h.pages,h.rights,?_,?_,?_⟩
    · intro p hp
      rw [FEMemoryMap.withBlock_slot] at hp
      split at hp
      case isTrue hown =>
        have hlt := (hfree p hown).1
        rwa [h.pages] at hlt
      case isFalse => exact h.bounded p hp
    · intro b hb
      rcases mem_withBlock.mp hb with hb|rfl
      · exact h.inside b hb
      · exact hin
    · intro b hb
      rcases mem_withBlock.mp hb with hb|rfl
      · exact h.reach b hb
      · exact hreach
  exact hblock.sameBlocks (FEMemoryMap.setAccessMode_sameBlocks hset)

theorem Bounds.append_good {m m' : FEMemoryMap κ} {mode : FEMemoryAccessMode} (h : Bounds m)
    (block : FEMemoryMapBlock) (hreach : 0<block.virtualAddress.toNat+block.size.toNat)
    (hlow : block.virtualAddress.toNat≤0x40000000)
    (hgood : PlaceGood m block.size block.virtualAddress)
    (ha : m.appendMemoryBlock .debug block mode=.ok m') : Bounds m' := by
  refine h.append hreach ?_ ha
  have hsize : m.size.toNat=0x40000000 := by rw [h.size]; rfl
  rcases hgood with hin|⟨hwrap,p,h₁,h₂,howned⟩
  · omega
  · by_cases hpos : 0<block.size.toNat
    · -- an owned page in the range would have stopped the append
      have hown : block.OwnsPage p := by
        rw [OwnsPage,FEMemoryMapBlock.pageEnd_eq hpos]
        exact ⟨h₁,Nat.lt_succ_of_le h₂⟩
      rw [append_owned block mode ⟨hwrap,hreach⟩ h hown howned] at ha
      cases ha
    · omega

theorem Bounds.append_mallocBlock {m m' : FEMemoryMap κ} {size address : U32}
    {mode : FEMemoryAccessMode} {tag : List Char} {realAddress newBlock : ℕ} (h : Bounds m)
    (hlow : 4096 ≤ address.toNat) (hhigh : address.toNat≤0x40000000)
    (hgood : PlaceGood m size address) (ha : (m.clearContext newBlock).appendMemoryBlock .debug
      (mallocBlock size tag realAddress newBlock address) mode=.ok m') : Bounds m' :=
  (h.sameBlocks (m.clearContext_sameBlocks newBlock)).append_good
    (mallocBlock size tag realAddress newBlock address)
    (by show 0<address.toNat+size.toNat; omega) hhigh hgood ha

theorem Bounds.malloc {m : FEMemoryMap κ} {size : U32} {mode : FEMemoryAccessMode} {tag : List Char}
    {realAddress newBlock : ℕ} {result : FEMemoryMap.MallocResult κ} (h : Bounds m)
    (hoffer : m.Offers size (PlaceGood m size))
    (hm : m.malloc .debug size mode tag ⟨some realAddress,some newBlock⟩=.ok result) :
    Bounds result.map := by
  obtain ⟨_,_,hhost,-,hfind,happend⟩ := FEMemoryMap.malloc_ok hm
  cases hhost
  have hplace := FEMemoryMap.offers_iff.mp hoffer _ hfind
  have hfits := FEMemoryMap.offers_iff.mp (h.offers_place size) _ hfind
  exact h.append_mallocBlock hfits.low hfits.high hplace happend

theorem Bounds.virtualAlloc {s s' : AllocState κ} {args : VirtualAllocArgs} {eip base : U32}
    {realAddress newBlock : ℕ} (h : Bounds s.map) (hgood : CallGood s args.dwSize)
    (hv : virtualAlloc s args eip ⟨some realAddress,some newBlock⟩=.ok (base,s')) :
    Bounds s'.map := by
  by_cases hargs : args.Expected
  · by_cases hpos : args.dwSize=0
    · unfold VirtualAlloc.virtualAlloc at hv
      rw [assertThat_pos hargs.1,assertThat_pos hargs.2.1,assertThat_pos hargs.2.2,
        assertThat_neg (not_not.mpr hpos)] at hv
      cases hv
    · by_cases hcalls : s.calls=0
      · rw [virtualAlloc_first hargs hpos hcalls] at hv
        rw [CallGood,if_pos hcalls] at hgood
        cases hm : (s.map.clearContext newBlock).appendMemoryBlock .debug
          (mallocBlock args.dwSize (allocTag eip) realAddress newBlock 0x3f0000) .readWrite with
        | error stop =>
          rw [hm] at hv
          cases hv
        | ok m =>
          rw [hm] at hv
          cases hv
          exact h.append_mallocBlock (by decide) (by decide) hgood hm
      · rw [virtualAlloc_later hargs hpos hcalls] at hv
        rw [CallGood,if_neg hcalls] at hgood
        cases hm : s.map.malloc .debug args.dwSize .readWrite (allocTag eip)
          ⟨some realAddress,some newBlock⟩ with
        | error stop =>
          rw [hm] at hv
          cases hv
        | ok result =>
          rw [hm] at hv
          cases hv
          exact h.malloc hgood hm
  · rw [virtualAlloc_unexpected hargs] at hv
    cases hv

theorem Bounds.free {m m' : FEMemoryMap κ} {address : U32} (h : Bounds m)
    (hf : m.free address=.ok m') : Bounds m' := by
  obtain ⟨shadow,hset,hf⟩ := bind_eq_ok.mp hf
  obtain ⟨-,rfl⟩ := Shadow.set_eq_ok.mp hset
  cases hf
  refine ⟨h.size,h.pages,h.rights,?_,h.inside,h.reach⟩
  intro p hp
  refine h.bounded p fun hnone => hp ?_
  dsimp only
  split
  · rfl
  · exact hnone

theorem bounds_step (s : AllocState κ) (event : AllocEvent) (s' : AllocState κ) (h : Bounds s.map)
    (hstep : AllocStep s event s' ∧ EventGood s event) : Bounds s'.map := by
  obtain ⟨hstep,hgood⟩ := hstep
  cases event with
  | map block mode =>
    obtain ⟨hpos,hin,m,hmap,rfl⟩ := hstep
    rw [h.size] at hin
    exact h.append (by omega) hin hmap
  | malloc size mode tag realAddress newBlock =>
    obtain ⟨result,hm,rfl⟩ := hstep
    exact h.malloc hgood hm
  | free address =>
    obtain ⟨m,hf,rfl⟩ := hstep
    exact h.free hf
  | setAccessMode mode address size =>
    obtain ⟨m,hset,rfl⟩ := hstep
    exact h.sameBlocks (FEMemoryMap.setAccessMode_sameBlocks hset)
  | virtualAlloc args eip realAddress newBlock =>
    obtain ⟨base,hv⟩ := hstep
    exact h.virtualAlloc hgood hv

/-- A fresh process: its map is empty, `callback` tells whether the callback is installed, and
`calls` counts what earlier processes of the host requested. -/
def start (callback : Bool) (calls : U32) : AllocState κ where
  map := { create 0x40000000 with memoryMapAccessModeChangeCallback := callback }
  calls := calls

theorem bounds_start (callback : Bool) (calls : U32) :
    Bounds (start callback calls : AllocState κ).map where
  size := rfl
  pages := rfl
  rights := rfl
  bounded := by simp [start,create]
  inside := by simp [start,create]
  reach := by simp [start,create]

/-- In every run whose allocations find good places, `VirtualAlloc` either stops or returns a range
inside the map that was free and is now its own, exactly when the place it would use is good. -/
theorem virtualAlloc_disjoint {callback : Bool} {calls : U32} {events : List AllocEvent}
    {s : AllocState κ} (h : Runs (fun s event s' => AllocStep s event s' ∧ EventGood s event)
      (start callback calls) events s)
    (args : VirtualAllocArgs) (eip : U32) (realAddress newBlock : ℕ) (hsize : args.dwSize≠0) :
    AllocationGood s.map args.dwSize (virtualAlloc s args eip ⟨some realAddress,some newBlock⟩) ↔
      (args.Expected→CallGood s args.dwSize) :=
  virtualAlloc_good (h.invariant (I:=fun s => Bounds s.map)
    (bounds_start callback calls) bounds_step) eip
    realAddress newBlock hsize

def imageBlock : FEMemoryMapBlock := ⟨1,0x400000,0x401000,0x1000,0x10000,true,".text".toList⟩

private theorem run_image : ∃s : AllocState Unit,s.calls=0 ∧ s.map.memoryMapBlocks.Grows ∧
    Runs (fun s event s' => AllocStep s event s' ∧ EventGood s event) (start true 0)
      [.map imageBlock .readWrite] s := by
  obtain ⟨m,hmap⟩ : ∃m,(start true 0 : AllocState Unit).map.map .debug imageBlock .readWrite=
    .ok m :=
    ⟨_,rfl⟩
  obtain ⟨-,hset⟩ := FEMemoryMap.appendMemoryBlock_ok ⟨by decide,by decide⟩ hmap
  have hgrows : m.memoryMapBlocks.Grows := by
    rw [(FEMemoryMap.setAccessMode_sameBlocks hset).blocks]
    exact .inl (by decide)
  exact ⟨⟨m,0⟩,rfl,hgrows,.next .start ⟨⟨by decide,by decide,m,hmap,rfl⟩,trivial⟩⟩

/-- The first request of 64 KiB beside an image is met below the image. -/
theorem virtualAlloc_disjoint_image : ∃s : AllocState Unit,
    AllocationGood s.map 0x10000 (virtualAlloc s ⟨0,0x10000,0x1000,0x40⟩ 0x401000 ⟨some 0x20000,
      some 2⟩) := by
  obtain ⟨s,hcalls,hgrows,hrun⟩ := run_image
  have hb := hrun.invariant (I:=fun s => Bounds s.map) (bounds_start true 0) bounds_step
  refine ⟨s,(virtualAlloc_disjoint hrun ⟨0,0x10000,0x1000,0x40⟩ 0x401000 0x20000 2 (by decide)).mpr
    ?_⟩
  intro _
  rw [CallGood,if_pos hcalls]
  exact Or.inl ⟨by rw [hb.size]; decide,hgrows⟩

/-- A first request of almost 4 GiB is granted at the fixed address, where it does not fit. -/
theorem virtualAlloc_wrapped : ¬∀(s : AllocState Unit) (events : List AllocEvent),
    Runs AllocStep (start true 0) events s→
    ∀(args : VirtualAllocArgs) (eip : U32) (realAddress newBlock : ℕ),args.dwSize≠0→
      AllocationGood s.map args.dwSize (virtualAlloc s args eip ⟨some realAddress,
        some newBlock⟩) := by
  intro hclaim
  obtain ⟨s,hcalls,-,hrun⟩ := run_image
  have hb := hrun.invariant (I:=fun s => Bounds s.map) (bounds_start true 0) bounds_step
  have hgood := hclaim s _ (hrun.mono fun _ _ _ h => h.1)
    ⟨0,0xffffffff,0x1000,0x40⟩ 0x401000 0x20000 2
    (by decide)
  have hcall := (virtualAlloc_good hb 0x401000 0x20000 2 (by decide)).mp hgood ⟨rfl,rfl,rfl⟩
  rw [CallGood,if_pos hcalls] at hcall
  rcases hcall with ⟨hin,-⟩|⟨hwrap,-⟩
  · rw [hb.size] at hin
    revert hin
    decide
  · revert hwrap
    decide

end FalloutEmu.VirtualAlloc
