import FalloutEmu.VirtualAlloc

/-! # Changes of access rights: all pages of the range but the last -/
namespace FalloutEmu.AccessRights
open FEMemoryMap (create mallocBlock Placeable)
open VirtualAlloc (AllocState AllocEvent AllocStep)
variable {κ : Type}

/-- The arguments of `fe_VirtualProtect`; `flNewProtect` is overwritten by the assertion on it. -/
structure VirtualProtectArgs where
  lpAddress : U32
  dwSize : U32
  flNewProtect : U32
  lpflOldProtect : U32
  deriving DecidableEq,Repr

/-- The `switch` of `fe_VirtualProtect`; a mode without a case ends in `assert(0)`. -/
def oldMode (build : Build) : FEMemoryAccessMode→Except Stop U32
  | ⟨true,false,false⟩ => .ok 0x2
  | ⟨false,true,false⟩ => .ok 0x8
  | ⟨false,false,true⟩ => .ok 0x10
  | ⟨true,true,false⟩ => .ok 0x4
  | ⟨true,false,true⟩ => .ok 0x20
  | ⟨false,true,true⟩ => .ok 0x80
  | _ => do
    assertThat build false
    .ok 0

/-- `fe_VirtualProtect` on its four arguments: `eax` and the memory it leaves. -/
def virtualProtect (build : Build) (memory : Memory κ) (args : VirtualProtectArgs) :
    Except Stop (U32×Memory κ) := do
  let regionAccessMode ← memory.map.accessModeAtAddress args.lpAddress
  let old_mode ← oldMode build regionAccessMode
  let map ← memory.map.setAccessModeAtAddress ⟨true,true,true⟩ args.lpAddress args.dwSize
  let memory ← { memory with map := map }.setValue32 args.lpflOldProtect old_mode
  .ok (1,memory)

def InRange (address size a : U32) : Prop :=
  address.toNat ≤ a.toNat ∧ a.toNat<address.toNat+size.toNat

def PageOutside (address size a : U32) : Prop :=
  ∀b : U32,shadowIndex b=shadowIndex a→¬InRange address size b

/-- The mode is read at every address of the range. -/
def SetThroughout (m : FEMemoryMap κ) (mode : FEMemoryAccessMode) (address size : U32) : Prop :=
  ∀a,InRange address size a→m.accessModeAtAddress a=.ok mode

/-- What a change of rights promises: it covers its range and leaves the pages outside it. -/
def Covers (m : FEMemoryMap κ) (mode : FEMemoryAccessMode) (address size : U32)
    (result : Except Stop (FEMemoryMap κ)) : Prop :=
  ∃m',result=.ok m' ∧ SetThroughout m' mode address size ∧
    ∀a,PageOutside address size a→m'.accessModeAtAddress a=m.accessModeAtAddress a

/-- The page of the last byte has the mode already. -/
def LastPageHas (m : FEMemoryMap κ) (mode : FEMemoryAccessMode) (address size : U32) : Prop :=
  m.accessModeAtAddress (address+size-1)=.ok mode

/-- A map of `mapSize` bytes whose tables reach to the page behind the last one. -/
structure Spanned (mapSize : U32) (m : FEMemoryMap κ) : Prop where
  size : m.size=mapSize
  pages : m.memoryMapBlocksShadow.capacity=shadowIndex m.size+1
  rights : m.memoryMapRightsShadow.capacity=shadowIndex m.size+1

section Reachable
variable {m m' : FEMemoryMap κ} {mapSize : U32}

theorem Spanned.sameBlocks (h : Spanned mapSize m) (hsame : FEMemoryMap.SameBlocks m m') :
    Spanned mapSize m' := by
  constructor
  · rw [hsame.size]
    exact h.size
  · rw [hsame.shadow,hsame.size]
    exact h.pages
  · rw [hsame.rights,hsame.size]
    exact h.rights

theorem Spanned.setAccessMode (h : Spanned mapSize m) {mode : FEMemoryAccessMode}
    {address size : U32} (hset : m.setAccessModeAtAddress mode address size=.ok m') :
    Spanned mapSize m' :=
  h.sameBlocks (FEMemoryMap.setAccessMode_sameBlocks hset)

/-- A new block changes no rights before its own are set. -/
theorem Spanned.append_set (h : Spanned mapSize m) {block : FEMemoryMapBlock}
    {mode : FEMemoryAccessMode} (happend : m.appendMemoryBlock .debug block mode=.ok m') :
    ∃m₁,Spanned mapSize m₁ ∧ m₁.size=m.size ∧ m₁.memoryMapRightsShadow=m.memoryMapRightsShadow ∧
      m₁.setAccessModeAtAddress mode block.virtualAddress block.size=.ok m' := by
  obtain ⟨shadow,hclaim,hset⟩ := bind_eq_ok.mp happend
  obtain ⟨blocks,_,hset⟩ := bind_eq_ok.mp hset
  obtain ⟨_,_,hshadow⟩ := FEMemoryMap.claimPages_debug.mp hclaim
  have hcapacity : shadow.capacity=m.memoryMapBlocksShadow.capacity := by
    rw [hshadow]
    rfl
  let m₁ : FEMemoryMap κ := { m with
    memoryMapBlocksShadow := shadow
    memoryMapBlocks := blocks.mergeSort FEMemoryMapBlock.compare }
  exact ⟨m₁,⟨h.size,hcapacity.trans h.pages,h.rights⟩,rfl,rfl,hset⟩

theorem Spanned.append (h : Spanned mapSize m) {block : FEMemoryMapBlock}
    {mode : FEMemoryAccessMode} (happend : m.appendMemoryBlock .debug block mode=.ok m') :
    Spanned mapSize m' := by
  obtain ⟨m₁,h₁,_,_,hset⟩ := h.append_set happend
  exact h₁.setAccessMode hset

theorem Spanned.clearContext (h : Spanned mapSize m) (pointer : ℕ) : 
    Spanned mapSize (m.clearContext pointer) := ⟨h.size,h.pages,h.rights⟩

theorem Spanned.malloc (h : Spanned mapSize m) {size : U32} {mode : FEMemoryAccessMode}
    {tag : List Char} {host : HostAllocation} {result : FEMemoryMap.MallocResult κ}
    (hmalloc : m.malloc .debug size mode tag host=.ok result) : Spanned mapSize result.map := by
  obtain ⟨_,newBlock,_,_,_,happend⟩ := FEMemoryMap.malloc_ok hmalloc
  exact (h.clearContext newBlock).append happend

theorem Spanned.step {s s' : AllocState κ} {event : AllocEvent} (h : Spanned mapSize s.map)
    (hstep : AllocStep s event s') :
    Spanned mapSize s'.map := by
  cases event with
  | map block mode =>
    obtain ⟨_,_,m,hmap,rfl⟩ := hstep
    exact h.append hmap
  | malloc size mode tag realAddress newBlock =>
    obtain ⟨result,hmalloc,rfl⟩ := hstep
    exact h.malloc hmalloc
  | free address =>
    obtain ⟨m,hfree,rfl⟩ := hstep
    obtain ⟨shadow,hshadow,hfree⟩ := bind_eq_ok.mp hfree
    obtain ⟨_,rfl⟩ := Shadow.set_eq_ok.mp hshadow
    cases hfree
    exact ⟨h.size,h.pages,h.rights⟩
  | setAccessMode mode address size =>
    obtain ⟨m,hset,rfl⟩ := hstep
    exact h.setAccessMode hset
  | virtualAlloc args eip realAddress newBlock =>
    obtain ⟨base,halloc⟩ := hstep
    simp only [VirtualAlloc.virtualAlloc] at halloc
    obtain ⟨_,_,halloc⟩ := bind_eq_ok.mp halloc
    obtain ⟨_,_,halloc⟩ := bind_eq_ok.mp halloc
    obtain ⟨_,_,halloc⟩ := bind_eq_ok.mp halloc
    obtain ⟨_,_,halloc⟩ := bind_eq_ok.mp halloc
    split at halloc
    · obtain ⟨result,hmalloc,halloc⟩ := bind_eq_ok.mp halloc
      cases halloc
      exact h.malloc hmalloc
    · obtain ⟨m,hmap,halloc⟩ := bind_eq_ok.mp halloc
      cases halloc
      exact (h.clearContext newBlock).append hmap

def created (size : U32) (callback : Bool) (calls : U32) : AllocState κ where
  map := { create size with memoryMapAccessModeChangeCallback := callback }
  calls := calls

theorem spanned_run {calls : U32} {callback : Bool} {events : List AllocEvent} {s : AllocState κ}
    (h : Runs AllocStep (created mapSize callback calls) events s) : Spanned mapSize s.map :=
  h.invariant (I:=fun s => Spanned mapSize s.map) ⟨rfl,rfl,rfl⟩ fun _ _ _ hs hstep => hs.step hstep

end Reachable

section Ranges
variable {m m' : FEMemoryMap κ} {mode : FEMemoryAccessMode} {address size mapSize : U32}

theorem toNat_last (hsize : size≠0) (hend : address.toNat+size.toNat ≤ m.size.toNat) :
    (address+size-1).toNat=address.toNat+size.toNat-1 := by
  have hlt := m.size.isLt
  have hpos : size.toNat≠0 := fun h => hsize (BitVec.eq_of_toNat_eq h)
  bv_omega

theorem accessMode_eq (h : Spanned mapSize m) {a : U32} (ha : a.toNat < m.size.toNat) :
    m.accessModeAtAddress a=.ok (m.memoryMapRightsShadow.slot (shadowIndex a)) := by
  apply Shadow.get_eq_ok.mpr
  refine ⟨?_,rfl⟩
  rw [h.rights]
  exact Nat.lt_succ_of_le (Nat.div_le_div_right (Nat.le_of_lt ha))

/-- A range inside the map always gets its change of rights. -/
theorem setAccessMode_inside (h : Spanned mapSize m) (hsize : size≠0)
    (hend : address.toNat+size.toNat ≤ m.size.toNat) :
    ∃m',m.setAccessModeAtAddress mode address size=.ok m' := by
  have hlast := toNat_last hsize hend
  have hfirstPage : shadowIndex address ≤ shadowIndex m.size := Nat.div_le_div_right (by omega)
  have hlastPage : shadowIndex (address+size-1) ≤ shadowIndex m.size :=
    Nat.div_le_div_right (by omega)
  apply FEMemoryMap.setAccessMode_returns
  · rw [h.pages]
    omega
  · rw [h.rights]
    omega

/-- After a change of rights: the pages before the last one have the mode, every other page what it
had. -/
theorem setAccessMode_mode (h : Spanned mapSize m)
    (hset : m.setAccessModeAtAddress mode address size=.ok m') {a : U32}
    (ha : a.toNat < m.size.toNat) : m'.accessModeAtAddress a=
      if shadowIndex address ≤ shadowIndex a ∧ shadowIndex a<shadowIndex (address+size-1)
        then .ok mode
      else m.accessModeAtAddress a := by
  have hsize : m'.size=m.size := (FEMemoryMap.setAccessMode_sameBlocks hset).size
  have hpages : (shadowIndex address ≤ shadowIndex a ∧ shadowIndex a<shadowIndex address+
      (shadowIndex (address+size-1)-shadowIndex address)) ↔
      (shadowIndex address ≤ shadowIndex a ∧ shadowIndex a<shadowIndex (address+size-1)) := by omega
  rw [accessMode_eq (h.setAccessMode hset) (hsize ▸ ha),accessMode_eq h ha,
    FEMemoryMap.setAccessMode_rights hset]
  simp only [Shadow.filled,hpages]
  split <;> rfl

/-- The pages of a range are those from its first byte to its last. -/
theorem shadowIndex_mem {a : U32} (hlast : (address+size-1).toNat=address.toNat+size.toNat-1)
    (ha : InRange address size a) :
    shadowIndex address ≤ shadowIndex a ∧ shadowIndex a ≤ shadowIndex (address+size-1) := by
  obtain ⟨hlow,hhigh⟩ := ha
  exact ⟨Nat.div_le_div_right hlow,Nat.div_le_div_right (by omega)⟩

/-- The range gets its mode exactly when the page of its last byte had it. -/
theorem setThroughout_iff (h : Spanned mapSize m) (hsize : size≠0)
    (hend : address.toNat+size.toNat ≤ m.size.toNat)
    (hset : m.setAccessModeAtAddress mode address size=.ok m') :
    SetThroughout m' mode address size ↔ LastPageHas m mode address size := by
  have hlast := toNat_last hsize hend
  have hpos : size.toNat≠0 := fun h => hsize (BitVec.eq_of_toNat_eq h)
  have hin : InRange address size (address+size-1) := by
    unfold InRange
    omega
  constructor
  · intro hall
    have hmode := setAccessMode_mode h hset (a:=address+size-1) (by omega)
    rw [if_neg (fun hlt => Nat.lt_irrefl _ hlt.2)] at hmode
    rw [LastPageHas,←hmode]
    exact hall _ hin
  · intro hold a ha
    have hbound : a.toNat < m.size.toNat := Nat.lt_of_lt_of_le ha.2 hend
    obtain ⟨hlow,hhigh⟩ := shadowIndex_mem hlast ha
    rw [setAccessMode_mode h hset hbound]
    split
    · rfl
    · -- `a` is on the last page, whose mode nothing changes
      have hsame : shadowIndex a=shadowIndex (address+size-1) := by omega
      rw [accessMode_eq h hbound,hsame,←accessMode_eq h (by omega)]
      exact hold

theorem setAccessMode_outside (hsize : size≠0) (hend : address.toNat+size.toNat ≤ m.size.toNat)
    (hset : m.setAccessModeAtAddress mode address size=.ok m') {a : U32}
    (ha : PageOutside address size a) :
    m'.accessModeAtAddress a=m.accessModeAtAddress a := by
  have hlast := toNat_last hsize hend
  have hpos : size.toNat≠0 := fun h => hsize (BitVec.eq_of_toNat_eq h)
  have hrights := FEMemoryMap.setAccessMode_rights hset
  have houtside : shadowIndex a<shadowIndex address ∨
      shadowIndex address+(shadowIndex (address+size-1)-shadowIndex address) ≤ shadowIndex a := by
    by_contra hin
    -- the start of the page, or of the range where that is later, is a byte of both
    have hpage : 4096*shadowIndex a ≤ a.toNat := Nat.mul_div_le a.toNat 4096
    have hbyte := ha (.ofNat 32 (max address.toNat (4096*shadowIndex a)))
    have hnat : (BitVec.ofNat 32 (max address.toNat (4096*shadowIndex a))).toNat=
        max address.toNat (4096*shadowIndex a) := by
      rw [BitVec.toNat_ofNat]
      have hlt := a.isLt
      have hlt' := address.isLt
      omega
    apply hbyte
    · unfold shadowIndex alignment at *
      rw [hnat]
      omega
    · unfold InRange
      rw [hnat]
      unfold shadowIndex alignment at *
      rw [hlast] at hin
      omega
  unfold FEMemoryMap.accessModeAtAddress
  rw [hrights]
  have hslot := @Shadow.filled_slot_of_outside _ m.memoryMapRightsShadow mode _ _ _ houtside
  simp only [Shadow.get,hslot]
  rfl

theorem covers_iff (h : Spanned mapSize m) (hsize : size≠0)
    (hend : address.toNat+size.toNat ≤ m.size.toNat) :
    Covers m mode address size (m.setAccessModeAtAddress mode address size) ↔
    LastPageHas m mode address size := by
  obtain ⟨m',hset⟩ : ∃m',m.setAccessModeAtAddress mode address size=.ok m' :=
    setAccessMode_inside h hsize hend
  have hiff := setThroughout_iff h hsize hend hset
  constructor
  · rintro ⟨m₁,hm₁,hall,_⟩
    cases hset.symm.trans hm₁
    exact hiff.mp hall
  · intro hlast
    exact ⟨m',hset,hiff.mpr hlast,fun a ha => setAccessMode_outside hsize hend hset ha⟩

/-- A new block gets its mode under the same condition. -/
theorem append_iff (h : Spanned mapSize m) {block : FEMemoryMapBlock} (hsize : block.size≠0)
    (hend : block.virtualAddress.toNat+block.size.toNat ≤ m.size.toNat)
    (happend : m.appendMemoryBlock .debug block mode=.ok m') :
    SetThroughout m' mode block.virtualAddress block.size ↔
    LastPageHas m mode block.virtualAddress block.size := by
  obtain ⟨m₁,h₁,hmap,hrights,hset⟩ := h.append_set happend
  rw [setThroughout_iff h₁ hsize (hmap ▸ hend) hset]
  unfold LastPageHas FEMemoryMap.accessModeAtAddress
  rw [hrights]

theorem malloc_iff (h : Spanned mapSize m) {tag : List Char} {host : HostAllocation}
    {result : FEMemoryMap.MallocResult κ} (hmalloc : m.malloc .debug size mode tag host=.ok result)
    (hsize : size≠0) (hend : result.address.toNat+size.toNat ≤ m.size.toNat) :
    SetThroughout result.map mode result.address size ↔ LastPageHas m mode result.address size := by
  obtain ⟨realAddress,newBlock,_,_,_,happend⟩ := FEMemoryMap.malloc_ok hmalloc
  have hblock : (mallocBlock size tag realAddress newBlock result.address).size≠0 := hsize
  exact append_iff (h.clearContext newBlock) hblock hend happend

/-- `fe_VirtualProtect` changes the rights of its range and nothing else of the map. -/
theorem virtualProtect_map {memory memory' : Memory κ} {build : Build} {args : VirtualProtectArgs}
    {eax : U32} (hprotect : virtualProtect build memory args=.ok (eax,memory')) :
    memory.map.setAccessModeAtAddress ⟨true,true,true⟩ args.lpAddress args.dwSize=
      .ok memory'.map := by
  obtain ⟨_,_,hprotect⟩ := bind_eq_ok.mp hprotect
  obtain ⟨_,_,hprotect⟩ := bind_eq_ok.mp hprotect
  obtain ⟨map,hset,hprotect⟩ := bind_eq_ok.mp hprotect
  obtain ⟨stored,hstore,hprotect⟩ := bind_eq_ok.mp hprotect
  obtain ⟨_,_,hstore⟩ := bind_eq_ok.mp hstore
  cases hstore
  cases hprotect
  exact hset

end Ranges

/-- In every reachable map a change of rights covers its range, a new block gets its mode and a
`VirtualProtect` opens its range exactly when the page of the last byte had the mode before. -/
theorem rights_cover_iff {mapSize calls : U32} {callback : Bool} {events : List AllocEvent}
    {s : AllocState κ} (h : Runs AllocStep (created mapSize callback calls) events s) :
    (∀mode address size,size≠0→address.toNat+size.toNat ≤ s.map.size.toNat→
      (Covers s.map mode address size (s.map.setAccessModeAtAddress mode address size) ↔
        LastPageHas s.map mode address size)) ∧
    (∀mode block m,block.size≠0→block.virtualAddress.toNat+block.size.toNat ≤ s.map.size.toNat→
      s.map.map .debug block mode=.ok m→
      (SetThroughout m mode block.virtualAddress block.size ↔
        LastPageHas s.map mode block.virtualAddress block.size)) ∧
    (∀mode size tag host result,size≠0→s.map.malloc .debug size mode tag host=.ok result→
      result.address.toNat+size.toNat ≤ s.map.size.toNat→
      (SetThroughout result.map mode result.address size ↔
        LastPageHas s.map mode result.address size)) ∧
    ∀(build : Build) memory args eax memory',memory.map=s.map→args.dwSize≠0→
      args.lpAddress.toNat+args.dwSize.toNat ≤ s.map.size.toNat→
      virtualProtect build memory args=.ok (eax,memory')→
      (SetThroughout memory'.map ⟨true,true,true⟩ args.lpAddress args.dwSize ↔
        LastPageHas s.map ⟨true,true,true⟩ args.lpAddress args.dwSize) := by
  have hs := spanned_run h
  refine ⟨?_,?_,?_,?_⟩
  · intro mode address size hsize hend
    exact covers_iff hs hsize hend
  · intro mode block m hsize hend hmap
    exact append_iff hs hsize hend hmap
  · intro mode size tag host result hsize hmalloc hend
    exact malloc_iff hs hmalloc hsize hend
  · intro build memory args eax memory' hmemory hsize hend hprotect
    have hset := virtualProtect_map hprotect
    rw [hmemory] at hset
    exact setThroughout_iff hs hsize hend hset

/-- A range of two pages whose last page is readable already becomes readable, and one of three
pages, whose last page is closed, does not. -/
theorem rights_cover_pages : ∃s : AllocState Unit,
    Runs AllocStep (created 0x40000000 true 0) [.setAccessMode ⟨true,false,false⟩ 0x2000 0x1001] s ∧
    Covers s.map ⟨true,false,false⟩ 0x1000 0x2000 (s.map.setAccessModeAtAddress ⟨true,false,false⟩
      0x1000 0x2000) ∧
    ¬Covers s.map ⟨true,false,false⟩ 0x1000 0x3000
      (s.map.setAccessModeAtAddress ⟨true,false,false⟩ 0x1000 0x3000) := by
  obtain ⟨m,hset⟩ : ∃m,(created 0x40000000 true 0 : AllocState Unit).map.setAccessModeAtAddress
    ⟨true,false,false⟩
      0x2000 0x1001=.ok m := ⟨_,rfl⟩
  have hrun : Runs AllocStep (created 0x40000000 true 0 : AllocState Unit)
      [.setAccessMode ⟨true,false,false⟩ 0x2000 0x1001] ⟨m,0⟩ := .next .start ⟨m,hset,rfl⟩
  have hmode : ((created 0x40000000 true 0 : AllocState Unit).map.setAccessModeAtAddress ⟨true,
    false,false⟩ 0x2000
      0x1001 >>= fun m => return (← m.accessModeAtAddress 0x2fff,← m.accessModeAtAddress 0x3fff))=
        .ok (⟨true,false,false⟩,.none) := by decide +kernel
  rw [hset,ok_bind] at hmode
  obtain ⟨first,hfirst,hmode⟩ := bind_eq_ok.mp hmode
  obtain ⟨second,hsecond,hmode⟩ := bind_eq_ok.mp hmode
  cases hmode
  have hsize : m.size=0x40000000 := (FEMemoryMap.setAccessMode_sameBlocks hset).size
  have hcovers := (rights_cover_iff hrun).1 ⟨true,false,false⟩ 0x1000
  refine ⟨_,hrun,(hcovers 0x2000 (by decide) ?_).mpr hfirst,fun hall => ?_⟩
  · rw [hsize]
    decide
  · have hlast : m.accessModeAtAddress (0x1000+0x3000-1)=.ok ⟨true,false,false⟩ :=
      (hcovers 0x3000 (by decide) (by rw [hsize]; decide)).mp hall
    cases hlast.symm.trans hsecond

/-- Two pages made readable at once: the second one stays closed. -/
theorem second_page_closed : ¬∀(events : List AllocEvent) (s : AllocState Unit),
    Runs AllocStep (created 0x40000000 true 0) events s→
      ∀mode address size,size≠0→address.toNat+size.toNat ≤ s.map.size.toNat→
        Covers s.map mode address size (s.map.setAccessModeAtAddress mode address size) := by
  intro h
  let m : FEMemoryMap Unit := { create 0x40000000 with memoryMapAccessModeChangeCallback := true }
  have hcovers := h [] _ .start ⟨true,false,false⟩ 0x1000 0x2000 (by decide) (by decide)
  obtain ⟨m',hset,hall,_⟩ := hcovers
  have hmode : (m.setAccessModeAtAddress ⟨true,false,false⟩ 0x1000 0x2000 >>=
      fun m' => m'.accessModeAtAddress 0x2000)=.ok .none := by decide +kernel
  obtain ⟨m₁,hm₁,hmode⟩ := bind_eq_ok.mp hmode
  cases hset.symm.trans hm₁
  have hread := hall 0x2000 ⟨by decide,by decide⟩
  rw [hmode] at hread
  cases hread

end FalloutEmu.AccessRights
