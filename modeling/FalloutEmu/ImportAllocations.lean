import FalloutEmu.ImportCalls

/-! # Blocks that imported functions map for the guest -/
namespace FalloutEmu.ImportAllocations
open ByteStore Emulator
open Assembly (Machine word)
open AssemblySimulation
open FEMemoryMapBlock (Contains)
open FlatMemory (InBlock)
open ImportCalls
open KnownCode (Program)
open StaticImports (Gigabyte)
variable {F : Type} {env : Environment F} {program program' : Program} {s t u : FEProcess F}
  {m m' m'' : Machine}

section Growth

/-- The map of a process: a gigabyte, with the blocks of the imports among its blocks. -/
structure Ready (s : FEProcess F) : Prop where
  gigabyte : Gigabyte s.memory.map
  spanned : AccessRights.Spanned 0x40000000 s.memory.map
  imports : ImportsMapped s

/-- What the mapping of blocks by an import leaves of the process, the program and the machine. -/
structure Grows (program program' : Program) (s u : FEProcess F) (m m' : Machine) : Prop where
  holding : Holding program' u m'
  includes : Includes program program'
  remaps : Remaps s.memory.map u.memory.map
  ready : Ready u
  process : u={ s with memory := u.memory }
  machine : m'={ m with memory := m'.memory,data := m'.data }
  kept : ∀a,InBlock s.memory.map a 1→m'.memory a=m.memory a
  data : m.data⊆m'.data

theorem Grows.trans {program'' : Program} (h : Grows program program' s t m m')
    (k : Grows program' program'' t u m' m'') :
    Grows program program'' s u m m'' where
  holding := k.holding
  includes a entry hentry := k.includes a entry (h.includes a entry hentry)
  remaps := h.remaps.trans k.remaps
  ready := k.ready
  process := by
    have hprocess := k.process
    rw [h.process] at hprocess
    exact hprocess
  machine := by
    have hmachine := k.machine
    rw [h.machine] at hmachine
    exact hmachine
  kept a ha := (k.kept a (h.remaps.mono.inBlock ha)).trans (h.kept a ha)
  data := h.data.trans k.data

variable {map : FEMemoryMap DisasmContext} {size : U32} {mode : FEMemoryAccessMode}
  {tag : List Char} {host : HostAllocation} {bytes : List U8}
  {result : FEMemoryMap.MallocResult DisasmContext}

theorem malloc_run (hbuild : env.build=.debug) (h : s.memory.map.malloc .debug size mode tag host=
    .ok result) :
    malloc size mode tag host env s=.ok (result.address,
      { s with memory := ⟨result.map,s.memory.host⟩ }) := by
  apply Exec.atomic_of_ok
  rw [hbuild,h]
  rfl

/-- A new block with the bytes that are copied into it. -/
theorem place_grows (h : Holding program s m) (hready : Ready s) (hbytes : bytes.length=size.toNat)
    (hpos : 0<size.toNat) (hsize : size.toNat≤0x40000000) (hfresh : Fresh s.memory.map size host)
    (hmalloc : s.memory.map.malloc .debug size mode tag host=.ok result) :
    ∃block u flat,(block.virtualAddress=result.address ∧ block.size=size ∧
      block.tag=FEMemoryMapBlock.tagCopy tag) ∧
      Adds s.memory.map result.map block ∧ u.memory.map=result.map ∧
      (Emulator.store fun memory => memory.memcpyToVirtualFromReal result.address bytes) env
        { s with memory := ⟨result.map,s.memory.host⟩ }=.ok ((),u) ∧
      Grows program program s u m (onMemory m flat) ∧ readAt flat block.virtualAddress.toNat
        bytes.length=bytes ∧
      ∀a,¬block.Contains a→flat a=m.memory a := by
  obtain ⟨block,flat,hstart,hblock,hend,htag,hadds,hholds,hflat⟩ :=
    malloc_adds hready.gigabyte h.represents.memory hsize hfresh hmalloc
  have hin : InBlock result.map result.address.toNat bytes.length := by
    refine ⟨block,hadds.mem,by rw [hstart],?_⟩
    rw [hstart,hblock,hbytes]
  obtain ⟨memory,hstore,hwritten,hmap⟩ := Repetition.store_element hholds bytes (hbytes ▸ hpos) hin
  have hoff : ∀a,¬block.Contains a→writeAt flat result.address.toNat bytes a=m.memory a := by
    intro a ha
    rw [writeAt_apply_of_outside ?_,hflat a ha]
    by_contra hcontains
    refine ha ⟨?_,?_⟩
    · rw [hstart]
      omega
    · rw [hstart,hblock]
      omega
  have hkept : ∀a,InBlock s.memory.map a 1→writeAt flat result.address.toNat bytes a=m.memory a :=
    fun a ha => hoff a (hadds.free a ha)
  have hremaps : Remaps s.memory.map memory.map := by
    rw [hmap]
    exact hadds.toRemaps
  refine ⟨block,{ s with memory := memory },writeAt flat result.address.toNat bytes,
    ⟨hstart,hblock,htag⟩,hadds,hmap,?_,⟨?_,fun _ _ h => h,hremaps,?_,rfl,rfl,hkept,subset_rfl⟩,?_,
    hoff⟩
  · exact Repetition.store_run (s:={ s with memory := ⟨result.map,s.memory.host⟩ }) hstore
  · exact holding_remap h hremaps hwritten hkept
  · refine ⟨?_,?_,fun proxy hproxy linked hlinked => ?_⟩
    · show Gigabyte memory.map
      rw [hmap]
      exact hadds.gigabyte
    · show AccessRights.Spanned _ memory.map
      rw [hmap]
      exact hready.spanned.malloc hmalloc
    · obtain ⟨b,hb,hsome⟩ := hready.imports proxy hproxy linked hlinked
      exact ⟨b,hremaps.mono b hb,hsome⟩
  · rw [hstart]
    exact readAt_writeAt_self _ _ _

theorem gigabyte_sameBlocks {map' : FEMemoryMap DisasmContext} (h : Gigabyte map)
    (hsame : FEMemoryMap.SameBlocks map map') :
    Gigabyte map' := by
  refine ⟨h.wellFormed.sameBlocks hsame,hsame.size.trans h.size,fun b hb => ?_⟩
  rw [hsame.blocks] at hb
  exact h.inside b hb

theorem Ready.steady (h : Ready s) (hst : Steady s t) : Ready t where
  gigabyte := gigabyte_sameBlocks h.gigabyte hst.blocks
  spanned := h.spanned.sameBlocks hst.blocks
  imports proxy hproxy block hblock := by
    rw [hst.importsProxy] at hproxy
    rw [hst.blocks.blocks]
    exact h.imports proxy hproxy block hblock

theorem Grows.refl (h : Holding program s m) (hready : Ready s) : Grows program program s s m m :=
  ⟨h,fun _ _ h => h,⟨hready.gigabyte.wellFormed,fun _ h => h,rfl,fun _ h => h,fun p _ _ hb hc =>
    ⟨p,hb,hc⟩⟩,hready,rfl,rfl,fun _ _ => rfl,subset_rfl⟩

end Growth

section Data
variable {map : FEMemoryMap DisasmContext} {block : FEMemoryMapBlock} {flat : ℕ→U8}

/-- The code and the data of the process lie outside of a new block. -/
structure Outside (program : Program) (s : FEProcess F) (m : Machine)
    (block : FEMemoryMapBlock) : Prop where
  program : ∀a,∀entry∈program.entry a,∀i<entry.length,¬block.Contains (a.toNat+i)
  data : ∀p,block.Contains p→m.Untouched p
  imports : ∀proxy∈s.importsProxy,∀a : U32,block.Contains a.toNat→
    proxy.isAddressWithinLoadedImports a=.ok false

theorem outside_of_adds (h : Holding program s m) (hready : Ready s)
    (hadds : Adds s.memory.map map block) :
    Outside program s m block where
  program a entry hentry i hi := hadds.free _ (inBlock_entry h.loaded hentry hi)
  data p hp a ha := by
    by_contra hin
    obtain ⟨b,hb,hlow,hhigh⟩ := h.represents.data a ha
    exact hadds.free p ⟨b,hb,by omega,by omega⟩ hp
  imports proxy hproxy a ha := by
    refine hready.imports.apart hready.gigabyte.wellFormed (fun b hb hcontains => ?_) proxy hproxy
    exact hadds.free _ ⟨b,hb,hcontains.1,hcontains.2⟩ ha

theorem word_of_readAt {a v : U32} (h : readAt flat a.toNat 4=littleEndian 4 v.toNat) :
    word flat a=v := by
  rw [word,h]
  exact ofNat_value_littleEndian (w:=32) rfl v

def slots (block : FEMemoryMapBlock) : Set ℕ :=
  {a | block.virtualAddress.toNat ≤ a ∧ a+4 ≤ block.virtualAddress.toNat+block.size.toNat}

structure Given (address : U32) (bytes : List U8) (m m' : Machine)
    (block : FEMemoryMapBlock) : Prop where
  start : block.virtualAddress=address
  size : block.size.toNat=bytes.length
  inside : block.virtualAddress.toNat+block.size.toNat≤0x40000000
  data : m'.data=m.data∪slots block
  untouched : ∀p,block.Contains p→m.Untouched p
  bytes : readAt m'.memory block.virtualAddress.toNat bytes.length=bytes
  others : ∀a,¬block.Contains a→m'.memory a=m.memory a

/-- Bytes in a block of their own, which the guest may access. -/
theorem give_run {bytes : List U8} {size : U32} {mode : FEMemoryAccessMode} {tag : List Char}
    {host : HostAllocation} {result : FEMemoryMap.MallocResult DisasmContext}
    (h : Holding program s m) (hready : Ready s) (hbuild : env.build=.debug)
    (hbytes : bytes.length=size.toNat) (hpos : 0<size.toNat) (hsize : size.toNat≤0x40000000)
    (hfresh : Fresh s.memory.map size host)
    (hmalloc : s.memory.map.malloc .debug size mode tag host=.ok result) :
    ∃block t u m',malloc size mode tag host env s=.ok (result.address,t) ∧
      (Emulator.store fun memory => memory.memcpyToVirtualFromReal result.address bytes) env t=
        .ok ((),u) ∧
      Grows program program s u m m' ∧ u.memory.map=result.map ∧
      Given result.address bytes m m' block := by
  obtain ⟨block,u,flat,⟨hstart,hblock,-⟩,hadds,hmap,hstore,hgrows,hread,hoff⟩ :=
    place_grows h hready hbytes hpos hsize hfresh hmalloc
  have hout := outside_of_adds h hready hadds
  have hholding : Holding program u (withData (onMemory m flat) (slots block)) := by
    refine holding_withData hgrows.holding (fun a ha => ⟨block,?_,ha.1,ha.2⟩) fun a entry hentry i
      hi d hd => ?_
    · rw [hmap]
      exact hadds.mem
    · by_contra hin
      exact hout.program a entry hentry i hi
        ⟨by have hlow := hd.1; omega,by have hlow := hd.2; omega⟩
  exact ⟨block,_,u,_,malloc_run hbuild hmalloc,hstore,⟨hholding,hgrows.includes,hgrows.remaps,
    hgrows.ready,hgrows.process,rfl,hgrows.kept,Set.subset_union_left⟩,hmap,
      ⟨hstart,by rw [hblock,hbytes],hadds.high,rfl,hout.data,hread,
    hoff⟩⟩

end Data

section Rows
variable {map map' : FEMemoryMap DisasmContext} {last block : FEMemoryMapBlock} {size : U32}
  {mode : FEMemoryAccessMode}

def behind (last : FEMemoryMapBlock) : U32 := roundUp (last.virtualAddress+last.size)

/-- A gigabyte whose blocks, none of them empty, follow one another. -/
structure Packed (map : FEMemoryMap DisasmContext) (last : FEMemoryMapBlock) : Prop where
  gigabyte : Gigabyte map
  spanned : AccessRights.Spanned 0x40000000 map
  elements : ∃blocks,map.memoryMapBlocks.elements=blocks++[last]
  first : ∀b∈map.memoryMapBlocks.elements.head?,b.virtualAddress ≤ 4096
  adjacent : map.memoryMapBlocks.elements.IsChain fun b c => behind b=c.virtualAddress
  nonempty : ∀b∈map.memoryMapBlocks.elements,0<b.size.toNat

theorem toNat_behind (h : last.virtualAddress.toNat+last.size.toNat ≤ 0x40000000) :
    (behind last).toNat=4096*last.pageEnd :=
  FEMemoryMap.toNat_roundUp last (by unfold FEMemoryMap.roundedEnd FEMemoryMapBlock.pageEnd; omega)

theorem pageEnd_le_of_adjacent {blocks : List FEMemoryMapBlock}
    (hinside : ∀b∈blocks++[last],b.virtualAddress.toNat+b.size.toNat ≤ 0x40000000)
    (h : (blocks++[last]).IsChain fun b c => behind b=c.virtualAddress) :
    ∀b∈blocks++[last],b.pageEnd ≤ last.pageEnd := by
  induction blocks with
  | nil =>
    intro b hb
    rw [List.mem_singleton.mp hb]
  | cons first blocks ih =>
    have hrest : ∀b∈blocks++[last],b.pageEnd ≤ last.pageEnd :=
      ih (fun b hb => hinside b (List.mem_cons_of_mem _ hb)) (List.isChain_cons.mp h).2
    intro b hb
    rcases List.mem_cons.mp hb with rfl | hb
    · obtain ⟨next,hnext⟩ : ∃next,(blocks++[last]).head?=some next := by
        cases blocks with
        | nil => exact ⟨last,rfl⟩
        | cons second _ => exact ⟨second,rfl⟩
      have hmem := List.mem_of_head? hnext
      have hadjacent : behind b=next.virtualAddress := (List.isChain_cons.mp h).1 next hnext
      have hstart := toNat_behind (hinside b List.mem_cons_self)
      have hle := hrest next hmem
      rw [hadjacent] at hstart
      unfold FEMemoryMapBlock.pageEnd at *
      omega
    · exact hrest b hb

theorem length_le_of_adjacent {blocks : List FEMemoryMapBlock} {n : ℕ}
    (hinside : ∀b∈blocks,b.virtualAddress.toNat+b.size.toNat ≤ 0x40000000)
    (hnonempty : ∀b∈blocks,0<b.size.toNat) (h : blocks.IsChain fun b c => behind b=c.virtualAddress)
    (hstart : ∀b∈blocks.head?,n ≤ b.firstPage) (hn : n≤0x40000) :
    n+blocks.length≤0x40000 := by
  induction blocks generalizing n with
  | nil => exact hn
  | cons b blocks ih =>
    obtain ⟨hnext,hrest⟩ := List.isChain_cons.mp h
    have hb := hinside b List.mem_cons_self
    have hsize := hnonempty b List.mem_cons_self
    have hfirst := hstart b rfl
    have hpages : n<b.pageEnd ∧ b.pageEnd≤0x40000 := by
      unfold FEMemoryMapBlock.firstPage at hfirst
      unfold FEMemoryMapBlock.pageEnd
      omega
    have hlength := ih (n:=n+1) (fun c hc => hinside c (List.mem_cons_of_mem _ hc))
      (fun c hc => hnonempty c (List.mem_cons_of_mem _ hc)) hrest (fun c hc => ?_) (by omega)
    · rw [List.length_cons]
      omega
    · have hbehind := toNat_behind hb
      rw [hnext c hc] at hbehind
      unfold FEMemoryMapBlock.firstPage
      omega

theorem Packed.grows (h : Packed map last) : map.memoryMapBlocks.Grows := by
  have hlength := length_le_of_adjacent (n:=0) h.gigabyte.inside h.nonempty h.adjacent
    (fun _ _ => Nat.zero_le _) (by decide)
  exact FEArray.grows_blocks (by omega)

/-- Such a map gives the pages behind its last block. -/
theorem Packed.malloc (h : Packed map last) (hpos : 0<size.toNat)
    (hroom : (behind last).toNat+size.toNat<0x40000000) (mode : FEMemoryAccessMode)
    (tag : List Char) (realAddress newBlock : ℕ) :
    ∃result,map.malloc .debug size mode tag ⟨some realAddress,some newBlock⟩=.ok result ∧
    result.address=behind last ∧
      result.map.memoryMapBlocks.elements=
        map.memoryMapBlocks.elements++[FEMemoryMap.mallocBlock size tag realAddress newBlock
          (behind last)] ∧
      Packed result.map (FEMemoryMap.mallocBlock size tag realAddress newBlock (behind last)) := by
  obtain ⟨blocks,hblocks⟩ := h.elements
  have hinside : ∀b∈blocks++[last],b.virtualAddress.toNat+b.size.toNat ≤ 0x40000000 :=
    fun b hb => h.gigabyte.inside b (hblocks ▸ hb)
  have hlast := hinside last (by simp)
  have hends := pageEnd_le_of_adjacent hinside (hblocks ▸ h.adjacent)
  have hstart := toNat_behind hlast
  have hgaps : FEMemoryMap.searchGaps size true (blocks++[last])=none := by
    refine searchGaps_adjacent (fun b hb _ => h.first b (hblocks ▸ hb))
      (hblocks ▸ h.adjacent) fun b hb => ?_
    have hb := hinside b hb
    omega
  have hfind := findAddress_behind hblocks hgaps (by
    show behind last+size < map.size
    rw [h.gigabyte.size]
    bv_omega)
  obtain ⟨result,hmalloc,haddress,helements⟩ := malloc_behind h.gigabyte h.spanned h.grows hfind
    (fun b hb => by
      have hb := hends b (hblocks ▸ hb)
      show b.pageEnd ≤ (behind last).toNat/4096
      omega) hpos (by show (behind last).toNat+_ ≤ _; omega) mode tag realAddress newBlock
  refine ⟨result,hmalloc,haddress,helements,(h.gigabyte.malloc (by omega) hmalloc).1,
    h.spanned.malloc hmalloc,⟨_,helements⟩,?_,?_,?_⟩
  · rw [helements,hblocks,List.head?_append_of_ne_nil _ (by simp),←hblocks]
    exact h.first
  · rw [helements,hblocks]
    refine List.isChain_append.mpr ⟨hblocks ▸ h.adjacent,List.isChain_singleton _,?_⟩
    intro b hb c hc
    rw [List.getLast?_concat] at hb
    cases hb
    cases hc
    rfl
  · rw [helements]
    intro b hb
    rcases List.mem_append.mp hb with hold | hnew
    · exact h.nonempty b hold
    · rw [List.mem_singleton.mp hnew]
      exact hpos

theorem Packed.sameBlocks (h : Packed map last) (hsame : FEMemoryMap.SameBlocks map map') :
    Packed map' last where
  gigabyte := gigabyte_sameBlocks h.gigabyte hsame
  spanned := h.spanned.sameBlocks hsame
  elements := by
    rw [hsame.blocks]
    exact h.elements
  first := by
    rw [hsame.blocks]
    exact h.first
  adjacent := by
    rw [hsame.blocks]
    exact h.adjacent
  nonempty := by
    rw [hsame.blocks]
    exact h.nonempty

theorem fresh_of_elements (hmap : FEMemoryMap.WellFormed map) {realAddress newBlock : ℕ}
    (hpointer : ∀b∈map.memoryMapBlocks.elements,b.pointer≠newBlock)
    (hbuffer : ∀b∈map.memoryMapBlocks.elements,
      b.localAddress+b.size.toNat ≤ realAddress ∨ realAddress+size.toNat ≤ b.localAddress) :
    Fresh map size ⟨some realAddress,some newBlock⟩ := by
  refine ⟨fun p b hb heq => hpointer b ((hmap.owner p b).mp hb).1 (Option.some.inj heq),
    fun a ha b hb => ?_⟩
  cases ha
  exact hbuffer b hb

end Rows
end FalloutEmu.ImportAllocations
