import FalloutEmu.AccessRights
import FalloutEmu.AssemblySimulation
import FalloutEmu.DynamicImports

/-! # Imported functions that a program of the machine calls

Such a function works on the process. Where it maps a block, the machine gets new contents, and what
the program had stays where it was. -/
namespace FalloutEmu.ImportCalls
open ByteStore Emulator
open Assembly (Register Operand Source Machine Instruction)
open AssemblySimulation
open FEMemoryMap (WellFormed SameBlocks CachesHold mallocBlock mem_withBlock)
open FEMemoryMapBlock (Contains OwnsPage)
open FlatMemory (Holds InBlock Extends Apart)
open KnownCode (Program Entry)
open StackDiscipline (Owned)
open StaticImports (Gigabyte Inside endsInSpace_of_fits)
variable {F : Type} {env : Environment F} {program added : Program} {s t u : FEProcess F}
  {m m' : Machine}

section Operations

def malloc (size : U32) (mode : FEMemoryAccessMode) (tag : List Char)
    (host : HostAllocation) : Emulator F U32 :=
  Exec.atomic fun env s => do
    let result ← s.memory.map.malloc env.build size mode tag host
    .ok (result.address,{ s with memory := ⟨result.map,s.memory.host⟩ })

def setAccessModeAtAddress (mode : FEMemoryAccessMode) (address size : U32) : Emulator F Unit :=
  Exec.atomic fun _ s => do
    let map ← s.memory.map.setAccessModeAtAddress mode address size
    .ok ((),{ s with memory := ⟨map,s.memory.host⟩ })

/-- What an imported function runs in: it calls no other imported function. -/
def withoutImports (env : Environment F) : Environment F :=
  { env with executeFunction := fun _ => Exec.fail .exception }

end Operations

/-- What a change of the map keeps for the process: its blocks, and of the decode caches those that
remain. -/
structure Remaps (map map' : FEMemoryMap DisasmContext) : Prop where
  wellFormed : WellFormed map'
  mono : Extends map map'
  rights : map'.memoryMapRightsShadow.capacity=map.memoryMapRightsShadow.capacity
  caches : ∀P,map.CachesHold P→map'.CachesHold P
  contexts : ∀p b c,map'.memoryMapBlocksShadow.slot p=some b→map'.context b.pointer=some c→
    ∃q,map.memoryMapBlocksShadow.slot q=some b ∧ map.context b.pointer=some c

section Maps
variable {map map' map'' : FEMemoryMap DisasmContext} {memory : Memory DisasmContext} {size : U32}
  {mode : FEMemoryAccessMode} {tag : List Char} {host : HostAllocation} {block b : FEMemoryMapBlock}
    {flat : ℕ→U8}

theorem Remaps.trans (h : Remaps map map') (k : Remaps map' map'') : Remaps map map'' where
  wellFormed := k.wellFormed
  mono b hb := k.mono b (h.mono b hb)
  rights := k.rights.trans h.rights
  caches P hP := k.caches P (h.caches P hP)
  contexts p b c hb hc := by
    obtain ⟨q,hb,hc⟩ := k.contexts p b c hb hc
    exact h.contexts q b c hb hc

/-- What the host's `malloc` returns: a descriptor that no block has and a buffer of its own. -/
structure Fresh (map : FEMemoryMap DisasmContext) (size : U32) (host : HostAllocation) : Prop where
  pointer : ∀p b,map.memoryMapBlocksShadow.slot p=some b→some b.pointer≠host.newBlock
  buffer : ∀realAddress∈host.realAddress,∀b∈map.memoryMapBlocks.elements,
    b.localAddress+b.size.toNat ≤ realAddress ∨ realAddress+size.toNat ≤ b.localAddress

/-- A new block, which takes pages that no other block has. -/
structure Adds (map map' : FEMemoryMap DisasmContext) (block : FEMemoryMapBlock) : Prop
  extends Remaps map map' where
  gigabyte : Gigabyte map'
  elements : ∀b,b∈map'.memoryMapBlocks.elements ↔ b∈map.memoryMapBlocks.elements ∨ b=block
  free : ∀a,InBlock map a 1→¬block.Contains a

theorem Adds.mem (h : Adds map map' block) : block∈map'.memoryMapBlocks.elements :=
  (h.elements block).mpr (.inr rfl)

theorem Adds.high (h : Adds map map' block) :
    block.virtualAddress.toNat+block.size.toNat≤0x40000000 :=
  h.gigabyte.inside block h.mem

/-- A block that takes free pages contains nothing that another block does. -/
theorem outside_of_free (hmap : WellFormed map) (hfree : map.Free block) {a : ℕ}
    (ha : InBlock map a 1) :
    ¬block.Contains a := by
  intro hcontains
  obtain ⟨b,hb,hlow,hhigh⟩ := ha
  have hin : b.Contains a := ⟨hlow,by omega⟩
  have hslot := (hmap.owner _ b).mpr ⟨hb,hin.ownsPage⟩
  rw [(hfree _ hcontains.ownsPage).2] at hslot
  cases hslot

theorem malloc_adds (hmap : Gigabyte memory.map) (hholds : Holds memory flat)
    (hsize : size.toNat≤0x40000000) (hfresh : Fresh memory.map size host)
    {result : FEMemoryMap.MallocResult DisasmContext}
    (h : memory.map.malloc .debug size mode tag host=.ok result) :
    ∃block flat',block.virtualAddress=result.address ∧ block.size=size ∧ block.blockEnd=
      result.address+size ∧
      block.tag=FEMemoryMapBlock.tagCopy tag ∧ Adds memory.map result.map block ∧
      Holds ⟨result.map,memory.host⟩ flat' ∧ ∀a,¬block.Contains a→flat' a=flat a := by
  obtain ⟨realAddress,newBlock,rfl,-,-,happend⟩ := FEMemoryMap.malloc_ok h
  obtain ⟨hwell,hsame,hfits,hfree⟩ := hmap.wellFormed.malloc (hmap.offers hsize)
    (fun address hfits => FlatMemory.endsInSpace_reach address (endsInSpace_of_fits hfits)) h
  obtain ⟨hgigabyte,-,helements⟩ := hmap.malloc hsize h
  have hkeeps := FEMemoryMap.appendMemoryBlock_keeps happend
  refine ⟨_,_,rfl,rfl,rfl,rfl,⟨⟨hwell,FlatMemory.extends_of_withBlock hsame,hsame.rights,
    fun P hP => hP.malloc hfresh.pointer h,?_⟩,hgigabyte,helements,
      fun a => outside_of_free hmap.wellFormed hfree⟩,
    hholds.addBlock hwell hsame (hfresh.buffer realAddress rfl),?_⟩
  · intro p b c hb hc
    have hcontext := hkeeps.2 _ c hc
    have hpointer : b.pointer≠newBlock := by
      intro heq
      rw [heq] at hcontext
      simp [FEMemoryMap.clearContext] at hcontext
    rw [FEMemoryMap.clearContext] at hcontext
    simp only [if_neg hpointer] at hcontext
    rcases hkeeps.1 p b hb with rfl | ⟨q,hq⟩
    · exact absurd rfl hpointer
    · exact ⟨q,hq,hcontext⟩
  · intro a ha
    refine writeAt_apply_of_outside ?_
    rw [length_readAt]
    by_contra hin
    exact ha ⟨by omega,by omega⟩

theorem slot_of_contains (hmap : WellFormed map) (hb : b∈map.memoryMapBlocks.elements) {a : U32}
    (ha : b.Contains a.toNat) : map.memoryMapBlocksShadow.get (shadowIndex a)=.ok (some b) := by
  have hslot := (hmap.owner (shadowIndex a) b).mpr ⟨hb,ha.ownsPage⟩
  exact Shadow.get_eq_ok.mpr ⟨hmap.bounded _ _ hslot,hslot⟩

/-- Blocks that follow one another, from the first page on, leave no gap. -/
theorem searchGaps_adjacent {isFirst : Bool} {blocks : List FEMemoryMapBlock}
    (hfirst : ∀b∈blocks.head?,isFirst=true→b.virtualAddress ≤ 4096)
    (hadjacent : blocks.IsChain fun b c => roundUp (b.virtualAddress+b.size)=c.virtualAddress)
    (hspace : ∀b∈blocks,b.virtualAddress.toNat+size.toNat<2^32) :
    FEMemoryMap.searchGaps size isFirst blocks=none := by
  induction blocks generalizing isFirst with
  | nil => rfl
  | cons b blocks ih =>
    have hstart : ¬((isFirst : Prop) ∧ b.virtualAddress>4096 ∧ size < b.virtualAddress-4096) := by
      rintro ⟨htrue,habove,_⟩
      have hlow := hfirst b rfl htrue
      exact absurd habove (BitVec.not_lt.mpr hlow)
    rw [FEMemoryMap.searchGaps.eq_def]
    simp only
    rw [if_neg hstart]
    cases blocks with
    | nil => rfl
    | cons c blocks =>
      obtain ⟨hnext,hrest⟩ := List.isChain_cons_cons.mp hadjacent
      have hfull : ¬roundUp (b.virtualAddress+b.size)+size < c.virtualAddress := by
        have hroom := hspace c (List.mem_cons_of_mem _ List.mem_cons_self)
        rw [hnext]
        bv_omega
      simp only
      rw [if_neg hfull]
      exact ih (fun _ _ hfalse => by cases hfalse) hrest fun d hd =>
        hspace d (List.mem_cons_of_mem _ hd)

/-- The search of a map without gaps ends behind the last block. -/
theorem findAddress_behind {blocks : List FEMemoryMapBlock}
    (h : map.memoryMapBlocks.elements=blocks++[block])
    (hgaps : FEMemoryMap.searchGaps size true (blocks++[block])=none)
    (hfits : roundUp (block.virtualAddress+block.size)+size < map.size) :
    map.findAddress size=.ok (some (roundUp (block.virtualAddress+block.size))) := by
  have hne : map.memoryMapBlocks.elements≠[] := by simp [h]
  have hsize : map.memoryMapBlocks.size≠0 := by
    rw [←FEArray.length_elements,h]
    simp
  have hlast : map.memoryMapBlocks.last=.ok block := by
    rw [FEArray.last_eq_ok _ hne]
    simp [h]
  have hfits' : ¬roundUp (block.virtualAddress+block.size)+size≥map.size := by
    rw [ge_iff_le,BitVec.not_le]
    exact hfits
  rw [FEMemoryMap.findAddress,h,hgaps]
  simp only
  rw [if_neg hsize,hlast,ok_bind,if_neg hfits']

theorem malloc_behind (hmap : Gigabyte map) (hspanned : AccessRights.Spanned 0x40000000 map)
    (hgrows : map.memoryMapBlocks.Grows) {address : U32}
    (hfind : map.findAddress size=.ok (some address))
    (hbehind : ∀b∈map.memoryMapBlocks.elements,b.pageEnd ≤ shadowIndex address)
    (hpos : 0<size.toNat) (hhigh : address.toNat+size.toNat≤0x40000000) (mode : FEMemoryAccessMode)
    (tag : List Char) (realAddress newBlock : ℕ) :
    ∃result,map.malloc .debug size mode tag ⟨some realAddress,some newBlock⟩=.ok result ∧
    result.address=address ∧
      result.map.memoryMapBlocks.elements=
        map.memoryMapBlocks.elements++[mallocBlock size tag realAddress newBlock address] := by
  obtain ⟨b,hb⟩ : ∃b,b=mallocBlock size tag realAddress newBlock address := ⟨_,rfl⟩
  have hstart : b.virtualAddress=address := by rw [hb]; rfl
  have hsize : b.size=size := by rw [hb]; rfl
  have hend : b.pageEnd=(address.toNat+size.toNat-1)/4096+1 := by
    rw [FEMemoryMapBlock.pageEnd_eq (by rw [hsize]; exact hpos),hstart,hsize]
  have hcapacity : (map.clearContext newBlock).memoryMapBlocksShadow.capacity=0x40001 := by
    show map.memoryMapBlocksShadow.capacity=_
    rw [hspanned.pages,hspanned.size]
    rfl
  have hrights : (map.clearContext newBlock).memoryMapRightsShadow.capacity=0x40001 := by
    show map.memoryMapRightsShadow.capacity=_
    rw [hspanned.rights,hspanned.size]
    rfl
  have hfree : (map.clearContext newBlock).Free b := by
    rintro p ⟨hlow,hp⟩
    rw [hend] at hp
    rw [FEMemoryMapBlock.firstPage,hstart] at hlow
    refine ⟨by rw [hcapacity]; omega,?_⟩
    cases hslot : map.memoryMapBlocksShadow.slot p with
    | none => exact hslot
    | some c =>
      obtain ⟨hc,howns⟩ := (hmap.wellFormed.owner p c).mp hslot
      have hpage := hbehind c hc
      have hlast := howns.2
      unfold shadowIndex alignment at hpage
      omega
  have hplace : FEMemoryMap.Placeable b := ⟨by rw [hstart,hsize]; omega,by rw [hstart,hsize]; omega⟩
  obtain ⟨map',happend,hsame⟩ := hplace.append_free .debug mode hfree hgrows
    (by rw [hcapacity,hstart]; unfold shadowIndex alignment; omega)
    (by
      have hlast : (b.virtualAddress+b.size-1).toNat=address.toNat+size.toNat-1 := by
        rw [hstart,hsize]
        bv_omega
      rw [hrights,shadowIndex,hlast]
      unfold alignment
      omega)
  refine ⟨⟨address,map',[]⟩,?_,rfl,?_⟩
  · have hfind' : (map.clearContext newBlock).findAddress size=.ok (some address) := hfind
    rw [FEMemoryMap.malloc]
    simp only
    rw [hfind',ok_bind]
    simp only
    rw [←hb,happend]
    rfl
  · have hblocks : map'.memoryMapBlocks=(map.memoryMapBlocks.appended b).mergeSort
      FEMemoryMapBlock.compare := hsame.blocks
    show map'.memoryMapBlocks.elements=_
    rw [hblocks,FEArray.elements_mergeSort,FEArray.elements_appended,←hb]
    refine List.mergeSort_of_pairwise (List.pairwise_append.mpr ⟨?_,List.pairwise_singleton _ _,?_⟩)
    · exact hmap.wellFormed.sorted.imp fun h => by
        rw [FEMemoryMap.before_compare]; exact decide_eq_true h
    · intro c hc d hd
      rw [List.mem_singleton.mp hd,FEMemoryMap.before_compare,hstart]
      have hpage := hbehind c hc
      unfold FEMemoryMapBlock.pageEnd shadowIndex alignment at hpage
      exact decide_eq_true (by omega)

end Maps

section Machines
variable {memory : Memory DisasmContext} {flat : ℕ→U8}

def onMemory (m : Machine) (flat : ℕ→U8) : Machine := { m with memory := flat }

def withData (m : Machine) (data : Set ℕ) : Machine := { m with data := m.data∪data }

theorem represents_remap (h : Represents s m) (hmono : Extends s.memory.map memory.map)
    (hholds : Holds memory flat) :
    Represents { s with memory := memory } (onMemory m flat) where
  register := h.register
  flags := h.flags
  segments := h.segments
  memory := hholds
  data a ha := hmono.inBlock (h.data a ha)
  stack := by
    obtain ⟨b,hb,howned,hsize,hstack⟩ := h.stack
    refine ⟨b,hmono b hb,⟨howned.block,howned.start,howned.base,howned.space,fun a hlow hhigh =>
      ?_⟩,hsize,hstack⟩
    refine slot_of_contains hholds.wellFormed (hmono b hb) ⟨?_,?_⟩
    · rw [howned.start]
      exact hlow
    · rw [howned.start,hsize]
      exact hhigh

theorem inBlock_entry (h : program.Loaded memory flat) {a : U32} {entry : Entry}
    (hentry : entry∈program.entry a) {i : ℕ} (hi : i<entry.length) :
    InBlock memory.map (a.toNat+i) 1 := by
  obtain ⟨_,b,hb,hlow,hhigh,_⟩ := h.blocks a entry hentry
  exact ⟨b,hb,by omega,by omega⟩

theorem loaded_remap {memory' : Memory DisasmContext} {flat' : ℕ→U8}
    (h : program.Loaded memory flat) (hremaps : Remaps memory.map memory'.map)
    (hkept : ∀a,InBlock memory.map a 1→flat' a=flat a) :
    program.Loaded memory' flat' where
  bytes a entry hentry i hi := by
    rw [hkept _ (inBlock_entry h hentry hi)]
    exact h.bytes a entry hentry i hi
  blocks a entry hentry := by
    obtain ⟨hpos,b,hb,hin⟩ := h.blocks a entry hentry
    exact ⟨hpos,b,hremaps.mono b hb,hin⟩
  rights a ha := by
    obtain ⟨mode,hmode⟩ := h.rights a ha
    refine ⟨_,Shadow.get_eq_ok.mpr ⟨?_,rfl⟩⟩
    rw [hremaps.rights]
    exact (Shadow.get_eq_ok.mp hmode).1
  caches := hremaps.caches _ h.caches
  indexes p b c hb hc := by
    obtain ⟨q,hb,hc⟩ := hremaps.contexts p b c hb hc
    exact h.indexes q b c hb hc

theorem holding_remap (h : Holding program s m) (hremaps : Remaps s.memory.map memory.map)
    (hholds : Holds memory flat) (hkept : ∀a,InBlock s.memory.map a 1→flat a=m.memory a) :
    Holding program { s with memory := memory } (onMemory m flat) :=
  ⟨represents_remap h.represents hremaps.mono hholds,loaded_remap h.loaded hremaps hkept,
    h.untouched,h.stack,h.imports,h.running⟩

/-- Double words outside of the program may be accessed as well. -/
theorem holding_withData (h : Holding program s m) {data : Set ℕ}
    (hdata : ∀a∈data,InBlock s.memory.map a 4) (hfree : ∀a,∀entry∈program.entry a,∀i<entry.length,
      ∀d∈data,a.toNat+i<d ∨ d+4 ≤ a.toNat+i) :
    Holding program s (withData m data) where
  represents := ⟨h.represents.register,h.represents.flags,h.represents.segments,h.represents.memory,
    fun a ha => ha.elim (h.represents.data a) (hdata a),h.represents.stack⟩
  loaded := h.loaded
  untouched a entry hentry i hi d hd := hd.elim (h.untouched a entry hentry i hi d)
    (hfree a entry hentry i hi d)
  stack := h.stack.trans Set.subset_union_left
  imports := h.imports
  running := h.running

end Machines

section Programs

/-- A program over another one, which keeps the rest of its instructions. -/
def patch (program added : Program) (start length : ℕ) : Program where
  entry a := if start ≤ a.toNat ∧ a.toNat<start+length then added.entry a else program.entry a
  bytes p := if start ≤ p ∧ p<start+length then added.bytes p else program.bytes p

theorem entry_patch_inside {start length : ℕ} {a : U32}
    (h : start ≤ a.toNat ∧ a.toNat<start+length) :
    (patch program added start length).entry a=added.entry a :=
  if_pos h

theorem entry_patch_outside {start length : ℕ} {a : U32}
    (h : ¬(start ≤ a.toNat ∧ a.toNat<start+length)) :
    (patch program added start length).entry a=program.entry a :=
  if_neg h

/-- All instructions of the program are instructions of the other one. -/
def Includes (program program' : Program) : Prop := ∀a,∀entry∈program.entry a,entry∈program'.entry a

/-- The instructions of `added` lie in the range, and those of `program` outside. -/
structure Patches (program added : Program) (start length : ℕ) : Prop where
  inside : ∀a,∀entry∈added.entry a,start ≤ a.toNat→a.toNat+entry.length ≤ start+length
  outside : ∀a,∀entry∈program.entry a,∀i<entry.length,a.toNat+i<start ∨ start+length ≤ a.toNat+i
  positive : ∀a,∀entry∈program.entry a,0<entry.length

namespace Patches
variable {start length : ℕ}

theorem includes (h : Patches program added start length) :
    Includes program (patch program added start length) := by
  intro a entry hentry
  have hout := h.outside a entry hentry 0 (h.positive a entry hentry)
  rw [entry_patch_outside (by omega)]
  exact hentry

/-- An instruction of the patched program, with its bytes. -/
theorem cases (h : Patches program added start length) {a : U32} {entry : Entry}
    (hentry : entry∈(patch program added start length).entry a) :
    (entry∈added.entry a ∧ (start ≤ a.toNat ∧ a.toNat<start+length) ∧
      ∀i<entry.length,(patch program added start length).bytes (a.toNat+i)=
        added.bytes (a.toNat+i)) ∨
    (entry∈program.entry a ∧
      ∀i<entry.length,(patch program added start length).bytes (a.toNat+i)=
        program.bytes (a.toNat+i)) := by
  by_cases hin : start ≤ a.toNat ∧ a.toNat<start+length
  · rw [entry_patch_inside hin] at hentry
    refine .inl ⟨hentry,hin,fun i hi => if_pos ?_⟩
    have hinside := h.inside a entry hentry hin.1
    omega
  · rw [entry_patch_outside hin] at hentry
    refine .inr ⟨hentry,fun i hi => if_neg ?_⟩
    have hout := h.outside a entry hentry i hi
    omega

theorem decodedBy (h : Patches program added start length) {disasm : Disassembler}
    (hprogram : program.DecodedBy disasm) (hadded : added.DecodedBy disasm) :
    (patch program added start length).DecodedBy disasm := by
  intro a entry hentry stale reip host hhost
  rcases h.cases hentry with ⟨hentry',hin,hbytes⟩ | ⟨hentry',hbytes⟩
  · obtain ⟨hknown,entry',hat,hdelivers⟩ := hadded a entry hentry' stale reip host fun i hi => by
      rw [hhost i hi,hbytes i hi]
    exact ⟨hknown,entry',by rw [entry_patch_inside hin]; exact hat,hdelivers⟩
  · obtain ⟨hknown,entry',hat,hdelivers⟩ := hprogram a entry hentry' stale reip host fun i hi => by
      rw [hhost i hi,hbytes i hi]
    exact ⟨hknown,entry',h.includes a entry' hat,hdelivers⟩

end Patches

/-- No instruction of the block has been decoded. -/
def Cold (map : FEMemoryMap DisasmContext) (block : FEMemoryMapBlock) : Prop :=
  ∀p,map.memoryMapBlocksShadow.slot p=some block→map.context block.pointer=none

theorem Cold.remaps {map map' : FEMemoryMap DisasmContext} {block : FEMemoryMapBlock}
    (h : Cold map block) (hremaps : Remaps map map') : Cold map' block := by
  intro p hp
  cases hcontext : map'.context block.pointer with
  | none => rfl
  | some c =>
    obtain ⟨q,hq,hc⟩ := hremaps.contexts p block c hp hcontext
    rw [h q hq] at hc
    cases hc

theorem Adds.cold {map map' : FEMemoryMap DisasmContext} {block : FEMemoryMapBlock}
    (h : Adds map map' block) (hmap : WellFormed map) (hpos : 0<block.size.toNat) :
    Cold map' block := by
  intro p hp
  cases hcontext : map'.context block.pointer with
  | none => rfl
  | some c =>
    obtain ⟨q,hq,_⟩ := h.contexts p block c hp hcontext
    have hold := ((hmap.owner q block).mp hq).1
    have hstart : block.Contains block.virtualAddress.toNat := ⟨le_rfl,by omega⟩
    exact absurd hstart (h.free _ ⟨block,hold,le_rfl,by omega⟩)

/-- Code for a block that the process has not run yet. -/
structure Placed (program added : Program) (s : FEProcess F) (m : Machine)
    (block : FEMemoryMapBlock) (length : ℕ) :
    Prop where
  mem : block∈s.memory.map.memoryMapBlocks.elements
  cold : Cold s.memory.map block
  size : length ≤ block.size.toNat ∧ block.size.toNat ≤ FEArray.mostRecords
  patches : Patches program added block.virtualAddress.toNat length
  positive : ∀a,∀entry∈added.entry a,0<entry.length
  bytes : ∀p,block.virtualAddress.toNat ≤ p→p<block.virtualAddress.toNat+length→
    m.memory p=added.bytes p
  untouched : ∀p,block.Contains p→m.Untouched p
  imports : ∀proxy∈s.importsProxy,∀a : U32,block.Contains a.toNat→
    proxy.isAddressWithinLoadedImports a=.ok false
  rights : ∀a : U32,block.Contains a.toNat→∃mode,s.memory.map.accessModeAtAddress a=.ok mode

end Programs
section Registers

theorem keeps_push (hstack : m.stack⊆m.data) (hslot : (m.register .esp-4).toNat∈m.stack) (v : U32) :
    Keeps m (m.push v) :=
  ⟨rfl,rfl,fun _ hp => Machine.memory_push_of_untouched (hstack hslot) hp v⟩

theorem continues_setRegister (s : FEProcess F) (r : Register) (v : U32) :
    Continues s { s with currentThread := s.currentThread.setRegister32 r.name v } :=
  ⟨⟨rfl,s.currentThread.eip_setRegister r.leavesEIP v .k32bit,rfl,rfl,rfl⟩,rfl,rfl⟩

end Registers

section Imports

def ImportsMapped (s : FEProcess F) : Prop :=
  ∀proxy∈s.importsProxy,
  ∀block∈proxy.loadedStaticImportsMemoryBlock::proxy.dynamicImportMemoryBlocks,
    ∃b∈s.memory.map.memoryMapBlocks.elements,block=some b ∧ b.blockEnd=b.virtualAddress+b.size

theorem blockContains_eq_false {b : FEMemoryMapBlock} {a : U32}
    (hb : b.virtualAddress.toNat+b.size.toNat≤2^32) (hend : b.blockEnd=b.virtualAddress+b.size)
    (ha : ¬b.Contains a.toNat) :
    FEImportsProxy.blockContains (some b) a=.ok false := by
  refine congrArg Except.ok (decide_eq_false fun hin => ha ⟨hin.1,?_⟩)
  have hhigh : a<b.virtualAddress+b.size := hend ▸ hin.2
  bv_omega

/-- An address that no block of the map contains is not that of an import. -/
theorem ImportsMapped.apart (h : ImportsMapped s) (hmap : WellFormed s.memory.map) {a : U32}
    (ha : ∀b∈s.memory.map.memoryMapBlocks.elements,¬b.Contains a.toNat) :
    ∀proxy∈s.importsProxy,proxy.isAddressWithinLoadedImports a=.ok false := by
  intro proxy hproxy
  have hoff : ∀block∈proxy.loadedStaticImportsMemoryBlock::proxy.dynamicImportMemoryBlocks,
      FEImportsProxy.blockContains block a=.ok false := by
    intro block hblock
    obtain ⟨b,hb,rfl,hend⟩ := h proxy hproxy block hblock
    exact blockContains_eq_false (hmap.noWrap b hb) hend (ha b hb)
  have hany : ∀blocks,(∀block∈blocks,FEImportsProxy.blockContains block a=.ok false)→
      FEImportsProxy.anyContains a blocks=.ok false := by
    intro blocks hblocks
    induction blocks with
    | nil => rfl
    | cons block blocks ih =>
      rw [FEImportsProxy.anyContains,hblocks block List.mem_cons_self,ok_bind]
      exact ih fun block hblock => hblocks block (List.mem_cons_of_mem _ hblock)
  rw [FEImportsProxy.isAddressWithinLoadedImports,hoff _ List.mem_cons_self,ok_bind]
  exact hany _ fun block hblock => hoff block (List.mem_cons_of_mem _ hblock)

variable {proxy : FEImportsProxy} {coordinates : ProxyCoordinates} {target : U32}

theorem within_of_function (h : proxy.functionAtAddress target=.ok (some coordinates)) :
    proxy.isAddressWithinLoadedImports target=.ok true := by
  obtain ⟨within,hwithin,h⟩ := bind_eq_ok.mp h
  cases within with
  | false => cases h
  | true => exact hwithin

theorem function_of_lookup {names : List NSString}
    (hwithin : proxy.isAddressWithinLoadedImports target=.ok true)
    (hentry : proxy.addrToFunction.lookup target=some coordinates)
    (hnames : proxy.proxies.lookup coordinates.dllName=some names)
    (hmem : coordinates.funcName∈names) :
    proxy.functionAtAddress target=.ok (some coordinates) := by
  rw [FEImportsProxy.functionAtAddress,hwithin,ok_bind,if_pos rfl,hentry]
  simp only
  rw [hnames]
  exact if_pos hmem

theorem setRegister32_comm (threadContext : FEThreadContext F) (eip esp : U32) :
    (threadContext.setRegister32 .kEIP eip).setRegister32 .kESP esp=
      (threadContext.setRegister32 .kESP esp).setRegister32 .kEIP eip := by
  have hapart : FERegisterName.kEIP.regMap+(littleEndian 4
    eip.toNat).length ≤ FERegisterName.kESP.regMap ∨
      FERegisterName.kESP.regMap+(littleEndian 4
        esp.toNat).length ≤ FERegisterName.kEIP.regMap := by
    rw [length_littleEndian,length_littleEndian]
    decide
  simp only [FEThreadContext.setRegister32,writeAt_comm _ hapart]

/-- The end of the call of an import: the return address is on top of the stack again. -/
theorem holding_returns (h : Holding program u m) (hdisasm : program.DecodedBy env.disasm)
    (hstack : (m.register .esp).toNat∈m.stack) (htop : (program.entry m.top).isSome) (size : U8)
    (hfunction : proxy.functionAtAddress target=.ok (some coordinates))
    (hexecute : env.executeFunction coordinates () s=.ok (size,u)) :
    ∃t,callImport proxy target env s=.ok (.continueLoop,t) ∧
      Simulates program t (((m.drop 4).drop (size.setWidth 32)).goto m.top) ∧ Steady u t := by
  obtain ⟨v,hpop,hv,huv⟩ : TakesTo env u pop32 m.top (m.drop 4) := h.represents.pop32_run hstack
  have hmoved := hv.setRegister .esp ((m.drop 4).register .esp+size.setWidth 32)
  have hcontinues := huv.trans (continues_setRegister v .esp
    ((m.drop 4).register .esp+size.setWidth 32))
  obtain ⟨t,hfetch,ht,hut⟩ := (h.continues hmoved hcontinues ⟨rfl,rfl,fun _ _ => rfl⟩).fetch
    hdisasm htop
  have hcall : executeFunctionAtAddress proxy target env s=.ok (size,u) := by
    have hlookup : Exec.ofExcept (proxy.functionAtAddress target) env s=
      .ok (some coordinates,s) := by
      rw [hfunction]
      rfl
    exact (Exec.bind_run hlookup).trans hexecute
  have hesp : register32 .kESP env
    { v with currentThread := v.currentThread.setRegister32 .kEIP m.top }=
      .ok ((m.drop 4).register .esp,
        { v with currentThread := v.currentThread.setRegister32 .kEIP m.top }) :=
    (hv.of_eip m.top).register32_run .esp
  refine ⟨t,?_,ht,(Steady.of_continues hcontinues).trans hut⟩
  rw [callImport,Exec.bind_run hcall,Exec.bind_run hpop]
  refine (Exec.bind_run (a:=()) rfl).trans ((Exec.bind_run hesp).trans
    ((Exec.bind_run (a:=()) rfl).trans ?_))
  refine (Exec.bind_run (t:=t) (a:=()) ?_).trans rfl
  dsimp only
  rw [setRegister32_comm]
  exact hfetch

/-- The counted turn goes on from the process that it counts. -/
theorem continues_of_counted (h : Continues (Repetition.counted s) u) : Continues s u :=
  ⟨⟨h.map,h.eip,h.dummyOp,h.op,h.len⟩,h.exit,h.importsProxy⟩

/-- `call` of an import: the interpreter pushes the return address and runs the function, which
returns to the address that it leaves on top of the stack. -/
theorem callsImport (env : Environment F) {operand : Operand} {n : ℕ} (h : Simulates program s m)
    (hentry : program.entry m.eip=some (entryOf (.callTo (.operand operand)) n))
    (hsafe : (Instruction.callTo (.operand operand)).Safe m) (hproxy : proxy∈s.importsProxy)
    (hfunction : proxy.functionAtAddress (m.value operand)=.ok (some coordinates)) :
    ∃u,Holding program u (m.push (m.eip+.ofNat 32 n)) ∧ Continues (Repetition.counted s) u ∧
      ∀{program' : Program} {v m' size},env.executeFunction coordinates () u=.ok (size,v)→
      Holding program' v m'→
        program'.DecodedBy env.disasm→(m'.register .esp).toNat∈m'.stack→
        (program'.entry m'.top).isSome→
        ∃t,Turn env s t ∧ Simulates program' t (((m'.drop 4).drop (size.setWidth 32)).goto m'.top) ∧
        Steady v t := by
  obtain ⟨op,hat,hcategory,hencoding⟩ := h.atHand hentry
  generalize m.eip+.ofNat 32 n=next at *
  have hcounted : AtHand (Repetition.counted s) op m.eip next := ⟨hat.deref,hat.address,hat.next⟩
  have hs := h.counted.represents
  cases hencoding with
  | callTo hopcode regopcode first =>
    obtain ⟨u,hpush,hu,hsu⟩ : TakesTo env (Repetition.counted s) (nextEIP >>= push32) ()
      (m.push next) :=
      .after (nextEIP_run hcounted h.eip) (hs.push32_run hsafe.2 next)
    refine ⟨u,h.counted.toHolding.continues hu hsu (keeps_push h.stack hsafe.2 next),hsu,?_⟩
    intro program' v m' size hexecute hv hdisasm hstack htop
    obtain ⟨t,hcall,ht,hvt⟩ := holding_returns hv hdisasm hstack htop size hfunction hexecute
    refine ⟨t,h.branches hat ?_,ht,hvt⟩
    have hopcode' : (execute op : Emulator F Flow)=instructionFF op :=
      execute_of_opcode hcategory hopcode rfl
    have hload : loadArg1 op env (Repetition.counted s)=.ok (m.value operand,
      Repetition.counted s) :=
      hs.value_run first hsafe.1 _
    have hproxy' : u.importsProxy=some proxy := hsu.importsProxy.trans hproxy
    rw [hopcode',DynamicImports.instructionFF_calls regopcode hload hpush hproxy'
      (within_of_function hfunction)]
    exact hcall

end Imports
end FalloutEmu.ImportCalls
