import FalloutEmu.FlatMemory
import FalloutEmu.ImportsProxy
import Mathlib.Data.List.GetD

/-! # The sections of an executable in the guest's memory -/
namespace FalloutEmu.Sections
open ByteStore
open FEMemoryMap (create mem_withBlock)
open FlatMemory (bytes32)
open StaticImports (word cstring stringFromASCIIcstr)
variable {κ : Type}

/-- What `mapSectionsFromPE` reads of a section header, the name apart. -/
structure IMAGE_SECTION_HEADER where
  virtualSize : U32
  virtualAddress : U32
  sizeOfRawData : U32
  pointerToRawData : U32
  characteristics : U32
  deriving DecidableEq,Repr

/-- The header that begins here, with the eight bytes of its name. -/
def IMAGE_SECTION_HEADER.at (m : ℕ→U8) (p : ℕ) : IMAGE_SECTION_HEADER :=
  ⟨word m (p+8),word m (p+12),word m (p+16),word m (p+20),word m (p+36)⟩

/-- The mapping of the file, which the host makes in whole pages, and the image base. -/
structure PeCtx where
  mapAddr : ℕ
  mapSize : ℕ
  pagesEnd : ℕ
  imagebase : BitVec 64

/-- An entry of `pe.sections` with the answers of the host's allocator: the descriptor, the buffer
of uninitialised data, which is asserted, and the buffer of `calloc`. -/
structure SectionLoad where
  header : ℕ
  newBlock : ℕ
  zeroes : Option ℕ
  buffer : ℕ

namespace IMAGE_SECTION_HEADER
variable (header : IMAGE_SECTION_HEADER)

def uninitialized : Bool := header.characteristics&&&0x80≠0

def accessMode : FEMemoryAccessMode where
  read := header.characteristics&&&0x40000000≠0
  write := header.characteristics&&&0x80000000≠0
  execute := header.characteristics&&&0x20000000≠0

def vaddr (pe : PeCtx) : U32 := (header.virtualAddress.setWidth 64+pe.imagebase).setWidth 32

end IMAGE_SECTION_HEADER

/-- The tag that `cStringUsingEncoding:` makes of the name, read as a C string; `none` is `NULL`, or
a string that runs out of the mapping. -/
def sectionTag (pe : PeCtx) (host : ℕ→U8) (header : ℕ) : Option (List Char) :=
  (cstring host (pe.pagesEnd-header) header).bind stringFromASCIIcstr

def initialData (build : Build) (pe : PeCtx) (host : ℕ→U8) (header : IMAGE_SECTION_HEADER)
    (zeroes : Option ℕ) :
    Except Stop ((ℕ→U8)×ℕ×Bool) :=
  if header.uninitialized then
    match zeroes with
    | some localAddr => .ok (writeAt host localAddr (List.replicate header.sizeOfRawData.toNat 0),
      localAddr,true)
    | none => do
      assertThat build false
      .error .undefinedBehaviour
  else .ok (host,pe.mapAddr+header.pointerToRawData.toNat,false)

def rawBlock (pe : PeCtx) (header : IMAGE_SECTION_HEADER) (tag : List Char) (newBlock localAddr : ℕ)
    (freeWhenDone : Bool) :
    FEMemoryMapBlock where
  pointer := newBlock
  virtualAddress := header.vaddr pe
  blockEnd := header.vaddr pe+header.sizeOfRawData
  size := header.sizeOfRawData
  localAddress := localAddr
  freeWhenDone := freeWhenDone
  tag := FEMemoryMapBlock.tagCopy tag

/-- The branch for a section that is larger in memory than in the file. -/
def withAppendix (host : ℕ→U8) (header : IMAGE_SECTION_HEADER) (buffer : ℕ)
    (block : FEMemoryMapBlock) : (ℕ→U8)×FEMemoryMapBlock :=
  if header.sizeOfRawData<header.virtualSize then
    let size := block.size+(header.virtualSize-header.sizeOfRawData)
    let cleared := writeAt host buffer (List.replicate size.toNat 0)
    (writeAt cleared buffer (readAt cleared block.localAddress header.sizeOfRawData.toNat),
      { block with
        size := size,blockEnd := block.virtualAddress+size,localAddress := buffer,
        freeWhenDone := true })
  else (host,block)

/-- One turn of the loop; `fe_memoryMapBlock_create` does not check its tag. -/
def mapSection (build : Build) (pe : PeCtx) (memory : Memory κ) (s : SectionLoad) :
    Except Stop (Memory κ) := do
  let header := IMAGE_SECTION_HEADER.at memory.host s.header
  let (host,localAddr,freeWhenDone) ← initialData build pe memory.host header s.zeroes
  match sectionTag pe memory.host s.header with
  | none => .error .undefinedBehaviour
  | some tag => do
    let (host,block) := withAppendix host header s.buffer (rawBlock pe header tag s.newBlock
      localAddr freeWhenDone)
    let map ← (memory.map.clearContext s.newBlock).map build block header.accessMode
    .ok ⟨map,host⟩

def mapSectionsFromPE (build : Build) (pe : PeCtx) : Memory κ→List SectionLoad→
    Except Stop (Memory κ)
  | memory,[] => .ok memory
  | memory,s::sections => do mapSectionsFromPE build pe (← mapSection build pe memory s) sections

def zeroBlock (pointer : ℕ) : FEMemoryMapBlock := ⟨pointer,0,4096,4096,0,false,".zero-page".toList⟩

/-- `initWithPathToExecutable:diskCPath:` from the memory map to the sections. -/
def loadImage (build : Build) (pe : PeCtx) (host : ℕ→U8) (zeroPointer : ℕ)
    (sections : List SectionLoad) :
    Except Stop (Memory κ) := do
  let memoryMap ← (create 0x40000000).map build (zeroBlock zeroPointer) .none
  mapSectionsFromPE build pe ⟨memoryMap,host⟩ sections

section Specification
variable (pe : PeCtx) (host : ℕ→U8) (s : SectionLoad)

def SectionLoad.at : IMAGE_SECTION_HEADER := .at host s.header

def IMAGE_SECTION_HEADER.length (header : IMAGE_SECTION_HEADER) : ℕ :=
  max header.sizeOfRawData.toNat header.virtualSize.toNat

def SectionLoad.Owns (p : ℕ) : Prop :=
  ((s.at host).vaddr pe).toNat/4096 ≤ p ∧
    p<(((s.at host).vaddr pe).toNat+(s.at host).length+4095)/4096

/-- Two host ranges, each a start and a length, have no byte in common. -/
def RangesApart (r q : ℕ×ℕ) : Prop := r.1+r.2 ≤ q.1 ∨ q.1+q.2 ≤ r.1

instance (r q : ℕ×ℕ) : Decidable (RangesApart r q) := inferInstanceAs (Decidable (_ ∨ _))

def SectionLoad.ranges : List (ℕ×ℕ) :=
  (if (s.at host).uninitialized then [(s.zeroes.getD 0,(s.at host).sizeOfRawData.toNat)] else [])++
    if (s.at host).sizeOfRawData<(s.at host).virtualSize
      then [(s.buffer,(s.at host).virtualSize.toNat)] else []

/-- A section of a file that can be loaded: its header and its raw data lie in the file, its range
is not empty, starts with a page behind the first one and ends inside the map; the host allocates
its buffers. -/
structure Placed : Prop where
  headerLow : pe.mapAddr ≤ s.header
  headerHigh : s.header+40 ≤ pe.mapAddr+pe.mapSize
  rawData : ¬(s.at host).uninitialized→
    (s.at host).pointerToRawData.toNat+(s.at host).sizeOfRawData.toNat ≤ pe.mapSize
  aligned : ((s.at host).vaddr pe).toNat%4096=0
  nonempty : 0<(s.at host).length
  behindZeroPage : 4096 ≤ ((s.at host).vaddr pe).toNat
  inside : ((s.at host).vaddr pe).toNat+(s.at host).length≤0x40000000
  zeroes : (s.at host).uninitialized→s.zeroes.isSome
  outsideFile : ∀r∈s.ranges host,RangesApart (pe.mapAddr,pe.pagesEnd-pe.mapAddr) r
  buffers : (s.ranges host).Pairwise RangesApart

/-- Two sections share no page and no allocated buffer. -/
structure Separate (t : SectionLoad) : Prop where
  pages : ∀p,¬(s.Owns pe host p ∧ t.Owns pe host p)
  buffers : ∀r∈s.ranges host,∀q∈t.ranges host,RangesApart r q

/-- The image of a file whose sections can be loaded. -/
structure Loadable (file : List U8) (sections : List SectionLoad) : Prop where
  size : file.length=pe.mapSize
  pages : pe.mapAddr+pe.mapSize ≤ pe.pagesEnd
  mapped : ∀i<file.length,host (pe.mapAddr+i)=file.getD i 0
  placed : ∀s∈sections,Placed pe host s
  separate : sections.Pairwise (Separate pe host)

/-- The section is in the memory: the bytes of the file or zeroes, zeroes behind them, and a block
that ends with the larger of the two sizes. -/
structure InMemory (file : List U8) (memory : Memory κ) (s : SectionLoad) : Prop where
  raw : ∀i<(s.at host).sizeOfRawData.toNat,
    memory.value8AtAddress ((s.at host).vaddr pe+.ofNat 32 i)=
    .ok (if (s.at host).uninitialized then 0 else file.getD ((s.at host).pointerToRawData.toNat+i)
      0)
  cleared : ∀i,(s.at host).sizeOfRawData.toNat ≤ i→i<(s.at host).virtualSize.toNat→
    memory.value8AtAddress ((s.at host).vaddr pe+.ofNat 32 i)=.ok 0
  block : ∃block∈memory.map.memoryMapBlocks.elements,block.virtualAddress=(s.at host).vaddr pe ∧
    block.blockEnd.toNat=((s.at host).vaddr pe).toNat+max (s.at host).sizeOfRawData.toNat
      (s.at host).virtualSize.toNat

end Specification

section Buffers
variable {pe : PeCtx} {host current : ℕ→U8} {s : SectionLoad}

def KeepsFile (pe : PeCtx) (host current : ℕ→U8) : Prop :=
  ∀a,pe.mapAddr ≤ a→a<pe.pagesEnd→current a=host a

theorem cstring_congr {m m' : ℕ→U8} {n ptr : ℕ} (h : ∀a,ptr ≤ a→a<ptr+n→m a=m' a) :
    cstring m n ptr=cstring m' n ptr := by
  induction n generalizing ptr with
  | zero => rfl
  | succ n ih =>
    rw [cstring,cstring,h ptr (Nat.le_refl _) (by omega),ih fun a hlow hhigh => h a (by omega)
      (by omega)]

theorem KeepsFile.word (h : KeepsFile pe host current) {p : ℕ} (hlow : pe.mapAddr ≤ p)
    (hhigh : p+4 ≤ pe.pagesEnd) :
    word current p=word host p := by
  rw [StaticImports.word,StaticImports.word,readAt_congr fun i hi => h (p+i) (by omega) (by omega)]

theorem KeepsFile.header (h : KeepsFile pe host current) (hs : Placed pe host s)
    (hpages : pe.mapAddr+pe.mapSize ≤ pe.pagesEnd) :
    IMAGE_SECTION_HEADER.at current s.header=s.at host := by
  have hlow := hs.headerLow
  have hhigh := hs.headerHigh
  rw [SectionLoad.at,IMAGE_SECTION_HEADER.at,IMAGE_SECTION_HEADER.at,h.word (by omega) (by omega),
    h.word (by omega) (by omega),h.word (by omega) (by omega),h.word (by omega) (by omega),
      h.word (by omega) (by omega)]

theorem KeepsFile.sectionTag (h : KeepsFile pe host current) (hs : Placed pe host s) :
    sectionTag pe current s.header=sectionTag pe host s.header := by
  have hlow := hs.headerLow
  rw [Sections.sectionTag,Sections.sectionTag,cstring_congr fun a hlow hhigh => h a (by omega)
    (by omega)]

def SectionLoad.rawBytes (pe : PeCtx) (host : ℕ→U8) (s : SectionLoad) : List U8 :=
  if (s.at host).uninitialized then List.replicate (s.at host).sizeOfRawData.toNat 0
  else readAt host (pe.mapAddr+(s.at host).pointerToRawData.toNat) (s.at host).sizeOfRawData.toNat

def SectionLoad.contents (pe : PeCtx) (host : ℕ→U8) (s : SectionLoad) : List U8 :=
  s.rawBytes pe host++List.replicate ((s.at host).virtualSize.toNat-(s.at host).sizeOfRawData.toNat)
    0

theorem length_rawBytes : (s.rawBytes pe host).length=(s.at host).sizeOfRawData.toNat := by
  unfold SectionLoad.rawBytes
  split <;> simp

/-- The address lies in no range that is allocated for the section. -/
def Outside (host : ℕ→U8) (s : SectionLoad) (a : ℕ) : Prop := ∀r∈s.ranges host,a<r.1 ∨ r.1+r.2 ≤ a

theorem mem_ranges_zeroes (h : (s.at host).uninitialized) :
    (s.zeroes.getD 0,(s.at host).sizeOfRawData.toNat)∈s.ranges host := by
  rw [SectionLoad.ranges,if_pos h]
  exact List.mem_append_left _ (List.mem_singleton_self _)

theorem mem_ranges_buffer (h : (s.at host).sizeOfRawData<(s.at host).virtualSize) :
    (s.buffer,(s.at host).virtualSize.toNat)∈s.ranges host := by
  rw [SectionLoad.ranges,if_pos h]
  exact List.mem_append_right _ (List.mem_singleton_self _)

theorem Placed.buffersApart (hs : Placed pe host s) (hu : (s.at host).uninitialized)
    (ha : (s.at host).sizeOfRawData<(s.at host).virtualSize) :
    RangesApart (s.zeroes.getD 0,(s.at host).sizeOfRawData.toNat)
    (s.buffer,(s.at host).virtualSize.toNat) := by
  have hpair := hs.buffers
  rw [SectionLoad.ranges,if_pos hu,if_pos ha] at hpair
  exact (List.pairwise_append.mp hpair).2.2 _ (List.mem_singleton_self _) _
    (List.mem_singleton_self _)

/-- A range of the host that a section may be kept in: in the file, or allocated for the section. -/
def Keeps (pe : PeCtx) (host : ℕ→U8) (s : SectionLoad) (r : ℕ×ℕ) : Prop :=
  (pe.mapAddr ≤ r.1 ∧ r.1+r.2 ≤ pe.pagesEnd) ∨ r∈s.ranges host

/-- The raw data, and how its place lies to the buffer of the larger section. -/
theorem initialData_spec (build : Build) (hs : Placed pe host s)
    (hkeeps : KeepsFile pe host current) (hpages : pe.mapAddr+pe.mapSize ≤ pe.pagesEnd) :
    ∃host₁ localAddr freeWhenDone,
    initialData build pe current (s.at host) s.zeroes=.ok (host₁,localAddr,freeWhenDone) ∧
    readAt host₁ localAddr (s.at host).sizeOfRawData.toNat=s.rawBytes pe host ∧
    (∀a,Outside host s a→host₁ a=current a) ∧
    Keeps pe host s (localAddr,(s.at host).sizeOfRawData.toNat) ∧
    ((s.at host).sizeOfRawData<(s.at host).virtualSize→
      RangesApart (localAddr,(s.at host).sizeOfRawData.toNat)
      (s.buffer,(s.at host).virtualSize.toNat)) := by
  by_cases hu : (s.at host).uninitialized
  · obtain ⟨localAddr,hzeroes⟩ := Option.isSome_iff_exists.mp (hs.zeroes hu)
    have hmem := mem_ranges_zeroes hu
    rw [hzeroes,Option.getD_some] at hmem
    refine ⟨writeAt current localAddr (List.replicate (s.at host).sizeOfRawData.toNat 0),localAddr,
      true,?_,?_,?_,.inr hmem,?_⟩
    · unfold initialData
      rw [if_pos hu,hzeroes]
    · rw [SectionLoad.rawBytes,if_pos hu]
      exact readAt_writeAt_replicate current 0 (Nat.le_refl _) (Nat.le_refl _)
    · intro a ha
      have hout := ha _ hmem
      rw [writeAt_apply_of_outside (by rw [List.length_replicate]; exact hout)]
    · intro ha
      have hapart := hs.buffersApart hu ha
      rwa [hzeroes,Option.getD_some] at hapart
  · have hraw := hs.rawData hu
    refine ⟨current,pe.mapAddr+(s.at host).pointerToRawData.toNat,false,?_,?_,fun a _ => rfl,
      .inl ⟨?_,?_⟩,?_⟩
    · unfold initialData
      rw [if_neg hu]
    · rw [SectionLoad.rawBytes,if_neg hu]
      exact readAt_congr fun i hi => hkeeps _ (by omega) (by omega)
    · dsimp only
      omega
    · dsimp only
      omega
    · intro ha
      have hapart := hs.outsideFile _ (mem_ranges_buffer ha)
      unfold RangesApart at hapart ⊢
      dsimp only at hapart ⊢
      omega

/-- The larger section is a copy with zeroes behind it. -/
theorem withAppendix_spec (block : FEMemoryMapBlock) (header : IMAGE_SECTION_HEADER)
    (hsize : block.size=header.sizeOfRawData)
    (hend : block.blockEnd=block.virtualAddress+block.size) {buffer : ℕ} {raw : List U8}
    (hraw : readAt current block.localAddress header.sizeOfRawData.toNat=raw)
    (hapart : header.sizeOfRawData<header.virtualSize→
      RangesApart (block.localAddress,header.sizeOfRawData.toNat)
      (buffer,header.virtualSize.toNat)) :
    ∃host' block',withAppendix current header buffer block=(host',block') ∧ block'.virtualAddress=
      block.virtualAddress ∧
      block'.size.toNat=header.length ∧ block'.blockEnd=block'.virtualAddress+block'.size ∧
      readAt host' block'.localAddress header.length=
        raw++List.replicate (header.virtualSize.toNat-header.sizeOfRawData.toNat) 0 ∧
      ((header.sizeOfRawData<header.virtualSize ∧ block'.localAddress=buffer ∧ header.length=
        header.virtualSize.toNat ∧
          ∀a,a<buffer ∨ buffer+header.virtualSize.toNat ≤ a→host' a=current a) ∨
        (¬header.sizeOfRawData<header.virtualSize ∧ block'.localAddress=block.localAddress ∧
          header.length=header.sizeOfRawData.toNat ∧ host'=current)) := by
  have hlength : raw.length=header.sizeOfRawData.toNat := by rw [←hraw,length_readAt]
  by_cases ha : header.sizeOfRawData<header.virtualSize
  · have hlt : header.sizeOfRawData.toNat<header.virtualSize.toNat := ha
    have htotal : block.size+(header.virtualSize-header.sizeOfRawData)=header.virtualSize := by
      rw [hsize]
      bv_omega
    have hmax : header.length=header.virtualSize.toNat := Nat.max_eq_right (Nat.le_of_lt hlt)
    refine ⟨_,_,if_pos ha,rfl,?_,rfl,?_,.inl ⟨ha,rfl,hmax,?_⟩⟩
    · dsimp only
      rw [htotal,hmax]
    · dsimp only
      have hsource : readAt (writeAt current buffer (List.replicate header.virtualSize.toNat 0))
        block.localAddress
          header.sizeOfRawData.toNat=raw := by
        rw [readAt_writeAt_of_disjoint (by rw [List.length_replicate]; exact (hapart ha).symm),hraw]
      rw [htotal,hsource,hmax]
      have hsplit : header.virtualSize.toNat=
        raw.length+(header.virtualSize.toNat-header.sizeOfRawData.toNat) := by omega
      conv_lhs => rw [hsplit]
      rw [readAt_writeAt_start]
      congr 1
      exact readAt_writeAt_replicate _ 0 (by omega) (by omega)
    · intro a hout
      rw [htotal,writeAt_apply_of_outside (by rw [length_readAt]; omega),
        writeAt_apply_of_outside (by rw [List.length_replicate]; exact hout)]
  · have hle : header.virtualSize.toNat ≤ header.sizeOfRawData.toNat := Nat.le_of_not_lt ha
    have hmax : header.length=header.sizeOfRawData.toNat := Nat.max_eq_left hle
    refine ⟨current,block,if_neg ha,rfl,?_,hend,?_,.inr ⟨ha,rfl,hmax,rfl⟩⟩
    · rw [hsize,hmax]
    · rw [hmax,hraw,Nat.sub_eq_zero_of_le hle,List.replicate_zero,List.append_nil]

/-- The host's part of a turn of the loop: the section's bytes, the block over them, and nothing
else changed. -/
theorem sectionBlock_spec (build : Build) (hs : Placed pe host s)
    (hkeeps : KeepsFile pe host current) (hpages : pe.mapAddr+pe.mapSize ≤ pe.pagesEnd)
    (tag : List Char) : ∃host₁ localAddr freeWhenDone host' block,
    initialData build pe current (s.at host) s.zeroes=.ok (host₁,localAddr,freeWhenDone) ∧
    withAppendix host₁ (s.at host) s.buffer (rawBlock pe (s.at host) tag s.newBlock localAddr
      freeWhenDone)=(host',block) ∧
    block.virtualAddress=(s.at host).vaddr pe ∧ block.size.toNat=(s.at host).length ∧
    block.blockEnd=block.virtualAddress+block.size ∧
    readAt host' block.localAddress (s.at host).length=s.contents pe host ∧
    Keeps pe host s (block.localAddress,(s.at host).length) ∧ ∀a,Outside host s a→
    host' a=current a := by
  obtain ⟨host₁,localAddr,freeWhenDone,hinitial,hraw,hframe,hplace,hapart⟩ :=
    initialData_spec build hs hkeeps hpages
  obtain ⟨host',block,happendix,haddress,hsize,hend,hbytes,hcases⟩ := withAppendix_spec
    (rawBlock pe (s.at host) tag s.newBlock localAddr freeWhenDone) (s.at host) rfl rfl hraw hapart
  refine ⟨host₁,localAddr,freeWhenDone,host',block,hinitial,happendix,haddress,hsize,hend,
    hbytes,?_,?_⟩
  · rcases hcases with ⟨ha,hlocal,hmax,_⟩ | ⟨_,hlocal,hmax,_⟩
    · rw [hlocal,hmax]
      exact .inr (mem_ranges_buffer ha)
    · rw [hlocal,hmax]
      exact hplace
  · intro a ha
    rcases hcases with ⟨hlarger,_,_,hout⟩ | ⟨_,_,_,rfl⟩
    · rw [hout a (ha _ (mem_ranges_buffer hlarger)),hframe a ha]
    · exact hframe a ha

theorem Placed.outside_file (hs : Placed pe host s) {a : ℕ} (hlow : pe.mapAddr ≤ a)
    (hhigh : a<pe.pagesEnd) :
    Outside host s a := by
  intro r hr
  have hapart := hs.outsideFile r hr
  unfold RangesApart at hapart
  dsimp only at hapart
  omega

/-- The bytes of a section lie outside what is allocated for another one. -/
theorem Separate.outside {t : SectionLoad} (h : Separate pe host t s) (hs : Placed pe host s)
    {r : ℕ×ℕ} (hr : Keeps pe host t r) {i : ℕ} (hi : i<r.2) : Outside host s (r.1+i) := by
  rcases hr with ⟨hlow,hhigh⟩ | hmem
  · exact hs.outside_file (by omega) (by omega)
  · intro q hq
    have hapart := h.buffers r hmem q hq
    unfold RangesApart at hapart
    omega

end Buffers

section Loop
open FEMemoryMap (Placeable SameBlocks withBlock_slot)
variable {pe : PeCtx} {host : ℕ→U8} {memory : Memory κ} {s : SectionLoad}
  {done rest : List SectionLoad}

structure Held (pe : PeCtx) (host : ℕ→U8) (memory : Memory κ) (s : SectionLoad)
    (block : FEMemoryMapBlock) : Prop where
  virtualAddress : block.virtualAddress=(s.at host).vaddr pe
  size : block.size.toNat=(s.at host).length
  blockEnd : block.blockEnd=block.virtualAddress+block.size
  mem : block∈memory.map.memoryMapBlocks.elements
  owner : ∀p,s.Owns pe host p→memory.map.memoryMapBlocksShadow.slot p=some block
  bytes : readAt memory.host block.localAddress (s.at host).length=s.contents pe host
  keeps : Keeps pe host s (block.localAddress,(s.at host).length)

structure Loaded (pe : PeCtx) (host : ℕ→U8) (memory : Memory κ)
    (done : List SectionLoad) : Prop where
  blocks : memory.map.memoryMapBlocksShadow.capacity=0x40001
  rights : memory.map.memoryMapRightsShadow.capacity=0x40001
  file : KeepsFile pe host memory.host
  held : ∀t∈done,∃block,Held pe host memory t block
  count : memory.map.memoryMapBlocks.elements.length=done.length+1
  free : ∀p,0 < p→(∀t∈done,¬t.Owns pe host p)→memory.map.memoryMapBlocksShadow.slot p=none

theorem ownsPage_iff {block : FEMemoryMapBlock}
    (haddress : block.virtualAddress=(s.at host).vaddr pe)
    (hsize : block.size.toNat=(s.at host).length) (p : ℕ) :
    block.OwnsPage p ↔ s.Owns pe host p := by
  unfold FEMemoryMapBlock.OwnsPage FEMemoryMapBlock.firstPage FEMemoryMapBlock.pageEnd
    SectionLoad.Owns
  rw [haddress,hsize]

/-- What mapping the block of a section makes of the map. -/
structure Mapped (m m' : FEMemoryMap κ) (block : FEMemoryMapBlock) : Prop where
  blocks : m'.memoryMapBlocksShadow.capacity=m.memoryMapBlocksShadow.capacity
  rights : m'.memoryMapRightsShadow.capacity=m.memoryMapRightsShadow.capacity
  slot : ∀p,m'.memoryMapBlocksShadow.slot p=if block.OwnsPage p then some block
    else m.memoryMapBlocksShadow.slot p
  mem : ∀b,b∈m'.memoryMapBlocks.elements ↔ b∈m.memoryMapBlocks.elements ∨ b=block
  count : m'.memoryMapBlocks.elements.length=m.memoryMapBlocks.elements.length+1

theorem Mapped.of_sameBlocks {m m' : FEMemoryMap κ} {block : FEMemoryMapBlock}
    (h : SameBlocks (m.withBlock block) m') :
    Mapped m m' block where
  blocks := by rw [h.shadow]; rfl
  rights := h.rights
  slot p := by rw [h.shadow,withBlock_slot]
  mem b := by rw [h.blocks,mem_withBlock]
  count := by rw [h.blocks,(m.withBlock_perm block).length_eq,List.length_append,
    List.length_singleton]

theorem Loadable.length_le {file : List U8} {sections : List SectionLoad}
    (h : Loadable pe host file sections) :
    sections.length≤0x40000 := by
  have hnodup : (sections.map fun s => ((s.at host).vaddr pe).toNat/4096).Nodup := by
    refine List.pairwise_map.mpr (h.separate.imp_of_mem fun {s t} hs ht hsep hsame => ?_)
    have hsize := (h.placed s hs).nonempty
    have hsize' := (h.placed t ht).nonempty
    refine hsep.pages (((s.at host).vaddr pe).toNat/4096) ⟨⟨Nat.le_refl _,by omega⟩,?_⟩
    rw [hsame]
    exact ⟨Nat.le_refl _,by omega⟩
  have hrange : (sections.map fun s => ((s.at host).vaddr pe).toNat/4096)⊆List.range 0x40000 := by
    intro p hp
    obtain ⟨s,hs,rfl⟩ := List.mem_map.mp hp
    have hinside := (h.placed s hs).inside
    have hsize := (h.placed s hs).nonempty
    exact List.mem_range.mpr (by omega)
  have hlength := (List.subperm_of_subset hnodup hrange).length_le
  rwa [List.length_map,List.length_range] at hlength

theorem Loaded.map (build : Build) (h : Loaded pe host memory done) (hs : Placed pe host s)
    (hsep : ∀t∈done,Separate pe host t s) (hfew : done.length<0x40000) {block : FEMemoryMapBlock}
    (haddress : block.virtualAddress=(s.at host).vaddr pe)
    (hsize : block.size.toNat=(s.at host).length) (newBlock : ℕ) (mode : FEMemoryAccessMode) :
    ∃m',(memory.map.clearContext newBlock).map build block mode=.ok m' ∧
    Mapped memory.map m' block := by
  have hinside := hs.inside
  have hpositive := hs.nonempty
  have hbehind := hs.behindZeroPage
  rw [←haddress] at hinside hbehind
  rw [←hsize] at hinside hpositive
  have hplace : Placeable block := ⟨by omega,by omega⟩
  have hlast : (block.virtualAddress+block.size-1).toNat=
    block.virtualAddress.toNat+block.size.toNat-1 := by bv_omega
  have hfree : (memory.map.clearContext newBlock).Free block := by
    intro p hp
    have hrange := (ownsPage_iff haddress hsize p).mp hp
    obtain ⟨hlow,hhigh⟩ := hp
    unfold FEMemoryMapBlock.firstPage at hlow
    unfold FEMemoryMapBlock.pageEnd at hhigh
    refine ⟨?_,h.free p (by omega) fun t ht hother => (hsep t ht).pages p ⟨hother,hrange⟩⟩
    exact (show p<0x40001 by omega).trans_eq h.blocks.symm
  have hfirstPage : shadowIndex block.virtualAddress<0x40001 := by
    rw [shadowIndex,alignment]
    omega
  have hlastPage : shadowIndex (block.virtualAddress+block.size-1)<0x40001 := by
    rw [shadowIndex,alignment,hlast]
    omega
  have hgrows : (memory.map.clearContext newBlock).memoryMapBlocks.Grows := by
    refine FEArray.grows_blocks ?_
    have hcount := h.count
    show memory.map.memoryMapBlocks.elements.length<2^28
    omega
  obtain ⟨m',hmap,hsame⟩ := hplace.append_free build mode hfree hgrows
    (hfirstPage.trans_eq h.blocks.symm)
    (hlastPage.trans_eq h.rights.symm)
  exact ⟨m',hmap,.of_sameBlocks (m:=memory.map) ⟨hsame.size,hsame.shadow,hsame.blocks,
    hsame.callback,hsame.rights⟩⟩

/-- A section that was loaded before stays in its block. -/
theorem Held.next {m' : FEMemoryMap κ} {host' : ℕ→U8} {t : SectionLoad}
    {block other : FEMemoryMapBlock} (h : Held pe host memory t other) (hs : Placed pe host s)
    (hsep : Separate pe host t s) (hmap : Mapped memory.map m' block)
    (howns : ∀p,block.OwnsPage p ↔ s.Owns pe host p)
    (hframe : ∀a,Outside host s a→host' a=memory.host a) :
    Held pe host ⟨m',host'⟩ t other where
  virtualAddress := h.virtualAddress
  size := h.size
  blockEnd := h.blockEnd
  mem := (hmap.mem other).mpr (.inl h.mem)
  owner p hp := by
    have hnot : ¬block.OwnsPage p := fun hown => hsep.pages p ⟨hp,(howns p).mp hown⟩
    rw [hmap.slot,if_neg hnot]
    exact h.owner p hp
  bytes := by
    rw [←h.bytes]
    exact readAt_congr fun i hi => hframe _ (hsep.outside hs h.keeps hi)
  keeps := h.keeps

/-- One turn of the loop loads the section and keeps those before it. -/
theorem mapSection_spec (build : Build) (h : Loaded pe host memory done) (hs : Placed pe host s)
    (hpages : pe.mapAddr+pe.mapSize ≤ pe.pagesEnd) (hsep : ∀t∈done,Separate pe host t s)
    (hfew : done.length<0x40000) {tag : List Char} (htag : sectionTag pe host s.header=some tag) :
    ∃memory',mapSection build pe memory s=.ok memory' ∧ Loaded pe host memory' (done++[s]) := by
  obtain ⟨host₁,localAddr,freeWhenDone,host',block,hinitial,happendix,haddress,hsize,hend,hbytes,
    hkeeps,hframe⟩ :=
    sectionBlock_spec build hs h.file hpages tag
  have howns := ownsPage_iff haddress hsize
  obtain ⟨m',hmap,hmapped⟩ := h.map build hs hsep hfew haddress hsize s.newBlock
    (s.at host).accessMode
  refine ⟨⟨m',host'⟩,?_,⟨hmapped.blocks.trans h.blocks,hmapped.rights.trans h.rights,?_,?_,?_,?_⟩⟩
  · rw [mapSection,h.file.header hs hpages,hinitial,ok_bind,h.file.sectionTag hs,htag]
    simp only [happendix,hmap,ok_bind]
  · intro a hlow hhigh
    exact (hframe a (hs.outside_file hlow hhigh)).trans (h.file a hlow hhigh)
  · intro t ht
    rcases List.mem_append.mp ht with hold | hnew
    · obtain ⟨other,hother⟩ := h.held t hold
      exact ⟨other,hother.next hs (hsep t hold) hmapped howns hframe⟩
    · obtain rfl := List.mem_singleton.mp hnew
      refine ⟨block,haddress,hsize,hend,(hmapped.mem block).mpr (.inr rfl),?_,hbytes,hkeeps⟩
      intro p hp
      rw [hmapped.slot,if_pos ((howns p).mpr hp)]
  · rw [hmapped.count,h.count,List.length_append,List.length_singleton]
  · intro p hp hnone
    have hnot : ¬block.OwnsPage p := fun hown => hnone s (by simp) ((howns p).mp hown)
    rw [hmapped.slot,if_neg hnot]
    exact h.free p hp fun t ht => hnone t (List.mem_append_left _ ht)

/-- The name, read up to the first zero byte, ends in the mapping and has 7-bit characters only. -/
def Named (pe : PeCtx) (host : ℕ→U8) (s : SectionLoad) : Prop :=
  ∃name,cstring host (pe.pagesEnd-s.header) s.header=some name ∧ ∀b∈name,b.toNat<128

theorem named_iff : Named pe host s ↔ ∃tag,sectionTag pe host s.header=some tag := by
  rw [Named,sectionTag]
  cases cstring host (pe.pagesEnd-s.header) s.header with
  | none => simp
  | some name => simp [stringFromASCIIcstr]

theorem named_of_mapSection {build : Build} {memory' : Memory κ} (h : KeepsFile pe host memory.host)
    (hs : Placed pe host s) (hrun : mapSection build pe memory s=.ok memory') :
    ∃tag,sectionTag pe host s.header=some tag := by
  obtain ⟨_,_,hrest⟩ := bind_eq_ok.mp hrun
  rw [h.sectionTag hs] at hrest
  cases htag : sectionTag pe host s.header with
  | none =>
    rw [htag] at hrest
    cases hrest
  | some tag => exact ⟨tag,rfl⟩

theorem Loadable.before {file : List U8} (h : Loadable pe host file (done++s::rest)) :
    Placed pe host s ∧ (∀t∈done,Separate pe host t s) ∧ done.length<0x40000 := by
  have hlength := h.length_le
  rw [List.length_append,List.length_cons] at hlength
  refine ⟨h.placed s (by simp),fun t ht => ?_,by omega⟩
  exact (List.pairwise_append.mp h.separate).2.2 t ht s List.mem_cons_self

theorem mapSectionsFromPE_spec (build : Build) {file : List U8}
    (hall : Loadable pe host file (done++rest)) (h : Loaded pe host memory done)
    (hnamed : ∀t∈rest,Named pe host t) :
    ∃memory',mapSectionsFromPE build pe memory rest=.ok memory' ∧
    Loaded pe host memory' (done++rest) := by
  induction rest generalizing memory done with
  | nil => exact ⟨memory,rfl,by rwa [List.append_nil]⟩
  | cons s rest ih =>
    obtain ⟨hs,hsep,hfew⟩ := hall.before
    obtain ⟨tag,htag⟩ := named_iff.mp (hnamed s List.mem_cons_self)
    obtain ⟨memory₁,hrun,hload⟩ := mapSection_spec build h hs hall.pages hsep hfew htag
    rw [List.append_cons] at hall ⊢
    obtain ⟨memory',hrest,hload'⟩ := ih hall hload fun t ht => hnamed t (List.mem_cons_of_mem s ht)
    refine ⟨memory',?_,hload'⟩
    rw [mapSectionsFromPE,hrun,ok_bind]
    exact hrest

theorem named_of_mapSectionsFromPE {build : Build} {file : List U8}
    (hall : Loadable pe host file (done++rest)) (h : Loaded pe host memory done)
    {memory' : Memory κ} (hrun : mapSectionsFromPE build pe memory rest=.ok memory') :
    ∀t∈rest,Named pe host t := by
  induction rest generalizing memory done with
  | nil => simp
  | cons s rest ih =>
    obtain ⟨hs,hsep,hfew⟩ := hall.before
    obtain ⟨memory₁,hturn,hrest⟩ := bind_eq_ok.mp hrun
    obtain ⟨tag,htag⟩ := named_of_mapSection h.file hs hturn
    obtain ⟨memory₂,hturn',hload⟩ := mapSection_spec build h hs hall.pages hsep hfew htag
    cases hturn.symm.trans hturn'
    rw [List.append_cons] at hall
    intro t ht
    rcases List.mem_cons.mp ht with rfl | hmem
    · exact named_iff.mpr ⟨tag,htag⟩
    · exact ih hall hload hrest t hmem

theorem zeroPage_loaded (build : Build) (pe : PeCtx) (host : ℕ→U8) (zeroPointer : ℕ) :
    ∃m : FEMemoryMap κ,
    (create 0x40000000).map build (zeroBlock zeroPointer) .none=.ok m ∧ Loaded pe host ⟨m,host⟩
    [] := by
  have hplace : Placeable (zeroBlock zeroPointer) := ⟨by simp [zeroBlock],by simp [zeroBlock]⟩
  have howns : ∀p,(zeroBlock zeroPointer).OwnsPage p→p=0 := by
    rintro p ⟨_,hhigh⟩
    have hend : (zeroBlock zeroPointer).pageEnd=1 := by simp [FEMemoryMapBlock.pageEnd,zeroBlock]
    omega
  have hfree : (create 0x40000000 : FEMemoryMap κ).Free (zeroBlock zeroPointer) := by
    intro p hp
    rw [howns p hp]
    exact ⟨Nat.succ_pos _,rfl⟩
  obtain ⟨m,hmap,hsame⟩ := hplace.append_free build .none hfree
    (FEArray.grows_blocks (by simp [create])) (by simp [shadowIndex,zeroBlock,create])
    (by simp [shadowIndex,zeroBlock,create,alignment])
  have hmapped := Mapped.of_sameBlocks hsame
  refine ⟨m,hmap,hmapped.blocks,hmapped.rights,fun _ _ _ => rfl,by simp,hmapped.count,?_⟩
  intro p hp _
  have hnot : ¬(zeroBlock zeroPointer).OwnsPage p := fun hown => absurd (howns p hown) (by omega)
  exact (hmapped.slot p).trans (if_neg hnot)

end Loop

section Contents
variable {pe : PeCtx} {host : ℕ→U8} {memory : Memory κ} {s : SectionLoad} {block : FEMemoryMapBlock}
  {file : List U8}

/-- The guest reads the byte of a section in its block. -/
theorem Held.value8 (h : Held pe host memory s block) (hs : Placed pe host s)
    (hcap : memory.map.memoryMapBlocksShadow.capacity=0x40001) {i : ℕ} (hi : i<(s.at host).length) :
    memory.value8AtAddress ((s.at host).vaddr pe+.ofNat 32 i)=
      .ok ((s.contents pe host).getD i 0) := by
  have hinside := hs.inside
  have hnat : ((s.at host).vaddr pe+.ofNat 32 i).toNat=((s.at host).vaddr pe).toNat+i := by
    rw [BitVec.toNat_add,BitVec.toNat_ofNat]
    omega
  have hsub : ((s.at host).vaddr pe+.ofNat 32 i-block.virtualAddress).toNat=i := by
    rw [h.virtualAddress]
    bv_omega
  have hget : memory.map.memoryMapBlocksShadow.get (shadowIndex ((s.at host).vaddr pe+.ofNat 32 i))=
    .ok (some block) := by
    refine Shadow.get_eq_ok.mpr ⟨?_,h.owner _ ?_⟩
    · rw [hcap,shadowIndex,alignment,hnat]
      omega
    · unfold SectionLoad.Owns
      rw [shadowIndex,alignment,hnat]
      omega
  have hbyte : memory.host (block.localAddress+i)=(s.contents pe host).getD i 0 := by
    rw [←h.bytes,List.getD_eq_getElem _ _ (by rwa [length_readAt]),getElem_readAt]
  rw [Memory.value8AtAddress,Memory.load,FEMemoryMap.localAddressFromVirtualAddress,hget]
  simp only [ok_bind,hsub,readAt,List.range_one,List.map_cons,List.map_nil,Nat.add_zero,hbyte]
  simp [value]

theorem contents_raw (hall : Loadable pe host file [s]) {i : ℕ}
    (hi : i<(s.at host).sizeOfRawData.toNat) :
    (s.contents pe host).getD i 0=
      if (s.at host).uninitialized then 0
        else file.getD ((s.at host).pointerToRawData.toNat+i) 0 := by
  have hlength : i<(s.rawBytes pe host).length := by rwa [length_rawBytes]
  rw [SectionLoad.contents,List.getD_append _ _ _ _ hlength]
  unfold SectionLoad.rawBytes
  split
  · simp
  · next hu =>
    have hraw := (hall.placed s (by simp)).rawData hu
    have hbyte := hall.mapped ((s.at host).pointerToRawData.toNat+i) (by rw [hall.size]; omega)
    rw [List.getD_eq_getElem _ _ (by rwa [length_readAt]),getElem_readAt,←hbyte,Nat.add_assoc]

theorem contents_cleared {i : ℕ} (hlow : (s.at host).sizeOfRawData.toNat ≤ i) :
    (s.contents pe host).getD i 0=0 := by
  rw [SectionLoad.contents,List.getD_append_right _ _ _ _ (by rwa [length_rawBytes])]
  simp

theorem Held.inMemory (h : Held pe host memory s block) (hall : Loadable pe host file [s])
    (hcap : memory.map.memoryMapBlocksShadow.capacity=0x40001) :
    InMemory pe host file memory s where
  raw i hi := by
    rw [h.value8 (hall.placed s (by simp)) hcap (Nat.lt_of_lt_of_le hi (Nat.le_max_left _ _)),
      contents_raw hall hi]
  cleared i hlow hhigh := by
    rw [h.value8 (hall.placed s (by simp)) hcap (Nat.lt_of_lt_of_le hhigh (Nat.le_max_right _ _)),
      contents_cleared hlow]
  block := by
    refine ⟨block,h.mem,h.virtualAddress,?_⟩
    have hinside := (hall.placed s (by simp)).inside
    have hsum : (block.virtualAddress+block.size).toNat=
      ((s.at host).vaddr pe).toNat+(s.at host).length := by
      rw [BitVec.toNat_add,h.virtualAddress,h.size]
      omega
    rw [h.blockEnd,hsum]
    rfl

end Contents

/-- The sections of an image are loaded, in both builds, exactly when each name has 7-bit characters
only up to the first zero byte, which may lie behind the eight bytes of the name. -/
theorem loadImage_loads_iff {build : Build} {pe : PeCtx} {host : ℕ→U8} {file : List U8}
    {sections : List SectionLoad} (h : Loadable pe host file sections) (zeroPointer : ℕ) :
    (∃memory : Memory κ,loadImage build pe host zeroPointer sections=.ok memory ∧
      ∀s∈sections,InMemory pe host file memory s) ↔ ∀s∈sections,Named pe host s := by
  obtain ⟨m,hmap,hload⟩ := zeroPage_loaded (κ:=κ) build pe host zeroPointer
  have hall : Loadable pe host file ([]++sections) := h
  rw [loadImage,hmap,ok_bind]
  constructor
  · rintro ⟨memory,hrun,_⟩
    exact named_of_mapSectionsFromPE hall hload hrun
  · intro hnamed
    obtain ⟨memory,hrun,hloaded⟩ := mapSectionsFromPE_spec build hall hload hnamed
    refine ⟨memory,hrun,fun s hs => ?_⟩
    obtain ⟨block,hheld⟩ := hloaded.held s hs
    have hone : Loadable pe host file [s] :=
      ⟨h.size,h.pages,h.mapped,fun t ht => List.mem_singleton.mp ht ▸ h.placed s hs,
        List.pairwise_singleton _ _⟩
    exact hheld.inMemory hone hloaded.blocks

/-- A file of one section header and the four bytes of the section, which is larger in memory. -/
def oneSection (name : List U8) (virtualSize : U32) : List U8 :=
  name++bytes32 virtualSize++bytes32 0x1000++bytes32 4++bytes32 40++List.replicate 12 0++bytes32
    0xc0000040++[1,2,3,4]

def onePe : PeCtx := ⟨0x10000,44,0x11000,0x400000⟩

def mappedFile (file : List U8) : ℕ→U8 := fun a => file.getD (a-0x10000) 0

def oneLoad : SectionLoad := ⟨0x10000,2,none,0x20000⟩

theorem mappedFile_add (file : List U8) (i : ℕ) : mappedFile file (0x10000+i)=file.getD i 0 := by
  rw [mappedFile,Nat.add_sub_cancel_left]

theorem Placed.loadable {file : List U8} (h : Placed onePe (mappedFile file) oneLoad)
    (hsize : file.length=44) :
    Loadable onePe (mappedFile file) file [oneLoad] where
  size := hsize
  pages := by decide
  mapped i _ := mappedFile_add file i
  placed := by simpa using h
  separate := List.pairwise_singleton _ _

def dataFile : List U8 := oneSection [0x2e,0x64,0x61,0x74,0x61,0,0,0] 8

theorem loadImage_loads_data : ∃memory :
    Memory Unit,loadImage .debug onePe (mappedFile dataFile) 1 [oneLoad]=.ok memory ∧
    ∀s∈[oneLoad],InMemory onePe (mappedFile dataFile) dataFile memory s := by
  have hplaced : Placed onePe (mappedFile dataFile) oneLoad := by
    constructor <;> decide +kernel
  have hnamed : Named onePe (mappedFile dataFile) oneLoad := named_iff.mpr ⟨".data".toList,
    by decide +kernel⟩
  exact (loadImage_loads_iff (hplaced.loadable rfl) 1).mpr (by simpa using hnamed)

/-- `.textbss` fills the name, and the first byte of its virtual size is 0x80. -/
def textbssFile : List U8 := oneSection [0x2e,0x74,0x65,0x78,0x74,0x62,0x73,0x73] 0x80

theorem loadImage_textbss : Loadable onePe (mappedFile textbssFile) textbssFile [oneLoad] ∧
    ¬∃memory : Memory Unit,loadImage .debug onePe (mappedFile textbssFile) 1 [oneLoad]=
      .ok memory := by
  have hplaced : Placed onePe (mappedFile textbssFile) oneLoad := by
    constructor <;> decide +kernel
  have hload := hplaced.loadable rfl
  refine ⟨hload,?_⟩
  rintro ⟨memory,hrun⟩
  obtain ⟨m,hmap,hstart⟩ := zeroPage_loaded (κ:=Unit) .debug onePe (mappedFile textbssFile) 1
  rw [loadImage,hmap,ok_bind] at hrun
  have hall : Loadable onePe (mappedFile textbssFile) textbssFile ([]++[oneLoad]) := hload
  obtain ⟨tag,htag⟩ := named_iff.mp (named_of_mapSectionsFromPE hall hstart hrun oneLoad
    (List.mem_singleton_self _))
  have hnil : sectionTag onePe (mappedFile textbssFile) oneLoad.header=none := by decide +kernel
  rw [hnil] at htag
  cases htag

end FalloutEmu.Sections
