import FalloutEmu.FilePositions
import FalloutEmu.Frames
import FalloutEmu.StaticBinding

/-! # DirectDraw surfaces in guest memory -/
namespace FalloutEmu.Surfaces
open ByteStore
open FEMemoryMap (create mallocBlock WellFormed SameBlocks Fits mem_withBlock)
open FilePositions (IsBuffer callMap callMap_holds callMap_inBlock)
open FlatMemory (Extends InBlock endsInSpace_reach)
open StaticImports (Gigabyte endsInSpace_of_fits word word_writeAt word_congr)
open WideAccess (hostAddress contiguous_of_inBlock load_eq store_eq)
variable {κ : Type}

/-- The bytes of a `DDSURFACEDESC`; `dwHeight` is at 8, `dwWidth` at 12, `lPitch` at 16 and
`lpSurface` at 36. -/
abbrev DDSURFACEDESC := ℕ→U8

namespace DDSURFACEDESC

def size : ℕ := 108

def setWord (desc : DDSURFACEDESC) (offset : ℕ) (v : U32) : DDSURFACEDESC :=
  writeAt desc offset (littleEndian 4 v.toNat)

def dwHeight (desc : DDSURFACEDESC) : U32 := word desc 8
def dwWidth (desc : DDSURFACEDESC) : U32 := word desc 12
def lPitch (desc : DDSURFACEDESC) : U32 := word desc 16
def lpSurface (desc : DDSURFACEDESC) : U32 := word desc 36

end DDSURFACEDESC

structure FEDDrawDLL where
  width : U32
  height : U32
  bpp : U32
  surfaces : U32→Option DDSURFACEDESC

/-- The calling thread, the guest's memory, the proxy, and what `feddrawdllNewData:` was sent: where
the data starts in the host and its length. -/
structure State (κ : Type) where
  memory : Memory κ
  esp : U32
  eax : U32
  ddraw : FEDDrawDLL
  newData : List (ℕ×ℕ)

namespace State

def argument (s : State κ) (i : ℕ) : Except Stop U32 :=
  s.memory.value32AtAddress (s.esp+4+.ofNat 32 (4*i))

end State

def malloc (build : Build) (memory : Memory κ) (size : U32) (tag : List Char)
    (host : HostAllocation) :
    Except Stop (U32×Memory κ) := do
  let result ← memory.map.malloc build size .readWrite tag host
  .ok (result.address,{ memory with map := result.map })

def setDisplayMode (s : State κ) : Except Stop (U8×State κ) := do
  let _arg_ddvmt ← s.argument 0
  let arg_width ← s.argument 1
  let arg_height ← s.argument 2
  let arg_bpp ← s.argument 3
  .ok (16,{ s with
    eax := 0
    ddraw := { s.ddraw with width := arg_width,height := arg_height,bpp := arg_bpp } })

structure SurfaceHost where
  surfaceObj : HostAllocation
  ptrsurfaceObj : HostAllocation
  backing : HostAllocation

def pitch (width bpp : U32) : U32 := width*bpp/8

def backingSize (width height bpp : U32) : U32 := width*height*bpp/8

def describe (ddraw : FEDDrawDLL) (surfaceDesc : DDSURFACEDESC) (backing : U32) : DDSURFACEDESC :=
  (((surfaceDesc.setWord 12 ddraw.width).setWord 8 ddraw.height).setWord 16
    (pitch ddraw.width ddraw.bpp)).setWord 36 backing

/-- `sizeof(IDirectDrawSurface7)`, the structure of 49 methods. -/
def surfaceObjSize : ℕ := 196

/-- `fe_IDirectDrawVMT_CreateSurface`, with the pointer `vptrsurfaceObj` that it hands out. -/
def newSurface (build : Build) (s : State κ) (surfaceObj : List U8) (host : SurfaceHost) :
    Except Stop (U32×State κ) := do
  let arg_lpDDSurfaceDesc ← s.argument 1
  let arg_lplpDDSurface ← s.argument 2
  let surfaceDesc ← s.memory.memcpyToRealFromVirtual arg_lpDDSurfaceDesc
    (.ofNat 32 DDSURFACEDESC.size)
  let (vsurfaceObj,memory) ← malloc build s.memory 196 "IDirectDrawSurface7".toList host.surfaceObj
  let memory ← memory.memcpyToVirtualFromReal vsurfaceObj surfaceObj
  let (vptrsurfaceObj,memory) ← malloc build memory 4 "ptr to IDirectDrawSurface7".toList
    host.ptrsurfaceObj
  let memory ← memory.setValue32 vptrsurfaceObj vsurfaceObj
  let memory ← memory.setValue32 arg_lplpDDSurface vptrsurfaceObj
  let (lpSurface,memory) ← malloc build memory (backingSize s.ddraw.width s.ddraw.height
    s.ddraw.bpp)
    "Surface backing memory".toList host.backing
  let desc := describe s.ddraw (fun i => surfaceDesc.getD i 0) lpSurface
  .ok (vptrsurfaceObj,{ s with
    memory := memory
    eax := 0
    ddraw := { s.ddraw with
      surfaces := fun surface => if surface=vptrsurfaceObj then some desc
        else s.ddraw.surfaces surface } })

def createSurface (build : Build) (s : State κ) (surfaceObj : List U8) (host : SurfaceHost) :
    Except Stop (U8×State κ) := do
  let (_,s) ← newSurface build s surfaceObj host
  .ok (16,s)

/-- The rectangle that an argument points to, if any; only the log shows it. -/
def readRect (memory : Memory κ) (arg : U32) : Except Stop (List U8) :=
  if arg≠0 then memory.memcpyToRealFromVirtual arg 16 else .ok []

/-- `fe_IDirectDrawSurface7_Lock`. Without assertions, a missing description leaves the structure
undefined. -/
def lock (build : Build) (s : State κ) : Except Stop (U8×State κ) := do
  let arg_surface ← s.argument 0
  let arg_lpDestRect ← s.argument 1
  let arg_lpDDSurfaceDesc ← s.argument 2
  let _arg_dwFlags ← s.argument 3
  let _arg_hEvent ← s.argument 4
  let _rect ← readRect s.memory arg_lpDestRect
  assertThat build (s.ddraw.surfaces arg_surface).isSome
  match s.ddraw.surfaces arg_surface with
  | none => .error .undefinedBehaviour
  | some surfaceDesc =>
    let memory ← s.memory.memcpyToVirtualFromReal arg_lpDDSurfaceDesc
      (readAt surfaceDesc 0 DDSURFACEDESC.size)
    .ok (20,{ s with memory := memory,eax := 0 })

def blt (s : State κ) : Except Stop (U8×State κ) := do
  let _arg_this ← s.argument 0
  let arg_lpDestRect ← s.argument 1
  let arg_lpDDSrcSurface ← s.argument 2
  let arg_lpSrcRect ← s.argument 3
  let _arg_dwFlags ← s.argument 4
  let _arg_lpDDBltFx ← s.argument 5
  let _destRect ← readRect s.memory arg_lpDestRect
  let _srcRect ← readRect s.memory arg_lpSrcRect
  match s.ddraw.surfaces arg_lpDDSrcSurface with
  | none => .error .undefinedBehaviour
  | some desc =>
    match ← s.memory.map.blockFromVirtualAddress desc.lpSurface with
    | none => .error .nullBlock
    | some mBlock =>
      let original := mBlock.localAddress+(desc.lpSurface-mBlock.virtualAddress).toNat
      .ok (24,{ s with
        eax := 0
        newData := s.newData++[(original,(desc.dwWidth*desc.dwHeight).toNat)] })

/-- The map of the process: its blocks lie below the end of the map and share no page. -/
structure Sound (m : FEMemoryMap κ) : Prop where
  size : m.size=0x40000000
  wellFormed : WellFormed m
  inside : ∀b∈m.memoryMapBlocks.elements,b.virtualAddress.toNat+b.size.toNat≤0x40000000

/-- A completed call, or anything else that happens in between and unmaps no block. `createSurface`
carries the mode and the block of the backing memory, `lock` the pitch that the guest finds in its
structure and `blt` what the delegates are sent. -/
inductive Event where
  | setDisplayMode (width height bpp : U32)
  | createSurface (surface width height bpp : U32) (block : FEMemoryMapBlock)
  | lock (surface pitch : U32)
  | blt (surface : U32) (original length : ℕ)
  | other

def Step (s : State κ) (event : Event) (t : State κ) : Prop :=
  match event with
  | .setDisplayMode width height bpp => s.argument 1=.ok width ∧ s.argument 2=.ok height ∧
    s.argument 3=.ok bpp ∧
    setDisplayMode s=.ok (16,t)
  | .createSurface surface width height bpp block =>
    s.ddraw.width=width ∧ s.ddraw.height=height ∧ s.ddraw.bpp=bpp ∧
    ∃surfaceObj host realAddress newBlock desc,
      surfaceObj.length=surfaceObjSize ∧ newSurface .debug s surfaceObj host=.ok (surface,t) ∧
      host.backing=⟨some realAddress,some newBlock⟩ ∧ t.ddraw.surfaces surface=some desc ∧
      block=mallocBlock (backingSize width height bpp) "Surface backing memory".toList realAddress
        newBlock desc.lpSurface
  | .lock surface pitch => ∃a,s.argument 0=.ok surface ∧ s.argument 2=.ok a ∧
    IsBuffer s.memory.map a DDSURFACEDESC.size ∧ lock .debug s=.ok (20,t) ∧
      t.memory.value32AtAddress (a+16)=.ok pitch
  | .blt surface original length => s.argument 2=.ok surface ∧ blt s=.ok (24,t) ∧
    t.newData=s.newData++[(original,length)]
  | .other => Sound t.memory.map ∧ Extends s.memory.map t.memory.map ∧ t.ddraw=s.ddraw

/-- The proxy before the first mode is set. -/
def Start (s : State κ) : Prop := Sound s.memory.map ∧ s.ddraw=⟨0,0,0,fun _ => none⟩

/-- Every byte of the data lies in the buffer of the block. -/
def Inside (block : FEMemoryMapBlock) (original length : ℕ) : Prop :=
  ∀p,original ≤ p → p < original+length→block.localAddress ≤ p ∧
    p<block.localAddress+block.size.toNat

/-- A call of `Blt` on the surface, with arguments that the guest has put where they are read. -/
structure BltCall (s : State κ) (surface : U32) : Prop where
  arguments : ∀i<6,∃v,s.argument i=.ok v
  surface : s.argument 2=.ok surface
  rects : ∀i,i=1 ∨ i=3→∀a,s.argument i=.ok a→∃rect,readRect s.memory a=.ok rect

/-- A row fits the pitch, the rows fit the block, a call of `Blt` returns, and what the delegates
are sent now and were sent before lies in the buffer of the block. -/
structure Consistent (events : List Event) (s : State κ) (surface width height bpp pitch : U32)
    (block : FEMemoryMapBlock) : Prop where
  row : width.toNat*bpp.toNat ≤ pitch.toNat*8
  rows : height.toNat*pitch.toNat ≤ block.size.toNat
  sent : ∀original length,.blt surface original length∈events→Inside block original length
  shown : ∃t original length,blt s=.ok (24,t) ∧ t.newData=s.newData++[(original,length)] ∧
    Inside block original length

/-- A mode with an image, whose rows are whole bytes and whose pixels have at least one byte each,
of less than 2^32 bits in all. -/
structure Exact (width height bpp : U32) : Prop where
  nonempty : 0<width.toNat*height.toNat
  wholeBytes : width.toNat*bpp.toNat%8=0
  row : width.toNat*bpp.toNat<2^32
  image : width.toNat*height.toNat*bpp.toNat<2^32
  pixel : 8 ≤ bpp.toNat

/-- A mode without an image: its block has no bytes, so that it owns no page. -/
structure Hollow (width height bpp : U32) : Prop where
  wholeBytes : width.toNat*bpp.toNat%8=0
  row : width.toNat*bpp.toNat<2^32
  image : width.toNat*height.toNat*bpp.toNat=0
  pixels : width.toNat*height.toNat%2^32=0

section Sizes

theorem toNat_pitch (width bpp : U32) : (pitch width bpp).toNat=width.toNat*bpp.toNat%2^32/8 := by
  rw [pitch,BitVec.toNat_udiv,BitVec.toNat_mul]
  rfl

theorem toNat_backingSize (width height bpp : U32) :
    (backingSize width height bpp).toNat=width.toNat*height.toNat*bpp.toNat%2^32/8 := by
  rw [backingSize,BitVec.toNat_udiv,BitVec.toNat_mul,BitVec.toNat_mul,Nat.mod_mul_mod]
  rfl

/-- The products on numbers: every one of the three sizes is exact only if none wraps or loses
bits. -/
theorem sizes_iff {w h b : ℕ} :
    (w*b ≤ w*b%2^32/8*8 ∧ h*(w*b%2^32/8) ≤ w*h*b%2^32/8 ∧ w*h%2^32 ≤ w*h*b%2^32/8) ↔
      w*b%8=0 ∧ w*b<2^32 ∧ w*h*b<2^32 ∧ (8 ≤ b ∨ w*h%2^32=0) := by
  have himage : w*h*b=h*(w*b) := by ring
  have htotal (hbytes : w*b=8*(w*b/8)) : w*h*b=8*(h*(w*b/8)) := by
    rw [himage]
    nth_rewrite 1 [hbytes]
    ring
  constructor
  · rintro ⟨hrow,hrows,hdata⟩
    have hlt : w*b<2^32 := by omega
    have hbytes := htotal (by omega)
    rw [Nat.mod_eq_of_lt hlt] at hrows
    have hsmall : w*h*b<2^32 := by omega
    refine ⟨by omega,hlt,hsmall,?_⟩
    by_contra hpixel
    obtain ⟨hb,hne⟩ := not_or.mp hpixel
    -- fewer than eight bits for each of the pixels
    have hle : w*h*b ≤ w*h*7 := Nat.mul_le_mul_left _ (by omega)
    rcases Nat.eq_zero_or_pos b with rfl|hpos
    · rw [Nat.mul_zero] at hdata
      omega
    · have hpixels : w*h ≤ w*h*b := Nat.le_mul_of_pos_right _ hpos
      omega
  · rintro ⟨hwhole,hlt,hsmall,hpixel⟩
    have hbytes := htotal (by omega)
    rw [Nat.mod_eq_of_lt hlt,Nat.mod_eq_of_lt hsmall]
    refine ⟨by omega,by omega,?_⟩
    rcases hpixel with hb|hzero
    · have hpixels : w*h*8 ≤ w*h*b := Nat.mul_le_mul_left _ hb
      exact (Nat.mod_le _ _).trans (by omega)
    · omega

structure Fitting (width height bpp : U32) : Prop where
  row : width.toNat*bpp.toNat ≤ (pitch width bpp).toNat*8
  rows : height.toNat*(pitch width bpp).toNat ≤ (backingSize width height bpp).toNat
  data : (width*height).toNat ≤ (backingSize width height bpp).toNat

theorem fitting_iff (width height bpp : U32) : Fitting width height bpp ↔
    width.toNat*bpp.toNat%8=0 ∧ width.toNat*bpp.toNat<2^32 ∧
    width.toNat*height.toNat*bpp.toNat<2^32 ∧
      (8 ≤ bpp.toNat ∨ width.toNat*height.toNat%2^32=0) := by
  rw [←sizes_iff,←toNat_pitch,←toNat_backingSize,←BitVec.toNat_mul]
  constructor
  · exact fun h => ⟨h.row,h.rows,h.data⟩
  · exact fun ⟨hrow,hrows,hdata⟩ => ⟨hrow,hrows,hdata⟩

/-- An image of whole bytes is empty if its block has none. -/
theorem backingSize_eq_zero {width height bpp : U32} (hwhole : width.toNat*bpp.toNat%8=0)
    (himage : width.toNat*height.toNat*bpp.toNat<2^32) :
    (backingSize width height bpp).toNat=0 ↔ width.toNat*height.toNat*bpp.toNat=0 := by
  have hdvd : 8∣width.toNat*height.toNat*bpp.toNat := by
    rw [Nat.mul_right_comm]
    exact (Nat.dvd_of_mod_eq_zero hwhole).mul_right _
  rw [toNat_backingSize,Nat.mod_eq_of_lt himage]
  omega

theorem exact_iff (width height bpp : U32) :
    Exact width height bpp ↔ Fitting width height bpp ∧ 0<(backingSize width height bpp).toNat := by
  rw [fitting_iff]
  constructor
  · intro h
    refine ⟨⟨h.wholeBytes,h.row,h.image,.inl h.pixel⟩,Nat.pos_of_ne_zero fun hzero => ?_⟩
    have hempty := (backingSize_eq_zero h.wholeBytes h.image).mp hzero
    have hbits := Nat.mul_pos h.nonempty (show 0<bpp.toNat from h.pixel.trans_lt' (by decide))
    omega
  · rintro ⟨⟨hwhole,hrow,himage,hpixel⟩,hpos⟩
    have hne := mt (backingSize_eq_zero hwhole himage).mpr hpos.ne'
    obtain ⟨hpixels,hbits⟩ := Nat.mul_ne_zero_iff.mp hne
    -- a nonempty image has no more pixels than bits
    have hle : width.toNat*height.toNat ≤ width.toNat*height.toNat*bpp.toNat :=
      Nat.le_mul_of_pos_right _ (Nat.pos_of_ne_zero hbits)
    refine ⟨Nat.pos_of_ne_zero hpixels,hwhole,hrow,himage,hpixel.resolve_right fun hzero => ?_⟩
    rw [Nat.mod_eq_of_lt (by omega)] at hzero
    exact hpixels hzero

theorem hollow_iff (width height bpp : U32) :
    Hollow width height bpp ↔ Fitting width height bpp ∧ (backingSize width height bpp).toNat=
      0 := by
  constructor
  · intro h
    have himage : width.toNat*height.toNat*bpp.toNat<2^32 := by
      rw [h.image]
      decide
    exact ⟨(fitting_iff _ _ _).mpr ⟨h.wholeBytes,h.row,himage,.inr h.pixels⟩,
      (backingSize_eq_zero h.wholeBytes himage).mpr h.image⟩
  · rintro ⟨hfitting,hzero⟩
    obtain ⟨hwhole,hrow,himage,-⟩ := (fitting_iff _ _ _).mp hfitting
    have hdata := hfitting.data
    rw [BitVec.toNat_mul] at hdata
    exact ⟨hwhole,hrow,(backingSize_eq_zero hwhole himage).mp hzero,by omega⟩

theorem backingSize_le (width height bpp : U32) : (backingSize width height bpp).toNat<2^29 := by
  rw [toNat_backingSize]
  omega

end Sizes

section Descriptions

theorem word_setWord_self (desc : DDSURFACEDESC) (offset : ℕ) (v : U32) :
    word (desc.setWord offset v) offset=v :=
  word_writeAt desc offset v

theorem word_setWord_of_ne (desc : DDSURFACEDESC) {offset i : ℕ} (v : U32)
    (h : i+4 ≤ offset ∨ offset+4 ≤ i) :
    word (desc.setWord offset v) i=word desc i := by
  apply word_congr
  intro a hlow hhigh
  apply writeAt_apply_of_outside
  rw [length_littleEndian]
  omega

/-- What a description says about the memory of its surface. -/
structure Describes (desc : DDSURFACEDESC) (width height bpp lpSurface : U32) : Prop where
  dwWidth : desc.dwWidth=width
  dwHeight : desc.dwHeight=height
  lPitch : desc.lPitch=pitch width bpp
  lpSurface : desc.lpSurface=lpSurface

theorem describe_describes (ddraw : FEDDrawDLL) (surfaceDesc : DDSURFACEDESC) (backing : U32) :
    Describes (describe ddraw surfaceDesc backing) ddraw.width ddraw.height ddraw.bpp backing where
  dwWidth := by
    rw [DDSURFACEDESC.dwWidth,describe,word_setWord_of_ne _ _ (by decide),
      word_setWord_of_ne _ _ (by decide),
      word_setWord_of_ne _ _ (by decide),word_setWord_self]
  dwHeight := by
    rw [DDSURFACEDESC.dwHeight,describe,word_setWord_of_ne _ _ (by decide),
      word_setWord_of_ne _ _ (by decide),
      word_setWord_self]
  lPitch := by rw [DDSURFACEDESC.lPitch,describe,word_setWord_of_ne _ _ (by decide),
    word_setWord_self]
  lpSurface := by rw [DDSURFACEDESC.lpSurface,describe,word_setWord_self]

end Descriptions

section Allocations

theorem Sound.gigabyte {m : FEMemoryMap κ} (h : Sound m) : Gigabyte m :=
  ⟨h.wellFormed,h.size,h.inside⟩

theorem Sound.sameMap {m m' : FEMemoryMap κ} (h : Sound m) (hm : m'=m) : Sound m' := hm ▸ h

theorem malloc_spec {memory memory' : Memory κ} {size address : U32} {tag : List Char}
    {host : HostAllocation} (h : Sound memory.map) (hsize : size.toNat≤0x40000000)
    (hmalloc : malloc .debug memory size tag host=.ok (address,memory')) :
    Sound memory'.map ∧ Extends memory.map memory'.map ∧
    ∃realAddress newBlock,host=⟨some realAddress,some newBlock⟩ ∧
      mallocBlock size tag realAddress newBlock address∈memory'.map.memoryMapBlocks.elements ∧
      memory.map.Free (mallocBlock size tag realAddress newBlock address) := by
  obtain ⟨result,hresult,heq⟩ := bind_eq_ok.mp hmalloc
  cases heq
  obtain ⟨realAddress,newBlock,rfl,-,-,-⟩ := FEMemoryMap.malloc_ok hresult
  obtain ⟨hwell,hsame,hplace,hfree⟩ := h.wellFormed.malloc (h.gigabyte.offers hsize)
    (fun address hfits => endsInSpace_reach address (endsInSpace_of_fits hfits)) hresult
  have hmem : ∀b,b∈result.map.memoryMapBlocks.elements ↔ b∈memory.map.memoryMapBlocks.elements ∨
      b=mallocBlock size tag realAddress newBlock result.address := by
    intro b
    rw [hsame.blocks,mem_withBlock]
  refine ⟨⟨hsame.size.trans h.size,hwell,?_⟩,fun b hb => (hmem b).mpr (.inl hb),realAddress,
    newBlock,rfl,(hmem _).mpr (.inr rfl),hfree⟩
  intro b hb
  rcases (hmem b).mp hb with hb|rfl
  · exact h.inside b hb
  · exact hplace.high

theorem ownsPage_start {block : FEMemoryMapBlock} (hpos : 0<block.size.toNat) :
    block.OwnsPage (shadowIndex block.virtualAddress) :=
  FEMemoryMapBlock.Contains.ownsPage ⟨le_rfl,Nat.lt_add_of_pos_right hpos⟩

/-- A block of positive size that took free pages starts where no other block does. -/
theorem ne_of_free {m : FEMemoryMap κ} (hm : WellFormed m) {block holder : FEMemoryMapBlock}
    (hfree : m.Free block) (hpos : 0<block.size.toNat) (hholder : holder∈m.memoryMapBlocks.elements)
    (hposHolder : 0<holder.size.toNat) :
    holder.virtualAddress≠block.virtualAddress := by
  intro heq
  have hown := ownsPage_start hpos
  have hownHolder := ownsPage_start hposHolder
  rw [heq] at hownHolder
  have hslot := (hm.owner _ holder).mpr ⟨hholder,hownHolder⟩
  rw [(hfree _ hown).2] at hslot
  cases hslot

theorem blockFromVirtualAddress_start {m : FEMemoryMap κ} (hm : WellFormed m)
    {block : FEMemoryMapBlock} (hmem : block∈m.memoryMapBlocks.elements)
    (hpos : 0<block.size.toNat) :
    m.blockFromVirtualAddress block.virtualAddress=.ok (some block) := by
  have hslot := (hm.owner _ block).mpr ⟨hmem,ownsPage_start hpos⟩
  exact Shadow.get_eq_ok.mpr ⟨hm.bounded _ _ hslot,hslot⟩

theorem block_at_start {m : FEMemoryMap κ} (hm : WellFormed m) {block mBlock : FEMemoryMapBlock}
    (hmem : block∈m.memoryMapBlocks.elements) (hpos : 0<block.size.toNat)
    (hget : m.blockFromVirtualAddress block.virtualAddress=.ok (some mBlock)) : mBlock=block := by
  rw [blockFromVirtualAddress_start hm hmem hpos] at hget
  cases hget
  rfl

end Allocations

/-- The surface and its memory, as they are from its creation on. -/
structure Backed (s : State κ) (surface width height bpp : U32)
    (block : FEMemoryMapBlock) : Prop where
  described : ∃desc,s.ddraw.surfaces surface=some desc ∧
    Describes desc width height bpp block.virtualAddress
  mapped : block∈s.memory.map.memoryMapBlocks.elements
  size : block.size=backingSize width height bpp
  key : ∃holder∈s.memory.map.memoryMapBlocks.elements,holder.virtualAddress=surface ∧
    0<holder.size.toNat

/-- What a step keeps of a surface: its blocks and its description. -/
theorem Backed.of_extends {s t : State κ} {surface width height bpp : U32}
    {block : FEMemoryMapBlock} (h : Backed s surface width height bpp block)
    (hext : Extends s.memory.map t.memory.map)
    (hkept : t.ddraw.surfaces surface=s.ddraw.surfaces surface) :
    Backed t surface width height bpp block where
  described := by
    rw [hkept]
    exact h.described
  mapped := hext _ h.mapped
  size := h.size
  key := by
    obtain ⟨holder,hmem,hholder⟩ := h.key
    exact ⟨holder,hext _ hmem,hholder⟩

section Steps
variable {s t : State κ}

theorem setDisplayMode_spec {width height bpp : U32} (hwidth : s.argument 1=.ok width)
    (hheight : s.argument 2=.ok height) (hbpp : s.argument 3=.ok bpp)
    (hset : setDisplayMode s=.ok (16,t)) :
    t={ s with eax := 0,ddraw := { s.ddraw with width := width,height := height,bpp := bpp } } := by
  obtain ⟨_,-,hset⟩ := bind_eq_ok.mp hset
  rw [hwidth,hheight,hbpp] at hset
  cases hset
  rfl

/-- A creation adds the three blocks and one description under a new key. -/
theorem newSurface_spec (h : Sound s.memory.map) {surfaceObj : List U8} {host : SurfaceHost}
    {surface : U32} (hnew : newSurface .debug s surfaceObj host=.ok (surface,t)) :
    Sound t.memory.map ∧ Extends s.memory.map t.memory.map ∧
    (∀other,other≠surface→t.ddraw.surfaces other=s.ddraw.surfaces other) ∧
    (∀holder∈s.memory.map.memoryMapBlocks.elements,0<holder.size.toNat→
      holder.virtualAddress≠surface) ∧
    ∃desc realAddress newBlock,t.ddraw.surfaces surface=some desc ∧ host.backing=
      ⟨some realAddress,some newBlock⟩ ∧
      Backed t surface s.ddraw.width s.ddraw.height s.ddraw.bpp
        (mallocBlock (backingSize s.ddraw.width s.ddraw.height s.ddraw.bpp)
          "Surface backing memory".toList
          realAddress newBlock desc.lpSurface) := by
  obtain ⟨_,-,hnew⟩ := bind_eq_ok.mp hnew
  obtain ⟨_,-,hnew⟩ := bind_eq_ok.mp hnew
  obtain ⟨surfaceDesc,-,hnew⟩ := bind_eq_ok.mp hnew
  obtain ⟨⟨_,memory₁⟩,hobject,hnew⟩ := bind_eq_ok.mp hnew
  obtain ⟨memory₂,hstore,hnew⟩ := bind_eq_ok.mp hnew
  obtain ⟨⟨vptrsurfaceObj,memory₃⟩,hpointer,hnew⟩ := bind_eq_ok.mp hnew
  obtain ⟨memory₄,hset,hnew⟩ := bind_eq_ok.mp hnew
  obtain ⟨memory₅,hout,hnew⟩ := bind_eq_ok.mp hnew
  obtain ⟨⟨lpSurface,memory₆⟩,hbacking,hnew⟩ := bind_eq_ok.mp hnew
  cases hnew
  obtain ⟨hsound₁,hext₁,-⟩ := malloc_spec h (by decide) hobject
  have hmap₂ := Memory.store_map hstore
  obtain ⟨hsound₃,hext₃,_,_,-,hkey,hfree⟩ := malloc_spec (hsound₁.sameMap hmap₂)
    (by decide) hpointer
  have hmap₅ := (Memory.store_map hout).trans (Memory.store_map hset)
  have hsize := (backingSize_le s.ddraw.width s.ddraw.height s.ddraw.bpp).le.trans
    (by decide : 2^29 ≤ 0x40000000)
  obtain ⟨hsound₆,hext₆,realAddress,newBlock,hhost,hblock,-⟩ := malloc_spec (hsound₃.sameMap hmap₅)
    hsize hbacking
  rw [hmap₂] at hext₃ hfree
  rw [hmap₅] at hext₆
  refine ⟨hsound₆,fun b hb => hext₆ b (hext₃ b (hext₁ b hb)),fun other hother => if_neg hother,?_,_,
    realAddress,newBlock,if_pos rfl,hhost,?_⟩
  · intro holder hholder hpos
    exact ne_of_free hsound₁.wellFormed hfree (by decide : 0<(4 : U32).toNat) (hext₁ _ hholder) hpos
  · have hdescribes := describe_describes s.ddraw (fun i => surfaceDesc.getD i 0) lpSurface
    rw [hdescribes.lpSurface]
    exact ⟨⟨_,if_pos rfl,hdescribes⟩,hblock,rfl,_,hext₆ _ hkey,rfl,(by decide : 0<(4 : U32).toNat)⟩

/-- `Lock` changes only the guest's bytes, and the structure it fills has the pitch of the
description. -/
theorem lock_spec {surface a reported : U32} (hsurface : s.argument 0=.ok surface)
    (ha : s.argument 2=.ok a) (hbuffer : IsBuffer s.memory.map a DDSURFACEDESC.size)
    (hlock : lock .debug s=.ok (20,t)) (hreported : t.memory.value32AtAddress (a+16)=.ok reported) :
    t.memory.map=s.memory.map ∧ t.ddraw=s.ddraw ∧
    ∃desc,s.ddraw.surfaces surface=some desc ∧ reported=desc.lPitch := by
  rw [lock,hsurface,ok_bind] at hlock
  obtain ⟨_,-,hlock⟩ := bind_eq_ok.mp hlock
  rw [ha,ok_bind] at hlock
  obtain ⟨_,-,hlock⟩ := bind_eq_ok.mp hlock
  obtain ⟨_,-,hlock⟩ := bind_eq_ok.mp hlock
  obtain ⟨_,-,hlock⟩ := bind_eq_ok.mp hlock
  obtain ⟨_,-,hlock⟩ := bind_eq_ok.mp hlock
  cases hdesc : s.ddraw.surfaces surface with
  | none =>
    rw [hdesc] at hlock
    cases hlock
  | some desc =>
    rw [hdesc] at hlock
    obtain ⟨memory,hstore,hlock⟩ := bind_eq_ok.mp hlock
    cases hlock
    refine ⟨Memory.store_map hstore,rfl,desc,rfl,?_⟩
    have hpart := hbuffer.part 16 4 (by decide)
    rw [←Memory.store_map hstore] at hpart
    have haddress : a+16=a+.ofNat 32 16 := rfl
    have hhost : hostAddress memory.map (a+.ofNat 32 16)=hostAddress s.memory.map a+16 := by
      rw [Memory.store_map hstore]
      exact hbuffer.contiguous 16 (by decide)
    rw [Memory.memcpyToVirtualFromReal,store_eq (by decide) hbuffer.mapped] at hstore
    rw [Memory.value32AtAddress,haddress,load_eq (by decide) hpart.mapped,hhost] at hreported
    cases hstore
    cases hreported
    exact congrArg (fun bytes => BitVec.ofNat 32 (value bytes))
      (readAt_writeAt_part _ desc (by decide))

/-- `Blt` sends the bytes that start where the surface's memory starts in the host. -/
theorem blt_spec {surface : U32} {original length : ℕ} (hsurface : s.argument 2=.ok surface)
    (hblt : blt s=.ok (24,t)) (hdata : t.newData=s.newData++[(original,length)]) :
    t.memory=s.memory ∧ t.ddraw=s.ddraw ∧
    ∃desc mBlock,s.ddraw.surfaces surface=some desc ∧
      s.memory.map.blockFromVirtualAddress desc.lpSurface=.ok (some mBlock) ∧
      original=mBlock.localAddress+(desc.lpSurface-mBlock.virtualAddress).toNat ∧
      length=(desc.dwWidth*desc.dwHeight).toNat := by
  obtain ⟨_,-,hblt⟩ := bind_eq_ok.mp hblt
  obtain ⟨_,-,hblt⟩ := bind_eq_ok.mp hblt
  rw [hsurface,ok_bind] at hblt
  obtain ⟨_,-,hblt⟩ := bind_eq_ok.mp hblt
  obtain ⟨_,-,hblt⟩ := bind_eq_ok.mp hblt
  obtain ⟨_,-,hblt⟩ := bind_eq_ok.mp hblt
  obtain ⟨_,-,hblt⟩ := bind_eq_ok.mp hblt
  obtain ⟨_,-,hblt⟩ := bind_eq_ok.mp hblt
  cases hdesc : s.ddraw.surfaces surface with
  | none =>
    rw [hdesc] at hblt
    cases hblt
  | some desc =>
    rw [hdesc] at hblt
    obtain ⟨mBlock?,hblock,hblt⟩ := bind_eq_ok.mp hblt
    cases mBlock? with
    | none => cases hblt
    | some mBlock =>
      cases hblt
      obtain ⟨rfl,rfl⟩ := Prod.mk.inj (List.singleton_injective (List.append_cancel_left hdata))
      exact ⟨rfl,rfl,desc,mBlock,rfl,hblock,rfl,rfl⟩

/-- A call of `Blt` on a described surface returns as soon as its memory has a block. -/
theorem blt_returns {surface : U32} (hcall : BltCall s surface) {desc : DDSURFACEDESC}
    (hdesc : s.ddraw.surfaces surface=some desc) {mBlock : FEMemoryMapBlock}
    (hblock : s.memory.map.blockFromVirtualAddress desc.lpSurface=.ok (some mBlock)) :
    ∃t,blt s=.ok (24,t) ∧ t.newData=
      s.newData++[(mBlock.localAddress+(desc.lpSurface-mBlock.virtualAddress).toNat,
      (desc.dwWidth*desc.dwHeight).toNat)] := by
  obtain ⟨arg_this,h₀⟩ := hcall.arguments 0 (by decide)
  obtain ⟨arg_lpDestRect,h₁⟩ := hcall.arguments 1 (by decide)
  obtain ⟨arg_lpSrcRect,h₃⟩ := hcall.arguments 3 (by decide)
  obtain ⟨arg_dwFlags,h₄⟩ := hcall.arguments 4 (by decide)
  obtain ⟨arg_lpDDBltFx,h₅⟩ := hcall.arguments 5 (by decide)
  obtain ⟨destRect,hdest⟩ := hcall.rects 1 (.inl rfl) _ h₁
  obtain ⟨srcRect,hsrc⟩ := hcall.rects 3 (.inr rfl) _ h₃
  rw [blt,h₀,ok_bind,h₁,ok_bind,hcall.surface,ok_bind,h₃,ok_bind,h₄,ok_bind,h₅,ok_bind,hdest,
    ok_bind,hsrc,ok_bind,hdesc]
  simp only
  rw [hblock,ok_bind]
  exact ⟨_,rfl,rfl⟩

end Steps

structure Sent (width height : U32) (block : FEMemoryMapBlock) (original length : ℕ) : Prop where
  length : length=(width*height).toNat
  start : 0<block.size.toNat→ original=block.localAddress

/-- The data lies in the block as soon as it is no longer than the block. -/
theorem Sent.inside_iff {width height : U32} {block : FEMemoryMapBlock} {original length : ℕ}
    (h : Sent width height block original length) :
    Inside block original length ↔ (width*height).toNat ≤ block.size.toNat := by
  obtain ⟨rfl,hfirst⟩ := h
  constructor
  · intro hinside
    by_contra hlong
    rcases Nat.eq_zero_or_pos block.size.toNat with hempty|hpos
    · have hbyte := hinside original le_rfl (by omega)
      omega
    · have hbyte := hinside (original+block.size.toNat) (by omega) (by omega)
      have hstart := hfirst hpos
      omega
  · intro hlength p hlow hhigh
    have hstart := hfirst (by omega)
    omega

/-- What `Blt` hands over starts where the surface's block does. -/
theorem sent_of_block {s : State κ} (hm : WellFormed s.memory.map) {surface width height bpp : U32}
    {block mBlock : FEMemoryMapBlock} (hbacked : Backed s surface width height bpp block)
    {desc : DDSURFACEDESC} (hdescribes : Describes desc width height bpp block.virtualAddress)
    (hblock : s.memory.map.blockFromVirtualAddress desc.lpSurface=.ok (some mBlock))
    {original length : ℕ} (horiginal : original=
      mBlock.localAddress+(desc.lpSurface-mBlock.virtualAddress).toNat)
    (hlength : length=(desc.dwWidth*desc.dwHeight).toNat) :
    Sent width height block original length where
  length := by rw [hlength,hdescribes.dwWidth,hdescribes.dwHeight]
  start hpos := by
    rw [hdescribes.lpSurface] at hblock horiginal
    rw [block_at_start hm hbacked.mapped hpos hblock,BitVec.sub_self] at horiginal
    exact horiginal

/-- What a history leaves, and what its calls reported. -/
structure History (events : List Event) (s : State κ) : Prop where
  sound : Sound s.memory.map
  backed : ∀surface width height bpp block,.createSurface surface width height bpp block∈events→
    Backed s surface width height bpp block
  described : ∀surface desc,s.ddraw.surfaces surface=some desc→
    ∃width height bpp block,.createSurface surface width height bpp block∈events
  unique : ∀surface width height bpp block width' height' bpp' block',
    .createSurface surface width height bpp block∈events→ .createSurface surface width' height' bpp'
      block'∈events→
    width=width' ∧ height=height' ∧ bpp=bpp' ∧ block=block'
  locked : ∀surface reported,.lock surface reported∈events→
    ∃width height bpp block,.createSurface surface width height bpp block∈events ∧
      reported=pitch width bpp
  sent : ∀surface original length,.blt surface original length∈events→
    ∃width height bpp block,.createSurface surface width height bpp block∈events ∧
      Sent width height block original length

namespace History
variable {events : List Event} {s t : State κ}

theorem start (h : Start s) : History [] s where
  sound := h.1
  backed := by simp
  described := by simp [h.2]
  unique := by simp
  locked := by simp
  sent := by simp

/-- The mode of a described surface and what the description says. -/
theorem created (h : History events s) {surface : U32} {desc : DDSURFACEDESC}
    (hdesc : s.ddraw.surfaces surface=some desc) :
    ∃width height bpp block,.createSurface surface width height bpp block∈events ∧
      Backed s surface width height bpp block ∧
      Describes desc width height bpp block.virtualAddress := by
  obtain ⟨width,height,bpp,block,hmem⟩ := h.described surface desc hdesc
  have hbacked := h.backed _ _ _ _ _ hmem
  obtain ⟨desc',hdesc',hdescribes⟩ := hbacked.described
  cases hdesc.symm.trans hdesc'
  exact ⟨width,height,bpp,block,hmem,hbacked,hdescribes⟩

/-- An event that creates no surface keeps the blocks and the descriptions. -/
theorem append (h : History events s) {event : Event} (hsound : Sound t.memory.map)
    (hext : Extends s.memory.map t.memory.map) (hkept : t.ddraw.surfaces=s.ddraw.surfaces)
    (hevent : ∀surface width height bpp block,event≠.createSurface surface width height bpp block)
    (hlocked : ∀surface reported,event=.lock surface reported→
      ∃width height bpp block,.createSurface surface width height bpp block∈events ∧
      reported=pitch width bpp)
    (hsent : ∀surface original length,event=.blt surface original length→
      ∃width height bpp block,.createSurface surface width height bpp block∈events ∧
        Sent width height block original length) : History (events++[event]) t := by
  have hold : ∀{surface width height bpp block},.createSurface surface width height bpp
    block∈events++[event]→
      .createSurface surface width height bpp block∈events := by
    intro surface width height bpp block hmem
    rcases List.mem_append.mp hmem with hmem|hmem
    · exact hmem
    · exact absurd (List.mem_singleton.mp hmem).symm (hevent _ _ _ _ _)
  constructor
  case sound => exact hsound
  case backed =>
    intro surface width height bpp block hmem
    exact (h.backed _ _ _ _ _ (hold hmem)).of_extends hext (congrFun hkept surface)
  case described =>
    intro surface desc hdesc
    rw [hkept] at hdesc
    obtain ⟨width,height,bpp,block,hmem⟩ := h.described surface desc hdesc
    exact ⟨width,height,bpp,block,List.mem_append_left _ hmem⟩
  case unique =>
    intro surface width height bpp block width' height' bpp' block' hmem hmem'
    exact h.unique _ _ _ _ _ _ _ _ _ (hold hmem) (hold hmem')
  case locked =>
    intro surface reported hmem
    obtain ⟨width,height,bpp,block,hmem,hpitch⟩ := (List.mem_append.mp hmem).elim
      (h.locked surface reported) fun hlast =>
      hlocked surface reported (List.mem_singleton.mp hlast).symm
    exact ⟨width,height,bpp,block,List.mem_append_left _ hmem,hpitch⟩
  case sent =>
    intro surface original length hmem
    obtain ⟨width,height,bpp,block,hmem,hdata⟩ := (List.mem_append.mp hmem).elim
      (h.sent surface original length) fun hlast =>
      hsent surface original length (List.mem_singleton.mp hlast).symm
    exact ⟨width,height,bpp,block,List.mem_append_left _ hmem,hdata⟩

theorem create (h : History events s) {surface width height bpp : U32} {block : FEMemoryMapBlock}
    (hsound : Sound t.memory.map) (hext : Extends s.memory.map t.memory.map)
    (hkept : ∀other,other≠surface→t.ddraw.surfaces other=s.ddraw.surfaces other)
    (hnew : ∀holder∈s.memory.map.memoryMapBlocks.elements,0<holder.size.toNat→
      holder.virtualAddress≠surface)
    (hbacked : Backed t surface width height bpp block) :
    History (events++[.createSurface surface width height bpp block]) t := by
  -- an older surface with the same key would hold a block at the new one
  have hfresh : ∀{width' height' bpp' block'},.createSurface surface width' height' bpp'
    block'∉events := by
    intro width' height' bpp' block' hmem
    obtain ⟨holder,hholder,haddress,hpos⟩ := (h.backed _ _ _ _ _ hmem).key
    exact hnew holder hholder hpos haddress
  have hmem : ∀{surface' width' height' bpp' block'},
      .createSurface surface' width' height' bpp' block'∈events++[.createSurface surface width
        height bpp block]→
      .createSurface surface' width' height' bpp' block'∈events ∧ surface'≠surface ∨
        surface'=surface ∧ width'=width ∧ height'=height ∧ bpp'=bpp ∧ block'=block := by
    intro surface' width' height' bpp' block' hmem
    rcases List.mem_append.mp hmem with hold|hlast
    · refine .inl ⟨hold,?_⟩
      rintro rfl
      exact hfresh hold
    · cases List.mem_singleton.mp hlast
      exact .inr ⟨rfl,rfl,rfl,rfl,rfl⟩
  constructor
  case sound => exact hsound
  case backed =>
    intro surface' width' height' bpp' block' hcreated
    rcases hmem hcreated with ⟨hold,hne⟩|⟨rfl,rfl,rfl,rfl,rfl⟩
    · exact (h.backed _ _ _ _ _ hold).of_extends hext (hkept surface' hne)
    · exact hbacked
  case described =>
    intro surface' desc hdesc
    by_cases hsame : surface'=surface
    · subst hsame
      exact ⟨width,height,bpp,block,List.mem_append_right _ (List.mem_singleton_self _)⟩
    · rw [hkept surface' hsame] at hdesc
      obtain ⟨width',height',bpp',block',hold⟩ := h.described surface' desc hdesc
      exact ⟨width',height',bpp',block',List.mem_append_left _ hold⟩
  case unique =>
    intro surface' width₁ height₁ bpp₁ block₁ width₂ height₂ bpp₂ block₂ hfirst hsecond
    rcases hmem hfirst with ⟨hold,hne⟩|⟨rfl,rfl,rfl,rfl,rfl⟩
    · rcases hmem hsecond with ⟨hold',-⟩|⟨hsame,-⟩
      · exact h.unique _ _ _ _ _ _ _ _ _ hold hold'
      · exact absurd hsame hne
    · rcases hmem hsecond with ⟨-,hne⟩|⟨-,rfl,rfl,rfl,rfl⟩
      · exact absurd rfl hne
      · exact ⟨rfl,rfl,rfl,rfl⟩
  case locked =>
    intro surface' reported hlocked
    obtain ⟨width',height',bpp',block',hold,hpitch⟩ :=
      h.locked surface' reported (by simpa using hlocked)
    exact ⟨width',height',bpp',block',List.mem_append_left _ hold,hpitch⟩
  case sent =>
    intro surface' original length hsent
    obtain ⟨width',height',bpp',block',hold,hdata⟩ := h.sent surface' original length
      (by simpa using hsent)
    exact ⟨width',height',bpp',block',List.mem_append_left _ hold,hdata⟩

theorem step (events : List Event) (s : State κ) (event : Event) (t : State κ)
    (h : History events s) (hstep : Step s event t) : History (events++[event]) t := by
  cases event with
  | setDisplayMode width height bpp =>
    obtain ⟨hwidth,hheight,hbpp,hset⟩ := hstep
    obtain rfl := setDisplayMode_spec hwidth hheight hbpp hset
    exact h.append h.sound (fun _ hb => hb) rfl (by simp) (by simp) (by simp)
  | createSurface surface width height bpp block =>
    obtain ⟨rfl,rfl,rfl,surfaceObj,host,realAddress,newBlock,desc,-,hnew,hhost,hdesc,rfl⟩ := hstep
    obtain ⟨hsound,hext,hkept,hkey,desc',realAddress',newBlock',hdesc',hhost',hbacked⟩ :=
      newSurface_spec h.sound hnew
    cases hdesc.symm.trans hdesc'
    cases hhost.symm.trans hhost'
    exact h.create hsound hext hkept hkey hbacked
  | lock surface reported =>
    obtain ⟨a,hsurface,ha,hbuffer,hlock,hreported⟩ := hstep
    obtain ⟨hmap,hddraw,desc,hdesc,rfl⟩ := lock_spec hsurface ha hbuffer hlock hreported
    obtain ⟨width,height,bpp,block,hmem,-,hdescribes⟩ := h.created hdesc
    refine h.append (h.sound.sameMap hmap) (by rw [hmap]; exact fun _ hb => hb) (by rw [hddraw])
      (by simp) ?_ (by simp)
    intro surface' reported' heq
    cases heq
    exact ⟨width,height,bpp,block,hmem,hdescribes.lPitch⟩
  | blt surface original length =>
    obtain ⟨hsurface,hblt,hdata⟩ := hstep
    obtain ⟨hmemory,hddraw,desc,mBlock,hdesc,hblock,horiginal,hlength⟩ :=
      blt_spec hsurface hblt hdata
    obtain ⟨width,height,bpp,block,hmem,hbacked,hdescribes⟩ := h.created hdesc
    refine h.append (h.sound.sameMap (by rw [hmemory])) (by rw [hmemory]; exact fun _ hb => hb)
      (by rw [hddraw])
      (by simp) (by simp) ?_
    intro surface' original' length' heq
    cases heq
    exact ⟨width,height,bpp,block,hmem,sent_of_block h.sound.wellFormed hbacked hdescribes hblock
      horiginal hlength⟩
  | other =>
    obtain ⟨hsound,hext,hddraw⟩ := hstep
    exact h.append hsound hext (by rw [hddraw]) (by simp) (by simp) (by simp)

end History

/-- A call of `Blt` on a surface of a run is consistent with the calls before it if the sizes fit
and its memory has a block. -/
theorem History.consistent_iff {events : List Event} {s : State κ} (h : History events s)
    {surface width height bpp : U32} {block : FEMemoryMapBlock}
    (hcreated : .createSurface surface width height bpp block∈events) (hcall : BltCall s surface) :
    Consistent events s surface width height bpp (pitch width bpp) block ↔
      Fitting width height bpp ∧
        ∃mBlock,s.memory.map.blockFromVirtualAddress block.virtualAddress=.ok (some mBlock) := by
  have hbacked := h.backed _ _ _ _ _ hcreated
  obtain ⟨desc,hdesc,hdescribes⟩ := hbacked.described
  have hsize := hbacked.size
  constructor
  · intro hconsistent
    obtain ⟨t,original,length,hblt,hdata,hinside⟩ := hconsistent.shown
    obtain ⟨-,-,desc',mBlock,hdesc',hblock,horiginal,hlength⟩ := blt_spec hcall.surface hblt hdata
    cases hdesc.symm.trans hdesc'
    have hsent := sent_of_block h.sound.wellFormed hbacked hdescribes hblock horiginal hlength
    have hfits := hsent.inside_iff.mp hinside
    rw [hdescribes.lpSurface] at hblock
    exact ⟨⟨hconsistent.row,hsize ▸ hconsistent.rows,hsize ▸ hfits⟩,mBlock,hblock⟩
  · rintro ⟨hfitting,mBlock,hblock⟩
    have hinside : ∀{original length},Sent width height block original length→
      Inside block original length :=
      fun hsent => hsent.inside_iff.mpr (hsize ▸ hfitting.data)
    refine ⟨hfitting.row,hsize ▸ hfitting.rows,?_,?_⟩
    · intro original length hblt
      obtain ⟨width',height',bpp',block',hcreated',hsent⟩ := h.sent _ _ _ hblt
      obtain ⟨rfl,rfl,rfl,rfl⟩ := h.unique _ _ _ _ _ _ _ _ _ hcreated hcreated'
      exact hinside hsent
    · rw [←hdescribes.lpSurface] at hblock
      obtain ⟨t,hblt,hdata⟩ := blt_returns hcall hdesc hblock
      exact ⟨t,_,_,hblt,hdata,hinside (sent_of_block h.sound.wellFormed hbacked hdescribes
        hblock rfl rfl)⟩

/-- In every run, the calls on a surface are consistent exactly for the modes that are exact. A
surface without an image has no block of its own, and `Blt` returns only if another block has been
put where it starts. -/
theorem surface_consistent_iff {s₀ s : State κ} {events : List Event} (hstart : Start s₀)
    (hrun : Runs Step s₀ events s) {surface width height bpp pitch : U32} {block : FEMemoryMapBlock}
    (hcreated : .createSurface surface width height bpp block∈events)
    (hlocked : .lock surface pitch∈events) (hcall : BltCall s surface) :
    Consistent events s surface width height bpp pitch block ↔
      Exact width height bpp ∨ Hollow width height bpp ∧
        ∃other,s.memory.map.blockFromVirtualAddress block.virtualAddress=.ok (some other) := by
  have h := hrun.history (History.start hstart) History.step
  obtain ⟨width₁,height₁,bpp₁,block₁,hcreated₁,rfl⟩ := h.locked _ _ hlocked
  obtain ⟨rfl,rfl,rfl,rfl⟩ := h.unique _ _ _ _ _ _ _ _ _ hcreated hcreated₁
  have hbacked := h.backed _ _ _ _ _ hcreated
  rw [h.consistent_iff hcreated hcall,exact_iff,hollow_iff]
  constructor
  · rintro ⟨hfitting,hother⟩
    rcases Nat.eq_zero_or_pos (backingSize width height bpp).toNat with hzero|hpos
    · exact .inr ⟨⟨hfitting,hzero⟩,hother⟩
    · exact .inl ⟨hfitting,hpos⟩
  · rintro (⟨hfitting,hpos⟩|⟨⟨hfitting,-⟩,hother⟩)
    · rw [←hbacked.size] at hpos
      exact ⟨hfitting,block,blockFromVirtualAddress_start h.sound.wellFormed hbacked.mapped hpos⟩
    · exact ⟨hfitting,hother⟩

section Session

def frames (width height bpp : U32) : List U32 :=
  [0,0,width,height,bpp,0,0,0,
    0,0,0x400100,0x4000fc,0,0,0,0,
    0,0x2000,0,0x400100,0,0,0,0,
    0,0,0,0x2000,0,0,0,0]

def session (width height bpp : U32) : State Unit where
  memory := ⟨callMap,fun i => ((frames width height bpp).flatMap fun v => littleEndian 4
    v.toNat).getD (i-0x10000) 0⟩
  esp := 0x400000
  eax := 0
  ddraw := ⟨0,0,0,fun _ => none⟩
  newData := []

def State.withEsp (s : State κ) (esp : U32) : State κ := { s with esp := esp }

def sessionHost : SurfaceHost :=
  ⟨⟨some 0x100000,some 2⟩,⟨some 0x200000,some 3⟩,⟨some 0x300000,some 4⟩⟩

def surfaceMethods : List U8 := (List.range 49).flatMap fun i => littleEndian 4 (0x10000000+i)

/-- What the calls of a script returned, their arguments, the pitch that the guest finds and the
data before and after `Blt`. -/
structure Outcome where
  codes : List U8
  arguments : List U32
  reported : U32
  before : List (ℕ×ℕ)
  after : List (ℕ×ℕ)
  deriving DecidableEq

def script (width height bpp : U32) : Except Stop Outcome := do
  let s := session width height bpp
  let arg_width ← s.argument 1
  let arg_height ← s.argument 2
  let arg_bpp ← s.argument 3
  let (n₁,s) ← setDisplayMode s
  let (surface,s) ← newSurface .debug (s.withEsp 0x400020) surfaceMethods sessionHost
  let s := s.withEsp 0x400040
  let locked ← s.argument 0
  let desc ← s.argument 2
  let (n₂,s) ← lock .debug s
  let reported ← s.memory.value32AtAddress 0x400110
  let s := s.withEsp 0x400060
  let this ← s.argument 0
  let destRect ← s.argument 1
  let shown ← s.argument 2
  let srcRect ← s.argument 3
  let flags ← s.argument 4
  let fx ← s.argument 5
  let (n₃,t) ← blt s
  .ok ⟨[n₁,n₂,n₃],[arg_width,arg_height,arg_bpp,surface,locked,desc,this,destRect,shown,srcRect,
    flags,fx],reported,s.newData,t.newData⟩

def expected (width height bpp reported : U32) (data : ℕ×ℕ) : Outcome :=
  ⟨[16,20,24],[width,height,bpp,0x2000,0x2000,0x400100,0,0,0x2000,0,0,0],reported,[],[data]⟩

theorem session_start (width height bpp : U32) : Start (session width height bpp) := by
  have hsize : callMap.size=0x40000000 := by decide +kernel
  have hinside : (callMap.memoryMapBlocks.elements.all fun b =>
    b.virtualAddress.toNat+b.size.toNat≤0x40000000)=true := by
    decide +kernel
  exact ⟨⟨hsize,(callMap_holds fun _ => 0).1.wellFormed,fun b hb => of_decide_eq_true
    (List.all_eq_true.mp hinside b hb)⟩,rfl⟩

/-- A script that returns is a run to the call of `Blt`, which returns. -/
theorem script_runs {width height bpp reported : U32} {original length : ℕ}
    (h : script width height bpp=.ok (expected width height bpp reported (original,length))) :
    ∃s t events block,Runs Step (session width height bpp) events s ∧
      .createSurface 0x2000 width height bpp block∈events ∧ .lock 0x2000 reported∈events ∧
      block.size=backingSize width height bpp ∧ BltCall s 0x2000 ∧
      blt s=.ok (24,t) ∧ t.newData=s.newData++[(original,length)] := by
  obtain ⟨width',hwidth,h⟩ := bind_eq_ok.mp h
  obtain ⟨height',hheight,h⟩ := bind_eq_ok.mp h
  obtain ⟨bpp',hbpp,h⟩ := bind_eq_ok.mp h
  obtain ⟨⟨n₁,s₁⟩,hset,h⟩ := bind_eq_ok.mp h
  obtain ⟨⟨surface,s₂⟩,hnew,h⟩ := bind_eq_ok.mp h
  obtain ⟨locked,hlocked,h⟩ := bind_eq_ok.mp h
  obtain ⟨a,ha,h⟩ := bind_eq_ok.mp h
  obtain ⟨⟨n₂,s₃⟩,hlock,h⟩ := bind_eq_ok.mp h
  obtain ⟨reported',hreported,h⟩ := bind_eq_ok.mp h
  obtain ⟨this,hthis,h⟩ := bind_eq_ok.mp h
  obtain ⟨destRect,hdest,h⟩ := bind_eq_ok.mp h
  obtain ⟨shown,hshown,h⟩ := bind_eq_ok.mp h
  obtain ⟨srcRect,hsrc,h⟩ := bind_eq_ok.mp h
  obtain ⟨flags,hflags,h⟩ := bind_eq_ok.mp h
  obtain ⟨fx,hfx,h⟩ := bind_eq_ok.mp h
  obtain ⟨⟨n₃,s₄⟩,hblt,h⟩ := bind_eq_ok.mp h
  simp only [expected,Except.ok.injEq,Outcome.mk.injEq,List.cons.injEq,and_true] at h
  obtain ⟨⟨rfl,rfl,rfl⟩,⟨rfl,rfl,rfl,rfl,rfl,rfl,rfl,rfl,rfl,rfl,rfl,rfl⟩,rfl,hbefore,hafter⟩ := h
  have hs₁ := setDisplayMode_spec hwidth hheight hbpp hset
  have hsound₁ : Sound s₁.memory.map := hs₁ ▸ (session_start width' height' bpp').1
  have hmode : Step (session width' height' bpp') (.setDisplayMode width' height' bpp') s₁ :=
    ⟨hwidth,hheight,hbpp,hset⟩
  have hother₁ : Step s₁ .other (s₁.withEsp 0x400020) := ⟨hsound₁,fun _ hb => hb,rfl⟩
  obtain ⟨hsound₂,hext,-,-,desc',realAddress,newBlock,hdesc,hhost,-⟩ :=
    newSurface_spec (s:=s₁.withEsp 0x400020) hsound₁ hnew
  obtain ⟨block,hblock⟩ : ∃block,block=mallocBlock (backingSize width' height' bpp')
    "Surface backing memory".toList
    realAddress newBlock desc'.lpSurface := ⟨_,rfl⟩
  have hcreate : Step (s₁.withEsp 0x400020)
    (.createSurface 0x2000 width' height' bpp' block) s₂ := by
    rw [hs₁] at hnew ⊢
    exact ⟨rfl,rfl,rfl,surfaceMethods,sessionHost,realAddress,newBlock,desc',
      by decide +kernel,hnew,hhost,hdesc,hblock⟩
  have hother₂ : Step s₂ .other (s₂.withEsp 0x400040) := ⟨hsound₂,fun _ hb => hb,rfl⟩
  have hbuffer : IsBuffer s₂.memory.map 0x400100 DDSURFACEDESC.size := by
    have hin : InBlock s₁.memory.map 0x400100 DDSURFACEDESC.size := by
      rw [hs₁]
      exact callMap_inBlock (by decide) (by decide)
    obtain ⟨hmapped,hcontiguous⟩ := contiguous_of_inBlock (a:=0x400100) hsound₂.wellFormed
      (hext.inBlock hin)
    exact ⟨by decide,hmapped,hcontiguous⟩
  have hlockStep : Step (s₂.withEsp 0x400040) (.lock 0x2000 reported') s₃ :=
    ⟨0x400100,hlocked,ha,hbuffer,hlock,hreported⟩
  have hrun₁ := Runs.start.next hmode
  have hrun₃ := (((hrun₁.next hother₁).next hcreate).next hother₂).next hlockStep
  have hsound₃ := (hrun₃.history (History.start (session_start _ _ _)) History.step).sound
  have hother₃ : Step s₃ .other (s₃.withEsp 0x400060) := ⟨hsound₃,fun _ hb => hb,rfl⟩
  have hrect : ∀a,(.ok 0 : Except Stop U32)=.ok a→∃rect,readRect (s₃.withEsp 0x400060).memory a=
    .ok rect := by
    rintro a ⟨⟩
    exact ⟨[],rfl⟩
  have hcall : BltCall (s₃.withEsp 0x400060) 0x2000 := by
    refine ⟨?_,hshown,?_⟩
    · intro i hi
      obtain rfl|rfl|rfl|rfl|rfl|rfl : i=0 ∨ i=1 ∨ i=2 ∨ i=3 ∨ i=4 ∨ i=5 := by omega
      exacts [⟨_,hthis⟩,⟨_,hdest⟩,⟨_,hshown⟩,⟨_,hsrc⟩,⟨_,hflags⟩,⟨_,hfx⟩]
    · rintro i (rfl|rfl)
      · exact hdest ▸ hrect
      · exact hsrc ▸ hrect
  exact ⟨_,s₄,_,block,hrun₃.next hother₃,
    by simp,by simp,by rw [hblock]; rfl,hcall,hblt,by rw [hafter,hbefore]; rfl⟩

/-- A surface without an image has no block to show. -/
example : script 0 480 8=.error .nullBlock := by decide +kernel

end Session

/-- 640 by 480 pixels of eight bits. -/
theorem surface_consistent_vga :
    ∃s events block,Runs Step (session 640 480 8) events s ∧
    Consistent events s 0x2000 640 480 8 640 block := by
  have hscript : script 640 480 8=.ok (expected 640 480 8 640 (0x300000,307200)) := by
    decide +kernel
  obtain ⟨s,t,events,block,hrun,hcreated,hlocked,-,hcall,-⟩ := script_runs hscript
  have hexact : Exact 640 480 8 := ⟨by decide,by decide,by decide,by decide,by decide⟩
  exact ⟨s,events,block,hrun,
    (surface_consistent_iff (session_start 640 480 8) hrun hcreated hlocked hcall).mpr
      (.inl hexact)⟩

/-- With four bits for a pixel, the delegates are sent twice the block. -/
theorem surface_overrun : ¬∀(s₀ s : State Unit) (events : List Event),Start s₀→
    Runs Step s₀ events s→
    ∀surface width height bpp pitch block,.createSurface surface width height bpp block∈events→
      .lock surface pitch∈events→BltCall s surface→
      Consistent events s surface width height bpp pitch block := by
  intro h
  have hscript : script 640 480 4=.ok (expected 640 480 4 320 (0x300000,307200)) := by
    decide +kernel
  obtain ⟨s,t,events,block,hrun,hcreated,hlocked,hsize,hcall,hblt,hdata⟩ := script_runs hscript
  obtain ⟨t',original,length,hblt',hdata',hinside⟩ :=
    (h _ _ _ (session_start 640 480 4) hrun _ _ _ _ _ _ hcreated hlocked hcall).shown
  cases hblt.symm.trans hblt'
  obtain ⟨rfl,rfl⟩ := Prod.mk.inj
    (List.singleton_injective (List.append_cancel_left (hdata.symm.trans hdata')))
  have hbytes : block.size.toNat=153600 := by
    rw [hsize]
    decide
  have hfirst := hinside 0x300000 (by decide) (by decide)
  have hlast := hinside (0x300000+307199) (by decide) (by decide)
  omega

end FalloutEmu.Surfaces
