import FalloutEmu.DecodeCache
import FalloutEmu.Runs
import FalloutEmu.FlatMemory

/-! # The decode cache delivers the decode of the bytes in memory -/
namespace FalloutEmu.CacheTransparency
open ByteStore
open FEMemoryMap (CachesHold)
open FlatMemory (Apart)

section Decoding

/-- `Disasm` as a function of the address and of the bytes from it on. -/
abbrev Decoder := U32→(ℕ→U8)→DISASM×ℤ

variable (D : Decoder)

/-- The decode of the host bytes from `reip` on, with the host address that it was handed. -/
def decoded (bytes : ℕ→U8) (reip : ℕ) (eip : U32) : DISASM×ℤ :=
  ({ (D eip bytes).1 with EIP := reip },(D eip bytes).2)

def disassembler : Disassembler := fun record host =>
  decoded D (fun i => host (record.EIP+i)) record.EIP (record.VirtualAddr.setWidth 32)

/-- The decode looks at no more than `n` of the bytes. -/
def Determines (eip : U32) (bytes : ℕ→U8) (n : ℕ) : Prop :=
  ∀bytes',(∀i<n,bytes' i=bytes i)→D eip bytes'=D eip bytes

variable {D}

theorem disassembler_handed (stale : DISASM) (reip : ℕ) (eip : U32) (host : ℕ→U8) :
    disassembler D (stale.handed reip eip) host=decoded D (fun i => host (reip+i)) reip eip := by
  simp [disassembler,DISASM.handed]

theorem Determines.congr {eip : U32} {bytes bytes' : ℕ→U8} {n : ℕ} (h : Determines D eip bytes n)
    (hbytes : ∀i<n,bytes' i=bytes i) : Determines D eip bytes' n := by
  intro bytes'' h''
  have hsame : ∀i<n,bytes'' i=bytes i := fun i hi => (h'' i hi).trans (hbytes i hi)
  rw [h bytes'' hsame,h bytes' hbytes]

theorem Determines.decoded_congr {eip : U32} {bytes bytes' : ℕ→U8} {n : ℕ}
    (h : Determines D eip bytes n) (hbytes : ∀i<n,bytes' i=bytes i) (reip : ℕ) :
    decoded D bytes' reip eip=decoded D bytes reip eip := by
  simp only [decoded,h bytes' hbytes]

end Decoding

section Guest

def guestByte (memory : Memory DisasmContext) (address : U32) : U8 :=
  match memory.map.memoryMapBlocksShadow.slot (shadowIndex address) with
  | some block => memory.host (block.localAddress+(address-block.virtualAddress).toNat)
  | none => 0

def guestBytes (memory : Memory DisasmContext) (eip : U32) : ℕ→U8 :=
  fun i => guestByte memory (eip+BitVec.ofNat 32 i)

def addressIn (block : FEMemoryMapBlock) (offset : ℕ) : U32 :=
  block.virtualAddress+BitVec.ofNat 32 offset

/-- The block owns the byte at an offset, inside its buffer. -/
structure Owns (m : FEMemoryMap DisasmContext) (block : FEMemoryMapBlock) (offset : ℕ) : Prop where
  lt : offset<block.size.toNat
  owner : m.memoryMapBlocksShadow.slot (shadowIndex (addressIn block offset))=some block

/-- The rights of the page of an address contain `Write`. -/
def Writable (m : FEMemoryMap DisasmContext) (address : U32) : Prop :=
  (m.memoryMapRightsShadow.slot (shadowIndex address)).write=true

instance (m : FEMemoryMap DisasmContext) (address : U32) : Decidable (Writable m address) :=
  inferInstanceAs (Decidable (_=true))

/-- The block owns the byte at an offset, on a page without `Write`. -/
structure Fixed (m : FEMemoryMap DisasmContext) (block : FEMemoryMapBlock) (offset : ℕ) : Prop
    extends Owns m block offset where
  readOnly : ¬Writable m (addressIn block offset)

theorem addressIn_sub (block : FEMemoryMapBlock) (eip : U32) :
    addressIn block (eip-block.virtualAddress).toNat=eip := by
  unfold addressIn
  bv_omega

theorem addressIn_add (block : FEMemoryMapBlock) (eip : U32) (i : ℕ) :
    addressIn block ((eip-block.virtualAddress).toNat+i)=eip+BitVec.ofNat 32 i := by
  have hsplit : BitVec.ofNat 32 ((eip-block.virtualAddress).toNat+i)=
      BitVec.ofNat 32 (eip-block.virtualAddress).toNat+BitVec.ofNat 32 i := BitVec.ofNat_add _ _
  have hbase := addressIn_sub block eip
  unfold addressIn at hbase ⊢
  rw [hsplit,←BitVec.add_assoc,hbase]

/-- Behind an owned offset the guest reads the host byte of the buffer. -/
theorem Owns.guestByte {memory : Memory DisasmContext} {block : FEMemoryMapBlock} {offset : ℕ}
    (h : Owns memory.map block offset) :
    guestByte memory (addressIn block offset)=memory.host (block.localAddress+offset) := by
  have hoffset : (addressIn block offset-block.virtualAddress).toNat=offset := by
    have hlt := h.lt
    unfold addressIn
    bv_omega
  simp only [CacheTransparency.guestByte,h.owner,hoffset]

end Guest

section Entries
variable {D : Decoder}

/-- The cache entry of a block at an offset is the decode of the bytes now, and these stay as long
as no page of them becomes writable. -/
def Entry (D : Decoder) (memory : Memory DisasmContext) (block : FEMemoryMapBlock) (offset : ℕ)
    (record : DISASM) (len : ℤ) : Prop :=
  let bytes := fun i => memory.host (block.localAddress+offset+i)
  (record,len)=decoded D bytes (block.localAddress+offset) (addressIn block offset) ∧
    ∃n,Determines D (addressIn block offset) bytes n ∧ ∀i<n,Fixed memory.map block (offset+i)

/-- Entries survive what leaves their bytes on pages without `Write`, unchanged. -/
theorem Entry.keep {memory t : Memory DisasmContext} {block : FEMemoryMapBlock} {offset : ℕ}
    {record : DISASM} {len : ℤ} (h : Entry D memory block offset record len)
    (hkeep : ∀k,Fixed memory.map block k→
      Fixed t.map block k ∧ t.host (block.localAddress+k)=memory.host (block.localAddress+k)) :
    Entry D t block offset record len := by
  obtain ⟨hdecoded,n,hdetermines,hfixed⟩ := h
  have hbytes : ∀i<n,t.host (block.localAddress+offset+i)=
    memory.host (block.localAddress+offset+i) := by
    intro i hi
    rw [Nat.add_assoc]
    exact (hkeep _ (hfixed i hi)).2
  exact ⟨hdecoded.trans (hdetermines.decoded_congr hbytes _).symm,n,hdetermines.congr hbytes,
    fun i hi => (hkeep _ (hfixed i hi)).1⟩

/-- The caches hold decodes of the bytes in memory, and the buffers of two blocks do not meet. -/
structure Invariant (D : Decoder) (memory : Memory DisasmContext) : Prop where
  caches : memory.map.CachesHold (Entry D memory)
  apart : ∀p q b c,memory.map.memoryMapBlocksShadow.slot p=some b→
    memory.map.memoryMapBlocksShadow.slot q=some c→b≠c→Apart b c
  callback : memory.map.memoryMapAccessModeChangeCallback=true

end Entries

section Operations
variable {D : Decoder} {m m' : FEMemoryMap DisasmContext} {mode : FEMemoryAccessMode}
  {address size : U32}

/-- With the callback installed the block of the start address has no cache afterwards. -/
theorem setAccessMode_drops (hcallback : m.memoryMapAccessModeChangeCallback=true)
    (h : m.setAccessModeAtAddress mode address size=.ok m') {block : FEMemoryMapBlock}
    (hblock : m.memoryMapBlocksShadow.slot (shadowIndex address)=some block) :
    m'.context block.pointer=none := by
  obtain ⟨rights,hrights,h⟩ := bind_eq_ok.mp h
  simp only [hcallback,↓reduceIte] at h
  obtain ⟨block?,hblock?,h⟩ := bind_eq_ok.mp h
  obtain ⟨_,hslot⟩ := Shadow.get_eq_ok.mp hblock?
  cases hslot.symm.trans hblock
  cases h
  simp

/-- A block that is appended takes pages that had no owner, and no other rights change. -/
theorem append_owned {block : FEMemoryMapBlock} (h : m.appendMemoryBlock .debug block mode=.ok m')
    {p : ℕ} {b : FEMemoryMapBlock} (hb : m.memoryMapBlocksShadow.slot p=some b) :
    m'.memoryMapBlocksShadow.slot p=some b ∧ m'.memoryMapRightsShadow.slot p=
      m.memoryMapRightsShadow.slot p := by
  obtain ⟨shadow,hshadow,h⟩ := bind_eq_ok.mp h
  obtain ⟨_,_,h⟩ := bind_eq_ok.mp h
  obtain ⟨_,hfree,rfl⟩ := FEMemoryMap.claimPages_debug.mp hshadow
  have hsame := FEMemoryMap.setAccessMode_sameBlocks h
  have hrights := FEMemoryMap.setAccessMode_rights h
  have hlast : block.virtualAddress+block.size-1=block.size+block.virtualAddress-1 := by
    rw [BitVec.add_comm]
  rw [hlast] at hrights
  have houtside : p<shadowIndex block.virtualAddress ∨
      shadowIndex block.virtualAddress+
        (shadowIndex (block.size+block.virtualAddress-1)+1-shadowIndex
          block.virtualAddress) ≤ p := by
    by_contra hin
    have hnone := hfree p (by omega) (by omega)
    cases hb.symm.trans hnone
  rw [hsame.shadow,hrights]
  exact ⟨by rw [Shadow.filled_slot_of_outside
    houtside]; exact hb,Shadow.filled_slot_of_outside (by omega)⟩

/-- The pages of the new block are the only ones that get an owner. -/
theorem append_owner {block : FEMemoryMapBlock} (h : m.appendMemoryBlock .debug block mode=.ok m')
    {p : ℕ} {b : FEMemoryMapBlock} (hb : m'.memoryMapBlocksShadow.slot p=some b) :
    b=block ∨ m.memoryMapBlocksShadow.slot p=some b := by
  obtain ⟨shadow,hshadow,h⟩ := bind_eq_ok.mp h
  obtain ⟨_,_,h⟩ := bind_eq_ok.mp h
  rw [(FEMemoryMap.setAccessMode_sameBlocks h).shadow] at hb
  rcases FEMemoryMap.claimPages_slot hshadow p with hnew | hold
  · exact .inl (Option.some.inj (hb.symm.trans hnew))
  · exact .inr (hold.symm.trans hb)

theorem append_callback {block : FEMemoryMapBlock}
    (h : m.appendMemoryBlock .debug block mode=.ok m') :
    m'.memoryMapAccessModeChangeCallback=m.memoryMapAccessModeChangeCallback := by
  obtain ⟨_,_,h⟩ := bind_eq_ok.mp h
  obtain ⟨_,_,h⟩ := bind_eq_ok.mp h
  exact (FEMemoryMap.setAccessMode_sameBlocks h).callback

/-- The descriptor and the buffer of a new block belong to no other owner of a page. -/
structure Fresh (m : FEMemoryMap DisasmContext) (block : FEMemoryMapBlock) : Prop where
  pointer : ∀p b,m.memoryMapBlocksShadow.slot p=some b→b.pointer≠block.pointer
  apart : ∀p b,m.memoryMapBlocksShadow.slot p=some b→Apart b block

/-- Appending a block, whose buffer may have been filled before. -/
theorem Invariant.append {memory : Memory DisasmContext} {host : ℕ→U8} {block : FEMemoryMapBlock}
    (h : Invariant D memory) (hfresh : Fresh memory.map block)
    (hhost : ∀a,a<block.localAddress ∨ block.localAddress+block.size.toNat ≤ a→host a=memory.host a)
    (happend : (memory.map.clearContext block.pointer).appendMemoryBlock .debug block mode=.ok m') :
    Invariant D ⟨m',host⟩ where
  caches := by
    refine CachesHold.append ⟨h.caches.pointers,?_⟩ hfresh.pointer happend
    intro p b c hb hc
    refine (h.caches.holds p b c hb hc).mono fun offset record len hentry => hentry.keep fun k hk =>
      ?_
    have hkept := append_owned happend hk.owner
    refine ⟨⟨⟨hk.lt,hkept.1⟩,?_⟩,hhost _ ?_⟩
    · have hrights : m'.memoryMapRightsShadow.slot (shadowIndex (addressIn b k))=
          memory.map.memoryMapRightsShadow.slot (shadowIndex (addressIn b k)) := hkept.2
      simpa only [Writable,hrights] using hk.readOnly
    · have hapart := hfresh.apart _ b hk.owner
      have hlt := hk.lt
      unfold Apart at hapart
      omega
  apart := by
    intro p q b c hb hc hne
    rcases append_owner happend hb with rfl | hb <;> rcases append_owner happend hc with rfl | hc
    · exact absurd rfl hne
    · exact (hfresh.apart q c hc).symm
    · exact hfresh.apart p b hb
    · exact h.apart p q b c hb hc hne
  callback := (append_callback happend).trans h.callback

/-- A store of bytes to writable addresses, inside the block of the first. -/
theorem Invariant.store {memory t : Memory DisasmContext} {bytes : List U8} (h : Invariant D memory)
    (hwritable : ∀i<bytes.length,Writable memory.map (address+BitVec.ofNat 32 i))
    (hinside : ∀block,memory.map.blockFromVirtualAddress address=.ok (some block)→
      (address-block.virtualAddress).toNat+bytes.length ≤ block.size.toNat)
    (hstore : memory.store address bytes=.ok t) : Invariant D t := by
  obtain ⟨ptr,hptr,ht⟩ := bind_eq_ok.mp hstore
  cases ht
  obtain ⟨block?,hblock,hptr⟩ := bind_eq_ok.mp hptr
  cases block? with
  | none => cases hptr
  | some block =>
    cases hptr
    have hslot := (Shadow.get_eq_ok.mp hblock).2
    have hfits := hinside block hblock
    refine ⟨h.caches.mono fun b offset record len hentry => hentry.keep fun k hk => ⟨hk,?_⟩,
      h.apart,h.callback⟩
    apply writeAt_apply_of_outside
    have hlt := hk.lt
    by_cases hb : b=block
    · -- the page of a byte in the store is writable, that of a byte under an entry is not
      subst hb
      by_contra hin
      refine hk.readOnly ?_
      have hwrite := hwritable (k-(address-b.virtualAddress).toNat) (by omega)
      rw [←addressIn_add] at hwrite
      rwa [Nat.add_sub_cancel' (by omega)] at hwrite
    · have hapart := h.apart _ _ b block hk.owner hslot hb
      unfold Apart at hapart
      omega

/-- A change of rights that starts in the block of every page that it makes writable under a
cache. -/
theorem Invariant.setAccessMode {memory : Memory DisasmContext} (h : Invariant D memory)
    (hstarts : mode.write=true→∀p,shadowIndex address ≤ p→p<shadowIndex (address+size-1)→
      ∀b,memory.map.memoryMapBlocksShadow.slot p=some b→
        (memory.map.memoryMapRightsShadow.slot p).write=false→memory.map.context b.pointer≠none→
        memory.map.memoryMapBlocksShadow.slot (shadowIndex address)=some b)
    (hset : memory.map.setAccessModeAtAddress mode address size=.ok m') :
    Invariant D ⟨m',memory.host⟩ := by
  have hsame := FEMemoryMap.setAccessMode_sameBlocks hset
  have hkeeps := FEMemoryMap.setAccessMode_keeps hset
  refine ⟨⟨?_,?_⟩,?_,hsame.callback.trans h.callback⟩
  · rw [hsame.shadow]
    exact h.caches.pointers
  · intro p b c hb hc
    rw [hsame.shadow] at hb
    have hc' := hkeeps.context _ c hc
    refine (h.caches.holds p b c hb hc').mono fun offset record len hentry => hentry.keep fun k
      hk => ⟨?_,rfl⟩
    refine ⟨⟨hk.lt,by rw [hsame.shadow]; exact hk.owner⟩,?_⟩
    have hreadOnly := hk.readOnly
    simp only [Writable,Bool.not_eq_true] at hreadOnly ⊢
    rw [FEMemoryMap.setAccessMode_rights hset]
    by_cases hin : shadowIndex address ≤ shadowIndex (addressIn b k) ∧
        shadowIndex (addressIn b k)<shadowIndex (address+size-1)
    · cases hmode : mode.write with
      | false => simp [Shadow.filled,hmode,hreadOnly,apply_ite FEMemoryAccessMode.write]
      | true =>
        have hstart := hstarts hmode _ hin.1 hin.2 b hk.owner hreadOnly (by rw [hc']; simp)
        rw [setAccessMode_drops h.callback hset hstart] at hc
        cases hc
    · rw [Shadow.filled_slot_of_outside (by omega)]
      exact hreadOnly
  · rw [hsame.shadow]
    exact h.apart

end Operations

section Fetches
variable {D : Decoder}

/-- The decode of the bytes at `eip` looks only at bytes of the block of `eip`, and from a page
without `Write` only at bytes of such pages. -/
def DecodesInside (D : Decoder) (memory : Memory DisasmContext) (eip : U32) : Prop :=
  ∃block n,memory.map.memoryMapBlocksShadow.slot (shadowIndex eip)=some block ∧
    Determines D eip (guestBytes memory eip) n ∧
    ∀i<n,Owns memory.map block ((eip-block.virtualAddress).toNat+i) ∧
      (Writable memory.map (eip+BitVec.ofNat 32 i)→Writable memory.map eip)

/-- The fetch delivers the decode of the guest's bytes at `eip`. -/
def Delivers (D : Decoder) (memory : Memory DisasmContext) (eip : U32) (fetched : Fetched) : Prop :=
  ∃record reip,memory.map.localAddressFromVirtualAddress eip=.ok reip ∧
    fetched.op.deref fetched.memory fetched.dummyOp=.ok record ∧
    (record,fetched.len)=decoded D (guestBytes memory eip) reip eip

theorem guestBytes_eq {memory : Memory DisasmContext} {block : FEMemoryMapBlock} {eip : U32} {n : ℕ}
    (h : ∀i<n,Owns memory.map block ((eip-block.virtualAddress).toNat+i)) (i : ℕ) (hi : i < n) :
    guestBytes memory eip i=memory.host
      (block.localAddress+(eip-block.virtualAddress).toNat+i) := by
  have hbyte := (h i hi).guestByte
  rw [addressIn_add,←Nat.add_assoc] at hbyte
  exact hbyte

/-- One fetch: it delivers the decode of the bytes in memory and keeps the invariant. -/
theorem Invariant.fetch {memory : Memory DisasmContext} {dummyOp : DISASM} {eip : U32}
    {fetched : Fetched} (h : Invariant D memory) (hinside : DecodesInside D memory eip)
    (hfetch : updateDisasmFromContext .debug (disassembler D) memory dummyOp eip=.ok fetched) :
    Invariant D fetched.memory ∧ Delivers D memory eip fetched := by
  obtain ⟨block,mode,hblock,hmode,hpaths⟩ := updateDisasmFromContext_ok hfetch
  have hslot := (Shadow.get_eq_ok.mp hblock).2
  have hmodeSlot := (Shadow.get_eq_ok.mp hmode).2
  obtain ⟨b,n,hb,hdetermines,howns⟩ := hinside
  cases hb.symm.trans hslot
  have hlocal : memory.map.localAddressFromVirtualAddress eip=
      .ok (block.localAddress+(eip-block.virtualAddress).toNat) := by
    have hget : memory.map.memoryMapBlocksShadow.get (shadowIndex eip)=.ok (some block) := hblock
    simp [FEMemoryMap.localAddressFromVirtualAddress,hget]
  have hhost : ∀i<n,memory.host (block.localAddress+(eip-block.virtualAddress).toNat+i)=
    guestBytes memory eip i :=
    fun i hi => (guestBytes_eq (fun i hi => (howns i hi).1) i hi).symm
  have hdecode : ∀stale : DISASM,
      disassembler D (stale.handed (block.localAddress+(eip-block.virtualAddress).toNat) eip)
        memory.host=
        decoded D (guestBytes memory eip)
          (block.localAddress+(eip-block.virtualAddress).toNat) eip := by
    intro stale
    rw [disassembler_handed]
    exact hdetermines.decoded_congr hhost _
  rcases hpaths with ⟨_,hresult,hmemory,hop⟩ | ⟨hreadOnly,context,i,hcached,hmemory,hop⟩
  · unfold Delivers
    rw [hmemory,hop]
    exact ⟨h,fetched.dummyOp,_,hlocal,rfl,hresult.symm.trans (hdecode default)⟩
  · have hnew : ∀stale record : DISASM,
        disassembler D (stale.handed (block.localAddress+(eip-block.virtualAddress).toNat) eip)
          memory.host=
          (record,fetched.len)→
        context.disasmed.elements[i]?=some record→
          Entry D memory block (eip-block.virtualAddress).toNat record fetched.len := by
      intro stale record hresult _
      refine ⟨?_,n,?_,fun i hi => ⟨(howns i hi).1,fun hwrite => ?_⟩⟩
      · rw [addressIn_sub,←hresult,disassembler_handed]
      · rw [addressIn_sub]
        exact hdetermines.congr hhost
      · rw [addressIn_add] at hwrite
        have heip := (howns i hi).2 hwrite
        simp only [Writable,hmodeSlot,hreadOnly] at heip
        cases heip
    obtain ⟨hcaches,record,hderef,_,hdecoded,k,hk,hfixed⟩ := fetchCached_delivers h.caches hblock
      hnew hcached
    rw [addressIn_sub] at hdecoded hk
    unfold Delivers
    rw [hmemory,hop]
    refine ⟨⟨hcaches.mono fun _ _ _ _ hentry => hentry.keep fun _ hk =>
      ⟨⟨⟨hk.lt,hk.owner⟩,hk.readOnly⟩,rfl⟩,h.apart,h.callback⟩,record,_,hlocal,hderef _ _,?_⟩
    have hguest : ∀i<k,guestBytes memory eip i=
        memory.host (block.localAddress+(eip-block.virtualAddress).toNat+i) :=
      guestBytes_eq fun i hi => (hfixed i hi).toOwns
    rw [hdecoded,hk.decoded_congr hguest]

end Fetches

section Runs
variable {D : Decoder}

structure State where
  memory : Memory DisasmContext
  dummyOp : DISASM

inductive Event where
  | store (address : U32) (bytes : List U8)
  | map (block : FEMemoryMapBlock) (mode : FEMemoryAccessMode)
  | malloc (size : U32) (mode : FEMemoryAccessMode) (tag : List Char) (realAddress newBlock : ℕ)
  | setAccessMode (mode : FEMemoryAccessMode) (address size : U32)
  | fetch (eip : U32)

/-- The operations, with the host's promises: a fresh descriptor and a fresh buffer for a new block,
which nothing but its own contents fills. -/
def Step (D : Decoder) (s : State) : Event→State→Prop
  | .store address bytes,t =>
    (∀i<bytes.length,Writable s.memory.map (address+BitVec.ofNat 32 i)) ∧
      s.memory.store address bytes=.ok t.memory ∧ t.dummyOp=s.dummyOp
  | .map block mode,t =>
    Fresh s.memory.map block ∧
      (∀a,a<block.localAddress ∨ block.localAddress+block.size.toNat ≤ a→t.memory.host a=
        s.memory.host a) ∧
      (s.memory.map.clearContext block.pointer).map .debug block mode=.ok t.memory.map ∧
        t.dummyOp=s.dummyOp
  | .malloc size mode tag realAddress newBlock,t =>
    (∀address,Fresh s.memory.map (FEMemoryMap.mallocBlock size tag realAddress newBlock address)) ∧
      (∀a,a< realAddress ∨ realAddress+size.toNat ≤ a→t.memory.host a=s.memory.host a) ∧
      (∃address released,s.memory.map.malloc .debug size mode tag ⟨some realAddress,some newBlock⟩=
        .ok ⟨address,t.memory.map,released⟩) ∧ t.dummyOp=s.dummyOp
  | .setAccessMode mode address size,t =>
    s.memory.map.setAccessModeAtAddress mode address size=.ok t.memory.map ∧
      t.memory.host=s.memory.host ∧ t.dummyOp=s.dummyOp
  | .fetch eip,t => ∃fetched,
    updateDisasmFromContext .debug (disassembler D) s.memory s.dummyOp eip=.ok fetched ∧
      t=⟨fetched.memory,fetched.dummyOp⟩

/-- The steps that the cache is written for: a store stays in the block it starts in, a change of
rights starts in the block of each page that it makes writable under a cache, and a decode looks at
no byte outside the block of `eip` and, from a page without `Write`, at no byte of a writable
page. -/
def Covered (D : Decoder) (s : State) : Event→Prop
  | .store address bytes => ∀block,s.memory.map.blockFromVirtualAddress address=.ok (some block)→
    (address-block.virtualAddress).toNat+bytes.length ≤ block.size.toNat
  | .map _ _ => True
  | .malloc _ _ _ _ _ => True
  | .setAccessMode mode address size => mode.write=true→
    ∀p,shadowIndex address ≤ p→p<shadowIndex (address+size-1)→
      ∀b,s.memory.map.memoryMapBlocksShadow.slot p=some b→
        (s.memory.map.memoryMapRightsShadow.slot p).write=false→s.memory.map.context b.pointer≠none→
        s.memory.map.memoryMapBlocksShadow.slot (shadowIndex address)=some b
  | .fetch eip => DecodesInside D s.memory eip

def start (host : ℕ→U8) (dummyOp : DISASM) : State where
  memory := ⟨{ (FEMemoryMap.create 0x40000000 : FEMemoryMap DisasmContext) with
    memoryMapAccessModeChangeCallback := true },host⟩
  dummyOp := dummyOp

theorem invariant_start (host : ℕ→U8) (dummyOp : DISASM) :
    Invariant D (start host dummyOp).memory where
  caches := by
    constructor
    · intro p q b c hb
      cases hb
    · intro p b c hb
      cases hb
  apart := by
    intro p q b c hb
    cases hb
  callback := rfl

theorem invariant_step (s : State) (event : Event) (t : State) (h : Invariant D s.memory)
    (hstep : Step D s event t ∧ Covered D s event) : Invariant D t.memory := by
  obtain ⟨hstep,hcovered⟩ := hstep
  cases event with
  | store address bytes =>
    obtain ⟨hwritable,hstore,_⟩ := hstep
    exact h.store hwritable hcovered hstore
  | map block mode =>
    obtain ⟨hfresh,hhost,hmap,_⟩ := hstep
    exact h.append hfresh hhost hmap
  | malloc size mode tag realAddress newBlock =>
    obtain ⟨hfresh,hhost,⟨address,released,hmalloc⟩,_⟩ := hstep
    obtain ⟨address?,_,hmalloc⟩ := bind_eq_ok.mp hmalloc
    cases address? with
    | none => cases hmalloc
    | some found =>
      obtain ⟨m',happend,hmalloc⟩ := bind_eq_ok.mp hmalloc
      cases hmalloc
      exact h.append (hfresh address) hhost happend
  | setAccessMode mode address size =>
    obtain ⟨hset,hhost,_⟩ := hstep
    have hinvariant := h.setAccessMode hcovered hset
    rwa [←hhost] at hinvariant
  | fetch eip =>
    obtain ⟨fetched,hfetch,rfl⟩ := hstep
    exact (h.fetch hcovered hfetch).1

/-- In every run of covered steps every covered fetch delivers the decode of the bytes that memory
holds at `eip` at that moment. -/
theorem fetch_transparent {host : ℕ→U8} {dummyOp : DISASM} {events : List Event} {s : State}
    (h : Runs (fun s event t => Step D s event t ∧ Covered D s event) (start host dummyOp) events s)
    {eip : U32} {fetched : Fetched} (hinside : Covered D s (.fetch eip))
    (hfetch : updateDisasmFromContext .debug (disassembler D) s.memory s.dummyOp eip=.ok fetched) :
    Delivers D s.memory eip fetched := by
  have hinvariant : Invariant D s.memory :=
    h.invariant (I:=fun s => Invariant D s.memory) (invariant_start host dummyOp) invariant_step
  exact (hinvariant.fetch hinside hfetch).2

end Runs

section Stale
set_option maxRecDepth 8000

def byteDecoder : Decoder := fun _ bytes =>
  ({ (default : DISASM) with Instruction := { (default : INSTRTYPE) with
    Opcode := (bytes 0).setWidth 32 } },1)

theorem byteDecoder_determines (eip : U32) (bytes : ℕ→U8) : Determines byteDecoder eip bytes 1 := by
  intro bytes' h
  simp only [byteDecoder,h 0 Nat.zero_lt_one]

def headBlock : FEMemoryMapBlock := ⟨1,0x401000,0x402000,0x1000,0x10000,true,".data".toList⟩

def codeBlock : FEMemoryMapBlock := ⟨2,0x402000,0x404000,0x2000,0x20000,true,".text".toList⟩

theorem fresh_code {m : FEMemoryMap DisasmContext} {host : ℕ→U8} {dummyOp : DISASM}
    (h : ((start host dummyOp).memory.map.clearContext 1).map .debug headBlock .none=.ok m) :
    Fresh m codeBlock := by
  have howner : ∀p b,m.memoryMapBlocksShadow.slot p=some b→b=headBlock := by
    intro p b hb
    rcases append_owner h hb with rfl | hold
    · rfl
    · cases hold
  refine ⟨fun p b hb => ?_,fun p b hb => ?_⟩
  · rw [howner p b hb]
    decide
  · rw [howner p b hb]
    exact .inl (by decide)

/-- A range that makes the first page of the code writable and starts in the block before it. -/
def staleEvents : List Event :=
  [.map headBlock .none,.map codeBlock .none,.fetch 0x402000,
    .setAccessMode .readWrite 0x401000 0x2001,.store 0x402000 [0xcc],
    .setAccessMode .none 0x401000 0x2001]

/-- The cached decode survives a change of rights that starts in another block, and the store
between. -/
theorem fetch_stale : ∃(D : Decoder) (host : ℕ→U8) (dummyOp : DISASM) (s : State) (eip : U32)
    (fetched : Fetched),
    Runs (Step D) (start host dummyOp) staleEvents s ∧
    updateDisasmFromContext .debug (disassembler D) s.memory s.dummyOp eip=.ok fetched ∧
    ¬Delivers D s.memory eip fetched := by
  have hhead : Runs (Step byteDecoder) (start (fun _ => 0x90) default) (staleEvents.take 1)
      ⟨⟨_,fun _ => 0x90⟩,_⟩ :=
    .next .start ⟨⟨fun _ _ => nofun,fun _ _ => nofun⟩,by intros; rfl,rfl,rfl⟩
  have hcode : Runs (Step byteDecoder) (start (fun _ => 0x90) default) (staleEvents.take 2)
      ⟨⟨_,fun _ => 0x90⟩,_⟩ :=
    .next hhead ⟨fresh_code rfl,by intros; rfl,rfl,rfl⟩
  have hfetch : Runs (Step byteDecoder) (start (fun _ => 0x90) default)
    (staleEvents.take 3) ⟨_,_⟩ :=
    .next hcode ⟨_,rfl,rfl⟩
  have hwrite : Runs (Step byteDecoder) (start (fun _ => 0x90) default) (staleEvents.take 4)
    ⟨⟨_,_⟩,_⟩ :=
    .next hfetch ⟨rfl,rfl,rfl⟩
  have hstore : Runs (Step byteDecoder) (start (fun _ => 0x90) default)
    (staleEvents.take 5) ⟨_,_⟩ :=
    .next hwrite ⟨by decide +kernel,rfl,rfl⟩
  have hclear : Runs (Step byteDecoder) (start (fun _ => 0x90) default) (staleEvents.take 6)
    ⟨⟨_,_⟩,_⟩ :=
    .next hstore ⟨rfl,rfl,rfl⟩
  refine ⟨byteDecoder,_,_,_,0x402000,_,hclear,rfl,?_⟩
  rintro ⟨record,reip,_,hderef,hdecoded⟩
  have hold : record.Instruction.Opcode=0x90 := by
    cases hderef
    rfl
  have hnew : record.Instruction.Opcode=0xcc :=
    congrArg (fun result => result.1.Instruction.Opcode) hdecoded
  rw [hold] at hnew
  cases hnew

/-- The same from the first byte of the code: the change of rights drops the decode, and the fetch
behind it makes a new one. -/
def coveredEvents : List Event :=
  [.map headBlock .none,.map codeBlock .none,.fetch 0x402000,
    .setAccessMode .readWrite 0x402000 0x1001,.store 0x402000 [0xcc],
    .setAccessMode .none 0x402000 0x1001,.fetch 0x402000]

theorem covered_fetch {memory : Memory DisasmContext} {dummyOp : DISASM}
    (hslot : memory.map.memoryMapBlocksShadow.slot 0x402=some codeBlock) :
    Covered byteDecoder ⟨memory,dummyOp⟩ (.fetch 0x402000) := by
  refine ⟨codeBlock,1,hslot,byteDecoder_determines _ _,fun i hi => ?_⟩
  cases Nat.lt_one_iff.mp hi
  exact ⟨⟨by decide,hslot⟩,fun h => h⟩

theorem covered_setAccessMode {memory : Memory DisasmContext} {dummyOp : DISASM}
    (mode : FEMemoryAccessMode) :
    Covered byteDecoder ⟨memory,dummyOp⟩ (.setAccessMode mode 0x402000 0x1001) := by
  intro _ p hlow hhigh b hb _ _
  have hfirst : shadowIndex 0x402000=0x402 := rfl
  have hend : shadowIndex (0x402000+0x1001-1)=0x403 := rfl
  obtain rfl : p=0x402 := by omega
  exact hb

theorem covered_store {memory : Memory DisasmContext} {dummyOp : DISASM}
    (hblock : memory.map.blockFromVirtualAddress 0x402000=.ok (some codeBlock)) :
    Covered byteDecoder ⟨memory,dummyOp⟩ (.store 0x402000 [0xcc]) := by
  intro block h
  cases hblock.symm.trans h
  decide

/-- The fetch from the cache delivers the byte that was stored. -/
theorem fetch_transparent_code : ∃(s : State) (fetched : Fetched),
    Runs (fun s event t => Step byteDecoder s event t ∧ Covered byteDecoder s event)
    (start (fun _ => 0x90) default)
      coveredEvents s ∧
    updateDisasmFromContext .debug (disassembler byteDecoder) s.memory s.dummyOp 0x402000=
      .ok fetched ∧
    fetched.op=.cached 2 0 ∧ s.memory.host 0x20000=0xcc ∧
    Delivers byteDecoder s.memory 0x402000 fetched := by
  have hhead : Runs (fun s event t => Step byteDecoder s event t ∧ Covered byteDecoder s event)
      (start (fun _ => 0x90) default) (coveredEvents.take 1) ⟨⟨_,fun _ => 0x90⟩,_⟩ :=
    .next .start ⟨⟨⟨fun _ _ => nofun,fun _ _ => nofun⟩,by intros; rfl,rfl,rfl⟩,trivial⟩
  have hcode : Runs (fun s event t => Step byteDecoder s event t ∧ Covered byteDecoder s event)
      (start (fun _ => 0x90) default) (coveredEvents.take 2) ⟨⟨_,fun _ => 0x90⟩,_⟩ :=
    .next hhead ⟨⟨fresh_code rfl,by intros; rfl,rfl,rfl⟩,trivial⟩
  have hfetch : Runs (fun s event t => Step byteDecoder s event t ∧ Covered byteDecoder s event)
      (start (fun _ => 0x90) default) (coveredEvents.take 3) ⟨_,_⟩ :=
    .next hcode ⟨⟨_,rfl,rfl⟩,covered_fetch rfl⟩
  have hwrite : Runs (fun s event t => Step byteDecoder s event t ∧ Covered byteDecoder s event)
      (start (fun _ => 0x90) default) (coveredEvents.take 4) ⟨⟨_,_⟩,_⟩ :=
    .next hfetch ⟨⟨rfl,rfl,rfl⟩,covered_setAccessMode _⟩
  have hstore : Runs (fun s event t => Step byteDecoder s event t ∧ Covered byteDecoder s event)
      (start (fun _ => 0x90) default) (coveredEvents.take 5) ⟨_,_⟩ :=
    .next hwrite ⟨⟨by decide +kernel,rfl,rfl⟩,covered_store rfl⟩
  have hclear : Runs (fun s event t => Step byteDecoder s event t ∧ Covered byteDecoder s event)
      (start (fun _ => 0x90) default) (coveredEvents.take 6) ⟨⟨_,_⟩,_⟩ :=
    .next hstore ⟨⟨rfl,rfl,rfl⟩,covered_setAccessMode _⟩
  have hagain : Runs (fun s event t => Step byteDecoder s event t ∧ Covered byteDecoder s event)
      (start (fun _ => 0x90) default) coveredEvents ⟨_,_⟩ :=
    .next hclear ⟨⟨_,rfl,rfl⟩,covered_fetch rfl⟩
  exact ⟨_,_,hagain,rfl,rfl,rfl,fetch_transparent hagain (covered_fetch rfl) rfl⟩

end Stale
end FalloutEmu.CacheTransparency
