import FalloutEmu.FlatMemory

/-! # Wide accesses against byte accesses -/
namespace FalloutEmu
open ByteStore

namespace Memory
variable {κ : Type}

/-- What `n` calls of `fe_memoryMap_value8AtAddress` from `address` return. -/
def bytesAt (memory : Memory κ) (address : U32) : ℕ→Except Stop (List U8)
  | 0 => .ok []
  | n+1 => do .ok ((← memory.value8AtAddress address)::(← memory.bytesAt (address+1) n))

/-- One call of `fe_memoryMap_setValue8` for each byte, lowest address first. -/
def setBytes (memory : Memory κ) (address : U32) : List U8→Except Stop (Memory κ)
  | [] => .ok memory
  | b::bytes => do (← memory.setValue8 address b).setBytes (address+1) bytes

end Memory

namespace WideAccess
open FEMemoryMap (create WellFormed)
open FlatMemory (InBlock StoreStep start imageBlock)
variable {κ : Type}

/-- Each of the `n` bytes from `a` lies in the block that owns its page. -/
def Mapped (m : FEMemoryMap κ) (a : U32) (n : ℕ) : Prop :=
  ∀i<n,∃b,m.memoryMapBlocksShadow.get (shadowIndex (a+.ofNat 32 i))=.ok (some b) ∧
    b.Contains (a+.ofNat 32 i).toNat

/-- Where the block that owns the page of `a` keeps that byte. -/
def hostAddress (m : FEMemoryMap κ) (a : U32) : ℕ :=
  match m.memoryMapBlocksShadow.slot (shadowIndex a) with
  | some b => b.localAddress+(a.toNat-b.virtualAddress.toNat)
  | none => 0

/-- The blocks of the range follow each other in the host as they do in the guest. -/
def Contiguous (m : FEMemoryMap κ) (a : U32) (n : ℕ) : Prop :=
  ∀i<n,hostAddress m (a+.ofNat 32 i)=hostAddress m a+i

/-- The 16-bit accesses at `a` agree with the byte accesses. -/
def Agrees16 (memory : Memory κ) (a : U32) : Prop :=
  (memory.value16AtAddress a=(memory.bytesAt a 2).map fun bytes => .ofNat 16 (value bytes)) ∧
    ∀v,memory.setValue16 a v=memory.setBytes a (littleEndian 2 v.toNat)

/-- The 32-bit accesses at `a` agree with the byte accesses. -/
def Agrees32 (memory : Memory κ) (a : U32) : Prop :=
  (memory.value32AtAddress a=(memory.bytesAt a 4).map fun bytes => .ofNat 32 (value bytes)) ∧
    ∀v,memory.setValue32 a v=memory.setBytes a (littleEndian 4 v.toNat)

/-- Copies of `n` bytes from and to `a` agree with the byte accesses. -/
def AgreesCopy (memory : Memory κ) (a n : U32) : Prop :=
  memory.memcpyToRealFromVirtual a n=memory.bytesAt a n.toNat ∧
    ∀src,src.length=n.toNat→memory.memcpyToVirtualFromReal a src=memory.setBytes a src

section Bytes
variable {memory : Memory κ} {a : U32} {n : ℕ}

theorem Mapped.localAddress {m : FEMemoryMap κ} (h : Mapped m a n) {i : ℕ} (hi : i < n) :
    m.localAddressFromVirtualAddress (a+.ofNat 32 i)=.ok (hostAddress m (a+.ofNat 32 i)) := by
  obtain ⟨b,hget,hcontains⟩ := h i hi
  have hslot := (Shadow.get_eq_ok.mp hget).2
  have hsub : (a+.ofNat 32 i-b.virtualAddress).toNat=
    (a+.ofNat 32 i).toNat-b.virtualAddress.toNat := by
    have hlow := hcontains.1
    bv_omega
  rw [FEMemoryMap.localAddressFromVirtualAddress,hget,ok_bind,hostAddress,hslot]
  simp only [hsub]

theorem Mapped.first {m : FEMemoryMap κ} (h : Mapped m a n) (hn : 0 < n) :
    m.localAddressFromVirtualAddress a=.ok (hostAddress m a) := by
  have hfirst := h.localAddress hn
  rwa [BitVec.add_zero] at hfirst

/-- The byte after `a` starts the rest of the range. -/
theorem add_succ (a : U32) (i : ℕ) : a+.ofNat 32 (i+1)=a+1+.ofNat 32 i := by
  have hsucc : BitVec.ofNat 32 (i+1)=1+BitVec.ofNat 32 i := by
    rw [Nat.add_comm,BitVec.ofNat_add]
    rfl
  rw [hsucc,BitVec.add_assoc]

theorem setBytes_eq {p : ℕ→ℕ} {bytes : List U8}
    (h : ∀i<bytes.length,memory.map.localAddressFromVirtualAddress (a+.ofNat 32 i)=.ok (p i)) :
    memory.setBytes a bytes=.ok { memory with host := scatter memory.host p bytes } := by
  induction bytes generalizing memory a p with
  | nil => rfl
  | cons b bytes ih =>
    have hhead : memory.map.localAddressFromVirtualAddress a=.ok (p 0) := by
      simpa using h 0 (by simp)
    have hbyte : littleEndian 1 b.toNat=[b] := by simp [littleEndian]
    rw [Memory.setBytes,Memory.setValue8,Memory.store,hhead,hbyte,ok_bind,ok_bind]
    apply ih (p:=fun i => p (i+1))
    intro i hi
    rw [←add_succ]
    exact h (i+1) (by simpa using hi)

theorem bytesAt_eq {p : ℕ→ℕ}
    (h : ∀i<n,memory.map.localAddressFromVirtualAddress (a+.ofNat 32 i)=.ok (p i)) :
    memory.bytesAt a n=.ok ((List.range n).map fun i => memory.host (p i)) := by
  induction n generalizing a p with
  | zero => rfl
  | succ n ih =>
    have hhead : memory.map.localAddressFromVirtualAddress a=.ok (p 0) := by
      simpa using h 0 (by simp)
    have htail : memory.bytesAt (a+1) n=
      .ok ((List.range n).map fun i => memory.host (p (i+1))) := by
      apply ih
      intro i hi
      rw [←add_succ]
      exact h (i+1) (by omega)
    rw [Memory.bytesAt,Memory.value8AtAddress,Memory.load,hhead,htail,List.range_succ_eq_map]
    simp [readAt,value,bind,Except.bind,Function.comp_def]

theorem load_eq (hn : 0 < n) (h : Mapped memory.map a n) :
    memory.load a n=.ok (readAt memory.host (hostAddress memory.map a) n) := by
  rw [Memory.load,h.first hn,ok_bind]

theorem store_eq (hn : 0 < n) (h : Mapped memory.map a n) (bytes : List U8) : memory.store a bytes=
    .ok { memory with host := writeAt memory.host (hostAddress memory.map a) bytes } := by
  rw [Memory.store,h.first hn,ok_bind]

theorem load_eq_bytesAt (hn : 0 < n) (h : Mapped memory.map a n) (hc : Contiguous memory.map a n) :
    memory.load a n=memory.bytesAt a n := by
  rw [load_eq hn h,bytesAt_eq fun i hi => h.localAddress hi,readAt]
  congr 1
  apply List.map_congr_left
  intro i hi
  rw [hc i (List.mem_range.mp hi)]

theorem store_eq_setBytes (hn : 0 < n) (h : Mapped memory.map a n) (hc : Contiguous memory.map a n)
    {bytes : List U8} (hlen : bytes.length=n) : memory.store a bytes=memory.setBytes a bytes := by
  subst hlen
  rw [store_eq hn h,setBytes_eq fun i hi => h.localAddress hi,
    scatter_consecutive (q:=hostAddress memory.map a) hc]

/-- Only contiguous ranges take every list of bytes as the sequence of byte writes does. -/
theorem contiguous_of_store (hn : 0 < n) (h : Mapped memory.map a n)
    (hstore : ∀bytes,bytes.length=n→memory.store a bytes=memory.setBytes a bytes) :
    Contiguous memory.map a n := by
  have hconsecutive : ∀i<n,hostAddress memory.map (a+.ofNat 32 i)=hostAddress memory.map
    (a+.ofNat 32 0)+i := by
    apply consecutive_of_scatter (m:=memory.host)
    intro bytes hlen
    have hwrite := hstore bytes hlen
    subst hlen
    rw [store_eq hn h,setBytes_eq fun i hi => h.localAddress hi] at hwrite
    rw [BitVec.add_zero]
    injection hwrite with hwrite
    injection hwrite with _ hhost
    exact hhost.symm
  intro i hi
  rw [hconsecutive i hi,BitVec.add_zero]

/-- A range inside one block of a map without wrapped blocks is mapped, and contiguous. -/
theorem contiguous_of_inBlock {m : FEMemoryMap κ} (hm : WellFormed m) (hin : InBlock m a.toNat n) :
    Mapped m a n ∧ Contiguous m a n := by
  obtain ⟨b,hb,hlow,hhigh⟩ := hin
  have hreach : b.virtualAddress.toNat+b.size.toNat ≤ 2^32 := hm.noWrap b hb
  have hnat : ∀i<n,(a+.ofNat 32 i).toNat=a.toNat+i := by
    intro i hi
    have hlt : (BitVec.ofNat 32 i).toNat=i := by
      rw [BitVec.toNat_ofNat]
      omega
    rw [BitVec.toNat_add,hlt]
    omega
  have hcontains : ∀i<n,b.Contains (a+.ofNat 32 i).toNat := by
    intro i hi
    rw [hnat i hi]
    exact ⟨by omega,by omega⟩
  have hslot : ∀i<n,m.memoryMapBlocksShadow.slot (shadowIndex (a+.ofNat 32 i))=some b := by
    intro i hi
    exact (hm.owner _ b).mpr ⟨hb,(hcontains i hi).ownsPage⟩
  constructor
  · intro i hi
    exact ⟨b,Shadow.get_eq_ok.mpr ⟨hm.bounded _ _ (hslot i hi),hslot i hi⟩,hcontains i hi⟩
  · intro i hi
    have hfirst := hslot 0 (by omega)
    rw [BitVec.add_zero] at hfirst
    simp only [hostAddress,hslot i hi,hfirst,hnat i hi]
    omega

end Bytes

/-- Wide accesses to mapped bytes agree with the byte accesses exactly when the blocks of the range
follow each other in the host as they do in the guest. -/
theorem wide_access_iff (memory : Memory κ) (a : U32) :
    (Mapped memory.map a 2→(Agrees16 memory a ↔ Contiguous memory.map a 2)) ∧
    (Mapped memory.map a 4→(Agrees32 memory a ↔ Contiguous memory.map a 4)) ∧
    (∀n,n≠0→Mapped memory.map a n.toNat→(AgreesCopy memory a n ↔ Contiguous memory.map a n.toNat)) ∧
    ∀dst n,n≠0→Mapped memory.map a n.toNat→Mapped memory.map dst n.toNat→
      Contiguous memory.map a n.toNat → Contiguous memory.map dst n.toNat→
      memory.memcpyToVirtualFromVirtual dst a n=
        memory.bytesAt a n.toNat >>= memory.setBytes dst := by
  refine ⟨?_,?_,?_,?_⟩
  · intro hmapped
    constructor
    · intro hagrees
      apply contiguous_of_store (by decide) hmapped
      intro bytes hlen
      have hword := littleEndian_ofNat_value (w:=16) rfl hlen
      have hstore := hagrees.2 (.ofNat 16 (value bytes))
      rwa [Memory.setValue16,hword] at hstore
    · intro hc
      refine ⟨?_,fun v => store_eq_setBytes (by decide) hmapped hc (length_littleEndian 2 _)⟩
      rw [Memory.value16AtAddress,load_eq_bytesAt (by decide) hmapped hc,bind_ok_eq_map]
  · intro hmapped
    constructor
    · intro hagrees
      apply contiguous_of_store (by decide) hmapped
      intro bytes hlen
      have hword := littleEndian_ofNat_value (w:=32) rfl hlen
      have hstore := hagrees.2 (.ofNat 32 (value bytes))
      rwa [Memory.setValue32,hword] at hstore
    · intro hc
      refine ⟨?_,fun v => store_eq_setBytes (by decide) hmapped hc (length_littleEndian 4 _)⟩
      rw [Memory.value32AtAddress,load_eq_bytesAt (by decide) hmapped hc,bind_ok_eq_map]
  · intro n hn hmapped
    have hpos : 0 < n.toNat := by bv_omega
    constructor
    · intro hagrees
      exact contiguous_of_store hpos hmapped hagrees.2
    · intro hc
      exact ⟨load_eq_bytesAt hpos hmapped hc,fun src hlen => store_eq_setBytes hpos hmapped hc hlen⟩
  · intro dst n hn hmapped hdst hc hcdst
    have hpos : 0 < n.toNat := by bv_omega
    have hload := load_eq hpos hmapped
    rw [Memory.memcpyToVirtualFromVirtual,←load_eq_bytesAt hpos hmapped hc,hload,ok_bind,ok_bind]
    exact store_eq_setBytes hpos hdst hcdst (length_readAt _ _ _)

theorem wide_access_image : ∃m :
    FEMemoryMap Unit,(create 0x40000000).map .debug imageBlock .readWrite=.ok m ∧
    Agrees32 ⟨m,fun _ => 0⟩ 0x400ffc := by
  obtain ⟨m,hmap⟩ : ∃m,(create 0x40000000 : FEMemoryMap Unit).map .debug imageBlock .readWrite=
    .ok m :=
    ⟨_,rfl⟩
  obtain ⟨hm,hsame,_⟩ := (WellFormed.create 0x40000000).append imageBlock ⟨by decide,by decide⟩ hmap
  have hin : InBlock m (0x400ffc : U32).toNat 4 := by
    refine ⟨imageBlock,?_,by decide,by decide⟩
    rw [hsame.blocks,FEMemoryMap.mem_withBlock]
    exact Or.inr rfl
  obtain ⟨hmapped,hc⟩ := contiguous_of_inBlock hm hin
  exact ⟨m,hmap,((wide_access_iff ⟨m,fun _ => 0⟩ 0x400ffc).2.1 hmapped).mpr hc⟩

/-- The section behind the image, loaded into a buffer of its own. -/
def dataBlock : FEMemoryMapBlock := ⟨2,0x401000,0x402000,0x1000,0x30000,true,".data".toList⟩

def sections : Except Stop (FEMemoryMap Unit) := do
  (← (create 0x40000000).map .debug imageBlock .readWrite).map .debug dataBlock .readWrite

/-- Host memory whose only set bit is in the first byte of the second section. -/
def dataHost : ℕ→U8 := fun p => if p=0x30000 then 1 else 0

/-- Two adjacent sections: the word across the seam misses the first byte of the second one. -/
theorem word_across_sections : ¬∀(events : List FlatMemory.StoreEvent) (g : FlatMemory.Guest Unit),
    Runs StoreStep (start 0x40000000 dataHost) events g→∀a,Mapped g.memory.map a 2→
    Agrees16 g.memory a := by
  intro h
  have hword : (sections >>= fun m => Memory.value16AtAddress ⟨m,dataHost⟩ 0x400fff)=.ok 0 := by
    decide +kernel
  have hbytes : (sections >>= fun m => Memory.bytesAt ⟨m,dataHost⟩ 0x400fff 2)=.ok [0,1] := by
    decide +kernel
  have himage : (sections >>= fun m => m.memoryMapBlocksShadow.get 0x400)=
    .ok (some imageBlock) := by decide +kernel
  have hdata : (sections >>= fun m => m.memoryMapBlocksShadow.get 0x401)=.ok (some dataBlock) := by
    decide +kernel
  obtain ⟨m,hm,hword⟩ := bind_eq_ok.mp hword
  rw [hm,ok_bind] at hbytes himage hdata
  obtain ⟨m₁,hmap₁,hmap₂⟩ := bind_eq_ok.mp hm
  have hrun : Runs StoreStep (start 0x40000000 dataHost)
      [.map imageBlock .readWrite (readAt dataHost 0x10000 0x1000),
        .map dataBlock .readWrite (readAt dataHost 0x30000 0x1000)] ⟨⟨m,dataHost⟩,[]⟩ := by
    refine .next (s:=⟨⟨m₁,dataHost⟩,[]⟩) (.next .start ⟨⟨by simp [start,create],rfl⟩,m₁,hmap₁,rfl⟩)
      ?_
    refine ⟨⟨?_,rfl⟩,m,hmap₂,rfl⟩
    obtain ⟨_,hsame,_⟩ := (WellFormed.create 0x40000000).append imageBlock
      ⟨by decide,by decide⟩ hmap₁
    intro b hb
    rw [hsame.blocks,FEMemoryMap.mem_withBlock] at hb
    rcases hb with hb|rfl
    · simp [create] at hb
    · exact Or.inl (by decide)
  have hmapped : Mapped m 0x400fff 2 := by
    intro i hi
    obtain rfl | rfl : i=0 ∨ i=1 := by omega
    · exact ⟨imageBlock,himage,by decide,by decide⟩
    · exact ⟨dataBlock,hdata,by decide,by decide⟩
  have hagrees := (h _ _ hrun 0x400fff hmapped).1
  simp only at hagrees
  rw [hword,hbytes] at hagrees
  revert hagrees
  decide

end WideAccess
end FalloutEmu
