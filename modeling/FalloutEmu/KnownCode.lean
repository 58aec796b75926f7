import FalloutEmu.FetchInvariant
import FalloutEmu.FlatMemory

/-! # Fetches of code whose decoding is known -/
namespace FalloutEmu.KnownCode
open ByteStore Emulator
open FEMemoryMap (WellFormed CachesHold SameBlocks)
open FEMemoryMapBlock (Contains)
open FlatMemory (Holds)
variable {F : Type}

/-- An instruction of a program: the number of its bytes, and what is known of its decode. -/
structure Entry where
  length : ℕ
  Delivers : DISASM→ℤ→Prop

/-- The instructions of a program by their addresses, and the bytes that they are made of. -/
structure Program where
  entry : U32→Option Entry
  bytes : ℕ→U8

namespace Program

/-- What a decode at the address of an instruction delivers. -/
def Delivers (program : Program) (a : U32) (record : DISASM) (len : ℤ) : Prop :=
  ∃entry∈program.entry a,record.VirtualAddr=a.setWidth 64 ∧ entry.Delivers record len

/-- The disassembler decodes the instructions of the program wherever it finds their bytes, and
leaves `VirtualAddr` as it was handed. -/
def DecodedBy (program : Program) (disasm : Disassembler) : Prop :=
  ∀a,∀entry∈program.entry a,∀(stale : DISASM) reip host,
    (∀i<entry.length,host (reip+i)=program.bytes (a.toNat+i))→
      (disasm (stale.handed reip a) host).2≠UNKNOWN_OPCODE ∧
        program.Delivers a (disasm (stale.handed reip a) host).1
          (disasm (stale.handed reip a) host).2

/-- What a cache may hold for an instruction of the program. -/
def Allows (program : Program) (block : FEMemoryMapBlock) (offset : ℕ) (record : DISASM)
    (len : ℤ) : Prop :=
  ∀a,(program.entry a).isSome→block.Contains a.toNat→(a-block.virtualAddress).toNat=offset→
    program.Delivers a record len

/-- The instructions of the program lie in mapped blocks whose caches can hold a record for each
byte, and no cache holds anything else for them. -/
structure Loaded (program : Program) (memory : Memory DisasmContext) (flat : ℕ→U8) : Prop where
  bytes : ∀a,∀entry∈program.entry a,∀i<entry.length,flat (a.toNat+i)=program.bytes (a.toNat+i)
  blocks : ∀a,∀entry∈program.entry a,0<entry.length ∧ ∃b∈memory.map.memoryMapBlocks.elements,
    b.virtualAddress.toNat ≤ a.toNat ∧ a.toNat+entry.length ≤ b.virtualAddress.toNat+b.size.toNat ∧
      b.size.toNat ≤ FEArray.mostRecords
  rights : ∀a,(program.entry a).isSome→∃mode,memory.map.accessModeAtAddress a=.ok mode
  caches : memory.map.CachesHold program.Allows
  indexes : ∀p b c,memory.map.memoryMapBlocksShadow.slot p=some b→
    memory.map.context b.pointer=some c→
    c.indexes.capacity=(b.size*4).toNat/4

def Fetched (program : Program) (s : FEProcess F) : Prop :=
  ∃record,s.op.deref s.memory s.dummyOp=.ok record ∧ program.Delivers s.currentThread.eip
    record s.len

end Program

section Caches
variable {context context' : DisasmContext} {disasm : Disassembler} {host : ℕ→U8} {dummyOp : DISASM}
  {reip offset i : ℕ} {eip : U32} {len : ℤ}

/-- A fetch of a known instruction returns, in a block whose bytes all fit the cache. -/
theorem fetch_returns {P : ℕ→DISASM→ℤ→Prop} (h : context.Holds P)
    (hoffset : offset<context.indexes.capacity)
    (hsmall : context.indexes.capacity ≤ FEArray.mostRecords)
    (hdisasm : ∀stale : DISASM,(disasm (stale.handed reip eip) host).2≠UNKNOWN_OPCODE) :
    ∃fetched,context.fetch disasm host dummyOp reip eip offset=.ok fetched := by
  have hindex : context.indexes.get offset=.ok (context.indexes.slot offset) :=
    Shadow.get_eq_ok.mpr ⟨hoffset,rfl⟩
  rw [DisasmContext.fetch,hindex,ok_bind]
  split
  · next hmiss =>
    rw [hmiss] at hindex
    obtain ⟨_,_,_,hdecode⟩ := DisasmContext.decode_returns h.toSized hoffset
      (h.size_ne hindex hsmall) hdisasm
    exact ⟨_,hdecode⟩
  · next hne =>
    obtain ⟨_,len,_,hlen,_⟩ := h.entries offset _ hindex hne
    rw [FEArray.index_eq_ok hlen]
    exact ⟨_,rfl⟩

theorem capacity_fetch (h : context.fetch disasm host dummyOp reip eip offset=
    .ok (context',i,len)) :
    context'.indexes.capacity=context.indexes.capacity := by
  rcases DisasmContext.fetch_ok h with ⟨_,_,_,_,_,rfl⟩ | ⟨_,hdecode⟩
  · rfl
  · obtain ⟨_,_,_,_,_,_,_,rfl⟩ := DisasmContext.decode_ok hdecode
    rfl

end Caches

section Fetch
variable {program : Program} {env : Environment F} {memory : Memory DisasmContext}
  {flat : ℕ→U8} {eip : U32}
  {entry : Entry} {b : FEMemoryMapBlock}

/-- The host holds the bytes of an instruction that its block contains. -/
theorem Program.Loaded.host (h : program.Loaded memory flat) (hflat : Holds memory flat)
    (hentry : entry∈program.entry eip) (hb : b∈memory.map.memoryMapBlocks.elements)
    (hlow : b.virtualAddress.toNat ≤ eip.toNat)
    (hhigh : eip.toNat+entry.length ≤ b.virtualAddress.toNat+b.size.toNat) :
    ∀i<entry.length,memory.host (b.localAddress+(eip-b.virtualAddress).toNat+i)=
      program.bytes (eip.toNat+i) := by
  intro i hi
  have hsub : (eip-b.virtualAddress).toNat=eip.toNat-b.virtualAddress.toNat := by bv_omega
  have hbyte := hflat.bytes b hb (eip.toNat-b.virtualAddress.toNat+i) (by omega)
  rw [←h.bytes eip entry hentry i hi,hsub,Nat.add_assoc,hbyte]
  congr 1
  omega

/-- The cache of a block is large enough for its offsets. -/
theorem Program.Loaded.capacity (h : program.Loaded memory flat) {p : ℕ}
    (hslot : memory.map.memoryMapBlocksShadow.slot p=some b) :
    ((memory.map.context b.pointer).getD (.create b.size)).indexes.capacity=(b.size*4).toNat/4 := by
  cases hc : memory.map.context b.pointer with
  | none => rfl
  | some c => exact h.indexes p b c hslot hc

theorem Program.Loaded.holds (h : program.Loaded memory flat) {p : ℕ}
    (hslot : memory.map.memoryMapBlocksShadow.slot p=some b) :
    ((memory.map.context b.pointer).getD (.create b.size)).Holds (program.Allows b) := by
  cases hc : memory.map.context b.pointer with
  | none => exact DisasmContext.holds_create _ _
  | some c => exact h.caches.holds p b c hslot hc

/-- A new cache for a block keeps the program loaded, if it holds what it may. -/
theorem Program.Loaded.setContext (h : program.Loaded memory flat) {p : ℕ} {c : DisasmContext}
    (hslot : memory.map.memoryMapBlocksShadow.slot p=some b)
    (hcaches : (memory.map.setContext b.pointer c).CachesHold program.Allows)
    (hcapacity : c.indexes.capacity=(b.size*4).toNat/4) :
    program.Loaded { memory with map := memory.map.setContext b.pointer c } flat where
  bytes := h.bytes
  blocks := h.blocks
  rights := h.rights
  caches := hcaches
  indexes := by
    intro q b' c' hb' hc'
    by_cases hp : b'.pointer=b.pointer
    · cases h.caches.pointers q p b' b hb' hslot hp
      simp only [FEMemoryMap.setContext,↓reduceIte,Option.some.injEq] at hc'
      exact hc' ▸ hcapacity
    · simp only [FEMemoryMap.setContext,hp,↓reduceIte] at hc'
      exact h.indexes q b' c' hb' hc'

/-- The fetch of an instruction of the program returns and delivers it. -/
theorem fetch_delivers (hdisasm : program.DecodedBy env.disasm) (hflat : Holds memory flat)
    (hloaded : program.Loaded memory flat) (hentry : entry∈program.entry eip) (dummyOp : DISASM) :
    ∃fetched,
      FalloutEmu.updateDisasmFromContext env.build env.disasm memory dummyOp eip=.ok fetched ∧
      fetched.memory.host=memory.host ∧ SameBlocks memory.map fetched.memory.map ∧
      program.Loaded fetched.memory flat ∧
      ∃record,fetched.op.deref fetched.memory fetched.dummyOp=.ok record ∧
        program.Delivers eip record fetched.len := by
  obtain ⟨hpos,b,hb,hlow,hhigh,hsize⟩ := hloaded.blocks eip entry hentry
  obtain ⟨mode,hmode⟩ := hloaded.rights eip (Option.isSome_of_mem hentry)
  have hcontains : b.Contains eip.toNat := ⟨hlow,by omega⟩
  have hslot := (hflat.wellFormed.owner (shadowIndex eip) b).mpr ⟨hb,hcontains.ownsPage⟩
  have hblock : memory.map.blockFromVirtualAddress eip=.ok (some b) :=
    Shadow.get_eq_ok.mpr ⟨hflat.wellFormed.bounded _ _ hslot,hslot⟩
  have hdecode := fun stale : DISASM => hdisasm eip entry hentry stale _ memory.host
    (hloaded.host hflat hentry hb hlow hhigh)
  have hnew : ∀(stale record : DISASM) (len : ℤ),
      env.disasm (stale.handed (b.localAddress+(eip-b.virtualAddress).toNat) eip) memory.host=
          (record,len)→
        program.Allows b (eip-b.virtualAddress).toNat record len := by
    intro stale record len hresult a _ ha hoffset
    have haddress : a=eip := by
      have halow := ha.1
      bv_omega
    have hdelivers := (hdecode stale).2
    rw [hresult] at hdelivers
    rwa [haddress]
  cases hwrite : mode.write with
  | true =>
    let reip := b.localAddress+(eip-b.virtualAddress).toNat
    let result := env.disasm ((default : DISASM).handed reip eip) memory.host
    refine ⟨⟨memory,result.1,.dummyOp,result.2,memory.host (reip+1)⟩,?_,rfl,
      ⟨rfl,rfl,rfl,rfl,rfl⟩,hloaded,result.1,rfl,(hdecode default).2⟩
    rw [FalloutEmu.updateDisasmFromContext,hblock,ok_bind]
    simp only [hmode,ok_bind,hwrite,↓reduceIte,if_neg (hdecode default).1]
    rfl
  | false =>
    have hcapacity := hloaded.capacity hslot
    rw [FEArray.mostRecords] at hsize
    have hfour : (b.size*4).toNat=b.size.toNat*4 := by bv_omega
    have hoffset : (eip-b.virtualAddress).toNat<
        ((memory.map.context b.pointer).getD (.create b.size)).indexes.capacity := by
      have hsub : (eip-b.virtualAddress).toNat=eip.toNat-b.virtualAddress.toNat := by bv_omega
      rw [hcapacity,hfour,hsub]
      omega
    obtain ⟨⟨context,i,len⟩,hfetch⟩ :
      ∃fetched,((memory.map.context b.pointer).getD (.create b.size)).fetch
        env.disasm memory.host dummyOp (b.localAddress+(eip-b.virtualAddress).toNat) eip
        (eip-b.virtualAddress).toNat=.ok fetched :=
      fetch_returns (hloaded.holds hslot) hoffset
        (by rw [hcapacity,hfour,FEArray.mostRecords]; omega)
        fun stale => (hdecode stale).1
    obtain ⟨hcaches,record,hderef,_,hallows⟩ := fetchCached_delivers hloaded.caches hblock
      (fun stale record hresult _ => hnew stale record len hresult) hfetch
    refine ⟨⟨{ memory with map := memory.map.setContext b.pointer context },
      dummyOp,.cached b.pointer i,len,memory.host (b.localAddress+(eip-b.virtualAddress).toNat+1)⟩,
      ?_,rfl,⟨rfl,rfl,rfl,rfl,rfl⟩,
      hloaded.setContext hslot hcaches ((capacity_fetch hfetch).trans hcapacity),record,hderef _ _,
      hallows eip (Option.isSome_of_mem hentry) hcontains rfl⟩
    rw [FalloutEmu.updateDisasmFromContext,hblock,ok_bind]
    simp only [hmode,ok_bind,hwrite,Bool.false_eq_true,↓reduceIte,hfetch]

end Fetch
end FalloutEmu.KnownCode
