import FalloutEmu.CacheTransparency

/-! # The arrays of a decode cache stay in step -/
namespace FalloutEmu.LockStep
open CacheTransparency (Decoder decoded disassembler disassembler_handed addressIn Fixed
  Writable Determines
  byteDecoder byteDecoder_determines codeBlock)

/-- The instruction `offset` bytes into a block: its decode and length. -/
def decodeAt (D : Decoder) (host : ℕ→U8) (block : FEMemoryMapBlock) (offset : ℕ) : DISASM×ℤ :=
  decoded D (fun i => host (block.localAddress+offset+i)) (block.localAddress+offset)
    (addressIn block offset)

/-- The block's bytes are the same in both contents of the host memory. -/
def SameBytes (block : FEMemoryMapBlock) (host host' : ℕ→U8) : Prop :=
  ∀k<block.size.toNat,host' (block.localAddress+k)=host (block.localAddress+k)

/-- The instruction `offset` bytes into the block ends inside the block. -/
def EndsInside (D : Decoder) (host : ℕ→U8) (block : FEMemoryMapBlock) (offset : ℕ) : Prop :=
  ∃n,offset+n ≤ block.size.toNat ∧
    Determines D (addressIn block offset) (fun i => host (block.localAddress+offset+i)) n

/-- The three arrays of a cache agree, and every entry is the instruction at its offset. -/
structure InStep (D : Decoder) (host : ℕ→U8) (block : FEMemoryMapBlock)
    (context : DisasmContext) : Prop where
  holds : context.Holds fun offset record len => (record,len)=decodeAt D host block offset
  range : ∀offset i,context.indexes.get offset=.ok i→i= -1 ∨ 0 ≤ i ∧ i<context.disasmed.size
  distinct : ∀offset offset' i,context.indexes.get offset=.ok i→context.indexes.get offset'=
    .ok i→i≠ -1→
    offset=offset'

structure FetchState where
  memory : Memory DisasmContext
  dummyOp : DISASM

/-- The cache of the block, before the first fetch the one that this will create. -/
def FetchState.cache (s : FetchState) (block : FEMemoryMapBlock) : DisasmContext :=
  (s.memory.map.context block.pointer).getD (.create block.size)

/-- A fetch from the block, or something that happens elsewhere. -/
inductive FetchEvent where
  | fetch (offset : ℕ)
  | elsewhere (memory : Memory DisasmContext) (dummyOp : DISASM)

def FetchEvent.offset? : FetchEvent→Option ℕ
  | .fetch offset => some offset
  | .elsewhere _ _ => none

def fetchedOffsets (events : List FetchEvent) : Finset ℕ :=
  (events.filterMap FetchEvent.offset?).toFinset

/-- A fetch reads an instruction of the block on a page without `Write`; what happens elsewhere
leaves the block's cache and its bytes. -/
def FetchStep (build : Build) (D : Decoder) (block : FEMemoryMapBlock) (s : FetchState)
    (event : FetchEvent) (s' : FetchState) : Prop :=
  match event with
  | .fetch offset => Fixed s.memory.map block offset ∧ EndsInside D s.memory.host block offset ∧
    ∃fetched,updateDisasmFromContext build (disassembler D) s.memory s.dummyOp
      (addressIn block offset)=.ok fetched ∧
      s'=⟨fetched.memory,fetched.dummyOp⟩
  | .elsewhere memory dummyOp => memory.map.context block.pointer=
    s.memory.map.context block.pointer ∧
    SameBytes block s.memory.host memory.host ∧ s'=⟨memory,dummyOp⟩

/-- An instruction inside the block, on a page of the map without `Write`, that the disassembler
knows. -/
structure Fetchable (D : Decoder) (memory : Memory DisasmContext) (block : FEMemoryMapBlock)
    (offset : ℕ) : Prop
    extends Fixed memory.map block offset where
  page : shadowIndex (addressIn block offset)< memory.map.memoryMapBlocksShadow.capacity
  rights : shadowIndex (addressIn block offset)< memory.map.memoryMapRightsShadow.capacity
  inside : EndsInside D memory.host block offset
  known : (decodeAt D memory.host block offset).2≠UNKNOWN_OPCODE

/-- There is an index for the offset, and with it no more offsets are fetched than records fit. -/
def HasRoom (block : FEMemoryMapBlock) (events : List FetchEvent) (offset : ℕ) : Prop :=
  offset<(block.size*4).toNat/4 ∧ (insert offset (fetchedOffsets events)).card ≤ FEArray.mostRecords

/-- The fetch from `offset` delivers the instruction there, through a cache that is in step. -/
def DeliversAt (D : Decoder) (host : ℕ→U8) (block : FEMemoryMapBlock) (offset : ℕ)
    (fetched : Fetched) : Prop :=
  ∃context,∃i : ℕ,fetched.memory.map.context block.pointer=some context ∧
    InStep D host block context ∧
    context.indexes.get offset=.ok (i : ℤ) ∧ fetched.op=.cached block.pointer i ∧
    fetched.op.deref fetched.memory fetched.dummyOp=.ok (decodeAt D host block offset).1 ∧
    fetched.len=(decodeAt D host block offset).2

section Contexts
variable {D : Decoder} {host : ℕ→U8} {block : FEMemoryMapBlock} {context context' : DisasmContext}
  {dummyOp : DISASM} {offset i : ℕ} {len : ℤ}

/-- An instruction inside the block is the same as long as the block's bytes are. -/
theorem SameBytes.decodeAt_eq {now : ℕ→U8} (h : SameBytes block host now)
    (hinside : EndsInside D now block offset) :
    decodeAt D now block offset=decodeAt D host block offset := by
  obtain ⟨n,hend,hdetermines⟩ := hinside
  refine (hdetermines.decoded_congr ?_ _).symm
  intro i hi
  rw [Nat.add_assoc]
  exact (h (offset+i) (by omega)).symm

theorem inStep_create (size : U32) : InStep D host block (.create size) where
  holds := DisasmContext.holds_create _ _
  range := by
    intro offset i hi
    exact Or.inl (Shadow.get_eq_ok.mp hi).2.symm
  distinct := by
    intro offset offset' i hi _ hne
    exact absurd (Shadow.get_eq_ok.mp hi).2.symm hne

/-- A new entry keeps the cache in step: its index is the size, above every older one. -/
theorem InStep.decode {disasm : Disassembler} {now : ℕ→U8} {reip : ℕ} {eip : U32}
    (h : InStep D host block context)
    (hholds : context'.Holds fun offset record len => (record,len)=decodeAt D host block offset)
    (hdecode : context.decode disasm now dummyOp reip eip offset=.ok (context',i,len)) :
    InStep D host block context' := by
  obtain ⟨hi,hsize⟩ := DisasmContext.decode_size hdecode
  refine ⟨hholds,?_,?_⟩
  · intro o j hj
    rcases DisasmContext.index_of_decode hdecode hj with ⟨_,rfl⟩ | ⟨_,hold⟩
    · right
      omega
    · rcases h.range o j hold with hnone | hin
      · exact .inl hnone
      · right
        omega
  · intro o o' j ho ho' hne
    rcases DisasmContext.index_of_decode hdecode ho with ⟨rfl,hj⟩ | ⟨_,hold⟩ <;>
      rcases DisasmContext.index_of_decode hdecode ho' with ⟨rfl,hj'⟩ | ⟨_,hold'⟩
    · rfl
    · have hin := (h.range o' j hold').resolve_left hne
      omega
    · have hin := (h.range o j hold).resolve_left hne
      omega
    · exact h.distinct o o' j hold hold' hne

/-- One fetch through the cache, from bytes that decode as those of `host`. -/
theorem InStep.fetch {now : ℕ→U8} (h : InStep D host block context)
    (hsame : decodeAt D now block offset=decodeAt D host block offset)
    (hfetch : context.fetch (disassembler D) now dummyOp (block.localAddress+offset)
      (addressIn block offset) offset=
      .ok (context',i,len)) :
    InStep D host block context' ∧ context'.indexes.get offset=.ok (i : ℤ) ∧
      context'.disasmed.elements[i]?=some (decodeAt D host block offset).1 ∧
      len=(decodeAt D host block offset).2 := by
  have hnew : ∀stale record : DISASM,
      disassembler D (stale.handed (block.localAddress+offset) (addressIn block offset)) now=
        (record,len)→
      context'.disasmed.elements[i]?=some record→(record,len)=decodeAt D host block offset := by
    intro stale record hdecode _
    rw [disassembler_handed] at hdecode
    exact hdecode.symm.trans hsame
  obtain ⟨hholds,record,hrecord,_,hP⟩ := h.holds.fetch hnew hfetch
  rw [←hP]
  rcases DisasmContext.fetch_ok hfetch with ⟨index,hindex,hne,hi,_,hcontext⟩ | ⟨_,hdecode⟩
  · -- the entry was there
    subst hcontext
    have hpos : 0 ≤ index := ((h.range offset index hindex).resolve_left hne).1
    refine ⟨h,?_,hrecord,rfl⟩
    rw [hi,Int.toNat_of_nonneg hpos]
    exact hindex
  · exact ⟨h.decode hholds hdecode,DisasmContext.decode_index hdecode,hrecord,rfl⟩

end Contexts
section Runs
variable {D : Decoder} {build : Build} {block : FEMemoryMapBlock} {s₀ s s' : FetchState}
  {events : List FetchEvent}
  {offset : ℕ}

theorem fetchedOffsets_fetch (events : List FetchEvent) (offset : ℕ) :
    fetchedOffsets (events++[.fetch offset])=insert offset (fetchedOffsets events) := by
  simp [fetchedOffsets,FetchEvent.offset?]

theorem fetchedOffsets_elsewhere (events : List FetchEvent) (memory : Memory DisasmContext)
    (dummyOp : DISASM) :
    fetchedOffsets (events++[.elsewhere memory dummyOp])=fetchedOffsets events := by
  simp [fetchedOffsets,FetchEvent.offset?,List.filterMap]

/-- The cache of the block is in step with the instructions at the start, and it knows the offsets
of the fetches so far. -/
structure Invariant (D : Decoder) (host : ℕ→U8) (block : FEMemoryMapBlock)
    (events : List FetchEvent) (s : FetchState) : Prop where
  same : SameBytes block host s.memory.host
  inStep : InStep D host block (s.cache block)
  offsets : (s.cache block).offsets=fetchedOffsets events
  indexes : (s.cache block).indexes.capacity=(block.size*4).toNat/4

theorem offset_addressIn (hlt : offset<block.size.toNat) :
    (addressIn block offset-block.virtualAddress).toNat=offset := by
  unfold addressIn
  bv_omega

/-- A fetch from the block that returns went through its cache. -/
theorem fetch_cached {fetched : Fetched} (hfixed : Fixed s.memory.map block offset)
    (hfetch : updateDisasmFromContext build (disassembler D) s.memory s.dummyOp
      (addressIn block offset)=.ok fetched) :
    ∃context i,(s.cache block).fetch (disassembler D) s.memory.host s.dummyOp
      (block.localAddress+offset)
        (addressIn block offset) offset=.ok (context,i,fetched.len) ∧
      fetched.memory={ s.memory with map := s.memory.map.setContext block.pointer context } ∧
      fetched.op=.cached block.pointer i := by
  obtain ⟨b,mode,hb,hmode,hpaths⟩ := updateDisasmFromContext_ok hfetch
  cases (Shadow.get_eq_ok.mp hb).2.symm.trans hfixed.owner
  rcases hpaths with ⟨hwrite,_⟩ | ⟨_,hcached⟩
  · have hreadOnly := hfixed.readOnly
    rw [Writable,(Shadow.get_eq_ok.mp hmode).2] at hreadOnly
    exact absurd hwrite hreadOnly
  · rw [offset_addressIn hfixed.lt] at hcached
    exact hcached

theorem cache_setContext (memory : Memory DisasmContext) (dummyOp : DISASM)
    (context : DisasmContext) :
    FetchState.cache ⟨{ memory with map := memory.map.setContext block.pointer context },
      dummyOp⟩ block=context := by
  simp [FetchState.cache,FEMemoryMap.setContext]

theorem offsets_fetch {context context' : DisasmContext} {disasm : Disassembler} {host : ℕ→U8}
    {dummyOp : DISASM} {reip i : ℕ} {eip : U32} {len : ℤ}
    (h : context.fetch disasm host dummyOp reip eip offset=.ok (context',i,len)) :
    context'.offsets=insert offset context.offsets ∧ context'.indexes.capacity=
      context.indexes.capacity := by
  rcases DisasmContext.fetch_ok h with ⟨_,hindex,hne,_,_,rfl⟩ | ⟨_,hdecode⟩
  · obtain ⟨hlt,hslot⟩ := Shadow.get_eq_ok.mp hindex
    have hmem : offset∈context'.offsets := by
      rw [←hslot] at hne
      exact Finset.mem_filter.mpr ⟨Finset.mem_range.mpr hlt,hne⟩
    exact ⟨(Finset.insert_eq_of_mem hmem).symm,rfl⟩
  · refine ⟨DisasmContext.offsets_decode hdecode,?_⟩
    obtain ⟨_,_,_,_,_,_,_,rfl⟩ := DisasmContext.decode_ok hdecode
    rfl

/-- One fetch from the block: it delivers the instruction and keeps the arrays in step. -/
theorem Invariant.fetch {host : ℕ→U8} {fetched : Fetched} (h : Invariant D host block events s)
    (hfixed : Fixed s.memory.map block offset) (hinside : EndsInside D s.memory.host block offset)
    (hfetch : updateDisasmFromContext build (disassembler D) s.memory s.dummyOp
      (addressIn block offset)=.ok fetched) :
    Invariant D host block (events++[.fetch offset]) ⟨fetched.memory,fetched.dummyOp⟩ ∧
      DeliversAt D host block offset fetched := by
  obtain ⟨context,i,hcached,hmemory,hop⟩ := fetch_cached hfixed hfetch
  obtain ⟨hafter,hindex,hrecord,hlen⟩ := h.inStep.fetch (h.same.decodeAt_eq hinside) hcached
  obtain ⟨hoffsets,hcapacity⟩ := offsets_fetch hcached
  have hcontext : fetched.memory.map.context block.pointer=some context := by
    rw [hmemory]
    simp [FEMemoryMap.setContext]
  have hcache : FetchState.cache ⟨fetched.memory,fetched.dummyOp⟩ block=context := by
    rw [hmemory]
    exact cache_setContext _ _ _
  refine ⟨⟨?_,?_,?_,?_⟩,context,i,hcontext,hafter,hindex,hop,?_,hlen⟩
  · rw [hmemory]
    exact h.same
  · rw [hcache]
    exact hafter
  · rw [hcache,hoffsets,h.offsets,fetchedOffsets_fetch]
  · rw [hcache,hcapacity]
    exact h.indexes
  · rw [hop]
    simp only [DisasmPointer.deref,hcontext]
    exact FEArray.index_eq_ok hrecord

theorem Invariant.card_fetchedOffsets {host : ℕ→U8} (h : Invariant D host block events s) :
    (fetchedOffsets events).card=(s.cache block).disasmed.size := by
  rw [h.inStep.holds.toSized.count,h.offsets]

theorem Invariant.mem_fetchedOffsets {host : ℕ→U8} (h : Invariant D host block events s)
    (hlt : offset<(s.cache block).indexes.capacity) :
    offset∈fetchedOffsets events ↔ (s.cache block).indexes.slot offset≠ -1 := by
  rw [←h.offsets,DisasmContext.offsets,Finset.mem_filter,Finset.mem_range]
  exact and_iff_right hlt

/-- A fetch that returns had room: it has met the offset before, or it has put a record behind the
others. -/
theorem Invariant.hasRoom {host : ℕ→U8} {fetched : Fetched} (h : Invariant D host block events s)
    (hfixed : Fixed s.memory.map block offset)
    (hfetch : updateDisasmFromContext build (disassembler D) s.memory s.dummyOp
      (addressIn block offset)=.ok fetched) : HasRoom block events offset := by
  have hsized := h.inStep.holds.toSized
  have hmost : (s.cache block).disasmed.size ≤ FEArray.mostRecords :=
    (s.cache block).disasmed.size_le.trans (FEArray.capacities_le _ hsized.records)
  obtain ⟨context,i,hcached,_⟩ := fetch_cached hfixed hfetch
  rw [HasRoom,←h.indexes]
  rcases DisasmContext.fetch_ok hcached with ⟨_,hindex,hne,_⟩ | ⟨_,hdecode⟩
  · obtain ⟨hlt,hslot⟩ := Shadow.get_eq_ok.mp hindex
    rw [←hslot] at hne
    rw [Finset.insert_eq_of_mem ((h.mem_fetchedOffsets hlt).mpr hne),h.card_fetchedOffsets]
    exact ⟨hlt,hmost⟩
  · obtain ⟨_,_,_,_,_,hlt,hgrows,_⟩ := DisasmContext.decode_ok hdecode
    have hne := (FEArray.grows_records_iff hsized.records).mp hgrows
    have hcard := Finset.card_insert_le offset (fetchedOffsets events)
    rw [h.card_fetchedOffsets] at hcard
    exact ⟨hlt,by omega⟩

/-- With room the cache answers, or it takes a new record. -/
theorem Invariant.cache_returns {host : ℕ→U8} (h : Invariant D host block events s)
    (hknown : (decodeAt D s.memory.host block offset).2≠UNKNOWN_OPCODE)
    (hroom : HasRoom block events offset) :
    ∃result,(s.cache block).fetch (disassembler D) s.memory.host s.dummyOp
      (block.localAddress+offset) (addressIn block offset) offset=.ok result := by
  rw [HasRoom,←h.indexes] at hroom
  obtain ⟨hlt,hroom⟩ := hroom
  have hindex : (s.cache block).indexes.get offset=.ok ((s.cache block).indexes.slot offset) :=
    Shadow.get_eq_ok.mpr ⟨hlt,rfl⟩
  rw [DisasmContext.fetch,hindex,ok_bind]
  split
  · next hmiss =>
    have hnew : offset∉fetchedOffsets events :=
      fun hin => (h.mem_fetchedOffsets hlt).mp hin hmiss
    rw [Finset.card_insert_of_notMem hnew,h.card_fetchedOffsets] at hroom
    have hdecodes (stale : DISASM) : (disassembler D (stale.handed (block.localAddress+offset)
        (addressIn block offset)) s.memory.host).2≠UNKNOWN_OPCODE := by
      rw [disassembler_handed]
      exact hknown
    obtain ⟨_,_,_,hdecode⟩ :=
      DisasmContext.decode_returns h.inStep.holds.toSized hlt (by omega) hdecodes
    exact ⟨_,hdecode⟩
  · next hne =>
    obtain ⟨_,len,_,hlen,_⟩ := h.inStep.holds.entries offset _ hindex hne
    rw [FEArray.index_eq_ok hlen]
    exact ⟨_,rfl⟩

/-- The fetch of such an instruction returns exactly when there is room for it. -/
theorem Invariant.returns_iff (build : Build) {host : ℕ→U8} (h : Invariant D host block events s)
    (hfetchable : Fetchable D s.memory block offset) :
    (∃fetched,updateDisasmFromContext build (disassembler D) s.memory s.dummyOp
      (addressIn block offset)=.ok fetched) ↔ HasRoom block events offset := by
  constructor
  · rintro ⟨fetched,hfetch⟩
    exact h.hasRoom hfetchable.toFixed hfetch
  · intro hroom
    have hreadOnly := hfetchable.readOnly
    rw [Writable,Bool.not_eq_true] at hreadOnly
    obtain ⟨⟨context,i,len⟩,hcached⟩ := h.cache_returns hfetchable.known hroom
    obtain ⟨fetched,hfetch,_⟩ := updateDisasmFromContext_cached build
      (Shadow.get_eq_ok.mpr ⟨hfetchable.page,hfetchable.owner⟩)
      (Shadow.get_eq_ok.mpr ⟨hfetchable.rights,rfl⟩)
      hreadOnly (by rw [offset_addressIn hfetchable.lt]; exact hcached)
    exact ⟨fetched,hfetch⟩

theorem Invariant.step {host : ℕ→U8} {event : FetchEvent} (h : Invariant D host block events s)
    (hstep : FetchStep build D block s event s') : Invariant D host block (events++[event]) s' := by
  cases event with
  | fetch offset =>
    obtain ⟨hfixed,hinside,fetched,hfetch,rfl⟩ := hstep
    exact (h.fetch hfixed hinside hfetch).1
  | elsewhere memory dummyOp =>
    obtain ⟨hcontext,hsame,rfl⟩ := hstep
    have hcache : FetchState.cache ⟨memory,dummyOp⟩ block=s.cache block := by
      simp only [FetchState.cache,hcontext]
    refine ⟨fun k hk => (hsame k hk).trans (h.same k hk),?_,?_,?_⟩
    · rw [hcache]
      exact h.inStep
    · rw [hcache,fetchedOffsets_elsewhere]
      exact h.offsets
    · rw [hcache]
      exact h.indexes

theorem invariant_of_runs (hfresh : s₀.memory.map.context block.pointer=none)
    (h : Runs (FetchStep build D block) s₀ events s) :
    Invariant D s₀.memory.host block events s := by
  refine h.history (I:=fun events s => Invariant D s₀.memory.host block events s) ?_ fun _ _ _ _ hs
    hstep => hs.step hstep
  have hcache : s₀.cache block=.create block.size := by rw [FetchState.cache,hfresh,
    Option.getD_none]
  refine ⟨fun _ _ => rfl,?_,?_,?_⟩
  · rw [hcache]
    exact inStep_create _
  · rw [hcache]
    simp [DisasmContext.offsets,DisasmContext.create,fetchedOffsets]
  · rw [hcache]
    rfl

end Runs

/-- Along every run of fetches from a block without `Write` whose bytes do not change, the arrays of
its cache are in step, and each fetch that returns, first or repeated, delivers the instruction that
was there at the start. The next fetch returns exactly as long as the records of the distinct
offsets fit. -/
theorem lock_step {D : Decoder} {build : Build} {block : FEMemoryMapBlock} {s₀ s : FetchState}
    {events : List FetchEvent} (hfresh : s₀.memory.map.context block.pointer=none)
    (h : Runs (FetchStep build D block) s₀ events s) :
    (∀context,s.memory.map.context block.pointer=some context→
      InStep D s₀.memory.host block context) ∧
      (∀offset fetched,Fixed s.memory.map block offset→EndsInside D s.memory.host block offset→
        updateDisasmFromContext build (disassembler D) s.memory s.dummyOp (addressIn block offset)=
          .ok fetched→
          DeliversAt D s₀.memory.host block offset fetched) ∧
      ∀offset,Fetchable D s.memory block offset→
        ((∃fetched,updateDisasmFromContext build (disassembler D) s.memory s.dummyOp
          (addressIn block offset)=.ok fetched ∧
          DeliversAt D s₀.memory.host block offset fetched) ↔ HasRoom block events offset) := by
  have hinv := invariant_of_runs hfresh h
  refine ⟨?_,fun offset fetched hfixed hinside hfetch => (hinv.fetch hfixed hinside hfetch).2,?_⟩
  · intro context hcontext
    have hstep := hinv.inStep
    rwa [FetchState.cache,hcontext,Option.getD_some] at hstep
  · intro offset hfetchable
    rw [←hinv.returns_iff build hfetchable]
    constructor
    · rintro ⟨fetched,hfetch,_⟩
      exact ⟨fetched,hfetch⟩
    · rintro ⟨fetched,hfetch⟩
      exact ⟨fetched,hfetch,(hinv.fetch hfetchable.toFixed hfetchable.inside hfetch).2⟩

section Overflow
variable {D : Decoder} {build : Build} {block : FEMemoryMapBlock} {s₀ s : FetchState}
  {events : List FetchEvent}
  {offset : ℕ}

theorem Fetchable.fetch {o : ℕ} {fetched : Fetched} (h : Fetchable D s.memory block o)
    (hfixed : Fixed s.memory.map block offset)
    (hfetch : updateDisasmFromContext build (disassembler D) s.memory s.dummyOp
      (addressIn block offset)=.ok fetched) :
    Fetchable D fetched.memory block o := by
  obtain ⟨context,i,_,hmemory,_⟩ := fetch_cached hfixed hfetch
  rw [hmemory]
  exact ⟨⟨⟨h.lt,h.owner⟩,h.readOnly⟩,h.page,h.rights,h.inside,h.known⟩

/-- Fetches one after the other, as long as there is room. -/
theorem runs_fetches (build : Build) {P : ℕ→Prop}
    (hfresh : s₀.memory.map.context block.pointer=none)
    (hfetchable : ∀o,P o→Fetchable D s₀.memory block o) (hsmall : ∀o,P o→ o<(block.size*4).toNat/4)
    (offsets : List ℕ) (hin : ∀o∈offsets,P o)
    (hroom : (fetchedOffsets (offsets.map .fetch)).card ≤ FEArray.mostRecords) :
    ∃s,Runs (FetchStep build D block) s₀ (offsets.map .fetch) s ∧ ∀o,P o→
    Fetchable D s.memory block o := by
  induction offsets using List.reverseRecOn with
  | nil => exact ⟨s₀,.start,hfetchable⟩
  | append_singleton offsets offset ih =>
    rw [List.map_append,List.map_singleton,fetchedOffsets_fetch] at hroom
    obtain ⟨s,hrun,hs⟩ := ih (fun o ho => hin o (by simp [ho]))
      ((Finset.card_le_card (Finset.subset_insert _ _)).trans hroom)
    have ho := hin offset (by simp)
    obtain ⟨fetched,hfetch⟩ :=
      ((invariant_of_runs hfresh hrun).returns_iff build (hs offset ho)).mpr
      ⟨hsmall offset ho,hroom⟩
    refine ⟨⟨fetched.memory,fetched.dummyOp⟩,?_,fun o ho' => (hs o ho').fetch
      (hs offset ho).toFixed hfetch⟩
    rw [List.map_append,List.map_singleton]
    exact hrun.next ⟨(hs offset ho).toFixed,(hs offset ho).inside,fetched,hfetch,rfl⟩

/-- Code of one-byte instructions in the only block of a map, on pages without `Write`. -/
def codeIn (block : FEMemoryMapBlock) : FetchState :=
  ⟨⟨.ofBlocks [(block,.none)],fun _ => 0x90⟩,default⟩

theorem map_codeIn (block : FEMemoryMapBlock) (hpos : 0<block.size.toNat)
    (hin : block.virtualAddress.toNat+block.size.toNat≤0x40000000) :
    (∀pointer,(codeIn block).memory.map.context pointer=none) ∧
      ∀offset<block.size.toNat,Fetchable byteDecoder (codeIn block).memory block offset := by
  have hplace : FEMemoryMap.Placeable block := ⟨by omega,by omega⟩
  have hfree : (FEMemoryMap.create 0x40000000 : FEMemoryMap DisasmContext).Free block := by
    rintro p ⟨_,hhigh⟩
    refine ⟨?_,rfl⟩
    show p<0x40001
    unfold FEMemoryMapBlock.pageEnd at hhigh
    omega
  have hpage (a : U32) (ha : a.toNat<0x40000000) : shadowIndex a<0x40001 := by
    unfold shadowIndex alignment
    omega
  have hlast : (block.virtualAddress+block.size-1).toNat<0x40000000 := by bv_omega
  obtain ⟨m,hmap,hsame⟩ := hplace.append_free .debug .none hfree
    (FEArray.grows_blocks (by simp [FEMemoryMap.create]))
    (hpage _ (by omega)) (hpage _ hlast)
  have hmemory : (codeIn block).memory.map=m := by
    simp only [codeIn,FEMemoryMap.ofBlocks,List.foldlM_cons,List.foldlM_nil,FEMemoryMap.map,hmap]
    rfl
  obtain ⟨_,hset⟩ := FEMemoryMap.appendMemoryBlock_ok hplace hmap
  rw [hmemory]
  refine ⟨fun pointer => ?_,fun offset hlt => ?_⟩
  · cases hcontext : m.context pointer with
    | none => rfl
    | some c => cases (FEMemoryMap.appendMemoryBlock_keeps hmap).2 pointer c hcontext
  · have haddress : (addressIn block offset).toNat=block.virtualAddress.toNat+offset := by
      unfold addressIn
      bv_omega
    have howns : block.OwnsPage (shadowIndex (addressIn block offset)) := by
      unfold FEMemoryMapBlock.OwnsPage FEMemoryMapBlock.firstPage FEMemoryMapBlock.pageEnd
        shadowIndex alignment
      omega
    have hknown : (decodeAt byteDecoder (codeIn block).memory.host block offset).2=1 := rfl
    refine ⟨⟨⟨hlt,?_⟩,?_⟩,?_,?_,⟨1,by omega,byteDecoder_determines _ _⟩,by rw [hknown]; decide⟩
    · rw [hmemory,hsame.shadow,FEMemoryMap.withBlock_slot,if_pos howns]
    · rw [Writable,hmemory,FEMemoryMap.setAccessMode_rights hset,Shadow.filled]
      simp [FEMemoryMap.withBlock,FEMemoryMap.create,FEMemoryAccessMode.none]
    · rw [hmemory,hsame.shadow]
      exact hpage _ (by omega)
    · rw [hmemory,hsame.rights]
      exact hpage _ (by omega)

theorem lock_step_code : ∃s fetched,Runs (FetchStep .debug byteDecoder codeBlock) (codeIn codeBlock)
      ([4,6,4].map .fetch) s ∧
    updateDisasmFromContext .debug (disassembler byteDecoder) s.memory s.dummyOp
      (addressIn codeBlock 6)=.ok fetched ∧
      DeliversAt byteDecoder (codeIn codeBlock).memory.host codeBlock 6 fetched := by
  obtain ⟨hfresh,hcode⟩ := map_codeIn codeBlock (by decide) (by decide)
  obtain ⟨s,hrun,hs⟩ := runs_fetches .debug (P:=fun o => o<0x2000) (hfresh _) hcode
    (fun o ho => ho) [4,6,4] (by decide) (by decide)
  obtain ⟨fetched,hfetch,hdelivers⟩ := ((lock_step (hfresh _) hrun).2.2 6 (hs 6 (by decide))).mpr
    ⟨by decide,by decide⟩
  exact ⟨s,fetched,hrun,hfetch,hdelivers⟩

def longBlock : FEMemoryMapBlock := ⟨1,0x401000,0xc01000,0x800000,0x10000,true,".text".toList⟩

/-- The fetch from one more distinct offset than records fit does not return. -/
theorem long_block_overflows : ¬∀(events : List FetchEvent) (s : FetchState),
    Runs (FetchStep .debug byteDecoder longBlock) (codeIn longBlock) events s→
      ∀offset,Fetchable byteDecoder s.memory longBlock offset→
        ∃fetched,updateDisasmFromContext .debug (disassembler byteDecoder) s.memory s.dummyOp
            (addressIn longBlock offset)=.ok fetched ∧
          DeliversAt byteDecoder (codeIn longBlock).memory.host longBlock offset fetched := by
  intro h
  have hoffsets (n : ℕ) : fetchedOffsets ((List.range n).map .fetch)=Finset.range n := by
    ext o
    simp [fetchedOffsets,FetchEvent.offset?,List.filterMap_map,Function.comp_def]
  obtain ⟨hfresh,hcode⟩ := map_codeIn longBlock (by decide) (by decide)
  obtain ⟨s,hrun,hs⟩ := runs_fetches .debug (P:=fun o => o<0x800000) (hfresh _) hcode
    (fun o ho => ho) (List.range FEArray.mostRecords)
    (fun o ho => (List.mem_range.mp ho).trans (by decide)) (by rw [hoffsets,Finset.card_range])
  have hnext := hs FEArray.mostRecords (by decide)
  obtain ⟨fetched,hfetch,_⟩ := h _ s hrun _ hnext
  obtain ⟨_,hroom⟩ := ((invariant_of_runs (hfresh _) hrun).returns_iff .debug hnext).mp
    ⟨fetched,hfetch⟩
  rw [hoffsets,Finset.card_insert_of_notMem (by simp),Finset.card_range] at hroom
  exact absurd hroom (Nat.not_succ_le_self _)

end Overflow
end FalloutEmu.LockStep
