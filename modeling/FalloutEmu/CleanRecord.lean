import FalloutEmu.LockStep

/-! # The records that fetches hand to the disassembler -/
namespace FalloutEmu.CleanRecord
open CacheTransparency (addressIn codeBlock)
open LockStep (FetchState)

/-- The record that a fetch at `eip` hands to `Disasm`, if it decodes at all. -/
def handedRecord (memory : Memory DisasmContext) (dummyOp : DISASM) (eip : U32) :
    Except Stop (Option DISASM) := do
  match ← memory.map.blockFromVirtualAddress eip with
  | none => .error .nullBlock
  | some block => do
    let mode ← memory.map.accessModeAtAddress eip
    let offset := (eip-block.virtualAddress).toNat
    let reip := block.localAddress+offset
    if mode.write then .ok (some ((default : DISASM).handed reip eip))
    else do
      let context := (memory.map.context block.pointer).getD (.create block.size)
      if (← context.indexes.get offset)= -1 then do
        let disasmed ← context.nextRecord dummyOp
        let record ← disasmed.index context.disasmed.size
        .ok (some (record.handed reip eip))
      else .ok none

theorem fetch_congr {disasm disasm' : Disassembler} {host : ℕ→U8} {dummyOp : DISASM}
    {context : DisasmContext} {reip offset : ℕ} {eip : U32}
    (h : ∀disasmed stale,context.indexes.get offset=.ok (-1)→
      context.nextRecord dummyOp=.ok disasmed→disasmed.index context.disasmed.size=.ok stale→
        disasm (stale.handed reip eip) host=disasm' (stale.handed reip eip) host) :
    context.fetch disasm host dummyOp reip eip offset=
      context.fetch disasm' host dummyOp reip eip offset := by
  unfold DisasmContext.fetch
  cases hindex : context.indexes.get offset with
  | error stop => rfl
  | ok index =>
    simp only [ok_bind]
    split
    · next hmiss =>
      subst hmiss
      unfold DisasmContext.decode
      cases hset : context.indexes.set offset (context.disasmed.size : ℤ) with
      | error stop => simp only [hset,error_bind]
      | ok indexes =>
        cases hnext : context.nextRecord dummyOp with
        | error stop => simp only [hset,ok_bind,error_bind]
        | ok disasmed =>
          cases hstale : disasmed.index context.disasmed.size with
          | error stop => simp only [hset,ok_bind,hstale,error_bind]
          | ok stale => simp only [hset,ok_bind,hstale,h disasmed stale hindex hnext hstale]
    · rfl

/-- A fetch consults the disassembler on that record only. -/
theorem updateDisasmFromContext_congr {build : Build} {disasm disasm' : Disassembler}
    {memory : Memory DisasmContext} {dummyOp : DISASM} {eip : U32}
    (h : ∀record,handedRecord memory dummyOp eip=.ok (some record)→
      disasm record memory.host=disasm' record memory.host) :
    updateDisasmFromContext build disasm memory dummyOp eip=
      updateDisasmFromContext build disasm' memory dummyOp eip := by
  unfold updateDisasmFromContext
  unfold handedRecord at h
  cases hblock : memory.map.blockFromVirtualAddress eip with
  | error stop => rfl
  | ok block? =>
    cases block? with
    | none => rfl
    | some block =>
      rw [hblock] at h
      simp only [ok_bind] at h ⊢
      cases hmode : memory.map.accessModeAtAddress eip with
      | error stop => rfl
      | ok mode =>
        rw [hmode] at h
        simp only [ok_bind] at h ⊢
        cases hwrite : mode.write with
        | true =>
          simp only [hwrite,↓reduceIte] at h ⊢
          rw [h _ rfl]
        | false =>
          simp only [hwrite,Bool.false_eq_true,↓reduceIte] at h ⊢
          rw [fetch_congr]
          intro disasmed stale hmiss hnext hstale
          apply h
          simp only [hmiss,ok_bind,hnext,hstale,↓reduceIte]

/-- All fields of the record are zero except the three that a fetch sets. -/
def Zeroed (record : DISASM) : Prop := record.handed 0 0=(default : DISASM).handed 0 0

/-- The record is all zero except for `Archi`, `EIP` and `VirtualAddr`, which are set for `eip`. -/
def Clean (memory : Memory DisasmContext) (eip : U32) (record : DISASM) : Prop :=
  ∃reip,memory.map.localAddressFromVirtualAddress eip=.ok reip ∧
    record=(default : DISASM).handed reip eip

/-- A fetch at `eip` finds no entry in a cache without a free slot. -/
def FullMiss (m : FEMemoryMap DisasmContext) (eip : U32) : Prop :=
  ∃block context,m.memoryMapBlocksShadow.slot (shadowIndex eip)=some block ∧
    (m.memoryMapRightsShadow.slot (shadowIndex eip)).write=false ∧ m.context block.pointer=
      some context ∧
    context.indexes.slot (eip-block.virtualAddress).toNat= -1 ∧
      context.disasmed.capacity ≤ context.disasmed.size

/-- A fetch, or something that leaves the caches as they are or drops some. -/
inductive FetchEvent where
  | fetch (eip : U32)
  | elsewhere (memory : Memory DisasmContext)

def FetchStep (build : Build) (disasm : Disassembler) (s : FetchState) (event : FetchEvent)
    (s' : FetchState) : Prop :=
  match event with
  | .fetch eip => ∃fetched,updateDisasmFromContext build disasm s.memory s.dummyOp eip=.ok fetched ∧
    s'=⟨fetched.memory,fetched.dummyOp⟩
  | .elsewhere memory => (∀pointer c,memory.map.context pointer=some c→
    s.memory.map.context pointer=some c) ∧
    s'={ s with memory := memory }

/-- The slots of the cache that are not in use are all zero. -/
def Tidy (context : DisasmContext) : Prop :=
  ∀j record,context.disasmed.size ≤ j→context.disasmed.p[j]?=some record→ record=default

section Caches
variable {context context' : DisasmContext} {disasm : Disassembler} {host : ℕ→U8} {dummyOp : DISASM}
  {reip offset i : ℕ} {eip : U32} {len : ℤ}

theorem tidy_create (size : U32) : Tidy (.create size) := by
  intro j record _ hrecord
  have hmem := List.mem_of_getElem? hrecord
  exact List.eq_of_mem_replicate hmem

theorem index_nextSlots_full (hfull : ¬context.disasmed.size<context.disasmed.capacity) :
    (context.nextSlots dummyOp).index context.disasmed.size=.ok dummyOp := by
  have hlast : (context.disasmed.appended dummyOp).elements[context.disasmed.size]?=
    some dummyOp := by
    rw [FEArray.elements_appended,←FEArray.length_elements,List.getElem?_concat_length]
  rw [DisasmContext.nextSlots,dif_neg hfull]
  exact FEArray.index_eq_ok hlast

/-- The slot that a decode fills: the template past the capacity, else a slot that was not in
use. -/
theorem Tidy.stale (h : Tidy context) {stale : DISASM}
    (hstale : (context.nextSlots dummyOp).index context.disasmed.size=.ok stale) :
    stale=if context.disasmed.size<context.disasmed.capacity then default else dummyOp := by
  split
  · next hfree =>
    have hlength : context.disasmed.size<context.disasmed.p.length := by
      rw [context.disasmed.length_p]
      exact hfree
    have hslot : context.disasmed.p[context.disasmed.size]?=
      some context.disasmed.p[context.disasmed.size] :=
      List.getElem?_eq_getElem hlength
    simp only [DisasmContext.nextSlots,hfree,↓reduceDIte,FEArray.index,FEArray.increment,
      hslot] at hstale
    cases hstale
    exact h _ _ (Nat.le_refl _) hslot
  · next hfull =>
    cases (index_nextSlots_full hfull).symm.trans hstale
    rfl

theorem Tidy.decode (h : Tidy context)
    (hdecode : context.decode disasm host dummyOp reip eip offset=.ok (context',i,len)) :
    Tidy context' := by
  obtain ⟨_,_,_,_,rfl,_,_,rfl⟩ := DisasmContext.decode_ok hdecode
  intro j record hj hrecord
  simp only [FEArray.store,DisasmContext.nextSlots] at hj hrecord
  split at hj
  · next hfree =>
    simp only [FEArray.increment] at hj
    rw [dif_pos hfree,List.getElem?_set_ne (by omega)] at hrecord
    exact h j record (by omega) hrecord
  · next hfull =>
    rw [FEArray.size_appended] at hj
    have hne : context.disasmed.size≠j := by omega
    rw [dif_neg hfull,List.getElem?_set_ne hne,FEArray.appended,dif_neg hfull] at hrecord
    -- behind the copied elements and the new one the grown array is zero
    simp only at hrecord
    rw [List.append_cons,List.getElem?_append_right
      (by simp [FEArray.length_elements]; omega)] at hrecord
    exact List.eq_of_mem_replicate (List.mem_of_getElem? hrecord)

theorem Tidy.fetch (h : Tidy context)
    (hfetch : context.fetch disasm host dummyOp reip eip offset=.ok (context',i,len)) :
    Tidy context' := by
  rcases DisasmContext.fetch_ok hfetch with ⟨_,_,_,_,_,rfl⟩ | ⟨_,hdecode⟩
  · exact h
  · exact h.decode hdecode

end Caches

section Runs
variable {build : Build} {disasm : Disassembler} {s s' : FetchState}

def AllTidy (m : FEMemoryMap DisasmContext) : Prop :=
  ∀pointer context,m.context pointer=some context→Tidy context

theorem AllTidy.getD {m : FEMemoryMap DisasmContext} (h : AllTidy m) (pointer : ℕ) (size : U32) :
    Tidy ((m.context pointer).getD (.create size)) := by
  cases hc : m.context pointer with
  | none => exact tidy_create size
  | some context => exact h pointer context hc

theorem AllTidy.step {event : FetchEvent} (h : AllTidy s.memory.map)
    (hstep : FetchStep build disasm s event s') :
    AllTidy s'.memory.map := by
  cases event with
  | fetch eip =>
    obtain ⟨fetched,hfetch,rfl⟩ := hstep
    obtain ⟨block,_,_,_,⟨_,_,hmemory,_⟩ | ⟨_,context,i,hcached,hmemory,_⟩⟩ :=
      updateDisasmFromContext_ok hfetch
    · simp only [hmemory]
      exact h
    · have hnext := (h.getD block.pointer block.size).fetch hcached
      intro pointer c hc
      simp only [hmemory,FEMemoryMap.setContext] at hc
      split at hc
      · cases hc
        exact hnext
      · exact h pointer c hc
  | elsewhere memory =>
    obtain ⟨hkeeps,rfl⟩ := hstep
    exact fun pointer c hc => h pointer c (hkeeps pointer c hc)

theorem zeroed_iff {record : DISASM} {reip : ℕ} {eip : U32} :
    record.handed reip eip=(default : DISASM).handed reip eip ↔ Zeroed record := by
  simp only [Zeroed,DISASM.handed,DISASM.mk.injEq]

/-- What a fetch hands out is clean exactly when its template is all zero. -/
theorem clean_handed_iff {memory : Memory DisasmContext} {eip : U32} {block : FEMemoryMapBlock}
    (hblock : memory.map.blockFromVirtualAddress eip=.ok (some block)) (template : DISASM) :
    Clean memory eip (template.handed (block.localAddress+(eip-block.virtualAddress).toNat) eip) ↔
    Zeroed template := by
  have hget : memory.map.memoryMapBlocksShadow.get (shadowIndex eip)=.ok (some block) := hblock
  have hlocal : memory.map.localAddressFromVirtualAddress eip=
      .ok (block.localAddress+(eip-block.virtualAddress).toNat) := by
    rw [FEMemoryMap.localAddressFromVirtualAddress,hget,ok_bind]
  constructor
  · rintro ⟨reip,hreip,hsame⟩
    cases hlocal.symm.trans hreip
    exact zeroed_iff.mp hsame
  · intro hzero
    exact ⟨_,hlocal,zeroed_iff.mpr hzero⟩

/-- On a page with `Write` no fetch consults a cache. -/
theorem not_fullMiss {m : FEMemoryMap DisasmContext} {eip : U32}
    (hwrite : (m.memoryMapRightsShadow.slot (shadowIndex eip)).write=true) : ¬FullMiss m eip := by
  rintro ⟨_,_,_,hreadOnly,_⟩
  rw [hwrite] at hreadOnly
  cases hreadOnly

/-- A fetch that finds no entry misses in a full cache, or there is a free slot. -/
theorem fullMiss_iff {m : FEMemoryMap DisasmContext} {eip : U32} {block : FEMemoryMapBlock}
    (howner : m.memoryMapBlocksShadow.slot (shadowIndex eip)=some block)
    (hwrite : (m.memoryMapRightsShadow.slot (shadowIndex eip)).write=false)
    (hmiss : ((m.context block.pointer).getD (.create block.size)).indexes.get
      (eip-block.virtualAddress).toNat=
      .ok (-1)) :
    FullMiss m eip ↔ ¬((m.context block.pointer).getD (.create block.size)).disasmed.size<
      ((m.context block.pointer).getD (.create block.size)).disasmed.capacity := by
  constructor
  · rintro ⟨b,context,hb,_,hcontext,_,hfull⟩
    cases howner.symm.trans hb
    rw [hcontext]
    exact Nat.not_lt_of_le hfull
  · intro hfull
    cases hcontext : m.context block.pointer with
    | none =>
      -- a new cache has free slots
      rw [hcontext] at hfull
      have hfree : (DisasmContext.create block.size).disasmed.size<
          (DisasmContext.create block.size).disasmed.capacity := by
        show 0<(FEArray.create 512 : FEArray DISASM).capacity
        rw [FEArray.capacity_create]
        decide
      exact absurd hfree hfull
    | some context =>
      rw [hcontext] at hfull hmiss
      exact ⟨block,context,howner,hwrite,hcontext,(Shadow.get_eq_ok.mp hmiss).2,
        Nat.le_of_not_lt hfull⟩

/-- The record of a fetch is clean unless it is a copy of a static record that is not. -/
theorem clean_iff {dummyOp record : DISASM} {eip : U32} {memory : Memory DisasmContext}
    (h : AllTidy memory.map) (hhanded : handedRecord memory dummyOp eip=.ok (some record)) :
    Clean memory eip record ↔ (FullMiss memory.map eip→Zeroed dummyOp) := by
  obtain ⟨block?,hblock,hhanded⟩ := bind_eq_ok.mp hhanded
  cases block? with
  | none => cases hhanded
  | some block =>
    obtain ⟨mode,hmode,hhanded⟩ := bind_eq_ok.mp hhanded
    have hclean := clean_handed_iff hblock
    have howner := (Shadow.get_eq_ok.mp hblock).2
    have hrights := (Shadow.get_eq_ok.mp hmode).2
    subst hrights
    simp only at hhanded
    split at hhanded
    · next hwrite =>
      cases hhanded
      exact iff_of_true ((hclean default).mpr rfl) fun hmissed => absurd hmissed
        (not_fullMiss hwrite)
    · next hwrite =>
      obtain ⟨index,hindex,hhanded⟩ := bind_eq_ok.mp hhanded
      split at hhanded
      · next hmiss =>
        obtain ⟨disasmed,hnext,hhanded⟩ := bind_eq_ok.mp hhanded
        obtain ⟨stale,hstale,hhanded⟩ := bind_eq_ok.mp hhanded
        cases hhanded
        obtain ⟨_,rfl⟩ := DisasmContext.nextRecord_eq_ok.mp hnext
        rw [hmiss] at hindex
        have hmissed := fullMiss_iff howner (Bool.not_eq_true _ ▸ hwrite) hindex
        rw [hclean,(h.getD block.pointer block.size).stale hstale,hmissed]
        split
        · next hfree => exact iff_of_true rfl fun hfull => absurd hfree hfull
        · next hfull => exact ⟨fun hzero _ => hzero,fun hzero => hzero hfull⟩
      · cases hhanded

end Runs

/-- In every run of fetches the next one consults the disassembler on its record only, and this
record is clean exactly when it is not the copy, past the capacity of a cache, of a static record
that an uncached decode has left dirty. -/
theorem clean_record_iff {build : Build} {disasm : Disassembler} {s₀ s : FetchState}
    {events : List FetchEvent} (hfresh : ∀pointer,s₀.memory.map.context pointer=none)
    (h : Runs (FetchStep build disasm) s₀ events s) (eip : U32) :
    (∀disasm' : Disassembler,(∀record,handedRecord s.memory s.dummyOp eip=.ok (some record)→
        disasm record s.memory.host=disasm' record s.memory.host)→
      updateDisasmFromContext build disasm s.memory s.dummyOp eip=
        updateDisasmFromContext build disasm' s.memory s.dummyOp eip) ∧
    ∀record,handedRecord s.memory s.dummyOp eip=.ok (some record)→
      (Clean s.memory eip record ↔ (FullMiss s.memory.map eip→Zeroed s.dummyOp)) := by
  have htidy : AllTidy s.memory.map := by
    refine h.invariant (I:=fun s => AllTidy s.memory.map) ?_ fun _ _ _ hs hstep => hs.step hstep
    intro pointer context hc
    rw [hfresh] at hc
    cases hc
  exact ⟨fun _ => updateDisasmFromContext_congr,fun _ => clean_iff htidy⟩

section Overflow
set_option maxRecDepth 8000

def nopDisassembler : Disassembler := fun record _ =>
  ({ record with Instruction := { (default : INSTRTYPE) with Opcode := 0x90 } },1)

def dataBlock : FEMemoryMapBlock := ⟨1,0x400000,0x402000,0x2000,0x10000,true,".data".toList⟩

def startMap : FEMemoryMap DisasmContext := .ofBlocks [(dataBlock,.readWrite),(codeBlock,.none)]

def startState : FetchState := ⟨⟨startMap,fun _ => 0x90⟩,default⟩

/-- After an uncached fetch and two from one offset of the code, the record for the next offset is
clean. -/
theorem clean_record_mixed : ∃s record,
    Runs (FetchStep .debug nopDisassembler) startState [.fetch 0x400000,.fetch 0x402000,
      .fetch 0x402000] s ∧
    handedRecord s.memory s.dummyOp 0x402004=.ok (some record) ∧ ¬Zeroed s.dummyOp ∧
    Clean s.memory 0x402004 record ∧
    updateDisasmFromContext .debug nopDisassembler s.memory s.dummyOp 0x402004=
      updateDisasmFromContext .debug (fun _ => nopDisassembler record) s.memory s.dummyOp
        0x402004 := by
  have huncached : Runs (FetchStep .debug nopDisassembler) startState [.fetch 0x400000] ⟨_,_⟩ :=
    .next .start ⟨_,rfl,rfl⟩
  have hcached : Runs (FetchStep .debug nopDisassembler) startState [.fetch 0x400000,
    .fetch 0x402000] ⟨_,_⟩ :=
    .next huncached ⟨_,rfl,rfl⟩
  have hrepeated : Runs (FetchStep .debug nopDisassembler) startState
      [.fetch 0x400000,.fetch 0x402000,.fetch 0x402000] ⟨_,_⟩ := .next hcached ⟨_,rfl,rfl⟩
  obtain ⟨hcongr,hclean⟩ := clean_record_iff (fun _ => rfl) hrepeated 0x402004
  refine ⟨_,_,hrepeated,rfl,by unfold Zeroed; decide,(hclean _ rfl).mpr ?_,hcongr _ ?_⟩
  · rintro ⟨block,context,hblock,_,hcontext,_,hfull⟩
    cases hblock
    cases hcontext
    exact absurd hfull (by decide)
  · intro record hrecord
    cases hrecord
    rfl

/-- The static record is dirty and the first `n` offsets of the code are cached. -/
structure Ready (s : FetchState) (n : ℕ) : Prop where
  shadow : s.memory.map.memoryMapBlocksShadow=startMap.memoryMapBlocksShadow
  rights : s.memory.map.memoryMapRightsShadow=startMap.memoryMapRightsShadow
  dirty : ¬Zeroed s.dummyOp
  sized : ((s.memory.map.context 2).getD (.create 0x2000)).Sized
  size : ((s.memory.map.context 2).getD (.create 0x2000)).disasmed.size=n
  capacity : ((s.memory.map.context 2).getD (.create 0x2000)).disasmed.capacity=512
  offsets : ((s.memory.map.context 2).getD (.create 0x2000)).indexes.capacity=0x2000
  missing : ∀o,n ≤ o→((s.memory.map.context 2).getD (.create 0x2000)).indexes.slot o= -1

theorem toNat_addressIn {n : ℕ} (hn : n<0x1000) : (addressIn codeBlock n).toNat=0x402000+n := by
  have hbase : codeBlock.virtualAddress=0x402000 := rfl
  rw [addressIn,hbase]
  bv_omega

theorem offset_addressIn {n : ℕ} (hn : n<0x1000) :
    (addressIn codeBlock n-codeBlock.virtualAddress).toNat=n := by
  have hnat := toNat_addressIn hn
  have hbase : codeBlock.virtualAddress=0x402000 := rfl
  rw [hbase]
  bv_omega

/-- What the next offset of the code finds: its block, no `Write`, no entry. -/
theorem Ready.lookups {s : FetchState} {n : ℕ} (h : Ready s n) (hn : n<0x1000) :
    s.memory.map.blockFromVirtualAddress (addressIn codeBlock n)=.ok (some codeBlock) ∧
      s.memory.map.accessModeAtAddress (addressIn codeBlock n)=.ok .none ∧
      ((s.memory.map.context 2).getD (.create 0x2000)).indexes.get n=.ok (-1) := by
  have hnat := toNat_addressIn hn
  have hpage : shadowIndex (addressIn codeBlock n)=0x402 := by
    unfold shadowIndex alignment
    omega
  refine ⟨?_,?_,?_⟩
  · rw [FEMemoryMap.blockFromVirtualAddress,h.shadow,hpage]
    rfl
  · rw [FEMemoryMap.accessModeAtAddress,h.rights,hpage]
    rfl
  · exact Shadow.get_eq_ok.mpr ⟨by rw [h.offsets]; omega,(h.missing n (Nat.le_refl n)).symm ▸ rfl⟩

theorem Ready.fetch {s : FetchState} {n : ℕ} (h : Ready s n) (hn : n<512) :
    ∃s',FetchStep .debug nopDisassembler s (.fetch (addressIn codeBlock n)) s' ∧
    Ready s' (n+1) := by
  obtain ⟨hblock,hmode,hget⟩ := h.lookups (by omega)
  have hoffset := offset_addressIn (n:=n) (by omega)
  obtain ⟨context,i,len,hdecode⟩ : ∃context i len,
      ((s.memory.map.context 2).getD (.create 0x2000)).decode nopDisassembler
        s.memory.host s.dummyOp
        (codeBlock.localAddress+n) (addressIn codeBlock n) n=.ok (context,i,len) :=
    DisasmContext.decode_returns h.sized (by rw [h.offsets]; omega)
      (by rw [h.size,FEArray.mostRecords]; omega)
      (fun _ => by simp [nopDisassembler,UNKNOWN_OPCODE])
  have hfetch : ((s.memory.map.context codeBlock.pointer).getD (.create codeBlock.size)).fetch
    nopDisassembler
      s.memory.host s.dummyOp (codeBlock.localAddress+(addressIn codeBlock
        n-codeBlock.virtualAddress).toNat)
      (addressIn codeBlock n) (addressIn codeBlock n-codeBlock.virtualAddress).toNat=
        .ok (context,i,len) := by
    rw [hoffset]
    show DisasmContext.fetch nopDisassembler s.memory.host s.dummyOp
      ((s.memory.map.context 2).getD (.create 0x2000)) _ _ _=_
    rw [DisasmContext.fetch,hget,ok_bind,if_pos rfl]
    exact hdecode
  obtain ⟨fetched,hupdate,hmemory,hdummy⟩ :=
    updateDisasmFromContext_cached .debug hblock hmode rfl hfetch
  refine ⟨_,⟨fetched,hupdate,rfl⟩,?_⟩
  have hcontext : (fetched.memory.map.context 2).getD (.create 0x2000)=context := by
    rw [hmemory]
    rfl
  obtain ⟨_,_,_,_,hi,_,_,hnext⟩ := DisasmContext.decode_ok hdecode
  have hfree : ((s.memory.map.context 2).getD (.create 0x2000)).disasmed.size<
      ((s.memory.map.context 2).getD (.create 0x2000)).disasmed.capacity := by
    rw [h.size,h.capacity]
    exact hn
  have hsize := (DisasmContext.decode_size hdecode).2
  have hsized := h.sized.decode hget hdecode
  rw [DisasmContext.nextSlots,dif_pos hfree] at hnext
  refine ⟨?_,?_,?_,?_,?_,?_,?_,?_⟩
  · rw [hmemory]
    exact h.shadow
  · rw [hmemory]
    exact h.rights
  · rw [hdummy]
    exact h.dirty
  · rw [hcontext]
    exact hsized
  · rw [hcontext,hsize,h.size]
  · rw [hcontext,hnext]
    exact h.capacity
  · rw [hcontext,hnext]
    exact h.offsets
  · intro o ho
    rw [hcontext,hnext]
    simp only
    rw [if_neg (by omega)]
    exact h.missing o (by omega)

theorem fills (n : ℕ) (hn : n ≤ 512) : ∃events s,
    Runs (FetchStep .debug nopDisassembler) startState events s ∧ Ready s n := by
  induction n with
  | zero =>
    refine ⟨[.fetch 0x400000],⟨_,_⟩,.next .start ⟨_,rfl,rfl⟩,?_⟩
    refine ⟨rfl,rfl,?_,DisasmContext.sized_create _,rfl,rfl,rfl,fun _ _ => rfl⟩
    unfold Zeroed
    decide
  | succ n ih =>
    obtain ⟨events,s,hrun,hready⟩ := ih (by omega)
    obtain ⟨s',hstep,hnext⟩ := hready.fetch (by omega)
    exact ⟨_,s',hrun.next hstep,hnext⟩

/-- The next decode of a full cache starts from a copy of the static record. -/
theorem Ready.handed {s : FetchState} {n : ℕ} (h : Ready s n) (hfilled : 512 ≤ n) (hn : n<0x1000) :
    handedRecord s.memory s.dummyOp (addressIn codeBlock n)=
      .ok (some (s.dummyOp.handed (codeBlock.localAddress+n) (addressIn codeBlock n))) := by
  obtain ⟨hblock,hmode,hget⟩ := h.lookups hn
  have hoffset := offset_addressIn hn
  have hfull : ¬((s.memory.map.context 2).getD (.create 0x2000)).disasmed.size<
      ((s.memory.map.context 2).getD (.create 0x2000)).disasmed.capacity := by
    rw [h.size,h.capacity]
    exact Nat.not_lt_of_le hfilled
  have hcontext : (s.memory.map.context codeBlock.pointer).getD (.create codeBlock.size)=
      (s.memory.map.context 2).getD (.create 0x2000) := rfl
  have hnext := h.sized.nextRecord (by rw [h.size,FEArray.mostRecords]; omega) s.dummyOp
  have hreadOnly : FEMemoryAccessMode.none.write=false := rfl
  simp only [handedRecord,hblock,hmode,ok_bind,hoffset,hcontext,hget,↓reduceIte,hnext,
    index_nextSlots_full hfull,hreadOnly,Bool.false_eq_true]

/-- The first decode past the capacity gets a copy of what an uncached fetch left in the static
record. -/
theorem full_cache_dirty : ¬∀(events : List FetchEvent) (s : FetchState),
    Runs (FetchStep .debug nopDisassembler) startState events s→
      ∀eip record,handedRecord s.memory s.dummyOp eip=.ok (some record)→
      Clean s.memory eip record := by
  intro h
  obtain ⟨events,s,hrun,hready⟩ := fills 512 (Nat.le_refl _)
  obtain ⟨reip,_,hsame⟩ := h events s hrun _ _ (hready.handed (Nat.le_refl 512) (by decide))
  have heip : (s.dummyOp.handed (codeBlock.localAddress+512) (addressIn codeBlock 512)).EIP=
    reip := by
    rw [hsame]
    rfl
  exact hready.dirty (zeroed_iff.mp (hsame.trans (by rw [←heip]; rfl)))

end Overflow
end FalloutEmu.CleanRecord
