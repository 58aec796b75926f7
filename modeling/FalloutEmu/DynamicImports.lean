import FalloutEmu.ControlInstructions
import FalloutEmu.Runs
import FalloutEmu.StaticBinding

/-! # Dynamic binding: loaded libraries, and calls of the addresses that are handed out -/
namespace FalloutEmu.DynamicImports
open FEImportsProxy (anyContains blockContains)
open FEMemoryMap (mallocBlock)
open Grouping (Enumeration)
open StaticImports (ImportImage ImportedDLL Allocation Gigabyte Order initWithMemoryMap importsSize
  linkAt linkAt_zero
  linkAt_succ contains_link)
variable {κ : Type}

structure Imports (κ : Type) where
  map : FEMemoryMap κ
  proxy : FEImportsProxy

def dynamicLinkTag (dllName : NSString) : NSString :=
  ".dynamic-link\x7b".toList++dllName++"\x7d".toList

/-- `cStringUsingEncoding:` for the 7-bit encoding, `NULL` for other characters. -/
def cStringUsingEncoding (s : NSString) : Option (List Char) :=
  if s.all fun c => c.toNat<128 then some (s.takeWhile fun c => c.toNat≠0) else none

def linkFunctions (dllName : NSString) :
    List NSString→U32→Dictionary U32 ProxyCoordinates→Dictionary U32 ProxyCoordinates
  | [],_,table => table
  | funcName::funcNames,mapAddress,table =>
    linkFunctions dllName funcNames (mapAddress+4) (table.insert mapAddress ⟨dllName,funcName⟩)

def loadLibraryNamed (s : Imports κ) (dllName : NSString) (host : HostAllocation) :
    Except Stop (Imports κ) :=
  match s.proxy.proxies.lookup dllName with
  | none => .error .exception
  | some funcNames =>
    match cStringUsingEncoding (dynamicLinkTag dllName) with
    | none => .error .undefinedBehaviour
    | some tag => do
      let result ← s.map.malloc .debug (.ofNat 32 funcNames.length*4) .none tag host
      let block := result.map.blockWithTag tag
      .ok ⟨result.map,{ s.proxy with
        addrToFunction := linkFunctions dllName funcNames result.address s.proxy.addrToFunction
        dynamicImportMemoryBlocks := s.proxy.dynamicImportMemoryBlocks++[block] }⟩

/-- `addressOfFunction:fromDLL:`, for an order in which the table is enumerated. -/
def addressOfFunction (proxy : FEImportsProxy) (order : Enumeration U32 ProxyCoordinates)
    (funcName dllName : NSString) : Except Stop U32 :=
  match (order.list proxy.addrToFunction).find? fun entry =>
      entry.2.dllName=dllName && entry.2.funcName=funcName with
  | some entry => .ok entry.1
  | none => .error .exception

/-- A call of `loadLibraryNamed:` and what the host's `malloc` answers in it. -/
structure Load where
  dllName : NSString
  host : HostAllocation

def LoadStep (s : Imports κ) (load : Load) (s' : Imports κ) : Prop :=
  loadLibraryNamed s load.dllName load.host=.ok s'

/-- No block has the library's tag yet, the tag fits into a block, and the links fit into the
map. -/
structure FirstLoad (s : Imports κ) (load : Load) : Prop where
  new : ∀tag,cStringUsingEncoding (dynamicLinkTag load.dllName)=some tag → s.map.blockWithTag tag=
    none ∧ tag.length≤256
  size : ∀funcNames,s.proxy.proxies.lookup load.dllName=some funcNames →
    4*funcNames.length≤0x40000000

def importBlocks (proxy : FEImportsProxy) : List (Option FEMemoryMapBlock) :=
  proxy.loadedStaticImportsMemoryBlock::proxy.dynamicImportMemoryBlocks

/-- The table and the list of blocks are in step: every address in the table lies in a block of the
list. -/
structure Registered (s : Imports κ) : Prop where
  gigabyte : Gigabyte s.map
  blocks : ∀block∈importBlocks s.proxy,block.isSome
  table : ∀v coordinates,s.proxy.addrToFunction.lookup v=some coordinates →
    ∃block,some block∈importBlocks s.proxy ∧ block.containsVirtualAddress v=true

/-! ## A load -/

theorem lookup_linkFunctions {dllName : NSString} {funcNames : List NSString} {mapAddress v : U32}
    {table : Dictionary U32 ProxyCoordinates} {coordinates : ProxyCoordinates}
    (h : (linkFunctions dllName funcNames mapAddress table).lookup v=some coordinates) :
    (∃k<funcNames.length,v=linkAt mapAddress k) ∨ table.lookup v=some coordinates := by
  induction funcNames generalizing mapAddress table with
  | nil => exact .inr h
  | cons funcName funcNames ih =>
    rcases ih h with ⟨k,hk,hv⟩ | hold
    · exact .inl ⟨k+1,Nat.succ_lt_succ hk,hv.trans (linkAt_succ _ _)⟩
    · by_cases hv : v=mapAddress
      · exact .inl ⟨0,Nat.succ_pos _,hv.trans (linkAt_zero _).symm⟩
      · rw [AList.lookup_insert_ne hv] at hold
        exact .inr hold

theorem toNat_size {n : ℕ} (h : 4*n≤0x40000000) : ((.ofNat 32 n : U32)*4).toNat=4*n := by
  rw [BitVec.toNat_mul,BitVec.toNat_ofNat,show (4 : U32).toNat=4 from rfl,Nat.mod_mul_mod]
  omega

/-- The first load of a library keeps the table and the blocks in step. -/
theorem Registered.load {s s' : Imports κ} {load : Load} (h : Registered s)
    (hstep : LoadStep s load s') (hfirst : FirstLoad s load) : Registered s' := by
  unfold LoadStep loadLibraryNamed at hstep
  cases hproxy : s.proxy.proxies.lookup load.dllName with
  | none =>
    rw [hproxy] at hstep
    cases hstep
  | some funcNames =>
    cases hstring : cStringUsingEncoding (dynamicLinkTag load.dllName) with
    | none =>
      rw [hproxy,hstring] at hstep
      cases hstep
    | some tag =>
      rw [hproxy,hstring] at hstep
      obtain ⟨result,hmalloc,hstate⟩ := bind_eq_ok.mp hstep
      obtain ⟨realAddress,newBlock,hhost,_⟩ := FEMemoryMap.malloc_ok hmalloc
      rw [hhost] at hmalloc
      obtain ⟨hnew,hlength⟩ := hfirst.new tag hstring
      have hcount := hfirst.size funcNames hproxy
      have hsize := toNat_size hcount
      obtain ⟨hgigabyte,hplace,hmem⟩ := h.gigabyte.malloc (hsize.symm ▸ hcount) hmalloc
      let block := mallocBlock (.ofNat 32 funcNames.length*4) tag realAddress newBlock
        result.address
      have htag : block.tag=tag := List.take_of_length_le hlength
      have hfind : result.map.blockWithTag block.tag=some block := by
        apply StaticImports.blockWithTag_malloc hmem
        intro b hb heq
        exact List.find?_eq_none.mp hnew b hb (decide_eq_true (heq.trans htag))
      rw [htag] at hfind
      cases hstate
      have hblocks : importBlocks { s.proxy with
          addrToFunction := linkFunctions load.dllName funcNames result.address
            s.proxy.addrToFunction
          dynamicImportMemoryBlocks :=
            s.proxy.dynamicImportMemoryBlocks++[result.map.blockWithTag tag] }=
          importBlocks s.proxy++[some block] := by
        rw [hfind]
        rfl
      refine ⟨hgigabyte,?_,?_⟩
      · dsimp only
        rw [hblocks]
        intro b hb
        rcases List.mem_append.mp hb with hold | hblock
        · exact h.blocks b hold
        · rw [List.mem_singleton.mp hblock]
          rfl
      · intro v coordinates hlookup
        dsimp only
        rw [hblocks]
        rcases lookup_linkFunctions hlookup with ⟨k,hk,rfl⟩ | hold
        · refine ⟨block,List.mem_append_right _ (List.mem_singleton.mpr rfl),?_⟩
          have hhigh := hplace.high
          rw [hsize] at hhigh
          exact contains_link hsize hhigh hk
        · obtain ⟨b,hb,hcontains⟩ := h.table v coordinates hold
          exact ⟨b,List.mem_append_left _ hb,hcontains⟩

/-! ## A call -/

theorem anyContains_true {address : U32} {blocks : List (Option FEMemoryMapBlock)}
    (hsome : ∀block∈blocks,block.isSome) {block : FEMemoryMapBlock} (hmem : some block∈blocks)
    (hcontains : block.containsVirtualAddress address=true) :
    anyContains address blocks=.ok true := by
  induction blocks with
  | nil => cases hmem
  | cons first rest ih =>
    obtain ⟨b,rfl⟩ := Option.isSome_iff_exists.mp (hsome first List.mem_cons_self)
    rw [anyContains,blockContains,ok_bind]
    cases hb : b.containsVirtualAddress address with
    | true => rfl
    | false =>
      rw [if_neg Bool.false_ne_true]
      rcases List.mem_cons.mp hmem with heq | hrest
      · cases heq
        rw [hb] at hcontains
        cases hcontains
      · exact ih (fun b hb => hsome b (List.mem_cons_of_mem _ hb)) hrest

/-- A call of the address runs the function of the library; only one that the library's proxy does
not implement ends in the exception that names it. -/
structure Dispatches (proxy : FEImportsProxy) (address : U32)
    (funcName dllName : NSString) : Prop where
  within : proxy.isAddressWithinLoadedImports address=.ok true
  target : proxy.functionAtAddress address=
    if funcName∈(proxy.proxies.lookup dllName).getD [] then .ok (some ⟨dllName,funcName⟩)
      else .error .exception

theorem Registered.dispatches {s : Imports κ} (h : Registered s)
    {order : Enumeration U32 ProxyCoordinates} {funcName dllName : NSString} {address : U32}
    (hfind : addressOfFunction s.proxy order funcName dllName=.ok address) :
    Dispatches s.proxy address funcName dllName := by
  have hlookup : s.proxy.addrToFunction.lookup address=some ⟨dllName,funcName⟩ := by
    unfold addressOfFunction at hfind
    split at hfind
    case h_1 entry hentry =>
      cases hfind
      have hmem := (order.perm _).mem_iff.mp (List.mem_of_find?_eq_some hentry)
      have hcoordinates : entry.2=⟨dllName,funcName⟩ := by
        have hboth := List.find?_some hentry
        simp only [Bool.and_eq_true,decide_eq_true_eq] at hboth
        rw [←hboth.1,←hboth.2]
      rw [←hcoordinates]
      exact AList.mem_lookup_iff.mpr hmem
    case h_2 => cases hfind
  obtain ⟨block,hblock,hcontains⟩ := h.table address _ hlookup
  have hwithin : s.proxy.isAddressWithinLoadedImports address=.ok true :=
    anyContains_true h.blocks hblock hcontains
  refine ⟨hwithin,?_⟩
  rw [FEImportsProxy.functionAtAddress,hwithin,ok_bind,if_pos rfl,hlookup]

/-- `instruction_ff` does not jump to the address that it calls, where the imports own it. -/
theorem instructionFF_calls {F : Type} {op : DISASM} {env : Environment F} {t t₁ t₂ : FEProcess F}
    {proxy : FEImportsProxy} {address : U32} (hcall : op.Reserved_.REGOPCODE=2)
    (harg : Emulator.loadArg1 op env t=.ok (address,t₁))
    (hpush : (do Emulator.push32 (← Emulator.nextEIP) : Emulator F Unit) env t₁=.ok ((),t₂))
    (hproxy : t₂.importsProxy=some proxy)
    (hwithin : proxy.isAddressWithinLoadedImports address=.ok true) :
    Emulator.instructionFF op env t=Emulator.callImport proxy address env t₂ := by
  rw [Emulator.instructionFF,Exec.bind_run harg]
  simp only [hcall]
  rw [if_pos (by decide),if_pos (by decide),Exec.bind_run hpush,Exec.bind_run (Exec.get_run env t₂),
    hproxy]
  simp only [hwithin]
  rw [Exec.bind_run (Exec.ofExcept_ok true env t₂),if_pos rfl]

/-! ## A run -/

section
variable {memory memory' : Memory κ} {flat : ℕ→U8} {idataAddress imageBase : U32}
  {ds : List ImportedDLL}
  {realAddress newBlock : ℕ} {result : FEMemoryMap.MallocResult κ} {order : Order}
    {proxy : FEImportsProxy}

/-- After the initialiser, with any proxies registered. -/
theorem registered_init (h : ImportImage memory flat idataAddress imageBase ds)
    (hmalloc : Allocation memory (importsSize ds) realAddress newBlock result)
    (hinit : ∃bound,∀fuel,bound<fuel → initWithMemoryMap fuel memory idataAddress imageBase
      ⟨some realAddress,some newBlock⟩ order=.ok (memory',proxy)) (proxies :
      Dictionary NSString (List NSString)) :
    Registered ⟨memory'.map,{ proxy with proxies := proxies }⟩ := by
  obtain ⟨binding,flat₁,flat',ls,hrun,hperm,hbound,_,_,hroom⟩ :=
    StaticImports.init_run h hmalloc order
  obtain ⟨bound,hinit⟩ := hinit
  have hboth := (hinit _ (Nat.lt_succ_of_le (Nat.le_max_left _ _))).symm.trans
    (hrun _ (Nat.lt_succ_of_le (Nat.le_max_right bound _)))
  cases hboth
  obtain ⟨hsize,hcount⟩ := h.toNat_importsSize
  have hlength : ls.length=StaticImports.importCount ds :=
    hperm.length_eq.trans (StaticImports.length_allSlots imageBase ds)
  have hgigabyte : Gigabyte memory.map := ⟨h.holds.wellFormed,h.size,h.inside⟩
  refine ⟨?_,?_,?_⟩
  · dsimp only
    rw [hbound.map]
    exact (hgigabyte.malloc (hsize.symm ▸ hcount) hmalloc.run).1
  · intro block hblock
    rw [List.mem_singleton.mp hblock]
    rfl
  · intro v coordinates hlookup
    refine ⟨_,List.mem_cons_self,?_⟩
    by_cases hv : ∃k<ls.length,v=linkAt result.address k
    · obtain ⟨k,hk,rfl⟩ := hv
      exact contains_link hsize hroom (hlength ▸ hk)
    · dsimp only at hlookup
      rw [hbound.others v (by simpa using hv)] at hlookup
      cases hlookup

/-- After any loads of distinct libraries, an address that `addressOfFunction:fromDLL:` returns lies
within the loaded imports and leads to the function, however the table is enumerated, and a guest's
call of it runs the import. -/
theorem loaded_functions_dispatch (h : ImportImage memory flat idataAddress imageBase ds)
    (hmalloc : Allocation memory (importsSize ds) realAddress newBlock result)
    (hinit : ∃bound,∀fuel,bound<fuel → initWithMemoryMap fuel memory idataAddress imageBase
      ⟨some realAddress,some newBlock⟩ order=.ok (memory',proxy))
      {proxies : Dictionary NSString (List NSString)}
    {loads : List Load} {s : Imports κ}
    (hrun : Runs (fun s load s' => LoadStep s load s' ∧ FirstLoad s load)
      ⟨memory'.map,{ proxy with proxies := proxies }⟩ loads s)
    {enumeration : Enumeration U32 ProxyCoordinates} {funcName dllName : NSString} {address : U32}
    (hfind : addressOfFunction s.proxy enumeration funcName dllName=.ok address) :
    Dispatches s.proxy address funcName dllName ∧
      ∀(F : Type) (op : DISASM) (env : Environment F) (t t₁ t₂ : FEProcess F),
        op.Reserved_.REGOPCODE=2 →
        Emulator.loadArg1 op env t=.ok (address,t₁) →
        (do Emulator.push32 (← Emulator.nextEIP) : Emulator F Unit) env t₁=.ok ((),t₂) →
        t₂.importsProxy=some s.proxy →
        Emulator.instructionFF op env t=Emulator.callImport s.proxy address env t₂ := by
  have hregistered : Registered s :=
    hrun.invariant (registered_init h hmalloc hinit proxies) fun _ _ _ hs hstep =>
      hs.load hstep.1 hstep.2
  have hdispatches := hregistered.dispatches hfind
  refine ⟨hdispatches,?_⟩
  intro F op env t t₁ t₂ hcall harg hpush hproxy
  exact instructionFF_calls hcall harg hpush hproxy hdispatches.within

end

/-! ## Two libraries, and one of them loaded again -/

theorem once_eq_ok {α : Type} {x : Except Stop α} {a : α}
    (h : StaticImports.once x=.ok a) : x=.ok a := by
  cases x with
  | ok b => exact congrArg _ (Except.ok.inj h)
  | error e => cases h

def k32 : NSString := "k32.dll".toList

def u32 : NSString := "u32.dll".toList

/-- The proxies of the libraries whose functions the image imports. -/
def proxiesOfBeep : Dictionary NSString (List NSString) :=
  ((∅ : Dictionary NSString (List NSString)).insert k32 ["Beep".toList]).insert u32 ["Show".toList,
    "Beep".toList]

def newestFirst : Enumeration U32 ProxyCoordinates := ⟨fun s => s.entries,fun _ => .refl _⟩

def initialised (r : Memory Unit×FEImportsProxy) : Imports Unit :=
  ⟨r.1.map,{ r.2 with proxies := proxiesOfBeep }⟩

/-- What the first load, one of another library and a second one of the first library lead to. -/
structure Loads (s₀ s₁ s₂ s₃ : Imports Unit) : Prop where
  new : s₀.map.blockWithTag (dynamicLinkTag k32)=none
  first : LoadStep s₀ ⟨k32,⟨some 0x30000,some 3⟩⟩ s₁
  otherNew : s₁.map.blockWithTag (dynamicLinkTag u32)=none
  otherProxy : s₁.proxy.proxies.lookup u32=some ["Show".toList,"Beep".toList]
  other : LoadStep s₁ ⟨u32,⟨some 0x40000,some 4⟩⟩ s₂
  second : LoadStep s₁ ⟨k32,⟨some 0x40000,some 4⟩⟩ s₃
  otherAddress : ∃address,addressOfFunction s₂.proxy newestFirst "Beep".toList u32=.ok address
  secondAddress : ∃address,addressOfFunction s₃.proxy newestFirst "Beep".toList k32=.ok address ∧
    s₃.proxy.isAddressWithinLoadedImports address=.ok false

theorem loads_of_beep : ∃r s₁ s₂ s₃,initWithMemoryMap 10 StaticImports.beepMemory 0x401000 0x400000
    ⟨some 0x20000,some 2⟩ StaticImports.insertionOrder=.ok r ∧ Loads (initialised r) s₁ s₂ s₃ := by
  have hrun : (do
      let r ← initWithMemoryMap 10 StaticImports.beepMemory 0x401000 0x400000 ⟨some 0x20000,some 2⟩
        StaticImports.insertionOrder
      StaticImports.once do
        assertThat .debug ((initialised r).map.blockWithTag (dynamicLinkTag k32)).isNone
        let s₁ ← loadLibraryNamed (initialised r) k32 ⟨some 0x30000,some 3⟩
        assertThat .debug (s₁.map.blockWithTag (dynamicLinkTag u32)).isNone
        assertThat .debug (s₁.proxy.proxies.lookup u32=some ["Show".toList,"Beep".toList])
        let s₂ ← loadLibraryNamed s₁ u32 ⟨some 0x40000,some 4⟩
        let s₃ ← loadLibraryNamed s₁ k32 ⟨some 0x40000,some 4⟩
        let _ ← addressOfFunction s₂.proxy newestFirst "Beep".toList u32
        let address ← addressOfFunction s₃.proxy newestFirst "Beep".toList k32
        s₃.proxy.isAddressWithinLoadedImports address)=.ok false := by decide +kernel
  obtain ⟨r,hinit,hrun⟩ := bind_eq_ok.mp hrun
  obtain ⟨_,hnew,hrun⟩ := bind_eq_ok.mp (once_eq_ok hrun)
  obtain ⟨s₁,hfirst,hrun⟩ := bind_eq_ok.mp hrun
  obtain ⟨_,hotherNew,hrun⟩ := bind_eq_ok.mp hrun
  obtain ⟨_,hotherProxy,hrun⟩ := bind_eq_ok.mp hrun
  obtain ⟨s₂,hother,hrun⟩ := bind_eq_ok.mp hrun
  obtain ⟨s₃,hsecond,hrun⟩ := bind_eq_ok.mp hrun
  obtain ⟨a₂,hotherAddress,hrun⟩ := bind_eq_ok.mp hrun
  obtain ⟨a₃,hsecondAddress,hwithin⟩ := bind_eq_ok.mp hrun
  exact ⟨r,s₁,s₂,s₃,hinit,Option.isNone_iff_eq_none.mp (assertThat_debug_ok.mp hnew),hfirst,
    Option.isNone_iff_eq_none.mp (assertThat_debug_ok.mp hotherNew),
    of_decide_eq_true (assertThat_debug_ok.mp hotherProxy),hother,hsecond,⟨a₂,hotherAddress⟩,
    ⟨a₃,hsecondAddress,hwithin⟩⟩

/-- The initialiser returns the same for every larger fuel. -/
theorem initialises_beep {result : FEMemoryMap.MallocResult Unit}
    (hallocation : Allocation StaticImports.beepMemory (importsSize StaticImports.beepImports)
      0x20000 2 result)
    {r : Memory Unit×FEImportsProxy}
    (hinit : initWithMemoryMap 10 StaticImports.beepMemory 0x401000 0x400000
      ⟨some 0x20000,some 2⟩ StaticImports.insertionOrder=.ok r) :
    ∃bound,∀fuel,bound<fuel → initWithMemoryMap fuel StaticImports.beepMemory 0x401000 0x400000
      ⟨some 0x20000,some 2⟩ StaticImports.insertionOrder=.ok (r.1,r.2) := by
  obtain ⟨binding,_,_,_,hrun,_⟩ :=
    StaticImports.init_run StaticImports.beep_image hallocation StaticImports.insertionOrder
  refine ⟨_,fun fuel hfuel => (hrun fuel hfuel).trans ?_⟩
  exact (hrun 10 (by decide)).symm.trans hinit

/-- The first load of a library whose tag is a C string. -/
theorem firstLoad_of {s : Imports Unit} {dllName : NSString} {host : HostAllocation}
    {funcNames : List NSString} (hstring : cStringUsingEncoding (dynamicLinkTag dllName)=
      some (dynamicLinkTag dllName))
    (hshort : (dynamicLinkTag dllName).length≤256)
    (hnew : s.map.blockWithTag (dynamicLinkTag dllName)=none)
    (hproxy : s.proxy.proxies.lookup dllName=some funcNames)
    (hsize : 4*funcNames.length≤0x40000000) :
    FirstLoad s ⟨dllName,host⟩ := by
  refine ⟨fun tag htag => ?_,fun names hlookup => ?_⟩
  · cases hstring.symm.trans htag
    exact ⟨hnew,hshort⟩
  · cases hproxy.symm.trans hlookup
    exact hsize

/-- Both libraries have a function of this name; the one of the second library is found. -/
theorem loaded_functions_dispatch_beep : ∃(s : Imports Unit) (address : U32),
    addressOfFunction s.proxy newestFirst "Beep".toList u32=.ok address ∧
      Dispatches s.proxy address "Beep".toList u32 := by
  obtain ⟨result,hallocation⟩ := StaticImports.beep_allocation
  obtain ⟨r,s₁,s₂,_,hinit,hloads⟩ := loads_of_beep
  obtain ⟨address,haddress⟩ := hloads.otherAddress
  have hfirst : FirstLoad (initialised r) ⟨k32,⟨some 0x30000,some 3⟩⟩ :=
    firstLoad_of rfl (by decide) hloads.new (show proxiesOfBeep.lookup k32=
      some ["Beep".toList] from rfl) (by decide)
  have hother : FirstLoad s₁ ⟨u32,⟨some 0x40000,some 4⟩⟩ :=
    firstLoad_of rfl (by decide) hloads.otherNew hloads.otherProxy (by decide)
  have hrun : Runs (fun s load s' => LoadStep s load s' ∧ FirstLoad s load) (initialised r)
      [⟨k32,⟨some 0x30000,some 3⟩⟩,⟨u32,⟨some 0x40000,some 4⟩⟩] s₂ :=
    .next (.next .start ⟨hloads.first,hfirst⟩) ⟨hloads.other,hother⟩
  exact ⟨s₂,address,haddress,(loaded_functions_dispatch StaticImports.beep_image hallocation
    (initialises_beep hallocation hinit) hrun haddress).1⟩

/-- The block that is found by the tag of a library loaded twice is the first one, so the addresses
of the second lie in no block of the list. -/
theorem reloaded_function_lost : ¬∀(memory memory' : Memory Unit) (flat : ℕ→U8)
    (idataAddress imageBase : U32) (ds : List ImportedDLL) (realAddress newBlock : ℕ)
    (result : FEMemoryMap.MallocResult Unit) (order : Order) (proxy : FEImportsProxy),
    ImportImage memory flat idataAddress imageBase ds →
    Allocation memory (importsSize ds) realAddress newBlock result →
    (∃bound,∀fuel,bound<fuel → initWithMemoryMap fuel memory idataAddress imageBase
      ⟨some realAddress,some newBlock⟩ order=.ok (memory',proxy)) →
    ∀(proxies : Dictionary NSString (List NSString)) (loads : List Load) (s : Imports Unit),
    Runs LoadStep ⟨memory'.map,{ proxy with proxies := proxies }⟩ loads s →
    ∀(enumeration : Enumeration U32 ProxyCoordinates) (funcName dllName : NSString) (address : U32),
    addressOfFunction s.proxy enumeration funcName dllName=.ok address →
    Dispatches s.proxy address funcName dllName := by
  intro hall
  obtain ⟨result,hallocation⟩ := StaticImports.beep_allocation
  obtain ⟨r,s₁,_,s₃,hinit,hloads⟩ := loads_of_beep
  obtain ⟨address,haddress,houtside⟩ := hloads.secondAddress
  have hdispatches := hall _ r.1 _ _ _ _ _ _ _ _ r.2 StaticImports.beep_image hallocation
    (initialises_beep hallocation hinit) proxiesOfBeep _ s₃ (.next (.next .start hloads.first)
      hloads.second) newestFirst
    "Beep".toList k32 address haddress
  rw [hdispatches.within] at houtside
  cases houtside

end FalloutEmu.DynamicImports
