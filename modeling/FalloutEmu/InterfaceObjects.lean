import FalloutEmu.WindowCalls

/-! # Interface objects that imported functions create for the guest

An object is a pointer to a table of addresses of imported functions. The guest calls through the
table, and the interpreter runs the method that stands there. -/
namespace FalloutEmu.InterfaceObjects
open ByteStore Emulator
open Assembly (Register Operand Machine Instruction word withWord)
open AssemblySimulation
open DynamicImports (Imports Registered)
open Grouping (Enumeration)
open GuestCalls
open FlatMemory (InBlock)
open ImportCalls
open ImportAllocations
open KnownCode (Program)
variable {F : Type} {env : Environment F} {program : Program} {s t u : FEProcess F} {m m' : Machine}
  {proxy : FEImportsProxy} {order : Enumeration U32 ProxyCoordinates}

section Functions

/-- An interface of a library: the names of its methods in the order of the structure. -/
structure Interface where
  dllName : String
  name : String
  methods : List String

namespace Interface

def funcName (interface : Interface) (method : String) : NSString :=
  interface.name.toList++"::".toList++method.toList

def coordinates (interface : Interface) (method : String) : ProxyCoordinates :=
  ⟨interface.dllName.toList,interface.funcName method⟩

def size (interface : Interface) : U32 := .ofNat 32 (4*interface.methods.length)

end Interface

def iDirectDrawVMT : Interface where
  dllName := "ddraw.dll"
  name := "IDirectDrawVMT"
  methods := ["QueryInterface","AddRef","Release","Compact","CreateClipper","CreatePalette",
    "CreateSurface","DuplicateSurface","EnumDisplayModes","EnumSurfaces","FlipToGDISurface",
    "GetCaps","GetDisplayMode","GetFourCCCodes","GetGDISurface","GetMonitorFrequency","GetScanLine",
    "GetVerticalBlankStatus","Initialize","RestoreDisplayMode","SetCooperativeLevel",
    "SetDisplayMode","WaitForVerticalBlank"]

def iDirectDrawPalette : Interface where
  dllName := "ddraw.dll"
  name := "IDirectDrawPalette"
  methods := ["QueryInterface","AddRef","Release","GetCaps","GetEntries","Initialize","SetEntries"]

def iDirectSound : Interface where
  dllName := "dsound.dll"
  name := "IDirectSound"
  methods := ["QueryInterface","AddRef","Release","CreateSoundBuffer","GetCaps",
    "DuplicateSoundBuffer","SetCooperativeLevel","Compact","GetSpeakerConfig","SetSpeakerConfig",
    "Initialize"]

def iDirectSoundBuffer : Interface where
  dllName := "dsound.dll"
  name := "IDirectSoundBuffer"
  methods := ["QueryInterface","AddRef","Release","GetCaps","GetCurrentPosition","GetFormat",
    "GetVolume","GetPan","GetFrequency","GetStatus","Initialize","Lock","Play","SetCurrentPosition",
    "SetFormat","SetVolume","SetPan","SetFrequency","Stop","Unlock","Restore"]

def iDirectInputA : Interface where
  dllName := "dinput.dll"
  name := "IDirectInputA"
  methods := ["QueryInterface","AddRef","Release","CreateDevice","EnumDevices","GetDeviceStatus",
    "RunControlPanel","Initialize"]

def iDirectInputDeviceA : Interface where
  dllName := "dinput.dll"
  name := "IDirectInputDeviceA"
  methods := ["QueryInterface","AddRef","Release","GetCapabilities","EnumObjects","GetProperty",
    "SetProperty","Acquire","Unacquire","GetDeviceState","GetDeviceData","SetDataFormat",
    "SetEventNotification","SetCooperativeLevel","GetObjectInfo","GetDeviceInfo","RunControlPanel",
    "Initialize"]

/-- `[process.importsProxy addressOfFunction:fromDLL:]`, which is 0 for `nil`. -/
def addressOfFunction (order : Enumeration U32 ProxyCoordinates) (coordinates : ProxyCoordinates) :
    Emulator F U32 := do
  match (← Exec.get).importsProxy with
  | some proxy =>
    Exec.ofExcept
      (DynamicImports.addressOfFunction proxy order coordinates.funcName coordinates.dllName)
  | none => return 0

def methodTable (order : Enumeration U32 ProxyCoordinates) :
    List ProxyCoordinates→Emulator F (List U8)
  | [] => return []
  | coordinates::rest => do
    let address ← addressOfFunction order coordinates
    let table ← methodTable order rest
    return littleEndian 4 address.toNat++table

structure ObjectHosts where
  table : HostAllocation
  object : HostAllocation
  deriving DecidableEq,Repr

/-- The common end of the functions that create an object: its table, the pointer to the table, and
the pointer to that one where the caller wants it. -/
def createObject (order : Enumeration U32 ProxyCoordinates) (interface : Interface)
    (tableTag objectTag : List Char) (hosts : ObjectHosts) (result : U32) : Emulator F Unit := do
  let table ← methodTable order (interface.methods.map interface.coordinates)
  let vtable ← malloc interface.size .readWrite tableTag hosts.table
  Emulator.store fun memory => memory.memcpyToVirtualFromReal vtable table
  let vobject ← malloc 4 .readWrite objectTag hosts.object
  Emulator.store fun memory => memory.setValue32 vobject vtable
  Emulator.store fun memory => memory.setValue32 result vobject
  setRegister32 .kEAX 0

/-- `DirectDrawCreate`; nothing sets `ddvmt`, which is asked for. -/
def directDrawCreate (order : Enumeration U32 ProxyCoordinates) (hosts : ObjectHosts)
    (ddvmt : U32) : Emulator F U8 := do
  assert (ddvmt=0)
  let ptrToArgs ← ptrToArgs
  let _lpGUID ← argument ptrToArgs 0
  let lplpDD ← argument ptrToArgs 1
  let _pUnkOuter ← argument ptrToArgs 2
  createObject order iDirectDrawVMT "IDirectDrawVMT".toList "IDirectDraw".toList hosts lplpDD
  return 12

/-- The entries of a palette of the guest, which nothing keeps. -/
def paletteEntries : ℕ→U32→Emulator F (List (List U8))
  | 0,_ => return []
  | count+1,entryAddress => do
    let entry ← load fun memory => memory.memcpyToRealFromVirtual entryAddress 4
    let entries ← paletteEntries count (entryAddress+4)
    return entry::entries

def createPalette (order : Enumeration U32 ProxyCoordinates) (hosts : ObjectHosts) :
    Emulator F U8 := do
  let ptrToArgs ← ptrToArgs
  let dwFlags ← argument ptrToArgs 1
  let lpDDColorArray ← argument ptrToArgs 2
  let lplpDDPalette ← argument ptrToArgs 3
  assert (dwFlags=0x44)
  let _paletteEntries ← paletteEntries 256 lpDDColorArray
  createObject order iDirectDrawPalette "IDirectDrawPalette".toList
    "ptr to IDirectDrawPalette".toList hosts lplpDDPalette
  return 20

def directSoundCreate (order : Enumeration U32 ProxyCoordinates) (hosts : ObjectHosts) :
    Emulator F U8 := do
  let ptrToArgs ← ptrToArgs
  let _lpGUID ← argument ptrToArgs 0
  let ppDS ← argument ptrToArgs 1
  let _pUnkOuter ← argument ptrToArgs 2
  createObject order iDirectSound "IDirectSound".toList "ptr to IDirectSound".toList hosts ppDS
  return 12

def createSoundBuffer (order : Enumeration U32 ProxyCoordinates) (hosts : ObjectHosts) :
    Emulator F U8 := do
  let ptrToArgs ← ptrToArgs
  let _this ← argument ptrToArgs 0
  let lpcDSBufferDesc ← argument ptrToArgs 1
  let lplpDirectSoundBuffer ← argument ptrToArgs 2
  let _pUnkOuter ← argument ptrToArgs 3
  let _bufferDesc ← load fun memory => memory.memcpyToRealFromVirtual lpcDSBufferDesc 20
  createObject order iDirectSoundBuffer "IDirectSoundBuffer".toList
    "ptr to IDirectSoundBuffer".toList hosts
    lplpDirectSoundBuffer
  return 16

def directInputCreateA (order : Enumeration U32 ProxyCoordinates) (hosts : ObjectHosts) :
    Emulator F U8 := do
  let ptrToArgs ← ptrToArgs
  let _hinst ← argument ptrToArgs 0
  let _dwVersion ← argument ptrToArgs 1
  let lplpDirectInput ← argument ptrToArgs 2
  let _punkOuter ← argument ptrToArgs 3
  createObject order iDirectInputA "IDirectInputA".toList "ptr to IDirectInputA".toList hosts
    lplpDirectInput
  return 16

/-- The name of the device in the tags, by the first double word of its GUID. -/
def deviceName (guid : U32) : String :=
  if guid=0x6F1D2B60 then "mouse"
  else if guid=0x6F1D2B61 then "keyboard"
  else if guid=0x6F1D2B70 then "joystick"
  else if guid=0x6F1D2B80 then "mouseEm"
  else if guid=0x6F1D2B81 then "mouseEm2"
  else if guid=0x6F1D2B82 then "keyboardEm"
  else if guid=0x6F1D2B83 then "keyboardEm2"
  else "<unknown>"

def deviceTag (guid : U32) : List Char := "IDirectInputDeviceA ".toList++(deviceName guid).toList

def createDevice (order : Enumeration U32 ProxyCoordinates) (hosts : ObjectHosts) :
    Emulator F U8 := do
  let ptrToArgs ← ptrToArgs
  let _self ← argument ptrToArgs 0
  let rguid ← argument ptrToArgs 1
  let lplpDirectInputDevice ← argument ptrToArgs 2
  let _pUnkOuter ← argument ptrToArgs 3
  let guid ← load fun memory => memory.value32AtAddress rguid
  createObject order iDirectInputDeviceA (deviceTag guid) ("ptr to ".toList++deviceTag guid) hosts
    lplpDirectInputDevice
  return 16

end Functions

section Tables
variable {interface : Interface} {coordinates : ProxyCoordinates} {flat : ℕ→U8}
  {addresses : List U32}

/-- The library implements the methods, and its functions are bound. -/
structure Binds (proxy : FEImportsProxy) (coordinates : ProxyCoordinates) : Prop where
  bound : ∃address,proxy.addrToFunction.lookup address=some coordinates
  implemented : coordinates.funcName∈(proxy.proxies.lookup coordinates.dllName).getD []

/-- The addresses of these functions, one behind the other. -/
def Leads (proxy : FEImportsProxy) (addresses : List U32)
    (functions : List ProxyCoordinates) : Prop :=
  List.Forall₂ (fun address coordinates => proxy.functionAtAddress address=.ok (some coordinates))
    addresses functions

theorem Leads.get {functions : List ProxyCoordinates} (h : Leads proxy addresses functions) {i : ℕ}
    (hi : functions[i]?=some coordinates) :
    ∃address,addresses[i]?=some address ∧ proxy.functionAtAddress address=
      .ok (some coordinates) := by
  induction h generalizing i with
  | nil => simp at hi
  | cons hfunction _ ih =>
    cases i with
    | zero =>
      cases hi
      exact ⟨_,rfl,hfunction⟩
    | succ i => exact ih hi

def tableBytes (addresses : List U32) : List U8 :=
  addresses.flatMap fun address => littleEndian 4 address.toNat

@[simp] theorem tableBytes_cons (address : U32) (addresses : List U32) :
    tableBytes (address::addresses)=littleEndian 4 address.toNat++tableBytes addresses :=
  List.flatMap_cons

/-- The address of a bound function leads back to it. -/
theorem addressOfFunction_run (hlinked : Linked proxy s)
    (hregistered : Registered ⟨s.memory.map,proxy⟩) (hbinds : Binds proxy coordinates) :
    ∃address,addressOfFunction order coordinates env s=.ok (address,s) ∧
      proxy.functionAtAddress address=.ok (some coordinates) := by
  obtain ⟨bound,hbound⟩ := hbinds.bound
  have hentry : (⟨bound,coordinates⟩ : Sigma fun _ : U32 => ProxyCoordinates)∈order.list
    proxy.addrToFunction :=
    (order.perm _).mem_iff.mpr (AList.mem_lookup_iff.mp hbound)
  cases hfind : (order.list proxy.addrToFunction).find? fun entry =>
      entry.2.dllName=coordinates.dllName && entry.2.funcName=coordinates.funcName with
  | none =>
    have hmissed := List.find?_eq_none.mp hfind _ hentry
    simp at hmissed
  | some entry =>
    have haddress : DynamicImports.addressOfFunction proxy order coordinates.funcName
      coordinates.dllName=.ok entry.1 := by
      rw [DynamicImports.addressOfFunction,hfind]
    refine ⟨entry.1,?_,?_⟩
    · rw [addressOfFunction,Exec.bind_run (Exec.get_run env s),hlinked.importsProxy]
      simp only
      rw [haddress]
      rfl
    · have htarget := (hregistered.dispatches haddress).target
      rw [if_pos hbinds.implemented] at htarget
      exact htarget

theorem methodTable_run (hlinked : Linked proxy s) (hregistered : Registered ⟨s.memory.map,proxy⟩)
    {functions : List ProxyCoordinates} (hbinds : ∀coordinates∈functions,Binds proxy coordinates) :
    ∃addresses,methodTable order functions env s=.ok (tableBytes addresses,s) ∧
    Leads proxy addresses functions := by
  induction functions with
  | nil => exact ⟨[],rfl,.nil⟩
  | cons coordinates rest ih =>
    obtain ⟨address,haddress,hfunction⟩ :=
      addressOfFunction_run hlinked hregistered (hbinds coordinates List.mem_cons_self)
    obtain ⟨addresses,htable,hfunctions⟩ := ih fun c hc => hbinds c (List.mem_cons_of_mem _ hc)
    refine ⟨address::addresses,?_,.cons hfunction hfunctions⟩
    rw [methodTable,Exec.bind_run haddress,Exec.bind_run htable,tableBytes_cons]
    rfl

theorem length_tableBytes : (tableBytes addresses).length=4*addresses.length := by
  induction addresses with
  | nil => rfl
  | cons address addresses ih =>
    rw [tableBytes_cons,List.length_append,ih,length_littleEndian,List.length_cons]
    omega

/-- The double words of the table are the addresses. -/
theorem word_table {a : U32}
    (hread : readAt flat a.toNat (4*addresses.length)=tableBytes addresses)
    (hroom : a.toNat+4*addresses.length<2^32) {i : ℕ} {address : U32}
    (haddress : addresses[i]?=some address) :
    word flat (a+.ofNat 32 (4*i))=address := by
  induction addresses generalizing a i with
  | nil => simp at haddress
  | cons first rest ih =>
    have hlength : 4*(first::rest).length=4+4*rest.length := by
      rw [List.length_cons]
      omega
    rw [hlength] at hread hroom
    rw [readAt_add,tableBytes_cons] at hread
    obtain ⟨hfirst,hrest⟩ := List.append_inj hread (by simp)
    have hfour : (a+4).toNat=a.toNat+4 := by bv_omega
    cases i with
    | zero =>
      cases haddress
      have hzero : a+.ofNat 32 (4*0)=a := BitVec.add_zero a
      rw [hzero]
      exact word_of_readAt hfirst
    | succ i =>
      have hnext : a+.ofNat 32 (4*(i+1))=a+4+.ofNat 32 (4*i) := by
        rw [BitVec.add_assoc]
        congr 1
        bv_omega
      rw [hnext]
      exact ih (hfour ▸ hrest) (by omega) haddress

end Tables

section Objects
variable {interface : Interface} {tableTag objectTag : List Char} {hosts : ObjectHosts}
  {address a result : U32}
  {bytes : List U8} {block : FEMemoryMapBlock} {made made' : FEMemoryMap.MallocResult DisasmContext}

/-- A double word of the new block is none that the guest had. -/
theorem apart_given (h : Given address bytes m m' block) (hresult : result.toNat∈m.data)
    (ha : a.toNat∈slots block) :
    Assembly.Apart result a := by
  have hoff : ∀k<4,a.toNat+k < result.toNat ∨ result.toNat+4 ≤ a.toNat+k := by
    intro k hk
    exact h.untouched _ ⟨Nat.le_add_right_of_le ha.1,by have hhigh := ha.2; omega⟩ _ hresult
  have h₀ := hoff 0 (by decide)
  have h₁ := hoff 1 (by decide)
  have h₂ := hoff 2 (by decide)
  have h₃ := hoff 3 (by decide)
  unfold Assembly.Apart
  omega

/-- The double words of the new block, counted from its start. -/
theorem cell_given (h : Given address bytes m m' block) {i : ℕ} (hi : 4*i+4 ≤ bytes.length) :
    (address+.ofNat 32 (4*i)).toNat∈slots block := by
  have hsize := h.size
  have hinside := h.inside
  rw [h.start] at hinside
  have hcell : (address+.ofNat 32 (4*i)).toNat=address.toNat+4*i := by bv_omega
  rw [hcell]
  refine ⟨?_,?_⟩ <;> rw [h.start] <;> omega

theorem mem_given (h : Given address bytes m m' block) {p : ℕ}
    (hp : p∈m.data ∨ p∈slots block) : p∈m'.data := by
  rw [h.data]
  exact hp

/-- The double words that the guest had are as they were. -/
theorem word_given (h : Given address bytes m m' block) (ha : a.toNat∈m.data) :
    word m'.memory a=word m.memory a := by
  have hcongr : readAt m'.memory a.toNat 4=readAt m.memory a.toNat 4 := by
    refine readAt_congr fun k hk => h.others _ fun hcontains => ?_
    have hoff := h.untouched _ hcontains _ ha
    omega
  rw [word,word,hcongr]

def methodSlot (m : Machine) (object : U32) (i : ℕ) : U32 := word m.memory object+.ofNat 32 (4*i)

/-- The guest has an object whose table leads to the methods of the interface. -/
structure IsObject (proxy : FEImportsProxy) (interface : Interface) (m : Machine)
    (object : U32) : Prop where
  pointer : object.toNat∈m.data
  methods : ∀i method,interface.methods[i]?=some method→(methodSlot m object i).toNat∈m.data ∧
    proxy.functionAtAddress (word m.memory (methodSlot m object i))=
      .ok (some (interface.coordinates method))

/-- What the creation of an object leaves of the machine. -/
structure Created (proxy : FEImportsProxy) (interface : Interface) (result object : U32)
    (m m' : Machine) : Prop where
  isObject : IsObject proxy interface m' object
  stored : word m'.memory result=object
  register : m'.register=Function.update m.register .eax 0
  stack : m'.stack=m.stack
  data : m.data⊆m'.data
  others : ∀a : U32,a.toNat∈m.data→Assembly.Apart result a→word m'.memory a=word m.memory a

/-- The map has room for the table and for the object. -/
structure Room (map : FEMemoryMap DisasmContext) (interface : Interface)
    (tableTag objectTag : List Char) (hosts : ObjectHosts)
    (made made' : FEMemoryMap.MallocResult DisasmContext) : Prop where
  freshTable : Fresh map interface.size hosts.table
  table : map.malloc .debug interface.size .readWrite tableTag hosts.table=.ok made
  freshObject : Fresh made.map 4 hosts.object
  object : made.map.malloc .debug 4 .readWrite objectTag hosts.object=.ok made'

/-- The methods of the interface are bound, and there is one at least. -/
structure Provides (proxy : FEImportsProxy) (interface : Interface) : Prop where
  binds : ∀method∈interface.methods,Binds proxy (interface.coordinates method)
  nonempty : interface.methods≠[]
  size : 4*interface.methods.length ≤ 0x40000000

theorem keeps_store (v : U32) (ha : a.toNat∈m.data) : Keeps m (m.store a v) :=
  ⟨rfl,rfl,fun _ hp => Assembly.withWord_apply_of_outside _ (hp _ ha) v⟩

theorem isObject_given {addresses : List U32} {m₁ m₂ : Machine} {table block : FEMemoryMapBlock}
    {vtable vobject : U32} (htable : Given vtable (tableBytes addresses) m m₁ table)
    (hobject : Given vobject (littleEndian 4 vtable.toNat) m₁ m₂ block)
    (hleads : Leads proxy addresses (interface.methods.map interface.coordinates))
    (hresult : result.toNat∈m.data) :
    IsObject proxy interface ((m₂.store result vobject).set .eax 0) vobject := by
  have hzero : vobject+.ofNat 32 (4*0)=vobject := BitVec.add_zero vobject
  have hslot : vobject.toNat∈slots block := hzero ▸ cell_given hobject (by rw [length_littleEndian])
  have hpointer : word (withWord m₂.memory result vobject) vobject=vtable := by
    rw [Assembly.word_withWord_of_apart _ (apart_given hobject (mem_given htable (.inl hresult))
      hslot)]
    have hbytes := hobject.bytes
    rw [length_littleEndian,hobject.start] at hbytes
    exact word_of_readAt hbytes
  refine ⟨mem_given hobject (.inr hslot),fun i method hmethod => ?_⟩
  have hcoordinates : (interface.methods.map interface.coordinates)[i]?=
    some (interface.coordinates method) := by
    rw [List.getElem?_map,hmethod]
    rfl
  obtain ⟨address,haddress,hfunction⟩ := hleads.get hcoordinates
  obtain ⟨hi,-⟩ := List.getElem?_eq_some_iff.mp haddress
  have hcell : (vtable+.ofNat 32 (4*i)).toNat∈slots table :=
    cell_given htable (by rw [length_tableBytes]; omega)
  have hcell₁ := mem_given htable (.inr hcell)
  -- neither the pointer to the table nor the one that the guest gets is written over the table
  have hword : word (withWord m₂.memory result vobject) (vtable+.ofNat 32 (4*i))=address := by
    rw [Assembly.word_withWord_of_apart _ (apart_given htable hresult hcell),
      word_given hobject hcell₁]
    have hread := htable.bytes
    have hsize := htable.size
    have hinside := htable.inside
    rw [length_tableBytes,htable.start] at hread
    rw [length_tableBytes] at hsize
    rw [htable.start] at hinside
    exact word_table hread (by omega) haddress
  have hmethodSlot : methodSlot ((m₂.store result vobject).set .eax 0) vobject i=
    vtable+.ofNat 32 (4*i) :=
    congrArg (· + BitVec.ofNat 32 (4*i)) hpointer
  rw [hmethodSlot]
  refine ⟨mem_given hobject (.inl hcell₁),?_⟩
  show proxy.functionAtAddress (word (withWord m₂.memory result vobject) _)=_
  rw [hword]
  exact hfunction

theorem createObject_run (h : Holding program u m) (hlinked : Linked proxy u)
    (hregistered : Registered ⟨u.memory.map,proxy⟩) (hprovides : Provides proxy interface)
    (hbuild : env.build=.debug)
    (hroom : Room u.memory.map interface tableTag objectTag hosts made made')
    (hresult : result.toNat∈m.data) :
    ∃v m',createObject order interface tableTag objectTag hosts result env u=.ok ((),v) ∧
    Holding program v m' ∧
      Linked proxy v ∧ Created proxy interface result made'.address m m' := by
  have hbinds : ∀coordinates∈interface.methods.map interface.coordinates,
    Binds proxy coordinates := by
    intro coordinates hcoordinates
    obtain ⟨method,hmethod,rfl⟩ := List.mem_map.mp hcoordinates
    exact hprovides.binds method hmethod
  obtain ⟨addresses,hmethods,hleads⟩ : ∃addresses,
      methodTable order (interface.methods.map interface.coordinates) env u=
        .ok (tableBytes addresses,u) ∧
      Leads proxy addresses (interface.methods.map interface.coordinates) :=
        methodTable_run hlinked hregistered hbinds
  have hlength : addresses.length=_ := List.Forall₂.length_eq hleads
  rw [List.length_map] at hlength
  have hpos := List.length_pos_iff.mpr hprovides.nonempty
  have hfits := hprovides.size
  have hsize : interface.size.toNat=4*interface.methods.length := by
    rw [Interface.size,BitVec.toNat_ofNat]
    omega
  -- the two blocks, and then the cell of the guest
  obtain ⟨table,t₁,u₁,m₁,hmalloc₁,hstore₁,hgrows₁,hmap₁,htable⟩ := give_run h hlinked.toReady hbuild
    (by rw [length_tableBytes,hlength,hsize]) (by omega) (by omega) hroom.freshTable hroom.table
  have hlinked₁ := hlinked.grows hgrows₁
  have hpointer : (littleEndian 4 made.address.toNat).length=(4 : U32).toNat :=
    length_littleEndian 4 _
  obtain ⟨block,t₂,u₂,m₂,hmalloc₂,hstore₂,hgrows₂,-,hobject⟩ :=
    give_run hgrows₁.holding hlinked₁.toReady hbuild hpointer
    (by decide) (by decide) (hmap₁ ▸ hroom.freshObject) (hmap₁ ▸ hroom.object)
  have hgrows := hgrows₁.trans hgrows₂
  have hresult₂ : result.toNat∈m₂.data := hgrows.data hresult
  obtain ⟨u₃,hstore₃,hu₃,hcontinues₃⟩ := hgrows₂.holding.represents.store_run hresult₂ made'.address
  have hholding₃ := hgrows₂.holding.continues hu₃ hcontinues₃ (keeps_store _ hresult₂)
  obtain ⟨v,hset,hv,hcontinues⟩ : TakesTo env u₃ (setRegister32 .kEAX 0) ()
    ((m₂.store result made'.address).set .eax 0) :=
    hu₃.setRegister32_run .eax 0
  refine ⟨v,_,?_,hholding₃.continues hv hcontinues ⟨rfl,rfl,fun _ _ => rfl⟩,
    ((hlinked₁.grows hgrows₂).continues hcontinues₃).continues hcontinues,
    isObject_given htable hobject hleads hresult,Assembly.word_withWord_self _ _ _,?_,?_,
      hgrows.data,?_⟩
  · rw [createObject,Exec.bind_run hmethods,Exec.bind_run hmalloc₁,Exec.bind_run hstore₁,
      Exec.bind_run hmalloc₂]
    refine (Exec.bind_run hstore₂).trans ((Exec.bind_run hstore₃).trans ?_)
    exact hset
  · show Function.update m₂.register .eax 0=_
    rw [hgrows.machine]
  · show m₂.stack=_
    rw [hgrows.machine]
  · intro a ha hapart
    show word (withWord m₂.memory result made'.address) a=_
    rw [Assembly.word_withWord_of_apart _ hapart,word_given hobject (hgrows₁.data ha),
      word_given htable ha]

end Objects

section Calls
variable {interface : Interface} {tableTag objectTag : List Char} {hosts : ObjectHosts}
  {result next : U32} {operand : Operand}
  {n : ℕ} {funcName : String} {body : Emulator F U8} {size : U8}
    {made made' : FEMemoryMap.MallocResult DisasmContext}

/-- The call of a function that creates an object: the guest comes back behind it with an object of
the interface where it asked for one, and finds the rest of its memory and its other registers as
they were. -/
structure Creates (env : Environment F) (program : Program) (s : FEProcess F) (m : Machine)
    (next : U32) (size : U8) (proxy : FEImportsProxy) (interface : Interface)
    (result : U32) : Prop where
  run : ∃t m',Turn env s t ∧ Simulates program t m' ∧ Linked proxy t ∧ m'.eip=next ∧
    m'.register .eax=0 ∧
    m'.register .esp=m.register .esp+size.setWidth 32 ∧
      (∀r,r≠.eax→ r≠.esp→m'.register r=m.register r) ∧
    IsObject proxy interface m' (word m'.memory result) ∧
    ∀a : U32,a.toNat∈m.data→Assembly.Apart result a→Assembly.Apart (m.register .esp-4) a→
      word m'.memory a=word m.memory a

/-- The return address is where the call has put it. -/
theorem leaves_created {object : U32} (hslot : (m.register .esp-4).toNat∈m.data)
    (hapart : Assembly.Apart result (m.register .esp-4))
    (h : Created proxy interface result object (m.push next) m') :
    Leaves m next m' := by
  have hesp : m'.register .esp=m.register .esp-4 := by
    rw [h.register,Function.update_of_ne (by decide)]
    exact StackFrames.esp_push _
  refine ⟨hesp,h.stack,?_⟩
  rw [Machine.top,hesp,h.others _ hslot hapart]
  exact Assembly.word_withWord_self _ _ _

theorem creates (h : Simulates program s m) (hlinked : Linked proxy s)
    (hregistered : Registered ⟨s.memory.map,proxy⟩) (hprovides : Provides proxy interface)
    (hbuild : env.build=.debug) (hdisasm : program.DecodedBy env.disasm)
    (hcall : CallsImport env program s m operand n interface.dllName funcName body)
    (hbody : ∀u,Holding program u (m.push (m.eip+.ofNat 32 n))→u.memory.map=s.memory.map→
      body (withoutImports env) u=
      (createObject order interface tableTag objectTag hosts result >>= fun _ => pure size)
      (withoutImports env) u)
    (hroom : Room s.memory.map interface tableTag objectTag hosts made made')
    (hresult : result.toNat∈m.data) (hapart : Assembly.Apart result (m.register .esp-4)) :
    Creates env program s m (m.eip+.ofNat 32 n) size proxy interface result := by
  have hslot : (m.register .esp-4).toNat∈m.data := h.stack hcall.safe.2
  have hreturns : ∃t v m',Turn env s t ∧ Simulates program t (behind m' size (m.eip+.ofNat 32 n)) ∧
    Linked proxy t ∧
      Steady v t ∧ Leaves m (m.eip+.ofNat 32 n) m' ∧
      Created proxy interface result made'.address (m.push (m.eip+.ofNat 32 n)) m' := by
    refine hcall.returns h hlinked hdisasm fun u hu hulinked hmap => ?_
    rw [←hmap] at hregistered hroom
    have hbuild' : (withoutImports env).build=.debug := hbuild
    have hresult' : result.toNat∈(m.push (m.eip+.ofNat 32 n)).data := hresult
    obtain ⟨v,m',hrun,hv,hvlinked,hcreated⟩ : ∃v m',
        createObject order interface tableTag objectTag hosts result (withoutImports env) u=
          .ok ((),v) ∧
        Holding program v m' ∧ Linked proxy v ∧ Created proxy interface result made'.address
          (m.push _) m' :=
      createObject_run hu hulinked hregistered hprovides hbuild' hroom hresult'
    refine ⟨v,m',?_,hv,hvlinked,leaves_created hslot hapart hcreated,hcreated⟩
    rw [hbody u hu hmap,Exec.bind_run hrun]
    rfl
  generalize m.eip+.ofNat 32 n=next at *
  obtain ⟨t,v,m',hturn,ht,hlinked',-,hleaves,hcreated⟩ := hreturns
  have hregister : ∀r,r≠.esp→(behind m' size next).register r=m'.register r :=
    fun r hr => register_behind hr
  refine ⟨t,_,hturn,ht,hlinked',rfl,?_,esp_behind hleaves,fun r hr hstack => ?_,?_,
    fun a ha hout hreturn => ?_⟩
  · rw [hregister .eax (by decide),hcreated.register,Function.update_self]
  · rw [hregister r hstack,hcreated.register,Function.update_of_ne hr]
    exact StackFrames.register_push _ hstack
  · have hstored : word (behind m' size next).memory result=made'.address := hcreated.stored
    rw [hstored]
    exact ⟨hcreated.isObject.pointer,hcreated.isObject.methods⟩
  · refine (hcreated.others a ha hout).trans ?_
    exact Assembly.word_withWord_of_apart _ hreturn _

theorem IsObject.calls (h : Simulates program s m) (hlinked : Linked proxy s) {object : U32}
    (hobject : IsObject proxy interface m object) {i : ℕ} {method : String}
    (hmethod : interface.methods[i]?=some method)
    (hentry : program.entry m.eip=some (entryOf (.callTo (.operand operand)) n))
    (hsafe : (Instruction.callTo (.operand operand)).Safe m)
    (hvalue : m.value operand=word m.memory (methodSlot m object i))
    (hdisasm : program.DecodedBy env.disasm) :
    ∃u,Holding program u (m.push (m.eip+.ofNat 32 n)) ∧ Linked proxy u ∧
      ∀{v m' size},env.executeFunction (interface.coordinates method) () u=.ok (size,v)→
      Holding program v m'→
        (m'.register .esp).toNat∈m'.stack→(program.entry m'.top).isSome→
        ∃t,Turn env s t ∧ Simulates program t (((m'.drop 4).drop (size.setWidth 32)).goto
          m'.top) := by
  obtain ⟨u,hu,hsu,hreturn⟩ := callsImport env h hentry hsafe hlinked.importsProxy
    (hvalue ▸ (hobject.methods i method hmethod).2)
  refine ⟨u,hu,hlinked.continues (continues_of_counted hsu),?_⟩
  intro v m' size hrun hv hstack htop
  obtain ⟨t,hturn,ht,-⟩ := hreturn hrun hv hdisasm hstack htop
  exact ⟨t,hturn,ht⟩

end Calls

section Creators

inductive Creator where
  | directDrawCreate
  | createPalette
  | directSoundCreate
  | createSoundBuffer
  | directInputCreateA
  | createDevice
  deriving DecidableEq,Repr

namespace Creator

def funcName : Creator→String
  | directDrawCreate => "DirectDrawCreate"
  | createPalette => "IDirectDrawVMT::CreatePalette"
  | directSoundCreate => "DirectSoundCreate"
  | createSoundBuffer => "IDirectSound::CreateSoundBuffer"
  | directInputCreateA => "DirectInputCreateA"
  | createDevice => "IDirectInputA::CreateDevice"

def interface : Creator→Interface
  | directDrawCreate => iDirectDrawVMT
  | createPalette => iDirectDrawPalette
  | directSoundCreate => iDirectSound
  | createSoundBuffer => iDirectSoundBuffer
  | directInputCreateA => iDirectInputA
  | createDevice => iDirectInputDeviceA

def result : Creator→ℕ
  | directDrawCreate | directSoundCreate => 1
  | createPalette => 3
  | createSoundBuffer | directInputCreateA | createDevice => 2

def count : Creator→ℕ
  | directDrawCreate | directSoundCreate => 3
  | _ => 4

/-- The bytes of arguments that the function takes off the stack. -/
def size : Creator→U8
  | directDrawCreate | directSoundCreate => 12
  | createPalette => 20
  | _ => 16

def argumentOf (m : Machine) (i : ℕ) : U32 := word m.memory (argumentAddress m i)

def tableTag (m : Machine) : Creator→List Char
  | directDrawCreate => "IDirectDrawVMT".toList
  | createPalette => "IDirectDrawPalette".toList
  | directSoundCreate => "IDirectSound".toList
  | createSoundBuffer => "IDirectSoundBuffer".toList
  | directInputCreateA => "IDirectInputA".toList
  | createDevice => deviceTag (word m.memory (argumentOf m 1))

def objectTag (m : Machine) : Creator→List Char
  | directDrawCreate => "IDirectDraw".toList
  | createPalette => "ptr to IDirectDrawPalette".toList
  | directSoundCreate => "ptr to IDirectSound".toList
  | createSoundBuffer => "ptr to IDirectSoundBuffer".toList
  | directInputCreateA => "ptr to IDirectInputA".toList
  | createDevice => "ptr to ".toList++deviceTag (word m.memory (argumentOf m 1))

def Accepts (map : FEMemoryMap DisasmContext) (m : Machine) : Creator→Prop
  | createPalette => argumentOf m 1=0x44 ∧ ∀i<256,
    InBlock map (argumentOf m 2+.ofNat 32 (4*i)).toNat 4
  | createSoundBuffer => InBlock map (argumentOf m 1).toNat 20
  | createDevice => (argumentOf m 1).toNat∈m.data ∧ Assembly.Apart (m.register .esp-4)
    (argumentOf m 1)
  | directDrawCreate | directSoundCreate | directInputCreateA => True

def body (order : Enumeration U32 ProxyCoordinates) (hosts : ObjectHosts) : Creator→Emulator F U8
  | directDrawCreate => InterfaceObjects.directDrawCreate order hosts 0
  | createPalette => InterfaceObjects.createPalette order hosts
  | directSoundCreate => InterfaceObjects.directSoundCreate order hosts
  | createSoundBuffer => InterfaceObjects.createSoundBuffer order hosts
  | directInputCreateA => InterfaceObjects.directInputCreateA order hosts
  | createDevice => InterfaceObjects.createDevice order hosts

end Creator

open Creator (argumentOf)
variable {hosts : ObjectHosts} {operand : Operand} {n : ℕ} {next : U32}
  {made made' : FEMemoryMap.MallocResult DisasmContext}

theorem paletteEntries_run (env : Environment F) (h : Represents u m') {count : ℕ} {a : U32}
    (hmapped : ∀i<count,InBlock u.memory.map (a+.ofNat 32 (4*i)).toNat 4) :
    ∃entries,paletteEntries count a env u=.ok (entries,u) := by
  induction count generalizing a with
  | zero => exact ⟨[],rfl⟩
  | succ count ih =>
    have hzero : a+.ofNat 32 (4*0)=a := BitVec.add_zero a
    have hentry : (load fun memory => memory.memcpyToRealFromVirtual a 4) env u=
      .ok (readAt m'.memory a.toNat 4,u) :=
      Repetition.load_run (h.memory.load (by decide) (hzero ▸ hmapped 0 (Nat.succ_pos _)))
    obtain ⟨entries,hentries⟩ : ∃entries,paletteEntries count (a+4) env u=.ok (entries,u) := by
      refine ih fun i hi => ?_
      have hnext : a+4+.ofNat 32 (4*i)=a+.ofNat 32 (4*(i+1)) := by
        rw [BitVec.add_assoc]
        congr 1
        bv_omega
      rw [hnext]
      exact hmapped (i+1) (Nat.succ_lt_succ hi)
    exact ⟨_,(Exec.bind_run hentry).trans ((Exec.bind_run hentries).trans rfl)⟩

/-- The functions read their arguments and create the object. -/
theorem body_run (creator : Creator) (order : Enumeration U32 ProxyCoordinates)
    (hosts : ObjectHosts) (env : Environment F) (h : Holding program u (m.push next))
    (hargs : Arguments m creator.count) (haccepts : creator.Accepts u.memory.map m) :
    creator.body order hosts env u=(createObject order creator.interface (creator.tableTag m)
      (creator.objectTag m) hosts
      (argumentOf m creator.result) >>= fun _ => pure creator.size) env u := by
  have hptr := ptrToArgs_run env h
  have hargument : ∀i<creator.count,argument (m.register .esp) i env u=.ok (argumentOf m i,u) :=
    fun i hi => argument_run env h hargs hi
  cases creator with
  | directDrawCreate =>
    refine (Exec.bind_run (assert_run rfl)).trans ((Exec.bind_run hptr).trans ?_)
    refine (Exec.bind_run (hargument 0 (by decide))).trans
      ((Exec.bind_run (hargument 1 (by decide))).trans ?_)
    exact Exec.bind_run (hargument 2 (by decide))
  | createPalette =>
    obtain ⟨hflags,hmapped⟩ := haccepts
    obtain ⟨entries,hentries⟩ := paletteEntries_run env h.represents hmapped
    refine (Exec.bind_run hptr).trans ((Exec.bind_run (hargument 1 (by decide))).trans ?_)
    refine (Exec.bind_run (hargument 2 (by decide))).trans
      ((Exec.bind_run (hargument 3 (by decide))).trans ?_)
    exact (Exec.bind_run (assert_run (decide_eq_true hflags))).trans (Exec.bind_run hentries)
  | directSoundCreate =>
    refine (Exec.bind_run hptr).trans ((Exec.bind_run (hargument 0 (by decide))).trans ?_)
    exact (Exec.bind_run (hargument 1 (by decide))).trans (Exec.bind_run (hargument 2 (by decide)))
  | createSoundBuffer =>
    have hdesc : (load fun memory => memory.memcpyToRealFromVirtual (argumentOf m 1) 20) env u=
        .ok (readAt (m.push next).memory (argumentOf m 1).toNat 20,u) :=
      Repetition.load_run (h.represents.memory.load (by decide) haccepts)
    refine (Exec.bind_run hptr).trans ((Exec.bind_run (hargument 0 (by decide))).trans ?_)
    refine (Exec.bind_run (hargument 1 (by decide))).trans
      ((Exec.bind_run (hargument 2 (by decide))).trans ?_)
    exact (Exec.bind_run (hargument 3 (by decide))).trans (Exec.bind_run hdesc)
  | directInputCreateA =>
    refine (Exec.bind_run hptr).trans ((Exec.bind_run (hargument 0 (by decide))).trans ?_)
    refine (Exec.bind_run (hargument 1 (by decide))).trans
      ((Exec.bind_run (hargument 2 (by decide))).trans ?_)
    exact Exec.bind_run (hargument 3 (by decide))
  | createDevice =>
    obtain ⟨hdata,hapart⟩ := haccepts
    have hguid : (load fun memory => memory.value32AtAddress (argumentOf m 1)) env u=
        .ok (word m.memory (argumentOf m 1),u) := by
      have hword : word (m.push next).memory (argumentOf m 1)=word m.memory (argumentOf m 1) :=
        Assembly.word_withWord_of_apart _ hapart next
      rw [←hword]
      exact Repetition.load_run (h.represents.value32AtAddress hdata)
    refine (Exec.bind_run hptr).trans ((Exec.bind_run (hargument 0 (by decide))).trans ?_)
    refine (Exec.bind_run (hargument 1 (by decide))).trans
      ((Exec.bind_run (hargument 2 (by decide))).trans ?_)
    exact (Exec.bind_run (hargument 3 (by decide))).trans (Exec.bind_run hguid)

/-- A guest that calls one of these functions gets an object of the interface: a pointer to a table
in which every method has the address that the interpreter dispatches to this method. -/
theorem creator_creates (creator : Creator) (h : Simulates program s m) (hlinked : Linked proxy s)
    (hregistered : Registered ⟨s.memory.map,proxy⟩)
    (hbinds : ∀method∈creator.interface.methods,Binds proxy (creator.interface.coordinates method))
    (hbuild : env.build=.debug) (hdisasm : program.DecodedBy env.disasm)
    (hcall : CallsImport env program s m operand n creator.interface.dllName creator.funcName
      (creator.body order hosts))
    (hargs : Arguments m creator.count) (haccepts : creator.Accepts s.memory.map m)
    (hroom : Room s.memory.map creator.interface (creator.tableTag m)
      (creator.objectTag m) hosts made made')
    (hresult : (argumentOf m creator.result).toNat∈m.data)
    (hapart : Assembly.Apart (argumentOf m creator.result) (m.register .esp-4)) :
    Creates env program s m (m.eip+.ofNat 32 n) creator.size proxy creator.interface
      (argumentOf m creator.result) := by
  have hprovides : Provides proxy creator.interface := by
    refine ⟨hbinds,?_,?_⟩
    · cases creator <;> exact List.cons_ne_nil _ _
    · cases creator <;> decide
  exact creates h hlinked hregistered hprovides hbuild hdisasm hcall
    (fun u hu hmap => body_run creator order hosts (withoutImports env) hu hargs (hmap ▸ haccepts))
      hroom hresult hapart

end Creators

section Example
open AssemblyImage
open Creator (argumentOf)
open DynamicImports (linkFunctions lookup_linkFunctions newestFirst)
open FEMemoryMap (mallocBlock)
open StaticImports (contains_link)
open WindowCalls (callerListing callerListing_hasEncoding packed_imageMap)

theorem size_callerListing : size callerListing ≤ 0x1000 := by decide

def creatorImage : Image :=
  .ofListing callerListing (withWord (writeAt (fun _ => 0) 0x1000 [0xff,0xd0,0x90,0xc2,0x10,0x00])
    0x2f04 0x2f80)
    callerListing_hasEncoding size_callerListing

def soundNames : List NSString :=
  "DirectSoundCreate".toList::iDirectSound.methods.map iDirectSound.funcName

def soundBlock : FEMemoryMapBlock := mallocBlock 48 "dsound.dll".toList 0x10000 10 0x4000

/-- The proxy behind `loadLibraryNamed:`. -/
def soundProxy : FEImportsProxy where
  addrToFunction := linkFunctions "dsound.dll".toList soundNames 0x4000 ∅
  proxies := (∅ : Dictionary NSString (List NSString)).insert "dsound.dll".toList soundNames
  loadedStaticImportsMemoryBlock := some importsBlock
  dynamicImportMemoryBlocks := [some soundBlock]

def soundHosts : ObjectHosts := ⟨⟨some 0x20000,some 11⟩,⟨some 0x30000,some 12⟩⟩

def soundEnvironment : Environment Unit :=
  { creatorImage.environment with
    executeFunction := fun _ _ u => directSoundCreate newestFirst soundHosts
      (withoutImports creatorImage.environment) u }

theorem registered_soundProxy {map : FEMemoryMap DisasmContext}
    (hmap : StaticImports.Gigabyte map) :
    Registered ⟨map,soundProxy⟩ where
  gigabyte := hmap
  blocks := by
    intro block hblock
    rcases List.mem_cons.mp hblock with rfl | hblock
    · rfl
    · rw [List.mem_singleton.mp hblock]
      rfl
  table := by
    intro v coordinates hlookup
    rcases lookup_linkFunctions hlookup with ⟨k,hk,rfl⟩ | hnone
    · refine ⟨soundBlock,List.mem_cons_of_mem _ (List.mem_singleton.mpr rfl),?_⟩
      exact contains_link (by decide) (by decide) hk
    · cases hnone

theorem binds_soundProxy : ∀method∈iDirectSound.methods,
    Binds soundProxy (iDirectSound.coordinates method) := by
  have hentries : ∀method∈iDirectSound.methods,
      iDirectSound.coordinates method∈soundProxy.addrToFunction.entries.map Sigma.snd := by
        decide +kernel
  have hnames : ∀method∈iDirectSound.methods,iDirectSound.funcName method∈soundNames :=
    fun method hmethod => List.mem_cons_of_mem _ (List.mem_map_of_mem hmethod)
  intro method hmethod
  obtain ⟨entry,hentry,hcoordinates⟩ := List.mem_map.mp (hentries method hmethod)
  refine ⟨⟨entry.1,?_⟩,?_⟩
  · rw [←hcoordinates]
    exact AList.mem_lookup_iff.mpr hentry
  · show _∈(AList.lookup "dsound.dll".toList soundProxy.proxies).getD []
    rw [soundProxy,AList.lookup_insert]
    exact hnames method hmethod

def soundMachine (flat : ℕ→U8) : Machine :=
  onMemory (creatorImage.machine (fun r => if r=.esp then 0x2f00 else if r=.eax then 0x4000 else 0)
    0x1000) flat

theorem containsVirtualAddress_below {block : FEMemoryMapBlock} {a : U32}
    (h : a < block.virtualAddress) :
    block.containsVirtualAddress a=false :=
  decide_eq_false fun hin => absurd hin.1 (BitVec.not_le.mpr h)

theorem soundProxy_apart {a : U32} (ha : a.toNat<0x2000) :
    soundProxy.isAddressWithinLoadedImports a=.ok false := by
  have himports : importsBlock.containsVirtualAddress a=false := containsVirtualAddress_below (by
    show a < 0x3000
    bv_omega)
  have hsound : soundBlock.containsVirtualAddress a=false := containsVirtualAddress_below (by
    show a < 0x4000
    bv_omega)
  rw [FEImportsProxy.isAddressWithinLoadedImports,soundProxy,FEImportsProxy.blockContains,himports]
  simp only [FEImportsProxy.anyContains,FEImportsProxy.blockContains,hsound]
  rfl

/-- The process at the call, with the block of the library behind the other blocks. -/
theorem creator_process : ∃(s : FEProcess Unit) (flat : ℕ→U8),
    Simulates creatorImage.program s (soundMachine flat) ∧
    Linked soundProxy s ∧ Packed s.memory.map soundBlock ∧
    s.memory.map.memoryMapBlocks.elements=[codeBlock,stackBlock,importsBlock,soundBlock] ∧
    word flat 0x2f04=0x2f80 := by
  have hnone : Image.Imports none := fun proxy hproxy => by cases hproxy
  obtain ⟨s,hs,hmemory,-⟩ := creatorImage.simulates_importing hnone
    (fun r => if r=.esp then 0x2f00 else if r=.eax then 0x4000 else 0)
      (show (creatorImage.code 0x1000).isSome from rfl)
  have hmap : s.memory.map=imageMap := by rw [hmemory]
  have hbehind : behind importsBlock=0x4000 := by decide
  obtain ⟨made,hmalloc,haddress,helements,hpacked⟩ :=
    packed_imageMap.malloc (show 0<(48 : U32).toNat from by decide)
      (by rw [hbehind]; decide) .none "dsound.dll".toList 0x10000 10
  rw [hbehind,imageMap_elements] at helements
  rw [hbehind] at hpacked
  have hfresh : Fresh s.memory.map 48 ⟨some 0x10000,some 10⟩ := by
    rw [hmap]
    exact fresh_of_elements wellFormed_imageMap (by rw [imageMap_elements]; decide)
      (by rw [imageMap_elements]; decide)
  obtain ⟨block,flat,hstart,hsize,-,-,hadds,hholds,hoff⟩ :=
    malloc_adds (hmap ▸ packed_imageMap.gigabyte)
    hs.represents.memory (by decide) hfresh (hmap ▸ hmalloc)
  have hholding := holding_remap hs.toHolding hadds.toRemaps hholds fun a ha =>
    hoff a (hadds.free a ha)
  have hlinking : Holding creatorImage.program
      { s with memory := ⟨made.map,s.memory.host⟩,importsProxy := some soundProxy }
        (soundMachine flat) := by
    refine ⟨⟨hholding.represents.register,hholding.represents.flags,hholding.represents.segments,
      hholding.represents.memory,hholding.represents.data,hholding.represents.stack⟩,
      hholding.loaded,hholding.untouched,
        hholding.stack,?_,hholding.running⟩
    rintro proxy ⟨⟩ a ha
    obtain ⟨instruction,hcode⟩ := Option.isSome_iff_exists.mp (Option.isSome_map.symm.trans ha)
    obtain ⟨hpos,_,hhigh⟩ := creatorImage.placed a instruction hcode
    exact soundProxy_apart (by omega)
  have hlinked : Linked soundProxy
      { s with memory := ⟨made.map,s.memory.host⟩,importsProxy := some soundProxy } := by
    refine ⟨⟨hpacked.gigabyte,hpacked.spanned,?_⟩,rfl⟩
    rintro proxy ⟨⟩ b hb
    rcases List.mem_cons.mp hb with rfl | hb
    · exact ⟨importsBlock,by rw [helements]; simp,rfl,rfl⟩
    · exact ⟨soundBlock,by rw [helements]; simp [soundBlock],List.mem_singleton.mp hb,rfl⟩
  obtain ⟨t,-,ht,hst⟩ := hlinking.fetch creatorImage.decodedBy
    (show (creatorImage.program.entry 0x1000).isSome from rfl)
  refine ⟨t,flat,ht,hlinked.steady hst,hpacked.sameBlocks hst.blocks,?_,?_⟩
  · rw [hst.blocks.blocks]
    exact helements
  · have hcongr : readAt flat (0x2f04 : U32).toNat 4=readAt creatorImage.flat
      (0x2f04 : U32).toNat 4 := by
      refine readAt_congr fun k hk => hoff _ fun hcontains => ?_
      have hlow := hcontains.1
      rw [hstart,haddress,hbehind] at hlow
      have hcell : (0x2f04 : U32).toNat=0x2f04 := rfl
      have hnew : (0x4000 : U32).toNat=0x4000 := rfl
      omega
    rw [word,hcongr]
    exact Assembly.word_withWord_self _ _ _

/-- The table and the object get the pages behind the library's block. -/
theorem creator_room {map : FEMemoryMap DisasmContext} (hpacked : Packed map soundBlock)
    (helements : map.memoryMapBlocks.elements=[codeBlock,stackBlock,importsBlock,soundBlock]) :
    ∃made made',Room map iDirectSound "IDirectSound".toList "ptr to IDirectSound".toList soundHosts
      made made' := by
  have hbehind : behind soundBlock=0x5000 := by decide
  obtain ⟨made,htable,-,htables,hpacked'⟩ :=
    hpacked.malloc (show 0 < iDirectSound.size.toNat from by decide)
    (by rw [hbehind]; decide) .readWrite "IDirectSound".toList 0x20000 11
  rw [hbehind,helements] at htables
  rw [hbehind] at hpacked'
  have hnext : behind (mallocBlock iDirectSound.size "IDirectSound".toList 0x20000 11 0x5000)=
    0x6000 := by decide
  obtain ⟨made',hobject,-⟩ := hpacked'.malloc (show 0<(4 : U32).toNat from by decide)
    (by rw [hnext]; decide) .readWrite "ptr to IDirectSound".toList 0x30000 12
  refine ⟨made,made',fresh_of_elements hpacked.gigabyte.wellFormed ?_ ?_,htable,
    fresh_of_elements hpacked'.gigabyte.wellFormed ?_ ?_,hobject⟩
  · rw [helements]
    decide
  · rw [helements]
    decide
  · rw [htables]
    decide
  · rw [htables]
    decide

theorem creator_creates_sound : ∃(s : FEProcess Unit) (flat : ℕ→U8),
    Creates soundEnvironment creatorImage.program s (soundMachine flat) 0x1002 12 soundProxy
      iDirectSound 0x2f80 := by
  obtain ⟨s,flat,hs,hlinked,hpacked,helements,hword⟩ := creator_process
  obtain ⟨made,made',hroom⟩ := creator_room hpacked helements
  have hregistered := registered_soundProxy hpacked.gigabyte
  have hslot : ((0x2f00 : U32)-4).toNat∈Image.slots := ⟨by decide,by decide⟩
  have hcall : CallsImport soundEnvironment creatorImage.program s (soundMachine flat)
    (.register .eax) 2 "dsound.dll"
      "DirectSoundCreate" (directSoundCreate newestFirst soundHosts) := by
    refine ⟨rfl,⟨trivial,hslot⟩,rfl,⟨soundProxy,hlinked.importsProxy,?_⟩,fun _ => rfl⟩
    refine function_of_lookup (show soundProxy.isAddressWithinLoadedImports 0x4000=
      _ by decide +kernel)
      (show soundProxy.addrToFunction.lookup 0x4000=_ by decide +kernel)
        (AList.lookup_insert _) List.mem_cons_self
  have hargs : Arguments (soundMachine flat) 3 := by
    refine ⟨fun i hi => ?_,(by decide : 4 ≤ (0x2f00 : U32).toNat),
      (by decide : (0x2f00 : U32).toNat+4*3 ≤ 2^32)⟩
    show ((0x2f00 : U32)+.ofNat 32 (4*i)).toNat∈Image.slots
    have haddress : ((0x2f00 : U32)+.ofNat 32 (4*i)).toNat=0x2f00+4*i := by bv_omega
    rw [haddress]
    exact ⟨by omega,by omega⟩
  have hresult : argumentOf (soundMachine flat) 1=0x2f80 := hword
  have hdisasm : creatorImage.program.DecodedBy soundEnvironment.disasm := creatorImage.decodedBy
  have hcell : (argumentOf (soundMachine flat) 1).toNat∈(soundMachine flat).data := by
    rw [hresult]
    exact ⟨by decide,by decide⟩
  have hapart : Assembly.Apart (argumentOf (soundMachine flat) 1)
      ((soundMachine flat).register .esp-4) := by
    rw [hresult]
    exact .inr (by decide : ((0x2f00 : U32)-4).toNat+4 ≤ (0x2f80 : U32).toNat)
  have hcreates : Creates soundEnvironment creatorImage.program s (soundMachine flat) 0x1002 12
    soundProxy iDirectSound
      (argumentOf (soundMachine flat) 1) :=
    creator_creates .directSoundCreate hs hlinked hregistered binds_soundProxy rfl hdisasm hcall
      hargs trivial hroom hcell hapart
  rw [hresult] at hcreates
  exact ⟨s,flat,hcreates⟩

end Example
end FalloutEmu.InterfaceObjects
