import FalloutEmu.Grouping
import FalloutEmu.MemoryMap
import Mathlib.Data.List.AList

/-! # The table of imported functions and the binding of the static imports -/
namespace FalloutEmu

abbrev NSString := List Char

abbrev Dictionary (κ ν : Type) := AList fun _ : κ => ν

structure ProxyCoordinates where
  dllName : NSString
  funcName : NSString
  deriving DecidableEq,Repr

/-- The proxies are represented by their `funcNames`. A block of imports is a pointer that
`fe_memoryMap_blockWithTag` returned, hence possibly `NULL`. -/
structure FEImportsProxy where
  addrToFunction : Dictionary U32 ProxyCoordinates
  proxies : Dictionary NSString (List NSString)
  loadedStaticImportsMemoryBlock : Option FEMemoryMapBlock
  dynamicImportMemoryBlocks : List (Option FEMemoryMapBlock)

namespace FEImportsProxy

/-- `fe_memoryMapBlock_containsVirtualAddress` through a pointer. -/
def blockContains (block : Option FEMemoryMapBlock) (address : U32) : Except Stop Bool :=
  match block with
  | some block => .ok (block.containsVirtualAddress address)
  | none => .error .nullBlock

def anyContains (address : U32) : List (Option FEMemoryMapBlock)→Except Stop Bool
  | [] => .ok false
  | block::rest => do
    if ← blockContains block address then .ok true else anyContains address rest

def isAddressWithinLoadedImports (proxy : FEImportsProxy) (address : U32) : Except Stop Bool := do
  if ← blockContains proxy.loadedStaticImportsMemoryBlock address then .ok true
  else anyContains address proxy.dynamicImportMemoryBlocks

/-- The function that `executeFunctionAtAddress:withinProcess:` runs; `none` where the table has no
entry and the method returns 0. -/
def functionAtAddress (proxy : FEImportsProxy) (address : U32) :
    Except Stop (Option ProxyCoordinates) := do
  if ← proxy.isAddressWithinLoadedImports address then
    match proxy.addrToFunction.lookup address with
    | some coordinates =>
      if coordinates.funcName∈(proxy.proxies.lookup coordinates.dllName).getD []
        then .ok (some coordinates)
      else .error .exception
    | none => .ok none
  else .error .exception

end FEImportsProxy
end FalloutEmu

namespace FalloutEmu.StaticImports
open ByteStore (readAt value)
open Grouping (Groups Enumeration)
variable {κ : Type}

structure IMAGE_IMPORT_DESCRIPTOR where
  originalFirstThunk : U32
  timeDateStamp : U32
  forwarderChain : U32
  importedDLLName : U32
  firstThunk : U32
  deriving DecidableEq,Repr

def word (m : ℕ→U8) (p : ℕ) : U32 := .ofNat 32 (value (readAt m p 4))

def IMAGE_IMPORT_DESCRIPTOR.at (m : ℕ→U8) (p : ℕ) : IMAGE_IMPORT_DESCRIPTOR :=
  ⟨word m p,word m (p+4),word m (p+8),word m (p+12),word m (p+16)⟩

def finalImportDescriptor (impDesc : IMAGE_IMPORT_DESCRIPTOR) : Bool :=
  impDesc.originalFirstThunk=0 && impDesc.timeDateStamp=0 && impDesc.forwarderChain=0 &&
    impDesc.importedDLLName=0 && impDesc.firstThunk=0

/-- `fe_memoryMap_memcpyToRealFromVirtual` into the structure. -/
def readDescriptor (memory : Memory κ) (impDescAddr : U32) :
    Except Stop IMAGE_IMPORT_DESCRIPTOR := do
  let bytes ← memory.memcpyToRealFromVirtual impDescAddr 20
  .ok (.at (fun i => bytes.getD i 0) 0)

def cstring (host : ℕ→U8) : ℕ→ℕ→Option (List U8)
  | 0,_ => none
  | n+1,ptr => if host ptr=0 then some [] else (cstring host n (ptr+1)).map (host ptr::·)

/-- `fe_memoryMap_strcpyFromVirtualToAllocatedReal` of a debug build, which asserts `strlen(srcp) <
4095`. -/
def strcpyFromVirtualToAllocatedReal (memory : Memory κ) (src : U32) : Except Stop (List U8) := do
  let srcp ← memory.map.localAddressFromVirtualAddress src
  match cstring memory.host 4095 srcp with
  | some bytes => .ok bytes
  | none => .error .assertion

/-- `fe_stringFromASCIIcstr:`; `nil` for a byte outside the 7-bit encoding. -/
def stringFromASCIIcstr (cstr : List U8) : Option NSString :=
  if cstr.all fun b => b.toNat<128 then some (cstr.map fun b => Char.ofNat b.toNat) else none

def lowercaseString (s : NSString) : NSString := s.map Char.toLower

def kLoadedStaticImportsMemoryBlock : List Char := ".loaded-static-imports".toList

/-- A loop that the fuel may not suffice for, `none`. -/
abbrev Loop (α : Type) := Except (Option Stop) α

def once {α : Type} (x : Except Stop α) : Loop α := x.mapError some

/-- `_dllsImportMap`, the slots of each function of each library, and `importsSize`. -/
structure Walk where
  dllsImportMap : Groups NSString NSString U32
  importsSize : U32

def walkThunks (memory : Memory κ) (imageBase : U32) (dllName : NSString) :
    ℕ→U32→U32→Walk→Loop Walk
  | 0,_,_,_ => .error none
  | n+1,imageThunkDataAddr,loadedThunk,walk => do
    let imageThunkData ← once (memory.value32AtAddress imageThunkDataAddr)
    if imageThunkData=0 then .ok walk
    else do
      once (assertThat .debug (imageThunkData&&&0x80000000=0))
      let funcNameCstr ← once (strcpyFromVirtualToAllocatedReal memory (imageThunkData+2+imageBase))
      match stringFromASCIIcstr funcNameCstr with
      | none => .error (some .assertion)
      | some funcName =>
        walkThunks memory imageBase dllName n (imageThunkDataAddr+4) (loadedThunk+4)
          ⟨Grouping.add walk.dllsImportMap dllName funcName loadedThunk,walk.importsSize+4⟩

/-- The loop over the descriptors; each of its inner loops has the fuel `fuel`. -/
def walkDescriptors (memory : Memory κ) (imageBase : U32) (fuel : ℕ) : ℕ→U32→Walk→Loop Walk
  | 0,_,_ => .error none
  | n+1,impDescAddr,walk => do
    let impDesc ← once (readDescriptor memory impDescAddr)
    if finalImportDescriptor impDesc then .ok walk
    else do
      let dllNameCStr ← once (strcpyFromVirtualToAllocatedReal memory
        (impDesc.importedDLLName+imageBase))
      match (stringFromASCIIcstr dllNameCStr).map lowercaseString with
      | none => .error (some .assertion)
      | some dllName => do
        let dllsImportMap := Grouping.ensure walk.dllsImportMap dllName
        once (assertThat .debug (impDesc.originalFirstThunk≠0))
        once (assertThat .debug (impDesc.firstThunk≠0))
        let walk ← walkThunks memory imageBase dllName fuel (impDesc.originalFirstThunk+imageBase)
          (impDesc.firstThunk+imageBase) ⟨dllsImportMap,walk.importsSize⟩
        walkDescriptors memory imageBase fuel n (impDescAddr+20) walk

/-- What the second pass has bound, and the link it hands out next. -/
structure Binding (κ : Type) where
  memory : Memory κ
  addrToFunction : Dictionary U32 ProxyCoordinates
  importsProxyLinkAddr : U32

def bindSlot (dllName funcName : NSString) (binding : Binding κ) (addr : U32) :
    Except Stop (Binding κ) := do
  let memory ← binding.memory.setValue32 addr binding.importsProxyLinkAddr
  .ok ⟨memory,binding.addrToFunction.insert binding.importsProxyLinkAddr ⟨dllName,funcName⟩,
    binding.importsProxyLinkAddr+4⟩

/-- The orders in which the two levels of `_dllsImportMap` are enumerated. -/
structure Order where
  dlls : Enumeration NSString (AList fun _ : NSString => List U32)
  functions : Enumeration NSString (List U32)

def bindAll (order : Order) (dllsImportMap : Groups NSString NSString U32) (binding : Binding κ) :
    Except Stop (Binding κ) :=
  (order.dlls.list dllsImportMap).foldlM (fun binding dll =>
    (order.functions.list dll.2).foldlM (fun binding function =>
      function.2.foldlM (bindSlot dll.1 function.1) binding) binding) binding

/-- `initWithMemoryMap:idataAddress:idataSize:imageBase:`, which uses no size. -/
def initWithMemoryMap (fuel : ℕ) (memory : Memory κ) (idataAddress imageBase : U32)
    (host : HostAllocation) (order : Order) : Loop (Memory κ×FEImportsProxy) := do
  let walk ← walkDescriptors memory imageBase fuel fuel idataAddress ⟨∅,0⟩
  let result ← once (memory.map.malloc .debug walk.importsSize .readWrite
    kLoadedStaticImportsMemoryBlock host)
  let block := result.map.blockWithTag kLoadedStaticImportsMemoryBlock
  let binding ← once (bindAll order walk.dllsImportMap ⟨{ memory with map := result.map },∅,
    result.address⟩)
  .ok (binding.memory,⟨binding.addrToFunction,∅,block,[]⟩)

end FalloutEmu.StaticImports
