import FalloutEmu.FlatMemory
import FalloutEmu.ByteStore
import FalloutEmu.ImportsProxy
import Mathlib.Order.CompletePartialOrder

/-! # Static binding: every slot of an image's import directory holds a link of its own -/
namespace FalloutEmu.StaticImports
open ByteStore (readAt writeAt value littleEndian length_littleEndian getElem_readAt length_readAt
  writeAt_apply_of_outside readAt_writeAt_self ofNat_value_littleEndian)
open FEMemoryMap (create mallocBlock SameBlocks Offers Fits WellFormed mem_withBlock)
open Grouping (Groups Enumeration elements enumerated)
open FlatMemory (Holds InBlock Apart Guest StoreEvent StoreStep NoWrap EndsInSpace FreshBuffer
  StepSpec Extends localAddress_of_contains)
variable {κ : Type}

/-! ## The import directory of an image -/

structure ImportedFunction where
  imageThunkData : U32
  name : List U8

structure ImportedDLL where
  descriptor : IMAGE_IMPORT_DESCRIPTOR
  name : List U8
  functions : List ImportedFunction

def ascii (cstr : List U8) : NSString := cstr.map fun b => Char.ofNat b.toNat

/-- A short string of 7-bit characters and its terminator lie in one block. -/
structure CString (m : FEMemoryMap κ) (flat : ℕ→U8) (a : U32) (cstr : List U8) : Prop where
  short : cstr.length<4095
  characters : ∀b∈cstr,b≠0 ∧ b.toNat<128
  inBlock : InBlock m a.toNat (cstr.length+1)
  bytes : readAt flat a.toNat (cstr.length+1)=cstr++[0]

/-- A zero-terminated list of imports by name at `addr`, with a slot for each from `slot`. -/
def ThunkList (m : FEMemoryMap κ) (flat : ℕ→U8) (imageBase : U32) :
    U32→U32→List ImportedFunction→Prop
  | addr,_,[] => InBlock m addr.toNat 4 ∧ word flat addr.toNat=0
  | addr,slot,f::fs => (InBlock m addr.toNat 4 ∧ word flat addr.toNat=f.imageThunkData) ∧
      f.imageThunkData≠0 ∧ f.imageThunkData&&&0x80000000=0 ∧
      CString m flat (f.imageThunkData+2+imageBase) f.name ∧
      InBlock m slot.toNat 4 ∧ ThunkList m flat imageBase (addr+4) (slot+4) fs

def DescriptorList (m : FEMemoryMap κ) (flat : ℕ→U8) (imageBase : U32) : U32→List ImportedDLL→Prop
  | addr,[] => InBlock m addr.toNat 20 ∧ finalImportDescriptor (.at flat addr.toNat)=true
  | addr,d::ds => (InBlock m addr.toNat 20 ∧ .at flat addr.toNat=d.descriptor) ∧
      d.descriptor.originalFirstThunk≠0 ∧ d.descriptor.firstThunk≠0 ∧
      CString m flat (d.descriptor.importedDLLName+imageBase) d.name ∧
      ThunkList m flat imageBase (d.descriptor.originalFirstThunk+imageBase)
        (d.descriptor.firstThunk+imageBase)
        d.functions ∧
      DescriptorList m flat imageBase (addr+20) ds

def slots (dllName : NSString) : U32→List ImportedFunction→List (NSString×NSString×U32)
  | _,[] => []
  | slot,f::fs => (dllName,ascii f.name,slot)::slots dllName (slot+4) fs

def ImportedDLL.slots (imageBase : U32) (d : ImportedDLL) : List (NSString×NSString×U32) :=
  StaticImports.slots (lowercaseString (ascii d.name))
    (d.descriptor.firstThunk+imageBase) d.functions

/-- All slots of the image, with the library and the function that each imports. -/
def allSlots (imageBase : U32) (ds : List ImportedDLL) : List (NSString×NSString×U32) :=
  ds.flatMap (ImportedDLL.slots imageBase)

/-! ## The walk -/

@[simp] theorem once_ok {α : Type} (a : α) : once (.ok a)=.ok a := rfl

theorem readAt_succ (m : ℕ→U8) (p n : ℕ) : readAt m p (n+1)=m p::readAt m (p+1) n := by
  rw [Nat.add_comm,ByteStore.readAt_add]
  rfl

theorem cstring_eq {host : ℕ→U8} {cstr : List U8} {ptr n : ℕ} (hn : cstr.length<n)
    (hne : ∀b∈cstr,b≠0) (h : readAt host ptr (cstr.length+1)=cstr++[0]) :
    cstring host n ptr=some cstr := by
  induction cstr generalizing ptr n with
  | nil =>
    obtain ⟨n,rfl⟩ := Nat.exists_eq_succ_of_ne_zero (by omega : n≠0)
    have hzero : host ptr=0 := by simpa [readAt] using h
    rw [cstring,if_pos hzero]
  | cons b cstr ih =>
    obtain ⟨n,rfl⟩ := Nat.exists_eq_succ_of_ne_zero (by omega : n≠0)
    rw [List.length_cons,readAt_succ,List.cons_append] at h
    obtain ⟨hb,hrest⟩ := List.cons.inj h
    have hb0 := hne b List.mem_cons_self
    rw [cstring,hb,if_neg hb0,ih (by simpa using hn)
      (fun c hc => hne c (List.mem_cons_of_mem _ hc)) hrest]
    rfl

theorem strcpy_eq {memory : Memory κ} {flat : ℕ→U8} (h : Holds memory flat) {a : U32}
    {cstr : List U8} (hstring : CString memory.map flat a cstr) :
    strcpyFromVirtualToAllocatedReal memory a=.ok cstr := by
  obtain ⟨ptr,hptr,hread⟩ := bind_eq_ok.mp (h.load (Nat.succ_pos _) hstring.inBlock)
  have hbytes := (Except.ok.inj hread).trans hstring.bytes
  rw [strcpyFromVirtualToAllocatedReal,hptr,ok_bind,
    cstring_eq hstring.short (fun b hb => (hstring.characters b hb).1) hbytes]

theorem stringFromASCIIcstr_eq {m : FEMemoryMap κ} {flat : ℕ→U8} {a : U32} {cstr : List U8}
    (h : CString m flat a cstr) : stringFromASCIIcstr cstr=some (ascii cstr) :=
  if_pos (List.all_eq_true.mpr fun b hb => decide_eq_true (h.characters b hb).2)

theorem value32_eq {memory : Memory κ} {flat : ℕ→U8} (h : Holds memory flat) {a : U32}
    (hin : InBlock memory.map a.toNat 4) : memory.value32AtAddress a=.ok (word flat a.toNat) := by
  rw [Memory.value32AtAddress,h.load (by decide) hin]
  rfl

theorem readDescriptor_eq {memory : Memory κ} {flat : ℕ→U8} (h : Holds memory flat) {a : U32}
    (hin : InBlock memory.map a.toNat 20) : readDescriptor memory a=.ok (.at flat a.toNat) := by
  rw [readDescriptor,Memory.memcpyToRealFromVirtual,show (20 : U32).toNat=20 from rfl,
    h.load (by decide) hin]
  have hword (k : ℕ) (hk : k+4≤20) : word (fun i => (readAt flat a.toNat 20).getD i 0) k=
    word flat (a.toNat+k) := by
    unfold word
    congr 2
    apply List.map_congr_left
    intro i hi
    have hlt := List.mem_range.mp hi
    have hin : k+i<(readAt flat a.toNat 20).length := by
      rw [length_readAt]
      omega
    dsimp only
    rw [List.getD_eq_getElem?_getD,List.getElem?_eq_getElem hin,Option.getD_some,getElem_readAt,
      Nat.add_assoc]
  have hstart := hword 0 (by decide)
  simp only [IMAGE_IMPORT_DESCRIPTOR.at,ok_bind,Nat.zero_add,hword 4 (by decide),
    hword 8 (by decide),
    hword 12 (by decide),hword 16 (by decide),hstart,Nat.add_zero]

theorem walkThunks_eq {memory : Memory κ} {flat : ℕ→U8} (h : Holds memory flat) {imageBase : U32}
    (dllName : NSString) {fs : List ImportedFunction} {addr slot : U32} (walk : Walk)
    (hlist : ThunkList memory.map flat imageBase addr slot fs) :
    ∃imports,(∀n,fs.length<n → walkThunks memory imageBase dllName n addr slot walk=
        .ok ⟨imports,walk.importsSize+.ofNat 32 (4*fs.length)⟩) ∧
      (elements imports).Perm (slots dllName slot fs++elements walk.dllsImportMap) := by
  induction fs generalizing addr slot walk with
  | nil =>
    obtain ⟨hin,hzero⟩ := hlist
    refine ⟨walk.dllsImportMap,?_,List.Perm.refl _⟩
    intro n hn
    obtain ⟨n,rfl⟩ := Nat.exists_eq_succ_of_ne_zero (by omega : n≠0)
    rw [walkThunks,value32_eq h hin,hzero]
    simp
  | cons f fs ih =>
    obtain ⟨⟨hin,hthunk⟩,hne,hordinal,hname,_,hrest⟩ := hlist
    obtain ⟨imports,hwalk,hperm⟩ :=
      ih ⟨Grouping.add walk.dllsImportMap dllName (ascii f.name) slot,walk.importsSize+4⟩ hrest
    refine ⟨imports,?_,?_⟩
    · intro n hn
      obtain ⟨n,rfl⟩ := Nat.exists_eq_succ_of_ne_zero (by omega : n≠0)
      rw [walkThunks,value32_eq h hin,hthunk,once_ok,ok_bind,if_neg hne,assertThat_pos hordinal,
        once_ok,ok_bind,strcpy_eq h hname,once_ok,ok_bind,stringFromASCIIcstr_eq hname]
      simp only
      rw [hwalk n (by simpa using hn)]
      simp only [List.length_cons]
      congr 2
      rw [BitVec.add_assoc,Nat.mul_add,Nat.add_comm (4*fs.length),BitVec.ofNat_add]
      rfl
    · refine hperm.trans ?_
      refine ((Grouping.elements_add _ dllName (ascii f.name) slot).append_left _).trans ?_
      exact List.perm_middle

def walkFuel (ds : List ImportedDLL) : ℕ := (ds.map fun d => d.functions.length+1).sum+1

def importCount (ds : List ImportedDLL) : ℕ := (ds.map fun d => d.functions.length).sum

theorem not_final {d : IMAGE_IMPORT_DESCRIPTOR} (h : d.originalFirstThunk≠0) :
    finalImportDescriptor d=false := by
  rw [finalImportDescriptor,decide_eq_false h]
  rfl

/-- The outer loop collects the slots of the whole directory. -/
theorem walkDescriptors_eq {memory : Memory κ} {flat : ℕ→U8} (h : Holds memory flat)
    {imageBase : U32} {ds : List ImportedDLL} {addr : U32} (walk : Walk)
    (hlist : DescriptorList memory.map flat imageBase addr ds) :
    ∃imports,(∀fuel n,walkFuel ds ≤ fuel → ds.length<n → walkDescriptors memory imageBase fuel
      n addr walk=
        .ok ⟨imports,walk.importsSize+.ofNat 32 (4*importCount ds)⟩) ∧
      (elements imports).Perm (allSlots imageBase ds++elements walk.dllsImportMap) := by
  induction ds generalizing addr walk with
  | nil =>
    obtain ⟨hin,hfinal⟩ := hlist
    refine ⟨walk.dllsImportMap,?_,List.Perm.refl _⟩
    intro fuel n _ hn
    obtain ⟨n,rfl⟩ := Nat.exists_eq_succ_of_ne_zero (by omega : n≠0)
    rw [walkDescriptors,readDescriptor_eq h hin,once_ok,ok_bind,if_pos hfinal]
    simp [importCount]
  | cons d ds ih =>
    obtain ⟨⟨hin,hdescriptor⟩,hoft,hft,hname,hthunks,hrest⟩ := hlist
    obtain ⟨inner,hinner,hinnerPerm⟩ := walkThunks_eq h (lowercaseString (ascii d.name))
      ⟨Grouping.ensure walk.dllsImportMap (lowercaseString (ascii d.name)),walk.importsSize⟩ hthunks
    obtain ⟨imports,hwalk,hperm⟩ := ih ⟨inner,walk.importsSize+.ofNat 32 (4*d.functions.length)⟩
      hrest
    refine ⟨imports,?_,?_⟩
    · intro fuel n hfuel hn
      obtain ⟨n,rfl⟩ := Nat.exists_eq_succ_of_ne_zero (by omega : n≠0)
      rw [walkFuel,List.map_cons,List.sum_cons] at hfuel
      rw [walkDescriptors,readDescriptor_eq h hin,hdescriptor,once_ok,ok_bind,
        if_neg (by simp [not_final hoft]),
        strcpy_eq h hname,once_ok,ok_bind,stringFromASCIIcstr_eq hname,Option.map_some]
      simp only
      rw [assertThat_pos hoft,once_ok,ok_bind,assertThat_pos hft,once_ok,ok_bind,
        hinner fuel (by omega),ok_bind,
        hwalk fuel n (by rw [walkFuel]; omega) (by simpa using hn)]
      congr 2
      rw [BitVec.add_assoc,←BitVec.ofNat_add,importCount,importCount,List.map_cons,List.sum_cons,
        Nat.mul_add]
    · have hall : allSlots imageBase (d::ds)=d.slots imageBase++allSlots imageBase ds :=
        List.flatMap_cons
      rw [Grouping.elements_ensure] at hinnerPerm
      refine hperm.trans ((hinnerPerm.append_left _).trans ?_)
      rw [hall,←List.append_assoc]
      exact List.perm_append_comm.append_right _

/-! ## The binding -/

theorem foldlM_flatMap {α β γ : Type} {ε : Type} (l : List α) (f : α→List β)
    (g : γ→β→Except ε γ) (c : γ) :
    (l.flatMap f).foldlM g c=l.foldlM (fun c a => (f a).foldlM g c) c := by
  induction l generalizing c with
  | nil => rfl
  | cons a l ih =>
    rw [List.flatMap_cons,List.foldlM_append,List.foldlM_cons]
    congr 1
    funext c
    exact ih c

/-- The nested loops bind the slots in the order of the enumeration. -/
theorem bindAll_eq (order : Order) (imports : Groups NSString NSString U32) (binding : Binding κ) :
    bindAll order imports binding=(enumerated order.dlls order.functions imports).foldlM
      (fun binding slot => bindSlot slot.1 slot.2.1 binding slot.2.2) binding := by
  rw [enumerated,foldlM_flatMap,bindAll]
  congr 1
  funext binding dll
  rw [foldlM_flatMap]
  congr 1
  funext binding function
  rw [List.foldlM_map]

theorem setValue32_run {memory : Memory κ} {flat : ℕ→U8} (h : Holds memory flat) {a : U32} (v : U32)
    (hin : InBlock memory.map a.toNat 4) :
    ∃memory',memory.setValue32 a v=.ok memory' ∧ memory'.map=memory.map ∧
      Holds memory' (writeAt flat a.toNat (littleEndian 4 v.toNat)) := by
  obtain ⟨b,hb,hlow,hhigh⟩ := hin
  have hlocal := localAddress_of_contains h.wellFormed hb ⟨hlow,by omega⟩
  obtain ⟨memory',hstore⟩ : ∃memory',memory.store a (littleEndian 4 v.toNat)=.ok memory' := by
    rw [Memory.store,hlocal]
    exact ⟨_,rfl⟩
  obtain ⟨hholds,hmap⟩ := h.store (by rw [length_littleEndian]; exact ⟨b,hb,hlow,hhigh⟩) hstore
  exact ⟨memory',hstore,hmap,hholds⟩

theorem word_writeAt (flat : ℕ→U8) (p : ℕ) (v : U32) :
    word (writeAt flat p (littleEndian 4 v.toNat)) p=v := by
  have hread := readAt_writeAt_self flat p (littleEndian 4 v.toNat)
  rw [length_littleEndian] at hread
  rw [word,hread]
  exact ofNat_value_littleEndian (n:=4) rfl v

theorem word_congr {flat flat' : ℕ→U8} {p : ℕ} (h : ∀a,p ≤ a → a < p+4 → flat' a=flat a) :
    word flat' p=word flat p := by
  unfold word
  rw [ByteStore.readAt_congr]
  intro i hi
  exact h (p+i) (Nat.le_add_right _ _) (by omega)

def startOf (slot : NSString×NSString×U32) : ℕ := slot.2.2.toNat

def sizeOf (_ : NSString×NSString×U32) : ℕ := 4

def linkAt (base : U32) (k : ℕ) : U32 := base+.ofNat 32 (4*k)

/-- The slots `ls` hold consecutive links, each link is in the table, and nothing else has
changed. -/
structure Bound (binding binding' : Binding κ) (flat flat' : ℕ→U8)
    (ls : List (NSString×NSString×U32)) : Prop where
  map : binding'.memory.map=binding.memory.map
  holds : Holds binding'.memory flat'
  slot : ∀k,∀h : k<ls.length,word flat' (startOf (ls.get ⟨k,h⟩))=
    linkAt binding.importsProxyLinkAddr k
  table : ∀k,∀h : k<ls.length,binding'.addrToFunction.lookup
    (linkAt binding.importsProxyLinkAddr k)=
    some ⟨(ls.get ⟨k,h⟩).1,(ls.get ⟨k,h⟩).2.1⟩
  bytes : ∀a,(∀slot∈ls,a<startOf slot ∨ startOf slot+4 ≤ a) → flat' a=flat a
  others : ∀v : U32,(∀k<ls.length,v≠linkAt binding.importsProxyLinkAddr k) →
    binding'.addrToFunction.lookup v=binding.addrToFunction.lookup v

theorem linkAt_zero (base : U32) : linkAt base 0=base := BitVec.add_zero _

theorem linkAt_succ (base : U32) (k : ℕ) : linkAt (base+4) k=linkAt base (k+1) := by
  unfold linkAt
  rw [BitVec.add_assoc,Nat.mul_succ,Nat.add_comm,BitVec.ofNat_add]
  rfl

theorem toNat_linkAt {base : U32} {k n : ℕ} (hk : k<n) (hroom : base.toNat+4*n<2^32) :
    (linkAt base k).toNat=base.toNat+4*k := by
  unfold linkAt
  rw [BitVec.toNat_add,BitVec.toNat_ofNat]
  omega

theorem linkAt_injective {base : U32} {k l n : ℕ} (hk : k<n) (hl : l<n)
    (hroom : base.toNat+4*n<2^32) (h : linkAt base k=linkAt base l) : k=l := by
  have hnat := congrArg BitVec.toNat h
  rw [toNat_linkAt hk hroom,toNat_linkAt hl hroom] at hnat
  omega

theorem bind_run (binding : Binding κ) {flat : ℕ→U8} (ls : List (NSString×NSString×U32))
    (h : Holds binding.memory flat) (hin : ∀slot∈ls,InBlock binding.memory.map (startOf slot) 4)
    (hapart : ls.Pairwise (Intervals.Apart startOf sizeOf))
    (hroom : binding.importsProxyLinkAddr.toNat+4*ls.length<2^32) :
    ∃binding' flat',ls.foldlM (fun binding slot => bindSlot slot.1 slot.2.1 binding slot.2.2)
      binding=.ok binding' ∧
      Bound binding binding' flat flat' ls := by
  induction ls generalizing binding flat with
  | nil =>
    refine ⟨binding,flat,rfl,rfl,h,?_,?_,fun _ _ => rfl,fun _ _ => rfl⟩
    · intro k hk
      cases hk
    · intro k hk
      cases hk
  | cons slot ls ih =>
    obtain ⟨hfirst,hapart⟩ := List.pairwise_cons.mp hapart
    rw [List.length_cons] at hroom
    obtain ⟨memory,hset,hmap,hholds⟩ :=
      setValue32_run h binding.importsProxyLinkAddr (hin slot List.mem_cons_self)
    let next : Binding κ := ⟨memory,binding.addrToFunction.insert binding.importsProxyLinkAddr
      ⟨slot.1,slot.2.1⟩,binding.importsProxyLinkAddr+4⟩
    have hnext : next.importsProxyLinkAddr.toNat=binding.importsProxyLinkAddr.toNat+4 := by
      have hadd : (binding.importsProxyLinkAddr+4).toNat=
        (binding.importsProxyLinkAddr.toNat+4)%2^32 :=
        BitVec.toNat_add _ _
      rw [show next.importsProxyLinkAddr=binding.importsProxyLinkAddr+4 from rfl,hadd]
      exact Nat.mod_eq_of_lt (by omega)
    obtain ⟨binding',flat',hrun,hbound⟩ := ih next hholds
      (fun s hs => hmap ▸ hin s (List.mem_cons_of_mem _ hs)) hapart (by rw [hnext]; omega)
    refine ⟨binding',flat',?_,hbound.map.trans hmap,hbound.holds,?_,?_,?_,?_⟩
    · rw [List.foldlM_cons,bindSlot,hset,ok_bind,ok_bind]
      exact hrun
    · intro k hk
      cases k with
      | zero =>
        rw [linkAt_zero]
        change word flat' (startOf slot)=binding.importsProxyLinkAddr
        refine (word_congr ?_).trans (word_writeAt flat _ _)
        intro a hlow hhigh
        apply hbound.bytes
        intro s hs
        rcases hfirst s hs with hbefore | hafter
        · exact .inl (Nat.lt_of_lt_of_le hhigh hbefore)
        · exact .inr (Nat.le_trans hafter hlow)
      | succ k =>
        rw [←linkAt_succ]
        exact hbound.slot k (by simpa using hk)
    · intro k hk
      cases k with
      | zero =>
        rw [linkAt_zero,hbound.others]
        · exact AList.lookup_insert _
        · intro k hk heq
          have hnat := congrArg BitVec.toNat heq
          rw [toNat_linkAt hk (by rw [hnext]; omega),hnext] at hnat
          omega
      | succ k =>
        rw [←linkAt_succ]
        exact hbound.table k (by simpa using hk)
    · intro a ha
      rw [hbound.bytes a fun s hs => ha s (List.mem_cons_of_mem _ hs)]
      apply writeAt_apply_of_outside
      rw [length_littleEndian]
      exact ha slot List.mem_cons_self
    · intro v hv
      rw [hbound.others]
      · exact AList.lookup_insert_ne (by simpa [linkAt_zero] using hv 0 (Nat.succ_pos _))
      · intro k hk
        rw [show next.importsProxyLinkAddr=binding.importsProxyLinkAddr+4 from rfl,linkAt_succ]
        exact hv (k+1) (Nat.succ_lt_succ hk)

/-! ## Where the slots are -/

theorem length_slots (dllName : NSString) (slot : U32) (fs : List ImportedFunction) :
    (slots dllName slot fs).length=fs.length := by
  induction fs generalizing slot with
  | nil => rfl
  | cons f fs ih => rw [slots,List.length_cons,List.length_cons,ih]

theorem mem_slots {dllName : NSString} {slot : U32} {fs : List ImportedFunction}
    {s : NSString×NSString×U32} :
    s∈slots dllName slot fs ↔ ∃i :
    Fin fs.length,s=(dllName,ascii (fs.get i).name,linkAt slot i) := by
  induction fs generalizing slot with
  | nil =>
    constructor
    · intro h
      cases h
    · rintro ⟨i,_⟩
      exact i.elim0
  | cons f fs ih =>
    rw [slots,List.mem_cons,ih]
    constructor
    · rintro (rfl | ⟨i,rfl⟩)
      · exact ⟨⟨0,Nat.succ_pos _⟩,by rw [linkAt_zero]; rfl⟩
      · exact ⟨i.succ,by rw [linkAt_succ]; rfl⟩
    · rintro ⟨⟨i,hi⟩,rfl⟩
      cases i with
      | zero =>
        rw [linkAt_zero]
        exact .inl rfl
      | succ i =>
        rw [←linkAt_succ]
        exact .inr ⟨⟨i,Nat.lt_of_succ_lt_succ hi⟩,rfl⟩

/-- The blocks of the map end within its gigabyte. -/
def Inside (m : FEMemoryMap κ) : Prop :=
  ∀b∈m.memoryMapBlocks.elements,b.virtualAddress.toNat+b.size.toNat≤0x40000000

theorem Inside.inBlock {m : FEMemoryMap κ} (h : Inside m) {a n : ℕ} (hin : InBlock m a n) :
    a+n≤0x40000000 := by
  obtain ⟨b,hb,_,hhigh⟩ := hin
  exact hhigh.trans (h b hb)

theorem slots_inBlock {m : FEMemoryMap κ} {flat : ℕ→U8} {imageBase : U32} {dllName : NSString}
    {fs : List ImportedFunction} {addr slot : U32} (h : ThunkList m flat imageBase addr slot fs) :
    ∀s∈slots dllName slot fs,InBlock m (startOf s) 4 := by
  induction fs generalizing addr slot with
  | nil =>
    intro s hs
    cases hs
  | cons f fs ih =>
    obtain ⟨_,_,_,_,hslot,hrest⟩ := h
    intro s hs
    rcases List.mem_cons.mp hs with rfl | hs
    · exact hslot
    · exact ih hrest s hs

/-- The slots of a library follow each other from the first one. -/
theorem slots_before {m : FEMemoryMap κ} (hinside : Inside m) {flat : ℕ→U8} {imageBase : U32}
    {dllName : NSString} {fs : List ImportedFunction} {addr slot : U32}
    (h : ThunkList m flat imageBase addr slot fs) :
    (slots dllName slot fs).Pairwise (Intervals.Before startOf sizeOf) ∧
      ∀s∈slots dllName slot fs,slot.toNat ≤ startOf s ∧ startOf s+4 ≤ slot.toNat+4*fs.length := by
  induction fs generalizing addr slot with
  | nil =>
    refine ⟨List.Pairwise.nil,?_⟩
    intro s hs
    cases hs
  | cons f fs ih =>
    obtain ⟨_,_,_,_,hslot,hrest⟩ := h
    have hend := hinside.inBlock hslot
    have hnext : (slot+4).toNat=slot.toNat+4 := by bv_omega
    obtain ⟨hpairwise,hrange⟩ := ih hrest
    rw [hnext] at hrange
    constructor
    · refine List.pairwise_cons.mpr ⟨?_,hpairwise⟩
      intro s hs
      exact (hrange s hs).1
    · intro s hs
      rw [List.length_cons]
      rcases List.mem_cons.mp hs with rfl | hs
      · change slot.toNat ≤ slot.toNat ∧ slot.toNat+4 ≤ _
        omega
      · have hs := hrange s hs
        omega

theorem toNat_slot {m : FEMemoryMap κ} (hinside : Inside m) {flat : ℕ→U8} {imageBase : U32}
    {fs : List ImportedFunction} {addr slot : U32} (h : ThunkList m flat imageBase addr slot fs)
    {i : ℕ} (hi : i<fs.length) : (linkAt slot i).toNat=slot.toNat+4*i := by
  induction fs generalizing addr slot i with
  | nil => cases hi
  | cons f fs ih =>
    obtain ⟨_,_,_,_,hslot,hrest⟩ := h
    have hend := hinside.inBlock hslot
    have hnext : (slot+4).toNat=slot.toNat+4 := by bv_omega
    cases i with
    | zero => rw [linkAt_zero,Nat.mul_zero,Nat.add_zero]
    | succ i =>
      rw [←linkAt_succ,ih hrest (Nat.lt_of_succ_lt_succ hi),hnext]
      omega

theorem DescriptorList.thunks {m : FEMemoryMap κ} {flat : ℕ→U8} {imageBase : U32}
    {ds : List ImportedDLL} {addr : U32} (h : DescriptorList m flat imageBase addr ds) :
    ∀d∈ds,ThunkList m flat imageBase
      (d.descriptor.originalFirstThunk+imageBase)
      (d.descriptor.firstThunk+imageBase) d.functions := by
  induction ds generalizing addr with
  | nil =>
    intro d hd
    cases hd
  | cons d ds ih =>
    obtain ⟨_,_,_,_,hthunks,hrest⟩ := h
    intro e he
    rcases List.mem_cons.mp he with rfl | he
    · exact hthunks
    · exact ih hrest e he

def iatSlot (imageBase : U32) (d : ImportedDLL) (i : ℕ) : U32 :=
  linkAt (d.descriptor.firstThunk+imageBase) i

def iatRange (imageBase : U32) (d : ImportedDLL) : Set ℕ :=
  .Ico (d.descriptor.firstThunk+imageBase).toNat
    ((d.descriptor.firstThunk+imageBase).toNat+4*d.functions.length)

def IatsDisjoint (imageBase : U32) (ds : List ImportedDLL) : Prop :=
  ds.Pairwise fun d e => Disjoint (iatRange imageBase d) (iatRange imageBase e)

theorem allSlots_apart {m : FEMemoryMap κ} (hinside : Inside m) {flat : ℕ→U8} {imageBase : U32}
    {ds : List ImportedDLL} {addr : U32} (h : DescriptorList m flat imageBase addr ds)
    (hdisjoint : IatsDisjoint imageBase ds) :
    (allSlots imageBase ds).Pairwise (Intervals.Apart startOf sizeOf) := by
  refine List.pairwise_flatMap.mpr ⟨?_,?_⟩
  · intro d hd
    exact (slots_before hinside (h.thunks d hd)).1.imp Or.inl
  · refine hdisjoint.imp_of_mem ?_
    intro d e hd he hapart s hs t ht
    obtain ⟨hslow,hshigh⟩ := (slots_before hinside (h.thunks d hd)).2 s hs
    obtain ⟨htlow,hthigh⟩ := (slots_before hinside (h.thunks e he)).2 t ht
    -- the later of the two starts would lie in both ranges
    have hboth (a : ℕ) (had : a∈iatRange imageBase d) : a∉iatRange imageBase e :=
      Set.disjoint_left.mp hapart had
    have hleft := hboth (startOf s)
    have hright := hboth (startOf t)
    simp only [iatRange,Set.mem_Ico] at hleft hright
    unfold Intervals.Apart Intervals.Before sizeOf
    omega

theorem allSlots_inBlock {m : FEMemoryMap κ} {flat : ℕ→U8} {imageBase : U32} {ds : List ImportedDLL}
    {addr : U32} (h : DescriptorList m flat imageBase addr ds) :
    ∀s∈allSlots imageBase ds,InBlock m (startOf s) 4 := by
  intro s hs
  obtain ⟨d,hd,hs⟩ := List.mem_flatMap.mp hs
  exact slots_inBlock (h.thunks d hd) s hs

theorem length_allSlots (imageBase : U32) (ds : List ImportedDLL) :
    (allSlots imageBase ds).length=importCount ds := by
  rw [allSlots,List.length_flatMap,importCount]
  congr 1
  exact List.map_congr_left fun d _ => length_slots _ _ _

theorem importCount_le {m : FEMemoryMap κ} (hinside : Inside m) {flat : ℕ→U8} {imageBase : U32}
    {ds : List ImportedDLL} {addr : U32} (h : DescriptorList m flat imageBase addr ds)
    (hdisjoint : IatsDisjoint imageBase ds) :
    4*importCount ds≤0x40000000 := by
  have hsum := Intervals.sum_size_le_of_apart (allSlots_apart hinside h hdisjoint)
    (fun _ _ => Nat.succ_pos 3)
    (Nat.zero_le 0x40000000) (fun _ _ => Nat.zero_le _)
    fun s hs => hinside.inBlock (allSlots_inBlock h s hs)
  have hsize : ((allSlots imageBase ds).map sizeOf).sum=4*importCount ds := by
    have hconst : (allSlots imageBase ds).map sizeOf=
      List.replicate (allSlots imageBase ds).length 4 :=
      List.map_const'
    rw [hconst,List.sum_replicate_nat,length_allSlots,Nat.mul_comm]
  rwa [hsize,Nat.zero_add] at hsum

/-! ## The initialiser -/

/-- The only element with a property is the one that is found. -/
theorem find_unique {α : Type} {p : α→Bool} {l : List α} {a : α} (ha : a∈l) (hp : p a=true)
    (hunique : ∀b∈l,p b=true → b=a) : l.find? p=some a := by
  cases hfind : l.find? p with
  | none => exact absurd hp (by simpa using List.find?_eq_none.mp hfind a ha)
  | some b => rw [hunique b (List.mem_of_find?_eq_some hfind) (List.find?_some hfind)]

/-- The map of a process and blocks that end within its gigabyte. -/
structure Gigabyte (m : FEMemoryMap κ) : Prop where
  wellFormed : WellFormed m
  size : m.size=0x40000000
  inside : Inside m

theorem Gigabyte.offers {m : FEMemoryMap κ} (h : Gigabyte m) {size : U32}
    (hfits : size.toNat≤0x40000000) :
    m.Offers size (Fits 0x40000000 size) := by
  have hlimit : m.size.toNat=0x40000000 := by
    rw [h.size]
    rfl
  rw [←hlimit]
  apply h.wellFormed.offers_fits
  · rw [hlimit]
    exact h.inside
  · intro b hb
    have hb := h.inside b hb
    unfold FEMemoryMap.roundedEnd FEMemoryMapBlock.pageEnd
    omega
  · intro _
    rw [hlimit]
    decide

theorem endsInSpace_of_fits {size address : U32} (h : Fits 0x40000000 size address) :
    EndsInSpace size address :=
  ⟨h.low,h.high.trans (by decide)⟩

/-- An allocation adds its block, which ends within the gigabyte too. -/
theorem Gigabyte.malloc {m : FEMemoryMap κ} (h : Gigabyte m) {size : U32}
    (hfits : size.toNat≤0x40000000) {mode : FEMemoryAccessMode} {tag : List Char}
    {realAddress newBlock : ℕ} {result : FEMemoryMap.MallocResult κ}
    (hmalloc : m.malloc .debug size mode tag ⟨some realAddress,some newBlock⟩=.ok result) :
    Gigabyte result.map ∧ Fits 0x40000000 size result.address ∧
      ∀b,b∈result.map.memoryMapBlocks.elements ↔ b∈m.memoryMapBlocks.elements ∨
        b=mallocBlock size tag realAddress newBlock result.address := by
  obtain ⟨hw,hsame,hplace,_⟩ := h.wellFormed.malloc (h.offers hfits)
    (fun address hfit => FlatMemory.endsInSpace_reach address (endsInSpace_of_fits hfit)) hmalloc
  have hmem (b : FEMemoryMapBlock) : b∈result.map.memoryMapBlocks.elements ↔
    b∈m.memoryMapBlocks.elements ∨
      b=mallocBlock size tag realAddress newBlock result.address := by
    rw [hsame.blocks,mem_withBlock]
  refine ⟨⟨hw,hsame.size.trans h.size,?_⟩,hplace,hmem⟩
  intro b hb
  rcases (hmem b).mp hb with hold | rfl
  · exact h.inside b hold
  · exact hplace.high

theorem blockWithTag_malloc {m m' : FEMemoryMap κ} {block : FEMemoryMapBlock}
    (hmem : ∀b,b∈m'.memoryMapBlocks.elements ↔ b∈m.memoryMapBlocks.elements ∨ b=block)
    (hnew : ∀b∈m.memoryMapBlocks.elements,b.tag≠block.tag) :
    m'.blockWithTag block.tag=some block := by
  apply find_unique ((hmem _).mpr (.inr rfl)) (decide_eq_true rfl)
  intro b hb htag
  rcases (hmem b).mp hb with hold | rfl
  · exact absurd (of_decide_eq_true htag) (hnew b hold)
  · rfl

/-- The allocation of the links, of a map whose blocks end within its gigabyte. -/
structure Allocation (memory : Memory κ) (size : U32) (realAddress newBlock : ℕ)
    (result : FEMemoryMap.MallocResult κ) : Prop where
  run : memory.map.malloc .debug size .readWrite kLoadedStaticImportsMemoryBlock ⟨some realAddress,
    some newBlock⟩=
    .ok result
  buffer : ∀b∈memory.map.memoryMapBlocks.elements,
    b.localAddress+b.size.toNat ≤ realAddress ∨ realAddress+size.toNat ≤ b.localAddress
  tag : ∀b∈memory.map.memoryMapBlocks.elements,b.tag≠kLoadedStaticImportsMemoryBlock

def linksBlock (size : U32) (realAddress newBlock : ℕ) (address : U32) : FEMemoryMapBlock :=
  mallocBlock size kLoadedStaticImportsMemoryBlock realAddress newBlock address

theorem tag_linksBlock (size : U32) (realAddress newBlock : ℕ) (address : U32) :
    (linksBlock size realAddress newBlock address).tag=kLoadedStaticImportsMemoryBlock := by
  have hlength : kLoadedStaticImportsMemoryBlock.length≤256 := by decide
  exact List.take_of_length_le hlength

theorem contains_link {size address : U32} {tag : List Char} {realAddress newBlock n k : ℕ}
    (hsize : size.toNat=4*n) (hroom : address.toNat+4*n≤0x40000000) (hk : k<n) :
    (mallocBlock size tag realAddress newBlock address).containsVirtualAddress (linkAt address k)=
      true := by
  have hlink : (linkAt address k).toNat=address.toNat+4*k := toNat_linkAt hk (by omega)
  have hend : (address+size).toNat=address.toNat+size.toNat := by
    rw [BitVec.toNat_add,Nat.mod_eq_of_lt (by omega)]
  apply decide_eq_true
  constructor
  · change address.toNat ≤ (linkAt address k).toNat
    rw [hlink]
    exact Nat.le_add_right _ _
  · change (linkAt address k).toNat<(address+size).toNat
    rw [hlink,hend,hsize]
    omega

/-- The links have a block of their own, and what was mapped before keeps its bytes. -/
theorem Allocation.spec {memory : Memory κ} {flat : ℕ→U8} (h : Holds memory flat)
    (hsize : memory.map.size=0x40000000) (hinside : Inside memory.map) {size : U32}
    (hfits : size.toNat≤0x40000000) {realAddress newBlock : ℕ} {result : FEMemoryMap.MallocResult κ}
    (hmalloc : Allocation memory size realAddress newBlock result) :
    ∃flat',Holds { memory with map := result.map } flat' ∧ Extends memory.map result.map ∧
      (∀a,InBlock memory.map a 1 → flat' a=flat a) ∧
      result.address.toNat+size.toNat≤0x40000000 ∧
      result.map.blockWithTag kLoadedStaticImportsMemoryBlock=
        some (linksBlock size realAddress newBlock result.address) := by
  have hgigabyte : Gigabyte memory.map := ⟨h.wellFormed,hsize,hinside⟩
  obtain ⟨_,hplace,hmem⟩ := hgigabyte.malloc hfits hmalloc.run
  have hreleased : result=⟨result.address,result.map,[]⟩ := by
    obtain ⟨_,_,_,hreleased,_⟩ := FEMemoryMap.malloc_ok hmalloc.run
    rw [←hreleased]
  let event : StoreEvent := .malloc size .readWrite kLoadedStaticImportsMemoryBlock realAddress
    newBlock result.address
    (readAt memory.host realAddress size.toNat)
  have hstep : StoreStep ⟨memory,[]⟩ event ⟨{ memory with map := result.map },[]⟩ :=
    ⟨⟨hmalloc.buffer,rfl⟩,result.map,by rw [←hreleased]; exact hmalloc.run,rfl⟩
  have hnoWrap : NoWrap ⟨memory,[]⟩ event := FEMemoryMap.offers_iff.mpr fun address hfind =>
    endsInSpace_of_fits (FEMemoryMap.offers_iff.mp (hgigabyte.offers hfits) address hfind)
  have hspec := FlatMemory.storeStep_spec h (by simp) hnoWrap hstep
  refine ⟨_,hspec.holds,hspec.mono,?_,hplace.high,?_⟩
  · intro a hin
    apply hspec.kept a hin
    rintro ⟨_,hlt⟩
    exact absurd hlt (Nat.not_lt_zero _)
  · have hnew : ∀b∈memory.map.memoryMapBlocks.elements,
        b.tag≠(linksBlock size realAddress newBlock result.address).tag := by
      rw [tag_linksBlock]
      exact hmalloc.tag
    have hfind : result.map.blockWithTag (linksBlock size realAddress newBlock result.address).tag=
        some (linksBlock size realAddress newBlock result.address) := blockWithTag_malloc hmem hnew
    rwa [tag_linksBlock] at hfind

/-- An image that is mapped with its import directory at `idataAddress`. -/
structure ImportImage (memory : Memory κ) (flat : ℕ→U8) (idataAddress imageBase : U32)
    (ds : List ImportedDLL) :
    Prop where
  holds : Holds memory flat
  size : memory.map.size=0x40000000
  inside : Inside memory.map
  directory : DescriptorList memory.map flat imageBase idataAddress ds
  disjoint : IatsDisjoint imageBase ds

def importsSize (ds : List ImportedDLL) : U32 := .ofNat 32 (4*importCount ds)

variable {memory : Memory κ} {flat : ℕ→U8} {idataAddress imageBase : U32} {ds : List ImportedDLL}
  {realAddress newBlock : ℕ} {result : FEMemoryMap.MallocResult κ}

theorem ImportImage.toNat_importsSize (h : ImportImage memory flat idataAddress imageBase ds) :
    (importsSize ds).toNat=4*importCount ds ∧ 4*importCount ds≤0x40000000 := by
  have hle := importCount_le h.inside h.directory h.disjoint
  refine ⟨?_,hle⟩
  rw [importsSize,BitVec.toNat_ofNat]
  omega

/-- The whole initialiser: it returns, and has bound the slots in some order. -/
theorem init_run (h : ImportImage memory flat idataAddress imageBase ds)
    (hmalloc : Allocation memory (importsSize ds) realAddress newBlock result) (order : Order) :
    ∃(binding : Binding κ) (flat₁ flat' : ℕ→U8) (ls : List (NSString×NSString×U32)),
      (∀fuel,walkFuel ds+ds.length<fuel →
        initWithMemoryMap fuel memory idataAddress imageBase ⟨some realAddress,some newBlock⟩ order=
          .ok (binding.memory,⟨binding.addrToFunction,∅,
            some (linksBlock (importsSize ds) realAddress newBlock result.address),[]⟩)) ∧
      ls.Perm (allSlots imageBase ds) ∧
      Bound ⟨{ memory with map := result.map },∅,result.address⟩ binding flat₁ flat' ls ∧
      (∀a,InBlock memory.map a 1 → flat₁ a=flat a) ∧ Extends memory.map result.map ∧
      result.address.toNat+4*importCount ds≤0x40000000 := by
  obtain ⟨hsize,hcount⟩ := h.toNat_importsSize
  obtain ⟨imports,hwalk,hperm⟩ := walkDescriptors_eq h.holds ⟨∅,0⟩ h.directory
  obtain ⟨flat₁,hholds,hextends,hkept,hroom,htag⟩ :=
    hmalloc.spec h.holds h.size h.inside (hsize.symm ▸ hcount)
  rw [hsize] at hroom
  let ls := enumerated order.dlls order.functions imports
  have hls : ls.Perm (allSlots imageBase ds) := by
    refine (Grouping.enumerated_perm order.dlls order.functions imports).trans ?_
    simpa [elements] using hperm
  have hlength : ls.length=importCount ds := hls.length_eq.trans (length_allSlots imageBase ds)
  obtain ⟨binding,flat',hbind,hbound⟩ := bind_run
    ⟨{ memory with map := result.map },∅,result.address⟩ ls hholds
    (fun s hs => hextends.inBlock (allSlots_inBlock h.directory s (hls.mem_iff.mp hs)))
    ((hls.pairwise_iff Or.symm).mpr (allSlots_apart h.inside h.directory h.disjoint))
    (by rw [hlength]; exact Nat.lt_of_le_of_lt hroom (by decide))
  refine ⟨binding,flat₁,flat',ls,?_,hls,hbound,hkept,hextends,hroom⟩
  intro fuel hfuel
  have hzero : (0 : U32)+.ofNat 32 (4*importCount ds)=importsSize ds := BitVec.zero_add _
  rw [initWithMemoryMap,hwalk fuel fuel (by omega) (by omega),ok_bind]
  simp only [hzero]
  rw [hmalloc.run,once_ok,ok_bind,htag,bindAll_eq,hbind,once_ok,ok_bind]

/-- Every function of a library has its slot among all slots. -/
theorem mem_allSlots (imageBase : U32) {d : ImportedDLL} (hd : d∈ds) (i : Fin d.functions.length) :
    (lowercaseString (ascii d.name),ascii (d.functions.get i).name,
      iatSlot imageBase d i)∈allSlots imageBase ds :=
  List.mem_flatMap.mpr ⟨d,hd,mem_slots.mpr ⟨i,rfl⟩⟩

theorem exists_of_mem_allSlots {s : NSString×NSString×U32} (h : s∈allSlots imageBase ds) :
    ∃d,∃i : Fin (ds.get d).functions.length,startOf s=(iatSlot imageBase (ds.get d) i).toNat := by
  obtain ⟨d,hd,hs⟩ := List.mem_flatMap.mp h
  obtain ⟨d,rfl⟩ := List.get_of_mem hd
  obtain ⟨i,rfl⟩ := mem_slots.mp hs
  exact ⟨d,i,rfl⟩

theorem ImportImage.iatSlot_injective (h : ImportImage memory flat idataAddress imageBase ds)
    {d e : Fin ds.length} {i : Fin (ds.get d).functions.length}
    {j : Fin (ds.get e).functions.length}
    (heq : iatSlot imageBase (ds.get d) i=iatSlot imageBase (ds.get e) j) : d=e ∧ i.val=j.val := by
  have hthunks (d : Fin ds.length) := h.directory.thunks _ (List.get_mem ds d)
  have hnat := congrArg BitVec.toNat heq
  have hi := i.isLt
  have hj := j.isLt
  unfold iatSlot at hnat
  rw [toNat_slot h.inside (hthunks d) hi,toNat_slot h.inside (hthunks e) hj] at hnat
  -- in different libraries the address of the slots would lie in both ranges
  have hapart {d e : Fin ds.length} (hlt : d<e) {a : ℕ} (hd : a∈iatRange imageBase (ds.get d))
      (he : a∈iatRange imageBase (ds.get e)) : False :=
    Set.disjoint_left.mp (List.pairwise_iff_get.mp h.disjoint d e hlt) hd he
  rcases Nat.lt_trichotomy d.val e.val with hlt | hde | hgt
  · refine (hapart hlt ⟨Nat.le_add_right _ (4*i.val),?_⟩ ⟨?_,?_⟩).elim <;> omega
  · obtain rfl := Fin.ext hde
    exact ⟨rfl,by omega⟩
  · refine (hapart hgt ⟨Nat.le_add_right _ (4*j.val),?_⟩ ⟨?_,?_⟩).elim <;> omega

/-- Every slot of every library holds a link of its own in the block of the links, the table maps
the link to the library and the function that the slot imports, and no other byte has changed. -/
structure StaticallyBound (memory memory' : Memory κ) (proxy : FEImportsProxy) (imageBase : U32)
    (ds : List ImportedDLL) (block : FEMemoryMapBlock)
    (link : ∀d : Fin ds.length,Fin (ds.get d).functions.length→U32) : Prop where
  registered : proxy.loadedStaticImportsMemoryBlock=some block
  tag : block.tag=kLoadedStaticImportsMemoryBlock
  slot : ∀d,∀i : Fin (ds.get d).functions.length,
    memory'.value32AtAddress (iatSlot imageBase (ds.get d) i)=.ok (link d i)
  inBlock : ∀d i,block.containsVirtualAddress (link d i)=true
  table : ∀d i,proxy.addrToFunction.lookup (link d i)=
    some ⟨lowercaseString (ascii (ds.get d).name),ascii ((ds.get d).functions.get i).name⟩
  distinct : ∀d i e j,link d i=link e j → d=e ∧ i.val=j.val
  unchanged : ∀a : U32,InBlock memory.map a.toNat 1 →
    (∀d,∀i : Fin (ds.get d).functions.length,a.toNat<(iatSlot imageBase (ds.get d) i).toNat ∨
      (iatSlot imageBase (ds.get d) i).toNat+4 ≤ a.toNat) →
    memory'.value8AtAddress a=memory.value8AtAddress a

/-- The initialiser of the imports returns, and binds every slot however the dictionaries are
enumerated. -/
theorem static_imports_bound (h : ImportImage memory flat idataAddress imageBase ds)
    (hmalloc : Allocation memory (importsSize ds) realAddress newBlock result) (order : Order) :
    ∃(memory' : Memory κ) (proxy : FEImportsProxy) (block : FEMemoryMapBlock)
      (link : ∀d : Fin ds.length,Fin (ds.get d).functions.length→U32),
      (∃bound,∀fuel,bound<fuel →
        initWithMemoryMap fuel memory idataAddress imageBase ⟨some realAddress,some newBlock⟩ order=
          .ok (memory',proxy)) ∧
      StaticallyBound memory memory' proxy imageBase ds block link := by
  obtain ⟨binding,flat₁,flat',ls,hrun,hperm,hbound,hkept,hextends,hroom⟩ := init_run h hmalloc order
  have hlength : ls.length=importCount ds := hperm.length_eq.trans (length_allSlots imageBase ds)
  obtain ⟨hsize,_⟩ := h.toNat_importsSize
  have hwrap : result.address.toNat+4*ls.length<2^32 := by
    rw [hlength]
    exact Nat.lt_of_le_of_lt hroom (by decide)
  -- the place of each slot in the order of the enumeration
  have hplace (d : Fin ds.length) (i : Fin (ds.get d).functions.length) : ∃k,∃hk : k<ls.length,
      ls.get ⟨k,hk⟩=(lowercaseString (ascii (ds.get d).name),
        ascii ((ds.get d).functions.get i).name,iatSlot imageBase (ds.get d) i) := by
    have hmem := hperm.mem_iff.mpr (mem_allSlots imageBase (List.get_mem ds d) i)
    obtain ⟨⟨k,hk⟩,hget⟩ := List.get_of_mem hmem
    exact ⟨k,hk,hget⟩
  choose place hlt hget using hplace
  have hslots (d : Fin ds.length) (i : Fin (ds.get d).functions.length) :
      InBlock memory.map (iatSlot imageBase (ds.get d) i).toNat 4 :=
    allSlots_inBlock h.directory _ (mem_allSlots imageBase (List.get_mem ds d) i)
  have hmap (a n : ℕ) (hin : InBlock memory.map a n) : InBlock binding.memory.map a n :=
    hbound.map ▸ hextends.inBlock hin
  refine ⟨binding.memory,_,_,fun d i => linkAt result.address (place d i),⟨_,hrun⟩,rfl,
    tag_linksBlock _ _ _ _,?_,?_,?_,?_,?_⟩
  · intro d i
    have hslot := hbound.slot (place d i) (hlt d i)
    rw [hget d i] at hslot
    rw [value32_eq hbound.holds (hmap _ _ (hslots d i))]
    exact congrArg Except.ok hslot
  · intro d i
    exact contains_link hsize hroom (hlength ▸ hlt d i)
  · intro d i
    have htable := hbound.table (place d i) (hlt d i)
    rwa [hget d i] at htable
  · intro d i e j heq
    have hk := linkAt_injective (hlt d i) (hlt e j) hwrap heq
    have htriple := hget d i
    simp only [hk,hget e j] at htriple
    exact h.iatSlot_injective (congrArg (·.2.2) htriple).symm
  · intro a hin houtside
    have hapart (s : NSString×NSString×U32) (hs : s∈ls) : a.toNat<startOf s ∨
      startOf s+4 ≤ a.toNat := by
      obtain ⟨d,i,hstart⟩ := exists_of_mem_allSlots (hperm.mem_iff.mp hs)
      rw [hstart]
      exact houtside d i
    rw [hbound.holds.readsFlat.value8 a (hmap _ _ hin),h.holds.readsFlat.value8 a hin,
      hbound.bytes _ hapart,hkept _ hin]

def insertionOrder : Order :=
  ⟨⟨fun s => s.entries.reverse,fun _ => List.reverse_perm _⟩,⟨fun s => s.entries.reverse,
    fun _ => List.reverse_perm _⟩⟩

def characters (name : String) : List U8 := name.toList.map fun c => .ofNat 8 c.toNat

/-- The page of an import directory: two descriptors and the end of the list, the thunks, the slots
and the names. -/
def idata : List U8 :=
  [0x3c,0x10,0,0, 0,0,0,0, 0,0,0,0, 0x64,0x10,0,0, 0x50,0x10,0,0]++
    [0x48,0x10,0,0, 0,0,0,0, 0,0,0,0, 0x6c,0x10,0,0, 0x5c,0x10,0,0]++List.replicate 20 0++
    [0x74,0x10,0,0, 0x74,0x10,0,0, 0,0,0,0]++[0x74,0x10,0,0, 0,0,0,0]++List.replicate 20 0++
    characters "K32.DLL"++[0]++characters "U32.DLL"++[0]++[0,0]++characters "Beep"++[0]

def idataBlock : FEMemoryMapBlock := ⟨1,0x401000,0x402000,0x1000,0x10000,true,".idata".toList⟩

def beep : ImportedFunction := ⟨0x1074,characters "Beep"⟩

/-- Two libraries, the first of which is asked for a function twice. -/
def beepImports : List ImportedDLL :=
  [⟨⟨0x103c,0,0,0x1064,0x1050⟩,characters "K32.DLL",[beep,beep]⟩,⟨⟨0x1048,0,0,0x106c,0x105c⟩,
    characters "U32.DLL",[beep]⟩]

def beepMap : FEMemoryMap Unit :=
  ((create 0x40000000).map .debug idataBlock .readWrite).toOption.getD (create 0x40000000)

def beepMemory : Memory Unit := ⟨beepMap,fun i => idata.getD (i-0x10000) 0⟩

theorem map_beep : (create 0x40000000 : FEMemoryMap Unit).map .debug idataBlock .readWrite=
    .ok beepMap := rfl

theorem blocks_beep : beepMap.memoryMapBlocks.elements=[idataBlock] := by
  obtain ⟨_,hs,-⟩ := (WellFormed.create 0x40000000).append idataBlock ⟨by decide,by decide⟩ map_beep
  rw [hs.blocks]
  exact List.perm_singleton.mp
    (by simpa [create] using (create 0x40000000).withBlock_perm idataBlock)

theorem beep_inBlock {a n : ℕ} (hlow : 0x401000 ≤ a) (hhigh : a+n≤0x402000) :
    InBlock beepMemory.map a n :=
  ⟨idataBlock,by simp [beepMemory,blocks_beep],hlow,hhigh⟩

theorem beep_directory :
    DescriptorList beepMemory.map (fun a => idata.getD (a-0x401000) 0) 0x400000 0x401000
      beepImports := by
  have hbeep : CString beepMemory.map (fun a => idata.getD (a-0x401000) 0) 0x401076 beep.name :=
    ⟨by decide,by decide,beep_inBlock (by decide) (by decide),by decide +kernel⟩
  have hword {a : U32} (hlow : 0x401000 ≤ a.toNat) (hhigh : a.toNat+4≤0x402000) :
    InBlock beepMemory.map a.toNat 4 :=
    beep_inBlock hlow hhigh
  refine ⟨⟨beep_inBlock (by decide) (by decide),by decide +kernel⟩,by decide,by decide,
    ⟨by decide,by decide,beep_inBlock (by decide) (by decide),by decide +kernel⟩,?_,
    ⟨beep_inBlock (by decide) (by decide),by decide +kernel⟩,by decide,by decide,
    ⟨by decide,by decide,beep_inBlock (by decide) (by decide),by decide +kernel⟩,?_,
    beep_inBlock (by decide) (by decide),by decide +kernel⟩
  · exact ⟨⟨hword (by decide) (by decide),by decide +kernel⟩,
      by decide,by decide,hbeep,hword (by decide) (by decide),
      ⟨hword (by decide) (by decide),by decide +kernel⟩,by decide,by
        decide,hbeep,hword (by decide) (by decide),
      hword (by decide) (by decide),by decide +kernel⟩
  · exact ⟨⟨hword (by decide) (by decide),by decide +kernel⟩,
      by decide,by decide,hbeep,hword (by decide) (by decide),
      hword (by decide) (by decide),by decide +kernel⟩

theorem beep_image : ImportImage beepMemory (fun a => idata.getD (a-0x401000) 0) 0x401000 0x400000
    beepImports := by
  obtain ⟨hw,hs,-⟩ := (WellFormed.create 0x40000000).append idataBlock
    ⟨by decide,by decide⟩ map_beep
  have hall {P : FEMemoryMapBlock→Prop} (hP : P idataBlock) : ∀b∈beepMap.memoryMapBlocks.elements,
    P b := by
    rw [blocks_beep]
    exact List.forall_mem_singleton.mpr hP
  refine ⟨⟨hw,?_,hall ?_⟩,hs.size,hall (by decide),beep_directory,?_⟩
  · rw [beepMemory,blocks_beep]
    exact List.pairwise_singleton _ _
  · intro i hi
    simp [beepMemory,idataBlock]
  · refine List.pairwise_pair.mpr (Set.disjoint_left.mpr ?_)
    rintro a ⟨_,hhigh⟩ ⟨hlow,_⟩
    exact absurd (hlow.trans_lt hhigh) (by decide)

theorem beep_allocation :
    ∃result,Allocation beepMemory (importsSize beepImports) 0x20000 2 result := by
  have haddress : (beepMap.malloc .debug (importsSize beepImports) .readWrite
    kLoadedStaticImportsMemoryBlock
      ⟨some 0x20000,some 2⟩ >>= fun result => .ok result.address)=.ok 0x1000 := by decide +kernel
  obtain ⟨result,hrun,_⟩ := bind_eq_ok.mp haddress
  refine ⟨result,hrun,?_,?_⟩ <;> rw [beepMemory,blocks_beep]
  · exact List.forall_mem_singleton.mpr (.inl (by decide))
  · exact List.forall_mem_singleton.mpr (by decide)

/-- Three slots, enumerated in the order of insertion. -/
theorem static_imports_bound_beep : ∃(memory' : Memory Unit) (proxy : FEImportsProxy)
    (block : FEMemoryMapBlock)
    (link : ∀d : Fin beepImports.length,Fin (beepImports.get d).functions.length→U32),
    (∃bound,∀fuel,bound<fuel → initWithMemoryMap fuel beepMemory 0x401000 0x400000 ⟨some 0x20000,
      some 2⟩ insertionOrder=
      .ok (memory',proxy)) ∧
    StaticallyBound beepMemory memory' proxy 0x400000 beepImports block link := by
  obtain ⟨result,hallocation⟩ := beep_allocation
  exact static_imports_bound beep_image hallocation insertionOrder

end FalloutEmu.StaticImports
