import FalloutEmu.FilePositions
import FalloutEmu.StaticBinding

/-! # C strings between the host and the guest -/
namespace FalloutEmu.StringMarshalling
open ByteStore
open FEMemoryMap (WellFormed)
open FlatMemory (InBlock bytes32)
open FilePositions (callMap callMap_holds callMap_inBlock)
open StaticImports (strcpyFromVirtualToAllocatedReal cstring_eq)
open WideAccess (hostAddress contiguous_of_inBlock)
variable {κ : Type}

/-- `rsize` of `fe_memoryMap_strncpyFromRealToVirtual`: `size-1` is unsigned. -/
def rsize (src : List U8) (size : U32) : U32 := .ofNat 32 (min (size-1).toNat src.length)

/-- `fe_memoryMap_strncpyFromRealToVirtual` of the string `src`. -/
def strncpyFromRealToVirtual (memory : Memory κ) (dst : U32) (src : List U8) (size : U32) :
    Except Stop (Memory κ) := do
  let memory ← memory.memcpyToVirtualFromReal dst (src.take (rsize src size).toNat)
  memory.setValue8 (dst+rsize src size) 0

/-- The buffer of `fe_memoryMap_strcpyFromVirtualToAllocatedReal`: `len+1` zeroed bytes, which
`strncpy` fills with the `len` bytes of the string. -/
def allocated (memory : Memory κ) (src : U32) : Except Stop (List U8) := do
  let srcp ← strcpyFromVirtualToAllocatedReal memory src
  .ok (srcp++[0])

/-- `fe_GetCurrentDirectoryA`, where `currentDirPath` has the bytes of the directory. -/
def getCurrentDirectoryA (build : Build) (currentDirPath : List U8) (memory : Memory κ)
    (esp : U32) :
    Except Stop (U8×Memory κ) := do
  let ptrToArgs := esp+4
  let arg_bufferLength ← memory.value32AtAddress ptrToArgs
  let arg_buffer ← memory.value32AtAddress (ptrToArgs+4)
  assertThat build (arg_buffer≠0)
  assertThat build (currentDirPath.length<arg_bufferLength.toNat)
  let memory ← strncpyFromRealToVirtual memory arg_buffer currentDirPath arg_bufferLength
  .ok (8,memory)

/-- The copy stores at most `n` bytes, from `dst` on, and the reader gets back the bytes of `s` that
fit. -/
def Marshals (memory : Memory κ) (dst : U32) (s : List U8) (n : U32) : Prop :=
  ∃memory' bytes,strncpyFromRealToVirtual memory dst s n=.ok memory' ∧
    bytes.length ≤ n.toNat ∧ memory.store dst bytes=.ok memory' ∧
    (n≠0→allocated memory' dst=.ok (s.take (n.toNat-1)++[0]))

/-- A string as the host keeps it, short enough for the reader. -/
structure IsString (s : List U8) : Prop where
  characters : ∀b∈s,b≠0
  short : s.length ≤ 4094

section Copy
variable {m : FEMemoryMap κ} {dst : U32} {s : List U8} {n : U32}

theorem toNat_rsize (hs : IsString s) (hn : n≠0) : (rsize s n).toNat=min (n.toNat-1) s.length := by
  have hshort := hs.short
  have hpred : (n-1).toNat=n.toNat-1 := by bv_omega
  rw [rsize,BitVec.toNat_ofNat,hpred]
  omega

/-- The two stores are one, of the bytes that fit and the terminator. -/
theorem strncpy_eq (hm : WellFormed m) (hs : IsString s) (hn : n≠0)
    (hroom : InBlock m dst.toNat (min n.toNat (s.length+1))) (host : ℕ→U8) :
    m.localAddressFromVirtualAddress dst=.ok (hostAddress m dst) ∧
    strncpyFromRealToVirtual ⟨m,host⟩ dst s n=
      .ok ⟨m,writeAt host (hostAddress m dst) (s.take (n.toNat-1)++[0])⟩ := by
  have hpos : 0<n.toNat := by bv_omega
  have hlen := toNat_rsize hs hn
  have hfit : min (n.toNat-1) s.length+1=min n.toNat (s.length+1) := by omega
  obtain ⟨hmapped,hcontiguous⟩ := contiguous_of_inBlock hm hroom
  have hfirst := hmapped.first (by omega)
  have hlast := hmapped.localAddress (i:=(rsize s n).toNat) (by omega)
  rw [hcontiguous _ (by omega),BitVec.ofNat_toNat,BitVec.setWidth_eq] at hlast
  have htake : s.take (rsize s n).toNat=s.take (n.toNat-1) := by
    rw [hlen,List.take_eq_take_iff]
    omega
  have hlength : (s.take (n.toNat-1)).length=(rsize s n).toNat := by
    rw [List.length_take,hlen]
  refine ⟨hfirst,?_⟩
  rw [strncpyFromRealToVirtual,htake,Memory.memcpyToVirtualFromReal,Memory.store,hfirst,
    ok_bind,ok_bind,Memory.setValue8,Memory.store,hlast,ok_bind,writeAt_append,hlength]
  rfl

theorem IsString.take (hs : IsString s) (k : ℕ) : IsString (s.take k) where
  characters := fun b hb => hs.characters b (List.mem_of_mem_take hb)
  short := (List.length_take_le' k s).trans hs.short

theorem allocated_eq {memory : Memory κ} {ptr : ℕ} (hs : IsString s)
    (hptr : memory.map.localAddressFromVirtualAddress dst=.ok ptr)
    (hbytes : readAt memory.host ptr (s.length+1)=s++[0]) : allocated memory dst=.ok (s++[0]) := by
  have hread := cstring_eq (Nat.lt_succ_of_le hs.short) hs.characters hbytes
  rw [allocated,strcpyFromVirtualToAllocatedReal,hptr,ok_bind,hread]
  rfl

theorem marshals (hm : WellFormed m) (hs : IsString s) (hn : n≠0)
    (hroom : InBlock m dst.toNat (min n.toNat (s.length+1))) (host : ℕ→U8) :
    Marshals ⟨m,host⟩ dst s n := by
  obtain ⟨hfirst,hcopy⟩ := strncpy_eq hm hs hn hroom host
  have hpos : 0<n.toNat := by bv_omega
  have hself := readAt_writeAt_self host (hostAddress m dst) (s.take (n.toNat-1)++[0])
  have hlength : (s.take (n.toNat-1)++[0]).length ≤ n.toNat := by
    simp only [List.length_append,List.length_take,List.length_singleton]
    omega
  refine ⟨_,_,hcopy,hlength,?_,fun _ => ?_⟩
  · rw [Memory.store,hfirst,ok_bind]
  · apply allocated_eq (hs.take _) hfirst
    rwa [List.length_append] at hself

/-- For the empty buffer, `size-1` is the largest number: the terminator is stored all the same. -/
theorem not_marshals_zero (m : FEMemoryMap κ) (dst : U32) (s : List U8) :
    ¬Marshals ⟨m,fun _ => 1⟩ dst s 0 := by
  rintro ⟨memory',bytes,hcopy,hlength,hstore,-⟩
  obtain rfl : bytes=[] := List.length_eq_zero_iff.mp (Nat.le_zero.mp hlength)
  obtain ⟨ptr,hptr,hsame⟩ := bind_eq_ok.mp hstore
  obtain ⟨memory₁,hfirst,hlast⟩ := bind_eq_ok.mp hcopy
  obtain ⟨last,-,hlast⟩ := bind_eq_ok.mp hlast
  cases hsame
  have hzero := congrArg (fun memory => memory.host last) (Except.ok.inj hlast)
  have hterminator := writeAt_apply_add memory₁.host last (littleEndian 1 (0 : U8).toNat) 0
    (by simp)
  rw [Nat.add_zero] at hterminator
  simp only [writeAt_nil] at hzero
  rw [hterminator] at hzero
  exact absurd hzero (by decide)

end Copy

/-- In a debug build, the assertion of `GetCurrentDirectory` keeps it from an empty buffer: it hands
over the whole path. -/
theorem getCurrentDirectoryA_delivers {m : FEMemoryMap κ} (hm : WellFormed m) {host : ℕ→U8}
    {currentDirPath : List U8} (hpath : IsString currentDirPath) {esp n dst : U32}
    (hsize : Memory.value32AtAddress ⟨m,host⟩ (esp+4)=.ok n)
    (hbuffer : Memory.value32AtAddress ⟨m,host⟩ (esp+4+4)=.ok dst)
    (hroom : InBlock m dst.toNat (min n.toNat (currentDirPath.length+1))) {result : U8×Memory κ}
    (h : getCurrentDirectoryA .debug currentDirPath ⟨m,host⟩ esp=.ok result) :
    result.1=8 ∧ allocated result.2 dst=.ok (currentDirPath++[0]) := by
  rw [getCurrentDirectoryA,hsize,ok_bind,hbuffer,ok_bind] at h
  obtain ⟨_,-,h⟩ := bind_eq_ok.mp h
  obtain ⟨_,hassert,h⟩ := bind_eq_ok.mp h
  have hlength : currentDirPath.length<n.toNat := of_decide_eq_true (assertThat_debug_ok.mp hassert)
  have hne : n≠0 := by
    rintro rfl
    exact absurd hlength (Nat.not_lt_zero _)
  obtain ⟨memory',_,hcopy,-,-,hread⟩ := marshals hm hpath hne hroom host
  rw [hcopy,ok_bind] at h
  cases h
  have hwhole := hread hne
  rw [List.take_of_length_le (by omega)] at hwhole
  exact ⟨rfl,hwhole⟩

/-- Whatever the memory holds, strings are marshalled as promised exactly when the buffer is not
empty; a `GetCurrentDirectory` that returns has marshalled its path whole. -/
theorem strncpy_marshals_iff {m : FEMemoryMap κ} (hm : WellFormed m) {dst n : U32} {s : List U8}
    (hs : IsString s) (hroom : InBlock m dst.toNat (min n.toNat (s.length+1))) :
    ((∀host,Marshals ⟨m,host⟩ dst s n) ↔ n≠0) ∧
      ∀host esp,Memory.value32AtAddress ⟨m,host⟩ (esp+4)=.ok n→Memory.value32AtAddress ⟨m,host⟩
      (esp+4+4)=.ok dst→
        ∀result,getCurrentDirectoryA .debug s ⟨m,host⟩ esp=.ok result→
          result.1=8 ∧ allocated result.2 dst=.ok (s++[0]) := by
  refine ⟨⟨?_,fun hn host => marshals hm hs hn hroom host⟩,fun host esp hsize hbuffer result h =>
    getCurrentDirectoryA_delivers hm hs hsize hbuffer hroom h⟩
  rintro h rfl
  exact not_marshals_zero m dst s (h _)

theorem strncpy_marshals_cut : Marshals ⟨callMap,fun _ => 7⟩ 0x400ffd [65,66,67,68] 3 := by
  have hs : IsString [65,66,67,68] := ⟨by decide,by decide⟩
  have hm := (callMap_holds fun _ => 0).1.wellFormed
  exact (strncpy_marshals_iff hm hs (callMap_inBlock (by decide) (by decide))).1.mpr (by decide) _

/-- An empty buffer at the start of a page takes four bytes. -/
theorem strncpy_overruns_empty : ¬Marshals ⟨callMap,fun _ => 1⟩ 0x400000 [65,66,67] 0 :=
  not_marshals_zero callMap 0x400000 [65,66,67]

end FalloutEmu.StringMarshalling
