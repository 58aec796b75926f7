import FalloutEmu.HandleClosing
import FalloutEmu.WideAccess

/-! # `SetFilePointer` and `ReadFile` on the streams of the host -/
namespace FalloutEmu.FilePositions
open ByteStore HandleTable
open FEMemoryMap (create)
open FlatMemory (Holds InBlock bytes32 littleEndian_eq_bytes32 imageBlock)
open HandleClosing (Details)
open ProcessIsolation (FEHandleType)
open WideAccess (Mapped Contiguous hostAddress add_succ load_eq store_eq_setBytes)
variable {κ : Type}

structure HostFile where
  contents : List U8
  position : ℕ
  deriving DecidableEq

namespace HostFile

/-- What `fseek` counts from: `SEEK_SET`, `SEEK_CUR` and `SEEK_END` are the values of `FILE_BEGIN`,
`FILE_CURRENT` and `FILE_END`. -/
def origin (file : HostFile) (whence : U32) : Option ℕ :=
  if whence=0 then some 0
  else if whence=1 then some file.position
  else if whence=2 then some file.contents.length
  else none

def moveTo (file : HostFile) (position : ℤ) : Option HostFile :=
  if 0 ≤ position ∧ position<2^63 then some { file with position := position.toNat } else none

def fseek (file : HostFile) (offset : ℤ) (whence : U32) : Option HostFile := do
  file.moveTo ((← file.origin whence)+offset)

/-- What `fread` of `n` bytes stores, and the stream behind it. -/
def fread (file : HostFile) (n : ℕ) : List U8×HostFile :=
  let bytes := (file.contents.drop file.position).take n
  (bytes,{ file with position := file.position+bytes.length })

end HostFile

/-- The calling thread, the guest's memory, the handles and the streams behind them. -/
structure State (κ : Type) where
  memory : Memory κ
  esp : U32
  eax : U32
  handles : Handles Details
  files : ℕ→HostFile

namespace State

def argument (s : State κ) (i : ℕ) : Except Stop U32 :=
  s.memory.value32AtAddress (s.esp+4+.ofNat 32 (4*i))

def setFile (s : State κ) (stream : ℕ) (file : HostFile) : State κ :=
  { s with files := fun n => if n=stream then file else s.files n }

/-- The handles whose payload is `nil`, stored as `NSNull`; the others have a dictionary. -/
def hasNullPayload : FEHandleType→Bool
  | .Mutex | .Module | .Hook => true
  | _ => false

/-- The stream behind a handle. A missing entry has no payload, which is asserted; `NSNull` has no
keys, and a dictionary without the key `file` gives a `NULL` stream. -/
def stream (build : Build) (s : State κ) (hFile : U32) : Except Stop ℕ :=
  match handleDetails s.handles hFile with
  | none => do
    assertThat build false
    .error .undefinedBehaviour
  | some details =>
    match details.file with
    | some stream => .ok stream
    | none => .error (if hasNullPayload details.type then .exception else .undefinedBehaviour)

end State

/-- `fe_SetFilePointer` from `fseek` on. -/
def seek (build : Build) (s : State κ) (stream : ℕ) (arg_distanceToMove arg_moveMethod : U32) :
    Except Stop (U8×State κ) :=
  match (s.files stream).fseek arg_distanceToMove.toNat arg_moveMethod with
  | some file => .ok (16,{ s.setFile stream file with eax := .ofNat 32 file.position })
  | none => do
    assertThat build false
    .ok (16,s)

/-- `fe_SetFilePointer`. The distance is an unsigned variable, which `fseek` takes as 64-bit
offset. -/
def setFilePointer (build : Build) (s : State κ) : Except Stop (U8×State κ) := do
  let arg_hFile ← s.argument 0
  let arg_distanceToMove ← s.argument 1
  let arg_distanceToMoveHigh ← s.argument 2
  let arg_moveMethod ← s.argument 3
  assertThat build (arg_distanceToMoveHigh=0)
  let stream ← s.stream build arg_hFile
  seek build s stream arg_distanceToMove arg_moveMethod

/-- The copy of `fe_ReadFile` into the guest's buffer. -/
def copyOut (memory : Memory κ) (arg_pBuffer : U32) (buffer : List U8) : Except Stop (Memory κ) :=
  if 0<buffer.length then memory.memcpyToVirtualFromReal arg_pBuffer buffer else .ok memory

/-- `fe_ReadFile`; the host has memory for the buffer. -/
def readFile (build : Build) (s : State κ) : Except Stop (U8×State κ) := do
  let arg_hFile ← s.argument 0
  let arg_pBuffer ← s.argument 1
  let arg_numberOfBytesToRead ← s.argument 2
  let arg_numberOfBytesRead ← s.argument 3
  let arg_overlapped ← s.argument 4
  assertThat build (arg_overlapped=0)
  assertThat build (arg_numberOfBytesRead≠0)
  let stream ← s.stream build arg_hFile
  let (buffer,file) := (s.files stream).fread arg_numberOfBytesToRead.toNat
  let memory ← copyOut s.memory arg_pBuffer buffer
  let memory ← memory.setValue32 arg_numberOfBytesRead (.ofNat 32 buffer.length)
  .ok (20,{ s.setFile stream file with memory := memory,eax := 1 })

def Called (s : State κ) (arguments : List U32) : Prop :=
  ∀i<arguments.length,s.argument i=.ok (arguments.getD i 0)

/-- The handle is that of a file, with this stream. -/
def Open (s : State κ) (hFile : U32) (stream : ℕ) : Prop :=
  ∃details,handleDetails s.handles hFile=some details ∧ details.file=some stream

/-- A guest buffer: its bytes are mapped, and lie in the host as in the guest. -/
structure IsBuffer (m : FEMemoryMap κ) (a : U32) (n : ℕ) : Prop where
  noWrap : a.toNat+n≤2^32
  mapped : Mapped m a n
  contiguous : Contiguous m a n

/-- What a call of `ReadFile` leaves: the bytes are in the buffer and then their number in the
variable, all other guest memory is as before, and the stream stands behind the bytes. -/
structure Delivered (flat : ℕ→U8) (arg_pBuffer arg_numberOfBytesRead : U32) (stream position : ℕ)
    (bytes : List U8) (s t : State κ) : Prop where
  memory : Holds t.memory (writeAt (writeAt flat arg_pBuffer.toNat bytes)
    arg_numberOfBytesRead.toNat
    (bytes32 (.ofNat 32 bytes.length)))
  map : t.memory.map=s.memory.map
  file : t.files stream=⟨(s.files stream).contents,position+bytes.length⟩
  others : ∀other,other≠stream→t.files other=s.files other
  handles : t.handles=s.handles
  eax : t.eax=1

/-- `ReadFile` of `n` bytes delivers those of the stream from `position` on, as many as there
are. -/
def ReadsFrom (build : Build) (s : State κ) (hFile : U32) (stream position : ℕ) : Prop :=
  ∀(arg_pBuffer n arg_numberOfBytesRead : U32) (flat : ℕ→U8) (bytes : List U8),
    Called s [hFile,arg_pBuffer,n,arg_numberOfBytesRead,0]→arg_numberOfBytesRead≠0→
      Holds s.memory flat→
    bytes=((s.files stream).contents.drop position).take n.toNat→
    IsBuffer s.memory.map arg_pBuffer bytes.length→IsBuffer s.memory.map arg_numberOfBytesRead 4→
    ∃t,readFile build s=.ok (20,t) ∧ Delivered flat arg_pBuffer arg_numberOfBytesRead stream
      position bytes s t

/-- `SetFilePointer` answers the target and moves the file there, so that the reads that follow, in
any state that has the stream as it is then, deliver the bytes from there on. -/
def MovesTo (build : Build) (s : State κ) (hFile : U32) (stream target : ℕ) : Prop :=
  ∃t,setFilePointer build s=.ok (16,t) ∧ t.eax.toNat=target ∧ t.files stream=
    ⟨(s.files stream).contents,target⟩ ∧
    (∀other,other≠stream→t.files other=s.files other) ∧ t.memory=s.memory ∧ t.handles=s.handles ∧
    ∀u : State κ,Open u hFile stream→u.files stream=t.files stream→
      ReadsFrom build u hFile stream target

section Stores
variable {memory : Memory κ} {flat : ℕ→U8} {a : U32}

/-- Byte by byte, every mapped range takes the bytes. -/
theorem setBytes_holds {bytes : List U8} {p : ℕ} (h : Holds memory flat)
    (hmapped : Mapped memory.map a bytes.length) (hp : ∀i<bytes.length,(a+.ofNat 32 i).toNat=p+i) :
    ∃memory',memory.setBytes a bytes=.ok memory' ∧ Holds memory' (writeAt flat p bytes) ∧
    memory'.map=memory.map := by
  induction bytes generalizing memory flat a p with
  | nil => exact ⟨memory,rfl,by simpa using h,rfl⟩
  | cons b bytes ih =>
    have hbyte : littleEndian 1 b.toNat=[b] := by simp [littleEndian]
    have hfirst := hp 0 (by simp)
    rw [BitVec.add_zero] at hfirst
    obtain ⟨block,hget,hcontains⟩ := hmapped 0 (by simp)
    rw [BitVec.add_zero] at hget hcontains
    have hblock := ((h.wellFormed.owner _ block).mp (Shadow.get_eq_ok.mp hget).2).1
    have hin : InBlock memory.map a.toNat [b].length := by
      obtain ⟨hlow,hhigh⟩ := hcontains
      exact ⟨block,hblock,hlow,Nat.succ_le_of_lt hhigh⟩
    obtain ⟨memory₁,hstore⟩ : ∃memory₁,memory.store a [b]=.ok memory₁ :=
      ⟨_,by rw [Memory.store,FlatMemory.localAddress_of_contains h.wellFormed hblock hcontains,
        ok_bind]⟩
    obtain ⟨hholds,hmap⟩ := h.store hin hstore
    have hmapped' : Mapped memory₁.map (a+1) bytes.length := by
      intro i hi
      rw [hmap,←add_succ]
      exact hmapped (i+1) (by simpa using hi)
    obtain ⟨memory',hrest,hholds',hmap'⟩ := ih (p:=p+1) hholds hmapped' (by
      intro i hi
      rw [←add_succ,hp (i+1) (by simpa using hi)]
      omega)
    refine ⟨memory',?_,?_,hmap'.trans hmap⟩
    · rw [Memory.setBytes,Memory.setValue8,hbyte,hstore,ok_bind]
      exact hrest
    · rw [←List.singleton_append,writeAt_append]
      rwa [hfirst,Nat.add_zero] at hholds'

theorem IsBuffer.toNat_add {n i : ℕ} (h : IsBuffer memory.map a n) (hi : i<n) :
    (a+.ofNat 32 i).toNat=a.toNat+i := by
  have hwrap := h.noWrap
  rw [BitVec.toNat_add,BitVec.toNat_ofNat,Nat.mod_eq_of_lt (show i<2^32 by omega),
    Nat.mod_eq_of_lt (by omega)]

theorem IsBuffer.part {n : ℕ} (h : IsBuffer memory.map a n) (k l : ℕ) (hk : k+l ≤ n) :
    IsBuffer memory.map (a+.ofNat 32 k) l := by
  have hadd : ∀i,a+.ofNat 32 k+.ofNat 32 i=a+.ofNat 32 (k+i) := by
    intro i
    rw [BitVec.add_assoc,BitVec.ofNat_add]
  constructor
  case noWrap =>
    have hwrap := h.noWrap
    rw [BitVec.toNat_add,BitVec.toNat_ofNat]
    omega
  case mapped =>
    intro i hi
    rw [hadd]
    exact h.mapped (k+i) (by omega)
  case contiguous =>
    intro i hi
    rw [hadd,h.contiguous (k+i) (by omega),h.contiguous k (by omega),Nat.add_assoc]

theorem IsBuffer.load {n : ℕ} (h : Holds memory flat) (hbuffer : IsBuffer memory.map a n)
    (hpos : 0<n) :
    memory.load a n=.ok (readAt flat a.toNat n) := by
  rw [load_eq hpos hbuffer.mapped]
  congr 1
  apply List.map_congr_left
  intro i hi
  have hin := List.mem_range.mp hi
  obtain ⟨b,hget,hlow,hhigh⟩ := hbuffer.mapped i hin
  have hslot := (Shadow.get_eq_ok.mp hget).2
  have hblock := ((h.wellFormed.owner _ b).mp hslot).1
  have hbyte := h.bytes b hblock ((a+.ofNat 32 i).toNat-b.virtualAddress.toNat) (by omega)
  rw [Nat.add_sub_cancel' hlow,hbuffer.toNat_add hin] at hbyte
  rw [←hbyte,←hbuffer.contiguous i hin,hostAddress,hslot,hbuffer.toNat_add hin]

theorem IsBuffer.store {bytes : List U8} (h : Holds memory flat)
    (hbuffer : IsBuffer memory.map a bytes.length) (hpos : 0<bytes.length) :
    ∃memory',memory.store a bytes=.ok memory' ∧ Holds memory' (writeAt flat a.toNat bytes) ∧
    memory'.map=memory.map := by
  rw [store_eq_setBytes hpos hbuffer.mapped hbuffer.contiguous rfl]
  exact setBytes_holds h hbuffer.mapped fun i hi => hbuffer.toNat_add hi

theorem copyOut_holds {buffer : List U8} (h : Holds memory flat)
    (hbuffer : IsBuffer memory.map a buffer.length) :
    ∃memory',copyOut memory a buffer=.ok memory' ∧ Holds memory' (writeAt flat a.toNat buffer) ∧
    memory'.map=memory.map := by
  by_cases hpos : 0<buffer.length
  · rw [copyOut,if_pos hpos]
    exact hbuffer.store h hpos
  · obtain rfl : buffer=[] := List.length_eq_zero_iff.mp (by omega)
    exact ⟨memory,rfl,by simpa using h,rfl⟩

end Stores

section Calls
variable {build : Build} {s : State κ} {hFile : U32} {stream : ℕ}

theorem Open.stream_eq (h : Open s hFile stream) (build : Build) :
    s.stream build hFile=.ok stream := by
  obtain ⟨details,hdetails,hfile⟩ := h
  rw [State.stream,hdetails]
  simp only [hfile]

theorem readFile_reads (hopen : Open s hFile stream) (build : Build) :
    ReadsFrom build s hFile stream (s.files stream).position := by
  intro arg_pBuffer n arg_numberOfBytesRead flat bytes hcall hne hholds hbytes hbuffer hcount
  have hread : (s.files stream).fread n.toNat=
    (bytes,⟨(s.files stream).contents,(s.files stream).position+bytes.length⟩) := by
    rw [hbytes]
    rfl
  obtain ⟨memory₁,hcopy,hholds₁,hmap₁⟩ := copyOut_holds hholds hbuffer
  have hlength : (littleEndian 4 (BitVec.ofNat 32 bytes.length).toNat).length=4 :=
    length_littleEndian 4 _
  rw [←hmap₁,←hlength] at hcount
  obtain ⟨memory₂,hset,hholds₂,hmap₂⟩ := hcount.store hholds₁ (by rw [hlength]; decide)
  rw [littleEndian_eq_bytes32] at hholds₂
  refine ⟨{ s.setFile stream ⟨(s.files stream).contents,(s.files stream).position+bytes.length⟩ with
    memory := memory₂,eax := 1 },?_,⟨hholds₂,hmap₂.trans hmap₁,if_pos rfl,fun other hother =>
      if_neg hother,rfl,rfl⟩⟩
  have harg₀ : s.argument 0=.ok hFile := hcall 0 (by simp)
  have harg₁ : s.argument 1=.ok arg_pBuffer := hcall 1 (by simp)
  have harg₂ : s.argument 2=.ok n := hcall 2 (by simp)
  have harg₃ : s.argument 3=.ok arg_numberOfBytesRead := hcall 3 (by simp)
  have harg₄ : s.argument 4=.ok 0 := hcall 4 (by simp)
  rw [readFile,harg₀,harg₁,harg₂,harg₃,harg₄]
  simp only [ok_bind,decide_true,assertThat_true,assertThat_pos hne,hopen.stream_eq build,hread,
    hcopy,Memory.setValue32,hset]

/-- The position that `fseek` computes from the unsigned distance, if there is one. -/
theorem setFilePointer_eq {distance method : U32} (hcall : Called s [hFile,distance,0,method])
    (hopen : Open s hFile stream) (build : Build) :
    setFilePointer build s=seek build s stream distance method := by
  have harg₀ : s.argument 0=.ok hFile := hcall 0 (by simp)
  have harg₁ : s.argument 1=.ok distance := hcall 1 (by simp)
  have harg₂ : s.argument 2=.ok 0 := hcall 2 (by simp)
  have harg₃ : s.argument 3=.ok method := hcall 3 (by simp)
  rw [setFilePointer,harg₀,harg₁,harg₂,harg₃]
  simp only [ok_bind,decide_true,assertThat_true,hopen.stream_eq build]

theorem fseek_eq {file : HostFile} {offset base : ℕ} {whence : U32}
    (hbase : file.origin whence=some base) (hrange : base+offset<2^63) :
    file.fseek offset whence=some { file with position := base+offset } := by
  have hok : 0 ≤ (base+offset : ℤ) ∧ (base+offset : ℤ)<2^63 := by omega
  have hsum : (base+offset : ℤ).toNat=base+offset := by omega
  rw [HostFile.fseek,hbase,Option.bind_eq_bind,Option.bind_some,HostFile.moveTo,if_pos hok,hsum]

theorem seek_eq (build : Build) {distance method : U32} {base : ℕ}
    (hbase : (s.files stream).origin method=some base) (hrange : base+distance.toNat<2^63) :
    seek build s stream distance method=
      .ok (16,{ s.setFile stream ⟨(s.files stream).contents,base+distance.toNat⟩ with
        eax := .ofNat 32 (base+distance.toNat) }) := by
  rw [seek,fseek_eq hbase hrange]

end Calls

/-- For a target between 0 and 2^31-1, `SetFilePointer` answers it and moves the file there exactly
for a distance that is not negative. -/
theorem setFilePointer_moves_iff {build : Build} {s : State κ} {hFile distance method : U32}
    {stream base : ℕ} (hcall : Called s [hFile,distance,0,method]) (hopen : Open s hFile stream)
    (hbase : (s.files stream).origin method=some base) (hlow : 0 ≤ base+distance.toInt)
    (hhigh : base+distance.toInt<2^31) :
    MovesTo build s hFile stream (base+distance.toInt).toNat ↔ 0 ≤ distance.toInt := by
  have hsign : distance.toInt=distance.toNat ∧ 0 ≤ distance.toInt ∨ distance.toInt=
    distance.toNat-2^32 ∧ distance.toInt<0 := by
    have hlt := distance.isLt
    rw [BitVec.toInt_eq_toNat_cond]
    split <;> omega
  have hseek := seek_eq build hbase (show base+distance.toNat<2^63 by omega)
  rw [MovesTo,setFilePointer_eq hcall hopen,hseek]
  constructor
  · rintro ⟨t,heq,_,hfile,_⟩
    cases heq
    have hposition : base+distance.toNat=(base+distance.toInt).toNat :=
      congrArg HostFile.position ((if_pos rfl).symm.trans hfile)
    omega
  · intro hnonneg
    have htarget : base+distance.toNat=(base+distance.toInt).toNat := by omega
    rw [←htarget]
    refine ⟨_,rfl,?_,if_pos rfl,fun other hother => if_neg hother,rfl,rfl,?_⟩
    · exact (BitVec.toNat_ofNat _ 32).trans (Nat.mod_eq_of_lt (by omega))
    · intro u hu hfile
      have hreads := readFile_reads hu build
      rw [hfile] at hreads
      have hat : ((s.setFile stream ⟨(s.files stream).contents,base+distance.toNat⟩).files
        stream).position=
        base+distance.toNat := congrArg HostFile.position (if_pos rfl)
      exact hat ▸ hreads

/-- One page of the guest, whose host bytes hold a call by the stack pointer 0x400000. -/
def callMap : FEMemoryMap Unit :=
  ((create 0x40000000).map .debug imageBlock .readWrite).toOption.getD (create 0x40000000)

theorem callMap_holds (host : ℕ→U8) : Holds ⟨callMap,host⟩ (fun a => host (0x10000+(a-0x400000))) ∧
    imageBlock∈callMap.memoryMapBlocks.elements := by
  obtain ⟨m,hmap⟩ : ∃m,(create 0x40000000 : FEMemoryMap Unit).map .debug imageBlock .readWrite=
    .ok m := ⟨_,rfl⟩
  obtain ⟨hm,hsame,-⟩ := (FEMemoryMap.WellFormed.create 0x40000000).append imageBlock
    ⟨by decide,by decide⟩ hmap
  have hcall : callMap=m := by
    rw [callMap,hmap]
    rfl
  have hblocks : m.memoryMapBlocks.elements=[imageBlock] := by
    rw [hsame.blocks]
    exact List.perm_singleton.mp
      (by simpa [create] using (create 0x40000000).withBlock_perm imageBlock)
  rw [hcall,hblocks]
  refine ⟨⟨hm,?_,?_⟩,List.mem_singleton_self _⟩
  · rw [hblocks]
    exact List.pairwise_singleton _ _
  · intro b hb i hi
    rw [hblocks] at hb
    obtain rfl := List.mem_singleton.mp hb
    exact congrArg host (congrArg (0x10000+·) (Nat.add_sub_cancel_left 0x400000 i).symm)

theorem callMap_inBlock {a n : ℕ} (hlow : 0x400000 ≤ a) (hhigh : a+n ≤ 0x401000) :
    InBlock callMap a n :=
  ⟨imageBlock,(callMap_holds fun _ => 0).2,hlow,hhigh⟩

/-- `SetFilePointer` by this distance from the position 3 of a file of four bytes. -/
def seekCall (distance : U32) : State Unit where
  memory := ⟨callMap,fun i => (bytes32 0xeeeee++bytes32 distance++bytes32 0++bytes32 1).getD
    (i-0x10004) 0⟩
  esp := 0x400000
  eax := 0
  handles := setObject (fun _ => none) ⟨.File,[],some 7⟩ 0xeeeee
  files := fun _ => ⟨[1,2,3,4],3⟩

theorem setFilePointer_moves_forward : MovesTo .debug (seekCall 1) 0xeeeee 7 4 := by
  have hcall : Called (seekCall 1) [0xeeeee,1,0,1] := by
    unfold Called
    decide +kernel
  have hopen : Open (seekCall 1) 0xeeeee 7 := ⟨_,rfl,rfl⟩
  have hbase : ((seekCall 1).files 7).origin 1=some 3 := rfl
  exact (setFilePointer_moves_iff hcall hopen hbase (by decide) (by decide)).mpr (by decide)

/-- One byte back from the position 3: the answer is 2, the position 2^32+2. -/
theorem setFilePointer_back : ¬MovesTo .debug (seekCall 0xffffffff) 0xeeeee 7 2 := by
  have hcall : Called (seekCall 0xffffffff) [0xeeeee,0xffffffff,0,1] := by
    unfold Called
    decide +kernel
  have hopen : Open (seekCall 0xffffffff) 0xeeeee 7 := ⟨_,rfl,rfl⟩
  have hbase : ((seekCall 0xffffffff).files 7).origin 1=some 3 := rfl
  rw [MovesTo,setFilePointer_eq hcall hopen,seek_eq .debug hbase (by decide)]
  rintro ⟨t,heq,_,hfile,_⟩
  cases heq
  have hposition := congrArg HostFile.position hfile
  simp [State.setFile] at hposition

end FalloutEmu.FilePositions
