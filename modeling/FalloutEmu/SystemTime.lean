import FalloutEmu.FilePositions

/-! # `GetSystemTimeAsFileTime` -/
namespace FalloutEmu.SystemTime
open ByteStore
open FlatMemory (Holds bytes32)
open FilePositions (IsBuffer callMap callMap_holds callMap_inBlock)
open WideAccess (contiguous_of_inBlock)
variable {κ : Type}

structure Timeval where
  tv_sec : BitVec 64
  tv_usec : U32
  usec_lt : tv_usec.toNat<1000000

def TICKSPERSEC : BitVec 64 := 10000000
def SECS_1601_TO_1970 : BitVec 64 := (369*365+89)*86400
def TICKS_1601_TO_1970 : BitVec 64 := SECS_1601_TO_1970*TICKSPERSEC

structure FILETIME where
  dwLowDateTime : U32
  dwHighDateTime : U32
  deriving DecidableEq

namespace FILETIME

def bytes (time : FILETIME) : List U8 :=
  littleEndian 4 time.dwLowDateTime.toNat++littleEndian 4 time.dwHighDateTime.toNat

def decode (time : FILETIME) : ℕ := time.dwHighDateTime.toNat*2^32+time.dwLowDateTime.toNat

end FILETIME

namespace Timeval

/-- `ticks`; the product of `tv_usec` is an `int`. -/
def ticks (now : Timeval) : BitVec 64 :=
  now.tv_sec*TICKSPERSEC+TICKS_1601_TO_1970+(now.tv_usec*10).signExtend 64

def systemTime (now : Timeval) : FILETIME where
  dwLowDateTime := (now.ticks&&&0xffff).setWidth 32
  dwHighDateTime := ((now.ticks>>>16)&&&0xffff).setWidth 32

def since1601 (now : Timeval) : ℤ := (now.tv_sec.toInt+11644473600)*10000000+now.tv_usec.toNat*10

end Timeval

def getSystemTimeAsFileTime (now : Timeval) (memory : Memory κ) (esp : U32) :
    Except Stop (U8×Memory κ) := do
  let ptrToArgs := esp+4
  let arg_systemTime ← memory.value32AtAddress ptrToArgs
  let _ ← memory.memcpyToRealFromVirtual arg_systemTime 8
  let memory ← memory.memcpyToVirtualFromReal arg_systemTime now.systemTime.bytes
  .ok (4,memory)

def fileTimeAt (memory : Memory κ) (a : U32) : Except Stop FILETIME := do
  .ok ⟨← memory.value32AtAddress a,← memory.value32AtAddress (a+4)⟩

/-- The call has the pointer `a` on its stack, and it points to a buffer for the structure. -/
structure Called (memory : Memory κ) (esp a : U32) : Prop where
  holds : ∃flat,Holds memory flat
  argument : memory.value32AtAddress (esp+4)=.ok a
  buffer : IsBuffer memory.map a 8

/-- The call leaves a structure that decodes to `n`. -/
def Yields (now : Timeval) (memory : Memory κ) (esp a : U32) (n : ℕ) : Prop :=
  ∃memory' time,getSystemTimeAsFileTime now memory esp=.ok (4,memory') ∧ fileTimeAt memory' a=
    .ok time ∧ time.decode=n

section Ticks

theorem Timeval.toNat_usec (now : Timeval) : ((now.tv_usec*10).signExtend 64).toNat=
    now.tv_usec.toNat*10 := by
  have hlt := now.usec_lt
  have hmul : (now.tv_usec*10).toNat=now.tv_usec.toNat*10 := by
    have hten : (10 : U32).toNat=10 := rfl
    rw [BitVec.toNat_mul,hten,Nat.mod_eq_of_lt (by omega)]
  have hmsb : (now.tv_usec*10).msb=false := by
    rw [BitVec.msb_eq_decide,hmul]
    exact decide_eq_false (by omega)
  rw [BitVec.signExtend_eq_setWidth_of_msb_false hmsb,BitVec.toNat_setWidth,hmul]
  omega

/-- The 64-bit sum is the tick count wherever that has 64 bits. -/
theorem Timeval.toNat_ticks {now : Timeval} {ticks : ℕ} (h : now.since1601=ticks)
    (hlt : ticks<2^64) :
    now.ticks.toNat=ticks := by
  have hsec := BitVec.toInt_eq_toNat_cond now.tv_sec
  have hbound := now.tv_sec.isLt
  have hsum : now.ticks.toNat=
    (now.tv_sec.toNat*10000000+116444736000000000+now.tv_usec.toNat*10)%2^64 := by
    have hperSec : TICKSPERSEC.toNat=10000000 := rfl
    have hto1970 : TICKS_1601_TO_1970.toNat=116444736000000000 := by decide
    rw [Timeval.ticks,BitVec.toNat_add,BitVec.toNat_add,BitVec.toNat_mul,now.toNat_usec,
      hperSec,hto1970]
    omega
  rw [Timeval.since1601] at h
  split at hsec <;> omega

theorem Timeval.decode_systemTime (now : Timeval) :
    now.systemTime.decode=now.ticks.toNat/2^16%2^16*2^32+now.ticks.toNat%2^16 := by
  have hmask : ∀x : BitVec 64,((x&&&0xffff).setWidth 32).toNat=x.toNat%2^16 := by
    intro x
    have hand : (x&&&0xffff).toNat=x.toNat%2^16 := Nat.and_two_pow_sub_one_eq_mod x.toNat 16
    rw [BitVec.toNat_setWidth,hand]
    omega
  rw [FILETIME.decode,systemTime,hmask,hmask,BitVec.toNat_ushiftRight,Nat.shiftRight_eq_div_pow]

end Ticks

section Calls
variable {memory memory' : Memory κ} {flat : ℕ→U8} {esp a : U32}

/-- The guest reads the structure whose bytes the buffer holds. -/
theorem fileTimeAt_eq {time : FILETIME} (h : Holds memory (writeAt flat a.toNat time.bytes))
    (hbuffer : IsBuffer memory.map a 8) : fileTimeAt memory a=.ok time := by
  have hlow := (hbuffer.part 0 4 (by decide)).load h (by decide)
  have hhigh := (hbuffer.part 4 4 (by decide)).load h (by decide)
  rw [BitVec.add_zero] at hlow
  rw [hbuffer.toNat_add (by decide)] at hhigh
  have hsplit := readAt_add (writeAt flat a.toNat time.bytes) a.toNat 4 4
  have hself := readAt_writeAt_self flat a.toNat time.bytes
  have hlen : time.bytes.length=4+4 := by simp [FILETIME.bytes]
  rw [hlen,hsplit] at hself
  obtain ⟨hfirst,hsecond⟩ := List.append_inj hself (by simp)
  have hback : ∀v : U32,BitVec.ofNat 32 (value (littleEndian 4 v.toNat))=v :=
    ofNat_value_littleEndian rfl
  rw [fileTimeAt,Memory.value32AtAddress,Memory.value32AtAddress,hlow,hfirst]
  have hoffset : a+4=a+.ofNat 32 4 := rfl
  rw [hoffset,hhigh,hsecond,ok_bind,ok_bind,ok_bind,ok_bind,hback,hback]

/-- The call returns, and the guest reads the structure. -/
theorem Called.returns (h : Called memory esp a) (now : Timeval) :
    ∃memory',getSystemTimeAsFileTime now memory esp=.ok (4,memory') ∧ fileTimeAt memory' a=
      .ok now.systemTime := by
  obtain ⟨⟨flat,hholds⟩,hargument,hbuffer⟩ := h
  have hlen : now.systemTime.bytes.length=8 := by simp [FILETIME.bytes]
  have hload := hbuffer.load hholds (by decide)
  obtain ⟨memory',hstore,hholds',hmap⟩ := IsBuffer.store hholds (hlen.symm ▸ hbuffer)
    (by rw [hlen]; decide)
  rw [←hmap] at hbuffer
  refine ⟨memory',?_,fileTimeAt_eq hholds' hbuffer⟩
  rw [getSystemTimeAsFileTime,hargument,ok_bind,Memory.memcpyToRealFromVirtual]
  have hsize : (8 : U32).toNat=8 := rfl
  rw [hsize,hload,ok_bind,Memory.memcpyToVirtualFromReal,hstore,ok_bind]

theorem Called.yields_iff (h : Called memory esp a) (now : Timeval) (n : ℕ) :
    Yields now memory esp a n ↔ now.systemTime.decode=n := by
  obtain ⟨memory',hcall,hread⟩ := h.returns now
  constructor
  · rintro ⟨memory₂,time,hcall₂,hread₂,hdecode⟩
    cases hcall.symm.trans hcall₂
    cases hread.symm.trans hread₂
    exact hdecode
  · exact fun hdecode => ⟨memory',now.systemTime,hcall,hread,hdecode⟩

end Calls

/-- The structure decodes to the tick count exactly for a count below 2^16, and two calls are in
order exactly when the low 32 bits of the tick counts are. -/
theorem getSystemTimeAsFileTime_exact_iff {memory memory' : Memory κ} {esp a esp' a' : U32}
    (hcall : Called memory esp a) (hcall' : Called memory' esp' a') {now now' : Timeval}
    {ticks ticks' : ℕ} (hticks : now.since1601=ticks) (hlt : ticks<2^64)
    (hticks' : now'.since1601=ticks') (hlt' : ticks'<2^64) :
    (Yields now memory esp a ticks ↔ ticks<2^16) ∧
    ((∃n n',Yields now memory esp a n ∧ Yields now' memory' esp' a' n' ∧ n ≤ n') ↔
      ticks%2^32 ≤ ticks'%2^32) := by
  have hdecode := now.decode_systemTime
  have hdecode' := now'.decode_systemTime
  rw [Timeval.toNat_ticks hticks hlt] at hdecode
  rw [Timeval.toNat_ticks hticks' hlt'] at hdecode'
  simp only [hcall.yields_iff,hcall'.yields_iff,hdecode,hdecode']
  constructor
  · omega
  · constructor
    · rintro ⟨n,n',rfl,rfl,hle⟩
      omega
    · intro hle
      exact ⟨_,_,rfl,rfl,by omega⟩

section Epoch

/-- A call with the pointer 0x400008 on the stack at 0x400000. -/
def clockMemory : Memory Unit := ⟨callMap,fun i => (bytes32 0x400008).getD (i-0x10004) 0⟩

theorem clockMemory_called : Called clockMemory 0x400000 0x400008 where
  holds := ⟨_,(callMap_holds _).1⟩
  argument := by decide +kernel
  buffer := by
    have hmap := (callMap_holds fun _ => 0).1.wellFormed
    obtain ⟨hmapped,hcontiguous⟩ := contiguous_of_inBlock (a:=0x400008) (n:=8) hmap
      (callMap_inBlock (by decide) (by decide))
    exact ⟨by decide,hmapped,hcontiguous⟩

def start1601 : Timeval := ⟨-11644473600,1000,by decide⟩

def start1970 : Timeval := ⟨0,0,by decide⟩

def later1970 : Timeval := ⟨72,0,by decide⟩

theorem getSystemTimeAsFileTime_exact_1601 : Yields start1601 clockMemory 0x400000 0x400008 10000 :=
  (getSystemTimeAsFileTime_exact_iff clockMemory_called clockMemory_called
    (show start1601.since1601=(10000 : ℕ) by decide) (by decide)
    (show start1601.since1601=(10000 : ℕ) by decide) (by decide)).1.mpr (by decide)

/-- The count of 1970 is not what the structure decodes to, and 72 seconds later it decodes to
less. -/
theorem getSystemTimeAsFileTime_1970 :
    ¬Yields start1970 clockMemory 0x400000 0x400008 116444736000000000 ∧
    ∃n n',Yields start1970 clockMemory 0x400000 0x400008 n ∧
    Yields later1970 clockMemory 0x400000 0x400008 n' ∧
      n'<n := by
  have hcount : start1970.since1601=(116444736000000000 : ℕ) ∧ later1970.since1601=
    (116444736720000000 : ℕ) := by
    decide
  have hdecode := start1970.decode_systemTime
  have hlater := later1970.decode_systemTime
  rw [Timeval.toNat_ticks hcount.1 (by decide)] at hdecode
  rw [Timeval.toNat_ticks hcount.2 (by decide)] at hlater
  simp only [clockMemory_called.yields_iff,hdecode,hlater]
  exact ⟨by decide,_,_,rfl,rfl,by decide⟩

end Epoch
end FalloutEmu.SystemTime
