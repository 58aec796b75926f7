import FalloutEmu.MemoryMap
import Mathlib.Data.List.Nodup

/-! # What a failing `fe_memoryMap_malloc` does with the host memory it has allocated -/
namespace FalloutEmu.MallocLedger
open FEMemoryMap

/-- The host's answers to `malloc(size)`, to the allocation of the descriptor, and whether `strndup`
succeeds. -/
structure Answers where
  realAddress : Option ℕ
  block : Option ℕ
  tag : Bool

def Answers.complete (host : Answers) : Bool :=
  host.realAddress.isSome && host.block.isSome && host.tag

/-- What `fe_memoryMapBlock_create` returns. -/
def Answers.newBlock (host : Answers) : Option ℕ := if host.tag then host.block else none

/-- What a call has allocated, next to its result and what it has released. -/
structure Ledger (κ : Type) extends MallocResult κ where
  allocated : List Released

/-- `fe_memoryMapBlock_create`: the descriptor, what was allocated and what of it was released. -/
def blockCreate (host : Answers) : Option ℕ×List Released×List Released :=
  match host.block with
  | none => (none,[],[])
  | some block =>
    if host.tag then (some block,[.descriptor block,.tag block],[])
    else (none,[.descriptor block],[.descriptor block])

/-- `fe_memoryMapBlock_release` of a block with a buffer and a tag. -/
def blockRelease (block : FEMemoryMapBlock) : List Released :=
  (if block.freeWhenDone then [.buffer block.localAddress] else [])++[.tag block.pointer,
    .descriptor block.pointer]

section Definitions
variable {κ : Type}

def place (build : Build) (memoryMap : FEMemoryMap κ) (size : U32) (mode : FEMemoryAccessMode)
    (tag : List Char) (realAddress newBlock : ℕ) (allocated : List Released) :
    Except Stop (Ledger κ) := do
  let memoryMap := memoryMap.clearContext newBlock
  match ← memoryMap.findAddress size with
  | some address =>
    let block := mallocBlock size tag realAddress newBlock address
    let memoryMap ← memoryMap.appendMemoryBlock build block mode
    .ok ⟨⟨address,memoryMap,[]⟩,allocated⟩
  | none =>
    -- the label `fail`, which goes on with `early_fail`
    assertThat build false
    .ok ⟨⟨0,memoryMap,blockRelease (mallocBlock size tag realAddress newBlock
      0)++[.buffer realAddress]⟩,allocated⟩

def malloc (build : Build) (memoryMap : FEMemoryMap κ) (size : U32) (mode : FEMemoryAccessMode)
    (tag : List Char) (host : Answers) : Except Stop (Ledger κ) :=
  match host.realAddress with
  | none => do
    assertThat build false
    .ok ⟨⟨0,memoryMap,[]⟩,[]⟩
  | some realAddress =>
    match blockCreate host with
    | (none,allocated,released) => do
      assertThat build false
      .ok ⟨⟨0,memoryMap,released++[.buffer realAddress]⟩,.buffer realAddress::allocated⟩
    | (some newBlock,allocated,_) =>
      place build memoryMap size mode tag realAddress newBlock (.buffer realAddress::allocated)

/-- The call fails and leaves nothing behind: the map is as it was, and what was allocated has been
released, each piece once. -/
def FailsCleanly (memoryMap : FEMemoryMap κ) (call : Except Stop (Ledger κ)) : Prop :=
  ∃result,call=.ok result ∧ result.address=0 ∧ result.map.memoryMapBlocks=
    memoryMap.memoryMapBlocks ∧
    result.map.memoryMapBlocksShadow=memoryMap.memoryMapBlocksShadow ∧
    result.map.memoryMapRightsShadow=memoryMap.memoryMapRightsShadow ∧
    ∀piece,result.released.count piece=if piece∈result.allocated then 1 else 0

end Definitions

section Failures
variable {κ : Type} (memoryMap : FEMemoryMap κ) (size : U32) (mode : FEMemoryAccessMode)
  (tag : List Char)

/-- The call and the map's own account of it: the same address, the same map. -/
theorem malloc_eq (build : Build) (host : Answers) :
    (malloc build memoryMap size mode tag host).map (fun result => (result.address,result.map))=
      (memoryMap.malloc build size mode tag ⟨host.realAddress,host.newBlock⟩).map
        fun result => (result.address,result.map) := by
  obtain ⟨realAddress?,block?,copied⟩ := host
  cases realAddress? with
  | none => cases build <;> rfl
  | some realAddress =>
    cases block? with
    | none => cases copied <;> cases build <;> rfl
    | some block =>
      cases copied with
      | false => cases build <;> rfl
      | true =>
        simp only [malloc,blockCreate,place,FEMemoryMap.malloc,Answers.newBlock,if_true]
        cases (memoryMap.clearContext block).findAddress size with
        | error stop => rfl
        | ok found? =>
          cases found? with
          | none => cases build <;> rfl
          | some address =>
            simp only [ok_bind]
            cases (memoryMap.clearContext block).appendMemoryBlock build
              (mallocBlock size tag realAddress block address) mode
              <;> rfl

theorem released_once {released allocated : List Released} (h : released.Perm allocated)
    (hnodup : allocated.Nodup) (piece : Released) : released.count piece=if piece∈allocated then 1
      else 0 := by
  rw [h.count_eq]
  exact hnodup.count

theorem failsCleanly_of_refused {host : Answers} (h : host.complete=false) :
    FailsCleanly memoryMap (malloc .release memoryMap size mode tag host) := by
  obtain ⟨realAddress?,block?,copied⟩ := host
  cases realAddress? with
  | none => exact ⟨_,rfl,rfl,rfl,rfl,rfl,released_once (.refl _) List.nodup_nil⟩
  | some realAddress =>
    cases block? with
    | none => exact ⟨_,rfl,rfl,rfl,rfl,rfl,released_once (.refl _) (List.nodup_singleton _)⟩
    | some block =>
      cases copied with
      | false => exact ⟨_,rfl,rfl,rfl,rfl,rfl,released_once (.swap _ _ _) (by simp)⟩
      | true => simp [Answers.complete] at h

/-- All that is left is the search, which finds no place: the buffer is freed twice. -/
theorem not_failsCleanly_of_complete {host : Answers} (hfind : memoryMap.findAddress size=.ok none)
    (h : host.complete) : ¬FailsCleanly memoryMap (malloc .release memoryMap size mode
      tag host) := by
  obtain ⟨realAddress?,block?,copied⟩ := host
  simp only [Answers.complete,Bool.and_eq_true,Option.isSome_iff_exists] at h
  obtain ⟨⟨⟨realAddress,rfl⟩,⟨block,rfl⟩⟩,rfl⟩ := h
  have hfind' : (memoryMap.clearContext block).findAddress size=.ok none := hfind
  rintro ⟨result,hcall,_,_,_,_,hcount⟩
  simp only [malloc,blockCreate,place,if_true,hfind',ok_bind,assertThat_release] at hcall
  cases hcall
  have htwice := hcount (.buffer realAddress)
  simp [blockRelease,mallocBlock] at htwice

/-- A call that cannot create its descriptor or place its block fails cleanly exactly where the host
refuses an allocation. -/
theorem malloc_failsCleanly_iff (host : Answers)
    (hfail : host.newBlock=none ∨ memoryMap.findAddress size=.ok none) :
    FailsCleanly memoryMap (malloc .release memoryMap size mode tag host) ↔
    host.complete=false := by
  constructor
  · intro hclean
    by_contra hnot
    have hcomplete : host.complete=true := by simpa using hnot
    rcases hfail with hblock | hfind
    · simp only [Answers.complete,Bool.and_eq_true,Option.isSome_iff_exists] at hcomplete
      obtain ⟨⟨_,⟨block,hsome⟩⟩,htag⟩ := hcomplete
      simp [Answers.newBlock,htag,hsome] at hblock
    · exact not_failsCleanly_of_complete memoryMap size mode tag hfind hcomplete hclean
  · exact failsCleanly_of_refused memoryMap size mode tag

end Failures

theorem malloc_failsCleanly_refused : FailsCleanly (FEMemoryMap.create 8192 : FEMemoryMap Unit)
    (malloc .release (.create 8192) 1 .readWrite [] ⟨some 70,none,true⟩) :=
  (malloc_failsCleanly_iff (.create 8192) 1 .readWrite [] ⟨some 70,none,true⟩ (.inl rfl)).mpr rfl

/-- One byte in a map of a single page: there is no place, and the buffer is freed twice. -/
theorem malloc_frees_twice : (FEMemoryMap.create 4096 : FEMemoryMap Unit).findAddress 1=.ok none ∧
    ¬FailsCleanly (FEMemoryMap.create 4096 : FEMemoryMap Unit)
      (malloc .release (.create 4096) 1 .readWrite [] ⟨some 70,some 80,true⟩) := by
  have hfind : (FEMemoryMap.create 4096 : FEMemoryMap Unit).findAddress 1=.ok none := rfl
  exact ⟨hfind,not_failsCleanly_of_complete _ _ _ _ hfind rfl⟩

end FalloutEmu.MallocLedger
