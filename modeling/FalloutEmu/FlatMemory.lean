import FalloutEmu.MemoryMapInvariant
import FalloutEmu.Runs
import FalloutEmu.Stack

/-! # Guest memory as a flat store -/
namespace FalloutEmu.FlatMemory
open ByteStore
open FEMemoryMap (create mallocBlock WellFormed SameBlocks Offers withBlock mem_withBlock)
open FEMemoryMapBlock (Contains)
variable {κ : Type}

def Apart (b c : FEMemoryMapBlock) : Prop :=
  b.localAddress+b.size.toNat ≤ c.localAddress ∨ c.localAddress+c.size.toNat ≤ b.localAddress

instance : Std.Symm Apart := ⟨fun _ _ => Or.symm⟩

/-- The memory holds the flat contents `flat` in all of its blocks. -/
structure Holds (memory : Memory κ) (flat : ℕ→U8) : Prop where
  wellFormed : WellFormed memory.map
  buffers : memory.map.memoryMapBlocks.elements.Pairwise Apart
  bytes : ∀b∈memory.map.memoryMapBlocks.elements,∀i<b.size.toNat,
    memory.host (b.localAddress+i)=flat (b.virtualAddress.toNat+i)

/-- The `n` bytes from `a` lie inside one mapped block. -/
def InBlock (m : FEMemoryMap κ) (a n : ℕ) : Prop :=
  ∃b∈m.memoryMapBlocks.elements,b.virtualAddress.toNat ≤ a ∧
    a+n ≤ b.virtualAddress.toNat+b.size.toNat

theorem localAddress_of_contains {m : FEMemoryMap κ} (h : WellFormed m) {b : FEMemoryMapBlock}
    (hb : b∈m.memoryMapBlocks.elements) {a : U32} (ha : b.Contains a.toNat) :
    m.localAddressFromVirtualAddress a=.ok (b.localAddress+(a.toNat-b.virtualAddress.toNat)) := by
  have hslot := (h.owner (a.toNat/4096) b).mpr ⟨hb,ha.ownsPage⟩
  have hbound := h.bounded _ _ hslot
  have hget : m.memoryMapBlocksShadow.get (shadowIndex a)=.ok (some b) :=
    Shadow.get_eq_ok.mpr ⟨hbound,hslot⟩
  have hsub : (a-b.virtualAddress).toNat=a.toNat-b.virtualAddress.toNat := by
    have := ha.1
    bv_omega
  simp [FEMemoryMap.localAddressFromVirtualAddress,hget,hsub,bind,Except.bind]

namespace Holds

/-- A load inside one block reads the flat contents. -/
theorem load {memory : Memory κ} {flat : ℕ→U8} (h : Holds memory flat) {a : U32} {n : ℕ} (hn : 0<n)
    (hin : InBlock memory.map a.toNat n) : memory.load a n=.ok (readAt flat a.toNat n) := by
  obtain ⟨b,hb,hlow,hhigh⟩ := hin
  have hlocal := localAddress_of_contains h.wellFormed hb ⟨hlow,by omega⟩
  have hread : readAt memory.host (b.localAddress+(a.toNat-b.virtualAddress.toNat)) n=
    readAt flat a.toNat n := by
    apply List.map_congr_left
    intro i hi
    have hin := List.mem_range.mp hi
    have hbyte := h.bytes b hb (a.toNat-b.virtualAddress.toNat+i) (by omega)
    rw [←Nat.add_assoc] at hbyte
    rw [hbyte]
    congr 1
    omega
  simp [Memory.load,hlocal,hread,bind,Except.bind]

/-- Writing `bytes` into the buffer of a block stores them into the flat contents. -/
theorem write {memory : Memory κ} {flat : ℕ→U8} (h : Holds memory flat) {b : FEMemoryMapBlock}
    (hb : b∈memory.map.memoryMapBlocks.elements) (offset : ℕ) (bytes : List U8)
    (hfit : offset+bytes.length ≤ b.size.toNat) :
    Holds { memory with host := writeAt memory.host (b.localAddress+offset) bytes }
      (writeAt flat (b.virtualAddress.toNat+offset) bytes) where
  wellFormed := h.wellFormed
  buffers := h.buffers
  bytes := by
    intro c hc i hi
    dsimp only
    by_cases hbc : b=c
    · subst hbc
      by_cases hin : offset ≤ i ∧ i<offset+bytes.length
      · obtain ⟨j,rfl⟩ := Nat.exists_eq_add_of_le hin.1
        rw [←Nat.add_assoc,←Nat.add_assoc,writeAt_apply_add _ _ _ j (by omega),
          writeAt_apply_add _ _ _ j (by omega)]
      · rw [writeAt_apply_of_outside (by omega),writeAt_apply_of_outside (by omega)]
        exact h.bytes b hc i hi
    · -- neither the buffers nor the guest ranges of two blocks meet
      have hsep : Apart b c := h.buffers.forall hb hc hbc
      unfold Apart at hsep
      have hapart : ¬(b.virtualAddress.toNat+offset ≤ c.virtualAddress.toNat+i ∧
          c.virtualAddress.toNat+i<b.virtualAddress.toNat+offset+bytes.length) := by
        rintro ⟨h₁,h₂⟩
        refine hbc (h.wellFormed.disjoint (a:=c.virtualAddress.toNat+i) hb hc ⟨?_,?_⟩ ⟨?_,?_⟩) <;>
          omega
      rw [writeAt_apply_of_outside (by omega),writeAt_apply_of_outside (by omega)]
      exact h.bytes c hc i hi

theorem store {memory memory' : Memory κ} {flat : ℕ→U8} (h : Holds memory flat) {a : U32}
    {bytes : List U8} (hin : InBlock memory.map a.toNat bytes.length)
    (hs : memory.store a bytes=.ok memory') :
    Holds memory' (writeAt flat a.toNat bytes) ∧ memory'.map=memory.map := by
  obtain ⟨b,hb,hlow,hhigh⟩ := hin
  obtain ⟨ptr,hptr,heq⟩ := bind_eq_ok.mp hs
  cases heq
  refine ⟨?_,rfl⟩
  cases bytes with
  | nil => simpa using h
  | cons x bytes =>
    simp only [List.length_cons] at hhigh
    rw [localAddress_of_contains h.wellFormed hb ⟨hlow,by omega⟩] at hptr
    cases hptr
    have hw := h.write hb (a.toNat-b.virtualAddress.toNat) (x::bytes)
      (by simp only [List.length_cons]; omega)
    rwa [Nat.add_sub_cancel' hlow] at hw

/-- A new block brings the bytes that its buffer holds. -/
theorem addBlock {memory : Memory κ} {flat : ℕ→U8} (h : Holds memory flat) {m' : FEMemoryMap κ}
    {block : FEMemoryMapBlock} (hw : WellFormed m')
    (hs : SameBlocks (memory.map.withBlock block) m')
    (hbuf : ∀b∈memory.map.memoryMapBlocks.elements,Apart b block) :
    Holds { memory with map := m' } (writeAt flat block.virtualAddress.toNat
      (readAt memory.host block.localAddress block.size.toNat)) := by
  have hmem : ∀b,b∈m'.memoryMapBlocks.elements ↔ b∈memory.map.memoryMapBlocks.elements ∨
    b=block := by
    intro b
    rw [hs.blocks,mem_withBlock]
  refine ⟨hw,?_,?_⟩
  · have hperm := hs.blocks ▸ memory.map.withBlock_perm block
    refine (hperm.pairwise_iff Or.symm).mpr ?_
    rw [List.pairwise_append]
    refine ⟨h.buffers,List.pairwise_singleton _ _,?_⟩
    intro b hb c hc
    rw [List.mem_singleton.mp hc]
    exact hbuf b hb
  · intro b hb i hi
    by_cases hbb : b=block
    · subst hbb
      rw [writeAt_apply_add _ _ _ i (by simpa using hi),getElem_readAt]
    · have hold := ((hmem b).mp hb).resolve_right hbb
      have hapart : ¬(block.virtualAddress.toNat ≤ b.virtualAddress.toNat+i ∧
          b.virtualAddress.toNat+i<block.virtualAddress.toNat+block.size.toNat) := fun hc =>
        hbb (hw.disjoint (a:=b.virtualAddress.toNat+i) hb ((hmem block).mpr (Or.inr rfl))
          ⟨by omega,by omega⟩ hc)
      rw [writeAt_apply_of_outside (by rw [length_readAt]; omega)]
      exact h.bytes b hold i hi

theorem sameBlocks {memory : Memory κ} {flat : ℕ→U8} (h : Holds memory flat) {m' : FEMemoryMap κ}
    (hs : SameBlocks memory.map m') : Holds { memory with map := m' } flat where
  wellFormed := h.wellFormed.sameBlocks hs
  buffers := by simpa only [hs.blocks] using h.buffers
  bytes := by simpa only [hs.blocks] using h.bytes

end Holds

structure Guest (κ : Type) where
  memory : Memory κ
  guestStacks : List FEStack

/-- A completed operation. Those that add a block also record the bytes its buffer held. -/
inductive StoreEvent where
  | map (block : FEMemoryMapBlock) (mode : FEMemoryAccessMode) (initial : List U8)
  | malloc (size : U32) (mode : FEMemoryAccessMode) (tag : List Char) (realAddress newBlock : ℕ)
      (address : U32) (initial : List U8)
  | createStack (size : U32) (realAddress newBlock : ℕ) (stack : FEStack) (initial : List U8)
  | setAccessMode (mode : FEMemoryAccessMode) (address size : U32)
  | setValue8 (address : U32) (v : U8)
  | setValue16 (address : U32) (v : U16)
  | setValue32 (address : U32) (v : U32)
  | memcpyToVirtualFromReal (dst : U32) (src : List U8)
  | memcpyToVirtualFromVirtual (dst src size : U32)
  | push16 (stack : FEStack) (esp : U32) (v : U16)
  | push32 (stack : FEStack) (esp : U32) (v : U32)

def StoreEvent.block? : StoreEvent→Option FEMemoryMapBlock
  | .map block _ _ => some block
  | .malloc size _ tag realAddress newBlock address _ =>
    some (mallocBlock size tag realAddress newBlock address)
  | .createStack size realAddress newBlock stack _ =>
    some (mallocBlock size ".stack".toList realAddress newBlock stack.start)
  | _ => none

/-- The bytes of a word, lowest first. -/
def bytes16 (v : U16) : List U8 := [v.extractLsb' 0 8,v.extractLsb' 8 8]

def bytes32 (v : U32) : List U8 :=
  [v.extractLsb' 0 8,v.extractLsb' 8 8,v.extractLsb' 16 8,v.extractLsb' 24 8]

/-- Where a data operation writes, and what, when memory holds `flat`. -/
def StoreEvent.written (flat : ℕ→U8) : StoreEvent→ℕ×List U8
  | .setValue8 address v => (address.toNat,[v])
  | .setValue16 address v => (address.toNat,bytes16 v)
  | .setValue32 address v => (address.toNat,bytes32 v)
  | .memcpyToVirtualFromReal dst src => (dst.toNat,src)
  | .memcpyToVirtualFromVirtual dst src size => (dst.toNat,readAt flat src.toNat size.toNat)
  | .push16 _ esp v => ((esp-2).toNat,bytes16 v)
  | .push32 _ esp v => ((esp-4).toNat,bytes32 v)
  | _ => (0,[])

/-- The flat store after one more operation: a new block brings its initial bytes. -/
def StoreEvent.apply (flat : ℕ→U8) : StoreEvent→ℕ→U8
  | .map block _ initial => writeAt flat block.virtualAddress.toNat initial
  | .malloc _ _ _ _ _ address initial => writeAt flat address.toNat initial
  | .createStack _ _ _ stack initial => writeAt flat stack.start.toNat initial
  | event => writeAt flat (event.written flat).1 (event.written flat).2

def flatStore (events : List StoreEvent) : ℕ→U8 := events.foldl StoreEvent.apply fun _ => 0

/-- A new block with a buffer of its own; `initial` is what the buffer holds. -/
def FreshBuffer (g : Guest κ) (block : FEMemoryMapBlock) (initial : List U8) : Prop :=
  (∀b∈g.memory.map.memoryMapBlocks.elements,Apart b block) ∧
    initial=readAt g.memory.host block.localAddress block.size.toNat

/-- One successful operation of a debug build whose accesses lie inside one mapped block each. -/
def StoreStep (g : Guest κ) (event : StoreEvent) (g' : Guest κ) : Prop :=
  match event with
  | .map block mode initial => FreshBuffer g block initial ∧
    ∃m,g.memory.map.map .debug block mode=.ok m ∧ g'={ g with memory := { g.memory with map := m } }
  | .malloc size mode tag realAddress newBlock address initial =>
    FreshBuffer g (mallocBlock size tag realAddress newBlock address) initial ∧
    ∃m,g.memory.map.malloc .debug size mode tag ⟨some realAddress,some newBlock⟩=
      .ok ⟨address,m,[]⟩ ∧
      g'={ g with memory := { g.memory with map := m } }
  | .createStack size realAddress newBlock stack initial =>
    FreshBuffer g (mallocBlock size ".stack".toList realAddress newBlock stack.start) initial ∧
    ∃m,FEStack.create .debug g.memory.map size ⟨some realAddress,some newBlock⟩=.ok (stack,m) ∧
      g'={ memory := { g.memory with map := m },guestStacks := stack::g.guestStacks }
  | .setAccessMode mode address size =>
    ∃m,g.memory.map.setAccessModeAtAddress mode address size=.ok m ∧
      g'={ g with memory := { g.memory with map := m } }
  | .setValue8 address v => InBlock g.memory.map address.toNat 1 ∧
    ∃memory,g.memory.setValue8 address v=.ok memory ∧ g'={ g with memory := memory }
  | .setValue16 address v => InBlock g.memory.map address.toNat 2 ∧
    ∃memory,g.memory.setValue16 address v=.ok memory ∧ g'={ g with memory := memory }
  | .setValue32 address v => InBlock g.memory.map address.toNat 4 ∧
    ∃memory,g.memory.setValue32 address v=.ok memory ∧ g'={ g with memory := memory }
  | .memcpyToVirtualFromReal dst src => InBlock g.memory.map dst.toNat src.length ∧
    ∃memory,g.memory.memcpyToVirtualFromReal dst src=.ok memory ∧ g'={ g with memory := memory }
  | .memcpyToVirtualFromVirtual dst src size =>
    InBlock g.memory.map dst.toNat size.toNat ∧ InBlock g.memory.map src.toNat size.toNat ∧
    (src.toNat+size.toNat ≤ dst.toNat ∨ dst.toNat+size.toNat ≤ src.toNat) ∧
    ∃memory,g.memory.memcpyToVirtualFromVirtual dst src size=.ok memory ∧
      g'={ g with memory := memory }
  | .push16 stack esp v => stack∈g.guestStacks ∧ InBlock g.memory.map (esp-2).toNat 2 ∧
    ∃memory,stack.push16 .debug g.memory esp v=.ok (esp-2,memory) ∧ g'={ g with memory := memory }
  | .push32 stack esp v => stack∈g.guestStacks ∧ InBlock g.memory.map (esp-4).toNat 4 ∧
    ∃memory,stack.push32 .debug g.memory esp v=.ok (esp-4,memory) ∧ g'={ g with memory := memory }

/-- A place at which a block of `size` bytes ends within the 32-bit address space. -/
def EndsInSpace (size address : U32) : Prop := 4096 ≤ address.toNat ∧ address.toNat+size.toNat≤2^32

/-- The operation adds no block that runs past the end of the 32-bit address space. -/
def NoWrap (g : Guest κ) : StoreEvent→Prop
  | .map block _ _ => 0<block.virtualAddress.toNat+block.size.toNat ∧
    block.virtualAddress.toNat+block.size.toNat≤2^32
  | .malloc size _ _ _ _ _ _ => g.memory.map.Offers size (EndsInSpace size)
  | .createStack size _ _ _ _ => g.memory.map.Offers size (EndsInSpace size)
  | _ => True

def start (size : U32) (host : ℕ→U8) : Guest κ := ⟨⟨create size,host⟩,[]⟩

/-- Every read inside one mapped block sees the flat store, words lowest byte first. -/
structure ReadsFlat (memory : Memory κ) (flat : ℕ→U8) : Prop where
  value8 : ∀a : U32,InBlock memory.map a.toNat 1→memory.value8AtAddress a=.ok (flat a.toNat)
  value16 : ∀a : U32,InBlock memory.map a.toNat 2→
    memory.value16AtAddress a=.ok (flat (a.toNat+1)++flat a.toNat)
  value32 : ∀a : U32,InBlock memory.map a.toNat 4→
    memory.value32AtAddress a=
      .ok (flat (a.toNat+3)++flat (a.toNat+2)++flat (a.toNat+1)++flat a.toNat)

/-- The bytes mapped before the operation and outside the range it was asked to write keep their
values. -/
def Frame (g : Guest κ) (flat : ℕ→U8) (event : StoreEvent) (g' : Guest κ) : Prop :=
  ∀a : U32,InBlock g.memory.map a.toNat 1→
    ¬((event.written flat).1 ≤ a.toNat ∧
      a.toNat<(event.written flat).1+(event.written flat).2.length)→
    g'.memory.value8AtAddress a=g.memory.value8AtAddress a

theorem littleEndian_eq_bytes16 (v : U16) : littleEndian 2 v.toNat=bytes16 v := by
  simp only [littleEndian,bytes16,List.cons.injEq,and_true]
  refine ⟨?_,?_⟩ <;> apply BitVec.eq_of_toNat_eq <;>
    simp [BitVec.extractLsb'_toNat,Nat.shiftRight_eq_div_pow]

theorem littleEndian_eq_bytes32 (v : U32) : littleEndian 4 v.toNat=bytes32 v := by
  simp only [littleEndian,bytes32,List.cons.injEq,and_true]
  refine ⟨?_,?_,?_,?_⟩ <;> apply BitVec.eq_of_toNat_eq <;>
    simp [BitVec.extractLsb'_toNat,Nat.shiftRight_eq_div_pow,Nat.div_div_eq_div_mul]

theorem Holds.readsFlat {memory : Memory κ} {flat : ℕ→U8} (h : Holds memory flat) :
    ReadsFlat memory flat where
  value8 a hin := by
    simp [Memory.value8AtAddress,h.load (n:=1) (by decide) hin,readAt,value,bind,Except.bind]
  value16 a hin := by
    have hl := h.load (n:=2) (by decide) hin
    have hv : BitVec.ofNat 16 (value (readAt flat a.toNat 2))=flat (a.toNat+1)++flat a.toNat := by
      apply BitVec.eq_of_toNat_eq
      have h₀ := (flat a.toNat).isLt
      have h₁ := (flat (a.toNat+1)).isLt
      simp only [readAt,List.range,List.range.loop,List.map,value,Nat.add_zero,BitVec.toNat_ofNat,
        BitVec.toNat_append]
      rw [←Nat.shiftLeft_add_eq_or_of_lt h₀,Nat.shiftLeft_eq]
      omega
    simp only [Memory.value16AtAddress,hl,bind,Except.bind,hv]
  value32 a hin := by
    have hl := h.load (n:=4) (by decide) hin
    have hv : BitVec.ofNat 32 (value (readAt flat a.toNat 4))
        =flat (a.toNat+3)++flat (a.toNat+2)++flat (a.toNat+1)++flat a.toNat := by
      apply BitVec.eq_of_toNat_eq
      have h₀ := (flat a.toNat).isLt
      have h₁ := (flat (a.toNat+1)).isLt
      have h₂ := (flat (a.toNat+2)).isLt
      have h₃ := (flat (a.toNat+3)).isLt
      simp only [readAt,List.range,List.range.loop,List.map,value,Nat.add_zero,BitVec.toNat_ofNat,
        BitVec.toNat_append]
      rw [←Nat.shiftLeft_add_eq_or_of_lt h₀,←Nat.shiftLeft_add_eq_or_of_lt h₁,
        ←Nat.shiftLeft_add_eq_or_of_lt h₂]
      simp only [Nat.shiftLeft_eq]
      omega
    simp only [Memory.value32AtAddress,hl,bind,Except.bind,hv]

/-- A stack whose block is mapped and ends within the 32-bit address space. -/
structure StackMapped (m : FEMemoryMap κ) (stack : FEStack) : Prop where
  block : ∃b∈m.memoryMapBlocks.elements,stack.stackBlock=some b ∧ b.virtualAddress=stack.start ∧
    b.size=stack.size
  base : stack.base=stack.start+stack.size
  space : EndsInSpace stack.size stack.start

def Extends (m m' : FEMemoryMap κ) : Prop :=
  ∀b∈m.memoryMapBlocks.elements,b∈m'.memoryMapBlocks.elements

theorem Extends.inBlock {m m' : FEMemoryMap κ} (h : Extends m m') {a n : ℕ} (hin : InBlock m a n) :
    InBlock m' a n := by
  obtain ⟨b,hb,hr⟩ := hin
  exact ⟨b,h b hb,hr⟩

theorem StackMapped.extends {m m' : FEMemoryMap κ} {stack : FEStack} (h : StackMapped m stack)
    (he : Extends m m') : StackMapped m' stack := by
  obtain ⟨b,hb,hr⟩ := h.block
  exact ⟨⟨b,he b hb,hr⟩,h.base,h.space⟩

theorem extends_of_sameBlocks {m m' : FEMemoryMap κ} (hs : SameBlocks m m') : Extends m m' := by
  intro b hb
  rwa [hs.blocks]

theorem extends_of_withBlock {m m' : FEMemoryMap κ} {block : FEMemoryMapBlock}
    (hs : SameBlocks (m.withBlock block) m') : Extends m m' := by
  intro b hb
  rw [hs.blocks,mem_withBlock]
  exact Or.inl hb

/-- What one operation does to the memory and its flat contents. -/
structure StepSpec (g : Guest κ) (flat : ℕ→U8) (event : StoreEvent) (g' : Guest κ) : Prop where
  holds : Holds g'.memory (event.apply flat)
  mono : Extends g.memory.map g'.memory.map
  kept : ∀a,InBlock g.memory.map a 1→
    ¬((event.written flat).1 ≤ a ∧ a<(event.written flat).1+(event.written flat).2.length)→
    event.apply flat a=flat a
  mapped : (∀stack∈g.guestStacks,StackMapped g.memory.map stack)→
    ∀stack∈g'.guestStacks,StackMapped g'.memory.map stack

private theorem dataStep {g : Guest κ} {flat : ℕ→U8} {event : StoreEvent} {memory : Memory κ}
    (happly : event.apply flat=writeAt flat (event.written flat).1 (event.written flat).2)
    (hs : Holds memory (event.apply flat) ∧ memory.map=g.memory.map) :
    StepSpec g flat event { g with memory := memory } where
  holds := hs.1
  mono := by
    intro b hb
    simpa only [hs.2] using hb
  kept := by
    intro a _ hout
    rw [happly]
    exact writeAt_apply_of_outside (by omega)
  mapped h stack hstack := by simpa only [hs.2] using h stack hstack

/-- An operation that adds a block changes no byte that was mapped before. -/
private theorem blockStep {g g' : Guest κ} {flat : ℕ→U8} {event : StoreEvent}
    {block : FEMemoryMapBlock} {initial : List U8} {m' : FEMemoryMap κ} (h : Holds g.memory flat)
    (hfresh : FreshBuffer g block initial)
    (happly : event.apply flat=writeAt flat block.virtualAddress.toNat initial)
    (hw : WellFormed m') (hs : SameBlocks (g.memory.map.withBlock block) m')
    (hfree : g.memory.map.Free block) (hmem : g'.memory={ g.memory with map := m' })
    (hstacks : (∀stack∈g.guestStacks,StackMapped g.memory.map stack)→
      ∀stack∈g'.guestStacks,StackMapped g'.memory.map stack) :
    StepSpec g flat event g' := by
  obtain ⟨hbuf,rfl⟩ := hfresh
  have hmap : g'.memory.map=m' := by rw [hmem]
  refine ⟨?_,?_,?_,hstacks⟩
  · rw [happly,hmem]
    exact h.addBlock hw hs hbuf
  · rw [hmap]
    exact extends_of_withBlock hs
  · intro a ⟨b,hb,hlow,hhigh⟩ _
    rw [happly]
    apply writeAt_apply_of_outside
    rw [length_readAt]
    by_contra hc
    -- the page of `a` was free, but `b` owned it
    have hold := (h.wellFormed.owner (a/4096) b).mpr ⟨hb,FEMemoryMapBlock.Contains.ownsPage
      ⟨hlow,by omega⟩⟩
    have hnone := (hfree (a/4096) (FEMemoryMapBlock.Contains.ownsPage ⟨by omega,by omega⟩)).2
    rw [hold] at hnone
    cases hnone

private theorem storeStep {g : Guest κ} {flat : ℕ→U8} {event : StoreEvent}
    {memory : Memory κ} {a : U32} (bytes : List U8) (h : Holds g.memory flat)
    (hin : InBlock g.memory.map a.toNat bytes.length)
    (hwritten : event.written flat=(a.toNat,bytes))
    (happly : event.apply flat=writeAt flat (event.written flat).1 (event.written flat).2)
    (hs : g.memory.store a bytes=.ok memory) :
    StepSpec g flat event { g with memory := memory } := by
  refine dataStep happly ?_
  rw [happly,hwritten]
  exact h.store hin hs

theorem endsInSpace_reach {size : U32} :
    ∀address,EndsInSpace size address→0<address.toNat+size.toNat ∧ address.toNat+size.toNat≤2^32 :=
  fun _ h => ⟨by have := h.1; omega,h.2⟩

private theorem createStack_step {g g' : Guest κ} {flat : ℕ→U8} {size : U32}
    {realAddress newBlock : ℕ} {stack : FEStack} {initial : List U8} (h : Holds g.memory flat)
    (hok : NoWrap g (.createStack size realAddress newBlock stack initial))
    (hstep : StoreStep g (.createStack size realAddress newBlock stack initial) g') :
    StepSpec g flat (.createStack size realAddress newBlock stack initial) g' := by
  obtain ⟨hfresh,m,hcreate,rfl⟩ := hstep
  obtain ⟨_,hsize,hcreate⟩ := bind_eq_ok.mp hcreate
  obtain ⟨result,hmalloc,hcreate⟩ := bind_eq_ok.mp hcreate
  obtain ⟨block?,hblock,hcreate⟩ := bind_eq_ok.mp hcreate
  cases hcreate
  obtain ⟨hw,hs,hspace,hfree⟩ := h.wellFormed.malloc hok endsInSpace_reach hmalloc
  refine blockStep h hfresh rfl hw hs hfree rfl ?_
  intro hold stack hmem
  rcases List.mem_cons.mp hmem with rfl|hmem
  · have hpos : 0 < size.toNat := by
      have hne : size≠0 := by simpa [assertThat_debug_ok] using hsize
      bv_omega
    have hin : mallocBlock size ".stack".toList realAddress newBlock result.address
        ∈result.map.memoryMapBlocks.elements := by
      rw [hs.blocks,mem_withBlock]
      exact Or.inr rfl
    have hslot := (hw.owner (result.address.toNat/4096) _).mpr
      ⟨hin,FEMemoryMapBlock.Contains.ownsPage ⟨Nat.le_refl _,Nat.lt_add_of_pos_right hpos⟩⟩
    have hget := (Shadow.get_eq_ok.mp hblock).2
    refine ⟨⟨_,hin,?_,rfl,rfl⟩,rfl,hspace⟩
    exact hget.symm.trans hslot
  · exact (hold stack hmem).extends (extends_of_withBlock hs)

private theorem push32_step {g g' : Guest κ} {flat : ℕ→U8} {stack : FEStack} {esp v : U32}
    (h : Holds g.memory flat) (hstacks : ∀stack∈g.guestStacks,StackMapped g.memory.map stack)
    (hstep : StoreStep g (.push32 stack esp v) g') : StepSpec g flat (.push32 stack esp v) g' := by
  obtain ⟨hmem,-,memory,hpush,rfl⟩ := hstep
  obtain ⟨⟨b,hb,hblock,hstart,hsize⟩,hbase,hspace⟩ := hstacks stack hmem
  obtain ⟨_,hassert,hpush⟩ := bind_eq_ok.mp hpush
  obtain ⟨ptr,hptr,hpush⟩ := bind_eq_ok.mp hpush
  have hbounds : stack.start<esp-4 ∧ esp-4 ≤ stack.base-4 := by
    simpa [assertThat_debug_ok] using hassert
  have hlocal : ptr=b.localAddress+(esp-4-stack.start).toNat := by
    simpa [FEStack.localAddress,hblock,eq_comm] using hptr
  have hlow := hspace.1
  have hhigh := hspace.2
  -- the assertion keeps the four bytes inside the stack's own block
  have hfit : (esp-4-stack.start).toNat+4 ≤ b.size.toNat := by
    rw [hsize]
    rw [hbase] at hbounds
    generalize esp-4=ptr at *
    bv_omega
  have hat : stack.start.toNat+(esp-4-stack.start).toNat=(esp-4).toNat := by
    generalize esp-4=ptr at *
    bv_omega
  have hw := h.write hb _ (bytes32 v) hfit
  cases hpush
  refine dataStep rfl ⟨?_,rfl⟩
  rw [hlocal,littleEndian_eq_bytes32]
  rw [hstart,hat] at hw
  exact hw

/-- Each operation of the program refines its counterpart on the flat store. -/
theorem storeStep_spec {g g' : Guest κ} {flat : ℕ→U8} {event : StoreEvent} (h : Holds g.memory flat)
    (hstacks : ∀stack∈g.guestStacks,StackMapped g.memory.map stack) (hok : NoWrap g event)
    (hstep : StoreStep g event g') : StepSpec g flat event g' := by
  cases event with
  | map block mode initial =>
    obtain ⟨hfresh,m,hmap,rfl⟩ := hstep
    obtain ⟨hw,hs,hfree⟩ := h.wellFormed.append block ⟨hok.2,hok.1⟩ hmap
    exact blockStep h hfresh rfl hw hs hfree rfl fun hold stack hmem =>
      (hold stack hmem).extends (extends_of_withBlock hs)
  | malloc size mode tag realAddress newBlock address initial =>
    obtain ⟨hfresh,m,hmalloc,rfl⟩ := hstep
    obtain ⟨hw,hs,-,hfree⟩ := h.wellFormed.malloc hok endsInSpace_reach hmalloc
    exact blockStep h hfresh rfl hw hs hfree rfl fun hold stack hmem =>
      (hold stack hmem).extends (extends_of_withBlock hs)
  | createStack size realAddress newBlock stack initial => exact createStack_step h hok hstep
  | setAccessMode mode address size =>
    obtain ⟨m,hset,rfl⟩ := hstep
    have hs := FEMemoryMap.setAccessMode_sameBlocks hset
    refine ⟨?_,extends_of_sameBlocks hs,?_,?_⟩
    · simpa [StoreEvent.apply,StoreEvent.written] using h.sameBlocks hs
    · intro a _ _
      simp [StoreEvent.apply,StoreEvent.written]
    · exact fun hold stack hmem => (hold stack hmem).extends (extends_of_sameBlocks hs)
  | setValue8 address v =>
    obtain ⟨hin,memory,hset,rfl⟩ := hstep
    refine storeStep [v] h hin rfl rfl ?_
    have hbyte : littleEndian 1 v.toNat=[v] := by simp [littleEndian]
    rwa [Memory.setValue8,hbyte] at hset
  | setValue16 address v =>
    obtain ⟨hin,memory,hset,rfl⟩ := hstep
    refine storeStep (bytes16 v) h hin rfl rfl ?_
    rwa [Memory.setValue16,littleEndian_eq_bytes16] at hset
  | setValue32 address v =>
    obtain ⟨hin,memory,hset,rfl⟩ := hstep
    refine storeStep (bytes32 v) h hin rfl rfl ?_
    rwa [Memory.setValue32,littleEndian_eq_bytes32] at hset
  | memcpyToVirtualFromReal dst src =>
    obtain ⟨hin,memory,hset,rfl⟩ := hstep
    exact storeStep src h hin rfl rfl hset
  | memcpyToVirtualFromVirtual dst src size =>
    obtain ⟨hdst,hsrc,-,memory,hset,rfl⟩ := hstep
    obtain ⟨bytes,hload,hstore⟩ := bind_eq_ok.mp hset
    have hbytes : bytes=readAt flat src.toNat size.toNat := by
      by_cases hzero : size.toNat=0
      · obtain ⟨ptr,-,hload⟩ := bind_eq_ok.mp hload
        cases hload
        simp [hzero]
      · rw [h.load (Nat.pos_of_ne_zero hzero) hsrc] at hload
        cases hload
        rfl
    subst hbytes
    exact storeStep _ h (by simpa using hdst) rfl rfl hstore
  | push16 stack esp v =>
    obtain ⟨hmem,hin,memory,hpush,rfl⟩ := hstep
    obtain ⟨_,-,hpush⟩ := bind_eq_ok.mp hpush
    obtain ⟨memory',hset,hpush⟩ := bind_eq_ok.mp hpush
    cases hpush
    refine storeStep (a:=esp-2) (bytes16 v) h hin rfl rfl ?_
    rwa [Memory.setValue16,littleEndian_eq_bytes16] at hset
  | push32 stack esp v => exact push32_step h hstacks hstep

/-- Along a run the memory holds the flat store of its history. -/
structure GuestInvariant (events : List StoreEvent) (g : Guest κ) : Prop where
  holds : Holds g.memory (flatStore events)
  mapped : ∀stack∈g.guestStacks,StackMapped g.memory.map stack

theorem flatStore_snoc (events : List StoreEvent) (event : StoreEvent) :
    flatStore (events++[event])=event.apply (flatStore events) := by
  simp [flatStore]

theorem guestInvariant_start (size : U32) (host : ℕ→U8) :
    GuestInvariant [] (start size host : Guest κ) where
  holds := ⟨.create size,by simp [start,create],by simp [start,create]⟩
  mapped := by simp [start]

theorem guestInvariant_step (events : List StoreEvent) (g : Guest κ) (event : StoreEvent)
    (g' : Guest κ) (h : GuestInvariant events g) (hstep : StoreStep g event g' ∧ NoWrap g event) :
    GuestInvariant (events++[event]) g' := by
  have hspec := storeStep_spec h.holds h.mapped hstep.2 hstep.1
  refine ⟨?_,hspec.mapped h.mapped⟩
  rw [flatStore_snoc]
  exact hspec.holds

theorem StepSpec.frame {g g' : Guest κ} {flat : ℕ→U8} {event : StoreEvent} (h : Holds g.memory flat)
    (hspec : StepSpec g flat event g') : Frame g flat event g' := by
  intro a hin hout
  rw [hspec.holds.readsFlat.value8 a (hspec.mono.inBlock hin),h.readsFlat.value8 a hin,
    hspec.kept a.toNat hin hout]

/-- Guest memory is a flat store, and operations change only what they were asked to write, in every
run that adds no block past the end of the address space. -/
theorem memory_refines_flatStore {size : U32} {host : ℕ→U8} {events : List StoreEvent} {g : Guest κ}
    (h : Runs (fun g event g' => StoreStep g event g' ∧ NoWrap g event)
      (start size host) events g) :
    ReadsFlat g.memory (flatStore events) ∧
      ∀event g',StoreStep g event g'→NoWrap g event→Frame g (flatStore events) event g' := by
  have hinv := h.history (guestInvariant_start size host) guestInvariant_step
  refine ⟨hinv.holds.readsFlat,?_⟩
  intro event g' hstep hok
  exact (storeStep_spec hinv.holds hinv.mapped hok hstep).frame hinv.holds

def imageBlock : FEMemoryMapBlock := ⟨1,0x400000,0x401000,0x1000,0x10000,true,".text".toList⟩

/-- The image is mapped over zeroed memory and one of its words is patched. -/
def patchEvents : List StoreEvent :=
  [.map imageBlock .readWrite (readAt (fun _ => 0) 0x10000 0x1000),.setValue32 0x400ffc 0xdeadbeef]

private theorem map_image : ∃m : FEMemoryMap Unit,
    (create 0x40000000).map .debug imageBlock .readWrite=.ok m ∧ WellFormed m ∧
      m.memoryMapBlocks.elements=[imageBlock] ∧ m.size=0x40000000 ∧
      m.memoryMapAccessModeChangeCallback=false := by
  obtain ⟨m,hmap⟩ : ∃m,(create 0x40000000 : FEMemoryMap Unit).map .debug imageBlock .readWrite=
    .ok m :=
    ⟨_,rfl⟩
  obtain ⟨hw,hs,-⟩ := (WellFormed.create 0x40000000).append imageBlock ⟨by decide,by decide⟩ hmap
  refine ⟨m,hmap,hw,?_,hs.size,hs.callback⟩
  rw [hs.blocks]
  exact List.perm_singleton.mp
    (by simpa [create] using (create 0x40000000).withBlock_perm imageBlock)

theorem memory_refines_flatStore_patch : ∃g : Guest Unit,
    ReadsFlat g.memory (flatStore patchEvents) ∧
      ∀event g',StoreStep g event g'→NoWrap g event→Frame g (flatStore patchEvents) event g' := by
  obtain ⟨m,hmap,hw,hblocks,-⟩ := map_image
  have hmem : imageBlock∈m.memoryMapBlocks.elements := by simp [hblocks]
  have hlocal := localAddress_of_contains hw hmem (a:=0x400ffc) ⟨by decide,by decide⟩
  obtain ⟨memory,hset⟩ : ∃memory,(⟨m,fun _ => 0⟩ : Memory Unit).setValue32 0x400ffc 0xdeadbeef=
    .ok memory := by
    simp only [Memory.setValue32,Memory.store,hlocal,bind,Except.bind]
    exact ⟨_,rfl⟩
  have hfirst : StoreStep (start 0x40000000 fun _ => 0)
      (.map imageBlock .readWrite (readAt (fun _ => 0) 0x10000 0x1000)) ⟨⟨m,fun _ => 0⟩,[]⟩ :=
    ⟨⟨by simp [start,create],rfl⟩,m,hmap,rfl⟩
  have hsecond : StoreStep ⟨⟨m,fun _ => 0⟩,[]⟩ (.setValue32 0x400ffc 0xdeadbeef) ⟨memory,[]⟩ :=
    ⟨⟨imageBlock,hmem,by decide,by decide⟩,memory,hset,rfl⟩
  have hrun : Runs (fun g event g' => StoreStep g event g' ∧ NoWrap g event)
      (start 0x40000000 fun _ => 0) patchEvents ⟨memory,[]⟩ :=
    .next (.next .start ⟨hfirst,by decide,by decide⟩) ⟨hsecond,trivial⟩
  exact ⟨_,memory_refines_flatStore hrun⟩

/-- An allocation whose end wraps is returned, but no page of it is mapped: its bytes cannot be
read. -/
theorem flatStore_wrapped : ¬∀(size : U32) (host : ℕ→U8) (events : List StoreEvent)
    (g : Guest Unit),
    Runs StoreStep (start size host) events g→ReadsFlat g.memory (flatStore events) := by
  intro hflat
  obtain ⟨m,hmap,hw,hblocks,hsize,hcallback⟩ := map_image
  have hfind : m.findAddress 0xffbff800=.ok (some 0x401000) := by
    have hone : m.memoryMapBlocks.size=1 := by rw [←FEArray.length_elements,hblocks]; rfl
    have hlast := m.memoryMapBlocks.last_eq_ok (by simp [hblocks])
    have hsearch : FEMemoryMap.searchGaps 0xffbff800 true [imageBlock]=none := by decide
    have hround : roundUp (imageBlock.virtualAddress+imageBlock.size)=0x401000 := by decide
    simp only [FEMemoryMap.findAddress,hblocks,hsearch,hone,hlast,hsize,bind,Except.bind,
      List.getLast_singleton,hround]
    rw [if_neg (by decide),if_neg (by decide)]
  obtain ⟨m',hmalloc,hshadow,hmem⟩ := FEMemoryMap.malloc_wrapped .debug .readWrite [] 0x20000 2
    hfind (by decide) (by decide) (FEArray.grows_blocks (by simp [hblocks])) (by simp [hcallback])
  have hrun : Runs StoreStep (start 0x40000000 fun _ => 0)
      [.map imageBlock .readWrite (readAt (fun _ => 0) 0x10000 0x1000),
        .malloc 0xffbff800 .readWrite [] 0x20000 2 0x401000 (readAt (fun _ => 0) 0x20000
          0xffbff800)]
      ⟨⟨m',fun _ => 0⟩,[]⟩ := by
    refine .next (s:=⟨⟨m,fun _ => 0⟩,[]⟩)
      (.next .start ⟨⟨by simp [start,create],rfl⟩,m,hmap,rfl⟩) ?_
    refine ⟨⟨?_,rfl⟩,m',hmalloc,rfl⟩
    intro b hb
    rw [hblocks] at hb
    rw [List.mem_singleton.mp hb]
    exact Or.inl (by simp [imageBlock,mallocBlock])
  have hread := (hflat _ _ _ _ hrun).value8 0x401000 ⟨_,hmem,by decide,by decide⟩
  -- page 0x401 still has no owner
  have hnone : m.memoryMapBlocksShadow.slot 0x401=none := by
    by_contra hne
    obtain ⟨b,hb⟩ := Option.ne_none_iff_exists'.mp hne
    obtain ⟨hmem,hown⟩ := (hw.owner _ _).mp hb
    rw [hblocks] at hmem
    rw [List.mem_singleton.mp hmem] at hown
    exact absurd hown (by decide)
  obtain ⟨bytes,hload,-⟩ := bind_eq_ok.mp hread
  obtain ⟨ptr,hptr,-⟩ := bind_eq_ok.mp hload
  obtain ⟨block?,hget,hptr⟩ := bind_eq_ok.mp hptr
  have hslot : m'.memoryMapBlocksShadow.slot 0x401=block? := (Shadow.get_eq_ok.mp hget).2
  rw [hshadow,hnone] at hslot
  subst hslot
  cases hptr

end FalloutEmu.FlatMemory
