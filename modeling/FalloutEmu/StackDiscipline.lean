import FalloutEmu.FlatMemory

/-! # Pushes and the pops that undo them -/
namespace FalloutEmu
open ByteStore

namespace FEBitWidth

def slotSize : FEBitWidth→ℕ
  | .k16bit => 2
  | _ => 4

def popWidth : FEBitWidth→FEBitWidth
  | .k16bit => .k16bit
  | _ => .k32bit

def popped (v : U32) : FEBitWidth→U32
  | .k32bit => v
  | .k16bit => (v.setWidth 16).setWidth 32
  | .k8bit => (v.setWidth 8).signExtend 32

end FEBitWidth

structure Pushed where
  bitWidth : FEBitWidth
  value : U32
  deriving DecidableEq,Repr

namespace Pushed

def bytes (item : Pushed) : List U8 :=
  littleEndian item.bitWidth.slotSize (item.bitWidth.popped item.value).toNat

@[simp] theorem length_bytes (item : Pushed) : item.bytes.length=item.bitWidth.slotSize :=
  length_littleEndian _ _

theorem bytes_word (v : U32) :
    (⟨.k16bit,v⟩ : Pushed).bytes=littleEndian 2 (v.setWidth 16).toNat := by
  have hwide : ((v.setWidth 16).setWidth 32).toNat=(v.setWidth 16).toNat :=
    BitVec.toNat_setWidth_of_le (by decide)
  simp only [Pushed.bytes,FEBitWidth.popped,FEBitWidth.slotSize,hwide]

end Pushed

namespace FEStack
variable {κ : Type}

/-- `fe_stack_push` of each value in turn. -/
def pushAll (build : Build) (stack : FEStack) (memory : Memory κ) (esp : U32) :
    List Pushed→Except Stop (U32×Memory κ)
  | [] => .ok (esp,memory)
  | item::items => do
    let (esp,memory) ← stack.push build memory esp item.value item.bitWidth
    stack.pushAll build memory esp items

/-- `fe_stack_pop` of each width in turn: the values and the last `esp`. -/
def popAll (build : Build) (stack : FEStack) (memory : Memory κ) (esp : U32) :
    List FEBitWidth→Except Stop (List U32×U32)
  | [] => .ok ([],esp)
  | bitWidth::widths => do
    let (v,esp) ← stack.pop build memory esp bitWidth
    let (vs,esp) ← stack.popAll build memory esp widths
    .ok (v::vs,esp)

end FEStack

namespace StackDiscipline
open FlatMemory (StackMapped StoreStep NoWrap GuestInvariant guestInvariant_start
  guestInvariant_step)
open FEMemoryMap (WellFormed)
variable {κ : Type}

/-- The stack's block is `b`, ends within the address space and owns the pages of the stack. -/
structure Owned (m : FEMemoryMap κ) (stack : FEStack) (b : FEMemoryMapBlock) : Prop where
  block : stack.stackBlock=some b
  start : b.virtualAddress=stack.start
  base : stack.base=stack.start+stack.size
  space : stack.start.toNat+stack.size.toNat<2^32
  pages : ∀a : U32,stack.start.toNat ≤ a.toNat→a.toNat<stack.start.toNat+stack.size.toNat→
    m.memoryMapBlocksShadow.get (shadowIndex a)=.ok (some b)

/-- The `n` bytes at `esp` lie inside the stack. -/
def Inside (stack : FEStack) (esp : U32) (n : ℕ) : Prop :=
  stack.start.toNat ≤ esp.toNat ∧ esp.toNat+n ≤ stack.start.toNat+stack.size.toNat

def SlotsInside (stack : FEStack) : U32→List Pushed→Prop
  | _,[] => True
  | esp,item::items => Inside stack (esp-.ofNat 32 item.bitWidth.slotSize) item.bitWidth.slotSize ∧
    SlotsInside stack (esp-.ofNat 32 item.bitWidth.slotSize) items

/-- The memory map reads the pushed value at `esp`. -/
def ReadsPushed (memory : Memory κ) (esp : U32) (item : Pushed) : Prop :=
  match item.bitWidth with
  | .k16bit => memory.value16AtAddress esp=.ok (item.value.setWidth 16)
  | bitWidth => memory.value32AtAddress esp=.ok (bitWidth.popped item.value)

def slotAddress (stack : FEStack) (b : FEMemoryMapBlock) (esp : U32) : ℕ :=
  b.localAddress+(esp.toNat-stack.start.toNat)

section Slots
variable {memory memory' : Memory κ} {stack : FEStack} {b : FEMemoryMapBlock} {esp esp' : U32}
  {build : Build}

theorem Owned.localAddress (h : Owned memory.map stack b) (hlow : stack.start.toNat ≤ esp.toNat) :
    stack.localAddress esp=.ok (slotAddress stack b esp) := by
  have hsub : (esp-stack.start).toNat=esp.toNat-stack.start.toNat := by bv_omega
  simp only [FEStack.localAddress,h.block,slotAddress,hsub]

/-- The memory map translates an address of the stack as the stack's own block does. -/
theorem Owned.mapAddress (h : Owned memory.map stack b) {n : ℕ} (hn : 0 < n)
    (hin : Inside stack esp n) :
    memory.map.localAddressFromVirtualAddress esp=.ok (slotAddress stack b esp) := by
  have hlow := hin.1
  have hhigh := hin.2
  have hsub : (esp-stack.start).toNat=esp.toNat-stack.start.toNat := by bv_omega
  rw [FEMemoryMap.localAddressFromVirtualAddress,h.pages esp hlow (by omega),ok_bind]
  simp only [h.start,slotAddress,hsub]

/-- What a push does: its bytes go into the slot below `esp`, through either path. -/
theorem push_spec (h : Owned memory.map stack b) {item : Pushed}
    (hin : Inside stack (esp-.ofNat 32 item.bitWidth.slotSize) item.bitWidth.slotSize)
    (hpush : stack.push build memory esp item.value item.bitWidth=.ok (esp',memory')) :
    esp'=esp-.ofNat 32 item.bitWidth.slotSize ∧ memory'={ memory with
      host := writeAt memory.host (slotAddress stack b (esp-.ofNat 32 item.bitWidth.slotSize))
        item.bytes } := by
  have hlocal := h.localAddress hin.1
  obtain ⟨bitWidth,v⟩ := item
  cases bitWidth with
  | k32bit =>
    obtain ⟨_,_,hpush⟩ := bind_eq_ok.mp hpush
    obtain ⟨ptr,hptr,hpush⟩ := bind_eq_ok.mp hpush
    cases hlocal.symm.trans hptr
    cases hpush
    exact ⟨rfl,rfl⟩
  | k16bit =>
    obtain ⟨_,_,hpush⟩ := bind_eq_ok.mp hpush
    obtain ⟨stored,hstore,hpush⟩ := bind_eq_ok.mp hpush
    obtain ⟨ptr,hptr,hstore⟩ := bind_eq_ok.mp hstore
    cases (h.mapAddress Nat.zero_lt_two hin).symm.trans hptr
    cases hstore
    cases hpush
    refine ⟨rfl,?_⟩
    rw [Pushed.bytes_word]
  | k8bit =>
    obtain ⟨_,_,hpush⟩ := bind_eq_ok.mp hpush
    obtain ⟨ptr,hptr,hpush⟩ := bind_eq_ok.mp hpush
    cases hlocal.symm.trans hptr
    cases hpush
    exact ⟨rfl,rfl⟩

theorem pop32_spec (h : Owned memory.map stack b) {v : U32} (hin : Inside stack esp 4)
    (hread : readAt memory.host (slotAddress stack b esp) 4=littleEndian 4 v.toNat) :
    stack.pop32 build memory esp=.ok (v,esp+4) := by
  have hspace := h.space
  obtain ⟨hlow,hhigh⟩ := hin
  have hbelow : esp<stack.base := by
    rw [h.base]
    bv_omega
  rw [FEStack.pop32,assertThat_pos hbelow,ok_bind,h.localAddress hlow,ok_bind,hread,
    ofNat_value_littleEndian (w:=32) rfl]

theorem pop16_spec (h : Owned memory.map stack b) {v : U16} (hin : Inside stack esp 2)
    (hread : readAt memory.host (slotAddress stack b esp) 2=littleEndian 2 v.toNat) :
    stack.pop16 build memory esp=.ok (v,esp+2) := by
  have hspace := h.space
  obtain ⟨hlow,hhigh⟩ := hin
  have hbelow : esp<stack.base := by
    rw [h.base]
    bv_omega
  rw [FEStack.pop16,assertThat_pos hbelow,ok_bind,h.localAddress hlow,ok_bind,hread,
    ofNat_value_littleEndian (w:=16) rfl]

theorem pop_spec (h : Owned memory.map stack b) {item : Pushed}
    (hin : Inside stack esp item.bitWidth.slotSize)
    (hread : readAt memory.host (slotAddress stack b esp) item.bitWidth.slotSize=item.bytes) :
    stack.pop build memory esp item.bitWidth.popWidth=
      .ok (item.bitWidth.popped item.value,esp+.ofNat 32 item.bitWidth.slotSize) := by
  obtain ⟨bitWidth,v⟩ := item
  cases bitWidth with
  | k16bit =>
    rw [Pushed.bytes_word] at hread
    have hpop : stack.pop16 build memory esp=.ok (_,esp+2) := pop16_spec h hin hread
    simp only [FEBitWidth.popWidth,FEStack.pop,hpop,ok_bind]
    rfl
  | k32bit => exact pop32_spec h hin hread
  | k8bit => exact pop32_spec h hin hread

theorem value16_of_load {v : U16} (hload : memory.load esp 2=.ok (littleEndian 2 v.toNat)) :
    memory.value16AtAddress esp=.ok v := by
  rw [Memory.value16AtAddress,hload,ok_bind,ofNat_value_littleEndian (w:=16) rfl]

theorem value32_of_load {v : U32} (hload : memory.load esp 4=.ok (littleEndian 4 v.toNat)) :
    memory.value32AtAddress esp=.ok v := by
  rw [Memory.value32AtAddress,hload,ok_bind,ofNat_value_littleEndian (w:=32) rfl]

theorem readsPushed (h : Owned memory.map stack b) {item : Pushed}
    (hin : Inside stack esp item.bitWidth.slotSize)
    (hread : readAt memory.host (slotAddress stack b esp) item.bitWidth.slotSize=item.bytes) :
    ReadsPushed memory esp item := by
  have hpos : 0 < item.bitWidth.slotSize := by cases item.bitWidth <;> decide
  have hload : memory.load esp item.bitWidth.slotSize=.ok item.bytes := by
    rw [Memory.load,h.mapAddress hpos hin,ok_bind,hread]
  obtain ⟨bitWidth,v⟩ := item
  cases bitWidth with
  | k16bit =>
    rw [Pushed.bytes_word] at hload
    exact value16_of_load hload
  | k32bit => exact value32_of_load hload
  | k8bit => exact value32_of_load hload

theorem popAll_append {widths : List FEBitWidth} {bitWidth : FEBitWidth} {vs : List U32}
    {v esp₁ esp₂ : U32} (hpops : stack.popAll build memory esp widths=.ok (vs,esp₁))
    (hpop : stack.pop build memory esp₁ bitWidth=.ok (v,esp₂)) :
    stack.popAll build memory esp (widths++[bitWidth])=.ok (vs++[v],esp₂) := by
  induction widths generalizing esp vs with
  | nil =>
    cases hpops
    simp only [List.nil_append,FEStack.popAll,hpop,ok_bind]
  | cons w widths ih =>
    obtain ⟨⟨v₀,esp₀⟩,hfirst,hpops⟩ := bind_eq_ok.mp hpops
    obtain ⟨⟨rest,esp'⟩,hrest,hpops⟩ := bind_eq_ok.mp hpops
    cases hpops
    simp only [List.cons_append,FEStack.popAll,hfirst,ok_bind,ih hrest]

end Slots

/-- What a sequence of pushes has done: every push can be read back at its new `esp`, the matching
pops undo the sequence, and only the slots have changed. -/
structure Undone (build : Build) (stack : FEStack) (memory : Memory κ) (esp : U32)
    (items : List Pushed) (b : FEMemoryMapBlock) (esp' : U32) (memory' : Memory κ) : Prop where
  reads : ∀done item rest,items=done++item::rest→
    ∃esp₁ memory₁,stack.pushAll build memory esp (done++[item])=.ok (esp₁,memory₁) ∧
      ReadsPushed memory₁ esp₁ item
  pops : stack.popAll build memory' esp' (items.reverse.map fun item => item.bitWidth.popWidth)=
    .ok (items.reverse.map fun item => item.bitWidth.popped item.value,esp)
  map : memory'.map=memory.map
  below : esp'.toNat ≤ esp.toNat
  frame : ∀p,¬(slotAddress stack b esp' ≤ p ∧ p<slotAddress stack b esp)→memory'.host p=
    memory.host p

/-- A push before pushes that are undone is undone with them. -/
theorem Undone.cons {build : Build} {stack : FEStack} {memory memory₁ memory' : Memory κ}
    {esp esp₁ esp' : U32} {item : Pushed} {items : List Pushed} {b : FEMemoryMapBlock}
    (h : Owned memory.map stack b)
    (hslot : Inside stack (esp-.ofNat 32 item.bitWidth.slotSize) item.bitWidth.slotSize)
    (hfirst : stack.push build memory esp item.value item.bitWidth=.ok (esp₁,memory₁))
    (hundone : Undone build stack memory₁ esp₁ items b esp' memory') :
    Undone build stack memory esp (item::items) b esp' memory' := by
  obtain ⟨hesp,hmemory⟩ := push_spec h hslot hfirst
  have hown : Owned memory₁.map stack b := by
    rw [hmemory]
    exact h
  rw [←hesp] at hslot
  have hback : esp₁+.ofNat 32 item.bitWidth.slotSize=esp := by
    rw [hesp,BitVec.sub_add_cancel]
  have hnat : esp.toNat=esp₁.toNat+item.bitWidth.slotSize := by
    have hspace := h.space
    have hhigh := hslot.2
    have hsmall : item.bitWidth.slotSize<2^32 := by cases item.bitWidth <;> decide
    rw [←hback,BitVec.toNat_add,BitVec.toNat_ofNat,Nat.mod_eq_of_lt hsmall]
    omega
  have hlow : stack.start.toNat ≤ esp₁.toNat := hslot.1
  have hstored : readAt memory₁.host (slotAddress stack b esp₁) item.bitWidth.slotSize=
    item.bytes := by
    rw [hmemory,←hesp,←Pushed.length_bytes]
    exact readAt_writeAt_self _ _ _
  -- the later slots lie below this one
  have hkept : readAt memory'.host (slotAddress stack b esp₁) item.bitWidth.slotSize=
    item.bytes := by
    rw [←hstored]
    apply readAt_congr
    intro i _
    exact hundone.frame _ (by omega)
  refine ⟨?_,?_,?_,?_,?_⟩
  · intro done next rest hsplit
    cases done with
    | nil =>
      cases hsplit
      refine ⟨esp₁,memory₁,?_,readsPushed hown hslot hstored⟩
      simp only [List.nil_append,FEStack.pushAll,hfirst,ok_bind]
    | cons first done =>
      cases hsplit
      obtain ⟨esp₂,memory₂,hpushed,hreads⟩ := hundone.reads done next rest rfl
      refine ⟨esp₂,memory₂,?_,hreads⟩
      simp only [List.cons_append,FEStack.pushAll,hfirst,ok_bind,hpushed]
  · have hown' : Owned memory'.map stack b := hundone.map ▸ hown
    have hpop : stack.pop build memory' esp₁ item.bitWidth.popWidth=_ := pop_spec hown' hslot hkept
    rw [hback] at hpop
    rw [List.reverse_cons,List.map_append,List.map_append]
    exact popAll_append hundone.pops hpop
  · rw [hundone.map,hmemory]
  · have hbelow := hundone.below
    omega
  · intro p hp
    have hbelow := hundone.below
    unfold slotAddress at hp
    rw [hundone.frame p (by unfold slotAddress; omega),hmemory]
    apply writeAt_apply_of_outside
    rw [Pushed.length_bytes,←hesp]
    unfold slotAddress
    omega

/-- `fe_stack_push` of any sequence whose assertions pass and whose slots lie inside the stack is
undone by the matching pops in reverse order. -/
theorem pushes_undone {build : Build} {stack : FEStack} {memory memory' : Memory κ} {esp esp' : U32}
    {items : List Pushed} {b : FEMemoryMapBlock} (h : Owned memory.map stack b)
    (hin : SlotsInside stack esp items)
    (hpush : stack.pushAll build memory esp items=.ok (esp',memory')) :
    Undone build stack memory esp items b esp' memory' := by
  induction items generalizing memory esp with
  | nil =>
    cases hpush
    exact ⟨by simp,rfl,rfl,Nat.le_refl _,fun _ _ => rfl⟩
  | cons item items ih =>
    obtain ⟨hslot,hrest⟩ := hin
    obtain ⟨⟨esp₁,memory₁⟩,hfirst,hpush⟩ := bind_eq_ok.mp hpush
    obtain ⟨hesp,hmemory⟩ := push_spec h hslot hfirst
    have hown : Owned memory₁.map stack b := by
      rw [hmemory]
      exact h
    rw [←hesp] at hrest
    exact .cons h hslot hfirst (ih hown hrest hpush)

/-- Every stack that a program creates below the end of the address space owns its pages. -/
theorem owned_run {size : U32} {host : ℕ→U8} {events : List FlatMemory.StoreEvent}
    {g : FlatMemory.Guest κ} (h : Runs (fun g event g' => StoreStep g event g' ∧ NoWrap g event)
      (FlatMemory.start size host) events g)
    {stack : FEStack} (hstack : stack∈g.guestStacks)
    (hspace : stack.start.toNat+stack.size.toNat<2^32) :
    ∃b,Owned g.memory.map stack b := by
  have hinv := h.history (guestInvariant_start size host) guestInvariant_step
  obtain ⟨⟨b,hb,hblock,hstart,hsize⟩,hbase,_⟩ := hinv.mapped stack hstack
  refine ⟨b,hblock,hstart,hbase,hspace,?_⟩
  intro a hlow hhigh
  have hm := hinv.holds.wellFormed
  have hcontains : b.Contains a.toNat := by
    rw [←hstart] at hlow
    rw [←hstart,←hsize] at hhigh
    exact ⟨hlow,hhigh⟩
  have hslot := (hm.owner (a.toNat/4096) b).mpr ⟨hb,hcontains.ownsPage⟩
  exact Shadow.get_eq_ok.mpr ⟨hm.bounded _ _ hslot,hslot⟩

def mixedItems : List Pushed := [⟨.k8bit,0x180⟩,⟨.k16bit,0xdead⟩,⟨.k32bit,0xcafebabe⟩]

def firstStack : FEStack where
  stackBlock := some (FEMemoryMap.mallocBlock 0x2000 ".stack".toList 0x10000 1 0x1000)
  size := 0x2000
  start := 0x1000
  base := 0x3000

def firstHost : HostAllocation := ⟨some 0x10000,some 1⟩

theorem pushes_undone_mixed : ∃m b esp' memory',
    FEStack.create .debug (FEMemoryMap.create 0x40000000 : FEMemoryMap Unit) 0x2000 firstHost=
      .ok (firstStack,m) ∧
      Undone .debug firstStack ⟨m,fun _ => 0⟩ 0x3000 mixedItems b esp' memory' := by
  have hpushes : (FEStack.create .debug (FEMemoryMap.create 0x40000000 : FEMemoryMap Unit) 0x2000
    firstHost >>=
      fun created => created.1.pushAll .debug ⟨created.2,fun _ => 0⟩ 0x3000 mixedItems >>= fun r =>
        .ok (created.1,r.1))=
        .ok (firstStack,0x2ff6) := by decide +kernel
  obtain ⟨⟨stack,m⟩,hcreate,hpushes⟩ := bind_eq_ok.mp hpushes
  obtain ⟨⟨esp',memory'⟩,hpush,hpushes⟩ := bind_eq_ok.mp hpushes
  cases hpushes
  have hrun : Runs (fun g event g' => StoreStep g event g' ∧ NoWrap g event)
      (FlatMemory.start 0x40000000 fun _ => 0)
      [.createStack 0x2000 0x10000 1 firstStack (readAt (fun _ => 0) 0x10000 0x2000)]
      ⟨⟨m,fun _ => 0⟩,[firstStack]⟩ := by
    refine .next .start ⟨⟨⟨?_,rfl⟩,m,hcreate,rfl⟩,?_⟩
    · intro b hb
      simp [FlatMemory.start,FEMemoryMap.create] at hb
    · exact fun _ => ⟨by decide,by decide⟩
  obtain ⟨b,hown⟩ := owned_run hrun (List.mem_singleton.mpr rfl) (by decide)
  have hin : SlotsInside firstStack 0x3000 mixedItems :=
    ⟨⟨by decide,by decide⟩,⟨by decide,by decide⟩,⟨by decide,by decide⟩,trivial⟩
  exact ⟨m,b,_,memory',hcreate,pushes_undone hown hin hpush⟩

end StackDiscipline
end FalloutEmu
