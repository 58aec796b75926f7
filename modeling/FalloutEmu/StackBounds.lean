import FalloutEmu.AccessRights
import FalloutEmu.StackDiscipline
import FalloutEmu.ThreadContext

/-! # The bounds checks of the stack operations -/
namespace FalloutEmu.StackBounds
open VirtualAlloc (AllocState AllocEvent AllocStep)
open AccessRights (created spanned_run)
open StackDiscipline (Inside)
variable {κ F : Type}

inductive StackAccess where
  | push32
  | push16
  | pop32
  | pop16
  deriving DecidableEq,Repr

namespace StackAccess

def address (esp : U32) : StackAccess→U32
  | push32 => esp-4
  | push16 => esp-2
  | _ => esp

def length : StackAccess→ℕ
  | push32 | pop32 => 4
  | push16 | pop16 => 2

def Passes (stack : FEStack) (memory : Memory κ) (esp v : U32) : StackAccess→Prop
  | push32 => stack.push32 .debug memory esp v≠.error .assertion
  | push16 => stack.push16 .debug memory esp (v.setWidth 16)≠.error .assertion
  | pop32 => stack.pop32 .debug memory esp≠.error .assertion
  | pop16 => stack.pop16 .debug memory esp≠.error .assertion

/-- The stack pointers for which the assertion of an operation is right. -/
def ExactAt (stack : FEStack) (esp : U32) : StackAccess→Prop
  | push32 => esp-4≠stack.start
  | push16 => esp-2<stack.start ∨ stack.start<esp-2 ∧
    (esp-2).toNat+2 ≤ stack.start.toNat+stack.size.toNat
  | pop32 => Inside stack esp 4 ∨ stack.start.toNat+stack.size.toNat ≤ esp.toNat
  | pop16 => Inside stack esp 2 ∨ stack.start.toNat+stack.size.toNat ≤ esp.toNat

end StackAccess

/-- A stack of 8 KiB with its own block, far from the end of the address space. -/
structure Created (stack : FEStack) : Prop where
  size : stack.size=0x2000
  base : stack.base=stack.start+0x2000
  low : stack.start.toNat<0x40001000
  block : ∃b,stack.stackBlock=some b ∧ b.virtualAddress=stack.start ∧ b.size=0x2000

section Assertions
variable {stack : FEStack} {memory : Memory κ} {esp v : U32}

theorem localAddress_noAssertion {m : FEMemoryMap κ} {a : U32} :
    m.localAddressFromVirtualAddress a≠.error .assertion := by
  unfold FEMemoryMap.localAddressFromVirtualAddress Shadow.get
  split
  · rw [ok_bind]
    split <;> simp
  · simp

theorem map_noAssertion {α β : Type} {x : Except Stop α} (hx : x≠.error .assertion) (f : α→β) :
    (x >>= fun a => .ok (f a))≠.error .assertion := by
  cases x with
  | error stop =>
    intro h
    cases h
    exact hx rfl
  | ok a => simp

/-- A check in front of an operation that has none decides whether an assertion fails. -/
theorem assertThat_bind_noAssertion {α : Type} {p : Prop} [Decidable p] {x : Except Stop α}
    (hx : x≠.error .assertion) : (assertThat .debug (decide p) >>= fun _ => x)≠.error .assertion ↔
    p := by
  by_cases hp : p
  · rw [assertThat_pos hp,ok_bind]
    exact iff_of_true hx hp
  · rw [assertThat_neg hp]
    exact iff_of_false (fun h => h rfl) hp

theorem passes_iff (h : Created stack) (access : StackAccess) : access.Passes stack memory esp v ↔
    match access with
    | .push32 => stack.start<esp-4 ∧ esp-4 ≤ stack.base-4
    | .push16 => stack.start<esp-2
    | _ => esp<stack.base := by
  obtain ⟨b,hblock,_,_⟩ := h.block
  cases access with
  | push32 =>
    refine assertThat_bind_noAssertion ?_
    simp [FEStack.localAddress,hblock]
  | push16 =>
    refine assertThat_bind_noAssertion ?_
    exact map_noAssertion (map_noAssertion localAddress_noAssertion _) _
  | pop32 =>
    refine assertThat_bind_noAssertion ?_
    simp [FEStack.localAddress,hblock]
  | pop16 =>
    refine assertThat_bind_noAssertion ?_
    simp [FEStack.localAddress,hblock]

theorem exactAt_iff (h : Created stack) (access : StackAccess) :
    (access.Passes stack memory esp v ↔ Inside stack (access.address esp) access.length) ↔
      access.ExactAt stack esp := by
  have hsize : stack.size.toNat=0x2000 := by rw [h.size]; rfl
  have hlow := h.low
  have hbase : stack.base.toNat=stack.start.toNat+0x2000 := by
    rw [h.base]
    bv_omega
  rw [passes_iff h]
  cases access with
  | push32 =>
    have hlast : (stack.base-4).toNat=stack.start.toNat+0x1ffc := by bv_omega
    simp only [StackAccess.address,StackAccess.length,StackAccess.ExactAt,Inside,BitVec.lt_def,
      BitVec.le_def,←BitVec.toNat_inj,ne_eq,hlast,hsize]
    generalize (esp-4).toNat=p
    omega
  | push16 =>
    simp only [StackAccess.address,StackAccess.length,StackAccess.ExactAt,Inside,
      BitVec.lt_def,hsize]
    generalize (esp-2).toNat=p
    omega
  | pop32 =>
    simp only [StackAccess.address,StackAccess.length,StackAccess.ExactAt,Inside,BitVec.lt_def,
      hsize,hbase]
    omega
  | pop16 =>
    simp only [StackAccess.address,StackAccess.length,StackAccess.ExactAt,Inside,BitVec.lt_def,
      hsize,hbase]
    omega

end Assertions

/-- What `fe_threadContext_create` makes of its stack, whatever size was requested. -/
theorem created_stack {calls : U32} {callback : Bool} {events : List AllocEvent} {s : AllocState κ}
    (h : Runs AllocStep (created 0x40000000 callback calls) events s) {memory memory' : Memory κ}
    {stack_size : U32} {allocated thread : FEThreadContext F} {stackHost tibHost : HostAllocation}
    (hmemory : memory.map=s.map)
    (hcreate : FEThreadContext.create .debug memory stack_size allocated stackHost tibHost=
      .ok (thread,memory')) :
    Created thread.stack := by
  obtain ⟨⟨stack,map⟩,hstack,hcreate⟩ := bind_eq_ok.mp hcreate
  obtain ⟨tib,_,hcreate⟩ := bind_eq_ok.mp hcreate
  have hthread : thread.stack=stack := by
    obtain ⟨_,_,hcreate⟩ := bind_eq_ok.mp hcreate
    obtain ⟨_,_,hcreate⟩ := bind_eq_ok.mp hcreate
    obtain ⟨_,_,hcreate⟩ := bind_eq_ok.mp hcreate
    obtain ⟨_,_,hcreate⟩ := bind_eq_ok.mp hcreate
    obtain ⟨_,_,hcreate⟩ := bind_eq_ok.mp hcreate
    cases hcreate
    rfl
  obtain ⟨_,_,hstack⟩ := bind_eq_ok.mp hstack
  obtain ⟨result,hmalloc,hstack⟩ := bind_eq_ok.mp hstack
  obtain ⟨block?,hblock,hstack⟩ := bind_eq_ok.mp hstack
  cases hstack
  have hspanned := (hmemory ▸ spanned_run h).malloc hmalloc
  obtain ⟨hcap,hslot⟩ := Shadow.get_eq_ok.mp hblock
  -- the block was looked up, so its first page is one of the map
  have hlow : result.address.toNat<0x40001000 := by
    rw [hspanned.pages,hspanned.size] at hcap
    unfold shadowIndex alignment at hcap
    have hmap : (0x40000000 : U32).toNat=0x40000000 := rfl
    omega
  obtain ⟨realAddress,newBlock,_,_,_,happend⟩ := FEMemoryMap.malloc_ok hmalloc
  have hplace : FEMemoryMap.Placeable
      (FEMemoryMap.mallocBlock (8*1024) ".stack".toList realAddress newBlock result.address) := by
    have hsize : (8*1024 : U32).toNat=0x2000 := rfl
    constructor
    · show result.address.toNat+(8*1024 : U32).toNat ≤ 2^32
      omega
    · show 0< result.address.toNat+(8*1024 : U32).toNat
      omega
  obtain ⟨_,hset⟩ := FEMemoryMap.appendMemoryBlock_ok hplace happend
  rw [(FEMemoryMap.setAccessMode_sameBlocks hset).shadow,FEMemoryMap.withBlock_slot,
    if_pos ?_] at hslot
  · rw [hthread]
    exact ⟨rfl,rfl,hlow,_,hslot.symm,rfl,rfl⟩
  · have hpos : 0<(8*1024 : U32).toNat := by decide
    exact FEMemoryMapBlock.Contains.ownsPage ⟨Nat.le_refl _,Nat.lt_add_of_pos_right hpos⟩

/-- For the stack of a created thread an assertion is right exactly at the stack pointers of
`ExactAt`, and the block is as large as requested exactly for requests of up to 8 KiB. -/
theorem stack_bounds_iff {calls : U32} {callback : Bool} {events : List AllocEvent}
    {s : AllocState κ} (h : Runs AllocStep (created 0x40000000 callback calls) events s)
    {memory memory' : Memory κ} {stack_size : U32} {allocated thread : FEThreadContext F}
    {stackHost tibHost : HostAllocation} (hmemory : memory.map=s.map)
    (hcreate : FEThreadContext.create .debug memory stack_size allocated stackHost tibHost=
      .ok (thread,memory')) :
    (∀(access : StackAccess) (memory₁ : Memory κ) (esp v : U32),
      (access.Passes thread.stack memory₁ esp v ↔ Inside thread.stack (access.address esp)
        access.length) ↔
        access.ExactAt thread.stack esp) ∧
    ((∃b,thread.stack.stackBlock=some b ∧ b.virtualAddress=thread.stack.start ∧
      stack_size.toNat ≤ b.size.toNat) ↔
      stack_size.toNat ≤ 8192) := by
  have hstack := created_stack h hmemory hcreate
  obtain ⟨b,hblock,hstart,hsize⟩ := hstack.block
  have hbytes : b.size.toNat=8192 := by rw [hsize]; rfl
  refine ⟨fun access memory₁ esp v => exactAt_iff hstack access,?_⟩
  constructor
  · rintro ⟨c,hc,_,hle⟩
    cases hblock.symm.trans hc
    rwa [hbytes] at hle
  · intro hle
    exact ⟨b,hblock,hstart,hbytes.symm ▸ hle⟩

def emptyMemory : Memory Unit := ⟨FEMemoryMap.create 0x40000000,fun _ => 0⟩

def mainThread : Except Stop (FEThreadContext Unit×Memory Unit) :=
  FEThreadContext.create .debug emptyMemory 0x100000 default ⟨some 0x10000,some 1⟩
    ⟨some 0x20000,some 2⟩

theorem mainThread_returns : ∃thread memory,mainThread=.ok (thread,memory) := by
  have hreturns : mainThread.map (fun _ => ())=.ok () := by decide +kernel
  cases hmain : mainThread with
  | error stop =>
    rw [hmain] at hreturns
    cases hreturns
  | ok result => exact ⟨_,_,rfl⟩

theorem stack_bounds_mainThread : ∃thread memory,mainThread=.ok (thread,memory) ∧
    ¬∃b,thread.stack.stackBlock=some b ∧ b.virtualAddress=thread.stack.start ∧
    (0x100000 : U32).toNat ≤ b.size.toNat := by
  obtain ⟨thread,memory,hcreate⟩ := mainThread_returns
  have hstart : Runs AllocStep (created 0x40000000 false 0 : AllocState Unit) []
    (created 0x40000000 false 0) := .start
  have hiff := (stack_bounds_iff hstart rfl hcreate).2
  exact ⟨thread,memory,hcreate,fun hblock => absurd (hiff.mp hblock) (by decide)⟩

/-- Two bytes below the base a pop of four passes its assertion and reads past the stack. -/
theorem pop_past_base : ¬∀(events : List AllocEvent) (s : AllocState Unit),
    Runs AllocStep (created 0x40000000 false 0) events s→∀(memory memory' : Memory Unit),
    memory.map=s.map→
      ∀stack_size allocated thread stackHost tibHost,
        FEThreadContext.create (F:=Unit) .debug memory stack_size allocated stackHost tibHost=
          .ok (thread,memory')→
          ∀(access : StackAccess) (memory₁ : Memory Unit) (esp v : U32),
            access.Passes thread.stack memory₁ esp v ↔
            Inside thread.stack (access.address esp) access.length := by
  intro h
  obtain ⟨thread,memory,hcreate⟩ := mainThread_returns
  have hstart : Runs AllocStep (created 0x40000000 false 0 : AllocState Unit) []
    (created 0x40000000 false 0) := .start
  have hstack : Created thread.stack := created_stack hstart rfl hcreate
  have hpop := h [] _ .start emptyMemory memory rfl _ _ thread _ _ hcreate .pop32 memory
    (thread.stack.base-2) 0
  have hexact := (exactAt_iff hstack .pop32).mp hpop
  have hlow := hstack.low
  have hsize : thread.stack.size.toNat=0x2000 := by rw [hstack.size]; rfl
  have hesp : (thread.stack.base-2).toNat=thread.stack.start.toNat+0x1ffe := by
    rw [hstack.base]
    bv_omega
  simp only [StackAccess.ExactAt,Inside,hesp,hsize] at hexact
  omega

end FalloutEmu.StackBounds
