import FalloutEmu.RegisterFile

/-! # What is stored in an operand is read back from it -/
namespace FalloutEmu
open ByteStore
variable {F : Type}

theorem Memory.load_of_store {κ : Type} {memory t : Memory κ} {address : U32} {bytes : List U8}
    (h : memory.store address bytes=.ok t) : t.load address bytes.length=.ok bytes := by
  obtain ⟨p,hp,h⟩ := bind_eq_ok.mp h
  cases h
  simp only [Memory.load,hp,ok_bind,readAt_writeAt_self]

namespace Emulator
variable {α β V : Type} {view : FEProcess F→V}

/-- The program changes nothing, and what it returns depends on the view of the process only. -/
def Reads (view : FEProcess F→V) (x : Emulator F α) : Prop :=
  ∀env s a u,x env s=.ok (a,u)→u=s ∧ ∀t,view t=view s→x env t=.ok (a,t)

namespace Reads

theorem pure (a : α) : Reads view (Pure.pure a : Emulator F α) := by
  intro env s b u h
  cases h
  exact ⟨rfl,fun _ _ => rfl⟩

theorem fail (stop : Stop) : Reads view (Exec.fail stop : Emulator F α) := by
  intro env s a u h
  cases h

theorem ofExcept (x : Except Stop α) : Reads view (Exec.ofExcept x : Emulator F α) := by
  intro env s a u h
  obtain ⟨hx,hsu⟩ := Exec.ofExcept_eq_ok.mp h
  exact ⟨hsu.symm,fun _ _ => Exec.ofExcept_eq_ok.mpr ⟨hx,rfl⟩⟩

theorem bind {x : Emulator F α} {f : α→Emulator F β} (hx : Reads view x)
    (hf : ∀a,Reads view (f a)) :
    Reads view (x >>= f) := by
  intro env s b u hrun
  obtain ⟨a,v,hfirst,hrest⟩ := Exec.bind_eq_ok.mp hrun
  obtain ⟨hvs,hx⟩ := hx env s a v hfirst
  rw [hvs] at hrest
  obtain ⟨hus,hf⟩ := hf a env s b u hrest
  exact ⟨hus,fun t ht => (Exec.bind_run (hx t ht)).trans (hf t ht)⟩

theorem ite {c : Prop} [Decidable c] {x y : Emulator F α} (hx : Reads view x) (hy : Reads view y) :
    Reads view (if c then x else y) := by
  split
  · exact hx
  · exact hy

theorem assert (condition : Bool) : Reads view (assert condition : Emulator F Unit) := by
  intro env s a u h
  refine ⟨(assert_within (R:=Eq) condition env s a u h).symm,fun t _ => ?_⟩
  have hs := Exec.atomic_eq_ok.mp h
  apply Exec.atomic_of_ok
  cases hcondition : assertThat env.build condition with
  | ok => rfl
  | error stop => rw [hcondition] at hs; cases hs

/-- A program that asks the process for what the view determines. -/
theorem get {f : FEProcess F→Emulator F α} (h : ∀s t,view t=view s→f t=f s)
    (hf : ∀s,Reads view (f s)) :
    Reads view (Exec.get >>= f) := by
  intro env s a u hs
  obtain ⟨hus,hrun⟩ := hf s env s a u hs
  refine ⟨hus,fun t ht => ?_⟩
  have hget : (Exec.get >>= f) env t=f t env t := rfl
  rw [hget,h s t ht]
  exact hrun t ht

end Reads

section Operands

theorem firstRegister_reads (argtype : U32) (names : List α) (i : ℕ) :
    Reads view (firstRegister argtype names i : Emulator F α) := by
  induction names generalizing i with
  | nil => exact .bind (.assert _) fun _ => .fail _
  | cons name names ih => exact .ite (.pure _) (ih (i+1))

/-- The name of a register is in the instruction alone. -/
theorem registerFromArgtype_reads (argtype argposition : U32) (width : FEBitWidth) :
    Reads view (registerFromArgtype argtype argposition width : Emulator F _) := by
  cases width with
  | k8bit =>
    exact .ite (firstRegister_reads _ _ _)
      (.ite (firstRegister_reads _ _ _) (.bind (.assert _) fun _ => .fail _))
  | k16bit | k32bit => exact .bind (.assert _) fun _ => firstRegister_reads _ _ _

theorem assertMemoryArg_reads (addressArg : ARGTYPE) (size : U32) :
    Reads view (assertMemoryArg addressArg size : Emulator F Unit) :=
  .bind (.assert _) fun _ => .assert _

def addressView (s : FEProcess F) : FEThreadContext F×FELocalDescriptorTable :=
  (s.currentThread,s.ldt)

theorem thread_reads : Reads addressView (thread : Emulator F (FEThreadContext F)) := by
  intro env s a u h
  cases h
  refine ⟨rfl,fun t ht => ?_⟩
  have hthread : t.currentThread=s.currentThread := congrArg Prod.fst ht
  rw [←hthread]
  rfl

theorem addressRegister_reads (argtype : U32) :
    Reads addressView (addressRegister argtype : Emulator F U32) :=
  .ite
    (.bind (registerFromArgtype_reads argtype 0 .k32bit) fun _ => .bind thread_reads
      fun _ => .pure _)
    (.pure _)

theorem segRegisterFromNumber_reads (number : U8) :
    Reads view (segRegisterFromNumber number : Emulator F FERegisterName) := by
  refine .bind (.assert _) fun _ => ?_
  split
  · exact .pure _
  · exact .fail _

theorem addressFromArgtype_reads (addressArg : ARGTYPE) :
    Reads addressView (addressFromArgtype addressArg : Emulator F U32) := by
  refine .bind (addressRegister_reads _) fun _ => .bind (addressRegister_reads _) fun _ =>
    .bind (segRegisterFromNumber_reads _) fun _ => .bind (.bind thread_reads fun _ =>
      .pure _) fun _ =>
      .get ?_ fun _ => .bind (.ofExcept _) fun _ => .pure _
  intro s t ht
  have hldt : t.ldt=s.ldt := congrArg Prod.snd ht
  rw [hldt]

end Operands

section ReadBack
variable {env : Environment F} {s t : FEProcess F} {arg : ARGTYPE} {width : FEBitWidth} {v : U32}

/-- What a store in an operand leaves: the register that the operand names or the bytes at its
address hold the value, and nothing else has changed. -/
inductive Stored (env : Environment F) (s : FEProcess F) (arg : ARGTYPE)
    (width : FEBitWidth) (v : U32) :
    FEProcess F→Prop
  | register {name : FERegisterName} (kind : arg.ArgType&&&REGISTER_TYPE≠0)
      (names : registerFromArgtype arg.ArgType arg.ArgPosition width env s=.ok (name,s)) :
      Stored env s arg width v (s.withThread (s.currentThread.write name (v.setWidth width.bits)))
  | memory {address : U32} {memory : Memory DisasmContext} (kind : ¬arg.ArgType&&&REGISTER_TYPE≠0)
      (memoryArg : assertMemoryArg arg width.argSize env s=.ok ((),s))
      (write : assert (arg.AccessMode=WRITE) env s=.ok ((),s))
      (computed : addressFromArgtype arg env s=.ok (address,s))
      (stored : s.memory.store address (littleEndian width.bytes (v.setWidth width.bits).toNat)=
        .ok memory) :
      Stored env s arg width v { s with memory := memory }

theorem storeArg_eq (v : U32) (arg : ARGTYPE) (width : FEBitWidth) :
    (storeArg v arg width : Emulator F Unit)=(do
    assertMemoryArg arg width.argSize
    assert (arg.AccessMode=WRITE)
    let address ← addressFromArgtype arg
    Emulator.store fun memory => memory.store address (littleEndian width.bytes
      (v.setWidth width.bits).toNat)) := by
  cases width with
  | k8bit | k16bit => rfl
  | k32bit =>
    have hv : v.setWidth FEBitWidth.k32bit.bits=v := BitVec.setWidth_eq v
    rw [hv]
    rfl

theorem store_eq_ok {write : Memory DisasmContext→Except Stop (Memory DisasmContext)} :
    Emulator.store write env s=.ok ((),t) ↔ ∃memory,write s.memory=.ok memory ∧
    t={ s with memory := memory } := by
  rw [Emulator.store,Exec.bind_run (Exec.get_run env s)]
  constructor
  · intro h
    obtain ⟨memory,_,hwrite,hset⟩ := Exec.bind_eq_ok.mp h
    obtain ⟨hwritten,rfl⟩ := Exec.ofExcept_eq_ok.mp hwrite
    cases hset
    exact ⟨memory,hwritten,rfl⟩
  · rintro ⟨memory,hwrite,rfl⟩
    exact Exec.bind_run (Exec.ofExcept_eq_ok.mpr ⟨hwrite,rfl⟩)

theorem storeArg_stored (hkind : ¬arg.ArgType&&&REGISTER_TYPE≠0) :
    storeArg v arg width env s=.ok ((),t)→Stored env s arg width v t := by
  rw [storeArg_eq]
  intro h
  obtain ⟨_,s₁,h₁,h⟩ := Exec.bind_eq_ok.mp h
  obtain ⟨_,s₂,h₂,h⟩ := Exec.bind_eq_ok.mp h
  obtain ⟨address,s₃,h₃,h⟩ := Exec.bind_eq_ok.mp h
  obtain rfl := assertMemoryArg_within (R:=Eq) arg width.argSize env s () s₁ h₁
  obtain rfl := assert_within (R:=Eq) _ env s () s₂ h₂
  obtain rfl := addressFromArgtype_within (R:=Eq) arg env s address s₃ h₃
  obtain ⟨memory,hstore,rfl⟩ := store_eq_ok.mp h
  exact .memory hkind h₁ h₂ h₃ hstore

theorem loadArg_loads {address : U32} {bytes : List U8}
    (hassert : assertMemoryArg arg width.argSize env s=.ok ((),s))
    (haddress : addressFromArgtype arg env s=.ok (address,s))
    (hload : s.memory.load address width.bytes=.ok bytes) :
    loadArg arg width env s=.ok ((BitVec.ofNat width.bits (value bytes)).setWidth 32,s) := by
  have hread {n : ℕ} : Emulator.load (fun memory => do
      .ok (BitVec.ofNat n (value (← memory.load address width.bytes)))) env s=
        .ok (BitVec.ofNat n (value bytes),s) := by
    rw [Emulator.load,Exec.bind_run (Exec.get_run env s),hload]
    rfl
  cases width with
  | k8bit | k16bit =>
    exact (Exec.bind_run hassert).trans ((Exec.bind_run haddress).trans (Exec.bind_run hread))
  | k32bit =>
    have hsame : (BitVec.ofNat FEBitWidth.k32bit.bits (value bytes)).setWidth 32=
      BitVec.ofNat 32 (value bytes) :=
      BitVec.setWidth_eq _
    rw [hsame]
    exact (Exec.bind_run hassert).trans ((Exec.bind_run haddress).trans hread)

/-- An operand that an arithmetic instruction can write: a general register or memory. -/
structure IsDestination (arg : ARGTYPE) (width : FEBitWidth) : Prop where
  size : arg.ArgSize=width.argSize
  kind : arg.ArgType&&&REGISTER_TYPE≠0 ∧ arg.ArgType&&&GENERAL_REG≠0 ∨
    ¬arg.ArgType&&&REGISTER_TYPE≠0 ∧ arg.ArgType&&&MEMORY_TYPE≠0

theorem setRegister_run (name : FERegisterName) :
    setRegister name v width env s=
      .ok ((),s.withThread (s.currentThread.write name (v.setWidth width.bits))) := by
  rw [←FEThreadContext.setRegister_eq_write]
  rfl

theorem storeValueInArg_eq_ok (harg : IsDestination arg width) :
    storeValueInArg arg v env s=.ok ((),t) ↔ Stored env s arg width v t := by
  obtain ⟨hsize,⟨hregister,hgeneral⟩ | ⟨hregister,hmemory⟩⟩ := harg
  · rw [storeValueInArg,if_pos hregister,if_pos hgeneral,hsize,Exec.bind_run (bitWidth_run width)]
    constructor
    · intro h
      obtain ⟨name,u,hnamed,hset⟩ := Exec.bind_eq_ok.mp h
      have hreads : Reads (fun _ => ())
        (registerFromArgtype arg.ArgType arg.ArgPosition width : Emulator F _) :=
        registerFromArgtype_reads _ _ _
      obtain ⟨rfl,-⟩ := hreads env s name u hnamed
      cases (setRegister_run name).symm.trans hset
      exact .register hregister hnamed
    · intro h
      cases h with
      | register kind names => exact (Exec.bind_run names).trans (setRegister_run _)
      | memory kind => exact absurd hregister kind
  · rw [storeValueInArg,if_neg hregister,if_pos hmemory,hsize,Exec.bind_run (bitWidth_run width)]
    refine ⟨storeArg_stored hregister,?_⟩
    intro h
    cases h with
    | register kind => exact absurd kind hregister
    | memory kind memoryArg write computed stored =>
      rw [storeArg_eq,Exec.bind_run memoryArg,Exec.bind_run write,Exec.bind_run computed]
      exact store_eq_ok.mpr ⟨_,stored,rfl⟩

/-- A load from the operand returns, and returns what the store has put there. -/
theorem Stored.reads_back (harg : IsDestination arg width) (h : Stored env s arg width v t)
    (immediat : U32) :
    loadArgValue arg immediat env t=.ok ((v.setWidth width.bits).setWidth 32,t) := by
  obtain ⟨hsize,hkinds⟩ := harg
  cases h with
  | @register name kind names =>
    have hgeneral := (hkinds.resolve_right fun h => h.1 kind).2
    have hreads : Reads (fun _ => ())
      (registerFromArgtype arg.ArgType arg.ArgPosition width : Emulator F _) :=
      registerFromArgtype_reads _ _ _
    have hname := (hreads env s name s names).2
      (s.withThread (s.currentThread.write name (v.setWidth width.bits))) rfl
    rw [loadArgValue,if_pos kind,if_pos hgeneral,hsize,Exec.bind_run (bitWidth_run width),
      Exec.bind_run hname]
    show Except.ok ((s.currentThread.write name (v.setWidth width.bits)).register name width,_)=_
    rw [FEThreadContext.register_eq_read,FEThreadContext.read_write_self]
  | @memory address memory kind memoryArg write computed stored =>
    have hmemory := (hkinds.resolve_left fun h => kind h.1).2
    have hasserts : Reads addressView (assertMemoryArg arg width.argSize : Emulator F Unit) :=
      assertMemoryArg_reads _ _
    have hassert := (hasserts env s () s memoryArg).2 { s with memory := memory } rfl
    have haddress := (addressFromArgtype_reads _ env s address s computed).2
      { s with memory := memory } rfl
    have hload := Memory.load_of_store stored
    rw [length_littleEndian] at hload
    have hbits : width.bits=8*width.bytes := by cases width <;> rfl
    rw [loadArgValue,if_neg kind,if_pos hmemory,hsize,Exec.bind_run (bitWidth_run width),
      loadArg_loads hassert haddress hload,ofNat_value_littleEndian hbits]

theorem storeValueInArg_reads_back (harg : IsDestination arg width)
    (h : storeValueInArg arg v env s=.ok ((),t)) (immediat : U32) :
    loadArgValue arg immediat env t=.ok ((v.setWidth width.bits).setWidth 32,t) :=
  ((storeValueInArg_eq_ok harg).mp h).reads_back harg immediat

end ReadBack

end Emulator
end FalloutEmu
