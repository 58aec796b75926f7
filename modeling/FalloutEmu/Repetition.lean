import FalloutEmu.FlatMemory
import FalloutEmu.RegisterFile

/-! # The string operands and the repetition of an instruction -/
namespace FalloutEmu.Repetition
open ByteStore Emulator
open FlatMemory (Holds InBlock)
variable {F : Type} {env : Environment F} {s t : FEProcess F} {width : FEBitWidth}

section Elements

def wordAt (width : FEBitWidth) (flat : ℕ→U8) (address : U32) : BitVec width.bits :=
  BitVec.ofNat width.bits (value (readAt flat address.toNat width.bytes))

def withWord (flat : ℕ→U8) (address : U32) (v : BitVec width.bits) : ℕ→U8 :=
  writeAt flat address.toNat (littleEndian width.bytes v.toNat)

inductive StringPointer where
  | esi
  | edi

def StringPointer.name : StringPointer→FERegisterName
  | esi => .kESI
  | edi => .kEDI

def segmentRegisters : List FERegisterName := [.kES,.kDS,.kFS,.kGS,.kCS,.kSS]

/-- A segment register and the address that its selector stands for. -/
structure Segment where
  name : FERegisterName
  base : U32

structure Segments where
  source : Segment
  destination : Segment

/-- The operand `[ESI]` or `[EDI]`, as the decoder describes it. -/
structure IsStringOperand (F : Type) (arg : ARGTYPE) (pointer : StringPointer) (segment : Segment)
    (width : FEBitWidth) : Prop where
  noRegister : ¬arg.ArgType&&&REGISTER_TYPE≠0
  memory : arg.ArgType&&&MEMORY_TYPE≠0
  size : arg.ArgSize=width.argSize
  base : arg.Memory.BaseRegister≠0
  baseName : ∀(env : Environment F) s,
    register32FromArgtype arg.Memory.BaseRegister 0 env s=.ok (pointer.name,s)
  noIndex : arg.Memory.IndexRegister=0
  noDisplacement : arg.Memory.Displacement=0
  segmentRegister : segment.name∈segmentRegisters
  segmentName : ∀(env : Environment F) s,
    segRegisterFromNumber (arg.SegmentReg.setWidth 8) env s=.ok (segment.name,s)

def Segment.Loaded (segment : Segment) (s : FEProcess F) : Prop :=
  s.ldt.get (s.currentThread.register16 segment.name).toNat=.ok segment.base

/-- An element that a block holds can be stored, and the memory then holds the new contents. -/
theorem store_element {memory : Memory DisasmContext} {flat : ℕ→U8} (h : Holds memory flat)
    {a : U32} (bytes : List U8) (hpos : 0<bytes.length)
    (hin : InBlock memory.map a.toNat bytes.length) :
    ∃memory',memory.store a bytes=.ok memory' ∧ Holds memory' (writeAt flat a.toNat bytes) ∧
      memory'.map=memory.map := by
  obtain ⟨b,hb,hlow,hhigh⟩ := hin
  have hlocal := FlatMemory.localAddress_of_contains h.wellFormed hb (a:=a) ⟨hlow,by omega⟩
  have hstore : memory.store a bytes=.ok { memory with
      host := writeAt memory.host (b.localAddress+(a.toNat-b.virtualAddress.toNat)) bytes } := by
    simp [Memory.store,hlocal,bind,Except.bind]
  exact ⟨_,hstore,h.store ⟨b,hb,hlow,hhigh⟩ hstore⟩

theorem load_run {α : Type} {read : Memory DisasmContext→Except Stop α} {v : α}
    (h : read s.memory=.ok v) :
    Emulator.load read env s=.ok (v,s) := by
  rw [Emulator.load,Exec.bind_run (Exec.get_run env s),h]
  rfl

theorem store_run {write : Memory DisasmContext→Except Stop (Memory DisasmContext)}
    {memory : Memory DisasmContext} (h : write s.memory=.ok memory) :
    Emulator.store write env s=.ok ((),{ s with memory := memory }) := by
  have hwritten : Exec.ofExcept (write s.memory) env s=.ok (memory,s) := by
    rw [h]
    rfl
  rw [Emulator.store,Exec.bind_run (Exec.get_run env s),Exec.bind_run hwritten]
  rfl

namespace IsStringOperand
variable {arg : ARGTYPE} {pointer : StringPointer} {segment : Segment} {flat : ℕ→U8}

theorem address (h : IsStringOperand F arg pointer segment width) (hloaded : segment.Loaded s) :
    addressFromArgtype arg env s=.ok (segment.base+s.currentThread.register32 pointer.name,s) := by
  have hregister : addressRegister arg.Memory.BaseRegister env s=
      .ok (s.currentThread.register32 pointer.name,s) := by
    rw [addressRegister,if_pos h.base,Exec.bind_run (h.baseName env s)]
    rfl
  have hindex : addressRegister arg.Memory.IndexRegister env s=.ok (0,s) := by
    rw [h.noIndex]
    rfl
  have hselector : register16 segment.name env s=.ok (s.currentThread.register16 segment.name,s) :=
    rfl
  have hsegment : Exec.ofExcept (s.ldt.get (s.currentThread.register16 segment.name).toNat) env s=
    .ok (segment.base,s) := by
    rw [hloaded]
    rfl
  rw [addressFromArgtype,Exec.bind_run hregister,Exec.bind_run hindex,
    Exec.bind_run (h.segmentName env s),Exec.bind_run hselector,Exec.bind_run (Exec.get_run env s),
    Exec.bind_run hsegment,
      h.noDisplacement]
  simp

theorem assertMemory (h : IsStringOperand F arg pointer segment width) :
    assertMemoryArg arg width.argSize env s=.ok ((),s) := by
  rw [assertMemoryArg,Exec.bind_run (assert_run (decide_eq_true h.memory))]
  exact assert_run (decide_eq_true h.size)

theorem loadArg (h : IsStringOperand F arg pointer segment width) {a : U32}
    (haddress : addressFromArgtype arg env s=.ok (a,s)) (hflat : Holds s.memory flat)
    (hin : InBlock s.memory.map a.toNat width.bytes) :
    loadArg arg width env s=.ok ((wordAt width flat a).setWidth 32,s) := by
  have hassert : assertMemoryArg arg width.argSize env s=.ok ((),s) := h.assertMemory
  have hload := hflat.load (by cases width <;> decide) hin
  cases width with
  | k8bit =>
    have hvalue : s.memory.value8AtAddress a=.ok (wordAt .k8bit flat a) := congrArg (· >>= _) hload
    exact (Exec.bind_run hassert).trans ((Exec.bind_run haddress).trans
      (Exec.bind_run (load_run hvalue)))
  | k16bit =>
    have hvalue : s.memory.value16AtAddress a=.ok (wordAt .k16bit flat a) :=
      congrArg (· >>= _) hload
    exact (Exec.bind_run hassert).trans ((Exec.bind_run haddress).trans
      (Exec.bind_run (load_run hvalue)))
  | k32bit =>
    have hvalue : s.memory.value32AtAddress a=.ok (wordAt .k32bit flat a) :=
      congrArg (· >>= _) hload
    have hsame : (wordAt .k32bit flat a).setWidth 32=wordAt .k32bit flat a := BitVec.setWidth_eq _
    rw [hsame]
    exact (Exec.bind_run hassert).trans ((Exec.bind_run haddress).trans (load_run hvalue))

theorem load (h : IsStringOperand F arg pointer segment width) (hloaded : segment.Loaded s)
    (hflat : Holds s.memory flat)
    (hin : InBlock s.memory.map (segment.base+s.currentThread.register32 pointer.name).toNat
      width.bytes)
    (immediat : U32) :
    loadArgValue arg immediat env s=
      .ok ((wordAt width flat (segment.base+s.currentThread.register32 pointer.name)).setWidth 32,
        s) := by
  rw [loadArgValue,if_neg h.noRegister,if_pos h.memory,h.size,Exec.bind_run (bitWidth_run width)]
  exact h.loadArg (h.address hloaded) hflat hin

theorem storeArg (h : IsStringOperand F arg pointer segment width) (hwrite : arg.AccessMode=WRITE)
    {a : U32} (haddress : addressFromArgtype arg env s=.ok (a,s)) (hflat : Holds s.memory flat)
    (hin : InBlock s.memory.map a.toNat width.bytes) (v : BitVec width.bits) :
    ∃memory,storeArg (v.setWidth 32) arg width env s=.ok ((),{ s with memory := memory }) ∧
      Holds memory (withWord flat a v) ∧ memory.map=s.memory.map := by
  have hassert : assertMemoryArg arg width.argSize env s=.ok ((),s) := h.assertMemory
  have haccess : assert (arg.AccessMode=WRITE) env s=.ok ((),s) :=
    assert_run (decide_eq_true hwrite)
  have hlength : (littleEndian width.bytes v.toNat).length=width.bytes := length_littleEndian _ _
  obtain ⟨memory,hstore,hholds,hmap⟩ := store_element hflat
    (littleEndian width.bytes v.toNat) (by rw [hlength]; cases width <;> decide) (by rwa [hlength])
  refine ⟨memory,?_,hholds,hmap⟩
  have hback := FEBitWidth.setWidth_back v
  cases width with
  | k8bit =>
    have hset : s.memory.setValue8 a ((v.setWidth 32).setWidth 8)=.ok memory :=
      (congrArg (s.memory.setValue8 a) hback).trans hstore
    exact (Exec.bind_run hassert).trans ((Exec.bind_run haccess).trans
      ((Exec.bind_run haddress).trans (store_run hset)))
  | k16bit =>
    have hset : s.memory.setValue16 a ((v.setWidth 32).setWidth 16)=.ok memory :=
      (congrArg (s.memory.setValue16 a) hback).trans hstore
    exact (Exec.bind_run hassert).trans ((Exec.bind_run haccess).trans
      ((Exec.bind_run haddress).trans (store_run hset)))
  | k32bit =>
    have hset : s.memory.setValue32 a (v.setWidth 32)=.ok memory :=
      (congrArg (s.memory.setValue32 a) (BitVec.setWidth_eq v)).trans hstore
    exact (Exec.bind_run hassert).trans ((Exec.bind_run haccess).trans
      ((Exec.bind_run haddress).trans (store_run hset)))

theorem store (env : Environment F) (h : IsStringOperand F arg pointer segment width)
    (hwrite : arg.AccessMode=WRITE) (hloaded : segment.Loaded s) (hflat : Holds s.memory flat)
    (hin : InBlock s.memory.map (segment.base+s.currentThread.register32 pointer.name).toNat
      width.bytes)
    (v : BitVec width.bits) :
    ∃memory,storeValueInArg arg (v.setWidth 32) env s=.ok ((),{ s with memory := memory }) ∧
      Holds memory (withWord flat (segment.base+s.currentThread.register32 pointer.name) v) ∧
      memory.map=s.memory.map := by
  rw [storeValueInArg,if_neg h.noRegister,if_pos h.memory,h.size,Exec.bind_run (bitWidth_run width)]
  exact h.storeArg hwrite (h.address hloaded) hflat hin v

end IsStringOperand
end Elements

section Views

structure StringView (width : FEBitWidth) where
  flat : ℕ→U8
  esi : U32
  edi : U32
  ecx : U32
  accumulator : BitVec width.bits
  cpuFlags : FECPUFlags
  instructionCounter : BitVec 64

namespace StringView

def pointer (view : StringView width) : StringPointer→U32
  | .esi => view.esi
  | .edi => view.edi

def withPointer (view : StringView width) : StringPointer→U32→StringView width
  | .esi,v => { view with esi := v }
  | .edi,v => { view with edi := v }

/-- The view with another `ECX` and another count of instructions. -/
def withCounters (view : StringView width) (ecx : U32) (instructionCounter : BitVec 64) :
    StringView width :=
  { view with ecx := ecx,instructionCounter := instructionCounter }

@[simp] theorem withCounters_withCounters (view : StringView width) (ecx ecx' : U32)
    (instructionCounter instructionCounter' : BitVec 64) :
    (view.withCounters ecx instructionCounter).withCounters ecx' instructionCounter'=
      view.withCounters ecx' instructionCounter' := rfl

def ofProcess (s : FEProcess F) (flat : ℕ→U8) : StringView width where
  flat := flat
  esi := s.currentThread.esi
  edi := s.currentThread.edi
  ecx := s.currentThread.ecx
  accumulator := s.currentThread.read width.accumulator width
  cpuFlags := s.currentThread.cpuFlags
  instructionCounter := s.instructionCounter

end StringView

open FEThreadContext (Outside Apart)

def counted (t : FEProcess F) : FEProcess F :=
  { t with instructionCounter := t.instructionCounter+1 }

/-- The process `t` is the process `s` but for what the view says of it. -/
structure Shows (s : FEProcess F) (view : StringView width) (t : FEProcess F) : Prop where
  process : t={ s with
    memory := t.memory
    instructionCounter := view.instructionCounter
    currentThread := { s.currentThread with
      registers := t.currentThread.registers
      cpuFlags := view.cpuFlags } }
  map : t.memory.map=s.memory.map
  contents : Holds t.memory view.flat
  pointers : ∀pointer : StringPointer,t.currentThread.register32 pointer.name=view.pointer pointer
  ecx : t.currentThread.ecx=view.ecx
  accumulator : t.currentThread.read width.accumulator width=view.accumulator
  outside : ∀i,Outside [.kECX,.kESI,.kEDI] .k32bit i→Outside [width.accumulator] width i→
    t.currentThread.registers i=s.currentThread.registers i

theorem register32_setRegister32_of_apart (threadContext : FEThreadContext F)
    {name name' : FERegisterName} (h : Apart name .k32bit name' .k32bit) (v : U32) :
    (threadContext.setRegister32 name v).register32 name'=threadContext.register32 name' :=
  @FEThreadContext.read_write_of_apart F threadContext name name' .k32bit .k32bit h v

/-- The registers that step through a string lie apart from the accumulator, the counter and each
other. -/
theorem StringPointer.apart (pointer : StringPointer) (name : FERegisterName) (width : FEBitWidth)
    (h : name.regMap+width.bytes ≤ 16) : Apart pointer.name .k32bit name width := by
  refine .inr (h.trans ?_)
  cases pointer <;> decide

theorem StringPointer.apart_other {pointer pointer' : StringPointer} (h : pointer≠pointer') :
    Apart pointer.name .k32bit pointer'.name .k32bit := by
  cases pointer with
  | esi =>
    cases pointer' with
    | esi => exact absurd rfl h
    | edi => exact .inl (by decide)
  | edi =>
    cases pointer' with
    | esi => exact .inr (by decide)
    | edi => exact absurd rfl h

namespace Shows
variable {view : StringView width}

theorem ofProcess {flat : ℕ→U8} (h : Holds s.memory flat) :
    Shows s (.ofProcess s flat : StringView width) s where
  process := rfl
  map := rfl
  contents := h
  pointers pointer := by cases pointer <;> rfl
  ecx := rfl
  accumulator := rfl
  outside _ _ _ := rfl

theorem cpuFlags (h : Shows s view t) : t.currentThread.cpuFlags=view.cpuFlags := by
  have hthread := congrArg FEProcess.currentThread h.process
  exact congrArg FEThreadContext.cpuFlags hthread

theorem exit (h : Shows s view t) : t.exit=s.exit := by
  have hexit := congrArg FEProcess.exit h.process
  exact hexit

theorem deref (h : Shows s view t) :
    t.op.deref t.memory t.dummyOp=s.op.deref s.memory s.dummyOp := by
  have hop : t.op=s.op := by
    have hop := congrArg FEProcess.op h.process
    exact hop
  have hdummyOp : t.dummyOp=s.dummyOp := by
    have hdummyOp := congrArg FEProcess.dummyOp h.process
    exact hdummyOp
  rw [hop,hdummyOp]
  cases s.op with
  | dummyOp => rfl
  | cached block index => simp only [DisasmPointer.deref,h.map]

theorem readAt_high (h : Shows s view t) {p : ℕ} (hp : 24 ≤ p) (n : ℕ) :
    readAt t.currentThread.registers p n=readAt s.currentThread.registers p n := by
  apply readAt_congr
  intro i _
  apply h.outside
  · intro name hname
    have hlow : name.regMap+FEBitWidth.k32bit.bytes ≤ 24 := by
      revert hname
      cases name <;> decide
    exact .inr (by omega)
  · intro name hname
    rw [List.mem_singleton] at hname
    subst hname
    have hlow : width.accumulator.regMap+width.bytes ≤ 4 := by cases width <;> decide
    exact .inr (by omega)

theorem eip (h : Shows s view t) : t.currentThread.eip=s.currentThread.eip :=
  congrArg (fun bytes => BitVec.ofNat 32 (value bytes)) (h.readAt_high (p:=32) (by decide) 4)

theorem loaded (h : Shows s view t) {segment : Segment} (hsegment : segment.name∈segmentRegisters)
    (hloaded : segment.Loaded s) : segment.Loaded t := by
  have hldt : t.ldt=s.ldt := by
    have hldt := congrArg FEProcess.ldt h.process
    exact hldt
  have hhigh : 36 ≤ segment.name.regMap := by
    revert hsegment
    generalize segment.name=name
    cases name <;> decide
  have hselector : t.currentThread.register16 segment.name=s.currentThread.register16
    segment.name := by
    have hbytes := h.readAt_high (p:=segment.name.regMap) (by omega) 2
    rw [FEThreadContext.register16,hbytes]
    rfl
  rw [Segment.Loaded,hldt,hselector]
  exact hloaded

theorem count (h : Shows s view t) :
    Shows s (view.withCounters view.ecx (view.instructionCounter+1)) (counted t) where
  process := congrArg counted h.process
  map := h.map
  contents := h.contents
  pointers pointer := (h.pointers pointer).trans (by cases pointer <;> rfl)
  ecx := h.ecx
  accumulator := h.accumulator
  outside := h.outside

theorem withMemory (h : Shows s view t) {memory : Memory DisasmContext} {flat : ℕ→U8}
    (hholds : Holds memory flat) (hmap : memory.map=t.memory.map) :
    Shows s { view with flat := flat } { t with memory := memory } where
  process := congrArg (fun u : FEProcess F => { u with memory := memory }) h.process
  map := hmap.trans h.map
  contents := hholds
  pointers := h.pointers
  ecx := h.ecx
  accumulator := h.accumulator
  outside := h.outside

theorem withFlags (h : Shows s view t) (cpuFlags : FECPUFlags) :
    Shows s { view with cpuFlags := cpuFlags } (t.withFlags cpuFlags) where
  process := congrArg (fun u : FEProcess F => u.withFlags cpuFlags) h.process
  map := h.map
  contents := h.contents
  pointers := h.pointers
  ecx := h.ecx
  accumulator := h.accumulator
  outside := h.outside

theorem setPointer (h : Shows s view t) (pointer : StringPointer) (v : U32) :
    Shows s (view.withPointer pointer v)
    (t.withThread (t.currentThread.setRegister32 pointer.name v)) where
  process := by
    have hregisters := congrArg (fun u : FEProcess F =>
      u.withRegisters (t.currentThread.setRegister32 pointer.name v).registers) h.process
    cases pointer <;> exact hregisters
  map := h.map
  contents := by cases pointer <;> exact h.contents
  pointers pointer' := by
    by_cases hsame : pointer=pointer'
    · subst hsame
      refine (FEThreadContext.register32_setRegister32_self _ _ _).trans ?_
      cases pointer <;> rfl
    · refine (register32_setRegister32_of_apart _ (StringPointer.apart_other hsame) _).trans
        ((h.pointers pointer').trans ?_)
      cases pointer <;> cases pointer' <;> first | rfl | exact absurd rfl hsame
  ecx := by
    refine (register32_setRegister32_of_apart _ (pointer.apart .kECX .k32bit (by decide)) _).trans
      (h.ecx.trans ?_)
    cases pointer <;> rfl
  accumulator := by
    have hlow : width.accumulator.regMap+width.bytes ≤ 16 := by cases width <;> decide
    refine (@FEThreadContext.read_write_of_apart F t.currentThread pointer.name width.accumulator
      .k32bit width
      (pointer.apart _ _ hlow) v).trans (h.accumulator.trans ?_)
    cases pointer <;> rfl
  outside i hi hacc := by
    have hpointer : Outside [pointer.name] .k32bit i := by
      intro name hname
      rw [List.mem_singleton] at hname
      subst hname
      exact hi _ (by cases pointer <;> simp [StringPointer.name])
    exact (t.currentThread.registers_setRegister32_of_outside hpointer v).trans
      (h.outside i hi hacc)

theorem setECX (h : Shows s view t) (v : U32) :
    Shows s { view with ecx := v } (t.withThread (t.currentThread.setRegister32 .kECX v)) where
  process := congrArg (fun u : FEProcess F =>
    u.withRegisters (t.currentThread.setRegister32 .kECX v).registers) h.process
  map := h.map
  contents := h.contents
  pointers pointer :=
    (register32_setRegister32_of_apart _ (pointer.apart .kECX .k32bit (by decide)).symm _).trans
      (h.pointers pointer)
  ecx := FEThreadContext.register32_setRegister32_self _ _ _
  accumulator := by
    have hlow : Apart .kECX .k32bit width.accumulator width := by
      cases width <;> exact .inr (by decide)
    exact (@FEThreadContext.read_write_of_apart F t.currentThread .kECX width.accumulator
      .k32bit width hlow
      v).trans h.accumulator
  outside i hi hacc := by
    have hcounter : Outside [.kECX] .k32bit i := by
      intro name hname
      rw [List.mem_singleton] at hname
      exact hname ▸ hi .kECX (by simp)
    exact (t.currentThread.registers_setRegister32_of_outside hcounter v).trans
      (h.outside i hi hacc)

theorem setAccumulator (h : Shows s view t) (v : BitVec width.bits) :
    Shows s { view with accumulator := v }
    (t.withThread (t.currentThread.write width.accumulator v)) where
  process := congrArg (fun u : FEProcess F =>
    u.withRegisters (t.currentThread.write width.accumulator v).registers) h.process
  map := h.map
  contents := h.contents
  pointers pointer := by
    have hlow : width.accumulator.regMap+width.bytes ≤ 16 := by cases width <;> decide
    exact (@FEThreadContext.read_write_of_apart F t.currentThread width.accumulator pointer.name
      width .k32bit
      (pointer.apart _ _ hlow).symm v).trans (h.pointers pointer)
  ecx := by
    have hlow : Apart width.accumulator width .kECX .k32bit := by
      cases width <;> exact .inl (by decide)
    exact (@FEThreadContext.read_write_of_apart F t.currentThread width.accumulator .kECX width
      .k32bit hlow
      v).trans h.ecx
  accumulator := t.currentThread.read_write_self _ _
  outside i hi hacc :=
    (t.currentThread.registers_write_of_outside (hacc _ (by simp)) v).trans (h.outside i hi hacc)

end Shows
end Views

section Turns
variable {op : DISASM} {view : StringView width} {u : FEProcess F}

inductive Turns (env : Environment F) (s : FEProcess F) : ℕ→FEProcess F→Prop
  | zero : Turns env s 0 s
  | next {n : ℕ} {t u : FEProcess F} : Turns env s n t→Turn env t u→Turns env s (n+1) u

/-- The loop is at the instruction `op`, which was decoded at `eip`. -/
structure AtInstruction (s : FEProcess F) (op : DISASM) : Prop where
  running : s.exit=false
  instruction : s.op.deref s.memory s.dummyOp=.ok op
  address : op.VirtualAddr=s.currentThread.eip.setWidth 64

def nextInstruction : Emulator F Unit := do
  setRegister32 .kEIP ((← register32 .kEIP)+BitVec.ofInt 32 (← Exec.get).len)
  Emulator.updateDisasmFromContext

/-- From `s` the loop makes `n` turns, and the turn after them goes to the next instruction from the
process `u`. -/
def Leaves (env : Environment F) (s : FEProcess F) (n : ℕ) (u : FEProcess F) : Prop :=
  ∃t,Turns env s n t ∧ t.exit=false ∧ iteration env t=nextInstruction env u

theorem iteration_execute (hop : t.op.deref t.memory t.dummyOp=.ok op) :
    iteration env t=(do
      match ← execute op with
      | .continueLoop => pure ()
      | .jumpToNextInstr => jumpToNextInstr : Emulator F Unit) env (counted t) := by
  have hcount : (Exec.modify counted : Emulator F Unit) env t=.ok ((),counted t) :=
    Exec.modify_run _ _ _
  have hderef : derefOp env (counted t)=.ok (op,counted t) := derefOp_eq_ok.mpr ⟨hop,rfl⟩
  exact (Exec.bind_run hcount).trans (Exec.bind_run hderef)

theorem iteration_continue (hop : t.op.deref t.memory t.dummyOp=.ok op)
    (hexecute : execute op env (counted t)=.ok (.continueLoop,u)) : iteration env t=.ok ((),u) := by
  rw [iteration_execute hop,Exec.bind_run hexecute]
  rfl

theorem iteration_jump (hop : t.op.deref t.memory t.dummyOp=.ok op)
    (hexecute : execute op env (counted t)=.ok (.jumpToNextInstr,u)) :
    iteration env t=jumpToNextInstr env u := by
  rw [iteration_execute hop,Exec.bind_run hexecute]

theorem jumpToNextInstr_run (h : AtInstruction s op) (ht : Shows s view t) :
    jumpToNextInstr env t=nextInstruction env t := by
  have hderef : derefOp env t=.ok (op,t) := derefOp_eq_ok.mpr ⟨ht.deref.trans h.instruction,rfl⟩
  have haddress : op.VirtualAddr.setWidth 32=t.currentThread.eip := by
    rw [h.address,ht.eip,BitVec.setWidth_setWidth_of_le _ (by decide),BitVec.setWidth_eq]
  have hregister : register32 .kEIP env t=.ok (t.currentThread.eip,t) := rfl
  refine (Exec.bind_run hderef).trans ?_
  rw [nextInstruction,Exec.bind_run hregister]
  simp only [haddress]

structure IsRepeated (op : DISASM) : Prop where
  number : op.Prefix.Number≠0
  noLock : op.Prefix.LockPrefix=0
  repeats : op.Prefix.RepnePrefix=1 ∨ op.Prefix.RepPrefix=1

theorem repxxPrefix_run (h : IsRepeated op) :
    repxxPrefix op env s=.ok (decide (s.currentThread.ecx=0),s) := by
  have hlock : assert (op.Prefix.LockPrefix=0) env s=.ok ((),s) :=
    assert_run (decide_eq_true h.noLock)
  rw [repxxPrefix,if_pos h.number,Exec.bind_run hlock,if_pos h.repeats]
  rfl

variable {body : DISASM→Emulator F Unit}

/-- With `ECX` at zero the instruction does nothing. -/
theorem repeated_zero (h : IsRepeated op) (hecx : s.currentThread.ecx=0) :
    repeated body op env s=.ok (.jumpToNextInstr,s) := by
  have hbefore : repxxPrefix op env s=.ok (true,s) := by
    rw [repxxPrefix_run h,decide_eq_true hecx]
  rw [repeated,Exec.bind_run hbefore]
  rfl

/-- Otherwise its body is followed by `repxx_postfix`. -/
theorem repeated_step (h : IsRepeated op) (hecx : s.currentThread.ecx≠0)
    (hsize : op.Argument1.ArgSize=op.Argument2.ArgSize) (hbody : body op env s=.ok ((),t)) :
    repeated body op env s=repxxPostfix op env t := by
  have hbefore : repxxPrefix op env s=.ok (false,s) := by
    rw [repxxPrefix_run h,decide_eq_false hecx]
  have hassert : assertSameSize op env s=.ok ((),s) := assert_run (decide_eq_true hsize)
  rw [repeated,Exec.bind_run hbefore]
  exact (Exec.bind_run hassert).trans (Exec.bind_run hbody)

/-- Where an index register is after it has passed a number of bytes. -/
def displaced (cpuFlags : FECPUFlags) (p : U32) (n : ℕ) : U32 :=
  if cpuFlags.DF=0 then p+BitVec.ofNat 32 n else p-BitVec.ofNat 32 n

theorem displaced_displaced (cpuFlags : FECPUFlags) (p : U32) (n k : ℕ) :
    displaced cpuFlags (displaced cpuFlags p n) k=displaced cpuFlags p (n+k) := by
  unfold displaced
  rw [BitVec.ofNat_add]
  split
  · rw [BitVec.add_assoc]
  · rw [BitVec.sub_sub]

theorem displaced_zero (cpuFlags : FECPUFlags) (p : U32) : displaced cpuFlags p 0=p := by
  simp [displaced]

/-- The view after an index register has moved by one element. -/
def StringView.advanced (view : StringView width) (pointer : StringPointer) : StringView width :=
  view.withPointer pointer (displaced view.cpuFlags (view.pointer pointer) width.bytes)

def StringView.element (view : StringView width) (i : ℕ) : StringView width :=
  { view with
    esi := displaced view.cpuFlags view.esi (i*width.bytes)
    edi := displaced view.cpuFlags view.edi (i*width.bytes) }

theorem advance_run (env : Environment F) (hsize : op.Argument1.ArgSize=width.argSize)
    (h : Shows s view t) (pointer : StringPointer) :
    ∃u,advance op pointer.name env t=.ok ((),u) ∧ Shows s (view.advanced pointer) u := by
  have hregister : register32 pointer.name env t=.ok (view.pointer pointer,t) := by
    rw [←h.pointers pointer]
    rfl
  have hflags : Emulator.cpuFlags env t=.ok (view.cpuFlags,t) := by
    rw [←h.cpuFlags]
    rfl
  have hdiff : ((width.argSize/8).setWidth 8).setWidth 32=BitVec.ofNat 32 width.bytes := by
    cases width <;> rfl
  refine ⟨_,?_,h.setPointer pointer _⟩
  rw [advance,Exec.bind_run hregister]
  simp only [hsize,hdiff]
  rw [Exec.bind_run hflags,displaced]
  split <;> rfl

theorem decrementECX_run (env : Environment F) (h : Shows s view t) :
    ∃u,decrementECX env t=.ok ((),u) ∧ Shows s { view with ecx := view.ecx-1 } u := by
  have hregister : register32 .kECX env t=.ok (view.ecx,t) := by
    rw [←h.ecx]
    rfl
  exact ⟨_,Exec.bind_run hregister,h.setECX _⟩

end Turns

section OnePage
open FEMemoryMap (create WellFormed mem_withBlock)

theorem page_mapped : ∃(m : FEMemoryMap DisasmContext) (flat : ℕ→U8),Holds ⟨m,fun _ => 0⟩ flat ∧
    FlatMemory.imageBlock∈m.memoryMapBlocks.elements := by
  obtain ⟨m,hmap⟩ : ∃m,(create 0x40000000 : FEMemoryMap DisasmContext).map .debug
    FlatMemory.imageBlock
      .readWrite=.ok m := ⟨_,rfl⟩
  obtain ⟨_,hsame,-⟩ := (WellFormed.create 0x40000000).append FlatMemory.imageBlock
    ⟨by decide,by decide⟩ hmap
  have hstep : FlatMemory.StoreStep (FlatMemory.start 0x40000000 fun _ => 0)
      (.map FlatMemory.imageBlock .readWrite (readAt (fun _ => 0) 0x10000 0x1000))
        ⟨⟨m,fun _ => 0⟩,[]⟩ :=
    ⟨⟨by simp [FlatMemory.start,create],rfl⟩,m,hmap,rfl⟩
  refine ⟨m,_,(FlatMemory.guestInvariant_step [] _ _ _ (FlatMemory.guestInvariant_start _ _)
    ⟨hstep,(by decide : 0<0x400000+0x1000 ∧ 0x400000+0x1000≤2^32)⟩).holds,?_⟩
  rw [hsame.blocks,mem_withBlock]
  exact .inr rfl

def stringThread (eax ecx esi edi : List U8) : FEThreadContext Unit :=
  { (default : FEThreadContext Unit) with
    registers := writeAt (writeAt (writeAt (writeAt (fun _ => 0) 0 eax) 8 ecx) 16 esi) 20 edi }

def stringProcess (m : FEMemoryMap DisasmContext) (op : DISASM)
    (thread : FEThreadContext Unit) : FEProcess Unit :=
  { FEProcess.ofRegisters thread.registers with
    memory := ⟨m,fun _ => 0⟩
    dummyOp := op }

def sourceOperand : ARGTYPE :=
  { (default : ARGTYPE) with
    ArgType := MEMORY_TYPE
    ArgSize := 8
    Memory := { (default : MEMORYTYPE) with BaseRegister := REGISTER_TYPE+GENERAL_REG+64 }
    SegmentReg := 2 }

def destinationOperand : ARGTYPE :=
  { (default : ARGTYPE) with
    ArgType := MEMORY_TYPE
    ArgSize := 8
    AccessMode := WRITE
    Memory := { (default : MEMORYTYPE) with BaseRegister := REGISTER_TYPE+GENERAL_REG+128 }
    SegmentReg := 1 }

theorem sourceOperand_decoded : IsStringOperand Unit sourceOperand .esi ⟨.kDS,0⟩ .k8bit where
  noRegister := by decide
  memory := by decide
  size := rfl
  base := by decide
  baseName _ _ := (Exec.bind_run (assert_run rfl)).trans rfl
  noIndex := rfl
  noDisplacement := rfl
  segmentRegister := by decide
  segmentName _ _ := (Exec.bind_run (assert_run rfl)).trans rfl

theorem destinationOperand_decoded :
    IsStringOperand Unit destinationOperand .edi ⟨.kES,0⟩ .k8bit where
  noRegister := by decide
  memory := by decide
  size := rfl
  base := by decide
  baseName _ _ := (Exec.bind_run (assert_run rfl)).trans rfl
  noIndex := rfl
  noDisplacement := rfl
  segmentRegister := by decide
  segmentName _ _ := (Exec.bind_run (assert_run rfl)).trans rfl

end OnePage
end FalloutEmu.Repetition
