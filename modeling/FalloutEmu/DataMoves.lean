import FalloutEmu.Repetition
import FalloutEmu.SignExtension
import Mathlib.Logic.Function.Iterate
import Mathlib.Tactic.IntervalCases

/-! # The repeated moves of data, element by element -/
namespace FalloutEmu.DataMoves
open ByteStore Emulator Repetition
open FlatMemory (Holds InBlock)
variable {F : Type} {env : Environment F} {s t : FEProcess F} {width : FEBitWidth} {op : DISASM}

inductive DataMove where
  | movs
  | stos
  | lods

namespace DataMove
variable {segments : Segments} {view : StringView width}

def opcode (width : FEBitWidth) : DataMove→U32
  | movs => if width=.k8bit then 0xa4 else 0xa5
  | stos => if width=.k8bit then 0xaa else 0xab
  | lods => if width=.k8bit then 0xac else 0xad

def Operands (F : Type) (segments : Segments) (width : FEBitWidth) (op : DISASM) : DataMove→Prop
  | movs => IsStringOperand F op.Argument1 .edi segments.destination width ∧
    op.Argument1.AccessMode=WRITE ∧
    IsStringOperand F op.Argument2 .esi segments.source width
  | stos => IsStringOperand F op.Argument1 .edi segments.destination width ∧
    op.Argument1.AccessMode=WRITE ∧
    IsRegister F op.Argument2 width.accumulator width
  | lods => IsRegister F op.Argument1 width.accumulator width ∧
    IsStringOperand F op.Argument2 .esi segments.source width

structure Decoded (F : Type) (move : DataMove) (segments : Segments) (width : FEBitWidth)
    (op : DISASM) :
    Prop where
  category : op.Instruction.Category&&&GENERAL_PURPOSE_INSTRUCTION≠0
  opcode : op.Instruction.Opcode=move.opcode width
  repeated : IsRepeated op
  noRepne : op.Prefix.RepnePrefix≠1
  operands : move.Operands F segments width op

/-- The segments that it uses are in the table of descriptors. -/
def Loaded (segments : Segments) (s : FEProcess F) : DataMove→Prop
  | movs => segments.source.Loaded s ∧ segments.destination.Loaded s
  | stos => segments.destination.Loaded s
  | lods => segments.source.Loaded s

/-- The elements under the pointers of the view lie inside one block each. -/
def Mapped (segments : Segments) (m : FEMemoryMap DisasmContext)
    (view : StringView width) : DataMove→Prop
  | movs => InBlock m (segments.source.base+view.esi).toNat width.bytes ∧
    InBlock m (segments.destination.base+view.edi).toNat width.bytes
  | stos => InBlock m (segments.destination.base+view.edi).toNat width.bytes
  | lods => InBlock m (segments.source.base+view.esi).toNat width.bytes

/-- The instruction without repetition: it copies one element and moves its pointers. -/
def step (segments : Segments) (view : StringView width) : DataMove→StringView width
  | movs =>
    let element := wordAt width view.flat (segments.source.base+view.esi)
    let copied := { view with
      flat := withWord view.flat (segments.destination.base+view.edi) element }
    (copied.advanced .esi).advanced .edi
  | stos =>
    let stored := { view with
      flat := withWord view.flat (segments.destination.base+view.edi) view.accumulator }
    stored.advanced .edi
  | lods =>
    let loaded := { view with
      accumulator := wordAt width view.flat (segments.source.base+view.esi) }
    loaded.advanced .esi

def steps (move : DataMove) (segments : Segments) (n : ℕ) (view : StringView width) :
    StringView width :=
  (fun view => move.step segments view)^[n] view

/-- The part of the source between the prefix and the postfix. -/
def body : DataMove→DISASM→Emulator F Unit
  | movs => fun op => do
    copyArg op
    advance op .kESI
    advance op .kEDI
  | stos => fun op => do
    copyArg op
    advance op .kEDI
  | lods => fun op => do
    copyArg op
    advance op .kESI

theorem execute_eq {move : DataMove} (h : move.Decoded F segments width op) :
    (execute op : Emulator F Flow)=repeated move.body op := by
  cases move <;> cases width <;> exact execute_of_opcode h.category h.opcode rfl

theorem sameSize {move : DataMove} (h : move.Decoded F segments width op) :
    op.Argument1.ArgSize=width.argSize ∧ op.Argument2.ArgSize=width.argSize := by
  have hoperands := h.operands
  cases move with
  | movs => exact ⟨hoperands.1.size,hoperands.2.2.size⟩
  | stos => exact ⟨hoperands.1.size,hoperands.2.2.size⟩
  | lods => exact ⟨hoperands.1.size,hoperands.2.size⟩

theorem copyArg_memory {destination : Segment}
    (h : IsStringOperand F op.Argument1 .edi destination width)
    (hwrite : op.Argument1.AccessMode=WRITE) (hloaded : destination.Loaded s) (ht : Shows s view t)
    (hin : InBlock s.memory.map (destination.base+view.edi).toNat width.bytes)
    {v : BitVec width.bits} (hv : loadArg2 op env t=.ok (v.setWidth 32,t)) :
    ∃u,copyArg op env t=.ok ((),u) ∧
      Shows s { view with flat := withWord view.flat (destination.base+view.edi) v } u := by
  have hpointer : t.currentThread.register32 StringPointer.edi.name=view.edi := ht.pointers .edi
  obtain ⟨memory,hstore,hholds,hmap⟩ := h.store env hwrite (ht.loaded h.segmentRegister hloaded)
    ht.contents
    (by rwa [hpointer,ht.map]) v
  rw [hpointer] at hholds
  exact ⟨_,(Exec.bind_run hv).trans hstore,ht.withMemory hholds hmap⟩

theorem loadArg2_memory (env : Environment F) {source : Segment}
    (h : IsStringOperand F op.Argument2 .esi source width) (hloaded : source.Loaded s)
    (ht : Shows s view t) (hin : InBlock s.memory.map (source.base+view.esi).toNat width.bytes) :
    loadArg2 op env t=.ok ((wordAt width view.flat (source.base+view.esi)).setWidth 32,t) := by
  have hpointer : t.currentThread.register32 StringPointer.esi.name=view.esi := ht.pointers .esi
  rw [loadArg2,h.load (ht.loaded h.segmentRegister hloaded) ht.contents (by rwa [hpointer,ht.map]),
    hpointer]

theorem body_step (env : Environment F) {move : DataMove} (h : move.Decoded F segments width op)
    (hloaded : move.Loaded segments s) (ht : Shows s view t)
    (hmapped : move.Mapped segments s.memory.map view) :
    ∃u,move.body op env t=.ok ((),u) ∧ Shows s (move.step segments view) u := by
  obtain ⟨hsize,_⟩ := sameSize h
  have hoperands := h.operands
  cases move with
  | movs =>
    obtain ⟨hdestination,hwrite,hsource⟩ := hoperands
    obtain ⟨u₁,hcopy,h₁⟩ := copyArg_memory hdestination hwrite hloaded.2 ht hmapped.2
      (loadArg2_memory env hsource hloaded.1 ht hmapped.1)
    obtain ⟨u₂,hesi,h₂⟩ := advance_run env hsize h₁ .esi
    obtain ⟨u₃,hedi,h₃⟩ := advance_run env hsize h₂ .edi
    exact ⟨u₃,(Exec.bind_run hcopy).trans ((Exec.bind_run hesi).trans hedi),h₃⟩
  | stos =>
    obtain ⟨hdestination,hwrite,hsource⟩ := hoperands
    have hload : loadArg2 op env t=.ok (view.accumulator.setWidth 32,t) := by
      rw [loadArg2,hsource.load,ht.accumulator]
    obtain ⟨u₁,hcopy,h₁⟩ := copyArg_memory hdestination hwrite hloaded ht hmapped hload
    obtain ⟨u₂,hedi,h₂⟩ := advance_run env hsize h₁ .edi
    exact ⟨u₂,(Exec.bind_run hcopy).trans hedi,h₂⟩
  | lods =>
    obtain ⟨hdestination,hsource⟩ := hoperands
    have hcopy := (Exec.bind_run (loadArg2_memory env hsource hloaded ht hmapped)).trans
      (hdestination.store _)
    rw [FEBitWidth.setWidth_back] at hcopy
    obtain ⟨u,hesi,hu⟩ := advance_run env hsize (ht.setAccumulator _) .esi
    exact ⟨u,(Exec.bind_run hcopy).trans hesi,hu⟩

section Steps
variable (move : DataMove)

def moves : DataMove→StringPointer→Bool
  | movs,_ => true
  | stos,.edi => true
  | stos,.esi => false
  | lods,.esi => true
  | lods,.edi => false

theorem steps_succ (n : ℕ) :
    move.steps segments (n+1) view=move.step segments (move.steps segments n view) :=
  Function.iterate_succ_apply' _ _ _

theorem cpuFlags_step : (move.step segments view).cpuFlags=view.cpuFlags := by cases move <;> rfl

theorem cpuFlags_steps (n : ℕ) : (move.steps segments n view).cpuFlags=view.cpuFlags := by
  induction n with
  | zero => rfl
  | succ n ih => rw [steps_succ,cpuFlags_step,ih]

theorem pointer_step (pointer : StringPointer) :
    (move.step segments view).pointer pointer=
      if move.moves pointer then displaced view.cpuFlags (view.pointer pointer) width.bytes
      else view.pointer pointer := by
  cases move <;> cases pointer <;> rfl

/-- Every pointer that the instruction moves has passed `n` elements. -/
theorem pointer_steps (pointer : StringPointer) (n : ℕ) :
    (move.steps segments n view).pointer pointer=
      if move.moves pointer then displaced view.cpuFlags (view.pointer pointer) (n*width.bytes)
      else view.pointer pointer := by
  induction n with
  | zero => simp [steps,displaced_zero]
  | succ n ih =>
    rw [steps_succ,pointer_step,cpuFlags_steps,ih]
    split
    · rw [displaced_displaced,Nat.succ_mul]
    · rfl

/-- What a step does depends neither on the counter nor on the count of instructions. -/
theorem step_counters (ecx : U32) (instructionCounter : BitVec 64) :
    move.step segments (view.withCounters ecx instructionCounter)=
      (move.step segments view).withCounters ecx instructionCounter := by
  cases move <;> rfl

theorem mapped_steps {m : FEMemoryMap DisasmContext} {n : ℕ}
    (h : move.Mapped segments m (view.element n)) :
    move.Mapped segments m (move.steps segments n view) := by
  cases move with
  | movs =>
    have hesi : (movs.steps segments n view).esi=(view.element n).esi := movs.pointer_steps .esi n
    have hedi : (movs.steps segments n view).edi=(view.element n).edi := movs.pointer_steps .edi n
    rw [Mapped,hesi,hedi]
    exact h
  | stos =>
    have hedi : (stos.steps segments n view).edi=(view.element n).edi := stos.pointer_steps .edi n
    rw [Mapped,hedi]
    exact h
  | lods =>
    have hesi : (lods.steps segments n view).esi=(view.element n).esi := lods.pointer_steps .esi n
    rw [Mapped,hesi]
    exact h

end Steps

section Runs
variable {move : DataMove}

/-- The view of a loop that has made `n` turns over the instruction. -/
def afterTurns (move : DataMove) (segments : Segments) (n : ℕ) (view : StringView width) :
    StringView width :=
  (move.steps segments n view).withCounters (view.ecx-BitVec.ofNat 32 n)
    (view.instructionCounter+BitVec.ofNat 64 n)

theorem repxxPostfix_run (env : Environment F) (h : move.Decoded F segments width op)
    (ht : Shows s view t) :
    ∃u,repxxPostfix op env t=.ok (.continueLoop,u) ∧ Shows s { view with ecx := view.ecx-1 } u := by
  have hlock : assert (op.Prefix.LockPrefix=0) env t=.ok ((),t) :=
    assert_run (decide_eq_true h.repeated.noLock)
  have hrep : op.Prefix.RepPrefix=1 := h.repeated.repeats.resolve_left h.noRepne
  have hcompares : comparesStrings op.Instruction.Opcode=false := by
    rw [h.opcode]
    cases move <;> cases width <;> decide
  obtain ⟨u,hdecrement,hu⟩ := decrementECX_run env ht
  refine ⟨u,?_,hu⟩
  rw [repxxPostfix,if_pos h.repeated.number,Exec.bind_run hlock,if_neg h.noRepne,if_pos hrep,
    Exec.bind_run hdecrement,hcompares]
  rfl

theorem turn_step (h : move.Decoded F segments width op) (hs : AtInstruction s op)
    (hloaded : move.Loaded segments s) (ht : Shows s view t) (hecx : view.ecx≠0)
    (hmapped : move.Mapped segments s.memory.map view) :
    ∃u,Turn env t u ∧
      Shows s ((move.step segments view).withCounters (view.ecx-1)
        (view.instructionCounter+1)) u := by
  obtain ⟨hsize₁,hsize₂⟩ := sameSize h
  have hcounted := ht.count
  have hmapped : move.Mapped segments s.memory.map
      (view.withCounters view.ecx (view.instructionCounter+1)) := by
    cases move <;> exact hmapped
  obtain ⟨u₁,hbody,h₁⟩ := body_step env h hloaded hcounted hmapped
  obtain ⟨u₂,hpost,h₂⟩ := repxxPostfix_run env h h₁
  refine ⟨u₂,⟨ht.exit.trans hs.running,?_⟩,?_⟩
  · refine iteration_continue (ht.deref.trans hs.instruction) ?_
    rw [execute_eq h,repeated_step h.repeated (by rwa [hcounted.ecx])
      (hsize₁.trans hsize₂.symm) hbody]
    exact hpost
  · cases move <;> exact h₂

theorem turns_run (env : Environment F) (h : move.Decoded F segments width op)
    (hs : AtInstruction s op) (hloaded : move.Loaded segments s) (hview : Shows s view s) {n : ℕ}
    (hn : n ≤ view.ecx.toNat) (hmapped : ∀i<n,move.Mapped segments s.memory.map (view.element i)) :
    ∃t,Turns env s n t ∧ Shows s (move.afterTurns segments n view) t := by
  induction n with
  | zero =>
    refine ⟨s,.zero,?_⟩
    have hafter : move.afterTurns segments 0 view=view := by
      simp [afterTurns,steps,StringView.withCounters]
    rw [hafter]
    exact hview
  | succ n ih =>
    obtain ⟨t,hturns,ht⟩ := ih (by omega) fun i hi => hmapped i (by omega)
    have hecx : view.ecx-BitVec.ofNat 32 n≠0 := by bv_omega
    have hin : move.Mapped segments s.memory.map (move.afterTurns segments n view) := by
      have hsteps := move.mapped_steps (hmapped n (by omega))
      cases move <;> exact hsteps
    obtain ⟨u,hturn,hu⟩ := turn_step h hs hloaded ht hecx hin
    refine ⟨u,.next hturns hturn,?_⟩
    have hafter : move.afterTurns segments (n+1) view=
        (move.step segments (move.afterTurns segments n view)).withCounters
          ((move.afterTurns segments n view).ecx-1)
            ((move.afterTurns segments n view).instructionCounter+1) := by
      rw [afterTurns,steps_succ,afterTurns,step_counters,BitVec.ofNat_add,BitVec.ofNat_add,
        ←BitVec.sub_sub,←BitVec.add_assoc]
      rfl
    rw [hafter]
    exact hu

/-- `REP MOVS`, `REP STOS` and `REP LODS` make as many steps as `ECX` says, one a turn, and then go
to the next instruction: the memory is as after these steps, `ECX` is 0, each pointer has passed as
many elements, and the flags and all else are as before. -/
theorem rep_moves (env : Environment F) {flat : ℕ→U8} (h : move.Decoded F segments width op)
    (hs : AtInstruction s op) (hloaded : move.Loaded segments s) (hflat : Holds s.memory flat)
    (hmapped : ∀i<s.currentThread.ecx.toNat,
      move.Mapped segments s.memory.map ((StringView.ofProcess s flat : StringView width).element
        i)) :
    let n := s.currentThread.ecx.toNat
    let start : StringView width := .ofProcess s flat
    let moved := move.steps segments n start
    ∃u,Leaves env s n u ∧
      Shows s (moved.withCounters 0 (s.instructionCounter+BitVec.ofNat 64 n+1)) u ∧
      (∀pointer,moved.pointer pointer=
        if move.moves pointer then displaced s.currentThread.cpuFlags (start.pointer pointer)
          (n*width.bytes)
        else start.pointer pointer) ∧
      moved.cpuFlags=s.currentThread.cpuFlags ∧
      (n=0→u=counted s) := by
  intro n start moved
  obtain ⟨t,hturns,ht⟩ := turns_run env h hs hloaded (.ofProcess hflat) (le_refl n) hmapped
  have hecx : (move.afterTurns segments n start).ecx=0 := by
    show s.currentThread.ecx-BitVec.ofNat 32 n=0
    bv_omega
  have hcounted := ht.count
  refine ⟨counted t,⟨t,hturns,ht.exit.trans hs.running,?_⟩,?_,
    fun pointer => move.pointer_steps pointer n,move.cpuFlags_steps n,?_⟩
  · have hexecute : execute op env (counted t)=.ok (.jumpToNextInstr,counted t) := by
      rw [execute_eq h,repeated_zero h.repeated (hcounted.ecx.trans hecx)]
    rw [iteration_jump (ht.deref.trans hs.instruction) hexecute,jumpToNextInstr_run hs hcounted]
  · rw [hecx,afterTurns,StringView.withCounters_withCounters] at hcounted
    exact hcounted
  · intro hn
    rw [hn] at hturns
    cases hturns
    rfl

def repMovsb : DISASM :=
  { (default : DISASM) with
    Instruction := { (default : INSTRTYPE) with
      Category := GENERAL_PURPOSE_INSTRUCTION,Opcode := 0xa4 }
    Argument1 := destinationOperand
    Argument2 := sourceOperand
    Prefix := { (default : PREFIXINFO) with Number := 1,RepPrefix := 1 } }

theorem rep_moves_movsb : ∃(s u : FEProcess Unit),Leaves (.bare .debug) s 2 u ∧
    u.currentThread.ecx=0 := by
  obtain ⟨m,flat,hflat,hblock⟩ := page_mapped
  let thread := stringThread [] [2] [0,0,0x40] [0x10,0,0x40]
  let s := stringProcess m repMovsb thread
  have hdecoded : Decoded Unit movs ⟨⟨.kDS,0⟩,⟨.kES,0⟩⟩ .k8bit repMovsb :=
    ⟨(by decide : GENERAL_PURPOSE_INSTRUCTION&&&GENERAL_PURPOSE_INSTRUCTION≠0),rfl,
      ⟨by decide,by decide,.inr rfl⟩,by decide,destinationOperand_decoded,rfl,sourceOperand_decoded⟩
  have hecx : thread.ecx.toNat=2 := by decide +kernel
  have hmapped : ∀i<s.currentThread.ecx.toNat,movs.Mapped ⟨⟨.kDS,0⟩,⟨.kES,0⟩⟩ s.memory.map
      ((StringView.ofProcess s flat : StringView .k8bit).element i) := by
    intro i hi
    have hi : i<2 := hecx ▸ hi
    have hesi : s.currentThread.esi=0x400000 := (by decide +kernel : thread.esi=0x400000)
    have hedi : s.currentThread.edi=0x400010 := (by decide +kernel : thread.edi=0x400010)
    have hup : s.currentThread.cpuFlags.DF=0 := rfl
    simp only [Mapped,StringView.element,StringView.ofProcess,displaced,hesi,hedi,hup]
    interval_cases i <;> exact ⟨⟨_,hblock,by decide,by decide⟩,_,hblock,by decide,by decide⟩
  obtain ⟨u,hleaves,hshows,_⟩ := rep_moves (.bare .debug) hdecoded (s:=s)
    ⟨rfl,rfl,(by decide +kernel : repMovsb.VirtualAddr=thread.eip.setWidth 64)⟩
    ⟨rfl,rfl⟩ hflat hmapped
  exact ⟨s,u,hecx ▸ hleaves,hshows.ecx⟩

end Runs
end DataMove
end FalloutEmu.DataMoves
