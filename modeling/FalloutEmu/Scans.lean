import FalloutEmu.Repetition
import FalloutEmu.SignExtension
import Mathlib.Logic.Function.Iterate
import Mathlib.Tactic.IntervalCases

/-! # The repeated comparisons of strings -/
namespace FalloutEmu.Scans
open ByteStore Emulator Repetition
open FlatMemory (Holds InBlock)

section FirstStop

/-- The 1-based index of the first of `n` elements that stops a search, or `n`. -/
def stopIndex (stops : ℕ→Bool) (n : ℕ) : ℕ := min ((List.range n).findIdx stops+1) n

structure FirstStop (stops : ℕ→Bool) (n k : ℕ) : Prop where
  le : k ≤ n
  before : ∀i,i+1<k→stops i=false
  last : k<n→∃i,k=i+1 ∧ stops i=true

theorem firstStop_stopIndex (stops : ℕ→Bool) (n : ℕ) : FirstStop stops n (stopIndex stops n) where
  le := Nat.min_le_right _ _
  before := by
    intro i hi
    have hlt : i<(List.range n).findIdx stops := by
      unfold stopIndex at hi
      omega
    have hnot := List.not_of_lt_findIdx hlt
    rwa [List.getElem_range] at hnot
  last := by
    intro hlt
    have hfind : (List.range n).findIdx stops<(List.range n).length := by
      rw [List.length_range]
      unfold stopIndex at hlt
      omega
    have hstops := List.findIdx_getElem (w:=hfind)
    rw [List.getElem_range] at hstops
    rw [List.length_range] at hfind
    exact ⟨_,Nat.min_eq_left hfind,hstops⟩

end FirstStop

section Flags

def compared (flags : FECPUFlags) {w : ℕ} (a b : BitVec w) : FECPUFlags :=
  flags.fillFrom16it (withHostStatus flags.cpuflags16 (X86.sub a b default default).2)

variable (flags : FECPUFlags) {w : ℕ} (a b : BitVec w)

theorem DF_compared : (compared flags a b).DF=flags.DF := by
  rw [compared,FECPUFlags.fillFrom16it_withHostStatus]

theorem ZF_compared : (compared flags a b).ZF=1 ↔ a=b := by
  rw [compared,FECPUFlags.fillFrom16it_withHostStatus]
  have hzero : (X86.sub a b default default).2.ZF=decide (a=b) :=
    decide_eq_decide.mpr (X86.sub_eq_zero_iff a b)
  simp only [hzero]
  by_cases hab : a=b <;> simp [hab]

/-- A comparison keeps nothing of the comparison before it. -/
theorem compared_compared (c d : BitVec w) :
    compared (compared flags a b) c d=compared flags c d := by
  simp only [compared,FECPUFlags.fillFrom16it_withHostStatus]

theorem binary_sub {F : Type} (threadContext : FEThreadContext F) (undefined : X86.StatusFlags)
    {width : FEBitWidth} (a b : BitVec width.bits) :
    (threadContext.binary X86.sub undefined (a.setWidth 32) (b.setWidth 32) width).2=
      { threadContext with cpuFlags := compared threadContext.cpuFlags a b } := by
  have hbinary (a b : U32) : (threadContext.binary X86.sub undefined a b width).2=
      { threadContext with
        cpuFlags := compared threadContext.cpuFlags (a.setWidth width.bits)
          (b.setWidth width.bits) } := by
    cases width with
    | k8bit | k16bit => rfl
    | k32bit =>
      have hsame (x : U32) : x.setWidth FEBitWidth.k32bit.bits=x := BitVec.setWidth_eq x
      rw [hsame,hsame]
      rfl
  rw [hbinary,FEBitWidth.setWidth_back,FEBitWidth.setWidth_back]

end Flags

inductive Scan where
  | cmps
  | scas

inductive Repeat where
  | repe
  | repne
  deriving DecidableEq

def Repeat.stops {w : ℕ} (a b : BitVec w) : Repeat→Bool
  | repe => a≠b
  | repne => a=b

namespace Scan
variable {F : Type} {s t : FEProcess F} {width : FEBitWidth} {op : DISASM} {scan : Scan}
  {repetition : Repeat}
  {segments : Segments} {view : StringView width}

def opcode (width : FEBitWidth) : Scan→U32
  | cmps => if width=.k8bit then 0xa6 else 0xa7
  | scas => if width=.k8bit then 0xae else 0xaf

/-- Its operands, as the decoder describes them: `[EDI]` is the first one of `cmps`. -/
def Operands (F : Type) (segments : Segments) (width : FEBitWidth) (op : DISASM) : Scan→Prop
  | cmps => IsStringOperand F op.Argument1 .edi segments.destination width ∧
    IsStringOperand F op.Argument2 .esi segments.source width
  | scas => IsRegister F op.Argument1 width.accumulator width ∧
    IsStringOperand F op.Argument2 .edi segments.destination width

/-- The instruction under a `REPE` or a `REPNE` prefix. -/
structure Decoded (F : Type) (scan : Scan) (repetition : Repeat) (segments : Segments)
    (width : FEBitWidth) (op : DISASM) : Prop where
  category : op.Instruction.Category&&&GENERAL_PURPOSE_INSTRUCTION≠0
  opcode : op.Instruction.Opcode=scan.opcode width
  repeated : IsRepeated op
  repne : op.Prefix.RepnePrefix=1 ↔ repetition=.repne
  operands : scan.Operands F segments width op

/-- The segments that it uses are in the table of descriptors. -/
def Loaded (segments : Segments) (s : FEProcess F) : Scan→Prop
  | cmps => segments.source.Loaded s ∧ segments.destination.Loaded s
  | scas => segments.destination.Loaded s

/-- The elements under the pointers of the view lie inside one block each. -/
def Mapped (segments : Segments) (m : FEMemoryMap DisasmContext) (view : StringView width) : Scan→
    Prop
  | cmps => InBlock m (segments.source.base+view.esi).toNat width.bytes ∧
    InBlock m (segments.destination.base+view.edi).toNat width.bytes
  | scas => InBlock m (segments.destination.base+view.edi).toNat width.bytes

def pair (segments : Segments) (view : StringView width) : Scan→BitVec width.bits×BitVec width.bits
  | cmps => (wordAt width view.flat (segments.source.base+view.esi),
    wordAt width view.flat (segments.destination.base+view.edi))
  | scas => (view.accumulator,wordAt width view.flat (segments.destination.base+view.edi))

/-- The instruction without repetition: it compares one pair and moves its pointers. -/
def step (segments : Segments) (view : StringView width) (scan : Scan) : StringView width :=
  let words := scan.pair segments view
  let flagged := { view with cpuFlags := compared view.cpuFlags words.1 words.2 }
  match scan with
  | cmps => (flagged.advanced .esi).advanced .edi
  | scas => flagged.advanced .edi

def steps (scan : Scan) (segments : Segments) (n : ℕ) (view : StringView width) :
    StringView width :=
  (fun view => scan.step segments view)^[n] view

section Steps
variable (scan)

def moves : Scan→StringPointer→Bool
  | cmps,_ => true
  | scas,.edi => true
  | scas,.esi => false

theorem steps_succ (n : ℕ) :
    scan.steps segments (n+1) view=scan.step segments (scan.steps segments n view) :=
  Function.iterate_succ_apply' _ _ _

theorem cpuFlags_step : (scan.step segments view).cpuFlags=
    compared view.cpuFlags (scan.pair segments view).1 (scan.pair segments view).2 := by
  cases scan <;> rfl

theorem DF_steps (n : ℕ) : (scan.steps segments n view).cpuFlags.DF=view.cpuFlags.DF := by
  induction n with
  | zero => rfl
  | succ n ih => rw [steps_succ,cpuFlags_step,DF_compared,ih]

theorem displaced_congr {flags flags' : FECPUFlags} (h : flags.DF=flags'.DF) (p : U32) (n : ℕ) :
    displaced flags p n=displaced flags' p n := by
  rw [displaced,displaced,h]

theorem pointer_step (pointer : StringPointer) :
    (scan.step segments view).pointer pointer=
      if scan.moves pointer then displaced view.cpuFlags (view.pointer pointer) width.bytes
      else view.pointer pointer := by
  have hdisplaced := fun p => displaced_congr
    (DF_compared view.cpuFlags (scan.pair segments view).1 (scan.pair segments view).2)
      p width.bytes
  cases scan with
  | cmps => cases pointer <;> exact hdisplaced _
  | scas =>
    cases pointer with
    | esi => rfl
    | edi => exact hdisplaced _

/-- Every pointer that the instruction moves has passed `n` elements. -/
theorem pointer_steps (pointer : StringPointer) (n : ℕ) :
    (scan.steps segments n view).pointer pointer=
      if scan.moves pointer then displaced view.cpuFlags (view.pointer pointer) (n*width.bytes)
      else view.pointer pointer := by
  induction n with
  | zero => simp [steps,displaced_zero]
  | succ n ih =>
    rw [steps_succ,pointer_step,displaced_congr (scan.DF_steps n),ih]
    split
    · rw [displaced_displaced,Nat.succ_mul]
    · rfl

theorem contents_steps (n : ℕ) : (scan.steps segments n view).flat=view.flat ∧
    (scan.steps segments n view).accumulator=view.accumulator := by
  induction n with
  | zero => exact ⟨rfl,rfl⟩
  | succ n ih =>
    rw [steps_succ]
    cases scan <;> exact ih

theorem step_counters (ecx : U32) (instructionCounter : BitVec 64) :
    scan.step segments (view.withCounters ecx instructionCounter)=
      (scan.step segments view).withCounters ecx instructionCounter := by
  cases scan <;> rfl

/-- The pair after `n` steps is the `n`-th pair of the strings. -/
theorem pair_steps (n : ℕ) :
    scan.pair segments (scan.steps segments n view)=scan.pair segments (view.element n) := by
  have hflat : (scan.steps segments n view).flat=view.flat := (scan.contents_steps n).1
  have haccumulator : (scan.steps segments n view).accumulator=view.accumulator :=
    (scan.contents_steps n).2
  cases scan with
  | cmps =>
    have hesi : (cmps.steps segments n view).esi=(view.element n).esi := cmps.pointer_steps .esi n
    have hedi : (cmps.steps segments n view).edi=(view.element n).edi := cmps.pointer_steps .edi n
    rw [pair,hflat,hesi,hedi]
    rfl
  | scas =>
    have hedi : (scas.steps segments n view).edi=(view.element n).edi := scas.pointer_steps .edi n
    rw [pair,hflat,haccumulator,hedi]
    rfl

theorem mapped_steps {m : FEMemoryMap DisasmContext} {n : ℕ}
    (h : scan.Mapped segments m (view.element n)) :
    scan.Mapped segments m (scan.steps segments n view) := by
  cases scan with
  | cmps =>
    have hesi : (cmps.steps segments n view).esi=(view.element n).esi := cmps.pointer_steps .esi n
    have hedi : (cmps.steps segments n view).edi=(view.element n).edi := cmps.pointer_steps .edi n
    rw [Mapped,hesi,hedi]
    exact h
  | scas =>
    have hedi : (scas.steps segments n view).edi=(view.element n).edi := scas.pointer_steps .edi n
    rw [Mapped,hedi]
    exact h

/-- The flags after a scan are those of its last comparison. -/
theorem cpuFlags_steps (n : ℕ) : (scan.steps segments (n+1) view).cpuFlags=
    compared view.cpuFlags (scan.pair segments (view.element n)).1
      (scan.pair segments (view.element n)).2 := by
  induction n with
  | zero =>
    have hpair : scan.pair segments view=scan.pair segments (view.element 0) := scan.pair_steps 0
    rw [←hpair]
    exact scan.cpuFlags_step
  | succ n ih => rw [steps_succ,cpuFlags_step,ih,compared_compared,pair_steps]

end Steps

section Runs

/-- The part of the source between the prefix and the postfix. -/
def body : Scan→DISASM→Emulator F Unit
  | cmps => fun op => do
    let arg1Value ← loadArg1 op
    let arg2Value ← loadArg2 op
    let _ ← binary X86.sub arg2Value arg1Value (← bitWidth op.Argument1.ArgSize)
    advance op .kESI
    advance op .kEDI
  | scas => fun op => do
    let arg1Value ← loadArg1 op
    let arg2Value ← loadArg2 op
    let _ ← binary X86.sub arg1Value arg2Value (← bitWidth op.Argument1.ArgSize)
    advance op (← register32FromArgtype op.Argument2.Memory.BaseRegister 0)

theorem execute_eq (h : scan.Decoded F repetition segments width op) :
    (execute op : Emulator F Flow)=repeated scan.body op := by
  cases scan <;> cases width <;> exact execute_of_opcode h.category h.opcode rfl

theorem sameSize (h : scan.Decoded F repetition segments width op) :
    op.Argument1.ArgSize=width.argSize ∧ op.Argument2.ArgSize=width.argSize := by
  have hoperands := h.operands
  cases scan with
  | cmps => exact ⟨hoperands.1.size,hoperands.2.size⟩
  | scas => exact ⟨hoperands.1.size,hoperands.2.size⟩

/-- A string operand holds the element under its pointer. -/
theorem load_element (env : Environment F) {arg : ARGTYPE} {pointer : StringPointer}
    {segment : Segment} (h : IsStringOperand F arg pointer segment width)
    (hloaded : segment.Loaded s) (ht : Shows s view t)
    (hin : InBlock s.memory.map (segment.base+view.pointer pointer).toNat width.bytes)
    (immediat : U32) :
    loadArgValue arg immediat env t=
      .ok ((wordAt width view.flat (segment.base+view.pointer pointer)).setWidth 32,t) := by
  have hpointer := ht.pointers pointer
  rw [h.load (ht.loaded h.segmentRegister hloaded) ht.contents (by rwa [hpointer,ht.map]),hpointer]

theorem binary_run (env : Environment F) (ht : Shows s view t) (a b : BitVec width.bits) :
    ∃x u,binary X86.sub (a.setWidth 32) (b.setWidth 32) width env t=.ok (x,u) ∧
      Shows s { view with cpuFlags := compared view.cpuFlags a b } u := by
  refine ⟨(t.currentThread.binary X86.sub (env.undefinedFlags t.instructionCounter) (a.setWidth 32)
    (b.setWidth 32) width).1,_,?_,ht.withFlags _⟩
  show Except.ok (_,t.withThread _)=Except.ok (_,_)
  rw [binary_sub,ht.cpuFlags]
  rfl

theorem body_step (env : Environment F) (h : scan.Decoded F repetition segments width op)
    (hloaded : scan.Loaded segments s) (ht : Shows s view t)
    (hmapped : scan.Mapped segments s.memory.map view) :
    ∃u,scan.body op env t=.ok ((),u) ∧ Shows s (scan.step segments view) u := by
  obtain ⟨hsize,_⟩ := sameSize h
  have hwidth : bitWidth op.Argument1.ArgSize env t=.ok (width,t) := hsize ▸ bitWidth_run width
  have hoperands := h.operands
  cases scan with
  | cmps =>
    obtain ⟨hdestination,hsource⟩ := hoperands
    have hload₁ := load_element env hdestination hloaded.2 ht hmapped.2
    have hload₂ := load_element env hsource hloaded.1 ht hmapped.1
    obtain ⟨x,u₁,hsub,h₁⟩ := binary_run env ht (cmps.pair segments view).1
      (cmps.pair segments view).2
    obtain ⟨u₂,hesi,h₂⟩ := advance_run env hsize h₁ .esi
    obtain ⟨u₃,hedi,h₃⟩ := advance_run env hsize h₂ .edi
    refine ⟨u₃,?_,h₃⟩
    exact (Exec.bind_run (hload₁ _)).trans ((Exec.bind_run (hload₂ _)).trans
      ((Exec.bind_run hwidth).trans
      ((Exec.bind_run hsub).trans ((Exec.bind_run hesi).trans hedi))))
  | scas =>
    obtain ⟨hsource,hdestination⟩ := hoperands
    have hload₁ : loadArg1 op env t=.ok (view.accumulator.setWidth 32,t) := by
      rw [loadArg1,hsource.load,ht.accumulator]
    have hload₂ := load_element env hdestination hloaded ht hmapped
    obtain ⟨x,u₁,hsub,h₁⟩ := binary_run env ht (scas.pair segments view).1
      (scas.pair segments view).2
    obtain ⟨u₂,hedi,h₂⟩ := advance_run env hsize h₁ .edi
    refine ⟨u₂,?_,h₂⟩
    exact (Exec.bind_run hload₁).trans ((Exec.bind_run (hload₂ _)).trans
      ((Exec.bind_run hwidth).trans
      ((Exec.bind_run hsub).trans ((Exec.bind_run (hdestination.baseName env u₁)).trans hedi))))

def ends (scan : Scan) (repetition : Repeat) (segments : Segments)
    (view : StringView width) : Bool :=
  repetition.stops (scan.pair segments view).1 (scan.pair segments view).2

/-- The postfix leaves the instruction when its comparison ends the repetition. -/
theorem repxxPostfix_run (env : Environment F) (h : scan.Decoded F repetition segments width op)
    (ht : Shows s (scan.step segments view) t) :
    ∃u,repxxPostfix op env t=
        .ok (if scan.ends repetition segments view then .jumpToNextInstr else .continueLoop,u) ∧
      Shows s { scan.step segments view with ecx := (scan.step segments view).ecx-1 } u := by
  have hlock : assert (op.Prefix.LockPrefix=0) env t=.ok ((),t) :=
    assert_run (decide_eq_true h.repeated.noLock)
  obtain ⟨u,hdecrement,hu⟩ := decrementECX_run env ht
  have hflags : Emulator.cpuFlags env u=.ok ((scan.step segments view).cpuFlags,u) := by
    rw [←hu.cpuFlags]
    rfl
  have hZF : (scan.step segments view).cpuFlags.ZF=1 ↔
      (scan.pair segments view).1=(scan.pair segments view).2 := by
    rw [cpuFlags_step]
    exact ZF_compared _ _ _
  refine ⟨u,?_,hu⟩
  rw [repxxPostfix,if_pos h.repeated.number,Exec.bind_run hlock]
  cases repetition with
  | repne =>
    rw [if_pos (h.repne.mpr rfl),Exec.bind_run hdecrement,Exec.bind_run hflags]
    by_cases hequal : (scan.pair segments view).1=(scan.pair segments view).2
    · rw [if_pos (hZF.mpr hequal),ends,Repeat.stops,decide_eq_true hequal]
      rfl
    · rw [if_neg (hZF.not.mpr hequal),ends,Repeat.stops,decide_eq_false hequal]
      rfl
  | repe =>
    have hnorepne : op.Prefix.RepnePrefix≠1 := h.repne.not.mpr (by decide)
    have hrep : op.Prefix.RepPrefix=1 := h.repeated.repeats.resolve_left hnorepne
    have hcompares : comparesStrings op.Instruction.Opcode=true := by
      rw [h.opcode]
      cases scan <;> cases width <;> decide
    have hzero : (scan.step segments view).cpuFlags.ZF=0 ↔ ¬(scan.step segments view).cpuFlags.ZF=
      1 := by
      generalize (scan.step segments view).cpuFlags.ZF=bit
      revert bit
      decide
    rw [if_neg hnorepne,if_pos hrep,Exec.bind_run hdecrement,hcompares,Exec.bind_run hflags]
    by_cases hequal : (scan.pair segments view).1=(scan.pair segments view).2
    · have hset : ¬(true=true ∧ (scan.step segments view).cpuFlags.ZF=0) := fun h =>
        hzero.mp h.2 (hZF.mpr hequal)
      rw [if_neg hset,ends,Repeat.stops,decide_eq_false (not_not_intro hequal)]
      rfl
    · rw [if_pos ⟨rfl,hzero.mpr (hZF.not.mpr hequal)⟩,ends,Repeat.stops,decide_eq_true hequal]
      rfl

/-- The view of a loop that has compared `n` pairs in as many turns. -/
def afterTurns (scan : Scan) (segments : Segments) (n : ℕ) (view : StringView width) :
    StringView width :=
  (scan.steps segments n view).withCounters (view.ecx-BitVec.ofNat 32 n)
    (view.instructionCounter+BitVec.ofNat 64 n)

theorem afterTurns_succ (n : ℕ) : scan.afterTurns segments (n+1) view=
    (scan.step segments (scan.afterTurns segments n view)).withCounters
      ((scan.afterTurns segments n view).ecx-1)
      ((scan.afterTurns segments n view).instructionCounter+1) := by
  rw [afterTurns,steps_succ,afterTurns,step_counters,BitVec.ofNat_add,BitVec.ofNat_add,
    ←BitVec.sub_sub,←BitVec.add_assoc]
  rfl

theorem ends_afterTurns (n : ℕ) : scan.ends repetition segments (scan.afterTurns segments n view)=
    scan.ends repetition segments (view.element n) := by
  have hpair : scan.pair segments (scan.afterTurns segments n view)=
      scan.pair segments (scan.steps segments n view) := by
    cases scan <;> rfl
  rw [ends,ends,hpair,pair_steps]

/-- In a turn the instruction makes one step, counts `ECX` down and decides where to go. -/
theorem execute_step (env : Environment F) (h : scan.Decoded F repetition segments width op)
    (hloaded : scan.Loaded segments s) (ht : Shows s view t) (hecx : view.ecx≠0)
    (hmapped : scan.Mapped segments s.memory.map view) :
    ∃u,execute op env (counted t)=
        .ok (if scan.ends repetition segments view then .jumpToNextInstr else .continueLoop,u) ∧
      Shows s ((scan.step segments view).withCounters (view.ecx-1)
        (view.instructionCounter+1)) u := by
  obtain ⟨hsize₁,hsize₂⟩ := sameSize h
  have hcounted := ht.count
  have hmapped : scan.Mapped segments s.memory.map
      (view.withCounters view.ecx (view.instructionCounter+1)) := by
    cases scan <;> exact hmapped
  obtain ⟨u₁,hbody,h₁⟩ := body_step env h hloaded hcounted hmapped
  obtain ⟨u₂,hpost,h₂⟩ := repxxPostfix_run env h h₁
  have hends : scan.ends repetition segments (view.withCounters view.ecx
    (view.instructionCounter+1))=
      scan.ends repetition segments view := by
    cases scan <;> rfl
  rw [hends] at hpost
  refine ⟨u₂,?_,by cases scan <;> exact h₂⟩
  rw [execute_eq h,repeated_step h.repeated (by rwa [hcounted.ecx])
    (hsize₁.trans hsize₂.symm) hbody]
  exact hpost

theorem mapped_afterTurns {m : FEMemoryMap DisasmContext} {n : ℕ}
    (h : scan.Mapped segments m (view.element n)) :
    scan.Mapped segments m (scan.afterTurns segments n view) := by
  have hsteps := scan.mapped_steps h
  cases scan <;> exact hsteps

/-- The loop compares pair after pair as long as none ends the repetition. -/
theorem turns_run (env : Environment F) (h : scan.Decoded F repetition segments width op)
    (hs : AtInstruction s op) (hloaded : scan.Loaded segments s) (hview : Shows s view s) {n : ℕ}
    (hn : n ≤ view.ecx.toNat) (hmapped : ∀i<n,scan.Mapped segments s.memory.map (view.element i))
    (hgoes : ∀i<n,scan.ends repetition segments (view.element i)=false) :
    ∃t,Turns env s n t ∧ Shows s (scan.afterTurns segments n view) t := by
  induction n with
  | zero =>
    refine ⟨s,.zero,?_⟩
    have hafter : scan.afterTurns segments 0 view=view := by
      simp [afterTurns,steps,StringView.withCounters]
    rw [hafter]
    exact hview
  | succ n ih =>
    obtain ⟨t,hturns,ht⟩ := ih (by omega) (fun i hi => hmapped i (by omega)) fun i hi =>
      hgoes i (by omega)
    have hecx : view.ecx-BitVec.ofNat 32 n≠0 := by bv_omega
    obtain ⟨u,hexecute,hu⟩ := execute_step env h hloaded ht hecx
      (mapped_afterTurns (hmapped n (by omega)))
    rw [ends_afterTurns,hgoes n (by omega)] at hexecute
    refine ⟨u,.next hturns ⟨ht.exit.trans hs.running,?_⟩,?_⟩
    · exact iteration_continue (ht.deref.trans hs.instruction) hexecute
    · rw [afterTurns_succ]
      exact hu

/-- The exit on `ZF`: the turn that compares the last pair goes on to the next instruction. -/
theorem leaves_of_ends (env : Environment F) (h : scan.Decoded F repetition segments width op)
    (hs : AtInstruction s op) (hloaded : scan.Loaded segments s) (hview : Shows s view s) {i : ℕ}
    (hi : i<view.ecx.toNat) (hmapped : ∀j ≤ i,scan.Mapped segments s.memory.map (view.element j))
    (hgoes : ∀j < i,scan.ends repetition segments (view.element j)=false)
    (hends : scan.ends repetition segments (view.element i)=true) :
    ∃u,Leaves env s i u ∧ Shows s (scan.afterTurns segments (i+1) view) u := by
  obtain ⟨t,hturns,ht⟩ := turns_run env h hs hloaded hview hi.le (fun j hj => hmapped j hj.le) hgoes
  have hecx : view.ecx-BitVec.ofNat 32 i≠0 := by bv_omega
  obtain ⟨u,hexecute,hu⟩ := execute_step env h hloaded ht hecx
    (mapped_afterTurns (hmapped i le_rfl))
  rw [ends_afterTurns,hends] at hexecute
  rw [←afterTurns_succ] at hu
  refine ⟨u,⟨t,hturns,ht.exit.trans hs.running,?_⟩,hu⟩
  rw [iteration_jump (ht.deref.trans hs.instruction) hexecute,jumpToNextInstr_run hs hu]

/-- The exit on the counter: one more turn finds `ECX` at zero. -/
theorem leaves_of_counter (env : Environment F) (h : scan.Decoded F repetition segments width op)
    (hs : AtInstruction s op) (hloaded : scan.Loaded segments s) (hview : Shows s view s)
    (hmapped : ∀i<view.ecx.toNat,scan.Mapped segments s.memory.map (view.element i))
    (hgoes : ∀i<view.ecx.toNat,scan.ends repetition segments (view.element i)=false) :
    ∃t,Leaves env s view.ecx.toNat (counted t) ∧ Turns env s view.ecx.toNat t ∧
      Shows s (scan.afterTurns segments view.ecx.toNat view) t := by
  obtain ⟨t,hturns,ht⟩ := turns_run env h hs hloaded hview le_rfl hmapped hgoes
  have hecx : (scan.afterTurns segments view.ecx.toNat view).ecx=0 := by
    show view.ecx-BitVec.ofNat 32 view.ecx.toNat=0
    bv_omega
  have hcounted := ht.count
  have hexecute : execute op env (counted t)=.ok (.jumpToNextInstr,counted t) := by
    rw [execute_eq h,repeated_zero h.repeated (hcounted.ecx.trans hecx)]
  refine ⟨t,⟨t,hturns,ht.exit.trans hs.running,?_⟩,hturns,ht⟩
  rw [iteration_jump (ht.deref.trans hs.instruction) hexecute,jumpToNextInstr_run hs hcounted]

def words (scan : Scan) (segments : Segments) (width : FEBitWidth) (s : FEProcess F)
    (flat : ℕ→U8) (i : ℕ) :
    BitVec width.bits×BitVec width.bits :=
  scan.pair segments ((StringView.ofProcess s flat : StringView width).element i)

def compares (scan : Scan) (repetition : Repeat) (segments : Segments) (width : FEBitWidth)
    (s : FEProcess F) (flat : ℕ→U8) : ℕ :=
  stopIndex (fun i => repetition.stops (scan.words segments width s flat i).1
    (scan.words segments width s flat i).2)
    s.currentThread.ecx.toNat

/-- The process `u` is the process `s` after `k` comparisons: `ECX` has counted them, each pointer
has passed as many elements, the flags are those of the last one, and all else is as before. -/
structure Compared (scan : Scan) (segments : Segments) (width : FEBitWidth) (s : FEProcess F)
    (flat : ℕ→U8) (k : ℕ) (u : FEProcess F) : Prop where
  ecx : u.currentThread.ecx.toNat=s.currentThread.ecx.toNat-k
  pointers : ∀pointer : StringPointer,u.currentThread.register32 pointer.name=
    if scan.moves pointer then
      displaced s.currentThread.cpuFlags (s.currentThread.register32 pointer.name) (k*width.bytes)
    else s.currentThread.register32 pointer.name
  flags : ∀i,k=i+1→∀undefined,u.currentThread.cpuFlags=(s.currentThread.binary X86.sub undefined
    ((scan.words segments width s flat i).1.setWidth 32)
      ((scan.words segments width s flat i).2.setWidth 32)
    width).2.cpuFlags
  rest : ∃view : StringView width,Shows s view u ∧ view.flat=flat ∧
    view.accumulator=s.currentThread.read width.accumulator width

theorem compared_of_shows {flat : ℕ→U8} {k : ℕ} {instructionCounter : BitVec 64} {u : FEProcess F}
    (hk : k ≤ s.currentThread.ecx.toNat)
    (hu : Shows s ((scan.steps segments k (.ofProcess s flat : StringView width)).withCounters
      (s.currentThread.ecx-BitVec.ofNat 32 k) instructionCounter) u) :
    Compared scan segments width s flat k u where
  ecx := by
    rw [hu.ecx]
    show (s.currentThread.ecx-BitVec.ofNat 32 k).toNat=_
    bv_omega
  pointers pointer := by
    have hstart : (StringView.ofProcess s flat : StringView width).pointer pointer=
        s.currentThread.register32 pointer.name := by
      cases pointer <;> rfl
    have hpointer : (scan.steps segments k (.ofProcess s flat : StringView width)).pointer pointer=
      _ :=
      scan.pointer_steps pointer k
    rw [hu.pointers,←hstart]
    refine Eq.trans ?_ hpointer
    cases pointer <;> rfl
  flags := by
    rintro i rfl undefined
    rw [binary_sub,hu.cpuFlags]
    exact scan.cpuFlags_steps i
  rest := ⟨_,hu,(scan.contents_steps k).1,(scan.contents_steps k).2⟩

/-- `REPE` and `REPNE` `CMPS` and `SCAS` stop behind the first pair that differs or matches, or
behind the last; without a pair nothing changes. -/
theorem rep_scans (env : Environment F) {flat : ℕ→U8}
    (h : scan.Decoded F repetition segments width op) (hs : AtInstruction s op)
    (hloaded : scan.Loaded segments s) (hflat : Holds s.memory flat)
    (hmapped : ∀i<scan.compares repetition segments width s flat,
      scan.Mapped segments s.memory.map ((StringView.ofProcess s flat : StringView width).element
        i)) :
    FirstStop (fun i => repetition.stops (scan.words segments width s flat i).1
      (scan.words segments width s flat i).2)
      s.currentThread.ecx.toNat (scan.compares repetition segments width s flat) ∧
    ∃n u,Leaves env s n u ∧
      (n=scan.compares repetition segments width s flat ∨ n+1=scan.compares repetition segments
        width s flat) ∧
      Compared scan segments width s flat (scan.compares repetition segments width s flat) u ∧
      (s.currentThread.ecx=0→u=counted s) := by
  have hfirst := firstStop_stopIndex (fun i => repetition.stops
    (scan.words segments width s flat i).1
    (scan.words segments width s flat i).2) s.currentThread.ecx.toNat
  refine ⟨hfirst,?_⟩
  have hle : scan.compares repetition segments width s flat ≤ s.currentThread.ecx.toNat := hfirst.le
  have hview : Shows s (.ofProcess s flat : StringView width) s := .ofProcess hflat
  by_cases hends : ∃i,scan.compares repetition segments width s flat=i+1 ∧
      scan.ends repetition segments ((StringView.ofProcess s flat : StringView width).element i)=
        true
  · obtain ⟨i,hk,hend⟩ := hends
    rw [hk] at hle hmapped
    have hgoes : ∀j < i,scan.ends repetition segments
        ((StringView.ofProcess s flat : StringView width).element j)=false := by
      intro j hj
      exact hfirst.before j (by show j+1<scan.compares repetition segments width s flat; omega)
    obtain ⟨u,hleaves,hu⟩ := leaves_of_ends env h hs hloaded hview hle
      (fun j hj => hmapped j (by omega)) hgoes hend
    refine ⟨i,u,hleaves,.inr hk.symm,hk ▸ compared_of_shows hle hu,?_⟩
    intro hzero
    rw [hzero] at hle
    exact absurd hle (by simp)
  · have hall : scan.compares repetition segments width s flat=s.currentThread.ecx.toNat := by
      by_contra hne
      exact hends (hfirst.last (hle.lt_of_ne hne))
    have hgoes : ∀i<s.currentThread.ecx.toNat,scan.ends repetition segments
        ((StringView.ofProcess s flat : StringView width).element i)=false := by
      intro i hi
      rcases Nat.lt_or_eq_of_le (Nat.succ_le_of_lt hi) with hlt | hlast
      · exact hfirst.before i (by show i+1<scan.compares repetition segments width s flat; omega)
      · exact Bool.eq_false_iff.mpr fun hend => hends ⟨i,hall.trans hlast.symm,hend⟩
    rw [hall] at hmapped
    obtain ⟨t,hleaves,hturns,ht⟩ := leaves_of_counter env h hs hloaded hview hmapped hgoes
    refine ⟨_,_,hleaves,.inl hall.symm,?_,?_⟩
    · have hcounted := ht.count
      rw [afterTurns,StringView.withCounters_withCounters] at hcounted
      rw [hall]
      exact compared_of_shows le_rfl hcounted
    · intro hzero
      have hcount : (StringView.ofProcess s flat : StringView width).ecx.toNat=0 := by
        show s.currentThread.ecx.toNat=0
        rw [hzero]
        rfl
      rw [hcount] at hturns
      cases hturns
      rfl

def repneScasb : DISASM :=
  { (default : DISASM) with
    Instruction := { (default : INSTRTYPE) with
      Category := GENERAL_PURPOSE_INSTRUCTION,Opcode := 0xae }
    Argument1 := { (default : ARGTYPE) with ArgType := REGISTER_TYPE+GENERAL_REG+REG0,ArgSize := 8 }
    Argument2 := destinationOperand
    Prefix := { (default : PREFIXINFO) with Number := 1,RepnePrefix := 1 } }

theorem rep_scans_scasb : ∃(s u : FEProcess Unit) (n : ℕ),Leaves (.bare .debug) s n u ∧ n ≤ 2 ∧
    u.currentThread.ecx.toNat<2 := by
  obtain ⟨m,flat,hflat,hblock⟩ := page_mapped
  let thread := stringThread [] [2] [] [0,0,0x40]
  let s := stringProcess m repneScasb thread
  have hdecoded : Decoded Unit scas .repne ⟨⟨.kDS,0⟩,⟨.kES,0⟩⟩ .k8bit repneScasb :=
    ⟨(by decide : GENERAL_PURPOSE_INSTRUCTION&&&GENERAL_PURPOSE_INSTRUCTION≠0),rfl,
      ⟨by decide,by decide,.inl rfl⟩,by decide,.accumulator rfl rfl rfl,destinationOperand_decoded⟩
  have hecx : s.currentThread.ecx.toNat=2 := (by decide +kernel : thread.ecx.toNat=2)
  have hle : scas.compares .repne ⟨⟨.kDS,0⟩,⟨.kES,0⟩⟩ .k8bit s flat ≤ s.currentThread.ecx.toNat :=
    (firstStop_stopIndex _ _).le
  have hmapped : ∀i<scas.compares .repne ⟨⟨.kDS,0⟩,⟨.kES,0⟩⟩ .k8bit s flat,
      scas.Mapped ⟨⟨.kDS,0⟩,⟨.kES,0⟩⟩ s.memory.map
        ((StringView.ofProcess s flat : StringView .k8bit).element i) := by
    intro i hi
    have hi : i<2 := hecx ▸ hi.trans_le hle
    have hedi : s.currentThread.edi=0x400000 := (by decide +kernel : thread.edi=0x400000)
    have hup : s.currentThread.cpuFlags.DF=0 := rfl
    simp only [Mapped,StringView.element,StringView.ofProcess,displaced,hedi,hup]
    interval_cases i <;> exact ⟨_,hblock,by decide,by decide⟩
  obtain ⟨hfirst,n,u,hleaves,hturns,hcompared,_⟩ := rep_scans (.bare .debug) hdecoded (s:=s)
    ⟨rfl,rfl,(by decide +kernel : repneScasb.VirtualAddr=thread.eip.setWidth 64)⟩ rfl hflat hmapped
  have hpos : 0<scas.compares .repne ⟨⟨.kDS,0⟩,⟨.kES,0⟩⟩ .k8bit s flat := by
    by_contra hnone
    obtain ⟨i,hi,_⟩ := hfirst.last (by omega)
    omega
  refine ⟨s,u,n,hleaves,by omega,?_⟩
  have hcounted := hcompared.ecx
  omega

end Runs
end Scan
end FalloutEmu.Scans
