import FalloutEmu.CarryFlag
import FalloutEmu.ConditionCodes
import FalloutEmu.LongArithmetic
import FalloutEmu.Repetition
import FalloutEmu.StoredOperands

/-! # Sums and differences of several limbs -/
namespace FalloutEmu.CarryChains
open Emulator LongArithmetic
open ConditionCodes (status_withHostFlags)
open Repetition (counted iteration_execute iteration_jump)
open X86 (BinaryInstruction StatusFlags)

/-- The instructions that make one limb of a sum or a difference. -/
inductive LimbInstruction where
  | add
  | adc
  | sub
  | sbb
  deriving DecidableEq,Repr

namespace LimbInstruction

def operation : LimbInstruction→Operation
  | add | adc => .addition
  | sub | sbb => .subtraction

def host : LimbInstruction→BinaryInstruction
  | add => X86.add
  | adc => X86.adc
  | sub => X86.sub
  | sbb => X86.sbb

def carryIn (carry : ℕ) : LimbInstruction→ℕ
  | add | sub => 0
  | adc | sbb => carry

def opcodes : LimbInstruction→List U32
  | add => [0x00,0x01,0x02,0x03,0x04,0x05]
  | adc => [0x10,0x11,0x12,0x13,0x14,0x15]
  | sub => [0x28,0x29,0x2a,0x2b,0x2c,0x2d]
  | sbb => [0x18,0x19,0x1a,0x1b,0x1c,0x1d]

/-- The register field that selects the instruction in group 1. -/
def regopcode : LimbInstruction→U32
  | add => 0
  | adc => 2
  | sub => 5
  | sbb => 3

end LimbInstruction

section Host
variable {w : ℕ} (a b : BitVec w) (flags undefined : StatusFlags)

theorem adc_digit :
    Operation.addition.Digit (2^w)
    ⟨a.toNat,b.toNat,(X86.adc a b flags undefined).1.toNat⟩ flags.CF.toNat
      (X86.adc a b flags undefined).2.CF.toNat := by
  have ha := a.isLt
  have hb := b.isLt
  have hc : flags.CF.toNat ≤ 1 := Bool.toNat_le _
  have hr : (a+b+BitVec.ofNat w flags.CF.toNat).toNat=(a.toNat+b.toNat+flags.CF.toNat)%2^w := by
    simp [BitVec.toNat_add]
  show (a+b+BitVec.ofNat w flags.CF.toNat).toNat+2^w*(decide
    (2^w ≤ a.toNat+b.toNat+flags.CF.toNat)).toNat=
    a.toNat+b.toNat+flags.CF.toNat
  rw [hr]
  by_cases hcarry : 2^w ≤ a.toNat+b.toNat+flags.CF.toNat
  · rw [decide_eq_true hcarry,Nat.mod_eq_sub_mod hcarry,Nat.mod_eq_of_lt (by omega)]
    simp only [Bool.toNat_true]
    omega
  · rw [decide_eq_false hcarry,Nat.mod_eq_of_lt (by omega)]
    simp

/-- A word is the sum, modulo the base, of what is subtracted from it and of the difference. -/
theorem difference_digit {r c : ℕ} (hr : r<2^w) (hc : c ≤ 1) (h : (r+b.toNat+c)%2^w=a.toNat) :
    Operation.subtraction.Digit (2^w) ⟨a.toNat,b.toNat,r⟩ c (decide (a.toNat<b.toNat+c)).toNat := by
  have hb := b.isLt
  show r+b.toNat+c=a.toNat+2^w*(decide (a.toNat<b.toNat+c)).toNat
  by_cases hwrap : 2^w ≤ r+b.toNat+c
  · rw [Nat.mod_eq_sub_mod hwrap,Nat.mod_eq_of_lt (by omega)] at h
    rw [decide_eq_true (by omega)]
    simp only [Bool.toNat_true]
    omega
  · rw [Nat.mod_eq_of_lt (by omega)] at h
    rw [decide_eq_false (by omega)]
    simp only [Bool.toNat_false]
    omega

theorem sbb_digit :
    Operation.subtraction.Digit (2^w)
    ⟨a.toNat,b.toNat,(X86.sbb a b flags undefined).1.toNat⟩ flags.CF.toNat
      (X86.sbb a b flags undefined).2.CF.toNat := by
  have hback : (X86.sbb a b flags undefined).1+b+BitVec.ofNat w flags.CF.toNat=a := by
    show a-b-BitVec.ofNat w flags.CF.toNat+b+BitVec.ofNat w flags.CF.toNat=a
    rw [BitVec.add_assoc,BitVec.add_comm b,←BitVec.add_assoc,BitVec.sub_add_cancel,
      BitVec.sub_add_cancel]
  apply difference_digit a b (BitVec.isLt _) (Bool.toNat_le _)
  have hnat := congrArg BitVec.toNat hback
  simpa only [BitVec.toNat_add,BitVec.toNat_ofNat,Nat.mod_add_mod,Nat.add_mod_mod] using hnat

theorem sub_digit :
    Operation.subtraction.Digit (2^w) ⟨a.toNat,b.toNat,(X86.sub a b flags undefined).1.toNat⟩ 0
      (X86.sub a b flags undefined).2.CF.toNat := by
  apply difference_digit a b (BitVec.isLt _) (Nat.zero_le 1)
  rw [Nat.add_zero,←BitVec.toNat_add]
  exact congrArg BitVec.toNat (BitVec.sub_add_cancel a b)

/-- One limb, by the definition of the host instruction. -/
theorem LimbInstruction.digit (instruction : LimbInstruction) :
    instruction.operation.Digit (2^w)
    ⟨a.toNat,b.toNat,(instruction.host a b flags undefined).1.toNat⟩
      (instruction.carryIn flags.CF.toNat) (instruction.host a b flags undefined).2.CF.toNat := by
  cases instruction with
  | add => exact adc_digit a b { flags with CF := false } undefined
  | adc => exact adc_digit a b flags undefined
  | sub => exact sub_digit a b flags undefined
  | sbb => exact sbb_digit a b flags undefined

end Host

section Instructions
variable {F : Type} {env : Environment F} {s t u : FEProcess F} {op : DISASM} {width : FEBitWidth}
  {instruction : LimbInstruction}

/-- The instruction as the decoder describes it, under one of its own opcodes or in group 1. -/
structure Decoded (instruction : LimbInstruction) (width : FEBitWidth) (op : DISASM) : Prop where
  category : op.Instruction.Category&&&GENERAL_PURPOSE_INSTRUCTION≠0
  opcode : op.Instruction.Opcode∈instruction.opcodes ∨
    op.Instruction.Opcode∈([0x80,0x81,0x83] : List U32) ∧ op.Reserved_.REGOPCODE=
      instruction.regopcode
  destination : IsDestination op.Argument1 width

def secondOperand (op : DISASM) : Emulator F U32 :=
  if op.Instruction.Opcode=0x83 then do
    return ((← loadArg2 op).setWidth 8).signExtend 32
  else loadArg2 op

def carry (s : FEProcess F) : ℕ := s.currentThread.cpuFlags.CF.toNat

/-- What the instruction has done when it returns: it has loaded its operands, and has stored what
`fe_threadContext_add` and its kin return of them. -/
structure Stores (env : Environment F) (instruction : LimbInstruction) (width : FEBitWidth)
    (op : DISASM) (s : FEProcess F) (a b : U32) (t : FEProcess F) : Prop where
  first : loadArg1 op env s=.ok (a,s)
  second : secondOperand op env s=.ok (b,s)
  stored :
    let result := s.currentThread.binary instruction.host (env.undefinedFlags s.instructionCounter)
      a b width
    storeValueInArg op.Argument1 result.1 env { s with currentThread := result.2 }=.ok ((),t)

theorem select_opcodes (instruction : LimbInstruction) : ∀opcode∈instruction.opcodes,
    opcode≠0x83 ∧ select (generalBranches (F:=F)) opcode=
      some (binaryInstruction instruction.host) := by
  cases instruction <;>
    simp only [LimbInstruction.opcodes,List.forall_mem_cons] <;>
      exact ⟨⟨by decide,rfl⟩,⟨by decide,rfl⟩,⟨by decide,rfl⟩,⟨by decide,rfl⟩,⟨by decide,rfl⟩,
        ⟨by decide,rfl⟩,
        by simp⟩

theorem group1_regopcode (instruction : LimbInstruction) :
    group1 instruction.regopcode=some (@LimbInstruction.host instruction) := by
  cases instruction <;> rfl

theorem loadArgValue_state {arg : ARGTYPE} {immediat v : U32}
    (h : loadArgValue arg immediat env s=.ok (v,u)) : s=u :=
  loadArgValue_within (R:=Eq) arg immediat env s v u h

/-- The statements behind the loads of the operands. -/
theorem stored_of_run {a b : U32} {flow : Flow}
    (h : (do
      let result ← binary instruction.host a b width
      storeValueInArg op.Argument1 result
      return .jumpToNextInstr : Emulator F Flow) env s=.ok (flow,t)) :
    flow=.jumpToNextInstr ∧
      let result := s.currentThread.binary instruction.host (env.undefinedFlags
        s.instructionCounter) a b width
      storeValueInArg op.Argument1 result.1 env { s with currentThread := result.2 }=
        .ok ((),t) := by
  obtain ⟨_,v,hbinary,h⟩ := Exec.bind_eq_ok.mp h
  cases hbinary
  obtain ⟨_,w,hstore,h⟩ := Exec.bind_eq_ok.mp h
  cases h
  exact ⟨rfl,hstore⟩

theorem binaryInstruction_stores {flow : Flow} (hsize : op.Argument1.ArgSize=width.argSize)
    (hsecond : secondOperand op=(loadArg2 op : Emulator F U32))
    (h : binaryInstruction instruction.host op env s=.ok (flow,t)) :
    flow=.jumpToNextInstr ∧ ∃a b,Stores env instruction width op s a b t := by
  obtain ⟨_,u₁,h₁,h⟩ := Exec.bind_eq_ok.mp h
  obtain rfl := assert_within (R:=Eq) _ env s () u₁ h₁
  obtain ⟨a,u₂,h₂,h⟩ := Exec.bind_eq_ok.mp h
  obtain rfl := loadArgValue_state h₂
  obtain ⟨b,u₃,h₃,h⟩ := Exec.bind_eq_ok.mp h
  obtain rfl := loadArgValue_state h₃
  rw [hsize,Exec.bind_run (bitWidth_run width)] at h
  obtain ⟨hflow,hstored⟩ := stored_of_run h
  exact ⟨hflow,a,b,h₂,hsecond ▸ h₃,hstored⟩

theorem instruction8081_stores {flow : Flow} (hsize : op.Argument1.ArgSize=width.argSize)
    (hregister : op.Reserved_.REGOPCODE=instruction.regopcode)
    (hsecond : secondOperand op=(loadArg2 op : Emulator F U32))
    (h : instruction8081 op env s=.ok (flow,t)) :
    flow=.jumpToNextInstr ∧ ∃a b,Stores env instruction width op s a b t := by
  obtain ⟨_,u₁,h₁,h⟩ := Exec.bind_eq_ok.mp h
  obtain rfl := assert_within (R:=Eq) _ env s () u₁ h₁
  rw [hsize,Exec.bind_run (bitWidth_run width)] at h
  obtain ⟨a,u₂,h₂,h⟩ := Exec.bind_eq_ok.mp h
  obtain rfl := loadArgValue_state h₂
  obtain ⟨b,u₃,h₃,h⟩ := Exec.bind_eq_ok.mp h
  obtain rfl := loadArgValue_state h₃
  rw [hregister,group1_regopcode] at h
  obtain ⟨hflow,hstored⟩ := stored_of_run h
  exact ⟨hflow,a,b,h₂,hsecond ▸ h₃,hstored⟩

theorem instruction83_stores {flow : Flow} (hsize : op.Argument1.ArgSize=width.argSize)
    (hregister : op.Reserved_.REGOPCODE=instruction.regopcode)
    (hopcode : op.Instruction.Opcode=0x83) (h : instruction83 op env s=.ok (flow,t)) :
    flow=.jumpToNextInstr ∧ ∃a b,Stores env instruction width op s a b t := by
  obtain ⟨_,u₁,h₁,h⟩ := Exec.bind_eq_ok.mp h
  obtain rfl := assert_within (R:=Eq) _ env s () u₁ h₁
  obtain ⟨_,u₂,h₂,h⟩ := Exec.bind_eq_ok.mp h
  obtain rfl := assert_within (R:=Eq) _ env s () u₂ h₂
  rw [hsize,Exec.bind_run (bitWidth_run width)] at h
  obtain ⟨a,u₃,h₃,h⟩ := Exec.bind_eq_ok.mp h
  obtain rfl := loadArgValue_state h₃
  obtain ⟨b,u₄,h₄,h⟩ := Exec.bind_eq_ok.mp h
  obtain rfl := loadArgValue_state h₄
  simp only [hregister,group1_regopcode] at h
  obtain ⟨hflow,hstored⟩ := stored_of_run h
  have hsecond : secondOperand op env s=.ok ((b.setWidth 8).signExtend 32,s) := by
    rw [secondOperand,if_pos hopcode,Exec.bind_run h₄]
    rfl
  exact ⟨hflow,a,_,h₃,hsecond,hstored⟩

theorem Decoded.stores {flow : Flow} (hop : Decoded instruction width op)
    (h : execute op env s=.ok (flow,t)) :
    flow=.jumpToNextInstr ∧ ∃a b,Stores env instruction width op s a b t := by
  obtain ⟨hcategory,hopcode | ⟨hopcode,hregister⟩,⟨hsize,_⟩⟩ := hop
  · obtain ⟨hne,hselect⟩ := select_opcodes (F:=F) instruction _ hopcode
    rw [execute_of_opcode hcategory rfl hselect] at h
    exact binaryInstruction_stores hsize (if_neg hne) h
  · simp only [List.mem_cons,List.not_mem_nil,or_false] at hopcode
    rcases hopcode with hopcode | hopcode | hopcode
    · have hselect : select (generalBranches (F:=F)) 0x80=some instruction8081 := rfl
      rw [execute_of_opcode hcategory hopcode hselect] at h
      exact instruction8081_stores hsize hregister (if_neg (by rw [hopcode]; decide)) h
    · have hselect : select (generalBranches (F:=F)) 0x81=some instruction8081 := rfl
      rw [execute_of_opcode hcategory hopcode hselect] at h
      exact instruction8081_stores hsize hregister (if_neg (by rw [hopcode]; decide)) h
    · have hselect : select (generalBranches (F:=F)) 0x83=some instruction83 := rfl
      rw [execute_of_opcode hcategory hopcode hselect] at h
      exact instruction83_stores hsize hregister hopcode h

end Instructions

section Limbs
variable {F : Type} {env : Environment F} {s t : FEProcess F} {op : DISASM} {width : FEBitWidth}
  {instruction : LimbInstruction} {a b r : U32}

/-- The digits of one limb, of which the arguments and results of the emulator's functions are the
low bits. -/
def limb (width : FEBitWidth) (a b r : U32) : Place ℕ :=
  Place.map (fun v => (v.setWidth width.bits).toNat) ⟨a,b,r⟩

theorem toNat_getLsbD (x : BitVec 1) : (x.getLsbD 0).toNat=x.toNat := by
  revert x
  decide

/-- The functions of all widths are one instruction on the low bits. -/
theorem binary_eq_withHostFlags (instruction : BinaryInstruction) (thread : FEThreadContext F)
    (undefined : StatusFlags) (a b : U32) (width : FEBitWidth) :
    let result := thread.withHostFlags fun flags =>
      instruction (a.setWidth width.bits) (b.setWidth width.bits) flags undefined
    thread.binary instruction undefined a b width=(result.1.setWidth 32,result.2) := by
  cases width with
  | k8bit | k16bit => rfl
  | k32bit =>
    have ha : a.setWidth FEBitWidth.k32bit.bits=a := BitVec.setWidth_eq a
    have hb : b.setWidth FEBitWidth.k32bit.bits=b := BitVec.setWidth_eq b
    rw [ha,hb]
    exact Prod.ext (BitVec.setWidth_eq _).symm rfl

/-- It sees the guest's flags and leaves its own to the guest. -/
theorem binary_host (instruction : BinaryInstruction) (thread : FEThreadContext F)
    (undefined : StatusFlags) (a b : U32) (width : FEBitWidth) :
    let result := thread.binary instruction undefined a b width
    let host := instruction (a.setWidth width.bits)
      (b.setWidth width.bits) thread.cpuFlags.status undefined
    result.1.setWidth width.bits=host.1 ∧ result.2.cpuFlags.status=host.2 := by
  intro result host
  let call (flags : StatusFlags) := instruction (a.setWidth width.bits)
    (b.setWidth width.bits) flags undefined
  have hresult : result=((thread.withHostFlags call).1.setWidth 32,(thread.withHostFlags call).2) :=
    binary_eq_withHostFlags instruction thread undefined a b width
  have hfirst : (thread.withHostFlags call).1=host.1 := thread.fst_withHostFlags call
  have hstatus : (thread.withHostFlags call).2.cpuFlags.status=host.2 :=
    status_withHostFlags thread call
  rw [hresult]
  exact ⟨(FEBitWidth.setWidth_back _).trans hfirst,hstatus⟩

theorem binary_digit (instruction : LimbInstruction) (thread : FEThreadContext F)
    (undefined : StatusFlags) (a b : U32) (width : FEBitWidth) :
    let result := thread.binary instruction.host undefined a b width
    instruction.operation.Digit (2^width.bits) (limb width a b result.1)
      (instruction.carryIn thread.cpuFlags.CF.toNat) result.2.cpuFlags.CF.toNat := by
  intro result
  have hdigit := LimbInstruction.digit (a.setWidth width.bits)
    (b.setWidth width.bits) thread.cpuFlags.status
    undefined instruction
  obtain ⟨hfirst,hstatus⟩ := binary_host instruction.host thread undefined a b width
  have hcarry : result.2.cpuFlags.status.CF.toNat=result.2.cpuFlags.CF.toNat := toNat_getLsbD _
  rw [←hfirst,←hstatus,hcarry] at hdigit
  rwa [←toNat_getLsbD thread.cpuFlags.CF]

theorem carry_of_sameCF (h : SameCF s t) : carry t=carry s := congrArg BitVec.toNat h

/-- The destination then holds the digit, and `CF` the carry. -/
theorem Stores.digit (hop : Decoded instruction width op)
    (h : Stores env instruction width op s a b t) :
    ∃r,loadArg1 op env t=.ok (r,t) ∧
      instruction.operation.Digit (2^width.bits) (limb width a b r) (instruction.carryIn (carry s))
      (carry t) := by
  have hdigit := binary_digit instruction s.currentThread (env.undefinedFlags s.instructionCounter)
    a b width
  have hread := storeValueInArg_reads_back hop.destination h.stored
    (op.Instruction.Immediat.setWidth 32)
  have hcarry := carry_of_sameCF (storeValueInArg_within _ _ env _ () t h.stored)
  refine ⟨_,hread,?_⟩
  rw [hcarry,limb,Place.map]
  simp only [FEBitWidth.setWidth_back]
  exact hdigit

end Limbs

section Turns
variable {F : Type} {env : Environment F} {s t u : FEProcess F} {op : DISASM} {p : FEProcess F→Bool}

/-- A turn is the execution of its instruction, and the jump to the next one where that asks for
it. -/
theorem execute_of_turn (hop : s.op.deref s.memory s.dummyOp=.ok op) (hturn : Turn env s t) :
    ∃flow u,execute op env (counted s)=.ok (flow,u) ∧
      (match flow with
        | .continueLoop => pure ()
        | .jumpToNextInstr => jumpToNextInstr : Emulator F Unit) env u=.ok ((),t) :=
  Exec.bind_eq_ok.mp ((iteration_execute hop).symm.trans hturn.2)

/-- After an instruction that returns to the jump to the next one, the turn leaves `CF`. -/
theorem sameCF_of_turn (hop : s.op.deref s.memory s.dummyOp=.ok op)
    (hrun : execute op env (counted s)=.ok (.jumpToNextInstr,u))
    (hturn : Turn env s t) : SameCF u t :=
  jumpToNextInstr_sameCF env u () t ((iteration_jump hop hrun).symm.trans hturn.2)

/-- The loop makes a turn, and the process after it passes the test. -/
def afterTurn (env : Environment F) (p : FEProcess F→Bool) (s : FEProcess F) : Bool :=
  !s.exit && match iteration env s with
    | .ok (_,u) => p u
    | .error _ => false

theorem exists_turn (h : afterTurn env p s) : ∃u,Turn env s u ∧ p u := by
  obtain ⟨hexit,hp⟩ := Bool.and_eq_true_iff.mp h
  cases hiteration : iteration env s with
  | error stop => simp [hiteration] at hp
  | ok result =>
    rw [hiteration] at hp
    exact ⟨result.2,⟨by simpa using hexit,hiteration⟩,hp⟩

/-- The process passes the first test, the loop makes a turn, and so on. -/
def through (env : Environment F) : List (FEProcess F→Bool)→FEProcess F→Bool
  | [],_ => true
  | p::ps,s => p s && afterTurn env (through env ps) s

theorem exists_through {ps : List (FEProcess F→Bool)} (h : through env (p::ps) s) :
    p s ∧ ∃u,Turn env s u ∧ through env ps u := by
  obtain ⟨hp,hrest⟩ := Bool.and_eq_true_iff.mp h
  exact ⟨hp,exists_turn hrest⟩

def isAt (op : DISASM) (s : FEProcess F) : Bool := s.op.deref s.memory s.dummyOp=.ok op

end Turns

section Runs
variable {F : Type} {env : Environment F} {s s₀ t u : FEProcess F} {op : DISASM}
  {width : FEBitWidth}
  {instruction : LimbInstruction} {operation : Operation}

/-- What the guest executes: an instruction that makes a limb, or one that leaves `CF`. -/
inductive Event where
  | limb (instruction : LimbInstruction) (place : Place ℕ)
  | neutral

/-- A turn of the loop of `run` with what it executes. A limb has the two operands as they are
before the instruction and the destination as it is after it. -/
inductive Step (env : Environment F) (width : FEBitWidth) (s : FEProcess F) : Event→FEProcess F→Prop
  | limb {instruction : LimbInstruction} {op : DISASM} {a b r : U32} {u t : FEProcess F}
      (hop : s.op.deref s.memory s.dummyOp=.ok op) (hdecoded : Decoded instruction width op)
      (ha : loadArg1 op env (counted s)=.ok (a,counted s))
      (hb : secondOperand op env (counted s)=.ok (b,counted s))
      (hrun : execute op env (counted s)=.ok (.jumpToNextInstr,u))
        (hr : loadArg1 op env u=.ok (r,u))
      (hturn : Turn env s t) : Step env width s (.limb instruction (CarryChains.limb width a b r)) t
  | neutral {op : DISASM} {t : FEProcess F} (hop : s.op.deref s.memory s.dummyOp=.ok op)
      (hneutral : IsNeutral op) (hturn : Turn env s t) : Step env width s .neutral t

/-- Every turn that executes such an instruction is a limb: its operands and its destination can be
read. -/
theorem Step.of_turn (hop : s.op.deref s.memory s.dummyOp=.ok op)
    (hdecoded : Decoded instruction width op) (hturn : Turn env s t) :
    ∃place,Step env width s (.limb instruction place) t := by
  obtain ⟨flow,u,hexecute,_⟩ := execute_of_turn hop hturn
  obtain ⟨rfl,a,b,hstores⟩ := hdecoded.stores hexecute
  obtain ⟨r,hr,_⟩ := hstores.digit hdecoded
  exact ⟨_,.limb hop hdecoded hstores.first hstores.second hexecute hr hturn⟩

theorem Step.digit {place : Place ℕ} (h : Step env width s (.limb instruction place) t) :
    instruction.operation.Digit (2^width.bits) place (instruction.carryIn (carry s)) (carry t) ∧
      place.r<2^width.bits := by
  cases h with
  | limb hop hdecoded ha hb hrun hr hturn =>
    obtain ⟨_,a,b,hstores⟩ := hdecoded.stores hrun
    cases ha.symm.trans hstores.first
    cases hb.symm.trans hstores.second
    obtain ⟨r,hload,hdigit⟩ := hstores.digit hdecoded
    cases hr.symm.trans hload
    rw [carry_of_sameCF (sameCF_of_turn hop hrun hturn)]
    exact ⟨hdigit,BitVec.isLt _⟩

theorem Step.sameCF (himports : ImportsLeaveCF env)
    (h : Step env width s .neutral t) : SameCF s t := by
  cases h with
  | neutral hop hneutral hturn =>
    obtain ⟨flow,u,hexecute,hrest⟩ := execute_of_turn hop hturn
    have hsame : SameCF s u := execute_leavesCF himports hneutral (counted s) flow u hexecute
    cases flow with
    | continueLoop =>
      cases hrest
      exact hsame
    | jumpToNextInstr => exact trans_of SameCF hsame (jumpToNextInstr_sameCF env u () t hrest)

def limbs (events : List Event) : List (LimbInstruction×Place ℕ) :=
  events.filterMap fun
    | .limb instruction place => some (instruction,place)
    | .neutral => none

def firstInstruction : Operation→LimbInstruction
  | .addition => .add
  | .subtraction => .sub

def laterInstruction : Operation→LimbInstruction
  | .addition => .adc
  | .subtraction => .sbb

def chain (operation : Operation) : ℕ→List LimbInstruction
  | 0 => []
  | n+1 => firstInstruction operation::List.replicate n (laterInstruction operation)

theorem chain_succ (operation : Operation) (n : ℕ) :
    chain operation (n+1)=
      chain operation n++[if n=0 then firstInstruction operation
        else laterInstruction operation] := by
  cases n with
  | zero => rfl
  | succ n => simp [chain,List.replicate_succ']

theorem length_chain (operation : Operation) (n : ℕ) : (chain operation n).length=n := by
  cases n with
  | zero => rfl
  | succ n => simp [chain]

/-- The limbs so far, and the carry between them and the next one. -/
structure Summed (operation : Operation) (width : FEBitWidth) (places : List (Place ℕ))
    (c : ℕ) : Prop where
  digit : operation.Digit ((2^width.bits)^places.length) (whole (2^width.bits) places) 0 c
  bound : ∀place∈places,place.r<2^width.bits

theorem Summed.nil (operation : Operation) (width : FEBitWidth) : Summed operation width [] 0 where
  digit := by cases operation <;> rfl
  bound := by simp

theorem Summed.snoc {places : List (Place ℕ)} {place : Place ℕ} {c c' : ℕ}
    (h : Summed operation width places c) (hdigit : operation.Digit (2^width.bits) place c c')
    (hbound : place.r<2^width.bits) :
    Summed operation width (places++[place]) c' where
  digit := Digit.snoc h.digit hdigit
  bound := by
    intro p hp
    rcases List.mem_append.mp hp with hp | hp
    · exact h.bound p hp
    · rw [List.mem_singleton.mp hp]
      exact hbound

theorem summed_run {events : List Event} (himports : ImportsLeaveCF env)
    (h : Runs (Step env width) s₀ events t) (n : ℕ)
    (hchain : (limbs events).map Prod.fst=chain operation n) :
    Summed operation width ((limbs events).map Prod.snd) (if n=0 then 0 else carry t) := by
  revert n
  refine h.history (I:=fun events t => ∀n,(limbs events).map Prod.fst=chain operation n→
    Summed operation width ((limbs events).map Prod.snd) (if n=0 then 0 else carry t)) ?_ ?_
  · intro n hchain
    have hn : n=0 := by
      have hlength := congrArg List.length hchain
      rw [length_chain] at hlength
      exact hlength.symm
    rw [if_pos hn]
    exact .nil operation width
  · intro events s event t ih hstep n hchain
    cases event with
    | neutral =>
      have hlimbs : limbs (events++[.neutral])=limbs events := by simp [limbs]
      rw [hlimbs] at hchain ⊢
      rw [carry_of_sameCF (Step.sameCF himports hstep)]
      exact ih n hchain
    | limb instruction place =>
      have hlimbs : limbs (events++[.limb instruction place])=
        limbs events++[(instruction,place)] := by simp [limbs]
      rw [hlimbs,List.map_append] at hchain ⊢
      cases n with
      | zero => simp [chain] at hchain
      | succ n =>
        rw [chain_succ] at hchain
        obtain ⟨hearlier,hlast⟩ := List.append_inj' hchain rfl
        have hinstruction : instruction=if n=0 then firstInstruction operation
          else laterInstruction operation := by
          simpa using hlast
        obtain ⟨hdigit,hbound⟩ := hstep.digit
        have hoperation : instruction.operation=operation := by
          rw [hinstruction]
          cases operation <;> split <;> rfl
        have hcarry : instruction.carryIn (carry s)=if n=0 then 0 else carry s := by
          rw [hinstruction]
          cases operation <;> split <;> rfl
        rw [hoperation,hcarry] at hdigit
        rw [if_neg n.succ_ne_zero]
        exact (ih n hearlier).snoc hdigit hbound

/-- A chain of any length over limbs of any width, with any instructions between that leave `CF` by
the definition of the architecture, makes the sum or the difference of the whole numbers and ends
with its carry or borrow. -/
theorem chain_exact {events : List Event} {n : ℕ} (himports : ImportsLeaveCF env)
    (h : Runs (Step env width) s₀ events t)
    (hchain : (limbs events).map Prod.fst=chain operation (n+1)) :
    operation.Exact ((2^width.bits)^(n+1)) (whole (2^width.bits) ((limbs events).map Prod.snd))
    (carry t) := by
  have hsummed := summed_run himports h (n+1) hchain
  rw [if_neg n.succ_ne_zero] at hsummed
  have hlength : ((limbs events).map Prod.snd).length=n+1 := by
    have hmap := congrArg List.length hchain
    rw [length_chain,List.length_map] at hmap
    rw [List.length_map,hmap]
  have hbase : 1<2^width.bits := Nat.one_lt_two_pow (by cases width <;> decide)
  have hc : carry t ≤ 1 := Nat.le_of_lt_succ (BitVec.isLt _)
  have hexact := exact_of_digits hbase hsummed.bound hc hsummed.digit
  rwa [hlength] at hexact

end Runs

section Example

def codeHost : ℕ→U8 := fun a => if a=0 then 0x04 else if a=2 then 0x41 else if a=3 then 0x14 else 0

def codeRecord (first : U8) (offset : ℕ) : DISASM :=
  { (default : DISASM) with
    EIP := offset
    VirtualAddr := BitVec.ofNat 64 offset
    Instruction := { (default : INSTRTYPE) with
      Category := GENERAL_PURPOSE_INSTRUCTION
      Opcode := first.setWidth 32
      Immediat := if first=0x04 then 0xff else 0 }
    Argument1 := { (default : ARGTYPE) with
      ArgType := REGISTER_TYPE+GENERAL_REG+(if first=0x41 then 2 else REG0)
      ArgSize := if first=0x41 then 32 else 8 }
    Argument2 := { (default : ARGTYPE) with ArgType := CONSTANT_TYPE,ArgSize := 8 } }

def codeEnvironment : Environment Unit :=
  { Environment.bare .debug with
    disasm := fun record host => (codeRecord (host record.EIP) record.EIP,if host record.EIP=0x41
      then 1 else 2) }

/-- A writable page of code in which the addition has just been fetched, with 2 in `AL`. -/
def codeStart : FEProcess Unit :=
  { FEProcess.withOperands [2] [] [] with
    memory := ⟨.ofBlocks [(⟨1,0,0x2000,0x2000,0,false,".text".toList⟩,.readWrite)],codeHost⟩
    dummyOp := codeRecord 0x04 0
    len := 2 }

theorem codeRecord_add : Decoded .add .k8bit (codeRecord 0x04 0) :=
  ⟨by decide,.inl (by decide),rfl,.inl ⟨by decide,by decide⟩⟩

theorem codeRecord_adc : Decoded .adc .k8bit (codeRecord 0x14 3) :=
  ⟨by decide,.inl (by decide),rfl,.inl ⟨by decide,by decide⟩⟩

theorem codeRecord_inc : IsNeutral (codeRecord 0x41 2) := ⟨by decide,.inl rfl⟩

/-- Three turns of the loop, each at its instruction. -/
theorem code_turns : ∃u₁ u₂ u₃ : FEProcess Unit,
    Turn codeEnvironment codeStart u₁ ∧ Turn codeEnvironment u₁ u₂ ∧ Turn codeEnvironment u₂ u₃ ∧
      u₁.op.deref u₁.memory u₁.dummyOp=.ok (codeRecord 0x41 2) ∧
      u₂.op.deref u₂.memory u₂.dummyOp=.ok (codeRecord 0x14 3) := by
  have hrun : through codeEnvironment
      [isAt (codeRecord 0x04 0),isAt (codeRecord 0x41 2),isAt (codeRecord 0x14 3)] codeStart := by
    decide +kernel
  obtain ⟨_,u₁,hturn₁,h⟩ := exists_through hrun
  obtain ⟨hop₁,u₂,hturn₂,h⟩ := exists_through h
  obtain ⟨hop₂,u₃,hturn₃,_⟩ := exists_through h
  exact ⟨u₁,u₂,u₃,hturn₁,hturn₂,hturn₃,of_decide_eq_true hop₁,of_decide_eq_true hop₂⟩

theorem chain_exact_two : ∃events t,Runs (Step codeEnvironment .k8bit) codeStart events t ∧
    (limbs events).map Prod.fst=[.add,.adc] ∧
      Operation.addition.Exact (256^2) (whole 256 ((limbs events).map Prod.snd)) (carry t) := by
  obtain ⟨u₁,u₂,u₃,hturn₁,hturn₂,hturn₃,hop₁,hop₂⟩ := code_turns
  obtain ⟨first,hfirst⟩ := Step.of_turn rfl codeRecord_add hturn₁
  obtain ⟨second,hsecond⟩ := Step.of_turn hop₂ codeRecord_adc hturn₃
  have hruns : Runs (Step codeEnvironment .k8bit) codeStart [.limb .add first,.neutral,
    .limb .adc second] u₃ :=
    .next (.next (.next .start hfirst) (.neutral hop₁ codeRecord_inc hturn₂)) hsecond
  have himports : ImportsLeaveCF codeEnvironment := by
    intro coordinates s argumentsSize t h
    cases h
  exact ⟨_,_,hruns,rfl,chain_exact himports hruns (n:=1) rfl⟩

end Example
end FalloutEmu.CarryChains
