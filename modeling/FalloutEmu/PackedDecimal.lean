import FalloutEmu.CarryChains

/-! # Packed decimal numbers of any length -/
namespace FalloutEmu.PackedDecimal
open Emulator LongArithmetic CarryChains
open Repetition (counted iteration_jump)
open X86 (StatusFlags)

section Digits

def IsPacked (byte : U8) : Prop := byte.toNat/16 ≤ 9 ∧ byte.toNat%16 ≤ 9

instance (byte : U8) : Decidable (IsPacked byte) :=
  inferInstanceAs (Decidable (byte.toNat/16 ≤ 9 ∧ byte.toNat%16 ≤ 9))

def decimal (byte : U8) : ℕ := byte.toNat/16*10+byte.toNat%16

/-- `AL` and `CF` as `daa` leaves them, from those before it and `AF`. -/
def daaResult (al : U8) (cf af : BitVec 1) : U8×BitVec 1 :=
  let adjusted := if al&&&0x0f>9 ∨ af=1 then al+6 else al
  if al>0x99 ∨ cf=1 then (adjusted+0x60,1) else (adjusted,0)

/-- `AL` and `CF` as `das` leaves them; without a correction of the high digit the borrow of the low
one stays. -/
def dasResult (al : U8) (cf af : BitVec 1) : U8×BitVec 1 :=
  let low := al&&&0x0f>9 ∨ af=1
  let adjusted := if low then al-6 else al
  if al>0x99 ∨ cf=1 then (adjusted-0x60,1)
  else (adjusted,if low then .ofBool (cf≠0 ∨ al<6) else 0)

theorem decimal_lt {byte : U8} (h : IsPacked byte) : decimal byte<100 := by
  obtain ⟨hhigh,hlow⟩ := h
  rw [decimal]
  omega

theorem and_fifteen_gt (x : U8) : x&&&0x0f>9 ↔ 9<x.toNat%16 := by
  have hand : (x&&&0x0f).toNat=x.toNat%16 := by
    rw [BitVec.toNat_and]
    exact Nat.and_two_pow_sub_one_eq_mod x.toNat 4
  rw [gt_iff_lt,BitVec.lt_def,hand]
  rfl

/-- Which digits are corrected, on the number of `AL`. -/
theorem daaResult_toNat (al : U8) (cf af : Bool) :
    let result := daaResult al (.ofBool cf) (.ofBool af)
    result.1.toNat=(al.toNat+(if 9<al.toNat%16 ∨ af then 6 else 0)+(if 153<al.toNat ∨ cf then 96
      else 0))%256 ∧
      result.2.toNat=if 153<al.toNat ∨ cf then 1 else 0 := by
  have hlt : al.toNat<256 := al.isLt
  have hhigh : al>0x99 ↔ 153<al.toNat := BitVec.lt_def
  simp only [daaResult,and_fifteen_gt,hhigh,ofBool_eq_one]
  by_cases hlow : 9<al.toNat%16 ∨ af=true <;> by_cases hcarry : 153<al.toNat ∨ cf=true <;>
    simp [hlow,hcarry,BitVec.toNat_add,Nat.mod_eq_of_lt hlt]

theorem dasResult_toNat (al : U8) (cf af : Bool) :
    let result := dasResult al (.ofBool cf) (.ofBool af)
    result.1.toNat=
        (al.toNat+(if 9<al.toNat%16 ∨ af then 250 else 0)+(if 153<al.toNat ∨ cf then 160
          else 0))%256 ∧
      result.2.toNat=if (153<al.toNat ∨ cf) ∨ (9<al.toNat%16 ∨ af) ∧ al.toNat<6 then 1 else 0 := by
  have hlt : al.toNat<256 := al.isLt
  have hhigh : al>0x99 ↔ 153<al.toNat := BitVec.lt_def
  have hborrow : al<6 ↔ al.toNat<6 := BitVec.lt_def
  have hsix : al-6=al+250 := BitVec.sub_eq_add_neg al 6
  have hsixty (x : U8) : x-0x60=x+160 := BitVec.sub_eq_add_neg x 0x60
  simp only [dasResult,and_fifteen_gt,hhigh,hborrow,ofBool_eq_one,hsix,hsixty]
  by_cases hlow : 9<al.toNat%16 ∨ af=true <;> by_cases hcarry : 153<al.toNat ∨ cf=true
  · simp [hlow,hcarry,BitVec.toNat_add]
  · obtain ⟨hal,hcf⟩ := not_or.mp hcarry
    by_cases hsmall : al.toNat<6 <;> simp [hlow,hal,hcf,hsmall,BitVec.toNat_add]
  · simp [hlow,hcarry,BitVec.toNat_add]
  · simp [hlow,hcarry,Nat.mod_eq_of_lt hlt]

end Digits

section Adjustment
variable {a b : U8} (flags undefined : StatusFlags)

/-- After `ADC` of two packed bytes `daa` leaves the packed sum and the decimal carry. -/
theorem daa_digit (ha : IsPacked a) (hb : IsPacked b) :
    let sum := X86.adc a b flags undefined
    let result := daaResult sum.1 (.ofBool sum.2.CF) (.ofBool sum.2.AF)
    IsPacked result.1 ∧
      Operation.addition.Digit 100 ⟨decimal a,decimal b,decimal result.1⟩ flags.CF.toNat
        result.2.toNat := by
  intro sum result
  have hc : flags.CF.toNat ≤ 1 := Bool.toNat_le _
  have hsum : sum.1.toNat=(a.toNat+b.toNat+flags.CF.toNat)%256 := by
    simp [sum,X86.adc,BitVec.toNat_add]
  have hcarry : sum.2.CF=true ↔ 256 ≤ a.toNat+b.toNat+flags.CF.toNat := by
    simp [sum,X86.adc,StatusFlags.ofResult]
  have hadjust : sum.2.AF=true ↔ 16 ≤ a.toNat%16+b.toNat%16+flags.CF.toNat := by
    simp [sum,X86.adc,StatusFlags.ofResult]
  obtain ⟨hresult,hout⟩ : result.1.toNat=_ ∧ result.2.toNat=_ :=
    daaResult_toNat sum.1 sum.2.CF sum.2.AF
  simp only [hsum,hcarry,hadjust] at hresult hout
  obtain ⟨ha₁,ha₀⟩ := ha
  obtain ⟨hb₁,hb₀⟩ := hb
  simp only [IsPacked,Operation.Digit,decimal]
  generalize flags.CF.toNat=c at *
  by_cases hlow : 9<(a.toNat+b.toNat+c)%256%16 ∨ 16 ≤ a.toNat%16+b.toNat%16+c <;>
    by_cases hhigh : 153<(a.toNat+b.toNat+c)%256 ∨ 256 ≤ a.toNat+b.toNat+c <;>
      simp only [hlow,hhigh,if_true,if_false] at hresult hout <;> omega

theorem das_digit (ha : IsPacked a) (hb : IsPacked b) :
    let difference := X86.sbb a b flags undefined
    let result := dasResult difference.1 (.ofBool difference.2.CF) (.ofBool difference.2.AF)
    IsPacked result.1 ∧
      Operation.subtraction.Digit 100 ⟨decimal a,decimal b,decimal result.1⟩ flags.CF.toNat
        result.2.toNat := by
  intro difference result
  have hc : flags.CF.toNat ≤ 1 := Bool.toNat_le _
  have hdigit : difference.1.toNat+b.toNat+flags.CF.toNat=a.toNat+256*difference.2.CF.toNat :=
    sbb_digit a b flags undefined
  have hadjust : difference.2.AF=true ↔ a.toNat%16<b.toNat%16+flags.CF.toNat := by
    simp [difference,X86.sbb,StatusFlags.ofResult]
  obtain ⟨hresult,hout⟩ : result.1.toNat=_ ∧ result.2.toNat=_ :=
    dasResult_toNat difference.1 difference.2.CF difference.2.AF
  have hlt : difference.1.toNat<256 := difference.1.isLt
  have hcarry : difference.2.CF=true ↔ difference.2.CF.toNat=1 := by
    cases difference.2.CF <;> decide
  have hborrow : difference.2.CF.toNat ≤ 1 := Bool.toNat_le _
  simp only [hcarry,hadjust] at hresult hout
  obtain ⟨ha₁,ha₀⟩ := ha
  obtain ⟨hb₁,hb₀⟩ := hb
  simp only [IsPacked,Operation.Digit,decimal]
  generalize flags.CF.toNat=c at *
  generalize difference.1.toNat=x at *
  generalize difference.2.CF.toNat=c' at *
  by_cases hlow : 9<x%16 ∨ a.toNat%16<b.toNat%16+c <;> by_cases hhigh : 153<x ∨ c'=1
  · simp only [hlow,hhigh,if_true,true_or] at hresult hout
    omega
  · have hsmall : ¬x<6 := by omega
    simp only [hlow,hhigh,hsmall,if_true,if_false,false_or,and_false] at hresult hout
    omega
  · simp only [hlow,hhigh,if_true,if_false,true_or] at hresult hout
    omega
  · simp only [hlow,hhigh,if_false,false_or,false_and] at hresult hout
    omega

end Adjustment

section Handlers
variable {F : Type} {env : Environment F} {s t u : FEProcess F} {op : DISASM}

def al (s : FEProcess F) : U8 := s.currentThread.register8 .kAL

theorem al_setRegister8 (s : FEProcess F) (v : U8) :
    al (s.withThread (s.currentThread.setRegister8 .kAL v))=v :=
  FEThreadContext.read_write_self s.currentThread .kAL (show BitVec FEBitWidth.k8bit.bits from v)

theorem adjustLowDigit_run (env : Environment F) (s : FEProcess F) (corrected old_al : U8)
    (old_cf : BitVec 1) (carry : Bool) :
    ∃t,adjustLowDigit corrected old_al old_cf carry env s=.ok ((),t) ∧
      al t=(if old_al&&&0x0f>9 ∨ s.currentThread.cpuFlags.AF=1 then corrected else al s) ∧
      t.currentThread.cpuFlags.CF=if old_al&&&0x0f>9 ∨ s.currentThread.cpuFlags.AF=1 then
        .ofBool (old_cf≠0 ∨ carry) else s.currentThread.cpuFlags.CF := by
  have hlow : lowDigitAdjusts old_al env s=
      .ok (decide (old_al&&&0x0f>9 ∨ s.currentThread.cpuFlags.AF=1),s) := rfl
  by_cases h : old_al&&&0x0f>9 ∨ s.currentThread.cpuFlags.AF=1
  · rw [adjustLowDigit,Exec.bind_run hlow,if_pos (decide_eq_true h)]
    refine ⟨_,rfl,?_,?_⟩
    · rw [if_pos h]
      exact al_setRegister8 s corrected
    · rw [if_pos h]
  · rw [adjustLowDigit,Exec.bind_run hlow,if_neg fun hd => h (of_decide_eq_true hd)]
    refine ⟨_,rfl,?_,?_⟩
    · rw [if_neg h]
      rfl
    · rw [if_neg h]

theorem daa_run (env : Environment F) (s : FEProcess F) (op : DISASM) :
    ∃t,daa op env s=.ok (.jumpToNextInstr,t) ∧
      (al t,t.currentThread.cpuFlags.CF)=
        daaResult (al s) s.currentThread.cpuFlags.CF s.currentThread.cpuFlags.AF := by
  obtain ⟨t,hadjust,hal,-⟩ := adjustLowDigit_run env (s.withFlags { s.currentThread.cpuFlags with
    CF := 0 })
    (al s+6) (al s) s.currentThread.cpuFlags.CF (carryFor8 (al s) 6)
  have hrun : daa op env s=(do
      let al ← register8 .kAL
      (if s.currentThread.register8 .kAL>0x99 ∨ s.currentThread.cpuFlags.CF=1 then do
        setRegister8 .kAL (al+0x60)
        setFlags fun cpuFlags => { cpuFlags with CF := 1 }
      else setFlags fun cpuFlags => { cpuFlags with CF := 0 })
      setByteFlags (← register8 .kAL)
      return .jumpToNextInstr : Emulator F Flow) env t := Exec.bind_run hadjust
  rw [hrun,daaResult]
  by_cases hhigh : al s>0x99 ∨ s.currentThread.cpuFlags.CF=1
  · rw [if_pos hhigh]
    simp only [if_pos (show s.currentThread.register8 .kAL>0x99 ∨ s.currentThread.cpuFlags.CF=
      1 from hhigh)]
    exact ⟨_,rfl,Prod.ext ((al_setRegister8 t (al t+0x60)).trans (congrArg (·+0x60) hal)) rfl⟩
  · rw [if_neg hhigh]
    simp only [if_neg (show ¬(s.currentThread.register8 .kAL>0x99 ∨ s.currentThread.cpuFlags.CF=
      1) from hhigh)]
    exact ⟨_,rfl,Prod.ext hal rfl⟩

theorem das_run (env : Environment F) (s : FEProcess F) (op : DISASM) :
    ∃t,das op env s=.ok (.jumpToNextInstr,t) ∧
      (al t,t.currentThread.cpuFlags.CF)=
        dasResult (al s) s.currentThread.cpuFlags.CF s.currentThread.cpuFlags.AF := by
  obtain ⟨t,hadjust,hal,hcf⟩ := adjustLowDigit_run env (s.withFlags { s.currentThread.cpuFlags with
    CF := 0 })
    (al s-6) (al s) s.currentThread.cpuFlags.CF (al s<6)
  have hrun : das op env s=(do
      let al ← register8 .kAL
      (if s.currentThread.register8 .kAL>0x99 ∨ s.currentThread.cpuFlags.CF=1 then do
        setRegister8 .kAL (al-0x60)
        setFlags fun cpuFlags => { cpuFlags with CF := 1 }
      else pure ())
      setByteFlags (← register8 .kAL)
      return .jumpToNextInstr : Emulator F Flow) env t := Exec.bind_run hadjust
  rw [hrun,dasResult]
  by_cases hhigh : al s>0x99 ∨ s.currentThread.cpuFlags.CF=1
  · rw [if_pos hhigh]
    simp only [if_pos (show s.currentThread.register8 .kAL>0x99 ∨ s.currentThread.cpuFlags.CF=
      1 from hhigh)]
    exact ⟨_,rfl,Prod.ext ((al_setRegister8 t (al t-0x60)).trans (congrArg (·-0x60) hal)) rfl⟩
  · rw [if_neg hhigh]
    simp only [if_neg (show ¬(s.currentThread.register8 .kAL>0x99 ∨ s.currentThread.cpuFlags.CF=
      1) from hhigh)]
    refine ⟨_,rfl,Prod.ext hal (hcf.trans ?_)⟩
    simp [FEProcess.withFlags,FEProcess.withThread]

end Handlers

section Bytes
variable {F : Type} {env : Environment F} {s t u : FEProcess F} {op : DISASM}
  {operation : Operation} {b : U32}

def adjustOpcode : Operation→U32
  | .addition => 0x27
  | .subtraction => 0x2f

def adjusted : Operation→U8→BitVec 1→BitVec 1→U8×BitVec 1
  | .addition => daaResult
  | .subtraction => dasResult

structure IsAdjust (operation : Operation) (op : DISASM) : Prop where
  category : op.Instruction.Category&&&GENERAL_PURPOSE_INSTRUCTION≠0
  opcode : op.Instruction.Opcode=adjustOpcode operation

theorem adjust_run (h : IsAdjust operation op) (env : Environment F) (s : FEProcess F) :
    ∃t,execute op env s=.ok (.jumpToNextInstr,t) ∧
      (al t,t.currentThread.cpuFlags.CF)=
        adjusted operation (al s) s.currentThread.cpuFlags.CF s.currentThread.cpuFlags.AF := by
  cases operation with
  | addition =>
    have hbody : execute op=(daa op : Emulator F Flow) := execute_of_opcode h.category h.opcode rfl
    rw [hbody]
    exact daa_run env s op
  | subtraction =>
    have hbody : execute op=(das op : Emulator F Flow) := execute_of_opcode h.category h.opcode rfl
    rw [hbody]
    exact das_run env s op

theorem adjusted_digit (operation : Operation) {a b : U8} (flags undefined : StatusFlags)
    (ha : IsPacked a) (hb : IsPacked b) :
    let binary := (laterInstruction operation).host a b flags undefined
    let result := adjusted operation binary.1 (.ofBool binary.2.CF) (.ofBool binary.2.AF)
    IsPacked result.1 ∧
      operation.Digit 100 ⟨decimal a,decimal b,decimal result.1⟩ flags.CF.toNat result.2.toNat := by
  cases operation with
  | addition => exact daa_digit flags undefined ha hb
  | subtraction => exact das_digit flags undefined ha hb

/-- `ADC` or `SBB` on `AL`, as the decoder describes it. -/
structure IsBinary (F : Type) (operation : Operation) (op : DISASM) : Prop where
  decoded : Decoded (laterInstruction operation) .k8bit op
  destination : IsRegister F op.Argument1 .kAL .k8bit

/-- What the instruction leaves in `AL` and in the two flags that the adjustment reads. -/
theorem binary_run (hop : IsBinary F operation op) (hb : secondOperand op env s=.ok (b,s))
    {flow : Flow} (hrun : execute op env s=.ok (flow,t)) :
    flow=.jumpToNextInstr ∧ ∃undefined,
      let binary := (laterInstruction operation).host (al s) (b.setWidth 8)
        s.currentThread.cpuFlags.status undefined
      al t=binary.1 ∧ t.currentThread.cpuFlags.CF=.ofBool binary.2.CF ∧
        t.currentThread.cpuFlags.AF=.ofBool binary.2.AF := by
  obtain ⟨hflow,a,b',hstores⟩ := hop.decoded.stores hrun
  cases hb.symm.trans hstores.second
  cases (hop.destination.load _).symm.trans hstores.first
  cases (hop.destination.store _).symm.trans hstores.stored
  refine ⟨hflow,env.undefinedFlags s.instructionCounter,?_⟩
  intro binary
  obtain ⟨hfirst,hstatus⟩ := binary_host (laterInstruction operation).host s.currentThread
    (env.undefinedFlags s.instructionCounter) ((al s).setWidth 32) b .k8bit
  have hal : ((al s).setWidth 32).setWidth FEBitWidth.k8bit.bits=al s :=
    FEBitWidth.setWidth_back (show BitVec FEBitWidth.k8bit.bits from al s)
  rw [hal] at hfirst hstatus
  refine ⟨(FEThreadContext.read_write_self _ .kAL _).trans hfirst,?_,?_⟩
  · exact (ofBool_getLsbD _).symm.trans (congrArg (fun status => BitVec.ofBool status.CF) hstatus)
  · exact (ofBool_getLsbD _).symm.trans (congrArg (fun status => BitVec.ofBool status.AF) hstatus)

/-- The operation and then the adjustment make one place; between them `AL` and the flags stay. -/
theorem place_digit {v : FEProcess F} {adjust : DISASM} {flow flow' : Flow}
    (hop : IsBinary F operation op) (hb : secondOperand op env s=.ok (b,s))
    (hrun : execute op env s=.ok (flow,u)) (hal : al v=al u)
    (hflags : v.currentThread.cpuFlags=u.currentThread.cpuFlags)
    (hadjust : IsAdjust operation adjust) (hrun' : execute adjust env v=.ok (flow',t))
    (hpacked : IsPacked (al s)) (hpacked' : IsPacked (b.setWidth 8)) :
    IsPacked (al t) ∧
      operation.Digit 100 ⟨decimal (al s),decimal (b.setWidth 8),decimal (al t)⟩ (carry s)
      (carry t) := by
  -- the operation leaves its result and the flags that the adjustment reads
  obtain ⟨_,undefined,halu,hcfu,hafu⟩ := binary_run hop hb hrun
  obtain ⟨t',hexecute,hresult⟩ := adjust_run hadjust env v
  cases hexecute.symm.trans hrun'
  rw [hal,hflags,halu,hcfu,hafu] at hresult
  have hcarry : s.currentThread.cpuFlags.status.CF.toNat=carry s := toNat_getLsbD _
  have hdigit := adjusted_digit operation s.currentThread.cpuFlags.status undefined hpacked hpacked'
  rw [hcarry] at hdigit
  simp only [←hresult] at hdigit
  exact hdigit

end Bytes

section Places
variable {operation : Operation} {places : List (Place U8)} {place : Place U8} {c c' c'' : ℕ}

/-- The packed results, with the decimal carry into the lowest place and the one out of the
highest. -/
structure Calculated (operation : Operation) (c : ℕ) (places : List (Place U8))
    (c' : ℕ) : Prop where
  results : ∀place∈places,IsPacked place.r
  digit : operation.Digit (100^(places.map (Place.map decimal)).length)
    (whole 100 (places.map (Place.map decimal)))
    c c'

theorem Calculated.nil (operation : Operation) (c : ℕ) : Calculated operation c [] c where
  results := by simp
  digit := by cases operation <;> simp [Operation.Digit,whole]

theorem Calculated.cons (hr : IsPacked place.r)
    (hdigit : operation.Digit 100 (place.map decimal) c c')
    (h : Calculated operation c' places c'') : Calculated operation c (place::places) c'' where
  results := List.forall_mem_cons.mpr ⟨hr,h.results⟩
  digit := Digit.cons hdigit h.digit

theorem Calculated.snoc (h : Calculated operation c places c') (hr : IsPacked place.r)
    (hdigit : operation.Digit 100 (place.map decimal) c' c'') :
    Calculated operation c (places++[place]) c'' where
  results := List.forall_mem_append.mpr ⟨h.results,List.forall_mem_singleton.mpr hr⟩
  digit := by
    rw [List.map_append]
    exact Digit.snoc h.digit hdigit

/-- The packed digits are those of the result modulo `100 ^ n`, and the last carry is that of the
whole numbers. -/
def IsExact (operation : Operation) (places : List (Place U8)) (c : ℕ) : Prop :=
  (∀place∈places,IsPacked place.r) ∧
    operation.Exact (100^places.length) (whole 100 (places.map (Place.map decimal))) c

theorem Calculated.isExact (h : Calculated operation 0 places c) (hc : c ≤ 1) :
    IsExact operation places c := by
  have hbound : ∀p∈places.map (Place.map decimal),p.r<100 := by
    intro p hp
    obtain ⟨place,hplace,rfl⟩ := List.mem_map.mp hp
    exact decimal_lt (h.results place hplace)
  have hexact := exact_of_digits (by decide : 1<100) hbound hc h.digit
  rw [List.length_map] at hexact
  exact ⟨h.results,hexact⟩

end Places

section Loop
variable {F : Type} {env : Environment F} {s t : FEProcess F} {operation : Operation}

def alImmediate (opcode : U32) (v : U8) : DISASM :=
  { (default : DISASM) with
    Instruction := { (default : INSTRTYPE) with
      Category := GENERAL_PURPOSE_INSTRUCTION
      Opcode := opcode
      Immediat := v.setWidth 64 }
    Argument1 := { (default : ARGTYPE) with ArgType := REGISTER_TYPE+GENERAL_REG+REG0,ArgSize := 8 }
    Argument2 := { (default : ARGTYPE) with ArgType := CONSTANT_TYPE,ArgSize := 8 } }

def adjustInstruction (operation : Operation) : DISASM :=
  { (default : DISASM) with
    Instruction := { (default : INSTRTYPE) with
      Category := GENERAL_PURPOSE_INSTRUCTION
      Opcode := adjustOpcode operation } }

def binaryOpcode : Operation→U32
  | .addition => 0x14
  | .subtraction => 0x1c

/-- `AL = a`, the binary operation with `b`, the adjustment, and the byte to store. -/
def decimalByte (operation : Operation) (a b : U8) : Emulator F U8 := do
  let _ ← execute (alImmediate 0xb0 a)
  let _ ← execute (alImmediate (binaryOpcode operation) b)
  let _ ← execute (adjustInstruction operation)
  register8 .kAL

/-- The loop over the bytes of two numbers, from the lowest on, and what it stores below them. -/
def decimalBytes (operation : Operation) : List (U8×U8)→Emulator F (List (Place U8))
  | [] => return []
  | (a,b)::bytes => do
    let r ← decimalByte operation a b
    return ⟨a,b,r⟩::(← decimalBytes operation bytes)

theorem isRegister_al {arg : ARGTYPE} (htype : arg.ArgType=REGISTER_TYPE+GENERAL_REG+REG0)
    (hposition : arg.ArgPosition=0) (hsize : arg.ArgSize=8) : IsRegister F arg .kAL .k8bit := by
  have h : IsRegister F arg FEBitWidth.k8bit.accumulator .k8bit :=
    .accumulator htype hposition hsize
  exact h

theorem alImmediate_register (opcode : U32) (v : U8) :
    IsRegister F (alImmediate opcode v).Argument1 .kAL .k8bit :=
  isRegister_al rfl rfl rfl

theorem alImmediate_load (opcode : U32) (v : U8) (env : Environment F) (s : FEProcess F) :
    loadArg2 (alImmediate opcode v) env s=.ok (v.signExtend 32,s) := by
  have himmediate : IsImmediate (alImmediate opcode v).Argument2 .k8bit := by
    constructor <;> simp [alImmediate] <;> decide
  have hvalue : ((v.setWidth 64).setWidth 32).setWidth 8=v := by simp
  have hload : loadArg2 (alImmediate opcode v) env s=
    .ok ((((v.setWidth 64).setWidth 32).setWidth 8).signExtend 32,s) :=
    himmediate.load _
  rwa [hvalue] at hload

theorem generalPurpose : GENERAL_PURPOSE_INSTRUCTION&&&GENERAL_PURPOSE_INSTRUCTION≠0 := by decide

theorem alImmediate_general (opcode : U32) (v : U8) :
    (alImmediate opcode v).Instruction.Category&&&GENERAL_PURPOSE_INSTRUCTION≠0 := generalPurpose

theorem mov_run (v : U8) (env : Environment F) (s : FEProcess F) :
    ∃t,execute (alImmediate 0xb0 v) env s=.ok (.jumpToNextInstr,t) ∧ al t=v ∧ SameCF s t := by
  have hbody : execute (alImmediate 0xb0 v)=(mov (alImmediate 0xb0 v) : Emulator F Flow) :=
    execute_of_opcode (alImmediate_general _ v) rfl rfl
  have hsize : assertSameSize (alImmediate 0xb0 v) env s=.ok ((),s) := assert_run rfl
  let t := s.withThread (s.currentThread.write .kAL ((v.signExtend 32).setWidth
    FEBitWidth.k8bit.bits))
  have hrun : mov (alImmediate 0xb0 v) env s=.ok (.jumpToNextInstr,t) :=
    (Exec.bind_run hsize).trans ((Exec.bind_run (alImmediate_load _ v env s)).trans
      (Exec.bind_run ((alImmediate_register _ v).store (v.signExtend 32))))
  rw [hbody]
  refine ⟨t,hrun,?_,mov_within _ env s _ t hrun⟩
  have hread : al t=(v.signExtend 32).setWidth 8 := FEThreadContext.read_write_self
    s.currentThread .kAL _
  rw [hread,setWidth_signExtend (by decide),BitVec.signExtend_eq]

theorem alImmediate_binary (operation : Operation) (v : U8) :
    IsBinary F operation (alImmediate (binaryOpcode operation) v) where
  decoded := by
    refine ⟨alImmediate_general _ v,.inl ?_,rfl,.inl ?_⟩
    · cases operation <;> simp [alImmediate,binaryOpcode,laterInstruction,LimbInstruction.opcodes]
    · show REGISTER_TYPE+GENERAL_REG+REG0&&&REGISTER_TYPE≠0 ∧
        REGISTER_TYPE+GENERAL_REG+REG0&&&GENERAL_REG≠0
      decide
  destination := alImmediate_register _ v

theorem alImmediate_returns (operation : Operation) (v : U8) (env : Environment F)
    (s : FEProcess F) :
    ∃t,execute (alImmediate (binaryOpcode operation) v) env s=.ok (.jumpToNextInstr,t) := by
  have hbody : execute (alImmediate (binaryOpcode operation) v)=
      (binaryInstruction (laterInstruction operation).host
        (alImmediate (binaryOpcode operation) v) :
        Emulator F Flow) := by
    cases operation <;> exact execute_of_opcode (alImmediate_general _ v) rfl rfl
  have hsize : assertSameSize (alImmediate (binaryOpcode operation) v) env s=.ok ((),s) :=
    assert_run rfl
  rw [hbody]
  exact ⟨_,(Exec.bind_run hsize).trans ((Exec.bind_run ((alImmediate_register _ v).load _)).trans
    ((Exec.bind_run (alImmediate_load _ v env s)).trans ((Exec.bind_run (bitWidth_run .k8bit)).trans
      (Exec.bind_run ((alImmediate_register _ v).store _)))))⟩

theorem adjustInstruction_isAdjust (operation : Operation) :
    IsAdjust operation (adjustInstruction operation) where
  category := generalPurpose
  opcode := rfl

/-- One byte: the loop's body returns in every process. -/
theorem decimalByte_run {a b : U8} (ha : IsPacked a) (hb : IsPacked b) (env : Environment F)
    (s : FEProcess F) :
    ∃r t,decimalByte operation a b env s=.ok (r,t) ∧ IsPacked r ∧
      operation.Digit 100 ⟨decimal a,decimal b,decimal r⟩ (carry s) (carry t) := by
  obtain ⟨s₁,hmov,hal₁,hcf₁⟩ := mov_run a env s
  obtain ⟨s₂,hbinary⟩ := alImmediate_returns operation b env s₁
  obtain ⟨t,hadjust,_⟩ := adjust_run (adjustInstruction_isAdjust operation) env s₂
  have hload : secondOperand (alImmediate (binaryOpcode operation) b) env s₁=
    .ok (b.signExtend 32,s₁) := by
    cases operation <;> exact alImmediate_load _ b env s₁
  have hb' : (b.signExtend 32).setWidth 8=b := by rw [setWidth_signExtend (by decide),
    BitVec.signExtend_eq]
  obtain ⟨hpacked,hdigit⟩ := place_digit (alImmediate_binary operation b) hload hbinary rfl rfl
    (adjustInstruction_isAdjust operation) hadjust (hal₁.symm ▸ ha) (hb'.symm ▸ hb)
  rw [hal₁,hb',carry_of_sameCF hcf₁] at hdigit
  exact ⟨al t,t,(Exec.bind_run hmov).trans ((Exec.bind_run hbinary).trans (Exec.bind_run hadjust)),
    hpacked,hdigit⟩

/-- The loop returns in every process, with the packed digits and the decimal carry. -/
theorem decimalBytes_run (operation : Operation) (bytes : List (U8×U8))
    (hbytes : ∀pair∈bytes,IsPacked pair.1 ∧ IsPacked pair.2) (env : Environment F)
    (s : FEProcess F) :
    ∃places t,decimalBytes operation bytes env s=.ok (places,t) ∧
      places.map (fun place => (place.a,place.b))=bytes ∧
      Calculated operation (carry s) places (carry t) := by
  induction bytes generalizing s with
  | nil => exact ⟨[],s,rfl,rfl,.nil operation _⟩
  | cons pair bytes ih =>
    obtain ⟨⟨ha,hb⟩,hrest⟩ := List.forall_mem_cons.mp hbytes
    obtain ⟨r,u,hfirst,hpacked,hdigit⟩ := decimalByte_run ha hb env s
    obtain ⟨places,t,hrun,hpairs,hplaces⟩ := ih hrest u
    refine ⟨⟨pair.1,pair.2,r⟩::places,t,(Exec.bind_run hfirst).trans (Exec.bind_run hrun),?_,?_⟩
    · rw [List.map_cons,hpairs]
    · exact hplaces.cons hpacked hdigit

end Loop

section Rounds
variable {F : Type} {env : Environment F} {s s₀ t u : FEProcess F} {op : DISASM}
  {operation : Operation}

/-- Turns that execute instructions which leave `CF`, such as moves, steps of a pointer and a loop's
jump. -/
def Moves (env : Environment F) : FEProcess F→FEProcess F→Prop :=
  Relation.ReflTransGen fun s t => Step env .k8bit s .neutral t

/-- A `MOV` from `AL` to a register or to memory. -/
structure IsStore (F : Type) (op : DISASM) : Prop where
  category : op.Instruction.Category&&&GENERAL_PURPOSE_INSTRUCTION≠0
  opcode : op.Instruction.Opcode∈([0x88,0x8a,0xa2] : List U32)
  source : IsRegister F op.Argument2 .kAL .k8bit
  destination : IsDestination op.Argument1 .k8bit

/-- One round of the loop: the moves that bring `a` to `AL`, the operation with `b`, the adjustment,
the store, after which its destination holds `r`, and the moves that end the round. -/
inductive Round (env : Environment F) (operation : Operation) (s : FEProcess F) :
    Place U8→FEProcess F→Prop
  | mk {s₁ s₂ s₃ s₄ u t : FEProcess F} {binary adjust store : DISASM} {b r : U32}
    (hload : Moves env s s₁)
      (hop₁ : s₁.op.deref s₁.memory s₁.dummyOp=.ok binary) (hbinary : IsBinary F operation binary)
      (hb : secondOperand binary env (counted s₁)=.ok (b,counted s₁)) (hturn₁ : Turn env s₁ s₂)
      (hop₂ : s₂.op.deref s₂.memory s₂.dummyOp=.ok adjust) (hadjust : IsAdjust operation adjust)
      (hturn₂ : Turn env s₂ s₃)
      (hop₃ : s₃.op.deref s₃.memory s₃.dummyOp=.ok store) (hstore : IsStore F store)
      (hrun : execute store env (counted s₃)=.ok (.jumpToNextInstr,u))
        (hr : loadArg1 store env u=.ok (r,u))
      (hturn₃ : Turn env s₃ s₄) (hmoves : Moves env s₄ t) :
      Round env operation s ⟨al s₁,b.setWidth 8,r.setWidth 8⟩ t

theorem Moves.carry_eq (himports : ImportsLeaveCF env) (h : Moves env s t) : carry t=carry s := by
  induction h with
  | refl => rfl
  | tail _ hstep ih => exact (carry_of_sameCF (hstep.sameCF himports)).trans ih

/-- The jump to the next instruction leaves `AL` and the flags. -/
theorem jumpToNextInstr_al (h : jumpToNextInstr env s=.ok ((),t)) :
    al t=al s ∧ t.currentThread.cpuFlags=s.currentThread.cpuFlags := by
  obtain ⟨v,hthread⟩ := jumpToNextInstr_thread h
  have hapart : FEThreadContext.Apart .kEIP .k32bit .kAL .k8bit := Or.inr (by decide)
  refine ⟨?_,?_⟩
  · rw [al,hthread]
    exact FEThreadContext.read_write_of_apart s.currentThread hapart
      (show BitVec FEBitWidth.k32bit.bits from v)
  · rw [hthread]
    rfl

theorem IsStore.stores {flow : Flow} (h : IsStore F op) (hrun : execute op env s=.ok (flow,t)) :
    flow=.jumpToNextInstr ∧ loadArg1 op env t=.ok ((al s).setWidth 32,t) ∧ SameCF s t := by
  have hbody : execute op=(mov op : Emulator F Flow) := by
    have hopcode := h.opcode
    simp only [List.mem_cons,List.not_mem_nil,or_false] at hopcode
    rcases hopcode with hopcode | hopcode | hopcode <;>
      exact execute_of_opcode h.category hopcode rfl
  rw [hbody] at hrun
  have hcf : SameCF s t := mov_within op env s flow t hrun
  obtain ⟨_,u,hsize,hrun⟩ := Exec.bind_eq_ok.mp hrun
  obtain rfl := assert_within (R:=Eq) _ env s () u hsize
  rw [Exec.bind_run (show loadArg2 op env s=_ from h.source.load _)] at hrun
  obtain ⟨_,v,hstored,hrun⟩ := Exec.bind_eq_ok.mp hrun
  cases hrun
  have hread := storeValueInArg_reads_back h.destination hstored
    (op.Instruction.Immediat.setWidth 32)
  have hal : ((al s).setWidth 32).setWidth FEBitWidth.k8bit.bits=al s :=
    FEBitWidth.setWidth_back (show BitVec FEBitWidth.k8bit.bits from al s)
  refine ⟨rfl,hread.trans ?_,hcf⟩
  exact congrArg (fun v : U8 => Except.ok (v.setWidth 32,t)) hal

/-- Turns of these kinds, one after the other, are a round: the destination of the store can be
read. -/
theorem Round.of_turns {s₁ s₂ s₃ s₄ : FEProcess F} {binary adjust store : DISASM} {b : U32}
    (hload : Moves env s s₁) (hop₁ : s₁.op.deref s₁.memory s₁.dummyOp=.ok binary)
    (hbinary : IsBinary F operation binary)
    (hb : secondOperand binary env (counted s₁)=.ok (b,counted s₁)) (hturn₁ : Turn env s₁ s₂)
    (hop₂ : s₂.op.deref s₂.memory s₂.dummyOp=.ok adjust) (hadjust : IsAdjust operation adjust)
    (hturn₂ : Turn env s₂ s₃) (hop₃ : s₃.op.deref s₃.memory s₃.dummyOp=.ok store)
    (hstore : IsStore F store) (hturn₃ : Turn env s₃ s₄) (hmoves : Moves env s₄ t) :
    ∃r,Round env operation s ⟨al s₁,b.setWidth 8,r⟩ t := by
  obtain ⟨flow,u,hrun,_⟩ := execute_of_turn hop₃ hturn₃
  obtain ⟨rfl,hr,_⟩ := hstore.stores hrun
  exact ⟨_,.mk hload hop₁ hbinary hb hturn₁ hop₂ hadjust hturn₂ hop₃ hstore hrun hr hturn₃ hmoves⟩

/-- A round makes one place of the decimal operation. -/
theorem Round.digit {place : Place U8} (himports : ImportsLeaveCF env)
    (h : Round env operation s place t) (ha : IsPacked place.a) (hb : IsPacked place.b) :
    IsPacked place.r ∧ operation.Digit 100 (place.map decimal) (carry s) (carry t) := by
  cases h with
  | @mk s₁ s₂ s₃ s₄ u t binary adjust store b r hload hop₁ hbinary hsecond hturn₁ hop₂ hadjust
    hturn₂ hop₃ hstore hrun
      hr hturn₃ hmoves =>
    obtain ⟨flow,v,hexecute,hnext⟩ := execute_of_turn hop₁ hturn₁
    obtain ⟨flow',w,hexecute',hnext'⟩ := execute_of_turn hop₂ hturn₂
    obtain ⟨rfl,_⟩ := binary_run hbinary hsecond hexecute
    obtain ⟨hal₂,hflags₂⟩ := jumpToNextInstr_al hnext
    obtain ⟨_,hadjusts,_⟩ := adjust_run hadjust env (counted s₂)
    cases hadjusts.symm.trans hexecute'
    obtain ⟨hal₃,hflags₃⟩ := jumpToNextInstr_al hnext'
    obtain ⟨hpacked,hdigit⟩ := place_digit (v:=counted s₂) hbinary hsecond hexecute hal₂ hflags₂
      hadjust hexecute' ha hb
    -- what the store reads is what the adjustment has left
    obtain ⟨_,hread,hcf⟩ := hstore.stores hrun
    cases hread.symm.trans hr
    have hal : al (counted s₃)=al w := hal₃
    have hr' : ((al (counted s₃)).setWidth 32).setWidth 8=al w := by rw [hal]; simp
    have hfirst : carry s₁=carry s := hload.carry_eq himports
    have hlast : carry t=carry w := calc
      carry t=carry s₄ := hmoves.carry_eq himports
      _=carry u := carry_of_sameCF (sameCF_of_turn hop₃ hrun hturn₃)
      _=carry (counted s₃) := carry_of_sameCF hcf
      _=carry w := congrArg (fun flags => flags.CF.toNat) hflags₃
    rw [hr',hlast,←hfirst]
    exact ⟨hpacked,hdigit⟩

end Rounds

section Runs
variable {F : Type} {env : Environment F} {s₀ t : FEProcess F} {operation : Operation}
  {places : List (Place U8)}

/-- After rounds on packed operands, from `CF = 0` on, `CF` is the decimal carry. -/
theorem calculated_run (himports : ImportsLeaveCF env) (h : Runs (Round env operation) s₀ places t)
    (hcarry : carry s₀=0) (hpacked : ∀place∈places,IsPacked place.a ∧ IsPacked place.b) :
    Calculated operation 0 places (carry t) := by
  revert hpacked
  refine h.history (I:=fun places t => (∀place∈places,IsPacked place.a ∧ IsPacked place.b)→
    Calculated operation 0 places (carry t)) ?_ ?_
  · intro _
    rw [hcarry]
    exact .nil operation 0
  · intro places s place t ih hround hpacked
    obtain ⟨hearlier,hlast⟩ := List.forall_mem_append.mp hpacked
    obtain ⟨ha,hb⟩ := hlast place (List.mem_singleton_self place)
    obtain ⟨hr,hdigit⟩ := hround.digit himports ha hb
    exact (ih hearlier).snoc hr hdigit

/-- For packed numbers of any length and from `CF = 0` on, the loop `AL = a[i]`, `ADC` or `SBB`,
`DAA` or `DAS`, store makes the packed digits of the sum or the difference, and ends with the
decimal carry or borrow. The loop over given bytes returns in every process; the second part is
about every run of the interpreter through such rounds. -/
theorem packed_decimal_exact (operation : Operation) (env : Environment F) :
    (∀(s : FEProcess F) (bytes : List (U8×U8)),carry s=0→(∀pair∈bytes,IsPacked pair.1 ∧
      IsPacked pair.2)→
      ∃places t,decimalBytes operation bytes env s=.ok (places,t) ∧
        places.map (fun place => (place.a,place.b))=bytes ∧ IsExact operation places (carry t)) ∧
    ∀s₀ places t,ImportsLeaveCF env→Runs (Round env operation) s₀ places t→carry s₀=0→
      (∀place∈places,IsPacked place.a ∧ IsPacked place.b)→IsExact operation places (carry t) := by
  have hcarry (t : FEProcess F) : carry t ≤ 1 := Nat.le_of_lt_succ (BitVec.isLt _)
  refine ⟨?_,?_⟩
  · intro s bytes hs hbytes
    obtain ⟨places,t,hrun,hpairs,hplaces⟩ := decimalBytes_run operation bytes hbytes env s
    rw [hs] at hplaces
    exact ⟨places,t,hrun,hpairs,hplaces.isExact (hcarry t)⟩
  · intro s₀ places t himports h hs hpacked
    exact (calculated_run himports h hs hpacked).isExact (hcarry t)

end Runs

section Example

/-- `adc al,0x77`, `daa` and `mov cl,al`, and then `mov al,0x12`, `adc al,0x34`, `daa` and `mov
dl,al`. -/
def decimalCode : ℕ→U8 :=
  fun a => ([0x14,0x77,0x27,0x88,0xc1,0xb0,0x12,0x14,0x34,0x27,0x88,0xc2] : List U8).getD a 0

def decimalRecord (offset : ℕ) : DISASM :=
  let first := decimalCode offset
  let second := decimalCode (offset+1)
  { (default : DISASM) with
    EIP := offset
    VirtualAddr := BitVec.ofNat 64 offset
    Instruction := { (default : INSTRTYPE) with
      Category := GENERAL_PURPOSE_INSTRUCTION
      Opcode := first.setWidth 32
      Immediat := second.setWidth 64 }
    Argument1 := { (default : ARGTYPE) with
      ArgType := REGISTER_TYPE+GENERAL_REG+(if second=0xc1 then 2 else if second=0xc2
        then 4 else REG0)
      ArgSize := 8 }
    Argument2 := { (default : ARGTYPE) with
      ArgType := if first=0x88 then REGISTER_TYPE+GENERAL_REG+REG0 else CONSTANT_TYPE
      ArgSize := 8 } }

def decimalEnvironment : Environment Unit :=
  { Environment.bare .debug with
    disasm := fun record host =>
      (decimalRecord record.EIP,if host record.EIP=0x27 then 1 else 2) }

/-- The first addition has just been fetched, with `0x65` in `AL`. -/
def decimalStart : FEProcess Unit :=
  { codeStart.withThread (codeStart.currentThread.setRegister8 .kAL 0x65) with
    memory := ⟨codeStart.memory.map,decimalCode⟩
    dummyOp := decimalRecord 0 }

theorem decimalRecord_binary {offset : ℕ} (h : offset∈([0,7] : List ℕ)) :
    IsBinary Unit .addition (decimalRecord offset) := by
  rcases List.mem_pair.mp h with rfl | rfl <;>
    exact ⟨⟨by decide,.inl (by decide),rfl,.inl ⟨by decide,by decide⟩⟩,isRegister_al rfl rfl rfl⟩

theorem decimalRecord_second {offset : ℕ} (h : offset∈([0,7] : List ℕ)) (s : FEProcess Unit) :
    secondOperand (decimalRecord offset) decimalEnvironment s=
      .ok ((decimalCode (offset+1)).signExtend 32,s) := by
  have himmediate : IsImmediate (decimalRecord offset).Argument2 .k8bit := by
    rcases List.mem_pair.mp h with rfl | rfl <;> exact ⟨by decide,by decide,by decide,rfl⟩
  rcases List.mem_pair.mp h with rfl | rfl <;> exact himmediate.load _

theorem decimalRecord_adjust {offset : ℕ} (h : offset∈([2,9] : List ℕ)) :
    IsAdjust .addition (decimalRecord offset) := by
  rcases List.mem_pair.mp h with rfl | rfl <;> exact ⟨by decide,rfl⟩

theorem decimalRecord_store {offset : ℕ} (h : offset∈([3,10] : List ℕ)) :
    IsStore Unit (decimalRecord offset) := by
  rcases List.mem_pair.mp h with rfl | rfl <;>
    exact ⟨by decide,by decide,isRegister_al rfl rfl rfl,rfl,.inl ⟨by decide,by decide⟩⟩

theorem decimalRecord_move : IsNeutral (decimalRecord 5) := ⟨by decide,.inl rfl⟩

theorem decimal_rounds : ∃places t,Runs (Round decimalEnvironment .addition) decimalStart places t ∧
    places.map (fun place => (place.a,place.b))=[(0x65,0x77),(0x12,0x34)] := by
  -- the instructions with what `AL` holds before each
  have hturns : through decimalEnvironment
      ([(0,0x65),(2,0xdc),(3,0x42),(5,0x42),(7,0x12),(9,0x47),(10,0x47)].map
        fun turn : ℕ×U8 => fun s => isAt (decimalRecord turn.1) s && al s=turn.2) decimalStart := by
    decide +kernel
  have hturn {offset : ℕ} {v : U8} {s : FEProcess Unit}
    (h : isAt (decimalRecord offset) s && al s=v) :
      s.op.deref s.memory s.dummyOp=.ok (decimalRecord offset) ∧ al s=v := by
    obtain ⟨hop,hal⟩ := Bool.and_eq_true_iff.mp h
    exact ⟨of_decide_eq_true hop,of_decide_eq_true hal⟩
  obtain ⟨h₀,u₁,hturn₁,h⟩ := exists_through hturns
  obtain ⟨h₁,u₂,hturn₂,h⟩ := exists_through h
  obtain ⟨h₂,u₃,hturn₃,h⟩ := exists_through h
  obtain ⟨h₃,u₄,hturn₄,h⟩ := exists_through h
  obtain ⟨h₄,u₅,hturn₅,h⟩ := exists_through h
  obtain ⟨h₅,u₆,hturn₆,h⟩ := exists_through h
  obtain ⟨h₆,u₇,hturn₇,_⟩ := exists_through h
  obtain ⟨r,hfirst⟩ := Round.of_turns .refl (hturn h₀).1 (decimalRecord_binary (by decide))
    (decimalRecord_second (by decide) _) hturn₁ (hturn h₁).1 (decimalRecord_adjust (by decide))
      hturn₂ (hturn h₂).1
    (decimalRecord_store (by decide)) hturn₃ .refl
  obtain ⟨r',hsecond⟩ := Round.of_turns (.single (.neutral (hturn h₃).1 decimalRecord_move hturn₄))
    (hturn h₄).1
    (decimalRecord_binary (by decide)) (decimalRecord_second (by decide) _) hturn₅ (hturn h₅).1
    (decimalRecord_adjust (by decide)) hturn₆ (hturn h₆).1 (decimalRecord_store (by decide))
      hturn₇ .refl
  refine ⟨_,_,.next (.next .start hfirst) hsecond,?_⟩
  simp only [List.nil_append,List.cons_append,List.map_cons,List.map_nil,(hturn h₀).2,(hturn h₄).2]
  rfl

/-- The sum of 1265 and 3477, once with the loop over the bytes and once in two rounds of the
interpreter. -/
theorem packed_decimal_exact_two :
    (∃places t,decimalBytes .addition [(0x65,0x77),(0x12,0x34)] decimalEnvironment decimalStart=
      .ok (places,t) ∧
      places.map (fun place => (place.a,place.b))=[(0x65,0x77),(0x12,0x34)] ∧
      IsExact .addition places (carry t)) ∧
    ∃places t,Runs (Round decimalEnvironment .addition) decimalStart places t ∧
      places.map (fun place => (place.a,place.b))=[(0x65,0x77),(0x12,0x34)] ∧
      IsExact .addition places (carry t) := by
  have hbytes : ∀pair∈([(0x65,0x77),(0x12,0x34)] : List (U8×U8)),IsPacked pair.1 ∧
    IsPacked pair.2 := by
    simp only [List.forall_mem_cons]
    exact ⟨⟨by decide,by decide⟩,⟨by decide,by decide⟩,by simp⟩
  have himports : ImportsLeaveCF decimalEnvironment := by
    intro coordinates s argumentsSize t h
    cases h
  obtain ⟨hloop,hruns⟩ := packed_decimal_exact .addition decimalEnvironment
  obtain ⟨places,t,hrun,hpairs⟩ := decimal_rounds
  refine ⟨hloop decimalStart _ rfl hbytes,places,t,hrun,hpairs,hruns decimalStart places t himports
    hrun rfl ?_⟩
  intro place hplace
  rw [←hpairs] at hbytes
  exact hbytes _ (List.mem_map_of_mem hplace)

end Example
end FalloutEmu.PackedDecimal
