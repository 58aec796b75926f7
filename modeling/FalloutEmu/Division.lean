import FalloutEmu.RegisterFile
import FalloutEmu.WordNumbers
import Mathlib.Data.Nat.Factorization.Basic

/-! # Division -/
namespace FalloutEmu.Division
open Emulator
open WordNumbers
open FEThreadContext (Outside)
open FEProcess (ChangesOnly changesOnly_write_pair withOperands)
variable {F : Type}

/-- `fe_threadContext_idiv32` or `fe_threadContext_div32`. -/
def divide (signed : Bool) (arg1 arg2 : BitVec 64) (width : FEBitWidth) :
    Emulator F (BitVec 64×BitVec 64) :=
  if signed then idiv32 arg1 arg2 width else div32 arg1 arg2 width

/-- What the instruction divides: a 16-bit `DIV` sign-extends its dividend as well. -/
def dividend (signed : Bool) (threadContext : FEThreadContext F) (width : FEBitWidth) : BitVec 64 :=
  extend (signed || width=.k16bit) 64 (threadContext.pair width)

def setResult (width : FEBitWidth) (result : BitVec 64×BitVec 64) : Emulator F Flow :=
  if width=.k8bit then setByteQuotient result else setWordPair width.argSize result.1 result.2

section Execution
variable {op : DISASM} {env : Environment F} {s : FEProcess F}

theorem register_pair_k16bit (threadContext : FEThreadContext F) :
    (threadContext.register16 .kDX).setWidth 32<<<16|||(threadContext.register16 .kAX).setWidth 32=
      threadContext.pair .k16bit := by
  have happend : (threadContext.pair .k16bit).setWidth 32=
      (threadContext.register16 .kDX).setWidth 32<<<16|||(threadContext.register16 .kAX).setWidth
        32 :=
    BitVec.setWidth_append_eq_shiftLeft_setWidth_or
  rw [←happend]
  exact BitVec.setWidth_eq _

theorem register_pair_k32bit (threadContext : FEThreadContext F) :
    (threadContext.register32 .kEDX).setWidth 64<<<32|||(threadContext.register32 .kEAX).setWidth
      64=
      threadContext.pair .k32bit := by
  have happend : (threadContext.pair .k32bit).setWidth 64=
      (threadContext.register32 .kEDX).setWidth 64<<<32|||(threadContext.register32 .kEAX).setWidth
        64 :=
    BitVec.setWidth_append_eq_shiftLeft_setWidth_or
  rw [←happend]
  exact BitVec.setWidth_eq _

theorem divident_run {width : FEBitWidth} (h : width≠.k8bit) (signed : Bool) :
    divident width.argSize env s=.ok (dividend signed s.currentThread width,s) := by
  cases width with
  | k8bit => exact absurd rfl h
  | k16bit =>
    have hrun : divident FEBitWidth.k16bit.argSize env s=
        .ok (signExtend ((s.currentThread.register16 .kDX).setWidth 32<<<16|||
          (s.currentThread.register16 .kAX).setWidth 32) .k32bit,s) := rfl
    rw [hrun,register_pair_k16bit,dividend,Bool.or_comm]
    rfl
  | k32bit =>
    have hrun : divident FEBitWidth.k32bit.argSize env s=
        .ok ((s.currentThread.register32 .kEDX).setWidth 64<<<32|||
          (s.currentThread.register32 .kEAX).setWidth 64,s) := rfl
    rw [hrun,register_pair_k32bit,dividend]
    cases signed with
    | false => exact congrArg (fun v => Except.ok (v,s)) (BitVec.setWidth_eq _).symm
    | true => exact congrArg (fun v => Except.ok (v,s)) (BitVec.signExtend_eq _).symm

theorem dividend_k8bit (signed : Bool) (threadContext : FEThreadContext F) :
    dividend signed threadContext .k8bit=extend signed 64 (threadContext.register16 .kAX) := by
  have hpair : (threadContext.pair .k8bit : BitVec 16)=threadContext.register16 .kAX :=
    BitVec.eq_of_toNat_eq threadContext.toNat_pair_k8bit
  have hsigned : (signed || decide (FEBitWidth.k8bit=.k16bit))=signed := Bool.or_false signed
  rw [dividend,hsigned]
  exact congrArg (extend signed 64) hpair

theorem instructionF6_run {signed : Bool} {d : BitVec FEBitWidth.k8bit.bits}
    (h : IsGroup3 op (if signed then 7 else 6) .k8bit)
    (hload : loadArg2 op env s=.ok (d.setWidth 32,s)) :
    instructionF6 op env s=(divide signed (dividend signed s.currentThread .k8bit)
      (extend signed 64 d) .k8bit >>=
      setResult .k8bit) env s := by
  have hsize : assert (op.Argument2.ArgSize=8) env s=.ok ((),s) :=
    assert_run (decide_eq_true h.argument2)
  have hwidth : bitWidth op.Argument2.ArgSize env s=.ok (.k8bit,s) :=
    h.argument2 ▸ bitWidth_run .k8bit
  have hax : register16 .kAX env s=.ok (s.currentThread.register16 .kAX,s) := rfl
  have hdivident : signExtend ((s.currentThread.register16 .kAX).setWidth 32) .k16bit=
      (s.currentThread.register16 .kAX).signExtend 64 :=
    FEBitWidth.signExtend_setWidth
      (show BitVec FEBitWidth.k16bit.bits from s.currentThread.register16 .kAX)
  rw [dividend_k8bit]
  cases signed with
  | false =>
    have hbody : instructionF6 op=(do
        assert (op.Argument2.ArgSize=8)
        let divident := (← register16 .kAX).setWidth 64
        let divider := (← loadArg2 op).setWidth 64
        setByteQuotient (← div32 divident divider (← bitWidth op.Argument2.ArgSize)) :
          Emulator F Flow) := by
      simp only [instructionF6,h.regopcode]
      rfl
    rw [hbody,Exec.bind_run hsize,Exec.bind_run hax,Exec.bind_run hload,Exec.bind_run hwidth,
      FEBitWidth.setWidth_setWidth d]
    rfl
  | true =>
    have hbody : instructionF6 op=(do
        assert (op.Argument2.ArgSize=8)
        let arg1Value := signExtend ((← register16 .kAX).setWidth 32) .k16bit
        let divider := signExtend (← loadArg2 op) .k8bit
        setByteQuotient (← idiv32 arg1Value divider (← bitWidth op.Argument2.ArgSize)) :
          Emulator F Flow) := by
      simp only [instructionF6,h.regopcode]
      rfl
    rw [hbody,Exec.bind_run hsize,Exec.bind_run hax,Exec.bind_run hload,Exec.bind_run hwidth,
      FEBitWidth.signExtend_setWidth d,hdivident]
    rfl

theorem instructionF7_run {signed : Bool} {width : FEBitWidth} (hwide : width≠.k8bit)
    {d : BitVec width.bits} (h : IsGroup3 op (if signed then 7 else 6) width)
    (hload : loadArg2 op env s=.ok (d.setWidth 32,s)) :
    instructionF7 op env s=(divide signed (dividend signed s.currentThread width)
      (extend signed 64 d) width >>=
      setResult width) env s := by
  have hwidth : bitWidth op.Argument2.ArgSize env s=.ok (width,s) :=
    h.argument2 ▸ bitWidth_run width
  have hdivident : divident op.Argument2.ArgSize env s=.ok (dividend signed s.currentThread width,
    s) :=
    h.argument2 ▸ divident_run hwide signed
  have hset : (setResult width : _→Emulator F Flow)=fun result => setWordPair width.argSize result.1
    result.2 := by
    funext result
    exact if_neg hwide
  cases signed with
  | false =>
    have hbody : instructionF7 op=(do
        assertSameSize op
        let _ ← loadArg2 op
        let divident ← divident op.Argument2.ArgSize
        let divider := (← loadArg2 op).setWidth 64
        let result ← div32 divident divider (← bitWidth op.Argument2.ArgSize)
        setWordPair op.Argument2.ArgSize result.1 result.2 : Emulator F Flow) := by
      simp only [instructionF7,h.regopcode]
      rfl
    rw [hbody,Exec.bind_run h.sameSize,Exec.bind_run hload,Exec.bind_run hdivident,
      Exec.bind_run hload,Exec.bind_run hwidth,FEBitWidth.setWidth_setWidth,h.argument2]
    rw [hset]
    rfl
  | true =>
    have hbody : instructionF7 op=(do
        assertSameSize op
        let _ ← loadArg2 op
        let divident ← divident op.Argument2.ArgSize
        let width ← bitWidth op.Argument2.ArgSize
        let divider := signExtend (← loadArg2 op) width
        let result ← idiv32 divident divider width
        setWordPair op.Argument2.ArgSize result.1 result.2 : Emulator F Flow) := by
      simp only [instructionF7,h.regopcode]
      rfl
    rw [hbody,Exec.bind_run h.sameSize,Exec.bind_run hload,Exec.bind_run hdivident,
      Exec.bind_run hwidth,Exec.bind_run hload,FEBitWidth.signExtend_setWidth,h.argument2]
    rw [hset]
    rfl

/-- Both instructions divide the extended operands and store the two halves of the result. -/
theorem execute_run {signed : Bool} {width : FEBitWidth} {d : BitVec width.bits}
    (h : IsGroup3 op (if signed then 7 else 6) width)
    (hload : loadArg2 op env s=.ok (d.setWidth 32,s)) :
    execute op env s=(divide signed (dividend signed s.currentThread width)
      (extend signed 64 d) width >>=
      setResult width) env s := by
  rw [h.execute]
  by_cases hwidth : width=.k8bit
  · subst hwidth
    exact instructionF6_run h hload
  · rw [if_neg hwidth]
    exact instructionF7_run hwidth h hload

theorem setResult_run (width : FEBitWidth) (result : BitVec 64×BitVec 64) :
    setResult width result env s=.ok (.jumpToNextInstr,s.withThread
      ((s.currentThread.write width.accumulator (result.1.setWidth width.bits)).write
        width.extension
        (result.2.setWidth width.bits))) := by
  cases width <;> rfl

theorem quotientTooLarge_iff (width : FEBitWidth) (z : ℤ) :
    quotientTooLarge z width=true ↔ ¬Fits true width.bits z := by
  cases width <;>
    simp [quotientTooLarge,Fits,FEBitWidth.bits,FEBitWidth.bytes] <;> omega

theorem unsignedQuotientTooLarge_iff (width : FEBitWidth) (v : BitVec 64) :
    unsignedQuotientTooLarge v width=true ↔ ¬Fits false width.bits (number false v) := by
  cases width <;>
    simp [unsignedQuotientTooLarge,Fits,number,FEBitWidth.bits,FEBitWidth.bytes,BitVec.lt_def] <;>
      omega

/-- The one quotient that the host cannot compute. -/
def Overflows (signed : Bool) (arg1 arg2 : BitVec 64) : Prop :=
  signed=true ∧ arg1=BitVec.intMin 64 ∧ arg2= -1

variable {signed : Bool} {arg1 arg2 : BitVec 64} {width : FEBitWidth}

def tooLarge (signed : Bool) (v : BitVec 64) (width : FEBitWidth) : Bool :=
  if signed then quotientTooLarge v.toInt width else unsignedQuotientTooLarge v width

theorem tooLarge_iff (v : BitVec 64) : tooLarge signed v width=true ↔
    ¬Fits signed width.bits (number signed v) := by
  cases signed with
  | false => exact unsignedQuotientTooLarge_iff width v
  | true => exact quotientTooLarge_iff width v.toInt

/-- Both divisions: the zero test, the host's division, the range test. -/
theorem divide_eq (hhost : ¬Overflows signed arg1 arg2) :
    (divide signed arg1 arg2 width : Emulator F _)=(do
      assert (arg2≠0)
      if arg2=0 then Exec.fail .undefinedBehaviour
      else do
        assert (!tooLarge signed (quotient signed arg1 arg2) width)
        return (quotient signed arg1 arg2,remainder signed arg1 arg2)) := by
  cases signed with
  | false => rfl
  | true =>
    have hcorner : ¬(arg1=BitVec.intMin 64 ∧ arg2= -1) := fun h => hhost ⟨rfl,h⟩
    simp only [divide,idiv32,hcorner,or_false]
    rfl

/-- The range test passes, or its assertion is not there. -/
theorem divide_returns (hzero : arg2≠0) (hhost : ¬Overflows signed arg1 arg2)
    (hfits : env.build=.release ∨
      Fits signed width.bits (number signed (quotient signed arg1 arg2))) :
    divide signed arg1 arg2 width env s=.ok ((quotient signed arg1 arg2,remainder signed arg1 arg2),
      s) := by
  have hrange : assert (!tooLarge signed (quotient signed arg1 arg2) width) env s=.ok ((),s) := by
    rcases hfits with hbuild | hfits
    · exact assert_release hbuild
    · have hsmall := mt (tooLarge_iff (quotient signed arg1 arg2)).mp (not_not_intro hfits)
      exact assert_run (by simpa using hsmall)
  rw [divide_eq hhost,Exec.bind_run (assert_run (decide_eq_true hzero)),if_neg hzero,
    Exec.bind_run hrange]
  rfl

theorem divide_asserts (hbuild : env.build=.debug) (hhost : ¬Overflows signed arg1 arg2)
    (h : arg2=0 ∨ ¬Fits signed width.bits (number signed (quotient signed arg1 arg2))) :
    divide signed arg1 arg2 width env s=.error (.assertion,s) := by
  rw [divide_eq hhost]
  by_cases hzero : arg2=0
  · exact Exec.bind_stops (assert_stops hbuild (decide_eq_false (not_not_intro hzero)))
  · have hlarge := (tooLarge_iff _).mpr (h.resolve_left hzero)
    rw [Exec.bind_run (assert_run (decide_eq_true hzero)),if_neg hzero]
    exact Exec.bind_stops (assert_stops hbuild (by rw [hlarge,Bool.not_true]))

theorem divide_traps (hhost : Overflows signed arg1 arg2) :
    divide signed arg1 arg2 width env s=.error (.undefinedBehaviour,s) := by
  obtain ⟨rfl,rfl,rfl⟩ := hhost
  have hzero : (-1 : BitVec 64)≠0 := by decide
  have hidiv : divide true (BitVec.intMin 64) (-1) width=(idiv32 (BitVec.intMin 64)
    (-1) width : Emulator F _) := rfl
  rw [hidiv,idiv32,Exec.bind_run (assert_run (decide_eq_true hzero)),if_pos (Or.inr ⟨rfl,rfl⟩)]
  rfl

end Execution

section Results
variable {op : DISASM} {env : Environment F} {s : FEProcess F} {signed : Bool} {width : FEBitWidth}

/-- A 16-bit `DIV` whose dividend has its top bit set. -/
def Misextended (signed : Bool) (width : FEBitWidth) (threadContext : FEThreadContext F) : Prop :=
  signed=false ∧ width=.k16bit ∧ 0x8000 ≤ threadContext.register16 .kDX

instance (signed : Bool) (width : FEBitWidth) (threadContext : FEThreadContext F) :
    Decidable (Misextended signed width threadContext) := by
  unfold Misextended
  infer_instance

def exactQuotient (signed : Bool) (threadContext : FEThreadContext F) {width : FEBitWidth}
    (d : BitVec width.bits) : ℤ :=
  (number signed (threadContext.pair width)).tdiv (number signed d)

structure Divided (signed : Bool) {width : FEBitWidth} (d : BitVec width.bits)
    (s t : FEProcess F) : Prop where
  result : IsDivision (number signed (s.currentThread.pair width)) (number signed d)
    (number signed (t.currentThread.read width.accumulator width))
    (number signed (t.currentThread.read width.extension width))
  unchanged : ChangesOnly [width.accumulator,width.extension] width s t

theorem toNat_pair_k16bit (threadContext : FEThreadContext F) :
    (threadContext.pair .k16bit).toNat=
      (threadContext.register16 .kDX).toNat*2^16+(threadContext.register16 .kAX).toNat :=
  threadContext.toNat_pair .k16bit

theorem toNat_dividend_k16bit (threadContext : FEThreadContext F) :
    (dividend false threadContext .k16bit).toNat=(threadContext.pair .k16bit).toNat+
      if 0x8000 ≤ threadContext.register16 .kDX then 2^64-2^32 else 0 := by
  have hpair := toNat_pair_k16bit threadContext
  have hax := (threadContext.register16 .kAX).isLt
  have hlt : (threadContext.pair .k16bit).toNat<2^64 :=
    (threadContext.pair .k16bit).isLt.trans (by decide)
  have hmsb : (threadContext.pair .k16bit).msb=decide (0x8000 ≤ threadContext.register16 .kDX) := by
    rw [BitVec.msb_eq_decide,hpair]
    apply decide_eq_decide.mpr
    show 2^31 ≤ _ ↔ (0x8000 : U16).toNat ≤ _
    rw [show (0x8000 : U16).toNat=32768 from rfl]
    omega
  have hextend : (dividend false threadContext .k16bit).toNat=
    ((threadContext.pair .k16bit).signExtend 64).toNat := rfl
  rw [hextend,BitVec.toNat_signExtend,BitVec.toNat_setWidth,Nat.mod_eq_of_lt hlt,hmsb]
  simp only [decide_eq_true_eq]
  rfl

theorem number_dividend (threadContext : FEThreadContext F)
    (h : ¬Misextended signed width threadContext) :
    number signed (dividend signed threadContext width)=
      number signed (threadContext.pair width) := by
  have hbits : width.bits+width.bits ≤ 64 := by
    have hle := width.bits_le
    omega
  by_cases hmixed : signed=false ∧ width=.k16bit
  · obtain ⟨rfl,rfl⟩ := hmixed
    have hdx : ¬0x8000 ≤ threadContext.register16 .kDX := fun hdx => h ⟨rfl,rfl,hdx⟩
    have hnat := toNat_dividend_k16bit threadContext
    rw [if_neg hdx,Nat.add_zero] at hnat
    exact congrArg Nat.cast hnat
  · have hsame : (signed || decide (width=.k16bit))=signed := by
      cases signed <;> simp_all
    rw [dividend,hsame,number_extend hbits]

theorem number_divisor (signed : Bool) (d : BitVec width.bits) : number signed (extend signed 64 d)=
    number signed d :=
  number_extend (width.bits_le.trans (by decide)) d

theorem extend_ne_zero {d : BitVec width.bits} (hd : d≠0) : extend signed 64 d≠0 := by
  intro hzero
  have hnumber := number_divisor signed d
  rw [number_eq_zero.mpr hzero] at hnumber
  exact hd (number_eq_zero.mp hnumber.symm)

/-- The quotient 2^63, which no host register holds. -/
def MinByMinusOne (signed : Bool) (threadContext : FEThreadContext F) {width : FEBitWidth}
    (d : BitVec width.bits) : Prop :=
  signed=true ∧ number signed (threadContext.pair width)= -2^63 ∧ number signed d= -1

instance (signed : Bool) (threadContext : FEThreadContext F) {width : FEBitWidth}
    (d : BitVec width.bits) :
    Decidable (MinByMinusOne signed threadContext d) := by
  unfold MinByMinusOne
  infer_instance

theorem overflows_iff (threadContext : FEThreadContext F) (d : BitVec width.bits) :
    Overflows signed (dividend signed threadContext width) (extend signed 64 d) ↔
      MinByMinusOne signed threadContext d := by
  apply and_congr_right
  rintro rfl
  have hgood : ¬Misextended true width threadContext := fun h => by cases h.1
  rw [←number_dividend threadContext hgood,←number_divisor true d,
    ←number_inj true,←number_inj true]
  rfl

theorem not_minByMinusOne {threadContext : FEThreadContext F} {d : BitVec width.bits}
    (hfits : Fits signed width.bits (exactQuotient signed threadContext d)) :
    ¬MinByMinusOne signed threadContext d := by
  rintro ⟨rfl,hpair,hd⟩
  rw [exactQuotient,hpair,hd] at hfits
  have hrange : Int.tdiv (-2^63) (-1)<2^(width.bits-1) := hfits.2
  have hwidth : (2 : ℤ)^(width.bits-1) ≤ 2^31 :=
    pow_le_pow_right₀ (by decide) (by have hle := width.bits_le; omega)
  exact absurd (hrange.trans_le hwidth) (by decide)

theorem number_quotient_operands {threadContext : FEThreadContext F} {d : BitVec width.bits}
    (hgood : ¬Misextended signed width threadContext)
    (hmin : ¬MinByMinusOne signed threadContext d) :
    number signed (quotient signed (dividend signed threadContext width) (extend signed 64 d))=
      exactQuotient signed threadContext d := by
  rw [number_quotient,number_dividend threadContext hgood,number_divisor]
  · rfl
  · intro hsigned
    rw [←overflows_iff] at hmin
    by_contra hcorner
    rw [not_or,not_not,not_not] at hcorner
    exact hmin ⟨hsigned,hcorner⟩

def afterDivision (signed : Bool) (s : FEProcess F) {width : FEBitWidth}
    (d : BitVec width.bits) : FEProcess F :=
  let a := dividend signed s.currentThread width
  let b := extend signed 64 d
  s.withThread ((s.currentThread.write width.accumulator ((quotient signed a b).setWidth
    width.bits)).write
    width.extension ((remainder signed a b).setWidth width.bits))

theorem execute_returns {d : BitVec width.bits} (h : IsGroup3 op (if signed then 7 else 6) width)
    (hload : loadArg2 op env s=.ok (d.setWidth 32,s)) (hd : d≠0)
    (hmin : ¬MinByMinusOne signed s.currentThread d)
    (hfits : env.build=.release ∨ Fits signed width.bits
      (number signed (quotient signed (dividend signed s.currentThread width)
        (extend signed 64 d)))) :
    execute op env s=.ok (.jumpToNextInstr,afterDivision signed s d) := by
  rw [execute_run h hload,Exec.bind_run (divide_returns (extend_ne_zero hd)
    (mt (overflows_iff _ d).mp hmin) hfits)]
  exact setResult_run width _

theorem read_accumulator (signed : Bool) (s : FEProcess F) (d : BitVec width.bits) :
    (afterDivision signed s d).currentThread.read width.accumulator width=
      (quotient signed (dividend signed s.currentThread width)
        (extend signed 64 d)).setWidth width.bits := by
  show FEThreadContext.read (FEThreadContext.write _ _ _) _ _=_
  rw [FEThreadContext.read_write_of_apart _ width.extension_apart,FEThreadContext.read_write_self]

theorem read_extension (signed : Bool) (s : FEProcess F) (d : BitVec width.bits) :
    (afterDivision signed s d).currentThread.read width.extension width=
      (remainder signed (dividend signed s.currentThread width)
        (extend signed 64 d)).setWidth width.bits :=
  FEThreadContext.read_write_self _ _ _

/-- Where the dividend is extended the right way, the halves of the result are quotient and
remainder. -/
theorem divided_afterDivision {d : BitVec width.bits} (hd : d≠0)
    (hgood : ¬Misextended signed width s.currentThread)
    (hfits : Fits signed width.bits (exactQuotient signed s.currentThread d)) :
    Divided signed d s (afterDivision signed s d) where
  result := by
    have hbits : width.bits ≤ 64 := width.bits_le.trans (by decide)
    have hquotient := number_quotient_operands hgood (not_minByMinusOne hfits)
    have hnonneg : signed=false→0 ≤ number signed (s.currentThread.pair width) := by
      rintro rfl
      exact Int.natCast_nonneg _
    have hne : number signed d≠0 := mt number_eq_zero.mp hd
    have hremainder := number_remainder signed (dividend signed s.currentThread width)
      (extend signed 64 d)
    rw [number_dividend _ hgood,number_divisor] at hremainder
    rw [read_accumulator,read_extension,number_setWidth hbits,number_setWidth hbits,
      hquotient,hremainder,wrap_of_fits width.bits_pos hfits,
        wrap_of_fits width.bits_pos (fits_tmod hnonneg (fits_number signed d) hne)]
    exact isDivision_tdiv _ hne
  unchanged := changesOnly_write_pair s _ _ _ _

/-- A power of two between the divisor's bits and the surplus. -/
theorem dvd_of_mul_eq {d k : ℕ} (hd : d<2^16) (h : d*k=2^64-2^32) : 2^16∣k := by
  have hd0 : d≠0 := by
    rintro rfl
    simp at h
  obtain ⟨a,m,hodd,rfl⟩ := Nat.exists_eq_two_pow_mul_odd hd0
  have hpow : 2^a<2^16 := (Nat.le_mul_of_pos_right _ hodd.pos).trans_lt hd
  have ha : a<16 := (Nat.pow_lt_pow_iff_right (by decide)).mp hpow
  have hsplit : 2^a*2^(32-a)=2^32 := by rw [←pow_add,Nat.add_sub_cancel' (by omega)]
  have hdvd : 2^a*2^(32-a)∣2^a*(m*k) := by
    rw [hsplit,←mul_assoc,h]
    exact ⟨2^32-1,by decide⟩
  have hmk := Nat.dvd_of_mul_dvd_mul_left (by positivity) hdvd
  have hcoprime : Nat.Coprime (2^(32-a)) m := Nat.Coprime.pow_left _ (Nat.coprime_two_left.mpr hodd)
  exact (pow_dvd_pow 2 (by omega)).trans (hcoprime.dvd_of_dvd_mul_left hmk)

/-- The low halves of a quotient and a remainder by `d` of a dividend that is too large by
`2^64-2^32`. -/
theorem surplus_iff {n d : ℕ} (hpos : 0<d) (hd : d<2^16) (hfits : n/d<2^16) :
    (n+(2^64-2^32))/d%2^16=n/d ∧ (n+(2^64-2^32))%d%2^16=n%d ↔ d∣2^64-2^32 := by
  constructor
  · rintro ⟨_,hmod⟩
    rw [Nat.mod_eq_of_lt ((Nat.mod_lt _ hpos).trans hd)] at hmod
    have hmodeq : n+(2^64-2^32)≡n+0 [MOD d] := hmod
    exact Nat.modEq_zero_iff_dvd.mp (Nat.ModEq.add_left_cancel' n hmodeq)
  · rintro ⟨k,hk⟩
    obtain ⟨j,rfl⟩ := dvd_of_mul_eq hd hk.symm
    rw [hk,Nat.add_mul_div_left _ _ hpos,Nat.add_mul_mod_self_left,Nat.add_mul_mod_self_left,
      Nat.mod_eq_of_lt hfits,Nat.mod_eq_of_lt ((Nat.mod_lt _ hpos).trans hd)]
    exact ⟨rfl,rfl⟩

section Misextension
variable {d : BitVec FEBitWidth.k16bit.bits}

theorem toNat_misextended (hdx : 0x8000 ≤ s.currentThread.register16 .kDX) :
    (dividend false s.currentThread .k16bit).toNat=
      (s.currentThread.pair .k16bit).toNat+(2^64-2^32) := by
  rw [toNat_dividend_k16bit,if_pos hdx]

theorem toNat_extend (d : BitVec FEBitWidth.k16bit.bits) : (extend false 64 d).toNat=d.toNat := by
  show (d.setWidth 64).toNat=d.toNat
  rw [BitVec.toNat_setWidth,Nat.mod_eq_of_lt (d.isLt.trans (by decide : 2^16<2^64))]

theorem not_fits_misextended (hd : d≠0) (hdx : 0x8000 ≤ s.currentThread.register16 .kDX) :
    ¬Fits false FEBitWidth.k16bit.bits
      (number false (quotient false (dividend false s.currentThread .k16bit)
        (extend false 64 d))) := by
  have hpos : 0<d.toNat := Nat.pos_of_ne_zero fun h => hd (BitVec.eq_of_toNat_eq h)
  have hlt : d.toNat<2^16 := d.isLt
  have hvalue : number false (quotient false (dividend false s.currentThread .k16bit)
    (extend false 64 d))=
      (((s.currentThread.pair .k16bit).toNat+(2^64-2^32))/d.toNat : ℕ) := by
    show (((dividend false s.currentThread .k16bit)/(extend false 64 d)).toNat : ℤ)=_
    rw [BitVec.toNat_udiv,toNat_misextended hdx,toNat_extend]
  have hlarge : 2^16 ≤ ((s.currentThread.pair .k16bit).toNat+(2^64-2^32))/d.toNat :=
    (Nat.le_div_iff_mul_le hpos).mpr (by omega)
  rw [hvalue]
  rintro ⟨_,hsmall⟩
  have hsmall' : ((s.currentThread.pair .k16bit).toNat+(2^64-2^32))/d.toNat<2^16 := by
    exact_mod_cast hsmall
  omega

/-- In a build without assertions the wrong dividend does no harm to the divisors of the surplus. -/
theorem divided_misextended_iff (hd : d≠0) (hdx : 0x8000 ≤ s.currentThread.register16 .kDX)
    (hfits : Fits false FEBitWidth.k16bit.bits (exactQuotient false s.currentThread d)) :
    Divided false d s (afterDivision false s d) ↔ d.toNat∣2^64-2^32 := by
  have hpos : 0<d.toNat := Nat.pos_of_ne_zero fun h => hd (BitVec.eq_of_toNat_eq h)
  have hlt : d.toNat<2^16 := d.isLt
  have hsmall : (s.currentThread.pair .k16bit).toNat/d.toNat<2^16 := by
    have hrange : ((s.currentThread.pair .k16bit).toNat : ℤ).tdiv (d.toNat : ℤ)<2^16 := hfits.2
    rw [Int.tdiv_eq_ediv_of_nonneg (Int.natCast_nonneg _)] at hrange
    exact_mod_cast hrange
  have hquotient : ((afterDivision false s d).currentThread.read .kAX .k16bit).toNat=
      ((s.currentThread.pair .k16bit).toNat+(2^64-2^32))/d.toNat%2^16 := by
    rw [←toNat_misextended hdx,←toNat_extend d,←BitVec.toNat_udiv]
    exact congrArg BitVec.toNat (read_accumulator false s d)
  have hremainder : ((afterDivision false s d).currentThread.read .kDX .k16bit).toNat=
      ((s.currentThread.pair .k16bit).toNat+(2^64-2^32))%d.toNat%2^16 := by
    rw [←toNat_misextended hdx,←toNat_extend d,←BitVec.toNat_umod]
    exact congrArg BitVec.toNat (read_extension false s d)
  rw [←surplus_iff hpos hlt hsmall,←hquotient,←hremainder,←isDivision_natCast hpos]
  constructor
  · intro h
    exact h.result
  · intro h
    exact ⟨h,changesOnly_write_pair s _ _ _ _⟩

end Misextension

/-- A division whose quotient fits leaves quotient and remainder, unless a 16-bit `DIV` reads a
dividend with its top bit set; without assertions that does harm only where the divisor does not
divide the surplus of the sign extension. -/
theorem division_correct_iff (signed : Bool) (d : BitVec width.bits)
    (h : IsGroup3 op (if signed then 7 else 6) width)
    (hload : loadArg2 op env s=.ok (d.setWidth 32,s)) (hd : d≠0)
    (hfits : Fits signed width.bits (exactQuotient signed s.currentThread d)) :
    (∃t,execute op env s=.ok (.jumpToNextInstr,t) ∧ Divided signed d s t) ↔
      ¬(Misextended signed width s.currentThread ∧ (env.build=.debug ∨ ¬d.toNat∣2^64-2^32)) := by
  have hmin := not_minByMinusOne hfits
  by_cases hgood : Misextended signed width s.currentThread
  · have hmisextended := hgood
    obtain ⟨rfl,rfl,hdx⟩ := hgood
    have hlarge := not_fits_misextended hd hdx
    cases hbuild : env.build with
    | debug =>
      have hstop : execute op env s=.error (.assertion,s) := by
        rw [execute_run h hload]
        exact Exec.bind_stops (divide_asserts hbuild (mt (overflows_iff _ d).mp hmin)
          (Or.inr hlarge))
      refine iff_of_false ?_ (not_not_intro ⟨hmisextended,Or.inl rfl⟩)
      rintro ⟨t,ht,_⟩
      rw [hstop] at ht
      cases ht
    | release =>
      have hrun := execute_returns h hload hd hmin (Or.inl hbuild)
      have hiff := divided_misextended_iff hd hdx hfits
      constructor
      · rintro ⟨t,ht,hdivided⟩ ⟨_,hbad⟩
        rw [hrun] at ht
        cases ht
        exact hbad.elim (fun hdebug => by cases hdebug) fun hdvd => hdvd (hiff.mp hdivided)
      · intro hharmless
        have hdvd : d.toNat∣2^64-2^32 := not_not.mp fun hdvd => hharmless ⟨hmisextended,Or.inr hdvd⟩
        exact ⟨_,hrun,hiff.mpr hdvd⟩
  · have hfits' := number_quotient_operands hgood hmin ▸ hfits
    refine iff_of_true ⟨_,execute_returns h hload hd hmin (Or.inr hfits'),
      divided_afterDivision hd hgood hfits⟩ ?_
    exact fun hbad => hgood hbad.1

theorem division_correct_seven : ∃t,
    execute (group3OnECX 6 .k32bit) (.bare .debug) (withOperands [7] [2] [])=
      .ok (.jumpToNextInstr,t) ∧
    Divided false (2 : BitVec FEBitWidth.k32bit.bits) (withOperands [7] [2] []) t :=
  (division_correct_iff false (2 : BitVec FEBitWidth.k32bit.bits) (group3OnECX_isGroup3 6 .k32bit)
    (group3OnECX_load 6 (by decide +kernel)) (by decide) (by decide +kernel)).mpr
    (by decide +kernel)

/-- `div cx` of 0x80000000 by 0x9000: the quotient is 0xe38e. -/
theorem division_stops :
    exactQuotient false (withOperands [] [0,0x90] [0,0x80]).currentThread
      (0x9000 : BitVec FEBitWidth.k16bit.bits)=
      0xe38e ∧
    Fits false FEBitWidth.k16bit.bits 0xe38e ∧
    ¬∃t,execute (group3OnECX 6 .k16bit) (.bare .debug) (withOperands [] [0,0x90] [0,0x80])=
      .ok (.jumpToNextInstr,t) ∧
      Divided false (0x9000 : BitVec FEBitWidth.k16bit.bits)
      (withOperands [] [0,0x90] [0,0x80]) t := by
  refine ⟨by decide +kernel,by decide,?_⟩
  rintro ⟨t,ht,_⟩
  have hstop : execute (group3OnECX 6 .k16bit) (.bare .debug) (withOperands [] [0,0x90] [0,0x80])=
      .error (.assertion,withOperands [] [0,0x90] [0,0x80]) := rfl
  rw [hstop] at ht
  cases ht

/-- The divide error is reached exactly for the operands that have no quotient, in the state before
the instruction and before a host division that traps. -/
structure DivideErrorExact (signed : Bool) (env : Environment F) (op : DISASM) (s : FEProcess F)
    {width : FEBitWidth} (d : BitVec width.bits) : Prop where
  reached : (∃t,execute op env s=.error (.assertion,t)) ↔
    d=0 ∨ ¬Fits signed width.bits (exactQuotient signed s.currentThread d)
  unchanged : ∀t,execute op env s=.error (.assertion,t)→t=s
  beforeHost : ∀t,execute op env s≠.error (.undefinedBehaviour,t)

theorem divideErrorExact_of_stop {d : BitVec width.bits}
    (hstop : execute op env s=.error (.assertion,s)) :
    DivideErrorExact signed env op s d ↔ d=0 ∨
    ¬Fits signed width.bits (exactQuotient signed s.currentThread d) := by
  constructor
  · intro h
    exact h.reached.mp ⟨s,hstop⟩
  · intro h
    refine ⟨iff_of_true ⟨s,hstop⟩ h,?_,?_⟩ <;> intro t ht <;> rw [hstop] at ht <;> cases ht
    rfl

theorem divideErrorExact_of_return {d : BitVec width.bits} {t : FEProcess F}
    (hrun : execute op env s=.ok (.jumpToNextInstr,t)) (hd : d≠0)
    (hfits : Fits signed width.bits (exactQuotient signed s.currentThread d)) :
    DivideErrorExact signed env op s d := by
  refine ⟨iff_of_false ?_ (by tauto),?_,?_⟩
  · rintro ⟨u,hu⟩
    rw [hrun] at hu
    cases hu
  · intro u hu
    rw [hrun] at hu
    cases hu
  · intro u hu
    rw [hrun] at hu
    cases hu

theorem fits_pair_k16bit_iff {d : BitVec FEBitWidth.k16bit.bits} (hd : d≠0) :
    Fits false FEBitWidth.k16bit.bits (exactQuotient false s.currentThread d) ↔
      (s.currentThread.register16 .kDX).toNat<d.toNat := by
  have hpos : 0<d.toNat := Nat.pos_of_ne_zero fun h => hd (BitVec.eq_of_toNat_eq h)
  have hax := (s.currentThread.register16 .kAX).isLt
  have hvalue : exactQuotient false s.currentThread d=
    ((s.currentThread.pair .k16bit).toNat/d.toNat : ℕ) :=
    Int.tdiv_eq_ediv_of_nonneg (Int.natCast_nonneg _)
  have hrange : Fits false FEBitWidth.k16bit.bits (exactQuotient false s.currentThread d) ↔
      (s.currentThread.pair .k16bit).toNat/d.toNat<2^16 := by
    rw [hvalue]
    exact ⟨fun h => by exact_mod_cast h.2,fun h => ⟨Int.natCast_nonneg _,by exact_mod_cast h⟩⟩
  rw [hrange,Nat.div_lt_iff_lt_mul hpos,toNat_pair_k16bit]
  constructor <;> intro h <;> omega

/-- The divide error is exact but for a 16-bit `DIV` of a dividend with its top bit set whose
quotient fits, and for the least double-word dividend divided by -1, where the host traps first. -/
theorem divideError_exact_iff (signed : Bool) (d : BitVec width.bits)
    (h : IsGroup3 op (if signed then 7 else 6) width)
    (hload : loadArg2 op env s=.ok (d.setWidth 32,s)) (hbuild : env.build=.debug) :
    DivideErrorExact signed env op s d ↔
      ¬(Misextended signed width s.currentThread ∧
        (s.currentThread.register16 .kDX).toNat<d.toNat) ∧
      ¬MinByMinusOne signed s.currentThread d := by
  have hexecute := execute_run h hload
  by_cases hmin : MinByMinusOne signed s.currentThread d
  · have htrap : execute op env s=.error (.undefinedBehaviour,s) := by
      rw [hexecute]
      exact Exec.bind_stops (divide_traps ((overflows_iff _ d).mpr hmin))
    exact iff_of_false (fun hexact => hexact.beforeHost s htrap) (fun hgood => hgood.2 hmin)
  have hhost := mt (overflows_iff s.currentThread d).mp hmin
  by_cases hd : d=0
  · have hstop : execute op env s=.error (.assertion,s) := by
      have hzero : extend signed 64 d=0 := by
        exact number_eq_zero.mp (by rw [number_divisor signed d,hd,number_eq_zero])
      rw [hexecute]
      exact Exec.bind_stops (divide_asserts hbuild hhost (Or.inl hzero))
    rw [divideErrorExact_of_stop hstop]
    refine iff_of_true (Or.inl hd) ⟨?_,hmin⟩
    rintro ⟨_,hlt⟩
    rw [hd] at hlt
    exact Nat.not_lt_zero _ hlt
  by_cases hgood : Misextended signed width s.currentThread
  · have hmisextended := hgood
    obtain ⟨rfl,rfl,hdx⟩ := hgood
    have hstop : execute op env s=.error (.assertion,s) := by
      rw [hexecute]
      exact Exec.bind_stops (divide_asserts hbuild hhost (Or.inr (not_fits_misextended hd hdx)))
    rw [divideErrorExact_of_stop hstop,fits_pair_k16bit_iff hd]
    constructor
    · intro hreached
      exact ⟨fun hbad => hreached.resolve_left hd hbad.2,hmin⟩
    · intro hgood
      exact Or.inr fun hlt => hgood.1 ⟨hmisextended,hlt⟩
  · have hquotient := number_quotient_operands hgood hmin
    have hright : ¬(Misextended signed width s.currentThread ∧
      (s.currentThread.register16 .kDX).toNat<d.toNat) ∧
        ¬MinByMinusOne signed s.currentThread d := ⟨fun hbad => hgood hbad.1,hmin⟩
    by_cases hfits : Fits signed width.bits (exactQuotient signed s.currentThread d)
    · have hrun := execute_returns h hload hd hmin (Or.inr (hquotient ▸ hfits))
      exact iff_of_true (divideErrorExact_of_return hrun hd hfits) hright
    · have hstop : execute op env s=.error (.assertion,s) := by
        rw [hexecute]
        exact Exec.bind_stops (divide_asserts hbuild hhost (Or.inr (hquotient ▸ hfits)))
      exact iff_of_true ((divideErrorExact_of_stop hstop).mpr (Or.inr hfits)) hright

theorem divideError_exact_zero :
    DivideErrorExact true (.bare .debug) (group3OnECX 7 .k32bit) (withOperands [7] [] [])
      (0 : BitVec FEBitWidth.k32bit.bits) :=
  (divideError_exact_iff true (0 : BitVec FEBitWidth.k32bit.bits) (group3OnECX_isGroup3 7 .k32bit)
    (group3OnECX_load 7 (by decide +kernel)) rfl).mpr (by decide +kernel)

/-- `idiv ecx` of the least dividend by -1 traps on the host, and `div cx` of 0x80000000 by 0x9000
reports an error for a quotient that fits. -/
theorem divideError_inexact :
    ¬DivideErrorExact true (.bare .debug) (group3OnECX 7 .k32bit)
      (withOperands [] [0xff,0xff,0xff,0xff] [0,0,0,0x80]) (-1 : BitVec FEBitWidth.k32bit.bits) ∧
    ¬DivideErrorExact false (.bare .debug) (group3OnECX 6 .k16bit)
      (withOperands [] [0,0x90] [0,0x80]) (0x9000 : BitVec FEBitWidth.k16bit.bits) := by
  constructor
  · intro h
    exact h.beforeHost _ rfl
  · intro h
    have hreached := h.reached.mp ⟨_,rfl⟩
    revert hreached
    decide +kernel

end Results
end FalloutEmu.Division
