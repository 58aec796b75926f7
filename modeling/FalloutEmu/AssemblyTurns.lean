import FalloutEmu.AssemblyOperands
import FalloutEmu.ConditionCodes
import FalloutEmu.KnownCode

/-! # The turns of the interpreter are the steps of the flat machine -/
namespace FalloutEmu
open ByteStore Emulator
open Assembly (Register Address Operand Source Machine Instruction Binary Comparison Unary)
open KnownCode (Program)
variable {F : Type} {env : Environment F} {s t u : FEProcess F} {m m' : Machine} {op : DISASM}

section Encodings

namespace Assembly

def Binary.number : Binary→ℕ
  | add => 0
  | or => 1
  | adc => 2
  | sbb => 3
  | and => 4
  | sub => 5
  | xor => 6

/-- The opcodes of an operation of the group on double words: with the register second, with the
register first, and with an immediate for `EAX`. -/
def groupOpcodes (number : ℕ) : List U32 :=
  [.ofNat 32 (8*number+1),.ofNat 32 (8*number+3),.ofNat 32 (8*number+5)]

/-- The operations that have a group of their own: opcodes, and the register field in `0xff` and
`0xf7`. -/
def Unary.opcodes : Unary→List U32
  | inc => [0x40,0x41,0x42,0x43,0x44,0x45,0x46,0x47]
  | dec => [0x48,0x49,0x4a,0x4b,0x4c,0x4d,0x4e,0x4f]
  | not | neg => []

def Unary.groupOpcode : Unary→U32
  | inc | dec => 0xff
  | not | neg => 0xf7

def Unary.number : Unary→U32
  | inc => 0
  | dec => 1
  | not => 2
  | neg => 3

end Assembly

def movOpcodes : List U32 := [0x89,0x8b,0xa1,0xa3,0xb8,0xb9,0xba,0xbb,0xbc,0xbd,0xbe,0xbf]

def pushOpcodes : List U32 := [0x50,0x51,0x52,0x53,0x54,0x55,0x56,0x57,0x68]

def popOpcodes : List U32 := [0x58,0x59,0x5a,0x5b,0x5c,0x5d,0x5e,0x5f,0x8f]

def immediat (op : DISASM) : U32 := op.Instruction.Immediat.setWidth 32

/-- The byte behind an instruction of group 1, extended by its sign. -/
def immediateByte (op : DISASM) : U32 := ((immediat op).setWidth 8).signExtend 32

/-- The encodings of the instructions, as the decoder describes them. -/
inductive Encodes (op : DISASM) : Instruction→Prop
  | mov {dst : Operand} {src : Source} (opcode : op.Instruction.Opcode∈movOpcodes)
      (first : IsWritten op.Argument1 dst) (second : IsSource op.Argument2 (immediat op) src)
      (size : op.Argument2.ArgSize=32) : Encodes op (.mov dst src)
  | movImmediate {dst : Operand} {v : U32} (opcode : op.Instruction.Opcode=0xc7)
      (first : IsWritten op.Argument1 dst) (second : IsSource op.Argument2 (immediat op)
        (.immediate v)) :
      Encodes op (.mov dst (.immediate v))
  | push {src : Source} (opcode : op.Instruction.Opcode∈pushOpcodes)
      (second : IsSource op.Argument2 (immediat op) src) (size : op.Argument2.ArgSize=32) :
        Encodes op (.push src)
  | pushByte (opcode : op.Instruction.Opcode=0x6a) (second : IsImmediate op.Argument2 .k8bit) :
      Encodes op (.push (.immediate (immediateByte op)))
  | pop {dst : Operand} (opcode : op.Instruction.Opcode∈popOpcodes)
    (first : IsWritten op.Argument1 dst) :
      Encodes op (.pop dst)
  | binary {operation : Binary} {dst : Operand} {src : Source}
      (opcode : op.Instruction.Opcode∈Assembly.groupOpcodes operation.number)
      (first : IsWritten op.Argument1 dst) (second : IsSource op.Argument2 (immediat op) src)
      (size : op.Argument2.ArgSize=32) : Encodes op (.binary operation dst src)
  | binaryImmediate {operation : Binary} {dst : Operand} {v : U32}
    (opcode : op.Instruction.Opcode=0x81)
      (regopcode : op.Reserved_.REGOPCODE=.ofNat 32 operation.number)
      (first : IsWritten op.Argument1 dst) (second : IsSource op.Argument2 (immediat op)
        (.immediate v))
      (size : op.Argument2.ArgSize=32) : Encodes op (.binary operation dst (.immediate v))
  | binaryByte {operation : Binary} {dst : Operand} (opcode : op.Instruction.Opcode=0x83)
      (regopcode : op.Reserved_.REGOPCODE=.ofNat 32 operation.number)
      (first : IsWritten op.Argument1 dst) (second : IsImmediate op.Argument2 .k8bit) :
      Encodes op (.binary operation dst (.immediate (immediateByte op)))
  | cmp {dst : Operand} {src : Source} (opcode : op.Instruction.Opcode∈Assembly.groupOpcodes 7)
      (first : IsOperand op.Argument1 dst) (second : IsSource op.Argument2 (immediat op) src)
      (size : op.Argument2.ArgSize=32) : Encodes op (.compare .cmp dst src)
  | cmpImmediate {dst : Operand} {v : U32} (opcode : op.Instruction.Opcode=0x81)
      (regopcode : op.Reserved_.REGOPCODE=7)
      (first : IsOperand op.Argument1 dst) (second : IsSource op.Argument2 (immediat op)
        (.immediate v))
      (size : op.Argument2.ArgSize=32) : Encodes op (.compare .cmp dst (.immediate v))
  | cmpByte {dst : Operand} (opcode : op.Instruction.Opcode=0x83)
    (regopcode : op.Reserved_.REGOPCODE=7)
      (first : IsOperand op.Argument1 dst) (second : IsImmediate op.Argument2 .k8bit) :
      Encodes op (.compare .cmp dst (.immediate (immediateByte op)))
  | test {dst : Operand} {src : Source} (opcode : op.Instruction.Opcode∈[0x85,0xa9])
      (first : IsOperand op.Argument1 dst) (second : IsSource op.Argument2 (immediat op) src)
      (size : op.Argument2.ArgSize=32) : Encodes op (.compare .test dst src)
  | unary {operation : Unary} {dst : Operand} (opcode : op.Instruction.Opcode∈operation.opcodes)
      (first : IsWritten op.Argument1 dst) : Encodes op (.unary operation dst)
  | unaryGroup {operation : Unary} {dst : Operand}
    (opcode : op.Instruction.Opcode=operation.groupOpcode)
      (regopcode : op.Reserved_.REGOPCODE=operation.number) (first : IsWritten op.Argument1 dst) :
      Encodes op (.unary operation dst)
  | lea {dst : Register} {address : Address} (opcode : op.Instruction.Opcode=0x8d)
      (first : IsOperand op.Argument1 (.register dst))
        (second : IsOperand op.Argument2 (.memory address)) :
      Encodes op (.lea dst address)
  | jump {target : U32} (opcode : op.Instruction.Opcode∈[0xe9,0xeb])
    (first : IsRelative op target) :
      Encodes op (.jump target)
  | jumpIf {condition : X86.Condition} {target : U32}
      (opcode : op.Instruction.Opcode∈[0x70+ConditionCodes.code condition,
        0xf80+ConditionCodes.code condition])
      (first : IsRelative op target) : Encodes op (.jumpIf condition target)
  | jumpTo {operand : Operand} (opcode : op.Instruction.Opcode=0xff)
    (regopcode : op.Reserved_.REGOPCODE=4)
      (first : IsOperand op.Argument1 operand) : Encodes op (.jumpTo (.operand operand))
  | call {target : U32} (opcode : op.Instruction.Opcode=0xe8) (first : IsRelative op target) :
      Encodes op (.call target)
  | callTo {operand : Operand} (opcode : op.Instruction.Opcode=0xff)
    (regopcode : op.Reserved_.REGOPCODE=2)
      (first : IsOperand op.Argument1 operand) : Encodes op (.callTo (.operand operand))
  | ret (opcode : op.Instruction.Opcode=0xc3) : Encodes op .ret
  | retn {size : U32} (opcode : op.Instruction.Opcode=0xc2)
      (first : IsSource op.Argument1 (immediat op) (.immediate size)) : Encodes op (.retn size)
  | leave (opcode : op.Instruction.Opcode=0xc9) : Encodes op .leave
  | nop (opcode : op.Instruction.Opcode=0x90) : Encodes op .nop

structure Decodes (op : DISASM) (instruction : Instruction) : Prop where
  category : op.Instruction.Category&&&GENERAL_PURPOSE_INSTRUCTION≠0
  encoding : Encodes op instruction

end Encodings

section Straight
variable {dst : Operand} {src : Source}

theorem bitWidth32_run (h : op.Argument1.ArgSize=32) : bitWidth op.Argument1.ArgSize env s=
    .ok (.k32bit,s) := by
  rw [h]
  exact bitWidth_run .k32bit

theorem sameSize_run (h : op.Argument1.ArgSize=32) (h' : op.Argument2.ArgSize=32) :
    assertSameSize op env s=.ok ((),s) :=
  assert_run (decide_eq_true (h.trans h'.symm))

theorem moveAnySize_run (h : Represents s m) (first : IsWritten op.Argument1 dst)
    (second : IsSource op.Argument2 (immediat op) src) (hsafe : (Instruction.mov dst src).Safe m) :
    TakesTo env s (moveAnySize op) .jumpToNextInstr (m.write (m.read src) dst) :=
  .after (h.read_run second hsafe.1) <|
    (h.write_run first hsafe.2 _).bind fun _ ht _ => .pure ht _

theorem mov_run (h : Represents s m) (first : IsWritten op.Argument1 dst)
    (second : IsSource op.Argument2 (immediat op) src) (size : op.Argument2.ArgSize=32)
    (hsafe : (Instruction.mov dst src).Safe m) :
    TakesTo env s (mov op) .jumpToNextInstr (m.write (m.read src) dst) :=
  .after (sameSize_run first.1.size size) (moveAnySize_run h first second hsafe)

theorem pushArg_run (h : Represents s m) {v : U32} {width : FEBitWidth}
    (hload : loadArg2 op env s=.ok (v,s)) (hsize : op.Argument2.ArgSize=width.argSize)
    (hwidth : width=.k32bit ∨ width=.k8bit ∧ (v.setWidth 8).signExtend 32=v)
    (hstack : (m.register .esp-4).toNat∈m.stack) :
    TakesTo env s (pushArg op) .jumpToNextInstr (m.push v) := by
  have hpush : (push v width : Emulator F Unit)=push32 v := by
    rcases hwidth with rfl | ⟨rfl,hv⟩
    · rfl
    · conv_rhs => rw [←hv]
      rfl
  rw [pushArg]
  refine .after hload (.after (a:=width) ?_ ?_)
  · rw [hsize]
    exact bitWidth_run width
  · rw [hpush]
    exact (h.push32_run hstack v).bind fun _ ht _ => .pure ht _

theorem popArg_run (h : Represents s m) (first : IsWritten op.Argument1 dst)
    (hsafe : (Instruction.pop dst).Safe m) :
    TakesTo env s (popArg op) .jumpToNextInstr ((m.drop 4).write m.top dst) :=
  .after (bitWidth32_run first.1.size) <| (h.pop32_run hsafe.1).bind fun _ ht _ =>
    (ht.write_run first hsafe.2 _).bind fun _ hu _ => .pure hu _

/-- The end of every instruction that stores a result of two operands. -/
theorem storeBinary_run (h : Represents s m) (operation : Binary)
    (first : IsWritten op.Argument1 dst) (hsafe : (Instruction.binary operation dst src).Safe m)
    {v : U32} (hv : v=m.read src) :
    let result := operation.host (m.value dst) (m.read src) m.flags
      (env.undefinedFlags s.instructionCounter)
    TakesTo env s (do
      let stored ← binary operation.host (m.value dst) v .k32bit
      storeValueInArg op.Argument1 stored
      return .jumpToNextInstr : Emulator F Flow) .jumpToNextInstr ((m.withFlags result.2).write
        result.1 dst) := by
  subst hv
  exact (h.binary_run operation.host _ _).bind fun _ ht _ =>
    (ht.write_run (m:=m.withFlags _) first hsafe.1 _).bind fun _ hu _ => .pure hu _

theorem binaryInstruction_run (h : Represents s m) (operation : Binary)
    (first : IsWritten op.Argument1 dst) (second : IsSource op.Argument2 (immediat op) src)
    (size : op.Argument2.ArgSize=32) (hsafe : (Instruction.binary operation dst src).Safe m) :
    let result := operation.host (m.value dst) (m.read src) m.flags
      (env.undefinedFlags s.instructionCounter)
    TakesTo env s (binaryInstruction operation.host op) .jumpToNextInstr
      ((m.withFlags result.2).write result.1 dst) :=
  .after (sameSize_run first.1.size size) <| .after (h.value_run first.1 hsafe.1 _) <|
    .after (h.read_run second hsafe.2) <| .after (bitWidth32_run first.1.size)
      (storeBinary_run h operation first hsafe rfl)

theorem group1_number (operation : Binary) : group1 (.ofNat 32 operation.number)=
    some (@Binary.host operation) := by
  cases operation <;> rfl

theorem instruction8081_run (h : Represents s m) (operation : Binary)
    (regopcode : op.Reserved_.REGOPCODE=.ofNat 32 operation.number)
    (first : IsWritten op.Argument1 dst) (second : IsSource op.Argument2 (immediat op) src)
    (size : op.Argument2.ArgSize=32) (hsafe : (Instruction.binary operation dst src).Safe m) :
    let result := operation.host (m.value dst) (m.read src) m.flags
      (env.undefinedFlags s.instructionCounter)
    TakesTo env s (instruction8081 op) .jumpToNextInstr ((m.withFlags result.2).write
      result.1 dst) := by
  intro result
  rw [instruction8081,regopcode,group1_number]
  exact .after (sameSize_run first.1.size size) <| .after (bitWidth32_run first.1.size) <|
    .after (h.value_run first.1 hsafe.1 _) <| .after (h.read_run second hsafe.2)
      (storeBinary_run h operation first hsafe rfl)

theorem setWidth_immediateByte (op : DISASM) :
    ((immediateByte op).setWidth 8).signExtend 32=immediateByte op := by
  have hback : ((immediat op).setWidth 8).signExtend 32=
    (((immediat op).setWidth 8).signExtend 32).setWidth 32 :=
    (BitVec.setWidth_eq _).symm
  rw [immediateByte,setWidth_signExtend (by decide),BitVec.signExtend_eq]

theorem immediateByte_run (h : IsImmediate op.Argument2 .k8bit) :
    loadArg2 op env s=.ok (immediateByte op,s) :=
  h.load _

theorem instruction83_run (h : Represents s m) (operation : Binary)
    (regopcode : op.Reserved_.REGOPCODE=.ofNat 32 operation.number)
    (first : IsWritten op.Argument1 dst) (second : IsImmediate op.Argument2 .k8bit)
    (hsafe : (Instruction.binary operation dst (.immediate (immediateByte op))).Safe m) :
    let result := operation.host (m.value dst) (m.read (.immediate (immediateByte op))) m.flags
      (env.undefinedFlags s.instructionCounter)
    TakesTo env s (instruction83 op) .jumpToNextInstr ((m.withFlags result.2).write
      result.1 dst) := by
  intro result
  rw [instruction83,regopcode,group1_number]
  exact .after (assert_run (decide_eq_true second.constant)) <|
    .after (assert_run (decide_eq_true second.size)) <|
    .after (bitWidth32_run first.1.size) <| .after (h.value_run first.1 hsafe.1 _) <|
    .after (immediateByte_run second)
      (storeBinary_run h operation first hsafe (setWidth_immediateByte op))

/-- The end of every instruction that keeps the flags of two operands. -/
theorem compareFlags_run (h : Represents s m) (operation : Comparison) {v : U32}
    (hv : v=m.read src) :
    let result := operation.host (m.value dst) (m.read src) m.flags
      (env.undefinedFlags s.instructionCounter)
    TakesTo env s (do
      let _ ← binary operation.host (m.value dst) v .k32bit
      return .jumpToNextInstr : Emulator F Flow) .jumpToNextInstr (m.withFlags result.2) := by
  subst hv
  exact (h.binary_run operation.host _ _).bind fun _ ht _ => .pure ht _

theorem compareInstruction_run (h : Represents s m) (operation : Comparison)
    (first : IsOperand op.Argument1 dst) (second : IsSource op.Argument2 (immediat op) src)
    (size : op.Argument2.ArgSize=32) (hsafe : (Instruction.compare operation dst src).Safe m) :
    let result := operation.host (m.value dst) (m.read src) m.flags
      (env.undefinedFlags s.instructionCounter)
    TakesTo env s (compareInstruction operation.host op) .jumpToNextInstr (m.withFlags result.2) :=
  .after (sameSize_run first.size size) <| .after (h.value_run first hsafe.1 _) <|
    .after (h.read_run second hsafe.2) <| .after (bitWidth32_run first.size)
      (compareFlags_run h operation rfl)

theorem compare8081_run (h : Represents s m) (regopcode : op.Reserved_.REGOPCODE=7)
    (first : IsOperand op.Argument1 dst) (second : IsSource op.Argument2 (immediat op) src)
    (size : op.Argument2.ArgSize=32) (hsafe : (Instruction.compare .cmp dst src).Safe m) :
    let result := Comparison.cmp.host (m.value dst) (m.read src) m.flags
      (env.undefinedFlags s.instructionCounter)
    TakesTo env s (instruction8081 op) .jumpToNextInstr (m.withFlags result.2) := by
  intro result
  rw [instruction8081,regopcode]
  exact .after (sameSize_run first.size size) <| .after (bitWidth32_run first.size) <|
    .after (h.value_run first hsafe.1 _) <| .after (h.read_run second hsafe.2)
      (compareFlags_run h .cmp rfl)

theorem compare83_run (h : Represents s m) (regopcode : op.Reserved_.REGOPCODE=7)
    (first : IsOperand op.Argument1 dst) (second : IsImmediate op.Argument2 .k8bit)
    (hsafe : (Instruction.compare .cmp dst (.immediate (immediateByte op))).Safe m) :
    let result := Comparison.cmp.host (m.value dst) (m.read (.immediate (immediateByte op))) m.flags
      (env.undefinedFlags s.instructionCounter)
    TakesTo env s (instruction83 op) .jumpToNextInstr (m.withFlags result.2) := by
  intro result
  rw [instruction83,regopcode]
  exact .after (assert_run (decide_eq_true second.constant)) <|
    .after (assert_run (decide_eq_true second.size)) <|
    .after (bitWidth32_run first.size) <| .after (h.value_run first hsafe.1 _) <|
    .after (immediateByte_run second) (compareFlags_run h .cmp (setWidth_immediateByte op))

/-- The end of every instruction that stores a result of one operand. -/
theorem storeUnary_run (h : Represents s m) (operation : Unary) (first : IsWritten op.Argument1 dst)
    (hsafe : (Instruction.unary operation dst).Safe m) :
    let result := operation.host (m.value dst) m.flags
    TakesTo env s (do
      let stored ← unary operation.host (m.value dst) .k32bit
      storeValueInArg op.Argument1 stored
      return .jumpToNextInstr : Emulator F Flow) .jumpToNextInstr ((m.withFlags result.2).write
        result.1 dst) :=
  (h.unary_run operation.host _).bind fun _ ht _ =>
    (ht.write_run (m:=m.withFlags _) first hsafe _).bind fun _ hu _ => .pure hu _

theorem unaryInstruction_run (h : Represents s m) (operation : Unary)
    (first : IsWritten op.Argument1 dst) (hsafe : (Instruction.unary operation dst).Safe m) :
    let result := operation.host (m.value dst) m.flags
    TakesTo env s (unaryInstruction operation.host op) .jumpToNextInstr
      ((m.withFlags result.2).write result.1 dst) :=
  .after (h.value_run first.1 hsafe _) <| .after (bitWidth32_run first.1.size)
    (storeUnary_run h operation first hsafe)

theorem unaryGroup_run (h : Represents s m) (operation : Unary)
    (category : op.Instruction.Category&&&GENERAL_PURPOSE_INSTRUCTION≠0)
    (opcode : op.Instruction.Opcode=operation.groupOpcode)
    (regopcode : op.Reserved_.REGOPCODE=operation.number) (first : IsWritten op.Argument1 dst)
    (hsafe : (Instruction.unary operation dst).Safe m) :
    let result := operation.host (m.value dst) m.flags
    TakesTo env s (execute op) .jumpToNextInstr ((m.withFlags result.2).write result.1 dst) := by
  intro result
  have hselectFF : select (generalBranches (F:=F)) 0xff=some instructionFF := rfl
  have hselectF7 : select (generalBranches (F:=F)) 0xf7=some instructionF7 := rfl
  cases operation with
  | inc =>
    have hregopcode : op.Reserved_.REGOPCODE=0 := regopcode
    rw [execute_of_opcode category opcode hselectFF,instructionFF]
    refine .after (h.value_run first.1 hsafe _) ?_
    dsimp only
    rw [if_neg (by rw [hregopcode]; decide),if_pos hregopcode]
    exact .after (bitWidth32_run first.1.size) (storeUnary_run h .inc first hsafe)
  | dec =>
    have hregopcode : op.Reserved_.REGOPCODE=1 := regopcode
    rw [execute_of_opcode category opcode hselectFF,instructionFF]
    refine .after (h.value_run first.1 hsafe _) ?_
    dsimp only
    rw [if_neg (by rw [hregopcode]; decide),if_neg (by rw [hregopcode]; decide),if_pos hregopcode]
    exact .after (bitWidth32_run first.1.size) (storeUnary_run h .dec first hsafe)
  | not =>
    have hregopcode : op.Reserved_.REGOPCODE=2 := regopcode
    rw [execute_of_opcode category opcode hselectF7,instructionF7,if_pos hregopcode]
    exact unaryInstruction_run h .not first hsafe
  | neg =>
    have hregopcode : op.Reserved_.REGOPCODE=3 := regopcode
    rw [execute_of_opcode category opcode hselectF7,instructionF7,
      if_neg (by rw [hregopcode]; decide),
      if_pos hregopcode]
    exact unaryInstruction_run h .neg first hsafe

theorem lea_run (h : Represents s m) {r : Register} {address : Address}
    (first : IsOperand op.Argument1 (.register r))
    (second : IsOperand op.Argument2 (.memory address)) :
    TakesTo env s (lea op) .jumpToNextInstr (m.set r (m.address address)) := by
  obtain ⟨_,hmemory,hsize,haddress⟩ := second
  have hregister : IsRegister F op.Argument1 r.name .k32bit := first.isRegister
  have hname : register32FromArgtype op.Argument1.ArgType op.Argument1.ArgPosition env s=
    .ok (r.name,s) := by
    rw [first.2.1]
    exact r.fromArgtype (.inr first.1)
  exact .after (assert_run (decide_eq_true hmemory)) <|
    .after (assert_run (decide_eq_true hsize)) <|
    .after (assert_run (decide_eq_true hregister.register)) <|
      .after (assert_run (decide_eq_true hregister.general)) <|
    .after (assert_run (decide_eq_true first.size)) <| .after (address_run h haddress) <|
      .after hname <|
    (h.setRegister32_run r _).bind fun _ ht _ => .pure ht _

theorem leave_run (h : Represents s m) (hsafe : Instruction.leave.Safe m) :
    let frame := m.set .esp (m.register .ebp)
    TakesTo env s (leave op) .jumpToNextInstr ((frame.drop 4).set .ebp frame.top) := by
  intro frame
  have hstack : (frame.register .esp).toNat∈frame.stack := by
    simpa [frame,Instruction.Safe] using hsafe
  exact .after (h.register32_run .ebp) <| (h.setRegister32_run .esp _).bind fun _ ht _ =>
    (ht.pop32_run hstack).bind fun _ hu _ => (hu.setRegister32_run .ebp _).bind fun _ hv
      _ => .pure hv _

end Straight

section Opcodes

/-- The `switch` has one body behind the opcodes. -/
def Selects (opcodes : List U32) (body : DISASM→Emulator F Flow) : Prop :=
  ∀opcode∈opcodes,select generalBranches opcode=some body

theorem selects_mov : Selects (F:=F) movOpcodes mov := by
  simp only [Selects,movOpcodes,List.forall_mem_cons]
  exact ⟨rfl,rfl,rfl,rfl,rfl,rfl,rfl,rfl,rfl,rfl,rfl,rfl,by simp⟩

theorem selects_push : Selects (F:=F) pushOpcodes pushArg := by
  simp only [Selects,pushOpcodes,List.forall_mem_cons]
  exact ⟨rfl,rfl,rfl,rfl,rfl,rfl,rfl,rfl,rfl,by simp⟩

theorem selects_pop : Selects (F:=F) popOpcodes popArg := by
  simp only [Selects,popOpcodes,List.forall_mem_cons]
  exact ⟨rfl,rfl,rfl,rfl,rfl,rfl,rfl,rfl,rfl,by simp⟩

theorem selects_binary (operation : Binary) :
    Selects (F:=F) (Assembly.groupOpcodes operation.number) (binaryInstruction operation.host) := by
  cases operation <;>
    exact List.forall_mem_cons.mpr ⟨rfl,List.forall_mem_cons.mpr ⟨rfl,
      List.forall_mem_cons.mpr ⟨rfl,by simp⟩⟩⟩

theorem selects_cmp : Selects (F:=F) (Assembly.groupOpcodes 7)
    (compareInstruction Comparison.cmp.host) :=
  List.forall_mem_cons.mpr ⟨rfl,List.forall_mem_cons.mpr ⟨rfl,
    List.forall_mem_cons.mpr ⟨rfl,by simp⟩⟩⟩

theorem selects_test : Selects (F:=F) [0x85,0xa9] (compareInstruction Comparison.test.host) :=
  List.forall_mem_cons.mpr ⟨rfl,List.forall_mem_cons.mpr ⟨rfl,by simp⟩⟩

theorem selects_unary (operation : Unary) :
    Selects (F:=F) operation.opcodes (unaryInstruction operation.host) := by
  cases operation <;> simp only [Selects,Unary.opcodes,List.forall_mem_cons]
  case not | neg => simp
  all_goals exact ⟨rfl,rfl,rfl,rfl,rfl,rfl,rfl,rfl,by simp⟩

theorem selects_jmp : Selects (F:=F) [0xe9,0xeb] jmp :=
  List.forall_mem_cons.mpr ⟨rfl,List.forall_mem_cons.mpr ⟨rfl,by simp⟩⟩

end Opcodes
end FalloutEmu
