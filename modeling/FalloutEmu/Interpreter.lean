import FalloutEmu.ControlInstructions
import FalloutEmu.FPUInstructions
import FalloutEmu.MultiplyDivide
import FalloutEmu.StringInstructions
import Mathlib.Logic.Relation

/-! # The loop of the interpreter -/
namespace FalloutEmu
namespace Emulator
variable {F : Type}

structure Branch (α : Type) where
  labels : List U32
  body : α

def select {α : Type} (branches : List (Branch α)) (opcode : U32) : Option α :=
  (branches.find? fun branch => opcode∈branch.labels).map Branch.body

def generalBranches : List (Branch (DISASM→Emulator F Flow)) :=
  [⟨[0x88,0x89,0x8a,0x8b,0x8c,0x8e,0xa0,0xa1,0xa2,0xa3,
      0xb0,0xb1,0xb2,0xb3,0xb4,0xb5,0xb6,0xb7,0xb8,0xb9,0xba,0xbb,0xbc,0xbd,0xbe,0xbf],mov⟩,
    ⟨[0x50,0x51,0x52,0x53,0x54,0x55,0x56,0x57,0x6a,0x68],pushArg⟩,
    ⟨[0x0e,0x16,0x1e,0x06,0xfa0,0xfa8],pushSegment⟩,
    ⟨[0x0,0x1,0x2,0x3,0x4,0x5],add⟩,
    ⟨[0x1f,0x07,0x17,0xfa1,0xfa9],popSegment⟩,
    ⟨[0x1c,0x1d,0x18,0x19,0x1a,0x1b],sbb⟩,
    ⟨[0x08,0x09,0xa,0xb,0xc,0xd],or⟩,
    ⟨[0x20,0x21,0x22,0x23,0x24,0x25],and⟩,
    ⟨[0x2c,0x2d,0x28,0x29,0x2a,0x2b],sub⟩,
    ⟨[0x27],daa⟩,
    ⟨[0x2f],das⟩,
    ⟨[0x37],aaa⟩,
    ⟨[0x3f],aas⟩,
    ⟨[0x30,0x31,0x32,0x33,0x34,0x35],xor⟩,
    ⟨[0x38,0x39,0x3a,0x3b,0x3c,0x3d],cmp⟩,
    ⟨[0xfe],incDec⟩,
    ⟨[0x40,0x41,0x42,0x43,0x44,0x45,0x46,0x47],inc⟩,
    ⟨[0x14,0x15,0x10,0x11,0x12,0x13],adc⟩,
    ⟨[0x48,0x49,0x4a,0x4b,0x4c,0x4d,0x4e,0x4f],dec⟩,
    ⟨[0x8f,0x58,0x59,0x5a,0x5b,0x5c,0x5d,0x5e,0x5f],popArg⟩,
    ⟨[0x69,0x6b],imulImmediate⟩,
    ⟨[0xf82,0x72],jc⟩,
    ⟨[0xf80,0x70],jo⟩,
    ⟨[0xf83,0x73],jnc⟩,
    ⟨[0xf84,0x74],je⟩,
    ⟨[0xf85,0x75],jne⟩,
    ⟨[0xf86,0x76],jbe⟩,
    ⟨[0xf87,0x77],jnbe⟩,
    ⟨[0xf88,0x78],js⟩,
    ⟨[0xf89,0x79],jns⟩,
    ⟨[0xf8a,0x7a],jp⟩,
    ⟨[0xf8b,0x7b],jnp⟩,
    ⟨[0xf8c,0x7c],jl⟩,
    ⟨[0x7d,0xf8d],jnl⟩,
    ⟨[0x7f,0xf8f],jg⟩,
    ⟨[0x71,0xf81],jno⟩,
    ⟨[0x7e,0xf8e],jngl⟩,
    ⟨[0x80,0x81],instruction8081⟩,
    ⟨[0x83],instruction83⟩,
    ⟨[0xa8,0xa9,0x84,0x85],test⟩,
    ⟨[0x91,0x92,0x86,0x87],xchg⟩,
    ⟨[0x8d],lea⟩,
    ⟨[0xa6,0xa7],cmps⟩,
    ⟨[0xaf,0xae],scas⟩,
    ⟨[0xaa,0xab],stos⟩,
    ⟨[0xa4,0xa5],movs⟩,
    ⟨[0xac,0xad],lods⟩,
    ⟨[0x90],nop⟩,
    ⟨[0x98],cbw⟩,
    ⟨[0x99],cwd⟩,
    ⟨[0x9c],pushfd⟩,
    ⟨[0x9d],popfd⟩,
    ⟨[0xd1,0xd3,0xc0,0xc1],shift⟩,
    ⟨[0xc3],ret⟩,
    ⟨[0xcb],retFar⟩,
    ⟨[0xc2],retn⟩,
    ⟨[0xca],retnFar⟩,
    ⟨[0xc6,0xc7],movImmediate⟩,
    ⟨[0xc9],leave⟩,
    ⟨[0xd4],aam⟩,
    ⟨[0xd5],aad⟩,
    ⟨[0xe3],jecxz⟩,
    ⟨[0xe9,0xeb],jmp⟩,
    ⟨[0xe8],call⟩,
    ⟨[0xf5],cmc⟩,
    ⟨[0xf6],instructionF6⟩,
    ⟨[0xf7],instructionF7⟩,
    ⟨[0xff],instructionFF⟩,
    ⟨[0xf40],cmovo⟩,
    ⟨[0xf44],cmove⟩,
    ⟨[0xf45],cmovne⟩,
    ⟨[0xf4c],cmovl⟩,
    ⟨[0xf4e],cmovle⟩,
    ⟨[0xf4d],cmovnl⟩,
    ⟨[0xf4f],cmovg⟩,
    ⟨[0xf42],cmovb⟩,
    ⟨[0xf41],cmovno⟩,
    ⟨[0xf43],cmovnb⟩,
    ⟨[0xf4a],cmovp⟩,
    ⟨[0xf4b],cmovnp⟩,
    ⟨[0xf46],cmovbe⟩,
    ⟨[0xf47],cmovnbe⟩,
    ⟨[0xf48],cmovs⟩,
    ⟨[0xf49],cmovns⟩,
    ⟨[0xf97],setnbe⟩,
    ⟨[0xf90],seto⟩,
    ⟨[0xf99],setns⟩,
    ⟨[0xf98],sets⟩,
    ⟨[0xf91],setno⟩,
    ⟨[0xf93],setnb⟩,
    ⟨[0xf92],setb⟩,
    ⟨[0xf96],setbe⟩,
    ⟨[0xf94],sete⟩,
    ⟨[0xf9f],setg⟩,
    ⟨[0xf95],setne⟩,
    ⟨[0xf9a],setp⟩,
    ⟨[0xf9b],setnp⟩,
    ⟨[0xf9c],setl⟩,
    ⟨[0xf9d],setnl⟩,
    ⟨[0xf9e],setle⟩,
    ⟨[0xfaf],imul⟩,
    ⟨[0xfbe,0xfbf],movsx⟩,
    ⟨[0xfb6,0xfb7],movzx⟩,
    ⟨[0xfc],cld⟩,
    ⟨[0xfd],std⟩,
    ⟨[0x9e],sahf⟩,
    ⟨[0xc8],enter⟩]

def fpuBranches : List (Branch (DISASM→U8→Emulator F Unit)) :=
  [⟨[0xdb],instructionFPUDB⟩,
    ⟨[0xd9],instructionFPUD9⟩,
    ⟨[0x9b],instructionFPU9B⟩,
    ⟨[0xd8],instructionFPUD8⟩,
    ⟨[0xdd],instructionFPUDD⟩,
    ⟨[0xde],instructionFPUDE⟩,
    ⟨[0xdc],instructionFPUDC⟩,
    ⟨[0xdf],instructionFPUDF⟩]

def unknownInstruction {α : Type} : Emulator F α := do
  assert false
  Exec.fail .exit

def execute (op : DISASM) : Emulator F Flow :=
  if op.Instruction.Category&&&GENERAL_PURPOSE_INSTRUCTION≠0 then
    match select generalBranches op.Instruction.Opcode with
    | some body => body op
    | none => unknownInstruction
  else if op.Instruction.Category&&&FPU_INSTRUCTION≠0 then do
    match select fpuBranches op.Instruction.Opcode with
    | some body => do
      body op (← Exec.get).modrm
      return .jumpToNextInstr
    | none => unknownInstruction
  else do
    assert false
    return .jumpToNextInstr

def derefOp : Emulator F DISASM := Exec.atomic fun _ s =>
  (s.op.deref s.memory s.dummyOp).map fun op => (op,s)

section Dispatch
variable {env : Environment F} {s t : FEProcess F} {op : DISASM}

/-- An instruction of the first `switch` is the body behind its label. -/
theorem execute_of_opcode {opcode : U32} {body : DISASM→Emulator F Flow}
    (hcategory : op.Instruction.Category&&&GENERAL_PURPOSE_INSTRUCTION≠0)
    (hopcode : op.Instruction.Opcode=opcode) (hselect : select generalBranches opcode=some body) :
    (execute op : Emulator F Flow)=body op := by
  rw [execute,if_pos hcategory,hopcode,hselect]

/-- An instruction of the second `switch` returns when its handler does. -/
theorem execute_of_handler {opcode : U32} {body : DISASM→U8→Emulator F Unit}
    (hgeneral : op.Instruction.Category&&&GENERAL_PURPOSE_INSTRUCTION=0)
    (hfpu : op.Instruction.Category&&&FPU_INSTRUCTION≠0) (hopcode : op.Instruction.Opcode=opcode)
    (hselect : select fpuBranches opcode=some body) (hbody : body op s.modrm env s=.ok ((),t)) :
    execute op env s=.ok (.jumpToNextInstr,t) := by
  rw [execute,if_neg (not_not.mpr hgeneral),if_pos hfpu,hopcode,hselect]
  exact (Exec.bind_run hbody).trans rfl

/-- Conversely, what it returns its handler has returned. -/
theorem handler_of_execute {opcode : U32} {body : DISASM→U8→Emulator F Unit} {flow : Flow}
    (hgeneral : op.Instruction.Category&&&GENERAL_PURPOSE_INSTRUCTION=0)
    (hfpu : op.Instruction.Category&&&FPU_INSTRUCTION≠0) (hopcode : op.Instruction.Opcode=opcode)
    (hselect : select fpuBranches opcode=some body) (hrun : execute op env s=.ok (flow,t)) :
    body op s.modrm env s=.ok ((),t) := by
  rw [execute,if_neg (not_not.mpr hgeneral),if_pos hfpu,hopcode,hselect] at hrun
  obtain ⟨_,u,hget,hrun⟩ := Exec.bind_eq_ok.mp hrun
  cases hget
  obtain ⟨_,u,hbody,hrun⟩ := Exec.bind_eq_ok.mp hrun
  cases hrun
  exact hbody

theorem derefOp_eq_ok : derefOp env s=.ok (op,t) ↔ s.op.deref s.memory s.dummyOp=.ok op ∧ s=t := by
  rw [derefOp,Exec.atomic_eq_ok]
  cases s.op.deref s.memory s.dummyOp <;> simp [Except.map]

end Dispatch

def jumpToNextInstr : Emulator F Unit := do
  let op ← derefOp
  let eip : U32 := op.VirtualAddr.setWidth 32
  setRegister32 .kEIP (eip+BitVec.ofInt 32 (← Exec.get).len)
  updateDisasmFromContext

def iteration : Emulator F Unit := do
  Exec.modify fun s => { s with instructionCounter := s.instructionCounter+1 }
  match ← execute (← derefOp) with
  | .continueLoop => pure ()
  | .jumpToNextInstr => jumpToNextInstr

/-- A turn that the loop condition `!_exit` lets through. -/
def Turn (env : Environment F) (s t : FEProcess F) : Prop :=
  s.exit=false ∧ iteration env s=.ok ((),t)

/-- The states at the top of the loop after `run` has been called in the state `s`. -/
def Reachable (env : Environment F) (s t : FEProcess F) : Prop :=
  ∃u,updateDisasmFromContext env s=.ok ((),u) ∧
    Relation.ReflTransGen (Turn env) { u with instructionCounter := 0 } t

end Emulator
end FalloutEmu
