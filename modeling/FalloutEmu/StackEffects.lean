import FalloutEmu.FPUOperands
import FalloutEmu.Runs
import FalloutEmu.TagWord

/-! # What the x87 instructions do to the tags -/
namespace FalloutEmu.StackEffects
open Emulator TagWord
open RegisterStack (topCell top_setFlag top_clearFlag)
open FPUOperands (NamesST fpuRegisterFromArgtype_run)
variable {F : Type}

def tagsOf (s : FEProcess F) : Tags := tags s.currentThread.fpu

section Acts
variable {α β : Type} {f g : Tags→Tags}

/-- Every return of the program has done this to the tags. -/
def Acts (f : Tags→Tags) (x : Emulator F α) : Prop :=
  ∀env s a t,x env s=.ok (a,t)→tagsOf t=f (tagsOf s)

theorem Acts.bind {x : Emulator F α} {k : α→Emulator F β} (hx : Acts f x) (hk : ∀a,Acts g (k a)) :
    Acts (fun v => g (f v)) (x >>= k) := by
  intro env s b t h
  obtain ⟨a,u,hu,h⟩ := Exec.bind_eq_ok.mp h
  rw [hk a env u b t h,hx env s a u hu]

theorem Acts.after {x : Emulator F α} {k : α→Emulator F β} (hx : Acts id x) (hk : ∀a,Acts g (k a)) :
    Acts g (x >>= k) :=
  .bind hx hk

theorem acts_of_within {x : Emulator F α} (h : x.Within Eq) : Acts id x := by
  intro env s a t ht
  obtain rfl : s=t := h env s a t ht
  rfl

theorem Acts.read {x : Emulator F α} {k : α→Emulator F β} (hx : x.Within Eq)
    (hk : ∀a,Acts g (k a)) :
    Acts g (x >>= k) :=
  .after (acts_of_within hx) hk

theorem Acts.readFloat {k : HostFloat F→Emulator F β} (hk : ∀a,Acts g (k a)) :
    Acts g (float >>= k) :=
  .read float_within hk

theorem Acts.readRegister {i : FEFPURegisterName} {k : F→Emulator F β} (hk : ∀a,Acts g (k a)) :
    Acts g (fpuRegister i >>= k) :=
  .read (fpuRegister_within i) hk

theorem Acts.named {argtype : U32} {i : FEFPURegisterName} {k : FEFPURegisterName→Emulator F β}
    (h : NamesST argtype i) (hk : Acts g (k i)) :
    Acts g (fpuRegisterFromArgtype argtype >>= k) := by
  intro env s b t ht
  rw [Exec.bind_run (fpuRegisterFromArgtype_run h)] at ht
  exact hk env s b t ht

theorem Acts.ignored {argtype : U32} {k : FEFPURegisterName→Emulator F β} (hk : ∀i,Acts g (k i)) :
    Acts g (fpuRegisterFromArgtype argtype >>= k) :=
  .read (fpuRegisterFromArgtype_within argtype) hk

theorem acts_setFPU {change : FEFPU F→FEFPU F} (h : ∀fpu,tags (change fpu)=f (tags fpu)) :
    Acts f (setFPU change : Emulator F Unit) := by
  intro env s a t ht
  cases ht
  exact h s.currentThread.fpu

theorem acts_setFPURegister (i : FEFPURegisterName) (v : F) :
    Acts (StackEffect.apply · (.write i)) (setFPURegister i v) :=
  acts_setFPU fun fpu => tags_setRegister fpu i v

theorem acts_incrementTop : Acts (StackEffect.apply · .popUntagged)
    (setFPU FEFPU.incrementTop : Emulator F Unit) :=
  acts_setFPU tags_incrementTop

theorem acts_popTagged : Acts (StackEffect.apply · .popTagged) (popTagged : Emulator F Unit) :=
  acts_setFPU tags_popTagged

/-- A push writes the new top after `TOP` has moved. -/
theorem acts_push {k : Unit→Emulator F Unit} (hk : ∀a,Acts (StackEffect.apply · (.write 0)) (k a)) :
    Acts (StackEffect.apply · .push) (setFPU FEFPU.decrementTop >>= k) := by
  intro env s a t h
  obtain ⟨_,u,hu,h⟩ := Exec.bind_eq_ok.mp h
  cases hu
  rw [hk () env _ a t h]
  exact (tags_setRegister _ 0 (s.currentThread.fpu.data 0)).symm.trans (tags_push _ _)

theorem acts_pushReal (v : F) : Acts (StackEffect.apply · .push) (pushReal v) :=
  acts_push fun _ => acts_setFPURegister 0 v

theorem tags_setFlag (fpu : FEFPU F) (flag : FEFPUFlag) : tags (fpu.setFlag flag)=tags fpu := by
  rw [tags,tags,topCell,topCell,top_setFlag]
  rfl

theorem tags_clearFlag (fpu : FEFPU F) (flag : FEFPUFlag) : tags (fpu.clearFlag flag)=tags fpu := by
  rw [tags,tags,topCell,topCell,top_clearFlag]
  rfl

theorem acts_compareFlags (st0 source : F) : Acts id (compareFlags st0 source) := by
  refine .readFloat fun float => acts_setFPU fun fpu => ?_
  dsimp only
  split
  · simp only [tags_clearFlag,id]
  · split
    · simp only [tags_setFlag,tags_clearFlag,id]
    · simp only [tags_setFlag,tags_clearFlag,id]

end Acts

section Stores
variable {α β : Type}

theorem acts_setRegister (name : FERegisterName) (v : U32) (width : FEBitWidth) :
    Acts id (setRegister name v width : Emulator F Unit) := by
  intro env s a t h
  cases h
  cases width <;> rfl

theorem acts_setRegister16 (name : FERegisterName) (v : U16) :
    Acts id (setRegister16 name v : Emulator F Unit) := by
  intro env s a t h
  cases h
  rfl

theorem acts_store (write : Memory DisasmContext→Except Stop (Memory DisasmContext)) :
    Acts id (store write : Emulator F Unit) := by
  intro env s a t h
  obtain ⟨memory,u,hget,h⟩ := Exec.bind_eq_ok.mp h
  cases hget
  obtain ⟨memory,u,hwrite,h⟩ := Exec.bind_eq_ok.mp h
  obtain ⟨_,rfl⟩ := Exec.ofExcept_eq_ok.mp hwrite
  cases h
  rfl

theorem acts_ite {c : Prop} [Decidable c] {f : Tags→Tags} {x y : Emulator F α} (hx : Acts f x)
    (hy : Acts f y) :
    Acts f (if c then x else y) := by
  split
  · exact hx
  · exact hy

theorem acts_storeReal (arg : ARGTYPE) (n v : ℕ) : Acts id (storeReal arg n v : Emulator F Unit) :=
  .read (addressFromArgtype_within _) fun _ => acts_store _

theorem acts_storeArg (v : U32) (addressArg : ARGTYPE) (width : FEBitWidth) :
    Acts id (storeArg v addressArg width : Emulator F Unit) := by
  cases width <;>
    exact .read (assertMemoryArg_within _ _) fun _ => .read (assert_within _) fun _ =>
      .read (addressFromArgtype_within _) fun _ => acts_store _

theorem acts_storeValueInArg (arg : ARGTYPE) (v : U32) :
    Acts id (storeValueInArg arg v : Emulator F Unit) :=
  acts_ite
    (acts_ite
      (.read (bitWidth_within _) fun _ => .read (registerFromArgtype_within _ _ _) fun _ =>
        acts_setRegister _ _ _)
      (acts_ite
        (.read (firstRegister_within _ _ _) fun _ => .read (bitWidth_within _) fun _ =>
          acts_setRegister _ _ _)
        (acts_of_within (assert_within _))))
    (acts_ite (.read (bitWidth_within _) fun _ => acts_storeArg _ _ _)
      (acts_of_within (assert_within _)))

end Stores

section Tables

def stOf (modrm : U8) : FEFPURegisterName := Fin.ofNat 8 modrm.toNat

/-- The effects of `instruction_fpu_dc`; nothing is said of what is not implemented. -/
def effectsDC (regopcode : U32) (modrm : U8) : Option (List StackEffect) :=
  if modrm ≤ 0xbf then
    if regopcode=0 then some [.write 0]
    else if regopcode=1 then some [.write 0]
    else if regopcode=2 ∨ regopcode=3 then some (if regopcode=3 then [.popUntagged] else [])
    else if regopcode=4 then some [.write 0]
    else if regopcode=6 then some [.write 0]
    else if regopcode=7 then some [.write 0]
    else none
  else if registerForm modrm=(0xe0,false) then some [.write (stOf modrm)]
  else none

/-- The effects of `instruction_fpu_d8`. -/
def effectsD8 (regopcode : U32) (modrm : U8) : Option (List StackEffect) :=
  if modrm ≤ 0xbf then
    if regopcode=0 then some [.write 0]
    else if regopcode=1 then some [.write 0]
    else if regopcode=4 then some [.write 0]
    else if regopcode=6 then some [.write 0]
    else none
  else if registerForm modrm=(0xc0,false) then some [.write 0]
  else if registerForm modrm=(0xd0,false) then some [.popUntagged]
  else if registerForm modrm=(0xe0,true) then some [.write 0]
  else if registerForm modrm=(0xf0,true) then some [.write 0]
  else none

/-- The effects of `instruction_fpu_df`. -/
def effectsDF (regopcode : U32) (modrm : U8) : Option (List StackEffect) :=
  if modrm ≤ 0xbf then
    if regopcode=5 then some [.push]
    else if regopcode=7 then some [.popTagged]
    else none
  else if modrm=0xe0 then some []
  else none

/-- The effects of `instruction_fpu_dd`. -/
def effectsDD (regopcode : U32) (modrm : U8) : Option (List StackEffect) :=
  if modrm ≤ 0xbf then
    if regopcode=0 then some [.push]
    else if regopcode=2 then some []
    else if regopcode=3 then some [.popTagged]
    else if regopcode=7 then some []
    else none
  else if registerForm modrm=(0xd0,false) then some [.write (stOf modrm),.popTagged]
  else none

/-- The effects of `instruction_fpu_de`. -/
def effectsDE (_ : U32) (modrm : U8) : Option (List StackEffect) :=
  if modrm ≤ 0xbf then none
  else if registerForm modrm=(0xc0,true) then some [.write (stOf modrm),.popUntagged]
  else if registerForm modrm=(0xc0,false) then some [.write 1,.popUntagged]
  else if modrm=0xd9 then some [.popUntagged,.popUntagged]
  else if registerForm modrm=(0xe0,false) then some [.write 1,.popUntagged]
  else if registerForm modrm=(0xf0,false) then some [.write (stOf modrm),.popTagged]
  else none

/-- The effects of the memory forms of `instruction_fpu_d9`. -/
def memoryEffectsD9 (regopcode : U32) : Option (List StackEffect) :=
  if regopcode=0 then some [.push]
  else if regopcode=2 then some []
  else if regopcode=5 then some []
  else if regopcode=7 then some []
  else none

def registerEffectsD9 (modrm : U8) : Option (List StackEffect) :=
  if modrm=0xe0 then some [.write 0]
  else if modrm=0xe1 then some [.write 0]
  else if modrm=0xe4 then some []
  else if modrm=0xe8 then some [.push]
  else if modrm=0xea then some [.push]
  else if modrm=0xed then some [.push]
  else if modrm=0xee then some [.push]
  else if modrm=0xf0 then some [.write 0]
  else if modrm=0xf1 then some [.write 1]
  else if modrm=0xfc then some [.write 0]
  else if modrm=0xfd then some [.write 0]
  else none

/-- The effects of `instruction_fpu_d9`. -/
def effectsD9 (regopcode : U32) (modrm : U8) : Option (List StackEffect) :=
  if modrm ≤ 0xbf then memoryEffectsD9 regopcode
  else if registerForm modrm=(0xc0,true) then some [.push]
  else if registerForm modrm=(0xc0,false) then some [.write 0,.write 1]
  else registerEffectsD9 modrm

/-- The effects of `instruction_fpu_db`; `FNINIT` starts a run anew. -/
def effectsDB (regopcode : U32) (modrm : U8) : Option (List StackEffect) :=
  if modrm ≤ 0xbf then
    if regopcode=0 then some [.push]
    else if regopcode=3 then some [.popTagged]
    else none
  else none

end Tables

section Handlers

/-- Every return of the instruction has had the effects, where there are any to speak of. -/
def Does (effects : Option (List StackEffect)) (x : Emulator F Unit) : Prop :=
  ∀es,effects=some es→Acts (fun v => es.foldl StackEffect.apply v) x

namespace Does
variable {x y : Emulator F Unit}

theorem none : Does .none x := by
  intro es h
  cases h

theorem some {es : List StackEffect} (h : Acts (fun v => es.foldl StackEffect.apply v) x) :
    Does (.some es) x := by
  intro es' he
  cases he
  exact h

theorem ite {c : Prop} [Decidable c] {E E' : Option (List StackEffect)} (hx : Does E x)
    (hy : Does E' y) :
    Does (if c then E else E') (if c then x else y) := by
  split
  · exact hx
  · exact hy

theorem read {α : Type} {E : Option (List StackEffect)} {z : Emulator F α} {k : α→Emulator F Unit}
    (hz : z.Within Eq) (hk : ∀a,Does E (k a)) : Does E (z >>= k) := by
  intro es he
  exact .read hz fun a => hk a es he

/-- The first branch may rely on its condition. -/
theorem iteOf {c : Prop} [Decidable c] {E E' : Option (List StackEffect)} (hx : c→Does E x)
    (hy : Does E' y) :
    Does (if c then E else E') (if c then x else y) := by
  split
  next hc => exact hx hc
  next => exact hy

end Does

variable {op : DISASM} {modrm : U8}

theorem acts_combineDouble (combine : HostFloat F→F→BitVec 64→F) :
    Acts (StackEffect.apply · (.write 0)) (combineDouble op combine) :=
  .readRegister fun _ => .read (loadDouble_within _) fun _ => .readFloat fun _ =>
    acts_setFPURegister 0 _

theorem acts_combineFloat (combine : HostFloat F→U32→U32→U32) :
    Acts (StackEffect.apply · (.write 0)) (combineFloat op combine : Emulator F Unit) :=
  .readFloat fun _ => .readRegister fun _ => .read (loadFloat_within _) fun _ =>
    acts_setFPURegister 0 _

theorem acts_combineRegister (arg : ARGTYPE) (combine : HostFloat F→F→F→F) :
    Acts (StackEffect.apply · (.write 0)) (combineRegister arg combine) :=
  .ignored fun _ => .readRegister fun _ => .readRegister fun _ => .readFloat fun _ =>
    acts_setFPURegister 0 _

theorem acts_combineIntoST1 (combine : HostFloat F→F→F→F) :
    Acts (fun v => StackEffect.apply (StackEffect.apply v (.write 1)) .popUntagged)
    (combineIntoST1 combine) :=
  .readRegister fun _ => .readRegister fun _ => .readFloat fun _ =>
    .bind (acts_setFPURegister 1 _) fun _ => acts_incrementTop

/-- The opcodes and forms whose handlers write to the register that their operand names. -/
def operandForms : List (U32×U8×Bool) :=
  [(0xdc,0xe0,false),(0xdd,0xd0,false),(0xde,0xc0,true),(0xde,0xf0,false)]

abbrev WritesOperand (opcode : U32) (modrm : U8) : Prop := (opcode,registerForm modrm)∈operandForms

/-- The decoder names the register that `modrm` selects. -/
def Named (op : DISASM) (modrm : U8) : Prop := NamesST op.Argument1.ArgType (stOf modrm)

theorem instructionFPUDC_does (h : registerForm modrm=(0xe0,false)→Named op modrm) :
    Does (effectsDC op.Reserved_.REGOPCODE modrm)
    (instructionFPUDC op modrm : Emulator F Unit) := by
  refine .ite ?_ (.iteOf (fun hform => .some ?_) .none)
  · refine .ite (.some (acts_combineDouble _)) <| .ite (.some (acts_combineDouble _)) <|
      .ite (.some ?_) <|
      .ite (.some (acts_combineDouble _)) <| .ite (.some (acts_combineDouble _)) <|
      .ite (.some (acts_combineDouble _)) .none
    refine .readRegister fun _ => .read (loadDouble_within _) fun _ => .readFloat fun _ =>
      .after (acts_compareFlags _ _) fun _ => ?_
    split
    · exact acts_incrementTop
    · exact acts_of_within (.pure _)
  · exact .named (h hform) <| .readRegister fun _ => .readRegister fun _ => .readFloat fun _ =>
      acts_setFPURegister _ _

theorem instructionFPUD8_does :
    Does (effectsD8 op.Reserved_.REGOPCODE modrm)
    (instructionFPUD8 op modrm : Emulator F Unit) := by
  refine .ite ?_ <| .ite (.some (acts_combineRegister _ _)) <| .ite (.some ?_) <|
    .ite (.some (acts_combineRegister _ _)) <| .ite (.some (acts_combineRegister _ _)) .none
  · refine .ite (.some (acts_combineFloat _)) <| .ite (.some ?_) <|
      .ite (.some (acts_combineFloat _)) <|
      .ite (.some (acts_combineFloat _)) .none
    exact .readRegister fun _ => .read (loadFloat_within _) fun _ => .readFloat fun _ =>
      acts_setFPURegister 0 _
  · exact .ignored fun _ => .readRegister fun _ => .readRegister fun _ =>
      .after (acts_compareFlags _ _) fun _ => acts_incrementTop

theorem instructionFPUDF_does :
    Does (effectsDF op.Reserved_.REGOPCODE modrm)
    (instructionFPUDF op modrm : Emulator F Unit) := by
  refine .ite (.ite (.some ?_) <| .ite (.some ?_) .none) (.ite (.some ?_) .none)
  · exact acts_push fun _ => .read (loadDouble_within _) fun _ => .readFloat fun _ =>
      acts_setFPURegister 0 _
  · exact .readRegister fun _ => .readFloat fun _ => .read (assert_within _) fun _ =>
      .after (acts_storeReal _ _ _) fun _ => acts_popTagged
  · exact .read fpu_within fun _ => acts_setRegister16 _ _

theorem instructionFPUDD_does (h : registerForm modrm=(0xd0,false)→Named op modrm) :
    Does (effectsDD op.Reserved_.REGOPCODE modrm)
    (instructionFPUDD op modrm : Emulator F Unit) := by
  refine .ite (.ite (.some ?_) <| .ite (.some ?_) <| .ite (.some ?_) <| .ite (.some ?_) .none)
    (.iteOf (fun hform => .some ?_) .none)
  · exact acts_push fun _ => .read (loadDouble_within _) fun _ => .readFloat fun _ =>
      acts_setFPURegister 0 _
  · exact .readFloat fun _ => .readRegister fun _ => acts_storeReal _ _ _
  · exact .readFloat fun _ => .readRegister fun _ => .after (acts_storeReal _ _ _) fun _ =>
      acts_popTagged
  · exact .read fpu_within fun _ => acts_storeValueInArg _ _
  · exact .named (h hform) <| .readRegister fun _ => .bind (acts_setFPURegister _ _) fun _ =>
      acts_popTagged

theorem instructionFPUDE_does (hadd : registerForm modrm=(0xc0,true)→Named op modrm)
    (hdiv : registerForm modrm=(0xf0,false)→Named op modrm) :
    Does (effectsDE op.Reserved_.REGOPCODE modrm)
    (instructionFPUDE op modrm : Emulator F Unit) := by
  refine .ite .none <| .iteOf (fun hform => .some ?_) <| .ite (.some (acts_combineIntoST1 _)) <|
    .ite (.some ?_) <|
    .ite (.some (acts_combineIntoST1 _)) <| .iteOf (fun hform => .some ?_) .none
  · exact .named (hadd hform) <| .readRegister fun _ => .readRegister fun _ => .readFloat fun _ =>
      .bind (acts_setFPURegister _ _) fun _ => acts_incrementTop
  · exact .readRegister fun _ => .readRegister fun _ => .after (acts_compareFlags _ _) fun _ =>
      .bind acts_incrementTop fun _ => acts_incrementTop
  · exact .named (hdiv hform) <| .readRegister fun _ => .readRegister fun _ => .readFloat fun _ =>
      .bind (acts_setFPURegister _ _) fun _ => acts_popTagged

theorem instructionFPU9B_does : Does (some []) (instructionFPU9B op modrm : Emulator F Unit) :=
  .some (acts_of_within (.pure ()))

theorem memoryFormD9_does : Does (memoryEffectsD9 op.Reserved_.REGOPCODE)
    (memoryFormD9 op : Emulator F Unit) := by
  refine .ite (.some ?_) <| .ite (.some ?_) <| .ite (.some ?_) <| .ite (.some ?_) .none
  · exact acts_push fun _ => .read (loadFloat_within _) fun _ => .readFloat fun _ =>
      acts_setFPURegister 0 _
  · exact .readFloat fun _ => .readRegister fun _ => acts_storeReal _ _ _
  · exact .read (assert_within _) fun _ => .read (loadArgValue_within _ _) fun _ => acts_setFPU
      fun _ => rfl
  · exact .read (assert_within _) fun _ => .read fpu_within fun _ => acts_storeValueInArg _ _

theorem registerFormD9_does : Does (registerEffectsD9 modrm)
    (registerFormD9 modrm : Emulator F Unit) := by
  refine .read float_within fun _ => .read (fpuRegister_within _) fun _ =>
    .read (fpuRegister_within _) fun _ => ?_
  exact .ite (.some (acts_setFPURegister 0 _)) <| .ite (.some (acts_setFPURegister 0 _)) <|
    .ite (.some (acts_compareFlags _ _)) <| .ite (.some (acts_pushReal _)) <|
      .ite (.some (acts_pushReal _)) <|
    .ite (.some (acts_pushReal _)) <| .ite (.some (acts_pushReal _)) <|
      .ite (.some (acts_setFPURegister 0 _)) <|
    .ite (.some (acts_setFPURegister 1 _)) <| .ite (.some (acts_setFPURegister 0 _)) <|
    .ite (.some (acts_setFPURegister 0 _)) .none

theorem instructionFPUD9_does :
    Does (effectsD9 op.Reserved_.REGOPCODE modrm)
    (instructionFPUD9 op modrm : Emulator F Unit) := by
  refine .ite memoryFormD9_does <| .ite (.some ?_) <| .ite (.some ?_) registerFormD9_does
  · exact .ignored fun _ => .readRegister fun _ => acts_pushReal _
  · exact .readRegister fun _ => .readRegister fun _ => .bind (acts_setFPURegister 0 _) fun _ =>
      acts_setFPURegister 1 _

theorem instructionFPUDB_does :
    Does (effectsDB op.Reserved_.REGOPCODE modrm)
    (instructionFPUDB op modrm : Emulator F Unit) := by
  refine .ite (.ite (.some ?_) <| .ite (.some ?_) .none) ?_
  · exact acts_push fun _ => .read (loadArgValue_within _ _) fun _ => .readFloat fun _ =>
      acts_setFPURegister 0 _
  · exact .readRegister fun _ => .readFloat fun _ => .after (acts_storeValueInArg _ _) fun _ =>
      acts_popTagged
  · exact .none

def effects (op : DISASM) (modrm : U8) : Option (List StackEffect) :=
  let opcode := op.Instruction.Opcode
  let regopcode := op.Reserved_.REGOPCODE
  if opcode=0xdb then effectsDB regopcode modrm
  else if opcode=0xd9 then effectsD9 regopcode modrm
  else if opcode=0x9b then some []
  else if opcode=0xd8 then effectsD8 regopcode modrm
  else if opcode=0xdd then effectsDD regopcode modrm
  else if opcode=0xde then effectsDE regopcode modrm
  else if opcode=0xdc then effectsDC regopcode modrm
  else if opcode=0xdf then effectsDF regopcode modrm
  else none

/-- An implemented floating-point instruction, as the decoder describes it. -/
structure Implemented (op : DISASM) (modrm : U8) (es : List StackEffect) : Prop where
  notGeneral : op.Instruction.Category&&&GENERAL_PURPOSE_INSTRUCTION=0
  category : op.Instruction.Category&&&FPU_INSTRUCTION≠0
  operand : WritesOperand op.Instruction.Opcode modrm→Named op modrm
  effects : effects op modrm=some es

/-- Every return of an implemented instruction has had its effects. -/
theorem execute_effects {op : DISASM} {es : List StackEffect} {env : Environment F}
    {s t : FEProcess F} {flow : Flow} (h : Implemented op s.modrm es)
    (hrun : execute op env s=.ok (flow,t)) :
    tagsOf t=es.foldl StackEffect.apply (tagsOf s) := by
  obtain ⟨hgeneral,hcategory,hoperand,heffects⟩ := h
  have hdoes : ∀{opcode body E},op.Instruction.Opcode=opcode→select fpuBranches opcode=some body→
      Does E (body op s.modrm : Emulator F Unit)→E=some es→tagsOf t=es.foldl StackEffect.apply
        (tagsOf s) := by
    intro opcode body E hopcode hselect hbody he
    exact hbody es he env s () t (handler_of_execute hgeneral hcategory hopcode hselect hrun)
  have hnamed : ∀{opcode form},op.Instruction.Opcode=opcode→(opcode,form)∈operandForms→
      registerForm s.modrm=form→Named op s.modrm := by
    intro opcode form hopcode hmem hform
    apply hoperand
    rwa [WritesOperand,hopcode,hform]
  simp only [StackEffects.effects] at heffects
  split at heffects
  next h => exact hdoes h rfl instructionFPUDB_does heffects
  split at heffects
  next h => exact hdoes h rfl instructionFPUD9_does heffects
  split at heffects
  next h => exact hdoes h rfl (@instructionFPU9B_does F op s.modrm) heffects
  split at heffects
  next h => exact hdoes h rfl instructionFPUD8_does heffects
  split at heffects
  next h => exact hdoes h rfl (instructionFPUDD_does (hnamed h (by decide))) heffects
  split at heffects
  next h => exact hdoes h rfl (instructionFPUDE_does (hnamed h (by decide))
    (hnamed h (by decide))) heffects
  split at heffects
  next h => exact hdoes h rfl (instructionFPUDC_does (hnamed h (by decide))) heffects
  split at heffects
  next h => exact hdoes h rfl instructionFPUDF_does heffects
  next => cases heffects

end Handlers

section Runs

/-- An implemented floating-point instruction takes the FPU from one state to another, whatever the
rest of the process has become since the one before. -/
def FPUStep (env : Environment F) (fpu : FEFPU F) (es : List StackEffect) (fpu' : FEFPU F) : Prop :=
  ∃(s t : FEProcess F) (op : DISASM) (flow : Flow),s.currentThread.fpu=fpu ∧
    Implemented op s.modrm es ∧
    execute op env s=.ok (flow,t) ∧ t.currentThread.fpu=fpu'

variable {env : Environment F} {fpu fpu' : FEFPU F} {history : List (List StackEffect)} {d : ℕ}

theorem tags_run (h : Runs (FPUStep env) fpu.fninit history fpu') :
    tags fpu'=history.flatten.foldl StackEffect.apply ⟨fun _ => bits .kEmpty,0⟩ := by
  apply h.history (I:=fun history fpu' => tags fpu'=history.flatten.foldl StackEffect.apply
    ⟨fun _ => bits .kEmpty,0⟩)
  · exact tags_fninit fpu
  · rintro history fpu₁ es fpu₂ hbefore ⟨s,t,op,flow,rfl,himplemented,hrun,rfl⟩
    have hstep : tags t.currentThread.fpu=es.foldl StackEffect.apply (tags s.currentThread.fpu) :=
      execute_effects himplemented hrun
    rw [hstep,hbefore,List.flatten_append,List.foldl_append]
    simp

/-- The tags tell exactly the registers off the stack. -/
def Tracks (fpu : FEFPU F) (d : ℕ) : Prop :=
  ∀p,fpu.tag p=FEFPUTag.kEmpty.number ↔ ¬OnStack (topCell fpu) d p

/-- At most one register is read as empty, so the depth is at least 7; and at the depth 7 the
register 0, the one off the stack, has to have been given back. -/
theorem tracks_run_iff (h : Runs (FPUStep env) fpu.fninit history fpu')
    (hdepth : history.flatten.foldlM (fun d effect => effect.depth d) 0=some d) :
    Tracks fpu' d ↔ d=8 ∨ d=7 ∧ GivenBack history.flatten := by
  have hinvariant := Invariant.run hdepth
  rw [←tags_run h] at hinvariant
  refine Iff.trans (forall_congr' fun p => ?_) (tracks_iff hinvariant)
  rw [tag_eq_iff]
  rfl

/-- After a run from `FNINIT` that keeps the depth of the stack between 0 and 8, the tags tell the
registers off the stack exactly at the depth 8 and, where the register 0 has been given back, at the
depth 7; and a tag is read back as written, and no other has changed, exactly where no tag of
another register is read along with it. -/
theorem tags_track_iff (h : Runs (FPUStep env) fpu.fninit history fpu')
    (hdepth : history.flatten.foldlM (fun d effect => effect.depth d) 0=some d) :
    (Tracks fpu' d ↔ d=8 ∨ d=7 ∧ GivenBack history.flatten) ∧
    ∀(machine : FEFPU F) (p : FEFPURegisterName) (tag : FEFPUTag),
      ((machine.setTag p tag).tag p=tag.number ∧ ∀q,q≠p→(machine.setTag p tag).tag q=
        machine.tag q) ↔
        (∀q,p<q→tagField machine q=0) ∧ (p=0 ∨ tagField machine p=bits tag) :=
  ⟨tracks_run_iff h hdepth,tag_setTag_iff⟩

def fldz : DISASM :=
  { (default : DISASM) with
    Instruction := { (default : INSTRTYPE) with Category := FPU_INSTRUCTION,Opcode := 0xd9 } }

theorem fldz_step (float : HostFloat ℤ) (fpu : FEFPU ℤ) :
    ∃fpu',FPUStep (Environment.ofFloat float) fpu [.push] fpu' := by
  let s := FEProcess.ofFPU fpu 0xee
  have hbody : instructionFPUD9 fldz 0xee (Environment.ofFloat float) s=
      .ok ((),s.withFPU (fpu.decrementTop.setRegister 0 (float.ofUInt64 0))) := rfl
  have hrun := execute_of_handler (s:=s) (by decide) (by decide) rfl rfl hbody
  have himplemented : Implemented fldz 0xee [.push] :=
    ⟨by decide,by decide,fun h => absurd h (by decide : ¬WritesOperand 0xd9 0xee),by decide⟩
  exact ⟨_,s,_,fldz,_,rfl,himplemented,hrun,rfl⟩

theorem fldz_run (float : HostFloat ℤ) (fpu : FEFPU ℤ) (n : ℕ) :
    ∃fpu',Runs (FPUStep (Environment.ofFloat float)) fpu (List.replicate n [.push]) fpu' := by
  induction n with
  | zero => exact ⟨fpu,.start⟩
  | succ n ih =>
    obtain ⟨fpu',hrun⟩ := ih
    obtain ⟨fpu'',hstep⟩ := fldz_step float fpu'
    rw [List.replicate_succ']
    exact ⟨fpu'',.next hrun hstep⟩

/-- After seven pushes the register 0 is the only one that is read as empty. -/
theorem tags_track_seven : ∃fpu : FEFPU ℤ,
    Runs (FPUStep (Environment.ofFloat default))
    (default : FEFPU ℤ).fninit (List.replicate 7 [.push]) fpu ∧
      Tracks fpu 7 := by
  obtain ⟨fpu,hrun⟩ := fldz_run default (default : FEFPU ℤ).fninit 7
  have hgiven : GivenBack (List.replicate 7 [StackEffect.push]).flatten :=
    givenBack_push (List.replicate 6 .push)
  exact ⟨fpu,hrun,(tags_track_iff hrun rfl).1.mpr (Or.inr ⟨rfl,hgiven⟩)⟩

/-- After one push seven registers are off the stack, and only one of them is read as empty. -/
theorem tags_after_push : ¬∀(F : Type) (env : Environment F) (fpu fpu' : FEFPU F)
    (history : List (List StackEffect)) (d : ℕ),Runs (FPUStep env) fpu.fninit history fpu'→
      history.flatten.foldlM (fun d effect => effect.depth d) 0=some d→Tracks fpu' d := by
  intro h
  obtain ⟨fpu,hrun⟩ := fldz_run default (default : FEFPU ℤ).fninit 1
  have htracks := (tracks_run_iff hrun rfl).mp (h ℤ _ _ fpu _ 1 hrun rfl)
  omega

end Runs

end FalloutEmu.StackEffects
