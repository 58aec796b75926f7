import FalloutEmu.AssemblyTurns
import FalloutEmu.StackFrames

/-! # The interpreter simulates the flat machine -/
namespace FalloutEmu.AssemblySimulation
open ByteStore Emulator
open Assembly (Register Operand Source Machine Instruction)
open KnownCode (Program Entry fetch_delivers)
open ProgramLogic (Leads Trace)
open StackFrames (Layout View Shows Code)
open Repetition (counted iteration_continue iteration_jump)
variable {F : Type} {env : Environment F} {program : Program} {s t u : FEProcess F} {m m' : Machine}
  {op : DISASM}

/-- An instruction of the machine in a program for the interpreter. -/
def entryOf (instruction : Instruction) (length : ℕ) : Entry where
  length := length
  Delivers record len := Decodes record instruction ∧ len=length

/-- The process holds the machine and the program; nothing that the machine may write belongs to the
program, and none of its instructions stands where an import does. -/
structure Holding (program : Program) (s : FEProcess F) (m : Machine) : Prop where
  represents : Represents s m
  loaded : program.Loaded s.memory m.memory
  untouched : ∀a,∀entry∈program.entry a,∀i<entry.length,m.Untouched (a.toNat+i)
  stack : m.stack⊆m.data
  imports : ∀proxy∈s.importsProxy,∀a,(program.entry a).isSome→proxy.isAddressWithinLoadedImports a=
    .ok false
  running : s.exit=false

/-- The process is at an instruction of the program. -/
structure Simulates (program : Program) (s : FEProcess F) (m : Machine) : Prop
  extends Holding program s m where
  eip : s.currentThread.eip=m.eip
  fetched : program.Fetched s

/-- What a step of the machine leaves alone: where it may write, and the bytes of the program. -/
structure Keeps (m m' : Machine) : Prop where
  data : m'.data=m.data
  stack : m'.stack=m.stack
  memory : ∀p,m.Untouched p→m'.memory p=m.memory p

theorem Keeps.exec {instruction : Instruction} (hsafe : instruction.Safe m)
    (hstack : m.stack⊆m.data) (undefined : X86.StatusFlags) (next : U32) :
    Keeps m (instruction.exec undefined m next) where
  data := Instruction.data_exec _ _ _ _
  stack := Instruction.stack_exec _ _ _ _
  memory _ hp := Instruction.memory_exec_of_untouched hsafe hstack hp

/-- What the turns of the machine keep of the process: its blocks and its imports. -/
structure Steady (s t : FEProcess F) : Prop where
  blocks : FEMemoryMap.SameBlocks s.memory.map t.memory.map
  importsProxy : t.importsProxy=s.importsProxy

theorem Steady.refl (s : FEProcess F) : Steady s s := ⟨⟨rfl,rfl,rfl,rfl,rfl⟩,rfl⟩

theorem Steady.trans (h : Steady s t) (k : Steady t u) : Steady s u :=
  ⟨⟨k.blocks.size.trans h.blocks.size,k.blocks.shadow.trans h.blocks.shadow,
    k.blocks.blocks.trans h.blocks.blocks,k.blocks.callback.trans h.blocks.callback,
    k.blocks.rights.trans h.blocks.rights⟩,k.importsProxy.trans h.importsProxy⟩

theorem Steady.of_continues (h : Continues s t) : Steady s t := by
  refine ⟨?_,h.importsProxy⟩
  rw [h.map]
  exact (Steady.refl s).blocks

theorem eip_setEIP (threadContext : FEThreadContext F) (eip : U32) :
    (threadContext.setRegister32 .kEIP eip).eip=eip :=
  threadContext.register32_setRegister32_self .kEIP eip

namespace Holding

theorem continues (h : Holding program s m) (hu : Represents u m') (hsu : Continues s u)
    (hkeeps : Keeps m m') :
    Holding program u m' where
  represents := hu
  loaded := by
    refine ⟨fun a entry hentry i hi => ?_,?_,?_,?_,?_⟩
    · rw [hkeeps.memory _ (h.untouched a entry hentry i hi)]
      exact h.loaded.bytes a entry hentry i hi
    · rw [hsu.map]
      exact h.loaded.blocks
    · rw [hsu.map]
      exact h.loaded.rights
    · rw [hsu.map]
      exact h.loaded.caches
    · rw [hsu.map]
      exact h.loaded.indexes
  untouched a entry hentry i hi := by
    rw [Machine.Untouched,hkeeps.data]
    exact h.untouched a entry hentry i hi
  stack := by
    rw [hkeeps.stack,hkeeps.data]
    exact h.stack
  imports := by
    rw [hsu.importsProxy]
    exact h.imports
  running := hsu.exit.trans h.running

theorem fetch (h : Holding program u m) (hdisasm : program.DecodedBy env.disasm) {target : U32}
    (htarget : (program.entry target).isSome) :
    ∃t,Emulator.updateDisasmFromContext env { u with
      currentThread := u.currentThread.setRegister32 .kEIP target }=
      .ok ((),t) ∧ Simulates program t (m.goto target) ∧ Steady u t := by
  obtain ⟨entry,hentry⟩ := Option.isSome_iff_exists.mp htarget
  have hu := h.represents
  obtain ⟨fetched,hfetch,hhost,hsame,hnext,record,hderef,hdelivers⟩ :=
    fetch_delivers hdisasm hu.memory h.loaded hentry u.dummyOp
  have hmoved : Represents { u with currentThread := u.currentThread.setRegister32 .kEIP target }
    m := hu.of_eip target
  have hmemory : (⟨fetched.memory.map,u.memory.host⟩ : Memory DisasmContext)=fetched.memory := by
    rw [←hhost]
  have hholds := hu.memory.sameBlocks hsame
  rw [hmemory] at hholds
  have hdata : ∀a∈m.data,FlatMemory.InBlock fetched.memory.map a 4 := by
    intro a ha
    obtain ⟨b,hb,hin⟩ := hu.data a ha
    exact ⟨b,by rw [hsame.blocks]; exact hb,hin⟩
  refine ⟨_,Exec.atomic_of_ok (r:=((),{ u with
    currentThread := u.currentThread.setRegister32 .kEIP target
    memory := fetched.memory
    dummyOp := fetched.dummyOp
    op := fetched.op
    len := fetched.len
    modrm := fetched.modrm })) ?_,?_⟩
  · simp only [eip_setEIP,hfetch,ok_bind]
  refine ⟨⟨⟨⟨hmoved.register,hmoved.flags,hmoved.segments,hholds,hdata,?_⟩,hnext,h.untouched,
    h.stack,?_,?_⟩,eip_setEIP _ _,?_⟩,hsame,rfl⟩
  · obtain ⟨b,hb,howned,hsize,hstack⟩ := hu.stack
    refine ⟨b,by rw [hsame.blocks]; exact hb,⟨howned.block,howned.start,howned.base,howned.space,
      ?_⟩,hsize,hstack⟩
    intro a hlow hhigh
    rw [hsame.shadow]
    exact howned.pages a hlow hhigh
  · exact h.imports
  · exact h.running
  · refine ⟨record,hderef,?_⟩
    rw [eip_setEIP]
    exact hdelivers

end Holding

namespace Simulates

theorem counted (h : Simulates program s m) : Simulates program (counted s) m :=
  ⟨⟨⟨h.represents.register,h.represents.flags,h.represents.segments,h.represents.memory,
    h.represents.data,h.represents.stack⟩,h.loaded,h.untouched,h.stack,h.imports,h.running⟩,h.eip,
    h.fetched⟩

theorem fetch (h : Simulates program s m) (hdisasm : program.DecodedBy env.disasm)
    (hu : Represents u m') (hsu : Continues s u) (hkeeps : Keeps m m') {target : U32}
    (htarget : (program.entry target).isSome) :
    ∃t,Emulator.updateDisasmFromContext env { u with
      currentThread := u.currentThread.setRegister32 .kEIP target }=
      .ok ((),t) ∧ Simulates program t (m'.goto target) ∧ Steady s t := by
  obtain ⟨t,hfetch,ht,hut⟩ := (h.toHolding.continues hu hsu hkeeps).fetch hdisasm htarget
  exact ⟨t,hfetch,ht,(Steady.of_continues hsu).trans hut⟩

theorem goto (h : Simulates program s m) (hdisasm : program.DecodedBy env.disasm)
    (hu : Represents u m') (hsu : Continues s u) (hkeeps : Keeps m m') {target : U32}
    (htarget : (program.entry target).isSome) :
    ∃t,Emulator.goto target env u=.ok (.continueLoop,t) ∧ Simulates program t (m'.goto target) ∧
    Steady s t := by
  obtain ⟨t,hfetch,ht⟩ := h.fetch hdisasm hu hsu hkeeps htarget
  have hset : setRegister32 .kEIP target env u=
    .ok ((),{ u with currentThread := u.currentThread.setRegister32 .kEIP target }) := rfl
  exact ⟨t,(Exec.bind_run hset).trans ((Exec.bind_run hfetch).trans rfl),ht⟩

end Simulates

section Turns
variable {instruction : Instruction} {n : ℕ} {next : U32}

structure AtHand (s : FEProcess F) (op : DISASM) (eip next : U32) : Prop where
  deref : s.op.deref s.memory s.dummyOp=.ok op
  address : op.VirtualAddr.setWidth 32=eip
  next : eip+BitVec.ofInt 32 s.len=next

theorem Simulates.atHand (h : Simulates program s m)
    (hentry : program.entry m.eip=some (entryOf instruction n)) :
    ∃op,AtHand s op m.eip (m.eip+.ofNat 32 n) ∧ Decodes op instruction := by
  obtain ⟨op,hderef,entry,hat,haddress,hdelivers⟩ := h.fetched
  rw [h.eip,Option.mem_def,hentry] at hat
  cases hat
  obtain ⟨hdecodes,hlen⟩ := hdelivers
  refine ⟨op,⟨hderef,?_,?_⟩,hdecodes⟩
  · rw [haddress,h.eip,BitVec.setWidth_setWidth_of_le _ (by decide),BitVec.setWidth_eq]
  · rw [hlen]
    rfl

theorem AtHand.continues (h : AtHand s op m.eip next) (hsu : Continues s u) :
    AtHand u op m.eip next := by
  refine ⟨?_,h.address,by rw [hsu.len]; exact h.next⟩
  rw [←h.deref,hsu.op,hsu.dummyOp]
  cases s.op with
  | dummyOp => rfl
  | cached block index => simp only [DisasmPointer.deref,hsu.map]

/-- An instruction that falls through to the next one. -/
theorem Simulates.falls (h : Simulates program s m) (hdisasm : program.DecodedBy env.disasm)
    (hat : AtHand s op m.eip next) (hrun : TakesTo env (Repetition.counted s)
      (execute op) .jumpToNextInstr m')
    (hkeeps : Keeps m m') (hnext : (program.entry next).isSome) :
    ∃t,Turn env s t ∧ Simulates program t (m'.goto next) ∧ Steady s t := by
  obtain ⟨u,hexecute,hu,hsu⟩ := hrun
  have hcounted : AtHand (Repetition.counted s) op m.eip next := ⟨hat.deref,hat.address,hat.next⟩
  have hderef : derefOp env u=.ok (op,u) := derefOp_eq_ok.mpr ⟨(hcounted.continues hsu).deref,rfl⟩
  have htarget : op.VirtualAddr.setWidth 32+BitVec.ofInt 32 u.len=next := by
    rw [hat.address,hsu.len]
    exact hat.next
  obtain ⟨t,hfetch,ht,hst⟩ := h.counted.fetch hdisasm hu hsu hkeeps hnext
  refine ⟨t,⟨h.running,?_⟩,ht,hst.blocks,hst.importsProxy⟩
  rw [iteration_jump hat.deref hexecute,jumpToNextInstr,Exec.bind_run hderef]
  refine (Exec.bind_run (Exec.get_run env u)).trans ?_
  rw [htarget]
  exact (Exec.bind_run (a:=()) rfl).trans hfetch

/-- An instruction that ends with a fetch at its target. -/
theorem Simulates.branches (h : Simulates program s m) (hat : AtHand s op m.eip next)
    (hexecute : execute op env (Repetition.counted s)=.ok (.continueLoop,t)) : Turn env s t :=
  ⟨h.running,iteration_continue hat.deref hexecute⟩

theorem Simulates.goes (h : Simulates program s m) (hdisasm : program.DecodedBy env.disasm)
    (hat : AtHand s op m.eip next) {target : U32}
    (hexecute : execute op env (Repetition.counted s)=Emulator.goto target env u)
    (hu : Represents u m') (hsu : Continues (Repetition.counted s) u) (hkeeps : Keeps m m')
    (htarget : (program.entry target).isSome) :
    ∃t,Turn env s t ∧ Simulates program t (m'.goto target) ∧ Steady s t := by
  obtain ⟨t,hgoto,ht,hst⟩ := h.counted.goto hdisasm hu hsu hkeeps htarget
  exact ⟨t,h.branches hat (hexecute.trans hgoto),ht,hst.blocks,hst.importsProxy⟩

end Turns

section Branches
variable {target next : U32}

/-- The program goes to the target and takes the machine to `m` on the way. -/
def GoesTo (env : Environment F) (s : FEProcess F) (x : Emulator F Flow) (target : U32)
    (m : Machine) : Prop :=
  ∃u,x env s=Emulator.goto target env u ∧ Represents u m ∧ Continues s u

namespace GoesTo
variable {α : Type} {x : Emulator F α} {f : α→Emulator F Flow} {a : α}

theorem goto (h : Represents s m) (target : U32) : GoesTo env s (Emulator.goto target) target m :=
  ⟨s,rfl,h,.refl s⟩

theorem after (hx : x env s=.ok (a,s)) (hf : GoesTo env s (f a) target m) :
    GoesTo env s (x >>= f) target m := by
  obtain ⟨u,hrun,hu⟩ := hf
  exact ⟨u,(Exec.bind_run hx).trans hrun,hu⟩

theorem bind (hx : TakesTo env s x a m) (hf : ∀t,Represents t m→ Continues s t→
    GoesTo env t (f a) target m') :
    GoesTo env s (x >>= f) target m' := by
  obtain ⟨t,hrun,ht,hst⟩ := hx
  obtain ⟨u,hrest,hu,htu⟩ := hf t ht hst
  exact ⟨u,(Exec.bind_run hrun).trans hrest,hu,hst.trans htu⟩

end GoesTo

theorem goto_branchTarget (h : Represents s m) (hrelative : IsRelative op target) :
    GoesTo env s (Emulator.goto (branchTarget op)) target m := by
  rw [branchTarget,hrelative.target]
  exact .goto h target

theorem jmp_goes (h : Represents s m) (hrelative : IsRelative op target) :
    GoesTo env s (jmp op) target m :=
  .after (hrelative.assertRelative_run) <| .after (assert_run (decide_eq_true hrelative.size)) <|
    goto_branchTarget h hrelative

theorem nextEIP_run (hat : AtHand s op m.eip next) (heip : s.currentThread.eip=m.eip) :
    nextEIP env s=.ok (next,s) := by
  have hregister : register32 .kEIP env s=.ok (m.eip,s) := by
    rw [←heip]
    rfl
  rw [nextEIP,Exec.bind_run hregister,Exec.bind_run (Exec.get_run env s),hat.next]
  rfl

theorem call_goes (h : Represents s m) (hat : AtHand s op m.eip next)
    (heip : s.currentThread.eip=m.eip) (hrelative : IsRelative op target)
    (hstack : (m.register .esp-4).toNat∈m.stack) :
    GoesTo env s (call op) target (m.push next) :=
  .after (hrelative.assertRelative_run) <| .after (assert_run (decide_eq_true hrelative.size)) <|
    .after (nextEIP_run hat heip) <| .bind (h.push32_run hstack next) fun _ ht _ =>
      goto_branchTarget ht hrelative

theorem ret_goes (h : Represents s m) (hstack : (m.register .esp).toNat∈m.stack) :
    GoesTo env s (ret op) m.top (m.drop 4) :=
  .bind (h.pop32_run hstack) fun _ ht _ => .goto ht _

theorem jumpIf_run {condition : X86.Condition} (h : Represents s m)
    (hopcode : op.Instruction.Opcode∈[0x70+ConditionCodes.code condition,
      0xf80+ConditionCodes.code condition])
    (hcategory : op.Instruction.Category&&&GENERAL_PURPOSE_INSTRUCTION≠0)
    (hrelative : IsRelative op target) :
    execute op env s=(if condition.holds m.flags then Emulator.goto target
      else pure .jumpToNextInstr) env s := by
  obtain ⟨form,hform,hselect⟩ := ConditionCodes.select_jump (F:=F) condition
  have htest : ConditionCodes.test s.currentThread.cpuFlags condition=condition.holds m.flags := by
    rw [ConditionCodes.test_eq_holds,h.flags]
  have hflags : cpuFlags env s=.ok (s.currentThread.cpuFlags,s) := rfl
  rw [execute_of_opcode hcategory rfl (hselect _ hopcode)]
  simp only [List.mem_cons,List.not_mem_nil,or_false] at hform
  rcases hform with rfl | rfl
  · rw [jump,Exec.bind_run (hrelative.assertRelative_run),
      Exec.bind_run (assert_run (decide_eq_true hrelative.size)),Exec.bind_run hflags,htest,
        branchTarget,hrelative.target]
  · rw [jumpAnySize,Exec.bind_run (hrelative.assertRelative_run),Exec.bind_run hflags,htest,
      branchTarget,hrelative.target]

/-- `instruction_ff` at an address that is not an import. -/
theorem goto_unlessImport (h : Represents s m)
    (himports : ∀proxy∈s.importsProxy,proxy.isAddressWithinLoadedImports target=.ok false) :
    GoesTo env s (do
      match (← Exec.get).importsProxy with
      | some proxy =>
        if ← Exec.ofExcept (proxy.isAddressWithinLoadedImports target) then callImport proxy target
        else Emulator.goto target
      | none => Emulator.goto target : Emulator F Flow) target m := by
  refine .after (Exec.get_run env s) ?_
  cases hproxy : s.importsProxy with
  | none => exact .goto h target
  | some proxy =>
    have hoff : Exec.ofExcept (proxy.isAddressWithinLoadedImports target) env s=.ok (false,s) := by
      rw [himports proxy hproxy]
      rfl
    exact .after hoff (.goto h target)

theorem jumpTo_goes {operand : Operand} (h : Represents s m) (hregopcode : op.Reserved_.REGOPCODE=4)
    (first : IsOperand op.Argument1 operand) (haccess : m.Accessible operand)
    (himports : ∀proxy∈s.importsProxy,proxy.isAddressWithinLoadedImports (m.value operand)=
      .ok false) :
    GoesTo env s (instructionFF op) (m.value operand) m := by
  rw [instructionFF]
  refine .after (h.value_run first haccess _) ?_
  dsimp only
  rw [if_pos (by rw [hregopcode]; decide),if_neg (by rw [hregopcode]; decide)]
  exact .after (a:=()) rfl (goto_unlessImport h himports)

theorem callTo_goes {operand : Operand} (h : Represents s m) (hat : AtHand s op m.eip next)
    (heip : s.currentThread.eip=m.eip) (hregopcode : op.Reserved_.REGOPCODE=2)
    (first : IsOperand op.Argument1 operand) (haccess : m.Accessible operand)
    (hstack : (m.register .esp-4).toNat∈m.stack)
    (himports : ∀proxy∈s.importsProxy,proxy.isAddressWithinLoadedImports (m.value operand)=
      .ok false) :
    GoesTo env s (instructionFF op) (m.value operand) (m.push next) := by
  rw [instructionFF]
  refine .after (h.value_run first haccess _) ?_
  dsimp only
  rw [if_pos (by rw [hregopcode]; decide),if_pos (by rw [hregopcode]; decide)]
  refine .bind (a:=()) (m:=m.push next) (.after (nextEIP_run hat heip) (h.push32_run hstack next))
    fun t ht hst => ?_
  refine goto_unlessImport ht ?_
  rw [hst.importsProxy]
  exact himports

theorem Simulates.setRegister (h : Simulates program s m) (r : Register) (v : U32) :
    Simulates program { s with currentThread := s.currentThread.setRegister32 r.name v }
    (m.set r v) := by
  have heip : (s.currentThread.setRegister32 r.name v).eip=s.currentThread.eip :=
    s.currentThread.eip_setRegister r.leavesEIP v .k32bit
  refine ⟨⟨h.represents.setRegister r v,h.loaded,h.untouched,h.stack,h.imports,h.running⟩,
    heip.trans h.eip,?_⟩
  obtain ⟨record,hderef,hdelivers⟩ := h.fetched
  refine ⟨record,hderef,?_⟩
  rw [heip]
  exact hdelivers

/-- `0xc2`, which adds its operand to `esp` after the fetch. -/
theorem Simulates.retn (h : Simulates program s m) (hdisasm : program.DecodedBy env.disasm)
    {size : U32} (first : IsSource op.Argument1 (immediat op) (.immediate size))
    (hstack : (m.register .esp).toNat∈m.stack) (htarget : (program.entry m.top).isSome) :
    ∃t,retn op env s=.ok (.continueLoop,t) ∧
    Simulates program t (((m.drop 4).drop size).goto m.top) ∧ Steady s t := by
  obtain ⟨u,hpop,hu,hsu⟩ : TakesTo env s pop32 m.top (m.drop 4) := h.represents.pop32_run hstack
  obtain ⟨t,hfetch,ht,hst⟩ := h.fetch hdisasm hu hsu ⟨rfl,rfl,fun _ _ => rfl⟩ htarget
  have hload : loadArg1 op env t=.ok (size,t) := ht.represents.read_run first trivial
  refine ⟨_,?_,ht.setRegister .esp ((m.drop 4).register .esp+size),hst.blocks,hst.importsProxy⟩
  rw [Emulator.retn,Exec.bind_run hpop]
  refine (Exec.bind_run (a:=()) rfl).trans ((Exec.bind_run hfetch).trans
    ((Exec.bind_run hload).trans ?_))
  exact (Exec.bind_run (ht.represents.register32_run .esp)).trans rfl

end Branches

/-- How an instruction ends: at the next one, at a target, or as `0xc2` does. -/
inductive Ends (env : Environment F) (s : FEProcess F) (op : DISASM) (undefined : X86.StatusFlags)
    (m : Machine) (next : U32) (instruction : Instruction) : Prop
  | falls {m' : Machine} (exec : instruction.exec undefined m next=m'.goto next)
      (run : TakesTo env s (execute op) .jumpToNextInstr m')
  | goes {m' : Machine} {target : U32} (exec : instruction.exec undefined m next=m'.goto target)
      (run : GoesTo env s (execute op) target m')
  | retn {size : U32} (exec : instruction.exec undefined m next=((m.drop 4).drop size).goto m.top)
      (run : (execute op : Emulator F Flow)=Emulator.retn op)
      (first : IsSource op.Argument1 (immediat op) (.immediate size))
        (stack : (m.register .esp).toNat∈m.stack)

/-- Every encoding of an instruction does what the machine does. -/
theorem Decodes.ends {instruction : Instruction} {next : U32} (h : Represents s m)
    (hat : AtHand s op m.eip next) (heip : s.currentThread.eip=m.eip)
    (hdecodes : Decodes op instruction) (hsafe : instruction.Safe m)
    (himports : ∀proxy∈s.importsProxy,proxy.isAddressWithinLoadedImports
      (instruction.exec (env.undefinedFlags s.instructionCounter) m next).eip=.ok false) :
    Ends env s op (env.undefinedFlags s.instructionCounter) m next instruction := by
  obtain ⟨hcategory,hencoding⟩ := hdecodes
  have opcode : ∀{n : U32} (body : DISASM→Emulator F Flow),op.Instruction.Opcode=n→
      select generalBranches n=some body→(execute op : Emulator F Flow)=body op :=
    fun _ hopcode hselect => execute_of_opcode hcategory hopcode hselect
  cases hencoding with
  | mov hopcode first second size =>
    refine .falls rfl ?_
    rw [opcode _ rfl (selects_mov _ hopcode)]
    exact mov_run h first second size hsafe
  | movImmediate hopcode first second =>
    refine .falls rfl ?_
    rw [opcode movImmediate hopcode rfl]
    exact moveAnySize_run h first second hsafe
  | push hopcode second size =>
    refine .falls rfl ?_
    rw [opcode _ rfl (selects_push _ hopcode)]
    exact pushArg_run h (h.read_run second hsafe.1) (size.trans rfl) (.inl rfl) hsafe.2
  | pushByte hopcode second =>
    refine .falls rfl ?_
    rw [opcode pushArg hopcode rfl]
    exact pushArg_run h (immediateByte_run second) second.size
      (.inr ⟨rfl,setWidth_immediateByte op⟩) hsafe.2
  | pop hopcode first =>
    refine .falls rfl ?_
    rw [opcode _ rfl (selects_pop _ hopcode)]
    exact popArg_run h first hsafe
  | @binary operation dst src hopcode first second size =>
    refine .falls rfl ?_
    rw [opcode _ rfl (selects_binary operation _ hopcode)]
    exact binaryInstruction_run h operation first second size hsafe
  | @binaryImmediate operation dst v hopcode regopcode first second size =>
    refine .falls rfl ?_
    rw [opcode instruction8081 hopcode rfl]
    exact instruction8081_run h operation regopcode first second size hsafe
  | @binaryByte operation dst hopcode regopcode first second =>
    refine .falls rfl ?_
    rw [opcode instruction83 hopcode rfl]
    exact instruction83_run h operation regopcode first second hsafe
  | cmp hopcode first second size =>
    refine .falls rfl ?_
    rw [opcode _ rfl (selects_cmp _ hopcode)]
    exact compareInstruction_run h .cmp first second size hsafe
  | cmpImmediate hopcode regopcode first second size =>
    refine .falls rfl ?_
    rw [opcode instruction8081 hopcode rfl]
    exact compare8081_run h regopcode first second size hsafe
  | cmpByte hopcode regopcode first second =>
    refine .falls rfl ?_
    rw [opcode instruction83 hopcode rfl]
    exact compare83_run h regopcode first second hsafe
  | test hopcode first second size =>
    refine .falls rfl ?_
    rw [opcode _ rfl (selects_test _ hopcode)]
    exact compareInstruction_run h .test first second size hsafe
  | @unary operation dst hopcode first =>
    refine .falls rfl ?_
    rw [opcode _ rfl (selects_unary operation _ hopcode)]
    exact unaryInstruction_run h operation first hsafe
  | @unaryGroup operation dst hopcode regopcode first =>
    exact .falls rfl (unaryGroup_run h operation hcategory hopcode regopcode first hsafe)
  | lea hopcode first second =>
    refine .falls rfl ?_
    rw [opcode lea hopcode rfl]
    exact lea_run h first second
  | jump hopcode first =>
    refine .goes rfl ?_
    rw [opcode _ rfl (selects_jmp _ hopcode)]
    exact jmp_goes h first
  | @jumpIf condition target hopcode first =>
    have hrun : execute op env s=_ := jumpIf_run h hopcode hcategory first
    cases hcondition : condition.holds m.flags with
    | true =>
      rw [if_pos hcondition] at hrun
      have hexec : (Instruction.jumpIf condition target).exec
        (env.undefinedFlags s.instructionCounter) m next=
          m.goto target := by rw [Instruction.exec,if_pos hcondition]
      exact .goes hexec ⟨s,hrun,h,.refl s⟩
    | false =>
      rw [if_neg (by rw [hcondition]; decide)] at hrun
      have hexec : (Instruction.jumpIf condition target).exec
        (env.undefinedFlags s.instructionCounter) m next=
          m.goto next := by rw [Instruction.exec,if_neg (by rw [hcondition]; decide)]
      exact .falls hexec ⟨s,hrun,h,.refl s⟩
  | jumpTo hopcode regopcode first =>
    refine .goes rfl ?_
    rw [opcode instructionFF hopcode rfl]
    exact jumpTo_goes h regopcode first hsafe himports
  | call hopcode first =>
    refine .goes rfl ?_
    rw [opcode call hopcode rfl]
    exact call_goes h hat heip first hsafe
  | callTo hopcode regopcode first =>
    refine .goes rfl ?_
    rw [opcode instructionFF hopcode rfl]
    exact callTo_goes h hat heip regopcode first hsafe.1 hsafe.2 himports
  | ret hopcode =>
    refine .goes rfl ?_
    rw [opcode ret hopcode rfl]
    exact ret_goes h hsafe
  | retn hopcode first => exact .retn rfl (opcode retn hopcode rfl) first hsafe
  | leave hopcode =>
    refine .falls rfl ?_
    rw [opcode leave hopcode rfl]
    exact leave_run h hsafe
  | nop hopcode =>
    refine .falls rfl ?_
    rw [opcode nop hopcode rfl]
    exact .pure h _

/-- One turn of the interpreter at a known instruction is one step of the machine, whatever values
the architecture leaves open. -/
theorem Simulates.turn (h : Simulates program s m) (hdisasm : program.DecodedBy env.disasm)
    {instruction : Instruction} {n : ℕ} (hentry : program.entry m.eip=some (entryOf instruction n))
    (hsafe : instruction.Safe m)
    (hnext : ∀undefined,(program.entry (instruction.exec undefined m
      (m.eip+.ofNat 32 n)).eip).isSome) :
    ∃t undefined,Turn env s t ∧
    Simulates program t (instruction.exec undefined m (m.eip+.ofNat 32 n)) ∧ Steady s t := by
  obtain ⟨op,hat,hdecodes⟩ := h.atHand hentry
  generalize m.eip+.ofNat 32 n=next at *
  let undefined := env.undefinedFlags (Repetition.counted s).instructionCounter
  have hcounted : AtHand (Repetition.counted s) op m.eip next := ⟨hat.deref,hat.address,hat.next⟩
  have hkeeps : Keeps m (instruction.exec undefined m next) := .exec hsafe h.stack undefined next
  have htarget := hnext undefined
  have hends := Decodes.ends h.counted.represents hcounted h.eip hdecodes hsafe
    fun proxy hproxy => h.imports proxy hproxy _ htarget
  cases hends with
  | falls hexec hrun =>
    rw [hexec] at hkeeps htarget
    obtain ⟨t,hturn,ht,hst⟩ := h.falls hdisasm hat hrun ⟨hkeeps.data,hkeeps.stack,
      hkeeps.memory⟩ htarget
    exact ⟨t,undefined,hturn,hexec ▸ ht,hst⟩
  | goes hexec hrun =>
    obtain ⟨u,hrun,hu,hsu⟩ := hrun
    rw [hexec] at hkeeps htarget
    obtain ⟨t,hturn,ht,hst⟩ := h.goes hdisasm hat hrun hu hsu ⟨hkeeps.data,hkeeps.stack,
      hkeeps.memory⟩ htarget
    exact ⟨t,undefined,hturn,hexec ▸ ht,hst⟩
  | retn hexec hrun first hstack =>
    rw [hexec] at htarget
    obtain ⟨t,hretn,ht,hst⟩ := h.counted.retn hdisasm first hstack htarget
    exact ⟨t,undefined,h.branches hat (hrun ▸ hretn),hexec ▸ ht,hst.blocks,hst.importsProxy⟩

section Programs
variable {α : Type}

/-- What the program offers: its instructions at the silent addresses where their accesses are
allowed and they lead to further instructions, and the activations of procedures that `calls`
describes. -/
inductive Offers (program : Program) (silent : U32→Prop) (calls : Machine→α→(Machine→Prop)→Prop)
    (m : Machine) :
    Option α→(Machine→Prop)→Prop
  | instruction {instruction : Instruction} {n : ℕ}
    (entry : program.entry m.eip=some (entryOf instruction n))
      (quiet : silent m.eip) (safe : instruction.Safe m)
      (next : ∀undefined,(program.entry (instruction.exec undefined m
        (m.eip+.ofNat 32 n)).eip).isSome) :
      Offers program silent calls m none fun m' => ∃undefined,m'=instruction.exec undefined m
        (m.eip+.ofNat 32 n)
  | call {a : α} {R : Machine→Prop} (h : calls m a R) : Offers program silent calls m (some a) R

/-- A turn before the process has got where an activation returns to. -/
def InActivation (env : Environment F) (program : Program) (R : Machine→Prop)
    (s t : FEProcess F) : Prop :=
  Turn env s t ∧ ¬∃m,Simulates program s m ∧ R m

/-- The steps of the interpreter: a turn at a silent address, and the turns of one activation, up to
its first return. -/
inductive Performs (env : Environment F) (program : Program) (silent : U32→Prop)
    (calls : Machine→α→(Machine→Prop)→Prop) (s : FEProcess F) : Option α→FEProcess F→Prop
  | turn {t : FEProcess F} (h : Turn env s t) (quiet : silent s.currentThread.eip) :
      Performs env program silent calls s none t
  | activation {t : FEProcess F} {m m' : Machine} {a : α} {R : Machine→Prop}
    (before : Simulates program s m)
      (call : calls m a R) (turns : Relation.ReflTransGen (InActivation env program R) s t)
        (after : Simulates program t m')
      (returned : R m') : Performs env program silent calls s (some a) t

variable {silent : U32→Prop} {calls : Machine→α→(Machine→Prop)→Prop} {Q : Machine→Prop}
  {as : List α}

theorem Performs.turns {event : Option α} (h : Performs env program silent calls s event t) :
    Relation.ReflTransGen (Turn env) s t := by
  cases h with
  | turn h _ => exact .single h
  | activation _ _ turns _ _ => exact turns.lift id fun _ _ => And.left

/-- The interpreter runs a program of the machine as its code says: whatever the program reaches on
the machine, the process reaches, and activates the procedures outside of the program as often and
in the same order. -/
theorem leads_simulates (hdisasm : program.DecodedBy env.disasm)
    (hcalls : ∀s m a R,Simulates program s m→calls m a R→
      ∃t m',Relation.ReflTransGen (Turn env) s t ∧ Simulates program t m' ∧ R m')
    (h : Leads (Offers program silent calls) Q m as) (hs : Simulates program s m) :
    ∃t m',Relation.ReflTransGen (Turn env) s t ∧ Trace (Performs env program silent calls) s as t ∧
      Simulates program t m' ∧ Q m' := by
  have hsim : ∀s m event next,Simulates program s m → Offers program silent calls m event next→
      ∃t m',Performs env program silent calls s event t ∧ Simulates program t m' ∧ next m' := by
    intro s m event next hs hoffers
    cases hoffers with
    | instruction entry quiet safe hnext =>
      obtain ⟨t,undefined,hturn,ht,_⟩ := hs.turn hdisasm entry safe hnext
      exact ⟨t,_,.turn hturn (hs.eip.symm ▸ quiet),ht,undefined,rfl⟩
    | call hcall =>
      obtain ⟨t,m',hturns,ht,hreturned⟩ := hcalls s m _ _ hs hcall
      obtain ⟨u,hfirst,m'',hu,hR⟩ :=
        ProgramLogic.first_of_reaches (P:=fun s => ∃m,Simulates program s m ∧ next m) hturns ⟨m',
          ht,hreturned⟩
      exact ⟨u,m'',.activation hs hcall hfirst hu hR,hu,hR⟩
  obtain ⟨t,m',htrace,ht,hQ⟩ := h.simulate hsim hs
  exact ⟨t,m',htrace.path fun _ _ _ => Performs.turns,htrace,ht,hQ⟩

end Programs

section Listings
variable {α : Type} {silent : U32→Prop} {calls : Machine→α→(Machine→Prop)→Prop} {Q : Machine→Prop}
  {as : List α} {a : U32}
  {instruction : Instruction} {n : ℕ} {code rest : List (Instruction×ℕ)}

/-- The instructions of the program from an address on, one behind the other and all at silent
addresses. -/
def Listed (program : Program) (silent : U32→Prop) : U32→List (Instruction×ℕ)→Prop
  | _,[] => True
  | a,(instruction,n)::code => (program.entry a=some (entryOf instruction n) ∧ silent a) ∧
    Listed program silent (a+.ofNat 32 n) code

def size (code : List (Instruction×ℕ)) : ℕ := (code.map Prod.snd).sum

theorem Listed.drop (h : Listed program silent a (code++rest)) :
    Listed program silent (a+.ofNat 32 (size code)) rest := by
  induction code generalizing a with
  | nil => simpa [size] using h
  | cons head code ih =>
    have hrest := ih h.2
    rwa [BitVec.add_assoc,←BitVec.ofNat_add] at hrest

theorem Listed.left (h : Listed program silent a (code++rest)) : Listed program silent a code := by
  induction code generalizing a with
  | nil => trivial
  | cons head code ih => exact ⟨h.1,ih h.2⟩

theorem Listed.isSome (h : Listed program silent a ((instruction,n)::code)) :
    (program.entry a).isSome := by
  rw [h.1.1]
  rfl

theorem Listed.mono {silent' : U32→Prop} (h : Listed program silent a code)
    (hsilent : ∀a,silent a→silent' a) :
    Listed program silent' a code := by
  induction code generalizing a with
  | nil => trivial
  | cons head code ih => exact ⟨⟨h.1.1,hsilent a h.1.2⟩,ih h.2⟩

theorem Listed.placed (h : Listed program silent a code)
    (hcode : ∀instruction∈code,0 < instruction.2) (hsize : size code<2^32) :
    Listed program (fun p => (p-a).toNat<size code) a code := by
  induction code generalizing a with
  | nil => trivial
  | cons head code ih =>
    obtain ⟨instruction,n⟩ := head
    have hsum : size ((instruction,n)::code)=n+size code := by simp [size]
    have hpos : 0<n := hcode (instruction,n) List.mem_cons_self
    refine ⟨⟨h.1.1,?_⟩,(ih h.2 (fun _ h => hcode _ (List.mem_cons_of_mem _ h)) (by omega)).mono
      fun p hp => ?_⟩
    · show (a-a).toNat<_
      rw [BitVec.sub_self,hsum]
      exact Nat.add_pos_left hpos _
    · rw [hsum]
      bv_omega

def codeAt : U32→List (Instruction×ℕ)→U32→Option (Instruction×ℕ)
  | _,[],_ => none
  | a,instruction::code,p => if p=a then some instruction
    else codeAt (a+.ofNat 32 instruction.2) code p

theorem codeAt_placed {a p : U32} {code : List (Instruction×ℕ)} {instruction : Instruction×ℕ}
    (hsize : a.toNat+size code<2^32) (h : codeAt a code p=some instruction) :
    instruction∈code ∧ a.toNat ≤ p.toNat ∧ p.toNat+instruction.2 ≤ a.toNat+size code := by
  induction code generalizing a with
  | nil => cases h
  | cons head code ih =>
    have hsum : size (head::code)=head.2+size code := by simp [size]
    simp only [codeAt] at h
    split at h
    · next hp =>
      cases h
      subst hp
      exact ⟨List.mem_cons_self,le_rfl,by omega⟩
    · have hnext : (a+.ofNat 32 head.2).toNat=a.toNat+head.2 := by
        rw [BitVec.toNat_add,BitVec.toNat_ofNat,Nat.add_mod_mod,Nat.mod_eq_of_lt (by omega)]
      obtain ⟨hmem,hlow,hhigh⟩ := ih (by omega) h
      exact ⟨List.mem_cons_of_mem _ hmem,by omega,by omega⟩

theorem codeAt_append {a : U32} {code : List (Instruction×ℕ)} (rest : List (Instruction×ℕ))
    (instruction : Instruction×ℕ) (hcode : ∀instruction∈code,0 < instruction.2)
    (hsize : a.toNat+size code<2^32) :
    codeAt a (code++instruction::rest) (a+.ofNat 32 (size code))=some instruction := by
  induction code generalizing a with
  | nil => simp [codeAt,size]
  | cons head code ih =>
    have hsum : size (head::code)=head.2+size code := by simp [size]
    have hpos := hcode head List.mem_cons_self
    have hnext : (a+.ofNat 32 head.2).toNat=a.toNat+head.2 := by
      rw [BitVec.toNat_add,BitVec.toNat_ofNat,Nat.add_mod_mod,Nat.mod_eq_of_lt (by omega)]
    have hne : a+.ofNat 32 (size (head::code))≠a := by bv_omega
    have hrest := ih (a:=a+.ofNat 32 head.2) (fun _ h => hcode _ (List.mem_cons_of_mem _ h))
      (by omega)
    rw [BitVec.add_assoc,←BitVec.ofNat_add,←hsum] at hrest
    simp only [List.cons_append,codeAt,if_neg hne,hrest]

/-- The listing of a program that has the instructions at their addresses. -/
theorem listed_of_codeAt {a : U32} {code : List (Instruction×ℕ)}
    (hcode : ∀instruction∈code,0 < instruction.2) (hsize : a.toNat+size code<2^32)
    (hentry : ∀p instruction,codeAt a code p=some instruction→
      program.entry p=some (entryOf instruction.1 instruction.2) ∧ silent p) :
      Listed program silent a code := by
  have hall : ∀first rest,first++rest=code→
    Listed program silent (a+.ofNat 32 (size first)) rest := by
    intro first rest heq
    induction rest generalizing first with
    | nil => trivial
    | cons head rest ih =>
      have hrest := ih (first++[head]) (by simpa using heq)
      have hfirst : size first ≤ size code := by simp [←heq,size]
      have hat := codeAt_append rest head (fun instruction h => hcode instruction
        (heq ▸ List.mem_append_left _ h))
        (show a.toNat+size first<2^32 by omega)
      rw [heq] at hat
      refine ⟨hentry _ _ hat,?_⟩
      have hsum : size (first++[head])=size first+head.2 := by simp [size]
      rwa [hsum,BitVec.ofNat_add,←BitVec.add_assoc] at hrest
  have hstart := hall [] code rfl
  simpa [size] using hstart

theorem leads_next (hlist : Listed program silent m.eip ((instruction,n)::code)) (hcode : code≠[])
    (hsafe : instruction.Safe m)
    (hfalls : ∀undefined next,(instruction.exec undefined m next).eip=next)
    (tail : ∀undefined,Leads (Offers program silent calls) Q (instruction.exec undefined m
      (m.eip+.ofNat 32 n)) as) :
    Leads (Offers program silent calls) Q m as := by
  obtain ⟨⟨next,size⟩,code,rfl⟩ := List.exists_cons_of_ne_nil hcode
  refine .silent (.instruction hlist.1.1 hlist.1.2 hsafe fun undefined => ?_) ?_
  · rw [hfalls]
    exact hlist.2.isSome
  · rintro _ ⟨undefined,rfl⟩
    exact tail undefined

theorem leads_branch {target : U32} (hlist : Listed program silent m.eip ((instruction,n)::code))
    (hsafe : instruction.Safe m) (htarget : (program.entry target).isSome)
    (hgoes : ∀undefined,(instruction.exec undefined m (m.eip+.ofNat 32 n)).eip=target)
    (tail : ∀undefined,Leads (Offers program silent calls) Q (instruction.exec undefined m
      (m.eip+.ofNat 32 n)) as) :
    Leads (Offers program silent calls) Q m as := by
  refine .silent (.instruction hlist.1.1 hlist.1.2 hsafe fun undefined => ?_) ?_
  · rwa [hgoes]
  · rintro _ ⟨undefined,rfl⟩
    exact tail undefined

/-- A block of straight-line code does on the machine what it does on the view. -/
theorem leads_block {layout : Layout} {v : View} {block : List (Code×ℕ)}
    (hlist : Listed program silent m.eip (StackFrames.instructions block++rest)) (hrest : rest≠[])
    (h : Shows layout m v) (hsafe : StackFrames.Safes layout v block) :
    Leads (Offers program silent calls)
    (fun m' => Shows layout m' (StackFrames.runs layout v block) ∧
      m'.eip=m.eip+.ofNat 32 (size (StackFrames.instructions block))) m [] := by
  induction block generalizing m v with
  | nil => exact .done ⟨h,by simp [size,StackFrames.instructions]⟩
  | cons head block ih =>
    obtain ⟨code,n⟩ := head
    refine leads_next hlist (List.append_ne_nil_of_right_ne_nil _ hrest) (h.safe hsafe.1)
      (fun _ _ => code.eip_exec _ _ _) fun undefined => ?_
    have hblock := ih (m:=code.instruction.exec undefined m (m.eip+.ofNat 32 n))
      (by rw [Code.eip_exec]; exact hlist.2) (h.exec hsafe.1 undefined _) hsafe.2
    rw [Code.eip_exec,BitVec.add_assoc,←BitVec.ofNat_add] at hblock
    exact hblock

theorem leads_test {layout : Layout} {v : View} {r : Register} {x target : U32} {n n' : ℕ}
    (hlist : Listed program silent m.eip ((.compare .cmp (.register r) (.immediate x),
      n)::(.jumpIf .E target,n')::code))
    (hcode : code≠[]) (htarget : (program.entry target).isSome) (h : Shows layout m v)
    (hr : StackFrames.General r) (tail : ∀m',Shows layout m' v→
      m'.eip=(if v.register r=x then target else m.eip+.ofNat 32 n+.ofNat 32 n')→
      Leads (Offers program silent calls) Q m' as) :
    Leads (Offers program silent calls) Q m as := by
  refine leads_next hlist (List.cons_ne_nil _ _) ⟨trivial,trivial⟩
    (fun _ _ => rfl) fun undefined => ?_
  obtain ⟨flags,hflags,hcompare⟩ : ∃flags : X86.StatusFlags,flags.ZF=decide (v.register r=x) ∧
      (Instruction.compare .cmp (.register r) (.immediate x)).exec undefined m (m.eip+.ofNat 32 n)=
        (m.withFlags flags).goto (m.eip+.ofNat 32 n) := by
    refine ⟨(X86.sub (m.register r) x m.flags undefined).2,?_,rfl⟩
    rw [←h.register r hr]
    exact decide_eq_decide.mpr sub_eq_zero
  have hjump : ∀undefined' m' next,m'.flags=flags→
    ((Instruction.jumpIf .E target).exec undefined' m' next)=
      m'.goto (if v.register r=x then target else next) := by
    intro undefined' m' next hm'
    rw [Instruction.exec,hm',X86.Condition.holds,hflags]
    simp only [decide_eq_true_eq]
  rw [hcompare]
  refine .silent (.instruction hlist.2.1.1 hlist.2.1.2 trivial fun undefined' => ?_) ?_
  · rw [hjump _ _ _ rfl,Machine.eip_goto]
    split
    · exact htarget
    · obtain ⟨⟨next,size⟩,code,rfl⟩ := List.exists_cons_of_ne_nil hcode
      exact hlist.2.2.isSome
  · rintro _ ⟨undefined',rfl⟩
    rw [hjump _ _ _ rfl]
    exact tail _ (((h.withFlags flags).goto _).goto _) rfl

end Listings
end FalloutEmu.AssemblySimulation
