import FalloutEmu.Assembly
import FalloutEmu.Frames
import FalloutEmu.Repetition
import FalloutEmu.StackDiscipline

/-! # The flat machine inside the emulated process -/
namespace FalloutEmu
open ByteStore Emulator
open Assembly (Register Address Operand Source Machine)
open FlatMemory (Holds InBlock)
open Repetition (Segment)
open StackDiscipline (Owned Inside slotAddress)
variable {F : Type} {env : Environment F} {s t : FEProcess F} {m : Machine}

namespace Assembly

def Register.name : Register→FERegisterName
  | .eax => .kEAX
  | .ecx => .kECX
  | .edx => .kEDX
  | .ebx => .kEBX
  | .esp => .kESP
  | .ebp => .kEBP
  | .esi => .kESI
  | .edi => .kEDI

def Register.reg : Register→U32
  | .eax => 0x1
  | .ecx => 0x2
  | .edx => 0x4
  | .ebx => 0x8
  | .esp => 0x10
  | .ebp => 0x20
  | .esi => 0x40
  | .edi => 0x80

theorem Register.name_apart {r r' : Register} (h : r≠r') :
    FEThreadContext.Apart r.name .k32bit r'.name .k32bit := by
  unfold FEThreadContext.Apart
  cases r <;> cases r' <;> first | exact absurd rfl h | decide

theorem Register.leavesEIP (r : Register) : r.name.LeavesEIP := by
  cases r <;> decide

/-- The decoder names a register by its bit, with its kind or alone. -/
theorem Register.fromArgtype (r : Register) {argtype : U32}
    (h : argtype=r.reg ∨ argtype=REGISTER_TYPE+GENERAL_REG+r.reg) :
    register32FromArgtype argtype 0 env s=.ok (r.name,s) := by
  have hposition : assert ((0 : U32)=0) env s=.ok ((),s) := assert_run rfl
  rw [register32FromArgtype]
  refine (Exec.bind_run hposition).trans ?_
  rcases h with rfl | rfl <;> cases r <;> rfl

end Assembly

/-- The segment registers whose segments span the whole address space. -/
def flatSegments : List FERegisterName := [.kES,.kDS,.kCS,.kSS]

/-- The process holds the machine, up to the instruction pointer. -/
structure Represents (s : FEProcess F) (m : Machine) : Prop where
  register : ∀r : Register,s.currentThread.register32 r.name=m.register r
  flags : s.currentThread.cpuFlags.status=m.flags
  segments : ∀name∈flatSegments,(⟨name,0⟩ : Segment).Loaded s
  memory : Holds s.memory m.memory
  data : ∀a∈m.data,InBlock s.memory.map a 4
  stack : ∃b∈s.memory.map.memoryMapBlocks.elements,Owned s.memory.map s.currentThread.stack b ∧
    b.size=s.currentThread.stack.size ∧
    ∀a∈m.stack,s.currentThread.stack.start.toNat<a ∧
      a+4 ≤ s.currentThread.stack.start.toNat+s.currentThread.stack.size.toNat

namespace Represents

theorem goto (h : Represents s m) (eip : U32) : Represents s (m.goto eip) :=
  ⟨h.register,h.flags,h.segments,h.memory,h.data,h.stack⟩

/-- Neither the instruction pointer nor the decoder's records belong to the machine. -/
theorem of_eip (h : Represents s m) (eip : U32) :
    Represents { s with currentThread := s.currentThread.setRegister32 .kEIP eip } m where
  register r := by
    rw [Repetition.register32_setRegister32_of_apart _ (by cases r <;> exact .inr (by decide))]
    exact h.register r
  flags := h.flags
  segments := by
    intro name hname
    have hselector : (s.currentThread.setRegister32 .kEIP eip).register16 name=
      s.currentThread.register16 name := by
      refine @FEThreadContext.read_write_of_apart F s.currentThread .kEIP name .k32bit
        .k16bit ?_ eip
      revert hname
      unfold FEThreadContext.Apart
      cases name <;> decide
    show s.ldt.get _=_
    rw [hselector]
    exact h.segments name hname
  memory := h.memory
  data := h.data
  stack := h.stack

theorem setRegister (h : Represents s m) (r : Register) (v : U32) :
    Represents { s with currentThread := s.currentThread.setRegister32 r.name v } (m.set r v) where
  register r' := by
    by_cases hr : r'=r
    · subst hr
      simp
    · rw [Repetition.register32_setRegister32_of_apart _ (Register.name_apart (Ne.symm hr)),
        h.register r',Machine.register_set,if_neg hr]
  flags := h.flags
  segments := by
    intro name hname
    have hselector : (s.currentThread.setRegister32 r.name v).register16 name=
      s.currentThread.register16 name := by
      refine @FEThreadContext.read_write_of_apart F s.currentThread r.name name .k32bit .k16bit ?_ v
      revert hname
      unfold FEThreadContext.Apart
      cases r <;> cases name <;> decide
    show s.ldt.get _=_
    rw [hselector]
    exact h.segments name hname
  memory := h.memory
  data := h.data
  stack := h.stack

theorem setFlags (h : Represents s m) (cpuFlags : FECPUFlags) :
    Represents { s with currentThread := { s.currentThread with cpuFlags := cpuFlags } }
      (m.withFlags cpuFlags.status) :=
  ⟨h.register,rfl,h.segments,h.memory,h.data,h.stack⟩

theorem setMemory (h : Represents s m) {memory : Memory DisasmContext} {a v : U32}
    (hmemory : Holds memory (Assembly.withWord m.memory a v)) (hmap : memory.map=s.memory.map) :
    Represents { s with memory := memory } (m.store a v) where
  register := h.register
  flags := h.flags
  segments := h.segments
  memory := hmemory
  data := by
    rw [hmap]
    exact h.data
  stack := by
    rw [hmap]
    exact h.stack

end Represents

structure Continues (s t : FEProcess F) : Prop extends SameFetch s t where
  exit : t.exit=s.exit
  importsProxy : t.importsProxy=s.importsProxy

theorem Continues.refl (s : FEProcess F) : Continues s s := ⟨refl_of SameFetch s,rfl,rfl⟩

theorem Continues.trans {u : FEProcess F} (h : Continues s t) (k : Continues t u) : Continues s u :=
  ⟨trans_of SameFetch h.toSameFetch k.toSameFetch,k.exit.trans h.exit,
    k.importsProxy.trans h.importsProxy⟩

/-- The program returns `a` and takes the machine to `m`. -/
def TakesTo {α : Type} (env : Environment F) (s : FEProcess F) (x : Emulator F α) (a : α)
    (m : Machine) : Prop :=
  ∃t,x env s=.ok (a,t) ∧ Represents t m ∧ Continues s t

namespace TakesTo
variable {α β : Type} {x : Emulator F α} {f : α→Emulator F β} {a : α} {b : β} {m' : Machine}

theorem of_state (hx : x env s=.ok (a,s)) (h : Represents s m) : TakesTo env s x a m :=
  ⟨s,hx,h,.refl s⟩

theorem pure (h : Represents s m) (a : α) : TakesTo env s (pure a) a m := of_state rfl h

theorem bind (hx : TakesTo env s x a m) (hf : ∀t,Represents t m→ Continues s t→
    TakesTo env t (f a) b m') :
    TakesTo env s (x >>= f) b m' := by
  obtain ⟨t,hrun,ht,hst⟩ := hx
  obtain ⟨u,hrest,hu,htu⟩ := hf t ht hst
  exact ⟨u,(Exec.bind_run hrun).trans hrest,hu,hst.trans htu⟩

theorem after (hx : x env s=.ok (a,s)) (hf : TakesTo env s (f a) b m) :
    TakesTo env s (x >>= f) b m := by
  obtain ⟨t,hrun,ht⟩ := hf
  exact ⟨t,(Exec.bind_run hx).trans hrun,ht⟩

end TakesTo

theorem stackPush_run
    {operation : Build→FEStack→Memory DisasmContext→U32→Except Stop (U32×Memory DisasmContext)}
    {esp : U32} {memory : Memory DisasmContext}
    (h : operation env.build s.currentThread.stack s.memory s.currentThread.esp=.ok (esp,memory)) :
    stackPush operation env s=
      .ok ((),{ s with
        memory := memory,currentThread := s.currentThread.setRegister32 .kESP esp }) := by
  apply Exec.atomic_of_ok
  rw [h]
  rfl

theorem stackPop_run {α : Type} {operation : Build→FEStack→Memory DisasmContext→U32→
    Except Stop (α×U32)} {a : α}
    {esp : U32} (h : operation env.build s.currentThread.stack s.memory s.currentThread.esp=
      .ok (a,esp)) :
    stackPop operation env s=
      .ok (a,{ s with currentThread := s.currentThread.setRegister32 .kESP esp }) := by
  apply Exec.atomic_of_ok
  rw [h]
  rfl

namespace Represents

section Registers

theorem register32_run (h : Represents s m) (r : Register) :
    register32 r.name env s=.ok (m.register r,s) := by
  rw [←h.register r]
  rfl

theorem setRegister32_run (h : Represents s m) (r : Register) (v : U32) :
    TakesTo env s (setRegister32 r.name v) () (m.set r v) :=
  ⟨_,rfl,h.setRegister r v,⟨rfl,s.currentThread.eip_setRegister r.leavesEIP v .k32bit,rfl,rfl,rfl⟩,
    rfl,rfl⟩

theorem withHostFlags (h : Represents s m) (instruction : X86.StatusFlags→U32×X86.StatusFlags) :
    (s.currentThread.withHostFlags instruction).1=(instruction m.flags).1 ∧
      Represents { s with currentThread := (s.currentThread.withHostFlags instruction).2 }
        (m.withFlags (instruction m.flags).2) := by
  rw [FEThreadContext.withHostFlags,FECPUFlags.hostStatus_cpuflags16,h.flags]
  have hset := h.setFlags
    (s.currentThread.cpuFlags.fillFrom16it (withHostStatus s.currentThread.cpuFlags.cpuflags16
      (instruction m.flags).2))
  rw [FECPUFlags.status_fillFrom16it,hostStatus_withHostStatus] at hset
  exact ⟨rfl,hset⟩

theorem binary_run (h : Represents s m) (instruction : X86.BinaryInstruction) (a b : U32) :
    let result := instruction a b m.flags (env.undefinedFlags s.instructionCounter)
    TakesTo env s (binary instruction a b .k32bit) result.1 (m.withFlags result.2) := by
  obtain ⟨hresult,hrepresents⟩ := h.withHostFlags
    fun flags => instruction a b flags (env.undefinedFlags s.instructionCounter)
  refine ⟨_,?_,hrepresents,⟨rfl,rfl,rfl,rfl,rfl⟩,rfl,rfl⟩
  rw [←hresult]
  rfl

theorem unary_run (h : Represents s m) (instruction : X86.UnaryInstruction) (a : U32) :
    let result := instruction a m.flags
    TakesTo env s (unary instruction a .k32bit) result.1 (m.withFlags result.2) := by
  obtain ⟨hresult,hrepresents⟩ := h.withHostFlags (instruction a)
  refine ⟨_,?_,hrepresents,⟨rfl,rfl,rfl,rfl,rfl⟩,rfl,rfl⟩
  rw [←hresult]
  rfl

end Registers

section Memory
variable {a : U32}

theorem value32AtAddress (h : Represents s m) (ha : a.toNat∈m.data) :
    s.memory.value32AtAddress a=.ok (Assembly.word m.memory a) := by
  rw [Memory.value32AtAddress,h.memory.load (by decide) (h.data _ ha),ok_bind]
  rfl

theorem store_run (h : Represents s m) (ha : a.toNat∈m.data) (v : U32) :
    TakesTo env s (Emulator.store fun memory => memory.setValue32 a v) () (m.store a v) := by
  have hlength : (littleEndian 4 v.toNat).length=4 := length_littleEndian 4 _
  obtain ⟨memory,hstore,hholds,hmap⟩ := Repetition.store_element h.memory (littleEndian 4 v.toNat)
    (by rw [hlength]; decide) (by rw [hlength]; exact h.data _ ha)
  exact ⟨_,Repetition.store_run hstore,h.setMemory hholds hmap,⟨hmap,rfl,rfl,rfl,rfl⟩,rfl,rfl⟩

/-- A slot of the stack, through the stack's own block. -/
theorem slot (h : Represents s m) (ha : a.toNat∈m.stack) : ∃b∈s.memory.map.memoryMapBlocks.elements,
    Owned s.memory.map s.currentThread.stack b ∧ b.size=s.currentThread.stack.size ∧
      s.currentThread.stack.start.toNat<a.toNat ∧ Inside s.currentThread.stack a 4 := by
  obtain ⟨b,hb,howned,hsize,hstack⟩ := h.stack
  obtain ⟨hlow,hhigh⟩ := hstack _ ha
  exact ⟨b,hb,howned,hsize,hlow,hlow.le,hhigh⟩

theorem push32_run (h : Represents s m) (ha : (m.register .esp-4).toNat∈m.stack) (v : U32) :
    TakesTo env s (push32 v) () (m.push v) := by
  obtain ⟨b,hb,howned,hsize,hlow,hin⟩ := h.slot ha
  have hesp : s.currentThread.esp=m.register .esp := h.register .esp
  have hspace := howned.space
  have hbounds : m.register .esp-4>s.currentThread.stack.start ∧
      m.register .esp-4 ≤ s.currentThread.stack.base-4 := by
    have hhigh := hin.2
    rw [howned.base]
    constructor <;> bv_omega
  have hpush : s.currentThread.stack.push32 env.build s.memory s.currentThread.esp v=
      .ok (m.register .esp-4,{ s.memory with
        host := writeAt s.memory.host (slotAddress s.currentThread.stack b (m.register .esp-4))
          (littleEndian 4 v.toNat) }) := by
    rw [hesp,FEStack.push32,assertThat_pos hbounds,ok_bind,howned.localAddress hin.1,ok_bind]
  have hfit : (m.register .esp-4).toNat-s.currentThread.stack.start.toNat+
    (littleEndian 4 v.toNat).length ≤
      b.size.toNat := by
    have hhigh := hin.2
    rw [length_littleEndian,hsize]
    omega
  have hholds := h.memory.write hb _ (littleEndian 4 v.toNat) hfit
  have haddress : b.virtualAddress.toNat+((m.register
    .esp-4).toNat-s.currentThread.stack.start.toNat)=
      (m.register .esp-4).toNat := by
    rw [howned.start]
    omega
  rw [haddress] at hholds
  have hstored : Represents { s with memory := _ } (m.store (m.register .esp-4) v) :=
    h.setMemory hholds rfl
  refine ⟨_,?_,hstored.setRegister .esp (m.register .esp-4),
    ⟨rfl,s.currentThread.eip_setRegister Register.esp.leavesEIP _ .k32bit,rfl,rfl,rfl⟩,rfl,rfl⟩
  exact stackPush_run hpush

theorem pop32_run (h : Represents s m) (ha : (m.register .esp).toNat∈m.stack) :
    TakesTo env s pop32 m.top (m.drop 4) := by
  obtain ⟨b,hb,howned,hsize,hlow,hin⟩ := h.slot ha
  have hesp : s.currentThread.esp=m.register .esp := h.register .esp
  have hslot : InBlock s.memory.map (m.register .esp).toNat 4 := by
    refine ⟨b,hb,?_,?_⟩
    · rw [howned.start]
      exact hin.1
    · rw [howned.start,hsize]
      exact hin.2
  have hread : readAt s.memory.host (slotAddress s.currentThread.stack b (m.register .esp)) 4=
      littleEndian 4 m.top.toNat := by
    have hload := h.memory.load (by decide) hslot
    rw [Memory.load,howned.mapAddress (by decide) hin,ok_bind] at hload
    injection hload with hload
    rw [hload]
    exact (littleEndian_ofNat_value (w:=32) rfl (length_readAt _ _ _)).symm
  have hpop : s.currentThread.stack.pop32 env.build s.memory s.currentThread.esp=
      .ok (m.top,m.register .esp+4) := by
    rw [hesp]
    exact StackDiscipline.pop32_spec howned hin hread
  refine ⟨_,?_,h.setRegister .esp (m.register .esp+4),
    ⟨rfl,s.currentThread.eip_setRegister Register.esp.leavesEIP _ .k32bit,rfl,rfl,rfl⟩,rfl,rfl⟩
  exact stackPop_run hpop

end Memory
end Represents

section Operands
variable {arg : ARGTYPE} {a : Address} {operand : Operand} {src : Source} {immediat : U32}

def flatSegmentRegs : List U8 := [1,2,5,6]

/-- The address of a memory operand, as the decoder describes it. -/
structure IsAddress (arg : ARGTYPE) (a : Address) : Prop where
  base : arg.Memory.BaseRegister=a.base.elim 0 Register.reg
  index : arg.Memory.IndexRegister=a.index.elim 0 fun index => index.1.reg
  scale : ∀index∈a.index,arg.Memory.Scale=index.2
  displacement : arg.Memory.Displacement.setWidth 32=a.displacement
  segment : arg.SegmentReg.setWidth 8∈flatSegmentRegs

def IsOperand (arg : ARGTYPE) : Operand→Prop
  | .register r => arg.ArgType=REGISTER_TYPE+GENERAL_REG+r.reg ∧ arg.ArgPosition=0 ∧ arg.ArgSize=32
  | .memory a => arg.ArgType&&&REGISTER_TYPE=0 ∧ arg.ArgType&&&MEMORY_TYPE≠0 ∧ arg.ArgSize=32 ∧
    IsAddress arg a

def IsWritten (arg : ARGTYPE) (operand : Operand) : Prop :=
  IsOperand arg operand ∧ arg.AccessMode=WRITE

def IsSource (arg : ARGTYPE) (immediat : U32) : Source→Prop
  | .operand operand => IsOperand arg operand
  | .immediate v => ∃width,IsImmediate arg width ∧ (immediat.setWidth width.bits).signExtend 32=v

theorem IsOperand.size (h : IsOperand arg operand) : arg.ArgSize=32 := by
  cases operand with
  | register r => exact h.2.2
  | memory a => exact h.2.2.1

theorem IsOperand.isRegister {r : Register} (h : IsOperand arg (.register r)) :
    IsRegister F arg r.name .k32bit := by
  obtain ⟨htype,hposition,hsize⟩ := h
  refine ⟨?_,?_,hsize,fun env s => ?_⟩
  · rw [htype]
    cases r <;> decide
  · rw [htype]
    cases r <;> decide
  · rw [hposition]
    exact r.fromArgtype (.inr htype)

theorem addressRegister_run (h : Represents s m) (r : Option Register) :
    addressRegister (r.elim 0 Register.reg) env s=.ok (r.elim 0 m.register,s) := by
  cases r with
  | none => rfl
  | some r =>
    have hreg : r.reg≠0 := by cases r <;> decide
    show addressRegister r.reg env s=_
    rw [addressRegister,if_pos hreg,Exec.bind_run (r.fromArgtype (.inl rfl))]
    exact h.register32_run r

theorem segRegisterFromNumber_run (env : Environment F) (s : FEProcess F) {number : U8}
    (h : number∈flatSegmentRegs) :
    ∃name∈flatSegments,segRegisterFromNumber number env s=.ok (name,s) := by
  have hassert : ∀n∈flatSegmentRegs,(n>0 ∧ n<7) := by decide
  have hname : ∀n∈flatSegmentRegs,∃name∈flatSegments,
      [FERegisterName.kEAX,.kES,.kDS,.kFS,.kGS,.kCS,.kSS][n.toNat]?=some name := by decide
  obtain ⟨name,hflat,hsome⟩ := hname number h
  refine ⟨name,hflat,?_⟩
  rw [segRegisterFromNumber,Exec.bind_run (assert_run (decide_eq_true (hassert number h))),hsome]
  rfl

theorem address_run (h : Represents s m) (harg : IsAddress arg a) :
    addressFromArgtype arg env s=.ok (m.address a,s) := by
  obtain ⟨name,hflat,hname⟩ := segRegisterFromNumber_run env s harg.segment
  have hbase : addressRegister arg.Memory.BaseRegister env s=.ok (a.base.elim 0 m.register,s) := by
    rw [harg.base]
    exact addressRegister_run h a.base
  have hindex : addressRegister arg.Memory.IndexRegister env s=
      .ok ((a.index.map Prod.fst).elim 0 m.register,s) := by
    have hreg : arg.Memory.IndexRegister=(a.index.map Prod.fst).elim 0 Register.reg := by
      rw [harg.index]
      cases a.index <;> rfl
    rw [hreg]
    exact addressRegister_run h _
  have hsegment : Exec.ofExcept (s.ldt.get (s.currentThread.register16 name).toNat) env s=
    .ok (0,s) := by
    rw [show s.ldt.get _=_ from h.segments name hflat]
    rfl
  have hscaled : (a.index.map Prod.fst).elim 0 m.register*arg.Memory.Scale=
      a.index.elim 0 fun index => m.register index.1*index.2 := by
    have hscale := harg.scale
    cases hi : a.index with
    | none => exact BitVec.zero_mul
    | some index =>
      rw [hscale index hi]
      rfl
  rw [addressFromArgtype,Exec.bind_run hbase,Exec.bind_run hindex,Exec.bind_run hname]
  refine (Exec.bind_run (a:=s.currentThread.register16 name) rfl).trans ?_
  rw [Exec.bind_run (Exec.get_run env s),Exec.bind_run hsegment,hscaled,harg.displacement]
  have hzero : (0 : U32)+a.base.elim 0 m.register=a.base.elim 0 m.register := BitVec.zero_add _
  rw [hzero]
  rfl

namespace Represents

theorem loadArg_run (h : Represents s m) (harg : IsOperand arg (.memory a))
    (ha : (m.address a).toNat∈m.data) :
    loadArg arg .k32bit env s=.ok (Assembly.word m.memory (m.address a),s) := by
  obtain ⟨_,hmemory,hsize,haddress⟩ := harg
  have hassert : assertMemoryArg arg 32 env s=.ok ((),s) := by
    rw [assertMemoryArg,Exec.bind_run (assert_run (decide_eq_true hmemory))]
    exact assert_run (decide_eq_true hsize)
  rw [loadArg,Exec.bind_run hassert,Exec.bind_run (address_run h haddress)]
  exact Repetition.load_run (h.value32AtAddress ha)

theorem value_run (h : Represents s m) (harg : IsOperand arg operand)
    (haccess : m.Accessible operand) (immediat : U32) :
    loadArgValue arg immediat env s=.ok (m.value operand,s) := by
  cases operand with
  | register r =>
    have hread : (s.currentThread.read r.name .k32bit).setWidth 32=
      s.currentThread.register32 r.name :=
      BitVec.setWidth_eq _
    rw [harg.isRegister.load,hread,h.register r]
    rfl
  | memory a =>
    rw [loadArgValue,if_neg (not_not.mpr harg.1),if_pos harg.2.1,harg.2.2.1]
    exact (Exec.bind_run (bitWidth_run .k32bit)).trans (h.loadArg_run harg haccess)

theorem read_run (h : Represents s m) (harg : IsSource arg immediat src)
    (haccess : m.Readable src) :
    loadArgValue arg immediat env s=.ok (m.read src,s) := by
  cases src with
  | operand operand => exact h.value_run harg haccess immediat
  | immediate v =>
    obtain ⟨width,hwidth,hv⟩ := harg
    rw [hwidth.load,hv]
    rfl

theorem write_run (h : Represents s m) (harg : IsWritten arg operand)
    (haccess : m.Accessible operand) (v : U32) :
    TakesTo env s (storeValueInArg arg v) () (m.write v operand) := by
  obtain ⟨hoperand,hwrite⟩ := harg
  cases operand with
  | register r =>
    obtain ⟨t,hset,ht⟩ : TakesTo env s (setRegister32 r.name v) () (m.set r v) :=
      h.setRegister32_run r v
    refine ⟨t,?_,ht⟩
    rw [hoperand.isRegister.store,←hset]
    have hv : v.setWidth FEBitWidth.k32bit.bits=v := BitVec.setWidth_eq v
    rw [hv]
    rfl
  | memory a =>
    obtain ⟨hregister,hmemory,hsize,haddress⟩ := hoperand
    have hassert : assertMemoryArg arg 32 env s=.ok ((),s) := by
      rw [assertMemoryArg,Exec.bind_run (assert_run (decide_eq_true hmemory))]
      exact assert_run (decide_eq_true hsize)
    rw [storeValueInArg,if_neg (not_not.mpr hregister),if_pos hmemory,hsize]
    refine .after (bitWidth_run .k32bit) ?_
    rw [storeArg]
    refine .after hassert (.after (assert_run (decide_eq_true hwrite))
      (.after (address_run h haddress) ?_))
    exact h.store_run haccess v

end Represents
end Operands
end FalloutEmu
