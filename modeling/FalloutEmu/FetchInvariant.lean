import FalloutEmu.DecodeCache
import FalloutEmu.Frames

/-! # The instruction at the top of the interpreter loop -/
namespace FalloutEmu
variable {F : Type}

/-- What code outside the loop does to the memory: the operations of the memory map, with a
descriptor that no owner of a page has wherever one is allocated, and stores of any bytes. -/
inductive MemoryOperation (build : Build) (memory : Memory DisasmContext) :
    Memory DisasmContext→Prop
  | write (host : ℕ→U8) : MemoryOperation build memory ⟨memory.map,host⟩
  | map (block : FEMemoryMapBlock) (mode : FEMemoryAccessMode) (m : FEMemoryMap DisasmContext)
      (fresh : ∀p b,memory.map.memoryMapBlocksShadow.slot p=some b→b.pointer≠block.pointer)
      (h : (memory.map.clearContext block.pointer).map build block mode=.ok m) :
      MemoryOperation build memory ⟨m,memory.host⟩
  | malloc (size : U32) (mode : FEMemoryAccessMode) (tag : List Char) (host : HostAllocation)
      (result : FEMemoryMap.MallocResult DisasmContext)
      (fresh : ∀p b,memory.map.memoryMapBlocksShadow.slot p=some b→some b.pointer≠host.newBlock)
      (h : memory.map.malloc build size mode tag host=.ok result) :
      MemoryOperation build memory ⟨result.map,memory.host⟩
  | setAccessMode (mode : FEMemoryAccessMode) (address size : U32) (m : FEMemoryMap DisasmContext)
      (h : memory.map.setAccessModeAtAddress mode address size=.ok m) :
      MemoryOperation build memory ⟨m,memory.host⟩
  | free (address : U32) (m : FEMemoryMap DisasmContext) (h : memory.map.free address=.ok m) :
      MemoryOperation build memory ⟨m,memory.host⟩
  | setCallback : MemoryOperation build memory
      ⟨{ memory.map with memoryMapAccessModeChangeCallback := true },memory.host⟩

namespace FEMemoryMap.CachesHold
variable {P : FEMemoryMapBlock→ℕ→DISASM→ℤ→Prop} {m : FEMemoryMap DisasmContext}

theorem clearContext (h : CachesHold P m) (pointer : ℕ) :
    CachesHold P (m.clearContext pointer) := by
  refine h.keeps ⟨fun p _ hp => ⟨p,hp⟩,fun q c hc => ?_⟩
  by_cases hq : q=pointer
  · simp [FEMemoryMap.clearContext,hq] at hc
  · simpa [FEMemoryMap.clearContext,hq] using hc

theorem malloc {build : Build} {size : U32} {mode : FEMemoryAccessMode} {tag : List Char}
    {host : HostAllocation} {result : MallocResult DisasmContext} (h : CachesHold P m)
    (hfresh : ∀p b,m.memoryMapBlocksShadow.slot p=some b→some b.pointer≠host.newBlock)
    (hmalloc : m.malloc build size mode tag host=.ok result) : CachesHold P result.map := by
  obtain ⟨realAddress?,newBlock?⟩ := host
  cases realAddress? with
  | none =>
    obtain ⟨_,_,hmalloc⟩ := bind_eq_ok.mp hmalloc
    cases hmalloc
    exact h
  | some realAddress =>
    cases newBlock? with
    | none =>
      obtain ⟨_,_,hmalloc⟩ := bind_eq_ok.mp hmalloc
      cases hmalloc
      exact h
    | some newBlock =>
      obtain ⟨address?,_,hmalloc⟩ := bind_eq_ok.mp hmalloc
      cases address? with
      | none =>
        obtain ⟨_,_,hmalloc⟩ := bind_eq_ok.mp hmalloc
        cases hmalloc
        exact h.clearContext newBlock
      | some address =>
        obtain ⟨m',happend,hmalloc⟩ := bind_eq_ok.mp hmalloc
        cases hmalloc
        have hpointer : ∀p b,m.memoryMapBlocksShadow.slot p=some b→
            b.pointer≠(mallocBlock size tag realAddress newBlock address).pointer :=
          fun p b hb hne => hfresh p b hb (congrArg some hne)
        exact h.append hpointer happend

theorem operation {build : Build} {memory t : Memory DisasmContext} (h : memory.map.CachesHold P)
    (ht : MemoryOperation build memory t) : t.map.CachesHold P := by
  cases ht with
  | write host => exact h
  | map block mode m fresh hm => exact h.append fresh hm
  | malloc size mode tag host result fresh hm => exact h.malloc fresh hm
  | setAccessMode mode address size m hm => exact h.keeps (setAccessMode_keeps hm)
  | free address m hm => exact h.keeps (free_keeps hm)
  | setCallback => exact ⟨h.pointers,h.holds⟩

theorem operations {build : Build} {memory t : Memory DisasmContext} (h : memory.map.CachesHold P)
    (ht : Relation.ReflTransGen (MemoryOperation build) memory t) : t.map.CachesHold P := by
  induction ht with
  | refl => exact h
  | tail _ hop ih => exact ih.operation hop

end FEMemoryMap.CachesHold

namespace Emulator

/-- The functions of the imported libraries reach the guest's memory through the memory map only. -/
def ImportsUseMap (env : Environment F) : Prop :=
  ∀coordinates s argumentsSize t,env.executeFunction coordinates () s=.ok (argumentsSize,t)→
    Relation.ReflTransGen (MemoryOperation env.build) s.memory t.memory

/-- The program touches the memory through the memory map only. -/
def Operates {α : Type} (env : Environment F) (x : Emulator F α) : Prop :=
  ∀s a t,x env s=.ok (a,t)→Relation.ReflTransGen (MemoryOperation env.build) s.memory t.memory

/-- After other operations on the memory the program fetched at `eip`, and has not touched the
memory or `eip` since. -/
def Refetched (env : Environment F) (s t : FEProcess F) : Prop :=
  ∃u v,Relation.ReflTransGen (MemoryOperation env.build) s.memory u.memory ∧
    updateDisasmFromContext env u=.ok ((),v) ∧ SameFetch v t ∧ t.memory=v.memory

/-- The two ways a branch of the `switch` ends: with the instruction it started with, or with a
fetch and `continue`. -/
def Settles (env : Environment F) (x : Emulator F Flow) : Prop :=
  ∀s flow t,x env s=.ok (flow,t)→SameFetch s t ∨ flow=.continueLoop ∧ Refetched env s t

def Refetches (env : Environment F) (x : Emulator F Flow) : Prop :=
  ∀s flow t,x env s=.ok (flow,t)→flow=.continueLoop ∧ Refetched env s t

section Rules
variable {α : Type} {env : Environment F} {s t u : FEProcess F}

theorem SameFetch.operations (h : SameFetch s t) :
    Relation.ReflTransGen (MemoryOperation env.build) s.memory t.memory := by
  have hmemory : t.memory=⟨s.memory.map,t.memory.host⟩ := by rw [←h.map]
  rw [hmemory]
  exact .single (.write t.memory.host)

theorem Refetched.after (h : Refetched env u t)
    (hs : Relation.ReflTransGen (MemoryOperation env.build) s.memory u.memory) :
    Refetched env s t := by
  obtain ⟨v,w,hv,hw,hsame,hmemory⟩ := h
  exact ⟨v,w,hs.trans hv,hw,hsame,hmemory⟩

theorem operates_of_within {x : Emulator F α} (h : x.Within SameFetch) : Operates env x :=
  fun s a t hx => (h env s a t hx).operations

theorem setRegister32_operates (name : FERegisterName) (v : U32) :
    Operates env (setRegister32 name v : Emulator F Unit) := by
  intro s a t h
  cases h
  exact .refl

theorem setRegister16_operates (name : FERegisterName) (v : U16) :
    Operates env (setRegister16 name v : Emulator F Unit) := by
  intro s a t h
  cases h
  exact .refl

theorem executeFunctionAtAddress_operates (h : ImportsUseMap env) (proxy : FEImportsProxy)
    (address : U32) :
    Operates env (executeFunctionAtAddress proxy address : Emulator F U8) := by
  intro s a t ht
  obtain ⟨coordinates?,u,hu,ht⟩ := Exec.bind_eq_ok.mp ht
  have hsame : SameFetch s u := Exec.Within.ofExcept _ env s coordinates? u hu
  cases coordinates? with
  | none =>
    cases ht
    exact hsame.operations
  | some coordinates => exact hsame.operations.trans (h coordinates u a t ht)

namespace Refetches

theorem after {x : Emulator F α} {f : α→Emulator F Flow} (hx : Operates env x)
    (hf : ∀a,Refetches env (f a)) :
    Refetches env (x >>= f) := by
  intro s flow t h
  obtain ⟨a,u,hu,h⟩ := Exec.bind_eq_ok.mp h
  obtain ⟨hflow,hfetch⟩ := hf a u flow t h
  exact ⟨hflow,hfetch.after (hx s a u hu)⟩

theorem fetch : Refetches env (updateDisasmFromContext >>= fun _ => pure .continueLoop) := by
  intro s flow t h
  obtain ⟨_,u,hu,h⟩ := Exec.bind_eq_ok.mp h
  cases h
  exact ⟨rfl,s,_,.refl,hu,refl_of SameFetch _,rfl⟩

theorem goto (eip : U32) : Refetches env (goto eip) :=
  .after (setRegister32_operates _ _) fun _ => fetch

/-- The end of `0xc2` and `0xca`: the operand is read after the fetch. -/
theorem fetchOffset (op : DISASM) : Refetches env (do
    updateDisasmFromContext
    let offset ← loadArg1 op
    let esp ← register32 .kESP
    setRegister32 .kESP (esp+offset)
    return .continueLoop) := by
  intro s flow t h
  obtain ⟨_,u,hu,h⟩ := Exec.bind_eq_ok.mp h
  obtain ⟨offset,v,hv,h⟩ := Exec.bind_eq_ok.mp h
  cases loadArgValue_within (R:=Eq) op.Argument1 _ env u offset v hv
  cases h
  exact ⟨rfl,s,u,.refl,hu,⟨rfl,FEThreadContext.eip_writeAt _ .kESP (by decide) (by simp),rfl,
    rfl,rfl⟩,rfl⟩

end Refetches

namespace Settles

theorem of_within {x : Emulator F Flow} (h : x.Within SameFetch) : Settles env x :=
  fun s flow t hx => .inl (h env s flow t hx)

theorem of_refetches {x : Emulator F Flow} (h : Refetches env x) : Settles env x :=
  fun s flow t hx => .inr (h s flow t hx)

theorem bind {x : Emulator F α} {f : α→Emulator F Flow} (hx : x.Within SameFetch)
    (hf : ∀a,Settles env (f a)) :
    Settles env (x >>= f) := by
  intro s flow t h
  obtain ⟨a,u,hu,h⟩ := Exec.bind_eq_ok.mp h
  have hsu := hx env s a u hu
  rcases hf a u flow t h with hut | ⟨hflow,hfetch⟩
  · exact .inl (trans_of SameFetch hsu hut)
  · exact .inr ⟨hflow,hfetch.after hsu.operations⟩

theorem ite {c : Prop} [Decidable c] {x y : Emulator F Flow} (hx : Settles env x)
    (hy : Settles env y) :
    Settles env (if c then x else y) := by
  split
  · exact hx
  · exact hy

theorem goto (eip : U32) : Settles env (Emulator.goto eip) := of_refetches (.goto eip)

end Settles
end Rules

section Branches
variable {env : Environment F}

theorem jump_settles (taken : FECPUFlags→Bool) (op : DISASM) : Settles env (jump taken op) :=
  .bind (assertRelative_within op) fun _ => .bind (assert_within _) fun _ =>
    .bind cpuFlags_within fun _ =>
    .ite (.goto _) (.of_within (.pure _))

theorem jumpAnySize_settles (taken : FECPUFlags→Bool) (op : DISASM) :
    Settles env (jumpAnySize taken op) :=
  .bind (assertRelative_within op) fun _ => .bind cpuFlags_within fun _ => .ite (.goto _)
    (.of_within (.pure _))

theorem jecxz_settles (op : DISASM) : Settles env (jecxz op) :=
  .bind (assertRelative_within op) fun _ => .bind (assert_within _) fun _ =>
    .bind (register32_within _) fun _ =>
    .ite (.goto _) (.of_within (.pure _))

theorem jmp_settles (op : DISASM) : Settles env (jmp op) :=
  .bind (assertRelative_within op) fun _ => .bind (assert_within _) fun _ => .goto _

theorem call_settles (op : DISASM) : Settles env (call op) :=
  .bind (assertRelative_within op) fun _ => .bind (assert_within _) fun _ =>
    .bind nextEIP_within fun _ =>
    .bind (push32_within _) fun _ => .goto _

theorem ret_settles (op : DISASM) : Settles env (ret op) := .bind pop32_within fun _ => .goto _

theorem retn_settles (op : DISASM) : Settles env (retn op) :=
  .bind pop32_within fun _ => .of_refetches (.after (setRegister32_operates _ _) fun _ =>
    .fetchOffset op)

theorem retFar_settles (op : DISASM) : Settles env (retFar op) :=
  .bind (assert_within _) fun _ => .bind pop32_within fun _ => .bind pop32_within fun _ =>
    .of_refetches (.after (setRegister32_operates _ _) fun _ => .after (setRegister16_operates _ _)
      fun _ => .fetch)

theorem retnFar_settles (op : DISASM) : Settles env (retnFar op) :=
  .bind (assert_within _) fun _ => .bind pop32_within fun _ => .bind pop32_within fun _ =>
    .of_refetches (.after (setRegister32_operates _ _) fun _ => .after (setRegister16_operates _ _)
      fun _ =>
      .fetchOffset op)

theorem callImport_refetches (h : ImportsUseMap env) (proxy : FEImportsProxy) (address : U32) :
    Refetches env (callImport proxy address) :=
  .after (executeFunctionAtAddress_operates h proxy address) fun _ =>
    .after (operates_of_within pop32_within) fun _ =>
    .after (setRegister32_operates _ _) fun _ => .after (operates_of_within (register32_within _))
      fun _ =>
      .after (setRegister32_operates _ _) fun _ => .fetch

theorem instructionFF_settles (h : ImportsUseMap env) (op : DISASM) :
    Settles env (instructionFF op) := by
  refine .bind (loadArg1_within op) fun arg1Value => .ite ?_ <|
    .ite (.bind (bitWidth_within _) fun _ => .bind (unary_within _ _ _) fun _ =>
      .bind (storeValueInArg_within _ _) fun _ => .of_within (.pure _)) <|
    .ite (.bind (bitWidth_within _) fun _ => .bind (unary_within _ _ _) fun _ =>
      .bind (storeValueInArg_within _ _) fun _ => .of_within (.pure _)) <|
    .ite (.of_within (pushArg_within op)) (.of_within (.pure _))
  refine .bind (.ite (.bind nextEIP_within fun _ => push32_within _) (.pure _)) fun _ =>
    .bind .get fun s => ?_
  cases s.importsProxy with
  | none => exact .goto _
  | some proxy =>
    exact .bind (.ofExcept _) fun _ => .ite (.of_refetches (callImport_refetches h proxy _))
      (.goto _)

theorem generalBranches_settle (h : ImportsUseMap env) :
    ∀branch∈generalBranches (F:=F),∀op,Settles env (branch.body op) := by
  have within {x : DISASM→Emulator F Flow} (hx : ∀op,(x op).Within SameFetch) (op : DISASM) :
    Settles env (x op) :=
    .of_within (hx op)
  simp only [generalBranches,List.forall_mem_cons]
  exact ⟨within mov_within,within pushArg_within,within pushSegment_within,
    within (binaryInstruction_within _),within popSegment_within,
    within (binaryInstruction_within _),within (binaryInstruction_within _),
    within (binaryInstruction_within _),within (binaryInstruction_within _),within daa_within,
    within das_within,within aaa_within,within aas_within,within (binaryInstruction_within _),
    within (compareInstruction_within _),within (incDec_within (unary_within _) (unary_within _)),
    within (unaryInstruction_within (unary_within _)),within (binaryInstruction_within _),
    within (unaryInstruction_within (unary_within _)),within popArg_within,
    within imulImmediate_within,jump_settles _,jump_settles _,jump_settles _,jump_settles _,
    jump_settles _,jump_settles _,jump_settles _,jump_settles _,jump_settles _,jump_settles _,
    jump_settles _,jump_settles _,jumpAnySize_settles _,jumpAnySize_settles _,jumpAnySize_settles _,
    jumpAnySize_settles _,within instruction8081_within,within instruction83_within,
    within (compareInstruction_within _),within xchg_within,within lea_within,within cmps_within,
    within scas_within,within stos_within,within movs_within,within lods_within,
    within fun _ => .pure _,within cbw_within,within cwd_within,within pushfd_within,
    within popfd_within,within shift_within,ret_settles,retFar_settles,retn_settles,retnFar_settles,
    within moveAnySize_within,within leave_within,within aam_within,within aad_within,jecxz_settles,
    jmp_settles,call_settles,within cmc_within,within instructionF6_within,
    within instructionF7_within,instructionFF_settles h,within (moveIf_within _),
    within (moveIf_within _),within (moveIf_within _),within (moveIf_within _),
    within (moveIf_within _),within (moveIf_within _),within (moveIf_within _),
    within (moveIf_within _),within (moveIf_within _),within (moveIf_within _),
    within (moveIf_within _),within (moveIf_within _),within (moveIf_within _),
    within (moveIf_within _),within (moveIf_within _),within (moveIf_within _),
    within (setIf_within _),within (setIf_within _),within (setIf_within _),within (setIf_within _),
    within (setIf_within _),within (setIf_within _),within (setIf_within _),within (setIf_within _),
    within (setIf_within _),within (setIf_within _),within (setIf_within _),within (setIf_within _),
    within (setIf_within _),within (setIf_within _),within (setIf_within _),within (setIf_within _),
    within imul_within,within movsx_within,within moveAnySize_within,within cld_within,
    within std_within,within sahf_within,within enter_within,by simp⟩

theorem mem_of_select {α : Type} {branches : List (Branch α)} {opcode : U32} {body : α}
    (h : select branches opcode=some body) : ∃branch∈branches,branch.body=body := by
  obtain ⟨branch,hfind,hbody⟩ := Option.map_eq_some_iff.mp h
  exact ⟨branch,List.mem_of_find?_eq_some hfind,hbody⟩

theorem unknownInstruction_within {α : Type} :
    (unknownInstruction : Emulator F α).Within SameFetch :=
  .bind (assert_within _) fun _ => .fail _

/-- Every branch of both `switch` statements ends in one of the two ways. -/
theorem execute_settles (h : ImportsUseMap env) (op : DISASM) : Settles env (execute op) := by
  refine .ite ?_ (.ite ?_ (.of_within (.bind (assert_within _) fun _ => .pure _)))
  · cases hselect : select generalBranches op.Instruction.Opcode with
    | none => exact .of_within unknownInstruction_within
    | some body =>
      obtain ⟨branch,hmem,rfl⟩ := mem_of_select hselect
      exact generalBranches_settle h branch hmem op
  · cases hselect : select fpuBranches op.Instruction.Opcode with
    | none => exact .of_within unknownInstruction_within
    | some body =>
      obtain ⟨branch,hmem,rfl⟩ := mem_of_select hselect
      exact .of_within (.bind .get fun _ => .bind (fpuBranches_within branch hmem _ _)
        fun _ => .pure _)

theorem jumpToNextInstr_refetches {s t : FEProcess F} (h : jumpToNextInstr env s=.ok ((),t)) :
    Refetched env s t := by
  obtain ⟨op,u,hu,h⟩ := Exec.bind_eq_ok.mp h
  have hsu : SameFetch s u := derefOp_within env s op u hu
  obtain ⟨s',v,hv,h⟩ := Exec.bind_eq_ok.mp h
  cases hv
  obtain ⟨_,w,hw,h⟩ := Exec.bind_eq_ok.mp h
  cases hw
  refine ⟨_,t,?_,h,refl_of SameFetch t,rfl⟩
  exact hsu.operations

/-- A turn of the loop repeats its instruction or ends with a fetch. -/
theorem iteration_settles (h : ImportsUseMap env) {s t : FEProcess F}
    (ht : iteration env s=.ok ((),t)) :
    SameFetch s t ∨ Refetched env s t := by
  obtain ⟨_,u,hu,ht⟩ := Exec.bind_eq_ok.mp ht
  have hsu : SameFetch s u := by
    cases hu
    exact ⟨rfl,rfl,rfl,rfl,rfl⟩
  obtain ⟨op,v,hv,ht⟩ := Exec.bind_eq_ok.mp ht
  have hsv : SameFetch s v := trans_of SameFetch hsu (derefOp_within env u op v hv)
  obtain ⟨flow,w,hw,ht⟩ := Exec.bind_eq_ok.mp ht
  have hexecute := execute_settles h op v flow w hw
  cases flow with
  | continueLoop =>
    cases ht
    rcases hexecute with hsame | ⟨_,hfetch⟩
    · exact .inl (trans_of SameFetch hsv hsame)
    · exact .inr (hfetch.after hsv.operations)
  | jumpToNextInstr =>
    rcases hexecute with hsame | ⟨hflow,_⟩
    · exact .inr ((jumpToNextInstr_refetches ht).after (trans_of SameFetch hsv hsame).operations)
    · cases hflow

end Branches

section Invariant
variable {env : Environment F} {s t u v w : FEProcess F} {block : FEMemoryMapBlock} {offset : ℕ}
  {record : DISASM}
  {len : ℤ}

/-- `record` and `len` are the decode of the bytes at `eip` in the state `w`. -/
def DecodedAt (env : Environment F) (w : FEProcess F) (block : FEMemoryMapBlock)
    (record : DISASM) (len : ℤ) :
    Prop :=
  w.memory.map.blockFromVirtualAddress w.currentThread.eip=.ok (some block) ∧
    ∃stale : DISASM,env.disasm
      (stale.handed (block.localAddress+(w.currentThread.eip-block.virtualAddress).toNat)
        w.currentThread.eip)
      w.memory.host=(record,len)

/-- A state at the top of the loop that ends a fetch: the one before the loop, or that of a turn
which fetched. -/
def FetchEnds (env : Environment F) (s w : FEProcess F) : Prop :=
  (∃v,updateDisasmFromContext env s=.ok ((),v) ∧ w={ v with instructionCounter := 0 }) ∨
    ∃v,Reachable env s v ∧ Turn env v w ∧ Refetched env v w

/-- A turn that goes on with the instruction that it started with. -/
def Repeats (env : Environment F) (s t : FEProcess F) : Prop :=
  Turn env s t ∧ SameFetch s t ∧ ¬Refetched env s t

/-- The fetch that ended in `w` decoded the instruction for an offset in a block. -/
structure Decodes (env : Environment F) (s w : FEProcess F) (block : FEMemoryMapBlock) (offset : ℕ)
    (record : DISASM) (len : ℤ) : Prop where
  ends : FetchEnds env s w
  delivers : w.op.deref w.memory w.dummyOp=.ok record
  length : w.len=len
  offset : (w.currentThread.eip-block.virtualAddress).toNat=offset
  decoded : DecodedAt env w block record len

/-- The cache of a block has had an entry in every state since the fetch that decoded it. -/
def KeptSince (env : Environment F) (s t : FEProcess F) (block : FEMemoryMapBlock) (offset : ℕ)
    (record : DISASM) (len : ℤ) : Prop :=
  ∃w,Decodes env s w block offset record len ∧ w.memory.map.Cached block offset record len ∧
    Relation.ReflTransGen (fun x y => Turn env x y ∧ y.memory.map.Cached block offset record len) w
      t

/-- What the fetch that ended in `w` delivered: the decode of the bytes at `eip`, or, on a page
without `Write`, the entry that an earlier fetch had left in the cache. -/
def Delivered (env : Environment F) (s w : FEProcess F) (block : FEMemoryMapBlock)
    (record : DISASM) (len : ℤ) :
    Prop :=
  DecodedAt env w block record len ∨
    (∃mode,w.memory.map.accessModeAtAddress w.currentThread.eip=.ok mode ∧ mode.write=false) ∧
      KeptSince env s w block (w.currentThread.eip-block.virtualAddress).toNat record len

theorem KeptSince.extend (h : KeptSince env s u block offset record len) (ht : Turn env u t)
    (hcached : t.memory.map.Cached block offset record len) :
    KeptSince env s t block offset record len := by
  obtain ⟨w,hdecodes,hentry,hrun⟩ := h
  exact ⟨w,hdecodes,hentry,hrun.tail ⟨ht,hcached⟩⟩

/-- What holds at the top of the loop, in a run from `s`: the entries of the caches have been there
since fetches of the run decoded them, and `op` and `len` are from the last fetch. -/
structure FetchInvariant (env : Environment F) (s t : FEProcess F) : Prop where
  caches : t.memory.map.CachesHold (KeptSince env s t)
  fetched : ∃w block record,FetchEnds env s w ∧ Relation.ReflTransGen (Repeats env) w t ∧
    t.op.deref t.memory t.dummyOp=.ok record ∧ Delivered env s w block record t.len

/-- A decode of the bytes that a fetch found at `eip`, in a state that has kept them and `eip`. -/
theorem decodedAt_of_fetch {fetched : Fetched} {stale : DISASM}
    (hfetched : FalloutEmu.updateDisasmFromContext env.build env.disasm u.memory u.dummyOp
      u.currentThread.eip=.ok fetched)
    (heip : t.currentThread.eip=u.currentThread.eip) (hmemory : t.memory=fetched.memory)
    (hblock : u.memory.map.blockFromVirtualAddress u.currentThread.eip=.ok (some block))
    (hdecode : env.disasm
      (stale.handed (block.localAddress+(u.currentThread.eip-block.virtualAddress).toNat)
        u.currentThread.eip) u.memory.host=(record,fetched.len)) :
    DecodedAt env t block record fetched.len := by
  obtain ⟨hhost,hshadow⟩ := updateDisasmFromContext_same hfetched
  have hblock' : t.memory.map.blockFromVirtualAddress t.currentThread.eip=
      u.memory.map.blockFromVirtualAddress u.currentThread.eip := by
    rw [heip,hmemory]
    simp only [FEMemoryMap.blockFromVirtualAddress,hshadow]
  refine ⟨hblock'.trans hblock,stale,?_⟩
  rw [heip,hmemory]
  exact hhost ▸ hdecode

/-- A fetch establishes the invariant in the state in which its turn ends, if the entries from
before that are still there have been kept. -/
theorem FetchInvariant.of_fetch {P : FEMemoryMapBlock→ℕ→DISASM→ℤ→Prop} (hends : FetchEnds env s t)
    (hcaches : u.memory.map.CachesHold P)
    (hkept : ∀block offset record len,P block offset record len→
      t.memory.map.Cached block offset record len→KeptSince env s t block offset record len)
    (hfetch : updateDisasmFromContext env u=.ok ((),v)) (hsame : SameFetch v t)
    (hmemory : t.memory=v.memory) :
    FetchInvariant env s t := by
  obtain ⟨fetched,hfetched,hv⟩ := bind_eq_ok.mp (Exec.atomic_eq_ok.mp hfetch)
  cases hv
  have heip : t.currentThread.eip=u.currentThread.eip := hsame.eip
  have hderefs : ∀record,fetched.op.deref fetched.memory fetched.dummyOp=.ok record→
      t.op.deref t.memory t.dummyOp=.ok record := by
    intro record hderef
    rw [hsame.op,hsame.dummyOp,hmemory]
    exact hderef
  have hnew : ∀block,u.memory.map.blockFromVirtualAddress u.currentThread.eip=.ok (some block)→
      ∀stale record : DISASM,
        env.disasm
          (stale.handed (block.localAddress+(u.currentThread.eip-block.virtualAddress).toNat)
          u.currentThread.eip) u.memory.host=(record,fetched.len)→
        fetched.op.deref fetched.memory fetched.dummyOp=.ok record→
          P block (u.currentThread.eip-block.virtualAddress).toNat record fetched.len ∨
            Decodes env s t block (u.currentThread.eip-block.virtualAddress).toNat record
              fetched.len :=
    fun block hblock stale record hdecode hderef =>
      .inr ⟨hends,hderefs record hderef,hsame.len,
        by rw [heip],decodedAt_of_fetch hfetched heip hmemory hblock hdecode⟩
  obtain ⟨hnext,block,record,mode,hblock,hderef,hallowed,hmode,hpage⟩ :=
    updateDisasmFromContext_delivers
    (P:=fun block offset record len => P block offset record len ∨
      Decodes env s t block offset record len)
    (hcaches.mono fun _ _ _ _ => .inl) hnew hfetched
  have hmap : t.memory.map=fetched.memory.map := congrArg Memory.map hmemory
  have hsince : ∀block offset record len,
      (P block offset record len ∨ Decodes env s t block offset record len) ∧
        fetched.memory.map.Cached block offset record len→
          KeptSince env s t block offset record len := by
    rintro block offset record len ⟨hold | hdecodes,hcached⟩
    · exact hkept block offset record len hold (hmap ▸ hcached)
    · exact ⟨t,hdecodes,hmap ▸ hcached,.refl⟩
  refine ⟨hmap ▸ hnext.present.mono hsince,t,block,record,hends,.refl,hderefs record hderef,?_⟩
  rw [hsame.len]
  rcases hpage with ⟨_,hdecode⟩ | ⟨hreadOnly,hcached⟩
  · exact .inl (decodedAt_of_fetch hfetched heip hmemory hblock hdecode)
  · refine .inr ⟨⟨mode,?_,hreadOnly⟩,?_⟩
    · rw [hmap,heip]
      exact hmode
    · rw [heip]
      exact hsince block _ record _ ⟨hallowed,hcached⟩

theorem FetchInvariant.repeat (h : FetchInvariant env s u) (ht : Repeats env u t) :
    FetchInvariant env s t := by
  obtain ⟨hturn,hsame,_⟩ := id ht
  obtain ⟨w,block,record,hends,hrun,hderef,hdelivered⟩ := h.fetched
  refine ⟨?_,w,block,record,hends,hrun.tail ht,?_,?_⟩
  · rw [hsame.map]
    refine h.caches.present.mono fun block offset record len hentry => ?_
    exact hentry.1.extend hturn (hsame.map ▸ hentry.2)
  · rw [hsame.op,hsame.dummyOp,←hderef]
    cases u.op with
    | dummyOp => rfl
    | cached => simp only [DisasmPointer.deref,hsame.map]
  · rw [hsame.len]
    exact hdelivered

theorem FetchInvariant.turn (himports : ImportsUseMap env) (hreach : Reachable env s u)
    (h : FetchInvariant env s u) (ht : Turn env u t) : FetchInvariant env s t := by
  by_cases hrefetched : Refetched env u t
  · obtain ⟨v,w,hoperations,hfetch,hsame,hmemory⟩ := id hrefetched
    exact .of_fetch (.inr ⟨u,hreach,ht,hrefetched⟩) (h.caches.operations hoperations)
      (fun _ _ _ _ hold hcached => hold.extend ht hcached) hfetch hsame hmemory
  · exact h.repeat ⟨ht,(iteration_settles himports ht.2).resolve_right hrefetched,hrefetched⟩

end Invariant

section Repetition

end Repetition
end Emulator
end FalloutEmu
