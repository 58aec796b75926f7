import FalloutEmu.DecodeCache
import FalloutEmu.Runs
import FalloutEmu.VirtualAlloc

/-! # What one emulated process leaves to the next in the same host process -/
namespace FalloutEmu.ProcessIsolation
open HiddenState
open ByteStore (readAt writeAt length_readAt)
open VirtualAlloc (VirtualAllocArgs virtualAlloc)
variable {G : Type}

inductive FEHandleType where
  | File
  | Mutex
  | Module
  | IconHandle
  | ClassHandle
  | WindowHandle
  | GDIHandle
  | Hook
  deriving DecidableEq,Repr

structure HandleDetails where
  type : FEHandleType
  name : List Char
  deriving DecidableEq,Repr

abbrev Handles := U32→Option HandleDetails

def sizeofWaveformatex : ℕ := 20

def Waveformatex := { bytes : List U8 // bytes.length=sizeofWaveformatex }

/-- What the host process keeps and emulated code can observe. -/
structure Statics where
  /-- `calls` of `fe_VirtualAlloc` -/
  calls : U32
  /-- `handle` of `createHandleType:name:payload:` -/
  handle : U32
  /-- `Waveformatex` of the sound library -/
  waveformatex : Waveformatex
  /-- `dummyOp` of `beu_update_disasm_from_context` -/
  dummyOp : DISASM
  /-- what the memory holds that the host's allocator hands out -/
  heap : ℕ→U8

/-- The host process before its first emulated one. -/
def Statics.initial (heap : ℕ→U8) : Statics :=
  ⟨0,0xeeeee,⟨List.replicate sizeofWaveformatex 0,List.length_replicate⟩,default,heap⟩

/-- What belongs to one `FEProcess`; `rest` holds its registers and whatever else it owns or is fed
from outside, such as its disk and the clock. -/
structure ProcessState (G : Type) where
  rest : G
  memory : Memory DisasmContext
  handles : Handles

/-- The loop of `createHandleType:name:payload:`, for at most `n` turns. -/
def freeNumber (handles : Handles) : ℕ→U32→Option U32
  | 0,_ => none
  | n+1,handle => if handles handle=none then some handle else freeNumber handles n (handle+1)

/-- `createHandleType:name:payload:`; its loop never ends when every number is taken. -/
def createHandleType (handles : Handles) (handle : U32) (details : HandleDetails) :
    Except Stop (U32×Handles) :=
  match freeNumber handles (2^32) handle with
  | some handle => .ok (handle,fun number => if number=handle then some details else handles number)
  | none => .error .undefinedBehaviour

def getFormat {κ : Type} (memory : Memory κ) (waveformatex : Waveformatex)
    (arg_lpwfxFormat arg_dwSizeAllocated arg_lpdwSizeWritten : U32) : Except Stop (Memory κ) :=
  if arg_lpwfxFormat=0 then memory.setValue32 arg_lpdwSizeWritten (.ofNat 32 sizeofWaveformatex)
  else if arg_dwSizeAllocated.toNat ≤ sizeofWaveformatex then
    memory.memcpyToVirtualFromReal arg_lpwfxFormat (waveformatex.1.take arg_dwSizeAllocated.toNat)
  else .error .outOfBounds

def setFormat {κ : Type} (memory : Memory κ) (arg_lpcfxFormat : U32) :
    Except Stop Waveformatex := do
  let ptr ← memory.map.localAddressFromVirtualAddress arg_lpcfxFormat
  .ok ⟨readAt memory.host ptr sizeofWaveformatex,length_readAt _ _ _⟩

/-- What a buffer from `malloc`, which does not clear it, makes of the memory of a process. -/
def uncleared (heap host : ℕ→U8) (address size : ℕ) : ℕ→U8 :=
  writeAt host address (readAt heap address size)

/-- The code that uses what the host process keeps, with its arguments and the host allocator's
answers. A thread context, a stack and every other block come from `malloc`; the allocator leaves
some bytes in what is freed. -/
inductive Request where
  | malloc (address size : ℕ)
  | free (address : ℕ) (left : List U8)
  | virtualAlloc (args : VirtualAllocArgs) (eip : U32) (host : HostAllocation)
  | createHandleType (details : HandleDetails)
  | getFormat (arg_lpwfxFormat arg_dwSizeAllocated arg_lpdwSizeWritten : U32)
  | setFormat (arg_lpcfxFormat : U32)
  | updateDisasm (eip : U32)

inductive Answer where
  | address (v : U32)
  | handle (v : U32)
  | status
  | fetched (op : DISASM) (len : ℤ) (modrm : U8)
  deriving DecidableEq

def serve (disasm : Disassembler) (p : ProcessState G) (s : Statics) :
    Request→Except Stop (Answer×ProcessState G×Statics)
  | .malloc address size =>
    .ok (.status,{ p with memory :=
      { p.memory with host := uncleared s.heap p.memory.host address size } },s)
  | .free address left => .ok (.status,p,{ s with heap := writeAt s.heap address left })
  | .virtualAlloc args eip host => do
    let (address,result) ← virtualAlloc ⟨p.memory.map,s.calls⟩ args eip host
    let buffer := uncleared s.heap p.memory.host (host.realAddress.getD 0) args.dwSize.toNat
    .ok (.address address,{ p with memory := ⟨result.map,buffer⟩ },{ s with calls := result.calls })
  | .createHandleType details => do
    let (handle,handles) ← createHandleType p.handles s.handle details
    .ok (.handle handle,{ p with handles := handles },{ s with handle := handle })
  | .getFormat arg_lpwfxFormat arg_dwSizeAllocated arg_lpdwSizeWritten => do
    let memory ← getFormat p.memory s.waveformatex arg_lpwfxFormat arg_dwSizeAllocated
      arg_lpdwSizeWritten
    .ok (.status,{ p with memory := memory },s)
  | .setFormat arg_lpcfxFormat => do
    let waveformatex ← setFormat p.memory arg_lpcfxFormat
    .ok (.status,p,{ s with waveformatex := waveformatex })
  | .updateDisasm eip => do
    let fetched ← updateDisasmFromContext .debug disasm p.memory s.dummyOp eip
    let op ← fetched.op.deref fetched.memory fetched.dummyOp
    .ok (.fetched op fetched.len fetched.modrm,{ p with memory := fetched.memory },
      { s with dummyOp := fetched.dummyOp })

/-- Everything else that runs in a process: the guest's code, the instructions and the functions
without static variables. It leads from one request to the next. -/
structure Program (G : Type) where
  next : ProcessState G→Request
  resume : ProcessState G→Answer→ProcessState G

def step (disasm : Disassembler) (program : Program G) (p : ProcessState G) (s : Statics) :
    Except Stop (Answer×ProcessState G×Statics) := do
  let (answer,q,t) ← serve disasm p s (program.next p)
  .ok (answer,program.resume q answer,t)

/-- Whatever the host process kept, the program sees the same answers and leaves the same
process. -/
def Alike (disasm : Disassembler) (program : Program G) (p : ProcessState G) (s s' : Statics)
    (n : ℕ) : Prop :=
  visible (run (step disasm program) p s n)=visible (run (step disasm program) p s' n)

/-! ## The decoder's record -/

/-- What `Disasm` makes of an instruction with a record, where it knows the opcode. -/
def decoded (disasm : Disassembler) (record : DISASM) (reip : ℕ) (eip : U32) (host : ℕ→U8) :
    Option (DISASM×ℤ) :=
  let result := disasm (record.handed reip eip) host
  if result.2=UNKNOWN_OPCODE then none else some result

/-- `Disasm` finds no difference between two records. -/
def DecodesAlike (disasm : Disassembler) (record record' : DISASM) : Prop :=
  ∀reip eip host,decoded disasm record reip eip host=decoded disasm record' reip eip host

theorem DecodesAlike.symm {disasm : Disassembler} {record record' : DISASM}
    (h : DecodesAlike disasm record record') :
    DecodesAlike disasm record' record := fun reip eip host => (h reip eip host).symm

/-- The fetch at `eip` copies the static record: it decodes anew into a cache without a free
slot. -/
def CopiesDummyOp (memory : Memory DisasmContext) (eip : U32) : Prop :=
  ∃block mode context,memory.map.blockFromVirtualAddress eip=.ok (some block) ∧
    memory.map.accessModeAtAddress eip=.ok mode ∧ mode.write=false ∧
    memory.map.context block.pointer=some context ∧
    context.indexes.get (eip-block.virtualAddress).toNat=.ok (-1) ∧
    ¬context.disasmed.size<context.disasmed.capacity

theorem create_hasRoom (size : U32) :
    (DisasmContext.create size).disasmed.size<(DisasmContext.create size).disasmed.capacity :=
  (by decide : 0 < 512)

theorem store_appended (array : FEArray DISASM) (hfull : ¬array.size<array.capacity)
    (a b element : DISASM) :
    (array.appended a).store array.size element=(array.appended b).store array.size element := by
  unfold FEArray.appended FEArray.store
  rw [dif_neg hfull,dif_neg hfull]
  simp only [List.set_append,FEArray.length_elements,Nat.lt_irrefl,if_false,Nat.sub_self,
    List.set_cons_zero]

theorem index_appended (array : FEArray DISASM) (a : DISASM) :
    (array.appended a).index array.size=.ok a := by
  apply FEArray.index_eq_ok
  rw [FEArray.elements_appended,List.getElem?_append_right (by rw [FEArray.length_elements]),
    FEArray.length_elements,Nat.sub_self]
  rfl

theorem decode_of_full {disasm : Disassembler} {host : ℕ→U8} {d : DISASM} {context : DisasmContext}
    {reip offset : ℕ} {eip : U32} (hfull : ¬context.disasmed.size<context.disasmed.capacity) :
    context.decode disasm host d reip eip offset=(do
      let indexes ← context.indexes.set offset context.disasmed.size
      let disasmed ← context.disasmed.append default
      match decoded disasm d reip eip host with
      | none => .error .exit
      | some result => do
        let lens ← context.lens.append result.2
        .ok (⟨indexes,disasmed.store context.disasmed.size result.1,lens⟩,context.disasmed.size,
          result.2)) := by
  unfold DisasmContext.decode DisasmContext.nextRecord
  simp only [dif_neg hfull,decoded]
  cases context.indexes.set offset context.disasmed.size with
  | error e => rfl
  | ok indexes =>
    simp only [ok_bind]
    by_cases hgrows : context.disasmed.Grows
    · simp only [hgrows.append_eq,ok_bind,index_appended,store_appended context.disasmed
        hfull d default]
      split <;> rfl
    · simp only [FEArray.append,if_neg hgrows,error_bind]

/-- The cached path of a fetch uses the static record only where it copies it. -/
theorem fetch_eq {disasm : Disassembler} {host : ℕ→U8} {d d' : DISASM} {context : DisasmContext}
    {reip offset : ℕ} {eip : U32} (h : context.indexes.get offset=.ok (-1) →
      ¬context.disasmed.size<context.disasmed.capacity →
      DecodesAlike disasm d d') :
    context.fetch disasm host d reip eip offset=context.fetch disasm host d' reip eip offset := by
  unfold DisasmContext.fetch
  cases hget : context.indexes.get offset with
  | error e => rfl
  | ok index =>
    simp only [ok_bind]
    split
    case isTrue hnew =>
      by_cases hroom : context.disasmed.size<context.disasmed.capacity
      · unfold DisasmContext.decode DisasmContext.nextRecord
        rw [dif_pos hroom,dif_pos hroom]
      · rw [decode_of_full hroom,decode_of_full hroom,h (by rw [hget,hnew]) hroom reip eip host]
    case isFalse => rfl

def leftRecord (d : DISASM) (fetched : Fetched) : DISASM :=
  match fetched.op with
  | .dummyOp => fetched.dummyOp
  | .cached _ _ => d

theorem updateDisasm_eq {disasm : Disassembler} {memory : Memory DisasmContext}
    {d d' : DISASM} {eip : U32} (h : CopiesDummyOp memory eip → DecodesAlike disasm d d') :
    updateDisasmFromContext .debug disasm memory d' eip=
      (updateDisasmFromContext .debug disasm memory d eip).map fun fetched =>
        { fetched with dummyOp := leftRecord d' fetched } := by
  unfold updateDisasmFromContext
  cases hblock : memory.map.blockFromVirtualAddress eip with
  | error e => rfl
  | ok block? =>
    cases block? with
    | none => rfl
    | some block =>
      cases hmode : memory.map.accessModeAtAddress eip with
      | error e => rfl
      | ok mode =>
        simp only [ok_bind]
        split
        case isTrue =>
          split <;> rfl
        case isFalse hwrite =>
          have hfetch : ((memory.map.context block.pointer).getD (.create block.size)).fetch disasm
            memory.host d'
              (block.localAddress+(eip-block.virtualAddress).toNat) eip
                (eip-block.virtualAddress).toNat=
              ((memory.map.context block.pointer).getD (.create block.size)).fetch disasm
                memory.host d
              (block.localAddress+(eip-block.virtualAddress).toNat) eip
                (eip-block.virtualAddress).toNat := by
            apply fetch_eq
            intro hnew hfull
            apply DecodesAlike.symm
            apply h
            cases hcontext : memory.map.context block.pointer with
            | none =>
              rw [hcontext] at hfull
              exact absurd (create_hasRoom block.size) hfull
            | some context =>
              rw [hcontext] at hnew hfull
              exact ⟨block,mode,context,hblock,hmode,by simpa using hwrite,hcontext,hnew,hfull⟩
          rw [hfetch]
          cases ((memory.map.context block.pointer).getD (.create block.size)).fetch disasm
            memory.host d
            (block.localAddress+(eip-block.virtualAddress).toNat) eip
              (eip-block.virtualAddress).toNat <;> rfl

/-! ## Steps -/

/-- The step does not depend on which of the two states the statics are in. -/
def Shielded (disasm : Disassembler) (p : ProcessState G) (s s' : Statics) : Request→Prop
  | .malloc address size => readAt s.heap address size=readAt s'.heap address size
  | .free _ _ => True
  | .virtualAlloc args _ host => (s.calls=0 ↔ s'.calls=0) ∧
      readAt s.heap (host.realAddress.getD 0) args.dwSize.toNat=
        readAt s'.heap (host.realAddress.getD 0) args.dwSize.toNat
  | .createHandleType _ => s.handle=s'.handle
  | .getFormat arg_lpwfxFormat arg_dwSizeAllocated _ => arg_lpwfxFormat≠0 →
      s.waveformatex.1.take arg_dwSizeAllocated.toNat=s'.waveformatex.1.take
        arg_dwSizeAllocated.toNat
  | .setFormat _ => True
  | .updateDisasm eip => CopiesDummyOp p.memory eip → DecodesAlike disasm s.dummyOp s'.dummyOp

theorem virtualAlloc_eq {κ : Type} (m : FEMemoryMap κ) {calls calls' : U32} (h : calls=0 ↔ calls'=0)
    (args : VirtualAllocArgs) (eip : U32) (host : HostAllocation) :
    virtualAlloc ⟨m,calls'⟩ args eip host=
      (virtualAlloc ⟨m,calls⟩ args eip host).map fun r => (r.1,{ r.2 with calls := calls'+1 }) := by
  unfold virtualAlloc
  cases assertThat .debug (args.lpAddress=0) with
  | error e => rfl
  | ok => ?_
  cases assertThat .debug (args.flProtect=0x40) with
  | error e => rfl
  | ok => ?_
  cases assertThat .debug (args.flAllocationType=0x1000) with
  | error e => rfl
  | ok => ?_
  cases assertThat .debug (args.dwSize≠0) with
  | error e => rfl
  | ok => ?_
  by_cases hcalls : calls=0
  · have hcalls' : calls'=0 := h.mp hcalls
    simp only [ok_bind,hcalls,hcalls',ne_eq,not_true_eq_false,if_false]
    cases host.newBlock with
    | none => rfl
    | some newBlock =>
      dsimp only
      cases (m.clearContext newBlock).map .debug (FEMemoryMap.mallocBlock args.dwSize
        (VirtualAlloc.allocTag eip)
        (host.realAddress.getD 0) newBlock 0x3f0000) .readWrite <;> rfl
  · have hcalls' : calls'≠0 := fun hzero => hcalls (h.mpr hzero)
    simp only [ok_bind,ne_eq,hcalls,hcalls',not_false_eq_true,if_true]
    cases m.malloc .debug args.dwSize .readWrite (VirtualAlloc.allocTag eip) host <;> rfl

theorem getFormat_eq {κ : Type} (memory : Memory κ) {waveformatex waveformatex' : Waveformatex}
    {arg_lpwfxFormat arg_dwSizeAllocated : U32} (arg_lpdwSizeWritten : U32)
    (h : arg_lpwfxFormat≠0→waveformatex.1.take arg_dwSizeAllocated.toNat=
      waveformatex'.1.take arg_dwSizeAllocated.toNat) :
    getFormat memory waveformatex arg_lpwfxFormat arg_dwSizeAllocated arg_lpdwSizeWritten=
      getFormat memory waveformatex' arg_lpwfxFormat arg_dwSizeAllocated arg_lpdwSizeWritten := by
  unfold getFormat
  by_cases hformat : arg_lpwfxFormat=0
  · rw [if_pos hformat,if_pos hformat]
  · rw [if_neg hformat,if_neg hformat,h hformat]

theorem visible_serve_eq {disasm : Disassembler} {p : ProcessState G} {s s' : Statics}
    {request : Request} (h : Shielded disasm p s s' request) :
    visible (serve disasm p s request)=visible (serve disasm p s' request) := by
  cases request with
  | malloc address size =>
    have heq : readAt s.heap address size=readAt s'.heap address size := h
    simp only [serve,uncleared,heq]
    rfl
  | free address left => rfl
  | virtualAlloc args eip host =>
    have heq := virtualAlloc_eq p.memory.map h.1 args eip host
    simp only [serve,uncleared,heq,h.2]
    cases virtualAlloc ⟨p.memory.map,s.calls⟩ args eip host <;> rfl
  | createHandleType details =>
    have heq : s.handle=s'.handle := h
    simp only [serve,heq]
    cases createHandleType p.handles s'.handle details <;> rfl
  | getFormat arg_lpwfxFormat arg_dwSizeAllocated arg_lpdwSizeWritten =>
    simp only [serve,getFormat_eq p.memory arg_lpdwSizeWritten h]
    cases getFormat p.memory s'.waveformatex arg_lpwfxFormat arg_dwSizeAllocated
      arg_lpdwSizeWritten <;> rfl
  | setFormat arg_lpcfxFormat =>
    simp only [serve]
    cases setFormat p.memory arg_lpcfxFormat <;> rfl
  | updateDisasm eip =>
    have heq := updateDisasm_eq h
    simp only [serve,heq]
    cases updateDisasmFromContext .debug disasm p.memory s.dummyOp eip with
    | error e => rfl
    | ok fetched =>
      obtain ⟨memory,dummyOp,op,len,modrm⟩ := fetched
      cases op with
      | dummyOp => rfl
      | cached block index =>
        simp only [Except.map,ok_bind,DisasmPointer.deref]
        cases memory.map.context block with
        | none => rfl
        | some context =>
          simp only []
          cases context.disasmed.index index <;> rfl

theorem visible_step_eq {disasm : Disassembler} {program : Program G} {p : ProcessState G}
    {s s' : Statics} (h : Shielded disasm p s s' (program.next p)) :
    visible (step disasm program p s)=visible (step disasm program p s') := by
  rcases visible_eq_visible (visible_serve_eq h) with ⟨e,hserve,hserve'⟩ | ⟨answer,q,t,t',
    hserve,hserve'⟩
  · rw [step,hserve,step,hserve']
  · rw [step,hserve,step,hserve']
    rfl

/-- A process whose requests are all shielded behaves as it does alone. -/
theorem alike_of_shielded {disasm : Disassembler} {program : Program G} {p : ProcessState G}
    {s s' : Statics} {n : ℕ} (h : ∀k<n,∀as q t t',run (step disasm program) p s k=.ok (as,q,t) →
      run (step disasm program) p s' k=.ok (as,q,t') → Shielded disasm q t t' (program.next q)) :
    Alike disasm program p s s' n :=
  visible_run_eq fun k hk as q t t' hrun hrun' => visible_step_eq (h k hk as q t t' hrun hrun')

/-- No request tells the two states of the statics apart. -/
structure Indistinguishable (disasm : Disassembler) (s s' : Statics) : Prop where
  calls : s.calls=s'.calls
  handle : s.handle=s'.handle
  waveformatex : s.waveformatex=s'.waveformatex
  dummyOp : DecodesAlike disasm s.dummyOp s'.dummyOp
  heap : s.heap=s'.heap

theorem Indistinguishable.shielded {disasm : Disassembler} {s s' : Statics}
    (h : Indistinguishable disasm s s') (p : ProcessState G) (request : Request) :
    Shielded disasm p s s' request := by
  cases request with
  | malloc => rw [Shielded,h.heap]
  | free => trivial
  | virtualAlloc => exact ⟨by rw [h.calls],by rw [h.heap]⟩
  | createHandleType => exact h.handle
  | getFormat => exact fun _ => h.waveformatex ▸ rfl
  | setFormat => trivial
  | updateDisasm => exact fun _ => h.dummyOp

theorem virtualAlloc_calls {κ : Type} {s : VirtualAlloc.AllocState κ} {args : VirtualAllocArgs}
    {eip : U32} {host : HostAllocation} {r : U32×VirtualAlloc.AllocState κ}
    (h : virtualAlloc s args eip host=.ok r) :
    r.2.calls=s.calls+1 := by
  have heq := virtualAlloc_eq s.map (Iff.refl (s.calls=0)) args eip host
  rw [h] at heq
  exact congrArg (fun r => r.2.calls) (Except.ok.inj heq)

theorem updateDisasm_dummyOp {disasm : Disassembler} {memory : Memory DisasmContext}
    {d : DISASM} {eip : U32} {fetched : Fetched}
    (h : updateDisasmFromContext .debug disasm memory d eip=.ok fetched) :
    fetched.dummyOp=leftRecord d fetched := by
  have heq : updateDisasmFromContext .debug disasm memory d eip=_ :=
    updateDisasm_eq fun _ _ _ _ => rfl
  rw [h] at heq
  exact congrArg Fetched.dummyOp (Except.ok.inj heq)

theorem Indistinguishable.serve {disasm : Disassembler} {s s' t t' : Statics}
    (h : Indistinguishable disasm s s') {p q q' : ProcessState G} {request : Request}
    {answer answer' : Answer} (hserve : serve disasm p s request=.ok (answer,q,t))
    (hserve' : ProcessIsolation.serve disasm p s' request=.ok (answer',q',t')) :
    Indistinguishable disasm t t' := by
  cases request with
  | malloc address size =>
    cases hserve
    cases hserve'
    exact h
  | free address left =>
    cases hserve
    cases hserve'
    exact ⟨h.calls,h.handle,h.waveformatex,h.dummyOp,by rw [h.heap]⟩
  | virtualAlloc args eip host =>
    obtain ⟨r,hr,hok⟩ := bind_eq_ok.mp hserve
    obtain ⟨r',hr',hok'⟩ := bind_eq_ok.mp hserve'
    obtain ⟨rfl,rfl,rfl⟩ := by simpa using hok
    obtain ⟨rfl,rfl,rfl⟩ := by simpa using hok'
    refine ⟨?_,h.handle,h.waveformatex,h.dummyOp,h.heap⟩
    exact (virtualAlloc_calls hr).trans ((congrArg (·+1) h.calls).trans
      (virtualAlloc_calls hr').symm)
  | createHandleType details =>
    obtain ⟨r,hr,hok⟩ := bind_eq_ok.mp hserve
    obtain ⟨r',hr',hok'⟩ := bind_eq_ok.mp hserve'
    obtain ⟨rfl,rfl,rfl⟩ := by simpa using hok
    obtain ⟨rfl,rfl,rfl⟩ := by simpa using hok'
    have hsame : r=r' := Except.ok.inj
      (hr.symm.trans ((congrArg (createHandleType p.handles · details) h.handle).trans hr'))
    exact ⟨h.calls,congrArg Prod.fst hsame,h.waveformatex,h.dummyOp,h.heap⟩
  | getFormat arg_lpwfxFormat arg_dwSizeAllocated arg_lpdwSizeWritten =>
    obtain ⟨r,_,hok⟩ := bind_eq_ok.mp hserve
    obtain ⟨r',_,hok'⟩ := bind_eq_ok.mp hserve'
    obtain ⟨rfl,rfl,rfl⟩ := by simpa using hok
    obtain ⟨rfl,rfl,rfl⟩ := by simpa using hok'
    exact h
  | setFormat arg_lpcfxFormat =>
    obtain ⟨r,hr,hok⟩ := bind_eq_ok.mp hserve
    obtain ⟨r',hr',hok'⟩ := bind_eq_ok.mp hserve'
    obtain ⟨rfl,rfl,rfl⟩ := by simpa using hok
    obtain ⟨rfl,rfl,rfl⟩ := by simpa using hok'
    exact ⟨h.calls,h.handle,Except.ok.inj (hr.symm.trans hr'),h.dummyOp,h.heap⟩
  | updateDisasm eip =>
    obtain ⟨fetched,hf,hop⟩ := bind_eq_ok.mp hserve
    obtain ⟨fetched',hf',hop'⟩ := bind_eq_ok.mp hserve'
    obtain ⟨op,_,hok⟩ := bind_eq_ok.mp hop
    obtain ⟨op',_,hok'⟩ := bind_eq_ok.mp hop'
    obtain ⟨rfl,rfl,rfl⟩ := by simpa using hok
    obtain ⟨rfl,rfl,rfl⟩ := by simpa using hok'
    refine ⟨h.calls,h.handle,h.waveformatex,?_,h.heap⟩
    have heq : updateDisasmFromContext .debug disasm p.memory s'.dummyOp eip=_ :=
      updateDisasm_eq fun _ => h.dummyOp
    rw [hf',hf] at heq
    have hrecord : fetched'.dummyOp=leftRecord s'.dummyOp fetched :=
      congrArg Fetched.dummyOp (Except.ok.inj heq)
    rw [hrecord,updateDisasm_dummyOp hf]
    unfold leftRecord
    split
    · exact fun _ _ _ => rfl
    · exact h.dummyOp

/-! ## Statics that are told apart -/

def Program.repeating (request : Request) : Program G := ⟨fun _ => request,fun q _ => q⟩

theorem visible_serve_of_alike {disasm : Disassembler} {s s' : Statics} {request : Request}
    {p : ProcessState G} (h : Alike disasm (.repeating request) p s s' 1) :
    visible (serve disasm p s request)=visible (serve disasm p s' request) := by
  have hrun (t : Statics) : visible (run (step disasm (.repeating request)) p t 1)=
      (visible (serve disasm p t request)).map fun r => ([r.1],r.2) := by
    simp only [run,step,Program.repeating]
    cases serve disasm p t request <;> rfl
  rw [Alike,hrun,hrun] at h
  cases hserve : visible (serve disasm p s request) with
  | error e =>
    cases hserve' : visible (serve disasm p s' request) with
    | error e' =>
      rw [hserve,hserve'] at h
      exact congrArg _ (Except.error.inj h)
    | ok r' =>
      rw [hserve,hserve'] at h
      cases h
  | ok r =>
    cases hserve' : visible (serve disasm p s' request) with
    | error e' =>
      rw [hserve,hserve'] at h
      cases h
    | ok r' =>
      rw [hserve,hserve'] at h
      obtain ⟨answer,q⟩ := r
      obtain ⟨answer',q'⟩ := r'
      simpa [Except.map] using h

/-- The page at address 0 that every process maps first. -/
def zeroBlock : FEMemoryMapBlock := ⟨0,0,0x1000,0x1000,0,false,".zero-page".toList⟩

def processMap : FEMemoryMap DisasmContext :=
  ((do
    let m ← (FEMemoryMap.create 0x40000000).map .debug zeroBlock .none
    m.map .debug VirtualAlloc.imageBlock .readWrite :
      Except Stop (FEMemoryMap DisasmContext))).toOption.getD
      (.create 0x40000000)

def allocation : Request := .virtualAlloc ⟨0,0x10000,0x1000,0x40⟩ 0x401000 ⟨some 0x20000,some 2⟩

def freshProcess : ProcessState Unit := ⟨(),⟨processMap,fun _ => 0⟩,fun _ => none⟩

theorem allocation_first {disasm : Disassembler} {s : Statics} (hcalls : s.calls=0) :
    (serve disasm freshProcess s allocation).map Prod.fst=.ok (.address 0x3f0000) := by
  obtain ⟨r,hr⟩ : ∃r,virtualAlloc ⟨processMap,0⟩ ⟨0,0x10000,0x1000,0x40⟩ 0x401000 ⟨some 0x20000,
    some 2⟩=.ok (0x3f0000,r) :=
    ⟨_,rfl⟩
  simp only [serve,allocation,freshProcess,hcalls,hr,ok_bind]
  rfl

theorem allocation_later {disasm : Disassembler} {s : Statics} (hcalls : s.calls≠0) :
    (serve disasm freshProcess s allocation).map Prod.fst=.ok (.address 0x1000) := by
  have haddress : (processMap.malloc .debug 0x10000 .readWrite (VirtualAlloc.allocTag 0x401000)
      ⟨some 0x20000,some 2⟩).map FEMemoryMap.MallocResult.address=.ok 0x1000 := by decide +kernel
  have hlater : virtualAlloc ⟨processMap,s.calls⟩ ⟨0,0x10000,0x1000,0x40⟩ 0x401000 ⟨some 0x20000,
    some 2⟩=_ :=
    VirtualAlloc.virtualAlloc_later ⟨rfl,rfl,rfl⟩ (by decide) hcalls
  simp only [serve,allocation,freshProcess,hlater]
  cases hmalloc : processMap.malloc .debug 0x10000 .readWrite (VirtualAlloc.allocTag 0x401000)
    ⟨some 0x20000,some 2⟩ with
  | error e =>
    rw [hmalloc] at haddress
    cases haddress
  | ok result =>
    rw [hmalloc] at haddress
    have hat : result.address=0x1000 := Except.ok.inj haddress
    simp only [Except.map,ok_bind,hat]

theorem createHandleType_free {handles : Handles} {handle : U32} (details : HandleDetails)
    (hfree : handles handle=none) :
    createHandleType handles handle details=
      .ok (handle,fun number => if number=handle then some details else handles number) := by
  have hloop (n : ℕ) : freeNumber handles (n+1) handle=some handle := by
    rw [freeNumber,if_pos hfree]
  unfold createHandleType
  rw [show 2^32=4294967295+1 from rfl,hloop]

theorem handle_eq_of_visible {disasm : Disassembler} {s s' : Statics} (details : HandleDetails)
    (h : visible (serve disasm freshProcess s (.createHandleType details))=
      visible (serve disasm freshProcess s' (.createHandleType details))) : s.handle=s'.handle := by
  have hcreate (handle : U32) : createHandleType freshProcess.handles handle details=_ :=
    createHandleType_free details rfl
  simp only [serve,hcreate,ok_bind,visible_ok,Except.ok.injEq,Prod.mk.injEq,
    Answer.handle.injEq] at h
  exact h.1

theorem waveformatex_eq_of_visible {disasm : Disassembler} {s s' : Statics}
    (h : visible (serve disasm freshProcess s (.getFormat 0x400000 20 0))=
      visible (serve disasm freshProcess s' (.getFormat 0x400000 20 0))) : s.waveformatex=
        s'.waveformatex := by
  have hlocal : processMap.localAddressFromVirtualAddress 0x400000=.ok 0x10000 := rfl
  have hget (t : Statics) : getFormat freshProcess.memory t.waveformatex 0x400000 20 0=
      .ok ⟨processMap,ByteStore.writeAt (fun _ => 0) 0x10000 t.waveformatex.1⟩ := by
    have htake : t.waveformatex.1.take (20 : U32).toNat=t.waveformatex.1 :=
      List.take_of_length_le (by rw [t.waveformatex.2]; decide)
    unfold getFormat
    rw [if_neg (by decide),if_pos (by decide),htake,Memory.memcpyToVirtualFromReal,Memory.store]
    exact congrArg (fun x => x >>= _) hlocal
  simp only [serve,hget,ok_bind,visible_ok,Except.ok.injEq,Prod.mk.injEq,ProcessState.mk.injEq,
    Memory.mk.injEq] at h
  have hread := congrArg (fun m => readAt m 0x10000 sizeofWaveformatex) h.2.2.1.2
  have hself (t : Statics) : readAt (ByteStore.writeAt (fun _ => 0) 0x10000 t.waveformatex.1)
    0x10000 sizeofWaveformatex=
      t.waveformatex.1 := by
    have hwritten := ByteStore.readAt_writeAt_self (fun _ => 0) 0x10000 t.waveformatex.1
    rwa [t.waveformatex.2] at hwritten
  simp only [hself] at hread
  exact Subtype.ext hread

/-- A cache of 512 instructions without a free slot, and none of them at the first byte. -/
def fullContext : DisasmContext where
  indexes := ⟨1,fun _ => -1⟩
  disasmed := ⟨List.replicate 512 default,512,512,List.length_replicate,Nat.le_refl _⟩
  lens := ⟨List.replicate 512 1,512,512,List.length_replicate,Nat.le_refl _⟩

def fullProcess (reip : ℕ) (eip : U32) (host : ℕ→U8) : ProcessState Unit where
  rest := ()
  memory :=
    ⟨{ processMap with
        memoryMapBlocksShadow := ⟨shadowIndex eip+1,fun _ => some ⟨1,eip,eip+1,1,reip,true,
          ".text".toList⟩⟩
        memoryMapRightsShadow := ⟨shadowIndex eip+1,fun _ => .none⟩
        context := fun _ => some fullContext },host⟩
  handles := fun _ => none

theorem updateDisasm_fullProcess (disasm : Disassembler) (d : DISASM) (reip : ℕ) (eip : U32)
    (host : ℕ→U8) :
    updateDisasmFromContext .debug disasm (fullProcess reip eip host).memory d eip=
      match decoded disasm d reip eip host with
      | none => .error .exit
      | some result => .ok ⟨{ (fullProcess reip eip host).memory with
          map := (fullProcess reip eip host).memory.map.setContext 1
            ⟨⟨1,fun p => if p=0 then 512 else -1⟩,(fullContext.disasmed.appended default).store
              512 result.1,fullContext.lens.appended result.2⟩ },d,.cached 1 512,result.2,
              host (reip+1)⟩ := by
  have hblock : (fullProcess reip eip host).memory.map.blockFromVirtualAddress eip=
      .ok (some ⟨1,eip,eip+1,1,reip,true,".text".toList⟩) := if_pos (Nat.lt_succ_self _)
  have hmode : (fullProcess reip eip host).memory.map.accessModeAtAddress eip=.ok .none :=
    if_pos (Nat.lt_succ_self _)
  have hfull : ¬fullContext.disasmed.size<fullContext.disasmed.capacity := by decide
  have hrecords : fullContext.disasmed.Grows := FEArray.grows_of_fits (by decide) (by decide)
  have hlens : fullContext.lens.Grows := FEArray.grows_of_fits (by decide) (by decide)
  have hget : fullContext.indexes.get 0=.ok (-1) := rfl
  have hset : fullContext.indexes.set 0 fullContext.disasmed.size=.ok ⟨1,fun p => if p=0 then 512
    else -1⟩ := rfl
  have hfetch : fullContext.fetch disasm host d reip eip 0=
      match decoded disasm d reip eip host with
      | none => .error .exit
      | some result => .ok (⟨⟨1,fun p => if p=0 then 512 else -1⟩,
          (fullContext.disasmed.appended default).store 512 result.1,
            fullContext.lens.appended result.2⟩,512,result.2) := by
    unfold DisasmContext.fetch
    rw [hget,ok_bind,if_pos rfl,decode_of_full hfull,hset,ok_bind,hrecords.append_eq,ok_bind]
    simp only [hlens.append_eq,ok_bind]
    rfl
  have hwrite : ¬FEMemoryAccessMode.none.write=true := by decide
  unfold updateDisasmFromContext
  simp only [hblock,ok_bind,hmode,if_neg hwrite,BitVec.sub_self]
  rw [show (fullProcess reip eip host).memory.map.context 1=some fullContext from rfl,
    Option.getD_some]
  rw [show (fullProcess reip eip host).memory.host=host from rfl]
  simp only [BitVec.toNat_ofNat,Nat.zero_mod,Nat.add_zero,hfetch]
  cases decoded disasm d reip eip host <;> rfl

theorem decodesAlike_of_visible {disasm : Disassembler} {s s' : Statics}
    (h : ∀reip eip host,visible (serve disasm (fullProcess reip eip host) s (.updateDisasm eip))=
      visible (serve disasm (fullProcess reip eip host) s' (.updateDisasm eip))) :
    DecodesAlike disasm s.dummyOp s'.dummyOp := by
  intro reip eip host
  have hserve (t : Statics) :
    (visible (serve disasm (fullProcess reip eip host) t (.updateDisasm eip))).map Prod.fst=
      match decoded disasm t.dummyOp reip eip host with
      | none => .error .exit
      | some result => .ok (.fetched result.1 result.2 (host (reip+1))) := by
    have hindex (result : DISASM) : ((fullContext.disasmed.appended default).store 512 result).index
      512=.ok result := by
      apply FEArray.index_eq_ok
      have hstored := FEArray.elements_store_appended fullContext.disasmed default result
      have hlength : fullContext.disasmed.elements.length=512 := FEArray.length_elements _
      rw [show ((fullContext.disasmed.appended default).store 512 result).elements=_ from hstored,
        List.getElem?_append_right (by rw [hlength]),hlength]
      rfl
    simp only [serve,updateDisasm_fullProcess]
    cases decoded disasm t.dummyOp reip eip host with
    | none => rfl
    | some result =>
      simp only [ok_bind,DisasmPointer.deref,FEMemoryMap.setContext,if_true,hindex]
      rfl
  have hanswers := congrArg (fun r => r.map Prod.fst) (h reip eip host)
  simp only [hserve] at hanswers
  cases hd : decoded disasm s.dummyOp reip eip host with
  | none =>
    cases hd' : decoded disasm s'.dummyOp reip eip host with
    | none => rfl
    | some result' => simp [hd,hd'] at hanswers
  | some result =>
    cases hd' : decoded disasm s'.dummyOp reip eip host with
    | none => simp [hd,hd'] at hanswers
    | some result' =>
      simp only [hd,hd',Except.ok.injEq,Answer.fetched.injEq,and_true] at hanswers
      exact congrArg some (Prod.ext hanswers.1 hanswers.2)

theorem calls_eq_of_visible {disasm : Disassembler} {s s' : Statics}
    (h : visible (serve disasm freshProcess s allocation)=
      visible (serve disasm freshProcess s' allocation)) :
    s.calls=0 ↔ s'.calls=0 := by
  have hfst (t : Statics) : (visible (serve disasm freshProcess t allocation)).map Prod.fst=
      (serve disasm freshProcess t allocation).map Prod.fst := by
    cases serve disasm freshProcess t allocation <;> rfl
  have hanswers := congrArg (fun r => r.map Prod.fst) h
  simp only [hfst] at hanswers
  by_cases hcalls : s.calls=0
  · by_cases hcalls' : s'.calls=0
    · exact iff_of_true hcalls hcalls'
    · rw [allocation_first hcalls,allocation_later hcalls'] at hanswers
      exact absurd hanswers (by decide)
  · by_cases hcalls' : s'.calls=0
    · rw [allocation_later hcalls,allocation_first hcalls'] at hanswers
      exact absurd hanswers (by decide)
    · exact iff_of_false hcalls hcalls'

theorem heap_eq_of_visible {disasm : Disassembler} {s s' : Statics}
    (h : ∀a,visible (serve disasm freshProcess s (.malloc a 1))=
      visible (serve disasm freshProcess s' (.malloc a 1))) :
    s.heap=s'.heap := by
  funext a
  have hvisible := h a
  simp only [serve,visible_ok,Except.ok.injEq,Prod.mk.injEq,ProcessState.mk.injEq,
    Memory.mk.injEq] at hvisible
  have hbyte (heap host : ℕ→U8) : uncleared heap host a 1 a=heap a := by
    simp [uncleared,ByteStore.writeAt,readAt]
  have hread := congrFun hvisible.2.2.1.2 a
  rwa [hbyte,hbyte] at hread

theorem indistinguishable_of_alike {disasm : Disassembler} {s s' : Statics}
    (h : ∀(program : Program Unit) (p : ProcessState Unit) (n : ℕ),Alike disasm program p s s' n)
    (hcalls : s.calls=0) :
    Indistinguishable disasm s s' where
  calls := hcalls.trans ((calls_eq_of_visible (visible_serve_of_alike (h _ _ _))).mp hcalls).symm
  handle := handle_eq_of_visible ⟨.Mutex,[]⟩ (visible_serve_of_alike (h _ _ _))
  waveformatex := waveformatex_eq_of_visible (visible_serve_of_alike (h _ _ _))
  dummyOp := decodesAlike_of_visible fun _ _ _ => visible_serve_of_alike (h _ _ _)
  heap := heap_eq_of_visible fun _ => visible_serve_of_alike (h _ _ _)

/-! ## Two processes -/

def Answer.isAddress : Answer→Bool
  | .address _ => true
  | _ => false

def lastHandle (handle : U32) : List Answer→U32
  | [] => handle
  | .handle v::answers => lastHandle v answers
  | _::answers => lastHandle handle answers

theorem lastHandle_append (handle : U32) (as bs : List Answer) :
    lastHandle handle (as++bs)=lastHandle (lastHandle handle as) bs := by
  induction as generalizing handle with
  | nil => rfl
  | cons a as ih => cases a <;> exact ih _

theorem serve_counters {disasm : Disassembler} {p q : ProcessState G} {s t : Statics}
    {request : Request} {answer : Answer} (h : serve disasm p s request=.ok (answer,q,t)) :
    t.calls=s.calls+(if answer.isAddress then 1 else 0) ∧
    t.handle=lastHandle s.handle [answer] := by
  cases request with
  | malloc address size =>
    cases h
    exact ⟨(BitVec.add_zero _).symm,rfl⟩
  | free address left =>
    cases h
    exact ⟨(BitVec.add_zero _).symm,rfl⟩
  | virtualAlloc args eip host =>
    obtain ⟨r,hr,hok⟩ := bind_eq_ok.mp h
    obtain ⟨rfl,rfl,rfl⟩ := by simpa using hok
    exact ⟨virtualAlloc_calls hr,rfl⟩
  | createHandleType details =>
    obtain ⟨r,_,hok⟩ := bind_eq_ok.mp h
    obtain ⟨rfl,rfl,rfl⟩ := by simpa using hok
    exact ⟨(BitVec.add_zero _).symm,rfl⟩
  | getFormat arg_lpwfxFormat arg_dwSizeAllocated arg_lpdwSizeWritten =>
    obtain ⟨r,_,hok⟩ := bind_eq_ok.mp h
    obtain ⟨rfl,rfl,rfl⟩ := by simpa using hok
    exact ⟨(BitVec.add_zero _).symm,rfl⟩
  | setFormat arg_lpcfxFormat =>
    obtain ⟨r,_,hok⟩ := bind_eq_ok.mp h
    obtain ⟨rfl,rfl,rfl⟩ := by simpa using hok
    exact ⟨(BitVec.add_zero _).symm,rfl⟩
  | updateDisasm eip =>
    obtain ⟨fetched,_,hop⟩ := bind_eq_ok.mp h
    obtain ⟨op,_,hok⟩ := bind_eq_ok.mp hop
    obtain ⟨rfl,rfl,rfl⟩ := by simpa using hok
    exact ⟨(BitVec.add_zero _).symm,rfl⟩

/-- What a run leaves in the counters: the number of its allocations, and the last handle it
created. -/
theorem counters_run {disasm : Disassembler} {program : Program G} {p q : ProcessState G}
    {s t : Statics} {n : ℕ} {as : List Answer} (h : run (step disasm program) p s n=.ok (as,q,t)) :
    t.calls=s.calls+.ofNat 32 (as.countP Answer.isAddress) ∧ t.handle=lastHandle s.handle as := by
  refine run_history (I:=fun as t => t.calls=s.calls+.ofNat 32 (as.countP Answer.isAddress) ∧
    t.handle=lastHandle s.handle as) ⟨(BitVec.add_zero _).symm,rfl⟩ ?_ h
  rintro as q t a q' t' ⟨hcalls,hhandle⟩ hstep
  obtain ⟨r,hserve,hok⟩ := bind_eq_ok.mp hstep
  obtain ⟨rfl,rfl,rfl⟩ := by simpa using hok
  obtain ⟨hcalls',hhandle'⟩ := serve_counters hserve
  constructor
  · rw [hcalls',hcalls,List.countP_append,List.countP_singleton,BitVec.add_assoc,BitVec.ofNat_add]
    split <;> rfl
  · rw [hhandle',hhandle,lastHandle_append]

/-- A process after another one behaves as it would alone as long as its requests are shielded;
whatever runs does so exactly if the first process left the host process such that no request tells
it from its first state; and the counters tell how many allocations it made and which handle it
created last. -/
theorem second_process_alike (disasm : Disassembler) (program₁ : Program G) (p₁ q₁ : ProcessState G)
    (n₁ : ℕ) (answers : List Answer) (heap : ℕ→U8) (s' : Statics)
    (hrun : run (step disasm program₁) p₁ (.initial heap) n₁=.ok (answers,q₁,s')) :
    (∀ (H : Type) (program : Program H) (p : ProcessState H) (n : ℕ),
      (∀k<n,∀as q t t',run (step disasm program) p (.initial heap) k=.ok (as,q,t) →
        run (step disasm program) p s' k=.ok (as,q,t') → Shielded disasm q t t' (program.next q)) →
      Alike disasm program p (.initial heap) s' n) ∧
    ((∀ (H : Type) (program : Program H) (p : ProcessState H) (n : ℕ),
      Alike disasm program p (.initial heap) s' n) ↔
      Indistinguishable disasm (.initial heap) s') ∧
    s'.calls=.ofNat 32 (answers.countP Answer.isAddress) ∧
    s'.handle=lastHandle 0xeeeee answers := by
  obtain ⟨hcalls,hhandle⟩ := counters_run hrun
  refine ⟨fun H program p n h => alike_of_shielded h,⟨?_,?_⟩,?_,hhandle⟩
  · intro h
    exact indistinguishable_of_alike (h Unit) rfl
  · intro h H program p n
    refine visible_run_eq_of_relation (R:=Indistinguishable disasm) h ?_ ?_ n
    · intro q t t' ht
      exact visible_step_eq (ht.shielded q _)
    · intro q t t' a r u u' ht hstep hstep'
      obtain ⟨served,hserve,hok⟩ := bind_eq_ok.mp hstep
      obtain ⟨served',hserve',hok'⟩ := bind_eq_ok.mp hstep'
      obtain ⟨rfl,_,rfl⟩ := by simpa using hok
      obtain ⟨_,_,rfl⟩ := by simpa using hok'
      exact ht.serve hserve hserve'
  · rw [hcalls]
    exact BitVec.zero_add _

def noDisasm : Disassembler := fun record _ => (record,UNKNOWN_OPCODE)

def clearHeap : ℕ→U8 := fun _ => 0

private theorem run_allocation : ∃q s',s'.calls≠0 ∧ s'.heap=clearHeap ∧
    run (step noDisasm (.repeating allocation)) freshProcess (.initial clearHeap) 1=
      .ok ([.address 0x3f0000],q,s') := by
  have hfirst : (serve noDisasm freshProcess (.initial clearHeap) allocation).map Prod.fst=_ :=
    allocation_first rfl
  cases hserve : serve noDisasm freshProcess (.initial clearHeap) allocation with
  | error e =>
    rw [hserve] at hfirst
    cases hfirst
  | ok r =>
    obtain ⟨answer,q,s'⟩ := r
    rw [hserve] at hfirst
    obtain rfl : answer=.address 0x3f0000 := Except.ok.inj hfirst
    refine ⟨q,s',?_,?_,?_⟩
    · rw [(serve_counters hserve).1]
      decide
    · obtain ⟨r,_,hok⟩ := bind_eq_ok.mp hserve
      obtain ⟨_,_,rfl⟩ := by simpa using hok
      rfl
    · simp only [run,step,Program.repeating,hserve,ok_bind]
      rfl

/-- The first allocation of the second process is not where it would be in the first. -/
theorem second_process_moved : ∃q s',
    run (step noDisasm (.repeating allocation)) freshProcess (.initial clearHeap) 1=
      .ok ([.address 0x3f0000],q,s') ∧
    (serve noDisasm freshProcess s' allocation).map Prod.fst=.ok (.address 0x1000) ∧
    ¬Alike noDisasm (.repeating allocation) freshProcess (.initial clearHeap) s' 1 := by
  obtain ⟨q,s',hcalls,_,hrun⟩ := run_allocation
  refine ⟨q,s',hrun,allocation_later hcalls,?_⟩
  intro halike
  exact hcalls ((calls_eq_of_visible (visible_serve_of_alike halike)).mp rfl)

/-- After one process with one allocation, another one that only takes a buffer is alike, and not
every one is. -/
theorem second_process_alike_allocation : ∃s' : Statics,s'.calls=1 ∧ s'.handle=0xeeeee ∧
    Alike noDisasm (.repeating (.malloc 0x30000 64)) freshProcess (.initial clearHeap) s' 2 ∧
    ¬∀ (H : Type) (program : Program H) (p : ProcessState H)
    (n : ℕ),Alike noDisasm program p (.initial clearHeap) s' n := by
  obtain ⟨q,s',hcalls,hheap,hrun⟩ := run_allocation
  obtain ⟨hshielded,halike,hcount,hhandle⟩ :=
    second_process_alike noDisasm (.repeating allocation) freshProcess q 1 [.address 0x3f0000]
      clearHeap s' hrun
  refine ⟨s',hcount,hhandle,hshielded _ _ _ _ ?_,?_⟩
  · intro k hk as q t t' hrun hrun'
    have hkept {p r : ProcessState Unit} {s u : Statics} {a : Answer}
        (hstep : step noDisasm (.repeating (.malloc 0x30000 64)) p s=.ok (a,r,u)) : u.heap=
          s.heap := by
      cases hstep
      rfl
    have ht : t.heap=clearHeap :=
      run_history (I:=fun _ t => t.heap=clearHeap) rfl (fun _ _ _ _ _ _ hinv hstep =>
        (hkept hstep).trans hinv) hrun
    have ht' : t'.heap=clearHeap :=
      run_history (I:=fun _ t => t.heap=clearHeap) hheap (fun _ _ _ _ _ _ hinv hstep =>
        (hkept hstep).trans hinv) hrun'
    show readAt t.heap _ _=readAt t'.heap _ _
    rw [ht,ht']
  · intro h
    exact hcalls (halike.mp h).calls.symm

end FalloutEmu.ProcessIsolation
