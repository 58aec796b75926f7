import FalloutEmu.ImportAllocations

/-! # Calls of imported functions that return to their caller -/
namespace FalloutEmu.GuestCalls
open ByteStore Emulator
open Assembly (Register Operand Machine Instruction word withWord)
open AssemblySimulation
open FlatMemory (InBlock)
open ImportCalls
open ImportAllocations
open KnownCode (Program)
variable {F : Type} {env : Environment F} {program : Program} {s t u : FEProcess F} {m m' : Machine}
  {proxy proxy' : FEImportsProxy}

section Processes

/-- A process whose guest may call what `proxy` imports. -/
structure Linked (proxy : FEImportsProxy) (s : FEProcess F) : Prop extends Ready s where
  importsProxy : s.importsProxy=some proxy

theorem Linked.steady (h : Linked proxy s) (hst : Steady s t) : Linked proxy t :=
  ⟨h.toReady.steady hst,hst.importsProxy.trans h.importsProxy⟩

theorem Linked.continues (h : Linked proxy s) (hst : Continues s t) : Linked proxy t :=
  h.steady (.of_continues hst)

theorem Linked.grows (h : Linked proxy s) {program' : Program}
    (hgrows : Grows program program' s u m m') :
    Linked proxy u := by
  refine ⟨hgrows.ready,?_⟩
  rw [hgrows.process]
  exact h.importsProxy

end Processes

section Arguments
variable {count : ℕ} {next : U32}

/-- The argument number `i` of the function at whose entry `ptrToArgs` is above the return
address. -/
def argument (ptrToArgs : U32) (i : ℕ) : Emulator F U32 :=
  load fun memory => memory.value32AtAddress (ptrToArgs+.ofNat 32 (4*i))

def ptrToArgs : Emulator F U32 := do return (← register32 .kESP)+4

def argumentAddress (m : Machine) (i : ℕ) : U32 := m.register .esp+.ofNat 32 (4*i)

/-- The arguments are on the stack of the caller. -/
structure Arguments (m : Machine) (count : ℕ) : Prop where
  data : ∀i<count,(argumentAddress m i).toNat∈m.data
  low : 4 ≤ (m.register .esp).toNat
  high : (m.register .esp).toNat+4*count ≤ 2^32

theorem ptrToArgs_run (env : Environment F) (h : Holding program u (m.push next)) :
    ptrToArgs env u=.ok (m.register .esp,u) := by
  have haddress : (m.push next).register .esp+4=m.register .esp := by
    rw [StackFrames.esp_push]
    exact BitVec.sub_add_cancel _ _
  have hregister : register32 .kESP env u=.ok ((m.push next).register .esp,u) :=
    h.represents.register32_run .esp
  rw [ptrToArgs,Exec.bind_run hregister,haddress]
  rfl

/-- The return address leaves the double words above it as they are. -/
theorem word_push {a : U32} (hlow : 4 ≤ (m.register .esp).toNat)
    (ha : (m.register .esp).toNat ≤ a.toNat) :
    word (m.push next).memory a=word m.memory a := by
  have hapart : Assembly.Apart (m.register .esp-4) a := .inl (by bv_omega)
  exact Assembly.word_withWord_of_apart _ hapart next

theorem argument_run (env : Environment F) (h : Holding program u (m.push next))
    (hargs : Arguments m count) {i : ℕ} (hi : i<count) : argument (m.register .esp) i env u=
      .ok (word m.memory (argumentAddress m i),u) := by
  have hhigh := hargs.high
  have hword : word (m.push next).memory (argumentAddress m i)=
    word m.memory (argumentAddress m i) :=
    word_push hargs.low (by unfold argumentAddress; bv_omega)
  rw [←hword]
  exact Repetition.load_run (h.represents.value32AtAddress (hargs.data i hi))

end Arguments

section Calls
variable {operand : Operand} {n : ℕ} {dllName funcName : String} {body : Emulator F U8} {size : U8}
  {next : U32}

/-- The instruction at hand calls a function of a library. -/
structure CallsImport (env : Environment F) (program : Program) (s : FEProcess F) (m : Machine)
    (operand : Operand) (n : ℕ) (dllName funcName : String) (body : Emulator F U8) : Prop where
  entry : program.entry m.eip=some (entryOf (.callTo (.operand operand)) n)
  safe : (Instruction.callTo (.operand operand)).Safe m
  next : (program.entry (m.eip+.ofNat 32 n)).isSome
  resolved : ∃proxy∈s.importsProxy,
    proxy.functionAtAddress (m.value operand)=.ok (some ⟨dllName.toList,funcName.toList⟩)
  body : ∀u,env.executeFunction ⟨dllName.toList,funcName.toList⟩ () u=body (withoutImports env) u

/-- The function leaves the stack of its caller as it is. -/
structure Leaves (m : Machine) (next : U32) (m' : Machine) : Prop where
  esp : m'.register .esp=m.register .esp-4
  stack : m'.stack=m.stack
  top : m'.top=next

/-- The machine behind the call: the return address and `size` bytes of arguments are taken off the
stack. -/
def behind (m : Machine) (size : U8) (next : U32) : Machine :=
  ((m.drop 4).drop (size.setWidth 32)).goto next

theorem esp_behind {next' : U32} (h : Leaves m next m') :
    (behind m' size next').register .esp=m.register .esp+size.setWidth 32 := by
  have hdrop : (behind m' size next').register .esp=m'.register .esp+4+size.setWidth 32 := by
    simp [behind,Machine.drop]
  rw [hdrop,h.esp,BitVec.sub_add_cancel]

theorem register_behind {r : Register} (hr : r≠.esp) :
    (behind m size next).register r=m.register r := by
  simp [behind,Machine.drop,hr]

/-- A function that leaves the stack as it is returns behind the call. -/
theorem CallsImport.returns (h : Simulates program s m) (hlinked : Linked proxy s)
    (hdisasm : program.DecodedBy env.disasm)
    (hcall : CallsImport env program s m operand n dllName funcName body)
    {R : FEProcess F→Machine→Prop} (hbody : ∀u,Holding program u (m.push (m.eip+.ofNat 32 n))→
      Linked proxy u→u.memory.map=s.memory.map→
      ∃v m',body (withoutImports env) u=.ok (size,v) ∧ Holding program v m' ∧ Linked proxy' v ∧
        Leaves m (m.eip+.ofNat 32 n) m' ∧ R v m') :
    ∃t v m',Turn env s t ∧ Simulates program t (behind m' size (m.eip+.ofNat 32 n)) ∧
    Linked proxy' t ∧ Steady v t ∧
      Leaves m (m.eip+.ofNat 32 n) m' ∧ R v m' := by
  obtain ⟨called,hcalled,hfunction⟩ := hcall.resolved
  obtain ⟨u,hu,hsu,hreturn⟩ := callsImport env h hcall.entry hcall.safe hcalled hfunction
  have hnext := hcall.next
  generalize m.eip+.ofNat 32 n=next at *
  have hlinked' : Linked proxy u := hlinked.continues (continues_of_counted hsu)
  obtain ⟨v,m',hrun,hv,hvlinked,hleaves,hR⟩ := hbody u hu hlinked' hsu.map
  have hslot : (m'.register .esp).toNat∈m'.stack := by
    rw [hleaves.esp,hleaves.stack]
    exact hcall.safe.2
  obtain ⟨t,hturn,ht,hvt⟩ := hreturn ((hcall.body u).trans hrun) hv hdisasm hslot
    (by rw [hleaves.top]; exact hnext)
  rw [hleaves.top] at ht
  exact ⟨t,v,m',hturn,ht,hvlinked.steady hvt,hvt,hleaves,hR⟩

end Calls
end FalloutEmu.GuestCalls
