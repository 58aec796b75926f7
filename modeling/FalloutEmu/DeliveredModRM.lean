import FalloutEmu.LockStep

/-! # The ModRM byte that a fetch passes on -/
namespace FalloutEmu.DeliveredModRM
open ByteStore
open CacheTransparency (disassembler byteDecoder codeBlock)

/-- The prefixes that an x87 instruction may have: a segment override, the operand or the address
size. -/
def legalPrefixes : List U8 := [0x26,0x2e,0x36,0x3e,0x64,0x65,0x66,0x67]

/-- An x87 instruction: its prefixes, an opcode of `D8` to `DF`, its ModRM byte and what follows. -/
structure X87Encoding where
  prefixes : List U8
  opcode : U8
  modrm : U8
  rest : List U8
  legal : ∀b∈prefixes,b∈legalPrefixes
  escape : 0xd8 ≤ opcode ∧ opcode ≤ 0xdf

namespace X87Encoding

def bytes (e : X87Encoding) : List U8 := e.prefixes++e.opcode::e.modrm::e.rest

/-- The byte behind the first one is the ModRM byte. -/
def ModRMSecond (e : X87Encoding) : Prop :=
  match e.prefixes with
  | [] => True
  | [_] => e.opcode=e.modrm
  | _::second::_ => second=e.modrm

/-- The byte behind the first one is on the same side of `0xBF` as the ModRM byte: it is that byte,
or the opcode of a register form, or the second prefix of a memory form. -/
def SameForm (e : X87Encoding) : Prop :=
  match e.prefixes with
  | [] => True
  | [_] => ¬e.modrm ≤ 0xbf
  | _::_::_ => e.modrm ≤ 0xbf

theorem modRMSecond_iff (e : X87Encoding) : e.bytes[1]?=some e.modrm ↔ e.ModRMSecond := by
  rcases hp : e.prefixes with _ | ⟨first,_ | ⟨second,more⟩⟩
  · simp [bytes,ModRMSecond,hp]
  · simp [bytes,ModRMSecond,hp]
  · simp [bytes,ModRMSecond,hp]

theorem sameForm_iff (e : X87Encoding) {b : U8} (hb : e.bytes[1]?=some b) :
    (b ≤ 0xbf ↔ e.modrm ≤ 0xbf) ↔ e.SameForm := by
  have hopcode : ¬e.opcode ≤ 0xbf := by
    have hescape := e.escape
    bv_omega
  have hlegal : ∀p∈legalPrefixes,p ≤ 0xbf := by decide
  rcases hp : e.prefixes with _ | ⟨first,_ | ⟨second,more⟩⟩
  · simp only [bytes,hp,List.nil_append,List.getElem?_cons_succ,List.getElem?_cons_zero,
      Option.some.injEq] at hb
    subst hb
    simp [SameForm,hp]
  · simp only [bytes,hp,List.cons_append,List.nil_append,List.getElem?_cons_succ,
      List.getElem?_cons_zero,Option.some.injEq] at hb
    subst hb
    simp only [SameForm,hp,hopcode,false_iff]
  · simp only [bytes,hp,List.cons_append,List.getElem?_cons_succ,List.getElem?_cons_zero,
      Option.some.injEq] at hb
    subst hb
    have hsecond : second ≤ 0xbf := hlegal second (e.legal second (by simp [hp]))
    simp only [SameForm,hp,hsecond,true_iff]

end X87Encoding

/-- The instruction lies in the buffer behind `eip`. -/
def EncodedAt (memory : Memory DisasmContext) (eip : U32) (e : X87Encoding) : Prop :=
  memory.load eip e.bytes.length=.ok e.bytes

/-- On both paths a fetch passes on the host byte behind the first one. -/
theorem updateDisasmFromContext_modrm {build : Build} {disasm : Disassembler}
    {memory : Memory DisasmContext} {dummyOp : DISASM} {eip : U32} {fetched : Fetched}
    (h : updateDisasmFromContext build disasm memory dummyOp eip=.ok fetched) :
    ∃reip,memory.map.localAddressFromVirtualAddress eip=.ok reip ∧ fetched.modrm=
      memory.host (reip+1) := by
  obtain ⟨block?,hblock,h⟩ := bind_eq_ok.mp h
  cases block? with
  | none =>
    obtain ⟨_,_,h⟩ := bind_eq_ok.mp h
    cases h
  | some block =>
    have hget : memory.map.memoryMapBlocksShadow.get (shadowIndex eip)=.ok (some block) := hblock
    refine ⟨block.localAddress+(eip-block.virtualAddress).toNat,?_,?_⟩
    · rw [FEMemoryMap.localAddressFromVirtualAddress,hget,ok_bind]
    · obtain ⟨mode,_,h⟩ := bind_eq_ok.mp h
      simp only at h
      split at h
      · split at h
        · cases h
        · cases h
          rfl
      · obtain ⟨⟨context,i,len⟩,_,h⟩ := bind_eq_ok.mp h
        cases h
        rfl

/-- The delivered byte is the second byte of the instruction. -/
theorem delivered_second {build : Build} {disasm : Disassembler} {memory : Memory DisasmContext}
    {dummyOp : DISASM} {eip : U32} {fetched : Fetched} {e : X87Encoding}
    (hencoded : EncodedAt memory eip e)
    (hfetch : updateDisasmFromContext build disasm memory dummyOp eip=.ok fetched) :
    e.bytes[1]?=some fetched.modrm := by
  obtain ⟨reip,hlocal,hmodrm⟩ := updateDisasmFromContext_modrm hfetch
  have hlen : 1<e.bytes.length := by
    simp only [X87Encoding.bytes,List.length_append,List.length_cons]
    omega
  have hbytes : readAt memory.host reip e.bytes.length=e.bytes := by
    rw [EncodedAt,Memory.load,hlocal,ok_bind] at hencoded
    injection hencoded
  have hcell : (readAt memory.host reip e.bytes.length)[1]?=some (memory.host (reip+1)) := by
    rw [List.getElem?_eq_getElem (by rwa [length_readAt]),getElem_readAt]
  rw [hbytes] at hcell
  rw [hmodrm]
  exact hcell

/-- The delivered byte is the ModRM byte exactly where that follows the first byte, and it selects
the same form, memory or register, exactly as `SameForm` says. -/
theorem modrm_delivered_iff {build : Build} {disasm : Disassembler} {memory : Memory DisasmContext}
    {dummyOp : DISASM} {eip : U32} {fetched : Fetched} {e : X87Encoding}
    (hencoded : EncodedAt memory eip e)
    (hfetch : updateDisasmFromContext build disasm memory dummyOp eip=.ok fetched) :
    (fetched.modrm=e.modrm ↔ e.ModRMSecond) ∧ ((fetched.modrm ≤ 0xbf ↔ e.modrm ≤ 0xbf) ↔
      e.SameForm) := by
  have hsecond := delivered_second hencoded hfetch
  refine ⟨?_,e.sameForm_iff hsecond⟩
  rw [←e.modRMSecond_iff,hsecond,Option.some.injEq]

def plainLoad : X87Encoding := ⟨[],0xd9,0x05,[0x90,0x90,0x90,0x90],by decide,by decide⟩

def segmentLoad : X87Encoding := ⟨[0x64],0xd9,0x05,[0x90,0x90,0x90,0x90],by decide,by decide⟩

def loaded (e : X87Encoding) : Memory DisasmContext :=
  ⟨.ofBlocks [(codeBlock,.none)],writeAt (fun _ => 0x90) 0x20000 e.bytes⟩

set_option maxRecDepth 8000

theorem fetch_loaded (e : X87Encoding) : ∃fetched,
    updateDisasmFromContext .debug (disassembler byteDecoder) (loaded e) default 0x402000=
      .ok fetched := ⟨_,rfl⟩

theorem encodedAt_loaded (e : X87Encoding) : EncodedAt (loaded e) 0x402000 e := by
  have hlocal : (loaded e).map.localAddressFromVirtualAddress 0x402000=.ok 0x20000 := rfl
  rw [EncodedAt,Memory.load,hlocal,ok_bind]
  exact congrArg _ (readAt_writeAt_self _ _ _)

theorem modrm_delivered_plain : ∃fetched,
    updateDisasmFromContext .debug (disassembler byteDecoder) (loaded plainLoad) default 0x402000=
      .ok fetched ∧
      fetched.modrm=0x05 := by
  obtain ⟨fetched,hfetch⟩ := fetch_loaded plainLoad
  exact ⟨fetched,hfetch,(modrm_delivered_iff (encodedAt_loaded plainLoad) hfetch).1.mpr trivial⟩

/-- Behind a segment override the opcode is passed on, and a load from memory selects a register
form. -/
theorem segment_override_misread : ¬∀(memory : Memory DisasmContext) (eip : U32) (fetched : Fetched)
    (e : X87Encoding),
    EncodedAt memory eip e→
      updateDisasmFromContext .debug (disassembler byteDecoder) memory default eip=.ok fetched→
        fetched.modrm=e.modrm := by
  intro h
  obtain ⟨fetched,hfetch⟩ := fetch_loaded segmentLoad
  have hmodrm := h _ _ fetched segmentLoad (encodedAt_loaded segmentLoad) hfetch
  have hsecond := delivered_second (encodedAt_loaded segmentLoad) hfetch
  rw [hmodrm] at hsecond
  revert hsecond
  decide

end FalloutEmu.DeliveredModRM
