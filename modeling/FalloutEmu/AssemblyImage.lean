import FalloutEmu.AssemblySimulation

/-! # Processes that hold a given machine

Every instruction of the machine has a record, and for every page of code a process that runs it
exists. -/
namespace FalloutEmu.AssemblyImage
open ByteStore Emulator
open Assembly (Register Address Operand Source Machine Instruction Binary Comparison Unary)
open AssemblySimulation
open FEMemoryMap (WellFormed CachesHold)
open FEMemoryMapBlock (OwnsPage)
open KnownCode (Program Entry)
open ProgramLogic (Leads)

section Records

def memory (a : Address) : MEMORYTYPE where
  BaseRegister := a.base.elim 0 Register.reg
  IndexRegister := a.index.elim 0 fun index => index.1.reg
  Scale := a.index.elim 0 Prod.snd
  Displacement := a.displacement.setWidth 64

def argument (mode : U32) : Operand→ARGTYPE
  | .register r => { (default : ARGTYPE) with
    ArgType := REGISTER_TYPE+GENERAL_REG+r.reg,ArgSize := 32,AccessMode := mode }
  | .memory a => { (default : ARGTYPE) with
      ArgType := MEMORY_TYPE,ArgSize := 32,AccessMode := mode,Memory := memory a,SegmentReg := 2 }

def constant : ARGTYPE := { (default : ARGTYPE) with ArgType := CONSTANT_TYPE,ArgSize := 32 }

def sourceArgument : Source→ARGTYPE
  | .operand operand => argument 0 operand
  | .immediate _ => constant

def sourceImmediat : Source→BitVec 64
  | .operand _ => 0
  | .immediate v => v.setWidth 64

theorem isOperand_argument (mode : U32) (operand : Operand) :
    IsOperand (argument mode operand) operand := by
  cases operand with
  | register r => exact ⟨rfl,rfl,rfl⟩
  | memory a =>
    have hregister : MEMORY_TYPE&&&REGISTER_TYPE=0 := by decide
    have hmemory : MEMORY_TYPE&&&MEMORY_TYPE≠0 := by decide
    have hsegment : (2 : U32).setWidth 8∈flatSegmentRegs := by decide
    refine ⟨hregister,hmemory,rfl,⟨rfl,rfl,fun index hindex => ?_,?_,hsegment⟩⟩
    · simp only [argument,memory,Option.mem_def] at hindex ⊢
      rw [hindex]
      rfl
    · simp [argument,memory]

theorem isImmediate_constant : IsImmediate constant .k32bit := ⟨by decide,by decide,by decide,rfl⟩

theorem isSource_constant (v : U32) : IsSource constant ((v.setWidth 64).setWidth 32)
    (.immediate v) := by
  refine ⟨.k32bit,isImmediate_constant,?_⟩
  show (((v.setWidth 64).setWidth 32).setWidth 32).signExtend 32=v
  simp

theorem isSource_argument (src : Source) :
    IsSource (sourceArgument src) ((sourceImmediat src).setWidth 32) src := by
  cases src with
  | operand operand => exact isOperand_argument 0 operand
  | immediate v => exact isSource_constant v

theorem size_sourceArgument (src : Source) : (sourceArgument src).ArgSize=32 := by
  cases src with
  | operand operand => exact (isOperand_argument 0 operand).size
  | immediate v => rfl

def general (opcode regopcode : U32) (first second : ARGTYPE)
    (immediat target : BitVec 64) : DISASM :=
  { (default : DISASM) with
    Instruction := ⟨GENERAL_PURPOSE_INSTRUCTION,opcode,target,immediat⟩
    Argument1 := first
    Argument2 := second
    Reserved_ := ⟨regopcode,0⟩ }

def relative : ARGTYPE :=
  { (default : ARGTYPE) with ArgType := CONSTANT_TYPE+RELATIVE_,ArgSize := 32 }

def record : Instruction→DISASM
  | .mov dst src => general 0x89 0 (argument WRITE dst) (sourceArgument src) (sourceImmediat src) 0
  | .push src => general 0x68 0 default (sourceArgument src) (sourceImmediat src) 0
  | .pop dst => general 0x8f 0 (argument WRITE dst) default 0 0
  | .binary operation dst src =>
    general (.ofNat 32 (8*operation.number+1)) 0 (argument WRITE dst) (sourceArgument src)
      (sourceImmediat src) 0
  | .compare .cmp dst src => general 0x39 0 (argument 0 dst) (sourceArgument src)
    (sourceImmediat src) 0
  | .compare .test dst src => general 0x85 0 (argument 0 dst) (sourceArgument src)
    (sourceImmediat src) 0
  | .unary operation dst => general operation.groupOpcode operation.number
    (argument WRITE dst) default 0 0
  | .lea dst address => general 0x8d 0 (argument WRITE (.register dst))
    (argument 0 (.memory address)) 0 0
  | .jump target => general 0xe9 0 relative default 0 (target.setWidth 64)
  | .jumpIf condition target => general (0xf80+ConditionCodes.code condition) 0 relative default 0
    (target.setWidth 64)
  | .jumpTo src => general 0xff 4 (sourceArgument src) default 0 0
  | .call target => general 0xe8 0 relative default 0 (target.setWidth 64)
  | .callTo src => general 0xff 2 (sourceArgument src) default 0 0
  | .ret => general 0xc3 0 default default 0 0
  | .retn size => general 0xc2 0 constant default (size.setWidth 64) 0
  | .leave => general 0xc9 0 default default 0 0
  | .nop => general 0x90 0 default default 0 0

/-- A branch to an address that the instruction computes has an operand. -/
def HasEncoding : Instruction→Prop
  | .jumpTo (.immediate _) | .callTo (.immediate _) => False
  | _ => True

theorem isRelative_relative {op : DISASM} {target : U32} (hargument : op.Argument1=relative)
    (htarget : op.Instruction.AddrValue=target.setWidth 64) : IsRelative op target := by
  refine ⟨?_,?_,?_,?_⟩
  · rw [hargument]
    decide
  · rw [hargument]
    decide
  · rw [hargument]
    rfl
  · simp [htarget]

theorem record_category (instruction : Instruction) :
    (record instruction).Instruction.Category=GENERAL_PURPOSE_INSTRUCTION := by
  rcases instruction with _ | _ | _ | _ | ⟨_ | _,_,_⟩ | _ | _ | _ | _ | _ | _ | _ | _ | _ | _ <;>
    rfl

/-- The record of an instruction, at any address, decodes as the instruction. -/
theorem decodes_record {instruction : Instruction} (h : HasEncoding instruction) (a : BitVec 64) :
    Decodes { record instruction with VirtualAddr := a } instruction := by
  refine ⟨?_,?_⟩
  · show (record instruction).Instruction.Category&&&_≠0
    rw [record_category]
    decide
  · have written : ∀dst,IsWritten (argument WRITE dst) dst := fun dst =>
      ⟨isOperand_argument WRITE dst,by cases dst <;> rfl⟩
    cases instruction with
    | mov dst src =>
      exact .mov (show (0x89 : U32)∈movOpcodes by decide) (written dst) (isSource_argument src)
        (size_sourceArgument src)
    | push src =>
      exact .push (show (0x68 : U32)∈pushOpcodes by decide) (isSource_argument src)
        (size_sourceArgument src)
    | pop dst => exact .pop (show (0x8f : U32)∈popOpcodes by decide) (written dst)
    | binary operation dst src =>
      exact .binary List.mem_cons_self (written dst) (isSource_argument src)
        (size_sourceArgument src)
    | compare operation dst src =>
      cases operation with
      | cmp =>
        exact .cmp (show (0x39 : U32)∈Assembly.groupOpcodes 7 by decide) (isOperand_argument 0 dst)
          (isSource_argument src) (size_sourceArgument src)
      | test =>
        exact .test List.mem_cons_self (isOperand_argument 0 dst) (isSource_argument src)
          (size_sourceArgument src)
    | unary operation dst => exact .unaryGroup rfl rfl (written dst)
    | lea dst address =>
      exact .lea rfl (isOperand_argument WRITE (.register dst))
        (isOperand_argument 0 (.memory address))
    | jump target => exact .jump List.mem_cons_self (isRelative_relative rfl rfl)
    | jumpIf condition target =>
      exact .jumpIf (List.mem_cons_of_mem _ List.mem_cons_self) (isRelative_relative rfl rfl)
    | jumpTo src =>
      cases src with
      | operand operand => exact .jumpTo rfl rfl (isOperand_argument 0 operand)
      | immediate v => exact h.elim
    | call target => exact .call rfl (isRelative_relative rfl rfl)
    | callTo src =>
      cases src with
      | operand operand => exact .callTo rfl rfl (isOperand_argument 0 operand)
      | immediate v => exact h.elim
    | ret => exact .ret rfl
    | retn size => exact .retn rfl (isSource_constant size)
    | leave => exact .leave rfl
    | nop => exact .nop rfl

end Records

section Image

/-- A page of code, its stack behind it, and one imported function. -/
def codeBlock : FEMemoryMapBlock := ⟨1,0x1000,0x2000,0x1000,0x1000,true,".text".toList⟩

def stackBlock : FEMemoryMapBlock := ⟨2,0x2000,0x3000,0x1000,0x2000,true,"stack".toList⟩

def importsBlock : FEMemoryMapBlock := ⟨3,0x3000,0x3004,4,0x3000,true,"imports".toList⟩

def imageMap : FEMemoryMap DisasmContext :=
  .ofBlocks [(codeBlock,⟨true,false,true⟩),(stackBlock,.readWrite),(importsBlock,.none)]

set_option maxRecDepth 8000 in
theorem imageMap_elements : imageMap.memoryMapBlocks.elements=[codeBlock,stackBlock,
    importsBlock] := by
  have hblocks : imageMap.memoryMapBlocks=(((((FEArray.create 16).appended codeBlock).mergeSort
      FEMemoryMapBlock.compare).appended stackBlock).mergeSort FEMemoryMapBlock.compare |>.appended
        importsBlock).mergeSort FEMemoryMapBlock.compare := rfl
  simp only [hblocks,FEArray.elements_mergeSort,FEArray.elements_appended,FEArray.elements_create,
    List.nil_append]
  have htwo : ([codeBlock]++[stackBlock]).mergeSort (FEArray.before FEMemoryMapBlock.compare)=
    [codeBlock,stackBlock] :=
    List.mergeSort_of_pairwise (by decide)
  have hthree : ([codeBlock,stackBlock]++[importsBlock]).mergeSort
    (FEArray.before FEMemoryMapBlock.compare)=
      [codeBlock,stackBlock,importsBlock] := List.mergeSort_of_pairwise (by decide)
  rw [List.mergeSort_singleton,htwo,hthree]

theorem mem_imageMap {b : FEMemoryMapBlock} :
    b∈imageMap.memoryMapBlocks.elements ↔ b=codeBlock ∨ b=stackBlock ∨ b=importsBlock := by
  simp [imageMap_elements]

set_option maxRecDepth 8000 in
theorem slot_imageMap (p : ℕ) (b : FEMemoryMapBlock) :
    imageMap.memoryMapBlocksShadow.slot p=some b ↔
    p=1 ∧ b=codeBlock ∨ p=2 ∧ b=stackBlock ∨ p=3 ∧ b=importsBlock := by
  show (if p=3 then some importsBlock else if p=2 then some stackBlock else if p=1
    then some codeBlock else none)=
    some b ↔ _
  split_ifs with h₁ h₂ h₃ <;> simp [*,eq_comm]

theorem ownsPage_blocks (p : ℕ) : (codeBlock.OwnsPage p ↔ p=1) ∧ (stackBlock.OwnsPage p ↔ p=2) ∧
    (importsBlock.OwnsPage p ↔ p=3) := by
  refine ⟨?_,?_,?_⟩
  · show 1 ≤ p ∧ p<2 ↔ p=1
    omega
  · show 2 ≤ p ∧ p<3 ↔ p=2
    omega
  · show 3 ≤ p ∧ p<4 ↔ p=3
    omega

theorem wellFormed_imageMap : WellFormed imageMap where
  sorted := by
    rw [imageMap_elements]
    decide
  owner := by
    intro p b
    obtain ⟨hcode,hstack,himports⟩ := ownsPage_blocks p
    rw [slot_imageMap,mem_imageMap]
    constructor
    · rintro (⟨hp,rfl⟩ | ⟨hp,rfl⟩ | ⟨hp,rfl⟩)
      · exact ⟨.inl rfl,hcode.mpr hp⟩
      · exact ⟨.inr (.inl rfl),hstack.mpr hp⟩
      · exact ⟨.inr (.inr rfl),himports.mpr hp⟩
    · rintro ⟨rfl | rfl | rfl,howns⟩
      · exact .inl ⟨hcode.mp howns,rfl⟩
      · exact .inr (.inl ⟨hstack.mp howns,rfl⟩)
      · exact .inr (.inr ⟨himports.mp howns,rfl⟩)
  bounded := by
    intro p b hb
    show p<0x40001
    rcases (slot_imageMap p b).mp hb with ⟨rfl,_⟩ | ⟨rfl,_⟩ | ⟨rfl,_⟩ <;> omega
  noWrap := by
    rw [imageMap_elements]
    decide
  reach := by
    rw [imageMap_elements]
    decide

theorem holds_imageMap (flat : ℕ→U8) :
    FlatMemory.Holds (⟨imageMap,flat⟩ : Memory DisasmContext) flat where
  wellFormed := wellFormed_imageMap
  buffers := by
    show imageMap.memoryMapBlocks.elements.Pairwise _
    rw [imageMap_elements]
    simp [FlatMemory.Apart,codeBlock,stackBlock,importsBlock]
  bytes b hb i _ := by
    rcases mem_imageMap.mp hb with rfl | rfl | rfl <;> rfl

def disassembler (code : U32→Option (Instruction×ℕ)) : Disassembler := fun handed _ =>
  match code (handed.VirtualAddr.setWidth 32) with
  | some instruction => ({ record instruction.1 with VirtualAddr := handed.VirtualAddr },
    instruction.2)
  | none => (handed,UNKNOWN_OPCODE)

theorem decodedBy_disassembler {code : U32→Option (Instruction×ℕ)} {program : Program}
    (hcode : ∀a,∀instruction∈code a,HasEncoding instruction.1)
    (hprogram : ∀a,∀entry∈program.entry a,∃instruction∈code a,entryOf instruction.1 instruction.2=
      entry) :
    program.DecodedBy (disassembler code) := by
  intro a entry hentry stale reip host _
  obtain ⟨instruction,hat,rfl⟩ := hprogram a entry hentry
  have haddress : (stale.handed reip a).VirtualAddr.setWidth 32=a := by
    show (a.setWidth 64).setWidth 32=a
    simp
  have hdisasm : disassembler code (stale.handed reip a) host=
      ({ record instruction.1 with VirtualAddr := a.setWidth 64 },(instruction.2 : ℤ)) := by
    have hat' : code a=some instruction := hat
    simp only [disassembler,haddress,hat']
    rfl
  rw [hdisasm]
  refine ⟨by unfold UNKNOWN_OPCODE; omega,_,hentry,rfl,?_,rfl⟩
  exact decodes_record (hcode a instruction hat) _

structure Image where
  code : U32→Option (Instruction×ℕ)
  flat : ℕ→U8
  encodable : ∀a,∀instruction∈code a,HasEncoding instruction.1
  placed : ∀a,∀instruction∈code a,0 < instruction.2 ∧ 0x1000 ≤ a.toNat ∧
    a.toNat+instruction.2 ≤ 0x2000

namespace Image

def program (image : Image) : Program where
  entry a := (image.code a).map fun instruction => entryOf instruction.1 instruction.2
  bytes := image.flat

def environment (image : Image) : Environment Unit :=
  { Environment.bare .debug with disasm := disassembler image.code }

theorem decodedBy (image : Image) : image.program.DecodedBy image.environment.disasm := by
  refine decodedBy_disassembler image.encodable fun a entry hentry => ?_
  obtain ⟨instruction,hcode,rfl⟩ := Option.map_eq_some_iff.mp hentry
  exact ⟨instruction,hcode,rfl⟩

def slots : Set ℕ := {a | 0x2000<a ∧ a+4 ≤ 0x3000}

def machine (image : Image) (register : Register→U32) (eip : U32) : Machine :=
  ⟨register,eip,(default : FECPUFlags).status,image.flat,slots,slots⟩

theorem loaded (image : Image) : image.program.Loaded ⟨imageMap,image.flat⟩ image.flat where
  bytes _ _ _ _ _ := rfl
  blocks := by
    intro a entry hentry
    obtain ⟨instruction,hcode,rfl⟩ := Option.map_eq_some_iff.mp hentry
    obtain ⟨hpos,hlow,hhigh⟩ := image.placed a instruction hcode
    refine ⟨hpos,codeBlock,?_,hlow,hhigh,by decide⟩
    exact mem_imageMap.mpr (.inl rfl)
  rights := by
    intro a ha
    obtain ⟨instruction,hcode⟩ := Option.isSome_iff_exists.mp (Option.isSome_map.symm.trans ha)
    obtain ⟨_,_,hhigh⟩ := image.placed a instruction hcode
    refine ⟨_,Shadow.get_eq_ok.mpr ⟨?_,rfl⟩⟩
    show a.toNat/4096<0x40001
    omega
  caches := by
    refine ⟨fun p q b c hb hc hpointer => ?_,fun _ _ _ _ hc => by cases hc⟩
    rcases (slot_imageMap p b).mp hb with ⟨_,rfl⟩ | ⟨_,rfl⟩ | ⟨_,rfl⟩ <;>
      rcases (slot_imageMap q c).mp hc with ⟨_,rfl⟩ | ⟨_,rfl⟩ | ⟨_,rfl⟩ <;>
        first | rfl | exact absurd hpointer (by decide)
  indexes _ b c _ hc := by cases hc

/-- The process at an instruction, with its stack and with all registers zero. -/
def process (image : Image) (importsProxy : Option FEImportsProxy) (instruction : Instruction×ℕ)
    (eip : U32) : FEProcess Unit :=
  { FEProcess.ofRegisters (fun _ => 0) with
    memory := ⟨imageMap,image.flat⟩
    currentThread := { (default : FEThreadContext Unit) with
      stack := ⟨some stackBlock,0x1000,0x2000,0x3000⟩
      registers := fun _ => 0 }
    importsProxy := importsProxy
    dummyOp := { record instruction.1 with VirtualAddr := eip.setWidth 64 }
    len := instruction.2 }

theorem represents_process (image : Image) (importsProxy : Option FEImportsProxy)
    (instruction : Instruction×ℕ) (eip : U32) :
    Represents (image.process importsProxy instruction eip) (image.machine (fun _ => 0) eip) where
  register r := by cases r <;> rfl
  flags := rfl
  segments := by
    intro name hname
    simp only [flatSegments,List.mem_cons,List.not_mem_nil,or_false] at hname
    rcases hname with rfl | rfl | rfl | rfl <;> rfl
  memory := holds_imageMap image.flat
  data := fun a ⟨hlow,hhigh⟩ => ⟨stackBlock,mem_imageMap.mpr (.inr (.inl rfl)),hlow.le,hhigh⟩
  stack := by
    refine ⟨stackBlock,mem_imageMap.mpr (.inr (.inl rfl)),
      ⟨rfl,rfl,rfl,(by decide : 0x2000+0x1000<2^32),fun a hlow hhigh => ?_⟩,rfl,fun a ha => ha⟩
    have hlow' : 0x2000 ≤ a.toNat := hlow
    have hhigh' : a.toNat<0x3000 := hhigh
    have hpage : shadowIndex a=2 := by
      show a.toNat/4096=2
      omega
    rw [hpage]
    rfl

/-- The blocks of the imports are the one of the map. -/
def Imports (importsProxy : Option FEImportsProxy) : Prop :=
  ∀proxy∈importsProxy,proxy.loadedStaticImportsMemoryBlock=some importsBlock ∧
    proxy.dynamicImportMemoryBlocks=[]

theorem Imports.apart {importsProxy : Option FEImportsProxy} (h : Imports importsProxy) {a : U32}
    (ha : a.toNat<0x2000) :
    ∀proxy∈importsProxy,proxy.isAddressWithinLoadedImports a=.ok false := by
  intro proxy hproxy
  obtain ⟨hloaded,hdynamic⟩ := h proxy hproxy
  have hout : importsBlock.containsVirtualAddress a=false := decide_eq_false fun hin => by
    have hlow : (0x3000 : U32).toNat ≤ a.toNat := hin.1
    have hstart : (0x3000 : U32).toNat=0x3000 := rfl
    omega
  rw [FEImportsProxy.isAddressWithinLoadedImports,hloaded,hdynamic,FEImportsProxy.blockContains,
    hout]
  rfl

/-- A process that holds the image with the imports and the registers that one likes. -/
theorem simulates_importing (image : Image) {importsProxy : Option FEImportsProxy}
    (himports : Imports importsProxy) (register : Register→U32) {eip : U32}
    (h : (image.code eip).isSome) :
    ∃s : FEProcess Unit,Simulates image.program s (image.machine register eip) ∧
      s.memory=⟨imageMap,image.flat⟩ ∧ s.importsProxy=importsProxy := by
  obtain ⟨instruction,hcode⟩ := Option.isSome_iff_exists.mp h
  have hzero : Simulates image.program
      { image.process importsProxy instruction eip with
        currentThread := (image.process importsProxy instruction eip).currentThread.setRegister32
          .kEIP eip }
      (image.machine (fun _ => 0) eip) := by
    refine ⟨⟨(image.represents_process importsProxy instruction eip).of_eip eip,image.loaded,?_,
      subset_rfl,?_,rfl⟩,eip_setEIP _ _,?_⟩
    · intro a entry hentry i hi p hp
      obtain ⟨instruction,hcode,rfl⟩ := Option.map_eq_some_iff.mp hentry
      obtain ⟨_,_,hhigh⟩ := image.placed a instruction hcode
      have hlow : 0x2000<p := hp.1
      have hi' : i < instruction.2 := hi
      omega
    · intro proxy hproxy a ha
      obtain ⟨instruction,hcode⟩ := Option.isSome_iff_exists.mp (Option.isSome_map.symm.trans ha)
      obtain ⟨hpos,_,hhigh⟩ := image.placed a instruction hcode
      exact himports.apart (by omega) proxy hproxy
    · refine ⟨_,rfl,entryOf instruction.1 instruction.2,?_,?_,?_,rfl⟩
      · rw [eip_setEIP]
        exact Option.map_eq_some_iff.mpr ⟨instruction,hcode,rfl⟩
      · rw [eip_setEIP]
        rfl
      · exact decodes_record (image.encodable eip instruction hcode) _
  have hset := ((((((((hzero.setRegister .eax (register .eax)).setRegister .ecx
    (register .ecx)).setRegister .edx
    (register .edx)).setRegister .ebx (register .ebx)).setRegister .esp (register .esp)).setRegister
      .ebp
    (register .ebp)).setRegister .esi (register .esi)).setRegister .edi (register .edi))
  refine ⟨_,(congrArg (Simulates image.program _) ?_).mp hset,rfl,rfl⟩
  refine congrArg (fun register => (⟨register,eip,_,image.flat,slots,slots⟩ : Machine))
    (funext fun r => ?_)
  cases r <;> simp [Machine.set]

/-- A process that holds the image with the registers that one likes. -/
theorem simulates (image : Image) (register : Register→U32) {eip : U32}
    (h : (image.code eip).isSome) :
    ∃s : FEProcess Unit,Simulates image.program s (image.machine register eip) := by
  have hnone : Imports none := fun proxy hproxy => by cases hproxy
  obtain ⟨s,hs,_⟩ := image.simulates_importing hnone register h
  exact ⟨s,hs⟩

def ofListing (code : List (Instruction×ℕ)) (flat : ℕ→U8)
    (hcode : ∀instruction∈code,HasEncoding instruction.1 ∧ 0 < instruction.2)
    (hsize : size code ≤ 0x1000) : Image where
  code := codeAt 0x1000 code
  flat := flat
  encodable a instruction h :=
    (hcode instruction (codeAt_placed (a:=0x1000) (show 0x1000+size code<2^32 by omega) h).1).1
  placed a instruction h := by
    obtain ⟨hmem,hlow,hhigh⟩ := codeAt_placed (a:=0x1000) (show 0x1000+size code<2^32 by omega) h
    have hlow' : 0x1000 ≤ a.toNat := hlow
    have hhigh' : a.toNat+instruction.2 ≤ 0x1000+size code := hhigh
    exact ⟨(hcode instruction hmem).2,hlow',by omega⟩

theorem listed_ofListing {code : List (Instruction×ℕ)} {flat : ℕ→U8}
    (hcode : ∀instruction∈code,HasEncoding instruction.1 ∧ 0 < instruction.2)
    (hsize : size code ≤ 0x1000) :
    Listed (ofListing code flat hcode hsize).program (fun _ => True) 0x1000 code := by
  refine listed_of_codeAt (fun instruction h => (hcode instruction h).2)
    (show 0x1000+size code<2^32 by omega) fun a instruction h => ?_
  refine ⟨?_,trivial⟩
  show (codeAt 0x1000 code a).map _=_
  rw [h]
  rfl

end Image
end Image

section Runs
variable {F : Type} {env : Environment F} {program : Program} {s : FEProcess F} {m : Machine}
  {Q : Machine→Prop}

/-- A program that is totally correct on the machine is totally correct on the interpreter: from
every process that holds its start, the turns of the loop take the process to one that holds its
end. -/
theorem assembly_runs (hdisasm : program.DecodedBy env.disasm)
    (h : Leads (Offers program (fun _ => True) fun _ (event : Empty) _ => event.elim) Q m [])
    (hs : Simulates program s m) :
    ∃t m',Relation.ReflTransGen (Turn env) s t ∧ Simulates program t m' ∧ Q m' := by
  obtain ⟨t,m',hturns,_,ht,hQ⟩ := leads_simulates hdisasm (fun _ _ event _ _ _ => event.elim) h hs
  exact ⟨t,m',hturns,ht,hQ⟩

def countdown : Image :=
  .ofListing [(.unary .dec (.register .eax),1),(.jumpIf .NE 0x1000,2),(.nop,1)]
    (writeAt (fun _ => 0) 0x1000 [0x48,0x75,0xfd,0x90]) (by simp [HasEncoding]) (by decide)

theorem leads_round (heip : m.eip=0x1000)
    (tail : ∀m',m'.register .eax=m.register .eax-1→m'.eip=(if m.register .eax-1=0 then 0x1003
      else 0x1000)→
      Leads (Offers countdown.program (fun _ => True) fun _ (event : Empty) _ =>
        event.elim) Q m' []) :
    Leads (Offers countdown.program (fun _ => True) fun _ (event : Empty) _ =>
      event.elim) Q m [] := by
  have hlisted : Listed countdown.program (fun _ => True) m.eip _ :=
    heip ▸ Image.listed_ofListing _ _
  refine leads_next hlisted (List.cons_ne_nil _ _) trivial (fun _ _ => rfl) fun undefined => ?_
  let flags := (X86.dec (m.register .eax) m.flags).2
  have hflags : flags.ZF=decide (m.register .eax-1=0) := rfl
  have hdec : (Instruction.unary .dec (.register .eax)).exec undefined m (m.eip+.ofNat 32 1)=
      ((m.withFlags flags).set .eax (m.register .eax-1)).goto (m.eip+.ofNat 32 1) := rfl
  have hjump : ∀undefined' m' next,m'.flags=flags→(Instruction.jumpIf .NE 0x1000).exec
    undefined' m' next=
      m'.goto (if m.register .eax-1=0 then next else 0x1000) := by
    intro undefined' m' next hm'
    rw [Instruction.exec,hm',X86.Condition.holds,hflags]
    simp only [Bool.not_eq_true',decide_eq_false_iff_not,ite_not]
  rw [hdec]
  refine .silent (.instruction hlisted.2.1.1 trivial trivial fun undefined' => ?_) ?_
  · rw [hjump _ _ _ rfl,Machine.eip_goto,Machine.eip_goto,heip]
    split <;> rfl
  · rintro _ ⟨undefined',rfl⟩
    rw [hjump _ _ _ rfl,Machine.eip_goto,heip]
    exact tail _ rfl rfl

theorem leads_countdown {n : ℕ} (hfits : n+1<2^32) (heip : m.eip=0x1000)
    (heax : m.register .eax=.ofNat 32 (n+1)) :
    Leads (Offers countdown.program (fun _ => True) fun _ (event : Empty) _ => event.elim)
    (fun m => m.register .eax=0) m [] := by
  induction n generalizing m with
  | zero =>
    refine leads_round heip fun m' heax' _ => .done ?_
    rw [heax',heax]
    rfl
  | succ n ih =>
    have hsub : m.register .eax-1=.ofNat 32 (n+1) := by
      rw [heax]
      bv_omega
    refine leads_round heip fun m' heax' heip' => ih (by omega) ?_ (heax'.trans hsub)
    rw [heip',hsub,if_neg (by bv_omega)]

theorem assembly_runs_countdown : ∃s t :
    FEProcess Unit,Relation.ReflTransGen (Turn countdown.environment) s t ∧
    s.currentThread.register32 .kEAX=3 ∧ t.currentThread.register32 .kEAX=0 := by
  obtain ⟨s,hs⟩ := countdown.simulates (fun r => if r=.eax then 3 else 0)
    (show (countdown.code 0x1000).isSome from rfl)
  obtain ⟨t,m',hturns,ht,heax⟩ := assembly_runs countdown.decodedBy
    (leads_countdown (n:=2) (by decide) rfl rfl) hs
  exact ⟨s,t,hturns,hs.represents.register .eax,(ht.represents.register .eax).trans heax⟩

end Runs
end FalloutEmu.AssemblyImage
