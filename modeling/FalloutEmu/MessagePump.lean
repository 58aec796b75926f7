import FalloutEmu.AssemblyImage

/-! # The machine code that delivers messages to a window procedure -/
namespace FalloutEmu.MessagePump
open Assembly (Register Operand Source Machine Instruction word)
open AssemblySimulation
open KnownCode (Program)
open ProgramLogic (Leads Trace)
open ByteStore (writeAt)
open Emulator (Turn)
open StackFrames
variable {F : Type} {env : Environment F} {program : Program} {s t : FEProcess F} {m m' : Machine}

section Code

def handleMessages : List U8 := [
  0x55,0x89,0xe5,0x81,0xec,0x0c,0x00,0x00,0x00,0x90,0x90,0x90,0x90,0x8b,0x45,0x10,
  0x83,0xf8,0x00,0x0f,0x84,0x49,0x00,0x00,0x00,0x8b,0x45,0x0c,0x8b,0x08,0x89,0x4d,
  0xfc,0x8b,0x45,0x0c,0x83,0xc0,0x04,0x8b,0x08,0x89,0x4d,0xf8,0x8b,0x45,0x0c,0x83,
  0xc0,0x08,0x8b,0x08,0x89,0x4d,0xf4,0x8b,0x45,0xf4,0x50,0x8b,0x45,0xf8,0x50,0x8b,
  0x45,0xfc,0x50,0x8b,0x45,0x08,0x50,0x8b,0x45,0x14,0xff,0xd0,0x8b,0x45,0x10,0x89,
  0xc1,0x83,0xc0,0xff,0x89,0x45,0x10,0x8b,0x45,0x0c,0x83,0xc0,0x0c,0x89,0x45,0x0c,
  0xeb,0xab,0x8b,0x45,0x18,0xe9,0x03,0x00,0x00,0x00,0x90,0x90,0x90,0xc9,0xc2,0x14,
  0x00,0x00,0x00,0x00,0x00,0x00,0x00,0x00,0x00,0x00,0x00,0x00,0x00,0x00,0x00,0x00]

def enter : List (Instruction×ℕ) :=
  [(.push (.operand (.register .ebp)),1),(.mov (.register .ebp) (.operand (.register .esp)),2)]

def reserveLocals : List (Code×ℕ) := [(.reserve 3,6),(.nop,1),(.nop,1),(.nop,1),(.nop,1)]

def loadCount : List (Code×ℕ) := [(.load .eax 4,3)]

def testCount (handler : U32) : List (Instruction×ℕ) :=
  [(.compare .cmp (.register .eax) (.immediate 0),3),(.jumpIf .E (handler+98),6)]

/-- The fields of the message at `messages` into the locals, and the arguments of the call. -/
def passMessage : List (Code×ℕ) :=
  [(.load .eax 3,3),(.fetch .ecx .eax,2),(.save (-1) .ecx,3),
    (.load .eax 3,3),(.add .eax 4,3),(.fetch .ecx .eax,2),(.save (-2) .ecx,3),
    (.load .eax 3,3),(.add .eax 8,3),(.fetch .ecx .eax,2),(.save (-3) .ecx,3),
    (.load .eax (-3),3),(.push .eax,1),(.load .eax (-2),3),(.push .eax,1),(.load .eax (-1),3),
      (.push .eax,1),(.load .eax 2,3),(.push .eax,1),(.load .eax 5,3)]

def advance : List (Code×ℕ) :=
  [(.load .eax 4,3),(.copy .ecx .eax,2),(.add .eax 0xffffffff,3),(.save 4 .eax,3),
    (.load .eax 3,3),(.add .eax 12,3),(.save 3 .eax,3)]

def loadResult : List (Code×ℕ) := [(.load .eax 6,3)]

def epilogue : List (Instruction×ℕ) := [(.nop,1),(.nop,1),(.nop,1),(.leave,1),(.retn 20,3)]

def finish (handler : U32) : List (Instruction×ℕ) :=
  instructions loadResult++((.jump (handler+109),5)::epilogue)

def next (handler : U32) : List (Instruction×ℕ) :=
  instructions advance++((.jump (handler+13),2)::finish handler)

def deliver (handler : U32) : List (Instruction×ℕ) :=
  instructions passMessage++((.callTo (.operand (.register .eax)),2)::next handler)

def loop (handler : U32) : List (Instruction×ℕ) :=
  instructions loadCount++(testCount handler++deliver handler)

def listing (handler : U32) : List (Instruction×ℕ) :=
  enter++(instructions reserveLocals++loop handler)

theorem size_listing (handler : U32) : size (listing handler)=113 := by
  simp [size,listing,enter,reserveLocals,loop,loadCount,
    testCount,deliver,passMessage,next,advance,
    finish,loadResult,epilogue,instructions]

def InPump (handler a : U32) : Prop := (a-handler).toNat<113

instance (handler a : U32) : Decidable (InPump handler a) := inferInstanceAs (Decidable (_<_))

/-- The addresses at which the pump works for itself. -/
def Pumping (handler wndProc a : U32) : Prop := InPump handler a ∧ a≠wndProc

def modRM (mod : U8) (reg rm : Register) : U8 := .ofNat 8 (64*mod.toNat+8*reg.ctorIdx+rm.ctorIdx)

/-- The encodings that the code uses, `next` being the address behind the instruction and `n` its
length. -/
def encode (next : U32) (n : ℕ) : Instruction→List U8
  | .push (.operand (.register r)) => [.ofNat 8 (0x50+r.ctorIdx)]
  | .mov (.register dst) (.operand (.register src)) => [0x89,modRM 3 src dst]
  | .mov (.register dst) (.operand (.memory ⟨some r,none,displacement⟩)) =>
    if n=2 then [0x8b,modRM 0 dst r] else [0x8b,modRM 1 dst r,displacement.setWidth 8]
  | .mov (.memory ⟨some r,none,displacement⟩) (.operand (.register src)) =>
    [0x89,modRM 1 src r,displacement.setWidth 8]
  | .binary operation (.register dst) (.immediate v) =>
    let digit := BitVec.ofNat 8 (0xc0+8*operation.number+dst.ctorIdx)
    if n=3 then [0x83,digit,v.setWidth 8] else 0x81::digit::ByteStore.littleEndian 4 v.toNat
  | .compare .cmp (.register dst) (.immediate v) => [0x83,.ofNat 8 (0xf8+dst.ctorIdx),v.setWidth 8]
  | .jumpIf .E target => 0x0f::0x84::ByteStore.littleEndian 4 (target-next).toNat
  | .jump target => if n=2 then [0xeb,(target-next).setWidth 8] else 0xe9::ByteStore.littleEndian 4
    (target-next).toNat
  | .callTo (.operand (.register r)) => [0xff,.ofNat 8 (0xd0+r.ctorIdx)]
  | .retn v => 0xc2::ByteStore.littleEndian 2 v.toNat
  | .leave => [0xc9]
  | .nop => [0x90]
  | _ => []

def assemble : U32→List (Instruction×ℕ)→List U8
  | _,[] => []
  | a,(instruction,n)::code => encode (a+.ofNat 32 n) n instruction++assemble (a+.ofNat 32 n) code

theorem assemble_append (a : U32) (code rest : List (Instruction×ℕ)) :
    assemble a (code++rest)=assemble a code++assemble (a+.ofNat 32 (size code)) rest := by
  induction code generalizing a with
  | nil => simp [assemble,size]
  | cons head code ih =>
    simp only [List.cons_append,assemble,ih,List.append_assoc,size,List.map_cons,List.sum_cons,
      BitVec.ofNat_add,BitVec.add_assoc]

theorem assemble_instructions (a : U32) (block : List (Code×ℕ)) :
    assemble a (instructions block)=assemble 0 (instructions block) := by
  have hencode : ∀next next' n,∀code : Code,encode next n code.instruction=
    encode next' n code.instruction := by
    intro next next' n code
    cases code <;> rfl
  have hblock : ∀a a',assemble a (instructions block)=assemble a' (instructions block) := by
    induction block with
    | nil => exact fun _ _ => rfl
    | cons head block ih =>
      intro a a'
      exact congrArg₂ (·++·) (hencode _ _ _ _) (ih _ _)
  exact hblock a 0

/-- A branch is the same wherever it is, since its target moves with it. -/
theorem encode_jump (handler a b : U32) (n : ℕ) :
    encode (handler+a) n (.jump (handler+b))=encode a n (.jump b) := by
  have hencode : ∀next target,encode next n (.jump target)=if n=2
    then [0xeb,(target-next).setWidth 8]
      else 0xe9::ByteStore.littleEndian 4 (target-next).toNat := fun _ _ => rfl
  rw [hencode,hencode,add_sub_add_left_eq_sub]

theorem encode_jumpIf (handler a b : U32) (n : ℕ) :
    encode (handler+a) n (.jumpIf .E (handler+b))=encode a n (.jumpIf .E b) := by
  have hencode : ∀next target,encode next n (.jumpIf .E target)=
      0x0f::0x84::ByteStore.littleEndian 4 (target-next).toNat := fun _ _ => rfl
  rw [hencode,hencode,add_sub_add_left_eq_sub]

/-- The listing is that of the bytes, wherever they are. -/
theorem assemble_listing (handler : U32) : assemble handler (listing handler)=
    handleMessages.take 113 := by
  have henter : ∀a,assemble a enter=[0x55,0x89,0xe5] := fun _ => rfl
  have hcompare : ∀a,encode a 3 (.compare .cmp (.register .eax) (.immediate 0))=[0x83,0xf8,0x00] :=
    fun _ => rfl
  have hcall : ∀a,encode a 2 (.callTo (.operand (.register .eax)))=[0xff,0xd0] := fun _ => rfl
  have hend : ∀a,assemble a epilogue=[0x90,0x90,0x90,0xc9,0xc2,0x14,0x00] := fun _ => rfl
  have hsize : size (testCount handler)=9 := rfl
  simp only [listing,loop,deliver,next,finish,assemble_append,assemble_instructions,assemble,
    testCount,henter,hcompare,hcall,hend,BitVec.add_assoc,encode_jump,encode_jumpIf] at hsize ⊢
  rw [hsize]
  decide

end Code

structure WNDMESSAGE where
  message : U32
  wParam : U32
  lParam : U32
  deriving DecidableEq,Repr

/-- The messages are among the double words that the code reads. -/
def Array (layout : Layout) : U32→List WNDMESSAGE→Prop
  | _,[] => True
  | a,message::messages => layout.outer a=some message.message ∧ layout.outer (a+4)=
    some message.wParam ∧
    layout.outer (a+8)=some message.lParam ∧ Array layout (a+12) messages

/-- An activation of the window procedure by the code, with its arguments. -/
inductive Activates (layout : Layout) (handler wndProc : U32) (m : Machine) :
    List U32→(Machine→Prop)→Prop
  | call {v : View} (eip : m.eip=wndProc) (shows : Shows layout m v) (depth : v.depth= -8)
      (ret : m.top=handler+76) :
      Activates layout handler wndProc m (arguments m 4) (Returned (KeptFrom layout (-3)) 4 m)

def callArguments (wndHandle : U32) (message : WNDMESSAGE) : List U32 :=
  [wndHandle,message.message,message.wParam,message.lParam]

section Pump
variable {layout : Layout} {handler wndProc : U32} {v v' : View} {messages : List WNDMESSAGE}
  {message : WNDMESSAGE} {silent : U32→Prop} {Q : Machine→Prop} {as : List (List U32)}

/-- The frame has room for the locals, the arguments and the return address of a call. -/
structure Roomy (layout : Layout) : Prop where
  low : layout.low ≤ -8
  high : 7 ≤ layout.high

theorem Roomy.inFrame (h : Roomy layout) {k : ℤ} (hlow : -8 ≤ k) (hhigh : k<7) : layout.InFrame k :=
  ⟨h.low.trans hlow,hhigh.trans_le h.high⟩

/-- The double words of the frame that the loop leaves alone: the saved `EBP`, the return address,
`wndhandle`, `wndProc` and `result`. -/
def constantCells : List ℤ := [0,1,2,5,6]

/-- The loop is at its head, with the messages still to deliver. -/
structure Looping (layout : Layout) (handler : U32) (v' : View) (messages : List WNDMESSAGE)
    (m : Machine) : Prop where
  eip : m.eip=handler+13
  fits : messages.length<2^32
  view : ∃v,Shows layout m v ∧ v.depth= -3 ∧ (∀k∈constantCells,v.cells k=v'.cells k) ∧
    v.cells 4=.ofNat 32 messages.length ∧ Array layout (v.cells 3) messages

theorem listed_loop (h : Listed program silent handler (listing handler)) :
    Listed program silent (handler+13) (loop handler) := by
  have hlist := h.drop.drop
  rwa [BitVec.add_assoc] at hlist

theorem listed_deliver (h : Listed program silent handler (listing handler)) :
    Listed program silent (handler+25) (deliver handler) := by
  have hlist := (listed_loop h).drop.drop
  rwa [BitVec.add_assoc,BitVec.add_assoc] at hlist

theorem listed_next (h : Listed program silent handler (listing handler)) :
    Listed program silent (handler+76) (next handler) := by
  have hlist := (listed_deliver h).drop.2
  rwa [BitVec.add_assoc,BitVec.add_assoc] at hlist

theorem listed_finish (h : Listed program silent handler (listing handler)) :
    Listed program silent (handler+98) (finish handler) := by
  have hlist := (listed_next h).drop.2
  rwa [BitVec.add_assoc,BitVec.add_assoc] at hlist

section Views
variable (layout : Layout) (v : View)

theorem safes_loadCount (hroom : Roomy layout) : Safes layout v loadCount :=
  ⟨⟨by decide,hroom.inFrame (by decide) (by decide)⟩,trivial⟩

theorem safes_advance (hroom : Roomy layout) : Safes layout v advance := by
  have hcount : layout.InFrame 4 := hroom.inFrame (by decide) (by decide)
  have hmessages : layout.InFrame 3 := hroom.inFrame (by decide) (by decide)
  have heax : General .eax := by decide
  have hecx : General .ecx := by decide
  exact ⟨⟨heax,hcount⟩,⟨hecx,heax⟩,heax,⟨heax,hcount⟩,⟨heax,hmessages⟩,heax,
    ⟨heax,hmessages⟩,trivial⟩

/-- `count` and `messages` move on, and nothing else in the frame does. -/
theorem runs_advance : (runs layout v advance).depth=v.depth ∧
    (runs layout v advance).cells 4=v.cells 4+0xffffffff ∧ (runs layout v advance).cells 3=
      v.cells 3+12 ∧
      ∀k∈constantCells,(runs layout v advance).cells k=v.cells k := by
  simp [runs,advance,Code.run,constantCells]

variable {layout : Layout} {v : View}

theorem safes_passMessage (hroom : Roomy layout) (hdepth : v.depth= -3)
    (harray : Array layout (v.cells 3) (message::messages)) : Safes layout v passMessage := by
  obtain ⟨hmessage,hwParam,hlParam,_⟩ := harray
  have hin : ∀k∈[-3,-2,-1,-4,-5,-6,-7,(2 : ℤ),3,5],layout.InFrame k := by
    intro k hk
    refine hroom.inFrame ?_ ?_ <;> revert k <;> decide
  simp only [List.forall_mem_cons] at hin
  simp only [BitVec.ofNat_eq_ofNat] at hwParam hlParam
  have heax : General .eax := by decide
  have hecx : General .ecx := by decide
  simp [Safes,passMessage,Code.run,Code.Safe,hdepth,hmessage,hwParam,hlParam,hin,heax,hecx]

/-- The view when the arguments of the call are on the stack. -/
theorem runs_passMessage (hdepth : v.depth= -3)
    (harray : Array layout (v.cells 3) (message::messages)) :
    (runs layout v passMessage).depth= -7 ∧ (runs layout v passMessage).register .eax=v.cells 5 ∧
      ((List.range 4).map fun i => (runs layout v passMessage).cells (-8+(i+1 : ℕ)))=
        callArguments (v.cells 2) message ∧
      ∀k,0 ≤ k→(runs layout v passMessage).cells k=v.cells k := by
  obtain ⟨hmessage,hwParam,hlParam,_⟩ := harray
  simp only [BitVec.ofNat_eq_ofNat] at hwParam hlParam
  refine ⟨?_,?_,?_,fun k hk => ?_⟩
  · simp [runs,passMessage,Code.run,hdepth]
  · simp [runs,passMessage,Code.run,hdepth]
  · simp [runs,passMessage,Code.run,hdepth,hmessage,hwParam,hlParam,List.range_succ,callArguments]
  · have hlocal : ∀j : ℤ,j<0→k≠j := fun j hj => by omega
    simp [runs,passMessage,Code.run,hdepth,hlocal]

end Views

variable {calls : Machine→List U32→(Machine→Prop)→Prop}

theorem leads_count (hlist : Listed program silent handler (listing handler)) (hroom : Roomy layout)
    (h : Shows layout m v) (heip : m.eip=handler+13)
    (tail : ∀m',Shows layout m' (runs layout v loadCount)→
      m'.eip=(if v.cells 4=0 then handler+98 else handler+25)→
      Leads (Offers program silent calls) Q m' as) :
    Leads (Offers program silent calls) Q m as := by
  have hloop := listed_loop hlist
  rw [←heip] at hloop
  have hload : Leads (Offers program silent calls) _ m [] :=
    leads_block hloop (by simp [testCount]) h (safes_loadCount layout v hroom)
  refine hload.bind fun m₁ ⟨h₁,heip₁⟩ => ?_
  have htest := hloop.drop
  rw [←heip₁] at htest
  refine leads_test htest (by simp [deliver]) (listed_finish hlist).isSome h₁ (by decide)
    fun m₂ h₂ heip₂ => tail m₂ h₂ ?_
  rw [heip₂,heip₁,heip,BitVec.add_assoc,BitVec.add_assoc,BitVec.add_assoc]
  rfl

theorem leads_deliver (hlist : Listed program silent handler (listing handler))
    (hroom : Roomy layout) (hwndProc : (program.entry wndProc).isSome) (h : Shows layout m v)
    (heip : m.eip=handler+25) (hdepth : v.depth= -3) (htarget : v.cells 5=wndProc)
    (harray : Array layout (v.cells 3) (message::messages))
    (tail : ∀m' v',m'.eip=wndProc→m'.top=handler+76→Shows layout m' v'→v'.depth= -8→
      arguments m' 4=callArguments (v.cells 2) message→(∀k,0 ≤ k→v'.cells k=v.cells k)→
        Leads (Offers program silent calls) Q m' as) :
    Leads (Offers program silent calls) Q m as := by
  obtain ⟨hdepth₁,heax,hargs,hkept⟩ := runs_passMessage hdepth harray
  have hpass := listed_deliver hlist
  rw [←heip] at hpass
  have hblock : Leads (Offers program silent calls) _ m [] :=
    leads_block hpass (by simp) h (safes_passMessage hroom hdepth harray)
  generalize runs layout v passMessage=v₁ at *
  refine hblock.bind fun m₁ ⟨h₁,heip₁⟩ => ?_
  have hcall := hpass.drop
  rw [←heip₁] at hcall
  have hread : m₁.register .eax=wndProc := by rw [h₁.register _ (by decide),heax,htarget]
  have hin : layout.InFrame (v₁.depth-1) := by
    rw [hdepth₁]
    exact hroom.inFrame (by decide) (by decide)
  have hnext : m₁.eip+.ofNat 32 2=handler+76 := by
    rw [heip₁,heip,BitVec.add_assoc,BitVec.add_assoc]
    rfl
  have hslot : (m₁.register .esp-4).toNat∈m₁.stack := by
    rw [h₁.push_slot]
    exact h₁.slot hin
  refine leads_branch hcall ⟨trivial,hslot⟩ hwndProc (fun _ => hread) fun undefined => ?_
  rw [hnext]
  have hpushed := (h₁.push hin (handler+76)).goto (m₁.register .eax)
  refine tail ((m₁.push (handler+76)).goto (m₁.register .eax)) _ hread ?_ hpushed ?_ ?_ fun k hk =>
    ?_
  · rw [hpushed.top_eq hin]
    simp
  · simp [hdepth₁]
  · rw [hpushed.arguments fun i hi => hroom.inFrame (by simp [hdepth₁]; omega)
      (by simp [hdepth₁]; omega),←hargs]
    refine List.map_congr_left fun i hi => ?_
    simp [hdepth₁]
    omega
  · rw [View.cells_moveTo,View.cells_save,if_neg (by omega),hkept k hk]

/-- From the return of the call to the head of the loop. -/
theorem leads_advance (hlist : Listed program silent handler (listing handler))
    (hroom : Roomy layout) (h : Shows layout m v) (heip : m.eip=handler+76) :
    Leads (Offers program silent calls)
    (fun m' => m'.eip=handler+13 ∧ Shows layout m' (runs layout v advance)) m [] := by
  have hnext := listed_next hlist
  rw [←heip] at hnext
  have hblock : Leads (Offers program silent calls) _ m [] :=
    leads_block hnext (by simp) h (safes_advance layout v hroom)
  refine hblock.bind fun m₁ ⟨h₁,heip₁⟩ => ?_
  have hjump := hnext.drop
  rw [←heip₁] at hjump
  exact leads_branch hjump trivial (listed_loop hlist).isSome (fun _ => rfl) fun _ =>
    .done ⟨rfl,h₁.goto _⟩

/-- One message: the body of the loop calls the window procedure with it. -/
theorem leads_message (hlist : Listed program silent handler (listing handler))
    (hroom : Roomy layout) (hwndProc : (program.entry (v'.cells 5)).isSome)
    (h : Looping layout handler v' (message::messages) m) :
    Leads (Offers program silent (Activates layout handler (v'.cells 5)))
    (Looping layout handler v' messages) m
      [callArguments (v'.cells 2) message] := by
  obtain ⟨v,hshows,hdepth,hconstant,hcount,harray⟩ := h.view
  have hne : v.cells 4≠0 := by
    have hfits := h.fits
    rw [List.length_cons] at hfits
    rw [hcount,List.length_cons]
    bv_omega
  refine leads_count hlist hroom hshows h.eip fun m₁ h₁ heip₁ => ?_
  rw [if_neg hne] at heip₁
  refine leads_deliver (v:=runs layout v loadCount) hlist hroom hwndProc h₁ heip₁ hdepth
    (hconstant 5 (by decide)) harray ?_
  intro m₂ v₂ heip₂ htop₂ h₂ hdepth₂ hargs hkept
  have hcall : Offers program silent (Activates layout handler (v'.cells 5)) m₂
    (some (arguments m₂ 4))
      (Returned (KeptFrom layout (-3)) 4 m₂) := .call (.call heip₂ h₂ hdepth₂ htop₂)
  have hwndHandle : (runs layout v loadCount).cells 2=v'.cells 2 := hconstant 2 (by decide)
  rw [hargs,hwndHandle] at hcall
  refine .visible hcall fun m₃ hreturned => ?_
  have h₃ := h₂.returned hreturned
  have hcells : ∀k,0 ≤ k→k<7→(View.after layout (v₂.depth+(4+1 : ℕ)) m₃).cells k=v.cells k := by
    intro k hlow hhigh
    rw [h₂.cells_after hreturned (hroom.inFrame (by omega) hhigh) (by omega)]
    exact hkept k hlow
  obtain ⟨hdepth₄,hcount₄,hmessages₄,hconstant₄⟩ :=
    runs_advance layout (View.after layout (v₂.depth+(4+1 : ℕ)) m₃)
  refine (leads_advance hlist hroom h₃ (hreturned.eip.trans htop₂)).bind fun m₄ ⟨heip₄,
    h₄⟩ => .done ?_
  have hfits := h.fits
  rw [List.length_cons] at hfits
  refine ⟨heip₄,by omega,_,h₄,?_,fun k hk => ?_,?_,?_⟩
  · rw [hdepth₄,View.after,hdepth₂]
    rfl
  · have hrange : 0 ≤ k ∧ k<7 := by
      revert k
      decide
    rw [hconstant₄ k hk,hcells k hrange.1 hrange.2,hconstant k hk]
  · rw [hcount₄,hcells 4 (by decide) (by decide),hcount,List.length_cons]
    bv_omega
  · rw [hmessages₄,hcells 3 (by decide) (by decide)]
    exact harray.2.2.2

/-- The machine behind the procedure: its result, and what it has kept. -/
structure Finished (layout : Layout) (v : View) (m : Machine) : Prop where
  eip : m.eip=v.cells 1
  eax : m.register .eax=v.cells 6
  esp : m.register .esp=layout.cell 7
  ebp : m.register .ebp=v.cells 0
  data : m.data=layout.data
  stack : m.stack=layout.stack
  outer : ∀a w,layout.outer a=some w→word m.memory a=w

theorem listed_leave (h : Listed program silent handler (listing handler)) :
    Listed program silent (handler+109) [(.leave,1),(.retn 20,3)] := by
  have hlist := (listed_finish h).drop.2.2.2.2
  simp only [BitVec.add_assoc] at hlist
  exact hlist

theorem leads_finish (hlist : Listed program silent handler (listing handler))
    (hroom : Roomy layout) (hret : (program.entry (v.cells 1)).isSome) (h : Shows layout m v)
    (heip : m.eip=handler+98) :
    Leads (Offers program silent calls) (Finished layout v) m [] := by
  have hfinish := listed_finish hlist
  rw [←heip] at hfinish
  have hload : Safes layout v loadResult :=
    ⟨⟨by decide,hroom.inFrame (by decide) (by decide)⟩,trivial⟩
  refine (leads_block hfinish (by simp) h hload).bind fun m₁ ⟨h₁,heip₁⟩ => ?_
  have hjump := hfinish.drop
  rw [←heip₁] at hjump
  refine leads_branch hjump trivial (listed_leave hlist).isSome (fun _ => rfl) fun _ => ?_
  have hframe : ∀k∈[0,(1 : ℤ)],layout.InFrame k := by
    intro k hk
    refine hroom.inFrame ?_ ?_ <;> revert k <;> decide
  have hbase : m₁.register .ebp=layout.cell 0 := h₁.base.trans layout.cell_zero.symm
  have hnext : m₁.register .ebp+4=layout.cell 1 := by
    rw [hbase]
    exact layout.cell_add 0 1
  have hslots : ∀k∈[0,(1 : ℤ)],(layout.cell k).toNat∈m₁.stack := fun k hk => h₁.slot (hframe k hk)
  have hsaved : word m₁.memory (m₁.register .ebp)=v.cells 0 := by
    rw [hbase]
    exact h₁.cells 0 (hframe 0 (by decide))
  have hreturn : word m₁.memory (m₁.register .ebp+4)=v.cells 1 := by
    rw [hnext]
    exact h₁.cells 1 (hframe 1 (by decide))
  refine AssemblySimulation.leads_next (listed_leave hlist)
    (by simp) ?_ (fun _ _ => rfl) fun undefined => ?_
  · show (m₁.register .ebp).toNat∈m₁.stack
    rw [hbase]
    exact hslots 0 (by decide)
  refine leads_branch (listed_leave hlist).2 ?_ hret (fun _ => ?_) fun undefined' => .done ?_
  · show (m₁.register .ebp+4).toNat∈m₁.stack
    rw [hnext]
    exact hslots 1 (by decide)
  · exact hreturn
  · refine ⟨hreturn,?_,?_,hsaved,h₁.data,h₁.stack,h₁.outer⟩
    · show m₁.register .eax=_
      rw [h₁.register .eax (by decide)]
      rfl
    · show m₁.register .ebp+4+4+20=_
      rw [hnext,BitVec.add_assoc]
      exact layout.cell_add 1 6

theorem leads_loop (hlist : Listed program silent handler (listing handler)) (hroom : Roomy layout)
    (hwndProc : (program.entry (v.cells 5)).isSome) (hret : (program.entry (v.cells 1)).isSome)
    (h : Looping layout handler v messages m) :
    Leads (Offers program silent (Activates layout handler (v.cells 5))) (Finished layout v) m
      (messages.map (callArguments (v.cells 2))) := by
  have hloop := Leads.loop (fun message messages m => leads_message hlist hroom hwndProc) messages h
  have hend : ∀m',Looping layout handler v [] m'→
      Leads (Offers program silent (Activates layout handler (v.cells 5)))
        (Finished layout v) m' [] := by
    intro m' h'
    obtain ⟨v',h₁,_,hconstant,hcount,_⟩ := h'.view
    have hret' : (program.entry (v'.cells 1)).isSome := by rwa [hconstant 1 (by decide)]
    refine leads_count hlist hroom h₁ h'.eip fun m₂ h₂ heip₂ => ?_
    rw [if_pos (by exact hcount)] at heip₂
    refine (leads_finish (v:=runs layout v' loadCount) hlist hroom hret' h₂ heip₂).mono fun m₃ h₃ =>
      ?_
    exact ⟨h₃.eip.trans (hconstant 1 (by decide)),h₃.eax.trans (hconstant 6 (by decide)),h₃.esp,
      h₃.ebp.trans (hconstant 0 (by decide)),h₃.data,h₃.stack,h₃.outer⟩
  have hall := hloop.bind hend
  rwa [List.append_nil,←List.map_eq_flatMap] at hall

/-- A call of `handle_messages`: its arguments are on the stack, and the messages where they say. -/
structure Entered (layout : Layout) (handler wndHandle wndProc result : U32)
    (messages : List WNDMESSAGE) (m : Machine) : Prop where
  eip : m.eip=handler
  esp : m.register .esp=layout.cell 1
  data : m.data=layout.data
  stack : m.stack=layout.stack
  outer : ∀a w,layout.outer a=some w→word m.memory a=w
  fits : messages.length<2^32
  arguments : ∃a,arguments m 5=[wndHandle,a,.ofNat 32 messages.length,wndProc,result] ∧
    Array layout a messages

def entryView (layout : Layout) (m : Machine) : View :=
  ⟨Function.update m.register .ebp layout.base,0,
    Function.update (fun k => word m.memory (layout.cell k)) 0 (m.register .ebp)⟩

theorem shows_entry (hroom : Roomy layout) (next next' : U32) (hesp : m.register .esp=layout.cell 1)
    (hdata : m.data=layout.data) (hstack : m.stack=layout.stack)
    (houter : ∀a w,layout.outer a=some w→word m.memory a=w) :
    Shows layout ((((m.push (m.register .ebp)).goto next).set .ebp (m.register .esp-4)).goto next')
      (entryView layout m) := by
  have htop : m.register .esp-4=layout.cell 0 := by
    rw [hesp]
    exact layout.cell_sub 1 1
  have hin : layout.InFrame 0 := hroom.inFrame (by decide) (by decide)
  rw [Machine.push,htop]
  refine ⟨fun r hr => ?_,?_,?_,fun k hk => ?_,fun a w hw => ?_,hdata,hstack⟩
  · simp [entryView,hr.1,hr.2]
  · simp [layout.cell_zero]
  · simp [entryView]
  · simp only [Machine.memory_goto,Machine.memory_set,Machine.memory_store,entryView,
      Function.update_apply]
    split
    · next heq => rw [heq,Assembly.word_withWord_self]
    · next hne => exact Assembly.word_withWord_of_apart _ (layout.cell_apart hin hk (Ne.symm hne)) _
  · have hapart : Assembly.Apart (layout.cell 0) a := layout.apart a (Option.isSome_of_mem hw)
      0 hin.1 hin.2
    simp only [Machine.memory_goto,Machine.memory_set,Machine.memory_store]
    rw [Assembly.word_withWord_of_apart _ hapart,houter a w hw]

theorem Entered.cells {wndHandle result : U32}
    (h : Entered layout handler wndHandle wndProc result messages m) :
    word m.memory (layout.cell 2)=wndHandle ∧ word m.memory (layout.cell 4)=
      .ofNat 32 messages.length ∧
      word m.memory (layout.cell 5)=wndProc ∧ word m.memory (layout.cell 6)=result ∧
      Array layout (word m.memory (layout.cell 3)) messages := by
  obtain ⟨a,hargs,harray⟩ := h.arguments
  have hcell : ∀i : ℕ,m.register .esp+.ofNat 32 (4*(i+1))=layout.cell (1+(i+1 : ℕ)) := by
    intro i
    rw [h.esp]
    exact layout.cell_add 1 (i+1 : ℕ)
  have hrange : List.range 5=[0,1,2,3,4] := rfl
  simp only [StackFrames.arguments,hcell,hrange,List.map_cons,List.map_nil,List.cons.injEq] at hargs
  obtain ⟨hwndHandle,hmessages,hcount,hwndProc,hresult,_⟩ := hargs
  exact ⟨hwndHandle,hcount,hwndProc,hresult,hmessages ▸ harray⟩

theorem leads_enter {wndHandle result : U32}
    (hlist : Listed program silent handler (listing handler)) (hroom : Roomy layout)
    (h : Entered layout handler wndHandle wndProc result messages m) :
    Leads (Offers program silent calls)
    (Looping layout handler (entryView layout m) messages) m [] := by
  have htop : m.register .esp-4=layout.cell 0 := by
    rw [h.esp]
    exact layout.cell_sub 1 1
  have hin : layout.InFrame 0 := hroom.inFrame (by decide) (by decide)
  rw [←h.eip] at hlist
  have hslot : (m.register .esp-4).toNat∈m.stack := by
    rw [htop,h.stack]
    exact layout.slots 0 hin.1 hin.2
  refine AssemblySimulation.leads_next hlist (by simp) ⟨trivial,hslot⟩ (fun _ _ => rfl) fun _ => ?_
  refine AssemblySimulation.leads_next hlist.2 (by simp [reserveLocals,instructions])
    ⟨trivial,trivial⟩
    (fun _ _ => rfl) fun _ => ?_
  have hshows := shows_entry hroom (m.eip+.ofNat 32 1) (m.eip+.ofNat 32 1+.ofNat 32 2) h.esp h.data
    h.stack h.outer
  obtain ⟨_,hcount,_,_,harray⟩ := h.cells
  refine (leads_block hlist.2.2 (by simp [loop,instructions,loadCount]) hshows ?_).mono ?_
  · exact ⟨trivial,trivial,trivial,trivial,trivial,trivial⟩
  · rintro m₁ ⟨h₁,heip₁⟩
    refine ⟨?_,h.fits,_,h₁,rfl,fun k _ => rfl,hcount,harray⟩
    rw [heip₁,Machine.eip_goto,h.eip,BitVec.add_assoc,BitVec.add_assoc]
    rfl

/-- `handle_messages` on the machine: a procedure with five arguments that calls the window
procedure with each of the messages in turn and returns `result`. -/
theorem leads_handleMessages {wndHandle result : U32}
    (hlist : Listed program silent handler (listing handler)) (hroom : Roomy layout)
    (hwndProc : (program.entry wndProc).isSome) (hret : (program.entry m.top).isSome)
    (h : Entered layout handler wndHandle wndProc result messages m) :
    Leads (Offers program silent (Activates layout handler wndProc))
      (fun m' => Returned (fun a => (layout.outer a).isSome) 5 m m' ∧ m'.register .eax=result) m
      (messages.map (callArguments wndHandle)) := by
  obtain ⟨hwndHandle,_,htarget,hresult,_⟩ := h.cells
  have htop : (entryView layout m).cells 1=m.top := by
    rw [Machine.top,h.esp]
    rfl
  have hwndHandle' : (entryView layout m).cells 2=wndHandle := hwndHandle
  have htarget' : (entryView layout m).cells 5=wndProc := htarget
  have hloop : ∀m',Looping layout handler (entryView layout m) messages m'→
      Leads (Offers program silent (Activates layout handler wndProc))
        (Finished layout (entryView layout m)) m'
        (messages.map (callArguments wndHandle)) := by
    intro m' h'
    have hleads := leads_loop hlist hroom (by rwa [htarget']) (by rwa [htop]) h'
    rwa [htarget',hwndHandle'] at hleads
  refine ((leads_enter hlist hroom h).bind hloop).mono fun m' h' => ⟨⟨h'.eip.trans htop,?_,h'.ebp,
    h'.data.trans h.data.symm,h'.stack.trans h.stack.symm,fun a ha => ?_⟩,h'.eax.trans hresult⟩
  · rw [h'.esp,h.esp]
    exact (layout.cell_add 1 6).symm
  · obtain ⟨w,hw⟩ := Option.isSome_iff_exists.mp ha
    rw [h'.outer a w hw,h.outer a w hw]

/-- The code of `handle_messages` is in the program: its listing, and the bytes that this assembles
to. -/
structure Provides (program : Program) (handler : U32) : Prop where
  listed : Listed program (InPump handler) handler (listing handler)
  bytes : ∀i<113,(assemble handler (listing handler))[i]?=some (program.bytes (handler.toNat+i))

theorem Provides.pumping (h : Provides program handler) (houtside : ¬InPump handler wndProc) :
    Listed program (Pumping handler wndProc) handler (listing handler) :=
  h.listed.mono fun _ ha => ⟨ha,fun heq => houtside (heq ▸ ha)⟩

/-- The interpreter runs the bytes of `handle_messages` as a procedure with five arguments: it
activates the window procedure once for each message, in their order, with the window and the fields
of the message, and returns `result` to its caller; all other turns are at instructions of the pump.
The window procedure is any guest code outside of the pump that returns as the calling convention
asks. -/
theorem handle_messages_delivers {wndHandle result : U32} (hdisasm : program.DecodedBy env.disasm)
    (hpump : Provides program handler) (hroom : Roomy layout)
    (hwndProc : (program.entry wndProc).isSome) (houtside : ¬InPump handler wndProc)
    (hret : (program.entry m.top).isSome) (hcalls : ∀s m args R,Simulates program s m→
      Activates layout handler wndProc m args R→
      ∃t m',Relation.ReflTransGen (Turn env) s t ∧ Simulates program t m' ∧ R m')
    (hs : Simulates program s m) (h : Entered layout handler wndHandle wndProc result messages m) :
    ∃t m',Relation.ReflTransGen (Turn env) s t ∧
      Trace (Performs env program (Pumping handler wndProc) (Activates layout handler wndProc)) s
        (messages.map (callArguments wndHandle)) t ∧
      Simulates program t m' ∧ Returned (fun a => (layout.outer a).isSome) 5 m m' ∧
      m'.register .eax=result := by
  have hleads := leads_handleMessages (hpump.pumping houtside) hroom hwndProc hret h
  obtain ⟨t,m',hturns,htrace,ht,hreturned,heax⟩ := leads_simulates hdisasm hcalls hleads hs
  exact ⟨t,m',hturns,htrace,ht,hreturned,heax⟩

end Pump

section Example
open AssemblyImage

/-- `handle_messages`, and behind it a window procedure that only returns and the caller. -/
def pumpListing : List (Instruction×ℕ) := listing 0x1000++[(.retn 16,3),(.nop,1)]

def pumpFlat : ℕ→U8 :=
  let code := writeAt (fun _ => 0) 0x1000 (handleMessages.take 113++[0xc2,0x10,0x00,0x90])
  let words : List (U32×U32) := [(0x2800,0x1074),(0x2804,0x20000001),(0x2808,0x2900),(0x280c,2),
    (0x2810,0x1071),(0x2814,1),(0x2900,0x0f),(0x2904,0),(0x2908,0),(0x290c,0x14),(0x2910,5),
    (0x2914,7)]
  words.foldl (fun flat word => Assembly.withWord flat word.1 word.2) code

theorem listing_hasEncoding {handler : U32} :
    ∀instruction∈listing handler,HasEncoding instruction.1 ∧ 0 < instruction.2 := by
  simp [listing,enter,reserveLocals,loop,loadCount,testCount,deliver,passMessage,next,advance,
    finish,loadResult,epilogue,instructions,Code.instruction,HasEncoding]

theorem positive_listing {handler : U32} : ∀instruction∈listing handler,0 < instruction.2 :=
  fun instruction h => (listing_hasEncoding instruction h).2

theorem pumpListing_hasEncoding : ∀instruction∈pumpListing,HasEncoding instruction.1 ∧
    0 < instruction.2 := by
  intro instruction h
  rcases List.mem_append.mp h with hpump | hrest
  · exact listing_hasEncoding instruction hpump
  · clear h
    revert instruction
    simp [HasEncoding]

def pumpImage : Image := .ofListing pumpListing pumpFlat pumpListing_hasEncoding (by decide)

theorem pumpCells {k : ℤ} (hlow : -8 ≤ k) (hhigh : k<7) :
    0x27dc ≤ (0x27fc+.ofInt 32 (4*k) : U32).toNat ∧
    (0x27fc+.ofInt 32 (4*k) : U32).toNat+4 ≤ 0x2900 := by
  obtain ⟨n,rfl⟩ : ∃n : ℕ,k=n-8 := ⟨(k+8).toNat,by omega⟩
  have hn : n<15 := by omega
  clear hlow hhigh
  revert n
  decide

def pumpLayout : Layout where
  base := 0x27fc
  low := -8
  high := 7
  outer a := if 0x2900 ≤ a.toNat ∧ a.toNat+4 ≤ 0x2918 then some (word pumpFlat a) else none
  data := Image.slots
  stack := Image.slots
  low_le := by decide
  high_le := by decide
  apart a ha k hlow hhigh := by
    have hcell := pumpCells hlow hhigh
    split_ifs at ha with h
    · exact .inl (hcell.2.trans h.1)
    · cases ha
  slots k hlow hhigh := by
    have hcell := pumpCells hlow hhigh
    exact ⟨by omega,by omega⟩
  readable a ha := by
    split_ifs at ha with h
    · exact ⟨by omega,by omega⟩
    · cases ha
  stack_subset := subset_rfl

theorem pumpImage_provides : Provides pumpImage.program 0x1000 where
  listed := by
    have hlisted : Listed pumpImage.program (fun _ => True) 0x1000 (listing 0x1000) :=
      (Image.listed_ofListing pumpListing_hasEncoding (by decide)).left
    have hplaced := hlisted.placed positive_listing (by rw [size_listing]; decide)
    rwa [size_listing] at hplaced
  bytes := by
    rw [assemble_listing]
    decide +kernel

theorem handle_messages_delivers_two : ∃s t : FEProcess Unit,
    Relation.ReflTransGen (Turn pumpImage.environment) s t ∧
    Trace (Performs pumpImage.environment pumpImage.program (Pumping 0x1000 0x1071)
      (Activates pumpLayout 0x1000 0x1071)) s
      [[0x20000001,0x0f,0,0],[0x20000001,0x14,5,7]] t ∧ t.currentThread.register32 .kEAX=1 := by
  obtain ⟨s,hs⟩ := pumpImage.simulates (fun r => if r=.esp then 0x2800 else 0)
    (show (pumpImage.code 0x1000).isSome from rfl)
  have hentered : Entered pumpLayout 0x1000 0x20000001 0x1071 1 [⟨0x0f,0,0⟩,⟨0x14,5,7⟩]
      (pumpImage.machine (fun r => if r=.esp then 0x2800 else 0) 0x1000) := by
    refine ⟨rfl,rfl,rfl,rfl,fun a w hw => ?_,by decide,0x2900,by decide +kernel,?_⟩
    · simp only [pumpLayout] at hw
      split_ifs at hw
      cases hw
      rfl
    · exact ⟨by decide +kernel,by decide +kernel,by decide +kernel,by decide +kernel,
        by decide +kernel,by decide +kernel,trivial⟩
  have hcalls : ∀s m args R,Simulates pumpImage.program s m→
    Activates pumpLayout 0x1000 0x1071 m args R→
      ∃t m',Relation.ReflTransGen (Turn pumpImage.environment) s t ∧
        Simulates pumpImage.program t m' ∧ R m' := by
    rintro s m args R hs ⟨heip,hshows,hdepth,htop⟩
    have hentry : pumpImage.program.entry m.eip=some (entryOf (.retn 16) 3) := by
      rw [heip]
      rfl
    have hslot : (m.register .esp).toNat∈m.stack := by
      rw [hshows.top,hdepth]
      exact hshows.slot (by decide)
    have hnext : ∀undefined,(pumpImage.program.entry
        ((Instruction.retn 16).exec undefined m (m.eip+.ofNat 32 3)).eip).isSome := by
      intro undefined
      show (pumpImage.program.entry m.top).isSome
      rw [htop]
      rfl
    obtain ⟨t,undefined,hturn,ht,-⟩ := hs.turn pumpImage.decodedBy hentry hslot hnext
    refine ⟨t,_,.single hturn,ht,⟨rfl,?_,rfl,rfl,rfl,fun _ _ => rfl⟩⟩
    show m.register .esp+4+16=_
    rw [BitVec.add_assoc]
    rfl
  obtain ⟨t,m',hturns,htrace,ht,_,heax⟩ := handle_messages_delivers pumpImage.decodedBy
    pumpImage_provides
    ⟨by decide,by decide⟩ rfl (by decide) (by rfl) hcalls hs hentered
  exact ⟨s,t,hturns,htrace,(ht.represents.register .eax).trans heax⟩

end Example
end FalloutEmu.MessagePump
