import FalloutEmu.HandleTable

/-! # Which host files `CloseHandle` closes -/
namespace FalloutEmu.HandleClosing
open HandleTable
open ProcessIsolation (FEHandleType)

/-- The details of a handle; only a file handle has a `FILE` in its payload, here its number. -/
structure Details where
  type : FEHandleType
  name : List Char
  file : Option ℕ
  deriving DecidableEq

/-- The table, the static counter, and the host's streams: those that `fopen` has returned and those
that `fclose` was called on. -/
structure State where
  handles : Handles Details
  handle : U32
  opened : List ℕ
  closed : List ℕ

def start (handle : U32) : State := ⟨fun _ => none,handle,[],[]⟩

def State.createHandle (s : State) (details : Details) : Except Stop (U32×State) := do
  let (handle,handles) ← createHandleType s.handles s.handle details
  .ok (handle,{ s with handles := handles,handle := handle })

/-- The end of `fe_CreateFileA`, from `fopen` on: what it returned, whether the path is a directory
and whether it exists. The result is `eax`. -/
def createFileA (build : Build) (s : State) (path : List Char) (file : Option ℕ)
    (isDirectory exists_ : Bool) :
    Except Stop (U32×State) :=
  let s := { s with opened := s.opened++file.toList }
  if file.isSome ∧ ¬isDirectory ∧ exists_ then s.createHandle ⟨.File,path,file⟩
  else do
    assertThat build (isDirectory ∨ ¬exists_)
    .ok (0xffffffff,s)

inductive Creator where
  | createMutexA
  | loadLibraryA
  | loadIconA
  | registerClassA
  | createWindowExA
  | setWindowsHookExA
  | getStockObject
  deriving DecidableEq

def Creator.type : Creator→FEHandleType
  | createMutexA => .Mutex
  | loadLibraryA => .Module
  | loadIconA => .IconHandle
  | registerClassA => .ClassHandle
  | createWindowExA => .WindowHandle
  | setWindowsHookExA => .Hook
  | getStockObject => .GDIHandle

/-- `fclose`; closing a stream that is closed, or `NULL`, has no defined effect. -/
def fclose (s : State) : Option ℕ→Except Stop State
  | some file => if file∈s.closed then .error .undefinedBehaviour
    else .ok { s with closed := s.closed++[file] }
  | none => .error .undefinedBehaviour

/-- The `switch` of `fe_CloseHandle`. For a missing entry `integerValue` answers 0, which is
`kFEHandleType_File`. -/
def closeObject (build : Build) (s : State) (details : Option Details) : Except Stop State :=
  if (details.map Details.type).getD .File=.File then do
    let filePtrValue := details.bind Details.file
    assertThat build filePtrValue.isSome
    fclose s filePtrValue
  else .ok s

def closeHandle (build : Build) (s : State) (arg_hObject : U32) : Except Stop State := do
  let s ← closeObject build s (handleDetails s.handles arg_hObject)
  .ok { s with handles := freeHandle s.handles arg_hObject }

/-- A call that returns, with its answer; the counter moves when another table creates a handle. -/
inductive Event where
  | createFileA (path : List Char) (file : Option ℕ) (isDirectory exists_ : Bool) (eax : U32)
  | create (creator : Creator) (name : List Char) (eax : U32)
  | closeHandle (arg_hObject : U32)
  | elsewhere (handle : U32)
  deriving DecidableEq

def Step (build : Build) (s : State) : Event→State→Prop
  | .createFileA path file isDirectory exists_ eax,t =>
    (∀stream,file=some stream→stream∉s.opened) ∧ HandleClosing.createFileA build s path file
      isDirectory exists_=.ok (eax,t)
  | .create creator name eax,t => s.createHandle ⟨creator.type,name,none⟩=.ok (eax,t)
  | .closeHandle arg_hObject,t => HandleClosing.closeHandle build s arg_hObject=.ok t
  | .elsewhere handle,t => t={ s with handle := handle }

/-- `CloseHandle` does its work: on a live handle it closes the file behind it, if there is one, and
frees the handle; on anything else it returns and does nothing. -/
def Closes (build : Build) (s : State) (handle : U32) : Prop :=
  ∃t,closeHandle build s handle=.ok t ∧
    (∀details,handleDetails s.handles handle=some details→
      t.closed=s.closed++details.file.toList ∧ t.handles=freeHandle s.handles handle) ∧
    (handleDetails s.handles handle=none→t.closed=s.closed ∧ t.handles=s.handles)

section Invariant

/-- The files behind the handles are open, each behind one handle; no stream is closed twice. -/
structure Kept (s : State) : Prop where
  open_ : ∀handle details file,s.handles handle=some details→details.file=some file→
    file∈s.opened ∧ file∉s.closed
  injective : ∀handle handle' details details' file,s.handles handle=some details→s.handles handle'=
    some details'→
    details.file=some file→details'.file=some file→handle=handle'
  type : ∀handle details,s.handles handle=some details→(details.type=.File ↔ details.file.isSome)
  subset : s.closed⊆s.opened
  nodup : s.closed.Nodup

variable {build : Build} {s t : State} {handle : U32} {details : Details}

theorem createHandle_eq_ok (h : s.createHandle details=.ok (handle,t)) :
    s.handles handle=none ∧ t={ s with handles := setObject s.handles details handle,handle :=
      handle } := by
  obtain ⟨⟨number,handles⟩,hcreate,hrest⟩ := bind_eq_ok.mp h
  cases hrest
  obtain ⟨hnone,rfl⟩ := createHandleType_eq_ok hcreate
  exact ⟨hnone,rfl⟩

theorem setObject_cases {handles : Handles Details} {number : U32} {details' : Details}
    (h : setObject handles details handle number=some details') :
    (number=handle ∧ details'=details) ∨ (number≠handle ∧ handles number=some details') := by
  unfold setObject at h
  split at h
  · next heq =>
    cases h
    exact .inl ⟨heq,rfl⟩
  · next hne => exact .inr ⟨hne,h⟩

theorem freeHandle_cases {handles : Handles Details} {number : U32} {details' : Details}
    (h : freeHandle handles handle number=some details') :
    number≠handle ∧ handles number=some details' := by
  unfold freeHandle at h
  split at h
  · cases h
  · next hne => exact ⟨hne,h⟩

theorem Kept.start (handle : U32) : Kept (start handle) where
  open_ _ _ _ h := by cases h
  injective _ _ _ _ _ h := by cases h
  type _ _ h := by cases h
  subset := List.Subset.refl _
  nodup := List.nodup_nil

/-- A handle is created for an open stream that no other handle has, or for none. -/
theorem Kept.create (h : Kept s) (details : Details)
    (htype : details.type=.File ↔ details.file.isSome) (hfile : ∀file,details.file=some file→
      file∈s.opened ∧ file∉s.closed ∧
      ∀handle' details',s.handles handle'=some details'→details'.file≠some file) :
    Kept { s with handles := setObject s.handles details handle,handle := handle } where
  open_ number details' file hentry hf := by
    rcases setObject_cases hentry with ⟨_,rfl⟩ | ⟨_,hold⟩
    · obtain ⟨hopened,hclosed,_⟩ := hfile file hf
      exact ⟨hopened,hclosed⟩
    · exact h.open_ number details' file hold hf
  injective number number' details₁ details₂ file hentry hentry' hf hf' := by
    rcases setObject_cases hentry with ⟨hn,rfl⟩ | ⟨_,hold⟩
    · rcases setObject_cases hentry' with ⟨hn',_⟩ | ⟨_,hold'⟩
      · exact hn.trans hn'.symm
      · exact absurd hf' ((hfile file hf).2.2 _ _ hold')
    · rcases setObject_cases hentry' with ⟨_,rfl⟩ | ⟨_,hold'⟩
      · exact absurd hf ((hfile file hf').2.2 _ _ hold)
      · exact h.injective _ _ _ _ file hold hold' hf hf'
  type number details' hentry := by
    rcases setObject_cases hentry with ⟨_,rfl⟩ | ⟨_,hold⟩
    · exact htype
    · exact h.type number details' hold
  subset := h.subset
  nodup := h.nodup

theorem Kept.opened (h : Kept s) (streams : List ℕ) :
    Kept { s with opened := s.opened++streams } where
  open_ number details file hentry hf :=
    ⟨List.mem_append_left _ (h.open_ number details file hentry hf).1,
      (h.open_ number details file hentry hf).2⟩
  injective := h.injective
  type := h.type
  subset := fun _ hmem => List.mem_append_left _ (h.subset hmem)
  nodup := h.nodup

/-- `CloseHandle` returns exactly for a live handle; then it has closed the file behind it. -/
theorem Kept.closeHandle_iff (h : Kept s) : closeHandle build s handle=.ok t ↔
    ∃details,s.handles handle=some details ∧
      t={ s with handles := freeHandle s.handles handle,closed :=
        s.closed++details.file.toList } := by
  rw [closeHandle,handleDetails]
  cases hentry : s.handles handle with
  | none =>
    have hstop : ∃stop,closeObject build s none=.error stop := by
      cases build with
      | debug => exact ⟨.assertion,rfl⟩
      | release => exact ⟨.undefinedBehaviour,rfl⟩
    obtain ⟨stop,hstop⟩ := hstop
    rw [hstop]
    simp
  | some details =>
    have hobject : closeObject build s (some details)=
      .ok { s with closed := s.closed++details.file.toList } := by
      have htype := h.type handle details hentry
      cases hfile : details.file with
      | none =>
        have hother : details.type≠.File := fun he => by
          have hsome := htype.mp he
          rw [hfile] at hsome
          cases hsome
        rw [closeObject,Option.map_some,Option.getD_some,if_neg hother]
        simp
      | some file =>
        have hopen := (h.open_ handle details file hentry hfile).2
        rw [closeObject,Option.map_some,Option.getD_some,if_pos (htype.mpr (by rw [hfile]; rfl)),
          Option.bind_some,hfile]
        simp only [Option.isSome_some,assertThat_true,ok_bind,fclose,if_neg hopen]
        rfl
    rw [hobject,ok_bind]
    simp [eq_comm]

theorem Kept.close (h : Kept s) (hentry : s.handles handle=some details) :
    Kept { s with handles := freeHandle s.handles handle,closed :=
      s.closed++details.file.toList } where
  open_ number details' file hlive hf := by
    obtain ⟨hne,hold⟩ := freeHandle_cases hlive
    obtain ⟨hopened,hclosed⟩ := h.open_ number details' file hold hf
    refine ⟨hopened,?_⟩
    rw [List.mem_append]
    rintro (hmem | hmem)
    · exact hclosed hmem
    · exact hne (h.injective _ _ _ _ file hold hentry hf (Option.mem_toList.mp hmem))
  injective number number' details₁ details₂ file hlive hlive' hf hf' :=
    h.injective _ _ _ _ file (freeHandle_cases hlive).2 (freeHandle_cases hlive').2 hf hf'
  type number details' hlive := h.type number details' (freeHandle_cases hlive).2
  subset file hmem := by
    rcases List.mem_append.mp hmem with hold | hnew
    · exact h.subset hold
    · exact (h.open_ handle details file hentry (Option.mem_toList.mp hnew)).1
  nodup := by
    cases hfile : details.file with
    | none => simpa using h.nodup
    | some file =>
      have hopen := (h.open_ handle details file hentry hfile).2
      exact List.nodup_append.mpr ⟨h.nodup,List.nodup_singleton _,by
        rintro a ha b hb rfl
        exact hopen (List.mem_singleton.mp hb ▸ ha)⟩

end Invariant

section Steps
variable {build : Build} {s t : State} {handle : U32} {details : Details} {event : Event}

/-- `fe_CreateFileA` creates a handle for the stream, or only leaves the stream open. -/
theorem createFileA_eq_ok {path : List Char} {file : Option ℕ} {isDirectory exists_ : Bool}
    {eax : U32} (h : createFileA build s path file isDirectory exists_=.ok (eax,t)) :
    (file.isSome ∧ ¬isDirectory ∧ exists_) ∧ s.handles eax=none ∧
        t={ s with handles := setObject s.handles ⟨.File,path,file⟩ eax,handle := eax,opened :=
          s.opened++file.toList } ∨
      ¬(file.isSome ∧ ¬isDirectory ∧ exists_) ∧ t={ s with opened := s.opened++file.toList } := by
  unfold createFileA at h
  split at h
  · next hc =>
    obtain ⟨hnone,rfl⟩ := createHandle_eq_ok h
    exact .inl ⟨hc,hnone,rfl⟩
  · next hc =>
    obtain ⟨_,_,hrest⟩ := bind_eq_ok.mp h
    cases hrest
    exact .inr ⟨hc,rfl⟩

theorem Kept.step (h : Kept s) (hstep : Step build s event t) : Kept t := by
  cases event with
  | createFileA path file isDirectory exists_ eax =>
    obtain ⟨hfresh,hcreate⟩ := hstep
    rcases createFileA_eq_ok hcreate with ⟨⟨hsome,_⟩,_,rfl⟩ | ⟨_,rfl⟩
    · have hfile : ∀stream,file=some stream→stream∈s.opened++file.toList ∧ stream∉s.closed ∧
          ∀handle' details',s.handles handle'=some details'→details'.file≠some stream := by
        intro stream heq
        refine ⟨List.mem_append_right _ (Option.mem_toList.mpr heq),fun hmem => hfresh stream heq
          (h.subset hmem),?_⟩
        intro handle' details' hentry hf
        exact hfresh stream heq (h.open_ handle' details' stream hentry hf).1
      exact (h.opened file.toList).create ⟨.File,path,file⟩ (iff_of_true rfl hsome) hfile
    · exact h.opened file.toList
  | create creator name eax =>
    obtain ⟨_,rfl⟩ := createHandle_eq_ok hstep
    have htype : creator.type≠.File := by cases creator <;> decide
    exact h.create ⟨creator.type,name,none⟩ (iff_of_false htype (by simp)) fun file heq =>
      by cases heq
  | closeHandle arg_hObject =>
    obtain ⟨details,hentry,rfl⟩ := h.closeHandle_iff.mp hstep
    exact h.close hentry
  | elsewhere handle =>
    cases hstep
    exact ⟨h.open_,h.injective,h.type,h.subset,h.nodup⟩

/-- A live entry stays until its handle is closed, which closes the file behind it. -/
theorem Kept.step_live (h : Kept s) (hstep : Step build s event t)
    (hentry : s.handles handle=some details) :
    (event=.closeHandle handle ∧ t.closed=s.closed++details.file.toList) ∨
      (event≠.closeHandle handle ∧ t.handles handle=some details) := by
  have hkeep : ∀{number : U32} (details' : Details),s.handles number=none→
      setObject s.handles details' number handle=some details := by
    intro number details' hnone
    have hne : handle≠number := by
      rintro rfl
      rw [hnone] at hentry
      cases hentry
    rw [setObject,if_neg hne,hentry]
  cases event with
  | createFileA path file isDirectory exists_ eax =>
    refine .inr ⟨by simp,?_⟩
    rcases createFileA_eq_ok hstep.2 with ⟨_,hnone,rfl⟩ | ⟨_,rfl⟩
    · exact hkeep _ hnone
    · exact hentry
  | create creator name eax =>
    obtain ⟨hnone,rfl⟩ := createHandle_eq_ok hstep
    exact .inr ⟨by simp,hkeep _ hnone⟩
  | closeHandle arg_hObject =>
    obtain ⟨details',hentry',rfl⟩ := h.closeHandle_iff.mp hstep
    by_cases heq : arg_hObject=handle
    · subst heq
      cases hentry.symm.trans hentry'
      exact .inl ⟨rfl,rfl⟩
    · refine .inr ⟨by simpa using heq,?_⟩
      exact (if_neg (Ne.symm heq)).trans hentry
  | elsewhere number =>
    cases hstep
    exact .inr ⟨by simp,hentry⟩

theorem Kept.step_closed (h : Kept s) (hstep : Step build s event t) : s.closed⊆t.closed := by
  cases event with
  | createFileA path file isDirectory exists_ eax =>
    rcases createFileA_eq_ok hstep.2 with ⟨_,_,rfl⟩ | ⟨_,rfl⟩ <;> exact List.Subset.refl _
  | create creator name eax =>
    obtain ⟨_,rfl⟩ := createHandle_eq_ok hstep
    exact List.Subset.refl _
  | closeHandle arg_hObject =>
    obtain ⟨_,_,rfl⟩ := h.closeHandle_iff.mp hstep
    exact List.subset_append_left _ _
  | elsewhere number =>
    cases hstep
    exact List.Subset.refl _

end Steps

section Runs
variable {build : Build} {counter : U32} {events : List Event} {s : State}

/-- A file that was opened behind a handle is closed, or still behind it, according to whether the
handle has been closed since. -/
def Accounted (events : List Event) (s : State) : Prop := ∀before path file handle after,
  events=before++.createFileA path (some file) false true handle::after→
    if .closeHandle handle∈after then file∈s.closed else s.handles handle=
      some ⟨.File,path,some file⟩

theorem kept_accounted (h : Runs (Step build) (start counter) events s) :
    Kept s ∧ Accounted events s := by
  refine h.history (I:=fun events s => Kept s ∧ Accounted events s) ⟨.start counter,?_⟩ ?_
  · intro before path file handle after heq
    simp at heq
  · rintro events s event t ⟨hkept,haccounted⟩ hstep
    refine ⟨hkept.step hstep,?_⟩
    intro before path file handle after heq
    rcases List.eq_nil_or_concat after with rfl | ⟨after,last,rfl⟩
    · -- the file has just been opened
      obtain ⟨rfl,hevent⟩ := List.append_inj' heq rfl
      cases hevent
      rw [if_neg (by simp)]
      rcases createFileA_eq_ok hstep.2 with ⟨_,_,rfl⟩ | ⟨hnot,_⟩
      · exact if_pos rfl
      · exact absurd (by simp) hnot
    · rw [List.concat_eq_append,←List.cons_append,←List.append_assoc] at heq
      obtain ⟨rfl,hlast⟩ := List.append_inj' heq rfl
      cases hlast
      have hbefore := haccounted before path file handle after rfl
      by_cases hclosed : .closeHandle handle∈after
      · rw [if_pos hclosed] at hbefore
        rw [if_pos (by simp [hclosed])]
        exact hkept.step_closed hstep hbefore
      · rw [if_neg hclosed] at hbefore
        rcases hkept.step_live hstep hbefore with ⟨rfl,hnow⟩ | ⟨hne,hlive⟩
        · rw [if_pos (by simp),hnow]
          simp
        · rw [if_neg (by simp [hclosed,Ne.symm hne])]
          exact hlive

/-- The invariant holds throughout, and so `CloseHandle` does its work exactly on the live
handles. -/
theorem Kept.closes_iff (h : Kept s) (handle : U32) : Closes build s handle ↔
    (handleDetails s.handles handle).isSome := by
  constructor
  · rintro ⟨t,hclose,_⟩
    obtain ⟨details,hentry,_⟩ := h.closeHandle_iff.mp hclose
    rw [handleDetails,hentry]
    rfl
  · intro hlive
    obtain ⟨details,hentry⟩ := Option.isSome_iff_exists.mp hlive
    refine ⟨_,h.closeHandle_iff.mpr ⟨details,hentry,rfl⟩,?_,?_⟩
    · intro details' hentry'
      cases hentry.symm.trans hentry'
      exact ⟨rfl,rfl⟩
    · intro hnone
      cases hentry.symm.trans hnone

end Runs

/-- In every run of calls that return, a file opened behind a handle has been closed once if
`CloseHandle` was called on the handle since, and not at all otherwise; and `CloseHandle` does its
work exactly on the live handles. -/
theorem closeHandle_closes_once {build : Build} {counter : U32} {events : List Event} {s : State}
    (h : Runs (Step build) (start counter) events s) :
    (∀before path file handle after,events=before++.createFileA path (some file) false true
      handle::after→
      s.closed.count file=if .closeHandle handle∈after then 1 else 0) ∧
    ∀handle,Closes build s handle ↔ (handleDetails s.handles handle).isSome := by
  obtain ⟨hkept,haccounted⟩ := kept_accounted h
  refine ⟨?_,hkept.closes_iff⟩
  intro before path file handle after heq
  have hbehind := haccounted before path file handle after heq
  rw [hkept.nodup.count]
  by_cases hclosed : .closeHandle handle∈after
  · rw [if_pos hclosed] at hbehind ⊢
    exact if_pos hbehind
  · rw [if_neg hclosed] at hbehind ⊢
    exact if_neg (hkept.open_ handle _ file hbehind rfl).2

/-- The stream number 7 is opened behind the first handle, which is closed. -/
theorem closeHandle_closes_once_here : ∃s,
    Runs (Step .debug) (start 0xeeeee) [.createFileA [] (some 7) false true 0xeeeee,
      .closeHandle 0xeeeee] s ∧
      s.closed.count 7=1 ∧ ¬Closes .debug s 0xeeeee := by
  let s₁ : State := ⟨setObject (fun _ => none) ⟨.File,[],some 7⟩ 0xeeeee,0xeeeee,[7],[]⟩
  let s₂ : State := ⟨freeHandle s₁.handles 0xeeeee,0xeeeee,[7],[7]⟩
  have hcreate : Step .debug (start 0xeeeee) (.createFileA [] (some 7) false true 0xeeeee) s₁ := by
    refine ⟨fun stream _ => List.not_mem_nil,?_⟩
    rw [createFileA,if_pos ⟨rfl,by simp,rfl⟩,State.createHandle,createHandleType_here rfl]
    rfl
  have hclose : Step .debug s₁ (.closeHandle 0xeeeee) s₂ := by
    rw [Step,closeHandle]
    rfl
  have hrun := (Runs.start.next hcreate).next hclose
  obtain ⟨hcount,hcloses⟩ := closeHandle_closes_once hrun
  refine ⟨s₂,hrun,?_,?_⟩
  · rw [hcount [] [] 7 0xeeeee [.closeHandle 0xeeeee] rfl]
    simp
  · rw [hcloses]
    decide

/-- `CloseHandle(-1)`: the missing entry has the type 0 of a file, and no stream. -/
theorem closeHandle_invalid : ¬Closes .debug (start 0xeeeee) 0xffffffff ∧
    ¬Closes .release (start 0xeeeee) 0xffffffff := by
  constructor
  · rintro ⟨t,hclose,_⟩
    cases hclose
  · rintro ⟨t,hclose,_⟩
    cases hclose

end FalloutEmu.HandleClosing
