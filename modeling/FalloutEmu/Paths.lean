import FalloutEmu.ComponentPath
import FalloutEmu.Host

/-! # The host paths of the file calls -/
namespace FalloutEmu.Paths
open ComponentPath

abbrev NSString := List Char
abbrev HostPath := ComponentPath Char

def fe_win_disk (self : NSString) : Option NSString :=
  match self with
  | c :: ':' :: '\\' :: _ => if c.toUpper.isAlpha then some [c.toUpper] else none
  | _ => none

def replaceBackslashes (self : NSString) : NSString := self.map fun c => if c = '\\' then '/' else c

def fe_win_convertToRealPath (self diskPath : NSString)
    (currentPath : Option HostPath) : HostPath :=
  match fe_win_disk self with
  | some _ => ((self.drop 3).splitOn '\\').foldl (append '/') (ofString '/' diskPath)
  | none =>
    match currentPath with
    | some currentPath => currentPath.append '/' (replaceBackslashes self)
    | none => ofString '/' (replaceBackslashes self)

structure ProcessPaths where
  path : NSString
  diskCPath : NSString
  deriving DecidableEq

namespace ProcessPaths

def currentRealPath (process : ProcessPaths) : HostPath :=
  (fe_win_convertToRealPath process.path process.diskCPath none).deletingLast

/-- `[process.path stringByDeletingLastPathComponent]`, a function of the host's separator. -/
def hostDirectory (process : ProcessPaths) : HostPath := (ofString '/' process.path).deletingLast

/-- What `fe_win_convertToRealPathWithDiskAtPath:currentPath:` makes of a guest path. -/
def resolved (process : ProcessPaths) (fileName : NSString) : HostPath :=
  fe_win_convertToRealPath fileName process.diskCPath (some process.currentRealPath)

end ProcessPaths

/-- The calls that name a file, with the arguments that they assert. -/
inductive FileCall where
  | CreateFileA (fileName : NSString)
    (shareMode securityAttributes flagsAndAttributes templateFile : U32)
  | GetFileAttributesA (fileName : NSString)
  | CreateDirectoryA (pathName : NSString) (securityAttributes : U32)
  | DeleteFileA (fileName : NSString)
  deriving DecidableEq

namespace FileCall

def fileName : FileCall→NSString
  | .CreateFileA fileName _ _ _ _ => fileName
  | .GetFileAttributesA fileName => fileName
  | .CreateDirectoryA pathName _ => pathName
  | .DeleteFileA fileName => fileName

/-- The arguments besides the name are those that the assertions let through. -/
def OtherArguments : FileCall→Prop
  | .CreateFileA _ shareMode securityAttributes flagsAndAttributes templateFile =>
    shareMode=3 ∧ securityAttributes=0 ∧ flagsAndAttributes=0x80 ∧ templateFile=0
  | .CreateDirectoryA _ securityAttributes => securityAttributes=0
  | _ => True

def patch000 : NSString := ['p','a','t','c','h','0','0','0','.','d','a','t']

/-- What a call does with the host path that it makes of its name. -/
inductive PathUse where
  /-- The host's file system is asked for the path. -/
  | reaches (path : HostPath)
  /-- The path is printed, and the attributes are answered without a look at the file. -/
  | logs (path : HostPath) (attributes : U32)
  deriving DecidableEq

def path (build : Build) (process : ProcessPaths) : FileCall→Except Stop PathUse
  | .CreateFileA fileName shareMode securityAttributes flagsAndAttributes templateFile => do
    assertThat build (shareMode=3)
    assertThat build (securityAttributes=0)
    assertThat build (flagsAndAttributes=0x80)
    assertThat build (templateFile=0)
    return .reaches (fe_win_convertToRealPath fileName process.diskCPath
      (some process.currentRealPath))
  | .GetFileAttributesA fileName => do
    assertThat build (fileName=patch000)
    let path := fe_win_convertToRealPath fileName process.diskCPath (some process.currentRealPath)
    return .logs path (if fileName=patch000 then 0x20 else 0x80)
  | .CreateDirectoryA pathName securityAttributes => do
    let dirPath := fe_win_convertToRealPath pathName process.diskCPath
      (some process.currentRealPath)
    assertThat build (securityAttributes=0)
    return .reaches dirPath
  | .DeleteFileA fileName => return .reaches (process.hostDirectory.append '/' fileName)

/-- A call that reaches the file system with the given name does so at the path of the
conversion. -/
def OneResolution (build : Build) (process : ProcessPaths) (fileName : NSString) : Prop :=
  ∀call : FileCall,call.fileName=fileName →
    ∀p,call.path build process=.ok (.reaches p) → p=process.resolved fileName

/-- The calls that open, create and remove a file of the name reach the file system, at the path of
the conversion. -/
def AllResolve (build : Build) (process : ProcessPaths) (fileName : NSString) : Prop :=
  ∀call : FileCall,call.fileName=fileName → call.OtherArguments →
    call≠.GetFileAttributesA fileName →
    call.path build process=.ok (.reaches (process.resolved fileName))

theorem path_of_otherArguments {build : Build} (process : ProcessPaths) {call : FileCall}
    (hother : call.OtherArguments) (hdelete : ∀fileName,call≠.DeleteFileA fileName)
    (hattributes : ∀fileName,call≠.GetFileAttributesA fileName) :
    call.path build process=.ok (.reaches (process.resolved call.fileName)) := by
  cases call with
  | CreateFileA fileName shareMode securityAttributes flagsAndAttributes templateFile =>
    obtain ⟨rfl,rfl,rfl,rfl⟩ := hother
    simp [path,ProcessPaths.resolved,FileCall.fileName]
  | GetFileAttributesA fileName => exact absurd rfl (hattributes fileName)
  | CreateDirectoryA pathName securityAttributes =>
    obtain rfl := hother
    simp [path,ProcessPaths.resolved,FileCall.fileName]
  | DeleteFileA fileName => exact absurd rfl (hdelete fileName)

/-- `GetFileAttributesA` leaves the file system alone: it prints the converted path and answers a
constant. -/
theorem getFileAttributesA_logs (build : Build) (process : ProcessPaths) {fileName : NSString}
    (hname : build=.debug → fileName=patch000) :
    (FileCall.GetFileAttributesA fileName).path build process=
      .ok (.logs (process.resolved fileName) (if fileName=patch000 then 0x20 else 0x80)) := by
  cases build with
  | debug =>
    obtain rfl := hname rfl
    simp [path,ProcessPaths.resolved]
  | release => rfl

theorem getFileAttributesA_stops (process : ProcessPaths) {fileName : NSString}
    (hname : fileName≠patch000) :
    (FileCall.GetFileAttributesA fileName).path .debug process=.error .assertion := by
  rw [path,decide_eq_false hname]
  rfl

theorem getFileAttributesA_path (build : Build) (process : ProcessPaths) (fileName : NSString)
    (p : HostPath) :
    (FileCall.GetFileAttributesA fileName).path build process≠.ok (.reaches p) := by
  by_cases hname : build=.debug → fileName=patch000
  · rw [getFileAttributesA_logs build process hname]
    simp
  · obtain ⟨rfl,hother⟩ := Classical.not_imp.mp hname
    rw [getFileAttributesA_stops process hother]
    simp

/-- The other calls but `DeleteFileA` convert whatever passes their assertions. -/
theorem eq_resolved_of_path {build : Build} {process : ProcessPaths} {call : FileCall}
    {p : HostPath} (hpath : call.path build process=.ok (.reaches p))
    (hdelete : ∀fileName,call≠.DeleteFileA fileName) :
    p=process.resolved call.fileName := by
  cases call with
  | CreateFileA fileName shareMode securityAttributes flagsAndAttributes templateFile =>
    obtain ⟨_,_,h₁⟩ := bind_eq_ok.mp hpath
    obtain ⟨_,_,h₂⟩ := bind_eq_ok.mp h₁
    obtain ⟨_,_,h₃⟩ := bind_eq_ok.mp h₂
    obtain ⟨_,_,h₄⟩ := bind_eq_ok.mp h₃
    exact (PathUse.reaches.inj (Except.ok.inj h₄)).symm
  | GetFileAttributesA fileName =>
    exact absurd hpath (getFileAttributesA_path build process fileName p)
  | CreateDirectoryA pathName securityAttributes =>
    obtain ⟨_,_,h⟩ := bind_eq_ok.mp hpath
    exact (PathUse.reaches.inj (Except.ok.inj h)).symm
  | DeleteFileA fileName => exact absurd rfl (hdelete fileName)

theorem oneResolution_iff (build : Build) (process : ProcessPaths) (fileName : NSString) :
    OneResolution build process fileName ↔
      process.hostDirectory.append '/' fileName=process.resolved fileName := by
  constructor
  · intro h
    exact h (.DeleteFileA fileName) rfl _ rfl
  · intro h call hname p hpath
    by_cases hdelete : ∃name,call=.DeleteFileA name
    · obtain ⟨name,rfl⟩ := hdelete
      obtain rfl : name=fileName := hname
      rw [←h]
      exact (PathUse.reaches.inj (Except.ok.inj hpath)).symm
    · rw [←hname]
      exact eq_resolved_of_path hpath fun name hcall => hdelete ⟨name,hcall⟩

theorem allResolve_iff (build : Build) (process : ProcessPaths) (fileName : NSString) :
    AllResolve build process fileName ↔ OneResolution build process fileName := by
  rw [oneResolution_iff]
  constructor
  · intro h
    exact PathUse.reaches.inj (Except.ok.inj (h (.DeleteFileA fileName) rfl trivial nofun))
  · intro h call hname hother hattributes
    by_cases hdelete : ∃name,call=.DeleteFileA name
    · obtain ⟨name,rfl⟩ := hdelete
      obtain rfl : name=fileName := hname
      rw [←h]
      rfl
    · rw [←hname]
      apply path_of_otherArguments process hother fun name hcall => hdelete ⟨name,hcall⟩
      rintro name rfl
      exact hattributes (congrArg FileCall.GetFileAttributesA hname)

end FileCall

/-! ## The conversion -/

def Converted (p : HostPath) : Prop := ∀part∈p.components,'\\'∉part

theorem converted_ofString {s : NSString} (hs : '\\'∉s) : Converted (ofString '/' s) :=
  fun _ hpart hmem => hs (mem_of_mem_parts hpart _ hmem).1

theorem Converted.append {p : HostPath} (hp : Converted p) {s : NSString} (hs : '\\'∉s) :
    Converted (p.append '/' s) := by
  intro part hpart
  rw [components_append,List.mem_append] at hpart
  rcases hpart with hpart | hpart
  · exact hp part hpart
  · exact converted_ofString hs part hpart

theorem Converted.foldl {p : HostPath} (hp : Converted p) {ss : List NSString}
    (hss : ∀s∈ss,'\\'∉s) :
    Converted (ss.foldl (ComponentPath.append '/') p) := by
  induction ss generalizing p with
  | nil => exact hp
  | cons s ss ih =>
    exact ih (hp.append (hss s List.mem_cons_self))
      fun s' hs' => hss s' (List.mem_cons_of_mem _ hs')

theorem Converted.deletingLast {p : HostPath} (hp : Converted p) : Converted p.deletingLast :=
  fun part hpart => hp part (List.dropLast_subset _ hpart)

theorem not_mem_replaceBackslashes (s : NSString) : '\\'∉replaceBackslashes s := by
  intro hmem
  obtain ⟨c,_,hc⟩ := List.mem_map.mp hmem
  split at hc
  case isTrue => exact absurd hc (by decide)
  case isFalse hne => exact hne hc

theorem replaceBackslashes_eq_self {s : NSString} (hs : '\\'∉s) : replaceBackslashes s=s := by
  have hid : ∀c∈s,(if c = '\\' then '/' else c)=id c := by
    intro c hc
    rw [if_neg]
    · rfl
    · rintro rfl
      exact hs hc
  rw [replaceBackslashes,List.map_congr_left hid,List.map_id]

theorem fe_win_disk_eq_none {s : NSString} (hs : '\\'∉s) : fe_win_disk s=none := by
  unfold fe_win_disk
  split
  · simp at hs
  · rfl

theorem converted_convert (self : NSString) {diskPath : NSString} {currentPath : Option HostPath}
    (hdisk : '\\'∉diskPath) (hcurrent : ∀p,currentPath=some p → Converted p) :
    Converted (fe_win_convertToRealPath self diskPath currentPath) := by
  unfold fe_win_convertToRealPath
  split
  · apply (converted_ofString hdisk).foldl
    intro s hs hmem
    exact (mem_of_mem_splitOn hs _ hmem).2 rfl
  · split
    · exact (hcurrent _ rfl).append (not_mem_replaceBackslashes self)
    · exact converted_ofString (not_mem_replaceBackslashes self)

theorem converted_currentRealPath {process : ProcessPaths} (hdisk : '\\'∉process.diskCPath) :
    Converted process.currentRealPath :=
  (converted_convert process.path hdisk (by simp)).deletingLast

theorem converted_resolved {process : ProcessPaths} (hdisk : '\\'∉process.diskCPath)
    (fileName : NSString) :
    Converted (process.resolved fileName) := by
  apply converted_convert fileName hdisk
  rintro p ⟨⟩
  exact converted_currentRealPath hdisk

/-- A name without backslashes is taken from the current directory. -/
theorem resolved_of_not_mem (process : ProcessPaths) {fileName : NSString} (hname : '\\'∉fileName) :
    process.resolved fileName=process.currentRealPath.append '/' fileName := by
  rw [ProcessPaths.resolved,fe_win_convertToRealPath,fe_win_disk_eq_none hname]
  simp only
  rw [replaceBackslashes_eq_self hname]

/-- The host's functions find the executable's directory where the conversion does, or both find a
root from which an absolute name leads away. -/
def SameDirectory (process : ProcessPaths) (fileName : NSString) : Prop :=
  process.hostDirectory=process.currentRealPath ∨
    (process.hostDirectory.components=[] ∧ process.currentRealPath.components=[] ∧
      fileName.head?=some '/')

/-- The path of `DeleteFileA` is that of the conversion exactly for names without backslashes that
both take from the same directory. -/
theorem append_eq_resolved_iff {process : ProcessPaths} (hdisk : '\\'∉process.diskCPath)
    (fileName : NSString) :
    process.hostDirectory.append '/' fileName=process.resolved fileName ↔
      '\\'∉fileName ∧ SameDirectory process fileName := by
  constructor
  · intro h
    have hname : '\\'∉fileName := by
      intro hmem
      obtain ⟨part,hpart,hbackslash⟩ : ∃part∈parts '/' fileName,'\\'∈part :=
        exists_part hmem (by decide)
      have hconverted := converted_resolved hdisk fileName
      rw [←h] at hconverted
      refine hconverted part ?_ hbackslash
      rw [components_append]
      exact List.mem_append_right _ hpart
    rw [resolved_of_not_mem process hname] at h
    exact ⟨hname,(append_eq_append_iff _ _ _).mp h⟩
  · rintro ⟨hname,hsame⟩
    rw [resolved_of_not_mem process hname]
    exact (append_eq_append_iff _ _ _).mpr hsame

/-! ## Drive-absolute and relative names -/

/-- A component of a guest path: a name without separators and drive colons. -/
structure Plain (c : NSString) : Prop where
  nonempty : c≠[]
  backslash : '\\'∉c
  slash : '/'∉c
  colon : ':'∉c

def joined (cs : List NSString) : NSString := ['\\'].intercalate cs

def onDrive (letter : Char) (cs : List NSString) : NSString := letter :: ':' :: '\\' :: joined cs

theorem parts_plain {c : NSString} (h : Plain c) : parts '/' c=[c] :=
  parts_singleton h.nonempty h.slash

theorem flatMap_parts_plain {cs : List NSString} (h : ∀c∈cs,Plain c) :
    cs.flatMap (parts '/')=cs := by
  induction cs with
  | nil => rfl
  | cons c cs ih =>
    rw [List.flatMap_cons,parts_plain (h c List.mem_cons_self),
      ih fun c' hc' => h c' (List.mem_cons_of_mem _ hc')]
    rfl

theorem splitOn_joined {cs : List NSString} (h : ∀c∈cs,Plain c) :
    (joined cs).splitOn '\\'=if cs=[] then [[]] else cs := by
  split
  case isTrue hnone =>
    rw [hnone]
    rfl
  case isFalse hne => exact List.splitOn_intercalate '\\' (fun c hc => (h c hc).backslash) hne

theorem parts_joined {cs : List NSString} (h : ∀c∈cs,Plain c) :
    parts '/' (replaceBackslashes (joined cs))=cs := by
  rw [replaceBackslashes,parts_map,splitOn_joined h]
  split
  case isTrue hnone =>
    rw [hnone]
    rfl
  case isFalse => exact flatMap_parts_plain h

theorem joined_cons (c : NSString) (cs : List NSString) :
    joined (c::cs)=c++if cs=[] then [] else '\\'::joined cs := by
  cases cs with
  | nil => simp [joined]
  | cons c' cs => simp [joined,List.intercalate_cons_cons]

theorem not_mem_joined {cs : List NSString} (h : ∀c∈cs,Plain c) : ':'∉joined cs := by
  induction cs with
  | nil => simp [joined]
  | cons c cs ih =>
    intro hmem
    rw [joined_cons,List.mem_append] at hmem
    rcases hmem with hmem | hmem
    · exact (h c List.mem_cons_self).colon hmem
    · split at hmem
      · cases hmem
      · rcases List.mem_cons.mp hmem with hcolon | hmem
        · exact absurd hcolon (by decide)
        · exact ih (fun c' hc' => h c' (List.mem_cons_of_mem _ hc')) hmem

theorem fe_win_disk_joined {cs : List NSString} (h : ∀c∈cs,Plain c) :
    fe_win_disk (joined cs)=none := by
  unfold fe_win_disk
  split
  case h_1 hjoined =>
    have hcolon := not_mem_joined h
    rw [hjoined] at hcolon
    exact absurd (by simp) hcolon
  case h_2 => rfl

theorem head_joined {cs : List NSString} (h : ∀c∈cs,Plain c) :
    (replaceBackslashes (joined cs)).head?≠some '/' := by
  cases cs with
  | nil => simp [joined,replaceBackslashes]
  | cons c cs =>
    have hplain := h c List.mem_cons_self
    obtain ⟨x,c,rfl⟩ := List.exists_cons_of_ne_nil hplain.nonempty
    have hbackslash : x ≠ '\\' := fun hx => hplain.backslash (hx ▸ List.mem_cons_self)
    have hslash : x ≠ '/' := fun hx => hplain.slash (hx ▸ List.mem_cons_self)
    rw [joined_cons,List.cons_append,replaceBackslashes,List.map_cons,if_neg hbackslash,
      List.head?_cons]
    exact fun hx => hslash (Option.some.inj hx)

theorem convert_onDrive {letter : Char} (hletter : letter.toUpper.isAlpha) {cs : List NSString}
    (h : ∀c∈cs,Plain c) (diskPath : NSString) (currentPath : Option HostPath) :
    fe_win_convertToRealPath (onDrive letter cs) diskPath currentPath=
      { ofString '/' diskPath with components := parts '/' diskPath++cs } := by
  have hdisk : fe_win_disk (onDrive letter cs)=some [letter.toUpper] := by
    simp [fe_win_disk,onDrive,hletter]
  have hrest : (onDrive letter cs).drop 3=joined cs := rfl
  unfold fe_win_convertToRealPath
  rw [hdisk]
  simp only
  rw [hrest,splitOn_joined h]
  apply ComponentPath.ext
  · apply absolute_foldl
    intro s hs
    split at hs
    · obtain rfl := List.mem_singleton.mp hs
      simp
    · have hplain := h s hs
      obtain ⟨x,s,rfl⟩ := List.exists_cons_of_ne_nil hplain.nonempty
      exact fun hx => hplain.slash (Option.some.inj hx ▸ List.mem_cons_self)
  · rw [components_foldl]
    split
    case isTrue hnone =>
      rw [hnone]
      rfl
    case isFalse =>
      rw [flatMap_parts_plain h]
      rfl

theorem convert_joined {cs : List NSString} (h : ∀c∈cs,Plain c) (diskPath : NSString)
    (p : HostPath) :
    fe_win_convertToRealPath (joined cs) diskPath (some p)={ p with
      components := p.components++cs } := by
  rw [fe_win_convertToRealPath,fe_win_disk_joined h]
  apply ComponentPath.ext
  · exact absolute_append_of_relative p (head_joined h)
  · exact (components_append p _).trans (congrArg _ (parts_joined h))

/-- A relative name is resolved as the same name behind the executable's directory. -/
theorem resolved_joined {process : ProcessPaths} {letter : Char} (hletter : letter.toUpper.isAlpha)
    {directory : List NSString} (hdirectory : ∀c∈directory,Plain c) {name : NSString}
    (hname : Plain name) (hpath : process.path=onDrive letter (directory++[name]))
    {cs : List NSString} (h : ∀c∈cs,Plain c) :
    process.resolved (joined cs)=process.resolved (onDrive letter (directory++cs)) := by
  have hexecutable : ∀c∈directory++[name],Plain c := by
    intro c hc
    rcases List.mem_append.mp hc with hc | hc
    · exact hdirectory c hc
    · exact List.mem_singleton.mp hc ▸ hname
  have hfull : ∀c∈directory++cs,Plain c := by
    intro c hc
    exact (List.mem_append.mp hc).elim (hdirectory c) (h c)
  rw [ProcessPaths.resolved,convert_joined h,ProcessPaths.resolved,convert_onDrive hletter hfull,
    ProcessPaths.currentRealPath,hpath,convert_onDrive hletter hexecutable]
  simp [deletingLast,←List.append_assoc]

/-- The host's functions never find the directory of an executable on a drive. -/
theorem hostDirectory_ne {process : ProcessPaths} (hdrive : fe_win_disk process.path≠none)
    (habsolute : process.diskCPath.head?=some '/') :
    process.hostDirectory≠process.currentRealPath := by
  intro h
  have hreal : process.currentRealPath.absolute=true := by
    obtain ⟨disk,hdisk⟩ := Option.ne_none_iff_exists'.mp hdrive
    rw [ProcessPaths.currentRealPath,fe_win_convertToRealPath,hdisk]
    exact absolute_foldl_of_absolute (decide_eq_true habsolute) _
  rw [←h] at hreal
  have hhead : process.path.head?=some '/' := of_decide_eq_true hreal
  apply hdrive
  unfold fe_win_disk
  split
  case h_1 c s hpath =>
    rw [hpath] at hhead
    obtain rfl : c = '/' := Option.some.inj hhead
    rfl
  case h_2 => rfl

/-- The file calls of a name that reach the file system act on one path exactly for a name without
backslashes and an executable whose directory the host's functions find; of an executable on a drive
they never do. `GetFileAttributesA` reaches none, and relative names and names behind the
executable's directory are converted alike. -/
theorem file_calls_resolve (build : Build) (process : ProcessPaths) (hdisk : '\\'∉process.diskCPath)
    (fileName : NSString) :
    (FileCall.OneResolution build process fileName ↔ '\\'∉fileName ∧
      SameDirectory process fileName) ∧
    (FileCall.AllResolve build process fileName ↔ '\\'∉fileName ∧ SameDirectory process fileName) ∧
    (fe_win_disk process.path≠none → process.diskCPath.head?=some '/' → fileName.head?≠some '/' →
      ¬FileCall.OneResolution build process fileName) ∧
    ((build=.debug → fileName=FileCall.patch000) →
      (FileCall.GetFileAttributesA fileName).path build process=
        .ok (.logs (process.resolved fileName) (if fileName=FileCall.patch000 then 0x20
          else 0x80))) ∧
    (∀p,(FileCall.GetFileAttributesA fileName).path build process≠.ok (.reaches p)) ∧
    ∀ (letter : Char) (directory : List NSString) (name : NSString) (cs : List NSString),
      letter.toUpper.isAlpha → (∀c∈directory,Plain c) → Plain name → (∀c∈cs,Plain c) →
      process.path=onDrive letter (directory++[name]) →
      process.resolved (joined cs)=process.resolved (onDrive letter (directory++cs)) := by
  have hone : FileCall.OneResolution build process fileName ↔ '\\'∉fileName ∧
    SameDirectory process fileName :=
    (FileCall.oneResolution_iff build process fileName).trans
      (append_eq_resolved_iff hdisk fileName)
  refine ⟨hone,?_,?_,?_,?_,?_⟩
  · rw [FileCall.allResolve_iff,hone]
  · intro hdrive habsolute hrelative h
    rcases (hone.mp h).2 with hsame | ⟨_,_,hroot⟩
    · exact hostDirectory_ne hdrive habsolute hsame
    · exact hrelative hroot
  · exact FileCall.getFileAttributesA_logs build process
  · exact FileCall.getFileAttributesA_path build process fileName
  · intro letter directory name cs hletter hdirectory hname hcs hpath
    exact resolved_joined hletter hdirectory hname hpath hcs

def processInD : ProcessPaths := ⟨onDrive 'C' [['D'],['X','.','E','X','E']],['/','d']⟩

/-- The file that is created in the directory is not the one that is deleted, and nothing looks for
the one whose attributes are asked for. -/
theorem deleteFileA_elsewhere :
    (FileCall.CreateFileA FileCall.patch000 3 0 0x80 0).path .debug processInD=
      .ok (.reaches ⟨true,[['d'],['D'],FileCall.patch000]⟩) ∧
    (FileCall.GetFileAttributesA FileCall.patch000).path .debug processInD=
      .ok (.logs ⟨true,[['d'],['D'],FileCall.patch000]⟩ 0x20) ∧
    (FileCall.CreateDirectoryA FileCall.patch000 0).path .debug processInD=
      .ok (.reaches ⟨true,[['d'],['D'],FileCall.patch000]⟩) ∧
    (FileCall.DeleteFileA FileCall.patch000).path .debug processInD=
      .ok (.reaches ⟨false,[FileCall.patch000]⟩) ∧
    ¬FileCall.AllResolve .debug processInD FileCall.patch000 := by
  refine ⟨rfl,rfl,rfl,rfl,?_⟩
  intro h
  have hdelete := FileCall.PathUse.reaches.inj
    (Except.ok.inj (h (.DeleteFileA FileCall.patch000) rfl trivial nofun))
  exact absurd hdelete (by decide +kernel)

theorem file_calls_resolve_processInD :
    '\\'∉processInD.diskCPath ∧ ¬FileCall.OneResolution .debug processInD FileCall.patch000 ∧
      (FileCall.GetFileAttributesA FileCall.patch000).path .debug processInD=
        .ok (.logs (processInD.resolved FileCall.patch000) 0x20) ∧
      processInD.resolved (joined [FileCall.patch000])=
        processInD.resolved (onDrive 'C' [['D'],FileCall.patch000]) := by
  have hdisk : '\\'∉processInD.diskCPath := by decide +kernel
  obtain ⟨_,_,hnever,hlogs,_,hsame⟩ := file_calls_resolve .debug processInD hdisk FileCall.patch000
  refine ⟨hdisk,hnever (by decide +kernel) rfl (by decide +kernel),hlogs fun _ => rfl,?_⟩
  have hplain (c : NSString) (hc : c=['D'] ∨ c=['X','.','E','X','E'] ∨
    c=FileCall.patch000) : Plain c := by
    rcases hc with rfl | rfl | rfl
    all_goals constructor <;> decide +kernel
  refine hsame 'C' [['D']] ['X','.','E','X','E'] [FileCall.patch000]
    (by decide +kernel) ?_ ?_ ?_ rfl
  · intro c hc
    exact hplain c (.inl (List.mem_singleton.mp hc))
  · exact hplain _ (.inr (.inl rfl))
  · intro c hc
    exact hplain c (.inr (.inr (List.mem_singleton.mp hc)))

end FalloutEmu.Paths
