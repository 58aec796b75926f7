import FalloutEmu.ProcessIsolation
import FalloutEmu.Runs
import Mathlib.Data.List.Perm.Subperm

/-! # The handle table of `FEKernel32DLL` over any history -/
namespace FalloutEmu.HandleTable

abbrev Handles (α : Type) := U32→Option α

section Operations
variable {α : Type} (handles : Handles α)

/-- The loop of `createHandleType:name:payload:`, for at most `n` turns. -/
def freeNumber : ℕ→U32→Option U32
  | 0,_ => none
  | n+1,handle => if (handles handle).isNone then some handle else freeNumber n (handle+1)

def setObject (details : α) (handle : U32) : Handles α :=
  fun number => if number=handle then some details else handles number

/-- `createHandleType:name:payload:`; its loop never ends when every number is taken. -/
def createHandleType (handle : U32) (details : α) : Except Stop (U32×Handles α) :=
  match freeNumber handles (2^32) handle with
  | some handle => .ok (handle,setObject handles details handle)
  | none => .error .undefinedBehaviour

def handleDetails (handle : U32) : Option α := handles handle

def freeHandle (handle : U32) : Handles α :=
  fun number => if number=handle then none else handles number

/-- The block of `handle:withPredicate:` on the keys from here on: `result` and
`interstitialHandle`. -/
def enumerateKeys (predicate : α→Bool) : List U32→Bool×U32→Bool×U32
  | [],found => found
  | key::keys,found =>
    match handles key with
    | none => enumerateKeys predicate keys found
    | some details => if predicate details then (true,key) else enumerateKeys predicate keys (false,
      key)

/-- `handle:withPredicate:` where the dictionary enumerates its keys in this order. -/
def handleWithPredicate (predicate : α→Bool) (order : List U32) : Option U32 :=
  let found := enumerateKeys handles predicate order (false,0)
  if found.1 then some found.2 else none

structure Enumerates (order : List U32) : Prop where
  nodup : order.Nodup
  mem_iff : ∀handle,handle∈order ↔ (handles handle).isSome

end Operations

section Lemmas
variable {α : Type} {handles : Handles α}

theorem freeNumber_none {n : ℕ} {handle m : U32} (h : freeNumber handles n handle=some m) :
    handles m=none := by
  induction n generalizing handle with
  | zero => cases h
  | succ n ih =>
    rw [freeNumber] at h
    split at h
    · next hfree =>
      cases h
      exact Option.isNone_iff_eq_none.mp hfree
    · exact ih h

theorem freeNumber_isSome {n : ℕ} (handle : U32) {i : ℕ} (hi : i < n)
    (hfree : handles (handle+BitVec.ofNat 32 i)=none) : (freeNumber handles n handle).isSome := by
  induction n generalizing handle i with
  | zero => exact absurd hi (Nat.not_lt_zero i)
  | succ n ih =>
    rw [freeNumber]
    split
    · rfl
    · next hlive =>
      cases i with
      | zero =>
        have hzero : handle+BitVec.ofNat 32 0=handle := BitVec.add_zero handle
        rw [hzero] at hfree
        rw [hfree] at hlive
        exact absurd rfl hlive
      | succ i =>
        apply ih (handle+1) (i:=i) (by omega)
        have hnext : handle+1+BitVec.ofNat 32 i=handle+BitVec.ofNat 32 (i+1) := by bv_omega
        rwa [hnext]

theorem createHandleType_eq_ok {handle number : U32} {details : α} {handles' : Handles α}
    (h : createHandleType handles handle details=.ok (number,handles')) :
    handles number=none ∧ handles'=setObject handles details number := by
  unfold createHandleType at h
  split at h
  · next hnumber =>
    cases h
    exact ⟨freeNumber_none hnumber,rfl⟩
  · cases h

theorem createHandleType_of_free {m : U32} (hfree : handles m=none) (handle : U32) (details : α) :
    ∃number,createHandleType handles handle details=.ok (number,setObject handles details number) ∧
    handles number=none := by
  have hsum : handle+BitVec.ofNat 32 (m-handle).toNat=m := by bv_omega
  obtain ⟨number,hnumber⟩ := Option.isSome_iff_exists.mp
    (freeNumber_isSome (n:=2^32) handle (m-handle).isLt (by rwa [hsum]))
  refine ⟨number,?_,freeNumber_none hnumber⟩
  rw [createHandleType,hnumber]

theorem createHandleType_here {handle : U32} (hfree : handles handle=none) (details : α) :
    createHandleType handles handle details=.ok (handle,setObject handles details handle) := by
  have hnumber : freeNumber handles (2^32-1+1) handle=some handle := if_pos (by rw [hfree]; rfl)
  have hsame : 2^32-1+1=2^32 := rfl
  rw [hsame] at hnumber
  rw [createHandleType,hnumber]

/-- Fewer live handles than numbers leave a number free. -/
theorem Enumerates.exists_free {live : List U32} (h : Enumerates handles live)
    (hlive : live.length<2^32) :
    ∃m,handles m=none := by
  by_contra hnot
  push Not at hnot
  let numbers := (List.range (2^32)).map (BitVec.ofNat 32)
  have hnodup : numbers.Nodup := by
    apply List.Nodup.map_on ?_ List.nodup_range
    intro i hi j hj hij
    have heq := congrArg BitVec.toNat hij
    rwa [BitVec.toNat_ofNat,BitVec.toNat_ofNat,Nat.mod_eq_of_lt (List.mem_range.mp hi),
      Nat.mod_eq_of_lt (List.mem_range.mp hj)] at heq
  have hsub : numbers⊆live := fun m _ => (h.mem_iff m).mpr (Option.isSome_iff_ne_none.mpr (hnot m))
  have hle := (List.subperm_of_subset hnodup hsub).length_le
  rw [List.length_map,List.length_range] at hle
  omega

/-- The enumeration ends with the first entry that satisfies the predicate, if there is one. -/
theorem enumerateKeys_spec (handles : Handles α) (predicate : α→Bool) (keys : List U32)
    (found : Bool×U32) (hfound : found.1=false) :
    ((enumerateKeys handles predicate keys found).1 ↔ ∃key∈keys,∃details,handles key=some details ∧
      predicate details) ∧
    ((enumerateKeys handles predicate keys found).1→
      ∃details,handles (enumerateKeys handles predicate keys found).2=some details ∧
      predicate details) := by
  induction keys generalizing found with
  | nil => simp [enumerateKeys,hfound]
  | cons key keys ih =>
    rw [enumerateKeys]
    cases hkey : handles key with
    | none =>
      obtain ⟨hiff,hdetails⟩ := ih found hfound
      refine ⟨?_,hdetails⟩
      simp only [List.exists_mem_cons_iff,hkey,reduceCtorEq,false_and,exists_false,false_or]
      exact hiff
    | some details =>
      by_cases hp : predicate details
      · simp only [hp,if_true]
        exact ⟨iff_of_true trivial ⟨key,List.mem_cons_self,details,hkey,hp⟩,
          fun _ => ⟨details,hkey,hp⟩⟩
      · obtain ⟨hiff,hdetails⟩ := ih (false,key) rfl
        simp only [if_neg hp]
        refine ⟨?_,hdetails⟩
        simp only [List.exists_mem_cons_iff,hkey,Option.some.injEq,exists_eq_left',hp,
          Bool.false_eq_true,false_or]
        exact hiff

end Lemmas

/-- The table without payloads of an emulated process is an instance. -/
theorem createHandleType_eq (handles : ProcessIsolation.Handles) (handle : U32)
    (details : ProcessIsolation.HandleDetails) :
    ProcessIsolation.createHandleType handles handle details=
      createHandleType handles handle details := by
  have hprobe : ∀n handle,ProcessIsolation.freeNumber handles n handle=
    freeNumber handles n handle := by
    intro n
    induction n with
    | zero => intro handle; rfl
    | succ n ih =>
      intro handle
      rw [ProcessIsolation.freeNumber,freeNumber,ih]
      cases handles handle <;> rfl
  rw [ProcessIsolation.createHandleType,createHandleType,hprobe]
  cases freeNumber handles (2^32) handle <;> rfl

section History
variable {α : Type}

/-- The table of a process and the static counter that all tables of the host process share. -/
structure State (α : Type) where
  handles : Handles α
  handle : U32

/-- A call with its answer; the counter moves when another table creates a handle. -/
inductive Event (α : Type) where
  | create (details : α) (handle : U32)
  | free (handle : U32)
  | lookup (handle : U32) (details : Option α)
  | search (predicate : α→Bool) (order : List U32) (handle : Option U32)
  | elsewhere (handle : U32)

def Step (s : State α) : Event α→State α→Prop
  | .create details handle,t => createHandleType s.handles s.handle details=.ok (handle,t.handles) ∧
    t.handle=handle
  | .free handle,t => t=⟨freeHandle s.handles handle,s.handle⟩
  | .lookup handle details,t => handleDetails s.handles handle=details ∧ t=s
  | .search predicate order handle,t =>
    Enumerates s.handles order ∧ handleWithPredicate s.handles predicate order=handle ∧ t=s
  | .elsewhere handle,t => t=⟨s.handles,handle⟩

def Event.apply (handle : U32) (details : Option α) : Event α→Option α
  | create details' handle' => if handle'=handle then some details' else details
  | free handle' => if handle'=handle then none else details
  | lookup _ _ | search _ _ _ | elsewhere _ => details

/-- The details given to the latest creation that returned the handle, if it has not been freed
since. -/
def latest (events : List (Event α)) (handle : U32) : Option α :=
  events.foldl (Event.apply handle) none

theorem latest_snoc (events : List (Event α)) (event : Event α) (handle : U32) :
    latest (events++[event]) handle=event.apply handle (latest events handle) := by
  simp [latest,List.foldl_append]

theorem handles_eq_latest {counter : U32} {events : List (Event α)} {s : State α}
    (h : Runs Step ⟨fun _ => none,counter⟩ events s) (handle : U32) :
    s.handles handle=latest events handle := by
  induction h with
  | start => rfl
  | next _ hstep ih =>
    rename_i s event t _
    rw [latest_snoc,←ih]
    cases event with
    | create details number =>
      obtain ⟨_,hset⟩ := createHandleType_eq_ok hstep.1
      rw [hset]
      simp only [setObject,Event.apply,eq_comm]
    | free number =>
      have ht : t=_ := hstep
      rw [ht]
      simp only [freeHandle,Event.apply,eq_comm]
    | lookup number details => rw [hstep.2,Event.apply]
    | search predicate order number => rw [hstep.2.2,Event.apply]
    | elsewhere number =>
      have ht : t=_ := hstep
      rw [ht,Event.apply]

/-- In every run: with fewer live handles than numbers a creation returns one that is not live and
leaves the others alone; a lookup finds the details of the latest creation; a search succeeds
exactly where a live entry satisfies the predicate, in every order, and returns such an entry. -/
theorem handle_table {counter : U32} {events : List (Event α)} {s : State α}
    (h : Runs Step ⟨fun _ => none,counter⟩ events s) :
    (∀live,Enumerates s.handles live→live.length<2^32→∀details,∃handle handles',
      createHandleType s.handles s.handle details=.ok (handle,handles') ∧
      latest events handle=none ∧
      handles' handle=some details ∧ ∀other,other≠handle→handles' other=s.handles other) ∧
    (∀handle,handleDetails s.handles handle=latest events handle) ∧
    ∀predicate order,Enumerates s.handles order→
      ((handleWithPredicate s.handles predicate order).isSome ↔
        ∃handle details,latest events handle=some details ∧ predicate details) ∧
      ∀handle,handleWithPredicate s.handles predicate order=some handle→
        ∃details,latest events handle=some details ∧ predicate details := by
  have hlatest := handles_eq_latest h
  refine ⟨?_,hlatest,?_⟩
  · intro live henumerates hlive details
    obtain ⟨m,hfree⟩ := henumerates.exists_free hlive
    obtain ⟨handle,hcreate,hnone⟩ := createHandleType_of_free hfree s.handle details
    refine ⟨handle,_,hcreate,(hlatest handle).symm.trans hnone,if_pos rfl,?_⟩
    intro other hne
    exact if_neg hne
  · intro predicate order henumerates
    obtain ⟨hiff,hdetails⟩ := enumerateKeys_spec s.handles predicate order (false,0) rfl
    constructor
    · rw [handleWithPredicate]
      constructor
      · intro hsome
        split at hsome
        · next hfound =>
          obtain ⟨details,hentry,hp⟩ := hdetails hfound
          exact ⟨_,details,(hlatest _).symm.trans hentry,hp⟩
        · cases hsome
      · rintro ⟨handle,details,hentry,hp⟩
        have hlive := (hlatest handle).trans hentry
        have hfound := hiff.mpr ⟨handle,(henumerates.mem_iff handle).mpr (by rw [hlive]; rfl),
          details,hlive,hp⟩
        rw [if_pos hfound]
        rfl
    · intro handle hfound
      rw [handleWithPredicate] at hfound
      split at hfound
      · next hresult =>
        obtain ⟨details,hentry,hp⟩ := hdetails hresult
        cases hfound
        exact ⟨details,(hlatest _).symm.trans hentry,hp⟩
      · cases hfound

end History

/-- A number that is given back and given out again. -/
theorem handle_table_reissued : ∃s : State Bool,
    Runs Step ⟨fun _ => none,0xeeeee⟩ [.create true 0xeeeee,.free 0xeeeee,.create false 0xeeeee] s ∧
      handleDetails s.handles 0xeeeee=some false := by
  let s₁ : State Bool := ⟨setObject (fun _ => none) true 0xeeeee,0xeeeee⟩
  let s₂ : State Bool := ⟨freeHandle s₁.handles 0xeeeee,0xeeeee⟩
  let s₃ : State Bool := ⟨setObject s₂.handles false 0xeeeee,0xeeeee⟩
  have hfirst : Step ⟨fun _ => none,0xeeeee⟩ (.create true 0xeeeee) s₁ :=
    ⟨createHandleType_here rfl _,rfl⟩
  have hthird : Step s₂ (.create false 0xeeeee) s₃ := ⟨createHandleType_here rfl _,rfl⟩
  have hrun := ((Runs.start.next hfirst).next (show Step s₁ (.free 0xeeeee) s₂ from rfl)).next
    hthird
  refine ⟨s₃,hrun,?_⟩
  rw [(handle_table hrun).2.1]
  rfl

end FalloutEmu.HandleTable
