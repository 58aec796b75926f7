import Mathlib.Data.List.AList
import Mathlib.Data.List.Perm.Basic

/-! # Dictionaries of dictionaries of lists, and their elements -/
namespace FalloutEmu.Grouping
variable {κ μ ν γ : Type} [DecidableEq κ] [DecidableEq μ]

theorem entries_perm_of_lookup {β : Type} {s : AList fun _ : κ => β} {k : κ} {v : β}
    (h : s.lookup k=some v) :
    s.entries.Perm (⟨k,v⟩::(s.erase k).entries) := by
  have hmem : (⟨k,v⟩ : Sigma fun _ : κ => β)∈s.entries := AList.mem_lookup_iff.mp h
  obtain ⟨v',l₁,l₂,hnot,hentries,herase⟩ := List.exists_of_kerase (List.mem_keys_of_mem hmem)
  have hv : v'=v := by
    have hmem' : (⟨k,v'⟩ : Sigma fun _ : κ => β)∈s.entries := by
      rw [hentries]
      simp
    exact Option.some.inj ((AList.mem_lookup_iff.mpr hmem').symm.trans h)
  subst hv
  rw [show (s.erase k).entries=s.entries.kerase k from rfl,herase,hentries]
  exact List.perm_middle

theorem erase_entries_of_notMem {β : Type} {s : AList fun _ : κ => β} {k : κ}
    (h : s.lookup k=none) :
    (s.erase k).entries=s.entries :=
  List.kerase_of_notMem_keys (AList.lookup_eq_none.mp h)

/-- What a function collects from the entries of a dictionary after an insertion: what the new value
gives, and what the others gave. -/
theorem flatMap_insert {β : Type} (f : Sigma (fun _ : κ => β)→List γ) (s : AList fun _ : κ => β)
    (k : κ) (v : β) :
    (s.insert k v).entries.flatMap f=f ⟨k,v⟩++(s.erase k).entries.flatMap f := by
  rw [AList.entries_insert,List.flatMap_cons]
  rfl

theorem flatMap_perm_of_lookup {β : Type} (f : Sigma (fun _ : κ => β)→List γ)
    {s : AList fun _ : κ => β} {k : κ} {v : β} (h : s.lookup k=some v) :
    (s.entries.flatMap f).Perm (f ⟨k,v⟩++(s.erase k).entries.flatMap f) := by
  have hperm := (entries_perm_of_lookup h).flatMap_right f
  rwa [List.flatMap_cons] at hperm

abbrev Groups (κ μ ν : Type) := AList fun _ : κ => AList fun _ : μ => List ν

def members (k : κ) (group : AList fun _ : μ => List ν) : List (κ×μ×ν) :=
  group.entries.flatMap fun e => e.2.map fun v => (k,e.1,v)

def elements (groups : Groups κ μ ν) : List (κ×μ×ν) :=
  groups.entries.flatMap fun e => members e.1 e.2

def ensure (groups : Groups κ μ ν) (k : κ) : Groups κ μ ν :=
  if (groups.lookup k).isSome then groups else groups.insert k ∅

def add (groups : Groups κ μ ν) (k : κ) (l : μ) (v : ν) : Groups κ μ ν :=
  let group := (groups.lookup k).getD ∅
  groups.insert k (group.insert l ((group.lookup l).getD []++[v]))

omit [DecidableEq μ] in
theorem elements_ensure (groups : Groups κ μ ν) (k : κ) :
    elements (ensure groups k)=elements groups := by
  unfold ensure
  split
  case isTrue => rfl
  case isFalse h =>
    have hnone : groups.lookup k=none := Option.not_isSome_iff_eq_none.mp h
    rw [elements,flatMap_insert,erase_entries_of_notMem hnone]
    rfl

omit [DecidableEq κ] in
theorem members_insert (k : κ) (group : AList fun _ : μ => List ν) (l : μ) (v : ν) :
    (members k (group.insert l ((group.lookup l).getD []++[v]))).Perm
      ((k,l,v)::members k group) := by
  rw [members,flatMap_insert,List.map_append,List.append_assoc]
  refine (List.perm_append_comm_assoc _ _ _).trans ?_
  rw [List.map_cons,List.map_nil,List.singleton_append]
  refine List.Perm.cons _ ?_
  cases hlookup : group.lookup l with
  | none => rw [Option.getD_none,List.map_nil,List.nil_append,erase_entries_of_notMem hlookup]; rfl
  | some vs => exact (flatMap_perm_of_lookup (fun e => e.2.map fun v => (k,e.1,v)) hlookup).symm

/-- An element is added once, and nothing else changes but the order. -/
theorem elements_add (groups : Groups κ μ ν) (k : κ) (l : μ) (v : ν) :
    (elements (add groups k l v)).Perm ((k,l,v)::elements groups) := by
  rw [elements,add,flatMap_insert]
  refine ((members_insert k _ l v).append_right _).trans ?_
  rw [List.cons_append]
  refine List.Perm.cons _ ?_
  cases hlookup : groups.lookup k with
  | none =>
    rw [Option.getD_none,erase_entries_of_notMem hlookup]
    rfl
  | some group => exact (flatMap_perm_of_lookup (fun e => members e.1 e.2) hlookup).symm

structure Enumeration (κ β : Type) [DecidableEq κ] where
  list : (AList fun _ : κ => β)→List (Sigma fun _ : κ => β)
  perm : ∀s,(list s).Perm s.entries

def enumerated (groups : Enumeration κ (AList fun _ : μ => List ν)) (lists : Enumeration μ (List ν))
    (s : Groups κ μ ν) : List (κ×μ×ν) :=
  (groups.list s).flatMap fun e => (lists.list e.2).flatMap fun e' => e'.2.map fun v => (e.1,e'.1,v)

theorem enumerated_perm (groups : Enumeration κ (AList fun _ : μ => List ν))
    (lists : Enumeration μ (List ν)) (s : Groups κ μ ν) :
    (enumerated groups lists s).Perm (elements s) := by
  refine (groups.perm s).flatMap ?_
  intro e _
  exact (lists.perm e.2).flatMap_right _

end FalloutEmu.Grouping
