import Mathlib.Data.List.Basic

/-! # Paths as lists of components -/
namespace FalloutEmu
variable {α : Type} [DecidableEq α]

/-- A path: whether it starts at the root, and its components. -/
structure ComponentPath (α : Type) where
  absolute : Bool
  components : List (List α)
  deriving DecidableEq

namespace ComponentPath
variable {separator : α}

def parts (separator : α) (s : List α) : List (List α) := (s.splitOn separator).filter (·≠[])

def ofString (separator : α) (s : List α) : ComponentPath α :=
  ⟨s.head?=some separator,parts separator s⟩

def empty : ComponentPath α := ⟨false,[]⟩

/-- Appends the components of a string, which the empty path becomes itself. -/
def append (separator : α) (path : ComponentPath α) (s : List α) : ComponentPath α :=
  if path=empty then ofString separator s
    else { path with components := path.components++parts separator s }

def deletingLast (path : ComponentPath α) : ComponentPath α :=
  { path with components := path.components.dropLast }

theorem splitOn_map {b : α} (s : List α) :
    (s.map fun c => if c=b then separator else c).splitOn separator=
      (s.splitOn b).flatMap fun part => part.splitOn separator := by
  induction s with
  | nil => simp
  | cons c s ih =>
    obtain ⟨p,ps,hsplit⟩ := List.exists_cons_of_ne_nil (List.splitOn_ne_nil b s)
    obtain ⟨q,qs,hinner⟩ := List.exists_cons_of_ne_nil (List.splitOn_ne_nil separator p)
    rw [hsplit,List.flatMap_cons,hinner] at ih
    rw [List.map_cons,List.splitOn_cons_eq_if_modifyHead,ih,List.splitOn_cons_eq_if_modifyHead c s,
      hsplit]
    by_cases hb : c=b
    · simp [hb,hinner]
    · by_cases hs : c=separator
      · subst hs
        simp [hb,hinner,List.splitOn_cons_eq_if_modifyHead]
      · simp [hb,hs,hinner,List.splitOn_cons_eq_if_modifyHead]

/-- To replace one separator by another and split is to split at both. -/
theorem parts_map {b : α} (s : List α) :
    parts separator (s.map fun c => if c=b then separator else c)=
      (s.splitOn b).flatMap (parts separator) := by
  rw [parts,splitOn_map,List.filter_flatMap]
  rfl

theorem mem_of_mem_splitOn {s part : List α} (h : part∈s.splitOn separator) :
    ∀c∈part,c∈s ∧ c≠separator := by
  induction s generalizing part with
  | nil =>
    intro c hc
    simp at h
    simp [h] at hc
  | cons x s ih =>
    intro c hc
    obtain ⟨p,ps,hsplit⟩ := List.exists_cons_of_ne_nil (List.splitOn_ne_nil separator s)
    rw [List.splitOn_cons_eq_if_modifyHead,hsplit] at h
    rw [hsplit] at ih
    by_cases hx : x=separator
    · rw [if_pos (by simpa using hx)] at h
      rcases List.mem_cons.mp h with rfl | h
      · cases hc
      · exact ⟨List.mem_cons_of_mem _ (ih h c hc).1,(ih h c hc).2⟩
    · rw [if_neg (by simpa using hx)] at h
      rcases List.mem_cons.mp h with rfl | h
      · rcases List.mem_cons.mp hc with rfl | hc
        · exact ⟨List.mem_cons_self,hx⟩
        · exact ⟨List.mem_cons_of_mem _ (ih List.mem_cons_self c hc).1,
            (ih List.mem_cons_self c hc).2⟩
      · exact ⟨List.mem_cons_of_mem _ (ih (List.mem_cons_of_mem _ h) c hc).1,
          (ih (List.mem_cons_of_mem _ h) c hc).2⟩

theorem mem_of_mem_parts {s part : List α} (h : part∈parts separator s) :
    ∀c∈part,c∈s ∧ c≠separator :=
  mem_of_mem_splitOn (List.mem_of_mem_filter h)

/-- A nonempty string without separators is its only component. -/
theorem parts_singleton {s : List α} (hne : s≠[]) (hs : separator∉s) : parts separator s=[s] := by
  rw [parts,List.splitOn_eq_singleton hs]
  simp [hne]

/-- A character that is not a separator is in a component. -/
theorem exists_part {s : List α} {c : α} (hc : c∈s) (hne : c≠separator) :
    ∃part∈parts separator s,c∈part := by
  induction s with
  | nil => cases hc
  | cons x s ih =>
    obtain ⟨p,ps,hsplit⟩ := List.exists_cons_of_ne_nil (List.splitOn_ne_nil separator s)
    rw [parts,hsplit] at ih
    rw [parts,List.splitOn_cons_eq_if_modifyHead,hsplit]
    by_cases hx : x=separator
    · rw [if_pos (by simpa using hx)]
      rcases List.mem_cons.mp hc with rfl | hc
      · exact absurd hx hne
      · obtain ⟨part,hpart,hmem⟩ := ih hc
        exact ⟨part,by simpa using hpart,hmem⟩
    · rw [if_neg (by simpa using hx),List.modifyHead_cons]
      rcases List.mem_cons.mp hc with rfl | hc
      · exact ⟨c::p,by simp,List.mem_cons_self⟩
      · obtain ⟨part,hpart,hmem⟩ := ih hc
        rcases List.mem_cons.mp (List.mem_of_mem_filter hpart) with rfl | hrest
        · exact ⟨x::part,by simp,List.mem_cons_of_mem _ hmem⟩
        · refine ⟨part,?_,hmem⟩
          rw [List.mem_filter] at hpart ⊢
          exact ⟨List.mem_cons_of_mem _ hrest,hpart.2⟩

theorem components_append (path : ComponentPath α) (s : List α) :
    (path.append separator s).components=path.components++parts separator s := by
  unfold append
  split
  case isTrue h =>
    rw [h]
    rfl
  case isFalse => rfl

theorem absolute_append (path : ComponentPath α) (s : List α) :
    (path.append separator s).absolute=if path=empty then decide (s.head?=some separator)
      else path.absolute := by
  unfold append
  split <;> rfl

omit [DecidableEq α] in
@[ext] theorem ext {path path' : ComponentPath α} (ha : path.absolute=path'.absolute)
    (hc : path.components=path'.components) : path=path' := by
  cases path
  cases path'
  cases ha
  cases hc
  rfl

/-- A string that does not start at the root leaves the root of the path. -/
theorem absolute_append_of_relative (path : ComponentPath α) {s : List α}
    (hs : s.head?≠some separator) :
    (path.append separator s).absolute=path.absolute := by
  rw [absolute_append]
  split
  case isTrue h =>
    rw [h]
    exact decide_eq_false hs
  case isFalse => rfl

theorem components_foldl (path : ComponentPath α) (ss : List (List α)) :
    (ss.foldl (append separator) path).components=
      path.components++ss.flatMap (parts separator) := by
  induction ss generalizing path with
  | nil => simp
  | cons s ss ih => rw [List.foldl_cons,ih,components_append,List.flatMap_cons,List.append_assoc]

theorem absolute_foldl (path : ComponentPath α) {ss : List (List α)}
    (hss : ∀s∈ss,s.head?≠some separator) :
    (ss.foldl (append separator) path).absolute=path.absolute := by
  induction ss generalizing path with
  | nil => rfl
  | cons s ss ih =>
    rw [List.foldl_cons,ih _ fun s' hs' => hss s' (List.mem_cons_of_mem _ hs'),
      absolute_append_of_relative path (hss s List.mem_cons_self)]

theorem absolute_append_of_absolute {path : ComponentPath α} (hpath : path.absolute=true)
    (s : List α) :
    (path.append separator s).absolute=true := by
  rw [absolute_append]
  split
  case isTrue h =>
    rw [h] at hpath
    cases hpath
  case isFalse => exact hpath

theorem absolute_foldl_of_absolute {path : ComponentPath α} (hpath : path.absolute=true)
    (ss : List (List α)) :
    (ss.foldl (append separator) path).absolute=true := by
  induction ss generalizing path with
  | nil => exact hpath
  | cons s ss ih => exact ih (absolute_append_of_absolute hpath s)

/-- Two paths lead to the same place with a string behind them. -/
theorem append_eq_append_iff (path path' : ComponentPath α) (s : List α) :
    path.append separator s=path'.append separator s ↔ path=path' ∨
      (path.components=[] ∧ path'.components=[] ∧ s.head?=some separator) := by
  constructor
  · intro h
    have hcomponents := congrArg components h
    rw [components_append,components_append,List.append_left_inj] at hcomponents
    have habsolute := congrArg absolute h
    rw [absolute_append,absolute_append] at habsolute
    by_cases hp : path=empty
    · by_cases hp' : path'=empty
      · exact .inl (hp.trans hp'.symm)
      · rw [if_pos hp,if_neg hp'] at habsolute
        have hnone : path'.components=[] := by rw [←hcomponents,hp]; rfl
        have hroot : path'.absolute=true := by
          by_contra hrelative
          exact hp' (ext (Bool.eq_false_iff.mpr hrelative) hnone)
        exact .inr ⟨by rw [hp]; rfl,hnone,of_decide_eq_true (habsolute.trans hroot)⟩
    · by_cases hp' : path'=empty
      · rw [if_neg hp,if_pos hp'] at habsolute
        have hnone : path.components=[] := by rw [hcomponents,hp']; rfl
        have hroot : path.absolute=true := by
          by_contra hrelative
          exact hp (ext (Bool.eq_false_iff.mpr hrelative) hnone)
        exact .inr ⟨hnone,by rw [hp']; rfl,of_decide_eq_true (habsolute.symm.trans hroot)⟩
      · rw [if_neg hp,if_neg hp'] at habsolute
        exact .inl (ext habsolute hcomponents)
  · rintro (rfl | ⟨hnone,hnone',hs⟩)
    · rfl
    · have hroot (p : ComponentPath α) (hp : p.components=[]) : (p.append separator s).absolute=
        true := by
        rw [absolute_append]
        split
        case isTrue => exact decide_eq_true hs
        case isFalse hne =>
          by_contra hrelative
          exact hne (ext (Bool.eq_false_iff.mpr hrelative) hp)
      apply ext
      · rw [hroot path hnone,hroot path' hnone']
      · rw [components_append,components_append,hnone,hnone']

end ComponentPath
end FalloutEmu
