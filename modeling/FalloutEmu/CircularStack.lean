import Mathlib.Data.Fin.Basic
import Mathlib.Algebra.Group.Fin.Basic
import Mathlib.Data.ZMod.Defs

/-! # A bounded stack in a circular buffer -/
namespace FalloutEmu.CircularStack
variable {α : Type} {n : ℕ} [NeZero n]

def cellOf (top : Fin n) (i : ℕ) : Fin n := top+Fin.ofNat n i

theorem cellOf_injective {top : Fin n} {i j : ℕ} (hi : i<n) (hj : j<n)
    (h : cellOf top i=cellOf top j) : i=j := by
  have heq : Fin.ofNat n i=Fin.ofNat n j := add_left_cancel h
  have hval := congrArg Fin.val heq
  simpa [Nat.mod_eq_of_lt hi,Nat.mod_eq_of_lt hj] using hval

@[simp] theorem cellOf_zero (top : Fin n) : cellOf top 0=top := by simp [cellOf]

/-- Moving `top` back by one makes the old entries the ones behind the new first cell. -/
theorem cellOf_succ_of_sub (top : Fin n) (i : ℕ) : cellOf (top-1) (i+1)=cellOf top i := by
  have hsum : Fin.ofNat n (i+1)=Fin.ofNat n i+1 := by
    apply Fin.ext
    simp [Fin.val_add,Nat.add_mod]
  rw [cellOf,cellOf,hsum,add_comm (Fin.ofNat n i),←add_assoc,sub_add_cancel]

theorem cellOf_of_add (top : Fin n) (i : ℕ) : cellOf (top+1) i=cellOf top (i+1) := by
  rw [←cellOf_succ_of_sub (top+1) i,add_sub_cancel_right]

/-- The entries of the stack lie in the cells from `top` on. -/
structure Holds (cells : Fin n→α) (top : Fin n) (entries : List α) : Prop where
  room : entries.length ≤ n
  entry : ∀i (hi : i<entries.length),cells (cellOf top i)=entries[i]

namespace Holds

theorem empty (cells : Fin n→α) (top : Fin n) : Holds cells top [] where
  room := Nat.zero_le n
  entry := by
    intro i hi
    cases hi

theorem push {cells : Fin n→α} {top : Fin n} {entries : List α} (h : Holds cells top entries)
    (hroom : entries.length<n) (v : α) :
    Holds (Function.update cells (top-1) v) (top-1) (v::entries) where
  room := hroom
  entry := by
    intro i hi
    cases i with
    | zero => simp
    | succ i =>
      have hin : i<entries.length := Nat.lt_of_succ_lt_succ hi
      have hne : cellOf (top-1) (i+1) ≠ top-1 := by
        intro he
        have hzero : cellOf (top-1) (i+1)=cellOf (top-1) 0 := he.trans (cellOf_zero _).symm
        exact absurd (cellOf_injective (by omega) (by omega) hzero) (Nat.succ_ne_zero i)
      rw [Function.update_of_ne hne,cellOf_succ_of_sub,h.entry i hin]
      rfl

theorem pop {cells : Fin n→α} {top : Fin n} {v : α} {entries : List α}
    (h : Holds cells top (v::entries)) : Holds cells (top+1) entries where
  room := Nat.le_of_succ_le h.room
  entry := by
    intro i hi
    rw [cellOf_of_add,h.entry (i+1) (Nat.succ_lt_succ hi)]
    rfl

theorem set {cells : Fin n→α} {top : Fin n} {entries : List α} (h : Holds cells top entries) {i : ℕ}
    (hi : i<entries.length) (v : α) :
    Holds (Function.update cells (cellOf top i) v) top (entries.set i v) where
  room := by
    rw [List.length_set]
    exact h.room
  entry := by
    intro j hj
    rw [List.length_set] at hj
    rcases eq_or_ne i j with rfl | hne
    · rw [Function.update_self,List.getElem_set_self]
    · have hcell : cellOf top j ≠ cellOf top i := fun he =>
        hne (cellOf_injective (hj.trans_le h.room) (hi.trans_le h.room) he).symm
      rw [Function.update_of_ne hcell,List.getElem_set_ne hne,h.entry j hj]

end Holds
end FalloutEmu.CircularStack
