import FalloutEmu.ByteStore

/-! # Records of one length, one behind the other in a byte store -/
namespace FalloutEmu.Records
open ByteStore
variable {β : Type} {m m' : ℕ→β} {k i j n : ℕ} {bs : List β}

def record (m : ℕ→β) (k i : ℕ) : List β := readAt m (k*i) k

def records (m : ℕ→β) (k n : ℕ) : List (List β) := (List.range n).map (record m k)

@[simp] theorem length_record (m : ℕ→β) (k i : ℕ) : (record m k i).length=k := length_readAt _ _ _

@[simp] theorem length_records (m : ℕ→β) (k n : ℕ) : (records m k n).length=n := by simp [records]

theorem length_of_mem_records {r : List β} (h : r∈records m k n) : r.length=k := by
  obtain ⟨i,_,rfl⟩ := List.mem_map.mp h
  exact length_record _ _ _

theorem getElem_records (h : i<(records m k n).length) : (records m k n)[i]=record m k i := by
  simp [records]

theorem getElem?_records (h : i<n) : (records m k n)[i]?=some (record m k i) := by
  rw [List.getElem?_eq_getElem (by rwa [length_records]),getElem_records]

theorem records_succ (m : ℕ→β) (k n : ℕ) : records m k (n+1)=records m k n++[record m k n] := by
  simp [records,List.range_succ]

theorem record_end (h : i<j) : k*i+k ≤ k*j := by
  have hle := Nat.mul_le_mul_left k h
  rwa [Nat.mul_succ] at hle

theorem records_congr (h : ∀i<n,record m k i=record m' k i) : records m k n=records m' k n := by
  apply List.map_congr_left
  intro i hi
  exact h i (List.mem_range.mp hi)

theorem record_congr (h : ∀a<k*n,m a=m' a) (hi : i<n) : record m k i=record m' k i := by
  have hend := record_end (k:=k) hi
  apply readAt_congr
  intro c hc
  exact h _ (by omega)

section Writing

theorem record_writeAt_self (m : ℕ→β) (h : bs.length=k) : record (writeAt m (k*i) bs) k i=bs := by
  subst h
  exact readAt_writeAt_self _ _ _

theorem record_writeAt_of_lt (h : j < i) : record (writeAt m (k*i) bs) k j=record m k j :=
  readAt_writeAt_of_disjoint (.inr (record_end h))

theorem record_writeAt_of_ne (hbs : bs.length=k) (h : j≠i) :
    record (writeAt m (k*i) bs) k j=record m k j := by
  rcases Nat.lt_or_gt_of_ne h with hlt | hgt
  · exact record_writeAt_of_lt hlt
  · subst hbs
    exact readAt_writeAt_of_disjoint (.inl (record_end hgt))

theorem records_writeAt (hbs : bs.length=k) :
    records (writeAt m (k*i) bs) k n=(records m k n).set i bs := by
  apply List.ext_getElem (by simp)
  intro c hc _
  rw [getElem_records,List.getElem_set]
  split
  · next hi =>
    subst hi
    exact record_writeAt_self m hbs
  · next hi =>
    rw [getElem_records]
    exact record_writeAt_of_ne hbs (Ne.symm hi)

/-- The records that a copy of `len` cells, from the record `s` on, puts behind the record `i`. -/
theorem record_writeAt_readAt {src : ℕ→β} {s len : ℕ} (hij : i ≤ j) (hlen : k*(j-i)+k ≤ len) :
    record (writeAt m (k*i) (readAt src (k*s) len)) k j=record src k (s+(j-i)) := by
  obtain ⟨d,rfl⟩ := Nat.exists_eq_add_of_le hij
  rw [Nat.add_sub_cancel_left] at hlen ⊢
  apply List.map_congr_left
  intro c hc
  have hc := List.mem_range.mp hc
  have hin : k*d+c<(readAt src (k*s) len).length := by
    rw [length_readAt]
    omega
  rw [Nat.mul_add,Nat.add_assoc,writeAt_apply_add _ _ _ _ hin,getElem_readAt,Nat.mul_add,
    Nat.add_assoc]

end Writing
end FalloutEmu.Records
