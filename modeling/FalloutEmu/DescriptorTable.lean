import FalloutEmu.Process
import Mathlib.Data.List.Nodup

/-! # The local descriptor table: selectors up to its last slot -/
namespace FalloutEmu.DescriptorTable

/-- `FELocalDescriptorTable` with the fields that a creation writes. -/
structure Table where
  index : U16
  ldt_address : FELocalDescriptorTable
  ldt_size : Shadow U32

def create : Table where
  index := 50
  ldt_address := ⟨65535,fun _ => 0⟩
  ldt_size := ⟨65535,fun _ => 0⟩

def createLDWithAddress (ldt : Table) (address size : U32) : Except Stop (Table×U16) :=
  if ldt.index=65535 then .error .exit
  else do
    let index := ldt.index+1
    let ldt_address ← ldt.ldt_address.set index.toNat address
    let ldt_size ← ldt.ldt_size.set index.toNat size
    .ok (⟨index,ldt_address,ldt_size⟩,index)

def addressWithSelector (ldt : Table) (selector : U16) : Except Stop U32 :=
  ldt.ldt_address.get selector.toNat

def issue (s : Table×List U16) (call : U32×U32) : Except Stop (Table×List U16) := do
  let (ldt,selector) ← createLDWithAddress s.1 call.1 call.2
  .ok (ldt,s.2++[selector])

/-- The calls, with the address and the size of each, on a fresh table. -/
def issueAll (calls : List (U32×U32)) : Except Stop (Table×List U16) :=
  calls.foldlM issue (create,[])

/-- The program stops, or every selector is a new one and leads to its address. -/
def KeepsSelectors (calls : List (U32×U32)) : Prop :=
  issueAll calls=.error .exit ∨ ∃ldt selectors,issueAll calls=.ok (ldt,selectors) ∧
    selectors.length=calls.length ∧ selectors.Nodup ∧
    ∀ (i : ℕ) (selector : U16) (call : U32×U32),selectors[i]?=some selector→calls[i]?=some call→
      addressWithSelector ldt selector=.ok call.1

section Invariant
variable {calls : List (U32×U32)} {ldt : Table} {selectors : List U16}

/-- The selectors count from 51 on, and the slot of each has its address. -/
structure Issued (calls : List (U32×U32)) (ldt : Table) (selectors : List U16) : Prop where
  index : ldt.index.toNat=50+calls.length
  addresses : ldt.ldt_address.capacity=65535
  sizes : ldt.ldt_size.capacity=65535
  selectors : selectors=(List.range calls.length).map fun i => .ofNat 16 (51+i)
  slot : ∀i call,calls[i]?=some call→ldt.ldt_address.slot (51+i)=call.1

theorem Issued.create : Issued [] create [] where
  index := rfl
  addresses := rfl
  sizes := rfl
  selectors := rfl
  slot i call h := by simp at h

theorem toNat_selector {i : ℕ} (h : i<65485) : (BitVec.ofNat 16 (51+i)).toNat=51+i := by
  rw [BitVec.toNat_ofNat]
  omega

theorem issueAll_snoc (call : U32×U32) (h : issueAll calls=.ok (ldt,selectors)) :
    issueAll (calls++[call])=issue (ldt,selectors) call := by
  rw [issueAll,List.foldlM_append]
  have hfold : calls.foldlM issue (DescriptorTable.create,[])=.ok (ldt,selectors) := h
  rw [hfold,ok_bind,List.foldlM_cons]
  cases issue (ldt,selectors) call <;> rfl

theorem Issued.succ_index (h : Issued calls ldt selectors) (hroom : calls.length<65485) :
    ldt.index≠65535 ∧ (ldt.index+1).toNat=51+calls.length := by
  have hindex := h.index
  have hlast : (65535 : U16).toNat=65535 := rfl
  refine ⟨fun he => ?_,?_⟩
  · rw [he] at hindex
    omega
  · bv_omega

/-- A slot is left: the next selector is the next number. -/
theorem Issued.issue (h : Issued calls ldt selectors) (call : U32×U32)
    (hroom : calls.length<65484) :
    ∃ldt',issue (ldt,selectors) call=.ok (ldt',selectors++[ldt'.index]) ∧
      Issued (calls++[call]) ldt' (selectors++[ldt'.index]) := by
  obtain ⟨hlast,hnext⟩ := h.succ_index (by omega)
  have hslot : (ldt.index+1).toNat<65535 := by omega
  let ldt' : Table := ⟨ldt.index+1,
    ⟨65535,fun p => if p=(ldt.index+1).toNat then call.1 else ldt.ldt_address.slot p⟩,
    ⟨65535,fun p => if p=(ldt.index+1).toNat then call.2 else ldt.ldt_size.slot p⟩⟩
  refine ⟨ldt',?_,?_⟩
  · simp only [DescriptorTable.issue,createLDWithAddress,if_neg hlast,Shadow.set,h.addresses,
      h.sizes,if_pos hslot,ok_bind]
    rfl
  · refine ⟨?_,rfl,rfl,?_,?_⟩
    · rw [List.length_append,hnext]
      simp
      omega
    · have hselector : ldt'.index=.ofNat 16 (51+calls.length) := by
        apply BitVec.eq_of_toNat_eq
        rw [toNat_selector (by omega)]
        exact hnext
      rw [h.selectors,hselector,List.length_append,List.length_singleton,List.range_succ,
        List.map_append]
      rfl
    · intro i c hc
      have hi : i<calls.length+1 := by
        have hlt := (List.getElem?_eq_some_iff.mp hc).1
        simpa using hlt
      simp only [ldt',hnext]
      by_cases hold : i<calls.length
      · rw [List.getElem?_append_left hold] at hc
        rw [if_neg (by omega)]
        exact h.slot i c hc
      · have hnew : i=calls.length := by omega
        subst hnew
        rw [List.getElem?_concat_length] at hc
        rw [if_pos rfl,Option.some.inj hc]

/-- The call for the slot behind the last writes outside. -/
theorem Issued.issue_full (h : Issued calls ldt selectors) (call : U32×U32)
    (hfull : calls.length=65484) :
    DescriptorTable.issue (ldt,selectors) call=.error .outOfBounds := by
  obtain ⟨hlast,hnext⟩ := h.succ_index (by omega)
  have hslot : ¬(ldt.index+1).toNat<65535 := by omega
  simp only [DescriptorTable.issue,createLDWithAddress,if_neg hlast,Shadow.set,h.addresses,
    if_neg hslot,error_bind]

theorem issueAll_issued (calls : List (U32×U32)) (h : calls.length<65485) :
    ∃ldt selectors,issueAll calls=.ok (ldt,selectors) ∧ Issued calls ldt selectors := by
  induction calls using List.reverseRecOn with
  | nil => exact ⟨_,_,rfl,.create⟩
  | append_singleton calls call ih =>
    rw [List.length_append,List.length_singleton] at h
    obtain ⟨ldt,selectors,hrun,hissued⟩ := ih (by omega)
    obtain ⟨ldt',hissue,hnext⟩ := hissued.issue call (by omega)
    exact ⟨ldt',_,(issueAll_snoc call hrun).trans hissue,hnext⟩

theorem issueAll_outOfBounds (calls : List (U32×U32)) (h : 65485 ≤ calls.length) :
    issueAll calls=.error .outOfBounds := by
  have htake : (calls.take 65484).length=65484 := by
    rw [List.length_take]
    omega
  have hget : 65484<calls.length := by omega
  obtain ⟨ldt,selectors,hrun,hissued⟩ := issueAll_issued (calls.take 65484) (by omega)
  have hfull := (issueAll_snoc calls[65484] hrun).trans (hissued.issue_full _ htake)
  have hsplit : calls=calls.take 65484++[calls[65484]]++calls.drop 65485 := by
    rw [List.append_assoc,List.singleton_append,←List.drop_eq_getElem_cons hget,
      List.take_append_drop]
  rw [hsplit,issueAll,List.foldlM_append]
  rw [issueAll] at hfull
  rw [hfull,error_bind]

theorem Issued.nodup (h : Issued calls ldt selectors) (hroom : calls.length<65485) :
    selectors.Nodup := by
  rw [h.selectors]
  apply List.Nodup.map_on ?_ List.nodup_range
  intro i hi j hj hij
  have heq := congrArg BitVec.toNat hij
  rw [toNat_selector ((List.mem_range.mp hi).trans hroom),
    toNat_selector ((List.mem_range.mp hj).trans hroom)] at heq
  omega

/-- A selector in use leads to the address it was created with. -/
theorem Issued.address {i : ℕ} {selector : U16} {call : U32×U32} (h : Issued calls ldt selectors)
    (hroom : calls.length<65485) (hselector : selectors[i]?=some selector)
    (hcall : calls[i]?=some call) :
    addressWithSelector ldt selector=.ok call.1 := by
  have hi := (List.getElem?_eq_some_iff.mp hcall).1
  have hnumber : selector.toNat=51+i := by
    rw [h.selectors,List.getElem?_map,List.getElem?_range hi] at hselector
    rw [←Option.some.inj hselector]
    exact toNat_selector (by omega)
  rw [addressWithSelector,Shadow.get,hnumber,h.addresses,if_pos (by omega),h.slot i call hcall]

end Invariant

/-- Selectors are kept exactly as long as fewer than 65485 calls are made. -/
theorem keepsSelectors_iff (calls : List (U32×U32)) :
    KeepsSelectors calls ↔ calls.length<65485 := by
  constructor
  · intro h
    by_contra hlong
    have hstop := issueAll_outOfBounds calls (Nat.le_of_not_lt hlong)
    rcases h with hexit|⟨ldt,selectors,hrun,_⟩
    · rw [hstop] at hexit
      cases hexit
    · rw [hstop] at hrun
      cases hrun
  · intro hroom
    obtain ⟨ldt,selectors,hrun,hissued⟩ := issueAll_issued calls hroom
    refine .inr ⟨ldt,selectors,hrun,?_,hissued.nodup hroom,?_⟩
    · rw [hissued.selectors,List.length_map,List.length_range]
    · intro i selector call hselector hcall
      exact hissued.address hroom hselector hcall

/-- The call number 65485 writes behind both arrays. -/
theorem not_keepsSelectors : ¬KeepsSelectors (List.replicate 65485 (0,0)) := by
  have hstop := issueAll_outOfBounds (List.replicate 65485 (0,0)) (by rw [List.length_replicate])
  rintro (hexit|⟨ldt,selectors,hrun,_⟩)
  · rw [hstop] at hexit
    cases hexit
  · rw [hstop] at hrun
    cases hrun

end FalloutEmu.DescriptorTable
