import FalloutEmu.PackedFields
import FalloutEmu.RegisterStack

/-! # The tag word and the register stack -/
namespace FalloutEmu.TagWord
open PackedFields RegisterStack
open CircularStack (cellOf cellOf_injective cellOf_zero cellOf_succ_of_sub cellOf_of_add)
variable {F : Type}

def bits : FEFPUTag→BitVec 2
  | .kValid => 0
  | .kZero => 1
  | .kSpecial => 2
  | .kEmpty => 3

theorem setWidth_bits (tag : FEFPUTag) : (bits tag).setWidth 16=tag.number := by
  cases tag <;> rfl

def tagField (fpu : FEFPU F) (p : FEFPURegisterName) : BitVec 2 := field 2 fpu.tagWord p.val

section ReadBack
variable (fpu : FEFPU F) (p : FEFPURegisterName) (tag : FEFPUTag)

theorem tagWord_setTag : (fpu.setTag p tag).tagWord=setField fpu.tagWord p.val (bits tag) := by
  cases tag <;> rfl

theorem tagField_setTag :
    tagField (fpu.setTag p tag)=Function.update (tagField fpu) p (bits tag) := by
  have hp := p.isLt
  funext q
  rw [tagField,tagWord_setTag]
  rcases eq_or_ne q p with rfl | hne
  · rw [Function.update_self]
    exact field_setField_self _ _ _ (by omega)
  · rw [Function.update_of_ne hne]
    exact field_setField_of_ne _ _ fun h => hne (Fin.ext h.symm)

/-- `fe_fpu_tag` returns a tag exactly when the register has it and all registers above are tagged
valid. -/
theorem tag_eq_iff : fpu.tag p=tag.number ↔ tagField fpu p=bits tag ∧ ∀q,p<q→tagField fpu q=0 := by
  have hshift := shift_eq_iff fpu.tagWord p.val (bits tag) Nat.two_pos (by decide)
  rw [setWidth_bits] at hshift
  refine hshift.trans (and_congr_right fun _ => ⟨fun h q hq => h q.val hq,fun h q hq => ?_⟩)
  by_cases hq8 : q<8
  · exact h ⟨q,hq8⟩ hq
  · exact field_of_ge _ _ (by omega)

/-- What is read back after `fe_fpu_setTag`: the tag itself where no register above has a tag of its
own, and the old tags elsewhere where no register below sees a change. -/
theorem tag_setTag_iff :
    ((fpu.setTag p tag).tag p=tag.number ∧ ∀q,q≠p→(fpu.setTag p tag).tag q=fpu.tag q) ↔
      (∀q,p<q→tagField fpu q=0) ∧ (p=0 ∨ tagField fpu p=bits tag) := by
  have hp := p.isLt
  have hread : (fpu.setTag p tag).tag p=tag.number ↔ ∀q,p<q→tagField fpu q=0 := by
    rw [tag_eq_iff,tagField_setTag,Function.update_self]
    refine (and_iff_right rfl).trans (forall₂_congr fun q hq => ?_)
    rw [Function.update_of_ne hq.ne']
  have habove : ∀q,p<q→(fpu.setTag p tag).tag q=fpu.tag q := by
    intro q hq
    rw [FEFPU.tag,tagWord_setTag]
    exact shift_setField_of_lt _ _ hq
  have hbelow : ∀q,q<p→((fpu.setTag p tag).tag q=fpu.tag q ↔ tagField fpu p=bits tag) := by
    intro q hq
    rw [FEFPU.tag,tagWord_setTag]
    exact shift_setField_iff _ _ hq (by omega)
  rw [hread]
  refine and_congr_right fun _ => ⟨?_,?_⟩
  · intro h
    rcases eq_or_ne p 0 with hzero | hne
    · exact Or.inl hzero
    · exact Or.inr ((hbelow 0 (Fin.pos_of_ne_zero hne)).mp (h 0 hne.symm))
  · rintro h q hne
    rcases lt_or_gt_of_ne hne with hq | hq
    · rcases h with rfl | h
      · exact absurd hq (Fin.not_lt_zero q)
      · exact (hbelow q hq).mpr h
    · exact habove q hq

end ReadBack

/-- The tags of all registers and the register that `TOP` points at. -/
structure Tags where
  fields : FEFPURegisterName→BitVec 2
  top : Fin 8

def tags (fpu : FEFPU F) : Tags := ⟨tagField fpu,topCell fpu⟩

/-- What an instruction does to the tags: a push tags the new top as valid, a pop may or may not tag
a register as empty, and a write tags the register it writes as valid. -/
inductive StackEffect where
  | push
  | popTagged
  | popUntagged
  | write (i : FEFPURegisterName)
  deriving DecidableEq,Repr

namespace StackEffect

/-- A push that does not wrap, and a pop that tags, both tag the register 0. -/
def apply (v : Tags) : StackEffect→Tags
  | push =>
    ⟨Function.update (if v.top=0 then v.fields else Function.update v.fields 0 (bits .kEmpty))
      (v.top-1)
      (bits .kValid),v.top-1⟩
  | popTagged => ⟨Function.update v.fields 0 (bits .kEmpty),v.top+1⟩
  | popUntagged => ⟨v.fields,v.top+1⟩
  | write i => ⟨Function.update v.fields (cellOf v.top i.val) (bits .kValid),v.top⟩

/-- The depth of the stack, as long as it stays between 0 and 8. -/
def depth (d : ℕ) : StackEffect→Option ℕ
  | push => if d<8 then some (d+1) else none
  | popTagged | popUntagged => if 0<d then some (d-1) else none
  | write _ => some d

end StackEffect

section Primitives
variable (fpu : FEFPU F)

theorem tags_setTag (p : FEFPURegisterName) (tag : FEFPUTag) :
    tags (fpu.setTag p tag)=⟨Function.update (tagField fpu) p (bits tag),topCell fpu⟩ :=
  congrArg (Tags.mk · (topCell fpu)) (tagField_setTag fpu p tag)

theorem tags_setRegister (i : FEFPURegisterName) (v : F) :
    tags (fpu.setRegister i v)=StackEffect.apply (tags fpu) (.write i) := by
  have hset : tags (fpu.setRegister i v)=tags (fpu.setTag (fpu.offset i) .kValid) := rfl
  rw [hset,tags_setTag,offset_eq]
  rfl

theorem tags_incrementTop : tags fpu.incrementTop=StackEffect.apply (tags fpu) .popUntagged :=
  congrArg (Tags.mk (tagField fpu)) (topCell_incrementTop fpu)

theorem tags_popTagged : tags (fpu.setTag 0 .kEmpty).incrementTop=
    StackEffect.apply (tags fpu) .popTagged := by
  rw [tags_incrementTop,tags_setTag]
  rfl

theorem top_eq_zero_iff : fpu.top=0 ↔ topCell fpu=0 := by
  have htop := top_lt fpu
  constructor
  · intro h
    rw [topCell,h]
    rfl
  · intro h
    have hval := congrArg Fin.val h
    rw [topCell,Fin.val_ofNat,Nat.mod_eq_of_lt htop] at hval
    exact BitVec.eq_of_toNat_eq hval

theorem tags_decrementTop : tags fpu.decrementTop=
    ⟨if topCell fpu=0 then tagField fpu else Function.update (tagField fpu) 0 (bits .kEmpty),
      topCell fpu-1⟩ := by
  have htop := topCell_decrementTop fpu
  rw [tags,htop,FEFPU.decrementTop]
  by_cases h : fpu.top=0
  · rw [if_pos h,if_pos ((top_eq_zero_iff fpu).mp h)]
    rfl
  · rw [if_neg h,if_neg (mt (top_eq_zero_iff fpu).mpr h)]
    exact congrArg (Tags.mk · _) (tagField_setTag fpu 0 .kEmpty)

/-- `fe_fpu_decrementTop` and a write to the new top are a push. -/
theorem tags_push (v : F) : tags (fpu.decrementTop.setRegister 0 v)=
    StackEffect.apply (tags fpu) .push := by
  rw [tags_setRegister,tags_decrementTop]
  simp only [StackEffect.apply,tags,Fin.val_zero,cellOf_zero]
  rfl

theorem tags_fninit : tags fpu.fninit=⟨fun _ => bits .kEmpty,0⟩ := by
  have hfull : ∀p : FEFPURegisterName,field 2 (0xffff : U16) p.val=bits .kEmpty := by decide
  have hfields : tagField fpu.fninit=fun _ => bits .kEmpty := funext hfull
  have hword : ((0 : U16)>>>11&&&7).setWidth 8=(0 : U8) := by decide
  have htop : topCell fpu.fninit=0 := (top_eq_zero_iff fpu.fninit).mp hword
  rw [tags,hfields,htop]

end Primitives

section Runs

/-- The register is one of those on a stack of the given depth. -/
def OnStack (top : Fin 8) (d : ℕ) (p : FEFPURegisterName) : Prop := ∃i<d,cellOf top i=p

/-- The last push or tagged pop is followed by nothing but writes to registers other than
`ST(7)`. -/
def GivenBack (effects : List StackEffect) : Prop :=
  ∃before effect after,effects=before++effect::after ∧ (effect=.push ∨ effect=.popTagged) ∧
    ∀e∈after,∃i≠7,e=.write i

/-- What every run keeps: `TOP` is at the depth, the registers on the stack are tagged as valid, and
at the depth 7 the register 0 is tagged as empty exactly when it has been given back. -/
structure Invariant (effects : List StackEffect) (d : ℕ) (v : Tags) : Prop where
  room : d ≤ 8
  top : cellOf v.top d=0
  live : ∀i<d,v.fields (cellOf v.top i)=bits .kValid
  givenBack : d=7→(v.fields 0=bits .kEmpty ↔ GivenBack effects)

section GivenBack
variable (effects : List StackEffect)

theorem givenBack_push : GivenBack (effects++[.push]) := ⟨effects,.push,[],rfl,Or.inl rfl,by simp⟩

theorem givenBack_popTagged : GivenBack (effects++[.popTagged]) :=
  ⟨effects,.popTagged,[],rfl,Or.inr rfl,by simp⟩

/-- Where the last effect is neither, it is one of the writes. -/
theorem givenBack_append {effect : StackEffect} (hpush : effect≠.push) (hpop : effect≠.popTagged) :
    GivenBack (effects++[effect]) ↔ (∃i≠7,effect=.write i) ∧ GivenBack effects := by
  constructor
  · rintro ⟨before,last,after,hsplit,hlast,hafter⟩
    rcases List.eq_nil_or_concat after with rfl | ⟨rest,final,rfl⟩
    · obtain ⟨_,hsame⟩ := List.append_inj' hsplit rfl
      cases hsame
      rcases hlast with h | h
      · exact absurd h hpush
      · exact absurd h hpop
    · have hsplit' : effects++[effect]=(before++last::rest)++[final] := by
        rw [hsplit]
        simp
      obtain ⟨hbefore,hsame⟩ := List.append_inj' hsplit' rfl
      cases hsame
      refine ⟨hafter effect (by simp),before,last,rest,hbefore,hlast,?_⟩
      intro e he
      exact hafter e (by simp [he])
  · rintro ⟨hwrite,before,last,after,rfl,hlast,hafter⟩
    refine ⟨before,last,after++[effect],by simp,hlast,?_⟩
    intro e he
    rcases List.mem_append.mp he with he | he
    · exact hafter e he
    · rwa [List.mem_singleton.mp he]

end GivenBack

/-- Below the bottom of the stack, going around, comes its bottom register again: the register 0. -/
theorem cell_ne_zero {top : Fin 8} {d i : ℕ} (htop : cellOf top d=0) (hd : d ≤ 8) (hi : i<d)
    (hne : d<8 ∨ 0 < i) : cellOf top i≠0 := by
  intro hzero
  rcases Nat.lt_or_ge d 8 with h | h
  · exact hi.ne (cellOf_injective (hi.trans h) h (hzero.trans htop.symm))
  · obtain rfl : d=8 := le_antisymm hd h
    have hback : cellOf top 8=cellOf top 0 := rfl
    exact absurd (cellOf_injective (hi.trans_le hd) (by decide)
      (hzero.trans (htop.symm.trans hback))) (by omega)

namespace Invariant
variable {effects : List StackEffect} {d : ℕ} {v : Tags}

theorem start : Invariant [] 0 ⟨fun _ => bits .kEmpty,0⟩ where
  room := Nat.zero_le 8
  top := rfl
  live := by simp
  givenBack := by simp

theorem push (h : Invariant effects d v) (hd : d<8) :
    Invariant (effects++[.push]) (d+1) (StackEffect.apply v .push) where
  room := hd
  top := (cellOf_succ_of_sub v.top d).trans h.top
  live := by
    intro i hi
    show Function.update _ _ _ (cellOf (v.top-1) i)=_
    cases i with
    | zero => rw [cellOf_zero,Function.update_self]
    | succ i =>
      have hin : i<d := Nat.lt_of_succ_lt_succ hi
      have hnew : cellOf (v.top-1) (i+1)≠v.top-1 := by
        intro he
        have hcell := cellOf_injective (by omega) (by decide)
          (he.trans (cellOf_zero (v.top-1)).symm)
        exact Nat.succ_ne_zero i hcell
      have hzero : cellOf v.top i≠0 := cell_ne_zero h.top h.room hin (Or.inl hd)
      rw [Function.update_of_ne hnew,cellOf_succ_of_sub]
      split
      · exact h.live i hin
      · rw [Function.update_of_ne hzero]
        exact h.live i hin
  givenBack := by
    intro hseven
    refine iff_of_true ?_ (givenBack_push effects)
    obtain rfl : d=6 := Nat.succ_injective hseven
    have htop : v.top=2 := by
      have hcell := h.top
      revert hcell
      generalize v.top=top
      revert top
      decide
    show Function.update _ _ _ (0 : Fin 8)=_
    rw [htop]
    rfl

theorem pop_live (h : Invariant effects d v) {i : ℕ} (hi : i<d-1) :
    v.fields (cellOf (v.top+1) i)=bits .kValid ∧ cellOf (v.top+1) i≠0 := by
  rw [cellOf_of_add]
  have hin : i+1<d := by omega
  exact ⟨h.live (i+1) hin,cell_ne_zero h.top h.room hin (Or.inr i.succ_pos)⟩

theorem pop_top (h : Invariant effects d v) (hd : 0<d) : cellOf (v.top+1) (d-1)=0 := by
  rw [cellOf_of_add,Nat.sub_add_cancel hd]
  exact h.top

theorem popTagged (h : Invariant effects d v) (hd : 0<d) :
    Invariant (effects++[.popTagged]) (d-1) (StackEffect.apply v .popTagged) where
  room := (Nat.sub_le d 1).trans h.room
  top := h.pop_top hd
  live := by
    intro i hi
    obtain ⟨hlive,hzero⟩ := h.pop_live hi
    show Function.update _ _ _ (cellOf (v.top+1) i)=_
    rw [Function.update_of_ne hzero,hlive]
  givenBack := by
    intro _
    refine iff_of_true ?_ (givenBack_popTagged effects)
    show Function.update v.fields 0 (bits .kEmpty) 0=_
    rw [Function.update_self]

theorem popUntagged (h : Invariant effects d v) (hd : 0<d) :
    Invariant (effects++[.popUntagged]) (d-1) (StackEffect.apply v .popUntagged) where
  room := (Nat.sub_le d 1).trans h.room
  top := h.pop_top hd
  live := fun i hi => (h.pop_live hi).1
  givenBack := by
    intro hseven
    obtain rfl : d=8 := by omega
    -- the register 0 was on the stack and keeps its tag
    have hbottom : v.fields 0=bits .kValid := by
      rw [←h.top]
      exact h.live 0 (by decide)
    refine iff_of_false ?_ ?_
    · show v.fields 0≠bits .kEmpty
      rw [hbottom]
      decide
    · rw [givenBack_append effects (by decide) (by decide)]
      rintro ⟨⟨i,_,he⟩,_⟩
      cases he

theorem write (h : Invariant effects d v) (i : FEFPURegisterName) :
    Invariant (effects++[.write i]) d (StackEffect.apply v (.write i)) where
  room := h.room
  top := h.top
  live := by
    intro j hj
    show Function.update _ _ _ (cellOf v.top j)=_
    rw [Function.update_apply]
    split
    · rfl
    · exact h.live j hj
  givenBack := by
    intro hseven
    subst hseven
    rw [givenBack_append effects (by simp) (by simp)]
    show Function.update _ _ _ (0 : Fin 8)=_ ↔ _
    by_cases hi : i=7
    · subst hi
      have hcell : cellOf v.top (7 : Fin 8).val=0 := h.top
      rw [hcell,Function.update_self]
      refine iff_of_false (by decide) ?_
      rintro ⟨⟨j,hj,he⟩,_⟩
      cases he
      exact hj rfl
    · have hcell : 0≠cellOf v.top i.val := by
        intro he
        have hseven := cellOf_injective i.isLt (by decide) (he.symm.trans h.top.symm)
        exact hi (Fin.ext hseven)
      rw [Function.update_of_ne hcell,h.givenBack rfl]
      exact (and_iff_right ⟨i,hi,rfl⟩).symm

theorem step (h : Invariant effects d v) {effect : StackEffect} {d' : ℕ}
    (hdepth : effect.depth d=some d') :
    Invariant (effects++[effect]) d' (effect.apply v) := by
  cases effect with
  | push =>
    obtain ⟨hd,rfl⟩ : d<8 ∧ d+1=d' := by simpa [StackEffect.depth] using hdepth
    exact h.push hd
  | popTagged =>
    obtain ⟨hd,rfl⟩ : 0<d ∧ d-1=d' := by simpa [StackEffect.depth] using hdepth
    exact h.popTagged hd
  | popUntagged =>
    obtain ⟨hd,rfl⟩ : 0<d ∧ d-1=d' := by simpa [StackEffect.depth] using hdepth
    exact h.popUntagged hd
  | write i =>
    cases hdepth
    exact h.write i

theorem run {effects : List StackEffect} {d : ℕ}
    (h : effects.foldlM (fun d effect => effect.depth d) 0=some d) :
    Invariant effects d (effects.foldl StackEffect.apply ⟨fun _ => bits .kEmpty,0⟩) := by
  induction effects using List.reverseRecOn generalizing d with
  | nil =>
    cases h
    exact start
  | append_singleton effects effect ih =>
    rw [List.foldlM_append] at h
    obtain ⟨before,hbefore,hlast⟩ := Option.bind_eq_some_iff.mp h
    rw [List.foldl_append]
    refine (ih hbefore).step ?_
    simpa using hlast

end Invariant

end Runs

section Occupancy

def Tags.ReadsEmpty (v : Tags) (p : FEFPURegisterName) : Prop :=
  v.fields p=bits .kEmpty ∧ ∀q,p<q→v.fields q=bits .kValid

variable {effects : List StackEffect} {d : ℕ} {v : Tags}

theorem Tags.ReadsEmpty.unique {p q : FEFPURegisterName} (hp : v.ReadsEmpty p)
    (hq : v.ReadsEmpty q) : p=q := by
  have hne : bits .kEmpty≠bits .kValid := by decide
  rcases lt_trichotomy p q with h | h | h
  · exact absurd (hq.1.symm.trans (hp.2 q h)) hne
  · exact h
  · exact absurd (hp.1.symm.trans (hq.2 p h)) hne

/-- The registers that are read as empty are those off the stack exactly at the depth 8, and at the
depth 7 when the register 0 has been given back. -/
theorem tracks_iff (h : Invariant effects d v) :
    (∀p,v.ReadsEmpty p ↔ ¬OnStack v.top d p) ↔ d=8 ∨ d=7 ∧ GivenBack effects := by
  have hroom := h.room
  have hoff : ∀{j},d ≤ j→j<8→¬OnStack v.top d (cellOf v.top j) := by
    rintro j hj hlt ⟨i,hi,he⟩
    exact absurd (cellOf_injective (by omega) hlt he) (by omega)
  have hon : ∀p,∃j<8,cellOf v.top j=p := by
    intro p
    refine ⟨(p-v.top).val,(p-v.top).isLt,?_⟩
    rw [cellOf,Fin.ofNat_val_eq_self]
    exact add_sub_cancel v.top p
  constructor
  · intro htracks
    by_cases hseven : d=7
    · subst hseven
      have hzero : ¬OnStack v.top 7 0 := h.top ▸ hoff le_rfl (by decide)
      exact Or.inr ⟨rfl,(h.givenBack rfl).mp ((htracks 0).mpr hzero).1⟩
    by_cases height : d=8
    · exact Or.inl height
    -- two registers are off the stack
    have hfirst := (htracks _).mpr (hoff (j:=d) le_rfl (by omega))
    have hsecond := (htracks _).mpr (hoff (j:=d+1) d.le_succ (by omega))
    exact absurd (cellOf_injective (by omega) (by omega) (hfirst.unique hsecond)) (by omega)
  · rintro (rfl | ⟨rfl,hgiven⟩) p
    · obtain ⟨j,hj,rfl⟩ := hon p
      refine iff_of_false ?_ (not_not.mpr ⟨j,hj,rfl⟩)
      rintro ⟨hempty,_⟩
      exact absurd (hempty.symm.trans (h.live j hj)) (by decide)
    · obtain ⟨j,hj,rfl⟩ := hon p
      rcases Nat.lt_or_ge j 7 with hlt | hge
      · refine iff_of_false ?_ (not_not.mpr ⟨j,hlt,rfl⟩)
        rintro ⟨hempty,_⟩
        exact absurd (hempty.symm.trans (h.live j hlt)) (by decide)
      · obtain rfl : j=7 := by omega
        refine iff_of_true ⟨?_,?_⟩ (hoff le_rfl hj)
        · rw [h.top]
          exact (h.givenBack rfl).mpr hgiven
        · intro q hq
          obtain ⟨i,hi,rfl⟩ := hon q
          rcases Nat.lt_or_ge i 7 with hlt | hge
          · exact h.live i hlt
          · obtain rfl : i=7 := by omega
            exact absurd hq (lt_irrefl _)

end Occupancy

end FalloutEmu.TagWord
