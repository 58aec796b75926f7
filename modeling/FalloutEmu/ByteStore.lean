import Mathlib.Algebra.BigOperators.Group.List.Basic
import Mathlib.Algebra.GroupWithZero.Nat
import Mathlib.Data.List.Basic
import Mathlib.Data.List.Range
import Mathlib.Tactic.Linarith
import Mathlib.Tactic.Ring

/-! # Byte stores: block reads, block writes, little-endian words and intervals that do not meet -/
namespace FalloutEmu.ByteStore

section Cells
variable {β : Type}

def readAt (m : ℕ→β) (p n : ℕ) : List β := (List.range n).map fun i => m (p+i)

/-- Replaces the cells from `p` by `bs`; every other cell keeps its content. -/
def writeAt (m : ℕ→β) (p : ℕ) (bs : List β) : ℕ→β :=
  fun a => if h : p ≤ a ∧ a-p<bs.length then bs.get ⟨a-p,h.2⟩ else m a

@[simp] theorem length_readAt (m : ℕ→β) (p n : ℕ) : (readAt m p n).length=n := by simp [readAt]

@[simp] theorem readAt_zero (m : ℕ→β) (p : ℕ) : readAt m p 0=[] := rfl

@[simp] theorem getElem_readAt (m : ℕ→β) (p n i : ℕ) (h : i<(readAt m p n).length) :
    (readAt m p n)[i]=m (p+i) := by simp [readAt]

theorem readAt_congr {m m' : ℕ→β} {p n : ℕ} (h : ∀i<n,m (p+i)=m' (p+i)) :
    readAt m p n=readAt m' p n := by
  apply List.map_congr_left
  intro i hi
  exact h i (List.mem_range.mp hi)

theorem readAt_add (m : ℕ→β) (p n k : ℕ) : readAt m p (n+k)=readAt m p n++readAt m (p+n) k := by
  simp [readAt,List.range_add,Function.comp_def,Nat.add_assoc]

theorem writeAt_apply_of_outside {m : ℕ→β} {p a : ℕ} {bs : List β} (h : a < p ∨ p+bs.length ≤ a) :
    writeAt m p bs a=m a := by
  have hn : ¬(p ≤ a ∧ a-p<bs.length) := by omega
  simp [writeAt,hn]

theorem writeAt_apply_add (m : ℕ→β) (p : ℕ) (bs : List β) (i : ℕ) (h : i<bs.length) :
    writeAt m p bs (p+i)=bs[i] := by
  simp [writeAt,h]

@[simp] theorem writeAt_nil (m : ℕ→β) (p : ℕ) : writeAt m p []=m := by
  funext a
  exact writeAt_apply_of_outside (by simp; omega)

theorem readAt_writeAt_self (m : ℕ→β) (p : ℕ) (bs : List β) :
    readAt (writeAt m p bs) p bs.length=bs := by
  apply List.ext_getElem (by simp)
  intro i hi _
  simpa using writeAt_apply_add m p bs i (by simpa using hi)

theorem readAt_writeAt_of_disjoint {m : ℕ→β} {p q n : ℕ} {bs : List β}
    (h : p+bs.length ≤ q ∨ q+n ≤ p) : readAt (writeAt m p bs) q n=readAt m q n := by
  apply readAt_congr
  intro i hi
  exact writeAt_apply_of_outside (by omega)

/-- Stores to ranges that do not overlap may change places. -/
theorem writeAt_comm (m : ℕ→β) {p q : ℕ} {bs cs : List β} (h : p+bs.length ≤ q ∨ q+cs.length ≤ p) :
    writeAt (writeAt m p bs) q cs=writeAt (writeAt m q cs) p bs := by
  funext a
  by_cases hp : p ≤ a ∧ a < p+bs.length
  · obtain ⟨i,rfl⟩ := Nat.exists_eq_add_of_le hp.1
    have hi : i<bs.length := by omega
    rw [writeAt_apply_of_outside (by omega),writeAt_apply_add _ _ _ i hi,
      writeAt_apply_add _ _ _ i hi]
  · have hout : a < p ∨ p+bs.length ≤ a := by omega
    rw [writeAt_apply_of_outside (m:=writeAt m q cs) hout]
    by_cases hq : q ≤ a ∧ a < q+cs.length
    · obtain ⟨i,rfl⟩ := Nat.exists_eq_add_of_le hq.1
      have hi : i<cs.length := by omega
      rw [writeAt_apply_add _ _ _ i hi,writeAt_apply_add _ _ _ i hi]
    · rw [writeAt_apply_of_outside (by omega),writeAt_apply_of_outside hout,
        writeAt_apply_of_outside (by omega)]

theorem readAt_writeAt_start (m : ℕ→β) (p : ℕ) (bs : List β) (k : ℕ) :
    readAt (writeAt m p bs) p (bs.length+k)=bs++readAt m (p+bs.length) k := by
  rw [readAt_add,readAt_writeAt_self,readAt_writeAt_of_disjoint (Or.inl (Nat.le_refl _))]

theorem readAt_writeAt_replicate (m : ℕ→β) (b : β) {p q n k : ℕ} (hlow : p ≤ q)
    (hhigh : q+k ≤ p+n) :
    readAt (writeAt m p (List.replicate n b)) q k=List.replicate k b := by
  obtain ⟨j,rfl⟩ := Nat.exists_eq_add_of_le hlow
  apply List.ext_getElem (by simp)
  intro i hi _
  rw [length_readAt] at hi
  rw [getElem_readAt,Nat.add_assoc,
    writeAt_apply_add _ _ _ _ (by simp only [List.length_replicate]; omega)]
  simp

theorem readAt_writeAt_part (m d : ℕ→β) {p q n k l : ℕ} (h : k+l ≤ n) :
    readAt (writeAt m p (readAt d q n)) (p+k) l=readAt d (q+k) l := by
  apply List.map_congr_left
  intro i hi
  have hin := List.mem_range.mp hi
  rw [Nat.add_assoc,Nat.add_assoc,writeAt_apply_add _ _ _ _ (by rw [length_readAt]; omega),
    getElem_readAt]

/-- A write of two pieces is the write of the first followed by the write of the second. -/
theorem writeAt_append (m : ℕ→β) (p : ℕ) (bs cs : List β) :
    writeAt m p (bs++cs)=writeAt (writeAt m p bs) (p+bs.length) cs := by
  funext a
  by_cases h₁ : p+bs.length ≤ a ∧ a-(p+bs.length)<cs.length
  · obtain ⟨i,rfl⟩ := Nat.exists_eq_add_of_le h₁.1
    have hi : i<cs.length := by omega
    rw [writeAt_apply_add _ _ _ _ hi,Nat.add_assoc,writeAt_apply_add _ _ _ _ (by simp; omega)]
    simp
  · rw [writeAt_apply_of_outside (p:=p+bs.length) (by omega)]
    by_cases h₂ : p ≤ a ∧ a-p<bs.length
    · obtain ⟨i,rfl⟩ := Nat.exists_eq_add_of_le h₂.1
      have hi : i<bs.length := by omega
      rw [writeAt_apply_add _ _ _ _ hi,writeAt_apply_add _ _ _ _ (by simp; omega),
        List.getElem_append_left hi]
    · rw [writeAt_apply_of_outside (by simp; omega),writeAt_apply_of_outside (by omega)]

/-- Stores `bs` one cell after the other, the `i`-th at `p i`. -/
def scatter (m : ℕ→β) (p : ℕ→ℕ) : List β→ℕ→β
  | [] => m
  | b::bs => scatter (writeAt m (p 0) [b]) (fun i => p (i+1)) bs

theorem scatter_consecutive {m : ℕ→β} {p : ℕ→ℕ} {q : ℕ} {bs : List β} (h : ∀i<bs.length,p i=q+i) :
    scatter m p bs=writeAt m q bs := by
  induction bs generalizing m p q with
  | nil => simp [scatter]
  | cons b bs ih =>
    have hhead : p 0=q := h 0 (by simp)
    rw [←List.singleton_append,writeAt_append,List.singleton_append,scatter,hhead]
    apply ih
    intro i hi
    rw [h (i+1) (by simpa using hi),List.length_singleton]
    omega

/-- A cell ends as it was, or with one of the values stored at it. -/
theorem scatter_apply (m : ℕ→β) (p : ℕ→ℕ) (bs : List β) (c : ℕ) : scatter m p bs c=m c ∨
    ∃i,∃h : i<bs.length,p i=c ∧ scatter m p bs c=bs[i] := by
  induction bs generalizing m p with
  | nil => exact Or.inl rfl
  | cons b bs ih =>
    rcases ih (writeAt m (p 0) [b]) (fun i => p (i+1)) with hold|⟨i,hi,hp,hval⟩
    · rw [scatter,hold]
      by_cases hc : p 0=c
      · right
        refine ⟨0,by simp,hc,?_⟩
        subst hc
        simpa using writeAt_apply_add m (p 0) [b] 0 (by simp)
      · left
        apply writeAt_apply_of_outside
        simp only [List.length_singleton]
        omega
    · exact Or.inr ⟨i+1,by simpa using hi,hp,by simpa [scatter] using hval⟩

/-- Only consecutive cells take every list of bytes as one write does. -/
theorem consecutive_of_scatter {m : ℕ→BitVec 8} {p : ℕ→ℕ} {n : ℕ}
    (h : ∀bs : List (BitVec 8),bs.length=n→scatter m p bs=writeAt m (p 0) bs) : ∀i<n,p i=p 0+i := by
  intro i hi
  by_contra hne
  -- a byte that is neither the padding nor the old content of the cell
  obtain ⟨x,hzero,hold⟩ : ∃x : BitVec 8,x≠0 ∧ x≠m (p 0+i) := by
    by_cases hone : m (p 0+i)=1
    · exact ⟨2,by decide,by rw [hone]; decide⟩
    · exact ⟨1,by decide,Ne.symm hone⟩
  let bs := (List.replicate n (0 : BitVec 8)).set i x
  have hlen : bs.length=n := by simp [bs]
  have hwrite : writeAt m (p 0) bs (p 0+i)=x := by
    rw [writeAt_apply_add _ _ _ _ (by omega)]
    simp [bs]
  rw [←h bs hlen] at hwrite
  rcases scatter_apply m p bs (p 0+i) with hkept|⟨j,hj,hp,hval⟩
  · exact hold (hwrite.symm.trans hkept)
  · have hji : j≠i := by
      rintro rfl
      exact hne hp
    have hpad : bs[j]=0 := by simp [bs,hji.symm]
    exact hzero ((hwrite.symm.trans hval).trans hpad)

end Cells

section LittleEndian

def littleEndian : ℕ→ℕ→List (BitVec 8)
  | 0,_ => []
  | n+1,v => BitVec.ofNat 8 v::littleEndian n (v/256)

/-- The number whose bytes, least significant first, are `bs`. -/
def value : List (BitVec 8)→ℕ
  | [] => 0
  | b::bs => b.toNat+256*value bs

@[simp] theorem length_littleEndian (n v : ℕ) : (littleEndian n v).length=n := by
  induction n generalizing v with
  | zero => rfl
  | succ n ih => simp [littleEndian,ih]

theorem value_lt (bs : List (BitVec 8)) : value bs<256^bs.length := by
  induction bs with
  | nil => simp [value]
  | cons b bs ih =>
    have hb : b.toNat<256 := b.isLt
    rw [value,List.length_cons,pow_succ]
    omega

theorem value_littleEndian (n v : ℕ) : value (littleEndian n v)=v%256^n := by
  induction n generalizing v with
  | zero => simp [littleEndian,value,Nat.mod_one]
  | succ n ih =>
    have hbyte : (BitVec.ofNat 8 v).toNat=v%256 := BitVec.toNat_ofNat v 8
    rw [littleEndian,value,ih,hbyte,pow_succ',Nat.mod_mul]

theorem littleEndian_value (bs : List (BitVec 8)) : littleEndian bs.length (value bs)=bs := by
  induction bs with
  | nil => rfl
  | cons b bs ih =>
    have hb : b.toNat<256 := b.isLt
    have hhead : BitVec.ofNat 8 (b.toNat+256*value bs)=b := by
      apply BitVec.eq_of_toNat_eq
      rw [BitVec.toNat_ofNat]
      omega
    have htail : (b.toNat+256*value bs)/256=value bs := by omega
    simp only [List.length_cons,littleEndian,value,hhead,htail,ih]

/-- A word of `w=8*n` bits is recovered from its `n` bytes. -/
theorem ofNat_value_littleEndian {w n : ℕ} (hw : w=8*n) (v : BitVec w) :
    BitVec.ofNat w (value (littleEndian n v.toNat))=v := by
  subst hw
  have hlt : v.toNat<256^n := by
    have h := v.isLt
    rwa [pow_mul] at h
  apply BitVec.eq_of_toNat_eq
  rw [value_littleEndian,Nat.mod_eq_of_lt hlt,BitVec.toNat_ofNat,Nat.mod_eq_of_lt v.isLt]

/-- The bytes of the word of `w=8*n` bits that has these `n` bytes. -/
theorem littleEndian_ofNat_value {w n : ℕ} (hw : w=8*n) {bs : List (BitVec 8)}
    (hlen : bs.length=n) :
    littleEndian n (BitVec.ofNat w (value bs)).toNat=bs := by
  subst hw hlen
  have hlt : value bs<2^(8*bs.length) := by
    rw [pow_mul]
    exact value_lt bs
  rw [BitVec.toNat_ofNat,Nat.mod_eq_of_lt hlt,littleEndian_value]

end LittleEndian

section Bits

/-- Bit `i` of the store, counted from the lowest bit of byte `0`. -/
def bit (m : ℕ→BitVec 8) (i : ℕ) : Bool := (m (i/8)).getLsbD (i%8)

theorem testBit_value (bs : List (BitVec 8)) (i : ℕ) :
    (value bs).testBit i=(bs.getD (i/8) 0).getLsbD (i%8) := by
  induction bs generalizing i with
  | nil => simp [value]
  | cons b bs ih =>
    have hb : b.toNat<2^8 := b.isLt
    have hsplit : value (b::bs)=2^8*value bs+b.toNat := by
      simp [value,Nat.add_comm]
    rw [hsplit,Nat.testBit_two_pow_mul_add _ hb]
    by_cases hi : i<8
    · rw [if_pos hi,Nat.div_eq_of_lt hi,Nat.mod_eq_of_lt hi]
      rfl
    · have hdiv : i/8=(i-8)/8+1 := by omega
      have hmod : i%8=(i-8)%8 := by omega
      rw [if_neg hi,ih,hdiv,hmod]
      rfl

theorem testBit_value_readAt (m : ℕ→BitVec 8) (p n i : ℕ) (h : i<8*n) :
    (value (readAt m p n)).testBit i=bit m (8*p+i) := by
  have hbyte : i/8<n := by omega
  have hdiv : (8*p+i)/8=p+i/8 := by omega
  have hmod : (8*p+i)%8=i%8 := by omega
  rw [testBit_value,bit,hdiv,hmod]
  simp [readAt,hbyte]

theorem getLsbD_littleEndian (n v i : ℕ) (h : i<8*n) :
    ((littleEndian n v).getD (i/8) 0).getLsbD (i%8)=v.testBit i := by
  have hpow : 256^n=2^(8*n) := by
    rw [pow_mul]
    rfl
  rw [←testBit_value,value_littleEndian,hpow,Nat.testBit_mod_two_pow]
  simp [h]

theorem bit_writeAt_littleEndian (m : ℕ→BitVec 8) (p n v i : ℕ) :
    bit (writeAt m p (littleEndian n v)) i=
      if 8*p ≤ i ∧ i<8*(p+n) then v.testBit (i-8*p) else bit m i := by
  by_cases h : 8*p ≤ i ∧ i<8*(p+n)
  · have hbit := getLsbD_littleEndian n v (i-8*p) (by omega)
    have hbyte : i/8=p+(i-8*p)/8 := by omega
    have hmod : i%8=(i-8*p)%8 := by omega
    have hlen : (i-8*p)/8<(littleEndian n v).length := by
      rw [length_littleEndian]
      omega
    rw [if_pos h,bit,hbyte,hmod,writeAt_apply_add _ _ _ _ hlen,←hbit,List.getD_eq_getElem?_getD,
      List.getElem?_eq_getElem hlen,Option.getD_some]
  · rw [if_neg h,bit,bit]
    congr 1
    apply writeAt_apply_of_outside
    rw [length_littleEndian]
    omega

end Bits
end FalloutEmu.ByteStore

namespace FalloutEmu.Intervals
variable {α : Type} {start size : α→ℕ}

/-- The interval of `b` ends where that of `c` starts, or earlier. -/
def Before (start size : α→ℕ) (b c : α) : Prop := start b+size b ≤ start c

def Apart (start size : α→ℕ) (b c : α) : Prop := Before start size b c ∨ Before start size c b

instance : Std.Symm (Apart start size) := ⟨fun _ _ => Or.symm⟩

/-- In the order of their starts, disjoint intervals follow each other. -/
theorem pairwise_before {l : List α} (hsorted : l.Pairwise fun b c => start b ≤ start c)
    (hdisjoint : l.Pairwise (Apart start size)) (hpositive : ∀b∈l,0<size b) :
    l.Pairwise (Before start size) := by
  refine (hsorted.and hdisjoint).imp_of_mem ?_
  rintro b c _ hc ⟨hle,hbefore | hafter⟩
  · exact hbefore
  · have hpos := hpositive c hc
    unfold Before at hafter
    omega

/-- Intervals that follow each other between `a` and `limit` have at most that much room. -/
theorem sum_size_le {l : List α} {a limit : ℕ} (h : l.Pairwise (Before start size)) (ha : a ≤ limit)
    (hlow : ∀b∈l,a ≤ start b) (hhigh : ∀b∈l,start b+size b ≤ limit) :
    a+(l.map size).sum ≤ limit := by
  induction l generalizing a with
  | nil => simpa using ha
  | cons b l ih =>
    rw [List.pairwise_cons] at h
    have hb := hlow b (by simp)
    have hrest := ih h.2 (hhigh b (by simp)) h.1 fun c hc => hhigh c (List.mem_cons_of_mem _ hc)
    rw [List.map_cons,List.sum_cons]
    omega

/-- Intervals that lie apart between `a` and `limit`, in whatever order, have at most that much
room. -/
theorem sum_size_le_of_apart {l : List α} {a limit : ℕ} (h : l.Pairwise (Apart start size))
    (hpositive : ∀b∈l,0<size b) (ha : a ≤ limit) (hlow : ∀b∈l,a ≤ start b)
    (hhigh : ∀b∈l,start b+size b ≤ limit) :
    a+(l.map size).sum ≤ limit := by
  let sorted := l.mergeSort fun b c => decide (start b ≤ start c)
  have hperm : sorted.Perm l := List.mergeSort_perm _ _
  have hsorted : sorted.Pairwise fun b c => start b ≤ start c := by
    refine (List.pairwise_mergeSort ?_ ?_ l).imp (fun hbc => of_decide_eq_true hbc)
    · intro b c d hbc hcd
      exact decide_eq_true (Nat.le_trans (of_decide_eq_true hbc) (of_decide_eq_true hcd))
    · intro b c
      simpa using Nat.le_total (start b) (start c)
  have hbefore := pairwise_before hsorted ((hperm.pairwise_iff Or.symm).mpr h)
    fun b hb => hpositive b (hperm.mem_iff.mp hb)
  have hsum := sum_size_le hbefore ha (fun b hb => hlow b (hperm.mem_iff.mp hb))
    fun b hb => hhigh b (hperm.mem_iff.mp hb)
  rwa [(hperm.map size).sum_eq] at hsum

end FalloutEmu.Intervals
