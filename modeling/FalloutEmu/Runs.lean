import Mathlib.Data.List.Basic

/-! # Runs of a labelled transition system, and of a system with a hidden state -/
namespace FalloutEmu

/-- `Runs step s₀ as s`: the labels `as`, in order, lead from `s₀` to `s`. -/
inductive Runs {σ α : Type} (step : σ→α→σ→Prop) (s₀ : σ) : List α→σ→Prop
  | start : Runs step s₀ [] s₀
  | next {as : List α} {s : σ} {a : α} {t : σ} : Runs step s₀ as s→step s a t→
    Runs step s₀ (as++[a]) t

namespace Runs
variable {σ α : Type} {step step' : σ→α→σ→Prop} {s₀ s : σ} {as : List α}

/-- A property of the history that holds at the start and that every step extends holds at the end
of every run. -/
theorem history {I : List α→σ→Prop} (hstart : I [] s₀)
    (hnext : ∀as s a t,I as s→step s a t→I (as++[a]) t) (h : Runs step s₀ as s) : I as s := by
  induction h with
  | start => exact hstart
  | next _ ha ih => exact hnext _ _ _ _ ih ha

theorem invariant {I : σ→Prop} (hstart : I s₀) (hnext : ∀s a t,I s→step s a t→I t)
    (h : Runs step s₀ as s) : I s :=
  h.history (I:=fun _ s => I s) hstart (fun _ s a t => hnext s a t)

theorem mono (hs : ∀s a t,step s a t→step' s a t) (h : Runs step s₀ as s) : Runs step' s₀ as s := by
  induction h with
  | start => exact .start
  | next _ ha ih => exact .next ih (hs _ _ _ ha)

end Runs
end FalloutEmu

namespace FalloutEmu.HiddenState
variable {ε α π σ : Type}

/-- `n` steps of a system with a visible state of type `π` and a hidden one of type `σ`, with the
answers of the steps. -/
def run (step : π→σ→Except ε (α×π×σ)) (p : π) (s : σ) : ℕ→Except ε (List α×π×σ)
  | 0 => .ok ([],p,s)
  | n+1 =>
    match run step p s n with
    | .error e => .error e
    | .ok (as,p,s) =>
      match step p s with
      | .error e => .error e
      | .ok (a,p,s) => .ok (as++[a],p,s)

def visible {β : Type} (result : Except ε (β×π×σ)) : Except ε (β×π) :=
  result.map fun r => (r.1,r.2.1)

@[simp] theorem visible_ok {β : Type} (b : β) (p : π) (s : σ) :
    visible (.ok (b,p,s) : Except ε (β×π×σ))=.ok (b,p) := rfl

@[simp] theorem visible_error {β : Type} (e : ε) : visible (.error e : Except ε (β×π×σ))=.error e :=
  rfl

theorem visible_eq_visible {β : Type} {result result' : Except ε (β×π×σ)}
    (h : visible result=visible result') :
    (∃e,result=.error e ∧ result'=.error e) ∨
      ∃b p s s',result=.ok (b,p,s) ∧ result'=.ok (b,p,s') := by
  cases result with
  | error e =>
    cases result' with
    | error e' =>
      obtain rfl : e=e' := Except.error.inj h
      exact .inl ⟨e,rfl,rfl⟩
    | ok r' => cases h
  | ok r =>
    cases result' with
    | error e' => cases h
    | ok r' =>
      obtain ⟨b,p,s⟩ := r
      obtain ⟨b',p',s'⟩ := r'
      obtain ⟨rfl,rfl⟩ := Prod.mk.inj (Except.ok.inj h)
      exact .inr ⟨b,p,s,s',rfl,rfl⟩

variable {step : π→σ→Except ε (α×π×σ)} {p : π} {s s' : σ}

theorem run_succ_of_ok {n : ℕ} {as : List α} {q : π} {t : σ} (h : run step p s n=.ok (as,q,t)) :
    run step p s (n+1)=
      match step q t with
      | .error e => .error e
      | .ok (a,q,t) => .ok (as++[a],q,t) := by
  rw [run,h]

/-- A property of the answers and the hidden state that every step extends holds after every run. -/
theorem run_history {I : List α→σ→Prop} (hstart : I [] s)
    (hnext : ∀as q t a q' t',I as t → step q t=.ok (a,q',t') → I (as++[a]) t')
    {n : ℕ} {as : List α} {q : π} {t : σ} (h : run step p s n=.ok (as,q,t)) : I as t := by
  induction n generalizing as q t with
  | zero =>
    obtain ⟨rfl,rfl,rfl⟩ := by simpa [run] using h
    exact hstart
  | succ n ih =>
    cases hn : run step p s n with
    | error e => simp [run,hn] at h
    | ok r =>
      obtain ⟨as₁,q₁,t₁⟩ := r
      rw [run_succ_of_ok hn] at h
      cases hs : step q₁ t₁ with
      | error e => simp [hs] at h
      | ok r =>
        obtain ⟨a,q₂,t₂⟩ := r
        simp only [hs,Except.ok.injEq,Prod.mk.injEq] at h
        obtain ⟨rfl,rfl,rfl⟩ := h
        exact hnext as₁ q₁ t₁ a q₂ t₂ (ih hn) hs

/-- Two runs look alike if every step looks alike that both reach. -/
theorem visible_run_eq {n : ℕ}
    (h : ∀k<n,∀as q t t',run step p s k=.ok (as,q,t) → run step p s' k=.ok (as,q,t') →
      visible (step q t)=visible (step q t')) :
    visible (run step p s n)=visible (run step p s' n) := by
  induction n with
  | zero => rfl
  | succ n ih =>
    have hn := ih fun k hk => h k (Nat.lt_succ_of_lt hk)
    rcases visible_eq_visible hn with ⟨e,hrun,hrun'⟩ | ⟨as,q,t,t',hrun,hrun'⟩
    · simp [run,hrun,hrun']
    · rw [run_succ_of_ok hrun,run_succ_of_ok hrun']
      rcases visible_eq_visible (h n (Nat.lt_succ_self n) as q t t' hrun hrun') with
        ⟨e,hstep,hstep'⟩ | ⟨a,r,u,u',hstep,hstep'⟩
      · rw [hstep,hstep']
      · rw [hstep,hstep']
        rfl

/-- Hidden states that a relation ties together stay tied and are never told apart. -/
theorem visible_run_eq_of_relation {R : σ→σ→Prop} (hR : R s s')
    (hvisible : ∀q t t',R t t' → visible (step q t)=visible (step q t'))
    (hnext : ∀q t t' a r u u',R t t' → step q t=.ok (a,r,u) → step q t'=.ok (a,r,u') → R u u')
    (n : ℕ) :
    visible (run step p s n)=visible (run step p s' n) := by
  have hrelated : (∃e,run step p s n=.error e ∧ run step p s' n=.error e) ∨
      ∃as q t t',run step p s n=.ok (as,q,t) ∧ run step p s' n=.ok (as,q,t') ∧ R t t' := by
    induction n with
    | zero => exact .inr ⟨[],p,s,s',rfl,rfl,hR⟩
    | succ n ih =>
      rcases ih with ⟨e,hrun,hrun'⟩ | ⟨as,q,t,t',hrun,hrun',ht⟩
      · exact .inl ⟨e,by rw [run,hrun],by rw [run,hrun']⟩
      · rw [run_succ_of_ok hrun,run_succ_of_ok hrun']
        rcases visible_eq_visible (hvisible q t t' ht) with ⟨e,hstep,hstep'⟩ | ⟨a,r,u,u',
          hstep,hstep'⟩
        · exact .inl ⟨e,by rw [hstep],by rw [hstep']⟩
        · exact .inr ⟨as++[a],r,u,u',
            by rw [hstep],by rw [hstep'],hnext q t t' a r u u' ht hstep hstep'⟩
  rcases hrelated with ⟨e,hrun,hrun'⟩ | ⟨as,q,t,t',hrun,hrun',-⟩
  · rw [hrun,hrun']
  · rw [hrun,hrun',visible_ok,visible_ok]

end FalloutEmu.HiddenState
