import Mathlib.Order.Defs.Unbundled

/-! # Programs over an environment and a state that may stop -/
namespace FalloutEmu

/-- A program: it reads an environment of type `ρ`, changes a state of type `σ`, and either returns
or stops for a reason of type `ε`, in the state that it has reached. -/
def Exec (ε ρ σ α : Type) : Type := ρ→σ→Except (ε×σ) (α×σ)

namespace Exec
variable {ε ρ σ α β : Type}

instance : Monad (Exec ε ρ σ) where
  pure a := fun _ s => .ok (a,s)
  bind x f := fun env s =>
    match x env s with
    | .ok (a,t) => f a env t
    | .error e => .error e

def get : Exec ε ρ σ σ := fun _ s => .ok (s,s)

def environment : Exec ε ρ σ ρ := fun env s => .ok (env,s)

def modify (f : σ→σ) : Exec ε ρ σ Unit := fun _ s => .ok ((),f s)

def fail (e : ε) : Exec ε ρ σ α := fun _ s => .error (e,s)

/-- One step: where it stops, it has not changed the state. -/
def atomic (f : ρ→σ→Except ε (α×σ)) : Exec ε ρ σ α := fun env s => (f env s).mapError fun e => (e,s)

def ofExcept (x : Except ε α) : Exec ε ρ σ α := atomic fun _ s => x.map fun a => (a,s)

@[simp] theorem pure_run (a : α) (env : ρ) (s : σ) : (pure a : Exec ε ρ σ α) env s=.ok (a,s) := rfl

@[simp] theorem get_run (env : ρ) (s : σ) : (get : Exec ε ρ σ σ) env s=.ok (s,s) := rfl

@[simp] theorem environment_run (env : ρ) (s : σ) : (environment : Exec ε ρ σ ρ) env s=
    .ok (env,s) := rfl

@[simp] theorem modify_run (f : σ→σ) (env : ρ) (s : σ) :
    (modify f : Exec ε ρ σ Unit) env s=.ok ((),f s) := rfl

@[simp] theorem fail_run (e : ε) (env : ρ) (s : σ) : (fail e : Exec ε ρ σ α) env s=.error (e,s) :=
  rfl

theorem atomic_of_ok {f : ρ→σ→Except ε (α×σ)} {env : ρ} {s : σ} {r : α×σ} (h : f env s=.ok r) :
    atomic f env s=.ok r := by
  rw [atomic,h]
  rfl

theorem atomic_of_error {f : ρ→σ→Except ε (α×σ)} {env : ρ} {s : σ} {e : ε} (h : f env s=.error e) :
    atomic f env s=.error (e,s) := by
  rw [atomic,h]
  rfl

theorem atomic_eq_ok {f : ρ→σ→Except ε (α×σ)} {env : ρ} {s : σ} {r : α×σ} :
    atomic f env s=.ok r ↔ f env s=.ok r := by
  cases h : f env s with
  | ok t => simp [atomic_of_ok h]
  | error e => simp [atomic_of_error h]

@[simp] theorem ofExcept_ok (a : α) (env : ρ) (s : σ) :
    (ofExcept (.ok a) : Exec ε ρ σ α) env s=.ok (a,s) := rfl

@[simp] theorem ofExcept_error (e : ε) (env : ρ) (s : σ) :
    (ofExcept (.error e) : Exec ε ρ σ α) env s=.error (e,s) := rfl

theorem ofExcept_eq_ok {x : Except ε α} {env : ρ} {s t : σ} {a : α} :
    (ofExcept x : Exec ε ρ σ α) env s=.ok (a,t) ↔ x=.ok a ∧ s=t := by
  cases x with
  | ok b => simp
  | error e => simp

theorem bind_run {x : Exec ε ρ σ α} {f : α→Exec ε ρ σ β} {env : ρ} {s t : σ} {a : α}
    (h : x env s=.ok (a,t)) : (x >>= f) env s=f a env t := by
  simp [bind,h]

theorem bind_stops {x : Exec ε ρ σ α} {f : α→Exec ε ρ σ β} {env : ρ} {s : σ} {stop : ε×σ}
    (h : x env s=.error stop) : (x >>= f) env s=.error stop := by
  simp [bind,h]

theorem bind_eq_ok {x : Exec ε ρ σ α} {f : α→Exec ε ρ σ β} {env : ρ} {s t : σ} {b : β} :
    (x >>= f) env s=.ok (b,t) ↔ ∃a u,x env s=.ok (a,u) ∧ f a env u=.ok (b,t) := by
  constructor
  · intro h
    cases hx : x env s with
    | ok r => exact ⟨r.1,r.2,rfl,by simpa [bind,hx] using h⟩
    | error e => simp [bind,hx] at h
  · rintro ⟨a,u,hx,hf⟩
    rw [bind_run hx,hf]

/-- Every return of the program relates the state before it to the state after it. -/
def Within (R : σ→σ→Prop) (x : Exec ε ρ σ α) : Prop := ∀env s a t,x env s=.ok (a,t)→R s t

/-- Every value that the program returns satisfies `P`. -/
def Returns (P : α→Prop) (x : Exec ε ρ σ α) : Prop := ∀env s a t,x env s=.ok (a,t)→P a

namespace Returns
variable {P : α→Prop} {x y : Exec ε ρ σ α}

theorem pure {a : α} (h : P a) : Returns P (pure a : Exec ε ρ σ α) := by
  intro env s b t ht
  cases ht
  exact h

theorem fail (e : ε) : Returns P (fail e : Exec ε ρ σ α) := by
  intro env s a t h
  cases h

theorem bind {z : Exec ε ρ σ β} {f : β→Exec ε ρ σ α} (hf : ∀b,Returns P (f b)) :
    Returns P (z >>= f) := by
  intro env s a t h
  obtain ⟨b,u,_,h⟩ := bind_eq_ok.mp h
  exact hf b env u a t h

theorem ite {c : Prop} [Decidable c] (hx : Returns P x) (hy : Returns P y) :
    Returns P (if c then x else y) := by
  split
  · exact hx
  · exact hy

end Returns

namespace Within
variable {R : σ→σ→Prop} {x : Exec ε ρ σ α}

theorem pure [Std.Refl R] (a : α) : Within R (pure a : Exec ε ρ σ α) := by
  intro env s b t h
  cases h
  exact refl_of R s

theorem bind [IsTrans σ R] {f : α→Exec ε ρ σ β} (hx : Within R x) (hf : ∀a,Within R (f a)) :
    Within R (x >>= f) := by
  intro env s b t h
  obtain ⟨a,u,h₁,h₂⟩ := bind_eq_ok.mp h
  exact trans_of R (hx env s a u h₁) (hf a env u b t h₂)

/-- A sequence whose second part relies on what the first returns. -/
theorem bind_returns [IsTrans σ R] {P : α→Prop} {f : α→Exec ε ρ σ β} (hp : x.Returns P)
    (hx : Within R x) (hf : ∀a,P a→Within R (f a)) : Within R (x >>= f) := by
  intro env s b t h
  obtain ⟨a,u,h₁,h₂⟩ := bind_eq_ok.mp h
  exact trans_of R (hx env s a u h₁) (hf a (hp env s a u h₁) env u b t h₂)

theorem ite {c : Prop} [Decidable c] {y : Exec ε ρ σ α} (hx : Within R x) (hy : Within R y) :
    Within R (if c then x else y) := by
  split
  · exact hx
  · exact hy

theorem get [Std.Refl R] : Within R (get : Exec ε ρ σ σ) := by
  intro env s a t h
  cases h
  exact refl_of R s

theorem environment [Std.Refl R] : Within R (environment : Exec ε ρ σ ρ) := by
  intro env s a t h
  cases h
  exact refl_of R s

theorem fail (e : ε) : Within R (fail e : Exec ε ρ σ α) := by
  intro env s a t h
  cases h

theorem modify {f : σ→σ} (h : ∀s,R s (f s)) : Within R (modify f : Exec ε ρ σ Unit) := by
  intro env s a t ht
  cases ht
  exact h s

theorem ofExcept [Std.Refl R] (e : Except ε α) : Within R (ofExcept e : Exec ε ρ σ α) := by
  intro env s a t h
  cases e with
  | ok b =>
    cases h
    exact refl_of R s
  | error e => cases h

end Within
end Exec
end FalloutEmu
