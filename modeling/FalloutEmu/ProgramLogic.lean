import Mathlib.Data.Option.Basic
import Mathlib.Logic.Relation

/-! # Total correctness of programs with visible events

A system is given by what its states offer: a state that offers an event, or the silent step `none`,
together with a set of states has a next state, and whatever the system leaves open, that state is
in the set. -/
namespace FalloutEmu.ProgramLogic
variable {σ τ α β : Type}

inductive Trace (step : σ→Option α→σ→Prop) : σ→List α→σ→Prop
  | refl (s : σ) : Trace step s [] s
  | cons {s t u : σ} {event : Option α} {events : List α} (head : step s event t)
    (tail : Trace step t events u) :
      Trace step s (event.toList++events) u

namespace Trace
variable {step : σ→Option α→σ→Prop} {s t u : σ} {as bs : List α}

theorem trans (h : Trace step s as t) (k : Trace step t bs u) : Trace step s (as++bs) u := by
  induction h with
  | refl s => exact k
  | cons head _ ih =>
    rw [List.append_assoc]
    exact .cons head (ih k)

/-- A run is a path of any relation that makes up its steps. -/
theorem path {R : σ→σ→Prop} (hstep : ∀s event t,step s event t→Relation.ReflTransGen R s t)
    (h : Trace step s as t) : Relation.ReflTransGen R s t := by
  induction h with
  | refl s => exact .refl
  | cons head _ ih => exact (hstep _ _ _ head).trans ih

end Trace

/-- On a path to a state with `P` there is a first one. -/
theorem first_of_reaches {R : σ→σ→Prop} {P : σ→Prop} {s t : σ} (h : Relation.ReflTransGen R s t)
    (ht : P t) :
    ∃u,Relation.ReflTransGen (fun x y => R x y ∧ ¬P x) s u ∧ P u := by
  induction h using Relation.ReflTransGen.head_induction_on with
  | refl => exact ⟨t,.refl,ht⟩
  | @head s s' hstep _ ih =>
    by_cases hs : P s
    · exact ⟨s,.refl,hs⟩
    · obtain ⟨u,hpath,hu⟩ := ih
      exact ⟨u,.head ⟨hstep,hs⟩ hpath,hu⟩

/-- From the state the system reaches `Q`, and its visible events on the way are the given ones. -/
inductive Leads (offers : σ→Option α→(σ→Prop)→Prop) (Q : σ→Prop) : σ→List α→Prop
  | done {s : σ} (h : Q s) : Leads offers Q s []
  | step {s : σ} {event : Option α} {next : σ→Prop} {events : List α} (head : offers s event next)
      (tail : ∀t,next t→Leads offers Q t events) : Leads offers Q s (event.toList++events)

namespace Leads
variable {offers : σ→Option α→(σ→Prop)→Prop} {P Q : σ→Prop} {s : σ} {as bs : List α}

theorem bind (h : Leads offers P s as) (k : ∀t,P t→Leads offers Q t bs) :
    Leads offers Q s (as++bs) := by
  induction h with
  | done h => exact k _ h
  | step head _ ih =>
    rw [List.append_assoc]
    exact .step head fun t ht => ih t ht

/-- The rule of consequence. -/
theorem mono (h : Leads offers P s as) (hPQ : ∀t,P t→Q t) : Leads offers Q s as := by
  have hbind : Leads offers Q s (as++[]) := h.bind fun t ht => .done (hPQ t ht)
  rwa [List.append_nil] at hbind

theorem silent {next : σ→Prop} (head : offers s none next) (tail : ∀t,next t→Leads offers Q t as) :
    Leads offers Q s as :=
  .step head tail

theorem visible {a : α} {next : σ→Prop} (head : offers s (some a) next)
    (tail : ∀t,next t→Leads offers Q t as) : Leads offers Q s (a::as) :=
  .step head tail

/-- The rule of a loop that takes the items of a list one after the other: its body establishes the
invariant for the items that remain. -/
theorem loop {I : List β→σ→Prop} {emit : β→List α}
    (body : ∀b bs s,I (b::bs) s→Leads offers (I bs) s (emit b)) (items : List β) (h : I items s) :
    Leads offers (I []) s (items.flatMap emit) := by
  induction items generalizing s with
  | nil => exact .done h
  | cons b items ih => exact (body b items s h).bind fun _ ht => ih ht

/-- A system that simulates another leads where the other does, over the same events. -/
theorem simulate {step : τ→Option α→τ→Prop} {R : τ→σ→Prop}
    (hsim : ∀x s event next,R x s → offers s event next → ∃y t,step x event y ∧ R y t ∧ next t)
    (h : Leads offers Q s as) {x : τ} (hx : R x s) : ∃y t,Trace step x as y ∧ R y t ∧ Q t := by
  induction h generalizing x with
  | @done s h => exact ⟨x,s,.refl x,hx,h⟩
  | step head _ ih =>
    obtain ⟨y,t,hstep,hy,ht⟩ := hsim _ _ _ _ hx head
    obtain ⟨z,u,htrace,hz,hu⟩ := ih t ht hy
    exact ⟨z,u,.cons hstep htrace,hz,hu⟩

end Leads
end FalloutEmu.ProgramLogic
