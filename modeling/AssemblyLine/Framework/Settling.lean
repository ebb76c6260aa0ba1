import AssemblyLine.Framework.Machine
import Mathlib.Order.OrderIsoNat

/-!
# Machines that settle

A machine settles when, left to the actions it is allowed, it cannot go on for ever, and comes to
rest only where it should: however the actions are chosen, a run that can go no further has ended
in a state with the property asked for.  Every party with something left to do eventually does it
is all the fairness this needs.

`Settles.of_falling` is the rule: an invariant, a measure into a well-founded order that every
allowed action lets fall, and the argument that a state at rest has the property.  What settles can
be brought to rest (`Settles.exists_rest`).
-/

namespace AssemblyLine

universe u v

variable {σ : Type u} {α : Type v}

/-- No allowed action is possible. -/
def AtRest (step : σ → α → Option σ) (allowed : σ → α → Prop) (s : σ) : Prop :=
  ∀ a, allowed s a → step s a = none

/-- However the allowed actions are chosen, there are finitely many of them, and where no more is
possible `done` holds. -/
structure Settles (step : σ → α → Option σ) (allowed : σ → α → Prop) (done : σ → Prop) (s : σ) :
    Prop where
  ends : ∀ (states : ℕ → σ) (acts : ℕ → α), states 0 = s →
    ¬ ∀ n, allowed (states n) (acts n) ∧ step (states n) (acts n) = some (states (n + 1))
  rests : ∀ h t, Run step allowed actionsShown s h t → AtRest step allowed t → done t

/-- A measure that every allowed action lets fall, while an invariant holds. -/
theorem Settles.of_falling {step : σ → α → Option σ} {allowed : σ → α → Prop} {done I : σ → Prop}
    {β : Type*} [Preorder β] [WellFoundedLT β] (measure : σ → β)
    (keeps : ∀ s a t, I s → allowed s a → step s a = some t → I t)
    (falls : ∀ s a t, I s → allowed s a → step s a = some t → measure t < measure s)
    (atRest : ∀ s, I s → AtRest step allowed s → done s) {s : σ} (hs : I s) :
    Settles step allowed done s where
  ends := by
    intro states acts hfirst hruns
    have hkept : ∀ n, I (states n) := by
      intro n
      induction n with
      | zero =>
          rw [hfirst]
          exact hs
      | succ n ih => exact keeps _ _ _ ih (hruns n).1 (hruns n).2
    apply not_strictAnti_of_wellFoundedLT fun n => measure (states n)
    apply strictAnti_nat_of_succ_lt
    intro n
    exact falls _ _ _ (hkept n) (hruns n).1 (hruns n).2
  rests := by
    intro h t run hrest
    exact atRest t (run.invariant keeps hs) hrest

/-- A machine that settles can be brought to rest. -/
theorem Settles.exists_rest {step : σ → α → Option σ} {allowed : σ → α → Prop} {done : σ → Prop}
    {s : σ} (settles : Settles step allowed done s) :
    ∃ h t, Run step allowed actionsShown s h t ∧ AtRest step allowed t ∧ done t := by
  by_contra hnever
  -- From every state that is reached there is an action to take, and so a run without an end.
  have hnext : ∀ x : {t // ∃ h, Run step allowed actionsShown s h t},
      ∃ (a : α) (y : {t // ∃ h, Run step allowed actionsShown s h t}),
        allowed x.1 a ∧ step x.1 a = some y.1 := by
    rintro ⟨t, h, run⟩
    by_contra hstuck
    refine hnever ⟨h, t, run, ?_⟩
    have hrest : AtRest step allowed t := by
      intro a hallowed
      by_contra hstep
      obtain ⟨u, hu⟩ := Option.ne_none_iff_exists'.mp hstep
      exact hstuck ⟨a, ⟨u, _, run.snoc hallowed hu⟩, hallowed, hu⟩
    exact ⟨hrest, settles.rests h t run hrest⟩
  choose act next hstep using hnext
  let states : ℕ → {t // ∃ h, Run step allowed actionsShown s h t} :=
    fun n => next^[n] ⟨s, [], .nil s⟩
  refine settles.ends (fun n => (states n).1) (fun n => act (states n)) rfl ?_
  intro n
  have hiterate : states (n + 1) = next (states n) := Function.iterate_succ_apply' next n _
  rw [hiterate]
  exact hstep (states n)

/-- What a machine settles in may be weakened. -/
theorem Settles.mono {step : σ → α → Option σ} {allowed : σ → α → Prop} {done done' : σ → Prop}
    {s : σ} (settles : Settles step allowed done s) (h : ∀ t, done t → done' t) :
    Settles step allowed done' s where
  ends := settles.ends
  rests hist t run hrest := h t (settles.rests hist t run hrest)

end AssemblyLine
