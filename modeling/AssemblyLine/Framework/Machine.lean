import Mathlib.Data.List.Basic

/-!
# Runs of a machine with named actions

A machine is a partial step function `step : σ → α → Option σ`: in state `s` the action `a` is
either impossible (`none`) or leads to one state.  Nondeterminism, and with it every
interleaving of the parties of a concurrent system, is the free choice of the action at each
step, so a property of every interleaving is a property of every run.

`Run step allowed shown s h t` says that some sequence of actions leads from `s` to `t`, each
taken in a state where `allowed` permits it, and that `h` is what the run showed: `shown s a`
is what an observer notes when `a` is taken in `s`.  With `shown := fun _ a => [a]` the history
is the list of actions; with a coarser `shown` it is an abstract trace of the run.

The two rules every proof about runs goes through are here: `Run.invariant`, for a property of
states, and `Run.history_invariant`, for a property that relates a state to the history that
led to it.  `Reachable.simulates` carries what is reachable over to another machine.  `exec` and
`execShown` are the executable counterparts, and `Run.of_exec` turns an evaluated action list into a
run.
-/

namespace AssemblyLine

universe u v w

variable {σ : Type u} {α : Type v} {μ : Type w}

/-- Some allowed actions lead from one state to another, showing the history in between. -/
inductive Run (step : σ → α → Option σ) (allowed : σ → α → Prop) (shown : σ → α → List μ) :
    σ → List μ → σ → Prop
  /-- No action, and nothing shown. -/
  | nil (s : σ) : Run step allowed shown s [] s
  /-- One more action at the end of a run. -/
  | snoc {s t u : σ} {h : List μ} {a : α} : Run step allowed shown s h t → allowed t a →
      step t a = some u → Run step allowed shown s (h ++ shown t a) u

/-- Every action is allowed. -/
def anyAction : σ → α → Prop := fun _ _ => True

/-- The observer that notes the actions themselves. -/
def actionsShown : σ → α → List α := fun _ a => [a]

/-- Perform the actions in order; `none` when one of them is impossible. -/
def exec (step : σ → α → Option σ) : σ → List α → Option σ
  | s, [] => some s
  | s, a :: as => (step s a).bind fun t => exec step t as

/-- What performing the actions in order shows, up to the first that is impossible. -/
def execShown (step : σ → α → Option σ) (shown : σ → α → List μ) : σ → List α → List μ
  | _, [] => []
  | s, a :: as =>
    match step s a with
    | none => []
    | some t => shown s a ++ execShown step shown t as

namespace Run

variable {step : σ → α → Option σ} {allowed : σ → α → Prop} {shown : σ → α → List μ}
  {s t u : σ} {h k : List μ}

/-- A property of states that every allowed action keeps holds at the end of every run. -/
theorem invariant {I : σ → Prop} (run : Run step allowed shown s h t)
    (keeps : ∀ s a t, I s → allowed s a → step s a = some t → I t) (start : I s) : I t := by
  induction run with
  | nil => exact start
  | snoc _ hallowed hstep ih => exact keeps _ _ _ ih hallowed hstep

/-- The same, for a property that also speaks of the history so far. -/
theorem history_invariant {I : List μ → σ → Prop} (run : Run step allowed shown s h t)
    (keeps : ∀ h s a t, I h s → allowed s a → step s a = some t → I (h ++ shown s a) t)
    (start : I [] s) : I h t := by
  induction run with
  | nil => exact start
  | snoc _ hallowed hstep ih => exact keeps _ _ _ _ ih hallowed hstep

theorem append (first : Run step allowed shown s h t) (second : Run step allowed shown t k u) :
    Run step allowed shown s (h ++ k) u := by
  induction second with
  | nil => simpa using first
  | snoc _ hallowed hstep ih =>
      rw [← List.append_assoc]
      exact .snoc ih hallowed hstep

/-- What an action list evaluates to is reached by a run that shows what those actions show. -/
theorem of_exec {as : List α} (done : exec step s as = some t) :
    Run step anyAction shown s (execShown step shown s as) t := by
  induction as generalizing s with
  | nil =>
      obtain rfl : s = t := by simpa [exec] using done
      exact .nil s
  | cons a as ih =>
      obtain ⟨m, hm, hrest⟩ : ∃ m, step s a = some m ∧ exec step m as = some t := by
        simpa [exec, Option.bind_eq_some_iff] using done
      have hfirst : Run step anyAction shown s ([] ++ shown s a) m := .snoc (.nil s) trivial hm
      rw [execShown, hm]
      exact hfirst.append (ih hrest)

/-- A run of a machine with a guard on its actions is a run whose actions are all allowed. -/
theorem of_guarded [∀ s a, Decidable (allowed s a)]
    (run : Run (fun s a => if allowed s a then step s a else none) anyAction shown s h t) :
    Run step allowed shown s h t := by
  induction run with
  | nil => exact .nil _
  | snoc _ _ hstep ih =>
      obtain ⟨hallowed, hstep⟩ := Option.ite_none_right_eq_some.mp hstep
      exact .snoc ih hallowed hstep

end Run

/-! ## Reachable states -/

/-- A state some run from an initial state ends in. -/
def Reachable (step : σ → α → Option σ) (allowed : σ → α → Prop) (init : σ → Prop) (t : σ) :
    Prop :=
  ∃ s, init s ∧ ∃ h, Run step allowed actionsShown s h t

namespace Reachable

variable {step : σ → α → Option σ} {allowed : σ → α → Prop} {init : σ → Prop} {s t : σ}

theorem of_exec {as : List α} (hinit : init s) (done : exec step s as = some t) :
    Reachable step anyAction init t :=
  ⟨s, hinit, _, .of_exec done⟩

/-- The same, where every action is checked on the way. -/
theorem of_guarded_exec [∀ s a, Decidable (allowed s a)] {as : List α} (hinit : init s)
    (done : exec (fun s a => if allowed s a then step s a else none) s as = some t) :
    Reachable step allowed init t :=
  ⟨s, hinit, _, (Run.of_exec done).of_guarded⟩

theorem of_init (hinit : init s) : Reachable step allowed init s :=
  ⟨s, hinit, [], .nil s⟩

theorem next {a : α} (reached : Reachable step allowed init s) (hallowed : allowed s a)
    (hstep : step s a = some t) : Reachable step allowed init t := by
  obtain ⟨s₀, hinit, h, run⟩ := reached
  exact ⟨s₀, hinit, _, run.snoc hallowed hstep⟩

/-- An invariant: it holds initially, and every allowed action keeps it. -/
theorem invariant {I : σ → Prop} (reached : Reachable step allowed init t)
    (start : ∀ s, init s → I s)
    (keeps : ∀ s a t, I s → allowed s a → step s a = some t → I t) : I t := by
  obtain ⟨s₀, hinit, h, run⟩ := reached
  exact run.invariant keeps (start s₀ hinit)

/-- What fewer actions reach, more actions reach. -/
theorem mono {allowed' : σ → α → Prop} (reached : Reachable step allowed init t)
    (h : ∀ s a, allowed s a → allowed' s a) : Reachable step allowed' init t :=
  reached.invariant (fun _ hinit => .of_init hinit) fun s a _ hs hallowed hstep =>
    hs.next (h s a hallowed) hstep

/-- A machine that matches every step of another, seen through `f`, or has no need to move, reaches
what the other reaches. -/
theorem simulates {τ : Type*} {β : Type*} {step' : τ → β → Option τ} {init' : τ → Prop} {f : σ → τ}
    {I : σ → Prop} (reached : Reachable step allowed init t) (start : ∀ s, init s → I s)
    (keeps : ∀ s a t, I s → allowed s a → step s a = some t → I t)
    (starts : ∀ s, init s → init' (f s))
    (matched : ∀ s a t, I s → allowed s a → step s a = some t →
      f t = f s ∨ ∃ b, step' (f s) b = some (f t)) : Reachable step' anyAction init' (f t) := by
  refine (reached.invariant (I := fun s => I s ∧ Reachable step' anyAction init' (f s)) ?_ ?_).2
  · intro s hinit
    exact ⟨start s hinit, .of_init (starts s hinit)⟩
  · rintro s a t ⟨hs, hreached⟩ hallowed hstep
    refine ⟨keeps s a t hs hallowed hstep, ?_⟩
    rcases matched s a t hs hallowed hstep with hsame | ⟨b, hstep'⟩
    · rw [hsame]
      exact hreached
    · exact hreached.next trivial hstep'

end Reachable

end AssemblyLine
