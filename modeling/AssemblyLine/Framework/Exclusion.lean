import AssemblyLine.Framework.Machine
import AssemblyLine.Framework.Tally

/-!
# One holder at a time

Processes work on a shared state under a lock: a process takes the lock before it begins, and the
lock is freed when the process drops it or ends.  A process that has dropped the lock goes on, with
whatever it left running, until it ends.

`Worker.share` is the machine of all the processes, `Worker.solo` that of one process at a time.  If
a process drops the lock only when it is quiet, and what a quiet process leaves running touches
nothing, only the holder ever changes the shared state (`Exclusive.act_of_change`), and the
processes together do to it what one process at a time can do (`Exclusive.solo`).
-/

namespace AssemblyLine

universe u v w x y

variable {P : Type u} {S : Type v} {σ : Type w} {α : Type x} {β : Type y}

/-- A shared state, the processes at work on it, and which of them holds its lock. -/
structure Shared (P : Type u) (S : Type v) (σ : Type w) where
  state : S
  holder : Option P
  processes : P → Option σ

/-- The process that holds the lock, once it has begun. -/
def Shared.current (host : Shared P S σ) : Option σ := host.holder.bind host.processes

/-- What a kind of process does. -/
structure Worker (S : Type v) (σ : Type w) (α : Type x) (β : Type y) where
  /-- What a process that holds the lock begins as. -/
  start : S → β → Option σ
  step : S × σ → α → Option (S × σ)
  /-- Drop the lock, and go on. -/
  release : σ → Option σ

inductive SharedAction (P : Type u) (α : Type x) (β : Type y)
  | take (p : P)
  | start (p : P) (b : β)
  | act (p : P) (a : α)
  | release (p : P)
  /-- The process ends, and with it its hold. -/
  | leave (p : P)

/-- The actions in which the lock is dropped by quiet processes only. -/
def QuietRelease (quiet : σ → Prop) (host : Shared P S σ) : SharedAction P α β → Prop
  | .release p => ∀ s ∈ host.processes p, quiet s
  | _ => True

instance (quiet : σ → Prop) [DecidablePred quiet] (host : Shared P S σ) (act : SharedAction P α β) :
    Decidable (QuietRelease quiet host act) :=
  match act with
  | .release p => inferInstanceAs (Decidable (∀ s ∈ host.processes p, quiet s))
  | .take _ | .start _ _ | .act _ _ | .leave _ => .isTrue trivial

namespace Worker

variable (worker : Worker S σ α β)

/-- Any number of processes, one of which may hold the lock. -/
def share [DecidableEq P] (host : Shared P S σ) : SharedAction P α β → Option (Shared P S σ)
  | .take p =>
    if host.holder = none ∧ (host.processes p).isNone then some { host with holder := some p }
    else none
  | .start p b =>
    if host.holder = some p ∧ (host.processes p).isNone then
      (worker.start host.state b).map fun s =>
        { host with processes := Function.update host.processes p (some s) }
    else none
  | .act p a =>
    (host.processes p).bind fun s => (worker.step (host.state, s) a).map fun t =>
      { host with state := t.1, processes := Function.update host.processes p (some t.2) }
  | .release p =>
    if host.holder = some p then
      (host.processes p).bind fun s => (worker.release s).map fun s' =>
        { host with holder := none, processes := Function.update host.processes p (some s') }
    else none
  | .leave p =>
    some { host with
      holder := if host.holder = some p then none else host.holder
      processes := Function.update host.processes p none }

inductive SoloAction (α : Type x) (β : Type y)
  | start (b : β)
  | act (a : α)
  | stop

/-- One process at a time. -/
def solo : S × Option σ → SoloAction α β → Option (S × Option σ)
  | (s, none), .start b => (worker.start s b).map fun p => (s, some p)
  | (s, some p), .act a => (worker.step (s, p) a).map fun t => (t.1, some t.2)
  | (s, some _), .stop => some (s, none)
  | _, _ => none

/-- Dropping the lock when quiet leaves nothing at work: a sound process that is quiet when it drops
the lock is idle afterwards, and an idle process stays idle and touches nothing. -/
structure Settles (sound quiet idle : σ → Prop) : Prop where
  starts : ∀ s b p, worker.start s b = some p → sound p
  steps : ∀ s p a s' p', sound p → worker.step (s, p) a = some (s', p') → sound p'
  releases : ∀ p p', sound p → quiet p → worker.release p = some p' → idle p'
  idles : ∀ s p a s' p', idle p → worker.step (s, p) a = some (s', p') → s' = s ∧ idle p'

end Worker

/-- The holder of the lock is sound, and everybody else is idle. -/
structure Exclusive (sound idle : σ → Prop) (host : Shared P S σ) : Prop where
  sound : ∀ p s, host.holder = some p → host.processes p = some s → sound s
  idle : ∀ p s, host.holder ≠ some p → host.processes p = some s → idle s

section Exclusion

variable [DecidableEq P] {worker : Worker S σ α β} {sound quiet idle : σ → Prop}
  {host host' : Shared P S σ} {act : SharedAction P α β}

/-- Every action keeps everybody but the holder idle. -/
theorem Exclusive.step (inv : Exclusive sound idle host) (settles : worker.Settles sound quiet idle)
    (hquiet : QuietRelease quiet host act) (h : worker.share host act = some host') :
    Exclusive sound idle host' := by
  cases act with
  | take p =>
      simp only [Worker.share, Option.ite_none_right_eq_some, Option.some.injEq] at h
      obtain ⟨⟨hfree, hnone⟩, rfl⟩ := h
      refine ⟨?_, ?_⟩
      · rintro q s hq hs
        obtain rfl := Option.some.inj hq
        have hbusy : host.processes p = some s := hs
        rw [hbusy] at hnone
        cases hnone
      · intro q s _ hs
        exact inv.idle q s (by simp [hfree]) hs
  | start p b =>
      simp only [Worker.share, Option.ite_none_right_eq_some, Option.map_eq_some_iff] at h
      obtain ⟨⟨hholds, -⟩, s₀, hbegin, rfl⟩ := h
      refine ⟨?_, ?_⟩
      · intro q s hq hs
        rcases entry_of_update hs with ⟨rfl, hnew⟩ | ⟨-, hold⟩
        · exact settles.starts _ b s (hbegin.trans hnew)
        · exact inv.sound q s hq hold
      · intro q s hq hs
        rcases entry_of_update hs with ⟨rfl, -⟩ | ⟨-, hold⟩
        · exact absurd hholds hq
        · exact inv.idle q s hq hold
  | act p a =>
      simp only [Worker.share, Option.bind_eq_some_iff, Option.map_eq_some_iff] at h
      obtain ⟨s₀, hs₀, ⟨state, s₁⟩, hstep, rfl⟩ := h
      refine ⟨?_, ?_⟩
      · intro q s hq hs
        rcases entry_of_update hs with ⟨rfl, hnew⟩ | ⟨-, hold⟩
        · rw [← Option.some.inj hnew]
          exact settles.steps _ _ a _ _ (inv.sound q s₀ hq hs₀) hstep
        · exact inv.sound q s hq hold
      · intro q s hq hs
        rcases entry_of_update hs with ⟨rfl, hnew⟩ | ⟨-, hold⟩
        · rw [← Option.some.inj hnew]
          exact (settles.idles _ _ a _ _ (inv.idle q s₀ hq hs₀) hstep).2
        · exact inv.idle q s hq hold
  | release p =>
      simp only [Worker.share, Option.ite_none_right_eq_some, Option.bind_eq_some_iff,
        Option.map_eq_some_iff] at h
      obtain ⟨hholds, s₀, hs₀, s₁, hrelease, rfl⟩ := h
      refine ⟨fun q s hq _ => (nomatch hq), ?_⟩
      intro q s _ hs
      rcases entry_of_update hs with ⟨rfl, hnew⟩ | ⟨hne, hold⟩
      · rw [← Option.some.inj hnew]
        exact settles.releases _ _ (inv.sound q s₀ hholds hs₀) (hquiet s₀ hs₀) hrelease
      · refine inv.idle q s ?_ hold
        rw [hholds]
        exact fun hp => hne (Option.some.inj hp).symm
  | leave p =>
      simp only [Worker.share, Option.some.injEq] at h
      subst h
      refine ⟨?_, ?_⟩
      · intro q s hq hs
        rcases entry_of_update hs with ⟨-, hnone⟩ | ⟨-, hold⟩
        · cases hnone
        · dsimp only at hq
          split at hq
          · cases hq
          · exact inv.sound q s hq hold
      · intro q s hq hs
        rcases entry_of_update hs with ⟨-, hnone⟩ | ⟨hne, hold⟩
        · cases hnone
        · refine inv.idle q s ?_ hold
          intro hholds
          rw [if_neg (by rw [hholds]; exact fun hp => hne (Option.some.inj hp))] at hq
          exact hq hholds

theorem Exclusive.of_reachable (settles : worker.Settles sound quiet idle)
    {init : Shared P S σ → Prop} (hinit : ∀ host, init host → ∀ p, host.processes p = none)
    (reached : Reachable worker.share (QuietRelease quiet) init host) :
    Exclusive sound idle host := by
  refine reached.invariant ?_ fun host act host' inv hquiet hstep => inv.step settles hquiet hstep
  intro host h
  refine ⟨?_, ?_⟩
  · intro p s _ hs
    rw [hinit host h p] at hs
    cases hs
  · intro p s _ hs
    rw [hinit host h p] at hs
    cases hs

/-- **Only the holder changes the shared state.** -/
theorem Exclusive.act_of_change (inv : Exclusive sound idle host)
    (settles : worker.Settles sound quiet idle) (h : worker.share host act = some host')
    (hchange : host'.state ≠ host.state) : ∃ p a, act = .act p a ∧ host.holder = some p := by
  cases act with
  | take p =>
      simp only [Worker.share, Option.ite_none_right_eq_some, Option.some.injEq] at h
      obtain ⟨-, rfl⟩ := h
      exact absurd rfl hchange
  | start p b =>
      simp only [Worker.share, Option.ite_none_right_eq_some, Option.map_eq_some_iff] at h
      obtain ⟨-, s₀, -, rfl⟩ := h
      exact absurd rfl hchange
  | act p a =>
      refine ⟨p, a, rfl, ?_⟩
      by_contra hholds
      simp only [Worker.share, Option.bind_eq_some_iff, Option.map_eq_some_iff] at h
      obtain ⟨s₀, hs₀, ⟨state, s₁⟩, hstep, rfl⟩ := h
      exact hchange (settles.idles _ _ a _ _ (inv.idle p s₀ hholds hs₀) hstep).1
  | release p =>
      simp only [Worker.share, Option.ite_none_right_eq_some, Option.bind_eq_some_iff,
        Option.map_eq_some_iff] at h
      obtain ⟨-, s₀, -, s₁, -, rfl⟩ := h
      exact absurd rfl hchange
  | leave p =>
      simp only [Worker.share, Option.some.injEq] at h
      subst h
      exact absurd rfl hchange

/-- To the shared state and its holder, an action is one of a process on its own, or nothing. -/
theorem Exclusive.solo_step (inv : Exclusive sound idle host)
    (settles : worker.Settles sound quiet idle) (h : worker.share host act = some host') :
    (host'.state, host'.current) = (host.state, host.current) ∨
      ∃ a, worker.solo (host.state, host.current) a = some (host'.state, host'.current) := by
  cases act with
  | take p =>
      left
      simp only [Worker.share, Option.ite_none_right_eq_some, Option.some.injEq] at h
      obtain ⟨⟨hfree, hnone⟩, rfl⟩ := h
      simp only [Shared.current, hfree, Option.bind_some, Option.bind_none,
        Option.isNone_iff_eq_none.mp hnone]
  | start p b =>
      right
      simp only [Worker.share, Option.ite_none_right_eq_some, Option.map_eq_some_iff] at h
      obtain ⟨⟨hholds, hnone⟩, s₀, hbegin, rfl⟩ := h
      refine ⟨.start b, ?_⟩
      simp only [Shared.current, hholds, Option.bind_some, Option.isNone_iff_eq_none.mp hnone,
        Worker.solo, hbegin, Option.map_some, Function.update_self]
  | act p a =>
      simp only [Worker.share, Option.bind_eq_some_iff, Option.map_eq_some_iff] at h
      obtain ⟨s₀, hs₀, ⟨state, s₁⟩, hstep, rfl⟩ := h
      by_cases hholds : host.holder = some p
      · right
        refine ⟨.act a, ?_⟩
        simp only [Shared.current, hholds, Option.bind_some, hs₀, Worker.solo, hstep,
          Option.map_some, Function.update_self]
      · left
        have hsame := (settles.idles _ _ a _ _ (inv.idle p s₀ hholds hs₀) hstep).1
        refine Prod.ext hsame ?_
        cases hholder : host.holder with
        | none => simp only [Shared.current, hholder, Option.bind_none]
        | some q =>
            have hne : q ≠ p := by
              rintro rfl
              exact hholds hholder
            simp only [Shared.current, hholder, Option.bind_some, Function.update_of_ne hne]
  | release p =>
      right
      simp only [Worker.share, Option.ite_none_right_eq_some, Option.bind_eq_some_iff,
        Option.map_eq_some_iff] at h
      obtain ⟨hholds, s₀, hs₀, s₁, -, rfl⟩ := h
      refine ⟨.stop, ?_⟩
      simp only [Shared.current, hholds, Option.bind_some, hs₀, Option.bind_none, Worker.solo]
  | leave p =>
      simp only [Worker.share, Option.some.injEq] at h
      subst h
      by_cases hholds : host.holder = some p
      · cases hs : host.processes p with
        | none =>
            left
            simp only [Shared.current, hholds, if_pos, Option.bind_some, Option.bind_none, hs]
        | some s₀ =>
            right
            refine ⟨.stop, ?_⟩
            simp only [Shared.current, hholds, if_pos, Option.bind_some, Option.bind_none, hs,
              Worker.solo]
      · left
        refine Prod.ext rfl ?_
        cases hholder : host.holder with
        | none => simp only [Shared.current, hholder, reduceCtorEq, if_neg, not_false_eq_true,
            Option.bind_none]
        | some q =>
            have hne : q ≠ p := by
              rintro rfl
              exact hholds hholder
            simp only [Shared.current, hholder, Option.some.injEq, hne, if_neg, not_false_eq_true,
              Option.bind_some, ne_eq, Function.update_of_ne]

/-- **The processes together do what one process at a time can do.** -/
theorem Exclusive.solo (settles : worker.Settles sound quiet idle) {init : Shared P S σ → Prop}
    (hinit : ∀ host, init host → ∀ p, host.processes p = none)
    (reached : Reachable worker.share (QuietRelease quiet) init host) :
    Reachable worker.solo anyAction (fun t => ∃ host, init host ∧ t = (host.state, none))
      (host.state, host.current) := by
  refine reached.simulates (f := fun host => (host.state, host.current))
    (I := Exclusive sound idle) (fun host h => .of_reachable settles hinit (.of_init h))
    (fun _ _ _ inv hquiet hstep => inv.step settles hquiet hstep) ?_
    fun _ _ _ inv _ hstep => inv.solo_step settles hstep
  intro host h
  refine ⟨host, h, Prod.ext rfl ?_⟩
  cases hholder : host.holder with
  | none => simp only [Shared.current, hholder, Option.bind_none]
  | some p => simp only [Shared.current, hholder, Option.bind_some, hinit host h p]

end Exclusion

end AssemblyLine
