import Mathlib.Data.Nat.Notation
import Mathlib.Logic.Basic

/-!
# Programs that call, and may be cut off between two calls

A program calls on the world around it and waits for each answer before it goes on.  The world
answers as it likes within `acts`, changes by itself within `drifts`, and the program may be cut off
at any point, with what it has called for left as it is.

`Triple always pre p post` says of a program begun where `pre` holds that `always` holds wherever it
is cut off, and `post` where it returns.  The rules follow the program: `Triple.done`,
`Triple.call`, `Triple.bind`, and `Triple.all` for a program of which every call keeps an invariant.

`AtMost weight n p` bounds what a program calls, however it is answered.

`Comes p answers a` says that `p` returns `a` by these answers.  A world that keeps the answers it
gives, `keepingAnswers`, says of each part of a program what it came to by the answers it was given.

A call has a part that can be seen, by whoever may look at a command line, and a part that is only
given to the callee.  `SeenAlike p q` says that what can be seen of `p` and `q` is the same, however
they are answered.
-/

namespace AssemblyLine

universe u v w x y z

/-- A program that calls, and returns an `α`. -/
inductive Calls (Call : Type u) (Answer : Call → Type v) (Given : Type w) (α : Type x)
  | done (a : α)
  | call (c : Call) (given : Given) (next : Answer c → Calls Call Answer Given α)

namespace Calls

variable {Call : Type u} {Answer : Call → Type v} {Given : Type w} {α β : Type x} {Ω : Type y}

def bind : Calls Call Answer Given α → (α → Calls Call Answer Given β) → Calls Call Answer Given β
  | .done a, f => f a
  | .call c given next, f => .call c given fun answer => (next answer).bind f

/-- Go on only where there is no error. -/
def tryBind {ε : Type x} (p : Calls Call Answer Given (Except ε α))
    (f : α → Calls Call Answer Given (Except ε β)) : Calls Call Answer Given (Except ε β) :=
  p.bind fun
    | .ok a => f a
    | .error e => .done (.error e)

/-- A program that asks whether to stop, before each call and as it returns, and is dropped where it
is, with this outcome, once it is told to. -/
def unlessAsked (ask : Call) (given : Given) (stops : Answer ask → Bool) (dropped : α) :
    Calls Call Answer Given α → Calls Call Answer Given α
  | .done a => .call ask given fun answer => .done (if stops answer then dropped else a)
  | .call c asked next => .call ask given fun answer =>
    if stops answer then .done dropped
    else .call c asked fun answer => unlessAsked ask given stops dropped (next answer)

/-- Every call a program may make is such a call. -/
def All (P : Call → Given → Prop) : Calls Call Answer Given α → Prop
  | .done _ => True
  | .call c given next => P c given ∧ ∀ answer, (next answer).All P

lemma All.bind {P : Call → Given → Prop} {p : Calls Call Answer Given α}
    {f : α → Calls Call Answer Given β} (hp : p.All P) (hf : ∀ a, (f a).All P) :
    (p.bind f).All P := by
  induction p with
  | done a => exact hf a
  | call c given next ih => exact ⟨hp.1, fun answer => ih answer (hp.2 answer)⟩

lemma All.tryBind {P : Call → Given → Prop} {ε : Type x} {p : Calls Call Answer Given (Except ε α)}
    {f : α → Calls Call Answer Given (Except ε β)} (hp : p.All P) (hf : ∀ a, (f a).All P) :
    (p.tryBind f).All P := by
  refine hp.bind ?_
  rintro (e | a)
  · trivial
  · exact hf a

lemma All.unlessAsked {P : Call → Given → Prop} {ask : Call} {given : Given}
    {stops : Answer ask → Bool} {dropped : α} {p : Calls Call Answer Given α} (hp : p.All P)
    (hask : P ask given) : (p.unlessAsked ask given stops dropped).All P := by
  induction p with
  | done a => exact ⟨hask, fun _ => trivial⟩
  | call c asked next ih =>
      refine ⟨hask, fun answer => ?_⟩
      dsimp only
      split
      · trivial
      · exact ⟨hp.1, fun answer => ih answer (hp.2 answer)⟩

lemma All.mono {P Q : Call → Given → Prop} {p : Calls Call Answer Given α} (hp : p.All P)
    (h : ∀ c given, P c given → Q c given) : p.All Q := by
  induction p with
  | done a => trivial
  | call c given next ih => exact ⟨h c given hp.1, fun answer => ih answer (hp.2 answer)⟩

/-! ## What a program returns -/

/-- However it is answered, what a program returns is such a value. -/
def Yields (P : α → Prop) : Calls Call Answer Given α → Prop
  | .done a => P a
  | .call _ _ next => ∀ answer, (next answer).Yields P

lemma Yields.of_forall {P : α → Prop} (h : ∀ a, P a) (p : Calls Call Answer Given α) :
    p.Yields P := by
  induction p with
  | done a => exact h a
  | call c given next ih => exact ih

lemma Yields.mono {P Q : α → Prop} {p : Calls Call Answer Given α} (hp : p.Yields P)
    (h : ∀ a, P a → Q a) : p.Yields Q := by
  induction p with
  | done a => exact h a hp
  | call c given next ih => exact fun answer => ih answer (hp answer)

lemma Yields.bind {P : α → Prop} {Q : β → Prop} {p : Calls Call Answer Given α}
    {f : α → Calls Call Answer Given β} (hp : p.Yields P) (hf : ∀ a, P a → (f a).Yields Q) :
    (p.bind f).Yields Q := by
  induction p with
  | done a => exact hf a hp
  | call c given next ih => exact fun answer => ih answer (hp answer)

/-- What a program returns without an error, it returns from its last part. -/
lemma Yields.tryBind {ε : Type x} {Q : β → Prop} {p : Calls Call Answer Given (Except ε α)}
    {f : α → Calls Call Answer Given (Except ε β)}
    (hf : ∀ a, (f a).Yields fun out => ∀ b, out = .ok b → Q b) :
    (p.tryBind f).Yields fun out => ∀ b, out = .ok b → Q b := by
  refine Yields.bind (P := fun _ => True) (.of_forall (fun _ => trivial) p) ?_
  rintro (e | a) -
  · intro b hb
    cases hb
  · exact hf a

/-! ## How much a program calls -/

/-- However it is answered, the weights of a program's calls add up to no more than this. -/
def AtMost (weight : Call → ℕ) : Calls Call Answer Given α → ℕ → Prop
  | .done _, _ => True
  | .call c _ next, n => weight c ≤ n ∧ ∀ answer, (next answer).AtMost weight (n - weight c)

section Weighing

variable {weight : Call → ℕ} {p : Calls Call Answer Given α} {n m : ℕ}

lemma AtMost.mono (h : p.AtMost weight n) (hle : n ≤ m) : p.AtMost weight m := by
  induction p generalizing n m with
  | done a => trivial
  | call c given next ih =>
      exact ⟨Nat.le_trans h.1 hle, fun answer =>
        ih answer (h.2 answer) (Nat.sub_le_sub_right hle _)⟩

lemma AtMost.bind {f : α → Calls Call Answer Given β} (hp : p.AtMost weight n)
    (hf : ∀ a, (f a).AtMost weight m) : (p.bind f).AtMost weight (n + m) := by
  induction p generalizing n with
  | done a => exact (hf a).mono (Nat.le_add_left m n)
  | call c given next ih =>
      refine ⟨Nat.le_trans hp.1 (Nat.le_add_right n m), fun answer => ?_⟩
      rw [Nat.sub_add_comm hp.1]
      exact ih answer (hp.2 answer)

lemma AtMost.tryBind {ε : Type x} {p : Calls Call Answer Given (Except ε α)}
    {f : α → Calls Call Answer Given (Except ε β)} (hp : p.AtMost weight n)
    (hf : ∀ a, (f a).AtMost weight m) : (p.tryBind f).AtMost weight (n + m) := by
  refine hp.bind ?_
  rintro (e | a)
  · trivial
  · exact hf a

lemma AtMost.unlessAsked {ask : Call} {given : Given} {stops : Answer ask → Bool} {dropped : α}
    (hp : p.AtMost weight n) (hask : weight ask = 0) :
    (p.unlessAsked ask given stops dropped).AtMost weight n := by
  induction p generalizing n with
  | done a => exact ⟨by rw [hask]; exact Nat.zero_le n, fun _ => trivial⟩
  | call c asked next ih =>
      refine ⟨by rw [hask]; exact Nat.zero_le n, fun answer => ?_⟩
      rw [hask, Nat.sub_zero]
      dsimp only
      split
      · trivial
      · exact ⟨hp.1, fun answer => ih answer (hp.2 answer)⟩

end Weighing

/-! ## What can become of a program -/

section Worlds

variable (acts : (c : Call) → Given → Ω → Answer c → Ω → Prop) (drifts : Ω → Ω → Prop)

/-- The program, begun in one world, has returned in another, or has been cut off in it. -/
inductive Leads : Calls Call Answer Given α → Ω → Option α → Ω → Prop
  | done (a : α) (s : Ω) : Leads (.done a) s (some a) s
  | cutOff (p : Calls Call Answer Given α) (s : Ω) : Leads p s none s
  | call {c : Call} {given : Given} {next : Answer c → Calls Call Answer Given α} {s t u : Ω}
      {answer : Answer c} {out : Option α} (acted : acts c given s answer t)
      (rest : Leads (next answer) t out u) : Leads (.call c given next) s out u
  | drift {p : Calls Call Answer Given α} {s t u : Ω} {out : Option α} (drifted : drifts s t)
      (rest : Leads p t out u) : Leads p s out u

/-- What the world does by itself keeps a property. -/
def Stable (P : Ω → Prop) : Prop := ∀ s t, P s → drifts s t → P t

/-- Begun where `pre` holds, the program keeps `always` and returns only where `post` holds. -/
def Triple (always pre : Ω → Prop) (p : Calls Call Answer Given α) (post : α → Ω → Prop) : Prop :=
  ∀ s out t, pre s → Leads acts drifts p s out t → always t ∧ ∀ a, out = some a → post a t

variable {acts drifts} {always pre pre' : Ω → Prop} {post post' : α → Ω → Prop}
  {p : Calls Call Answer Given α}

theorem Triple.weaken (h : Triple acts drifts always pre p post) (hpre : ∀ s, pre' s → pre s)
    (hpost : ∀ a s, post a s → post' a s) : Triple acts drifts always pre' p post' := by
  intro s out t hs leads
  obtain ⟨halways, hreturns⟩ := h s out t (hpre s hs) leads
  exact ⟨halways, fun a ha => hpost a t (hreturns a ha)⟩

lemma Leads.yields {P : α → Prop} {s t : Ω} {out : Option α}
    (leads : Leads acts drifts p s out t) (hp : p.Yields P) : ∀ a, out = some a → P a := by
  induction leads with
  | done b s =>
      rintro a ⟨⟩
      exact hp
  | cutOff p s => exact nofun
  | call acted rest ih => exact ih (hp _)
  | drift drifted rest ih => exact ih hp

/-- What a program returns however it is answered, it returns in each world. -/
theorem Triple.yields {P : α → Prop} (h : Triple acts drifts always pre p post)
    (hp : p.Yields P) : Triple acts drifts always pre p fun a s => P a ∧ post a s := by
  intro s out t hs leads
  obtain ⟨halways, hpost⟩ := h s out t hs leads
  exact ⟨halways, fun a ha => ⟨leads.yields hp a ha, hpost a ha⟩⟩

/-- What holds from each of some worlds on holds from whichever it is. -/
theorem Triple.of_exists {ι : Sort z} {pre : ι → Ω → Prop}
    (h : ∀ i, Triple acts drifts always (pre i) p post) :
    Triple acts drifts always (fun s => ∃ i, pre i s) p post := by
  rintro s out t ⟨i, hs⟩ leads
  exact h i s out t hs leads

theorem Triple.of_and {F : Prop} (h : F → Triple acts drifts always pre p post) :
    Triple acts drifts always (fun s => F ∧ pre s) p post := by
  rintro s out t ⟨hF, hs⟩ leads
  exact h hF s out t hs leads

theorem Triple.done {a : α} (stable : Stable drifts pre)
    (h : ∀ s, pre s → always s ∧ post a s) : Triple acts drifts always pre (.done a) post := by
  intro s out t hs leads
  generalize hp : (Calls.done a : Calls Call Answer Given α) = p at leads
  induction leads with
  | done b s =>
      cases hp
      exact ⟨(h s hs).1, fun b hb => by
        cases hb
        exact (h s hs).2⟩
  | cutOff p s => exact ⟨(h s hs).1, fun _ hb => nomatch hb⟩
  | call acted rest ih => cases hp
  | drift drifted rest ih => exact ih (stable _ _ hs drifted) hp

theorem Triple.call {c : Call} {given : Given} {next : Answer c → Calls Call Answer Given α}
    {Q : Answer c → Ω → Prop} (stable : Stable drifts pre) (h : ∀ s, pre s → always s)
    (acted : ∀ s answer t, pre s → acts c given s answer t → Q answer t)
    (rest : ∀ answer, Triple acts drifts always (Q answer) (next answer) post) :
    Triple acts drifts always pre (.call c given next) post := by
  intro s out t hs leads
  generalize hp : Calls.call c given next = p at leads
  induction leads with
  | done b s => cases hp
  | cutOff p s => exact ⟨h s hs, fun _ hb => nomatch hb⟩
  | call hacted hrest ih =>
      cases hp
      exact rest _ _ _ _ (acted _ _ _ hs hacted) hrest
  | drift drifted rest ih => exact ih (stable _ _ hs drifted) hp

lemma leads_done {a b : α} {s t : Ω}
    (leads : Leads acts drifts (.done a : Calls Call Answer Given α) s (some b) t) :
    a = b := by
  generalize hp : (Calls.done a : Calls Call Answer Given α) = p at leads
  generalize hout : some b = out at leads
  induction leads with
  | done a s =>
      cases hp
      exact (Option.some.inj hout).symm
  | cutOff p s => cases hout
  | call acted rest ih => cases hp
  | drift drifted rest ih => exact ih hp hout

/-- A program that returns was answered. -/
lemma leads_call {c : Call} {given : Given} {next : Answer c → Calls Call Answer Given α} {a : α}
    {s t : Ω} (leads : Leads acts drifts (.call c given next) s (some a) t) :
    ∃ answer m, Leads acts drifts (next answer) m (some a) t := by
  generalize hp : Calls.call c given next = p at leads
  generalize hout : some a = out at leads
  induction leads with
  | done a s => cases hp
  | cutOff p s => cases hout
  | @call _ _ _ _ m _ answer _ acted rest ih =>
      cases hp
      cases hout
      exact ⟨answer, m, rest⟩
  | drift drifted rest ih => exact ih hp hout

/-- What becomes of two programs in a row: the first is cut off, or returns and the second goes
on. -/
lemma leads_bind {f : α → Calls Call Answer Given β} {s t : Ω} {out : Option β}
    (leads : Leads acts drifts (p.bind f) s out t) :
    (out = none ∧ Leads acts drifts p s none t) ∨
      ∃ a m, Leads acts drifts p s (some a) m ∧ Leads acts drifts (f a) m out t := by
  induction p generalizing s with
  | done a => exact .inr ⟨a, s, .done a s, leads⟩
  | call c given next ih =>
      generalize hq : (Calls.call c given next).bind f = q at leads
      induction leads with
      | done b s => cases hq
      | cutOff q s => exact .inl ⟨rfl, .cutOff _ _⟩
      | call acted rest _ =>
          cases hq
          rcases ih _ rest with ⟨hout, hfirst⟩ | ⟨a, m, hfirst, hsecond⟩
          · exact .inl ⟨hout, .call acted hfirst⟩
          · exact .inr ⟨a, m, .call acted hfirst, hsecond⟩
      | drift drifted rest ih' =>
          rcases ih' ih hq with ⟨hout, hfirst⟩ | ⟨a, m, hfirst, hsecond⟩
          · exact .inl ⟨hout, .drift drifted hfirst⟩
          · exact .inr ⟨a, m, .drift drifted hfirst, hsecond⟩

/-- Where the first of two programs is cut off, both are. -/
lemma Leads.cutOff_bind {f : α → Calls Call Answer Given β} {s t : Ω}
    (leads : Leads acts drifts p s none t) : Leads acts drifts (p.bind f) s none t := by
  generalize hout : (none : Option α) = out at leads
  induction leads with
  | done a s => cases hout
  | cutOff p s => exact .cutOff _ s
  | call acted rest ih => exact .call acted (ih hout)
  | drift drifted rest ih => exact .drift drifted (ih hout)

/-- Two programs in a row. -/
lemma Leads.bind {f : α → Calls Call Answer Given β} {s m t : Ω} {a : α} {out : Option β}
    (first : Leads acts drifts p s (some a) m) (second : Leads acts drifts (f a) m out t) :
    Leads acts drifts (p.bind f) s out t := by
  generalize hout : some a = returned at first
  induction first with
  | done b s =>
      obtain rfl := Option.some.inj hout
      exact second
  | cutOff p s => cases hout
  | call acted rest ih => exact .call acted (ih second hout)
  | drift drifted rest ih => exact .drift drifted (ih second hout)

theorem Triple.bind {f : α → Calls Call Answer Given β} {mid : α → Ω → Prop}
    {post : β → Ω → Prop} (first : Triple acts drifts always pre p mid)
    (second : ∀ a, Triple acts drifts always (mid a) (f a) post) :
    Triple acts drifts always pre (p.bind f) post := by
  intro s out t hs leads
  rcases leads_bind leads with ⟨rfl, hfirst⟩ | ⟨a, m, hfirst, hsecond⟩
  · exact ⟨(first s none t hs hfirst).1, fun _ hb => nomatch hb⟩
  · exact second a m out t ((first s (some a) m hs hfirst).2 a rfl) hsecond

/-- **A program of which every call keeps an invariant keeps it.** -/
theorem Triple.all {P : Call → Given → Prop} {I : Ω → Prop} (hall : p.All P)
    (keeps : ∀ c given s answer t, P c given → I s → acts c given s answer t → I t)
    (stable : Stable drifts I) : Triple acts drifts I I p fun _ => I := by
  induction p with
  | done a => exact .done stable fun s hs => ⟨hs, hs⟩
  | call c given next ih =>
      exact .call stable (fun _ hs => hs)
        (fun s answer t hs acted => keeps c given s answer t hall.1 hs acted)
        fun answer => ih answer (hall.2 answer)

end Worlds

/-! ## What a program is answered -/

/-- By these answers, one for each call, the program returns this. -/
inductive Comes : Calls Call Answer Given α → List (Σ c, Answer c) → α → Prop
  | done (a : α) : Comes (.done a) [] a
  | call {c : Call} {given : Given} {next : Answer c → Calls Call Answer Given α}
      {answer : Answer c} {answers : List (Σ c, Answer c)} {a : α}
      (rest : Comes (next answer) answers a) :
      Comes (.call c given next) (⟨c, answer⟩ :: answers) a

/-- Some answers in a row make the program return this. -/
def CameTo (answers : List (Σ c, Answer c)) (p : Calls Call Answer Given α) (a : α) : Prop :=
  ∃ during, during <:+: answers ∧ p.Comes during a

lemma CameTo.mono {answers more : List (Σ c, Answer c)} {p : Calls Call Answer Given α} {a : α}
    (came : CameTo answers p a) (h : answers <:+: more) : CameTo more p a := by
  obtain ⟨during, hduring, comes⟩ := came
  exact ⟨during, hduring.trans h, comes⟩

lemma CameTo.append {answers : List (Σ c, Answer c)} {p : Calls Call Answer Given α} {a : α}
    (came : CameTo answers p a) (more : List (Σ c, Answer c)) : CameTo (answers ++ more) p a :=
  came.mono (List.prefix_append _ _).isInfix

section Answered

variable {acts : (c : Call) → Given → Ω → Answer c → Ω → Prop} {drifts : Ω → Ω → Prop}

variable (acts) in
/-- What a world does that keeps the answers it gives. -/
def keepingAnswers (c : Call) (given : Given) (s : Ω × List (Σ c, Answer c)) (answer : Answer c)
    (t : Ω × List (Σ c, Answer c)) : Prop :=
  acts c given s.1 answer t.1 ∧ t.2 = s.2 ++ [⟨c, answer⟩]

variable (drifts) in
/-- What such a world does by itself. -/
def givingNone (s t : Ω × List (Σ c, Answer c)) : Prop := drifts s.1 t.1 ∧ t.2 = s.2

variable {p : Calls Call Answer Given α} {answers : List (Σ c, Answer c)}

/-- The answers that a program is given can be kept. -/
lemma Leads.exists_answers {s t : Ω} {out : Option α} (leads : Leads acts drifts p s out t)
    (before : List (Σ c, Answer c)) : ∃ after,
      Leads (keepingAnswers acts) (givingNone drifts) p (s, before) out (t, after) := by
  induction leads generalizing before with
  | done a s => exact ⟨before, .done a _⟩
  | cutOff p s => exact ⟨before, .cutOff p _⟩
  | @call c given next s t u answer out acted rest ih =>
      obtain ⟨after, hrest⟩ := ih (before ++ [⟨c, answer⟩])
      exact ⟨after, .call ⟨acted, rfl⟩ hrest⟩
  | @drift p s t u out drifted rest ih =>
      obtain ⟨after, hrest⟩ := ih before
      have hdrift : givingNone drifts (s, before) (t, before) := ⟨drifted, rfl⟩
      exact ⟨after, .drift hdrift hrest⟩

/-- What a program returns is what it comes to by the answers it was given. -/
lemma Leads.comes {s t : Ω × List (Σ c, Answer c)} {out : Option α}
    (leads : Leads (keepingAnswers acts) (givingNone drifts) p s out t) :
    ∀ a, out = some a → ∃ during, t.2 = s.2 ++ during ∧ p.Comes during a := by
  induction leads with
  | done b s =>
      rintro a ⟨⟩
      exact ⟨[], (List.append_nil _).symm, .done b⟩
  | cutOff p s => exact nofun
  | @call c given next s t u answer out acted rest ih =>
      intro a ha
      obtain ⟨during, hduring, comes⟩ := ih a ha
      refine ⟨⟨c, answer⟩ :: during, ?_, .call comes⟩
      rw [hduring, acted.2, List.append_assoc, List.singleton_append]
  | drift drifted rest ih =>
      intro a ha
      obtain ⟨during, hduring, comes⟩ := ih a ha
      exact ⟨during, by rw [hduring, drifted.2], comes⟩

/-- What holds of a program holds with what it came to by the answers it was given. -/
theorem Triple.answered {always pre : Ω × List (Σ c, Answer c) → Prop}
    {post : α → Ω × List (Σ c, Answer c) → Prop}
    (h : Triple (keepingAnswers acts) (givingNone drifts) always pre p post)
    (before : List (Σ c, Answer c)) :
    Triple (keepingAnswers acts) (givingNone drifts) always (fun s => s.2 = before ∧ pre s) p
      fun a s => (∃ during, s.2 = before ++ during ∧ p.Comes during a) ∧ post a s := by
  rintro s out t ⟨rfl, hs⟩ leads
  obtain ⟨halways, hpost⟩ := h s out t hs leads
  exact ⟨halways, fun a ha => ⟨leads.comes a ha, hpost a ha⟩⟩

end Answered

/-! ## Running a program -/

/-- What a program returns, and the world it leaves, where a function answers each call. -/
def answeredBy (answer : (c : Call) → Given → Ω → Answer c × Ω) :
    Calls Call Answer Given α → Ω → α × Ω
  | .done a, s => (a, s)
  | .call c given next, s => (next (answer c given s).1).answeredBy answer (answer c given s).2

lemma leads_answeredBy {answer : (c : Call) → Given → Ω → Answer c × Ω} {drifts : Ω → Ω → Prop}
    (p : Calls Call Answer Given α) (s : Ω) :
    Leads (fun c given s a t => answer c given s = (a, t)) drifts p s
      (some (p.answeredBy answer s).1) (p.answeredBy answer s).2 := by
  induction p generalizing s with
  | done a => exact .done a s
  | call c given next ih => exact .call rfl (ih _ _)

/-! ## What can be seen -/

/-- What can be seen of two programs is the same, however they are answered, and so is what they
return. -/
inductive SeenAlike : Calls Call Answer Given α → Calls Call Answer Given α → Prop
  | done (a : α) : SeenAlike (.done a) (.done a)
  | call (c : Call) (given given' : Given) {next next' : Answer c → Calls Call Answer Given α}
      (rest : ∀ answer, SeenAlike (next answer) (next' answer)) :
      SeenAlike (.call c given next) (.call c given' next')

namespace SeenAlike

variable {p p' : Calls Call Answer Given α}

@[refl] theorem refl (p : Calls Call Answer Given α) : SeenAlike p p := by
  induction p with
  | done a => exact .done a
  | call c given next ih => exact .call c given given ih

theorem bind {f f' : α → Calls Call Answer Given β} (first : SeenAlike p p')
    (second : ∀ a, SeenAlike (f a) (f' a)) : SeenAlike (p.bind f) (p'.bind f') := by
  induction first with
  | done a => exact second a
  | call c given given' rest ih => exact .call c given given' ih

theorem tryBind {ε : Type x} {p p' : Calls Call Answer Given (Except ε α)}
    {f f' : α → Calls Call Answer Given (Except ε β)} (first : SeenAlike p p')
    (second : ∀ a, SeenAlike (f a) (f' a)) : SeenAlike (p.tryBind f) (p'.tryBind f') := by
  refine first.bind ?_
  rintro (e | a)
  · exact .done _
  · exact second a

theorem unlessAsked {ask : Call} {given : Given} {stops : Answer ask → Bool} {dropped : α}
    (h : SeenAlike p p') :
    SeenAlike (p.unlessAsked ask given stops dropped) (p'.unlessAsked ask given stops dropped) := by
  induction h with
  | done a => exact .refl _
  | call c asked asked' rest ih =>
      refine .call ask given given fun answer => ?_
      split
      · exact .done dropped
      · exact .call c asked asked' ih

end SeenAlike

end Calls

end AssemblyLine
