import Mathlib.Data.List.Dedup

/-!
# Standing in line by name

A line of names, in which a name stands for whatever its owner asked for last.  An owner whose
earlier request was closed while it stood in line keeps that place, and joins the line again with
the next request: the name is in line twice, and the place of the request is the last of them.  So
the order of the requests is the order of `line.dedup`, which keeps the last of each name's places.

`LineView` is what matters of the owners and the line, and `LineMove` what can happen, with the
marks it leaves in a history.  `LineInv.move` is the law of such lines: if a name taken from the
front of the line is registered only when its request is in line already and no other waiting
request stands ahead of the name's last place, requests are registered in the order they were put
in line.
-/

namespace AssemblyLine

/-! ## The last of each name's places -/

section Dedup

variable {α : Type*} [DecidableEq α] {l m : List α} {a b : α}

lemma dedup_concat (l : List α) (b : α) : (l ++ [b]).dedup = l.dedup.filter (· ≠ b) ++ [b] := by
  induction l with
  | nil => rfl
  | cons a l ih =>
      rw [List.cons_append]
      by_cases hmem : a ∈ l
      · rw [List.dedup_cons_of_mem hmem, List.dedup_cons_of_mem (List.mem_append_left _ hmem), ih]
      · rw [List.dedup_cons_of_notMem hmem]
        by_cases hab : a = b
        · subst hab
          rw [List.dedup_cons_of_mem (List.mem_append_right _ (List.mem_singleton.mpr rfl)), ih]
          simp
        · have hnot : a ∉ l ++ [b] := by simp [hmem, hab]
          rw [List.dedup_cons_of_notMem hnot, ih]
          simp [hab]

/-- Names that stand in a line in some order still do when another joins it. -/
lemma sublist_dedup_concat (h : l.Sublist m.dedup) (hb : b ∉ l) :
    l.Sublist (m.dedup.filter (· ≠ b)) := by
  have hfilter := h.filter (· ≠ b)
  rwa [List.filter_eq_self.mpr] at hfilter
  intro a ha
  simpa using fun hab : a = b => hb (hab ▸ ha)

/-- Names other than the first still stand in line when the first has left. -/
lemma sublist_dedup_of_cons (h : l.Sublist (b :: m).dedup) (hb : b ∈ l → b ∈ m) :
    l.Sublist m.dedup := by
  by_cases hmem : b ∈ m
  · rwa [List.dedup_cons_of_mem hmem] at h
  · rw [List.dedup_cons_of_notMem hmem] at h
    rcases List.sublist_cons_iff.mp h with h | ⟨r, rfl, -⟩
    · exact h
    · exact absurd (hb List.mem_cons_self) hmem

/-- A name that stands before another stands before all its places. -/
lemma mem_takeWhile_of_sublist (hnodup : l.Nodup) (h : [a, b].Sublist l) :
    a ∈ l.takeWhile (· ≠ b) := by
  induction l with
  | nil => cases h
  | cons x l ih =>
      obtain ⟨hx, hnodup⟩ := List.nodup_cons.mp hnodup
      rcases List.sublist_cons_iff.mp h with h | ⟨r, hr, htail⟩
      · have hxb : x ≠ b := by
          rintro rfl
          exact hx (h.subset (by simp))
        rw [List.takeWhile_cons_of_pos (by simpa using hxb)]
        exact List.mem_cons_of_mem _ (ih hnodup h)
      · obtain ⟨rfl, rfl⟩ := List.cons.inj hr
        have hab : a ≠ b := by
          rintro rfl
          exact hx (htail.subset (by simp))
        rw [List.takeWhile_cons_of_pos (by simpa using hab)]
        exact List.mem_cons_self

end Dedup

/-- Where a pair that stands in a list stands when the list has got one more. -/
lemma pair_sublist_concat {β : Type*} {l : List β} {x y m : β} (h : [x, y].Sublist (l ++ [m])) :
    [x, y].Sublist l ∨ y = m := by
  obtain ⟨l₁, l₂, hpair, h₁, h₂⟩ := List.sublist_append_iff.mp h
  rcases List.sublist_singleton.mp h₂ with rfl | rfl
  · left
    rw [List.append_nil] at hpair
    rw [hpair]
    exact h₁
  · right
    have hlast := congrArg List.getLast? hpair
    simpa using hlast

/-! ## Requests, and what becomes of them -/

section Marks

variable {α : Type*}

/-- What becomes of an owner's `k`th request. -/
inductive LineMark (α : Type*)
  | enqueued (a : α) (k : ℕ)
  | registered (a : α) (k : ℕ)
  /-- Closed before it was registered. -/
  | closed (a : α) (k : ℕ)
deriving DecidableEq

/-- The request a mark puts in line. -/
def LineMark.enqueued? : LineMark α → Option (α × ℕ)
  | .enqueued a k => some (a, k)
  | .registered _ _ => none
  | .closed _ _ => none

/-- The requests put in line, in order. -/
def enqueues (h : List (LineMark α)) : List (α × ℕ) := h.filterMap LineMark.enqueued?

/-- Requests are registered in the order they are put in line, but for those closed meanwhile. -/
def InLineOrder (h : List (LineMark α)) : Prop :=
  ∀ before b j after, h = before ++ .registered b j :: after →
    ∀ a k, [LineMark.enqueued a k, .enqueued b j].Sublist h → .closed a k ∉ before →
      .registered a k ∈ before

variable {h : List (LineMark α)} {a b : α} {k j : ℕ} {m : LineMark α}

@[simp] lemma enqueues_append (h h' : List (LineMark α)) :
    enqueues (h ++ h') = enqueues h ++ enqueues h' :=
  List.filterMap_append

@[simp] lemma enqueues_nil : enqueues ([] : List (LineMark α)) = [] := rfl
@[simp] lemma enqueues_enqueued : enqueues [LineMark.enqueued b j] = [(b, j)] := rfl
@[simp] lemma enqueues_registered : enqueues [LineMark.registered b j] = [] := rfl
@[simp] lemma enqueues_closed : enqueues [LineMark.closed b j] = [] := rfl

/-- Order holds of a longer history when it holds of the history, a request registered now has
nobody ahead of it, and a request put in line now is not registered yet. -/
lemma InLineOrder.snoc (order : InLineOrder h)
    (now : ∀ b j, m = .registered b j → ∀ a k, [LineMark.enqueued a k, .enqueued b j].Sublist h →
      .closed a k ∉ h → .registered a k ∈ h)
    (later : ∀ b j, m = .enqueued b j → .registered b j ∉ h) : InLineOrder (h ++ [m]) := by
  intro before b j after hsplit a k hpair hopen
  rcases List.eq_nil_or_concat after with rfl | ⟨after, m', rfl⟩
  · -- The mark is the last one.
    obtain ⟨rfl, hm⟩ := List.append_inj' hsplit rfl
    obtain rfl := List.singleton_inj.mp hm
    rcases pair_sublist_concat hpair with hpair | hmark
    · exact now b j rfl a k hpair hopen
    · cases hmark
  · obtain ⟨rfl, hm⟩ : h = before ++ .registered b j :: after ∧ m' = m := by
      have hconcat : h ++ [m] = (before ++ .registered b j :: after) ++ [m'] := by
        rw [hsplit, List.concat_eq_append, List.append_assoc, List.cons_append]
      obtain ⟨hh, hm⟩ := List.append_inj' hconcat rfl
      exact ⟨hh, (List.singleton_inj.mp hm).symm⟩
    rcases pair_sublist_concat hpair with hpair | hmark
    · exact order before b j after rfl a k hpair hopen
    · exact absurd (List.mem_append_right _ List.mem_cons_self) (later b j hmark.symm)

/-- An earlier place in line is an earlier request put there. -/
lemma enqueues_pair (hpair : [LineMark.enqueued a k, .enqueued b j].Sublist h) :
    [(a, k), (b, j)].Sublist (enqueues h) :=
  hpair.filterMap LineMark.enqueued?

variable [DecidableEq α]

/-- The requests put in line that are neither registered nor closed. -/
def inLine (h : List (LineMark α)) : List (α × ℕ) :=
  (enqueues h).filter fun x => .registered x.1 x.2 ∉ h ∧ .closed x.1 x.2 ∉ h

lemma mem_inLine : (a, k) ∈ inLine h ↔
    (a, k) ∈ enqueues h ∧ .registered a k ∉ h ∧ .closed a k ∉ h := by
  simp [inLine]

/-- What stands in line after a mark that puts nothing there stood there before. -/
lemma inLine_snoc_of (hm : enqueues [m] = []) : (inLine (h ++ [m])).Sublist (inLine h) := by
  have henqueues : enqueues (h ++ [m]) = enqueues h := by
    rw [enqueues_append, hm, List.append_nil]
  rw [inLine, inLine, henqueues]
  refine List.monotone_filter_right _ ?_
  intro x hx
  simp only [List.mem_append, not_or, Bool.decide_and, Bool.and_eq_true, decide_eq_true_eq] at hx ⊢
  exact ⟨hx.1.1, hx.2.1⟩

/-- A request put in line stands there unless it is registered or closed already. -/
lemma inLine_snoc_enqueued : inLine (h ++ [.enqueued b j]) = inLine h ++
    (if .registered b j ∉ h ∧ .closed b j ∉ h then [(b, j)] else []) := by
  have hmem : ∀ x : α × ℕ,
      (LineMark.registered x.1 x.2 ∉ h ++ [.enqueued b j] ∧
        LineMark.closed x.1 x.2 ∉ h ++ [.enqueued b j]) ↔
          .registered x.1 x.2 ∉ h ∧ .closed x.1 x.2 ∉ h := by
    intro x
    simp
  simp only [inLine, hmem, enqueues_append, enqueues_enqueued, List.filter_append,
    List.filter_singleton, Bool.cond_decide]

end Marks

/-! ## The line -/

/-- What matters of a line and of the owners of the names in it. -/
structure LineView (α : Type*) where
  /-- How often an owner has asked. -/
  asked : α → ℕ
  /-- The owner's last request is open. -/
  queued : α → Prop
  /-- It is open, and nobody is at work on it. -/
  waiting : α → Prop
  /-- It is about to be put in line. -/
  joining : α → Prop
  line : List α
  /-- Nobody is called from the line any more. -/
  ended : Prop
  queued_of_waiting : ∀ a, waiting a → queued a

section Line

variable {α : Type*} [DecidableEq α] {v v' : LineView α} {h : List (LineMark α)} {a b : α} {k : ℕ}

/-- What a change to the owners' requests leaves alone: everything of those in `others`, and how
often everybody has asked. -/
structure LineView.Carries (v v' : LineView α) (others : α → Prop) : Prop where
  asked : ∀ a, others a → v'.asked a = v.asked a
  queued : ∀ a, others a → v'.queued a → v.queued a
  waiting : ∀ a, others a → v.waiting a → v'.waiting a
  joining : ∀ a, others a → (v'.joining a ↔ v.joining a)
  ended : v.ended → v'.ended

/-- A change to one owner that asks for nothing leaves how often everybody has asked. -/
lemma LineView.Carries.asked_all (carries : v.Carries v' (· ≠ b)) (hb : v'.asked b = v.asked b)
    (a : α) :
    v'.asked a = v.asked a := by
  by_cases ha : a = b
  · rw [ha, hb]
  · exact carries.asked a ha

lemma LineView.Carries.queued_all (carries : v.Carries v' (· ≠ b)) (hb : v'.queued b → v.queued b)
    (a : α) : v'.queued a → v.queued a := by
  by_cases ha : a = b
  · rw [ha]
    exact hb
  · exact carries.queued a ha

/-- What can happen to a line, and the marks it leaves. -/
inductive LineMove (v v' : LineView α) : List (LineMark α) → Prop
  | idle (carries : v.Carries v' fun _ => True) (line : v'.line = v.line) : LineMove v v' []
  /-- A name leaves the line, and not as the last place of an owner who waits. -/
  | skips (b : α) (carries : v.Carries v' fun _ => True) (line : v.line = b :: v'.line)
      (placed : v.waiting b → ¬ v.joining b → b ∈ v'.line) : LineMove v v' []
  | ends (carries : v.Carries v' fun _ => True) (line : v'.line ⊆ v.line) (ended : v'.ended) :
      LineMove v v' []
  | asks (b : α) (carries : v.Carries v' (· ≠ b)) (line : v'.line = v.line)
      (answered : ¬ v.queued b)
      (again : v'.asked b = v.asked b + 1) (waits : v'.waiting b) (joins : v'.joining b) :
      LineMove v v' []
  | joins (b : α) (carries : v.Carries v' (· ≠ b)) (line : v'.line = v.line ++ [b])
      (joining : v.joining b) (asked : v'.asked b = v.asked b) (queued : v'.queued b → v.queued b)
      (waits : v.waiting b → v'.waiting b) (joined : ¬ v'.joining b) :
      LineMove v v' [.enqueued b (v.asked b)]
  | closes (b : α) (carries : v.Carries v' (· ≠ b)) (line : v'.line = v.line)
      (asked : v'.asked b = v.asked b) (closed : ¬ v'.queued b)
      (joining : v'.joining b ↔ v.joining b) : LineMove v v' [.closed b (v.asked b)]
  /-- The first in line is called: its request is in line, and if it has another place, nobody who
  waits has one ahead of the last of them. -/
  | registers (b : α) (carries : v.Carries v' (· ≠ b)) (line : v.line = b :: v'.line)
      (asked : v'.asked b = v.asked b) (waits : v.waiting b) (joined : ¬ v.joining b)
      (still : ¬ v'.joining b) (working : ¬ v.ended)
      (ahead : b ∈ v'.line → ∀ a ∈ v'.line.dedup.takeWhile (· ≠ b), v.waiting a → v.joining a) :
      LineMove v v' [.registered b (v.asked b)]

/-- What a history has to do with the line it has led to. -/
structure LineInv (v : LineView α) (h : List (LineMark α)) : Prop where
  waits : ∀ a k, (a, k) ∈ inLine h → k = v.asked a ∧ v.waiting a ∧ ¬ v.joining a
  /-- Those in line stand in the order they were put there. -/
  placed : ¬ v.ended → ((inLine h).map Prod.fst).Sublist v.line.dedup
  past : ∀ a k, (a, k) ∈ enqueues h → k ≤ v.asked a
  fresh : ∀ a, v.joining a → (a, v.asked a) ∉ enqueues h
  once : (enqueues h).Nodup
  /-- An open request of somebody in line has been put there, or is about to be. -/
  tracked : ∀ a ∈ v.line, v.queued a → ¬ v.joining a → (a, v.asked a) ∈ enqueues h
  joinable : ∀ a, v.joining a → .closed a (v.asked a) ∉ h → v.waiting a
  registered : ∀ a k, .registered a k ∈ h → (a, k) ∈ enqueues h
  closed : ∀ a k, .closed a k ∈ h → k ≤ v.asked a ∧ (k = v.asked a → ¬ v.queued a)
  order : InLineOrder h

namespace LineInv

/-- Where nobody is in line yet. -/
lemma empty (line : v.line = []) (waiting : ∀ a, v.joining a → v.waiting a) : LineInv v [] where
  waits _ _ hmem := nomatch hmem
  placed _ := List.nil_sublist _
  past _ _ hmem := nomatch hmem
  fresh _ _ hmem := nomatch hmem
  once := List.nodup_nil
  tracked a hin := by
    rw [line] at hin
    cases hin
  joinable a hjoining _ := waiting a hjoining
  registered _ _ hmem := nomatch hmem
  closed _ _ hmem := nomatch hmem
  order before b j after hsplit := by simp at hsplit

/-- A change that leaves every owner's request alone, and those in line in their order. -/
lemma of_carries (inv : LineInv v h) (carries : v.Carries v' fun _ => True)
    (line : v'.line ⊆ v.line)
    (placed : ¬ v'.ended → ((inLine h).map Prod.fst).Sublist v'.line.dedup) : LineInv v' h where
  waits a k hmem := by
    obtain ⟨hk, hwaits, hjoined⟩ := inv.waits a k hmem
    rw [carries.asked a trivial, carries.joining a trivial]
    exact ⟨hk, carries.waiting a trivial hwaits, hjoined⟩
  placed := placed
  past a k hmem := by
    rw [carries.asked a trivial]
    exact inv.past a k hmem
  fresh a hjoining := by
    rw [carries.asked a trivial]
    exact inv.fresh a ((carries.joining a trivial).mp hjoining)
  once := inv.once
  tracked a hin hqueued hjoined := by
    rw [carries.asked a trivial]
    rw [carries.joining a trivial] at hjoined
    exact inv.tracked a (line hin) (carries.queued a trivial hqueued) hjoined
  joinable a hjoining hopen := by
    rw [carries.asked a trivial] at hopen
    exact carries.waiting a trivial (inv.joinable a ((carries.joining a trivial).mp hjoining) hopen)
  registered := inv.registered
  closed a k hmem := by
    obtain ⟨hpast, hclosed⟩ := inv.closed a k hmem
    rw [carries.asked a trivial]
    exact ⟨hpast, fun hk hqueued => hclosed hk (carries.queued a trivial hqueued)⟩
  order := inv.order

/-- An owner whose last request is answered asks again. -/
lemma asks (inv : LineInv v h) (carries : v.Carries v' (· ≠ b)) (line : v'.line = v.line)
    (answered : ¬ v.queued b) (again : v'.asked b = v.asked b + 1) (waits : v'.waiting b)
    (joins : v'.joining b) : LineInv v' h where
  waits a k hmem := by
    obtain ⟨hk, hwaits, hjoined⟩ := inv.waits a k hmem
    have hne : a ≠ b := by
      rintro rfl
      exact answered (v.queued_of_waiting a hwaits)
    rw [carries.asked a hne, carries.joining a hne]
    exact ⟨hk, carries.waiting a hne hwaits, hjoined⟩
  placed hopen := by
    rw [line]
    exact inv.placed fun hended => hopen (carries.ended hended)
  past a k hmem := by
    have hpast := inv.past a k hmem
    by_cases ha : a = b
    · rw [ha] at hpast ⊢
      omega
    · rw [carries.asked a ha]
      exact hpast
  fresh a hjoining hmem := by
    by_cases ha : a = b
    · subst ha
      have hpast := inv.past a _ hmem
      omega
    · rw [carries.asked a ha] at hmem
      exact inv.fresh a ((carries.joining a ha).mp hjoining) hmem
  once := inv.once
  tracked a hin hqueued hjoined := by
    have ha : a ≠ b := by
      rintro rfl
      exact hjoined joins
    rw [carries.asked a ha]
    rw [carries.joining a ha] at hjoined
    rw [line] at hin
    exact inv.tracked a hin (carries.queued a ha hqueued) hjoined
  joinable a hjoining hopen := by
    by_cases ha : a = b
    · rw [ha]
      exact waits
    · rw [carries.asked a ha] at hopen
      exact carries.waiting a ha (inv.joinable a ((carries.joining a ha).mp hjoining) hopen)
  registered := inv.registered
  closed a k hmem := by
    obtain ⟨hpast, hclosed⟩ := inv.closed a k hmem
    by_cases ha : a = b
    · subst ha
      refine ⟨by omega, ?_⟩
      intro hk
      omega
    · rw [carries.asked a ha]
      exact ⟨hpast, fun hk hqueued => hclosed hk (carries.queued a ha hqueued)⟩
  order := inv.order

/-- A request is put in line behind all who stand there. -/
lemma joins (inv : LineInv v h) (carries : v.Carries v' (· ≠ b)) (line : v'.line = v.line ++ [b])
    (joining : v.joining b) (asked : v'.asked b = v.asked b) (queued : v'.queued b → v.queued b)
    (waits : v.waiting b → v'.waiting b) (joined : ¬ v'.joining b) :
    LineInv v' (h ++ [.enqueued b (v.asked b)]) := by
  have hasked := carries.asked_all asked
  have hqueued := carries.queued_all queued
  have hjoining : ∀ a, v'.joining a → a ≠ b ∧ v.joining a := by
    intro a hjoins
    have ha : a ≠ b := by
      rintro rfl
      exact joined hjoins
    exact ⟨ha, (carries.joining a ha).mp hjoins⟩
  have hunregistered : .registered b (v.asked b) ∉ h := fun hmem =>
    inv.fresh b joining (inv.registered b _ hmem)
  have hnew : b ∉ (inLine h).map Prod.fst := by
    intro hmem
    obtain ⟨⟨a, k⟩, hin, rfl⟩ := List.mem_map.mp hmem
    exact (inv.waits a k hin).2.2 joining
  refine ⟨?_, ?_, ?_, ?_, ?_, ?_, ?_, ?_, ?_, ?_⟩
  · intro a k hmem
    rw [hasked]
    rw [inLine_snoc_enqueued, List.mem_append] at hmem
    rcases hmem with hmem | hmem
    · obtain ⟨hk, hwaits, hjoined⟩ := inv.waits a k hmem
      have ha : a ≠ b := by
        rintro rfl
        exact hjoined joining
      exact ⟨hk, carries.waiting a ha hwaits, fun hjoins => hjoined (hjoining a hjoins).2⟩
    · split at hmem
      · rename_i hopen
        obtain ⟨rfl, rfl⟩ := Prod.mk.inj (List.mem_singleton.mp hmem)
        exact ⟨rfl, waits (inv.joinable a joining hopen.2), joined⟩
      · cases hmem
  · intro hopen
    have hplaced := sublist_dedup_concat
      (inv.placed fun hended => hopen (carries.ended hended)) hnew
    rw [line, dedup_concat, inLine_snoc_enqueued, List.map_append]
    refine hplaced.append ?_
    split
    · exact List.Sublist.refl _
    · exact List.nil_sublist _
  · intro a k hmem
    rw [hasked]
    rw [enqueues_append, List.mem_append] at hmem
    rcases hmem with hmem | hmem
    · exact inv.past a k hmem
    · obtain ⟨rfl, rfl⟩ := Prod.mk.inj (List.mem_singleton.mp hmem)
      exact Nat.le_refl _
  · intro a hjoins hmem
    obtain ⟨ha, hold⟩ := hjoining a hjoins
    rw [hasked, enqueues_append, List.mem_append] at hmem
    rcases hmem with hmem | hmem
    · exact inv.fresh a hold hmem
    · exact ha (Prod.mk.inj (List.mem_singleton.mp hmem)).1
  · rw [enqueues_append, enqueues_enqueued]
    refine List.Nodup.append inv.once (List.nodup_singleton _) ?_
    simpa using inv.fresh b joining
  · intro a hin hopen hjoined
    rw [hasked, enqueues_append, List.mem_append]
    by_cases ha : a = b
    · right
      rw [ha]
      exact List.mem_singleton_self _
    · left
      rw [carries.joining a ha] at hjoined
      rw [line, List.mem_append, List.mem_singleton] at hin
      exact inv.tracked a (hin.resolve_right ha) (hqueued a hopen) hjoined
  · intro a hjoins hopen
    obtain ⟨ha, hold⟩ := hjoining a hjoins
    rw [hasked] at hopen
    exact carries.waiting a ha (inv.joinable a hold fun hmem => hopen (List.mem_append_left _ hmem))
  · intro a k hmem
    rw [enqueues_append, List.mem_append]
    rcases List.mem_append.mp hmem with hmem | hmem
    · exact .inl (inv.registered a k hmem)
    · simp at hmem
  · intro a k hmem
    rw [hasked]
    rcases List.mem_append.mp hmem with hmem | hmem
    · obtain ⟨hpast, hclosed⟩ := inv.closed a k hmem
      exact ⟨hpast, fun hk hopen => hclosed hk (hqueued a hopen)⟩
    · simp at hmem
  · refine inv.order.snoc (fun _ _ hmark => nomatch hmark) ?_
    rintro c i hmark
    obtain ⟨rfl, rfl⟩ := LineMark.enqueued.inj hmark
    exact hunregistered

/-- An owner's last request is no longer in line: it is registered or closed. -/
lemma answered {m : LineMark α} (inv : LineInv v h) (carries : v.Carries v' (· ≠ b))
    (line : v'.line ⊆ v.line) (asked : v'.asked b = v.asked b) (queued : v'.queued b → v.queued b)
    (joining : v'.joining b ↔ v.joining b) (nothing : enqueues [m] = [])
    (out : (b, v.asked b) ∉ inLine (h ++ [m]))
    (placed : ¬ v'.ended → ((inLine (h ++ [m])).map Prod.fst).Sublist v'.line.dedup)
    (joinable : v.joining b → .closed b (v.asked b) ∉ h ++ [m] → v'.waiting b)
    (registered : ∀ a k, m = .registered a k → (a, k) ∈ enqueues h)
    (closed : ∀ a k, m = .closed a k → k ≤ v.asked a ∧ (k = v.asked a → ¬ v'.queued a))
    (order : InLineOrder (h ++ [m])) : LineInv v' (h ++ [m]) := by
  have hasked := carries.asked_all asked
  have hqueued := carries.queued_all queued
  have hjoining : ∀ a, v'.joining a ↔ v.joining a := by
    intro a
    by_cases ha : a = b
    · rw [ha]
      exact joining
    · exact carries.joining a ha
  have henqueues : enqueues (h ++ [m]) = enqueues h := by
    rw [enqueues_append, nothing, List.append_nil]
  refine ⟨?_, placed, ?_, ?_, ?_, ?_, ?_, ?_, ?_, order⟩
  · intro a k hmem
    obtain ⟨rfl, hwaits, hjoined⟩ := inv.waits a k ((inLine_snoc_of nothing).subset hmem)
    have ha : a ≠ b := by
      rintro rfl
      exact out hmem
    rw [hasked, hjoining]
    exact ⟨rfl, carries.waiting a ha hwaits, hjoined⟩
  · intro a k hmem
    rw [henqueues] at hmem
    rw [hasked]
    exact inv.past a k hmem
  · intro a hjoins
    rw [hasked, henqueues]
    exact inv.fresh a ((hjoining a).mp hjoins)
  · rw [henqueues]
    exact inv.once
  · intro a hin hopen hjoined
    rw [hasked, henqueues]
    rw [hjoining] at hjoined
    exact inv.tracked a (line hin) (hqueued a hopen) hjoined
  · intro a hjoins hopen
    rw [hasked] at hopen
    rw [hjoining] at hjoins
    by_cases ha : a = b
    · rw [ha] at hjoins hopen ⊢
      exact joinable hjoins hopen
    · exact carries.waiting a ha (inv.joinable a hjoins fun hmem =>
        hopen (List.mem_append_left _ hmem))
  · intro a k hmem
    rw [henqueues]
    rcases List.mem_append.mp hmem with hmem | hmem
    · exact inv.registered a k hmem
    · exact registered a k (List.mem_singleton.mp hmem).symm
  · intro a k hmem
    rw [hasked]
    rcases List.mem_append.mp hmem with hmem | hmem
    · obtain ⟨hpast, hclosed⟩ := inv.closed a k hmem
      exact ⟨hpast, fun hk hopen => hclosed hk (hqueued a hopen)⟩
    · exact closed a k (List.mem_singleton.mp hmem).symm

/-- A request is closed where it stands. -/
lemma closes (inv : LineInv v h) (carries : v.Carries v' (· ≠ b)) (line : v'.line = v.line)
    (asked : v'.asked b = v.asked b) (closed : ¬ v'.queued b)
    (joining : v'.joining b ↔ v.joining b) : LineInv v' (h ++ [.closed b (v.asked b)]) := by
  have hmark : .closed b (v.asked b) ∈ h ++ [.closed b (v.asked b)] :=
    List.mem_append_right _ List.mem_cons_self
  refine inv.answered carries (by rw [line]; exact List.Subset.refl _) asked
    (fun hopen => absurd hopen closed) joining rfl ?_ ?_ ?_
    (fun _ _ hregistered => nomatch hregistered) ?_ ?_
  · intro hmem
    exact (mem_inLine.mp hmem).2.2 hmark
  · intro hopen
    rw [line]
    exact ((inLine_snoc_of rfl).map Prod.fst).trans
      (inv.placed fun hended => hopen (carries.ended hended))
  · intro _ hopen
    exact absurd hmark hopen
  · rintro a k heq
    obtain ⟨rfl, rfl⟩ := LineMark.closed.inj heq
    exact ⟨Nat.le_refl _, fun _ => closed⟩
  · exact inv.order.snoc (fun _ _ hregistered => nomatch hregistered)
      (fun _ _ henqueued => nomatch henqueued)

/-- When the first in line is called, every open request put in line before its own is
registered. -/
lemma first_registered (inv : LineInv v h) {line : List α} (hline : v.line = b :: line)
    (waits : v.waiting b) (working : ¬ v.ended)
    (ahead : b ∈ line → ∀ a ∈ line.dedup.takeWhile (· ≠ b), v.waiting a → v.joining a)
    (hpair : [LineMark.enqueued a k, .enqueued b (v.asked b)].Sublist h)
    (hopen : .closed a k ∉ h) : .registered a k ∈ h := by
  by_contra hunregistered
  have hpair' := enqueues_pair hpair
  have hearlier : (a, k) ∈ inLine h :=
    mem_inLine.mpr ⟨hpair'.subset List.mem_cons_self, hunregistered, hopen⟩
  by_cases hin : (b, v.asked b) ∈ inLine h
  · -- Both stand in line, the other one ahead.
    have hnames : [a, b].Sublist v.line.dedup := by
      refine List.Sublist.trans ?_ (inv.placed working)
      have hboth := hpair'.filter fun x => .registered x.1 x.2 ∉ h ∧ .closed x.1 x.2 ∉ h
      rw [List.filter_eq_self.mpr] at hboth
      · exact hboth.map Prod.fst
      · intro x hx
        rcases List.mem_pair.mp hx with rfl | rfl
        · exact decide_eq_true (mem_inLine.mp hearlier).2
        · exact decide_eq_true (mem_inLine.mp hin).2
    obtain ⟨-, hwaits, hjoined⟩ := inv.waits a k hearlier
    by_cases hagain : b ∈ line
    · rw [hline, List.dedup_cons_of_mem hagain] at hnames
      exact hjoined (ahead hagain a (mem_takeWhile_of_sublist (List.nodup_dedup _) hnames) hwaits)
    · rw [hline, List.dedup_cons_of_notMem hagain] at hnames
      have hfirst := mem_takeWhile_of_sublist
        (List.nodup_cons.mpr ⟨by rwa [List.mem_dedup], List.nodup_dedup _⟩) hnames
      simp at hfirst
  · have hown := hpair'.subset (List.mem_cons_of_mem _ List.mem_cons_self)
    rw [mem_inLine] at hin
    by_cases hmine : .registered b (v.asked b) ∈ h
    · -- It was registered before, and what was put in line before it, earlier still.
      obtain ⟨before, after, hsplit⟩ := List.append_of_mem hmine
      have hclosed : .closed a k ∉ before := fun hmem =>
        hopen (by rw [hsplit]; exact List.mem_append_left _ hmem)
      have hbefore := inv.order before b _ after hsplit a k hpair hclosed
      exact hunregistered (by rw [hsplit]; exact List.mem_append_left _ hbefore)
    · refine hin ⟨hown, hmine, ?_⟩
      intro hclosed
      exact (inv.closed b _ hclosed).2 rfl (v.queued_of_waiting b waits)

/-- The first in line is called. -/
lemma registers (inv : LineInv v h) (carries : v.Carries v' (· ≠ b)) (line : v.line = b :: v'.line)
    (asked : v'.asked b = v.asked b) (waits : v.waiting b) (joined : ¬ v.joining b)
    (still : ¬ v'.joining b) (working : ¬ v.ended)
    (ahead : b ∈ v'.line → ∀ a ∈ v'.line.dedup.takeWhile (· ≠ b), v.waiting a → v.joining a) :
    LineInv v' (h ++ [.registered b (v.asked b)]) := by
  have hqueued := v.queued_of_waiting b waits
  have hout : (b, v.asked b) ∉ inLine (h ++ [.registered b (v.asked b)]) := by
    intro hmem
    exact (mem_inLine.mp hmem).2.1 (List.mem_append_right _ List.mem_cons_self)
  have hshorter : v'.line ⊆ v.line := by
    rw [line]
    exact List.subset_cons_self _ _
  refine inv.answered carries hshorter asked (fun _ => hqueued)
    (iff_of_false still joined) rfl hout ?_
    (fun hjoins => absurd hjoins joined) ?_ (fun _ _ hclosed => nomatch hclosed) ?_
  · intro _
    have hbefore := ((inLine_snoc_of (m := .registered b (v.asked b)) rfl).map Prod.fst).trans
      (inv.placed working)
    rw [line] at hbefore
    refine sublist_dedup_of_cons hbefore ?_
    intro hmem
    obtain ⟨⟨a, k⟩, hin, rfl⟩ := List.mem_map.mp hmem
    obtain ⟨rfl, -⟩ := inv.waits a k ((inLine_snoc_of rfl).subset hin)
    exact absurd hin hout
  · rintro a k heq
    obtain ⟨rfl, rfl⟩ := LineMark.registered.inj heq
    exact inv.tracked b (by rw [line]; exact List.mem_cons_self) hqueued joined
  · refine inv.order.snoc ?_ (fun _ _ henqueued => nomatch henqueued)
    rintro c i heq a k hpair hopen
    obtain ⟨rfl, rfl⟩ := LineMark.registered.inj heq
    exact inv.first_registered line waits working ahead hpair hopen

/-- **The law of the line**: whatever can happen to it keeps the requests in their order. -/
theorem move (inv : LineInv v h) {marks : List (LineMark α)} (hmove : LineMove v v' marks) :
    LineInv v' (h ++ marks) := by
  cases hmove with
  | idle carries line =>
      rw [List.append_nil]
      refine inv.of_carries carries (by rw [line]; exact List.Subset.refl _) ?_
      intro hopen
      rw [line]
      exact inv.placed fun hended => hopen (carries.ended hended)
  | skips b carries line placed =>
      rw [List.append_nil]
      refine inv.of_carries carries (by rw [line]; exact List.subset_cons_self _ _) ?_
      intro hopen
      have hbefore := inv.placed fun hended => hopen (carries.ended hended)
      rw [line] at hbefore
      refine sublist_dedup_of_cons hbefore ?_
      intro hmem
      obtain ⟨⟨a, k⟩, hin, rfl⟩ := List.mem_map.mp hmem
      obtain ⟨-, hwaits, hjoined⟩ := inv.waits a k hin
      exact placed hwaits hjoined
  | ends carries line ended =>
      rw [List.append_nil]
      exact inv.of_carries carries line fun hopen => absurd ended hopen
  | asks b carries line answered again waits joins =>
      rw [List.append_nil]
      exact inv.asks carries line answered again waits joins
  | joins b carries line joining asked queued waits joined =>
      exact inv.joins carries line joining asked queued waits joined
  | closes b carries line asked closed joining =>
      exact inv.closes carries line asked closed joining
  | registers b carries line asked waits joined still working ahead =>
      exact inv.registers carries line asked waits joined still working ahead

end LineInv

end Line

end AssemblyLine
