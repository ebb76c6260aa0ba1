import AssemblyLine.Framework.Last
import AssemblyLine.Framework.Machine
import AssemblyLine.Runner.PodLog

/-!
# Reconnecting to a pod's log

A `kubectl logs -f` that ends while the pod runs on is followed by another, unless reconnecting has
been fruitless for too long.  `PodStream.turn` is one turn of the loop in `next_line`, and a machine
whose actions are what `kubectl` does: print a line, or close its pipes, with the clock's reading
and the pod's status then.

A run of it shows what became of each follow.  `Counts` says that the counter is the number of
reconnects since the last mark of a fruitful follow, which no line without a timestamp and no
replayed line is, and `reconnects_bounded` is what follows for every run.
-/

namespace AssemblyLine

/-- How many reconnects in a row may bring back no new log lines before the stream is treated as
broken rather than dropped. -/
def fruitlessReconnectsAllowed : ℕ := 5

/-- How many times in a row reading the pod's status may fail. -/
def statusAttempts : ℕ := 5

/-! ## The pod's status -/

inductive PodProgress
  /-- No pod: never created, or deleted. -/
  | gone
  | waiting (reason : String)
  | running (pod : String)
  | finished (pod : String) (exitCode : ℤ) (reason : Option String)
deriving DecidableEq, Repr

/-- The loop of `progress_despite_blips`, with this many attempts left after the next one. -/
def progressFrom (status : ℕ → Except String PodProgress) (attempt : ℕ) :
    ℕ → Except String PodProgress
  | 0 => (status attempt).mapError fun e => s!"cannot read the pod's status: {e}"
  | left + 1 =>
    match status attempt with
    | .ok progress => .ok progress
    | .error _ => progressFrom status (attempt + 1) left

/-- The pod's status, riding out a few failures in a row. -/
def progressDespiteBlips (status : ℕ → Except String PodProgress) : Except String PodProgress :=
  progressFrom status 1 (statusAttempts - 1)

/-! ## The stream -/

/-- Where a round's log is read from. -/
inductive LogStream
  /-- `kubectl logs -f`, which can drop while the pod runs on. -/
  | following
  /-- One last `kubectl logs` without `-f`, once the pod has finished. -/
  | draining
  | ended
deriving DecidableEq, Repr

/-- Why a stream has to be abandoned. -/
inductive Abandoned
  | noOutput (complaint : Option String)
  | failed (error : String)
deriving DecidableEq, Repr

def Abandoned.text : Abandoned → String
  | .noOutput complaint =>
    "`kubectl logs` kept ending with no output while the pod ran" ++
      (complaint.map fun complaint => ": " ++ complaint).getD ""
  | .failed e => e

/-- A round's stream of log lines. -/
structure PodStream where
  round : KubernetesRound
  stream : LogStream
  /-- When the current `kubectl logs -f` connected. -/
  followingSince : Option Instant
  streamAbandonedBecause : Option String
deriving DecidableEq, Repr

/-- What `kubectl` does next. -/
inductive KubectlTurn
  | printed (line : String)
  /-- Both its pipes close.  A status is read by attempts, and another `kubectl logs` may be
  spawned. -/
  | closed (now : Instant) (status : ℕ → Except String PodProgress)
      (spawned : Except String Unit) (connectedAt : Instant)

namespace PodStream

/-- A stream that has just been opened. -/
def opened (since : Instant) : PodStream := ⟨{}, .following, some since, none⟩

/-- What to read next once `kubectl logs -f` has ended: a reconnect if the pod still runs, a last
drain if it finished, nothing if it is gone. -/
def streamAfterFollowEnded (round : KubernetesRound) (status : ℕ → Except String PodProgress)
    (spawned : Except String Unit) : Except Abandoned LogStream :=
  match progressDespiteBlips status with
  | .ok (.running _) =>
    if fruitlessReconnectsAllowed ≤ round.fruitlessReconnects then
      .error (.noOutput round.lastUnstampedLine)
    else
      match spawned with
      | .ok _ => .ok .following
      | .error e => .error (.failed e)
  | .ok (.finished _ _ _) =>
    match spawned with
    | .ok _ => .ok .draining
    | .error _ => .ok .ended
  | .ok (.waiting _) => .ok .ended
  | .ok .gone => .ok .ended
  | .error e => .error (.failed e)

/-- Whether the follow that ends now held long enough to count as a live connection. -/
def held (live : ℕ) (s : PodStream) (now : Instant) : Bool :=
  s.followingSince.any fun since => live ≤ (now - since).toNat

/-- What has been read, once the follow that ends now is judged by how long it held. -/
def judged (live : ℕ) (s : PodStream) (now : Instant) : KubernetesRound :=
  if s.held live now then { s.round with fruitlessReconnects := 0 } else s.round

/-- A round whose log is read by a new stream. -/
def resumedRound (round : KubernetesRound) : KubernetesRound :=
  { round with position := round.position.resumed }

/-- One turn of the loop in `next_line`: `some` of what is returned, or `none` to go round again. -/
def turn (instant : String → Option Instant) (live : ℕ) (s : PodStream) :
    KubectlTurn → PodStream × Option (Option String)
  | .printed line =>
    match s.stream with
    | .ended => (s, some none)
    | _ =>
      match s.round.textUnlessReplayed instant line with
      | (round, some text) => ({ s with round }, some (some text))
      | (round, none) => ({ s with round }, none)
  | .closed now status spawned connectedAt =>
    match s.stream with
    | .ended => (s, some none)
    | .draining => ({ s with stream := .ended }, some none)
    | .following =>
      let round := s.judged live now
      match streamAfterFollowEnded round status spawned with
      | .ok .following =>
        ({ s with
          round := resumedRound
            { round with fruitlessReconnects := round.fruitlessReconnects + 1 }
          stream := .following
          followingSince := some connectedAt }, none)
      | .ok stream => ({ s with round := resumedRound round, stream }, none)
      | .error reason =>
        ({ s with
          round := resumedRound round
          stream := .ended
          streamAbandonedBecause := some reason.text }, none)

/-- `next_line`, while `kubectl` takes these turns, and the turns it has not taken yet; `none` when
they do not see the call through. -/
def nextLine (instant : String → Option Instant) (live : ℕ) :
    PodStream → List KubectlTurn → Option (PodStream × Option String × List KubectlTurn)
  | s, [] => if s.stream = .ended then some (s, none, []) else none
  | s, first :: turns =>
    if s.stream = .ended then some (s, none, first :: turns)
    else
      match s.turn instant live first with
      | (s, some returned) => some (s, returned, turns)
      | (s, none) => nextLine instant live s turns

/-- `kubectl` takes a turn, while there is one to read from. -/
def step (instant : String → Option Instant) (live : ℕ) (s : PodStream) (t : KubectlTurn) :
    Option PodStream :=
  if s.stream = .ended then none else some (s.turn instant live t).1

end PodStream

/-! ## What a run shows -/

/-- What becomes of a follow. -/
inductive FollowMark
  /-- It yields a stamped line that was not read before. -/
  | newLine
  /-- It yields a line without a timestamp, or one that was read before. -/
  | otherLine
  /-- It ends, having lasted long enough to count as a live connection or not. -/
  | ended (held : Bool)
  /-- Another follow is begun. -/
  | reconnected
  | abandoned (reason : Abandoned)
deriving DecidableEq, Repr

/-- The marks of a follow that is fruitful. -/
def FollowMark.fruitful : FollowMark → Bool
  | .newLine => true
  | .otherLine => false
  | .ended held => held
  | .reconnected => false
  | .abandoned _ => false

/-- How many reconnects were made since the last fruitful follow, or since the first. -/
def reconnectsSinceFruitful (marks : List FollowMark) : ℕ :=
  (marks.reverse.takeWhile fun mark => !mark.fruitful).count .reconnected

namespace PodStream

/-- Whether a printed line is stamped, and not one read before. -/
def isNew (instant : String → Option Instant) (round : KubernetesRound) (line : String) : Bool :=
  (splitTimestamp instant line).1.any fun stamp => (round.position.afterLine instant stamp).2

/-- What a turn shows of the follow it is taken in. -/
def shown (instant : String → Option Instant) (live : ℕ) (s : PodStream) :
    KubectlTurn → List FollowMark
  | .printed line =>
    match s.stream with
    | .following => [if isNew instant s.round line then .newLine else .otherLine]
    | _ => []
  | .closed now status spawned _ =>
    match s.stream with
    | .following =>
      .ended (s.held live now) ::
        match streamAfterFollowEnded (s.judged live now) status spawned with
        | .ok .following => [.reconnected]
        | .ok _ => []
        | .error reason => [.abandoned reason]
    | _ => []

end PodStream

section Counting

variable {marks : List FollowMark} {mark : FollowMark}

@[simp] lemma reconnectsSinceFruitful_nil : reconnectsSinceFruitful [] = 0 := rfl

lemma reconnectsSinceFruitful_snoc : reconnectsSinceFruitful (marks ++ [mark]) =
    if mark.fruitful then 0
    else reconnectsSinceFruitful marks + if mark = .reconnected then 1 else 0 := by
  rw [reconnectsSinceFruitful, List.reverse_append, List.reverse_singleton, List.singleton_append,
    List.takeWhile_cons]
  cases hfruitful : mark.fruitful with
  | true => simp
  | false => simp [reconnectsSinceFruitful, List.count_cons]

end Counting

/-- What was abandoned for want of output had just ended a fruitless follow, after as many fruitless
reconnects in a row as are allowed. -/
def GivesUpInTime (marks : List FollowMark) : Prop :=
  ∀ before complaint after, marks = before ++ .abandoned (.noOutput complaint) :: after →
    (∃ earlier, before = earlier ++ [.ended false]) ∧
      reconnectsSinceFruitful before = fruitlessReconnectsAllowed

section Counting

variable {marks : List FollowMark} {mark : FollowMark}

lemma givesUpInTime_snoc (h : GivesUpInTime marks)
    (hmark : ∀ complaint, mark = .abandoned (.noOutput complaint) →
      (∃ earlier, marks = earlier ++ [.ended false]) ∧
        reconnectsSinceFruitful marks = fruitlessReconnectsAllowed) :
    GivesUpInTime (marks ++ [mark]) := by
  intro before complaint after hsplit
  rcases snoc_eq_append_cons hsplit with ⟨rfl, habandoned, -⟩ | ⟨older, -, hbefore⟩
  · exact hmark complaint habandoned.symm
  · exact h before complaint older hbefore

end Counting

/-! ## What the counter counts -/

namespace PodStream

variable {instant : String → Option Instant} {live : ℕ} {s t : PodStream} {marks : List FollowMark}

/-- The counter of a stream that follows the log is the number of reconnects since the last fruitful
follow. -/
structure Counts (marks : List FollowMark) (s : PodStream) : Prop where
  counted : s.stream = .following → s.round.fruitlessReconnects = reconnectsSinceFruitful marks
  bounded : reconnectsSinceFruitful marks ≤ fruitlessReconnectsAllowed
  inTime : GivesUpInTime marks

lemma counts_opened (since : Instant) : Counts [] (opened since) :=
  ⟨fun _ => rfl, Nat.zero_le _, fun before complaint after hsplit => by simp at hsplit⟩

/-- A line is new and restarts the count, or leaves it. -/
lemma fruitlessReconnects_textUnlessReplayed (round : KubernetesRound) (line : String) :
    (round.textUnlessReplayed instant line).1.fruitlessReconnects =
      if isNew instant round line then 0 else round.fruitlessReconnects := by
  unfold KubernetesRound.textUnlessReplayed isNew
  cases hsplit : splitTimestamp instant line with
  | mk stamp text =>
      cases stamp with
      | none => rfl
      | some stamp =>
          dsimp only
          cases hafter : round.position.afterLine instant stamp with
          | mk position unread => cases unread <;> simp [hafter]

/-- A printed line is read, whatever becomes of its text. -/
lemma turn_printed (hopen : s.stream ≠ .ended) (line : String) :
    (s.turn instant live (.printed line)).1 =
      { s with round := (s.round.textUnlessReplayed instant line).1 } := by
  cases hstream : s.stream with
  | ended => exact absurd hstream hopen
  | following =>
      simp only [turn, hstream]
      cases s.round.textUnlessReplayed instant line with
      | mk round text => cases text <;> rfl
  | draining =>
      simp only [turn, hstream]
      cases s.round.textUnlessReplayed instant line with
      | mk round text => cases text <;> rfl

lemma Counts.printed (inv : Counts marks s) (hopen : s.stream ≠ .ended) (line : String) :
    Counts (marks ++ shown instant live s (.printed line))
      (s.turn instant live (.printed line)).1 := by
  rw [turn_printed hopen]
  cases hstream : s.stream with
  | ended => exact absurd hstream hopen
  | draining =>
      have hshown : shown instant live s (.printed line) = [] := by simp only [shown, hstream]
      rw [hshown, List.append_nil]
      exact ⟨fun h => (by cases h), inv.bounded, inv.inTime⟩
  | following =>
      have hshown : shown instant live s (.printed line) =
          [if isNew instant s.round line then .newLine else .otherLine] := by
        simp only [shown, hstream]
      have hmarked : reconnectsSinceFruitful (marks ++ shown instant live s (.printed line)) =
          if isNew instant s.round line then 0 else reconnectsSinceFruitful marks := by
        rw [hshown, reconnectsSinceFruitful_snoc]
        cases isNew instant s.round line <;> simp [FollowMark.fruitful]
      refine ⟨fun _ => ?_, ?_, ?_⟩
      · rw [hmarked, fruitlessReconnects_textUnlessReplayed, inv.counted hstream]
      · rw [hmarked]
        split
        · exact Nat.zero_le _
        · exact inv.bounded
      · rw [hshown]
        refine givesUpInTime_snoc inv.inTime fun complaint hmark => ?_
        split at hmark <;> cases hmark

/-- Only while it is allowed another fruitless reconnect does a stream reconnect. -/
lemma lt_of_following {round : KubernetesRound} {status : ℕ → Except String PodProgress}
    {spawned : Except String Unit}
    (h : streamAfterFollowEnded round status spawned = .ok .following) :
    round.fruitlessReconnects < fruitlessReconnectsAllowed := by
  unfold streamAfterFollowEnded at h
  split at h
  · split at h
    · cases h
    · rename_i hfew
      exact Nat.lt_of_not_le hfew
  · split at h <;> cases h
  · cases h
  · cases h
  · cases h

/-- Only when it is allowed no more is it abandoned for want of output. -/
lemma le_of_noOutput {round : KubernetesRound} {status : ℕ → Except String PodProgress}
    {spawned : Except String Unit} {complaint : Option String}
    (h : streamAfterFollowEnded round status spawned = .error (.noOutput complaint)) :
    fruitlessReconnectsAllowed ≤ round.fruitlessReconnects := by
  unfold streamAfterFollowEnded at h
  split at h
  · split at h
    · rename_i hmany
      exact hmany
    · split at h <;> cases h
  · split at h <;> cases h
  · cases h
  · cases h
  · cases h

/-- How a follow was judged is what its end shows. -/
lemma Counts.judged (inv : Counts marks s) (hstream : s.stream = .following) (live : ℕ)
    (now : Instant) :
    (s.judged live now).fruitlessReconnects =
      reconnectsSinceFruitful (marks ++ [.ended (s.held live now)]) := by
  rw [reconnectsSinceFruitful_snoc, PodStream.judged]
  cases s.held live now with
  | true => simp [FollowMark.fruitful]
  | false => simp [FollowMark.fruitful, inv.counted hstream]

lemma Counts.closed (inv : Counts marks s) (now : Instant)
    (status : ℕ → Except String PodProgress) (spawned : Except String Unit)
    (connectedAt : Instant) :
    Counts (marks ++ shown instant live s (.closed now status spawned connectedAt))
      (s.turn instant live (.closed now status spawned connectedAt)).1 := by
  cases hstream : s.stream with
  | ended =>
      simp only [shown, turn, hstream, List.append_nil]
      exact inv
  | draining =>
      simp only [shown, turn, hstream, List.append_nil]
      exact ⟨fun h => (by cases h), inv.bounded, inv.inTime⟩
  | following =>
      have hjudged := inv.judged hstream live now
      have hended : reconnectsSinceFruitful (marks ++ [.ended (s.held live now)]) ≤
          fruitlessReconnectsAllowed := by
        rw [reconnectsSinceFruitful_snoc]
        split
        · exact Nat.zero_le _
        · simpa using inv.bounded
      have hinTime : GivesUpInTime (marks ++ [.ended (s.held live now)]) :=
        givesUpInTime_snoc inv.inTime fun complaint hmark => by cases hmark
      simp only [shown, turn, hstream]
      rw [← List.singleton_append, ← List.append_assoc]
      cases hnext : streamAfterFollowEnded (s.judged live now) status spawned with
      | error reason =>
          refine ⟨fun h => (by cases h), ?_, ?_⟩
          · rw [reconnectsSinceFruitful_snoc]
            simpa [FollowMark.fruitful] using hended
          · refine givesUpInTime_snoc hinTime fun complaint hmark => ?_
            cases hmark
            have hmany := le_of_noOutput hnext
            rw [hjudged] at hmany
            have hsame := Nat.le_antisymm hended hmany
            refine ⟨⟨marks, ?_⟩, hsame⟩
            -- A follow that held would have started the count over.
            cases hheld : s.held live now with
            | false => rfl
            | true =>
                rw [hheld, reconnectsSinceFruitful_snoc] at hsame
                cases hsame
      | ok stream =>
          cases stream with
          | following =>
              have hfew := lt_of_following hnext
              have hcount : reconnectsSinceFruitful
                  (marks ++ [.ended (s.held live now)] ++ [.reconnected]) =
                    (s.judged live now).fruitlessReconnects + 1 := by
                rw [reconnectsSinceFruitful_snoc, ← hjudged]
                rfl
              refine ⟨fun _ => hcount.symm, ?_, ?_⟩
              · rw [hcount]
                exact hfew
              · exact givesUpInTime_snoc hinTime fun complaint hmark => by cases hmark
          | draining =>
              rw [List.append_nil]
              exact ⟨fun h => (by cases h), hended, hinTime⟩
          | ended =>
              rw [List.append_nil]
              exact ⟨fun h => (by cases h), hended, hinTime⟩

/-- **Every run counts.** -/
lemma counts_of_run {since : Instant}
    (run : Run (step instant live) anyAction (shown instant live) (opened since) marks t) :
    Counts marks t := by
  refine run.history_invariant (fun marks s action t' inv _ hstep => ?_) (counts_opened since)
  obtain ⟨hopen, hstep⟩ := Option.ite_none_left_eq_some.mp hstep
  obtain rfl := Option.some.inj hstep
  cases action with
  | printed line => exact inv.printed hopen line
  | closed now status spawned connectedAt => exact inv.closed now status spawned connectedAt

/-- A call of `next_line` is a run of the turns it takes. -/
lemma run_of_nextLine {turns left : List KubectlTurn} {returned : Option String}
    (h : nextLine instant live s turns = some (t, returned, left)) :
    ∃ taken, turns = taken ++ left ∧
      exec (step instant live) s taken = some t := by
  induction turns generalizing s with
  | nil =>
      simp only [nextLine, Option.ite_none_right_eq_some, Option.some.injEq, Prod.mk.injEq] at h
      obtain ⟨-, rfl, -, rfl⟩ := h
      exact ⟨[], rfl, rfl⟩
  | cons first turns ih =>
      rw [nextLine] at h
      split at h
      · simp only [Option.some.injEq, Prod.mk.injEq] at h
        obtain ⟨rfl, -, rfl⟩ := h
        exact ⟨[], rfl, rfl⟩
      · rename_i hopen
        have hstep : step instant live s first = some (s.turn instant live first).1 := if_neg hopen
        cases hturn : s.turn instant live first with
        | mk next answer =>
            rw [hturn] at h hstep
            cases answer with
            | some answer =>
                simp only [Option.some.injEq, Prod.mk.injEq] at h
                obtain ⟨rfl, -, rfl⟩ := h
                exact ⟨[first], rfl, by simp [exec, hstep]⟩
            | none =>
                obtain ⟨taken, rfl, hexec⟩ := ih h
                exact ⟨first :: taken, rfl, by simp [exec, hstep, hexec]⟩

/-- What the end of a follow comes to while the pod runs. -/
lemma streamAfterFollowEnded_of_running (round : KubernetesRound)
    {status : ℕ → Except String PodProgress} {pod : String}
    (hrunning : progressDespiteBlips status = .ok (.running pod)) (spawned : Except String Unit) :
    streamAfterFollowEnded round status spawned =
      if fruitlessReconnectsAllowed ≤ round.fruitlessReconnects then
        .error (.noOutput round.lastUnstampedLine)
      else (spawned.map fun _ => .following).mapError .failed := by
  unfold streamAfterFollowEnded
  rw [hrunning]
  dsimp only
  cases spawned <;> rfl

/-- A follow that ends while the pod runs is the last one when it was fruitless and no more
reconnects are allowed. -/
lemma Counts.ended_while_running (inv : Counts marks t) (hstream : t.stream = .following)
    {status : ℕ → Except String PodProgress} {pod : String}
    (hrunning : progressDespiteBlips status = .ok (.running pod)) (now : Instant)
    (spawned : Except String Unit) (connectedAt : Instant) :
    let next := (t.turn instant live (.closed now status spawned connectedAt)).1
    if t.held live now = false ∧ reconnectsSinceFruitful marks = fruitlessReconnectsAllowed then
      next.stream = .ended ∧
        next.streamAbandonedBecause = some (Abandoned.noOutput t.round.lastUnstampedLine).text ∧
        shown instant live t (.closed now status spawned connectedAt) =
          [.ended false, .abandoned (.noOutput t.round.lastUnstampedLine)]
    else
      (spawned = .ok () → next.stream = .following ∧
        shown instant live t (.closed now status spawned connectedAt) =
          [.ended (t.held live now), .reconnected]) ∧
      ∀ complaint, .abandoned (.noOutput complaint) ∉
        shown instant live t (.closed now status spawned connectedAt) := by
  have hcounted := inv.counted hstream
  have hnext := streamAfterFollowEnded_of_running (t.judged live now) hrunning spawned
  split
  · rename_i hlast
    obtain ⟨hshort, hmany⟩ := hlast
    have hjudged : t.judged live now = t.round := by rw [PodStream.judged, hshort]; rfl
    rw [hjudged, hcounted, if_pos hmany.ge] at hnext
    simp only [turn, shown, hstream, hjudged, hnext, hshort, and_self]
  · rename_i hlast
    have hfew : ¬ fruitlessReconnectsAllowed ≤ (t.judged live now).fruitlessReconnects := by
      rw [PodStream.judged]
      cases hheld : t.held live now with
      | true => exact Nat.not_succ_le_zero _
      | false =>
          rw [if_neg (by decide), hcounted]
          intro hle
          exact hlast ⟨hheld, Nat.le_antisymm inv.bounded hle⟩
    rw [if_neg hfew] at hnext
    simp only [turn, shown, hstream, hnext]
    cases spawned with
    | ok spawned => exact ⟨fun _ => ⟨rfl, rfl⟩, fun complaint =>
        by simp [Except.map, Except.mapError]⟩
    | error e =>
        exact ⟨fun h => (by cases h), fun complaint => by simp [Except.map, Except.mapError]⟩

/-- **Reconnecting is bounded, and never gives up early.**  Whatever `kubectl` does: since the last
fruitful follow, or the first, there were never more reconnects than are allowed.  When a follow
ends while the pod runs, the stream is abandoned for want of output exactly when the follow was
fruitless and that many reconnects were made, and is followed on otherwise.  So what was abandoned
for want of output had as many fruitless reconnects in a row as are allowed.  No line without a
timestamp, and none that was read before, restarts the count. -/
theorem reconnects_bounded (instant : String → Option Instant) (live : ℕ) (since : Instant)
    (marks : List FollowMark) (t : PodStream)
    (run : Run (step instant live) anyAction (shown instant live) (opened since) marks t) :
    reconnectsSinceFruitful marks ≤ fruitlessReconnectsAllowed ∧
      (t.stream = .following → ∀ now status spawned connectedAt pod,
        progressDespiteBlips status = .ok (.running pod) →
          let next := (t.turn instant live (.closed now status spawned connectedAt)).1
          if t.held live now = false ∧
              reconnectsSinceFruitful marks = fruitlessReconnectsAllowed then
            next.stream = .ended ∧
              next.streamAbandonedBecause = some
                (Abandoned.noOutput t.round.lastUnstampedLine).text ∧
              shown instant live t (.closed now status spawned connectedAt) =
                [.ended false, .abandoned (.noOutput t.round.lastUnstampedLine)]
          else
            (spawned = .ok () → next.stream = .following ∧
              shown instant live t (.closed now status spawned connectedAt) =
                [.ended (t.held live now), .reconnected]) ∧
            ∀ complaint, .abandoned (.noOutput complaint) ∉
              shown instant live t (.closed now status spawned connectedAt)) ∧
      GivesUpInTime marks ∧
      (t.stream = .following → ∀ line, isNew instant t.round line = false →
        (t.turn instant live (.printed line)).1.round.fruitlessReconnects =
            t.round.fruitlessReconnects ∧
          reconnectsSinceFruitful (marks ++ shown instant live t (.printed line)) =
            reconnectsSinceFruitful marks) := by
  have inv := counts_of_run run
  refine ⟨inv.bounded, fun hstream now status spawned connectedAt pod hrunning => ?_, inv.inTime,
    fun hstream line hold => ?_⟩
  · exact inv.ended_while_running hstream hrunning now spawned connectedAt
  · have hopen : t.stream ≠ .ended := by rw [hstream]; decide
    have hshown : shown instant live t (.printed line) = [.otherLine] := by
      simp only [shown, hstream, hold]
      rfl
    rw [turn_printed hopen, fruitlessReconnects_textUnlessReplayed, hold, hshown,
      reconnectsSinceFruitful_snoc]
    exact ⟨rfl, rfl⟩

/-- `kubectl` ends at once, and the pod runs. -/
def endsAtOnce : KubectlTurn :=
  .closed 0 (fun _ => .ok (.running "round-7")) (.ok ()) 0

/-- Five reconnects that bring nothing, and the stream is abandoned. -/
theorem reconnects_bounded_fruitless : ∃ marks t,
    Run (step instantOf 30000000000) anyAction (shown instantOf 30000000000) (opened 0) marks t ∧
      marks.count .reconnected = 5 ∧ GivesUpInTime marks ∧
      t.streamAbandonedBecause =
        some "`kubectl logs` kept ending with no output while the pod ran" := by
  let turns : List KubectlTurn := List.replicate 6 endsAtOnce
  have run : Run (step instantOf 30000000000) anyAction (shown instantOf 30000000000)
      (opened 0) _ _ :=
    Run.of_exec (rfl : exec (step instantOf 30000000000) (opened 0) turns = some _)
  exact ⟨_, _, run, rfl, (reconnects_bounded instantOf 30000000000 0 _ _ run).2.2.1, by decide⟩

end PodStream

end AssemblyLine
