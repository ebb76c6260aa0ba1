import AssemblyLine.Framework.Text
import AssemblyLine.Run.Config

/-!
# The deadline behind a round's limits

A Kubernetes Job is given a deadline of its own, for a pod that wedges beyond the limits `run`
enforces: twice the command limit, for the agent and for `verify`, and half an hour.  The limit is
any number of seconds a `u64` holds, and `activeDeadlineSecs` is computed in `u64`, so that
`backstop_covers_iff` has the limits up to which the deadline is what it is meant to be.
-/

namespace AssemblyLine

/-- What `u64` arithmetic makes of an exact result.  One that does not fit is a panic in a build
that checks for overflow, which is `none`, and wraps around in a build that does not. -/
def u64Result (checksOverflow : Bool) (exact : ℕ) : Option ℕ :=
  if exact ≤ u64Max then some exact
  else if checksOverflow then none
  else some (exact % 2 ^ 64)

/-- Covers everything outside the two command limits. -/
def backstopAllowanceSecs : ℕ := 30 * 60

/-- The Job's own deadline: a backstop behind the command limits `run` enforces. -/
def activeDeadlineSecs (checksOverflow : Bool) : Option ℕ → Option (Option ℕ)
  | none => some none
  | some limit => do
    let doubled ← u64Result checksOverflow (2 * limit)
    let deadline ← u64Result checksOverflow (doubled + backstopAllowanceSecs)
    return some deadline

/-- The deadline of a config's limit, if it has one, is computed, and leaves room for both commands
and the allowance. -/
def BackstopCovers (humantime : String → Except String ℕ) (checksOverflow : Bool)
    (config : RepoConfig) : Prop :=
  ∀ limit, config.commandLimitSecs humantime = some limit →
    ∃ deadline, activeDeadlineSecs checksOverflow (config.commandLimitSecs humantime) =
        some (some deadline) ∧ 2 * limit + backstopAllowanceSecs ≤ deadline

section Deadlines

variable {checksOverflow : Bool} {exact result limit deadline : ℕ}

lemma u64Result_of_le (h : exact ≤ u64Max) : u64Result checksOverflow exact = some exact :=
  if_pos h

/-- Whatever is computed is a `u64`. -/
lemma le_of_u64Result (h : u64Result checksOverflow exact = some result) : result ≤ u64Max := by
  unfold u64Result at h
  split at h
  · rename_i hfits
    obtain rfl := Option.some.inj h
    exact hfits
  · split at h
    · cases h
    · obtain rfl := Option.some.inj h
      have hwrapped : exact % 2 ^ 64 < 2 ^ 64 := Nat.mod_lt _ (by decide)
      rw [u64Max]
      omega

/-- A deadline that fits is the one that is meant. -/
lemma activeDeadlineSecs_of_le (h : 2 * limit + backstopAllowanceSecs ≤ u64Max) :
    activeDeadlineSecs checksOverflow (some limit) =
      some (some (2 * limit + backstopAllowanceSecs)) := by
  have hdoubled : 2 * limit ≤ u64Max := by omega
  simp [activeDeadlineSecs, u64Result_of_le hdoubled, u64Result_of_le h]

/-- No deadline is more than a `u64` holds. -/
lemma le_of_activeDeadlineSecs
    (h : activeDeadlineSecs checksOverflow (some limit) = some (some deadline)) :
    deadline ≤ u64Max := by
  unfold activeDeadlineSecs at h
  obtain ⟨doubled, -, h⟩ := Option.bind_eq_some_iff.mp h
  obtain ⟨result, hresult, hsome⟩ := Option.bind_eq_some_iff.mp h
  obtain rfl := Option.some.inj (Option.some.inj hsome)
  exact le_of_u64Result hresult

/-- The deadline of a limit covers it just when it fits in a `u64`. -/
lemma covers_limit_iff :
    (∃ deadline, activeDeadlineSecs checksOverflow (some limit) = some (some deadline) ∧
      2 * limit + backstopAllowanceSecs ≤ deadline) ↔
    2 * limit + backstopAllowanceSecs ≤ u64Max := by
  constructor
  · rintro ⟨deadline, hdeadline, hcovers⟩
    exact hcovers.trans (le_of_activeDeadlineSecs hdeadline)
  · intro h
    exact ⟨_, activeDeadlineSecs_of_le h, le_refl _⟩

end Deadlines

/-- The longest limit whose deadline fits in a `u64`. -/
def longestBackedSecs : ℕ := 9223372036854774907

lemma le_longestBackedSecs_iff (limit : ℕ) :
    limit ≤ longestBackedSecs ↔ 2 * limit + backstopAllowanceSecs ≤ u64Max := by
  rw [longestBackedSecs, backstopAllowanceSecs, u64Max]
  omega

/-- **How long a limit the backstop covers.**  In either kind of build, and for whatever duration a
config declares, its deadline is computed and leaves room for twice the limit and the allowance
exactly when the limit is at most `longestBackedSecs`; and of two configs whose limits are, the one
with the longer limit has no shorter deadline. -/
theorem backstop_covers_iff (humantime : String → Except String ℕ) (checksOverflow : Bool)
    (config : RepoConfig) :
    (BackstopCovers humantime checksOverflow config ↔
      ∀ limit, config.commandLimitSecs humantime = some limit → limit ≤ longestBackedSecs) ∧
    ∀ (longer : RepoConfig) (limit limit' : ℕ), config.commandLimitSecs humantime = some limit →
      longer.commandLimitSecs humantime = some limit' → limit ≤ limit' →
      limit' ≤ longestBackedSecs →
      ∃ deadline deadline',
        activeDeadlineSecs checksOverflow (some limit) = some (some deadline) ∧
        activeDeadlineSecs checksOverflow (some limit') = some (some deadline') ∧
        deadline ≤ deadline' := by
  refine ⟨?_, ?_⟩
  · refine forall_congr' fun limit => forall_congr' fun hlimit => ?_
    rw [hlimit, covers_limit_iff, le_longestBackedSecs_iff]
  · intro longer limit limit' _ _ hle hbacked
    have hfits' := (le_longestBackedSecs_iff limit').mp hbacked
    have hfits : 2 * limit + backstopAllowanceSecs ≤ u64Max := by omega
    refine ⟨_, _, activeDeadlineSecs_of_le hfits, activeDeadlineSecs_of_le hfits', ?_⟩
    omega

/-- What `humantime` makes of two durations in seconds. -/
def secondsOf (text : String) : Except String ℕ :=
  if text = "18446744073709551615s" then .ok (u64Max * oneSecond)
  else if text = "60s" then .ok (60 * oneSecond)
  else .error "expected number at 0"

/-- A repository that declares a provider and a limit. -/
def limitedTo (duration : String) : RepoConfig where
  maxDuration := some duration
  providers := [("claude", ⟨"claude", []⟩)]

/-- **The longest limit has no deadline, or one shorter than a minute's limit.** -/
theorem longest_limit_not_backed :
    (limitedTo "18446744073709551615s").reasonsItCannotRun secondsOf "claude" = [] ∧
    (limitedTo "60s").reasonsItCannotRun secondsOf "claude" = [] ∧
    activeDeadlineSecs true ((limitedTo "18446744073709551615s").commandLimitSecs secondsOf) =
      none ∧
    activeDeadlineSecs false ((limitedTo "18446744073709551615s").commandLimitSecs secondsOf) =
      some (some 1798) ∧
    activeDeadlineSecs false ((limitedTo "60s").commandLimitSecs secondsOf) = some (some 1920) ∧
    ∀ checksOverflow,
      ¬ BackstopCovers secondsOf checksOverflow (limitedTo "18446744073709551615s") := by
  refine ⟨by decide, by decide, by decide, by decide, by decide, ?_⟩
  intro checksOverflow covers
  have hlimit : (limitedTo "18446744073709551615s").commandLimitSecs secondsOf = some u64Max := by
    decide
  obtain ⟨deadline, hdeadline, hcovers⟩ := covers u64Max hlimit
  rw [hlimit] at hdeadline
  have hfits := hcovers.trans (le_of_activeDeadlineSecs hdeadline)
  rw [backstopAllowanceSecs, u64Max] at hfits
  omega

/-- A minute's limit is backed. -/
theorem backstop_covers_minute : BackstopCovers secondsOf true (limitedTo "60s") := by
  have hlimit : (limitedTo "60s").commandLimitSecs secondsOf = some 60 := by decide
  refine (backstop_covers_iff secondsOf true (limitedTo "60s")).1.mpr ?_
  intro limit hsome
  obtain rfl := Option.some.inj (hlimit.symm.trans hsome)
  decide

end AssemblyLine
