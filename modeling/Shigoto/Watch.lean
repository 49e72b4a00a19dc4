import Shigoto.Types

/-!
# Schedule windows

A `ScheduleWindow` says how long after a scheduled time an operation may still run. Its two questions add
the window to that time, and the addition is a library's: a window it cannot represent counts as empty,
and a sum it cannot represent is a panic.

* `windowExact_iff` — the answers are those of the unbounded sum exactly where neither happens, or where
  it does not matter.
* `isWindowClosed_eq` — after the scheduled time one of the two holds, or both panic.
-/

namespace Shigoto

/-! ## The clock -/

/-- `i64::MAX` milliseconds, the greatest duration of the clock library, in nanoseconds. -/
def maxClockDuration : Nat := 9223372036854775807 * 1000000

/-- The instants of the clock library, in nanoseconds since the epoch. Its durations span them all. -/
structure Clock where
  first : Int
  last : Int
  narrow : last - first ≤ maxClockDuration

structure Clock.Instant (clock : Clock) where
  nanos : Int
  first_le : clock.first ≤ nanos
  le_last : nanos ≤ clock.last

variable {clock : Clock}

/-- `Duration::from_std`, which fails above the greatest duration. -/
def fromStd (d : Duration) : Option Nat :=
  if d.nanos ≤ maxClockDuration then some d.nanos else none

/-- `DateTime + Duration`; `none` is a panic. -/
def Clock.Instant.add (t : clock.Instant) (d : Nat) : Option clock.Instant :=
  if h : t.nanos + d ≤ clock.last then
    some ⟨t.nanos + d, by have := t.first_le; omega, h⟩
  else none

/-! ## The two questions -/

structure ScheduleWindow where
  cron : String
  timezone : String
  window : Duration
  deriving DecidableEq, Repr

/-- UTC, and five minutes. -/
def ScheduleWindow.new (cron : String) : ScheduleWindow := ⟨cron, "UTC", .fromMillis 300000⟩

def ScheduleWindow.withTimezone (s : ScheduleWindow) (timezone : String) : ScheduleWindow :=
  { s with timezone }

def ScheduleWindow.withWindow (s : ScheduleWindow) (window : Duration) : ScheduleWindow :=
  { s with window }

/-- Whether an operation scheduled at `scheduledAt` may run `now`. -/
def ScheduleWindow.isInWindow (s : ScheduleWindow) (scheduledAt now : clock.Instant) : Option Bool :=
  if now.nanos < scheduledAt.nanos then some false
  else do
    let windowEnd ← scheduledAt.add ((fromStd s.window).getD 0)
    some (now.nanos ≤ windowEnd.nanos)

/-- Whether it is too late. -/
def ScheduleWindow.isWindowClosed (s : ScheduleWindow) (scheduledAt now : clock.Instant) : Option Bool :=
  if now.nanos < scheduledAt.nanos then some false
  else do
    let windowEnd ← scheduledAt.add ((fromStd s.window).getD 0)
    some (now.nanos > windowEnd.nanos)

variable {s : ScheduleWindow} {scheduledAt now : clock.Instant}

/-- Both answers are those of the unbounded sum, and neither call panics. -/
structure WindowExact (s : ScheduleWindow) (scheduledAt now : clock.Instant) : Prop where
  inWindow : s.isInWindow scheduledAt now =
    some (scheduledAt.nanos ≤ now.nanos ∧ now.nanos ≤ scheduledAt.nanos + s.window.nanos : Bool)
  closed : s.isWindowClosed scheduledAt now =
    some (now.nanos > scheduledAt.nanos + s.window.nanos : Bool)

/-- It is early, or the end of the window is an instant, or the window is too long and has just begun. -/
def WindowRepresentable (s : ScheduleWindow) (scheduledAt now : clock.Instant) : Prop :=
  now.nanos < scheduledAt.nanos ∨
    s.window.nanos ≤ maxClockDuration ∧ scheduledAt.nanos + s.window.nanos ≤ clock.last ∨
    maxClockDuration < s.window.nanos ∧ now.nanos = scheduledAt.nanos

/-- The three regimes of a window that has begun. -/
theorem add_window (s : ScheduleWindow) (t : clock.Instant) :
    (s.window.nanos ≤ maxClockDuration ∧ t.nanos + s.window.nanos ≤ clock.last ∧
      ∃ windowEnd, t.add ((fromStd s.window).getD 0) = some windowEnd ∧
        windowEnd.nanos = t.nanos + s.window.nanos) ∨
    (s.window.nanos ≤ maxClockDuration ∧ clock.last < t.nanos + s.window.nanos ∧
      t.add ((fromStd s.window).getD 0) = none) ∨
    maxClockDuration < s.window.nanos ∧
      ∃ windowEnd, t.add ((fromStd s.window).getD 0) = some windowEnd ∧ windowEnd.nanos = t.nanos := by
  by_cases hfits : s.window.nanos ≤ maxClockDuration
  · have hstd : (fromStd s.window).getD 0 = s.window.nanos := by simp [fromStd, hfits]
    rw [hstd]
    by_cases hlast : t.nanos + s.window.nanos ≤ clock.last
    · exact .inl ⟨hfits, hlast, _, dif_pos hlast, rfl⟩
    · exact .inr (.inl ⟨hfits, Int.not_le.mp hlast, dif_neg hlast⟩)
  · have hstd : (fromStd s.window).getD 0 = 0 := by simp [fromStd, hfits]
    have hlast : t.nanos + (0 : Nat) ≤ clock.last := by
      have := t.le_last
      omega
    rw [hstd]
    exact .inr (.inr ⟨Nat.not_le.mp hfits, _, dif_pos hlast, Int.add_zero t.nanos⟩)

/-- Before the scheduled time nothing is added. -/
theorem answers_early (h : now.nanos < scheduledAt.nanos) :
    s.isInWindow scheduledAt now = some false ∧ s.isWindowClosed scheduledAt now = some false :=
  ⟨if_pos h, if_pos h⟩

theorem answers_begun (h : scheduledAt.nanos ≤ now.nanos) {windowEnd : clock.Instant}
    (hend : scheduledAt.add ((fromStd s.window).getD 0) = some windowEnd) :
    s.isInWindow scheduledAt now = some (decide (now.nanos ≤ windowEnd.nanos)) ∧
      s.isWindowClosed scheduledAt now = some (decide (now.nanos > windowEnd.nanos)) := by
  unfold ScheduleWindow.isInWindow ScheduleWindow.isWindowClosed
  rw [if_neg (Int.not_lt.mpr h), if_neg (Int.not_lt.mpr h), hend]
  exact ⟨rfl, rfl⟩

theorem answers_panic (h : scheduledAt.nanos ≤ now.nanos)
    (hend : scheduledAt.add ((fromStd s.window).getD 0) = none) :
    s.isInWindow scheduledAt now = none ∧ s.isWindowClosed scheduledAt now = none := by
  unfold ScheduleWindow.isInWindow ScheduleWindow.isWindowClosed
  rw [if_neg (Int.not_lt.mpr h), if_neg (Int.not_lt.mpr h), hend]
  exact ⟨rfl, rfl⟩

/-- **After the scheduled time one of the two holds**, or both panic. -/
theorem isWindowClosed_eq (h : scheduledAt.nanos ≤ now.nanos) :
    s.isWindowClosed scheduledAt now = (s.isInWindow scheduledAt now).map not := by
  cases hend : scheduledAt.add ((fromStd s.window).getD 0) with
  | none =>
    obtain ⟨hin, hclosed⟩ := answers_panic h hend
    rw [hin, hclosed]
    rfl
  | some windowEnd =>
    obtain ⟨hin, hclosed⟩ := answers_begun h hend
    rw [hin, hclosed, Option.map_some, Option.some_inj, ← decide_not]
    exact decide_eq_decide.mpr Int.not_le.symm

/-- No two instants are further apart than a window that is too long. -/
theorem le_add_of_too_long (h : maxClockDuration < s.window.nanos) (t t' : clock.Instant) :
    t'.nanos ≤ t.nanos + s.window.nanos := by
  have := clock.narrow
  have := t.first_le
  have := t'.le_last
  omega

theorem windowExact_iff_representable :
    WindowExact s scheduledAt now ↔ WindowRepresentable s scheduledAt now := by
  by_cases hearly : now.nanos < scheduledAt.nanos
  · obtain ⟨hin, hclosed⟩ := answers_early (s := s) hearly
    refine iff_of_true ⟨?_, ?_⟩ (.inl hearly)
    · rw [hin, Option.some_inj]
      exact (decide_eq_false (by omega)).symm
    · rw [hclosed, Option.some_inj]
      exact (decide_eq_false (by omega)).symm
  have hbegun : scheduledAt.nanos ≤ now.nanos := Int.not_lt.mp hearly
  rw [WindowRepresentable, or_iff_right hearly]
  obtain ⟨hfits, hlast, windowEnd, hadd, hend⟩ | ⟨hfits, hlast, hadd⟩ | ⟨hlong, windowEnd, hadd, hend⟩ :=
    add_window s scheduledAt
  · obtain ⟨hin, hclosed⟩ := answers_begun hbegun hadd
    refine iff_of_true ⟨?_, ?_⟩ (.inl ⟨hfits, hlast⟩)
    · rw [hin, hend, Option.some_inj]
      exact decide_eq_decide.mpr (by omega)
    · rw [hclosed, hend]
  · obtain ⟨hin, -⟩ := answers_panic hbegun hadd
    refine iff_of_false (fun h => ?_) (by omega)
    rw [h.inWindow] at hin
    exact nomatch hin
  · -- the window counts as empty, so only its first instant is answered right
    obtain ⟨hin, hclosed⟩ := answers_begun hbegun hadd
    have hwithin := le_add_of_too_long hlong scheduledAt now
    constructor
    · intro h
      have hsame := hin.symm.trans h.inWindow
      rw [Option.some_inj, decide_eq_decide] at hsame
      omega
    · intro h
      refine ⟨?_, ?_⟩
      · rw [hin, hend, Option.some_inj]
        exact decide_eq_decide.mpr (by omega)
      · rw [hclosed, hend, Option.some_inj]
        exact decide_eq_decide.mpr (by omega)

/-- Yes is never a wrong answer. -/
theorem le_of_isInWindow (h : s.isInWindow scheduledAt now = some true) :
    scheduledAt.nanos ≤ now.nanos ∧ now.nanos ≤ scheduledAt.nanos + s.window.nanos := by
  have hbegun : scheduledAt.nanos ≤ now.nanos := by
    by_contra hearly
    rw [(answers_early (Int.not_le.mp hearly)).1] at h
    exact nomatch h
  refine ⟨hbegun, ?_⟩
  obtain ⟨-, -, windowEnd, hadd, hend⟩ | ⟨-, -, hadd⟩ | ⟨-, windowEnd, hadd, hend⟩ :=
    add_window s scheduledAt
  · rw [(answers_begun hbegun hadd).1, Option.some_inj, decide_eq_true_iff] at h
    omega
  · rw [(answers_panic hbegun hadd).1] at h
    exact nomatch h
  · rw [(answers_begun hbegun hadd).1, Option.some_inj, decide_eq_true_iff] at h
    omega

/-- **The windows are exact where the sum exists or does not matter**; there, widening a window never
closes it. -/
theorem windowExact_iff (s : ScheduleWindow) (scheduledAt now : clock.Instant) :
    (WindowExact s scheduledAt now ↔ WindowRepresentable s scheduledAt now) ∧
    (scheduledAt.nanos ≤ now.nanos →
      s.isWindowClosed scheduledAt now = (s.isInWindow scheduledAt now).map not) ∧
    ∀ wider, s.window.nanos ≤ wider.nanos →
      WindowRepresentable (s.withWindow wider) scheduledAt now →
      s.isInWindow scheduledAt now = some true →
      (s.withWindow wider).isInWindow scheduledAt now = some true := by
  refine ⟨windowExact_iff_representable, isWindowClosed_eq, fun wider hwider hrep hin => ?_⟩
  obtain ⟨hbegun, hwithin⟩ := le_of_isInWindow hin
  rw [(windowExact_iff_representable.mpr hrep).inWindow, Option.some_inj, decide_eq_true_iff]
  refine ⟨hbegun, ?_⟩
  show now.nanos ≤ scheduledAt.nanos + wider.nanos
  omega

/-- The range of `DateTime<Utc>`. -/
def utc : Clock where
  first := -8334601228800000000000
  last := 8210266876799999999999
  narrow := by decide

/-- One second after the start of a window without end, it is closed. -/
theorem endless_window_closed :
    let s := (ScheduleWindow.new "0 2 * * *").withWindow ⟨18446744073709551615 * 1000000000 + 999999999⟩
    let scheduledAt : utc.Instant := ⟨1767225600000000000, by decide, by decide⟩
    let now : utc.Instant := ⟨1767225601000000000, by decide, by decide⟩
    s.isInWindow scheduledAt now = some false ∧ s.isWindowClosed scheduledAt now = some true ∧
      ¬ WindowExact s scheduledAt now := by
  intro s scheduledAt now
  refine ⟨by decide +kernel, by decide +kernel, fun h => ?_⟩
  exact absurd h.inWindow (by decide +kernel)

end Shigoto
