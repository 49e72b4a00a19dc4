import Shigoto.Scheduler.Journal

/-!
# How long a backoff lasts

A failed job that is to be retried after a delay is told so at a clock reading, and the sum of the two
is the moment until which it is Retrying. The sum is taken in 64 bits: the delay is cast to `i64` and
added without a check. A backoff therefore lasts as long as it was told to exactly where both the delay and the
sum fit; a delay that does not is cast to another one, and a sum that does not lies in the past, so that the
next reading of the clock lets the job go.
-/

namespace Shigoto

open Atomic

variable {w : World} {m : SchedMachine}

/-! ## The sum -/

/-- `+` of two `i64`. A release build wraps where a development build, which checks, panics. -/
def checkedAdd (a b : Int64) : Option Int64 :=
  if -9223372036854775808 ≤ a.toInt + b.toInt ∧ a.toInt + b.toInt < 9223372036854775808 then some (a + b)
  else none

/-- The moment until which a job has to wait is computed without wrapping and without a panic. -/
structure Computes (t : DateTime) (after : Duration) : Prop where
  /-- The cast keeps the delay. -/
  cast : after.asMillis64.toInt = after.asMillis
  /-- The addition does not overflow. -/
  sum : checkedAdd t after.asMillis64 = some (t + after.asMillis64)

/-- The delay is an `i64`, and the moment `after` milliseconds from `t` is a moment of the clock. -/
def Fits (t : DateTime) (after : Duration) : Prop :=
  after.asMillis < 9223372036854775808 ∧ t.toInt + after.asMillis < 9223372036854775808

instance (t : DateTime) (after : Duration) : Decidable (Fits t after) :=
  inferInstanceAs (Decidable (_ ∧ _))

theorem toInt_asMillis64 (after : Duration) :
    after.asMillis64.toInt = (after.asMillis : Int).bmod 18446744073709551616 := by
  rw [Duration.asMillis64, UInt64.toInt64_ofNat']
  exact Int64.toInt_ofNat'

/-- The cast keeps the delays below 2^63. -/
theorem toInt_asMillis64_iff (after : Duration) :
    after.asMillis64.toInt = after.asMillis ↔ after.asMillis < 9223372036854775808 := by
  have hhigh := after.asMillis64.toInt_lt
  constructor
  · intro hcast
    omega
  · intro hlt
    rw [toInt_asMillis64]
    apply Int.bmod_eq_of_le <;> omega

theorem checkedAdd_iff (a b : Int64) : checkedAdd a b = some (a + b) ↔
    -9223372036854775808 ≤ a.toInt + b.toInt ∧ a.toInt + b.toInt < 9223372036854775808 := by
  unfold checkedAdd
  split
  · next h => exact iff_of_true rfl h
  · next h => exact iff_of_false nofun h

/-- **The moment is computed as it should be exactly when delay and sum fit.** -/
theorem computes_iff (t : DateTime) (after : Duration) : Computes t after ↔ Fits t after := by
  have hlow := t.le_toInt
  constructor
  · intro h
    have hsum := (checkedAdd_iff _ _).mp h.sum
    rw [h.cast] at hsum
    exact ⟨(toInt_asMillis64_iff after).mp h.cast, hsum.2⟩
  · intro h
    have hcast := (toInt_asMillis64_iff after).mpr h.1
    refine ⟨hcast, (checkedAdd_iff _ _).mpr ?_⟩
    rw [hcast]
    exact ⟨by omega, h.2⟩

/-- Then it is the sum of the two. -/
theorem Computes.toInt_add {t : DateTime} {after : Duration} (h : Computes t after) :
    (t + after.asMillis64).toInt = t.toInt + after.asMillis := by
  obtain ⟨hlow, hhigh⟩ := (checkedAdd_iff _ _).mp h.sum
  rw [h.cast] at hlow hhigh
  rw [Int64.toInt_add, h.cast]
  apply Int.bmod_eq_of_le <;> omega

/-- A delay past the range, from a clock before 1970: two errors that cancel where the addition wraps. -/
example : let after := Duration.fromMillis 9223372036854775818
    (-100 + after.asMillis64).toInt = -100 + after.asMillis ∧ checkedAdd (-100) after.asMillis64 = none := by
  decide

/-! ## What a job is told -/

/-- The job that the event tells to retry, the clock reading at which it does, and the delay. -/
def tells (w : World) (e : SchedEvent) (past : List SchedEvent) :
    Option (JobId × DateTime × Duration) :=
  match e.cmd with
  | .now =>
    match (viewOf w 0 past).focus with
    | .delayed id after => some (id, w.clock e.pre.time, after)
    | _ => none
  | _ => none

/-- What `id` was told last. -/
def told (w : World) (id : JobId) : List SchedEvent → Option (DateTime × Duration)
  | [] => none
  | e :: past =>
    match tells w e past with
    | some (id', t, after) => if id' = id then some (t, after) else told w id past
    | none => told w id past

/-- The event reads the clock to see whether the backoff of a job has elapsed. -/
def checks (w : World) (e : SchedEvent) (past : List SchedEvent) : Option (JobId × DateTime) :=
  match e.cmd with
  | .now =>
    match (viewOf w 0 past).focus with
    | .looked id (.retrying _) => some (id, w.clock e.pre.time)
    | _ => none
  | _ => none

/-- The clock reading against which the backoff of `id` was held last. -/
def reading (w : World) (id : JobId) : List SchedEvent → Option DateTime
  | [] => none
  | e :: past =>
    match checks w e past with
    | some (id', nowMs) => if id' = id then some nowMs else reading w id past
    | none => reading w id past

section

variable {c : Cmd}

theorem tells_of_ne_now (hc : c ≠ .now) (t : Nat) (s : InProcessScheduler) (past : List SchedEvent) :
    tells w ⟨t, c, s⟩ past = none := by
  cases c with
  | now => exact absurd rfl hc
  | _ => rfl

end

theorem told_cons_none {e : SchedEvent} {past : List SchedEvent} (h : tells w e past = none)
    (id : JobId) : told w id (e :: past) = told w id past := by
  simp only [told, h]

theorem told_cons_some {e : SchedEvent} {past : List SchedEvent} {id' : JobId} {t : DateTime}
    {after : Duration} (h : tells w e past = some (id', t, after)) (id : JobId) :
    told w id (e :: past) = if id' = id then some (t, after) else told w id past := by
  simp only [told, h]

/-- What a job was told last it was told by some event. -/
theorem exists_tells_of_told {id : JobId} {log : List SchedEvent} {t : DateTime} {after : Duration}
    (h : told w id log = some (t, after)) :
    ∃ e past, (e :: past) <:+ log ∧ tells w e past = some (id, t, after) := by
  induction log with
  | nil => cases h
  | cons e past ih =>
    cases htells : tells w e past with
    | none =>
      rw [told_cons_none htells] at h
      obtain ⟨e', past', hsuffix, he'⟩ := ih h
      exact ⟨e', past', hsuffix.trans (List.suffix_cons e past), he'⟩
    | some x =>
      obtain ⟨id', t', after'⟩ := x
      rw [told_cons_some htells] at h
      split at h
      · next hid =>
        obtain ⟨rfl, rfl⟩ := Prod.mk.inj (Option.some.inj h)
        exact ⟨e, past, List.suffix_rfl, hid ▸ htells⟩
      · obtain ⟨e', past', hsuffix, he'⟩ := ih h
        exact ⟨e', past', hsuffix.trans (List.suffix_cons e past), he'⟩

/-! ## What the caller knows of the clock -/

/-- The focus holds a clock reading. -/
def Focus.timed : Focus → Bool
  | .clocked _ _ _ | .planned _ (.retry _) => true
  | _ => false

/-- Only the clock tells the time. -/
theorem View.now_of_timed {v : View} {c : Cmd} {r : c.Resp} (hallows : v.Allows c)
    (h : (v.next c r).focus.timed = true) : c = .now := by
  obtain ⟨pass, focus⟩ := v
  cases c with
  | now => rfl
  | readGates id => rcases hallows with hlooked | hlooked <;> cases hlooked <;> cases h
  | consult gate ctx =>
    obtain ⟨id, phase, ahead, outcomes, rfl⟩ := hallows
    cases h
  | dispatch id signal =>
    have hdue : Due pass id focus signal := hallows
    cases r with
    | error e => cases h
    | ok event => cases hdue <;> cases h
  | tryAllocate id => cases r <;> cases h
  | decide policy attempt history =>
    obtain ⟨id, rfl⟩ : ∃ id, focus = .judging id policy attempt history := hallows
    cases r <;> cases h
  | runningOf wave => cases r <;> cases h
  | lookupJob id =>
    obtain ⟨ids, tasks, rfl⟩ : ∃ ids tasks, focus = .collecting (id :: ids) tasks := hallows
    cases h
  | spawn id job timeout =>
    obtain ⟨ids, tasks, rfl⟩ : ∃ ids tasks, focus = .fetched id job timeout ids tasks := hallows
    cases h
  | recordFailure id =>
    obtain ⟨results, rfl⟩ : ∃ results, focus = .applying ((id, .error ()) :: results) := hallows
    cases h
  | clearFailures id =>
    obtain ⟨results, rfl⟩ : ∃ results, focus = .succeeded id results := hallows
    cases h
  | release id =>
    obtain ⟨results, rfl⟩ : ∃ results, focus = .releasing id results := hallows
    cases h
  | overwrite id phase =>
    obtain ⟨source, rfl, -⟩ := hallows
    cases h
  | _ => cases h

/-- The time a caller knows is what it was told, and a Retrying job waits for what it was told. -/
structure Waiting (w : World) (m : SchedMachine) : Prop where
  retrying : ∀ id until', m.state.phase id = .retrying until' →
    ∀ t after, told w id m.log = some (t, after) → until' = t + after.asMillis64
  planned : ∀ id until', (viewOf w 0 m.log).focus = .planned id (.retry until') →
    ∀ t after, told w id m.log = some (t, after) → until' = t + after.asMillis64
  clocked : ∀ id until' nowMs, (viewOf w 0 m.log).focus = .clocked id until' nowMs →
    reading w id m.log = some nowMs

/-- A job that becomes Retrying waits for the moment that was planned. -/
theorem Due.planned_of_retrying {pass : Pass} {focus : Focus} {id : JobId} {signal : Signal}
    {phase : JobPhase} {until' : DateTime} (hdue : Due pass id focus signal)
    (hadvance : advance phase signal = .ok (.retrying until')) :
    focus = .planned id (.retry until') := by
  cases hdue with
  | gates source ctx outcomes news =>
    obtain ⟨-, h⟩ := advance_evaluateGates_iff.mp hadvance
    cases hagg : cohortAggregate ctx outcomes <;> rw [hagg] at h <;> cases h
  | backoff untilMs nowMs elapsed => cases (advance_backoffElapsed_iff.mp hadvance).2
  | slot seeded => cases (advance_allocateBudget_iff.mp hadvance).2
  | retry outcome =>
    obtain ⟨-, h⟩ := advance_retryDecide_iff.mp hadvance
    cases outcome <;> cases h
    rfl
  | success results => cases (advance_executionSucceeded_iff.mp hadvance).2
  | failure results => cases (advance_executionFailed_iff.mp hadvance).2

/-- A tick lets a job out of Retrying only after it held its backoff against the clock. -/
theorem Due.clocked_of_retrying {pass : Pass} {focus : Focus} {id : JobId} {signal : Signal}
    {until' : DateTime} {target : JobPhase} {s : InProcessScheduler}
    (hagrees : focus.Agrees True pass.dag s) (hdue : Due pass id focus signal)
    (hphase : s.phase id = .retrying until') (hadvance : advance (.retrying until') signal = .ok target) :
    ∃ nowMs, focus = .clocked id until' nowMs ∧ ¬ nowMs < until' := by
  cases hdue with
  | gates source ctx outcomes news =>
    obtain ⟨rfl, hsource, -⟩ := hagrees
    rw [hphase] at hsource
    simp at hsource
  | backoff untilMs nowMs elapsed =>
    obtain rfl : until' = untilMs := JobPhase.retrying.inj (hphase.symm.trans hagrees)
    exact ⟨nowMs, rfl, elapsed⟩
  | slot seeded => cases (advance_allocateBudget_iff.mp hadvance).1
  | retry outcome =>
    obtain ⟨⟨attempts, h⟩, -⟩ := advance_retryDecide_iff.mp hadvance
    cases h
  | success results => cases (advance_executionSucceeded_iff.mp hadvance).1
  | failure results => cases (advance_executionFailed_iff.mp hadvance).1

/-- The clock matters to a caller that looks at a Retrying job or plans a retry. -/
theorem Focus.clock_cases (focus : Focus) :
    (∃ id until', focus = .looked id (.retrying until')) ∨ (∃ id after, focus = .delayed id after) ∨
      ((∀ id until', focus ≠ .looked id (.retrying until')) ∧
        (∀ id after, focus ≠ .delayed id after) ∧ ∀ nowMs, focus.clock nowMs = focus) := by
  cases focus with
  | looked id phase =>
    cases phase with
    | retrying until' => exact .inl ⟨id, until', rfl⟩
    | _ => exact .inr (.inr ⟨by simp, by simp, fun _ => rfl⟩)
  | delayed id after => exact .inr (.inl ⟨id, after, rfl⟩)
  | _ => exact .inr (.inr ⟨by simp, by simp, fun _ => rfl⟩)

theorem Waiting.step_now (hs : Sequential w m) (h : Waiting w m) :
    Waiting w (m.step (handle w) 0 .now) := by
  have hview : (viewOf w 0 (m.step (handle w) 0 .now).log).focus =
      (viewOf w 0 m.log).focus.clock (w.clock m.state.time) := by
    rw [viewOf_step_self]
    rfl
  rcases Focus.clock_cases (viewOf w 0 m.log).focus with
    ⟨id, until', hfocus⟩ | ⟨id, after, hfocus⟩ | ⟨hlooked, hdelayed, hclock⟩
  · -- the clock is read to check a backoff
    have htold : ∀ id', told w id' (m.step (handle w) 0 .now).log = told w id' m.log :=
      told_cons_none (by simp [tells, hfocus])
    rw [hfocus] at hview
    refine ⟨fun id' until₁ hphase t after htelling => ?_, fun id' until₁ hplanned => ?_,
      fun id' until₁ nowMs hclocked => ?_⟩
    · exact h.retrying id' until₁ hphase t after ((htold id').symm.trans htelling)
    · cases hview.symm.trans hplanned
    · cases hview.symm.trans hclocked
      have hchecks : checks w ⟨0, .now, m.state⟩ m.log = some (id, w.clock m.state.time) := by
        simp [checks, hfocus]
      simp only [Machine.step, reading, hchecks, if_true]
  · -- the clock is read to plan one; the job is Failed, so no older plan is in force
    have hagrees := hs.agrees
    rw [hfocus] at hagrees hview
    obtain ⟨n, hfailed⟩ := hagrees
    have htold : ∀ id', told w id' (m.step (handle w) 0 .now).log =
        if id = id' then some (w.clock m.state.time, after) else told w id' m.log :=
      told_cons_some (by simp [tells, hfocus])
    refine ⟨fun id' until₁ hphase t after₁ htelling => ?_, fun id' until₁ hplanned t after₁ htelling => ?_,
      fun id' until₁ nowMs hclocked => ?_⟩
    · rw [htold] at htelling
      split at htelling
      · next hid =>
        subst hid
        cases hfailed.symm.trans hphase
      · exact h.retrying id' until₁ hphase t after₁ htelling
    · cases hview.symm.trans hplanned
      rw [htold, if_pos rfl] at htelling
      cases htelling
      rfl
    · cases hview.symm.trans hclocked
  · -- the reading has nothing to do with a backoff
    rw [hclock] at hview
    have htells : tells w ⟨0, .now, m.state⟩ m.log = none := by
      cases hfocus : (viewOf w 0 m.log).focus with
      | delayed id after => exact absurd hfocus (hdelayed id after)
      | _ => simp [tells, hfocus]
    have hchecks : checks w ⟨0, .now, m.state⟩ m.log = none := by
      cases hfocus : (viewOf w 0 m.log).focus with
      | looked id phase =>
        cases phase with
        | retrying until' => exact absurd hfocus (hlooked id until')
        | _ => simp [checks, hfocus]
      | _ => simp [checks, hfocus]
    have htold := told_cons_none htells
    refine ⟨fun id' until₁ hphase t after htelling => ?_, fun id' until₁ hplanned t after htelling => ?_,
      fun id' until₁ nowMs hclocked => ?_⟩
    · exact h.retrying id' until₁ hphase t after ((htold id').symm.trans htelling)
    · exact h.planned id' until₁ (hview.symm.trans hplanned) t after ((htold id').symm.trans htelling)
    · simp only [Machine.step, reading, hchecks]
      exact h.clocked id' until₁ nowMs (hview.symm.trans hclocked)

theorem Waiting.step (hs : Sequential w m) (h : Waiting w m) {c : Cmd}
    (hallows : (viewOf w 0 m.log).Allows c)
    (hc : c.Permitted Call.live (viewOf w 0 m.log).pass.dag) : Waiting w (m.step (handle w) 0 c) := by
  by_cases hnow : c = .now
  · subst hnow
    exact h.step_now hs
  · have htold : ∀ id, told w id (m.step (handle w) 0 c).log = told w id m.log :=
      told_cons_none (tells_of_ne_now hnow 0 m.state m.log)
    have huntimed : ((viewOf w 0 m.log).next c (handle w c m.state).1).focus.timed = false := by
      by_contra htimed
      exact hnow (View.now_of_timed hallows (Bool.eq_true_of_not_eq_false htimed))
    refine ⟨fun id until' hphase t after htelling => ?_, fun id until' hfocus => ?_,
      fun id until' nowMs hfocus => ?_⟩
    · rw [htold] at htelling
      rcases phase_handle w c m.state id with hsame | ⟨signal, rfl, hadvance⟩ | hwrite | ⟨saved, rfl⟩
      · exact h.retrying id until' (hsame.symm.trans hphase) t after htelling
      · rw [show (handle w _ m.state).2.phase id = .retrying until' from hphase] at hadvance
        exact h.planned id until' (Due.planned_of_retrying hallows hadvance) t after htelling
      · rw [show (handle w c m.state).2.phase id = .retrying until' from hphase] at hwrite
        subst hwrite
        obtain ⟨source, -, hadvance⟩ := hallows
        obtain ⟨-, ⟨-, h | ⟨reason, h⟩⟩ | ⟨-, h⟩⟩ := advance_operatorTransition hadvance <;> cases h
      · exact hc.elim
    · rw [viewOf_step_self] at hfocus
      rw [hfocus] at huntimed
      cases huntimed
    · rw [viewOf_step_self] at hfocus
      rw [hfocus] at huntimed
      cases huntimed

/-! ## The result -/

/-- A backoff is neither miscomputed nor cut short by this event. -/
structure Timely (w : World) (e : SchedEvent) (past : List SchedEvent) : Prop where
  /-- The moment until which a job is told to wait is the sum of the two, computed without wrapping and without
  a panic. -/
  exact : ∀ id t after, tells w e past = some (id, t, after) →
    Computes t after ∧ (t + after.asMillis64).toInt = t.toInt + after.asMillis
  /-- A job that leaves Retrying was told to wait until a moment that the clock has reached. -/
  late : ∀ id until', e.pre.phase id = .retrying until' →
    (∀ until₁, (handle w e.cmd e.pre).2.phase id ≠ .retrying until₁) →
    ∀ t after, told w id past = some (t, after) →
      ∃ nowMs, reading w id past = some nowMs ∧ t.toInt + after.asMillis ≤ nowMs.toInt

/-- A delay that the event tells a job fits, and so does its sum with the clock reading. -/
def TellsFitting (w : World) (e : SchedEvent) (past : List SchedEvent) : Prop :=
  ∀ x ∈ tells w e past, Fits x.2.1 x.2.2

instance (w : World) (e : SchedEvent) (past : List SchedEvent) : Decidable (TellsFitting w e past) :=
  inferInstanceAs (Decidable (∀ x ∈ tells w e past, _))

theorem Timely.fitting {e : SchedEvent} {past : List SchedEvent} (h : Timely w e past) :
    TellsFitting w e past := by
  rintro ⟨id, t, after⟩ htells
  exact (computes_iff t after).mp (h.exact id t after htells).1

/-- What is left to show of a step, when all that was told fits. -/
theorem Waiting.timely (hs : Sequential w m) (h : Waiting w m) {c : Cmd}
    (hallows : (viewOf w 0 m.log).Allows c)
    (hc : c.Permitted Call.live (viewOf w 0 m.log).pass.dag)
    (hfits : Meets (TellsFitting w) (m.step (handle w) 0 c).log) : Timely w ⟨0, c, m.state⟩ m.log := by
  refine ⟨fun id t after htells => ?_, fun id until' hbefore hafter t after htold => ?_⟩
  · have hcomputes := (computes_iff t after).mpr (hfits _ m.log List.suffix_rfl (id, t, after) htells)
    exact ⟨hcomputes, hcomputes.toInt_add⟩
  · obtain rfl := h.retrying id until' hbefore t after htold
    obtain ⟨e, past, hsuffix, htells⟩ := exists_tells_of_told htold
    have hcomputes := (computes_iff t after).mpr
      (hfits e past (hsuffix.trans (List.suffix_cons _ m.log)) (id, t, after) htells)
    rcases phase_handle w c m.state id with hsame | ⟨signal, rfl, hadvance⟩ | hwrite | ⟨saved, rfl⟩
    · exact absurd (hsame.trans hbefore) (hafter _)
    · rw [show m.state.phase id = _ from hbefore] at hadvance
      obtain ⟨nowMs, hfocus, hnot⟩ :=
        Due.clocked_of_retrying hs.agrees hallows hbefore hadvance
      refine ⟨nowMs, h.clocked id _ nowMs hfocus, ?_⟩
      rw [Int64.lt_iff_toInt_lt, hcomputes.toInt_add] at hnot
      omega
    · -- no operator moves a Retrying job
      rw [hwrite] at hallows
      obtain ⟨source, hfocus, hadvance⟩ := hallows
      have hagrees := hs.agrees
      rw [hfocus] at hagrees
      obtain rfl : m.state.phase id = source := hagrees (.inl True.intro)
      rw [show m.state.phase id = _ from hbefore] at hadvance
      obtain ⟨-, ⟨hsource, -⟩ | ⟨hsource, -⟩⟩ := advance_operatorTransition hadvance <;> cases hsource
    · exact hc.elim

/-- **A backoff lasts exactly as long as it fits.** On every run without restores, every moment until
which a job is told to wait is the sum of the clock reading and the delay, computed without wrapping and
without a panic, and no job leaves Retrying on a clock reading before that sum, if and only if every such delay
and every such sum is below 2^63. -/
theorem backoff_timely_iff (w : World) (s : InProcessScheduler) {calls : List Call}
    (hcalls : ∀ call ∈ calls, call.live) :
    let log := (runCalls w calls s.start).log
    Meets (Timely w) log ↔ Meets (TellsFitting w) log := by
  intro log
  refine ⟨fun h => h.imp fun e past => Timely.fitting, fun hfits => ?_⟩
  have hstart : Waiting w s.start := by
    refine ⟨fun id until' hphase t after htold => ?_, fun id until' hplanned => ?_,
      fun id until' nowMs hclocked => ?_⟩
    · cases htold
    · cases hplanned
    · cases hclocked
  have hrun := runCalls_induct
    (J := fun m => Waiting w m ∧ (Meets (TellsFitting w) m.log → Meets (Timely w) m.log))
    (fun m c hs hm hallows hc => ⟨hm.1.step hs hallows hc, fun hfits =>
      meets_cons.mpr ⟨hm.1.timely hs hallows hc hfits, hm.2 (meets_cons.mp hfits).2⟩⟩)
    hcalls (Sequential.start w s) (Resting.start w s) ⟨hstart, fun _ => meets_nil _⟩
  exact hrun.1.2 hfits

namespace Sample

/-- A clock that moves on by a millisecond with each command. -/
def movingWorld : World := { world with clock := fun time => .ofNat time }

/-- Job `a` fails each time, and is to be retried after `delayMs`. -/
def retriedAfter (delayMs : UInt64) : List Call :=
  [.registerRetryPolicy ⟨"build"⟩ (.fixed 3 delayMs), .registerJob (job "a" .err), .tick (single "a")]

end Sample

/-- A delay of 2^63 milliseconds is over before it has begun. -/
theorem backoff_cut_short :
    let m := runCalls Sample.world (Sample.retriedAfter 9223372036854775808)
      (InProcessScheduler.new "t").start
    ¬ Meets (Timely Sample.world) m.log ∧
    told Sample.world (Sample.jobId "a") m.log = some (0, .fromMillis 9223372036854775808) ∧
    m.state.phase (Sample.jobId "a") = .ready := by
  intro m
  refine ⟨fun h => ?_, by decide +kernel, by decide +kernel⟩
  have hfits : ¬ Meets (TellsFitting Sample.world) m.log := by decide +kernel
  exact hfits (h.imp fun e past => Timely.fitting)

/-- A delay of five milliseconds, over which the clock moves on. -/
theorem backoff_timely_moving :
    let m := runCalls Sample.movingWorld (Sample.retriedAfter 5 ++ [.tick (Sample.single "a")])
      (InProcessScheduler.new "t").start
    Meets (Timely Sample.movingWorld) m.log ∧
    failedExecutions (Sample.jobId "a") m.log = 2 := by
  have hcalls : ∀ call ∈ Sample.retriedAfter 5 ++ [.tick (Sample.single "a")], call.live := by
    simp [Sample.retriedAfter, Call.live]
  exact ⟨(backoff_timely_iff Sample.movingWorld (InProcessScheduler.new "t") hcalls).mpr
    (by decide +kernel), by decide +kernel⟩

end Shigoto
