import Shigoto.Scheduler.Journal
import Shigoto.Scheduler.RestartCaps
import Shigoto.Sink

/-!
# The audit file is the history

A scheduler whose emitter appends to an audit file, over the lives of its process: each one restores the
snapshot that the one before it left, and goes on in the same file. As long as no write to the file fails,
what is read back from it, replayed from the start, gives the phase of every job (`audit_replays`). Only a job
with an event that has no line is left out: `record` drops such an event. An event is written as the caller
that sent its signal spelled the job.
-/

namespace Shigoto

open Atomic Text

/-! ## Journals one after the other -/

theorem Leads.append {source middle target : JobPhase} {events events' : List TransitionEvent}
    (h : Leads source events middle) (h' : Leads middle events' target) :
    Leads source (events ++ events') target := by
  induction events generalizing source with
  | nil =>
    obtain rfl : source = middle := h
    exact h'
  | cons event events ih => exact ⟨h.1, ih h.2⟩

section

variable {p : TransitionEvent PathBuf → Bool} {id : JobId} {written : List (TransitionEvent PathBuf)}
  (hp : ∀ e ∈ written, e.key.jobId = id → p e = true)

include hp

/-- The events of other jobs do not matter for the phase of one. -/
theorem replay_filter {phases phases' : JobId → JobPhase} (hsame : phases id = phases' id) :
    replay phases ((written.filter p).map (·.key)) id = replay phases' (written.map (·.key)) id := by
  induction written generalizing phases phases' with
  | nil => exact hsame
  | cons e written ih =>
    obtain ⟨hhead, htail⟩ := List.forall_mem_cons.mp hp
    cases hpe : p e with
    | true =>
      rw [List.filter_cons_of_pos hpe]
      have hmoved : (fun id => if id = e.key.jobId then e.key.target else phases id) id =
          (fun id => if id = e.key.jobId then e.key.target else phases' id) id := by
        show (if id = e.key.jobId then e.key.target else phases id) =
          if id = e.key.jobId then e.key.target else phases' id
        rw [hsame]
      exact ih htail hmoved
    | false =>
      have hother : id ≠ e.key.jobId := fun heq => absurd (hhead heq.symm) (by simp [hpe])
      rw [List.filter_cons_of_neg (by simp [hpe])]
      exact ih htail (hsame.trans (if_neg hother).symm)

/-- The events of one job are kept where all of its events are. -/
theorem filter_key_filter : ((written.filter p).map (·.key)).filter (fun e => e.jobId = id) =
    (written.map (·.key)).filter fun e => e.jobId = id := by
  rw [List.filter_map, List.filter_map, List.filter_filter]
  refine congrArg _ (List.filter_congr fun e he => ?_)
  by_cases heq : e.key.jobId = id
  · simp [heq, hp e he heq]
  · simp [heq]

end

theorem replay_append (phases : JobId → JobPhase) (events events' : List TransitionEvent) :
    replay phases (events ++ events') = replay (replay phases events) events' := by
  rw [replay, replay, replay, List.foldl_append]

/-! ## A restart in between -/

theorem phase_registerJobs (w : World) (jobs : List ErasedJob) (m : SchedMachine) (id : JobId) :
    (runCalls w (jobs.map .registerJob) m).state.phase id = m.state.phase id := by
  obtain ⟨-, -, hphases⟩ := runCalls_registerJob w jobs m
  show ((runCalls w (jobs.map .registerJob) m).state.state.phases.get? id).getD .pending = _
  rw [hphases]
  split <;> rfl

theorem emitted_registerJobs (w : World) (jobs : List ErasedJob) (m : SchedMachine) :
    (runCalls w (jobs.map .registerJob) m).state.emitted = m.state.emitted := by
  induction jobs generalizing m with
  | nil => rfl
  | cons job jobs ih => exact ih (m.step (handle w) 0 (.registerJob job))

/-- A new scheduler that restores a snapshot has the phases of the old one, and has emitted nothing. -/
theorem restarted (w : World) (tool : String) (rank : JobId → Nat) (old : InProcessScheduler)
    (before after : List ErasedJob) :
    let new := (runCalls w (restartCalls before (old.saved rank) after)
      (InProcessScheduler.new tool).start).state
    new.phase = old.phase ∧ new.emitted = [] := by
  intro new
  set m := runCalls w (before.map .registerJob) (InProcessScheduler.new tool).start with hm
  have hrun : runCalls w (restartCalls before (old.saved rank) after) (InProcessScheduler.new tool).start =
      runCalls w (after.map .registerJob) (m.step (handle w) 0 (.restoreState (old.saved rank))) := by
    rw [restartCalls, runCalls_append, ← hm]
    rfl
  have hpending : ∀ id, m.state.phase id = .pending := phase_registerJobs w before _
  refine ⟨funext fun id => ?_, ?_⟩
  · refine (congrArg (fun m => m.state.phase id) hrun).trans ((phase_registerJobs w after _ id).trans ?_)
    show ((m.state.state.restoreAll (old.saved rank).jobs).phases.get? id).getD .pending = old.phase id
    cases hget : old.state.phases.get? id with
    | none =>
      -- not in the snapshot
      have hnot : id ∉ (old.saved rank).ids := by
        intro hmem
        obtain ⟨job, hjob, hid⟩ := List.mem_map.mp hmem
        have hknown := (mem_project.mp hjob).1
        rw [hid, hget] at hknown
        cases hknown
      rw [(restoreAll_of_not_mem m.state.state hnot).1]
      exact (hpending id).trans (by simp [InProcessScheduler.phase, phaseIn, hget])
    | some phase =>
      have hmem : (⟨id, phase, (old.state.attempts.get? id).getD 0,
          (old.state.failureHistory.get? id).getD []⟩ : StoredJobState) ∈ (old.saved rank).jobs :=
        mem_project.mpr ⟨hget, rfl, rfl⟩
      have hrestored : (m.state.state.restoreAll (old.saved rank).jobs).phases.get? id = some phase :=
        (restoreAll_of_mem m.state.state (project_ids_nodup rank _ _ _) hmem).1
      rw [hrestored]
      simp [InProcessScheduler.phase, phaseIn, hget]
  · refine (congrArg (fun m => m.state.emitted) hrun).trans ((emitted_registerJobs w after _).trans ?_)
    exact (emitted_of_not_emits w rfl m.state).trans (emitted_registerJobs w before _)

/-! ## Lives of a process -/

/-- One life of the process: jobs are registered before and after the restore, and then come calls. -/
structure Life where
  world : World
  tool : String
  /-- The order in which the last life's phases are written. -/
  rank : JobId → Nat
  before : List ErasedJob
  after : List ErasedJob
  calls : List Call
  live : ∀ call ∈ calls, call.live
  /-- How the job of each event is spelled. -/
  spelling : Nat → Spelling

def Life.start (life : Life) (old : InProcessScheduler) : InProcessScheduler :=
  (runCalls life.world (restartCalls life.before (old.saved life.rank) life.after)
    (InProcessScheduler.new life.tool).start).state

def Life.finish (life : Life) (old : InProcessScheduler) : InProcessScheduler :=
  (runCalls life.world life.calls (life.start old).start).state

/-- What a life emits leads from the phases that it found to those that it leaves. -/
theorem Life.journal (life : Life) (old : InProcessScheduler) :
    Journal old.phase (life.finish old).emitted (life.finish old).phase := by
  obtain ⟨hphase, hemitted⟩ := restarted life.world life.tool life.rank old life.before life.after
  have hstart : Journaled life.world (life.start old) (life.start old).start :=
    ⟨[], (life.start old).phase, (List.append_nil _).symm, Journal.nil _, fun _ => rfl⟩
  obtain ⟨⟨events, recorded, hevents, hjournal, hlogged⟩, -, hrest⟩ := runCalls_induct
    (J := Journaled life.world (life.start old)) (fun m c hs hJ hallows hc => hJ.step hs hallows hc)
    life.live (Sequential.start life.world _) (Resting.start life.world _) hstart
  have hphases := (Focus.logged_iff fun id source target hfocus => ?_).mp hlogged
  · rw [show (life.finish old).emitted = events from hevents.trans (congrArg (· ++ events) hemitted),
      show (life.finish old).phase = recorded from funext hphases, ← hphase]
    exact hjournal
  · have hidle := hrest.1
    rw [hfocus] at hidle
    cases hidle

/-- The events of a life, as the emitter gets them. -/
def Life.written (life : Life) (old : InProcessScheduler) : List (TransitionEvent PathBuf) :=
  (life.finish old).emitted.mapIdx fun i e => e.spell (life.spelling i)

theorem Life.key_written (life : Life) (old : InProcessScheduler) :
    (life.written old).map (·.key) = (life.finish old).emitted := by
  refine List.ext_getElem? fun i => ?_
  simp [written, Function.comp_def]

/-- What comes of the lives: the scheduler of the last one, the file, and the events of all of them. -/
structure Audited where
  scheduler : InProcessScheduler
  file : AuditFile
  events : List (TransitionEvent PathBuf)

/-- One more life. Its emitter appends to the same file. -/
def Audited.extend (format : LineFormat (TransitionEvent PathBuf)) (torn : Nat → Option Nat)
    (audited : Audited) (life : Life) : Audited where
  scheduler := life.finish audited.scheduler
  file := audited.file.recordAll format torn (life.written audited.scheduler)
  events := audited.events ++ life.written audited.scheduler

/-- The lives of a process whose scheduler is new and whose file is empty. -/
def lives (format : LineFormat (TransitionEvent PathBuf)) (torn : Nat → Option Nat) (tool : String)
    (all : List Life) : Audited :=
  all.foldl (Audited.extend format torn) ⟨InProcessScheduler.new tool, ⟨[], 0⟩, []⟩

/-- The events that were read tell how a job got to its phase. -/
structure Replays (read : List TransitionEvent) (id : JobId) (phase : JobPhase) : Prop where
  replays : replay (fun _ => .pending) read id = phase
  leads : Leads .pending (read.filter fun e => e.jobId = id) phase

theorem Replays.extend {read : List TransitionEvent} {written : List (TransitionEvent PathBuf)}
    {before after : JobId → JobPhase} {id : JobId} (h : Replays read id (before id))
    (hjournal : Journal before (written.map (·.key)) after) {p : TransitionEvent PathBuf → Bool}
    (hp : ∀ e ∈ written, e.key.jobId = id → p e = true) :
    Replays (read ++ (written.filter p).map (·.key)) id (after id) := by
  refine ⟨?_, ?_⟩
  · rw [replay_append, replay_filter hp h.replays, hjournal.replays]
  · rw [List.filter_append, filter_key_filter hp]
    exact h.leads.append (hjournal.leads id)

/-- **The audit file is the history.** Over any lives of the process, each of which restored the snapshot of
the one before it, where no write to the file fails: what is read back from the file leads every job all of
whose events have a line from Pending to the phase it has, and its replay gives that phase. -/
theorem audit_replays {format : LineFormat (TransitionEvent PathBuf)} (hformat : format.Lawful)
    (torn : Nat → Option Nat) (htorn : ∀ n, torn n = none) (tool : String) (all : List Life) :
    let audited := lives format torn tool all
    ∀ id, (∀ e ∈ audited.events, e.key.jobId = id → (format.line e).isSome = true) →
      Replays ((format.readLines audited.file.content).map (·.key)) id (audited.scheduler.phase id) := by
  suffices hall : ∀ audited : Audited, AtLineStart audited.file.content →
      (∀ id, (∀ e ∈ audited.events, e.key.jobId = id → (format.line e).isSome = true) →
        Replays ((format.readLines audited.file.content).map (·.key)) id (audited.scheduler.phase id)) →
      let final := all.foldl (Audited.extend format torn) audited
      ∀ id, (∀ e ∈ final.events, e.key.jobId = id → (format.line e).isSome = true) →
        Replays ((format.readLines final.file.content).map (·.key)) id (final.scheduler.phase id) from
    hall _ (.inl rfl) fun id _ => ⟨rfl, rfl⟩
  induction all with
  | nil => exact fun _ _ h => h
  | cons life all ih =>
    intro audited hstart h
    obtain ⟨hstart', hread⟩ := readLines_recordAll hformat htorn (life.written audited.scheduler) hstart
    refine ih (audited.extend format torn life) hstart' fun id hlines => ?_
    have hjournal := life.key_written audited.scheduler ▸ life.journal audited.scheduler
    have hnew := (h id fun e he => hlines e (List.mem_append_left _ he)).extend hjournal
      fun e he => hlines e (List.mem_append_right _ he)
    rw [← List.map_append, ← hread] at hnew
    exact hnew

/-! ## A sample file -/

namespace Sample

/-- An event at the start of time, with its JSON. -/
def eventLine (name : String) (source target : JobPhase) (reason : TransitionReason)
    (sourceText targetText reasonText : String) : TransitionEvent PathBuf × List UInt8 :=
  (⟨0, jobId name, source, target, reason, "t"⟩,
    ["\x7b\x22at\x22:", "\x221970-01-01T00:00:00Z\x22", ",\x22job_id\x22:", "\x7b\x22scope\x22:",
      "\x22Global\x22", ",\x22kind\x22:", "\x22build\x22", ",\x22subject\x22:", "\x7b\x22Pinned\x22:\x22",
      name, "\x22\x7d\x7d", ",\x22from\x22:\x22", sourceText, "\x22,\x22to\x22:\x22", targetText,
      "\x22,\x22reason\x22:\x22", reasonText, "\x22,\x22tool\x22:", "\x22t\x22\x7d"].flatMap textBytes)

/-- The events of a job that ends well at once. -/
def successLines (name : String) : List (TransitionEvent PathBuf × List UInt8) :=
  [eventLine name .pending .ready .gateEvaluation "Pending" "Ready" "GateEvaluation",
    eventLine name .ready .running .budgetAllocated "Ready" "Running" "BudgetAllocated",
    eventLine name .running .succeeded .executionSucceeded "Running" "Succeeded" "ExecutionSucceeded"]

def eventLines : LineFormat (TransitionEvent PathBuf) := .table (successLines "a" ++ successLines "b")

theorem eventLines_lawful : eventLines.Lawful :=
  LineFormat.lawful_table (by decide +kernel) (by decide +kernel)

/-- A life in which one job is registered and a graph is ticked. -/
def life (name : String) (dag : Dag) : Life where
  world := world
  tool := "t"
  rank := fun _ => 0
  before := [job name .ok]
  after := []
  calls := [.tick dag]
  live := List.forall_mem_singleton.mpr True.intro
  spelling := fun _ => .plain

/-- One life runs `a`, and the next one `b`. -/
def twoLives : Audited := lives eventLines (fun _ => none) "t" [life "a" (single "a"), life "b" pair]

end Sample

/-- Both lives are in the file: it leads `a` and `b` to Succeeded. -/
theorem audit_replays_twoLives :
    let read := (Sample.eventLines.readLines Sample.twoLives.file.content).map (·.key)
    Replays read (Sample.jobId "a") .succeeded ∧ Replays read (Sample.jobId "b") .succeeded := by
  intro read
  have hlines : ∀ e ∈ Sample.twoLives.events, (Sample.eventLines.line e).isSome = true := by
    decide +kernel
  have hphase : Sample.twoLives.scheduler.phase (Sample.jobId "a") = .succeeded ∧
      Sample.twoLives.scheduler.phase (Sample.jobId "b") = .succeeded := by
    decide +kernel
  have hreplays := audit_replays Sample.eventLines_lawful (fun _ => none) (fun _ => rfl) "t"
    [Sample.life "a" (Sample.single "a"), Sample.life "b" Sample.pair]
  exact ⟨hphase.1 ▸ hreplays (Sample.jobId "a") fun e he _ => hlines e he,
    hphase.2 ▸ hreplays (Sample.jobId "b") fun e he _ => hlines e he⟩

end Shigoto
