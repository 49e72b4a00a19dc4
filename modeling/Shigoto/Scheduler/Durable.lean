import Shigoto.Persist
import Shigoto.Scheduler.Capture
import Shigoto.Scheduler.Journal
import Shigoto.Storage.Ledger

/-!
# Success across processes

A deployment is one process after another on the same disk. Each of them loads what the store holds and
restores it, and then calls its scheduler and saves its snapshot as it likes; only it does not restore again.
A save may fail at any of its commands, and a process may die in the middle of a call.

What such a deployment shows of its jobs keeps the promise of a ledger (`Host.Kept.deploy`): the jobs that
are Succeeded in the scheduler are what is known, and those of the stored snapshot are what is on record.
`success_is_durable` spells out what that means.
-/

namespace Shigoto

open Atomic Storage Text

/-! ## Deployments -/

/-- How the text of a snapshot is cut into the pieces that are written. -/
structure Chunking (json : Json) where
  chunks : SchedulerSnapshot PathBuf → List (List UInt8)
  spelled : ∀ snapshot text, json.toJson snapshot = .ok text → (chunks snapshot).flatten = textBytes text

def Chunking.save {json : Json} (chunking : Chunking json) (snapshot : SchedulerSnapshot PathBuf) :
    Save json where
  snapshot := snapshot
  chunks := chunking.chunks snapshot
  spelled := chunking.spelled snapshot

/-- What a process does once it is up: it calls its scheduler, or saves what `snapshot_state` returns, spelled
as its phase map spells it. -/
inductive Deed (json : Json)
  | call (call : { call : Call // call.live })
  | save (chunking : Chunking json) (spelling : Spelling)

structure Process (json : Json) where
  world : World
  tool : String
  /-- What builds the scheduler up before the snapshot is restored. -/
  setup : { calls : List Call // ∀ call ∈ calls, call.prepares = true }
  deeds : List (Deed json)
  /-- The call that the process dies in, and how many commands of it are still issued. -/
  death : Option ({ call : Call // call.live } × Nat)

/-- What is seen of a deployment. -/
inductive Occurrence
  | started (snapshot : SchedulerSnapshot)
  | ran (task : Task)
  /-- A save has returned. -/
  | saved (snapshot : SchedulerSnapshot)
  deriving DecidableEq

/-- What outlives a process, with what was seen so far, oldest first. -/
structure Host where
  disk : DiskMachine Components
  history : List Occurrence

/-- A host with a process. -/
structure Host.Up extends Host where
  scheduler : InProcessScheduler

section

variable {json : Json} (store : JsonFileSchedulerStore) (fault : Nat → Option Nat)

def Host.see (host : Host) (w : World) (log : List SchedEvent) : Host :=
  { host with history := host.history ++ (runs w log).map .ran }

def Host.Up.perform (w : World) (up : Host.Up) : Deed json → Host.Up
  | .call call =>
    let m := runCalls w [call] up.scheduler.start
    { up.see w m.log with scheduler := m.state }
  | .save chunking spelling =>
    let (snapshot, scheduler) := handle w .snapshotState up.scheduler
    let saving := (store.save (chunking.save (snapshot.spell spelling))).exec
      (diskHandle (platform fault)) 0 up.disk
    match saving.1 with
    | .ok _ => ⟨⟨saving.2, up.history ++ [.saved snapshot]⟩, scheduler⟩
    | .error _ => ⟨⟨saving.2, up.history⟩, scheduler⟩

/-- The end of a process. If it dies in a call, some commands of that call have been issued. -/
def Host.Up.leave (w : World) (up : Host.Up) : Option ({ call : Call // call.live } × Nat) → Host
  | none => up.toHost
  | some (call, n) =>
    up.see w (Config.run (handle w) (List.replicate n 0)
      ⟨up.scheduler.start, [call.val.prog]⟩).machine.log

/-- A new scheduler that has restored a snapshot. -/
def Process.restart (process : Process json) (snapshot : SchedulerSnapshot) : InProcessScheduler :=
  (runCalls process.world (process.setup.val ++ [.restoreState snapshot])
    (InProcessScheduler.new process.tool).start).state

/-- The life of a process. A process that cannot load its snapshot does nothing. -/
def Host.live (host : Host) (process : Process json) : Host :=
  let loading := (store.load json).exec (diskHandle (platform fault)) 0 host.disk
  match loading.1 with
  | .ok (.loaded snapshot) =>
    let up := process.deeds.foldl (Host.Up.perform store fault process.world)
      ⟨⟨loading.2, host.history ++ [.started snapshot.key]⟩, process.restart snapshot.key⟩
    up.leave process.world process.death
  | _ => { host with disk := loading.2 }

def Host.deploy (host : Host) (processes : List (Process json)) : Host :=
  processes.foldl (Host.live store fault) host

end

/-- The jobs that are Succeeded once the snapshot is restored. -/
def SchedulerSnapshot.finished (snapshot : SchedulerSnapshot) : Set JobId :=
  { id | phaseIn ((InProcessScheduler.new "").state.restoreAll snapshot.jobs).phases id = .succeeded }

def InProcessScheduler.finished (s : InProcessScheduler) : Set JobId := { id | s.phase id = .succeeded }

/-- What an occurrence is to the ledger of jobs. -/
def Occurrence.seen : Occurrence → Happening JobId
  | .started snapshot => .started snapshot.finished
  | .ran ⟨id, some (.ok ())⟩ => .finished id
  | .ran ⟨id, _⟩ => .tried id
  | .saved snapshot => .recorded snapshot.finished

/-! ## Snapshots and the jobs that are finished -/

section

variable {w : World} {s : InProcessScheduler} {id : JobId}

/-- Restoring makes the same jobs Succeeded in states that had the same ones before. -/
theorem succeeded_restoreAll_congr {state state' : SchedulerState} (jobs : List StoredJobState)
    (h : phaseIn state.phases id = .succeeded ↔ phaseIn state'.phases id = .succeeded) :
    phaseIn (state.restoreAll jobs).phases id = .succeeded ↔
      phaseIn (state'.restoreAll jobs).phases id = .succeeded := by
  induction jobs generalizing state state' with
  | nil => exact h
  | cons job jobs ih =>
    refine ih ?_
    unfold phaseIn at h ⊢
    rw [phases_restore, phases_restore]
    split
    · exact Iff.rfl
    · exact h

/-- A snapshot is taken of the jobs as they are. -/
theorem finished_taken (w : World) (s : InProcessScheduler) :
    (handle w .snapshotState s).1.finished = s.finished := by
  ext id
  have htaken : (handle w .snapshotState s).1 =
      project (w.order s.time) s.state.phases s.state.attempts s.state.failureHistory := rfl
  show phaseIn (SchedulerState.restoreAll _ _).phases id = .succeeded ↔ s.phase id = .succeeded
  rw [htaken]
  have hnodup := project_ids_nodup (w.order s.time) s.state.phases s.state.attempts s.state.failureHistory
  cases hget : s.state.phases.get? id with
  | none =>
    have hno : id ∉ (project (w.order s.time) s.state.phases s.state.attempts
        s.state.failureHistory).jobs.map (·.id) := by
      intro hmem
      obtain ⟨job, hjob, rfl⟩ := List.mem_map.mp hmem
      cases hget.symm.trans (mem_project.mp hjob).1
    rw [InProcessScheduler.phase, phaseIn, phaseIn, (restoreAll_of_not_mem _ hno).1, hget]
    exact iff_of_false (by simp [InProcessScheduler.new]) (by simp)
  | some phase =>
    have hjob : (⟨id, phase, (s.state.attempts.get? id).getD 0, (s.state.failureHistory.get? id).getD []⟩ :
        StoredJobState) ∈ (project (w.order s.time) s.state.phases s.state.attempts
          s.state.failureHistory).jobs := mem_project.mpr ⟨hget, rfl, rfl⟩
    rw [InProcessScheduler.phase, phaseIn, phaseIn, (restoreAll_of_mem _ hnodup hjob).1, hget]

/-- A scheduler that is only built up has no job that is Succeeded. -/
theorem finished_prepared (w : World) (tool : String) {calls : List Call}
    (hcalls : ∀ call ∈ calls, call.prepares = true) :
    (runCalls w calls (InProcessScheduler.new tool).start).state.finished = ∅ := by
  refine (runCalls_induct (w := w) (P := fun call => call.prepares = true)
    (J := fun m => m.state.finished = ∅) (fun m c hs hJ hallows hc => ?_) hcalls (Sequential.start w _)
    (Resting.start w _) ?_).1
  · refine Eq.trans (Set.ext fun id => ?_) hJ
    show (handle w c m.state).2.phase id = .succeeded ↔ m.state.phase id = .succeeded
    rcases phase_handle w c m.state id with hsame | ⟨signal, rfl, -⟩ | hoverwrite | ⟨saved, rfl⟩
    · rw [hsame]
    · cases hc
    · rw [hoverwrite] at hc
      obtain ⟨reason, hc⟩ := hc
      cases hc
    · cases hc
  · exact Set.eq_empty_of_forall_notMem fun id h => by cases h

/-- A process starts with the jobs of its snapshot. -/
theorem finished_restart {json : Json} (process : Process json) (snapshot : SchedulerSnapshot) :
    (process.restart snapshot).finished = snapshot.finished := by
  ext id
  have hbefore := finished_prepared process.world process.tool process.setup.property
  unfold Process.restart
  rw [runCalls_append]
  refine succeeded_restoreAll_congr snapshot.jobs (iff_of_false (fun h => ?_) fun h => by cases h)
  exact Set.notMem_empty id (hbefore ▸ h)

end

/-! ## What a call adds to the ledger -/

section

variable {L : Ledger JobId} {w : World} {m : SchedMachine} {c : Cmd} {s : InProcessScheduler}

/-- Executions are not on record. -/
theorem recorded_after_runs (L : Ledger JobId) (tasks : List Task) :
    (L.after (tasks.map fun task => (Occurrence.ran task).seen)).recorded = L.recorded := by
  induction tasks generalizing L with
  | nil => rfl
  | cons task tasks ih =>
    refine (ih _).trans ?_
    obtain ⟨id, result⟩ := task
    rcases result with - | ⟨⟨⟩⟩ | ⟨⟨⟩⟩ <;> rfl

/-- What is known after executions was known before, or is the success of one of them. -/
theorem mem_known_after_runs {id : JobId} (tasks : List Task) :
    id ∈ (L.after (tasks.map fun task => (Occurrence.ran task).seen)).known ↔
      id ∈ L.known ∨ 0 < successes id (tasks.filterMap Task.yield) := by
  induction tasks generalizing L with
  | nil => simp [successes]
  | cons task tasks ih =>
    rw [List.map_cons, Ledger.after_cons, ih, ← List.singleton_append, List.filterMap_append]
    simp only [successes, List.countP_append]
    rw [show List.countP _ ([task].filterMap Task.yield) = _ from successes_yield id task]
    obtain ⟨id', result⟩ := task
    rcases result with - | ⟨⟨⟩⟩ | ⟨⟨⟩⟩
    · simp [Occurrence.seen, Ledger.next]
    · simp [Occurrence.seen, Ledger.next]
    · by_cases hid : id' = id
      · simp [Occurrence.seen, Ledger.next, hid]
      · simp [Occurrence.seen, Ledger.next, hid, Ne.symm hid]

theorem done_pos_iff {id : JobId} : 0 < s.done id ↔ id ∈ s.finished := by
  unfold InProcessScheduler.done
  split
  · next h => exact iff_of_true Nat.one_pos h
  · next h => exact iff_of_false (lt_irrefl 0) h

/-- A job that is about to be spawned is not Succeeded, and no success of it is owed. -/
theorem View.Sound.fresh_of_spawn {v : View} (hs : v.Sound s) {id : JobId} {job : Option ErasedJob}
    {timeout : Option Duration} (hallows : v.Allows (.spawn id job timeout)) :
    successes id v.focus.known = 0 ∧ s.done id = 0 := by
  obtain ⟨ids, tasks, hfocus⟩ := hallows
  have hrunning := hs.running id
  have hnodup := hs.nodup
  rw [hfocus] at hrunning hnodup ⊢
  constructor
  · refine List.countP_eq_zero.mpr fun x hx => ?_
    obtain ⟨task, htask, hyield⟩ := List.mem_filterMap.mp hx
    obtain ⟨result, -, rfl⟩ := Option.map_eq_some_iff.mp hyield
    have hne : task.id ≠ id := by
      rintro rfl
      exact (List.nodup_cons.mp hnodup).1 (List.mem_append_right _ (List.mem_map_of_mem htask))
    simp [hne]
  · unfold InProcessScheduler.done
    rw [hrunning List.mem_cons_self]
    rfl

/-- The executions of a log keep the promise, and every success is done or still owed. -/
structure Promised (w : World) (L : Ledger JobId) (s : InProcessScheduler) (m : SchedMachine) : Prop where
  balanced : ∀ id, Balanced w s id m
  keeps : L.Keeps ((runs w m.log).map fun task => (Occurrence.ran task).seen)

theorem Promised.step (hs : Sequential w m) (hknown : L.known = s.finished) (h : Promised w L s m)
    (hallows : (viewOf w 0 m.log).Allows c) (hrestore : ∀ saved, c ≠ .restoreState saved) :
    Promised w L s (m.step (handle w) 0 c) := by
  refine ⟨fun id => (h.balanced id).step hs hallows hrestore, ?_⟩
  by_cases hspawn : ∃ id job timeout, c = .spawn id job timeout
  · obtain ⟨id, job, timeout, rfl⟩ := hspawn
    have hruns : runs w (m.step (handle w) 0 (.spawn id job timeout)).log =
      runs w m.log ++ [(handle w (.spawn id job timeout) m.state).1] := runs_spawn _ _ _ _ _ _
    have hid : (handle w (.spawn id job timeout) m.state).1.id = id :=
      answers_handle w (fun _ => True) (.spawn id job timeout) m.state
    rw [hruns, List.map_append, Ledger.keeps_append]
    refine ⟨h.keeps, ?_, True.intro⟩
    -- were the job known, its success would be done or owed
    have hfresh : id ∉ (L.after ((runs w m.log).map fun task => (Occurrence.ran task).seen)).known := by
      have hbalanced := h.balanced id
      obtain ⟨howed, hdone⟩ := View.Sound.fresh_of_spawn hs hallows
      rw [Balanced, howed, hdone] at hbalanced
      rw [mem_known_after_runs, hknown, ← done_pos_iff]
      omega
    generalize (handle w (.spawn id job timeout) m.state).1 = task at hid ⊢
    obtain ⟨id', result⟩ := task
    subst hid
    rcases result with - | ⟨⟨⟩⟩ | ⟨⟨⟩⟩ <;> exact hfresh
  · have hruns : runs w (m.step (handle w) 0 c).log = runs w m.log :=
      runs_cons_of_ne (fun id job timeout hc => hspawn ⟨id, job, timeout, hc⟩) _ _ _
    rw [hruns]
    exact h.keeps

/-- **A call keeps the promise**, and leaves as known what is Succeeded. -/
theorem keeps_call (w : World) (hknown : L.known = s.finished) {call : Call} (hlive : call.live) :
    let m := runCalls w [call] s.start
    let seen := (runs w m.log).map fun task => (Occurrence.ran task).seen
    L.Keeps seen ∧ (L.after seen).known = m.state.finished := by
  intro m seen
  have honly : ∀ call' ∈ [call], call'.live := by
    intro call' hcall'
    obtain rfl := List.mem_singleton.mp hcall'
    exact hlive
  have hstep : ∀ m c, Sequential w m → Promised w L s m → (viewOf w 0 m.log).Allows c →
      c.Permitted Call.live (viewOf w 0 m.log).pass.dag → Promised w L s (m.step (handle w) 0 c) := by
    intro m c hs hpromised hallows hc
    refine hpromised.step hs hknown hallows ?_
    rintro saved rfl
    exact hc
  obtain ⟨hpromised, -, hresting⟩ := runCalls_induct hstep honly (Sequential.start w s)
    (Resting.start w s) ⟨fun id => rfl, True.intro⟩
  refine ⟨hpromised.keeps, Set.ext fun id => ?_⟩
  have hbalanced : successes id ((runs w m.log).filterMap Task.yield) + s.done id =
    successes id (viewOf w 0 m.log).focus.known + m.state.done id := hpromised.balanced id
  have hsettled : (viewOf w 0 m.log).focus.known = [] := Focus.known_of_idle hresting.1
  rw [hsettled, show successes id [] = 0 from rfl] at hbalanced
  rw [mem_known_after_runs, hknown, ← done_pos_iff, ← done_pos_iff]
  omega

/-- A log that goes on has run what it had run before. -/
theorem runs_of_suffix {log log' : List SchedEvent} (h : log <:+ log') : runs w log <+: runs w log' := by
  obtain ⟨more, rfl⟩ := h
  induction more with
  | nil => exact List.prefix_rfl
  | cons e more ih =>
    refine ih.trans ?_
    obtain ⟨t, c, s⟩ := e
    cases c with
    | spawn id job timeout => exact List.prefix_append _ _
    | _ => exact List.prefix_rfl

end

/-! ## Deployments keep the promise -/

def Host.seen (host : Host) : List (Happening JobId) := host.history.map Occurrence.seen

section

variable {json : Json} {store : JsonFileSchedulerStore} {fault : Nat → Option Nat} {L : Ledger JobId}
  {w : World}

/-- The host has kept the promise, and what the store holds is on record. -/
structure Host.Kept (json : Json) (store : JsonFileSchedulerStore) (L : Ledger JobId) (host : Host) : Prop where
  keeps : L.Keeps host.seen
  recorded : ∀ snapshot, store.stored json host.disk.state = .ok snapshot →
    (L.after host.seen).recorded = snapshot.key.finished

/-- What the scheduler has as Succeeded is known. -/
structure Host.Up.Kept (json : Json) (store : JsonFileSchedulerStore) (L : Ledger JobId) (up : Host.Up) : Prop
    extends Host.Kept json store L up.toHost where
  known : (L.after up.seen).known = up.scheduler.finished

theorem Host.seen_see (host : Host) (w : World) (log : List SchedEvent) :
    (host.see w log).seen = host.seen ++ (runs w log).map fun task => (Occurrence.ran task).seen := by
  simp [Host.seen, Host.see, Function.comp_def]

/-- Any part of a call keeps the promise. -/
theorem Host.Up.Kept.see {up : Host.Up} (h : up.Kept json store L) {call : Call} (hlive : call.live)
    {log : List SchedEvent} (hlog : log <:+ (runCalls w [call] up.scheduler.start).log) :
    (up.toHost.see w log).Kept json store L := by
  obtain ⟨rest, hrest⟩ := (runs_of_suffix (w := w) hlog).map fun task => (Occurrence.ran task).seen
  have hkeeps := (keeps_call w h.known hlive).1
  rw [← hrest] at hkeeps
  refine ⟨?_, fun snapshot hstored => ?_⟩
  · rw [seen_see, Ledger.keeps_append]
    exact ⟨h.keeps, hkeeps.of_append⟩
  · rw [seen_see, Ledger.after_append, recorded_after_runs]
    exact h.recorded snapshot hstored

theorem Host.Up.Kept.call {up : Host.Up} (h : up.Kept json store L) (call : { call : Call // call.live }) :
    (up.perform store fault w (Deed.call call : Deed json)).Kept json store L := by
  refine ⟨h.see call.property List.suffix_rfl, ?_⟩
  exact (congrArg (fun seen => (L.after seen).known) (Host.seen_see ..)).trans
    ((congrArg Ledger.known (L.after_append ..)).trans (keeps_call w h.known call.property).2)

variable (hjson : ∀ snapshot text, json.toJson snapshot = .ok text → json.fromStr text = .ok snapshot)

include hjson

/-- A save puts on record what is known, or leaves everything as it is. -/
theorem Host.Up.Kept.save {up : Host.Up} (h : up.Kept json store L) (chunking : Chunking json)
    (spelling : Spelling) : (up.perform store fault w (.save chunking spelling)).Kept json store L := by
  have hfinished := finished_taken w up.scheduler
  obtain ⟨hok, herror⟩ := wp_iff_exec.mp (save_wp store fault 0 hjson
    (chunking.save ((handle w .snapshotState up.scheduler).1.spell spelling)) up.disk)
  unfold Host.Up.perform
  dsimp only
  split
  · next reply hreply =>
    obtain ⟨-, hstored⟩ := hok reply hreply
    set snapshot := (handle w .snapshotState up.scheduler).1
    have hseen : (up.history ++ [Occurrence.saved snapshot]).map Occurrence.seen =
      up.seen ++ [.recorded snapshot.finished] := List.map_append
    refine ⟨⟨?_, fun snapshot' hsnapshot' => ?_⟩, ?_⟩
    · rw [Host.seen, hseen, Ledger.keeps_append]
      exact ⟨h.keeps, hfinished.trans h.known.symm, True.intro⟩
    · obtain rfl : snapshot.spell spelling = snapshot' := Except.ok.inj (hstored.symm.trans hsnapshot')
      rw [Host.seen, hseen, Ledger.after_append, SchedulerSnapshot.key_spell]
      exact h.known.trans hfinished.symm
    · rw [Host.seen, hseen, Ledger.after_append]
      exact h.known
  · next e he =>
    refine ⟨⟨h.keeps, fun snapshot' hsnapshot' => h.recorded snapshot' ?_⟩, h.known⟩
    rwa [(herror e he).2.stored] at hsnapshot'

theorem Host.Up.Kept.perform {up : Host.Up} (h : up.Kept json store L) (deeds : List (Deed json)) :
    (deeds.foldl (Host.Up.perform store fault w) up).Kept json store L := by
  induction deeds generalizing up with
  | nil => exact h
  | cons deed deeds ih =>
    cases deed with
    | call call => exact ih (h.call call)
    | save chunking spelling => exact ih (h.save hjson chunking spelling)

omit hjson in
theorem Host.Up.Kept.leave {up : Host.Up} (h : up.Kept json store L)
    (death : Option ({ call : Call // call.live } × Nat)) : (up.leave w death).Kept json store L := by
  cases death with
  | none => exact h.toKept
  | some x => exact h.see x.1.property (log_stopped_suffix x.2 x.1.val.prog up.scheduler.start)

omit hjson in
/-- Whichever of its commands fail, a load returns what is stored or nothing, and changes no file. -/
theorem load_wp (json : Json) (store : JsonFileSchedulerStore) (fault : Nat → Option Nat)
    (m : DiskMachine Components) (t : Nat) :
    wp (diskHandle (platform fault)) t (store.load json)
      (fun reply m' => (∃ snapshot, reply = .loaded snapshot ∧ store.stored json m.state = .ok snapshot) ∧
        Untouched store m.state m'.state)
      (fun _ m' => Untouched store m.state m'.state) m := by
  have hopen : m.state.Same (diskHandle (platform fault) (.openRead store.path) m.state).2 :=
    diskHandle_quiet rfl
  apply wp_perform_bind.mpr
  cases hresult : (diskHandle (platform fault) (.openRead store.path) m.state).1 with
  | error e =>
    cases e with
    | notFound =>
      refine ⟨⟨⟨[]⟩, rfl, ?_⟩, .of_same hopen⟩
      unfold JsonFileSchedulerStore.stored
      rw [openRead_notFound hresult]
    | other code => exact .of_same hopen
  | ok file =>
    obtain ⟨hoffset, hentry⟩ := openRead_ok hresult
    apply wp_bind.mpr
    have hread : Untouched store m.state (diskHandle (platform fault) (.readToEnd file)
      (diskHandle (platform fault) (.openRead store.path) m.state).2).2 :=
      (Untouched.of_same hopen).trans (.of_same (diskHandle_quiet rfl))
    refine wp_attempt (fun e he => hread) fun bytes hbytes => ?_
    obtain rfl := readToEnd_ok hbytes
    have hstored : store.stored json m.state = parse json (m.state.data file.inode) := stored_of_entry hentry
    rw [hoffset, List.drop_zero, show (m.step (diskHandle (platform fault)) t (.openRead store.path)).state.data
      file.inode = m.state.data file.inode from congrFun hopen.data _]
    cases hparse : parse json (m.state.data file.inode) with
    | ok snapshot => exact ⟨⟨snapshot, rfl, hstored.trans hparse⟩, hread⟩
    | error e => exact hread

/-- A process keeps the promise from its start to its end. -/
theorem Host.Kept.live {host : Host} (h : host.Kept json store L) (process : Process json) :
    (host.live store fault process).Kept json store L := by
  obtain ⟨hok, herror⟩ := wp_iff_exec.mp (load_wp json store fault host.disk 0)
  have hsame : ∀ {d : DiskMachine Components}, Untouched store host.disk.state d.state →
      Host.Kept json store L { host with disk := d } := by
    intro d hd
    refine ⟨h.keeps, fun snapshot hstored => h.recorded snapshot ?_⟩
    rwa [hd.stored] at hstored
  unfold Host.live
  dsimp only
  split
  · next snapshot hloading =>
    obtain ⟨⟨snapshot', hreply, hstored⟩, huntouched⟩ := hok _ hloading
    obtain rfl := Reply.loaded.inj hreply
    have hrecorded := h.recorded snapshot hstored
    have hseen : (host.history ++ [Occurrence.started snapshot.key]).map Occurrence.seen =
      host.seen ++ [.started snapshot.key.finished] := List.map_append
    refine (Host.Up.Kept.perform hjson ⟨⟨?_, fun snapshot' hsnapshot' => ?_⟩, ?_⟩ process.deeds).leave _
    · rw [Host.seen, hseen, Ledger.keeps_append]
      exact ⟨h.keeps, hrecorded.symm, True.intro⟩
    · rw [Host.seen, hseen, Ledger.after_append]
      exact (hsame huntouched).recorded snapshot' hsnapshot'
    · rw [Host.seen, hseen, Ledger.after_append, finished_restart]
      exact hrecorded
  · next hother =>
    cases hloading : ((store.load json).exec (diskHandle (platform fault)) 0 host.disk).1 with
    | ok reply => exact hsame (hok reply hloading).2
    | error e => exact hsame (herror e hloading)

/-- **A deployment keeps the promise of a ledger**, whatever is done in it. -/
theorem Host.Kept.deploy {host : Host} (h : host.Kept json store L) (processes : List (Process json)) :
    (host.deploy store fault processes).Kept json store L := by
  induction processes generalizing host with
  | nil => exact h
  | cons process processes ih => exact ih (h.live hjson process)

end

/-! ## What that means -/

section

variable {json : Json} {store : JsonFileSchedulerStore} {fault : Nat → Option Nat}

/-- The ledger of a disk on which no process has been yet. -/
def ledgerOf (json : Json) (store : JsonFileSchedulerStore) (d : Disk Components) : Ledger JobId :=
  let items := { id | ∃ snapshot, store.stored json d = .ok snapshot ∧ id ∈ snapshot.key.finished }
  ⟨items, items, Set.Subset.rfl⟩

theorem Host.Kept.start (json : Json) (store : JsonFileSchedulerStore) (d : Disk Components) :
    Host.Kept json store (ledgerOf json store d) ⟨⟨d, []⟩, []⟩ := by
  refine ⟨True.intro, fun snapshot hstored => Set.ext fun id => ⟨?_, fun hid => ⟨snapshot, hstored, hid⟩⟩⟩
  rintro ⟨snapshot', hstored', hid⟩
  exact Except.ok.inj (hstored'.symm.trans hstored) ▸ hid

theorem Occurrence.seen_of_success {task : Task} (h : task.result = some (.ok ())) :
    (Occurrence.ran task).seen = .finished task.id := by
  obtain ⟨id, result⟩ := task
  obtain rfl : result = some (.ok ()) := h
  rfl

theorem Occurrence.worksOn_ran (task : Task) : (Occurrence.ran task).seen.worksOn task.id := by
  obtain ⟨id, result⟩ := task
  rcases result with - | ⟨⟨⟩⟩ | ⟨⟨⟩⟩ <;> exact rfl

/-- Only the success of an execution finishes a job. -/
theorem Occurrence.of_seen_finished {o : Occurrence} {id : JobId} (h : o.seen = .finished id) :
    ∃ task, o = .ran task ∧ task.id = id ∧ task.result = some (.ok ()) := by
  cases o with
  | ran task =>
    obtain ⟨id', result⟩ := task
    rcases result with - | ⟨⟨⟩⟩ | ⟨⟨⟩⟩
    · cases h
    · cases h
    · exact ⟨_, rfl, Happening.finished.inj h, rfl⟩
  | _ => cases h

end

/-- **Success is durable.** Whatever the processes of a deployment call but `restore_state`, whichever of their
saves and loads fail, and wherever they die: a job that is Succeeded in a snapshot that was loaded or saved is
never run again, and is Succeeded in all later snapshots; a save that returns has every success of its process
so far; and it has no other job as Succeeded, but for those that were stored before the deployment. -/
theorem success_is_durable (json : Json)
    (hjson : ∀ snapshot text, json.toJson snapshot = .ok text → json.fromStr text = .ok snapshot)
    (store : JsonFileSchedulerStore) (fault : Nat → Option Nat) (d : Disk Components)
    (processes : List (Process json)) :
    let history := (Host.deploy store fault ⟨⟨d, []⟩, []⟩ processes).history
    (∀ before o after, history = before ++ o :: after →
      ∀ snapshot, o = .started snapshot ∨ o = .saved snapshot → ∀ id ∈ snapshot.finished,
        (∀ task, .ran task ∈ after → task.id ≠ id) ∧
        ∀ snapshot', .started snapshot' ∈ after ∨ .saved snapshot' ∈ after → id ∈ snapshot'.finished) ∧
    (∀ before task between snapshot after,
      history = before ++ .ran task :: (between ++ .saved snapshot :: after) →
      (∀ snapshot', .started snapshot' ∉ between) → task.result = some (.ok ()) →
      task.id ∈ snapshot.finished) ∧
    ∀ before snapshot after, history = before ++ .saved snapshot :: after → ∀ id ∈ snapshot.finished,
      (∃ snapshot', store.stored json d = .ok snapshot' ∧ id ∈ snapshot'.key.finished) ∨
      ∃ task, .ran task ∈ before ∧ task.id = id ∧ task.result = some (.ok ()) := by
  intro history
  have hkeeps : (ledgerOf json store d).Keeps (history.map Occurrence.seen) :=
    ((Host.Kept.start json store d).deploy hjson processes).keeps
  refine ⟨fun before o after hsplit snapshot ho id hid => ?_, fun before task between snapshot after hsplit
    hbetween hsuccess => ?_, fun before snapshot after hsplit id hid => ?_⟩
  · rw [hsplit, List.map_append, List.map_cons] at hkeeps
    have hrecord : o.seen.record = some snapshot.finished := by
      rcases ho with rfl | rfl <;> rfl
    have hafter := hkeeps.after_record hrecord hid
    refine ⟨fun task htask heq => ?_, fun snapshot' hsnapshot' => ?_⟩
    · exact (hafter _ (List.mem_map_of_mem htask)).1 (heq ▸ Occurrence.worksOn_ran task)
    · rcases hsnapshot' with hstarted | hsaved
      · exact (hafter _ (List.mem_map_of_mem hstarted)).2 _ rfl
      · exact (hafter _ (List.mem_map_of_mem hsaved)).2 _ rfl
  · rw [hsplit, List.map_append, List.map_cons, List.map_append, List.map_cons,
      Occurrence.seen_of_success hsuccess] at hkeeps
    refine hkeeps.complete fun x hx => ?_
    obtain ⟨o, ho, rfl⟩ := List.mem_map.mp hx
    cases o with
    | started snapshot' => exact absurd ho (hbetween snapshot')
    | ran task => obtain ⟨id, - | ⟨⟨⟩⟩ | ⟨⟨⟩⟩⟩ := task <;> rfl
    | saved snapshot' => rfl
  · rw [hsplit, List.map_append, List.map_cons] at hkeeps
    refine (hkeeps.origin rfl hid).imp_right fun hfinished => ?_
    obtain ⟨o, ho, hseen⟩ := List.mem_map.mp hfinished
    obtain ⟨task, rfl, hid, hsuccess⟩ := Occurrence.of_seen_finished hseen
    exact ⟨task, ho, hid, hsuccess⟩

/-! ## A sample deployment -/

namespace Sample

def chunking (json : Json) : Chunking json where
  chunks snapshot := (Save.whole json snapshot).chunks
  spelled snapshot := (Save.whole json snapshot).spelled

/-- A job that has not failed. -/
def unfailed {P : Type} (name : String) (phase : JobPhase) : StoredJobState P := ⟨jobId name, phase, 0, []⟩

/-- Job `a` has ended well. -/
def halfDone {P : Type} : SchedulerSnapshot P := ⟨[unfailed "a" .succeeded]⟩

def allDone {P : Type} : SchedulerSnapshot P := ⟨[unfailed "b" .succeeded, unfailed "a" .succeeded]⟩

def succeededText (name : String) : String := storedText name "\x22Succeeded\x22" "0" ""

def progressTexts : List (SchedulerSnapshot PathBuf × String) :=
  [(⟨[]⟩, snapshotText []), (halfDone, snapshotText [succeededText "a"]),
    (allDone, snapshotText [succeededText "b", succeededText "a"])]

def progressJson : Json := tableJson progressTexts

/-- A process that registers jobs, ticks a graph and saves. -/
def process (jobs : List ErasedJob) (dag : Dag) : Process progressJson where
  world := world
  tool := "t"
  setup := ⟨jobs.map .registerJob, by simp [Call.prepares, Call.registers]⟩
  deeds := [.call ⟨.tick dag, True.intro⟩, .save (chunking _) .plain]
  death := none

/-- A process that ticks `a`, and one after it that ticks `a` and `b`. -/
def twoProcesses : List Occurrence :=
  (Host.deploy store (fun _ => none) ⟨⟨emptyDisk, []⟩, []⟩
    [process [job "a" .ok] (single "a"), process [job "a" .ok, job "b" .ok] pair]).history

end Sample

/-- The second process does not run `a`, which the first one has saved as Succeeded. -/
theorem success_is_durable_twoProcesses :
    let after : List Occurrence :=
      [.started Sample.halfDone, .ran ⟨Sample.jobId "b", some (.ok ())⟩, .saved Sample.allDone]
    Sample.twoProcesses =
      [.started ⟨[]⟩, .ran ⟨Sample.jobId "a", some (.ok ())⟩] ++ .saved Sample.halfDone :: after ∧
    ∀ task, .ran task ∈ after → task.id ≠ Sample.jobId "a" := by
  intro after
  have hhistory : Sample.twoProcesses =
      [.started ⟨[]⟩, .ran ⟨Sample.jobId "a", some (.ok ())⟩] ++ .saved Sample.halfDone :: after := by
    decide +kernel
  have hfinished : Sample.jobId "a" ∈ Sample.halfDone.finished := by
    show phaseIn _ _ = _
    decide +kernel
  have hdistinct : (Sample.progressTexts.map (·.2)).Nodup := by decide +kernel
  exact ⟨hhistory, ((success_is_durable Sample.progressJson (Sample.tableJson_roundTrip hdistinct) Sample.store
    (fun _ => none) Sample.emptyDisk _).1 _ _ after hhistory Sample.halfDone (.inr rfl) _ hfinished).1⟩

end Shigoto
