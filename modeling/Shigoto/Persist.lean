import Shigoto.Scheduler.RestartCaps
import Shigoto.Store

/-!
# A scheduler's state across processes

What a save leaves on the disk whichever of its commands fail, and what the next process makes of it. As in
the store, `serde_json` is a parameter that reads every text it writes.

* `save_all_or_nothing` — if a save returns, the store holds its snapshot; if it does not, the store's file
  has the bytes that it had.
* `state_survives_process` — a scheduler's state goes through the file into a new scheduler.
-/

namespace Shigoto

open Atomic Storage Text

/-! ## All or nothing -/

section

variable {json : Json} (store : JsonFileSchedulerStore) {fault : Nat → Option Nat} {t : Nat}

/-- The store's file has the same bytes, or is absent, as before. -/
def Untouched (d d' : Disk Components) : Prop :=
  d'.entries store.path = d.entries store.path ∧
    ∀ i, d.entries store.path = some i → d'.data i = d.data i

variable {store} {d d' d'' : Disk Components}

theorem Untouched.refl (d : Disk Components) : Untouched store d d := ⟨rfl, fun _ _ => rfl⟩

theorem Untouched.trans (h : Untouched store d d') (h' : Untouched store d' d'') : Untouched store d d'' :=
  ⟨h'.1.trans h.1, fun i hi => (h'.2 i (h.1.trans hi)).trans (h.2 i hi)⟩

theorem Untouched.of_same (h : d.Same d') : Untouched store d d' :=
  ⟨congrFun h.entries _, fun i _ => congrFun h.data i⟩

theorem stored_of_entry {i : Nat} (h : d.entries store.path = some i) :
    store.stored json d = parse json (d.data i) := by
  unfold JsonFileSchedulerStore.stored
  rw [h]

theorem Untouched.stored (h : Untouched store d d') : store.stored json d' = store.stored json d := by
  unfold JsonFileSchedulerStore.stored
  rw [h.1]
  cases hentry : d.entries store.path with
  | none => rfl
  | some i => simp only [h.2 i hentry]

/-- Why a save fails whose commands are those from `start` to `stop`. -/
inductive SaveFails (json : Json) (store : JsonFileSchedulerStore) (fault : Nat → Option Nat)
    (call : Save json) (start stop : Nat) : SchedulerStoreError → Prop
  | command (n code : Nat) (hstart : start ≤ n) (hstop : n < stop) (hfault : fault n = some code)
      (e : SchedulerStoreError) (he : e = .io (.other code) ∨ e = .serdeIo (.other code)) :
    SaveFails json store fault call start stop e
  | noName (h : store.tmp.fileName = none) : SaveFails json store fault call start stop (.io (.other 0))
  | noText (message : String) (h : json.toJson call.snapshot = .error message) :
    SaveFails json store fault call start stop (.serde message)

variable {json : Json} {store : JsonFileSchedulerStore} {fault : Nat → Option Nat} {t : Nat}
  {call : Save json} {start : Nat} {α : Type}

/-- A command that is issued may fail as the platform wills, or do what it does. -/
theorem wp_attempt {c : DiskCmd Components} {wrap : IoError → SchedulerStoreError} {m : DiskMachine Components}
    {Q : c.Value → DiskMachine Components → Prop} {E : SchedulerStoreError → DiskMachine Components → Prop}
    (herror : ∀ e, (diskHandle (platform fault) c m.state).1 = .error e →
      E (wrap e) (m.step (diskHandle (platform fault)) t c))
    (hok : ∀ v, (diskHandle (platform fault) c m.state).1 = .ok v →
      Q v (m.step (diskHandle (platform fault)) t c)) :
    wp (diskHandle (platform fault)) t (attempt c wrap) Q E m := by
  apply wp_perform_bind.mpr
  cases hresult : (diskHandle (platform fault) c m.state).1 with
  | error e => exact herror e hresult
  | ok v => exact hok v hresult

theorem time_step (c : DiskCmd Components) (m : DiskMachine Components) :
    (m.step (diskHandle (platform fault)) t c).state.time = m.state.time + 1 := by
  show (diskHandle (platform fault) c m.state).2.time = _
  unfold diskHandle
  split <;> rfl

/-- A command fails because the platform wills it, or for a reason of its own. -/
theorem diskHandle_error_cases {c : DiskCmd Components} {d : Disk Components} {e : IoError}
    (h : (diskHandle (platform fault) c d).1 = .error e) :
    (∃ code, fault d.time = some code ∧ e = .other code) ∨ (diskEffect (platform fault) c d).1 = .error e := by
  unfold diskHandle at h
  split at h
  · next code hcode => exact .inl ⟨code, hcode, (Except.error.inj h).symm⟩
  · exact .inr h

/-- The save has written this much to the temporary file, and nothing to the store's. -/
structure Filling (store : JsonFileSchedulerStore) (fault : Nat → Option Nat) (d : Disk Components)
    (start : Nat) (file : File) (written : List UInt8) (m : DiskMachine Components) : Prop where
  regular : (platform fault).regular store.tmp = true
  untouched : Untouched store d m.state
  entry : m.state.entries store.tmp = some file.inode
  data : m.state.data file.inode = written
  offset : file.offset = written.length
  time : start ≤ m.state.time

/-- How a save can end early: with a reason, and with the store's file as it was. -/
abbrev Aborted (store : JsonFileSchedulerStore) (fault : Nat → Option Nat) (call : Save json)
    (d : Disk Components) (start : Nat) (e : SchedulerStoreError) (m : DiskMachine Components) : Prop :=
  SaveFails json store fault call start m.state.time e ∧ Untouched store d m.state

/-- A command that fails changes nothing. -/
theorem Aborted.of_fault {c : DiskCmd Components} {m : DiskMachine Components} {d : Disk Components}
    {e : IoError} {e' : SchedulerStoreError} (he' : e' = .io e ∨ e' = .serdeIo e)
    (huntouched : Untouched store d m.state) (htime : start ≤ m.state.time)
    (herror : (diskHandle (platform fault) c m.state).1 = .error e)
    (hown : (diskEffect (platform fault) c m.state).1 ≠ .error e) :
    Aborted store fault call d start e' (m.step (diskHandle (platform fault)) t c) := by
  obtain ⟨code, hcode, rfl⟩ := (diskHandle_error_cases herror).resolve_right hown
  have hstop : m.state.time < (m.step (diskHandle (platform fault)) t c).state.time := by
    rw [time_step]
    exact Nat.lt_succ_self _
  exact ⟨.command _ code htime hstop hcode e' he', huntouched.trans (.of_same (diskHandle_error herror))⟩

theorem createParent_wp {m : DiskMachine Components} {d : Disk Components}
    (huntouched : Untouched store d m.state) (htime : start ≤ m.state.time) :
    wp (diskHandle (platform fault)) t store.createParent
      (fun _ m' => Untouched store d m'.state ∧ start ≤ m'.state.time) (Aborted store fault call d start) m := by
  unfold JsonFileSchedulerStore.createParent
  split
  · split
    · refine wp_attempt (fun e he => .of_fault (.inl rfl) huntouched htime he fun h => by cases h)
        fun _ _ => ⟨?_, ?_⟩
      · exact huntouched.trans (.of_same (diskHandle_quiet rfl))
      · rw [time_step]
        exact Nat.le_succ_of_le htime
    · exact ⟨huntouched, htime⟩
  · exact ⟨huntouched, htime⟩

theorem create_wp {m : DiskMachine Components} {d : Disk Components} (huntouched : Untouched store d m.state)
    (htime : start ≤ m.state.time) :
    wp (diskHandle (platform fault)) t (attempt (.create store.tmp) .io)
      (fun file m' => Filling store fault d start file [] m') (Aborted store fault call d start) m := by
  refine wp_attempt (fun e he => ?_) fun file hfile => ?_
  · by_cases hown : (diskEffect (platform fault) (.create store.tmp) m.state).1 = .error e
    · -- only a path without a name cannot be created
      have hname : e = .other 0 ∧ store.tmp.fileName = none := by
        have hown : (m.state.create (platform fault).regular store.tmp).1 = .error e := hown
        unfold Disk.create at hown
        split at hown
        · split at hown <;> cases hown
        · next hregular => exact ⟨(Except.error.inj hown).symm, by simpa [platform] using hregular⟩
      rw [hname.1]
      exact ⟨.noName hname.2, huntouched.trans (.of_same (diskHandle_error he))⟩
    · exact .of_fault (.inl rfl) huntouched htime he hown
  · obtain ⟨hregular, hcreated⟩ := create_ok hfile
    have hne := store.tmp_ne hregular
    refine ⟨hregular, huntouched.trans ⟨?_, fun i hi => ?_⟩, ?_, ?_, hcreated.offset, ?_⟩
    · exact (hcreated.entries store.path).trans (if_neg (Ne.symm hne))
    · refine (hcreated.data i).trans (if_neg fun heq => ?_)
      -- the store's file is another one than the temporary
      rcases hcreated.inode with hold | hnew
      · exact hne (m.state.entries_inj _ _ i hi (heq ▸ hold))
      · exact absurd (m.state.entries_lt _ i hi) (by omega)
    · exact (hcreated.entries store.tmp).trans (if_pos rfl)
    · exact (hcreated.data file.inode).trans (if_pos rfl)
    · rw [time_step]
      exact Nat.le_succ_of_le htime

theorem toWriter_wp {chunks : List (List UInt8)} {m : DiskMachine Components} {d : Disk Components} {file : File}
    {written : List UInt8} (h : Filling store fault d start file written m) :
    wp (diskHandle (platform fault)) t (toWriter file chunks)
      (fun file' m' => Filling store fault d start file' (written ++ chunks.flatten) m')
      (Aborted store fault call d start) m := by
  induction chunks generalizing m file written with
  | nil =>
    rw [List.flatten_nil, List.append_nil]
    exact h
  | cons bytes chunks ih =>
    apply wp_bind.mpr
    refine wp_attempt (fun e he => .of_fault (.inr rfl) h.untouched h.time he fun h => by cases h)
      fun file' hfile' => ?_
    obtain ⟨rfl, hentries, -, hdata⟩ := write_ok hfile'
    rw [List.flatten_cons, ← List.append_assoc]
    refine ih ⟨h.regular, h.untouched.trans ⟨congrFun hentries _, fun i hi => ?_⟩, ?_, ?_, ?_, ?_⟩
    · refine (hdata i).trans (if_neg fun heq => ?_)
      exact store.tmp_ne h.regular (m.state.entries_inj _ _ i hi (heq ▸ h.entry))
    · exact (congrFun hentries _).trans h.entry
    · refine (hdata file.inode).trans ((if_pos rfl).trans ?_)
      rw [h.data, h.offset, splice_end]
    · rw [h.offset, List.length_append]
    · rw [time_step]
      exact Nat.le_succ_of_le h.time

theorem Filling.flush {m : DiskMachine Components} {d : Disk Components} {file : File} {written : List UInt8}
    (h : Filling store fault d start file written m) (t : Nat) :
    Filling store fault d start file written (m.step (diskHandle (platform fault)) t (.flush file)) := by
  have hsame : m.state.Same (diskHandle (platform fault) (.flush file) m.state).2 := diskHandle_quiet rfl
  refine ⟨h.regular, h.untouched.trans (.of_same hsame), ?_, ?_, h.offset, ?_⟩
  · exact (congrFun hsame.entries _).trans h.entry
  · exact (congrFun hsame.data _).trans h.data
  · rw [time_step]
    exact Nat.le_succ_of_le h.time

/-- **A save is all or nothing**, whichever of its commands fail. Where it returns, the store holds its
snapshot; where it does not, there is a reason, and the store holds what it held before. -/
theorem save_wp (store : JsonFileSchedulerStore) (fault : Nat → Option Nat) (t : Nat)
    (hjson : ∀ snapshot text, json.toJson snapshot = .ok text → json.fromStr text = .ok snapshot)
    (call : Save json) (m : DiskMachine Components) :
    wp (diskHandle (platform fault)) t (store.save call)
      (fun reply m' => reply = .saved ∧ store.stored json m'.state = .ok call.snapshot)
      (Aborted store fault call m.state m.state.time) m := by
  apply wp_bind.mpr
  refine wp_mono (createParent_wp (.refl m.state) (Nat.le_refl _)) (fun _ m₁ h₁ => ?_) fun _ _ h => h
  apply wp_bind.mpr
  refine wp_mono (create_wp h₁.1 h₁.2) (fun file m₂ h₂ => ?_) fun _ _ h => h
  apply wp_bind.mpr
  refine wp_mono (toWriter_wp h₂) (fun file m₃ h₃ => ?_) fun _ _ h => h
  cases htext : json.toJson call.snapshot with
  | error message => exact ⟨.noText message htext, h₃.untouched⟩
  | ok text =>
    rw [List.nil_append, call.spelled text htext] at h₃
    apply wp_bind.mpr
    refine wp_attempt (fun e he => .of_fault (.inl rfl) h₃.untouched h₃.time he fun h => by cases h)
      fun _ _ => ?_
    have h₄ := h₃.flush t
    apply wp_bind.mpr
    refine wp_attempt (fun e he => .of_fault (.inl rfl) h₄.untouched h₄.time he fun hown => ?_)
      fun _ hrenamed => ⟨rfl, ?_⟩
    · -- the temporary file is there to be renamed
      have hown : (Disk.rename _ store.tmp store.path).1 = .error e := hown
      unfold Disk.rename at hown
      split at hown
      · cases hown
      · next hnone => exact Option.some_ne_none _ (h₄.entry.symm.trans hnone)
    · obtain ⟨i, hi, hentries, hdata, -⟩ := rename_ok hrenamed
      obtain rfl := Option.some.inj (h₄.entry.symm.trans hi)
      have hentry := (hentries store.path).trans (if_pos rfl)
      have hbytes := (congrFun hdata file.inode).trans h₄.data
      refine (stored_of_entry hentry).trans ((congrArg (parse json) hbytes).trans ?_)
      rw [parse, readText_textBytes]
      simp only [hjson call.snapshot text htext]

/-- Nothing stops a save of a snapshot that has a text on a disk that no command fails on. -/
theorem save_returns (store : JsonFileSchedulerStore) {fault : Nat → Option Nat} (t : Nat)
    (hjson : ∀ snapshot text, json.toJson snapshot = .ok text → json.fromStr text = .ok snapshot)
    (call : Save json) (d : Disk Components) (hfault : ∀ n, fault n = none)
    (hname : store.tmp.fileName.isSome = true) (htext : ∃ text, json.toJson call.snapshot = .ok text) :
    ((store.save call).exec (diskHandle (platform fault)) t ⟨d, []⟩).1 = .ok .saved := by
  obtain ⟨hok, herror⟩ := wp_iff_exec.mp (save_wp store fault t hjson call ⟨d, []⟩)
  cases hrun : ((store.save call).exec (diskHandle (platform fault)) t ⟨d, []⟩).1 with
  | ok reply => rw [(hok reply hrun).1]
  | error e =>
    cases (herror e hrun).1 with
    | command n code _ _ hcode => cases (hfault n).symm.trans hcode
    | noName hnone => rw [hnone] at hname; cases hname
    | noText message hmessage =>
      obtain ⟨text, htext⟩ := htext
      cases hmessage.symm.trans htext

/-- What a load returns whose commands do not fail: the stored snapshot, or why there is none. -/
theorem load_eq (json : Json) (store : JsonFileSchedulerStore) {fault : Nat → Option Nat} (t : Nat)
    {m : DiskMachine Components} (hopen : fault m.state.time = none) (hread : fault (m.state.time + 1) = none) :
    ((store.load json).exec (diskHandle (platform fault)) t m).1 =
      (store.stored json m.state).map .loaded := by
  have hloaded := wp_iff_exec.mp (load_stored json store hopen hread t)
  cases hloading : ((store.load json).exec (diskHandle (platform fault)) t m).1 with
  | ok reply =>
    obtain ⟨snapshot, rfl, hstored⟩ := hloaded.1 reply hloading
    rw [hstored]
    rfl
  | error e =>
    rw [hloaded.2 e hloading]
    rfl

end

/-- **A save is all or nothing**, whichever of its commands fail. If it returns, the store holds its
snapshot; if it does not, there is a reason, and the store's file is as it was before. If nothing fails, the
file has a name and the snapshot has a text, it returns. -/
theorem save_all_or_nothing (json : Json)
    (hjson : ∀ snapshot text, json.toJson snapshot = .ok text → json.fromStr text = .ok snapshot)
    (store : JsonFileSchedulerStore) (fault : Nat → Option Nat) (t : Nat) (call : Save json)
    (d : Disk Components) :
    let run := (store.save call).exec (diskHandle (platform fault)) t ⟨d, []⟩
    (∀ reply, run.1 = .ok reply → store.stored json run.2.state = .ok call.snapshot) ∧
    (∀ e, run.1 = .error e →
      SaveFails json store fault call d.time run.2.state.time e ∧ Untouched store d run.2.state) ∧
    ((∀ n, fault n = none) → store.tmp.fileName.isSome = true →
      (∃ text, json.toJson call.snapshot = .ok text) → run.1 = .ok .saved) := by
  intro run
  obtain ⟨hok, herror⟩ := wp_iff_exec.mp (save_wp store fault t hjson call ⟨d, []⟩)
  exact ⟨fun reply hreply => (hok reply hreply).2, herror,
    fun hfault hname htext => save_returns store t hjson call d hfault hname htext⟩

namespace Sample

/-- A platform on which the eleventh command fails: of a save of the empty snapshot, the rename. -/
def noRename (n : Nat) : Option Nat := if n = 10 then some 5 else none

def failedSave : Except SchedulerStoreError Reply × DiskMachine Components :=
  (store.save emptySave).exec (diskHandle (platform noRename)) 0 ⟨emptyDisk, []⟩

end Sample

/-- A save whose rename fails leaves the store without a file, as it was. -/
theorem save_all_or_nothing_noRename :
    Sample.failedSave.1 = .error (.io (.other 5)) ∧
      Untouched Sample.store Sample.emptyDisk Sample.failedSave.2.state := by
  have hfails : Sample.failedSave.1 = .error (.io (.other 5)) := by decide +kernel
  exact ⟨hfails, ((save_all_or_nothing Sample.json Sample.json_roundTrip Sample.store Sample.noRename 0
    Sample.emptySave Sample.emptyDisk).2.1 _ hfails).2⟩

/-! ## From one process to the next -/

/-- **A scheduler's state survives its process.** A scheduler that has run, restores included, saves its
snapshot, and commands of the disk may fail until the save has ended. If the save returns, the next process
loads that snapshot, and a new scheduler that restores it agrees with the old one on every job the old one
knew. If it does not return, the next process loads what it would have loaded before. -/
theorem state_survives_process (json : Json)
    (hjson : ∀ snapshot text, json.toJson snapshot = .ok text → json.fromStr text = .ok snapshot)
    (w : World) (tool : String) (calls : List Call)
    (hwrap : ∀ e ∈ (runCalls w calls (InProcessScheduler.new tool).start).log, NoWrap e)
    (store : JsonFileSchedulerStore) (fault : Nat → Option Nat) (call : Save json) (rank : JobId → Nat)
    (d : Disk Components)
    (hcall : call.snapshot.key = (runCalls w calls (InProcessScheduler.new tool).start).state.saved rank)
    (hload : ∀ n, ((store.save call).exec (diskHandle (platform fault)) 0 ⟨d, []⟩).2.state.time ≤ n →
      fault n = none)
    (w' : World) (tool' : String) (before after : List ErasedJob) :
    let old := (runCalls w calls (InProcessScheduler.new tool).start).state.state
    let saving := (store.save call).exec (diskHandle (platform fault)) 0 ⟨d, []⟩
    let loading := (store.load json).exec (diskHandle (platform fault)) 1 saving.2
    (∀ reply, saving.1 = .ok reply → loading.1 = .ok (.loaded call.snapshot) ∧
      let new := (runCalls w' (restartCalls before call.snapshot.key after)
        (InProcessScheduler.new tool').start).state.state
      AgreesOnKnown old new ∧ FreshOtherwise old new (before ++ after)) ∧
    ∀ e, saving.1 = .error e → loading.1 = (store.stored json d).map .loaded := by
  intro old saving loading
  have hloading : loading.1 = (store.stored json saving.2.state).map .loaded :=
    load_eq json store 1 (hload saving.2.state.time (Nat.le_refl _))
      (hload (saving.2.state.time + 1) (Nat.le_succ _))
  obtain ⟨hok, herror⟩ := wp_iff_exec.mp (save_wp store fault 0 hjson call ⟨d, []⟩)
  refine ⟨fun reply hreply => ⟨?_, ?_⟩, fun e he => ?_⟩
  · rw [hloading, (hok reply hreply).2]
    rfl
  · show AgreesOnKnown old (runCalls w' (restartCalls before call.snapshot.key after) _).state.state ∧ _
    rw [hcall]
    exact (clean_runCalls w tool calls hwrap).restart rank w' tool' before after
  · rw [hloading, (herror e he).2.stored]

/-- A save that hands the whole text to the file at once. -/
def Save.whole (json : Json) (snapshot : SchedulerSnapshot PathBuf) : Save json where
  snapshot := snapshot
  chunks := match json.toJson snapshot with
    | .ok text => [textBytes text]
    | .error _ => []
  spelled text h := by simp [h]

namespace Sample

/-- The text of a snapshot, from those of its jobs. -/
def snapshotText (jobs : List String) : String :=
  "\x7b\x22jobs\x22:[" ++ ",".intercalate jobs ++ "]\x7d"

/-- The text of a stored job, from those of its phase, its attempts and its failures. -/
def storedText (name phase attempts failures : String) : String :=
  "\x7b\x22id\x22:\x7b\x22scope\x22:\x22Global\x22,\x22kind\x22:\x22build\x22,\x22subject\x22:" ++
    "\x7b\x22Pinned\x22:\x22" ++ name ++ "\x22\x7d\x7d,\x22phase\x22:" ++ phase ++
    ",\x22attempts\x22:" ++ attempts ++ ",\x22failure_history\x22:[" ++ failures ++ "]\x7d"

/-- One failure of job `a`, which waits to be retried. -/
def retrying {P : Type} : SchedulerSnapshot P := ⟨[{
  id := jobId "a"
  phase := .retrying 1000
  attempts := 1
  failureHistory := [.new 1 0 "execute() returned Err"] }]⟩

def retryingText : String := snapshotText [
  storedText "a" "\x7b\x22Retrying\x22:\x7b\x22until_ms\x22:1000\x7d\x7d" "1"
    ("\x7b\x22attempt\x22:1,\x22at_ms\x22:0,\x22error\x22:\x22execute() returned Err\x22," ++
      "\x22kind\x22:\x22Transient\x22\x7d")]

def retryingJson : Json := tableJson [(retrying, retryingText)]

end Sample

/-- A second process restores a job that waits to be retried, and passes it on to a third one. -/
theorem state_survives_process_failed :
    let calls : List Call := [.registerRetryPolicy ⟨"build"⟩ (.fixed 3 1000),
      .registerJob (Sample.job "a" .err), .restoreState Sample.retrying,
      .tick (Dag.new.ensureNode (Sample.jobId "a"))]
    let old := (runCalls Sample.world calls (InProcessScheduler.new "t").start).state
    let saving := (Sample.store.save (.whole Sample.retryingJson Sample.retrying)).exec
      (diskHandle (platform fun _ => none)) 0 ⟨Sample.emptyDisk, []⟩
    let loading := (Sample.store.load Sample.retryingJson).exec (diskHandle (platform fun _ => none)) 1 saving.2
    loading.1 = .ok (.loaded Sample.retrying) ∧
      let new := (runCalls Sample.world (restartCalls [Sample.job "b" .ok] Sample.retrying
        [Sample.job "a" .err]) (InProcessScheduler.new "t").start).state.state
      AgreesOnKnown old.state new ∧
        FreshOtherwise old.state new [Sample.job "b" .ok, Sample.job "a" .err] := by
  intro calls old saving loading
  have hjson : ∀ snapshot text, Sample.retryingJson.toJson snapshot = .ok text →
      Sample.retryingJson.fromStr text = .ok snapshot := Sample.tableJson_roundTrip (by simp)
  have hsnapshot : Sample.retrying.key = old.saved fun _ => 0 := by decide +kernel
  have htext : Sample.retryingJson.toJson Sample.retrying = .ok Sample.retryingText := by
    simp [Sample.retryingJson, Sample.tableJson]
  have hsaved : saving.1 = .ok .saved :=
    save_returns Sample.store 0 hjson (.whole Sample.retryingJson Sample.retrying) Sample.emptyDisk
      (fun _ => rfl) (by decide) ⟨_, htext⟩
  exact (state_survives_process Sample.retryingJson hjson Sample.world "t" calls (by decide +kernel)
    Sample.store (fun _ => none) (.whole Sample.retryingJson Sample.retrying) (fun _ => 0)
    Sample.emptyDisk hsnapshot (fun _ _ => rfl) Sample.world "t" [Sample.job "b" .ok]
    [Sample.job "a" .err]).1 .saved hsaved

end Shigoto
