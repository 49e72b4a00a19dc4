import Shigoto.Atomic.Wp
import Shigoto.Path
import Shigoto.Scheduler.State
import Shigoto.Storage.Replace
import Shigoto.Text.LineFormat

/-!
# The JSON file store

`save` writes the snapshot to a temporary file beside the store's file and renames it; `load` reads the
store's file to the end. Each command of either may fail, and another call may act between two of them.
All saves use the same temporary file. Where no save writes to it or renames it after another one has
created it anew, the file is never torn; two saves that overlap can tear it.
-/

namespace Shigoto

open Atomic Storage Text

/-- `serde_json` between snapshots and texts. A path is written as it is spelled, and a snapshot with one that
is no text has none. -/
structure Json where
  toJson : SchedulerSnapshot PathBuf → Except String String
  fromStr : String → Except String (SchedulerSnapshot PathBuf)

inductive SchedulerStoreError
  | io (e : IoError)
  /-- The bytes of the file are no text: an I/O error of `read_to_string`. -/
  | notText
  | serde (message : String)
  /-- An I/O error that `to_writer` passes on. -/
  | serdeIo (e : IoError)
  deriving DecidableEq

structure JsonFileSchedulerStore where
  path : Components

/-- The temporary file: `path.with_extension("json.tmp")`. -/
def JsonFileSchedulerStore.tmp (store : JsonFileSchedulerStore) : Components :=
  store.path.withExtension (textBytes "json.tmp") (by decide +kernel) (by decide +kernel)

/-- A call of `save`. The text of the snapshot is handed to the file in `chunks`; where the snapshot has
no text, they are what is written before that is noticed. -/
structure Save (json : Json) where
  snapshot : SchedulerSnapshot PathBuf
  chunks : List (List UInt8)
  spelled : ∀ text, json.toJson snapshot = .ok text → chunks.flatten = textBytes text

inductive StoreCall (json : Json)
  | save (call : Save json)
  | load

inductive Reply
  | saved
  | loaded (snapshot : SchedulerSnapshot PathBuf)
  deriving DecidableEq

abbrev StoreProg := Prog (diskInterface Components) SchedulerStoreError

/-- Issue a command and give up if it fails. -/
def attempt (c : DiskCmd Components) (wrap : IoError → SchedulerStoreError) : StoreProg c.Value := do
  match ← Prog.perform (I := diskInterface Components) c with
  | .ok v => return v
  | .error e => .fail (wrap e)

/-- `serde_json::to_writer`, one write for each chunk. -/
def toWriter : File → List (List UInt8) → StoreProg File
  | file, [] => return file
  | file, bytes :: chunks => do
    let file ← attempt (.write file bytes) .serdeIo
    toWriter file chunks

section

variable {json : Json}

def JsonFileSchedulerStore.createParent (store : JsonFileSchedulerStore) : StoreProg Unit :=
  match store.path.parent with
  | some dir => if dir.bytes ≠ [] then attempt (.createDirAll dir) .io else return ()
  | none => return ()

/-- What `save` does once the temporary file is open. -/
def JsonFileSchedulerStore.fill (store : JsonFileSchedulerStore) (call : Save json) (file : File) :
    StoreProg Reply := do
  let file ← toWriter file call.chunks
  match json.toJson call.snapshot with
  | .error message => .fail (.serde message)
  | .ok _ => do
    attempt (.flush file) .io
    attempt (.rename store.tmp store.path) .io
    return .saved

def JsonFileSchedulerStore.save (store : JsonFileSchedulerStore) (call : Save json) :
    StoreProg Reply := do
  store.createParent
  let file ← attempt (.create store.tmp) .io
  store.fill call file

/-- The snapshot that the bytes of a file spell. -/
def parse (json : Json) (bytes : List UInt8) : Except SchedulerStoreError (SchedulerSnapshot PathBuf) :=
  match readText bytes with
  | none => .error .notText
  | some text =>
    match json.fromStr text with
    | .ok snapshot => .ok snapshot
    | .error message => .error (.serde message)

def JsonFileSchedulerStore.load (json : Json) (store : JsonFileSchedulerStore) : StoreProg Reply := do
  match ← Prog.perform (I := diskInterface Components) (.openRead store.path) with
  | .error .notFound => return .loaded ⟨[]⟩
  | .error e => .fail (.io e)
  | .ok file => do
    let bytes ← attempt (.readToEnd file) .io
    match parse json bytes with
    | .ok snapshot => return .loaded snapshot
    | .error e => .fail e

def StoreCall.prog (store : JsonFileSchedulerStore) : StoreCall json → StoreProg Reply
  | .save call => store.save call
  | .load => store.load json

/-- What a load that no command fails returns. -/
def JsonFileSchedulerStore.stored (json : Json) (store : JsonFileSchedulerStore) (d : Disk Components) :
    Except SchedulerStoreError (SchedulerSnapshot PathBuf) :=
  match d.entries store.path with
  | none => .ok ⟨[]⟩
  | some i => parse json (d.data i)

/-- A platform on which the commands fail at the given times. Only a path with a name can be a file. -/
def platform (fault : Nat → Option Nat) : Platform Components := ⟨fault, fun path => path.fileName.isSome⟩

/-- Calls on one store, interleaved in the order of the schedule. -/
def storeRun (store : JsonFileSchedulerStore) (fault : Nat → Option Nat) (calls : List (StoreCall json))
    (d : Disk Components) (schedule : List Nat) :
    Config (diskInterface Components) (Disk Components) SchedulerStoreError Reply :=
  Config.run (diskHandle (platform fault)) schedule ⟨⟨d, []⟩, calls.map (StoreCall.prog store)⟩

theorem JsonFileSchedulerStore.tmp_ne (store : JsonFileSchedulerStore) {fault : Nat → Option Nat}
    (h : (platform fault).regular store.tmp = true) : store.tmp ≠ store.path :=
  Components.withExtension_ne (by decide +kernel) h

/-! ## The calls keep the protocol -/

variable {store : JsonFileSchedulerStore} {goal : List UInt8 → Prop} {α : Type}
  {Q : α → History (diskInterface Components) → Prop}
  {E : SchedulerStoreError → History (diskInterface Components) → Prop}
  {ℓ : History (diskInterface Components)}

/-- A call of the store keeps the protocol from `ℓ` on. -/
abbrev KeepsStore (store : JsonFileSchedulerStore) (goal : List UInt8 → Prop)
    (Q : α → History (diskInterface Components) → Prop)
    (E : SchedulerStoreError → History (diskInterface Components) → Prop) (p : StoreProg α)
    (ℓ : History (diskInterface Components)) : Prop :=
  Obeys (replaceProtocol store.path store.tmp goal) Q E p ℓ

theorem attempt_keeps {c : DiskCmd Components} {wrap : IoError → SchedulerStoreError}
    {k : c.Value → StoreProg α} (hallows : (stage ℓ).Allows store.path store.tmp goal c)
    (herror : ∀ e ℓ', E (wrap e) ℓ')
    (hk : ∀ v ℓ', stage ℓ' = (stage ℓ).next c (.ok v) → KeepsStore store goal Q E (k v) ℓ') :
    KeepsStore store goal Q E (attempt c wrap >>= k) ℓ := by
  refine ⟨hallows, fun r _ => ?_⟩
  cases r with
  | error e => exact herror e _
  | ok v => exact hk v _ rfl

theorem toWriter_keeps {file : File} {written : List UInt8} {chunks : List (List UInt8)}
    (hstage : stage ℓ = .writing file written) (herror : ∀ e ℓ', E (.serdeIo e) ℓ') :
    KeepsStore store goal (fun file' ℓ' => stage ℓ' = .writing file' (written ++ chunks.flatten)) E
      (toWriter file chunks) ℓ := by
  induction chunks generalizing ℓ file written with
  | nil =>
    rw [List.flatten_nil, List.append_nil]
    exact hstage
  | cons bytes chunks ih =>
    refine attempt_keeps (by rw [hstage]; rfl) herror fun file' ℓ' hstage' => ?_
    rw [hstage] at hstage'
    rw [List.flatten_cons, ← List.append_assoc]
    exact ih hstage'

theorem createParent_keeps (hstage : stage ℓ = .fresh) (herror : ∀ e ℓ', E (.io e) ℓ') :
    KeepsStore store goal (fun _ ℓ' => stage ℓ' = .fresh) E store.createParent ℓ := by
  unfold JsonFileSchedulerStore.createParent
  split
  · split
    · next dir _ _ =>
      have hallows : (stage ℓ).Allows store.path store.tmp goal (.createDirAll dir) := by
        rw [hstage]
        exact True.intro
      refine ⟨hallows, fun r _ => ?_⟩
      cases r with
      | error e => exact herror e _
      | ok v => exact congrArg (Stage.next · _ _) hstage
    · exact hstage
  · exact hstage

/-- A save that returns has renamed its file. -/
theorem save_keeps (call : Save json)
    (hgoal : ∀ text, json.toJson call.snapshot = .ok text → goal (textBytes text)) :
    KeepsStore store goal (fun _ ℓ' => stage ℓ' = .installed) (fun _ _ => True) (store.save call) [] := by
  refine Obeys.bind (createParent_keeps rfl fun _ _ => True.intro) fun _ ℓ₁ hfresh => ?_
  refine attempt_keeps (by rw [hfresh]; rfl) (fun _ _ => True.intro) fun file ℓ₂ hcreated => ?_
  rw [hfresh] at hcreated
  refine Obeys.bind (toWriter_keeps hcreated fun _ _ => True.intro) fun file' ℓ₃ hwritten => ?_
  rw [List.nil_append] at hwritten
  cases htext : json.toJson call.snapshot with
  | error message => exact True.intro
  | ok text =>
    rw [call.spelled text htext] at hwritten
    refine attempt_keeps (by rw [hwritten]; exact True.intro) (fun _ _ => True.intro)
      fun _ ℓ₄ hflushed => ?_
    rw [hwritten] at hflushed
    refine attempt_keeps (by rw [hflushed]; exact ⟨rfl, rfl, hgoal text htext⟩) (fun _ _ => True.intro)
      fun _ ℓ₅ hrenamed => ?_
    rw [hflushed] at hrenamed
    exact hrenamed

/-- What a load returns is what it read. -/
def Loaded (json : Json) (result : Except SchedulerStoreError (SchedulerSnapshot PathBuf))
    (ℓ : History (diskInterface Components)) : Prop :=
  (stage ℓ = .absent ∧ result = .ok ⟨[]⟩) ∨ (∃ bytes, stage ℓ = .read bytes ∧ result = parse json bytes) ∨
    ∃ e, result = .error (.io e)

theorem load_keeps : KeepsStore store goal
    (fun reply ℓ' => ∃ snapshot, reply = .loaded snapshot ∧ Loaded json (.ok snapshot) ℓ')
    (fun e ℓ' => Loaded json (.error e) ℓ') (store.load json) [] := by
  refine ⟨rfl, fun r _ => ?_⟩
  cases r with
  | error e =>
    cases e with
    | notFound => exact ⟨⟨[]⟩, rfl, .inl ⟨rfl, rfl⟩⟩
    | other code => exact .inr (.inr ⟨_, rfl⟩)
  | ok file =>
    refine attempt_keeps rfl (fun e _ => .inr (.inr ⟨e, rfl⟩)) fun bytes ℓ' hread => ?_
    have hstage : stage ℓ' = .read bytes := hread
    cases hparse : parse json bytes with
    | ok snapshot => exact ⟨snapshot, rfl, .inr (.inl ⟨bytes, hstage, hparse.symm⟩)⟩
    | error e => exact .inr (.inl ⟨bytes, hstage, hparse.symm⟩)

end

/-- **A load on its own**, none of whose commands fails, returns what is stored. -/
theorem load_stored (json : Json) (store : JsonFileSchedulerStore) {fault : Nat → Option Nat}
    {m : DiskMachine Components} (hopen : fault m.state.time = none) (hread : fault (m.state.time + 1) = none)
    (t : Nat) : wp (diskHandle (platform fault)) t (store.load json)
      (fun reply _ => ∃ snapshot, reply = .loaded snapshot ∧ store.stored json m.state = .ok snapshot)
      (fun e _ => store.stored json m.state = .error e) m := by
  apply wp_perform_bind.mpr
  unfold JsonFileSchedulerStore.stored
  cases hentry : m.state.entries store.path with
  | none =>
    rw [show (diskHandle (platform fault) (.openRead store.path) m.state).1 = .error .notFound by
      simp [diskHandle, platform, hopen, diskEffect, hentry]]
    exact ⟨⟨[]⟩, rfl, rfl⟩
  | some i =>
    rw [show (diskHandle (platform fault) (.openRead store.path) m.state).1 = .ok ⟨i, 0⟩ by
      simp [diskHandle, platform, hopen, diskEffect, hentry]]
    apply wp_bind.mpr
    apply wp_perform_bind.mpr
    have hsame : m.state.Same (diskHandle (platform fault) (.openRead store.path) m.state).2 :=
      diskHandle_quiet rfl
    have htime : (diskHandle (platform fault) (.openRead store.path) m.state).2.time =
        m.state.time + 1 := by
      simp [diskHandle, platform, hopen]
    rw [show (diskHandle (platform fault) (.readToEnd ⟨i, 0⟩)
        (m.step (diskHandle (platform fault)) t (.openRead store.path)).state).1 =
        .ok (m.state.data i) by
      rw [Machine.step, diskHandle, htime, show (platform fault).fault (m.state.time + 1) = none from hread]
      simp [diskEffect, hsame.data]]
    show wp _ t (match parse json (m.state.data i) with
      | .ok snapshot => (Prog.ret (.loaded snapshot) : StoreProg Reply)
      | .error e => .fail e) _ _ _
    cases hparse : parse json (m.state.data i) with
    | ok snapshot => exact ⟨snapshot, rfl, hparse⟩
    | error e => exact hparse

/-! ## The result -/

section

variable {json : Json} (store : JsonFileSchedulerStore) (calls : List (StoreCall json))

/-- The bytes that call `t` may put in the place of the store's file. -/
def Spells (calls : List (StoreCall json)) (t : Nat) (bytes : List UInt8) : Prop :=
  ∃ call text, calls[t]? = some (.save call) ∧ json.toJson call.snapshot = .ok text ∧
    bytes = textBytes text

/-- The result is that of a load before all calls, or the snapshot of a save. -/
def Genuine (calls : List (StoreCall json))
    (before result : Except SchedulerStoreError (SchedulerSnapshot PathBuf)) : Prop :=
  result = before ∨ ∃ call, .save call ∈ calls ∧ result = .ok call.snapshot

variable (hjson : ∀ snapshot text, json.toJson snapshot = .ok text → json.fromStr text = .ok snapshot)

include hjson in
theorem Spells.parse {calls : List (StoreCall json)} {t : Nat} {bytes : List UInt8}
    (h : Spells calls t bytes) :
    ∃ call, calls[t]? = some (.save call) ∧ parse json bytes = .ok call.snapshot := by
  obtain ⟨call, text, hcall, htext, rfl⟩ := h
  refine ⟨call, hcall, ?_⟩
  simp only [Shigoto.parse, readText_textBytes, hjson call.snapshot text htext]

include hjson in
theorem Genuine.of_intact {d : Disk Components} {bytes : List UInt8}
    (h : Intact store.path (Spells calls) d bytes) :
    Genuine calls (store.stored json d) (parse json bytes) := by
  rcases h with ⟨i, hi, rfl⟩ | ⟨t, hspells⟩
  · left
    simp only [JsonFileSchedulerStore.stored, hi]
  · obtain ⟨call, hcall, hparse⟩ := hspells.parse hjson
    exact .inr ⟨call, List.mem_of_getElem? hcall, hparse⟩

theorem Genuine.of_absent {d : Disk Components} (h : d.entries store.path = none) :
    Genuine calls (store.stored json d) (.ok ⟨[]⟩) := by
  left
  simp only [JsonFileSchedulerStore.stored, h]

/-- How call `t` returns, given what it has seen. -/
def Returns (calls : List (StoreCall json)) (t : Nat) (reply : Reply)
    (ℓ : History (diskInterface Components)) : Prop :=
  (∀ call, calls[t]? = some (.save call) → stage ℓ = .installed) ∧
  (calls[t]? = some .load → ∃ snapshot, reply = .loaded snapshot ∧ Loaded json (.ok snapshot) ℓ)

/-- How call `t` fails. -/
def Fails (calls : List (StoreCall json)) (t : Nat) (e : SchedulerStoreError)
    (ℓ : History (diskInterface Components)) : Prop :=
  calls[t]? = some .load → Loaded json (.error e) ℓ

theorem StoreCall.keeps (t : Nat) (client : StoreProg Reply)
    (h : (calls.map (StoreCall.prog store))[t]? = some client) :
    KeepsStore store (Spells calls t) (Returns calls t) (Fails calls t) client [] := by
  rw [List.getElem?_map] at h
  obtain ⟨call, hcall, rfl⟩ := Option.map_eq_some_iff.mp h
  cases call with
  | save call =>
    refine Obeys.mono (save_keeps call fun text htext => ⟨call, text, hcall, htext, rfl⟩)
      (fun _ ℓ hinstalled => ⟨fun _ _ => hinstalled, fun hload => ?_⟩) fun _ _ _ hload => ?_
    · exact nomatch hcall.symm.trans hload
    · exact nomatch hcall.symm.trans hload
  | load =>
    refine Obeys.mono load_keeps (fun _ ℓ hloaded => ⟨fun call' hsave => ?_, fun _ => hloaded⟩)
      fun _ _ h _ => h
    exact nomatch hcall.symm.trans hsave

variable {store calls} {fault : Nat → Option Nat} {d : Disk Components}
  {c : Config (diskInterface Components) (Disk Components) SchedulerStoreError Reply}
  (hreplacing : Replacing (platform fault) store.path store.tmp (Spells calls) d c.machine)

include hjson hreplacing

theorem Genuine.of_loaded {t : Nat} {result : Except SchedulerStoreError (SchedulerSnapshot PathBuf)}
    (h : Loaded json result (history (diskHandle (platform fault)) t c.machine.log)) :
    (∃ e, result = .error (.io e)) ∨ Genuine calls (store.stored json d) result := by
  have hstage := hreplacing.stages t
  rcases h with ⟨habsent, rfl⟩ | ⟨bytes, hread, rfl⟩ | hio
  · rw [habsent] at hstage
    exact .inr (Genuine.of_absent store calls hstage)
  · rw [hread] at hstage
    exact .inr (Genuine.of_intact store calls hjson hstage)
  · exact .inl hio

theorem Genuine.of_replacing :
    Genuine calls (store.stored json d) (store.stored json c.machine.state) := by
  cases hentry : c.machine.state.entries store.path with
  | none =>
    rw [show store.stored json c.machine.state = .ok ⟨[]⟩ by
      simp only [JsonFileSchedulerStore.stored, hentry]]
    exact Genuine.of_absent store calls (hreplacing.absent hentry)
  | some i =>
    rw [show store.stored json c.machine.state = parse json (c.machine.state.data i) by
      simp only [JsonFileSchedulerStore.stored, hentry]]
    exact Genuine.of_intact store calls hjson (hreplacing.current i hentry)

/-- A save that has returned was stored. -/
theorem stored_of_installed {t : Nat} {call : Save json} (hcall : calls[t]? = some (.save call))
    (h : stage (history (diskHandle (platform fault)) t c.machine.log) = .installed) :
    ∃ e ∈ c.machine.log,
      store.stored json (e.post (diskHandle (platform fault))) = .ok call.snapshot := by
  have hstage := hreplacing.stages t
  rw [h] at hstage
  obtain ⟨e, he, -, i, hi, hspells⟩ := hstage
  obtain ⟨call', hcall', hparse⟩ := hspells.parse hjson
  obtain rfl := StoreCall.save.inj (Option.some.inj (hcall.symm.trans hcall'))
  refine ⟨e, he, ?_⟩
  simp only [JsonFileSchedulerStore.stored, hi, hparse]

omit hreplacing

/-- **The store's file is never torn** in a run in which no save writes to the temporary file or renames it
after another save has created it anew. At every point the file holds what it held at the start or the
snapshot of a save; so does what each load returns, unless a command of it failed; and the snapshot of a
save that returned was stored. -/
theorem store_whole (store : JsonFileSchedulerStore) (calls : List (StoreCall json))
    (fault : Nat → Option Nat) (d : Disk Components) (schedule : List Nat)
    (hturn : Meets (InTurn (platform fault) store.tmp)
      (storeRun store fault calls d schedule).machine.log) :
    let c := storeRun store fault calls d schedule
    Genuine calls (store.stored json d) (store.stored json c.machine.state) ∧
    (∀ t : Nat, calls[t]? = some .load →
      (∀ reply, c.threads[t]? = some (Prog.ret reply) →
        ∃ snapshot, reply = .loaded snapshot ∧ Genuine calls (store.stored json d) (.ok snapshot)) ∧
      ∀ e, c.threads[t]? = some (Prog.fail e) →
        (∃ e', e = .io e') ∨ Genuine calls (store.stored json d) (.error e)) ∧
    ∀ (t : Nat) (call : Save json) (reply : Reply), calls[t]? = some (.save call) →
      c.threads[t]? = some (Prog.ret reply) →
      ∃ e ∈ c.machine.log,
        store.stored json (e.post (diskHandle (platform fault))) = .ok call.snapshot := by
  intro c
  obtain ⟨hreplacing, hobey⟩ := replacing_run store.tmp_ne (StoreCall.keeps store calls) schedule hturn
  refine ⟨Genuine.of_replacing hjson hreplacing, fun t hload => ⟨fun reply hreply => ?_, fun e he => ?_⟩,
    fun t call reply hcall hreply => ?_⟩
  · obtain ⟨snapshot, rfl, hloaded⟩ := (hobey t _ hreply).2 hload
    exact ⟨snapshot, rfl, (Genuine.of_loaded hjson hreplacing hloaded).resolve_left (by simp)⟩
  · rcases Genuine.of_loaded hjson hreplacing (hobey t _ he hload) with ⟨e', he'⟩ | hgenuine
    · exact .inl ⟨e', Except.error.inj he'⟩
    · exact .inr hgenuine
  · exact stored_of_installed hjson hreplacing hcall ((hobey t _ hreply).1 call hcall)

end

/-! ## Sample runs -/

namespace Sample

/-- The texts of some snapshots. -/
def tableJson (rows : List (SchedulerSnapshot PathBuf × String)) : Json where
  toJson snapshot := ((rows.find? fun row => row.1 = snapshot).map (·.2)).elim (.error "no sample") .ok
  fromStr text := ((rows.find? fun row => row.2 = text).map (·.1)).elim (.error "expected value") .ok

theorem tableJson_roundTrip {rows : List (SchedulerSnapshot PathBuf × String)}
    (hnodup : (rows.map (·.2)).Nodup) (snapshot : SchedulerSnapshot PathBuf) (text : String)
    (h : (tableJson rows).toJson snapshot = .ok text) :
    (tableJson rows).fromStr text = .ok snapshot := by
  have hrow : (rows.find? fun row => row.1 = snapshot).map (·.2) = some text := by
    simp only [tableJson] at h
    cases hfind : (rows.find? fun row => row.1 = snapshot).map (·.2) with
    | none => simp [hfind] at h
    | some text' => simpa [hfind] using h
  simp only [tableJson, map_find?_back hnodup hrow, Option.elim_some]

/-- `serde_json` on the empty snapshot, whose text is an object with an empty array of jobs. -/
def json : Json := tableJson [(⟨[]⟩, "\x7b\x22jobs\x22:[]\x7d")]

theorem json_roundTrip (snapshot : SchedulerSnapshot PathBuf) (text : String)
    (h : json.toJson snapshot = .ok text) : json.fromStr text = .ok snapshot :=
  tableJson_roundTrip (by simp) snapshot text h

/-- The empty snapshot, in the pieces that the serializer writes. -/
def emptySave : Save json where
  snapshot := ⟨[]⟩
  chunks := ["\x7b", "\x22", "jobs", "\x22", ":", "[", "]", "\x7d"].map textBytes
  spelled text h := by
    obtain rfl := Except.ok.inj h
    decide +kernel

/-- A store in the current directory. -/
def store : JsonFileSchedulerStore := ⟨⟨textBytes "state.json", by decide +kernel⟩⟩

/-- A disk without files. -/
def emptyDisk : Disk Components where
  entries _ := none
  data _ := []
  unused := 0
  time := 0
  entries_lt _ _ h := nomatch h
  entries_inj _ _ _ h := nomatch h

end Sample

/-- The first save has written five of its eight pieces when the second one truncates the file. The first
one writes the others behind a gap and renames the file: it can no longer be parsed. -/
theorem overlapping_saves_tear :
    let c := storeRun Sample.store (fun _ => none) [.save Sample.emptySave, .save Sample.emptySave]
      Sample.emptyDisk (List.replicate 6 0 ++ 1 :: List.replicate 5 0)
    ¬ Genuine [.save Sample.emptySave, .save Sample.emptySave]
      (Sample.store.stored Sample.json Sample.emptyDisk) (Sample.store.stored Sample.json c.machine.state) := by
  intro c
  have htorn : Sample.store.stored Sample.json c.machine.state = .error (.serde "expected value") := by
    decide +kernel
  rw [htorn]
  rintro (hbefore | ⟨call, -, hsaved⟩)
  · exact nomatch hbefore
  · exact nomatch hsaved

/-- Two saves one after the other, and a load. -/
theorem store_whole_sequential :
    let calls := [.save Sample.emptySave, .save Sample.emptySave, .load]
    let c := storeRun Sample.store (fun _ => none) calls Sample.emptyDisk
      (List.replicate 11 0 ++ List.replicate 11 1 ++ [2, 2])
    Genuine calls (Sample.store.stored Sample.json Sample.emptyDisk)
      (Sample.store.stored Sample.json c.machine.state) :=
  (store_whole Sample.json_roundTrip Sample.store [.save Sample.emptySave, .save Sample.emptySave, .load]
    (fun _ => none) Sample.emptyDisk (List.replicate 11 0 ++ List.replicate 11 1 ++ [2, 2])
    (by decide +kernel)).1

end Shigoto
