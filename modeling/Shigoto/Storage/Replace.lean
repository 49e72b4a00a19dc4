import Shigoto.Atomic.Protocol
import Shigoto.Storage.Disk

/-!
# Replacing a file through a temporary one

Any number of clients share a file `target`. A client that replaces it writes a temporary file and
renames it; a client that reads it opens it and reads to the end. All use the same temporary name, so one
client may truncate or rename the file that another is still writing.

`Stage` is what a client makes of the answers it got. As long as nobody writes to or renames the temporary
file after somebody else has created it anew (`InTurn`), every content of the target is one that was
there at the start or one that a client put there as a whole.
-/

namespace Storage

open Atomic

variable {N : Type} [DecidableEq N]

abbrev DiskMachine (N : Type) := Machine (diskInterface N) (Disk N)

abbrev DiskEvent (N : Type) := Event (diskInterface N) (Disk N)

/-! ## What a client knows -/

inductive Stage
  | fresh
  /-- The temporary file is open and holds `written`. -/
  | writing (file : File) (written : List UInt8)
  /-- The rename is done. -/
  | installed
  | reading (file : File)
  | read (bytes : List UInt8)
  /-- There was no target to open. -/
  | absent
  | ended

/-- What an answer adds. -/
def Stage.next : Stage → (c : DiskCmd N) → Except IoError c.Value → Stage
  | .fresh, .createDirAll _, .ok _ => .fresh
  | .fresh, .create _, .ok file => .writing file []
  | .writing _ written, .write _ bytes, .ok file => .writing file (written ++ bytes)
  | .writing file written, .flush _, .ok _ => .writing file written
  | .writing _ _, .rename _ _, .ok _ => .installed
  | .fresh, .openRead _, .ok file => .reading file
  | .fresh, .openRead _, .error .notFound => .absent
  | .reading _, .readToEnd _, .ok bytes => .read bytes
  | _, _, _ => .ended

def stage : History (diskInterface N) → Stage
  | [] => .fresh
  | x :: ℓ => (stage ℓ).next x.cmd x.answer

/-- The commands that may come next, where `goal` is what a client may put in the place of the target. -/
def Stage.Allows (target tmp : N) (goal : List UInt8 → Prop) : Stage → DiskCmd N → Prop
  | .fresh, .createDirAll _ => True
  | .fresh, .create name => name = tmp
  | .writing file _, .write file' _ => file' = file
  | .writing _ _, .flush _ => True
  | .writing _ written, .rename source target' => source = tmp ∧ target' = target ∧ goal written
  | .fresh, .openRead name => name = target
  | .reading file, .readToEnd file' => file' = file
  | _, _ => False

/-- The protocol of a client. -/
def replaceProtocol (target tmp : N) (goal : List UInt8 → Prop) : Protocol (diskInterface N) where
  allows ℓ c := (stage ℓ).Allows target tmp goal c
  answers _ _ := True

/-! ## Turns -/

section

variable (p : Platform N)

/-- The event created the file `name`. -/
def createsFile (name : N) (e : DiskEvent N) : Bool :=
  match e with
  | ⟨_, .create name', d⟩ => name' = name && (diskHandle p (.create name') d).1.isOk
  | _ => false

/-- Who created `name` last. -/
def holder (name : N) (log : List (DiskEvent N)) : Option Nat :=
  (log.find? (createsFile p name)).map (·.tid)

/-- The event wrote to a file or renamed one. -/
def changesFile (e : DiskEvent N) : Bool :=
  match e with
  | ⟨_, .write file bytes, d⟩ => (diskHandle p (.write file bytes) d).1.isOk
  | ⟨_, .rename source target, d⟩ => (diskHandle p (.rename source target) d).1.isOk
  | _ => false

/-- Whoever writes to the temporary file or renames it was the last one to create it. -/
def InTurn (tmp : N) (e : DiskEvent N) (past : List (DiskEvent N)) : Prop :=
  changesFile p e = true → holder p tmp past = some e.tid

instance (tmp : N) (e : DiskEvent N) (past : List (DiskEvent N)) : Decidable (InTurn p tmp e past) :=
  inferInstanceAs (Decidable (_ → _))

end

/-! ## The invariant -/

section

variable (p : Platform N) (target tmp : N) (goal : Nat → List UInt8 → Prop) (d₀ : Disk N)

/-- What the target held at the start, or what some client put there as a whole. -/
def Intact (bytes : List UInt8) : Prop :=
  (∃ i, d₀.entries target = some i ∧ bytes = d₀.data i) ∨ ∃ t, goal t bytes

/-- Client `t` put its content in the place of the target. -/
def Installed (t : Nat) (log : List (DiskEvent N)) : Prop :=
  ∃ e ∈ log, e.tid = t ∧
    ∃ i, (e.post (diskHandle p)).entries target = some i ∧ goal t ((e.post (diskHandle p)).data i)

/-- What holds of the disk when client `t` is in a stage. -/
def Stage.Holds (m : DiskMachine N) (t : Nat) : Stage → Prop
  | .writing file written => p.regular tmp = true ∧ (holder p tmp m.log = some t →
      m.state.entries tmp = some file.inode ∧ m.state.data file.inode = written ∧
        file.offset = written.length)
  | .installed => Installed p target goal t m.log
  | .reading file => file.offset = 0 ∧ file.inode < m.state.unused ∧
      Intact target goal d₀ (m.state.data file.inode) ∧
      (p.regular tmp = true → m.state.entries tmp ≠ some file.inode)
  | .read bytes => Intact target goal d₀ bytes
  | .absent => d₀.entries target = none
  | _ => True

structure Replacing (m : DiskMachine N) : Prop where
  current : ∀ i, m.state.entries target = some i → Intact target goal d₀ (m.state.data i)
  absent : m.state.entries target = none → d₀.entries target = none
  stages : ∀ t, (stage (history (diskHandle p) t m.log)).Holds p target tmp goal d₀ m t

end

section

variable {p : Platform N} {target tmp : N} {goal : Nat → List UInt8 → Prop} {d₀ : Disk N}
  {m m' : DiskMachine N} {t : Nat}

theorem holder_cons (e : DiskEvent N) (log : List (DiskEvent N)) :
    holder p tmp (e :: log) = if createsFile p tmp e = true then some e.tid else holder p tmp log := by
  unfold holder
  rw [List.find?_cons]
  split <;> simp_all

/-- Where the files are the same, a client that did nothing knows what it knew. -/
theorem Stage.Holds.keep {s : Stage} (h : s.Holds p target tmp goal d₀ m t)
    (hsame : m.state.Same m'.state) (hholder : holder p tmp m'.log = holder p tmp m.log)
    (hlog : m.log ⊆ m'.log) : s.Holds p target tmp goal d₀ m' t := by
  obtain ⟨hentries, hdata, hunused⟩ := hsame
  cases s with
  | writing file written =>
    refine ⟨h.1, fun hheld => ?_⟩
    rw [hentries, hdata]
    exact h.2 (hholder.symm.trans hheld)
  | installed =>
    obtain ⟨e, he, hinstalled⟩ := h
    exact ⟨e, hlog he, hinstalled⟩
  | reading file =>
    obtain ⟨hoffset, hlt, hintact, hne⟩ := h
    exact ⟨hoffset, hunused ▸ hlt, hdata ▸ hintact, hentries ▸ hne⟩
  | _ => exact h

/-- The stages of all clients after a step of one of them. -/
theorem stages_step {c : DiskCmd N}
    (hself : ((stage (history (diskHandle p) t m.log)).next c (diskHandle p c m.state).1).Holds
      p target tmp goal d₀ (m.step (diskHandle p) t c) t)
    (hothers : ∀ u, u ≠ t → (stage (history (diskHandle p) u m.log)).Holds
      p target tmp goal d₀ (m.step (diskHandle p) t c) u) (u : Nat) :
    (stage (history (diskHandle p) u (m.step (diskHandle p) t c).log)).Holds
      p target tmp goal d₀ (m.step (diskHandle p) t c) u := by
  by_cases hu : u = t
  · subst hu
    rw [history_step_self]
    exact hself
  · rw [history_step_ne (diskHandle p) (Ne.symm hu)]
    exact hothers u hu

/-- A step that leaves the files alone. -/
theorem Replacing.step_same (h : Replacing p target tmp goal d₀ m) {c : DiskCmd N}
    (hsame : m.state.Same (diskHandle p c m.state).2)
    (hcreates : createsFile p tmp ⟨t, c, m.state⟩ = false)
    (hself : ((stage (history (diskHandle p) t m.log)).next c (diskHandle p c m.state).1).Holds
      p target tmp goal d₀ (m.step (diskHandle p) t c) t) :
    Replacing p target tmp goal d₀ (m.step (diskHandle p) t c) := by
  obtain ⟨hentries, hdata, hunused⟩ := hsame
  have hholder : holder p tmp (m.step (diskHandle p) t c).log = holder p tmp m.log := by
    rw [Machine.step, holder_cons, if_neg (by simp [hcreates])]
  refine ⟨fun i hi => ?_, fun hnone => ?_, stages_step hself fun u _ => ?_⟩
  · rw [Machine.step, hentries] at hi
    rw [Machine.step, hdata]
    exact h.current i hi
  · rw [Machine.step, hentries] at hnone
    exact h.absent hnone
  · exact (h.stages u).keep ⟨hentries, hdata, hunused⟩ hholder (List.subset_cons_self _ _)

/-- After somebody else took the temporary file, a client knows what it knew but for that file. -/
theorem Stage.Holds.overtaken {s : Stage} {u : Nat} (h : s.Holds p target tmp goal d₀ m u)
    (hregular : p.regular tmp = true) (hholder : holder p tmp m'.log = some t) (hu : u ≠ t)
    (hlog : m.log ⊆ m'.log) (hfar : ∀ i, i < m.state.unused → m.state.entries tmp ≠ some i →
      i < m'.state.unused ∧ m'.state.data i = m.state.data i ∧ m'.state.entries tmp ≠ some i) :
    s.Holds p target tmp goal d₀ m' u := by
  cases s with
  | writing file written =>
    exact ⟨hregular, fun hheld => absurd (Option.some.inj (hholder.symm.trans hheld)) (Ne.symm hu)⟩
  | installed =>
    obtain ⟨e, he, hinstalled⟩ := h
    exact ⟨e, hlog he, hinstalled⟩
  | reading file =>
    obtain ⟨hoffset, hlt, hintact, hnot⟩ := h
    obtain ⟨hlt', hdata, hnot'⟩ := hfar file.inode hlt (hnot hregular)
    exact ⟨hoffset, hlt', hdata ▸ hintact, fun _ => hnot'⟩
  | _ => exact h

/-- An accepted creation of the temporary file takes it away from whoever held it. -/
theorem Replacing.step_create (htmp : p.regular tmp = true → tmp ≠ target)
    (h : Replacing p target tmp goal d₀ m) {file : File}
    (hok : (diskHandle p (.create tmp) m.state).1 = .ok file)
    (hfresh : stage (history (diskHandle p) t m.log) = .fresh) :
    Replacing p target tmp goal d₀ (m.step (diskHandle p) t (.create tmp)) := by
  obtain ⟨hregular, hcreated⟩ := create_ok hok
  have hne := htmp hregular
  have hholder : holder p tmp (m.step (diskHandle p) t (.create tmp)).log = some t := by
    rw [Machine.step, holder_cons, if_pos]
    simp [createsFile, hok, Except.isOk, Except.toBool]
  -- an inode that the temporary name does not stand for keeps its bytes
  have hdata : ∀ i, i < m.state.unused → m.state.entries tmp ≠ some i →
      (m.step (diskHandle p) t (.create tmp)).state.data i = m.state.data i := by
    intro i hlt hnot
    rw [Machine.step, hcreated.data, if_neg]
    rintro rfl
    exact hcreated.inode.elim hnot (Nat.ne_of_lt hlt)
  have hentries : (m.step (diskHandle p) t (.create tmp)).state.entries target =
      m.state.entries target := by
    rw [Machine.step, hcreated.entries, if_neg (Ne.symm hne)]
  refine ⟨fun i hi => ?_, fun hnone => h.absent (hentries ▸ hnone), stages_step ?_ fun u hu => ?_⟩
  · rw [hentries] at hi
    rw [hdata i (m.state.entries_lt target i hi) fun htmp => hne (m.state.entries_inj _ _ i hi htmp)]
    exact h.current i hi
  · rw [hok, hfresh]
    refine ⟨hregular, fun _ => ⟨?_, ?_, hcreated.offset⟩⟩
    · rw [Machine.step, hcreated.entries, if_pos rfl]
    · rw [Machine.step, hcreated.data, if_pos rfl]
  · refine (h.stages u).overtaken hregular hholder hu (List.subset_cons_self _ _) fun i hlt hnot => ?_
    refine ⟨Nat.lt_of_lt_of_le hlt hcreated.unused, hdata i hlt hnot, ?_⟩
    rw [Machine.step, hcreated.entries, if_pos rfl]
    intro heq
    have hinode := Option.some.inj heq
    exact hcreated.inode.elim (fun hold => hnot (hinode ▸ hold)) fun hnew =>
      Nat.ne_of_lt hlt (hinode ▸ hnew)

/-- A write in turn adds to the temporary file and touches nothing else. -/
theorem Replacing.step_write (htmp : p.regular tmp = true → tmp ≠ target)
    (h : Replacing p target tmp goal d₀ m) {file file' : File} {written bytes : List UInt8}
    (hok : (diskHandle p (.write file bytes) m.state).1 = .ok file')
    (hturn : holder p tmp m.log = some t)
    (hwriting : stage (history (diskHandle p) t m.log) = .writing file written) :
    Replacing p target tmp goal d₀ (m.step (diskHandle p) t (.write file bytes)) := by
  obtain ⟨rfl, hentries, hunused, hdata⟩ := write_ok hok
  have hstage := h.stages t
  rw [hwriting] at hstage
  obtain ⟨hregular, hheld⟩ := hstage
  obtain ⟨hinode, hcontent, hoffset⟩ := hheld hturn
  have hkept : ∀ i, m.state.entries tmp ≠ some i →
      (m.step (diskHandle p) t (.write file bytes)).state.data i = m.state.data i := by
    intro i hnot
    rw [Machine.step, hdata, if_neg]
    rintro rfl
    exact hnot hinode
  have hholder : holder p tmp (m.step (diskHandle p) t (.write file bytes)).log = some t := by
    rw [Machine.step, holder_cons, if_neg (by simp [createsFile])]
    exact hturn
  refine ⟨fun i hi => ?_, fun hnone => ?_, stages_step ?_ fun u hu => ?_⟩
  · rw [Machine.step, hentries] at hi
    rw [hkept i fun h' => htmp hregular (m.state.entries_inj _ _ i hi h')]
    exact h.current i hi
  · rw [Machine.step, hentries] at hnone
    exact h.absent hnone
  · rw [hok, hwriting]
    refine ⟨hregular, fun _ => ⟨?_, ?_, ?_⟩⟩
    · rw [Machine.step, hentries]
      exact hinode
    · rw [Machine.step, hdata, if_pos rfl, hcontent, hoffset, splice_end]
    · simp [hoffset]
  · refine (h.stages u).overtaken hregular hholder hu (List.subset_cons_self _ _) fun i hlt hnot => ?_
    rw [hkept i hnot, Machine.step, hunused, hentries]
    exact ⟨hlt, rfl, hnot⟩

/-- A rename in turn puts the whole content in the place of the target. -/
theorem Replacing.step_rename (h : Replacing p target tmp goal d₀ m) {file : File}
    {written : List UInt8} (hok : (diskHandle p (.rename tmp target) m.state).1 = .ok ())
    (hturn : holder p tmp m.log = some t)
    (hwriting : stage (history (diskHandle p) t m.log) = .writing file written)
    (hgoal : goal t written) :
    Replacing p target tmp goal d₀ (m.step (diskHandle p) t (.rename tmp target)) := by
  obtain ⟨i, hi, hentries, hdata, hunused⟩ := rename_ok hok
  have hstage := h.stages t
  rw [hwriting] at hstage
  obtain ⟨hregular, hheld⟩ := hstage
  obtain ⟨hinode, hcontent, -⟩ := hheld hturn
  obtain rfl : i = file.inode := Option.some.inj (hi.symm.trans hinode)
  have htarget : (m.step (diskHandle p) t (.rename tmp target)).state.entries target =
      some file.inode := by
    rw [Machine.step, hentries, if_pos rfl]
  have hnew : goal t ((m.step (diskHandle p) t (.rename tmp target)).state.data file.inode) := by
    rw [Machine.step, hdata, hcontent]
    exact hgoal
  have hholder : holder p tmp (m.step (diskHandle p) t (.rename tmp target)).log = some t := by
    rw [Machine.step, holder_cons, if_neg (by simp [createsFile])]
    exact hturn
  refine ⟨fun j hj => ?_, fun hnone => ?_, stages_step ?_ fun u hu => ?_⟩
  · obtain rfl := Option.some.inj (htarget.symm.trans hj)
    exact .inr ⟨t, hnew⟩
  · rw [htarget] at hnone
    exact nomatch hnone
  · rw [hok, hwriting]
    exact ⟨⟨t, .rename tmp target, m.state⟩, List.mem_cons_self, rfl, file.inode, htarget, hnew⟩
  · refine (h.stages u).overtaken hregular hholder hu (List.subset_cons_self _ _) fun i hlt hnot => ?_
    rw [Machine.step, hunused, hdata, hentries]
    exact ⟨hlt, rfl, by grind⟩

/-- A command that fails creates no file. -/
theorem not_createsFile_of_error {c : DiskCmd N} {e : IoError} {d : Disk N}
    (h : (diskHandle p c d).1 = .error e) : createsFile p tmp ⟨t, c, d⟩ = false := by
  cases c with
  | create name => simp [createsFile, h, Except.isOk, Except.toBool]
  | _ => rfl

/-- A command that fails changes nothing; only a missing target is an answer. -/
theorem Replacing.step_error (h : Replacing p target tmp goal d₀ m) {c : DiskCmd N} {e : IoError}
    (hanswer : (diskHandle p c m.state).1 = .error e)
    (hallows : (stage (history (diskHandle p) t m.log)).Allows target tmp (goal t) c) :
    Replacing p target tmp goal d₀ (m.step (diskHandle p) t c) := by
  refine h.step_same (diskHandle_error hanswer) (not_createsFile_of_error hanswer) ?_
  rw [hanswer]
  generalize stage (history (diskHandle p) t m.log) = s at hallows
  cases s with
  | fresh =>
    cases c with
    | openRead name =>
      obtain rfl : name = target := hallows
      cases e with
      | notFound => exact h.absent (openRead_notFound hanswer)
      | other code => exact True.intro
    | _ => exact True.intro
  | writing file written => cases c <;> exact True.intro
  | reading file => cases c <;> exact True.intro
  | _ => exact True.intro

/-- A target that is opened holds one whole content, and the temporary name never stands for it. -/
theorem Replacing.step_openRead (htmp : p.regular tmp = true → tmp ≠ target)
    (h : Replacing p target tmp goal d₀ m) {file : File}
    (hok : (diskHandle p (.openRead target) m.state).1 = .ok file)
    (hfresh : stage (history (diskHandle p) t m.log) = .fresh) :
    Replacing p target tmp goal d₀ (m.step (diskHandle p) t (.openRead target)) := by
  obtain ⟨hoffset, hentry⟩ := openRead_ok hok
  have hsame : m.state.Same (diskHandle p (.openRead target) m.state).2 := diskHandle_quiet rfl
  refine h.step_same hsame rfl ?_
  rw [hfresh, hok]
  refine ⟨hoffset, ?_, ?_, fun hregular heq => ?_⟩
  · rw [Machine.step, hsame.unused]
    exact m.state.entries_lt target file.inode hentry
  · rw [Machine.step, hsame.data]
    exact h.current file.inode hentry
  · rw [Machine.step, hsame.entries] at heq
    exact htmp hregular (m.state.entries_inj _ _ file.inode hentry heq)

/-- **One command of one client**, as long as it writes and renames in turn. -/
theorem Replacing.step (htmp : p.regular tmp = true → tmp ≠ target)
    (h : Replacing p target tmp goal d₀ m) {c : DiskCmd N}
    (hallows : (stage (history (diskHandle p) t m.log)).Allows target tmp (goal t) c)
    (hturn : InTurn p tmp ⟨t, c, m.state⟩ m.log) :
    Replacing p target tmp goal d₀ (m.step (diskHandle p) t c) := by
  have hstage := h.stages t
  generalize hs : stage (history (diskHandle p) t m.log) = s at hallows hstage
  cases hanswer : (diskHandle p c m.state).1 with
  | error e => exact h.step_error hanswer (hs ▸ hallows)
  | ok v =>
    cases s with
    | fresh =>
      cases c with
      | createDirAll dir =>
        refine h.step_same (diskHandle_quiet rfl) rfl ?_
        rw [hs, hanswer]
        exact True.intro
      | create name =>
        obtain rfl : name = tmp := hallows
        exact h.step_create htmp hanswer hs
      | openRead name =>
        obtain rfl : name = target := hallows
        exact h.step_openRead htmp hanswer hs
      | _ => exact hallows.elim
    | writing file written =>
      cases c with
      | write file' bytes =>
        obtain rfl : file' = file := hallows
        have hheld := hturn (by simp [changesFile, hanswer, Except.isOk, Except.toBool])
        exact h.step_write htmp hanswer hheld hs
      | flush file' =>
        refine h.step_same (diskHandle_quiet rfl) rfl ?_
        rw [hs, hanswer]
        exact hstage.keep (diskHandle_quiet rfl) (by rw [Machine.step, holder_cons]; rfl)
          (List.subset_cons_self _ _)
      | rename source target' =>
        obtain ⟨rfl, rfl, hgoal⟩ := hallows
        have hheld := hturn (by simp [changesFile, hanswer, Except.isOk, Except.toBool])
        exact h.step_rename hanswer hheld hs hgoal
      | _ => exact hallows.elim
    | reading file =>
      cases c with
      | readToEnd file' =>
        obtain rfl : file' = file := hallows
        refine h.step_same (diskHandle_quiet rfl) rfl ?_
        rw [hs, hanswer]
        obtain ⟨hoffset, -, hintact, -⟩ := hstage
        have hbytes := readToEnd_ok hanswer
        rw [hoffset, List.drop_zero] at hbytes
        exact hbytes ▸ hintact
      | _ => exact hallows.elim
    | _ => exact hallows.elim

/-- Before the first command. -/
theorem Replacing.start (p : Platform N) (target tmp : N) (goal : Nat → List UInt8 → Prop)
    (d : Disk N) : Replacing p target tmp goal d ⟨d, []⟩ where
  current i hi := .inl ⟨i, hi, rfl⟩
  absent h := h
  stages _ := True.intro

end

/-- **Replacing a file.** Clients that keep the protocol, in any interleaving in which writes and renames
are in turn, keep the target whole, and so are all their views of it. -/
theorem replacing_run {ε α : Type} {p : Platform N} {target tmp : N} {goal : Nat → List UInt8 → Prop}
    (htmp : p.regular tmp = true → tmp ≠ target) {d : Disk N}
    {clients : List (Prog (diskInterface N) ε α)} {Q : Nat → α → History (diskInterface N) → Prop}
    {E : Nat → ε → History (diskInterface N) → Prop}
    (hclients : ∀ t client, clients[t]? = some client →
      Obeys (replaceProtocol target tmp (goal t)) (Q t) (E t) client [])
    (schedule : List Nat)
    (hturn : Meets (InTurn p tmp)
      (Config.run (diskHandle p) schedule ⟨⟨d, []⟩, clients⟩).machine.log) :
    let c := Config.run (diskHandle p) schedule ⟨⟨d, []⟩, clients⟩
    Replacing p target tmp goal d c.machine ∧
      c.AllObey (diskHandle p) (fun t => replaceProtocol target tmp (goal t)) Q E := by
  have hrun := Config.run_induct (diskHandle p) (fun t => replaceProtocol target tmp (goal t)) Q E
    (fun m => Meets (InTurn p tmp) m.log → Replacing p target tmp goal d m)
    (fun _ _ _ => True.intro)
    (fun t m c hJ hallows hmeets => ?_) schedule (c := ⟨⟨d, []⟩, clients⟩) hclients
    fun _ => Replacing.start p target tmp goal d
  · exact ⟨hrun.1 hturn, hrun.2⟩
  · obtain ⟨hnow, hbefore⟩ := meets_cons.mp hmeets
    exact (hJ hbefore).step htmp hallows hnow

end Storage
