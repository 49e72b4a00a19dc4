import Shigoto.Atomic.Prog

/-!
# A disk of named inodes

Names stand for inodes, and inodes hold bytes. A file that is open refers to its inode, not to a name:
what is written through it reaches the inode whatever the names do in the meantime. Creating a file
truncates the inode that the name stands for, if there is one, and a rename replaces the target in one
step.

Every command may fail, at the will of the `Platform`, and then changes nothing. A write that reaches the
disk in part is a shorter write followed by a failed one.
-/

namespace Storage

open Atomic

inductive IoError
  | notFound
  | other (code : Nat)
  deriving DecidableEq, Repr

/-- An open file: its inode, and where the next write or read goes. -/
structure File where
  inode : Nat
  offset : Nat
  deriving DecidableEq, Repr

/-- Names and the bytes behind them. No inode has two names. -/
structure Disk (N : Type) where
  entries : N → Option Nat
  data : Nat → List UInt8
  /-- The inodes from here on are not in use. -/
  unused : Nat
  /-- Number of commands issued so far. -/
  time : Nat
  entries_lt : ∀ name i, entries name = some i → i < unused
  entries_inj : ∀ name name' i, entries name = some i → entries name' = some i → name' = name

/-- What the disk does not decide. -/
structure Platform (N : Type) where
  /-- The code with which the command at that time fails, if it does. -/
  fault : Nat → Option Nat
  /-- The names that can stand for a file; the others are directories or no names at all. -/
  regular : N → Bool

inductive DiskCmd (N : Type)
  | createDirAll (dir : N)
  | create (name : N)
  | write (file : File) (bytes : List UInt8)
  | flush (file : File)
  | rename (source target : N)
  | openRead (name : N)
  | readToEnd (file : File)

/-- What a command answers if it succeeds. A write answers the file with its new offset. -/
abbrev DiskCmd.Value {N : Type} : DiskCmd N → Type
  | .create _ | .write _ _ | .openRead _ => File
  | .readToEnd _ => List UInt8
  | _ => Unit

abbrev diskInterface (N : Type) : Interface := ⟨DiskCmd N, fun c => Except IoError c.Value⟩

/-- Bytes written over a content at an offset. A gap is filled with zeros. -/
def splice (content : List UInt8) (offset : Nat) (bytes : List UInt8) : List UInt8 :=
  content.take offset ++ List.replicate (offset - content.length) 0 ++ bytes ++
    content.drop (offset + bytes.length)

theorem splice_end (content bytes : List UInt8) :
    splice content content.length bytes = content ++ bytes := by
  simp [splice]

section

variable {N : Type} [DecidableEq N]

namespace Disk

variable (d : Disk N)

/-- Replace the content of an inode. -/
def put (i : Nat) (bytes : List UInt8) : Disk N :=
  { d with data := fun j => if j = i then bytes else d.data j }

/-- A new, empty file. -/
def link (name : N) : Disk N where
  entries := fun name' => if name' = name then some d.unused else d.entries name'
  data := fun j => if j = d.unused then [] else d.data j
  unused := d.unused + 1
  time := d.time
  entries_lt name' i h := by
    split at h
    · simp_all
    · exact Nat.lt_succ_of_lt (d.entries_lt name' i h)
  entries_inj name₁ name₂ i h₁ h₂ := by
    have hinj := d.entries_inj name₁ name₂ i
    have hlt := fun name' h => Nat.ne_of_lt (d.entries_lt name' i h)
    grind

/-- Give the inode of `source` the name `target`, and `source` up. -/
def move (source target : N) (i : Nat) (hi : d.entries source = some i) : Disk N where
  entries := fun name =>
    if name = target then some i else if name = source then none else d.entries name
  data := d.data
  unused := d.unused
  time := d.time
  entries_lt name j h := by
    have hlt := d.entries_lt
    grind
  entries_inj name₁ name₂ j h₁ h₂ := by
    have hinj := d.entries_inj
    grind

/-- Open a file for writing, and truncate it if it exists. -/
def create (regular : N → Bool) (name : N) : Except IoError File × Disk N :=
  if regular name then
    match d.entries name with
    | some i => (.ok ⟨i, 0⟩, d.put i [])
    | none => (.ok ⟨d.unused, 0⟩, d.link name)
  else (.error (.other 0), d)

def rename (source target : N) : Except IoError Unit × Disk N :=
  match h : d.entries source with
  | some i => (.ok (), d.move source target i h)
  | none => (.error .notFound, d)

end Disk

/-- What a command that does not fail answers and does, not counting the passing of time. -/
def diskEffect (p : Platform N) : (c : DiskCmd N) → Disk N → Except IoError c.Value × Disk N
  | .createDirAll _, d => (.ok (), d)
  | .create name, d => d.create p.regular name
  | .write file bytes, d =>
    (.ok { file with offset := file.offset + bytes.length },
      d.put file.inode (splice (d.data file.inode) file.offset bytes))
  | .flush _, d => (.ok (), d)
  | .rename source target, d => d.rename source target
  | .openRead name, d =>
    match d.entries name with
    | some i => (.ok ⟨i, 0⟩, d)
    | none => (.error .notFound, d)
  | .readToEnd file, d => (.ok ((d.data file.inode).drop file.offset), d)

/-- A command together with the passing of time. -/
def diskHandle (p : Platform N) : Handler (diskInterface N) (Disk N) := fun c d =>
  match p.fault d.time with
  | some code => (.error (.other code), { d with time := d.time + 1 })
  | none => ((diskEffect p c d).1, { (diskEffect p c d).2 with time := d.time + 1 })

/-! ## What one command can do -/

variable {p : Platform N} {d : Disk N}

/-- The same names and the same bytes. -/
structure Disk.Same (d d' : Disk N) : Prop where
  entries : d'.entries = d.entries
  data : d'.data = d.data
  unused : d'.unused = d.unused

/-- A command that fails changes nothing. -/
theorem diskHandle_error {c : DiskCmd N} {e : IoError} (h : (diskHandle p c d).1 = .error e) :
    d.Same (diskHandle p c d).2 := by
  unfold diskHandle at h ⊢
  split at h
  · exact ⟨rfl, rfl, rfl⟩
  · cases c <;> unfold diskEffect at h ⊢ <;> grind [Disk.Same, Disk.create, Disk.rename]

/-- Commands that never change a name or a byte. -/
def DiskCmd.quiet : DiskCmd N → Bool
  | .create _ | .write _ _ | .rename _ _ => false
  | _ => true

theorem diskHandle_quiet {c : DiskCmd N} (hc : c.quiet = true) : d.Same (diskHandle p c d).2 := by
  unfold diskHandle
  split
  · exact ⟨rfl, rfl, rfl⟩
  · cases c <;> unfold diskEffect <;> grind [Disk.Same, DiskCmd.quiet]

/-- A file that was created is empty and has the name. It is new, or it had the name before. -/
structure Disk.Created (d d' : Disk N) (name : N) (file : File) : Prop where
  offset : file.offset = 0
  entries : ∀ name', d'.entries name' = if name' = name then some file.inode else d.entries name'
  data : ∀ i, d'.data i = if i = file.inode then [] else d.data i
  unused : d.unused ≤ d'.unused
  inode : d.entries name = some file.inode ∨ file.inode = d.unused

theorem diskHandle_ok {c : DiskCmd N} {v : c.Value} (h : (diskHandle p c d).1 = .ok v) :
    (diskEffect p c d).1 = .ok v ∧
    (diskHandle p c d).2 = { (diskEffect p c d).2 with time := d.time + 1 } := by
  unfold diskHandle at h ⊢
  split at h
  · exact nomatch h
  · exact ⟨h, rfl⟩

theorem Disk.create_ok (d : Disk N) {regular : N → Bool} {name : N} {file : File}
    (h : (d.create regular name).1 = .ok file) :
    regular name = true ∧ d.Created (d.create regular name).2 name file := by
  unfold Disk.create at h ⊢
  split at h
  · next hregular =>
    rw [if_pos hregular]
    refine ⟨hregular, ?_⟩
    split at h
    · next i hi =>
      obtain rfl := Except.ok.inj h
      refine ⟨rfl, fun name' => ?_, fun _ => rfl, Nat.le_refl _, .inl hi⟩
      grind [Disk.put]
    · obtain rfl := Except.ok.inj h
      exact ⟨rfl, fun _ => rfl, fun _ => rfl, Nat.le_succ _, .inr rfl⟩
  · exact nomatch h

theorem create_ok {name : N} {file : File} (h : (diskHandle p (.create name) d).1 = .ok file) :
    p.regular name = true ∧ d.Created (diskHandle p (.create name) d).2 name file := by
  obtain ⟨hok, hpost⟩ := diskHandle_ok h
  obtain ⟨hregular, hcreated⟩ := d.create_ok hok
  rw [hpost]
  exact ⟨hregular, hcreated.offset, hcreated.entries, hcreated.data, hcreated.unused, hcreated.inode⟩

theorem write_ok {file file' : File} {bytes : List UInt8}
    (h : (diskHandle p (.write file bytes) d).1 = .ok file') :
    file' = { file with offset := file.offset + bytes.length } ∧
    (diskHandle p (.write file bytes) d).2.entries = d.entries ∧
    (diskHandle p (.write file bytes) d).2.unused = d.unused ∧
    ∀ i, (diskHandle p (.write file bytes) d).2.data i =
      if i = file.inode then splice (d.data file.inode) file.offset bytes else d.data i := by
  unfold diskHandle at h ⊢
  split at h
  · exact nomatch h
  · exact ⟨(Except.ok.inj h).symm, rfl, rfl, fun _ => rfl⟩

theorem Disk.rename_ok (d : Disk N) {source target : N} (h : (d.rename source target).1 = .ok ()) :
    ∃ i, d.entries source = some i ∧
      (∀ name, (d.rename source target).2.entries name =
        if name = target then some i else if name = source then none else d.entries name) ∧
      (d.rename source target).2.data = d.data ∧ (d.rename source target).2.unused = d.unused := by
  unfold Disk.rename at h ⊢
  split at h
  · next i hi => exact ⟨i, hi, fun _ => rfl, rfl, rfl⟩
  · exact nomatch h

theorem rename_ok {source target : N} (h : (diskHandle p (.rename source target) d).1 = .ok ()) :
    ∃ i, d.entries source = some i ∧
      (∀ name, (diskHandle p (.rename source target) d).2.entries name =
        if name = target then some i else if name = source then none else d.entries name) ∧
      (diskHandle p (.rename source target) d).2.data = d.data ∧
      (diskHandle p (.rename source target) d).2.unused = d.unused := by
  obtain ⟨hok, hpost⟩ := diskHandle_ok h
  obtain ⟨i, hi, hrenamed⟩ := d.rename_ok hok
  rw [hpost]
  exact ⟨i, hi, hrenamed⟩

theorem openRead_ok {name : N} {file : File} (h : (diskHandle p (.openRead name) d).1 = .ok file) :
    file.offset = 0 ∧ d.entries name = some file.inode := by
  unfold diskHandle diskEffect at h
  grind

theorem openRead_notFound {name : N} (h : (diskHandle p (.openRead name) d).1 = .error .notFound) :
    d.entries name = none := by
  unfold diskHandle diskEffect at h
  grind

theorem readToEnd_ok {file : File} {bytes : List UInt8}
    (h : (diskHandle p (.readToEnd file) d).1 = .ok bytes) :
    bytes = (d.data file.inode).drop file.offset := by
  unfold diskHandle diskEffect at h
  grind

end

end Storage
