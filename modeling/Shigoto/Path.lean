import Mathlib.Data.List.TakeWhile
import Shigoto.Text.Utf8

/-!
# Paths

A `PathBuf` is a byte string. The source compares and hashes paths by their components, which ignore a
repeated or trailing separator and a "." that does not come first. So a path has two sides: what it is
(`Components`, one spelling for all equal paths) and how it is spelled (`PathBuf`), which only shows where the
path is printed.

`fileName`, `parent` and `withExtension` take a path apart by its last component. A new extension always
gives a new path (`Components.withExtension_ne`), as long as the path names anything.
-/

namespace Shigoto

open Text

/-- The separator. -/
def slash : UInt8 := 0x2F

/-- `.` -/
def dot : UInt8 := 0x2E

/-- The parts between the separators. A path that starts with a separator has an empty first part. -/
def pathParts (bytes : List UInt8) : List (List UInt8) := bytes.splitOn slash

/-- Spelled by its components: no part after the first is empty or ".", but for the root itself. -/
def IsNormal (bytes : List UInt8) : Bool :=
  bytes = [slash] || (pathParts bytes).tail.all fun part => part ≠ [] && part ≠ [dot]

/-- What `==` and `Hash` see of a path: the bytes that its components give. -/
structure Components where
  bytes : List UInt8
  normal : IsNormal bytes = true
  deriving DecidableEq, Repr

theorem Components.ext {path path' : Components} (h : path.bytes = path'.bytes) : path = path' := by
  cases path
  cases path'
  exact (Components.mk.injEq ..).mpr h

/-! ## The last component -/

theorem not_mem_pathParts {bytes part : List UInt8} (h : part ∈ pathParts bytes) : slash ∉ part := by
  unfold pathParts at h
  induction bytes generalizing part with
  | nil =>
    obtain rfl : part = [] := by simpa using h
    exact List.not_mem_nil
  | cons b bytes ih =>
    rw [List.splitOn_cons_eq_if_modifyHead] at h
    split at h
    · rcases List.mem_cons.mp h with rfl | h
      · exact List.not_mem_nil
      · exact ih h
    · next hb =>
      obtain ⟨first, rest, hparts⟩ := List.exists_cons_of_ne_nil (List.splitOn_ne_nil slash bytes)
      rw [hparts] at h ih
      rcases List.mem_cons.mp h with rfl | h
      · have hne : slash ≠ b := fun heq => hb (by simp [heq])
        exact fun hmem => (List.mem_cons.mp hmem).elim hne (ih List.mem_cons_self)
      · exact ih (List.mem_cons_of_mem first h)

/-- No part but the first is empty or ".". -/
def NormalParts (parts : List (List UInt8)) : Prop := ∀ part ∈ parts.tail, part ≠ [] ∧ part ≠ [dot]

/-- The path with the given components. -/
def Components.ofParts (parts : List (List UInt8)) (hslash : ∀ part ∈ parts, slash ∉ part)
    (hne : parts ≠ []) (hnormal : NormalParts parts) : Components where
  bytes := [slash].intercalate parts
  normal := by
    rw [IsNormal, pathParts, List.splitOn_intercalate slash hslash hne, Bool.or_eq_true]
    refine .inr (List.all_eq_true.mpr fun part hpart => ?_)
    simpa using hnormal part hpart

theorem Components.pathParts_ofParts (parts : List (List UInt8)) (hslash : ∀ part ∈ parts, slash ∉ part)
    (hne : parts ≠ []) (hnormal : NormalParts parts) :
    pathParts (ofParts parts hslash hne hnormal).bytes = parts :=
  List.splitOn_intercalate slash hslash hne

/-- `Path::file_name`: the last component, if it is a name. -/
def Components.fileName (path : Components) : Option (List UInt8) :=
  (pathParts path.bytes).getLast?.filter fun part => part ∉ [[], [dot], [dot, dot]]

/-- `Path::file_stem` of a name: what comes before its last dot, unless that dot comes first. -/
def fileStem (name : List UInt8) : List UInt8 :=
  match name.reverse.dropWhile (· ≠ dot) with
  | [] | [_] => name
  | _ :: before => before.reverse

theorem fileStem_cases (name : List UInt8) : fileStem name = name ∨
    ∃ ext, dot ∉ ext ∧ name = fileStem name ++ dot :: ext := by
  unfold fileStem
  split
  · exact .inl rfl
  · exact .inl rfl
  · next d before hne hdrop =>
    right
    have hsplit := List.takeWhile_append_dropWhile (p := fun b => b ≠ dot) (l := name.reverse)
    have hd : d = dot := by
      have hhead := List.head?_dropWhile_not (fun b => b ≠ dot) name.reverse
      rw [hdrop] at hhead
      simpa using hhead
    subst hd
    refine ⟨(name.reverse.takeWhile (· ≠ dot)).reverse, fun hmem => ?_, ?_⟩
    · simpa using List.mem_takeWhile_imp (List.mem_reverse.mp hmem)
    · rw [hdrop] at hsplit
      have hreverse := congrArg List.reverse hsplit
      simpa using hreverse.symm

theorem not_mem_fileStem {name : List UInt8} {b : UInt8} (h : b ∉ name) : b ∉ fileStem name := by
  rcases fileStem_cases name with hstem | ⟨ext, -, hname⟩
  · rwa [hstem]
  · rw [hname] at h
    exact fun hmem => h (List.mem_append_left _ hmem)

/-- A name with a new extension is a new name. -/
theorem fileStem_append_ne (name ext : List UInt8) (h : dot ∈ ext) :
    fileStem name ++ dot :: ext ≠ name := by
  intro heq
  rcases fileStem_cases name with hstem | ⟨ext', hnot, hname⟩
  · rw [hstem] at heq
    simpa using congrArg List.length heq
  · have hrest := List.append_cancel_left (heq.trans hname)
    obtain rfl := (List.cons.inj hrest).2
    exact hnot h

theorem Components.fileName_eq_some {path : Components} {name : List UInt8} (h : path.fileName = some name) :
    ∃ parts, pathParts path.bytes = parts ++ [name] ∧ name ∉ [[], [dot], [dot, dot]] := by
  obtain ⟨hlast, hname⟩ := Option.filter_eq_some_iff.mp h
  obtain ⟨parts, hparts⟩ := List.getLast?_eq_some_iff.mp hlast
  exact ⟨parts, hparts, of_decide_eq_true hname⟩

/-- A path with a name is spelled by its components; the root has none. -/
theorem Components.normalParts {path : Components} {name : List UInt8} (h : path.fileName = some name) :
    NormalParts (pathParts path.bytes) := by
  have hnormal := path.normal
  rw [IsNormal, Bool.or_eq_true] at hnormal
  rcases hnormal with hroot | hall
  · -- the root ends in an empty component, which is no name
    obtain ⟨parts, hparts, hname⟩ := fileName_eq_some h
    rw [of_decide_eq_true hroot, show pathParts [slash] = [[]] ++ [[]] from by decide] at hparts
    obtain ⟨-, hempty⟩ := List.append_inj' hparts rfl
    exact absurd (by simp [← List.cons.inj hempty]) hname
  · intro part hpart
    simpa using List.all_eq_true.mp hall part hpart

/-- The components but the last, and another last one in its place. -/
theorem Components.normalParts_concat {path : Components} {name : List UInt8} (h : path.fileName = some name)
    {last : List UInt8} (hlast : last ≠ [] ∧ last ≠ [dot]) :
    NormalParts ((pathParts path.bytes).dropLast ++ [last]) := by
  obtain ⟨parts, hparts, -⟩ := fileName_eq_some h
  have hnormal := normalParts h
  rw [hparts] at hnormal ⊢
  rw [List.dropLast_concat]
  intro part hpart
  cases parts with
  | nil => simp at hpart
  | cons first rest =>
    rcases List.mem_append.mp hpart with hrest | hnew
    · exact hnormal part (List.mem_append_left _ hrest)
    · rw [List.mem_singleton.mp hnew]
      exact hlast

/-- `Path::with_extension`, for an extension that is not empty. -/
def Components.withExtension (path : Components) (ext : List UInt8) (hslash : slash ∉ ext) (hne : ext ≠ []) :
    Components :=
  match h : path.fileName with
  | none => path
  | some name =>
    .ofParts ((pathParts path.bytes).dropLast ++ [fileStem name ++ dot :: ext])
      (by
        obtain ⟨parts, hparts, -⟩ := fileName_eq_some h
        have hname : slash ∉ name := not_mem_pathParts (hparts ▸ List.mem_append_right _ (by simp))
        intro part hpart
        rcases List.mem_append.mp hpart with hold | hnew
        · exact not_mem_pathParts ((List.dropLast_sublist _).mem hold)
        · rw [List.mem_singleton.mp hnew]
          simpa [not_mem_fileStem hname, hslash] using (by decide : slash ≠ dot))
      (by simp)
      (normalParts_concat h (by
        obtain ⟨b, ext, rfl⟩ := List.exists_cons_of_ne_nil hne
        constructor
        · simp
        · intro heq
          have hlength := congrArg List.length heq
          simp only [List.length_append, List.length_cons, List.length_nil] at hlength
          omega))

theorem Components.pathParts_withExtension {path : Components} {ext name : List UInt8}
    (h : path.fileName = some name) (hslash : slash ∉ ext) (hne : ext ≠ []) :
    pathParts (path.withExtension ext hslash hne).bytes =
      (pathParts path.bytes).dropLast ++ [fileStem name ++ dot :: ext] := by
  unfold withExtension
  split
  · next hnone => simp [hnone] at h
  · next name' h' =>
    obtain rfl := Option.some.inj (h.symm.trans h')
    exact pathParts_ofParts ..

/-- **A new extension gives a new path**, where the path has a name at all. -/
theorem Components.withExtension_ne {path : Components} {ext : List UInt8} {hslash : slash ∉ ext}
    {hne : ext ≠ []} (hdot : dot ∈ ext)
    (hname : (path.withExtension ext hslash hne).fileName.isSome = true) :
    path.withExtension ext hslash hne ≠ path := by
  intro heq
  rw [heq] at hname
  obtain ⟨name, h⟩ := Option.isSome_iff_exists.mp hname
  obtain ⟨parts, hparts, -⟩ := fileName_eq_some h
  have hsame := pathParts_withExtension h hslash hne
  rw [heq, hparts, List.dropLast_concat] at hsame
  have hlast := (List.append_inj' hsame rfl).2
  exact fileStem_append_ne name ext hdot (List.cons.inj hlast).1.symm

/-- `Path::parent`: the path without its last component; the root and the empty path have none. -/
def Components.parent (path : Components) : Option Components :=
  let parts := (pathParts path.bytes).dropLast
  if hroot : path.bytes = [] ∨ path.bytes = [slash] then none
  else if hempty : parts = [] then some ⟨[], by decide⟩
  else if parts = [[]] then some ⟨[slash], by decide⟩
  else
    some (.ofParts parts (fun _ hpart => not_mem_pathParts ((List.dropLast_sublist _).mem hpart)) hempty
      fun part hpart => by
        have hall := (Bool.or_eq_true ..).mp path.normal |>.resolve_left (by simpa using fun h => hroot (.inr h))
        have hsub := (List.dropLast_sublist (pathParts path.bytes)).tail
        simpa using List.all_eq_true.mp hall part (hsub.mem hpart))

/-- The parents of a relative path, of a name and of a name in the root. -/
example : [[0x61, slash, 0x62], [0x61], [slash, 0x61]].map (fun bytes =>
    if h : IsNormal bytes = true then (Components.mk bytes h).parent.map Components.bytes else none) =
      [some [0x61], some [], some [slash]] := by decide +kernel

/-! ## Spelled paths -/

/-- The parts that components keep: the first one, and those that name something. -/
def keptParts : List (List UInt8) → List (List UInt8)
  | [] => []
  | first :: rest => first :: rest.filter fun part => part ≠ [] && part ≠ [dot]

theorem normalParts_keptParts (parts : List (List UInt8)) : NormalParts (keptParts parts) := by
  intro part hpart
  cases parts with
  | nil => cases hpart
  | cons first rest => simpa using (List.mem_filter.mp hpart).2

theorem mem_of_mem_keptParts {parts : List (List UInt8)} {part : List UInt8}
    (h : part ∈ keptParts parts) : part ∈ parts := by
  cases parts with
  | nil => exact h
  | cons first rest =>
    rcases List.mem_cons.mp h with rfl | h
    · exact List.mem_cons_self
    · exact List.mem_cons_of_mem first (List.mem_filter.mp h).1

theorem keptParts_ne_nil {parts : List (List UInt8)} (h : parts ≠ []) : keptParts parts ≠ [] := by
  cases parts with
  | nil => exact absurd rfl h
  | cons first rest => exact List.cons_ne_nil _ _

/-- `Components::from`. The root is all that is left of separators alone. -/
def Components.ofBytes (bytes : List UInt8) : Components :=
  if bytes ≠ [] ∧ keptParts (pathParts bytes) = [[]] then ⟨[slash], by decide⟩
  else
    .ofParts (keptParts (pathParts bytes)) (fun _ hpart => not_mem_pathParts (mem_of_mem_keptParts hpart))
      (keptParts_ne_nil (List.splitOn_ne_nil slash bytes)) (normalParts_keptParts _)

/-- Components are spelled by their bytes. -/
@[simp] theorem Components.ofBytes_bytes (path : Components) : ofBytes path.bytes = path := by
  apply Components.ext
  unfold ofBytes
  by_cases hroot : path.bytes = [slash]
  · rw [hroot, if_pos (by decide)]
  · have hall := (Bool.or_eq_true ..).mp path.normal |>.resolve_left (by simpa using hroot)
    have hkept : keptParts (pathParts path.bytes) = pathParts path.bytes := by
      cases hparts : pathParts path.bytes with
      | nil => rfl
      | cons first rest =>
        rw [hparts, List.tail_cons] at hall
        rw [keptParts, List.filter_eq_self.mpr (List.all_eq_true.mp hall)]
    have hspelled : [slash].intercalate (keptParts (pathParts path.bytes)) = path.bytes :=
      hkept.symm ▸ List.intercalate_splitOn slash
    split
    · next hempty =>
      rw [hempty.2] at hspelled
      exact absurd hspelled.symm hempty.1
    · exact hspelled

/-- A path as it is spelled. -/
structure PathBuf where
  bytes : List UInt8
  deriving DecidableEq, Repr

def PathBuf.components (path : PathBuf) : Components := .ofBytes path.bytes

/-- `Path::display`: a replacement character for each part that is no text. -/
def PathBuf.display (path : PathBuf) : String := lossy path.bytes

/-- The spelling that the components give. -/
def Components.plain (path : Components) : PathBuf := ⟨path.bytes⟩

@[simp] theorem Components.components_plain (path : Components) : path.plain.components = path :=
  ofBytes_bytes path

/-- Two spellings of one path. -/
example : (PathBuf.mk (textBytes "z//a/.")).components = (PathBuf.mk (textBytes "z/a")).components := by
  decide +kernel

end Shigoto
