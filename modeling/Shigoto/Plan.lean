import Mathlib.Data.List.Forall2
import Shigoto.Text.Json

/-!
# Plan ids

A plan id is the digest of a canonical JSON text of the plan's kind and changes. The text has `null` for
a state that is absent, and for one that is present and `null`. `deriveId_eq_iff`: up to that, plans with
one id are one plan.

The JSON writer and the hash function are not part of the repository: `toVec` and `blake3` stand for
them.
-/

namespace Shigoto

open Text

/-- Hex digits of the bytes. -/
def hexEncode (bytes : List UInt8) : String :=
  String.ofList (bytes.flatMap fun b => [(b.toNat / 16).digitChar, (b.toNat % 16).digitChar])

/-- A BLAKE3 hash. -/
abbrev Digest := { bytes : List UInt8 // bytes.length = 32 }

structure PlanId where
  text : String
  deriving DecidableEq, Repr

/-- The id of canonical bytes. -/
def PlanId.of (blake3 : List UInt8 → Digest) (bytes : List UInt8) : PlanId :=
  ⟨hexEncode (blake3 bytes).1⟩

/-- What kind of operation a change is. -/
inductive Action
  | create
  | update
  | delete
  | replace
  | noOp
  deriving DecidableEq, Repr

def Action.text : Action → String
  | .create => "create"
  | .update => "update"
  | .delete => "delete"
  | .replace => "replace"
  | .noOp => "no_op"

inductive ChangeSeverity
  | cosmetic
  | functional
  | critical
  deriving DecidableEq, Repr

def ChangeSeverity.text : ChangeSeverity → String
  | .cosmetic => "cosmetic"
  | .functional => "functional"
  | .critical => "critical"

/-- One change of a resource; `before` and `after` are its states, if it has one. -/
structure Change (ν : Type) where
  address : String
  action : Action
  severity : ChangeSeverity
  before : Option (Value ν)
  after : Option (Value ν)

variable {ν : Type}

/-- `None` is written as `null`. -/
def optionJson (state : Option (Value ν)) : Value ν := state.getD .null

/-- One entry of the canonical projection. -/
def Change.project (c : Change ν) : Value ν :=
  .object [("address", .string c.address), ("action", .string c.action.text),
    ("severity", .string c.severity.text), ("before", optionJson c.before),
    ("after", optionJson c.after)]

/-- What is hashed of a plan; the time it was computed is not. -/
def canonical (kind : String) (changes : List (Change ν)) : Value ν :=
  .object [("kind", .string kind), ("changes", .array (changes.map Change.project))]

def deriveId (toVec : Value ν → Option (List UInt8)) (blake3 : List UInt8 → Digest) (kind : String)
    (changes : List (Change ν)) : PlanId :=
  .of blake3 ((toVec (canonical kind changes)).getD [])

/-! ## What the projection keeps -/

/-- Two changes agree, where no state and the state `null` are the same. -/
structure Change.Agrees (c c' : Change ν) : Prop where
  address : c.address = c'.address
  action : c.action = c'.action
  severity : c.severity = c'.severity
  before : optionJson c.before = optionJson c'.before
  after : optionJson c.after = optionJson c'.after

theorem Action.text_injective : Function.Injective Action.text := by
  intro a b heq
  cases a <;> cases b <;> first | rfl | exact absurd heq (by decide +kernel)

theorem ChangeSeverity.text_injective : Function.Injective ChangeSeverity.text := by
  intro a b heq
  cases a <;> cases b <;> first | rfl | exact absurd heq (by decide +kernel)

theorem hexEncode_injective : Function.Injective hexEncode := by
  have hdigit : ∀ m < 16, ∀ n < 16, m.digitChar = n.digitChar → m = n := by decide
  intro xs ys heq
  have hchars := String.ofList_injective heq
  clear heq
  induction xs generalizing ys with
  | nil =>
    cases ys with
    | nil => rfl
    | cons y ys => exact nomatch hchars
  | cons x xs ih =>
    cases ys with
    | nil => exact nomatch hchars
    | cons y ys =>
      have hx := x.toNat_lt
      have hy := y.toNat_lt
      simp only [List.flatMap_cons, List.cons_append, List.nil_append, List.cons.injEq] at hchars
      have hhigh := hdigit _ (by omega) _ (by omega) hchars.1
      have hlow := hdigit _ (by omega) _ (by omega) hchars.2.1
      rw [ih hchars.2.2, UInt8.toNat_inj.mp (show x.toNat = y.toNat by omega)]

/-- Five keys, inserted in the order in which `project` gives them. -/
theorem ofFields_five {k₁ k₂ k₃ k₄ k₅ : String} (h₁ : k₁ < k₂) (h₂ : k₂ < k₃) (h₃ : k₃ < k₄)
    (h₄ : k₄ < k₅) (v₁ v₂ v₃ v₄ v₅ : Value ν) :
    Json.ofFields [(k₂, v₂), (k₁, v₁), (k₅, v₅), (k₄, v₄), (k₃, v₃)] =
      .field k₁ v₁.1 (.field k₂ v₂.1 (.field k₃ v₃.1 (.field k₄ v₄.1 (.field k₅ v₅.1 .done)))) := by
  have h₁₃ := h₁.trans h₂
  have h₁₄ := h₁₃.trans h₃
  have h₂₄ := h₂.trans h₃
  simp only [Json.ofFields, List.foldl, Json.insert_done, Json.insert_of_lt h₁,
    Json.insert_of_gt (h₁₄.trans h₄), Json.insert_of_gt (h₂₄.trans h₄), Json.insert_of_gt h₁₄,
    Json.insert_of_gt h₂₄, Json.insert_of_lt h₄, Json.insert_of_gt h₁₃, Json.insert_of_gt h₂,
    Json.insert_of_lt h₃]

theorem ofFields_two {k₁ k₂ : String} (h : k₁ < k₂) (v₁ v₂ : Value ν) :
    Json.ofFields [(k₂, v₂), (k₁, v₁)] = .field k₁ v₁.1 (.field k₂ v₂.1 .done) :=
  Json.insert_of_lt h _ _ _

/-- The fields of an entry, in the order in which the map keeps them. -/
theorem project_eq (c : Change ν) : c.project.1 =
    .object (.field "action" (.string c.action.text) (.field "address" (.string c.address)
      (.field "after" (optionJson c.after).1 (.field "before" (optionJson c.before).1
        (.field "severity" (.string c.severity.text) .done))))) :=
  congrArg Json.object (ofFields_five (by decide +kernel) (by decide +kernel) (by decide +kernel)
    (by decide +kernel) (.string c.action.text) (.string c.address) (optionJson c.after)
    (optionJson c.before) (.string c.severity.text))

theorem canonical_eq (kind : String) (changes : List (Change ν)) : (canonical kind changes).1 =
    .object (.field "changes" (Value.array (changes.map Change.project)).1
      (.field "kind" (.string kind) .done)) :=
  congrArg Json.object (ofFields_two (by decide +kernel) (.array (changes.map Change.project))
    (.string kind))

theorem project_eq_iff {c c' : Change ν} : c.project = c'.project ↔ c.Agrees c' := by
  rw [Value.eq_iff, project_eq, project_eq]
  simp only [Json.object.injEq, Json.field.injEq, Json.string.injEq, true_and, and_true]
  constructor
  · rintro ⟨haction, haddress, hafter, hbefore, hseverity⟩
    exact ⟨haddress, Action.text_injective haction, ChangeSeverity.text_injective hseverity,
      Subtype.ext hbefore, Subtype.ext hafter⟩
  · intro h
    exact ⟨congrArg Action.text h.action, h.address, congrArg Subtype.val h.after,
      congrArg Subtype.val h.before, congrArg ChangeSeverity.text h.severity⟩

/-- **The projection keeps all but the difference between no state and `null`.** -/
theorem canonical_eq_iff {kind kind' : String} {changes changes' : List (Change ν)} :
    canonical kind changes = canonical kind' changes' ↔
      kind = kind' ∧ List.Forall₂ Change.Agrees changes changes' := by
  have hentries : changes.map Change.project = changes'.map Change.project ↔
      List.Forall₂ Change.Agrees changes changes' := by
    rw [← List.forall₂_eq_eq_eq, List.forall₂_map_left_iff, List.forall₂_map_right_iff]
    simp only [project_eq_iff]
  rw [Value.eq_iff, canonical_eq, canonical_eq, ← hentries]
  simp only [Json.object.injEq, Json.field.injEq, Json.string.injEq, true_and, and_true]
  rw [← Value.eq_iff, Value.array_injective.eq_iff, and_comm]

/-! ## Ids -/

section

variable {toVec : Value ν → Option (List UInt8)} {blake3 : List UInt8 → Digest} {kind kind' : String}
  {changes changes' : List (Change ν)}

/-- The texts of the two plans have different hashes, if they differ. -/
def NoCollision (toVec : Value ν → Option (List UInt8)) (blake3 : List UInt8 → Digest)
    (v v' : Value ν) : Prop :=
  ∀ b b', toVec v = some b → toVec v' = some b' → blake3 b = blake3 b' → b = b'

/-- **A plan id tells the kind and the changes**, but for the difference between no state and `null`. -/
theorem deriveId_eq_iff (htotal : ∀ v, (toVec v).isSome = true) (hinjective : Function.Injective toVec)
    (hcollision : NoCollision toVec blake3 (canonical kind changes) (canonical kind' changes')) :
    deriveId toVec blake3 kind changes = deriveId toVec blake3 kind' changes' ↔
      kind = kind' ∧ List.Forall₂ Change.Agrees changes changes' := by
  rw [← canonical_eq_iff]
  constructor
  · intro heq
    obtain ⟨b, hb⟩ := Option.isSome_iff_exists.mp (htotal (canonical kind changes))
    obtain ⟨b', hb'⟩ := Option.isSome_iff_exists.mp (htotal (canonical kind' changes'))
    have hdigest : blake3 b = blake3 b' := by
      have htext := hexEncode_injective (congrArg PlanId.text heq)
      rw [hb, hb'] at htext
      exact Subtype.ext htext
    refine hinjective ?_
    rw [hb, hb', hcollision b b' hb hb' hdigest]
  · intro heq
    rw [deriveId, deriveId, heq]

end

/-- A change that creates an empty object. -/
def createEmpty : Change Nat := ⟨"a", .create, .functional, none, some (.object [])⟩

/-- The hashes of the texts below. -/
def recordedBlake3 (bytes : List UInt8) : Digest :=
  if bytes = textBytes ("\x7b\x22changes\x22:[\x7b\x22action\x22:\x22create\x22,\x22address\x22:\x22a\x22,\x22after\x22:\x7b\x7d," ++
      "\x22before\x22:null,\x22severity\x22:\x22functional\x22\x7d],\x22kind\x22:\x22terraform\x22\x7d") then
    ⟨[0, 135, 57, 198, 70, 198, 93, 97, 162, 5, 128, 193, 207, 132, 157, 227,
     166, 198, 42, 4, 126, 21, 11, 4, 64, 58, 249, 79, 190, 108, 23, 118], rfl⟩
  else
    ⟨[95, 9, 169, 221, 195, 170, 65, 171, 49, 189, 201, 96, 122, 137, 106, 188,
     143, 14, 207, 168, 109, 71, 56, 58, 84, 40, 164, 222, 129, 67, 141, 103], rfl⟩

/-- Plans of different kinds. -/
theorem deriveId_kinds : deriveId (fun v => some (toVec decimal v)) recordedBlake3 "terraform" [createEmpty] ≠
    deriveId (fun v => some (toVec decimal v)) recordedBlake3 "github" [createEmpty] := by
  have hcollision : NoCollision (fun v => some (toVec decimal v)) recordedBlake3
      (canonical "terraform" [createEmpty]) (canonical "github" [createEmpty]) := by
    intro b b' hb hb' hsame
    rw [← Option.some.inj hb, ← Option.some.inj hb'] at hsame
    exact absurd hsame (by decide +kernel)
  intro heq
  have hkinds := ((deriveId_eq_iff (fun _ => rfl)
    (fun v w h => toVec_injective decimal (Option.some.inj h)) hcollision).mp heq).1
  exact absurd hkinds (by decide)

/-- A deletion that leaves `null` behind, and one that leaves nothing. -/
theorem null_state_collides :
    let left : Change Nat := ⟨"a", .delete, .critical, none, some .null⟩
    let gone : Change Nat := ⟨"a", .delete, .critical, none, none⟩
    left ≠ gone ∧ ∀ toVec blake3, deriveId toVec blake3 "k" [left] = deriveId toVec blake3 "k" [gone] := by
  intro left gone
  refine ⟨fun heq => ?_, fun _ _ => rfl⟩
  exact nomatch congrArg Change.after heq

end Shigoto
