import Mathlib.Data.List.Infix
import Shigoto.Retry
import Shigoto.Text.Lines

/-!
# Failures

`classify` looks for one of a list of phrases in a raw error, `signature` takes its first informative
line, and a `Failure` holds both together with the start of the error.

A consumer wraps a failure into an error of its own, with the kind and the message in it.
`classify_wrapped`: the wrapper is classified as the failure was.
-/

namespace Shigoto

open Text

/-- `Display`. -/
def FailureKind.display : FailureKind → String
  | .transient => "Transient"
  | .declarative => "Declarative"

/-- The phrases of a broken declaration. -/
def declarativePatterns : List String :=
  [
   -- flake attributes and evaluation
   "does not provide attribute", "does not exist", "evaluating the attribute",
   "infinite recursion encountered", "syntax error", "attribute set is missing the attribute",
   "value is null while a set was expected", "value is a function while a set was expected",
   "is not allowed to refer to a store path", "cannot coerce", "while evaluating definitions from",
   -- module assertions and options
   "in the condition of the assert statement", "assertion failed", "The option `",
   "is missing the attribute `",
   -- secrets
   "missing secret", "could not decrypt",
   -- builds
   "could not find Cargo.toml",
   -- schemas
   "schema validation failed", "unknown attribute", "field required",
   -- what a wrapper writes
   "preflight failed (Declarative)", "[Declarative]",
   -- virtual machines
   "Invalid virtual machine configuration", "storage device attachment is invalid"]

/-- Conservative: what carries none of the phrases is transient. -/
def classify (raw : String) : FailureKind :=
  if declarativePatterns.any fun pat => decide (pat.toList <:+: raw.toList) then .declarative
  else .transient

/-- The first `max` characters, with an ellipsis where that is not all. -/
def truncate (s : List Char) (max : Nat) : List Char :=
  if s.length ≤ max then s else s.take max ++ ['…']

/-! ## Signatures -/

def severityPrefixes : List (List Char) :=
  ["error: ".toList, "warning: ".toList, "error:".toList, "warning:".toList]

/-- The text without the first of the prefixes it starts with. -/
def stripSeverity (raw : List Char) : List Char :=
  (severityPrefixes.findSome? fun pat => stripPrefix pat raw).getD raw

/-- Not empty, and more than a bare marker. -/
def informative (line : List Char) : Bool :=
  !line.isEmpty && line ≠ "error:".toList && line ≠ "warning:".toList

/-- The first informative line, trimmed; nothing if there is none. -/
def content (s : List Char) : List Char := (((lines s).map trim).find? informative).getD []

def signatureChars (raw : List Char) : List Char := truncate (trim (content (stripSeverity raw))) 80

/-- What two failures in a row are compared by. -/
def signature (raw : String) : String := String.ofList (signatureChars raw.toList)

/-- The classified and summarized error. -/
structure Failure where
  kind : FailureKind
  message : String
  signature : String
  deriving DecidableEq, Repr

def Failure.fromRaw (raw : String) : Failure where
  kind := classify raw
  message := String.ofList (truncate raw.toList 256)
  signature := Shigoto.signature raw

/-! ## Wrapping -/

/-- `preflight failed ({kind}): {message}`. -/
def Failure.wrapped (f : Failure) : String :=
  "preflight failed (" ++ f.kind.display ++ "): " ++ f.message

theorem classify_eq_declarative {raw : String} : classify raw = .declarative ↔
    ∃ pat ∈ declarativePatterns, pat.toList <:+: raw.toList := by
  unfold classify
  grind

theorem classify_eq_transient {raw : String} : classify raw = .transient ↔
    ∀ pat ∈ declarativePatterns, ¬ pat.toList <:+: raw.toList := by
  unfold classify
  grind

/-- What has no ellipsis is found in a truncated text only if it is in the whole. -/
theorem infix_of_truncate {pat s : List Char} {max : Nat} (hdots : '…' ∉ pat)
    (h : pat <:+: truncate s max) : pat <:+: s := by
  have hlast : ∀ l : List Char, l <+: ['…'] → l ≠ [] → '…' ∈ l := by
    intro l hl hne
    cases l with
    | nil => exact absurd rfl hne
    | cons c l => exact (List.cons_prefix_cons.mp hl).1 ▸ List.mem_cons_self
  unfold truncate at h
  split at h
  · exact h
  · refine List.IsInfix.trans ?_ (List.take_prefix max s).isInfix
    obtain hfront | hend | ⟨l₁, l₂, -, hne, rfl, -, hl₂⟩ := List.infix_append_iff_ne_nil.mp h
    · exact hfront
    · cases pat with
      | nil => exact List.nil_infix
      | cons c pat => exact absurd (hend.subset List.mem_cons_self) (by grind)
    · exact absurd (List.mem_append_right l₁ (hlast l₂ hl₂ hne)) hdots

theorem toList_wrapped {f : Failure} {kind : FailureKind} (h : f.kind = kind) : f.wrapped.toList =
    "preflight failed (".toList ++ kind.display.toList ++ "): ".toList ++ f.message.toList := by
  have happend : ∀ a b c d : String,
      (a ++ b ++ c ++ d).toList = a.toList ++ b.toList ++ c.toList ++ d.toList := fun a b c d => by
    rw [String.toList_append, String.toList_append, String.toList_append]
  exact h ▸ happend _ _ _ _

/-- What a transient failure is wrapped in. -/
def transientWrapper : List Char :=
  "preflight failed (".toList ++ FailureKind.transient.display.toList ++ "): ".toList

/-- No phrase is in the wrapper's own text, starts at its end, or has an ellipsis. -/
theorem patterns_apart : ∀ pat ∈ declarativePatterns, '…' ∉ pat.toList ∧
    ¬ pat.toList <:+: transientWrapper ∧
    ∀ l ∈ transientWrapper.tails, l ≠ [] → ¬ l <+: pat.toList := by
  decide +kernel

/-- The marker of a declarative failure is one of the phrases. -/
theorem marker_mem : "preflight failed (Declarative)" ∈ declarativePatterns := by
  decide +kernel

theorem marker_in_wrapper : "preflight failed (Declarative)".toList <+:
    "preflight failed (".toList ++ FailureKind.declarative.display.toList ++ "): ".toList := by
  decide +kernel

/-- **A wrapper says nothing new.** -/
theorem classify_wrapped (raw : String) :
    classify (Failure.fromRaw raw).wrapped = (Failure.fromRaw raw).kind := by
  cases hkind : (Failure.fromRaw raw).kind with
  | declarative =>
    have hmarker : "preflight failed (Declarative)".toList <+: (Failure.fromRaw raw).wrapped.toList := by
      rw [toList_wrapped hkind]
      exact marker_in_wrapper.trans (List.prefix_append _ _)
    exact classify_eq_declarative.mpr ⟨_, marker_mem, hmarker.isInfix⟩
  | transient =>
    refine classify_eq_transient.mpr fun pat hpat hinfix => ?_
    obtain ⟨hdots, hwrapper, hseam⟩ := patterns_apart pat hpat
    rw [toList_wrapped hkind] at hinfix
    obtain hfront | hmessage | ⟨l₁, l₂, hne, -, heq, hl₁, -⟩ := List.infix_append_iff_ne_nil.mp hinfix
    · exact hwrapper hfront
    · have hraw : pat.toList <:+: raw.toList := by
        have hshort : pat.toList <:+: truncate raw.toList 256 := by
          rw [← String.toList_ofList (l := truncate raw.toList 256)]
          exact hmessage
        exact infix_of_truncate hdots hshort
      exact classify_eq_transient.mp hkind pat hpat hraw
    · exact hseam l₁ ((List.mem_tails _ _).mpr hl₁) hne ⟨l₂, heq.symm⟩

/-- An error that ends in a phrase. -/
theorem kind_append (front : List Char) {pat : String} (hpat : pat ∈ declarativePatterns) :
    (Failure.fromRaw (String.ofList (front ++ pat.toList))).kind = .declarative := by
  refine classify_eq_declarative.mpr ⟨pat, hpat, ?_⟩
  rw [String.toList_ofList]
  exact (List.suffix_append front pat.toList).isInfix

theorem message_ofList (raw : List Char) :
    (Failure.fromRaw (String.ofList raw)).message.toList = truncate raw 256 := by
  rw [Failure.fromRaw, String.toList_ofList, String.toList_ofList]

/-- The message cuts off what stands behind character 256, and it still decides. -/
theorem classify_wrapped_cut :
    let f := Failure.fromRaw (String.ofList (List.replicate 256 '-' ++ "[Declarative]".toList))
    ¬ "[Declarative]".toList <:+: f.message.toList ∧ classify f.wrapped = .declarative := by
  have hmem : "[Declarative]" ∈ declarativePatterns := by decide +kernel
  refine ⟨?_, (classify_wrapped _).trans (kind_append (List.replicate 256 '-') hmem)⟩
  rw [message_ofList]
  decide +kernel

end Shigoto
