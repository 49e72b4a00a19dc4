import Shigoto.Signature

/-!
# Signatures and store hashes

Nothing in `signature` looks for store paths: a hash is left out of a signature only where it does not
reach the first informative line, or lies beyond the cut (`digestBlind_iff`).
-/

namespace Shigoto

open Text

variable {s t u v : List Char} {c : Char}

/-- The digits of a store hash: no `e`, `o`, `t` or `u`. -/
def hashDigits : List Char := "0123456789abcdfghijklmnpqrsvwxyz".toList

structure StoreHash where
  digits : List Char
  length : digits.length = 32
  mem : ∀ c ∈ digits, c ∈ hashDigits

def storeDir : List Char := "/nix/store/".toList

/-- `/nix/store/<hash>-`, and what follows. -/
def storePath (hash : StoreHash) (rest : List Char) : List Char :=
  storeDir ++ (hash.digits ++ '-' :: rest)

/-- Texts that differ in store hashes only. -/
inductive DigestTwins : List Char → List Char → Prop
  | nil : DigestTwins [] []
  | char {l l' : List Char} (d : Char) (h : DigestTwins l l') : DigestTwins (d :: l) (d :: l')
  | path {l l' : List Char} (hash hash' : StoreHash) (h : DigestTwins l l') :
      DigestTwins (storePath hash l) (storePath hash' l')

/-- Up to the last line break. -/
def above (s : List Char) : List Char := s.rdropWhile (· ≠ '\n')

/-- What is behind the last line break. -/
def lastLine (s : List Char) : List Char := s.rtakeWhile (· ≠ '\n')

/-- Some line has content. -/
def HasContent (s : List Char) : Prop := ∃ line ∈ lines s, informative (trim line) = true

/-- What comes before a hash on its line. -/
def beforeHash (pre : List Char) : List Char := trimStart (lastLine (stripSeverity pre)) ++ storeDir

/-- A hash behind this text and `/nix/store/` is out of sight: a line above has content already, or at
least 80 characters of its own line come before it. -/
def HashHidden (pre : List Char) : Prop :=
  HasContent (above (stripSeverity pre)) ∨ 80 ≤ (beforeHash pre).length

/-- What a signature that ignores store hashes is to do. -/
structure DigestBlind (raw : String) : Prop where
  occurrence : ∀ pre hash hash' rest, raw.toList = pre ++ storePath hash rest →
    signature (String.ofList (pre ++ storePath hash' rest)) = signature raw
  twins : ∀ raw' : String, DigestTwins raw.toList raw'.toList → signature raw' = signature raw

/-! ## The line of the path -/

theorem stripSeverity_append (s t : List Char) :
    stripSeverity (s ++ '/' :: t) = stripSeverity s ++ '/' :: t := by
  have hstrip : ∀ pat ∈ severityPrefixes,
      stripPrefix pat (s ++ '/' :: t) = (stripPrefix pat s).map (· ++ '/' :: t) := fun pat hpat => by
    have hslash : ∀ pat ∈ severityPrefixes, '/' ∉ pat := by decide +kernel
    exact stripPrefix_append_cons (hslash pat hpat) s t
  unfold stripSeverity
  generalize severityPrefixes = pats at hstrip ⊢
  induction pats with
  | nil => rfl
  | cons pat pats ih =>
    rw [List.findSome?_cons, List.findSome?_cons, hstrip pat List.mem_cons_self]
    cases stripPrefix pat s with
    | some rest => rfl
    | none => exact ih fun p hp => hstrip p (List.mem_cons_of_mem _ hp)

theorem above_append_lastLine (s : List Char) : above s ++ lastLine s = s :=
  List.rdropWhile_append_rtakeWhile

theorem newline_not_mem_lastLine (s : List Char) : '\n' ∉ lastLine s := fun h => by
  simpa using List.mem_rtakeWhile_imp h

theorem above_ended (s : List Char) : above s = [] ∨ (above s).getLast? = some '\n' := by
  refine or_iff_not_imp_left.mpr fun hne => ?_
  have hlast : ¬ decide ((above s).getLast hne ≠ '\n') = true := List.rdropWhile_last_not _ _ hne
  rw [List.getLast?_eq_some_getLast hne, Option.some_inj]
  simpa using hlast

theorem find?_eq_none_iff (s : List Char) :
    ((splitInclusive s).map trim).find? informative = none ↔ ¬ HasContent s := by
  rw [List.find?_eq_none, List.forall_mem_map, HasContent, lines]
  simp [trim_stripLineEnd]

/-- The line comes first if nothing above it has content. -/
theorem content_above (s t : List Char) (h : ¬ HasContent (above s)) :
    content (above s ++ t) = content t := by
  rw [content_eq, splitInclusive_append (above_ended s), List.map_append, List.find?_append,
    (find?_eq_none_iff _).mpr h, Option.none_or, ← content_eq]

/-- Otherwise what is below does not count. -/
theorem content_below (s t : List Char) (h : HasContent (above s)) :
    content (above s ++ t) = content (above s) := by
  cases hfind : ((splitInclusive (above s)).map trim).find? informative with
  | none => exact absurd h ((find?_eq_none_iff _).mp hfind)
  | some line =>
    rw [content_eq, content_eq, splitInclusive_append (above_ended s), List.map_append,
      List.find?_append, hfind]
    rfl

theorem newline_not_mem_hash (hash : StoreHash) : '\n' ∉ hash.digits := fun h =>
  absurd (hash.mem _ h) (by decide +kernel)

theorem storeDir_eq : storeDir = '/' :: "nix/store/".toList := by decide +kernel

/-- The path is no space, and no bare marker. -/
theorem content_path (hash : StoreHash) (hs : '\n' ∉ s) (rest : List Char) :
    content (s ++ storePath hash rest) =
      (trimStart s ++ storeDir) ++ (hash.digits ++ '-' :: trimEnd (firstLine rest)) := by
  have hfront : '\n' ∉ s ++ (storeDir ++ (hash.digits ++ ['-'])) := by
    have hdir : '\n' ∉ storeDir := by decide +kernel
    have hdash : '\n' ∉ ['-'] := by decide
    simp only [List.mem_append, not_or]
    exact ⟨hs, hdir, newline_not_mem_hash hash, hdash⟩
  have hfirst : firstLine (s ++ storePath hash rest) =
      s ++ (storeDir ++ (hash.digits ++ '-' :: firstLine rest)) := by
    have happend := firstLine_append hfront rest
    simpa [storePath] using happend
  have htrim : trim (firstLine (s ++ storePath hash rest)) =
      (trimStart s ++ storeDir) ++ (hash.digits ++ '-' :: trimEnd (firstLine rest)) := by
    have hslash : isWhite '/' = false := by decide
    have hdash : isWhite '-' = false := by decide
    have happend := trim_append s ("nix/store/".toList ++ hash.digits) (firstLine rest) hslash hdash
    rw [hfirst, storeDir_eq]
    simpa using happend
  have hinformative : informative (trim (firstLine (s ++ storePath hash rest))) = true := by
    have hmem : '/' ∈ trim (firstLine (s ++ storePath hash rest)) := by
      rw [htrim, storeDir_eq]
      simp
    have hmarker : ∀ m : Severity, '/' ∉ m.marker := by
      intro m
      cases m <;> decide
    exact (informative_eq _).mpr ⟨List.ne_nil_of_mem hmem, fun m heq => hmarker m (heq ▸ hmem)⟩
  rw [content_of_informative hinformative, htrim]

theorem stripSeverity_path (pre : List Char) (hash : StoreHash) (rest : List Char) :
    stripSeverity (pre ++ storePath hash rest) = stripSeverity pre ++ storePath hash rest := by
  rw [storePath, storeDir_eq]
  exact stripSeverity_append _ _

/-- The content of a text with a path, split at the line of the path. -/
theorem content_stripped (pre : List Char) (hash : StoreHash) (rest : List Char) :
    content (stripSeverity (pre ++ storePath hash rest)) = content (above (stripSeverity pre) ++
      (lastLine (stripSeverity pre) ++ storePath hash rest)) := by
  rw [stripSeverity_path, ← List.append_assoc, above_append_lastLine]

/-! ## What shows of the hash -/

/-- The signature, where the line of the path is the first with content. -/
theorem signatureChars_path {pre : List Char} (h : ¬ HasContent (above (stripSeverity pre)))
    (hash : StoreHash) (rest : List Char) : signatureChars (pre ++ storePath hash rest) =
      truncate (beforeHash pre ++ (hash.digits ++ '-' :: trimEnd (firstLine rest))) 80 := by
  rw [signatureChars_eq, content_stripped, content_above _ _ h,
    content_path hash (newline_not_mem_lastLine _)]
  rfl

/-- A text that is cut does not show what is behind the cut. -/
theorem truncate_append (hs : 80 ≤ s.length) (ht : t ≠ []) :
    truncate (s ++ t) 80 = s.take 80 ++ ['…'] := by
  have hlen := List.length_pos_of_ne_nil ht
  unfold truncate
  rw [if_neg (by rw [List.length_append]; omega), List.take_append_of_le_length hs]

theorem getElem?_truncate {i max : Nat} (hi : i < max) : (truncate s max)[i]? = s[i]? := by
  unfold truncate
  grind

/-- **Out of sight, neither the hash nor what follows it shows.** -/
theorem signatureChars_hidden {pre : List Char} (h : HashHidden pre) (hash hash' : StoreHash)
    (rest rest' : List Char) :
    signatureChars (pre ++ storePath hash rest) = signatureChars (pre ++ storePath hash' rest') := by
  by_cases habove : HasContent (above (stripSeverity pre))
  · rw [signatureChars_eq, signatureChars_eq, content_stripped, content_stripped,
      content_below _ _ habove, content_below _ _ habove]
  · have hcut : 80 ≤ (beforeHash pre).length := h.resolve_left habove
    rw [signatureChars_path habove, signatureChars_path habove, truncate_append hcut (by simp),
      truncate_append hcut (by simp)]

/-- The hash of one digit. -/
def StoreHash.constant (d : Char) (h : d ∈ hashDigits) : StoreHash where
  digits := List.replicate 32 d
  length := List.length_replicate
  mem _ hc := List.eq_of_mem_replicate hc ▸ h

/-- **A hash in sight shows.** -/
theorem hidden_of_same {pre rest : List Char} {hash : StoreHash} (h : ∀ hash' : StoreHash,
      signatureChars (pre ++ storePath hash' rest) = signatureChars (pre ++ storePath hash rest)) :
    HashHidden pre := by
  by_contra hsight
  rw [HashHidden, not_or, Nat.not_le] at hsight
  obtain ⟨habove, hcolumn⟩ := hsight
  have hdigit : ∀ d (hd : d ∈ hashDigits), (signatureChars (pre ++ storePath hash rest))[
      (beforeHash pre).length]? = some d := fun d hd => by
    rw [← h (.constant d hd), signatureChars_path habove, getElem?_truncate hcolumn,
      List.getElem?_append_right (Nat.le_refl _), Nat.sub_self]
    rfl
  have hzero := hdigit '0' (by decide +kernel)
  rw [hdigit '1' (by decide +kernel)] at hzero
  exact absurd (Option.some.inj hzero) (by decide)

/-- Twins are the same up to their first hash. -/
theorem DigestTwins.cases {l l' : List Char} (h : DigestTwins l l') : l = l' ∨
    ∃ pre hash hash' rest rest', l = pre ++ storePath hash rest ∧ l' = pre ++ storePath hash' rest' := by
  induction h with
  | nil => exact .inl rfl
  | char d _ ih =>
    obtain rfl | ⟨pre, hash, hash', rest, rest', rfl, rfl⟩ := ih
    · exact .inl rfl
    · exact .inr ⟨d :: pre, hash, hash', rest, rest', rfl, rfl⟩
  | path hash hash' _ _ => exact .inr ⟨[], hash, hash', _, _, rfl, rfl⟩

/-- **A signature ignores the store hashes that are out of sight, and only those.** -/
theorem digestBlind_iff (raw : String) : DigestBlind raw ↔
    ∀ pre hash rest, raw.toList = pre ++ storePath hash rest → HashHidden pre := by
  constructor
  · intro h pre hash rest heq
    have hsame : ∀ hash' : StoreHash,
        signatureChars (pre ++ storePath hash' rest) = signatureChars (pre ++ storePath hash rest) := by
      intro hash'
      have hblind := signature_inj.mp (h.occurrence pre hash hash' rest heq)
      rwa [String.toList_ofList, heq] at hblind
    exact hidden_of_same hsame
  · intro h
    refine ⟨fun pre hash hash' rest heq => ?_, fun raw' htwins => ?_⟩
    · rw [signature_inj, String.toList_ofList, heq]
      exact signatureChars_hidden (h pre hash rest heq) hash' hash rest rest
    · rw [signature_inj]
      obtain heq | ⟨pre, hash, hash', rest, rest', heq, heq'⟩ := htwins.cases
      · rw [heq]
      · rw [heq, heq']
        exact signatureChars_hidden (h pre hash rest heq) hash' hash rest' rest

/-- A path in the middle of a short message. -/
theorem digest_shows :
    let text := fun hash : StoreHash =>
      "error: path '".toList ++ storePath hash "source' is not valid".toList
    ¬ DigestBlind (String.ofList (text (.constant '0' (by decide +kernel)))) := by
  intro text h
  have hsame := h.occurrence "error: path '".toList (.constant '0' (by decide +kernel))
    (.constant '1' (by decide +kernel)) "source' is not valid".toList String.toList_ofList
  exact absurd hsame (by decide +kernel)

end Shigoto
