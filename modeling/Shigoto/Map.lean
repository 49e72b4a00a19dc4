import Shigoto.Sorting
import Mathlib.Data.List.AList
import Mathlib.Data.Multiset.Count
import Mathlib.Data.Multiset.Filter
import Mathlib.Logic.Function.Basic

/-!
# Finite maps, and the keys that carry a given kind of value

A hash map is modelled by Mathlib's `AList`: a list of key/value pairs whose keys are distinct.
The order of that list stands for the layout of the hash map, which stays as it is when an entry is
overwritten; whatever depends on the iteration order of a hash map takes the order as an argument of
its own.

* `Map.get?` with its rewriting rules over `insert` and `erase`.
* `Map.ext_keys` — a map is its layout and what it stores.
* `Map.keysWith p` — the multiset of keys whose value satisfies `p`. Overwriting one entry moves
  one key in or out of it (`keysWith_insert`), which is how a counter that follows a map is
  proved right.
* `modifyAt` — a change at one key. Changes at different keys commute (`modifyAt_comm`), and a loop whose
  steps commute may take its elements in any order (`foldl_perm`).
-/

/-- A finite map from `α` to `β`. -/
abbrev Map (α β : Type) := AList fun _ : α => β

namespace Map

variable {α β : Type} [DecidableEq α]

/-! ## Lookup -/

/-- The value stored at `a`, if any. -/
def get? (m : Map α β) (a : α) : Option β := m.lookup a

/-- Number of entries. -/
def size (m : Map α β) : Nat := m.entries.length

/-- Overwrite the value stored at `a`, if any. -/
def replace (m : Map α β) (a : α) (b : β) : Map α β := AList.replace a b m

/-- Store a value. Overwriting an entry leaves every entry in its place. -/
def insert (m : Map α β) (a : α) (b : β) : Map α β :=
  if a ∈ m then m.replace a b else AList.insert a b m

@[simp] theorem get?_empty (a : α) : get? (∅ : Map α β) a = none := AList.lookup_empty a

private theorem dlookup_kreplace (l : List (Sigma fun _ : α => β)) (a : α) (b : β) (a' : α) :
    (l.kreplace a b).dlookup a' =
      if a' = a then (l.dlookup a).map fun _ => b else l.dlookup a' := by
  induction l with
  | nil => exact (ite_self none).symm
  | cons e l ih =>
    obtain ⟨k, v⟩ := e
    by_cases hk : a = k
    · subst hk
      have hfirst : List.kreplace a b (⟨a, v⟩ :: l) = ⟨a, b⟩ :: l :=
        List.lookmap_cons_some _ l (if_pos rfl)
      rw [hfirst]
      by_cases ha : a' = a
      · subst ha
        simp
      · rw [if_neg ha, List.dlookup_cons_ne _ _ ha, List.dlookup_cons_ne _ _ ha]
    · have hlater : List.kreplace a b (⟨k, v⟩ :: l) = ⟨k, v⟩ :: l.kreplace a b :=
        List.lookmap_cons_none _ l (if_neg hk)
      rw [hlater, List.dlookup_cons_ne l ⟨k, v⟩ hk]
      by_cases ha : a' = k
      · subst ha
        rw [if_neg (Ne.symm hk), List.dlookup_cons_eq, List.dlookup_cons_eq]
      · rw [List.dlookup_cons_ne _ _ ha, List.dlookup_cons_ne _ _ ha, ih]

theorem get?_replace (m : Map α β) (a a' : α) (b : β) :
    get? (m.replace a b) a' = if a' = a then (get? m a).map fun _ => b else get? m a' :=
  dlookup_kreplace m.entries a b a'

theorem mem_iff {m : Map α β} {a : α} : a ∈ m ↔ (get? m a).isSome = true := AList.lookup_isSome.symm

theorem get?_insert (m : Map α β) (a a' : α) (b : β) :
    get? (m.insert a b) a' = if a' = a then some b else get? m a' := by
  unfold insert
  split
  · next hmem =>
    obtain ⟨v, hv⟩ := Option.isSome_iff_exists.mp (mem_iff.mp hmem)
    rw [get?_replace, hv, Option.map_some]
  · by_cases h : a' = a
    · subst h
      rw [if_pos rfl]
      exact AList.lookup_insert m
    · rw [if_neg h]
      exact AList.lookup_insert_ne h

@[simp] theorem get?_insert_self (m : Map α β) (a : α) (b : β) :
    get? (m.insert a b) a = some b := by rw [get?_insert, if_pos rfl]

theorem get?_insert_ne (m : Map α β) {a a' : α} (b : β) (h : a' ≠ a) :
    get? (m.insert a b) a' = get? m a' := by rw [get?_insert, if_neg h]

/-- A key once stored stays stored. -/
theorem isSome_get?_insert {m : Map α β} {a' : α} (h : (get? m a').isSome = true) (a : α) (b : β) :
    (get? (m.insert a b) a').isSome = true := by
  rw [get?_insert]
  split
  · rfl
  · exact h

@[simp] theorem get?_erase_self (m : Map α β) (a : α) : get? (m.erase a) a = none :=
  AList.lookup_erase a m

theorem get?_erase_ne (m : Map α β) {a a' : α} (h : a' ≠ a) :
    get? (m.erase a) a' = get? m a' := AList.lookup_erase_ne h

theorem get?_erase (m : Map α β) (a a' : α) :
    get? (m.erase a) a' = if a' = a then none else get? m a' := by
  by_cases h : a' = a
  · subst h; simp
  · rw [get?_erase_ne m h, if_neg h]

theorem mem_entries_iff (m : Map α β) (a : α) (b : β) :
    (⟨a, b⟩ : Sigma fun _ : α => β) ∈ m.entries ↔ get? m a = some b :=
  (List.mem_dlookup_iff m.nodupKeys).symm

/-- The same keys, with `f` applied to what is stored at each. -/
def mapValues {γ : Type} (f : β → γ) (m : Map α β) : Map α γ where
  entries := m.entries.map fun e => ⟨e.1, f e.2⟩
  nodupKeys := by
    rw [List.NodupKeys, List.keys, List.map_map]
    exact m.nodupKeys

theorem get?_mapValues {γ : Type} (f : β → γ) (m : Map α β) (a : α) :
    get? (m.mapValues f) a = (get? m a).map f := by
  show List.dlookup (β := fun _ => γ) a (m.entries.map fun e => ⟨e.1, f e.2⟩) =
    (List.dlookup a m.entries).map f
  induction m.entries with
  | nil => rfl
  | cons e l ih =>
    obtain ⟨k, v⟩ := e
    by_cases hk : a = k
    · subst hk
      rw [List.map_cons, List.dlookup_cons_eq, List.dlookup_cons_eq]
      rfl
    · rw [List.map_cons, List.dlookup_cons_ne _ _ hk, List.dlookup_cons_ne _ _ hk, ih]

/-! ## Layout -/

@[simp] theorem keys_replace (m : Map α β) (a : α) (b : β) : (m.replace a b).keys = m.keys :=
  AList.keys_replace (β := fun _ => β) a b m

theorem insert_of_mem {m : Map α β} {a : α} (h : a ∈ m) (b : β) : m.insert a b = m.replace a b :=
  if_pos h

private theorem entries_eq (m : Map α β) :
    m.entries = m.keys.filterMap fun a => (get? m a).map (Sigma.mk a) := by
  have hself : ∀ e ∈ m.entries, (get? m e.1).map (Sigma.mk e.1) = some e := fun e he => by
    rw [(mem_entries_iff m e.1 e.2).mp he]
    rfl
  rw [AList.keys, List.keys, List.filterMap_map]
  exact (List.filterMap_some.symm).trans (List.filterMap_congr fun e he => (hself e he).symm)

/-- A map is its layout and what it stores. -/
theorem ext_keys {m m' : Map α β} (hkeys : m.keys = m'.keys) (hget : get? m = get? m') : m = m' :=
  AList.ext (by rw [entries_eq, entries_eq, hkeys, hget])

/-! ## Size -/

theorem size_insert (m : Map α β) (a : α) (b : β) :
    size (m.insert a b) = if (get? m a).isSome then size m else size m + 1 := by
  have hlen : ∀ l : Map α β, size l = l.keys.length := fun l => by
    simp [size, AList.keys, List.keys]
  rw [hlen, hlen]
  by_cases h : a ∈ m
  · rw [if_pos (mem_iff.mp h), insert_of_mem h, keys_replace]
  · have hkey : a ∉ m.keys := h
    rw [if_neg fun hs => h (mem_iff.mpr hs), insert, if_neg h, AList.keys_insert, List.length_cons,
      List.erase_of_not_mem hkey]

theorem size_le_size_insert (m : Map α β) (a : α) (b : β) :
    size m ≤ size (m.insert a b) := by
  rw [size_insert]
  split <;> omega

/-! ## The keys carrying a kind of value -/

/-- The keys whose value satisfies `p`. -/
def keysWith (p : β → Bool) (m : Map α β) : Multiset α :=
  ↑((m.entries.filter fun e => p e.2).map Sigma.fst)

/-- How many entries satisfy `p`. -/
def count (p : α → β → Bool) (m : Map α β) : Nat :=
  m.entries.countP fun e => p e.1 e.2

theorem mem_keysWith {p : β → Bool} {m : Map α β} {a : α} :
    a ∈ keysWith p m ↔ ∃ b, get? m a = some b ∧ p b = true := by
  simp only [keysWith, Multiset.mem_coe, List.mem_map, List.mem_filter]
  constructor
  · rintro ⟨⟨a', b⟩, ⟨hmem, hp⟩, rfl⟩
    exact ⟨b, (mem_entries_iff m a' b).mp hmem, hp⟩
  · rintro ⟨b, hget, hp⟩
    exact ⟨⟨a, b⟩, ⟨(mem_entries_iff m a b).mpr hget, hp⟩, rfl⟩

omit [DecidableEq α] in
theorem keysWith_nodup (p : β → Bool) (m : Map α β) : (keysWith p m).Nodup := by
  have hsub : ((m.entries.filter fun e => p e.2).map Sigma.fst).Sublist m.keys :=
    List.filter_sublist.map Sigma.fst
  exact hsub.nodup m.keys_nodup

omit [DecidableEq α] in
/-- Counting entries is counting the keys of the right kind. -/
theorem count_eq_countP (p : β → Bool) (q : α → Bool) (m : Map α β) :
    count (fun a b => p b && q a) m = (keysWith p m).countP (fun a => q a = true) := by
  simp only [count, keysWith, Multiset.coe_countP, List.countP_map, List.countP_filter]
  congr 1
  funext e
  simp [Function.comp, Bool.and_comm]

omit [DecidableEq α] in
theorem card_keysWith_le (p : β → Bool) (m : Map α β) :
    Multiset.card (keysWith p m) ≤ size m := by
  simp only [keysWith, Multiset.coe_card, List.length_map, size]
  exact List.length_filter_le _ _

/-- A key that carries another kind of value leaves room. -/
theorem card_keysWith_lt {p : β → Bool} {m : Map α β} {a : α} {b : β} (hget : get? m a = some b)
    (hp : p b = false) : Multiset.card (keysWith p m) < size m := by
  simp only [keysWith, Multiset.coe_card, List.length_map, size]
  exact List.length_filter_lt_length_iff_exists.mpr
    ⟨⟨a, b⟩, (mem_entries_iff m a b).mpr hget, by simp [hp]⟩

/-! ## Iteration -/

/-- The entries in the iteration order that `rank` gives. Every order of the entries is the one of
some `rank`. -/
def iterate (rank : α → Nat) (m : Map α β) : List (α × β) :=
  (m.entries.map fun e => (e.1, e.2)).insertionSort fun x y => rank x.1 ≤ rank y.1

/-- An iteration order in which `a` comes first. -/
def ahead (a : α) : α → Nat := fun a' => if a' = a then 0 else 1

theorem ahead_lt {a a' : α} (h : a ≠ a') : ahead a a < ahead a a' := by
  simp [ahead, Ne.symm h]

omit [DecidableEq α] in
theorem iterate_keys_nodup (rank : α → Nat) (m : Map α β) :
    ((iterate rank m).map (·.1)).Nodup := by
  have hperm : ((iterate rank m).map (·.1)).Perm m.keys := by
    apply ((List.perm_insertionSort _ _).map _).trans
    rw [List.map_map]
    exact List.Perm.refl _
  exact hperm.nodup_iff.mpr m.keys_nodup

theorem mem_iterate (rank : α → Nat) (m : Map α β) (a : α) (b : β) :
    (a, b) ∈ iterate rank m ↔ get? m a = some b := by
  rw [iterate, (List.perm_insertionSort _ _).mem_iff, List.mem_map, ← mem_entries_iff]
  constructor
  · rintro ⟨⟨a', b'⟩, hmem, heq⟩
    obtain ⟨rfl, rfl⟩ := Prod.mk.inj heq
    exact hmem
  · intro hmem
    exact ⟨⟨a, b⟩, hmem, rfl⟩

/-- Two maps that store the same are iterated over the same entries. -/
theorem iterate_perm_of_get? {m m' : Map α β} (h : get? m = get? m') (rank rank' : α → Nat) :
    (iterate rank m).Perm (iterate rank' m') := by
  refine (List.perm_ext_iff_of_nodup (iterate_keys_nodup rank m).of_map
    (iterate_keys_nodup rank' m').of_map).mpr fun e => ?_
  rw [mem_iterate rank m e.1 e.2, mem_iterate rank' m' e.1 e.2, h]

/-- Of two entries, the one with the lower rank comes first. -/
theorem pair_sublist_iterate {rank : α → Nat} {m : Map α β} {a a' : α} {b b' : β}
    (h : get? m a = some b) (h' : get? m a' = some b') (hlt : rank a < rank a') :
    [(a, b), (a', b')].Sublist (iterate rank m) := by
  have hmem := (mem_iterate rank m a b).mpr h
  have hmem' := (mem_iterate rank m a' b').mpr h'
  have hne : (a, b) ≠ (a', b') := fun heq => hlt.ne (congrArg (fun e => rank e.1) heq)
  refine (Sorting.pair_sublist_or hmem hmem' hne).resolve_right fun hsub => ?_
  have hiterate : (iterate rank m).Pairwise fun e e' => rank e.1 ≤ rank e'.1 := Sorting.pairwise_sortBy _
  have hsorted := hiterate.sublist hsub
  exact absurd (List.rel_of_pairwise_cons hsorted List.mem_cons_self) (Nat.not_le.mpr hlt)

omit [DecidableEq α] in
theorem iterate_perm (m : Map α β) (rank rank' : α → Nat) :
    (iterate rank m).Perm (iterate rank' m) :=
  (List.perm_insertionSort _ _).trans (List.perm_insertionSort _ _).symm

end Map

/-! ## Changes at one key -/

section

variable {α β γ : Type}

/-- Change the value at one point. -/
def modifyAt [DecidableEq α] (f : α → β) (a : α) (u : β → β) : α → β := Function.update f a (u (f a))

section

variable [DecidableEq α]

theorem modifyAt_apply (f : α → β) (a : α) (u : β → β) (a' : α) :
    modifyAt f a u a' = if a' = a then u (f a) else f a' := Function.update_apply f a (u (f a)) a'

theorem modifyAt_comm (f : α → β) {a b : α} {u v : β → β} (h : a = b → ∀ x, v (u x) = u (v x)) :
    modifyAt (modifyAt f a u) b v = modifyAt (modifyAt f b v) a u := by
  unfold modifyAt
  by_cases hab : a = b
  · subst hab
    simp only [Function.update_self, Function.update_idem, h rfl]
  · rw [Function.update_of_ne (Ne.symm hab), Function.update_of_ne hab, Function.update_comm hab]

theorem Map.get?_insert_eq (m : Map α β) (a : α) (b : β) :
    Map.get? (m.insert a b) = modifyAt (Map.get? m) a fun _ => some b :=
  funext fun a' => (Map.get?_insert m a a' b).trans
    (modifyAt_apply (Map.get? m) a (fun _ => some b) a').symm

/-- Overwriting different entries commutes. -/
theorem Map.replace_comm (m : Map α β) {a a' : α} (h : a ≠ a') (b b' : β) :
    (m.replace a b).replace a' b' = (m.replace a' b').replace a b := by
  have hget : ∀ (m : Map α β) (a : α) (b : β),
      Map.get? (m.replace a b) = modifyAt (Map.get? m) a fun v => v.map fun _ => b := fun m a b =>
    funext fun a' => (Map.get?_replace m a a' b).trans
      (modifyAt_apply (Map.get? m) a (fun v => v.map fun _ => b) a').symm
  refine Map.ext_keys (by simp only [Map.keys_replace]) ?_
  rw [hget, hget, hget, hget]
  exact modifyAt_comm _ fun heq => absurd heq h

end

/-- A loop may take its elements in any order, up to `R`, if its steps keep `R` and those of any two
elements of the list commute. -/
theorem foldl_perm {f : β → α → β} {R : β → β → Prop} {D : α → α → Prop} (hR : Equivalence R)
    (hstep : ∀ {s s'} a, R s s' → R (f s a) (f s' a))
    (hcomm : ∀ s a b, D a b → R (f (f s a) b) (f (f s b) a)) (hD : ∀ a b, D a b → D b a)
    {l l' : List α} (hperm : l.Perm l') (hl : l.Pairwise D) {s s' : β} (hs : R s s') :
    R (l.foldl f s) (l'.foldl f s') := by
  induction hperm generalizing s s' with
  | nil => exact hs
  | cons a _ ih => exact ih (List.pairwise_cons.mp hl).2 (hstep a hs)
  | swap a b l =>
    have hba : D b a := (List.pairwise_cons.mp hl).1 a List.mem_cons_self
    have hboth : R (f (f s b) a) (f (f s' a) b) :=
      hR.trans (hcomm s b a hba) (hstep b (hstep a hs))
    exact List.foldl_rel hboth fun c _ _ _ => hstep c
  | trans hfirst _ ih ih' =>
    exact hR.trans (ih hl hs) (ih' ((hfirst.pairwise_iff fun hab => hD _ _ hab).mp hl) (hR.refl s'))

end
