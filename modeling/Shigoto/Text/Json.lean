import Mathlib.Data.String.Basic
import Shigoto.Text.Debug

/-!
# JSON values and their compact text

Values, lists of items and lists of fields are one family of trees (`Json`), so that printing and every
induction are one recursion. A `Value` has the keys of its objects in ascending order, as a map that is
kept sorted has. How a number is written is a parameter (`Numerals`).

`toVec_injective`: the text of a value, and so its bytes, tell it from every other.
-/

namespace Text

/-- What a tree stands for. -/
inductive Part
  | value
  | items
  | fields

inductive Json (ν : Type) : Part → Type
  | null : Json ν .value
  | bool (b : Bool) : Json ν .value
  | number (n : ν) : Json ν .value
  | string (s : String) : Json ν .value
  | array (items : Json ν .items) : Json ν .value
  | object (fields : Json ν .fields) : Json ν .value
  | nil : Json ν .items
  | cons (item : Json ν .value) (rest : Json ν .items) : Json ν .items
  | done : Json ν .fields
  | field (key : String) (value : Json ν .value) (rest : Json ν .fields) : Json ν .fields

/-- A character of a number. -/
def isNumeral (c : Char) : Bool := c.isDigit || c = '-' || c = '+' || c = '.' || c = 'e' || c = 'E'

/-- How numbers are written. -/
structure Numerals (ν : Type) where
  text : ν → List Char
  injective : Function.Injective text
  numeral : ∀ n, ∀ c ∈ text n, isNumeral c = true
  start : ∀ n, ∃ c cs, text n = c :: cs ∧ (c = '-' ∨ c.isDigit = true)

/-! ## Printing -/

/-- The letter behind the backslash. -/
def jsonEscape (c : Char) : Option Char :=
  if c = '\x22' ∨ c = '\\' then some c
  else if c = '\x08' then some 'b'
  else if c = '\x0c' then some 'f'
  else if c = '\n' then some 'n'
  else if c = '\r' then some 'r'
  else if c = '\t' then some 't'
  else none

def escapeJson (c : Char) : List Char :=
  match jsonEscape c with
  | some letter => ['\\', letter]
  | none =>
    -- the other control characters by their code
    if c.toNat < 32 then
      ['\\', 'u', '0', '0', (c.toNat / 16).digitChar, (c.toNat % 16).digitChar]
    else [c]

def printString (s : String) : List Char :=
  '\x22' :: (s.toList.flatMap escapeJson ++ ['\x22'])

/-- The compact text. Items and fields come with their commas and the closing bracket. -/
def Json.print {ν : Type} (numerals : Numerals ν) {part : Part} : Json ν part → List Char
  | .null => ['n', 'u', 'l', 'l']
  | .bool true => ['t', 'r', 'u', 'e']
  | .bool false => ['f', 'a', 'l', 's', 'e']
  | .number n => numerals.text n
  | .string s => printString s
  | .array items => '[' :: items.print numerals
  | .object fields => '\x7b' :: fields.print numerals
  | .nil => [']']
  | .cons item .nil => item.print numerals ++ [']']
  | .cons item rest => item.print numerals ++ ',' :: rest.print numerals
  | .done => ['\x7d']
  | .field key value .done => printString key ++ ':' :: (value.print numerals ++ ['\x7d'])
  | .field key value rest =>
    printString key ++ ':' :: (value.print numerals ++ ',' :: rest.print numerals)

/-! ## Sorted keys -/

/-- The keys of a list of fields. -/
def Json.keys {ν : Type} {part : Part} : Json ν part → List String
  | .field key _ rest => key :: rest.keys
  | _ => []

/-- The keys of all its objects ascend. -/
def Json.Ascending {ν : Type} {part : Part} : Json ν part → Prop
  | .array items => items.Ascending
  | .object fields => fields.Ascending
  | .cons item rest => item.Ascending ∧ rest.Ascending
  | .field key value rest =>
    value.Ascending ∧ rest.Ascending ∧ ∀ key' ∈ rest.keys, key < key'
  | _ => True

/-- `serde_json::Value`, with objects as sorted maps. -/
def Value (ν : Type) := { json : Json ν .value // json.Ascending }

/-! ## Building values -/

variable {ν : Type}

/-- Insert into a sorted map; a key that is there keeps its place and takes the new value. -/
def Json.insert {part : Part} (fields : Json ν part) (key : String) (value : Json ν .value) :
    Json ν part :=
  match fields with
  | .done => .field key value .done
  | .field key' value' rest =>
    if key < key' then .field key value (.field key' value' rest)
    else if key = key' then .field key value rest
    else .field key' value' (rest.insert key value)
  | other => other

theorem Json.insert_of_lt {key key' : String} (h : key < key') (value value' : Json ν .value)
    (rest : Json ν .fields) : (Json.field key' value' rest).insert key value =
      .field key value (.field key' value' rest) := by
  rw [Json.insert, if_pos h]

theorem Json.insert_of_gt {key key' : String} (h : key' < key) (value value' : Json ν .value)
    (rest : Json ν .fields) : (Json.field key' value' rest).insert key value =
      .field key' value' (rest.insert key value) := by
  rw [Json.insert, if_neg h.not_gt, if_neg h.ne']

theorem Json.insert_done (key : String) (value : Json ν .value) :
    Json.done.insert key value = .field key value .done := rfl

theorem Json.mem_keys_insert {part : Part} {fields : Json ν part} {key key' : String}
    {value : Json ν .value} (h : key' ∈ (fields.insert key value).keys) :
    key' = key ∨ key' ∈ fields.keys := by
  induction fields with
  | done => exact .inl (List.mem_singleton.mp h)
  | field key'' value'' rest _ ih =>
    rw [Json.insert] at h
    split_ifs at h <;> simp only [Json.keys, List.mem_cons] at h ⊢ <;> grind
  | _ => exact .inr h

theorem Json.Ascending.insert {part : Part} {fields : Json ν part} (h : fields.Ascending)
    (key : String) {value : Json ν .value} (hvalue : value.Ascending) :
    (fields.insert key value).Ascending := by
  induction fields with
  | done => exact ⟨hvalue, trivial, fun _ hmem => nomatch hmem⟩
  | field key' value' rest _ ih =>
    obtain ⟨hvalue', hrest, hkeys⟩ := h
    rw [Json.insert]
    split_ifs with hlt heq
    · refine ⟨hvalue, ⟨hvalue', hrest, hkeys⟩, fun k hk => ?_⟩
      obtain rfl | hk := List.mem_cons.mp hk
      · exact hlt
      · exact hlt.trans (hkeys k hk)
    · exact ⟨hvalue, hrest, heq ▸ hkeys⟩
    · refine ⟨hvalue', ih hrest, fun k hk => ?_⟩
      obtain rfl | hk := Json.mem_keys_insert hk
      · exact lt_of_le_of_ne (not_lt.mp hlt) (Ne.symm heq)
      · exact hkeys k hk
  | _ => exact h

def Json.ofItems : List (Value ν) → Json ν .items
  | [] => .nil
  | v :: vs => .cons v.1 (Json.ofItems vs)

theorem Json.ascending_ofItems (vs : List (Value ν)) : (Json.ofItems vs).Ascending := by
  induction vs with
  | nil => trivial
  | cons v vs ih => exact ⟨v.2, ih⟩

/-- The map after these insertions. -/
def Json.ofFields (fields : List (String × Value ν)) : Json ν .fields :=
  fields.foldl (fun map field => map.insert field.1 field.2.1) .done

theorem Json.ascending_ofFields (fields : List (String × Value ν)) :
    (Json.ofFields fields).Ascending := by
  have hfold : ∀ map : Json ν .fields, map.Ascending →
      (fields.foldl (fun map field => map.insert field.1 field.2.1) map).Ascending := by
    induction fields with
    | nil => exact fun _ h => h
    | cons field fields ih => exact fun map h => ih _ (h.insert field.1 field.2.2)
  exact hfold .done trivial

namespace Value

def null : Value ν := ⟨.null, trivial⟩

def string (s : String) : Value ν := ⟨.string s, trivial⟩

def array (items : List (Value ν)) : Value ν := ⟨.array (.ofItems items), Json.ascending_ofItems items⟩

/-- `json!` of fields in some order. -/
def object (fields : List (String × Value ν)) : Value ν :=
  ⟨.object (.ofFields fields), Json.ascending_ofFields fields⟩

theorem eq_iff {v w : Value ν} : v = w ↔ v.1 = w.1 := Subtype.ext_iff

theorem array_injective : Function.Injective (array : List (Value ν) → Value ν) := by
  intro vs ws heq
  have hitems : Json.ofItems vs = Json.ofItems ws := Json.array.inj (congrArg Subtype.val heq)
  clear heq
  induction vs generalizing ws with
  | nil =>
    cases ws with
    | nil => rfl
    | cons w ws => exact nomatch hitems
  | cons v vs ih =>
    cases ws with
    | nil => exact nomatch hitems
    | cons w ws =>
      obtain ⟨hhead, htail⟩ := Json.cons.inj hitems
      rw [Subtype.ext hhead, ih htail]

end Value

/-! ## Strings -/

variable {a b c : Char}

theorem jsonEscape_injective {letter : Char} (ha : jsonEscape a = some letter)
    (hb : jsonEscape b = some letter) : a = b := by
  unfold jsonEscape at ha hb
  split_ifs at ha hb <;> simp_all <;> grind

theorem escapeJson_cases (c : Char) :
    (∃ letter, jsonEscape c = some letter ∧ letter ≠ 'u' ∧ escapeJson c = ['\\', letter]) ∨
    (c.toNat < 32 ∧ escapeJson c =
      ['\\', 'u', '0', '0', (c.toNat / 16).digitChar, (c.toNat % 16).digitChar]) ∨
    (c ≠ '\x22' ∧ c ≠ '\\' ∧ escapeJson c = [c]) := by
  unfold escapeJson
  cases hescape : jsonEscape c with
  | some letter =>
    refine .inl ⟨letter, rfl, ?_, rfl⟩
    unfold jsonEscape at hescape
    grind
  | none =>
    by_cases hcode : c.toNat < 32
    · exact .inr (.inl ⟨hcode, if_pos hcode⟩)
    · refine .inr (.inr ⟨?_, ?_, if_neg hcode⟩) <;>
        · unfold jsonEscape at hescape
          grind

theorem escapeJson_delimited : Delimited escapeJson := by
  have hdigit : ∀ m < 16, ∀ n < 16, m.digitChar = n.digitChar → m = n := by decide
  intro a b s t heq
  rcases escapeJson_cases a with ⟨x, hx, hxu, ha⟩ | ⟨ha32, ha⟩ | ⟨haq, hab, ha⟩ <;>
    rcases escapeJson_cases b with ⟨y, hy, hyu, hb⟩ | ⟨hb32, hb⟩ | ⟨hbq, hbb, hb⟩ <;>
    rw [ha, hb] at heq
  · obtain ⟨rfl, rfl⟩ : x = y ∧ s = t := by simpa using heq
    exact ⟨jsonEscape_injective hx hy, rfl⟩
  · grind
  · grind
  · grind
  · -- two codes: the digits tell the code points
    simp only [List.cons_append, List.nil_append, List.cons.injEq, true_and] at heq
    have hhigh := hdigit _ (by omega) _ (by omega) heq.1
    have hlow := hdigit _ (by omega) _ (by omega) heq.2.1
    exact ⟨Char.toNat_inj.mp (by omega), heq.2.2⟩
  · grind
  · grind
  · grind
  · grind

/-- **A string tells where it ends.** -/
theorem printString_delimited : Delimited printString := by
  have hstart : ∀ c, ∃ d cs, escapeJson c = d :: cs ∧ d ≠ '\x22' := fun c => by
    rcases escapeJson_cases c with ⟨letter, -, -, h⟩ | ⟨-, h⟩ | ⟨hquote, -, h⟩
    · exact ⟨_, _, h, by decide⟩
    · exact ⟨_, _, h, by decide⟩
    · exact ⟨_, _, h, hquote⟩
  have hchars := (escapeJson_delimited.list hstart).after ['\x22']
  exact hchars.comp (f := String.toList) fun _ _ => String.toList_inj.mp

/-! ## Trees -/

/-- The constructor of a tree; of a list of items, that of its first. -/
def Json.tag {part : Part} : Json ν part → Nat
  | .null => 0
  | .bool _ => 1
  | .number _ => 3
  | .string _ => 4
  | .array _ => 5
  | .object _ => 6
  | .nil => 7
  | .cons item _ => item.tag
  | .done => 8
  | .field _ _ _ => 4

/-- What a first character stands for. -/
def charTag (c : Char) : Nat :=
  if c = 'n' then 0
  else if c = 't' ∨ c = 'f' then 1
  else if c = '\x22' then 4
  else if c = '[' then 5
  else if c = '\x7b' then 6
  else if c = ']' then 7
  else if c = '\x7d' then 8
  else 3

variable {numerals : Numerals ν} {part : Part}

theorem charTag_digit (h : c = '-' ∨ c.isDigit = true) : charTag c = 3 := by
  rcases h with rfl | hdigit
  · decide
  · have hne : ∀ d : Char, d.isDigit = false → c ≠ d := by
      intro d hd heq
      rw [heq, hd] at hdigit
      cases hdigit
    simp [charTag, hne 'n' rfl, hne 't' rfl, hne 'f' rfl, hne '\x22' rfl, hne '[' rfl,
      hne '\x7b' rfl, hne ']' rfl, hne '\x7d' rfl]

/-- What stands behind an element: the end of the sequence, or a comma and the rest. -/
def Behind (numerals : Numerals ν) (close : Char) (last rest : Json ν part) (s : List Char) : Prop :=
  s = [close] ∧ rest = last ∨ s = ',' :: rest.print numerals

theorem Json.print_cons (numerals : Numerals ν) (item : Json ν .value) (rest : Json ν .items) :
    ∃ s, (item.cons rest).print numerals = item.print numerals ++ s ∧
      Behind numerals ']' .nil rest s := by
  cases rest with
  | nil => exact ⟨_, rfl, .inl ⟨rfl, rfl⟩⟩
  | cons item' rest => exact ⟨_, rfl, .inr rfl⟩

theorem Json.print_field (numerals : Numerals ν) (key : String) (value : Json ν .value)
    (rest : Json ν .fields) :
    ∃ s, (value.field key rest).print numerals =
        printString key ++ ':' :: (value.print numerals ++ s) ∧
      Behind numerals '\x7d' .done rest s := by
  cases rest with
  | done => exact ⟨_, rfl, .inl ⟨rfl, rfl⟩⟩
  | field key' value' rest => exact ⟨_, rfl, .inr rfl⟩

/-- The first character tells the constructor. -/
theorem Json.print_start (numerals : Numerals ν) (json : Json ν part) :
    ∃ c cs, json.print numerals = c :: cs ∧ charTag c = json.tag := by
  induction json with
  | bool b => cases b <;> exact ⟨_, _, rfl, rfl⟩
  | null => exact ⟨_, _, rfl, rfl⟩
  | string s => exact ⟨_, _, rfl, rfl⟩
  | array items => exact ⟨_, _, rfl, rfl⟩
  | object fields => exact ⟨_, _, rfl, rfl⟩
  | nil => exact ⟨_, _, rfl, rfl⟩
  | done => exact ⟨_, _, rfl, rfl⟩
  | number n =>
    obtain ⟨c, cs, htext, hc⟩ := numerals.start n
    exact ⟨c, cs, htext, charTag_digit hc⟩
  | cons item rest ih =>
    obtain ⟨c, cs, hitem, hc⟩ := ih
    obtain ⟨s, hprint, -⟩ := Json.print_cons numerals item rest
    exact ⟨c, _, by rw [hprint, hitem, List.cons_append], hc⟩
  | field key value rest =>
    obtain ⟨s, hprint, -⟩ := Json.print_field numerals key value rest
    exact ⟨_, _, hprint, rfl⟩

/-- A number ends here. -/
def Stops (s : List Char) : Prop := ∀ c ∈ s.head?, isNumeral c = false

theorem Stops.cons {c : Char} (h : isNumeral c = false) (s : List Char) : Stops (c :: s) := by
  simpa [Stops] using h

/-- No number goes on behind an element. -/
theorem Behind.stops {close : Char} {last rest : Json ν part} {s : List Char}
    (h : Behind numerals close last rest s) (hclose : isNumeral close = false) (t : List Char) :
    Stops (s ++ t) := by
  obtain ⟨rfl, -⟩ | rfl := h
  · exact .cons hclose t
  · exact .cons (by decide) _

/-- What stands behind an element tells whether it is the last. -/
theorem Behind.inj {close : Char} {last rest rest' : Json ν part} {u v s t : List Char}
    (h : Behind numerals close last rest u) (h' : Behind numerals close last rest' v)
    (hclose : close ≠ ',')
    (hrest : rest.print numerals ++ s = rest'.print numerals ++ t → rest = rest' ∧ s = t)
    (heq : u ++ s = v ++ t) : rest = rest' ∧ s = t := by
  obtain ⟨rfl, hlast⟩ | rfl := h
  · obtain ⟨rfl, hlast'⟩ | rfl := h'
    · exact ⟨hlast.trans hlast'.symm, List.tail_eq_of_cons_eq heq⟩
    · exact absurd (List.head_eq_of_cons_eq heq) hclose
  · obtain ⟨rfl, -⟩ | rfl := h'
    · exact absurd (List.head_eq_of_cons_eq heq).symm hclose
    · exact hrest (List.tail_eq_of_cons_eq heq)

/-- A number ends where its characters do. -/
theorem Numerals.text_inj {m n : ν} {s t : List Char} (hs : Stops s) (ht : Stops t)
    (heq : numerals.text m ++ s = numerals.text n ++ t) : m = n ∧ s = t := by
  have htake : ∀ k u, Stops u → (numerals.text k ++ u).takeWhile isNumeral = numerals.text k := by
    intro k u hu
    rw [List.takeWhile_append_of_pos (numerals.numeral k)]
    cases u with
    | nil => simp
    | cons c u => simp [hu c (by simp)]
  have htext : numerals.text m = numerals.text n := by rw [← htake m s hs, heq, htake n t ht]
  exact ⟨numerals.injective htext, List.append_cancel_left (htext ▸ heq)⟩

theorem Json.tag_value (json : Json ν .value) : json.tag < 7 := by
  cases json <;> simp [Json.tag]

theorem Json.tag_eq {x y : Json ν part} {s t : List Char}
    (heq : x.print numerals ++ s = y.print numerals ++ t) : x.tag = y.tag := by
  obtain ⟨c, cs, hx, hc⟩ := x.print_start numerals
  obtain ⟨d, ds, hy, hd⟩ := y.print_start numerals
  rw [hx, hy] at heq
  rw [← hc, ← hd, List.head_eq_of_cons_eq heq]

/-- **The text of a tree tells where it ends**, in front of anything that continues no number. -/
theorem Json.print_inj {x y : Json ν part} {s t : List Char} (hs : Stops s) (ht : Stops t)
    (heq : x.print numerals ++ s = y.print numerals ++ t) : x = y ∧ s = t := by
  induction x generalizing s t with
  | null =>
    have htag := Json.tag_eq heq
    cases y with
    | null => exact ⟨rfl, List.append_cancel_left heq⟩
    | _ => cases htag
  | bool b =>
    have htag := Json.tag_eq heq
    cases y with
    | bool b' => cases b <;> cases b' <;> simp_all [Json.print]
    | _ => cases htag
  | number n =>
    have htag := Json.tag_eq heq
    cases y with
    | number n' =>
      obtain ⟨rfl, hst⟩ := Numerals.text_inj hs ht heq
      exact ⟨rfl, hst⟩
    | _ => cases htag
  | string text =>
    have htag := Json.tag_eq heq
    cases y with
    | string text' =>
      obtain ⟨rfl, hst⟩ := printString_delimited _ _ _ _ heq
      exact ⟨rfl, hst⟩
    | _ => cases htag
  | array items ih =>
    have htag := Json.tag_eq heq
    cases y with
    | array items' =>
      obtain ⟨rfl, hst⟩ := ih hs ht (List.tail_eq_of_cons_eq heq)
      exact ⟨rfl, hst⟩
    | _ => cases htag
  | object fields ih =>
    have htag := Json.tag_eq heq
    cases y with
    | object fields' =>
      obtain ⟨rfl, hst⟩ := ih hs ht (List.tail_eq_of_cons_eq heq)
      exact ⟨rfl, hst⟩
    | _ => cases htag
  | nil =>
    have htag := Json.tag_eq heq
    cases y with
    | nil => exact ⟨rfl, List.append_cancel_left heq⟩
    | cons item rest => exact absurd htag (Nat.ne_of_gt item.tag_value)
  | cons item rest ih ih' =>
    have htag := Json.tag_eq heq
    cases y with
    | nil => exact absurd htag (Nat.ne_of_lt item.tag_value)
    | cons item' rest' =>
      obtain ⟨u, hx, hbehind⟩ := Json.print_cons numerals item rest
      obtain ⟨v, hy, hbehind'⟩ := Json.print_cons numerals item' rest'
      rw [hx, hy, List.append_assoc, List.append_assoc] at heq
      obtain ⟨rfl, hafter⟩ := ih (hbehind.stops rfl s) (hbehind'.stops rfl t) heq
      obtain ⟨rfl, hst⟩ := hbehind.inj hbehind' (by decide) (ih' hs ht) hafter
      exact ⟨rfl, hst⟩
  | done =>
    have htag := Json.tag_eq heq
    cases y with
    | done => exact ⟨rfl, List.append_cancel_left heq⟩
    | field key value rest => cases htag
  | field key value rest ih ih' =>
    have htag := Json.tag_eq heq
    cases y with
    | done => cases htag
    | field key' value' rest' =>
      obtain ⟨u, hx, hbehind⟩ := Json.print_field numerals key value rest
      obtain ⟨v, hy, hbehind'⟩ := Json.print_field numerals key' value' rest'
      rw [hx, hy, List.append_assoc, List.append_assoc] at heq
      obtain ⟨rfl, hvalue⟩ := printString_delimited _ _ _ _ heq
      rw [List.cons_append, List.cons_append, List.append_assoc, List.append_assoc] at hvalue
      obtain ⟨rfl, hafter⟩ := ih (hbehind.stops rfl s) (hbehind'.stops rfl t)
        (List.tail_eq_of_cons_eq hvalue)
      obtain ⟨rfl, hst⟩ := hbehind.inj hbehind' (by decide) (ih' hs ht) hafter
      exact ⟨rfl, hst⟩

/-! ## Bytes -/

/-- The compact text of a value, in bytes. -/
def toVec (numerals : Numerals ν) (value : Value ν) : List UInt8 :=
  textBytes (String.ofList (value.1.print numerals))

theorem textBytes_injective : Function.Injective textBytes := by
  intro s t heq
  exact Option.some.inj ((readText_textBytes s).symm.trans ((congrArg readText heq).trans (readText_textBytes t)))

/-- **Different values have different bytes.** -/
theorem toVec_injective (numerals : Numerals ν) : Function.Injective (toVec numerals) := by
  intro v w heq
  have htext : v.1.print numerals = w.1.print numerals :=
    String.ofList_injective (textBytes_injective heq)
  have hend : Stops [] := fun c hc => nomatch hc
  exact Subtype.ext (Json.print_inj hend hend (congrArg (· ++ []) htext)).1

/-! ## Decimal numbers -/

/-- The natural numbers, in decimal digits. -/
def decimal : Numerals Nat where
  text := Nat.toDigits 10
  injective _ _ heq := toDigits_injective (by decide) (by decide) heq
  numeral n c hc := by
    have hdigit : c.isDigit = true := Nat.isDigit_of_mem_toDigits (by decide) (by decide) hc
    simp [isNumeral, hdigit]
  start n := by
    obtain ⟨c, cs, htext⟩ := List.exists_cons_of_ne_nil (Nat.toDigits_ne_nil (b := 10) (n := n))
    have hmem : c ∈ Nat.toDigits 10 n := htext ▸ List.mem_cons_self
    exact ⟨c, cs, htext, .inr (Nat.isDigit_of_mem_toDigits (by decide) (by decide) hmem)⟩

end Text
