import Mathlib.Data.List.Forall2
import Mathlib.Data.List.TakeWhile
import Famicom.Json.Writer
import Famicom.Proofs.Json.Reading

/-!
# Written values are read back

`ReadsAs j k` says that the text of `j` denotes `k`.  Whole numbers, truth values and strings
denote themselves, and arrays and objects denote what their parts do.

* `readsAs_nat`, `readsAs_str` — numbers and strings.
* `readsAs_array`, `readsAs_record` — arrays and objects.
-/

namespace Famicom.Json

open Reader Token Writer

/-! ## Strings -/

/-- The characters that a character of a string is written as. -/
def escaped (c : Char) : List Char := (pushChar "" c).toList

/-- The characters that a string is written as. -/
def quoted (s : String) : List Char := '"' :: (s.toList.flatMap escaped ++ ['"'])

theorem toList_pushChar (out : String) (c : Char) :
    (pushChar out c).toList = out.toList ++ escaped c := by
  unfold escaped pushChar pushControl
  repeat' split
  all_goals simp

theorem toList_pushText (out : String) (s : String) :
    (pushText out (some s)).toList = out.toList ++ quoted s := by
  have hfold (cs : List Char) (out : String) :
      (cs.foldl pushChar out).toList = out.toList ++ cs.flatMap escaped := by
    induction cs generalizing out with
    | nil => simp
    | cons c cs ih => simp [ih, toList_pushChar]
  simp [pushText, quoted, hfold]

theorem toList_pushText_append (out : String) (k : Text) :
    (pushText out k).toList = out.toList ++ (pushText "" k).toList := by
  cases k with
  | none => simp [pushText]
  | some s => simp [toList_pushText]

/-- The four digits of a control character's escape. -/
theorem unit?_control {n : Nat} (h : n < 0x20) :
    ∃ a b c d, (Hex.digits 4 n).map Char.toLower = [a, b, c, d] ∧ unit? a b c d = some n := by
  have hall : ∀ n : Fin 32,
      unit? (Hex.digit (n / 16 / 16 / 16 % 16)).toLower (Hex.digit (n / 16 / 16 % 16)).toLower
        (Hex.digit (n / 16 % 16)).toLower (Hex.digit (n % 16)).toLower = some n.val := by decide
  exact ⟨_, _, _, _, rfl, hall ⟨n, h⟩⟩

/-- A character is scanned from what it is written as. -/
theorem scanString_escaped (c : Char) (rest : List Char) (units : List Nat) :
    scanString (escaped c ++ rest) units = scanString rest (c.toNat :: units) := by
  unfold escaped pushChar
  split
  · next h => simp [scanString, escape?, h]
  split
  · next h => simp [scanString, escape?, h]
  split
  · next hslash hplain =>
    have hlow : ¬c.toNat < 0x20 := Nat.not_lt.mpr hplain
    simp [scanString, hslash, hlow]
  split
  · next h => simp [scanString, escape?, h]
  split
  · next h => simp [scanString, escape?, h]
  split
  · next h => simp [scanString, escape?, h]
  split
  · next h => simp [scanString, escape?, h]
  split
  · next h => simp [scanString, escape?, h]
  · next hlow _ _ _ _ _ =>
    obtain ⟨a, b, d, e, hdigits, hunit⟩ := unit?_control (Nat.lt_of_not_le hlow)
    simp [pushControl, hdigits, scanString, hunit]

theorem scanString_quoted (cs rest : List Char) (units : List Nat) :
    scanString (cs.flatMap escaped ++ '"' :: rest) units =
      some (units.reverse ++ cs.map Char.toNat, rest) := by
  induction cs generalizing units with
  | nil => simp [scanString]
  | cons c cs ih => simp [scanString_escaped, ih]

theorem isSurrogate_toNat (c : Char) : isSurrogate c.toNat = false := by
  have hvalid : c.toNat < 0xD800 ∨ 0xDFFF < c.toNat ∧ c.toNat < 0x110000 := c.valid
  unfold isSurrogate
  simp only [Bool.and_eq_false_iff, decide_eq_false_iff_not]
  omega

theorem joinUnits_toNat (cs : List Char) : joinUnits (cs.map Char.toNat) = some cs := by
  induction cs with
  | nil => rfl
  | cons c cs ih =>
    cases cs with
    | nil => simp [joinUnits, isSurrogate_toNat]
    | cons d cs =>
      simp only [List.map_cons] at ih ⊢
      simp [joinUnits, isSurrogate_toNat, ih]

/-- A string is scanned from what it is written as. -/
theorem scanOne_quoted (s : String) (rest : List Char) :
    scanOne (quoted s ++ rest) = some (.string (some s), rest) := by
  simp [quoted, scanOne, scanString_quoted, joinUnits_toNat]

/-! ## Numbers -/

theorem digitsValue_toDigits (n : Nat) : digitsValue (Nat.toDigits 10 n) = n := by
  have hvalue (cs : List Char) : digitsValue cs = Nat.ofDigitChars 10 cs 0 := by
    unfold digitsValue Nat.ofDigitChars
    congr
    funext total c
    rw [Nat.mul_comm]
    rfl
  rw [hvalue, Nat.ofDigitChars_toDigits (by decide) (by decide)]

theorem isDigit_toDigits (n : Nat) : ∀ c ∈ Nat.toDigits 10 n, c.isDigit :=
  fun _ hc => Nat.isDigit_of_mem_toDigits (by decide) (by decide) hc

theorem scanDigits_toDigits (n : Nat) :
    scanDigits (Nat.toDigits 10 n) = some (Nat.toDigits 10 n, []) := by
  rw [scanDigits, List.span_eq_takeWhile_dropWhile,
    List.takeWhile_eq_self_iff.mpr (isDigit_toDigits n),
    List.dropWhile_eq_nil_iff.mpr (isDigit_toDigits n)]
  simp [Nat.toDigits_ne_nil]

/-- Only zero is written with a zero in front. -/
theorem eq_zero_of_front (n : Nat) (h : (Nat.toDigits 10 n).head? = some '0') : n = 0 := by
  induction n using Nat.strongRecOn with
  | ind n ih =>
    rw [Nat.toDigits_eq_if (by decide)] at h
    split at h
    · next hlt =>
      have hall : ∀ n : Fin 10, n.val.digitChar = '0' → n.val = 0 := by decide
      exact hall ⟨n, hlt⟩ (by simpa using h)
    · next hge =>
      have hfront : (Nat.toDigits 10 (n / 10)).head? = some '0' := by
        rwa [List.head?_append_of_ne_nil _ Nat.toDigits_ne_nil] at h
      have hzero := ih (n / 10) (by omega) hfront
      omega

/-- A whole number below 2^64 is scanned from its digits. -/
theorem scanNumber_toDigits {n : Nat} (h : n < UInt64.size) :
    scanNumber (Nat.toDigits 10 n) = some (.natural n, []) := by
  have hzeros :
      ¬((Nat.toDigits 10 n).head? = some '0' && 1 < (Nat.toDigits 10 n).length) = true := by
    intro hzeros
    obtain ⟨hfront, hlong⟩ := Bool.and_eq_true_iff.mp hzeros
    obtain rfl := eq_zero_of_front n (of_decide_eq_true hfront)
    cases hlong
  have hunsigned : scanUnsigned false (Nat.toDigits 10 n) = some (.natural n, []) := by
    rw [scanUnsigned, scanDigits_toDigits]
    simp only [Option.bind_eq_bind, Option.bind_some, if_neg hzeros, scanFraction, scanExponent,
      numberOf, digitsValue_toDigits, h]
    rfl
  obtain ⟨c, cs, hcons⟩ := List.exists_cons_of_ne_nil (Nat.toDigits_ne_nil (b := 10) (n := n))
  -- A minus in front would be read as a sign.
  have hminus : c ≠ '-' := by
    rintro rfl
    have hdigit := isDigit_toDigits n '-' (hcons ▸ List.mem_cons_self)
    cases hdigit
  rw [hcons] at hunsigned ⊢
  rw [scanNumber_unsigned hminus, hunsigned]

/-! ## Texts -/

mutual

/-- Writing a value appends to what has been written before. -/
theorem toList_push (out : String) (j : Json) :
    (push out j).toList = out.toList ++ (push "" j).toList := by
  cases j with
  | null => simp [push]
  | bool b => cases b <;> simp [push]
  | number n => simp [push]
  | string s => exact toList_pushText_append out s
  | array items =>
    rw [push, push, String.toList_push, String.toList_push, toList_pushItems _ _ items,
      toList_pushItems ("".push '[') _ items]
    simp
  | object fields =>
    rw [push, push, String.toList_push, String.toList_push, toList_pushFields _ _ fields,
      toList_pushFields ("".push '\x7b') _ fields]
    simp

theorem toList_pushItems (out : String) (first : Bool) (items : List Json) :
    (pushItems out first items).toList = out.toList ++ (pushItems "" first items).toList := by
  cases items with
  | nil => simp [pushItems]
  | cons j rest =>
    rw [pushItems, pushItems, toList_pushItems _ _ rest, toList_pushItems (push _ _) _ rest,
      toList_push _ j, toList_push (if first then "" else _) j]
    cases first <;> simp

theorem toList_pushFields (out : String) (first : Bool) (fields : List (Text × Json)) :
    (pushFields out first fields).toList = out.toList ++ (pushFields "" first fields).toList := by
  cases fields with
  | nil => simp [pushFields]
  | cons field rest =>
    obtain ⟨k, j⟩ := field
    rw [pushFields, pushFields, toList_pushFields _ _ rest, toList_pushFields (push _ _) _ rest,
      toList_push _ j, toList_push ((pushText (if first then "" else _) _).push _) j,
      String.toList_push, String.toList_push, toList_pushText_append,
      toList_pushText_append (if first then "" else _)]
    cases first <;> simp

end

/-! ## Values -/

/-- The text of `j` denotes `k`. -/
def ReadsAs (j k : Json) : Prop := ofText? j.toText = some k

theorem ReadsAs.denotes {j k : Json} (h : ReadsAs j k) : Denotes (push "" j).toList k :=
  ofText?_eq_some_iff.mp h

@[simp] theorem readsAs_null : ReadsAs .null .null := rfl

@[simp] theorem readsAs_bool (b : Bool) : ReadsAs (.bool b) (.bool b) := by
  cases b <;> rfl

theorem isBlank_of_isDigit {c : Char} (h : c.isDigit) : isBlank c = false := by
  cases hblank : isBlank c with
  | false => rfl
  | true =>
    simp only [isBlank, Bool.or_eq_true, decide_eq_true_eq] at hblank
    rcases hblank with ((rfl | rfl) | rfl) | rfl <;> cases h

/-- A number below 2^64 denotes itself. -/
theorem readsAs_nat {n : Nat} (h : n < UInt64.size) : ReadsAs (nat n) (nat n) := by
  have htext : (push "" (nat n)).toList = Nat.toDigits 10 n := by
    simp [push, nat, numeral, Nat.toList_repr]
  obtain ⟨c, cs, hcons⟩ := List.exists_cons_of_ne_nil (Nat.toDigits_ne_nil (b := 10) (n := n))
  have hdigit : c.isDigit := isDigit_toDigits n c (hcons ▸ List.mem_cons_self)
  have hone : scanOne (c :: cs) = some (.number (.natural n), []) := by
    rw [scanOne_number (.inr hdigit), ← hcons, scanNumber_toDigits h]
    rfl
  change read (.value []) (push "" (nat n)).toList = some (nat n)
  rw [htext, hcons, read_step (isBlank_of_isDigit hdigit) hone]
  rfl

@[simp] theorem readsAs_uint8 (b : UInt8) : ReadsAs (nat b.toNat) (nat b.toNat) :=
  readsAs_nat (Nat.lt_trans b.toNat_lt_size (by decide))

@[simp] theorem readsAs_uint16 (w : UInt16) : ReadsAs (nat w.toNat) (nat w.toNat) :=
  readsAs_nat (Nat.lt_trans w.toNat_lt_size (by decide))

@[simp] theorem readsAs_uint32 (n : UInt32) : ReadsAs (nat n.toNat) (nat n.toNat) :=
  readsAs_nat (Nat.lt_trans n.toNat_lt_size (by decide))

@[simp] theorem readsAs_uint64 (n : UInt64) : ReadsAs (nat n.toNat) (nat n.toNat) :=
  readsAs_nat n.toNat_lt_size

theorem read_quoted (s : State) (t : String) (rest : List Char) :
    read s (quoted t ++ rest) = (next s (.string (some t))).bind (read · rest) :=
  read_step rfl (scanOne_quoted t rest) s

/-- A string denotes itself. -/
@[simp] theorem readsAs_str (s : String) : ReadsAs (str s) (str s) := by
  have htext : (push "" (str s)).toList = quoted s ++ [] := by
    rw [str, push, toList_pushText]
    simp
  change read (.value []) (push "" (str s)).toList = some (str s)
  rw [htext, read_quoted]
  rfl

/-! ## Punctuation -/

theorem read_leftBracket (s : State) (cs : List Char) :
    read s ('[' :: cs) = (next s .leftBracket).bind (read · cs) := read_step rfl rfl s

theorem read_leftBrace (s : State) (cs : List Char) :
    read s ('\x7b' :: cs) = (next s .leftBrace).bind (read · cs) := read_step rfl rfl s

theorem read_comma (s : State) (cs : List Char) :
    read s (',' :: cs) = (next s .comma).bind (read · cs) := read_step rfl rfl s

theorem read_colon (s : State) (cs : List Char) :
    read s (':' :: cs) = (next s .colon).bind (read · cs) := read_step rfl rfl s

/-! ## Arrays and objects -/

theorem toList_pushItems_cons (j : Json) (rest : List Json) :
    (pushItems "" false (j :: rest)).toList =
      ',' :: ((push "" j).toList ++ (pushItems "" false rest).toList) := by
  rw [pushItems, toList_pushItems, toList_push]
  simp

theorem stops_pushItems (items : List Json) :
    Stops ((pushItems "" false items).toList ++ [']']) := by
  cases items with
  | nil => exact .inr (.inl rfl)
  | cons item items =>
    rw [toList_pushItems_cons]
    exact .inl rfl

/-- After an element of an array, the others and its end are read. -/
theorem read_pushItems {items values : List Json} (h : List.Forall₂ ReadsAs items values)
    (before : List Json) (j : Json) :
    read (.done [.array before] j) ((pushItems "" false items).toList ++ [']']) =
      some (.array (before.reverse ++ j :: values)) := by
  induction h generalizing before j with
  | nil =>
    have hclose : read (.done [.array before] j) [']'] = some (.array (j :: before).reverse) := rfl
    simpa [pushItems] using hclose
  | @cons item value items values hitem _ ih =>
    rw [toList_pushItems_cons, List.cons_append, read_comma, List.append_assoc]
    change read (.value [.array (j :: before)]) _ = _
    rw [read_value_append hitem.denotes (stops_pushItems items), ih]
    simp

/-- An array denotes the array of what its elements denote. -/
theorem readsAs_array {items values : List Json} (h : List.Forall₂ ReadsAs items values) :
    ReadsAs (.array items) (.array values) := by
  cases h with
  | nil => rfl
  | @cons item value items values hitem hrest =>
    have htext : (push "" (.array (item :: items))).toList =
        '[' :: ((push "" item).toList ++ ((pushItems "" false items).toList ++ [']'])) := by
      rw [push, pushItems, String.toList_push, toList_pushItems, toList_push]
      simp
    change read (.value []) (push "" (.array (item :: items))).toList = _
    rw [htext, read_leftBracket]
    change read (.items []) _ = _
    rw [read_items_append hitem.denotes (stops_pushItems items), read_pushItems hrest]
    rfl

/-- The fields have the same name, and the text of the one value denotes the other. -/
structure FieldReadsAs (f g : String × Json) : Prop where
  name : f.1 = g.1
  value : ReadsAs f.2 g.2

/-- The fields of an object as the writer and the reader hold them. -/
def named (fields : List (String × Json)) : List (Text × Json) :=
  fields.map fun (k, v) => (some k, v)

theorem named_cons (k : String) (j : Json) (rest : List (String × Json)) :
    named ((k, j) :: rest) = (some k, j) :: named rest := rfl

theorem toList_pushFields_cons (k : String) (j : Json) (rest : List (Text × Json)) :
    (pushFields "" false ((some k, j) :: rest)).toList =
      ',' :: (quoted k ++ ':' :: ((push "" j).toList ++ (pushFields "" false rest).toList)) := by
  rw [pushFields, toList_pushFields, toList_push, String.toList_push, toList_pushText]
  simp

theorem stops_pushFields (fields : List (String × Json)) :
    Stops ((pushFields "" false (named fields)).toList ++ ['\x7d']) := by
  cases fields with
  | nil => exact .inr (.inr rfl)
  | cons field fields =>
    obtain ⟨k, j⟩ := field
    rw [named_cons, toList_pushFields_cons]
    exact .inl rfl

/-- After a field of an object, the others and its end are read. -/
theorem read_pushFields {fields values : List (String × Json)}
    (h : List.Forall₂ FieldReadsAs fields values) (before : List (Text × Json)) (k : Text)
    (j : Json) :
    read (.done [.object before k] j) ((pushFields "" false (named fields)).toList ++ ['\x7d']) =
      some (.object (before.reverse ++ (k, j) :: named values)) := by
  induction h generalizing before k j with
  | nil =>
    have hclose : read (.done [.object before k] j) ['\x7d'] =
        some (.object ((k, j) :: before).reverse) := rfl
    simpa [pushFields, named] using hclose
  | @cons field value fields values hfield _ ih =>
    obtain ⟨name, item⟩ := field
    obtain ⟨_, j'⟩ := value
    obtain ⟨rfl, hvalue⟩ := hfield
    have hdenotes : Denotes (push "" item).toList j' := hvalue.denotes
    rw [named_cons, toList_pushFields_cons, List.cons_append, read_comma, List.append_assoc]
    change read (.key [] ((k, j) :: before)) _ = _
    rw [read_quoted]
    change read (.colon [] ((k, j) :: before) (some name)) _ = _
    rw [List.cons_append, read_colon, List.append_assoc]
    change read (.value [.object ((k, j) :: before) (some name)]) _ = _
    rw [read_value_append hdenotes (stops_pushFields fields), ih, named_cons]
    simp

/-- A record denotes the record of what its fields denote. -/
theorem readsAs_record {fields values : List (String × Json)}
    (h : List.Forall₂ FieldReadsAs fields values) : ReadsAs (record fields) (record values) := by
  cases h with
  | nil => rfl
  | @cons field value fields values hfield hrest =>
    obtain ⟨name, item⟩ := field
    obtain ⟨_, j⟩ := value
    obtain ⟨rfl, hvalue⟩ := hfield
    have hdenotes : Denotes (push "" item).toList j := hvalue.denotes
    have htext : (push "" (record ((name, item) :: fields))).toList =
        '\x7b' :: (quoted name ++ ':' :: ((push "" item).toList ++
          ((pushFields "" false (named fields)).toList ++ ['\x7d']))) := by
      rw [record, List.map_cons, push, pushFields, String.toList_push, toList_pushFields,
        toList_push, String.toList_push, toList_pushText]
      simp [named]
    change read (.value []) (push "" (record ((name, item) :: fields))).toList = _
    rw [htext, read_leftBrace]
    change read (.fields []) _ = _
    rw [read_quoted]
    change read (.colon [] [] (some name)) _ = _
    rw [read_colon]
    change read (.value [.object [] (some name)]) _ = _
    rw [read_value_append hdenotes (stops_pushFields fields), read_pushFields hrest]
    rfl

/-- A record of values that denote themselves denotes itself. -/
theorem readsAs_record_self {fields : List (String × Json)}
    (h : ∀ field ∈ fields, ReadsAs field.2 field.2) : ReadsAs (record fields) (record fields) :=
  readsAs_record (List.forall₂_same.mpr fun field hfield => ⟨rfl, h field hfield⟩)

/-- An array of values that denote themselves denotes itself. -/
theorem readsAs_array_self {items : List Json} (h : ∀ item ∈ items, ReadsAs item item) :
    ReadsAs (.array items) (.array items) := readsAs_array (List.forall₂_same.mpr h)

end Famicom.Json
