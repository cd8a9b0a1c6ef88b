import Mathlib.Data.List.Nodup
import Famicom.Json.Decode

/-!
# Records give back their fields

* `record?_record` — a record with different names holds the values that it was made of.
* `uint8?_nat` and its like — a scalar is taken from what it is kept as.
* `uint8?_bind` and its like — the same at the front of a chain of fields.
-/

namespace Famicom.Json

/-! ## Fields -/

theorem textFields?_some (fields : List (String × Json)) :
    textFields? (fields.map fun (k, v) => (some k, v)) = some fields := by
  induction fields with
  | nil => rfl
  | cons field fields ih =>
    unfold textFields? at ih ⊢
    rw [List.map_cons, List.mapM_cons, ih]
    rfl

theorem valuesOf_cons (k : String) (v : Json) (rest : List (String × Json)) (name : String) :
    valuesOf ((k, v) :: rest) name =
      if k = name then v :: valuesOf rest name else valuesOf rest name := by
  unfold valuesOf
  by_cases h : k = name <;> simp [h]

theorem valuesOf_of_not_mem {fields : List (String × Json)} {name : String}
    (h : name ∉ fields.map (·.1)) : valuesOf fields name = [] := by
  induction fields with
  | nil => rfl
  | cons field rest ih =>
    obtain ⟨hne, hrest⟩ := not_or.mp (mt List.mem_cons.mpr h)
    rw [valuesOf_cons, if_neg (Ne.symm hne), ih hrest]

/-- A name that occurs once has one value. -/
theorem valuesOf_of_nodup {fields : List (String × Json)} (h : (fields.map (·.1)).Nodup)
    {field : String × Json} (hfield : field ∈ fields) :
    valuesOf fields field.1 = [field.2] := by
  induction fields with
  | nil => cases hfield
  | cons first rest ih =>
    obtain ⟨hfirst, hrest⟩ := List.nodup_cons.mp h
    rw [valuesOf_cons]
    obtain rfl | hmem := List.mem_cons.mp hfield
    · rw [if_pos rfl, valuesOf_of_not_mem hfirst]
    · have hne : first.1 ≠ field.1 := fun heq =>
        hfirst (List.mem_map.mpr ⟨field, hmem, heq.symm⟩)
      rw [if_neg hne, ih hrest hmem]

/-- A record holds the values that it was made of. -/
theorem record?_record {fields : List (String × Json)} {names : List String}
    (hnames : fields.map (·.1) = names) (hnodup : names.Nodup) (short : Bool) :
    record? names short (record fields) = some (fields.map (some ·.2)) := by
  subst hnames
  have hvalues (part : List (String × Json)) (hpart : ∀ field ∈ part, field ∈ fields) :
      (part.map (·.1)).mapM (single? fields) = some (part.map (some ·.2)) := by
    induction part with
    | nil => rfl
    | cons field part ih =>
      obtain ⟨hfield, hrest⟩ := List.forall_mem_cons.mp hpart
      rw [List.map_cons, List.mapM_cons, single?, valuesOf_of_nodup hnodup hfield,
        ih hrest]
      rfl
  rw [record, record?, textFields?_some]
  exact hvalues fields fun _ h => h

/-! ## Scalars -/

theorem below?_nat {bound n : Nat} (h : n < bound) : below? bound (nat n) = some n := if_pos h

@[simp] theorem uint8?_nat (b : UInt8) : uint8? (nat b.toNat) = some b := by
  simp [uint8?, below?_nat b.toNat_lt_size]

@[simp] theorem uint16?_nat (w : UInt16) : uint16? (nat w.toNat) = some w := by
  simp [uint16?, below?_nat w.toNat_lt_size]

@[simp] theorem uint32?_nat (n : UInt32) : uint32? (nat n.toNat) = some n := by
  simp [uint32?, below?_nat n.toNat_lt_size]

@[simp] theorem uint64?_nat (n : UInt64) : uint64? (nat n.toNat) = some n := by
  simp [uint64?, below?_nat n.toNat_lt_size]

@[simp] theorem case?_str (s : String) : case? (str s) = some s := rfl

/-- An optional value is read back if values are, and none of them is kept as null. -/
theorem option?_option {α : Type} {encode : α → Json} {decode : Json → Option α}
    (hdecode : ∀ a, decode (encode a) = some a) (hnull : ∀ a, encode a ≠ .null) (o : Option α) :
    option? decode (option encode o) = some o := by
  cases o with
  | none => rfl
  | some a =>
    have ha := hdecode a
    unfold option option?
    split
    · next heq => exact absurd heq (hnull a)
    · rw [ha]
      rfl

/-! ## Chains of fields

A record is decoded by a chain of binds, one for each field.  These lemmas resolve the first bind of
a chain.  Simplifying with them from the outside in, as `↓` does, reads a chain once from its first
field to its last; from the inside out every bind would be visited again under the binders of those
in front of it. -/

theorem bind_of_eq_some {α β : Type} {o : Option α} {a : α} (h : o = some a) (f : α → Option β) :
    (o >>= f) = f a := by
  rw [h]
  rfl

theorem some_bind {α β : Type} (a : α) (f : α → Option β) : (some a >>= f) = f a := rfl

theorem uint8?_bind {β : Type} (b : UInt8) (f : UInt8 → Option β) :
    (uint8? (nat b.toNat) >>= f) = f b := bind_of_eq_some (uint8?_nat b) f

theorem uint16?_bind {β : Type} (w : UInt16) (f : UInt16 → Option β) :
    (uint16? (nat w.toNat) >>= f) = f w := bind_of_eq_some (uint16?_nat w) f

theorem uint32?_bind {β : Type} (n : UInt32) (f : UInt32 → Option β) :
    (uint32? (nat n.toNat) >>= f) = f n := bind_of_eq_some (uint32?_nat n) f

theorem uint64?_bind {β : Type} (n : UInt64) (f : UInt64 → Option β) :
    (uint64? (nat n.toNat) >>= f) = f n := bind_of_eq_some (uint64?_nat n) f

theorem bool?_bind {β : Type} (b : Bool) (f : Bool → Option β) :
    (bool? (.bool b) >>= f) = f b := rfl

theorem text?_bind {β : Type} (s : String) (f : String → Option β) :
    (text? (str s) >>= f) = f s := rfl

/-! ## Tagged records -/

/-- A tagged record whose tag comes first holds its tag and its contents. -/
theorem tagged?_record {tagName contentsName : String} (h : tagName ≠ contentsName)
    (depth : Nat) (tag : String) (contents : Option Json) :
    tagged? tagName contentsName depth
        (record ((tagName, str tag) :: (contents.map fun v => (contentsName, v)).toList)) =
      some ⟨tag, contents, false⟩ := by
  cases contents with
  | none => simp [record, tagged?, textFields?, single?, valuesOf, h, comesBefore]
  | some v => simp [record, tagged?, textFields?, single?, valuesOf, h, h.symm, comesBefore]

end Famicom.Json
