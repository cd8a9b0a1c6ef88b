import Famicom.Patch.Code
import Mathlib.Data.List.Basic
import Mathlib.Tactic.SplitIfs

/-!
# The spellings of a patch

The bits of a patch are scattered over the letters of its code so that every letter carries three
low bits of one place and a fourth bit of another.  Each byte of a patch is thus packed from letters
in the same way, and unpacking is inverse to packing but for the spare bit of the third letter.

* `pack_self`, `low3_pack` and its siblings — packing and unpacking are inverse to each other.
* `letters_ofLetters?`, `ofLetters?_letters` — patches against the values of their letters.
* `decode_ok_iff` — a text is decoded character by character, though it is examined byte by byte.
* `decode_spelled` — which texts are codes, and which of them spell the same patch.
-/

namespace Famicom

/-! ## Blanks -/

namespace Blank

variable {cs : List Char}

theorem dropWhile_isBlank (h : ∀ c ∈ cs, isBlank c = false) : cs.dropWhile isBlank = cs := by
  cases cs with
  | nil => rfl
  | cons c rest =>
    have hc : isBlank c = false := h c List.mem_cons_self
    exact List.dropWhile_cons_of_neg (by rw [hc]; exact Bool.false_ne_true)

/-- A text without blanks is not cut. -/
theorem trim_eq_self (h : ∀ c ∈ cs, isBlank c = false) : trim cs = cs := by
  have hreverse : ∀ c ∈ cs.reverse, isBlank c = false := fun c hc => h c (List.mem_reverse.mp hc)
  rw [trim, dropWhile_isBlank h, dropWhile_isBlank hreverse, List.reverse_reverse]

end Blank

namespace Patch.Code

/-! ## Packed bytes -/

/-- The byte with the upper three bits `x`, the top bit `y`, the lower three bits `z` and the bit
between them `w`, each taken from the place where letters have it. -/
def pack (x y z w : UInt8) : UInt8 := low3 x <<< 4 ||| bit3 y <<< 4 ||| low3 z ||| bit3 w

/-- Every byte is packed from its own halves. -/
theorem pack_self : ∀ b : UInt8, pack (b >>> 4) (b >>> 4) b b = b := by decide +kernel

theorem byteOf_eq (low high third : UInt8) : byteOf low high third = pack high low low third := rfl

theorem addressOf_eq (n1 n2 n3 n4 n5 : UInt8) :
    addressOf n1 n2 n3 n4 n5 = wordOf (pack n2 n1 n4 n3) (pack n3 0x08 n5 n4) := by
  have htop : bit3 0x08 <<< 4 = 0x80 := rfl
  have hlow : bit3 n1 <<< 4 ||| low3 n2 <<< 4 ||| bit3 n3 ||| low3 n4 = pack n2 n1 n4 n3 := by
    rw [pack, UInt8.or_comm (bit3 n1 <<< 4), UInt8.or_assoc _ (bit3 n3), UInt8.or_comm (bit3 n3),
      ← UInt8.or_assoc]
  have hhigh : (0x80 : UInt8) ||| low3 n3 <<< 4 ||| bit3 n4 ||| low3 n5 = pack n3 0x08 n5 n4 := by
    rw [pack, htop, UInt8.or_comm 0x80, UInt8.or_assoc _ (bit3 n4), UInt8.or_comm (bit3 n4),
      ← UInt8.or_assoc]
  rw [addressOf, hlow, hhigh]

theorem and_or_distrib (a b mask : UInt8) : (a ||| b) &&& mask = a &&& mask ||| b &&& mask := by
  apply UInt8.toNat_inj.mp
  simp only [UInt8.toNat_and, UInt8.toNat_or]
  exact Nat.and_or_distrib_right ..

@[simp] theorem low3_or (a b : UInt8) : low3 (a ||| b) = low3 a ||| low3 b :=
  and_or_distrib a b 0x07

@[simp] theorem bit3_or (a b : UInt8) : bit3 (a ||| b) = bit3 a ||| bit3 b :=
  and_or_distrib a b 0x08

@[simp] theorem low3_eight : low3 0x08 = 0 := rfl

/-- The three low bits and the fourth bit of a byte lie apart, and so do the halves they are in. -/
@[simp] theorem byte_parts : ∀ n : UInt8,
    low3 (low3 n) = low3 n ∧ bit3 (low3 n) = 0 ∧ low3 (bit3 n) = 0 ∧ bit3 (bit3 n) = bit3 n ∧
    low3 (low3 n <<< 4) = 0 ∧ bit3 (low3 n <<< 4) = 0 ∧ low3 (bit3 n <<< 4) = 0 ∧
    bit3 (bit3 n <<< 4) = 0 ∧ low3 n >>> 4 = 0 ∧ bit3 n >>> 4 = 0 ∧
    low3 n <<< 4 >>> 4 = low3 n ∧ bit3 n <<< 4 >>> 4 = bit3 n ∧ low3 n < 16 ∧ bit3 n < 16 := by
  decide +kernel

section

variable (x y z w : UInt8)

@[simp] theorem low3_pack : low3 (pack x y z w) = low3 z := by simp [pack]

@[simp] theorem bit3_pack : bit3 (pack x y z w) = bit3 w := by simp [pack]

@[simp] theorem low3_pack_shift : low3 (pack x y z w >>> 4) = low3 x := by
  simp [pack, UInt8.shiftRight_or]

@[simp] theorem bit3_pack_shift : bit3 (pack x y z w >>> 4) = bit3 y := by
  simp [pack, UInt8.shiftRight_or]

end

theorem pack_eq {x y z w b : UInt8} (hx : low3 x = low3 (b >>> 4)) (hy : bit3 y = bit3 (b >>> 4))
    (hz : low3 z = low3 b) (hw : bit3 w = bit3 b) : pack x y z w = b := by
  rw [pack, hx, hy, hz, hw]
  exact pack_self b

/-! ## Letter values -/

/-- A letter value has four bits. -/
theorem low3_or_bit3 : ∀ n : UInt8, n < 16 → low3 n ||| bit3 n = n := by decide +kernel

/-- The third letter with its spare bit as `encode` sets it in a code of `length` letters. -/
def spare (length : Nat) (n : UInt8) : UInt8 := low3 n ||| if length = 8 then 0x08 else 0

theorem ofLetters?_isSome {ns : List UInt8} :
    (∃ c, ofLetters? ns = some c) ↔ ns.length = 6 ∨ ns.length = 8 := by
  constructor
  · rintro ⟨c, hc⟩
    unfold ofLetters? at hc
    split at hc
    · exact .inl rfl
    · exact .inr rfl
    · cases hc
  · rintro (h | h)
    · match ns, h with
      | [n0, n1, n2, n3, n4, n5], _ => exact ⟨_, rfl⟩
    · match ns, h with
      | [n0, n1, n2, n3, n4, n5, n6, n7], _ => exact ⟨_, rfl⟩

/-- The values that spell a patch are the ones it was read from, but for the spare bit. -/
theorem letters_ofLetters? {ns : List UInt8} {c : Code} (h : ofLetters? ns = some c)
    (hns : ∀ n ∈ ns, n < 16) : c.letters = ns.modify 2 (spare ns.length) := by
  have hwhole : ∀ n ∈ ns, low3 n ||| bit3 n = n := fun n hn => low3_or_bit3 n (hns n hn)
  unfold ofLetters? at h
  split at h
  · cases h
    simp only [List.forall_mem_cons] at hwhole
    simp [letters, addressOf_eq, byteOf_eq, lowByte_wordOf, highByte_wordOf, lowLetter, spare,
      hwhole]
  · cases h
    simp only [List.forall_mem_cons] at hwhole
    simp [letters, addressOf_eq, byteOf_eq, lowByte_wordOf, highByte_wordOf, lowLetter, spare,
      hwhole]
  · cases h

theorem bit3_shift_eq_iff : ∀ b : UInt8, bit3 (b >>> 4) = 0x08 ↔ 0x80 ≤ b.toNat := by
  decide +kernel

/-- The top bit of an address is the one that no letter carries. -/
theorem bit3_highByte_iff (addr : UInt16) :
    bit3 (highByte addr >>> 4) = 0x08 ↔ 0x8000 ≤ addr := by
  rw [bit3_shift_eq_iff, toNat_highByte, UInt16.le_iff_toNat_le]
  show 0x80 ≤ addr.toNat / 256 ↔ 0x8000 ≤ addr.toNat
  omega

theorem byteOf_lowLetter {b high third : UInt8} (hhigh : low3 high = low3 (b >>> 4))
    (hthird : bit3 third = bit3 b) : byteOf (lowLetter b) high third = b :=
  pack_eq hhigh (by simp [lowLetter]) (by simp [lowLetter]) hthird

theorem addressOf_parts {addr : UInt16} (h : 0x8000 ≤ addr) {n1 n2 n5 : UInt8}
    (h1 : bit3 n1 = bit3 (lowByte addr >>> 4)) (h2 : low3 n2 = low3 (lowByte addr >>> 4))
    (h5 : low3 n5 = low3 (highByte addr)) :
    addressOf n1 n2 (low3 (highByte addr >>> 4) ||| bit3 (lowByte addr))
      (low3 (lowByte addr) ||| bit3 (highByte addr)) n5 = addr := by
  have htop : bit3 0x08 = bit3 (highByte addr >>> 4) := ((bit3_highByte_iff addr).mpr h).symm
  rw [addressOf_eq, pack_eq (b := lowByte addr) h2 h1 (by simp) (by simp),
    pack_eq (b := highByte addr) (by simp) htop h5 (by simp), wordOf_lowByte_highByte]

/-- A patch in the window of program ROM is read from the values that spell it. -/
theorem ofLetters?_letters {c : Code} (h : 0x8000 ≤ c.address) :
    ofLetters? c.letters = some c := by
  obtain ⟨address, value, compare⟩ := c
  cases compare with
  | none =>
    simp only [letters, ofLetters?]
    rw [addressOf_parts h (by simp) (by simp) (by simp), byteOf_lowLetter (by simp) (by simp)]
  | some e =>
    simp only [letters, ofLetters?]
    rw [addressOf_parts h (by simp) (by simp) (by simp), byteOf_lowLetter (by simp) (by simp),
      byteOf_lowLetter (by simp) (by simp)]

theorem romStart_le_addressOf (n1 n2 n3 n4 n5 : UInt8) : 0x8000 ≤ addressOf n1 n2 n3 n4 n5 := by
  rw [← bit3_highByte_iff, addressOf_eq, highByte_wordOf, bit3_pack_shift]
  rfl

theorem ofLetters?_parts {ns : List UInt8} {c : Code} (h : ofLetters? ns = some c) :
    0x8000 ≤ c.address ∧ (c.compare.isSome ↔ ns.length = 8) := by
  unfold ofLetters? at h
  split at h
  · cases h
    exact ⟨romStart_le_addressOf .., by simp⟩
  · cases h
    exact ⟨romStart_le_addressOf .., by simp⟩
  · cases h

theorem or_lt_sixteen {a b : UInt8} (ha : a < 16) (hb : b < 16) : a ||| b < 16 := by
  rw [UInt8.lt_iff_toNat_lt, UInt8.toNat_or]
  exact Nat.or_lt_two_pow (n := 4) (UInt8.lt_iff_toNat_lt.mp ha) (UInt8.lt_iff_toNat_lt.mp hb)

theorem letters_lt (c : Code) : ∀ n ∈ c.letters, n < 16 := by
  have hjoin (a b : UInt8) : low3 a ||| bit3 b < 16 := or_lt_sixteen (by simp) (by simp)
  have hthird (n : UInt8) : low3 n ||| 0x08 < 16 := or_lt_sixteen (by simp) (by decide)
  obtain ⟨address, value, compare⟩ := c
  cases compare with
  | none => simp [letters, lowLetter, hjoin]
  | some e => simp [letters, lowLetter, hjoin, hthird]

/-! ## Letters -/

/-- The character is a letter of the alphabet in either case. -/
def IsLetter (c : Char) : Prop := c.toUpper ∈ alphabet.toList

instance (c : Char) : Decidable (IsLetter c) :=
  inferInstanceAs (Decidable (c.toUpper ∈ alphabet.toList))

/-- The place of a letter in the alphabet. -/
def place (c : Char) : Nat := alphabet.toList.idxOf c.toUpper

theorem place_lt {c : Char} (h : IsLetter c) : place c < 16 := List.idxOf_lt_length_iff.mpr h

theorem forall_ascii {P : Char → Prop} (h : ∀ n : Fin 128, P (Char.ofNat n)) {c : Char}
    (hc : c.toNat < 128) : P c := by
  have := h ⟨c.toNat, hc⟩
  rwa [Char.ofNat_toNat] at this

theorem IsLetter.lt {c : Char} (h : IsLetter c) : c.toNat < 128 := by
  have hletters : alphabet.toList.all (·.toNat < 128) = true := by decide
  by_contra hhigh
  have hupper : c.toUpper = c := by
    unfold Char.toUpper
    refine dif_neg fun hlower => hhigh ?_
    have hz : c.toNat ≤ 122 := hlower.2
    omega
  exact hhigh (of_decide_eq_true (List.all_eq_true.mp hletters c (hupper ▸ h)))

theorem letterValue?_ascii {c : Char} (hc : c.toNat < 128) :
    letterValue? (.ofNat c.toNat) = if IsLetter c then some (.ofNat (place c)) else none :=
  forall_ascii (P := fun c =>
    letterValue? (.ofNat c.toNat) = if IsLetter c then some (.ofNat (place c)) else none)
    (by decide +kernel) hc

theorem letterValue?_high : ∀ b : UInt8, 0x80 ≤ b → letterValue? b = none := by decide +kernel

/-- The only byte of an ASCII character in UTF-8. -/
theorem utf8EncodeChar_ascii {c : Char} (h : c.toNat < 128) :
    String.utf8EncodeChar c = [.ofNat c.toNat] :=
  if_pos (Nat.le_of_lt_succ h)

/-- The first byte of any other character. -/
theorem utf8EncodeChar_high {c : Char} (h : 128 ≤ c.toNat) :
    ∃ b rest, String.utf8EncodeChar c = b :: rest ∧ 0x80 ≤ b := by
  have hnot : ¬ c.val.toNat ≤ 127 := Nat.not_le.mpr h
  unfold String.utf8EncodeChar
  simp only [if_neg hnot]
  split_ifs
  all_goals
    refine ⟨_, _, rfl, ?_⟩
    rw [UInt8.le_iff_toNat_le, UInt8.toNat_ofNat']
    show 128 ≤ _
    omega

section

variable (code : String) {c : Char} (bytes : List UInt8)

theorem letterValues_letter (h : IsLetter c) :
    letterValues code (String.utf8EncodeChar c ++ bytes) =
      (UInt8.ofNat (place c) :: ·) <$> letterValues code bytes := by
  rw [utf8EncodeChar_ascii h.lt, List.singleton_append, letterValues, letterValue?_ascii h.lt,
    if_pos h]
  rfl

theorem letterValues_other (h : ¬ IsLetter c) :
    ∃ e, letterValues code (String.utf8EncodeChar c ++ bytes) = .error e := by
  by_cases hc : c.toNat < 128
  · refine ⟨.badLetter (.ofNat c.toNat) code, ?_⟩
    rw [utf8EncodeChar_ascii hc, List.singleton_append, letterValues, letterValue?_ascii hc,
      if_neg h]
    rfl
  · obtain ⟨b, rest, hencoded, hb⟩ := utf8EncodeChar_high (Nat.le_of_not_lt hc)
    refine ⟨.badLetter b code, ?_⟩
    rw [hencoded, List.cons_append, letterValues, letterValue?_high b hb]
    rfl

/-- Texts of letters are read letter by letter. -/
theorem letterValues_letters {cs : List Char} (h : ∀ c ∈ cs, IsLetter c) :
    letterValues code (cs.flatMap String.utf8EncodeChar) =
      .ok (cs.map fun c => UInt8.ofNat (place c)) := by
  induction cs with
  | nil => rfl
  | cons c rest ih =>
    obtain ⟨hc, hrest⟩ := List.forall_mem_cons.mp h
    rw [List.flatMap_cons, letterValues_letter code _ hc, ih hrest]
    rfl

/-- Other texts are not, whatever stands before the first character that is no letter. -/
theorem letterValues_error {cs : List Char} (h : ¬ ∀ c ∈ cs, IsLetter c) :
    ∃ e, letterValues code (cs.flatMap String.utf8EncodeChar) = .error e := by
  induction cs with
  | nil => exact absurd (List.forall_mem_nil _) h
  | cons c rest ih =>
    rw [List.flatMap_cons]
    by_cases hc : IsLetter c
    · obtain ⟨e, he⟩ := ih fun hrest => h (List.forall_mem_cons.mpr ⟨hc, hrest⟩)
      exact ⟨e, by rw [letterValues_letter code _ hc, he]; rfl⟩
    · exact letterValues_other code _ hc

end

theorem utf8_ofList (cs : List Char) :
    (String.ofList cs).toUTF8.data.toList = cs.flatMap String.utf8EncodeChar := by
  rw [String.toUTF8_eq_toByteArray, String.toByteArray_ofList, List.utf8Encode,
    List.toList_data_toByteArray]

/-- A text is decoded by the places of its letters. -/
theorem decode_ok_iff {text : String} {c : Code} :
    decode text = .ok c ↔ (∀ l ∈ Blank.trim text.toList, IsLetter l) ∧
      ofLetters? ((Blank.trim text.toList).map fun l => UInt8.ofNat (place l)) = some c := by
  unfold decode
  simp only [utf8_ofList]
  by_cases h : ∀ l ∈ Blank.trim text.toList, IsLetter l
  · rw [letterValues_letters _ h, and_iff_right h]
    simp only [bind, Except.bind]
    cases ofLetters? ((Blank.trim text.toList).map fun l => UInt8.ofNat (place l)) with
    | none => exact iff_of_false nofun nofun
    | some patch =>
      have hpatch : (.ok patch : Except Error Code) = .ok c ↔ patch = c :=
        iff_of_eq (Except.ok.injEq patch c)
      exact hpatch.trans Option.some_inj.symm
  · obtain ⟨e, he⟩ := letterValues_error (String.ofList (Blank.trim text.toList)) h
    rw [he]
    exact iff_of_false nofun fun hc => h hc.1

/-! ## Codes -/

/-- Six or eight letters. -/
def IsCode (cs : List Char) : Prop := (cs.length = 6 ∨ cs.length = 8) ∧ ∀ c ∈ cs, IsLetter c

instance (cs : List Char) : Decidable (IsCode cs) :=
  @instDecidableAnd _ _ inferInstance (List.decidableBAll IsLetter cs)

/-- A code in upper case, its third letter replaced by the one of the lower or the upper half of the
alphabet with the same low bits. -/
def normalForm (cs : List Char) : List Char :=
  (cs.map Char.toUpper).modify 2 fun c =>
    letter (.ofNat (place c % 8 + if cs.length = 8 then 8 else 0))

theorem letter_place {c : Char} (h : IsLetter c) : letter (.ofNat (place c)) = c.toUpper := by
  have hat : ∀ n : Fin 16, letter (.ofNat n) = alphabet.toList[n] := by decide
  exact (hat ⟨place c, place_lt h⟩).trans (List.getElem_idxOf (place_lt h))

theorem place_toUpper {c : Char} (h : IsLetter c) : place c.toUpper = place c := by
  have hupper : alphabet.toList.all (fun l => l.toUpper = l) = true := by decide
  rw [place, of_decide_eq_true (List.all_eq_true.mp hupper _ h), place]

theorem spare_ofNat (length : Nat) {n : Nat} (h : n < 16) :
    spare length (.ofNat n) = .ofNat (n % 8 + if length = 8 then 8 else 0) := by
  have hlow : ∀ n < 16, low3 (.ofNat n) = UInt8.ofNat (n % 8) ∧
      low3 (.ofNat n) ||| 0x08 = UInt8.ofNat (n % 8 + 8) := by decide
  unfold spare
  split
  · exact (hlow n h).2
  · rw [UInt8.or_zero]
    exact (hlow n h).1

/-- What a letter value is written as. -/
theorem letter_written : ∀ n : UInt8, n < 16 → IsLetter (letter n) ∧
    UInt8.ofNat (place (letter n)) = n ∧ Blank.isBlank (letter n) = false := by
  decide +kernel

/-- A patch is written as the normal form of every code that spells it. -/
theorem encode_eq_normalForm {text : String} {c : Code} (h : decode text = .ok c) :
    c.encode = String.ofList (normalForm (Blank.trim text.toList)) := by
  obtain ⟨hletters, hc⟩ := decode_ok_iff.mp h
  have hlt : ∀ n ∈ (Blank.trim text.toList).map fun l => UInt8.ofNat (place l), n < 16 := by
    have hsmall : ∀ n < 16, UInt8.ofNat n < 16 := by decide
    exact List.forall_mem_map.mpr fun l hl => hsmall _ (place_lt (hletters l hl))
  rw [encode, letters_ofLetters? hc hlt, List.length_map]
  congr 1
  refine List.ext_getElem? fun n => ?_
  simp only [normalForm, List.getElem?_map, List.getElem?_modify]
  cases hn : (Blank.trim text.toList)[n]? with
  | none => rfl
  | some l =>
    have hl := hletters l (List.mem_of_getElem? hn)
    by_cases hthird : 2 = n
    · simp [hthird, spare_ofNat _ (place_lt hl), place_toUpper hl]
    · simp [hthird, letter_place hl]

/-- A patch in the window of program ROM is read back from its text. -/
theorem decode_encode {c : Code} (h : 0x8000 ≤ c.address) : decode c.encode = .ok c := by
  have hread := ofLetters?_letters h
  have hwritten := fun n hn => letter_written n (c.letters_lt n hn)
  have htrim : Blank.trim c.encode.toList = c.letters.map letter := by
    rw [encode, String.toList_ofList]
    exact Blank.trim_eq_self (List.forall_mem_map.mpr fun n hn => (hwritten n hn).2.2)
  have hplaces : (c.letters.map letter).map (fun l => UInt8.ofNat (place l)) = c.letters := by
    rw [List.map_map]
    exact (List.map_congr_left fun n hn => (hwritten n hn).2.1).trans (List.map_id _)
  rw [decode_ok_iff, htrim, hplaces]
  exact ⟨List.forall_mem_map.mpr fun n hn => (hwritten n hn).1, hread⟩

theorem decode_ok_iff_isCode {text : String} :
    (∃ c, decode text = .ok c) ↔ IsCode (Blank.trim text.toList) := by
  simp only [decode_ok_iff, exists_and_left, ofLetters?_isSome, List.length_map]
  exact and_comm

/-- **Spellings.**  A text is decoded when it is six or eight letters between blanks, to a patch in
the window of program ROM that expects a byte when there are eight.  Every patch in that window is
decoded from its own text, which is the normal form of every code that spells it, so two codes spell
the same patch when they have the same normal form. -/
theorem decode_spelled :
    (∀ text, (∃ c, decode text = .ok c) ↔ IsCode (Blank.trim text.toList)) ∧
    (∀ text c, decode text = .ok c →
      0x8000 ≤ c.address ∧ (c.compare.isSome ↔ (Blank.trim text.toList).length = 8) ∧
      c.encode = String.ofList (normalForm (Blank.trim text.toList))) ∧
    (∀ c : Code, 0x8000 ≤ c.address → decode c.encode = .ok c) ∧
    (∀ s t : String, IsCode (Blank.trim s.toList) → IsCode (Blank.trim t.toList) →
      (decode s = decode t ↔
        normalForm (Blank.trim s.toList) = normalForm (Blank.trim t.toList))) := by
  have hparts {text : String} {c : Code} (h : decode text = .ok c) :
      0x8000 ≤ c.address ∧ (c.compare.isSome ↔ (Blank.trim text.toList).length = 8) := by
    have hc := ofLetters?_parts (decode_ok_iff.mp h).2
    rwa [List.length_map] at hc
  refine ⟨fun _ => decode_ok_iff_isCode, fun text c h => ⟨(hparts h).1, (hparts h).2,
    encode_eq_normalForm h⟩, fun _ => decode_encode, fun s t hs ht => ?_⟩
  obtain ⟨c, hc⟩ := decode_ok_iff_isCode.mpr hs
  obtain ⟨d, hd⟩ := decode_ok_iff_isCode.mpr ht
  rw [hc, hd, Except.ok.injEq]
  constructor
  · rintro rfl
    exact String.ofList_injective ((encode_eq_normalForm hc).symm.trans (encode_eq_normalForm hd))
  · intro hsame
    have hencode : c.encode = d.encode := by
      rw [encode_eq_normalForm hc, encode_eq_normalForm hd, hsame]
    have hdecode := decode_encode (hparts hc).1
    rw [hencode, decode_encode (hparts hd).1] at hdecode
    exact (Except.ok.inj hdecode).symm

/-- Two codes of one patch, and the text of a patch with an expected byte. -/
theorem decode_spelled_spare :
    decode " sxiopo\n" = decode "SXSOPO" ∧
      decode (encode ⟨0x8ABC, 0xF9, some 0x3E⟩) = .ok ⟨0x8ABC, 0xF9, some 0x3E⟩ :=
  ⟨(decode_spelled.2.2.2 _ _ (by decide) (by decide)).mpr (by decide +kernel),
    decode_spelled.2.2.1 _ (by decide)⟩

end Patch.Code

end Famicom
