import Mathlib.Data.List.TakeDrop
import Famicom.Json.Token

/-!
# Scanning piece by piece

A text in front of a comma or a closing bracket is cut into the tokens that it is cut into alone.
Strings end by themselves, so what follows a string makes no difference at all.

* `scan_append` — the tokens of a text and of what follows it.
* `scan_of_scanOne` — the token at the front of a text.
-/

namespace Famicom.Json.Token

/-! ## Where tokens end -/

/-- The rest of a text in front of which every token ends: nothing, or a comma or a closing bracket
and what follows. -/
def Stops : List Char → Prop
  | [] => True
  | c :: _ => c = ',' ∨ c = ']' ∨ c = '\x7d'

variable {rest : List Char}

/-- A rest that is not empty starts with one of three characters. -/
theorem Stops.cases (h : Stops rest) :
    rest = [] ∨ ∃ c tail, rest = c :: tail ∧ (c = ',' ∨ c = ']' ∨ c = '\x7d') := by
  cases rest with
  | nil => exact .inl rfl
  | cons c tail => exact .inr ⟨c, tail, rfl, h⟩

/-! ## Numbers -/

theorem span_isDigit_append (h : Stops rest) (cs : List Char) :
    (cs ++ rest).span Char.isDigit =
      ((cs.span Char.isDigit).1, (cs.span Char.isDigit).2 ++ rest) := by
  simp only [List.span_eq_takeWhile_dropWhile]
  induction cs with
  | nil => obtain rfl | ⟨c, tail, rfl, rfl | rfl | rfl⟩ := h.cases <;> rfl
  | cons c cs ih =>
    obtain ⟨htake, hdrop⟩ := Prod.ext_iff.mp ih
    cases hc : c.isDigit
    · simp [hc]
    · simp_all

theorem scanDigits_append (h : Stops rest) (cs : List Char) :
    scanDigits (cs ++ rest) = (scanDigits cs).map fun (digits, left) => (digits, left ++ rest) := by
  unfold scanDigits
  rw [span_isDigit_append h]
  dsimp only
  split <;> rfl

theorem scanFraction_append (h : Stops rest) (cs : List Char) :
    scanFraction (cs ++ rest) =
      (scanFraction cs).map fun (fraction, left) => (fraction, left ++ rest) := by
  cases cs with
  | nil => obtain rfl | ⟨c, tail, rfl, rfl | rfl | rfl⟩ := h.cases <;> rfl
  | cons c cs =>
    by_cases hpoint : c = '.'
    · subst hpoint
      simp only [List.cons_append, scanFraction, scanDigits_append h, Option.map_map]
      rfl
    · simp [scanFraction, hpoint]

theorem scanSigned_append (h : Stops rest) (cs : List Char) :
    scanSigned (cs ++ rest) = (scanSigned cs).map fun (e, left) => (e, left ++ rest) := by
  cases cs with
  | nil => obtain rfl | ⟨c, tail, rfl, rfl | rfl | rfl⟩ := h.cases <;> rfl
  | cons c cs =>
    by_cases hplus : c = '+'
    · subst hplus
      simp only [List.cons_append, scanSigned, scanDigits_append h, Option.map_map]
      rfl
    by_cases hminus : c = '-'
    · subst hminus
      simp only [List.cons_append, scanSigned, scanDigits_append h, Option.map_map]
      rfl
    · have hplain (tail : List Char) : scanSigned (c :: tail) =
          (scanDigits (c :: tail)).map fun (digits, left) =>
            ((digitsValue digits : Int), left) := by
        simp [scanSigned, hplus, hminus]
      rw [List.cons_append, hplain, hplain, ← List.cons_append, scanDigits_append h,
        Option.map_map, Option.map_map]
      rfl

theorem scanExponent_append (h : Stops rest) (cs : List Char) :
    scanExponent (cs ++ rest) = (scanExponent cs).map fun (e, left) => (e, left ++ rest) := by
  cases cs with
  | nil => obtain rfl | ⟨c, tail, rfl, rfl | rfl | rfl⟩ := h.cases <;> rfl
  | cons c cs =>
    by_cases hmark : c = 'e' ∨ c = 'E'
    · obtain rfl | rfl := hmark <;>
        simp only [List.cons_append, scanExponent, scanSigned_append h, Option.map_map] <;> rfl
    · obtain ⟨hlower, hupper⟩ := not_or.mp hmark
      simp [scanExponent, hlower, hupper]

/-- Scan a number whose sign has been read. -/
def scanUnsigned (minus : Bool) (cs : List Char) : Option (Number × List Char) := do
  let (whole, cs) ← scanDigits cs
  if whole.head? = some '0' && 1 < whole.length then none
  let (fraction, cs) ← scanFraction cs
  let (exponent, cs) ← scanExponent cs
  return (numberOf minus whole fraction exponent, cs)

theorem scanNumber_minus (cs : List Char) : scanNumber ('-' :: cs) = scanUnsigned true cs := rfl

theorem scanNumber_unsigned {c : Char} (h : c ≠ '-') (cs : List Char) :
    scanNumber (c :: cs) = scanUnsigned false (c :: cs) := by
  simp [scanNumber, scanUnsigned, h]

theorem scanUnsigned_append (h : Stops rest) (minus : Bool) (cs : List Char) :
    scanUnsigned minus (cs ++ rest) =
      (scanUnsigned minus cs).map fun (n, left) => (n, left ++ rest) := by
  unfold scanUnsigned
  rw [scanDigits_append h]
  rcases scanDigits cs with _ | ⟨whole, left⟩
  · rfl
  simp only [Option.map_some, Option.bind_eq_bind, Option.bind_some]
  split
  · rfl
  rw [scanFraction_append h]
  rcases scanFraction left with _ | ⟨fraction, left⟩
  · rfl
  simp only [Option.map_some, Option.bind_some, Option.pure_def]
  rw [scanExponent_append h]
  rcases scanExponent left with _ | ⟨exponent, left⟩ <;> rfl

/-- What follows a number after its end makes no difference to it. -/
theorem scanNumber_append (h : Stops rest) (cs : List Char) :
    scanNumber (cs ++ rest) = (scanNumber cs).map fun (n, left) => (n, left ++ rest) := by
  cases cs with
  | nil => obtain rfl | ⟨c, tail, rfl, rfl | rfl | rfl⟩ := h.cases <;> rfl
  | cons c cs =>
    by_cases hminus : c = '-'
    · subst hminus
      exact scanUnsigned_append h true cs
    · rw [List.cons_append, scanNumber_unsigned hminus, scanNumber_unsigned hminus]
      exact scanUnsigned_append h false (c :: cs)

theorem scanNumber_front {cs left : List Char} {n : Number}
    (h : scanNumber cs = some (n, left)) :
    ∃ c tail, cs = c :: tail ∧ (c = '-' ∨ c.isDigit) := by
  cases cs with
  | nil => cases h
  | cons c tail =>
    refine ⟨c, tail, rfl, ?_⟩
    by_cases hminus : c = '-'
    · exact .inl hminus
    · rw [scanNumber_unsigned hminus] at h
      cases hdigit : c.isDigit
      · simp [scanUnsigned, scanDigits, List.span_eq_takeWhile_dropWhile, hdigit] at h
      · exact .inr rfl

theorem length_scanDigits {cs digits left : List Char} (h : scanDigits cs = some (digits, left)) :
    left.length < cs.length := by
  unfold scanDigits at h
  rw [List.span_eq_takeWhile_dropWhile] at h
  dsimp only at h
  split at h
  · cases h
  · next hsome =>
    cases h
    have hlength := congrArg List.length
      (List.takeWhile_append_dropWhile (p := Char.isDigit) (l := cs))
    have hpos : 0 < (cs.takeWhile Char.isDigit).length := by
      simpa [List.isEmpty_iff, List.length_pos_iff] using hsome
    rw [List.length_append] at hlength
    omega

theorem length_scanFraction {cs left : List Char} {fraction : Option (List Char)}
    (h : scanFraction cs = some (fraction, left)) : left.length ≤ cs.length := by
  unfold scanFraction at h
  split at h
  · obtain ⟨⟨digits, left'⟩, hdigits, heq⟩ := Option.map_eq_some_iff.mp h
    cases heq
    have hleft := length_scanDigits hdigits
    simp only [List.length_cons]
    omega
  · cases h
    exact Nat.le_refl _

theorem length_scanSigned {cs left : List Char} {e : Int} (h : scanSigned cs = some (e, left)) :
    left.length ≤ cs.length := by
  unfold scanSigned at h
  split at h
  case h_3 =>
    obtain ⟨⟨digits, left'⟩, hdigits, heq⟩ := Option.map_eq_some_iff.mp h
    cases heq
    exact Nat.le_of_lt (length_scanDigits hdigits)
  all_goals
    obtain ⟨⟨digits, left'⟩, hdigits, heq⟩ := Option.map_eq_some_iff.mp h
    cases heq
    have hleft := length_scanDigits hdigits
    simp only [List.length_cons]
    omega

theorem length_scanExponent {cs left : List Char} {e : Option Int}
    (h : scanExponent cs = some (e, left)) : left.length ≤ cs.length := by
  unfold scanExponent at h
  split at h
  case h_3 =>
    cases h
    exact Nat.le_refl _
  all_goals
    obtain ⟨⟨e', left'⟩, hsigned, heq⟩ := Option.map_eq_some_iff.mp h
    cases heq
    have hleft := length_scanSigned hsigned
    simp only [List.length_cons]
    omega

theorem length_scanUnsigned {minus : Bool} {cs left : List Char} {n : Number}
    (h : scanUnsigned minus cs = some (n, left)) : left.length < cs.length := by
  unfold scanUnsigned at h
  obtain ⟨⟨whole, left₁⟩, hwhole, h⟩ := Option.bind_eq_some_iff.mp h
  dsimp only at h
  split at h
  · cases h
  obtain ⟨⟨fraction, left₂⟩, hfraction, h⟩ := Option.bind_eq_some_iff.mp h
  obtain ⟨⟨exponent, left₃⟩, hexponent, h⟩ := Option.bind_eq_some_iff.mp h
  cases h
  calc left₃.length
    _ ≤ left₂.length := length_scanExponent hexponent
    _ ≤ left₁.length := length_scanFraction hfraction
    _ < cs.length := length_scanDigits hwhole

theorem length_scanNumber {cs left : List Char} {n : Number} (h : scanNumber cs = some (n, left)) :
    left.length < cs.length := by
  obtain ⟨c, tail, rfl, -⟩ := scanNumber_front h
  by_cases hminus : c = '-'
  · subst hminus
    rw [scanNumber_minus] at h
    have hleft := length_scanUnsigned h
    simp only [List.length_cons]
    omega
  · rw [scanNumber_unsigned hminus] at h
    exact length_scanUnsigned h

/-! ## Strings -/

/-- What follows a string after its closing quote makes no difference to it. -/
theorem scanString_append {cs left : List Char} {units read : List Nat} (more : List Char)
    (h : scanString cs units = some (read, left)) :
    scanString (cs ++ more) units = some (read, left ++ more) := by
  induction cs, units using scanString.induct with
  | case1 rest units => simp_all [scanString]
  | case2 a b c d rest units u hu ih => simp_all [scanString]
  | case3 a b c d rest units hu => simp_all [scanString]
  | case4 e rest units hne u hu ih =>
    -- Otherwise the escape would need four digits, and these may stand in `more`.
    have he : e ≠ 'u' := by
      rintro rfl
      cases hu
    simp_all [scanString]
  | case5 e rest units hne hu => simp_all [scanString]
  | case6 c rest units h1 h2 h3 hlow => simp_all [scanString]
  | case7 c rest units hquote hunit hescape hlow ih =>
    have hc : c ≠ '\\' := by
      rintro rfl
      cases rest with
      | nil => simp [scanString] at h
      | cons e tail => exact hescape e tail rfl rfl
    simp_all [scanString]
  | case8 units => simp_all [scanString]

theorem length_scanString {cs left : List Char} {units read : List Nat}
    (h : scanString cs units = some (read, left)) : left.length < cs.length := by
  induction cs, units using scanString.induct with
  | case1 rest units => simp_all [scanString]
  | case2 a b c d rest units u hu ih =>
    have hleft := ih (by simpa [scanString, hu] using h)
    simp only [List.length_cons]
    omega
  | case3 a b c d rest units hu => simp_all [scanString]
  | case4 e rest units hunit u hu ih =>
    have hleft := ih (by simpa [scanString, hu] using h)
    simp only [List.length_cons]
    omega
  | case5 e rest units hunit hu => simp_all [scanString]
  | case6 c rest units hquote hunit hescape hlow => simp_all [scanString]
  | case7 c rest units hquote hunit hescape hlow ih =>
    have hleft := ih (by simpa [scanString, hlow] using h)
    simp only [List.length_cons]
    omega
  | case8 units => simp_all [scanString]

/-! ## Tokens -/

/-- A digit or a minus starts a number and nothing else. -/
theorem scanOne_number {c : Char} (hc : c = '-' ∨ c.isDigit) (cs : List Char) :
    scanOne (c :: cs) = (scanNumber (c :: cs)).map fun (n, left) => (.number n, left) := by
  unfold scanOne
  split
  case h_11 => rfl
  all_goals
    next heq =>
      cases heq
      simp at hc

/-- What follows a token after its end makes no difference to it. -/
theorem scanOne_append {cs left : List Char} {token : Token} (hrest : Stops rest)
    (h : scanOne cs = some (token, left)) : scanOne (cs ++ rest) = some (token, left ++ rest) := by
  unfold scanOne at h
  split at h
  case h_7 tail =>
    obtain ⟨⟨units, left'⟩, hstring, heq⟩ := Option.map_eq_some_iff.mp h
    cases heq
    simp [scanOne, scanString_append rest hstring]
  case h_11 =>
    obtain ⟨⟨n, left'⟩, hnumber, heq⟩ := Option.map_eq_some_iff.mp h
    cases heq
    obtain ⟨c, tail, rfl, hc⟩ := scanNumber_front hnumber
    have happend := scanNumber_append hrest (c :: tail)
    rw [hnumber] at happend
    rw [List.cons_append, scanOne_number hc, ← List.cons_append, happend]
    rfl
  all_goals
    cases h
    rfl

/-- Every token takes at least one character. -/
theorem length_scanOne {cs left : List Char} {token : Token}
    (h : scanOne cs = some (token, left)) : left.length < cs.length := by
  unfold scanOne at h
  split at h
  case h_7 tail =>
    obtain ⟨⟨units, left'⟩, hstring, heq⟩ := Option.map_eq_some_iff.mp h
    cases heq
    have hleft := length_scanString hstring
    simp only [List.length_cons]
    omega
  case h_11 =>
    obtain ⟨⟨n, left'⟩, hnumber, heq⟩ := Option.map_eq_some_iff.mp h
    cases heq
    exact length_scanNumber hnumber
  all_goals
    cases h
    simp only [List.length_cons]
    omega

/-! ## Whole texts -/

theorem scanAll_cons (fuel : Nat) (c : Char) (cs : List Char) (found : List Token) :
    scanAll (fuel + 1) (c :: cs) found =
      if isBlank c then scanAll fuel cs found
      else match scanOne (c :: cs) with
        | some (token, left) => scanAll fuel left (token :: found)
        | none => none := rfl

theorem scanAll_nil (fuel : Nat) (found : List Token) :
    scanAll fuel [] found = some found.reverse := by
  cases fuel <;> rfl

/-- Fuel for every character is enough, and what was found before stays in front. -/
theorem scanAll_eq {fuel : Nat} {cs : List Char} (h : cs.length ≤ fuel) (found : List Token) :
    scanAll fuel cs found = (scan cs).map (found.reverse ++ ·) := by
  unfold scan
  induction fuel using Nat.strongRecOn generalizing cs found with
  | ind fuel ih =>
    cases cs with
    | nil => simp [scanAll_nil]
    | cons c cs =>
      cases fuel with
      | zero => cases h
      | succ fuel =>
        have hcs : cs.length ≤ fuel := Nat.le_of_succ_le_succ h
        rw [scanAll_cons, List.length_cons, scanAll_cons]
        split
        · exact ih fuel (Nat.lt_succ_self fuel) hcs found
        rcases hone : scanOne (c :: cs) with _ | ⟨token, left⟩
        · rfl
        have hleft : left.length ≤ cs.length := Nat.le_of_lt_succ (length_scanOne hone)
        dsimp only
        -- The token leaves less text than there is fuel on either side.
        rw [ih fuel (Nat.lt_succ_self fuel) (Nat.le_trans hleft hcs),
          ih cs.length (Nat.lt_succ_of_le hcs) hleft, Option.map_map]
        simp [Function.comp_def]

theorem scan_blank {c : Char} (hc : isBlank c) (cs : List Char) : scan (c :: cs) = scan cs := by
  rw [scan, List.length_cons, scanAll_cons, if_pos hc, scan]

/-- The token at the front of a text that does not start with a blank. -/
theorem scan_of_scanOne {c : Char} {cs left : List Char} {token : Token} (hc : isBlank c = false)
    (h : scanOne (c :: cs) = some (token, left)) :
    scan (c :: cs) = (scan left).map (token :: ·) := by
  have hleft : left.length ≤ cs.length := Nat.le_of_lt_succ (length_scanOne h)
  rw [scan, List.length_cons, scanAll_cons, if_neg (by simp [hc]), h]
  exact scanAll_eq hleft [token]

/-- A text that starts neither with a blank nor with a token has no tokens. -/
theorem scan_of_scanOne_none {c : Char} {cs : List Char} (hc : isBlank c = false)
    (h : scanOne (c :: cs) = none) : scan (c :: cs) = none := by
  rw [scan, List.length_cons, scanAll_cons, if_neg (by simp [hc]), h]

/-- The tokens of a text and of what follows it. -/
theorem scan_append (hrest : Stops rest) {cs : List Char} {tokens : List Token}
    (h : scan cs = some tokens) : scan (cs ++ rest) = (scan rest).map (tokens ++ ·) := by
  -- On the length: a token takes any number of characters.
  induction hn : cs.length using Nat.strongRecOn generalizing cs tokens with
  | ind n ih =>
    subst hn
    cases cs with
    | nil =>
      cases h
      simp
    | cons c cs =>
      cases hc : isBlank c
      · rcases hone : scanOne (c :: cs) with _ | ⟨token, left⟩
        · rw [scan_of_scanOne_none hc hone] at h
          cases h
        rw [scan_of_scanOne hc hone] at h
        obtain ⟨later, hlater, rfl⟩ := Option.map_eq_some_iff.mp h
        have happend : scanOne (c :: (cs ++ rest)) = some (token, left ++ rest) :=
          scanOne_append hrest hone
        rw [List.cons_append, scan_of_scanOne hc happend,
          ih left.length (length_scanOne hone) hlater rfl, Option.map_map]
        rfl
      · rw [scan_blank hc] at h
        rw [List.cons_append, scan_blank hc]
        exact ih cs.length (Nat.lt_succ_self _) h rfl

end Famicom.Json.Token
