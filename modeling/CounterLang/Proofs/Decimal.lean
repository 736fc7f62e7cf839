/-
Which words are numbers, and which numbers they are.

A word stands for an integer if it is one or more decimal digits, with or without a sign
before them, and the integer is what the digits say by their places.  A scan works from the
left, tenfold at each digit, and this says of the result what it is without that order.  The
theorem this file exists for is `Token.ofWord_exact`: of the words with no more digits than
can be read, those that stand for an integer of the range are that number, the spellings of
keywords are keywords, and all others are texts.  In particular each integer is read back
from its notation, however many zeros are put before it.
-/
import CounterLang.Proofs.ScanLimit
import Mathlib.Algebra.GroupWithZero.Nat
import Mathlib.Algebra.Ring.Int.Defs

namespace CounterLang
namespace Numeral

variable {cs sign : List Char} {n : Numeral} {v : Int}

/-! ## What digits say -/

/-- The digit in front has the weight of the power of ten of those behind it. -/
def placeValue : List Char → Nat
  | [] => 0
  | c :: rest => (c.toNat - '0'.toNat) * 10 ^ rest.length + placeValue rest

/-- The integer that a word of digits stands for. -/
inductive Denotes : List Char → Int → Prop
  | plain {digits : List Char} (h : IsDigits digits) : Denotes digits (placeValue digits)
  | plus {digits : List Char} (h : IsDigits digits) : Denotes ('+' :: digits) (placeValue digits)
  | minus {digits : List Char} (h : IsDigits digits) :
    Denotes ('-' :: digits) (-(placeValue digits : Int))

theorem ofDigitChars_eq_placeValue (digits : List Char) :
    Nat.ofDigitChars 10 digits 0 = placeValue digits := by
  induction digits with
  | nil => rfl
  | cons c rest ih =>
    rw [Nat.ofDigitChars_cons, Nat.ofDigitChars_eq_ofDigitChars_zero, ih, placeValue,
      Nat.mul_zero, Nat.zero_add, Nat.mul_comm]

theorem magnitude_eq_placeValue (n : Numeral) : n.magnitude = placeValue n.digits :=
  ofDigitChars_eq_placeValue n.digits

theorem denotes_iff : Denotes cs v ↔ ∃ n, Spells n cs ∧ n.value = v := by
  constructor
  · intro h
    cases h with
    | @plain cs h =>
      refine ⟨⟨false, cs⟩, Spells.plain h, ?_⟩
      rw [value, magnitude_eq_placeValue]
      rfl
    | @plus cs h =>
      refine ⟨⟨false, cs⟩, Spells.plus h, ?_⟩
      rw [value, magnitude_eq_placeValue]
      rfl
    | @minus cs h =>
      refine ⟨⟨true, cs⟩, Spells.minus h, ?_⟩
      rw [value, magnitude_eq_placeValue]
      rfl
  · rintro ⟨n, h, rfl⟩
    rw [value, magnitude_eq_placeValue]
    cases h with
    | plain h => exact Denotes.plain h
    | plus h => exact Denotes.plus h
    | minus h => exact Denotes.minus h

/-- A word stands for one integer at most. -/
theorem Denotes.unique {w : Int} (hv : Denotes cs v) (hw : Denotes cs w) : v = w := by
  obtain ⟨n, hn, rfl⟩ := denotes_iff.mp hv
  obtain ⟨m, hm, rfl⟩ := denotes_iff.mp hw
  have hread := ofChars?_eq_some_iff.mpr hn
  rw [ofChars?_eq_some_iff.mpr hm, Option.some.injEq] at hread
  rw [hread]

theorem ofChars?_eq_none_iff : ofChars? cs = none ↔ ∀ v, ¬Denotes cs v := by
  rw [Option.eq_none_iff_forall_ne_some]
  constructor
  · intro h v hv
    obtain ⟨n, hn, -⟩ := denotes_iff.mp hv
    exact h n (ofChars?_eq_some_iff.mpr hn)
  · intro h n hn
    exact h n.value (denotes_iff.mpr ⟨n, ofChars?_eq_some_iff.mp hn, rfl⟩)

/-! ## Notations of an integer -/

/-- What can stand before the digits of an integer. -/
inductive SignOf (i : Int) : List Char → Prop
  | none (h : 0 ≤ i) : SignOf i []
  | plus (h : 0 ≤ i) : SignOf i ['+']
  | minus (h : i < 0) : SignOf i ['-']

/-- The digits of an integer behind a sign, with zeros between the two. -/
def padded (sign : List Char) (zeros : Nat) (i : Int) : List Char :=
  sign ++ (List.replicate zeros '0' ++ Nat.toDigits 10 i.natAbs)

theorem isDigits_padded (zeros n : Nat) :
    IsDigits (List.replicate zeros '0' ++ Nat.toDigits 10 n) := by
  refine ⟨List.append_ne_nil_of_right_ne_nil _ Nat.toDigits_ne_nil, List.all_eq_true.mpr ?_⟩
  intro c hc
  rcases List.mem_append.mp hc with hc | hc
  · rw [List.eq_of_mem_replicate hc]
    rfl
  · exact isDigit_of_mem hc

theorem placeValue_padded (zeros n : Nat) :
    placeValue (List.replicate zeros '0' ++ Nat.toDigits 10 n) = n := by
  rw [← ofDigitChars_eq_placeValue, Nat.ofDigitChars_append, Nat.ofDigitChars_replicate_zero,
    Nat.mul_zero, Nat.ofDigitChars_ten_toDigits]

theorem SignOf.denotes_padded {i : Int} (h : SignOf i sign) (zeros : Nat) :
    Denotes (padded sign zeros i) i := by
  have hdigits := isDigits_padded zeros i.natAbs
  have hvalue := placeValue_padded zeros i.natAbs
  cases h with
  | none hi =>
    have hplain := Denotes.plain hdigits
    rwa [hvalue, Int.natAbs_of_nonneg hi] at hplain
  | plus hi =>
    have hplus := Denotes.plus hdigits
    rwa [hvalue, Int.natAbs_of_nonneg hi] at hplus
  | minus hi =>
    have hminus := Denotes.minus hdigits
    rwa [hvalue, show -(i.natAbs : Int) = i by omega] at hminus

theorem Spells.length_digits (h : Spells n cs) : n.digits.length = cs.countP Char.isDigit := by
  have hcount : ∀ {digits : List Char}, IsDigits digits →
      digits.length = digits.countP Char.isDigit := fun hdigits =>
    (List.countP_eq_length.mpr (List.all_eq_true.mp hdigits.2)).symm
  cases h with
  | plain h => exact hcount h
  | plus h =>
    rw [List.countP_cons_of_neg (by decide)]
    exact hcount h
  | minus h =>
    rw [List.countP_cons_of_neg (by decide)]
    exact hcount h

theorem SignOf.countP_padded {i : Int} (h : SignOf i sign) (zeros : Nat) :
    (padded sign zeros i).countP Char.isDigit = zeros + (Nat.toDigits 10 i.natAbs).length := by
  have hdigits := List.countP_eq_length.mpr
    (List.all_eq_true.mp (isDigits_padded zeros i.natAbs).2)
  have hsign : sign.countP Char.isDigit = 0 := by
    cases h with
    | none => rfl
    | plus => rfl
    | minus => rfl
  rw [padded, List.countP_append, hsign, hdigits, List.length_append, List.length_replicate,
    Nat.zero_add]

end Numeral

/-! ## Words -/

namespace Token

open Numeral (Denotes InRange SignOf digitLimit padded)

variable {word : String} {v : Int}

theorem ofWord_keyword (k : Keyword) : ofWord k.spelling = .ok (.keyword k) :=
  WellFormed.ofWord_spelling (t := .keyword k) trivial

theorem ofWord_of_denotes (hdigits : word.toList.countP Char.isDigit ≤ digitLimit)
    (h : Denotes word.toList v) :
    ofWord word = if InRange v then .ok (.number v) else .ok (.text word) := by
  obtain ⟨n, hn, rfl⟩ := Numeral.denotes_iff.mp h
  have hlimit : ¬digitLimit < n.digits.length := by
    rw [hn.length_digits]
    omega
  rw [ofWord_of_spells hn, if_neg hlimit]

theorem ofWord_of_not_denotes (hkeyword : ∀ k : Keyword, word ≠ k.spelling)
    (h : ∀ v, ¬Denotes word.toList v) : ofWord word = .ok (.text word) := by
  have hspelling : Keyword.ofSpelling? word = none := by
    rw [Option.eq_none_iff_forall_ne_some]
    intro k hk
    exact hkeyword k (Keyword.eq_spelling_of_ofSpelling? hk)
  have hread := Numeral.ofChars?_eq_none_iff.mpr h
  simp only [ofWord, hspelling, hread]

/-- The three things that a word can be, if it is short enough to be read. -/
theorem ofWord_trichotomy (hdigits : word.toList.countP Char.isDigit ≤ digitLimit) :
    (∃ k : Keyword, word = k.spelling ∧ ofWord word = .ok (.keyword k)) ∨
    (∃ v, Denotes word.toList v ∧ InRange v ∧ ofWord word = .ok (.number v)) ∨
    ((∀ k : Keyword, word ≠ k.spelling) ∧ (∀ v, Denotes word.toList v → ¬InRange v) ∧
      ofWord word = .ok (.text word)) := by
  by_cases hkeyword : ∃ k : Keyword, word = k.spelling
  · obtain ⟨k, rfl⟩ := hkeyword
    exact Or.inl ⟨k, rfl, ofWord_keyword k⟩
  have hno : ∀ k : Keyword, word ≠ k.spelling := fun k hk => hkeyword ⟨k, hk⟩
  by_cases hdenotes : ∃ v, Denotes word.toList v
  · obtain ⟨v, hv⟩ := hdenotes
    have hword := ofWord_of_denotes hdigits hv
    by_cases hrange : InRange v
    · rw [if_pos hrange] at hword
      exact Or.inr (Or.inl ⟨v, hv, hrange, hword⟩)
    · rw [if_neg hrange] at hword
      refine Or.inr (Or.inr ⟨hno, fun v' hv' => ?_, hword⟩)
      rwa [← hv.unique hv']
  · exact Or.inr (Or.inr ⟨hno, fun v hv => absurd ⟨v, hv⟩ hdenotes,
      ofWord_of_not_denotes hno fun v hv => hdenotes ⟨v, hv⟩⟩)

theorem ofWord_eq_number_iff (hdigits : word.toList.countP Char.isDigit ≤ digitLimit) :
    ofWord word = .ok (.number v) ↔ Denotes word.toList v ∧ InRange v := by
  constructor
  · intro h
    rcases ofWord_trichotomy hdigits with ⟨k, -, hk⟩ | ⟨v', hv', hrange, hnumber⟩ | ⟨-, -, htext⟩
    · rw [hk] at h
      cases h
    · rw [hnumber] at h
      cases h
      exact ⟨hv', hrange⟩
    · rw [htext] at h
      cases h
  · rintro ⟨h, hrange⟩
    rw [ofWord_of_denotes hdigits h, if_pos hrange]

theorem ofWord_eq_keyword_iff (hdigits : word.toList.countP Char.isDigit ≤ digitLimit)
    {k : Keyword} : ofWord word = .ok (.keyword k) ↔ word = k.spelling := by
  constructor
  · intro h
    rcases ofWord_trichotomy hdigits with ⟨k', hword, hk⟩ | ⟨v, -, -, hnumber⟩ | ⟨-, -, htext⟩
    · rw [hk] at h
      cases h
      exact hword
    · rw [hnumber] at h
      cases h
    · rw [htext] at h
      cases h
  · rintro rfl
    exact ofWord_keyword k

theorem ofWord_eq_text_iff (hdigits : word.toList.countP Char.isDigit ≤ digitLimit)
    {text : String} :
    ofWord word = .ok (.text text) ↔ text = word ∧ (∀ k : Keyword, word ≠ k.spelling) ∧
      ∀ v, Denotes word.toList v → ¬InRange v := by
  constructor
  · intro h
    rcases ofWord_trichotomy hdigits with ⟨k, -, hk⟩ | ⟨v, -, -, hnumber⟩ | ⟨hno, hout, htext⟩
    · rw [hk] at h
      cases h
    · rw [hnumber] at h
      cases h
    · rw [htext] at h
      cases h
      exact ⟨rfl, hno, hout⟩
  · rintro ⟨rfl, hno, hout⟩
    rcases ofWord_trichotomy hdigits with ⟨k, hword, -⟩ | ⟨v, hv, hrange, -⟩ | ⟨-, -, htext⟩
    · exact absurd hword (hno k)
    · exact absurd hrange (hout v hv)
    · exact htext

/-- What a short enough word is, and what becomes of an integer that is written with zeros
before it. -/
theorem ofWord_exact :
    (∀ word : String, word.toList.countP Char.isDigit ≤ 4300 →
      (∀ v, ofWord word = .ok (.number v) ↔
        Denotes word.toList v ∧ -2 ^ 63 ≤ v ∧ v ≤ 2 ^ 63 - 1) ∧
      (∀ k : Keyword, ofWord word = .ok (.keyword k) ↔ word = k.spelling) ∧
      ∀ text, ofWord word = .ok (.text text) ↔ text = word ∧ (∀ k : Keyword, word ≠ k.spelling) ∧
        ∀ v, Denotes word.toList v → ¬(-2 ^ 63 ≤ v ∧ v ≤ 2 ^ 63 - 1)) ∧
    ∀ (i : Int) (sign : List Char) (zeros : Nat), SignOf i sign →
      zeros + (Nat.toDigits 10 i.natAbs).length ≤ 4300 →
      ofWord (String.ofList (padded sign zeros i)) =
        if -2 ^ 63 ≤ i ∧ i ≤ 2 ^ 63 - 1 then .ok (.number i)
        else .ok (.text (String.ofList (padded sign zeros i))) := by
  constructor
  · intro word hdigits
    exact ⟨fun v => ofWord_eq_number_iff hdigits, fun k => ofWord_eq_keyword_iff hdigits,
      fun text => ofWord_eq_text_iff hdigits⟩
  · intro i sign zeros hsign hlength
    have hdenotes := hsign.denotes_padded zeros
    have hcount : (padded sign zeros i).countP Char.isDigit ≤ digitLimit := by
      rw [hsign.countP_padded]
      exact hlength
    rw [← String.toList_ofList (l := padded sign zeros i)] at hdenotes hcount
    exact ofWord_of_denotes hcount hdenotes

/-- The least number with zeros before it, the integer above the greatest, and a word that a
sign alone makes. -/
theorem ofWord_exact_limits :
    "-009223372036854775808".toList.countP Char.isDigit ≤ 4300 ∧
    ofWord "-009223372036854775808" = .ok (.number (-2 ^ 63)) ∧
    "+".toList.countP Char.isDigit ≤ 4300 ∧ ofWord "+" = .ok (.text "+") ∧
    SignOf (2 ^ 63) ['+'] ∧ 1 + (Nat.toDigits 10 (2 ^ 63 : Int).natAbs).length ≤ 4300 ∧
    ofWord "+09223372036854775808" = .ok (.text "+09223372036854775808") := by
  have hdigits : Numeral.IsDigits "009223372036854775808".toList := by decide
  have hleast : Denotes "-009223372036854775808".toList (-2 ^ 63) := Denotes.minus hdigits
  have hplus : ∀ v, ¬Denotes "+".toList v := Numeral.ofChars?_eq_none_iff.mp rfl
  have hno : ∀ k : Keyword, "+" ≠ k.spelling := by
    intro k
    cases k <;> decide
  have hsign : SignOf (2 ^ 63) ['+'] := SignOf.plus (by decide)
  refine ⟨by decide, ?_, by decide, ?_, hsign, by decide, ?_⟩
  · exact ((ofWord_exact.1 _ (by decide)).1 _).mpr ⟨hleast, by decide, by decide⟩
  · exact ((ofWord_exact.1 _ (by decide)).2.2 _).mpr ⟨rfl, hno, fun v hv => absurd hv (hplus v)⟩
  · exact ofWord_exact.2 (2 ^ 63) ['+'] 1 hsign (by decide)

end Token
end CounterLang
