/-
How far the scan of a text gets.

Every text can be cut into words, and every word but one kind has a token.  The exception is
a numeral of more digits than `Numeral.digitLimit`: it is refused before its value is known,
and so before it could turn out to be out of range and therefore a text.  Hence a scan is not
total.  It fails at the first such numeral and tells how many digits that has, and where
there is none it gives one token for each word (`Program.readText_ok_or_tooLong`).
-/
import CounterLang.Proofs.Outcome
import CounterLang.Proofs.Writing

namespace CounterLang

/-! ## Numerals -/

namespace Numeral

/-- One or more decimal digits. -/
def IsDigits (cs : List Char) : Prop := cs ≠ [] ∧ cs.all Char.isDigit = true

instance (cs : List Char) : Decidable (IsDigits cs) := inferInstanceAs (Decidable (_ ∧ _))

/-- The ways to write a numeral: its digits, with or without a sign before them. -/
inductive Spells : Numeral → List Char → Prop
  | plain {digits : List Char} (h : IsDigits digits) : Spells ⟨false, digits⟩ digits
  | plus {digits : List Char} (h : IsDigits digits) : Spells ⟨false, digits⟩ ('+' :: digits)
  | minus {digits : List Char} (h : IsDigits digits) : Spells ⟨true, digits⟩ ('-' :: digits)

theorem ofDigits?_eq_some_iff {negative : Bool} {digits : List Char} {n : Numeral} :
    ofDigits? negative digits = some n ↔ IsDigits digits ∧ n = ⟨negative, digits⟩ := by
  show (if IsDigits digits then some (⟨negative, digits⟩ : Numeral) else none) = some n ↔ _
  by_cases h : IsDigits digits
  · rw [if_pos h, Option.some.injEq]
    exact ⟨fun hn => ⟨h, hn.symm⟩, fun hn => hn.2.symm⟩
  · rw [if_neg h]
    exact ⟨nofun, fun hn => absurd hn.1 h⟩

theorem IsDigits.ofChars? {cs : List Char} (h : IsDigits cs) :
    ofChars? cs = some ⟨false, cs⟩ := by
  obtain ⟨c, cs, rfl⟩ := List.exists_cons_of_ne_nil h.1
  have hc : c.isDigit = true := List.all_eq_true.mp h.2 c List.mem_cons_self
  rw [ofChars?_of_isDigit hc]
  exact ofDigits?_eq_some_iff.mpr ⟨h, rfl⟩

theorem ofChars?_eq_some_iff {cs : List Char} {n : Numeral} :
    ofChars? cs = some n ↔ Spells n cs := by
  constructor
  · intro h
    unfold ofChars? at h
    split at h
    · obtain ⟨hdigits, rfl⟩ := ofDigits?_eq_some_iff.mp h
      exact Spells.plus hdigits
    · obtain ⟨hdigits, rfl⟩ := ofDigits?_eq_some_iff.mp h
      exact Spells.minus hdigits
    · obtain ⟨hdigits, rfl⟩ := ofDigits?_eq_some_iff.mp h
      exact Spells.plain hdigits
  · intro h
    cases h with
    | plain h => exact h.ofChars?
    | plus h => exact ofDigits?_eq_some_iff.mpr ⟨h, rfl⟩
    | minus h => exact ofDigits?_eq_some_iff.mpr ⟨h, rfl⟩

end Numeral

/-! ## Words -/

namespace Token

open Numeral (Spells InRange digitLimit)

variable {word : String} {n : Numeral}

/-- The word is a numeral of `k` digits, which are more than can be read. -/
def Overlong (word : String) (k : Nat) : Prop :=
  digitLimit < k ∧ ∃ n, Spells n word.toList ∧ n.digits.length = k

theorem ofWord_of_spells (h : Spells n word.toList) :
    ofWord word = if digitLimit < n.digits.length then .error ⟨n.digits.length⟩
      else if InRange n.value then .ok (.number n.value) else .ok (.text word) := by
  have hread := Numeral.ofChars?_eq_some_iff.mpr h
  have hkeyword := Numeral.ofSpelling?_of_ofChars? hread
  simp only [ofWord, hkeyword, hread]

theorem ofWord_of_overlong {k : Nat} (h : Overlong word k) : ofWord word = .error ⟨k⟩ := by
  obtain ⟨hlimit, n, hn, rfl⟩ := h
  rw [ofWord_of_spells hn, if_pos hlimit]

/-- Nothing else is refused. -/
theorem overlong_of_ofWord {e : Numeral.TooLong} (h : ofWord word = .error e) :
    Overlong word e.digits := by
  cases hread : Numeral.ofChars? word.toList with
  | none =>
    rw [ofWord, hread] at h
    cases hkeyword : Keyword.ofSpelling? word with
    | none => rw [hkeyword] at h; cases h
    | some k => rw [hkeyword] at h; cases h
  | some n =>
    have hn : Spells n word.toList := Numeral.ofChars?_eq_some_iff.mp hread
    rw [ofWord_of_spells hn] at h
    by_cases hlimit : digitLimit < n.digits.length
    · rw [if_pos hlimit, Except.error.injEq] at h
      rw [← h]
      exact ⟨hlimit, n, hn, rfl⟩
    · rw [if_neg hlimit] at h
      split at h <;> cases h

theorem ofWord_of_not_inRange (h : Spells n word.toList) (hrange : ¬InRange n.value)
    (hlong : ∀ k, ¬Overlong word k) : ofWord word = .ok (.text word) := by
  have hlimit : ¬digitLimit < n.digits.length := fun hlt => hlong _ ⟨hlt, n, h, rfl⟩
  rw [ofWord_of_spells h, if_neg hlimit, if_neg hrange]

theorem not_overlong_of_map_ofWord {words : List String} {ts : List Token}
    (h : words.map ofWord = ts.map .ok) : ∀ w ∈ words, ∀ k, ¬Overlong w k := by
  intro w hw k hlong
  have hmem : ofWord w ∈ ts.map .ok := by
    rw [← h]
    exact List.mem_map_of_mem hw
  obtain ⟨t, -, ht⟩ := List.mem_map.mp hmem
  rw [ofWord_of_overlong hlong] at ht
  cases ht

end Token

/-! ## Texts -/

/-- Trials that can fail, made one after the other, end at the first failure. -/
theorem mapM_ok_or_error (f : α → Except ε β) (as : List α) :
    (∃ bs : List β, as.mapM f = .ok bs ∧ as.map f = bs.map .ok) ∨
      ∃ (before : List α) (a : α) (after : List α) (bs : List β) (e : ε),
        as = before ++ a :: after ∧ before.map f = bs.map .ok ∧ f a = .error e ∧
          as.mapM f = .error e := by
  induction as with
  | nil => exact Or.inl ⟨[], rfl, rfl⟩
  | cons a as ih =>
    rw [List.mapM_cons]
    cases ha : f a with
    | error e => exact Or.inr ⟨[], a, as, [], e, rfl, rfl, ha, rfl⟩
    | ok b =>
      rcases ih with ⟨bs, hbs, hmap⟩ | ⟨before, c, after, bs, e, rfl, hbefore, hc, herror⟩
      · refine Or.inl ⟨b :: bs, ?_, ?_⟩
        · rw [hbs]
          rfl
        · rw [List.map_cons, List.map_cons, ha, hmap]
      · refine Or.inr ⟨a :: before, c, after, b :: bs, e, rfl, ?_, hc, ?_⟩
        · rw [List.map_cons, List.map_cons, ha, hbefore]
        · rw [herror]
          rfl

open Token (Overlong)

theorem tokensOf_of_overlong {text : String} {k : Nat} (hword : IsWord text.toList)
    (h : Overlong text k) : tokensOf text = .error ⟨k⟩ := by
  have hpieces : pieces text.toList = [text] := by
    rw [pieces, piecesAfter_of_isWord hword]
    exact congrArg (fun word => [word]) String.ofList_toList
  rw [tokensOf, Scan.tokens, Scan.start, hpieces, List.mapM_cons, Token.ofWord_of_overlong h]
  rfl

namespace Program

/-- A text is scanned and read to an end, with a text for each numeral out of range, unless
the scan meets a numeral that is too long. -/
theorem readText_ok_or_tooLong (options : Options) (text : String) :
    ((∀ word ∈ pieces text.toList, ∀ k, ¬Overlong word k) ∧
      ∃ (tokens : List Token) (reading : Reading), tokensOf text = .ok tokens ∧
        readText options text = .ok reading ∧
        ∀ (i : Nat) (word : String) (n : Numeral), (pieces text.toList)[i]? = some word →
          Numeral.Spells n word.toList → ¬Numeral.InRange n.value →
          tokens[i]? = some (.text word)) ∨
    ∃ before word after k, pieces text.toList = before ++ word :: after ∧
      (∀ w ∈ before, ∀ k, ¬Overlong w k) ∧ Overlong word k ∧
      tokensOf text = .error ⟨k⟩ ∧ readText options text = .error ⟨k⟩ := by
  rcases mapM_ok_or_error Token.ofWord (pieces text.toList) with
    ⟨tokens, htokens, hmap⟩ | ⟨before, word, after, ts, e, hpieces, hbefore, hword, herror⟩
  · left
    have hlong := Token.not_overlong_of_map_ofWord hmap
    obtain ⟨reading, hreading, -⟩ := readText_of_tokensOf options htokens
    refine ⟨hlong, tokens, reading, htokens, hreading, ?_⟩
    intro i word n hi hn hrange
    have hmem : word ∈ pieces text.toList := List.mem_of_getElem? hi
    have hget : (tokens.map Except.ok)[i]? = some (Token.ofWord word) := by
      rw [← hmap, List.getElem?_map, hi, Option.map_some]
    rw [Token.ofWord_of_not_inRange hn hrange (hlong word hmem), List.getElem?_map,
      Option.map_eq_some_iff] at hget
    obtain ⟨t, ht, htext⟩ := hget
    rw [ht, Except.ok.inj htext]
  · right
    refine ⟨before, word, after, e.digits, hpieces, Token.not_overlong_of_map_ofWord hbefore,
      Token.overlong_of_ofWord hword, herror, ?_⟩
    exact readTextIn_of_tooLong Grammar.nestingLimit options herror

end Program

theorem tokensOf_replicate {c : Char} {k : Nat} (hc : c.isDigit = true)
    (hk : Numeral.digitLimit < k) :
    tokensOf (String.ofList (List.replicate k c)) = .error ⟨k⟩ := by
  have hne : List.replicate k c ≠ [] := by
    rw [ne_eq, List.replicate_eq_nil_iff]
    omega
  have hall : ∀ {p : Char → Bool}, p c = true → (List.replicate k c).all p = true :=
    fun hp => List.all_eq_true.mpr fun c' hc' => by rw [List.eq_of_mem_replicate hc', hp]
  have hword : IsWord (String.ofList (List.replicate k c)).toList := by
    rw [String.toList_ofList]
    exact ⟨hne, hall (isWordChar_of_isDigit hc)⟩
  have hlong : Overlong (String.ofList (List.replicate k c)) k := by
    refine ⟨hk, ⟨false, List.replicate k c⟩, ?_, List.length_replicate⟩
    rw [String.toList_ofList]
    exact Numeral.Spells.plain ⟨hne, hall hc⟩
  exact tokensOf_of_overlong hword hlong

/-- One digit above the limit is enough. -/
theorem tokensOf_not_total :
    tokensOf (String.ofList (List.replicate 4301 '1')) = .error ⟨4301⟩ ∧
      ¬∀ text : String, ∃ tokens, tokensOf text = .ok tokens := by
  have herror : tokensOf (String.ofList (List.replicate 4301 '1')) = .error ⟨4301⟩ :=
    tokensOf_replicate (by decide) (by decide)
  refine ⟨herror, fun htotal => ?_⟩
  obtain ⟨tokens, htokens⟩ := htotal (String.ofList (List.replicate 4301 '1'))
  rw [herror] at htokens
  cases htokens

end CounterLang
