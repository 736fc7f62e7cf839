/-
Words and their tokens.

A token is well-formed if it can come from a text: a keyword, a number that fits, or a word
that means nothing else.  The theorem this file exists for is `WellFormed.ofWord_spelling`:
the spelling of a well-formed token is resolved to that token and to no other.  For numbers
this is the round trip of decimal notation, together with the fact that no keyword is
spelled like a number.
-/
import CounterLang.Token.Scan

namespace CounterLang

/-! ## Characters of words -/

/-- The character is neither a blank nor a punctuation mark. -/
def isWordChar (c : Char) : Bool := !Text.isBlank c && !isPunctuation c

/-- One or more characters that do not end a word. -/
def IsWord (cs : List Char) : Prop := cs ≠ [] ∧ cs.all isWordChar = true

instance (cs : List Char) : Decidable (IsWord cs) := inferInstanceAs (Decidable (_ ∧ _))

theorem isWordChar_of_isDigit {c : Char} (h : c.isDigit = true) : isWordChar c = true := by
  have hdigit : 48 ≤ c.toNat ∧ c.toNat ≤ 57 := by
    simp only [Char.isDigit, Bool.and_eq_true, decide_eq_true_eq] at h
    exact h
  have hblank : Text.isBlank c = false := by
    rw [Bool.eq_false_iff]
    intro hcovers
    obtain ⟨r, hr, hlow, hhigh⟩ := Text.Ranges.exists_of_covers hcovers
    have hout : ∀ r ∈ Text.blankRanges, r.2 < 48 ∨ 57 < r.1 := by decide
    have := hout r hr
    omega
  have hmark : isPunctuation c = false := by
    rw [Bool.eq_false_iff]
    intro hmem
    have hcases : c = ':' ∨ c = ';' := by simpa [isPunctuation, punctuation] using hmem
    rcases hcases with rfl | rfl
    · exact absurd h (by decide)
    · exact absurd h (by decide)
  rw [isWordChar, hblank, hmark]
  rfl

/-! ## Numbers -/

namespace Numeral

theorem isDigit_of_mem {n : Nat} {c : Char} (h : c ∈ Nat.toDigits 10 n) : c.isDigit = true :=
  Nat.isDigit_of_mem_toDigits (by decide) (by decide) h

theorem ofDigits?_toDigits (negative : Bool) (n : Nat) :
    ofDigits? negative (Nat.toDigits 10 n) = some ⟨negative, Nat.toDigits 10 n⟩ := by
  rw [ofDigits?, if_pos]
  exact ⟨Nat.toDigits_ne_nil, List.all_eq_true.mpr fun c hc => isDigit_of_mem hc⟩

/-- Digits without a sign. -/
theorem ofChars?_of_isDigit {c : Char} {cs : List Char} (h : c.isDigit = true) :
    ofChars? (c :: cs) = ofDigits? false (c :: cs) := by
  have hplus : c ≠ '+' := by
    rintro rfl
    exact absurd h (by decide)
  have hminus : c ≠ '-' := by
    rintro rfl
    exact absurd h (by decide)
  unfold ofChars?
  split
  · rename_i heq
    exact absurd (List.cons.inj heq).1 hplus
  · rename_i heq
    exact absurd (List.cons.inj heq).1 hminus
  · rfl

/-- The digits of the plain notation. -/
theorem ofChars?_write (n : Int) :
    ofChars? (write n) = some ⟨decide (n < 0), Nat.toDigits 10 n.natAbs⟩ := by
  cases n with
  | negSucc n =>
    rw [decide_eq_true (Int.negSucc_lt_zero n)]
    exact ofDigits?_toDigits true (n + 1)
  | ofNat n =>
    show ofChars? (Nat.toDigits 10 n) = some ⟨false, Nat.toDigits 10 n⟩
    have hdigits := ofDigits?_toDigits false n
    obtain ⟨c, cs, hcs⟩ := List.exists_cons_of_ne_nil (Nat.toDigits_ne_nil (n := n) (b := 10))
    have hc : c.isDigit = true := isDigit_of_mem (n := n) (by rw [hcs]; exact List.mem_cons_self)
    rw [hcs] at hdigits ⊢
    rw [ofChars?_of_isDigit hc, hdigits]

theorem value_toDigits (n : Int) :
    (⟨decide (n < 0), Nat.toDigits 10 n.natAbs⟩ : Numeral).value = n := by
  have hmagnitude : (⟨decide (n < 0), Nat.toDigits 10 n.natAbs⟩ : Numeral).magnitude =
      n.natAbs := Nat.ofDigitChars_ten_toDigits
  rw [value, hmagnitude]
  by_cases hn : n < 0
  · rw [if_pos (decide_eq_true hn)]
    omega
  · rw [if_neg (by simpa using hn)]
    omega

theorem isWord_toDigits (n : Nat) : IsWord (Nat.toDigits 10 n) := by
  refine ⟨Nat.toDigits_ne_nil, List.all_eq_true.mpr fun c hc => ?_⟩
  exact isWordChar_of_isDigit (isDigit_of_mem hc)

theorem isWord_write (n : Int) : IsWord (write n) := by
  cases n with
  | ofNat n => exact isWord_toDigits n
  | negSucc n =>
    refine ⟨List.cons_ne_nil _ _, ?_⟩
    rw [write, List.all_cons, (isWord_toDigits (n + 1)).2]
    rfl

/-- A number that fits is far from the limit on digits. -/
theorem length_toDigits_le {n : Int} (h : InRange n) :
    (Nat.toDigits 10 n.natAbs).length ≤ digitLimit := by
  obtain ⟨hleast, hgreatest⟩ := h
  have hlt : n.natAbs < 10 ^ 19 := by
    unfold least at hleast
    unfold greatest at hgreatest
    omega
  have hlength := (Nat.length_toDigits_le_iff (by decide) (by decide)).mpr hlt
  have hlimit : 19 ≤ digitLimit := by decide
  omega

/-- No keyword is spelled like a number. -/
theorem ofSpelling?_of_ofChars? {word : String} {n : Numeral} (h : ofChars? word.toList = some n) :
    Keyword.ofSpelling? word = none := by
  cases hk : Keyword.ofSpelling? word with
  | none => rfl
  | some k =>
    rw [Keyword.eq_spelling_of_ofSpelling? hk] at h
    cases k <;> cases h

end Numeral

/-! ## Well-formed tokens -/

namespace Token

/-- The token can come from a text. -/
def WellFormed : Token → Prop
  | keyword _ => True
  | text word => IsWord word.toList ∧ ofWord word = .ok (.text word)
  | number value => Numeral.InRange value

/-- The token is a punctuation mark. -/
def IsMark (t : Token) : Prop := t = .keyword .colon ∨ t = .keyword .semicolon

instance (t : Token) : Decidable t.IsMark := inferInstanceAs (Decidable (_ ∨ _))

variable {t : Token}

theorem ofWord_text {n : Int} (h : Numeral.InRange n) :
    ofWord (Numeral.text n) = .ok (.number n) := by
  have hread : Numeral.ofChars? (Numeral.text n).toList =
      some ⟨decide (n < 0), Nat.toDigits 10 n.natAbs⟩ := by
    rw [Numeral.text, String.toList_ofList, Numeral.ofChars?_write]
  have hkeyword := Numeral.ofSpelling?_of_ofChars? hread
  have hlength := Nat.not_lt.mpr (Numeral.length_toDigits_le h)
  simp only [ofWord, hkeyword, hread, Numeral.value_toDigits, if_neg hlength, if_pos h]

theorem WellFormed.ofWord_spelling (h : t.WellFormed) : ofWord t.spelling = .ok t := by
  cases t with
  | keyword k => simp [ofWord, spelling]
  | text word => exact h.2
  | number value => exact ofWord_text h

/-- Apart from the punctuation marks, a token is spelled as a word. -/
theorem WellFormed.isWord_spelling (h : t.WellFormed) (hmark : ¬t.IsMark) :
    IsWord t.spelling.toList := by
  cases t with
  | text word => exact h.1
  | number value =>
    rw [spelling, Numeral.text, String.toList_ofList]
    exact Numeral.isWord_write value
  | keyword k =>
    cases k with
    | colon => exact absurd (Or.inl rfl) hmark
    | semicolon => exact absurd (Or.inr rfl) hmark
    | incr => decide
    | decr => decide
    | jez => decide
    | define => decide
    | body => decide
    | close => decide
    | loop => decide

theorem IsMark.exists_char (h : t.IsMark) :
    ∃ c, isPunctuation c = true ∧ t.spelling.toList = [c] := by
  rcases h with rfl | rfl
  · exact ⟨':', rfl, rfl⟩
  · exact ⟨';', rfl, rfl⟩

end Token

/-! ## Lists of well-formed tokens -/

/-- All tokens are well-formed. -/
def WellFormedAll (ts : List Token) : Prop := ∀ t ∈ ts, t.WellFormed

variable {ts us : List Token} {t : Token}

theorem wellFormedAll_nil : WellFormedAll [] := fun _ h => nomatch h

theorem WellFormedAll.cons (ht : t.WellFormed) (h : WellFormedAll ts) : WellFormedAll (t :: ts) :=
  List.forall_mem_cons.mpr ⟨ht, h⟩

theorem WellFormedAll.append (h : WellFormedAll ts) (h' : WellFormedAll us) :
    WellFormedAll (ts ++ us) :=
  List.forall_mem_append.mpr ⟨h, h'⟩

theorem wellFormedAll_flatMap {form : α → List Token} {as : List α}
    (h : ∀ a ∈ as, WellFormedAll (form a)) : WellFormedAll (as.flatMap form) := by
  intro t ht
  obtain ⟨a, ha, hmem⟩ := List.mem_flatMap.mp ht
  exact h a ha t hmem

theorem wellFormedAll_keyword (k : Keyword) : WellFormedAll [.keyword k] :=
  wellFormedAll_nil.cons trivial

end CounterLang
