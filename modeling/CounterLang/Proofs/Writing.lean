/-
Writing tokens as a text, and scanning the text.

A text in which tokens are written has their spellings in order, with blanks between them.
Next to a punctuation mark no blank is needed, because a mark is a token of its own wherever
it stands.  The theorem this file exists for is `Written.tokensOf_eq`: a scan of the text gives
back the tokens, whatever the blanks are.

The scan passes a text from the left and collects the characters of a word on the way, so
the lemmas about it say what it makes of the next part of a text, a gap or a mark or a whole
word, and leave what comes after as it is.
-/
import CounterLang.Proofs.Word

namespace CounterLang

variable {ts : List Token} {word cs gap text : List Char} {c : Char}

/-! ## One part of a text -/

theorem isBlank_of_isPunctuation (h : isPunctuation c = true) : Text.isBlank c = false := by
  have hcases : c = ':' ∨ c = ';' := by simpa [isPunctuation, punctuation] using h
  rcases hcases with rfl | rfl
  · decide
  · decide

theorem piecesAfter_gap (h : gap.all Text.isBlank = true) (text : List Char) :
    piecesAfter [] (gap ++ text) = piecesAfter [] text := by
  induction gap with
  | nil => rfl
  | cons c gap ih =>
    rw [List.all_cons, Bool.and_eq_true] at h
    rw [List.cons_append, piecesAfter, if_pos h.1]
    exact ih h.2

theorem piecesAfter_mark (h : isPunctuation c = true) (text : List Char) :
    piecesAfter [] (c :: text) = [c] :: piecesAfter [] text := by
  have hc : Text.isBlank c = false := isBlank_of_isPunctuation h
  rw [piecesAfter, hc, if_neg Bool.false_ne_true, if_pos h]
  rfl

/-- The characters of a word are put with those before them. -/
theorem piecesAfter_append (h : cs.all isWordChar = true) (word text : List Char) :
    piecesAfter word (cs ++ text) = piecesAfter (cs.reverse ++ word) text := by
  induction cs generalizing word with
  | nil => rfl
  | cons c cs ih =>
    rw [List.all_cons, Bool.and_eq_true] at h
    have hnot : Text.isBlank c = false ∧ isPunctuation c = false := by
      simpa [isWordChar] using h.1
    rw [List.cons_append, piecesAfter, hnot.1, hnot.2, if_neg Bool.false_ne_true,
      if_neg Bool.false_ne_true, ih h.2, List.reverse_cons, List.append_assoc]
    rfl

/-- A word does not go on into the text. -/
def EndsWord (text : List Char) : Prop := ∀ c ∈ text.head?, isWordChar c = false

theorem endsWord_nil : EndsWord [] := by
  intro c hc
  cases hc

theorem endsWord_cons (h : isWordChar c = false) (text : List Char) : EndsWord (c :: text) := by
  intro c' hc'
  obtain rfl : c = c' := Option.some.inj hc'
  exact h

theorem piecesAfter_of_endsWord (hword : word ≠ []) (h : EndsWord text) :
    piecesAfter word text = word.reverse :: piecesAfter [] text := by
  have hflush : piecesAfter.flush word = [word.reverse] := if_neg hword
  cases text with
  | nil =>
    rw [piecesAfter, hflush]
    rfl
  | cons c text =>
    by_cases hblank : Text.isBlank c = true
    · rw [piecesAfter, piecesAfter, if_pos hblank, if_pos hblank, hflush]
      rfl
    · have hc : isWordChar c = false := h c rfl
      have hmark : isPunctuation c = true := by simpa [isWordChar, hblank] using hc
      rw [piecesAfter_mark hmark, piecesAfter, if_neg hblank, if_pos hmark, hflush]
      rfl

/-- What ends a word there ends whatever word is under way, and parts the text in two. -/
theorem piecesAfter_append_of_endsWord (h : EndsWord text) (word cs : List Char) :
    piecesAfter word (cs ++ text) = piecesAfter word cs ++ piecesAfter [] text := by
  induction cs generalizing word with
  | nil =>
    by_cases hword : word = []
    · rw [hword]
      rfl
    · have hflush : piecesAfter word [] = [word.reverse] := by
        rw [piecesAfter]
        exact if_neg hword
      rw [List.nil_append, piecesAfter_of_endsWord hword h, hflush, List.singleton_append]
  | cons c cs ih =>
    rw [List.cons_append, piecesAfter, piecesAfter]
    by_cases hblank : Text.isBlank c = true
    · rw [if_pos hblank, if_pos hblank, ih, List.append_assoc]
    · by_cases hmark : isPunctuation c = true
      · rw [if_neg hblank, if_neg hblank, if_pos hmark, if_pos hmark, ih, List.append_assoc,
          List.cons_append]
      · rw [if_neg hblank, if_neg hblank, if_neg hmark, if_neg hmark, ih]

theorem piecesAfter_word (hcs : IsWord cs) (h : EndsWord text) :
    piecesAfter [] (cs ++ text) = cs :: piecesAfter [] text := by
  have hne : cs.reverse ≠ [] := List.reverse_ne_nil_iff.mpr hcs.1
  rw [piecesAfter_append hcs.2, List.append_nil, piecesAfter_of_endsWord hne h,
    List.reverse_reverse]

theorem piecesAfter_of_isWord (hcs : IsWord cs) : piecesAfter [] cs = [cs] := by
  have hpieces : piecesAfter [] (cs ++ []) = [cs] := piecesAfter_word hcs endsWord_nil
  rwa [List.append_nil] at hpieces

/-! ## Texts of tokens -/

/-- The text is the tokens, each with a gap behind it.  A gap may be empty at the end and
next to a punctuation mark. -/
inductive Layout : List Token → List Char → Prop
  | nil : Layout [] []
  | cons {ts : List Token} {text : List Char} (t : Token) (gap : List Char)
      (hgap : gap.all Text.isBlank = true)
      (hsep : gap = [] → t.IsMark ∨ ∀ next ∈ ts.head?, next.IsMark) (h : Layout ts text) :
      Layout (t :: ts) (t.spelling.toList ++ (gap ++ text))

/-- The text is the tokens, with or without blanks before the first one. -/
def Written (ts : List Token) (text : String) : Prop :=
  ∃ lead cs, text.toList = lead ++ cs ∧ lead.all Text.isBlank = true ∧ Layout ts cs

namespace Layout

theorem endsWord (h : Layout ts text) (hmark : ∀ next ∈ ts.head?, next.IsMark) :
    EndsWord text := by
  cases h with
  | nil => exact endsWord_nil
  | cons t gap hgap hsep h =>
    have ht : t.IsMark := hmark t rfl
    obtain ⟨c, hc, hspelling⟩ := ht.exists_char
    rw [hspelling]
    exact endsWord_cons (by simp [isWordChar, hc]) _

theorem endsWord_gap (hgap : gap.all Text.isBlank = true)
    (hempty : gap = [] → EndsWord text) : EndsWord (gap ++ text) := by
  cases gap with
  | nil => exact hempty rfl
  | cons c gap =>
    rw [List.all_cons, Bool.and_eq_true] at hgap
    exact endsWord_cons (by simp [isWordChar, hgap.1]) _

theorem piecesAfter_eq (h : Layout ts text) (hts : WellFormedAll ts) :
    piecesAfter [] text = ts.map fun t => t.spelling.toList := by
  induction h with
  | nil => rfl
  | @cons ts text t gap hgap hsep h ih =>
    have hrest := ih fun t ht => hts t (List.mem_cons_of_mem _ ht)
    by_cases hmark : t.IsMark
    · obtain ⟨c, hc, hspelling⟩ := hmark.exists_char
      rw [List.map_cons, hspelling, List.singleton_append, piecesAfter_mark hc,
        piecesAfter_gap hgap, hrest]
    · -- What ends the word is a blank of its gap, or else the mark that comes next.
      have hends : EndsWord (gap ++ text) := by
        apply endsWord_gap hgap
        intro hempty
        exact h.endsWord ((hsep hempty).resolve_left hmark)
      have hword := (hts t List.mem_cons_self).isWord_spelling hmark
      rw [List.map_cons, piecesAfter_word hword hends, piecesAfter_gap hgap, hrest]

end Layout

theorem mapM_ofWord_spelling (hts : WellFormedAll ts) :
    (ts.map Token.spelling).mapM Token.ofWord = .ok ts := by
  induction ts with
  | nil => rfl
  | cons t ts ih =>
    have ht := (hts t List.mem_cons_self).ofWord_spelling
    have hrest := ih fun t ht => hts t (List.mem_cons_of_mem _ ht)
    rw [List.map_cons, List.mapM_cons, ht, hrest]
    rfl

theorem Written.tokensOf_eq {text : String} (h : Written ts text) (hts : WellFormedAll ts) :
    tokensOf text = .ok ts := by
  obtain ⟨lead, cs, htext, hlead, hlayout⟩ := h
  have hpieces : pieces text.toList = ts.map Token.spelling := by
    rw [pieces, htext, piecesAfter_gap hlead, hlayout.piecesAfter_eq hts, List.map_map]
    apply List.map_congr_left
    intro t ht
    exact String.ofList_toList
  rw [tokensOf, Scan.start, Scan.tokens, hpieces]
  exact mapM_ofWord_spelling hts

end CounterLang
