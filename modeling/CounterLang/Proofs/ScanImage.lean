/-
What a scan can come to.

The tokens of a text are well-formed: words that begin and end where a blank or a mark
stands, and that mean nothing else, or numbers that fit, or keywords.  That is all that can
be said of them, since well-formed tokens in any order are the scan of every text in which
they are written (`tokensOf_image_and_written`).

The scan collects the characters of a word on its way.  What carries the induction is that
these are characters of words only, so that each piece it gives out is a word or a mark.
-/
import CounterLang.Proofs.ScanLimit

namespace CounterLang

variable {word text cs : List Char} {ts : List Token} {t : Token}

/-! ## Pieces -/

/-- The characters are a word, or a punctuation mark on its own. -/
def IsPiece (cs : List Char) : Prop := IsWord cs ∨ ∃ c, isPunctuation c = true ∧ cs = [c]

theorem isPiece_of_mem_flush (hword : word.all isWordChar = true)
    (h : cs ∈ piecesAfter.flush word) : IsPiece cs := by
  by_cases hempty : word = []
  · rw [piecesAfter.flush, if_pos hempty] at h
    cases h
  · rw [piecesAfter.flush, if_neg hempty, List.mem_singleton] at h
    rw [h]
    exact Or.inl ⟨List.reverse_ne_nil_iff.mpr hempty, by rwa [List.all_reverse]⟩

theorem isPiece_of_mem (hword : word.all isWordChar = true)
    (h : cs ∈ piecesAfter word text) : IsPiece cs := by
  induction text generalizing word with
  | nil =>
    rw [piecesAfter] at h
    exact isPiece_of_mem_flush hword h
  | cons c text ih =>
    rw [piecesAfter] at h
    by_cases hblank : Text.isBlank c = true
    · rw [if_pos hblank, List.mem_append] at h
      rcases h with h | h
      · exact isPiece_of_mem_flush hword h
      · exact ih rfl h
    · by_cases hmark : isPunctuation c = true
      · rw [if_neg hblank, if_pos hmark, List.mem_append, List.mem_cons] at h
        rcases h with h | h | h
        · exact isPiece_of_mem_flush hword h
        · exact Or.inr ⟨c, hmark, h⟩
        · exact ih rfl h
      · rw [if_neg hblank, if_neg hmark] at h
        have hc : isWordChar c = true := by simp [isWordChar, hblank, hmark]
        exact ih (by rw [List.all_cons, hc, hword]; rfl) h

theorem isPiece_of_mem_pieces {piece : String} (h : piece ∈ pieces text) :
    IsPiece piece.toList := by
  obtain ⟨cs, hcs, rfl⟩ := List.mem_map.mp h
  rw [String.toList_ofList]
  exact isPiece_of_mem rfl hcs

/-! ## Tokens of pieces -/

namespace Token

theorem ofWord_mark {c : Char} (hc : isPunctuation c = true) :
    ∃ k, ofWord (String.ofList [c]) = .ok (.keyword k) := by
  have hcases : c = ':' ∨ c = ';' := by simpa [isPunctuation, punctuation] using hc
  rcases hcases with rfl | rfl
  · exact ⟨.colon, rfl⟩
  · exact ⟨.semicolon, rfl⟩

/-- A mark is no text. -/
theorem isWord_of_ofWord_text {piece : String} (hpiece : IsPiece piece.toList)
    (h : ofWord piece = .ok (.text piece)) : IsWord piece.toList := by
  rcases hpiece with hword | ⟨c, hc, hmark⟩
  · exact hword
  · obtain ⟨k, hk⟩ := ofWord_mark hc
    rw [← hmark, String.ofList_toList, h] at hk
    cases hk

/-- The three things that a word can turn out to be. -/
theorem ofWord_cases {piece : String} (h : ofWord piece = .ok t) :
    (∃ k, t = .keyword k) ∨ (∃ i, t = .number i ∧ Numeral.InRange i) ∨ t = .text piece := by
  unfold ofWord at h
  split at h
  · exact Or.inl ⟨_, (Except.ok.inj h).symm⟩
  · split at h
    · exact Or.inr (Or.inr (Except.ok.inj h).symm)
    · rename_i n _
      by_cases hlimit : Numeral.digitLimit < n.digits.length
      · rw [if_pos hlimit] at h
        cases h
      · by_cases hrange : Numeral.InRange n.value
        · rw [if_neg hlimit, if_pos hrange] at h
          exact Or.inr (Or.inl ⟨_, (Except.ok.inj h).symm, hrange⟩)
        · rw [if_neg hlimit, if_neg hrange] at h
          exact Or.inr (Or.inr (Except.ok.inj h).symm)

theorem wellFormed_of_ofWord {piece : String} (hpiece : IsPiece piece.toList)
    (h : ofWord piece = .ok t) : t.WellFormed := by
  rcases ofWord_cases h with ⟨k, rfl⟩ | ⟨i, rfl, hi⟩ | rfl
  · exact trivial
  · exact hi
  · exact ⟨isWord_of_ofWord_text hpiece h, h⟩

end Token

/-! ## Tokens of texts -/

theorem exists_piece_of_mem {text : String} (h : tokensOf text = .ok ts) (ht : t ∈ ts) :
    ∃ piece ∈ pieces text.toList, Token.ofWord piece = .ok t := by
  rw [tokensOf, Scan.tokens, Scan.start] at h
  rcases mapM_ok_or_error Token.ofWord (pieces text.toList) with
    ⟨ts', hts', hmap⟩ | ⟨_, _, _, _, e, _, _, _, herror⟩
  · rw [hts', Except.ok.injEq] at h
    have hmem : (.ok t : Except Numeral.TooLong Token) ∈ (pieces text.toList).map Token.ofWord := by
      rw [hmap, h]
      exact List.mem_map_of_mem ht
    exact List.mem_map.mp hmem
  · rw [herror] at h
    cases h

theorem wellFormedAll_of_tokensOf {text : String} (h : tokensOf text = .ok ts) :
    WellFormedAll ts := by
  intro t ht
  obtain ⟨piece, hpiece, hword⟩ := exists_piece_of_mem h ht
  exact Token.wellFormed_of_ofWord (isPiece_of_mem_pieces hpiece) hword

/-- A blank behind each token is enough to write them. -/
theorem exists_written (ts : List Token) : ∃ text, Written ts text := by
  have hlayout : ∃ cs, Layout ts cs := by
    induction ts with
    | nil => exact ⟨[], Layout.nil⟩
    | cons t ts ih =>
      obtain ⟨cs, hcs⟩ := ih
      exact ⟨_, Layout.cons t [' '] rfl nofun hcs⟩
  obtain ⟨cs, hcs⟩ := hlayout
  exact ⟨String.ofList cs, [], cs, String.toList_ofList, rfl, hcs⟩

theorem tokensOf_image_and_written :
    (∀ ts, (∃ text, tokensOf text = .ok ts) ↔ WellFormedAll ts) ∧
      ∀ ts text, WellFormedAll ts → Written ts text → tokensOf text = .ok ts := by
  refine ⟨fun ts => ⟨?_, ?_⟩, fun ts text hts htext => htext.tokensOf_eq hts⟩
  · rintro ⟨text, h⟩
    exact wellFormedAll_of_tokensOf h
  · intro hts
    obtain ⟨text, htext⟩ := exists_written ts
    exact ⟨text, htext.tokensOf_eq hts⟩

/-- The least number, a word that is nearly a keyword and one that is nearly a number, with
marks between them and no more blanks than are needed. -/
theorem tokensOf_image_and_written_least_number :
    let ts : List Token := [.number (-9223372036854775808), .keyword .colon, .text "incr",
      .text "+", .keyword .semicolon, .keyword .incr]
    WellFormedAll ts ∧ Written ts "\n-9223372036854775808:incr +;INCR" ∧
      tokensOf "\n-9223372036854775808:incr +;INCR" = .ok ts ∧
      ∃ text, tokensOf text = .ok ts := by
  intro ts
  have hincr : (Token.text "incr").WellFormed := ⟨by decide, rfl⟩
  have hplus : (Token.text "+").WellFormed := ⟨by decide, rfl⟩
  have hnumber : (Token.number (-9223372036854775808)).WellFormed := by
    show Numeral.InRange _
    decide
  have hmark : WellFormedAll [.keyword .semicolon, .keyword .incr] :=
    (wellFormedAll_keyword .incr).cons trivial
  have hts : WellFormedAll ts :=
    (((hmark.cons hplus).cons hincr).cons (t := .keyword .colon) trivial).cons hnumber
  have hlayout : Layout ts "-9223372036854775808:incr +;INCR".toList :=
    .cons (.number (-9223372036854775808)) [] rfl (by decide) <|
    .cons (.keyword .colon) [] rfl (by decide) <|
    .cons (.text "incr") [' '] rfl nofun <|
    .cons (.text "+") [] rfl (by decide) <|
    .cons (.keyword .semicolon) [] rfl (by decide) <|
    .cons (.keyword .incr) [] rfl (by decide) .nil
  have hwritten : Written ts "\n-9223372036854775808:incr +;INCR" :=
    ⟨['\n'], _, rfl, by decide, hlayout⟩
  exact ⟨hts, hwritten, tokensOf_image_and_written.2 ts _ hts hwritten,
    (tokensOf_image_and_written.1 ts).mpr hts⟩

end CounterLang
