/-
Splitting a text.

A text is split at its blanks into runs, and a run is cut so that each punctuation mark in it
stands on its own.  This says what the pieces of a text are without passing it character by
character.  The scan, which does that and collects the characters of a word on the way, finds
the same pieces in the same order (`tokensOf_eq_splitting`), so nothing of a text but its
blanks is lost on the way, and the tokens can be counted in it.

A blank and a mark part a text in two, and what is to the left is split without regard to
what is to the right.  This is what the inductions are on, not the characters.
-/
import CounterLang.Proofs.Concatenation
import CounterLang.Proofs.ScanLimit
import Mathlib.Algebra.GroupWithZero.Nat
import Mathlib.Data.List.SplitBy

namespace CounterLang

variable {ends : Char → Bool} {cs xs ys run text : List Char} {c : Char}

/-- The longest stretches of the characters that do not satisfy `ends`. -/
def stretches (ends : Char → Bool) (cs : List Char) : List (List Char) :=
  (cs.splitOnP ends).filter fun part => !part.isEmpty

/-- A run, cut wherever one of the two characters next to each other is a punctuation mark. -/
def cut (run : List Char) : List (List Char) :=
  run.splitBy fun c d => !isPunctuation c && !isPunctuation d

/-- The runs of a text, each cut. -/
def splitting (text : String) : List String :=
  ((stretches Text.isBlank text.toList).flatMap cut).map String.ofList

/-- Lists of characters are made from those in which nothing satisfies `ends` by joining two
with a character between them that does. -/
theorem parts_induction (ends : Char → Bool) {motive : List Char → Prop} (nil : motive [])
    (part : ∀ cs, cs ≠ [] → (∀ c ∈ cs, ends c = false) → motive cs)
    (join : ∀ xs c ys, ends c = true → motive xs → motive ys → motive (xs ++ c :: ys))
    (cs : List Char) : motive cs := by
  have hfree : ∀ cs, (∀ c ∈ cs, ends c = false) → motive cs := by
    intro cs h
    by_cases hempty : cs = []
    · rwa [hempty]
    · exact part cs hempty h
  -- What has been passed since the last such character is general.
  have hpassed : ∀ passed, (∀ c ∈ passed, ends c = false) → motive (passed ++ cs) := by
    induction cs with
    | nil =>
      intro passed hpassed
      rw [List.append_nil]
      exact hfree passed hpassed
    | cons c cs ih =>
      intro passed hpassed
      cases hc : ends c with
      | true => exact join passed c cs hc (hfree passed hpassed) (ih [] nofun)
      | false =>
        rw [List.append_cons]
        apply ih
        intro d hd
        rcases List.mem_append.mp hd with hd | hd
        · exact hpassed d hd
        · rwa [List.mem_singleton.mp hd]
  exact hpassed [] nofun

/-! ## Stretches -/

theorem stretches_of_forall (hne : cs ≠ []) (h : ∀ c ∈ cs, ends c = false) :
    stretches ends cs = [cs] := by
  rw [stretches, List.splitOnP_eq_singleton h]
  simp [hne]

theorem stretches_append_cons (hc : ends c = true) :
    stretches ends (xs ++ c :: ys) = stretches ends xs ++ stretches ends ys := by
  rw [stretches, List.splitOnP_append_cons _ _ hc, List.filter_append]
  rfl

theorem flatten_stretches (ends : Char → Bool) (cs : List Char) :
    (stretches ends cs).flatten = cs.filter fun c => !ends c := by
  induction cs using parts_induction ends with
  | nil => rfl
  | part cs hne h =>
    have hfilter : (cs.filter fun c => !ends c) = cs := by
      rw [List.filter_eq_self]
      intro c hc
      rw [h c hc]
      rfl
    rw [hfilter, stretches_of_forall hne h, List.flatten_singleton]
  | join xs c ys hc hxs hys =>
    rw [stretches_append_cons hc, List.flatten_append, hxs, hys, List.filter_append,
      List.filter_cons_of_neg]
    rw [hc]
    decide

/-! ## Cuts -/

theorem cut_of_forall (hne : cs ≠ []) (h : ∀ c ∈ cs, isPunctuation c = false) :
    cut cs = [cs] := by
  apply List.splitBy_of_isChain hne
  apply List.Pairwise.isChain
  apply List.pairwise_of_forall_mem_list
  intro c hc d hd
  rw [h c hc, h d hd]
  rfl

theorem cut_append_cons (hc : isPunctuation c = true) :
    cut (xs ++ c :: ys) = cut xs ++ [c] :: cut ys := by
  have hleft : cut (xs ++ c :: ys) = cut xs ++ cut (c :: ys) := by
    apply List.splitBy_append
    intro x _ y hy
    obtain rfl : c = y := Option.some.inj hy
    rw [hc, Bool.not_true, Bool.and_false]
  have hright : cut ([c] ++ ys) = cut [c] ++ cut ys := by
    apply List.splitBy_append
    intro x hx y _
    obtain rfl : c = x := Option.some.inj hx
    rw [hc, Bool.not_true, Bool.false_and]
  rw [hleft]
  exact congrArg (cut xs ++ ·) hright

theorem length_cut (run : List Char) :
    (cut run).length = run.countP isPunctuation + (stretches isPunctuation run).length := by
  induction run using parts_induction isPunctuation with
  | nil => rfl
  | part cs hne h =>
    have hcount : cs.countP isPunctuation = 0 := by
      rw [List.countP_eq_zero]
      intro c hc
      exact Bool.eq_false_iff.mp (h c hc)
    rw [cut_of_forall hne h, stretches_of_forall hne h, hcount, Nat.zero_add]
  | join xs c ys hc hxs hys =>
    rw [cut_append_cons hc, stretches_append_cons hc, List.countP_append,
      List.countP_cons_of_pos hc]
    simp only [List.length_append, List.length_cons, hxs, hys]
    omega

/-! ## Pieces -/

/-- A run has no blanks in it. -/
theorem piecesAfter_eq_cut (h : ∀ c ∈ run, Text.isBlank c = false) :
    piecesAfter [] run = cut run := by
  induction run using parts_induction isPunctuation with
  | nil => rfl
  | part cs hne hmark =>
    have hword : IsWord cs := by
      refine ⟨hne, List.all_eq_true.mpr fun c hc => ?_⟩
      rw [isWordChar, h c hc, hmark c hc]
      rfl
    rw [piecesAfter_of_isWord hword, cut_of_forall hne hmark]
  | join xs c ys hc hxs hys =>
    have hends : EndsWord (c :: ys) := endsWord_cons (by simp [isWordChar, hc]) ys
    rw [piecesAfter_append_of_endsWord hends, piecesAfter_mark hc, cut_append_cons hc,
      hxs fun d hd => h d (by simp [hd]), hys fun d hd => h d (by simp [hd])]

theorem piecesAfter_eq_flatMap (text : List Char) :
    piecesAfter [] text = (stretches Text.isBlank text).flatMap cut := by
  induction text using parts_induction Text.isBlank with
  | nil => rfl
  | part run hne h =>
    rw [piecesAfter_eq_cut h, stretches_of_forall hne h, List.flatMap_singleton]
  | join xs c ys hc hxs hys =>
    have hgap : [c].all Text.isBlank = true := by simp [hc]
    have hpieces := piecesAfter_append_gap (List.cons_ne_nil c []) hgap [] xs ys
    rw [List.singleton_append] at hpieces
    rw [hpieces, stretches_append_cons hc, List.flatMap_append, hxs, hys]

theorem pieces_eq_splitting (text : String) : pieces text.toList = splitting text := by
  rw [pieces, piecesAfter_eq_flatMap, splitting]

example : splitting "a:b; ;;\n\tc" = ["a", ":", "b", ";", ";", ";", "c"] := by decide +kernel

/-- Cutting puts nothing in and takes nothing out. -/
theorem flatten_flatMap_cut (runs : List (List Char)) :
    (runs.flatMap cut).flatten = runs.flatten := by
  rw [List.flatMap_def, List.flatten_flatten, List.map_map]
  have hcut : List.flatten ∘ cut = id := funext fun run => List.flatten_splitBy _ run
  rw [hcut, List.map_id]

theorem toList_join_splitting (text : String) :
    (String.join (splitting text)).toList = text.toList.filter fun c => !Text.isBlank c := by
  rw [String.toList_join, splitting, List.flatMap_def, List.map_map]
  have hchars : String.toList ∘ String.ofList = id := funext fun _ => String.toList_ofList
  rw [hchars, List.map_id, flatten_flatMap_cut, flatten_stretches]

theorem length_splitting (text : String) :
    (splitting text).length = ((stretches Text.isBlank text.toList).map fun run =>
      run.countP isPunctuation + (stretches isPunctuation run).length).sum := by
  rw [splitting, List.length_map, List.length_flatMap]
  simp only [length_cut]

/-! ## Tokens -/

/-- A scan reads the pieces that the text is split into, up to the first that is refused, and
joined they are the text without its blanks. -/
theorem tokensOf_eq_splitting (text : String) :
    (Scan.start text).ahead = splitting text ∧
    tokensOf text = (splitting text).mapM Token.ofWord ∧
    (String.join (splitting text)).toList = text.toList.filter (fun c => !Text.isBlank c) ∧
    ((∃ ts : List Token, tokensOf text = .ok ts ∧
        (splitting text).map Token.ofWord = ts.map .ok ∧
        ts.length = ((stretches Text.isBlank text.toList).map fun run =>
          run.countP isPunctuation + (stretches isPunctuation run).length).sum) ∨
      ∃ (before : List String) (word : String) (after : List String) (ts : List Token)
        (e : Numeral.TooLong),
        splitting text = before ++ word :: after ∧ before.map Token.ofWord = ts.map .ok ∧
        Token.ofWord word = .error e ∧ tokensOf text = .error e) := by
  have htokens : tokensOf text = (splitting text).mapM Token.ofWord := by
    rw [← pieces_eq_splitting]
    rfl
  refine ⟨pieces_eq_splitting text, htokens, toList_join_splitting text, ?_⟩
  rw [htokens]
  rcases mapM_ok_or_error Token.ofWord (splitting text) with ⟨ts, hts, hmap⟩ | hrefused
  · have hlength : (splitting text).length = ts.length := by
      simpa using congrArg List.length hmap
    exact Or.inl ⟨ts, hts, hmap, hlength.symm.trans (length_splitting text)⟩
  · exact Or.inr hrefused

end CounterLang
