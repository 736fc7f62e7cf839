/-
What lies behind a failure does not matter.

A reading that fails has looked at the tokens before the position of the failure, at the
token there, and at no more than one token behind it.  Any other tokens that begin in the
same way fail in the same way.  The second token of the two is looked at in one place only:
a word in the head of a definition is the name of a parameter if a colon follows it, and
else it stands where the body should begin.

Two readings are compared here without running the second one.  Where the first one stops
depends on the tokens ahead only through the first of them, or the first two in the head of a
definition (`Stops.congr`), and where it goes too deep it does not look ahead at all
(`Overruns.of_pos`).  So the second one comes to the same place, and each place has one
result.
-/
import CounterLang.Proofs.Viability

namespace CounterLang
namespace Program

open Grammar (nestingLimit)

variable {n k : Nat} {u rest rest' t t' : List Token} {d : Demand}

/-! ## Tokens with the same beginning -/

/-- Tokens that go on alike behind `u` for `k` tokens begin with `u` alike. -/
theorem exists_append_of_take_eq (h : (u ++ rest).take (u.length + k) = t'.take (u.length + k)) :
    ∃ rest', t' = u ++ rest' ∧ rest.take k = rest'.take k := by
  rw [List.take_length_add_append] at h
  have hu : t'.take u.length = u := by
    have htake := congrArg (List.take u.length) h
    rwa [List.take_left' rfl, List.take_take, Nat.min_eq_left (Nat.le_add_right _ _),
      eq_comm] at htake
  have hrest : rest.take k = (t'.drop u.length).take k := by
    have hdrop := congrArg (List.drop u.length) h
    rwa [List.drop_left' rfl, List.drop_take, Nat.add_sub_cancel_left] at hdrop
  refine ⟨t'.drop u.length, ?_, hrest⟩
  calc t' = t'.take u.length ++ t'.drop u.length := (List.take_append_drop _ _).symm
    _ = u ++ t'.drop u.length := by rw [hu]

theorem head?_eq_of_take_eq (hk : 0 < k) (h : rest.take k = rest'.take k) :
    rest.head? = rest'.head? := by
  have hne : k ≠ 0 := Nat.ne_of_gt hk
  have hhead := congrArg List.head? h
  rwa [List.head?_take, List.head?_take, if_neg hne, if_neg hne] at hhead

/-- The tokens behind the first two do not tell whether a parameter begins. -/
theorem opensParam_take (t : List Token) : opensParam (t.take 2) = opensParam t := by
  cases t with
  | nil => rfl
  | cons tok t =>
    cases t with
    | nil => rfl
    | cons tok' t => exact opensParam_congr tok tok' [] t

/-! ## Readings with the same beginning -/

/-- Where loops are nested too deep, nothing is looked at behind them. -/
theorem Overruns.read_eq (options : Options) (h : Overruns nestingLimit u rest)
    (rest' : List Token) :
    (read options (u ++ rest')).result = (read options (u ++ rest)).result := by
  have hpos : 0 < nestingLimit := by decide
  rw [read_of_overruns options (h.of_pos hpos rest'), read_of_overruns options h]

theorem Stops.read_congr (options : Options) (h : Stops nestingLimit u rest d)
    (hhead : rest.head? = rest'.head?) (hopen : d = .body → opensParam rest' = false) :
    (read options (u ++ rest')).result = (read options (u ++ rest)).result := by
  rw [read_of_stops options (h.congr hhead hopen), read_of_stops options h,
    Demand.failure_congr hhead]

theorem Stops.opensParam_of_take_two (h : Stops n u rest d) (ht : rest.take 2 = rest'.take 2)
    (hd : d = .body) : opensParam rest' = false := by
  subst hd
  rw [← opensParam_take, ← ht, opensParam_take]
  exact h.exists_head.2

/-- The failure tells of a word where the body of a definition should begin. -/
def AtHeadWord (f : Failure) : Prop :=
  ∃ word, f.cause = .unexpectedToken "'AS'" (.token (.text word))

/-- Only about a word does it take a second token to tell that no parameter begins. -/
theorem opensParam_of_not_atHeadWord {tok : Token} {i : Int} {filename : Option String}
    (h : ¬AtHeadWord ((Demand.body.failure (tok :: rest) i).located filename))
    (rest' : List Token) : opensParam (tok :: rest') = false := by
  cases tok with
  | keyword k => rfl
  | number i => rfl
  | text word => exact absurd ⟨word, rfl⟩ h

theorem opensParam_of_head? {i : Int} {filename : Option String} (hne : rest ≠ [])
    (hhead : rest.head? = rest'.head?) (hd : d = .body)
    (h : ¬AtHeadWord ((d.failure rest i).located filename)) : opensParam rest' = false := by
  subst hd
  obtain ⟨tok, rest, rfl⟩ := List.exists_cons_of_ne_nil hne
  obtain ⟨rest', rfl⟩ := List.head?_eq_some_iff.mp hhead.symm
  exact opensParam_of_not_atHeadWord h rest'

/-- Of a failure at index `e`, the tokens up to index `e + 1` are all there is to it, and those
up to index `e` where it is not a word in a head that it tells of and the tokens do not end
there. -/
theorem read_error_congr (options : Options) (t : List Token) (f : Failure)
    (h : (read options t).result = .error f) :
    ∃ e : Nat, f.position = some (e : Int) ∧ e ≤ t.length ∧
      (∀ t', t.take (e + 2) = t'.take (e + 2) → (read options t').result = .error f) ∧
      (¬AtHeadWord f → ∀ t', e < t.length → t.take (e + 1) = t'.take (e + 1) →
        (read options t').result = .error f) := by
  rw [← h]
  cases ending nestingLimit t with
  | reads items hitems =>
    rw [read_of_items options hitems] at h
    cases h
  | @overruns u rest hover =>
    have hf := read_of_overruns options hover
    rw [h, Except.error.injEq] at hf
    refine ⟨u.length, by rw [hf]; rfl, by simp, ?_, ?_⟩
    · intro t' ht
      obtain ⟨rest', rfl, -⟩ := exists_append_of_take_eq ht
      exact hover.read_eq options rest'
    · intro _ t' _ ht
      obtain ⟨rest', rfl, -⟩ := exists_append_of_take_eq ht
      exact hover.read_eq options rest'
  | @stops u rest d hstops =>
    have hf := read_of_stops options hstops
    rw [h, Except.error.injEq] at hf
    refine ⟨u.length, by rw [hf]; rfl, by simp, ?_, ?_⟩
    · intro t' ht
      obtain ⟨rest', rfl, hrest⟩ := exists_append_of_take_eq ht
      exact hstops.read_congr options (head?_eq_of_take_eq (by decide) hrest)
        (hstops.opensParam_of_take_two hrest)
    · intro hword t' hlt ht
      obtain ⟨rest', rfl, hrest⟩ := exists_append_of_take_eq ht
      have hhead : rest.head? = rest'.head? := head?_eq_of_take_eq (by decide) hrest
      have hne : rest ≠ [] := by
        rintro rfl
        simp at hlt
      rw [hf] at hword
      exact hstops.read_congr options hhead fun hd => opensParam_of_head? hne hhead hd hword

/-- A word in the head of a definition, behind which no colon follows, and a label that is
missing: other tokens that go on alike fail alike. -/
theorem read_error_congr_head_word_and_label :
    let t : List Token :=
      [.keyword .define, .text "F", .text "x", .keyword .incr, .text "x", .keyword .close]
    let f : Failure :=
      { cause := .unexpectedToken "'AS'" (.token (.text "x")), position := some 2,
        filename := some "<input>", committed := true }
    let u : List Token := [.keyword .jez, .text "r", .number 3, .keyword .close]
    let g : Failure :=
      { cause := .unexpectedToken "text" (.token (.number 3)), position := some 2,
        filename := some "<input>", committed := true }
    (read {} t).result = .error f ∧ (read {} (t.take 4 ++ [.number 0])).result = .error f ∧
      (read {} u).result = .error g ∧ (read {} (u.take 3)).result = .error g := by
  intro t f u g
  have ht : (read {} t).result = .error f := by decide +kernel
  have hu : (read {} u).result = .error g := by decide +kernel
  obtain ⟨e, he, -, htwo, -⟩ := read_error_congr {} t f ht
  obtain ⟨e', he', -, -, hone⟩ := read_error_congr {} u g hu
  obtain rfl : 2 = e := Int.ofNat.inj (Option.some.inj he)
  obtain rfl : 2 = e' := Int.ofNat.inj (Option.some.inj he')
  have hword : ¬AtHeadWord g := by
    rintro ⟨word, h⟩
    exact absurd (Cause.unexpectedToken.inj h).1 (by decide)
  exact ⟨ht, htwo _ rfl, hu, hone hword _ (by decide) rfl⟩

end Program
end CounterLang
