/-
What a repetition comes to.

A repetition tries its item from where the last entry ended, as long as the item comes to a value
and has moved.  The places where it does are a chain, and since the item always does the same at
the same place there is one such chain from each place (`Greedy.unique`).  Each entry leaves fewer
tokens, so the chain has an end, and there the item fails or does not move.  Which of these it is
decides what the repetition comes to (`Phrasebook.star_greedy`).
-/
import CounterLang.Proofs.Place

namespace CounterLang

variable {α β : Type}

/-- The run of a parser from an index of the tokens. -/
def Parser.runAt (p : Parser α) (t : List Token) (tracing : Bool) (i : Nat) : Run α :=
  p tracing ⟨i, t.drop i⟩

/-- The run ended in a value or in a failure. -/
def Outcome.ends : Outcome α → Bool
  | abort _ => false
  | _ => true

/-! ## Chains -/

/-- From `p` on the item comes to one value after the other, and each time it ends further on,
up to `q`.  An entry is a place with the value read there. -/
inductive Greedy (run : Nat → Run α) : (p : Nat) → (entries : List (Nat × α)) → (q : Nat) → Prop
  /-- The item fails, or it comes to a value where it started. -/
  | halt {q} (h : ∀ a, (run q).outcome = .value a → (run q).point.position = q) :
      Greedy run q [] q
  | step {p p' q a entries} (ho : (run p).outcome = .value a)
      (hs : (run p).point.position = (p' : Nat)) (hlt : p < p') (h : Greedy run p' entries q) :
      Greedy run p ((p, a) :: entries) q

namespace Greedy

variable {run : Nat → Run α} {p q q' : Nat} {entries entries' : List (Nat × α)}

theorem unique (h : Greedy run p entries q) (h' : Greedy run p entries' q') :
    entries' = entries ∧ q' = q := by
  induction h generalizing entries' with
  | halt hhalt =>
    cases h' with
    | halt => exact ⟨rfl, rfl⟩
    | step ho hs hlt _ =>
      have hsame := hs.symm.trans (hhalt _ ho)
      omega
  | step ho hs hlt _ ih =>
    cases h' with
    | halt hhalt =>
      have hsame := hs.symm.trans (hhalt _ ho)
      omega
    | step ho' hs' _ h' =>
      obtain rfl := Outcome.value.inj (ho.symm.trans ho')
      obtain rfl := Int.ofNat.inj (hs.symm.trans hs')
      obtain ⟨rfl, rfl⟩ := ih h'
      exact ⟨rfl, rfl⟩

theorem add_length_le (h : Greedy run p entries q) : p + entries.length ≤ q := by
  induction h with
  | halt _ => exact Nat.le_refl _
  | step _ _ hlt _ ih =>
    rw [List.length_cons]
    omega

/-- Where a chain ends, another one ends at once. -/
theorem halted (h : Greedy run p entries q) : Greedy run q [] q := by
  induction h with
  | halt hhalt => exact .halt hhalt
  | step _ _ _ _ ih => exact ih

end Greedy

/-! ## Parsers -/

namespace Parser

variable {book : Phrasebook} {item : Parser α} {stuck : Int → Failure} {t : List Token}
  {tracing : Bool} {p q : Nat} {entries : List (Nat × α)}

/-- From an index the parser comes to an index. -/
theorem Placed.exists_index (hitem : item.Placed book) (tracing : Bool) (hp : p ≤ t.length) :
    ∃ q, p ≤ q ∧ q ≤ t.length ∧ (item.runAt t tracing p).point = ⟨q, t.drop q⟩ := by
  obtain ⟨n, hn, hpoint, -⟩ := hitem tracing ⟨p, t.drop p⟩
  have hlen : (t.drop p).length = t.length - p := List.length_drop
  rw [hlen] at hn
  refine ⟨p + n, by omega, by omega, ?_⟩
  rw [runAt, hpoint, Point.past, List.drop_drop, Int.natCast_add]

theorem exists_greedy (hitem : item.Placed book) (tracing : Bool) (hp : p ≤ t.length) :
    ∃ entries q, Greedy (item.runAt t tracing) p entries q ∧ q ≤ t.length := by
  -- By the number of tokens that are left: each entry takes some of them.
  induction hleft : t.length - p using Nat.strongRecOn generalizing p with
  | ind left ih =>
    obtain ⟨p', hle, hp', hpoint⟩ := hitem.exists_index tracing hp
    by_cases hhalt : ∀ a, (item.runAt t tracing p).outcome = .value a → p' = p
    · have h : Greedy (item.runAt t tracing) p [] p := by
        apply Greedy.halt
        intro a ha
        rw [hpoint, hhalt a ha]
      exact ⟨[], p, h, hp⟩
    · push Not at hhalt
      obtain ⟨a, ha, hne⟩ := hhalt
      obtain ⟨entries, q, h, hq⟩ := ih (t.length - p') (by omega) hp' rfl
      exact ⟨(p, a) :: entries, q, .step ha (by rw [hpoint]) (by omega) h, hq⟩

/-- A repetition has the entries of the chain, and goes on from its end. -/
theorem many_of_greedy (hitem : item.Placed book) (hp : p ≤ t.length)
    (h : Greedy (item.runAt t tracing) p entries q) :
    many item stuck tracing ⟨p, t.drop p⟩ =
      ((many item stuck tracing ⟨q, t.drop q⟩).map (entries.map Prod.snd ++ ·)).after
        ((entries.map Prod.fst).flatMap fun i => (item.runAt t tracing i).journal) := by
  induction h with
  | halt _ =>
    rcases many item stuck tracing _ with ⟨outcome, point, journal⟩
    cases outcome <;> rfl
  | @step p p' q a entries ho hs hlt _ ih =>
    obtain ⟨p'', hle, hp'', hpoint⟩ := hitem.exists_index tracing hp
    obtain rfl : p'' = p' := by
      rw [hpoint] at hs
      exact Int.ofNat.inj hs
    have hshorter : (item.runAt t tracing p).point.ahead.length < (t.drop p).length := by
      rw [hpoint, List.length_drop, List.length_drop]
      omega
    have hfirst : many item stuck tracing ⟨p, t.drop p⟩ =
        ((many item stuck tracing (item.runAt t tracing p).point).map (a :: ·)).after
          (item.runAt t tracing p).journal := many_of_value ho hshorter
    rw [hfirst, hpoint, ih hp'']
    rcases many item stuck tracing _ with ⟨outcome, point, journal⟩
    cases outcome <;> simp [Run.map, Outcome.map, Run.after]

/-- An item that succeeds where the chain ends has not moved. -/
theorem point_of_halt {a : α} (hitem : item.Placed book) (hq : q ≤ t.length)
    (h : Greedy (item.runAt t tracing) q [] q) (ho : (item.runAt t tracing q).outcome = .value a) :
    (item.runAt t tracing q).point = ⟨q, t.drop q⟩ := by
  obtain ⟨q', -, -, hpoint⟩ := hitem.exists_index tracing hq
  cases h with
  | halt hhalt =>
    have hsame := hhalt a ho
    rw [hpoint] at hsame
    rw [hpoint, Int.ofNat.inj hsame]

/-- What a repetition comes to behind the entries of its chain, by what the item comes to
there. -/
def ending (stuck : Int → Failure) (values : List α) (q : Nat) : Outcome α → Outcome (List α)
  | .value _ => .failure (stuck q)
  | .failure f => if f.committed then .failure f else .value values
  | .abort b => .abort b

theorem outcome_many_of_greedy (hitem : item.Placed book) (hp : p ≤ t.length)
    (hq : q ≤ t.length) (h : Greedy (item.runAt t tracing) p entries q) :
    (many item stuck tracing ⟨p, t.drop p⟩).outcome =
        ending stuck (entries.map Prod.snd) q (item.runAt t tracing q).outcome ∧
      (many item stuck tracing ⟨p, t.drop p⟩).journal =
        (entries.map Prod.fst ++ [q]).flatMap fun i => (item.runAt t tracing i).journal := by
  rw [many_of_greedy hitem hp h]
  cases ho : (item.runAt t tracing q).outcome with
  | value a =>
    have hstays : ¬(item.runAt t tracing q).point.ahead.length < (t.drop q).length := by
      rw [point_of_halt hitem hq h.halted ho]
      exact Nat.lt_irrefl _
    rw [many_of_no_progress ho hstays]
    simp [Run.after, Run.map, Outcome.map, ending, runAt]
  | failure f =>
    by_cases hf : f.committed = true
    · rw [many_of_committed ho hf]
      simp [Run.after, Run.map, Outcome.map, ending, runAt, hf]
    · rw [many_of_uncommitted ho hf]
      simp [Run.after, Run.map, Outcome.map, ending, runAt, hf]
  | abort b =>
    rw [many_of_abort ho]
    simp [Run.after, Run.map, Outcome.map, ending, runAt]

theorem point_many_of_greedy {f : Failure} (hitem : item.Placed book) (hp : p ≤ t.length)
    (h : Greedy (item.runAt t tracing) p entries q)
    (ho : (item.runAt t tracing q).outcome = .failure f) (hf : f.committed = false) :
    (many item stuck tracing ⟨p, t.drop p⟩).point = ⟨q, t.drop q⟩ := by
  have hf' : ¬f.committed = true := by simp [hf]
  rw [many_of_greedy hitem hp h, many_of_uncommitted ho hf']
  rfl

end Parser

/-! ## The rule for a repetition -/

namespace Phrasebook

theorem placed_item (book : Phrasebook) (depth : Nat) (item : Phrase) :
    (item.rule (book.parseWithin depth)).parse.Placed book :=
  (Parser.closed_placed book).phrasebook book (fun _ => .unknownRule) depth item

/-- The failure of a repetition whose item does not move. -/
def stuck (book : Phrasebook) (depth : Nat) (item : Phrase) (name definition : String) :
    Int → Failure :=
  let star := (Phrase.star item name definition).rule (book.parseWithin depth)
  Rule.failed star.name star.definition
    ((item.rule (book.parseWithin depth)).name ++ " matched without consuming input")

/-- A trial of the repetition, told by its entries. -/
theorem star_run (book : Phrasebook) (depth : Nat) (item : Phrase) (name definition : String)
    (tracing : Bool) (s : Point) :
    let star := (Phrase.star item name definition).rule (book.parseWithin depth)
    let items := (item.rule (book.parseWithin depth)).parse.many
      (stuck book depth item name definition) tracing s
    (star.parse tracing s).outcome = items.outcome.map Datum.list ∧
      (star.parse tracing s).point = items.point ∧
      (star.body tracing s).journal = items.journal := by
  intro star items
  have hbody : star.body tracing s = items.map Datum.list := Parser.map_run _ _ _ _
  obtain ⟨ho, hs⟩ := Parser.parse_agreeOn star s.ahead tracing s.position
  rw [hbody] at ho hs
  exact ⟨ho, hs, congrArg Run.journal hbody⟩

theorem star_of_greedy {book : Phrasebook} {depth : Nat} {item : Phrase} {t : List Token}
    {tracing : Bool} {p q : Nat} {entries : List (Nat × Datum)} (name definition : String)
    (hp : p ≤ t.length) (hq : q ≤ t.length)
    (h : Greedy ((item.rule (book.parseWithin depth)).parse.runAt t tracing) p entries q) :
    let run := (item.rule (book.parseWithin depth)).parse.runAt t tracing
    let star := (Phrase.star item name definition).rule (book.parseWithin depth)
    (star.parse.runAt t tracing p).outcome =
        (Parser.ending (stuck book depth item name definition) (entries.map Prod.snd) q
          (run q).outcome).map Datum.list ∧
      (star.body.runAt t tracing p).journal =
        (entries.map Prod.fst ++ [q]).flatMap (fun i => (run i).journal) ∧
      ∀ f, (run q).outcome = .failure f → f.committed = false →
        (star.parse.runAt t tracing p).point = ⟨q, t.drop q⟩ := by
  intro run star
  have hitem := placed_item book depth item
  obtain ⟨ho, hs, hj⟩ := star_run book depth item name definition tracing ⟨p, t.drop p⟩
  obtain ⟨ho', hj'⟩ := Parser.outcome_many_of_greedy hitem hp hq h
  refine ⟨ho.trans (congrArg _ ho'), hj.trans hj', ?_⟩
  intro f hfailure hf
  exact hs.trans (Parser.point_many_of_greedy hitem hp h hfailure hf)

/-- The chain of a repetition, and what the repetition comes to by what its item comes to where
the chain ends.  The trials of the item are the entries of the chain and one more. -/
theorem star_greedy (book : Phrasebook) (depth : Nat) (item : Phrase) (name definition : String)
    (t : List Token) (p : Nat) (hp : p ≤ t.length) (tracing : Bool) :
    let rule := item.rule (book.parseWithin depth)
    let star := (Phrase.star item name definition).rule (book.parseWithin depth)
    let run := rule.parse.runAt t tracing
    let starRun := star.parse.runAt t tracing
    (∀ i ≤ t.length, (run i).outcome.ends) →
    ∃ entries q, Greedy run p entries q ∧
      (∀ entries' q', Greedy run p entries' q' → entries' = entries ∧ q' = q) ∧
      q ≤ t.length ∧ entries.length + 1 ≤ t.length - p + 1 ∧
      (star.body.runAt t tracing p).journal =
        (entries.map Prod.fst ++ [q]).flatMap (fun i => (run i).journal) ∧
      ((∃ f, (run q).outcome = .failure f ∧ f.committed = false ∧
          (starRun p).outcome = .value (.list (entries.map Prod.snd)) ∧
          (starRun p).point = ⟨q, t.drop q⟩ ∧
          (starRun q).outcome = .value (.list []) ∧ (starRun q).point = ⟨q, t.drop q⟩) ∨
        (∃ f, (run q).outcome = .failure f ∧ f.committed = true ∧
          (starRun p).outcome = .failure f) ∨
        ∃ v, (run q).outcome = .value v ∧ (run q).point = ⟨q, t.drop q⟩ ∧
          (starRun p).outcome = .failure (Rule.failed star.name star.definition
            (rule.name ++ " matched without consuming input") q)) ∧
      ((∀ i ≤ t.length, ∀ f, (run i).outcome = .failure f → f.committed = true) →
        ∀ v, (starRun p).outcome ≠ .value v) := by
  intro rule star run starRun hends
  have hitem : rule.parse.Placed book := placed_item book depth item
  obtain ⟨entries, q, h, hq⟩ := Parser.exists_greedy hitem tracing hp
  have hlength := h.add_length_le
  obtain ⟨ho, hj, hs⟩ := star_of_greedy name definition hp hq h
  refine ⟨entries, q, h, fun _ _ => h.unique, hq, by omega, hj, ?_, ?_⟩
  · cases hrun : (run q).outcome with
    | value v =>
      refine Or.inr (Or.inr ⟨v, rfl, Parser.point_of_halt hitem hq h.halted hrun, ?_⟩)
      rw [hrun] at ho
      exact ho
    | failure f =>
      by_cases hf : f.committed = true
      · refine Or.inr (Or.inl ⟨f, rfl, hf, ?_⟩)
        rw [hrun, Parser.ending, if_pos hf] at ho
        exact ho
      · -- The chain from where it ends has no entry.
        obtain ⟨ho', -, hs'⟩ := star_of_greedy name definition hq hq h.halted
        rw [hrun, Parser.ending, if_neg hf] at ho ho'
        have hf' : f.committed = false := Bool.eq_false_iff.mpr hf
        exact Or.inl ⟨f, rfl, hf', ho, hs f hrun hf', ho', hs' f hrun hf'⟩
    | abort b =>
      have hend := hends q hq
      rw [hrun] at hend
      cases hend
  · intro hcommitted v hv
    rw [hv] at ho
    cases hrun : (run q).outcome with
    | value a =>
      rw [hrun] at ho
      cases ho
    | failure f =>
      rw [hrun, Parser.ending, if_pos (hcommitted q hq f hrun)] at ho
      cases ho
    | abort b =>
      rw [hrun] at ho
      cases ho

/-- A word or nothing, behind a mark: two words are read, and then nothing would be read for
ever. -/
theorem star_greedy_word_or_nothing :
    let t : List Token := [.keyword .colon, .text "a", .text "b", .number 1]
    let item : Phrase := .oneOf [.word, .sequence [] none "nothing" ""] "" ""
    let run := (item.rule (parseWithin [] 0)).parse.runAt t false
    let star := (Phrase.star item "" "").rule (parseWithin [] 0)
    1 ≤ t.length ∧ (∀ i ≤ t.length, (run i).outcome.ends) ∧
      Greedy run 1 [(1, .text "a"), (2, .text "b")] 3 ∧
      (star.parse.runAt t false 1).outcome = .failure
        (Rule.failed "(text | nothing)*" "(text | nothing)*"
          "text | nothing matched without consuming input" 3) := by
  intro t item run star
  have hends : ∀ i ≤ t.length, (run i).outcome.ends := by decide +kernel
  have hnothing : (run 3).outcome = .value (.list []) := rfl
  have hchain : Greedy run 1 [(1, .text "a"), (2, .text "b")] 3 := by
    apply Greedy.step rfl rfl (by decide)
    apply Greedy.step rfl rfl (by decide)
    exact Greedy.halt fun _ _ => rfl
  obtain ⟨entries, q, -, hunique, -, -, -, hcases, -⟩ :=
    star_greedy [] 0 item "" "" t 1 (by decide) false hends
  obtain ⟨rfl, rfl⟩ := hunique _ _ hchain
  refine ⟨by decide, hends, hchain, ?_⟩
  rcases hcases with ⟨f, hf, -⟩ | ⟨f, hf, -⟩ | ⟨v, -, -, hstuck⟩
  · rw [hnothing] at hf
    cases hf
  · rw [hnothing] at hf
    cases hf
  · exact hstuck

end Phrasebook
end CounterLang
