/-
Which programs come of reading a text.

The tokens of a text are well-formed, so what they make up has names and numbers that can be
written, and it has no more loops inside of each other than can be read.  Every program of such
parts comes of some text (`Program.readable_iff`).
-/
import CounterLang.Proofs.RoundTrip
import CounterLang.Proofs.ScanImage

namespace CounterLang

/-! ## The parts of a program -/

namespace Program

/-- The parts that lie in no other, definitions first. -/
def items (p : Program) : List Item :=
  p.definitions.map .definition ++ p.statements.map .statement

theorem ofItems_items (p : Program) : ofItems p.items = p := by
  have hdefinition : Item.definition? ∘ Item.definition = some := rfl
  have hstatement : Item.statement? ∘ Item.statement = some := rfl
  have hdefinitions : p.statements.filterMap (Item.definition? ∘ Item.statement) = [] :=
    List.filterMap_eq_nil_iff.mpr fun _ _ => rfl
  have hstatements : p.definitions.filterMap (Item.statement? ∘ Item.definition) = [] :=
    List.filterMap_eq_nil_iff.mpr fun _ _ => rfl
  rw [ofItems, items, List.filterMap_append, List.filterMap_append, List.filterMap_map,
    List.filterMap_map, List.filterMap_map, List.filterMap_map, hdefinition, hstatement,
    hdefinitions, hstatements, List.filterMap_some, List.filterMap_some, List.append_nil,
    List.nil_append]

theorem mem_of_mem_items_ofItems {i : Item} {is : List Item} (h : i ∈ (ofItems is).items) :
    i ∈ is := by
  rw [items, ofItems, List.mem_append, List.mem_map, List.mem_map] at h
  rcases h with ⟨d, hd, rfl⟩ | ⟨s, hs, rfl⟩
  · obtain ⟨i, hi, hdefinition⟩ := List.mem_filterMap.mp hd
    cases i with
    | definition e => rwa [← Option.some.inj hdefinition]
    | statement s => cases hdefinition
  · obtain ⟨i, hi, hstatement⟩ := List.mem_filterMap.mp hs
    cases i with
    | definition d => cases hstatement
    | statement t => rwa [← Option.some.inj hstatement]

end Program

/-! ## Well-formed tokens make up what can be written -/

theorem Value.writable_of_wellFormed {v : Value} (h : v.token.WellFormed) : v.Writable := by
  cases v with
  | text word => exact h
  | number value => exact h

theorem WellFormedAll.of_cons {t : Token} {ts : List Token} (h : WellFormedAll (t :: ts)) :
    t.WellFormed ∧ WellFormedAll ts :=
  List.forall_mem_cons.mp h

theorem WellFormedAll.of_append {ts us : List Token} (h : WellFormedAll (ts ++ us)) :
    WellFormedAll ts ∧ WellFormedAll us :=
  List.forall_mem_append.mp h

namespace Statement

mutual

theorem writable_of_wellFormedAll {s : Statement} (h : WellFormedAll s.tokens) : s.Writable := by
  cases s with
  | loop count body =>
    obtain ⟨hcount, h⟩ := h.of_cons.2.of_cons
    exact ⟨Value.writable_of_wellFormed hcount, writableAll_of_wellFormedAll h.of_append.1⟩
  | jez register label =>
    obtain ⟨hregister, h⟩ := h.of_cons.2.of_cons
    exact ⟨hregister, h.of_cons.1⟩
  | incr register => exact h.of_cons.2.of_cons.1
  | decr register => exact h.of_cons.2.of_cons.1
  | call name args =>
    obtain ⟨hname, h⟩ := h.of_cons
    have hargs := List.forall_mem_map.mp h.of_append.1
    exact ⟨hname, fun v hv => Value.writable_of_wellFormed (hargs v hv)⟩

theorem writableAll_of_wellFormedAll {body : List Statement} (h : WellFormedAll (tokensAll body)) :
    WritableAll body := by
  cases body with
  | nil => exact trivial
  | cons s rest =>
    obtain ⟨hs, hrest⟩ := h.of_append
    exact ⟨writable_of_wellFormedAll hs, writableAll_of_wellFormedAll hrest⟩

end

end Statement

namespace Item

theorem writable_of_wellFormedAll {i : Item} (h : WellFormedAll i.tokens) : i.Writable := by
  cases i with
  | definition d =>
    obtain ⟨hname, h⟩ := h.of_cons.2.of_cons
    obtain ⟨hparams, h⟩ := h.of_append
    refine ⟨hname, fun p hp => ?_,
      Statement.writableAll_of_wellFormedAll h.of_cons.2.of_append.1⟩
    exact hparams _ (List.mem_flatMap.mpr ⟨p, hp, List.mem_cons_self⟩)
  | statement s => exact Statement.writable_of_wellFormedAll h

end Item

/-! ## Programs of texts -/

namespace Program

/-- The program is what comes of reading some text. -/
def Readable (p : Program) : Prop :=
  ∃ options text reading, readText options text = .ok reading ∧ reading.result = .ok p

theorem readable_of_tokensOf {text : String} {is : List Item}
    (htokens : tokensOf text = .ok (is.flatMap Item.tokens))
    (hdepth : ∀ i ∈ is, i.depth < Grammar.nestingLimit) : (ofItems is).Readable := by
  obtain ⟨reading, hreading, hresult⟩ := readText_of_tokensOf {} htokens
  exact ⟨{}, text, reading, hreading, hresult.trans (read_of_items {} hdepth)⟩

theorem Readable.exists_items {p : Program} (h : p.Readable) :
    ∃ items : List Item, (∀ i ∈ items, i.Writable ∧ i.depth < Grammar.nestingLimit) ∧
      p = ofItems items := by
  obtain ⟨options, text, reading, hreading, hresult⟩ := h
  cases htokens : tokensOf text with
  | error e =>
    rw [readText, readTextIn_of_tooLong _ options htokens] at hreading
    cases hreading
  | ok tokens =>
    obtain ⟨reading', hreading', hsame⟩ := readText_of_tokensOf options htokens
    obtain rfl : reading' = reading := Except.ok.inj (hreading'.symm.trans hreading)
    obtain ⟨items, hdepth, rfl, hp⟩ := items_of_read_ok (hsame.symm.trans hresult)
    refine ⟨items, fun i hi => ⟨Item.writable_of_wellFormedAll fun t ht => ?_, hdepth i hi⟩, hp⟩
    exact wellFormedAll_of_tokensOf htokens t (List.mem_flatMap.mpr ⟨i, hi, ht⟩)

/-- A program comes of a text if and only if its parts can be written, with loops that are not
nested too deep. -/
theorem readable_iff {p : Program} :
    p.Readable ↔ ∀ i ∈ p.items, i.Writable ∧ i.depth < Grammar.nestingLimit := by
  constructor
  · intro h i hi
    obtain ⟨is, his, rfl⟩ := h.exists_items
    exact his i (mem_of_mem_items_ofItems hi)
  · intro h
    have hwellFormed : WellFormedAll (p.items.flatMap Item.tokens) :=
      wellFormedAll_flatMap fun i hi => (h i hi).1.wellFormedAll
    obtain ⟨text, htext⟩ := exists_written (p.items.flatMap Item.tokens)
    rw [← ofItems_items p]
    exact readable_of_tokensOf (htext.tokensOf_eq hwellFormed) fun i hi => (h i hi).2

end Program
end CounterLang
