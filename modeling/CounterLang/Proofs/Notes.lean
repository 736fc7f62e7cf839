/-
The notes of a reading.

With tracing off a reading enters nothing in its journal but a note for each definition, once
the definition has been read, and how the reading ended.  A parser that is tried and given up
leaves no note, since no note is made inside of statements, and since nothing is backtracked
over where definitions are read.  So the journal has the notes of the items that were read, in
their order, whatever the reading came to (`Program.read_journal_lines`).

Which items these are is told by the place of the failure alone: it lies inside of the item
that would be next, since no item that begins behind the others ends before that place
(`Program.FailsBehind`).  The tokens of one item are never the beginning of those of another
(`Item.eq_of_prefix`), so there is no second choice of items like that.
-/
import CounterLang.Proofs.Nesting
import CounterLang.Proofs.Tracing

namespace CounterLang

variable {α β : Type}

namespace Parser

/-- With tracing off the parser notes the value it has read in this way, and notes nothing
where it has read none. -/
def Notes (p : Parser α) (told : α → Journal) : Prop :=
  ∀ s, (p false s).journal = match (p false s).outcome with
    | .value a => told a
    | _ => []

/-- With tracing off the parser notes nothing. -/
def Quiet (p : Parser α) : Prop := ∀ s, (p false s).journal = []

variable {p q : Parser α} {told : α → Journal} {told' : β → Journal}

namespace Notes

theorem of_quiet_bind {g : α → Parser β} (hp : Quiet p) (hg : ∀ a, Notes (g a) told') :
    Notes (p >>= g) told' := by
  intro s
  show (Parser.bind p g false s).journal = match (Parser.bind p g false s).outcome with
    | .value b => told' b
    | _ => []
  have hquiet := hp s
  cases ho : (p false s).outcome with
  | value a =>
    simp only [Parser.bind, ho, hquiet, Run.after, List.nil_append]
    exact hg a _
  | failure e => simp only [Parser.bind, ho, hquiet]
  | abort b => simp only [Parser.bind, ho, hquiet]

/-- A note about a value that is there already. -/
theorem note (e : Event) (a : α) (h : told a = [e]) :
    Notes (Parser.note e >>= fun _ => Pure.pure a) told := by
  intro s
  exact h.symm

theorem map {g : α → β} (hp : Notes p fun a => told' (g a)) : Notes (g <$> p) told' := by
  intro s
  have hrun := hp s
  rw [map_run]
  cases ho : (p false s).outcome <;> simpa only [Run.map, Outcome.map, ho] using hrun

theorem ifNext {t : Token} (hp : Notes p told) (hq : Notes q told) :
    Notes (ifNext t p q) told := by
  intro s
  rcases ifNext_run t p q false s with h | h
  · rw [h]
    exact hp s
  · rw [h]
    exact hq s

theorem journal_of_failure (hp : Notes p told) {s : Point} {e : Failure}
    (ho : (p false s).outcome = .failure e) : (p false s).journal = [] := by
  rw [hp s, ho]

theorem journal_of_abort (hp : Notes p told) {s : Point} {b : Abort}
    (ho : (p false s).outcome = .abort b) : (p false s).journal = [] := by
  rw [hp s, ho]

end Notes

namespace Quiet

theorem notes (hp : Quiet p) : Notes p fun _ => [] := by
  intro s
  rw [hp s]
  cases (p false s).outcome <;> rfl

theorem of_notes (hp : Notes p fun _ => []) : Quiet p := by
  intro s
  rw [hp s]
  cases (p false s).outcome <;> rfl

theorem bind {g : α → Parser β} (hp : Quiet p) (hg : ∀ a, Quiet (g a)) : Quiet (p >>= g) :=
  of_notes (.of_quiet_bind hp fun a => (hg a).notes)

theorem next (kind : Kind) (read : Token → Option α) : Quiet (Parser.next kind read) := by
  rintro ⟨position, ahead⟩
  cases ahead with
  | nil => rfl
  | cons t rest => cases h : read t <;> simp only [Parser.next, h]

theorem refine {check : α → Option β} {fault : α → Int → Failure} (hp : Quiet p) :
    Quiet (p.refine check fault) := by
  intro s
  have hquiet := hp s
  cases ho : (p false s).outcome with
  | value a => cases h : check a <;> simp only [Parser.refine, ho, hquiet, h]
  | failure e => simp only [Parser.refine, ho, hquiet]
  | abort b => simp only [Parser.refine, ho, hquiet]

theorem committed (hp : Quiet p) : Quiet (Parser.committed p) := by
  intro s
  have hquiet := hp s
  cases ho : (p false s).outcome with
  | value a => simp only [Parser.committed, ho, hquiet]
  | abort b => simp only [Parser.committed, ho, hquiet]
  | failure e =>
    simp only [Parser.committed, ho, hquiet]
    rfl

theorem orElse (hp : Quiet p) (hq : Quiet q) : Quiet (p.orElse q) := by
  intro s
  have hquiet := hp s
  cases ho : (p false s).outcome with
  | value a => simp only [Parser.orElse, ho, hquiet]
  | abort b => simp only [Parser.orElse, ho, hquiet]
  | failure e =>
    by_cases he : e.committed = true
    · simp only [Parser.orElse, ho, if_pos he, hquiet]
    · simp only [Parser.orElse, ho, if_neg he, hquiet, Run.after, hq s]
      rfl

theorem many {stuck : Int → Failure} (hp : Quiet p) : Quiet (Parser.many p stuck) := by
  intro s
  induction s using Parser.many.induct p false with
  | case1 s r a ho hlt ih =>
    rw [many_of_value ho hlt]
    simp only [Run.after, Run.map, hp s]
    exact ih
  | case2 s r a ho hle =>
    rw [many_of_no_progress ho hle]
    exact hp s
  | case3 s r e ho he =>
    rw [many_of_committed ho he]
    exact hp s
  | case4 s r e ho he =>
    rw [many_of_uncommitted ho he]
    exact hp s
  | case5 s r b ho =>
    rw [many_of_abort ho]
    exact hp s

end Quiet

theorem inherited_quiet : Inherited Quiet where
  pure _ _ := rfl
  bind := Quiet.bind
  endless _ := rfl
  next := Quiet.next
  paramType := (Quiet.next _ _).refine
  committed := Quiet.committed
  orElse := Quiet.orElse
  failHere _ _ _ := rfl
  many _ _ _ hp := hp.many
  parse h := h

/-! ## Repetition -/

section Repetition

variable {form : α → List Token} {as : List α} {t u rest : List Token} {f : Int → Failure}

/-- What is read entry by entry is noted entry by entry. -/
theorem ReadsEach.untilEnd_journal (has : ReadsEach p form as) (hp : Notes p told)
    (t : List Token) (pos : Int) :
    (untilEnd p false ⟨pos, as.flatMap form ++ t⟩).journal =
      as.flatMap told ++ (untilEnd p false ⟨pos + (as.flatMap form).length, t⟩).journal := by
  induction as generalizing pos with
  | nil =>
    show _ = (untilEnd p false ⟨pos + 0, t⟩).journal
    rw [Int.add_zero]
    rfl
  | cons a as ih =>
    obtain ⟨⟨hne, ha⟩, has⟩ := has.cons
    rw [List.flatMap_cons, List.flatMap_cons, List.append_assoc, List.append_assoc]
    obtain ⟨ho, hs⟩ := ha (as.flatMap form ++ t) false pos
    have hlt := length_lt_append hne (as.flatMap form ++ t)
    have happend : form a ++ (as.flatMap form ++ t) ≠ [] := by simp [hne]
    have hnotes := hp ⟨pos, form a ++ (as.flatMap form ++ t)⟩
    rw [ho] at hnotes
    rw [untilEnd_of_value happend ho (by rwa [hs]), hs]
    show _ ++ (untilEnd p false ⟨pos + (form a).length, as.flatMap form ++ t⟩).journal = _
    rw [hnotes, ih has, pos_add_append]

theorem Refuses.untilEnd_journal (h : Refuses p u rest f) (hp : Notes p told) (pos : Int)
    (hne : u ++ rest ≠ []) : (Parser.untilEnd p false ⟨pos, u ++ rest⟩).journal = [] := by
  have ho := h false pos
  rw [untilEnd_of_failure hne ho]
  exact hp.journal_of_failure ho

theorem Aborts.untilEnd_journal (h : Aborts p u rest) (hp : Notes p told) (pos : Int)
    (hne : u ++ rest ≠ []) : (Parser.untilEnd p false ⟨pos, u ++ rest⟩).journal = [] := by
  have ho := (h false pos).1
  rw [untilEnd_of_abort hne ho]
  exact hp.journal_of_abort ho

end Repetition
end Parser

/-! ## Definitions and items -/

def Definition.note (d : Definition) : Event :=
  .readDefinition d.name d.params.length d.body.length

def Item.notes : Item → Journal
  | definition d => [d.note]
  | statement _ => []

namespace Grammar

open CounterLang.Parser

theorem notes_definition (limit : Nat) : Notes (definition limit).parse fun d => [d.note] := by
  have hquiet := inherited_quiet
  have htail : Quiet (Parser.committed (definitionTail limit)) := by
    apply hquiet.committed
    exact hquiet.bind hquiet.word fun _ => hquiet.bind (hquiet.parse hquiet.params) fun _ =>
      hquiet.bind (hquiet.keyword .body) fun _ =>
        hquiet.bind (hquiet.parse (hquiet.block limit)) fun _ =>
          hquiet.bind (hquiet.keyword .close) fun _ => hquiet.pure _
  have hbody : Notes (definition limit).body fun d => [d.note] :=
    .of_quiet_bind (hquiet.keyword .define) fun _ =>
      .of_quiet_bind htail fun d => .note d.note d rfl
  exact hbody

theorem notes_item (limit : Nat) : Notes (item limit) Item.notes := by
  apply Notes.ifNext
  · exact (notes_definition limit).map
  · exact (inherited_quiet.parse (inherited_quiet.statement limit)).notes.map

end Grammar

/-! ## The item that is not read -/

/-- An item does not begin like another one. -/
theorem Item.eq_of_prefix {i j : Item} (h : i.tokens <+: j.tokens) : i = j := by
  -- The limit on nesting plays no part: both are read with a bound that neither reaches.
  obtain ⟨n, hn⟩ := Program.exists_depth_bound [i, j]
  have hi : i.depth < n := hn i (by simp)
  have hj : j.depth < n := hn j (by simp)
  obtain ⟨w, hw⟩ := h
  have hreads := (Grammar.reads_item hi w false 0).1
  have hreads' := (Grammar.reads_item hj [] false 0).1
  rw [List.append_nil, ← hw, hreads, Outcome.value.injEq] at hreads'
  exact hreads'

/-- Tokens are cut into items in one way, as far as they are cut. -/
theorem Item.exists_more {items items' : List Item} {t t' : List Token}
    (h : items.flatMap tokens ++ t = items'.flatMap tokens ++ t') :
    (∃ more, items' = items ++ more ∧ t = more.flatMap tokens ++ t') ∨
      ∃ more, items = items' ++ more ∧ t' = more.flatMap tokens ++ t := by
  induction items generalizing items' with
  | nil => exact Or.inl ⟨items', rfl, h⟩
  | cons i items ih =>
    cases items' with
    | nil => exact Or.inr ⟨i :: items, rfl, h.symm⟩
    | cons j items' =>
      rw [List.flatMap_cons, List.flatMap_cons, List.append_assoc, List.append_assoc] at h
      have heq : i = j := by
        rcases List.prefix_or_prefix_of_prefix (List.prefix_append i.tokens _)
          (h ▸ List.prefix_append j.tokens _) with hij | hji
        · exact Item.eq_of_prefix hij
        · exact (Item.eq_of_prefix hji).symm
      subst heq
      rcases ih (List.append_cancel_left h) with ⟨more, rfl, ht⟩ | ⟨more, rfl, ht⟩
      · exact Or.inl ⟨more, rfl, ht⟩
      · exact Or.inr ⟨more, rfl, ht⟩

section Behind

variable {n : Nat} {u rest w : List Token} {d : Demand} {i j : Item}

/-- An item that ends within the beginning of another one is that one, and ends with it. -/
theorem Item.eq_of_length_le (hj : j.tokens = u ++ w) (hi : i.tokens <+: u ++ rest)
    (hle : i.tokens.length ≤ u.length) : i = j ∧ w = [] := by
  have hu : i.tokens <+: u := List.prefix_of_prefix_length_le hi (List.prefix_append u rest) hle
  have heq : i = j := by
    apply Item.eq_of_prefix
    rw [hj]
    exact hu.trans (List.prefix_append u w)
  rw [heq, hj, List.length_append] at hle
  exact ⟨heq, List.eq_nil_of_length_eq_zero (by omega)⟩

/-- An item that begins where another one stops goes on behind what was read of that one. -/
theorem Item.Stops.length_lt (h : Item.Stops n u rest d) (hi : i.tokens <+: u ++ rest) :
    u.length < i.tokens.length := by
  apply Nat.lt_of_not_le
  intro hle
  obtain ⟨tok, htok⟩ := d.exists_meets
  obtain ⟨j, w, hj⟩ := h.begins htok
  rw [List.append_assoc] at hj
  exact List.cons_ne_nil _ _ (Item.eq_of_length_le hj hi hle).2

theorem Item.Overruns.length_lt (hn : 0 < n) (h : Item.Overruns n u rest)
    (hi : i.tokens <+: u ++ rest) : u.length < i.tokens.length := by
  apply Nat.lt_of_not_le
  intro hle
  obtain ⟨j, w, hj⟩ := h.begins
  rw [(Item.eq_of_length_le hj hi hle).2, List.append_nil] at hj
  -- All loops of an item are closed, and those that lie too deep are open.
  have hopen := h.openLoops_eq
  rw [← hj, j.openLoops_tokens] at hopen
  omega

end Behind

/-! ## The journal of a reading -/

/-- The line about a definition that has been read. -/
def Definition.line (d : Definition) : String :=
  "counter_machines.parser: Parsed function '" ++ d.name ++ "' (" ++
    Numeral.text d.params.length ++ " args, " ++ Numeral.text d.body.length ++ " statements)"

theorem Journal.lines_append (j k : Journal) :
    Journal.lines (j ++ k) = Journal.lines j ++ Journal.lines k := List.filterMap_append ..

theorem Item.lines_notes (items : List Item) :
    Journal.lines (items.flatMap Item.notes) =
      (items.filterMap Item.definition?).map Definition.line := by
  induction items with
  | nil => rfl
  | cons i items ih =>
    rw [List.flatMap_cons, Journal.lines_append, ih]
    cases i with
    | definition d => rfl
    | statement s => rfl

namespace Program

open Grammar (nestingLimit)

variable {items : List Item} {t u rest : List Token} {options : Options}

theorem read_journal_of_items (h : options.tracing = false)
    (hitems : ∀ i ∈ items, i.depth < nestingLimit)
    (ht : ∀ pos, (Grammar.items nestingLimit false ⟨pos, t⟩).journal = []) :
    (read options (items.flatMap Item.tokens ++ t)).journal =
      items.flatMap Item.notes ++
        [Reading.conclusion options (read options (items.flatMap Item.tokens ++ t)).result] := by
  have hjournal := (Grammar.readsEach_item hitems).untilEnd_journal
    (Grammar.notes_item nestingLimit) t 0
  have hbehind := ht (0 + (items.flatMap Item.tokens).length)
  rw [Grammar.items] at hbehind
  rw [hbehind, List.append_nil] at hjournal
  rw [read, readIn, h, Grammar.items, hjournal]

/-- The reading has read `items` when it fails, and the failure lies in the item that would be
next: what ends there or before is none. -/
structure FailsBehind (options : Options) (t : List Token) (items : List Item)
    (behind : List Token) (f : Failure) (e : Nat) : Prop where
  tokens : t = items.flatMap Item.tokens ++ behind
  result : (read options t).result = .error f
  position : f.position = some (e : Int)
  length_le : (items.flatMap Item.tokens).length ≤ e
  lt_length (i : Item) (hi : i.tokens <+: behind) :
    e < (items.flatMap Item.tokens ++ i.tokens).length

namespace FailsBehind

variable {items' more : List Item} {behind behind' : List Token} {f f' : Failure} {e e' : Nat}

/-- No item that ends before the failure is left out. -/
theorem append_eq_self (h : FailsBehind options t items behind f e)
    (hbehind : behind = more.flatMap Item.tokens ++ behind')
    (hle : ((items ++ more).flatMap Item.tokens).length ≤ e) : items ++ more = items := by
  cases more with
  | nil => exact List.append_nil items
  | cons i more =>
    rw [List.flatMap_cons, List.append_assoc] at hbehind
    have hlt := h.lt_length i (hbehind ▸ List.prefix_append i.tokens _)
    simp only [List.flatMap_append, List.flatMap_cons, List.length_append] at hle hlt
    omega

/-- The failure tells which items have been read. -/
theorem unique (h : FailsBehind options t items behind f e)
    (h' : FailsBehind options t items' behind' f' e') : items' = items := by
  obtain rfl : f = f' := Except.error.inj (h.result.symm.trans h'.result)
  obtain rfl : e = e' := Int.ofNat.inj (Option.some.inj (h.position.symm.trans h'.position))
  rcases Item.exists_more (h.tokens.symm.trans h'.tokens) with
    ⟨more, rfl, hbehind⟩ | ⟨more, rfl, hbehind⟩
  · exact h.append_eq_self hbehind h'.length_le
  · exact (h'.append_eq_self hbehind h.length_le).symm

end FailsBehind

theorem failsBehind {f : Failure}
    (hresult : (read options (items.flatMap Item.tokens ++ u ++ rest)).result = .error f)
    (hposition : f.position = some ((items.flatMap Item.tokens ++ u).length : Int))
    (hu : ∀ i : Item, i.tokens <+: u ++ rest → u.length < i.tokens.length) :
    FailsBehind options (items.flatMap Item.tokens ++ u ++ rest) items (u ++ rest) f
      (items.flatMap Item.tokens ++ u).length where
  tokens := List.append_assoc ..
  result := hresult
  position := hposition
  length_le := by
    rw [List.length_append]
    exact Nat.le_add_right _ _
  lt_length i hi := by
    rw [List.length_append, List.length_append]
    exact Nat.add_lt_add_left (hu i hi) _

/-- With tracing off there is a note for each definition that has been read, in order, and at
last the conclusion. -/
theorem read_journal (options : Options) (h : options.tracing = false) (t : List Token) :
    (∃ items : List Item, t = items.flatMap Item.tokens ∧
      (read options t).result = .ok (ofItems items) ∧
      (read options t).journal = items.flatMap Item.notes ++
        [Reading.conclusion options (.ok (ofItems items))]) ∨
    ∃ items behind f e, FailsBehind options t items behind f e ∧
      (read options t).journal = items.flatMap Item.notes ++
        [Reading.conclusion options (.error f)] := by
  cases ending nestingLimit t with
  | reads items hitems =>
    have hjournal := read_journal_of_items h hitems (t := []) fun pos => by
      rw [Grammar.items, Parser.untilEnd_of_end rfl]
    have hresult := read_of_items options hitems
    rw [List.append_nil, hresult] at hjournal
    exact Or.inl ⟨items, rfl, hresult, hjournal⟩
  | @stops u rest d hstops =>
    have hresult := read_of_stops options hstops
    cases hstops with
    | @item u _ _ items hitems hitem =>
      have hjournal := read_journal_of_items h hitems (t := u ++ rest) fun pos =>
        (Grammar.refuses_item hitem).untilEnd_journal (Grammar.notes_item nestingLimit) pos
          (Grammar.stops_append_ne_nil hitem)
      rw [← List.append_assoc, hresult] at hjournal
      exact Or.inr ⟨items, _, _, _, failsBehind hresult rfl fun _ => hitem.length_lt, hjournal⟩
  | @overruns u rest hover =>
    have hresult := read_of_overruns options hover
    cases hover with
    | @item u _ items hitems hne hitem =>
      have hjournal := read_journal_of_items h hitems (t := u ++ rest) fun pos =>
        (Grammar.aborts_item hitem).untilEnd_journal (Grammar.notes_item nestingLimit) pos hne
      rw [← List.append_assoc, hresult] at hjournal
      exact Or.inr ⟨items, _, _, _,
        failsBehind hresult rfl fun _ => hitem.length_lt (by decide), hjournal⟩

/-- The lines of the journal with tracing off.  What a reading has accepted is told definition
by definition and then as a whole.  Where it fails, the definitions are told that end before
the item in which the failure lies, and then the failure. -/
theorem read_journal_lines (filename : String) (t : List Token) :
    let reading := read { filename := filename } t
    (∃ p, reading.result = .ok p ∧
      reading.journal.lines = p.definitions.map Definition.line ++
        ["counter_machines.parser: Parsed " ++ filename ++ ": " ++
          Numeral.text p.definitions.length ++ " functions, " ++
          Numeral.text p.statements.length ++ " statements"]) ∨
    ∃ items behind f e, FailsBehind { filename := filename } t items behind f e ∧
      (∀ items' behind' f' e', FailsBehind { filename := filename } t items' behind' f' e' →
        items' = items) ∧
      reading.journal.lines = (items.filterMap Item.definition?).map Definition.line ++
        ["counter_machines.parser: Parse of " ++ filename ++ " failed: " ++ f.text] := by
  intro reading
  rcases read_journal { filename := filename } rfl t with
    ⟨items, -, hresult, hjournal⟩ | ⟨items, behind, f, e, hfails, hjournal⟩
  · refine Or.inl ⟨ofItems items, hresult, ?_⟩
    show (read _ t).journal.lines = _
    rw [hjournal, Journal.lines_append, Item.lines_notes]
    rfl
  · refine Or.inr ⟨items, behind, f, e, hfails, fun _ _ _ _ h => hfails.unique h, ?_⟩
    show (read _ t).journal.lines = _
    rw [hjournal, Journal.lines_append, Item.lines_notes]
    rfl

/-- The second definition is told before the statement behind it turns out to be cut off. -/
example :
    let f : List Token := [.keyword .define, .text "f", .text "x", .keyword .colon, .text "REG",
      .keyword .body, .keyword .incr, .text "x", .keyword .close]
    let g : List Token := [.keyword .define, .text "g", .keyword .body, .keyword .close]
    (read { filename := "p.cm" } (f ++ g ++ [.keyword .incr])).journal.lines =
      ["counter_machines.parser: Parsed function 'f' (1 args, 1 statements)",
        "counter_machines.parser: Parsed function 'g' (0 args, 0 statements)",
        "counter_machines.parser: Parse of p.cm failed: unexpected end of input"] := by
  decide +kernel

end Program
end CounterLang
