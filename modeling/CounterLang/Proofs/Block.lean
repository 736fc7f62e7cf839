/-
Blocks and whole programs are read alike.

The statements of a program are read up to the last token, and those of a block up to the
first token that begins no statement.  So the tokens between the opening of a block and its
end are read as the program they would be on their own.  They are accepted in the one place
exactly if they are a program without definitions in the other, with the same statements
(`Program.read_enclosed_eq_ok_iff`).  A failure that is final is the same in both places.
The one that is not, where no statement begins, becomes a missing end of the block.

An opening uses up one level of nesting.  All this is true as long as loops are not nested
too deep in either place, and then the limit on nesting has no part in the result
(`Program.read_eq_ok_iff`, `Program.read_of_stops_of_conclusive`).
-/
import CounterLang.Proofs.Acceptance
import CounterLang.Proofs.Concatenation
import CounterLang.Proofs.Viability

namespace CounterLang

open Statement (tokensAll)

variable {n N : Nat} {u rest rest' t b : List Token} {d : Demand} {tok : Token}

/-! ## Results that do not hang on the limit -/

namespace Program

open Grammar (nestingLimit)

/-- The reading was not given up for loops nested too deep. -/
def Conclusive : Except Failure Program → Prop
  | .ok _ => True
  | .error f => ¬TooDeep f

instance : DecidablePred Conclusive
  | .ok _ => inferInstanceAs (Decidable True)
  | .error f => inferInstanceAs (Decidable (¬TooDeep f))

theorem not_conclusive_of_overruns {options : Options} (h : Overruns nestingLimit u rest) :
    ¬Conclusive (read options (u ++ rest)).result := by
  rw [read_of_overruns options h]
  exact fun hc => hc (tooDeep_located _ _)

/-- A reading stops in one way only, whatever bound it is said for. -/
theorem Stops.failure_eq {u' rest' : List Token} {d' : Demand} (h : Stops n u rest d)
    (h' : Stops N u' rest' d') (ht : u ++ rest = u' ++ rest') :
    d.failure rest u.length = d'.failure rest' u'.length := by
  have hrefuses := Grammar.refuses_items (h.mono (Nat.le_max_left n N)) false 0
  have hrefuses' := Grammar.refuses_items (h'.mono (Nat.le_max_right n N)) false 0
  rw [ht, hrefuses', Outcome.failure.injEq, Int.zero_add, Int.zero_add] at hrefuses
  exact hrefuses.symm

theorem read_of_stops_of_conclusive {options : Options} (h : Stops n u rest d)
    (hc : Conclusive (read options (u ++ rest)).result) :
    (read options (u ++ rest)).result =
      .error ((d.failure rest u.length).located (some options.filename)) := by
  generalize ht : u ++ rest = t at hc ⊢
  cases ending nestingLimit t with
  | reads items hitems => exact absurd ht (h.ne_flatMap_tokens items)
  | stops h' => rw [read_of_stops options h', h.failure_eq h' ht]
  | overruns h' => exact absurd hc (not_conclusive_of_overruns h')

theorem read_eq_ok_iff {options : Options} {p : Program}
    (hc : Conclusive (read options t).result) :
    (read options t).result = .ok p ↔
      ∃ items : List Item, t = items.flatMap Item.tokens ∧ p = ofItems items := by
  constructor
  · intro h
    obtain ⟨items, -, ht, hp⟩ := items_of_read_ok h
    exact ⟨items, ht, hp⟩
  · rintro ⟨items, ht, rfl⟩
    cases ending nestingLimit t with
    | reads items' hitems' =>
      rw [read_of_items options hitems', flatMap_tokens_injective ht]
    | stops h => exact absurd ht (h.ne_flatMap_tokens items)
    | overruns h => exact absurd hc (not_conclusive_of_overruns h)

end Program

/-! ## What opens a block -/

/-- The beginning of a loop or of a definition, up to where its block begins. -/
inductive Opening
  | loop (count : Value)
  | definition (name : String) (params : List Param)

namespace Opening

def tokens : Opening → List Token
  | loop count => [.keyword .loop, count.token]
  | definition name params =>
    .keyword .define :: .text name :: (params.flatMap Param.tokens ++ [.keyword .body])

/-- The tokens `b` between the opening and the end of the block. -/
def enclose (o : Opening) (b : List Token) : List Token := o.tokens ++ b ++ [.keyword .close]

/-- The item that consists of the opening and a block. -/
def item (body : List Statement) : Opening → Item
  | loop count => .statement (.loop count body)
  | definition name params => .definition ⟨name, params, body⟩

/-- The program that has this item and no other. -/
def program (body : List Statement) : Opening → Program
  | loop count => ⟨[], [.loop count body]⟩
  | definition name params => ⟨[⟨name, params, body⟩], []⟩

variable {o : Opening} {body : List Statement}

theorem tokens_item : (o.item body).tokens = o.enclose (tokensAll body) := by
  cases o with
  | loop count => rfl
  | definition name params => simp [item, Item.tokens, Definition.tokens, enclose, tokens]

theorem ofItems_item : Program.ofItems [o.item body] = o.program body := by
  cases o with
  | loop count => rfl
  | definition name params => rfl

theorem enclose_inj {b b' : List Token} : o.enclose b = o.enclose b' ↔ b = b' := by
  rw [enclose, enclose, List.append_left_inj, List.append_right_inj]

theorem enclose_append (u rest : List Token) :
    o.enclose (u ++ rest) = o.tokens ++ u ++ (rest ++ [.keyword .close]) := by
  rw [enclose, List.append_assoc, List.append_assoc, List.append_assoc]

/-- What stops a statement of the block stops the item. -/
theorem stops_inside (hbody : ∀ s ∈ body, s.depth < n) (h : Statement.Stops n u rest d) :
    Program.Stops (n + 1) (o.tokens ++ (tokensAll body ++ u)) rest d := by
  cases o with
  | loop count =>
    exact Program.Stops.first (Item.Stops.statement (Statement.Stops.inside count body hbody h))
  | definition name params =>
    have hstops := Program.Stops.first
      (Item.Stops.definition (Definition.Stops.inside name params body hbody h))
    simpa [Definition.head, tokens] using hstops.succ

/-- Where no statement of the block begins, its end is asked for. -/
theorem stops_close (hbody : Statement.depthAll body < n) (hs : Demand.statement.Unmet rest)
    (h : Demand.close.Unmet rest) :
    Program.Stops (n + 1) (o.tokens ++ tokensAll body) rest .close := by
  cases o with
  | loop count =>
    exact Program.Stops.first (Item.Stops.statement (Statement.Stops.close count body hbody hs h))
  | definition name params =>
    have hstops := Program.Stops.first
      (Item.Stops.definition (Definition.Stops.close name params body hbody hs h))
    simpa [Definition.head, tokens] using hstops.succ

end Opening

/-! ## Programs without definitions -/

namespace Program

variable {items : List Item} {body : List Statement}

theorem flatMap_tokens_statements (body : List Statement) :
    (body.map Item.statement).flatMap Item.tokens = tokensAll body := by
  rw [Statement.tokensAll_eq_flatMap, List.flatMap_map]
  rfl

theorem ofItems_statements (body : List Statement) :
    ofItems (body.map Item.statement) = ⟨[], body⟩ := by
  induction body with
  | nil => rfl
  | cons s body ih =>
    rw [List.map_cons, ← List.singleton_append, ofItems_append, ih]
    rfl

theorem eq_statements_of_ofItems (h : (ofItems items).definitions = []) :
    items = (ofItems items).statements.map Item.statement := by
  induction items with
  | nil => rfl
  | cons i items ih =>
    cases i with
    | definition d => cases h
    | statement s => exact congrArg (Item.statement s :: ·) (ih h)

theorem exists_statements (h : .keyword .define ∉ items.flatMap Item.tokens) :
    ∃ body : List Statement, items = body.map Item.statement := by
  refine ⟨_, eq_statements_of_ofItems ?_⟩
  rw [ofItems, List.filterMap_eq_nil_iff]
  intro i hi
  cases i with
  | statement s => rfl
  | definition d => exact absurd (List.mem_flatMap.mpr ⟨_, hi, List.mem_cons_self⟩) h

theorem length_ofItems (items : List Item) :
    (ofItems items).definitions.length + (ofItems items).statements.length = items.length := by
  induction items with
  | nil => rfl
  | cons i items ih =>
    have hcons : ofItems (i :: items) = (ofItems [i]).followedBy (ofItems items) :=
      ofItems_append [i] items
    have hone : (ofItems [i]).definitions.length + (ofItems [i]).statements.length = 1 := by
      cases i <;> rfl
    rw [hcons, followedBy, List.length_append, List.length_append, List.length_cons]
    omega

theorem exists_ofItems_eq_statements_iff :
    (∃ items : List Item, t = items.flatMap Item.tokens ∧ ⟨[], body⟩ = ofItems items) ↔
      t = tokensAll body := by
  constructor
  · rintro ⟨items, rfl, h⟩
    have hdefinitions : (ofItems items).definitions = [] := by rw [← h]
    rw [eq_statements_of_ofItems hdefinitions, ← h, flatMap_tokens_statements]
  · rintro rfl
    exact ⟨body.map .statement, (flatMap_tokens_statements body).symm,
      (ofItems_statements body).symm⟩

theorem eq_item_of_ofItems {o : Opening} (h : o.program body = ofItems items) :
    items = [o.item body] := by
  have hlength : items.length = 1 := by
    rw [← length_ofItems, ← h]
    cases o <;> rfl
  obtain ⟨i, rfl⟩ := List.length_eq_one_iff.mp hlength
  cases o with
  | loop count =>
    cases i with
    | definition d => cases h
    | statement s =>
      obtain ⟨-, hs⟩ := Program.mk.inj h
      rw [← (List.cons.inj hs).1]
      rfl
  | definition name params =>
    cases i with
    | definition d =>
      obtain ⟨hd, -⟩ := Program.mk.inj h
      rw [← (List.cons.inj hd).1]
      rfl
    | statement s => cases h

theorem exists_ofItems_eq_block_iff {o : Opening} :
    (∃ items : List Item, t = items.flatMap Item.tokens ∧ o.program body = ofItems items) ↔
      t = o.enclose (tokensAll body) := by
  rw [← Opening.tokens_item]
  constructor
  · rintro ⟨items, rfl, h⟩
    rw [eq_item_of_ofItems h, List.flatMap_singleton]
  · rintro rfl
    exact ⟨[o.item body], (List.flatMap_singleton _ _).symm, Opening.ofItems_item.symm⟩

end Program

/-! ## What stops a program stops a block -/

theorem Definition.Stops.define_mem (h : Stops n u rest d) : .keyword .define ∈ u := by
  cases h with
  | name h => exact List.mem_cons_self
  | paramType name params param h => exact List.mem_cons_self
  | params name params hp h => exact List.mem_cons_self
  | inside name params body hbody h => exact List.mem_cons_self
  | close name params body hbody hs h => exact List.mem_cons_self

namespace Program

/-- Without a definition, the reading stops in the statement behind those that are read, or
no statement begins there. -/
theorem Stops.behind_statements (h : Stops n u rest d) (hdef : .keyword .define ∉ u) :
    ∃ body : List Statement, (∀ s ∈ body, s.depth < n) ∧
      ((∃ v, u = tokensAll body ++ v ∧ Statement.Stops n v rest d) ∨
        (u = tokensAll body ∧ 0 < n ∧ d = .statement)) := by
  cases h with
  | item items hitems h =>
    rw [List.mem_append, not_or] at hdef
    obtain ⟨body, rfl⟩ := exists_statements hdef.1
    refine ⟨body, List.forall_mem_map.mp hitems, ?_⟩
    rw [flatMap_tokens_statements]
    cases h with
    | definition h => exact absurd h.define_mem hdef.2
    | statement h => exact Or.inl ⟨_, rfl, h⟩
    | absent hn hdef h => exact Or.inr ⟨List.append_nil _, hn, rfl⟩

variable {o : Opening}

theorem Stops.enclosed (h : Stops n u rest d) (hdef : .keyword .define ∉ u) (hd : d ≠ .statement)
    (hhead : rest.head? = rest'.head?) : Stops (n + 1) (o.tokens ++ u) rest' d := by
  obtain ⟨body, hbody, ⟨v, rfl, hv⟩ | ⟨-, -, rfl⟩⟩ := h.behind_statements hdef
  · exact Opening.stops_inside hbody (hv.congr hhead)
  · exact absurd rfl hd

/-- A block goes on to its end where a program would go on to the next item. -/
theorem Stops.enclosed_statement (h : Stops n u rest .statement) (hdef : .keyword .define ∉ u)
    (hclose : Demand.close.Unmet rest') (hhead : rest.head? = rest'.head?) :
    Stops (n + 1) (o.tokens ++ u) rest' .close := by
  obtain ⟨body, hbody, ⟨v, -, hv⟩ | ⟨rfl, hn, -⟩⟩ := h.behind_statements hdef
  · exact absurd rfl hv.ne_statement
  · have hs : Demand.statement.Unmet rest' := (Demand.unmet_congr hhead).mp h.unmet
    exact Opening.stops_close (Statement.depthAll_lt_iff.mpr ⟨hn, hbody⟩) hs hclose

/-! ## Results in the one place and in the other -/

/-- The block is accepted exactly if its tokens are a program without definitions. -/
theorem read_enclosed_eq_ok_iff {options : Options} {body : List Statement}
    (hb : Conclusive (read options b).result)
    (ho : Conclusive (read options (o.enclose b)).result) :
    (read options (o.enclose b)).result = .ok (o.program body) ↔
      (read options b).result = .ok ⟨[], body⟩ := by
  rw [read_eq_ok_iff hb, read_eq_ok_iff ho, exists_ofItems_eq_statements_iff,
    exists_ofItems_eq_block_iff, Opening.enclose_inj]

/-- The failure is that of the block's own tokens: what stands behind them is not looked at. -/
theorem read_enclosed_of_stops {options : Options}
    (h : Stops n (o.tokens ++ u) (tok :: (rest ++ [.keyword .close])) d)
    (ho : Conclusive (read options (o.enclose (u ++ tok :: rest))).result) :
    (read options (o.enclose (u ++ tok :: rest))).result =
      .error (((d.failure (tok :: rest) u.length).located (some options.filename)).moved
        o.tokens.length) := by
  have hfailure : ∀ i : Int, d.failure (tok :: (rest ++ [.keyword .close])) i =
      d.failure (tok :: rest) i := Demand.failure_congr rfl
  rw [Opening.enclose_append] at ho ⊢
  rw [List.cons_append, read_of_stops_of_conclusive h ho, hfailure, ← position_behind]
  rfl

/-- What `b` comes to in a block, told by what it comes to as a program. -/
theorem read_enclosed (options : Options) (o : Opening) (b : List Token)
    (hb : Conclusive (read options b).result)
    (ho : Conclusive (read options (o.enclose b)).result) :
    (∀ body : List Statement, (read options (o.enclose b)).result = .ok (o.program body) ↔
      (read options b).result = .ok ⟨[], body⟩) ∧
    ∀ (f : Failure) (k : Nat), (read options b).result = .error f →
      f.position = some (k : Int) → .keyword .define ∉ b.take k →
      (f.committed = true → k < b.length →
        (read options (o.enclose b)).result = .error (f.moved o.tokens.length)) ∧
      (f.committed = false → b[k]? ≠ some (.keyword .close) →
        ∃ tok, b[k]? = some tok ∧ (read options (o.enclose b)).result =
          .error { cause := .unexpectedToken "'END'" (.token tok),
                   position := some (k + o.tokens.length),
                   filename := some options.filename, committed := true }) := by
  refine ⟨fun body => read_enclosed_eq_ok_iff hb ho, ?_⟩
  intro f k hf hposition hdef
  have htooDeep : ¬TooDeep f := by rwa [hf] at hb
  obtain ⟨u, rest, d, rfl, hstops, rfl⟩ := stops_of_read_error hf htooDeep
  obtain rfl : u.length = k := Int.ofNat.inj (Option.some.inj hposition)
  rw [List.take_left' rfl] at hdef
  constructor
  · intro hcommitted hlt
    have hd : d ≠ .statement := of_decide_eq_true hcommitted
    have hne : rest ≠ [] := by
      rintro rfl
      rw [List.append_nil] at hlt
      exact Nat.lt_irrefl _ hlt
    obtain ⟨tok, rest, rfl⟩ := List.exists_cons_of_ne_nil hne
    exact read_enclosed_of_stops (hstops.enclosed hdef hd rfl) ho
  · -- All demands but one are final, and a statement is only missed in front of a token.
    intro hcommitted hclose
    obtain rfl : d = .statement := Decidable.not_not.mp (of_decide_eq_false hcommitted)
    obtain ⟨items, tok, rest, -, rfl, -, -⟩ := hstops.exists_absent
    have htok : (u ++ tok :: rest)[u.length]? = some tok := by simp
    have hunmet : Demand.close.Unmet (tok :: (rest ++ [.keyword .close])) := by
      rw [Demand.unmet_cons_iff, ← Bool.not_eq_true]
      intro hmeets
      rw [htok, Demand.eq_of_meets_keyword rfl hmeets] at hclose
      exact hclose rfl
    exact ⟨tok, htok, read_enclosed_of_stops (hstops.enclosed_statement hdef hunmet rfl) ho⟩

/-- A label that is missing in the body of a definition, and a loop that misses its end. -/
theorem read_enclosed_failures :
    let f : Failure :=
      { cause := .unexpectedToken "text" (.token (.number 3)), position := some 4,
        filename := some "<input>", committed := true }
    let b : List Token := [.keyword .incr, .text "r", .keyword .body]
    (read {} ((Opening.definition "F" [⟨"x", .register⟩]).enclose
        [.keyword .incr, .text "x", .keyword .jez, .text "x", .number 3])).result =
      .error (f.moved 6) ∧
    ∃ tok, b[2]? = some tok ∧ (read {} ((Opening.loop (.text "n")).enclose b)).result =
      .error { cause := .unexpectedToken "'END'" (.token tok), position := some (2 + 2),
               filename := some "<input>", committed := true } :=
  ⟨((read_enclosed {} (.definition "F" [⟨"x", .register⟩]) _ (by decide +kernel)
      (by decide +kernel)).2 _ 4 (by decide +kernel) rfl (by decide)).1 rfl (by decide),
    ((read_enclosed {} (.loop (.text "n")) _ (by decide +kernel)
      (by decide +kernel)).2
        { cause := .failedRule "statement" "repeat | jez | incr | decr | call"
            (some "no alternative matched"),
          position := some 2, filename := some "<input>" }
        2 (by decide +kernel) rfl (by decide)).2 rfl (by decide)⟩

end Program
end CounterLang
