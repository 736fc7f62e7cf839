/-
Viable beginnings.

Tokens are viable if some program begins with them.  Where a reading has stopped for good,
what has been read is viable, and so is what has been read together with any token that
meets the demand (`Stops.viable`).  With the token that is ahead instead it is not
(`Stops.not_viable`).  The one exception is a word in the head of a definition: the word
may still turn out to be the name of a parameter, and it takes one more token to exclude
that.

A place that is not viable is found without an analysis of the grammar.  Where a reading
stops depends on the first tokens ahead only (`Stops.congr`), so it stops at the same place
in every program that would go on from there, and programs do not stop.
-/
import CounterLang.Proofs.Outcome

namespace CounterLang

open Statement (tokensAll)

variable {n N : Nat} {u rest rest' t : List Token} {d : Demand} {tok : Token}

/-! ## Beginnings

A beginning of a part is a beginning of the whole, behind what comes before the part. -/

def Statement.Begins (t : List Token) : Prop := ∃ (s : Statement) (w : List Token), s.tokens = t ++ w

def Definition.Begins (t : List Token) : Prop :=
  ∃ (d : Definition) (w : List Token), d.tokens = t ++ w

def Item.Begins (t : List Token) : Prop := ∃ (i : Item) (w : List Token), i.tokens = t ++ w

/-- Some program begins with the tokens. -/
def Program.Viable (t : List Token) : Prop := ∃ items : List Item, t <+: items.flatMap Item.tokens

theorem Statement.tokensAll_concat (body : List Statement) (s : Statement) :
    tokensAll (body ++ [s]) = tokensAll body ++ s.tokens := by
  rw [tokensAll_eq_flatMap, tokensAll_eq_flatMap, List.flatMap_append, List.flatMap_singleton]

theorem Statement.Begins.inside (count : Value) (body : List Statement) (h : Begins t) :
    Begins (.keyword .loop :: count.token :: (tokensAll body ++ t)) := by
  obtain ⟨s, w, hs⟩ := h
  refine ⟨.loop count (body ++ [s]), w ++ [.keyword .close], ?_⟩
  rw [tokens, tokensAll_concat, hs]
  simp

theorem Definition.begins_inside (name : String) (params : List Param) (body : List Statement)
    (h : Statement.Begins t) :
    Begins (head name params ++ .keyword .body :: (tokensAll body ++ t)) := by
  obtain ⟨s, w, hs⟩ := h
  refine ⟨⟨name, params, body ++ [s]⟩, w ++ [.keyword .close], ?_⟩
  rw [tokens, Statement.tokensAll_concat, hs]
  simp [head]

theorem Definition.Begins.item (h : Begins t) : Item.Begins t := by
  obtain ⟨d, w, hd⟩ := h
  exact ⟨.definition d, w, hd⟩

theorem Statement.Begins.item (h : Begins t) : Item.Begins t := by
  obtain ⟨s, w, hs⟩ := h
  exact ⟨.statement s, w, hs⟩

theorem Item.Begins.viable (items : List Item) (h : Begins t) :
    Program.Viable (items.flatMap Item.tokens ++ t) := by
  obtain ⟨i, w, hi⟩ := h
  refine ⟨items ++ [i], w, ?_⟩
  rw [List.flatMap_append, List.flatMap_singleton, hi, List.append_assoc]

theorem Program.Viable.of_append (h : Viable (t ++ u)) : Viable t := by
  obtain ⟨items, hitems⟩ := h
  exact ⟨items, (List.prefix_append t u).trans hitems⟩

/-! ## What meets a demand goes on -/

theorem Demand.exists_meets (d : Demand) : ∃ tok, d.meets tok = true := by
  cases d with
  | word => exact ⟨.text "", rfl⟩
  | value => exact ⟨.text "", rfl⟩
  | paramType => exact ⟨.text ParamType.register.keyword, rfl⟩
  | body => exact ⟨.keyword .body, rfl⟩
  | close => exact ⟨.keyword .close, rfl⟩
  | semicolon => exact ⟨.keyword .semicolon, rfl⟩
  | statement => exact ⟨.text "", rfl⟩

theorem Statement.begins_of_meets (h : Demand.statement.meets tok = true) : Begins [tok] := by
  cases tok with
  | text w => exact ⟨.call w [], [.keyword .semicolon], rfl⟩
  | number i => cases h
  | keyword k =>
    cases k with
    | loop => exact ⟨.loop (.number 0) [], [.number 0, .keyword .close], rfl⟩
    | jez => exact ⟨.jez ⟨""⟩ ⟨""⟩, [.text "", .text ""], rfl⟩
    | incr => exact ⟨.incr ⟨""⟩, [.text ""], rfl⟩
    | decr => exact ⟨.decr ⟨""⟩, [.text ""], rfl⟩
    | define => cases h
    | body => cases h
    | close => cases h
    | colon => cases h
    | semicolon => cases h

theorem Statement.Stops.begins (h : Stops n u rest d) (hd : d.meets tok = true) :
    Begins (u ++ [tok]) := by
  induction h with
  | count h =>
    obtain ⟨count, rfl⟩ := Demand.exists_of_meets_value hd
    exact ⟨.loop count [], [.keyword .close], rfl⟩
  | inside count body hbody h ih =>
    have hbegins := (ih hd).inside count body
    rwa [← List.append_assoc] at hbegins
  | close count body hbody hs h =>
    rw [Demand.eq_of_meets_keyword rfl hd]
    exact ⟨.loop count body, [], by simp [tokens]⟩
  | register h =>
    obtain ⟨r, rfl⟩ := Demand.exists_of_meets_word hd
    exact ⟨.jez ⟨r⟩ ⟨""⟩, [.text ""], rfl⟩
  | label register h =>
    obtain ⟨l, rfl⟩ := Demand.exists_of_meets_word hd
    exact ⟨.jez ⟨register⟩ ⟨l⟩, [], rfl⟩
  | incr h =>
    obtain ⟨r, rfl⟩ := Demand.exists_of_meets_word hd
    exact ⟨.incr ⟨r⟩, [], rfl⟩
  | decr h =>
    obtain ⟨r, rfl⟩ := Demand.exists_of_meets_word hd
    exact ⟨.decr ⟨r⟩, [], rfl⟩
  | args name args hv h =>
    rw [Demand.eq_of_meets_keyword rfl hd]
    exact ⟨.call name args, [], by simp [tokens]⟩

theorem Definition.Stops.begins (h : Stops n u rest d) (hd : d.meets tok = true) :
    Begins (u ++ [tok]) := by
  cases h with
  | name h =>
    obtain ⟨name, rfl⟩ := Demand.exists_of_meets_word hd
    exact ⟨⟨name, [], []⟩, [.keyword .body, .keyword .close], rfl⟩
  | paramType name params param h =>
    obtain ⟨type, rfl⟩ := Demand.exists_of_meets_paramType hd
    refine ⟨⟨name, params ++ [⟨param, type⟩], []⟩, [.keyword .body, .keyword .close], ?_⟩
    simp [tokens, head, Param.tokens, tokensAll]
  | params name params hp h =>
    rw [Demand.eq_of_meets_keyword rfl hd]
    exact ⟨⟨name, params, []⟩, [.keyword .close], by simp [tokens, head, tokensAll]⟩
  | inside name params body hbody h =>
    have hbegins := begins_inside name params body (h.begins hd)
    simpa using hbegins
  | close name params body hbody hs h =>
    rw [Demand.eq_of_meets_keyword rfl hd]
    exact ⟨⟨name, params, body⟩, [], by simp [tokens, head]⟩

theorem Item.Stops.begins (h : Stops n u rest d) (hd : d.meets tok = true) :
    Begins (u ++ [tok]) := by
  cases h with
  | definition h => exact (h.begins hd).item
  | statement h => exact (h.begins hd).item
  | absent hn hdef h => exact (Statement.begins_of_meets hd).item

theorem Program.Stops.viable (h : Stops n u rest d) (hd : d.meets tok = true) :
    Viable (u ++ [tok]) := by
  cases h with
  | item items hitems h =>
    rw [List.append_assoc]
    exact (h.begins hd).viable items

theorem Program.Stops.viable_read (h : Stops n u rest d) : Viable u := by
  obtain ⟨tok, htok⟩ := d.exists_meets
  exact (h.viable htok).of_append

/-! ## Where a reading stops depends on the first tokens ahead -/

theorem Statement.Stops.congr (h : Stops n u rest d) (hhead : rest.head? = rest'.head?) :
    Stops n u rest' d := by
  have hunmet : ∀ {d : Demand}, d.Unmet rest → d.Unmet rest' := (Demand.unmet_congr hhead).mp
  induction h with
  | inside count body hbody h ih => exact Stops.inside count body hbody (ih hhead hunmet)
  | count h => exact Stops.count (hunmet h)
  | close count body hbody hs h => exact Stops.close count body hbody (hunmet hs) (hunmet h)
  | register h => exact Stops.register (hunmet h)
  | label register h => exact Stops.label register (hunmet h)
  | incr h => exact Stops.incr (hunmet h)
  | decr h => exact Stops.decr (hunmet h)
  | args name args hv h => exact Stops.args name args (hunmet hv) (hunmet h)

theorem Definition.Stops.congr (h : Stops n u rest d) (hhead : rest.head? = rest'.head?)
    (hopen : d = .body → opensParam rest' = false) : Stops n u rest' d := by
  have hunmet : ∀ {d : Demand}, d.Unmet rest → d.Unmet rest' := (Demand.unmet_congr hhead).mp
  cases h with
  | name h => exact Stops.name (hunmet h)
  | paramType name params param h => exact Stops.paramType name params param (hunmet h)
  | params name params hp h => exact Stops.params name params (hopen rfl) (hunmet h)
  | inside name params body hbody h =>
    exact Stops.inside name params body hbody (h.congr hhead)
  | close name params body hbody hs h =>
    exact Stops.close name params body hbody (hunmet hs) (hunmet h)

theorem Program.Stops.congr (h : Stops n u rest d) (hhead : rest.head? = rest'.head?)
    (hopen : d = .body → opensParam rest' = false) : Stops n u rest' d := by
  cases h with
  | item items hitems h =>
    refine Stops.item items hitems ?_
    cases h with
    | definition h => exact Item.Stops.definition (h.congr hhead hopen)
    | statement h => exact Item.Stops.statement (h.congr hhead)
    | absent hn hdef h =>
      rw [List.head?_cons] at hhead
      obtain ⟨rest', rfl⟩ := List.head?_eq_some_iff.mp hhead.symm
      exact Item.Stops.absent hn hdef h

/-! ## A larger bound changes nothing -/

theorem Statement.Stops.succ (h : Stops n u rest d) : Stops (n + 1) u rest d := by
  induction h with
  | inside count body hbody h ih =>
    exact Stops.inside count body (fun s hs => Nat.lt_succ_of_lt (hbody s hs)) ih
  | count h => exact Stops.count h
  | close count body hbody hs h => exact Stops.close count body (Nat.lt_succ_of_lt hbody) hs h
  | register h => exact Stops.register h
  | label register h => exact Stops.label register h
  | incr h => exact Stops.incr h
  | decr h => exact Stops.decr h
  | args name args hv h => exact Stops.args name args hv h

theorem Definition.Stops.succ (h : Stops n u rest d) : Stops (n + 1) u rest d := by
  cases h with
  | name h => exact Stops.name h
  | paramType name params param h => exact Stops.paramType name params param h
  | params name params hp h => exact Stops.params name params hp h
  | inside name params body hbody h =>
    exact Stops.inside name params body (fun s hs => Nat.lt_succ_of_lt (hbody s hs)) h.succ
  | close name params body hbody hs h =>
    exact Stops.close name params body (Nat.lt_succ_of_lt hbody) hs h

theorem Program.Stops.succ (h : Stops n u rest d) : Stops (n + 1) u rest d := by
  cases h with
  | item items hitems h =>
    refine Stops.item items (fun i hi => Nat.lt_succ_of_lt (hitems i hi)) ?_
    cases h with
    | definition h => exact Item.Stops.definition h.succ
    | statement h => exact Item.Stops.statement h.succ
    | absent hn hdef h => exact Item.Stops.absent (Nat.succ_pos n) hdef h

theorem Program.Stops.mono (h : Stops n u rest d) (hN : n ≤ N) : Stops N u rest d := by
  induction hN with
  | refl => exact h
  | step hle ih => exact ih.succ

/-! ## What fails a demand does not go on -/

/-- A whole program is read and does not stop. -/
theorem Program.Stops.ne_flatMap_tokens (h : Stops n u rest d) (items : List Item) :
    u ++ rest ≠ items.flatMap Item.tokens := by
  intro heq
  -- The bound has to be large enough for both readings, of the program and up to the stop.
  obtain ⟨m, hm⟩ := exists_depth_bound items
  have hreads := Grammar.reads_items
    (fun i hi => Nat.lt_of_lt_of_le (hm i hi) (Nat.le_max_right n m))
  have hvalue := (hreads false 0).1
  have hfailure := Grammar.refuses_items (h.mono (Nat.le_max_left n m)) false 0
  rw [List.append_nil, ← heq, hfailure] at hvalue
  cases hvalue

theorem Program.Stops.not_viable (h : Stops n u (tok :: rest) d)
    (hword : d = .body → ∀ w, tok ≠ .text w) : ¬Viable (u ++ [tok]) := by
  rintro ⟨items, w, hitems⟩
  have hopen : d = .body → opensParam (tok :: w) = false := by
    intro hd
    cases tok with
    | keyword k => rfl
    | text word => exact absurd rfl (hword hd word)
    | number i => rfl
  have hstops : Stops n u (tok :: w) d := h.congr rfl hopen
  apply hstops.ne_flatMap_tokens items
  rw [← hitems, List.append_assoc]
  rfl

/-- Two tokens tell whether a parameter begins. -/
theorem opensParam_congr (tok tok' : Token) (rest rest' : List Token) :
    opensParam (tok :: tok' :: rest) = opensParam (tok :: tok' :: rest') := by
  cases tok with
  | keyword k => rfl
  | number i => rfl
  | text w =>
    cases tok' with
    | keyword k => cases k <;> rfl
    | text w' => rfl
    | number i => rfl

theorem Program.Stops.not_viable_two {tok' : Token} (h : Stops n u (tok :: tok' :: rest) d) :
    ¬Viable (u ++ [tok, tok']) := by
  rintro ⟨items, w, hitems⟩
  have hopen : d = .body → opensParam (tok :: tok' :: w) = false := by
    rintro rfl
    rw [opensParam_congr tok tok' w rest]
    exact h.exists_head.2
  have hstops : Stops n u (tok :: tok' :: w) d := h.congr rfl hopen
  apply hstops.ne_flatMap_tokens items
  rw [← hitems, List.append_assoc]
  rfl

/-! ## The count of a loop -/

/-- A statement may stand behind the tokens. -/
def Program.StatementPlace (t : List Token) : Prop := ∀ s : Statement, Viable (t ++ s.tokens)

theorem Statement.Stops.exists_loop (h : Stops n u rest d) (hd : d = .value) :
    ∃ v, u = v ++ [.keyword .loop] ∧ ∀ s : Statement, Begins (v ++ s.tokens) := by
  induction h with
  | count h => exact ⟨[], rfl, fun s => ⟨s, [], (List.append_nil _).symm⟩⟩
  | inside count body hbody h ih =>
    obtain ⟨v, rfl, hv⟩ := ih hd
    refine ⟨.keyword .loop :: count.token :: (tokensAll body ++ v), by simp, fun s => ?_⟩
    have hbegins := (hv s).inside count body
    rwa [← List.append_assoc] at hbegins
  | close count body hbody hs h => cases hd
  | register h => cases hd
  | label register h => cases hd
  | incr h => cases hd
  | decr h => cases hd
  | args name args hv h => cases hd

theorem Program.Stops.exists_loop (h : Stops n u rest .value) :
    ∃ v, u = v ++ [.keyword .loop] ∧ StatementPlace v := by
  cases h with
  | item items hitems h =>
    cases h with
    | statement h =>
      obtain ⟨v, rfl, hv⟩ := h.exists_loop rfl
      refine ⟨items.flatMap Item.tokens ++ v, (List.append_assoc _ _ _).symm, fun s => ?_⟩
      rw [List.append_assoc]
      exact (hv s).item.viable items
    | definition h =>
      cases h with
      | inside name params body hbody h =>
        obtain ⟨v, rfl, hv⟩ := h.exists_loop rfl
        refine ⟨items.flatMap Item.tokens ++
          (Definition.head name params ++ .keyword .body :: (tokensAll body ++ v)),
          by simp, fun s => ?_⟩
        have hbegins := (Definition.begins_inside name params body (hv s)).item.viable items
        simpa using hbegins

/-! ## Loops nested too deep -/

theorem Statement.Overruns.begins (h : Overruns n u) : Begins u := by
  induction h with
  | limit => exact ⟨.incr ⟨""⟩, _, rfl⟩
  | inside count body hbody h ih => exact ih.inside count body

theorem Item.Overruns.begins (h : Overruns n u rest) : Begins u := by
  cases h with
  | statement hdef h => exact h.begins.item
  | definition h =>
    cases h with
    | inside name params body hbody h =>
      exact (Definition.begins_inside name params body h.begins).item

theorem Program.Overruns.viable (h : Overruns n u rest) : Viable u := by
  cases h with
  | item items hitems hne h => exact h.begins.viable items

/-- Where at least one loop is open, it does not matter what comes next. -/
theorem Item.Overruns.of_pos (hn : 0 < n) (h : Overruns n u rest) (rest' : List Token) :
    Overruns n u rest' ∧ u ≠ [] := by
  cases h with
  | statement hdef h =>
    cases h with
    | limit => exact absurd hn (Nat.lt_irrefl 0)
    | inside count body hbody h =>
      have hover := Statement.Overruns.inside count body hbody h
      exact ⟨Overruns.statement (by simp) hover, List.cons_ne_nil _ _⟩
  | definition h =>
    cases h with
    | inside name params body hbody h =>
      have hover := Definition.Overruns.inside name params body hbody h
      exact ⟨Overruns.definition hover, List.cons_ne_nil _ _⟩

theorem Program.Overruns.of_pos (hn : 0 < n) (h : Overruns n u rest) (rest' : List Token) :
    Overruns n u rest' := by
  cases h with
  | item items hitems hne h =>
    obtain ⟨hover, hu⟩ := h.of_pos hn rest'
    exact Overruns.item items hitems (by simp [hu]) hover

end CounterLang
