/-
The course of a reading: the rules of the grammar, run on tokens.

For each rule three things are said: it reads the token form of what it stands for, it fails
where `Stops` says so and as the demand there says, and it goes too deep where `Overruns`
says so.  Since tokens come to one of these ends and to no other, this is all that the rules
do, and everything else about what a reading comes to follows from it.

A statement is read by the one alternative that its first token picks.  The alternatives
before that one fail at once, and the picked one is committed once it has passed its first
token, so it is never backtracked over.
-/
import CounterLang.Proofs.Repetition
import CounterLang.Proofs.Stop

namespace CounterLang
namespace Grammar

open CounterLang.Parser Statement

variable {n : Nat} {u rest t : List Token} {d : Demand}

theorem commit_demand_failure (hd : d ≠ .statement) (t : List Token) (i : Int) :
    (d.failure t i).commit = d.failure t i := by
  simp [Failure.commit, Demand.failure, hd]

/-! ## Rules that a keyword opens

Once the keyword is there, such a rule is committed to. -/

section Opened

variable {k : Keyword} {name definition : String} {g : Token → Parser α} {a : α}

theorem passes_opened (h : ∀ tok ∈ t.head?, tok ≠ .keyword k) :
    Passes (Rule.parse ⟨name, definition, (keyword k).parse >>= g⟩) t := by
  have hpass : Passes (keyword k).parse t :=
    (Demand.refuses_keyword h).passes fun _ => rfl
  exact hpass.bind.of_agreeOn (parse_agreeOn _ t)

theorem settles_opened :
    Settles (Rule.parse ⟨name, definition, (keyword k).parse >>= fun tok => committed (g tok)⟩)
      (.keyword k :: rest) := by
  have hsettles : Settles ((keyword k).parse >>= fun tok => committed (g tok))
      ([.keyword k] ++ rest) :=
    (Demand.reads_keyword k).bind_settles (settles_committed _ _)
  exact hsettles.of_agreeOn (parse_agreeOn _ _)

theorem reads_opened (h : Reads (g (.keyword k)) u rest a) :
    Reads (Rule.parse ⟨name, definition, (keyword k).parse >>= fun tok => committed (g tok)⟩)
      (.keyword k :: u) rest a := by
  have hreads : Reads ((keyword k).parse >>= fun tok => committed (g tok))
      ([.keyword k] ++ u) rest a := (Demand.reads_keyword k).bind h.committed
  exact hreads.of_agreeOn (parse_agreeOn _ _)

theorem refuses_opened {e : Int → Failure} (h : Refuses (g (.keyword k)) u rest e)
    (he : ∀ i, (e i).commit = d.failure rest i) :
    Refuses (Rule.parse ⟨name, definition, (keyword k).parse >>= fun tok => committed (g tok)⟩)
      (.keyword k :: u) rest (d.failure rest) := by
  have hrefuses : Refuses ((keyword k).parse >>= fun tok => committed (g tok))
      ([.keyword k] ++ u) rest (d.failure rest) :=
    (Demand.reads_keyword k).bind_refuses (h.committed_eq he)
  exact hrefuses.of_agreeOn (parse_agreeOn _ _)

theorem aborts_opened (h : Aborts (g (.keyword k)) u rest) :
    Aborts (Rule.parse ⟨name, definition, (keyword k).parse >>= fun tok => committed (g tok)⟩)
      (.keyword k :: u) rest := by
  have haborts : Aborts ((keyword k).parse >>= fun tok => committed (g tok))
      ([.keyword k] ++ u) rest := (Demand.reads_keyword k).bind_aborts h.committed
  exact haborts.of_agreeOn (parse_agreeOn _ _)

theorem reads_opened_word {g : String → α} (w : String) :
    Reads (Rule.parse ⟨name, definition,
      (keyword k).parse >>= fun _ => committed (do return g (← Rule.word.parse))⟩)
      [.keyword k, .text w] rest (g w) := by
  apply reads_opened
  exact Reads.bind (v := []) (Demand.reads_word w) reads_pure

/-- The rule asks for a word behind its keyword. -/
theorem refuses_opened_word {g : Token → String → Parser α} (h : Demand.word.Unmet rest) :
    Refuses (Rule.parse ⟨name, definition,
      (keyword k).parse >>= fun tok => committed (Rule.word.parse >>= g tok)⟩)
      [.keyword k] rest (Demand.word.failure rest) := by
  apply refuses_opened (Demand.askedBy_word rest h).bind
  exact Demand.commit_failure (by decide) rest

end Opened

/-! ## The alternatives of a statement -/

theorem reads_incr (r : String) :
    Reads incr.parse [.keyword .incr, .text r] rest (.incr ⟨r⟩) := reads_opened_word r

theorem reads_decr (r : String) :
    Reads decr.parse [.keyword .decr, .text r] rest (.decr ⟨r⟩) := reads_opened_word r

theorem reads_jez (r l : String) :
    Reads jez.parse [.keyword .jez, .text r, .text l] rest (.jez ⟨r⟩ ⟨l⟩) := by
  apply reads_opened
  apply Reads.bind (v := [.text l]) (Demand.reads_word r)
  exact Reads.bind (v := []) (Demand.reads_word l) reads_pure

theorem refuses_jez_label (r : String) (h : Demand.word.Unmet rest) :
    Refuses jez.parse [.keyword .jez, .text r] rest (Demand.word.failure rest) := by
  apply refuses_opened (u := [.text r])
  · apply Reads.bind_refuses (v := []) (Demand.reads_word r)
    exact (Demand.askedBy_word rest h).bind
  · exact Demand.commit_failure (by decide) rest

/-! ### Calls -/

theorem reads_values (args : List Value) (h : Demand.value.Unmet rest) :
    Reads values.parse (args.map Value.token) rest args := by
  have hargs : ReadsEach value.parse (fun v => [v.token]) args :=
    fun v _ => ⟨by simp, fun rest => Demand.reads_value v⟩
  rw [List.map_eq_flatMap]
  apply Reads.of_agreeOn _ (parse_agreeOn _ _)
  exact hargs.reads_many (Demand.askedBy_value.passes h)

theorem passes_call (h : Demand.word.Unmet t) : Passes call.parse t := by
  apply Passes.of_agreeOn _ (parse_agreeOn _ _)
  exact (Demand.askedBy_word.passes h).bind

theorem settles_call (name : String) : Settles call.parse (.text name :: rest) := by
  apply Settles.of_agreeOn _ (parse_agreeOn _ _)
  exact (Demand.reads_word name).bind_settles (settles_committed _ _)

theorem reads_call (name : String) (args : List Value) :
    Reads call.parse (.text name :: (args.map Value.token ++ [.keyword .semicolon])) rest
      (.call name args) := by
  apply Reads.of_agreeOn _ (parse_agreeOn _ _)
  apply Reads.bind (Demand.reads_word name)
  apply Reads.committed
  apply Reads.bind
  · exact reads_values args (Demand.unmet_cons_iff.mpr rfl)
  · exact Reads.bind (v := []) (Demand.reads_keyword .semicolon) reads_pure

theorem refuses_call (name : String) (args : List Value) (hv : Demand.value.Unmet rest)
    (h : Demand.semicolon.Unmet rest) :
    Refuses call.parse (.text name :: args.map Value.token) rest
      (Demand.semicolon.failure rest) := by
  apply Refuses.of_agreeOn _ (parse_agreeOn _ _)
  have hargs : Reads values.parse (args.map Value.token) ([] ++ rest) args := reads_values args hv
  rw [← List.append_nil (args.map Value.token)]
  apply Reads.bind_refuses (Demand.reads_word name)
  refine Refuses.committed_eq ?_ (Demand.commit_failure (by decide) rest)
  apply hargs.bind_refuses
  exact (Demand.askedBy_keyword rfl rest h).bind

/-! ## The choice between the alternatives -/

/-- The alternative that a first token picks. -/
def picked (body : Rule (List Statement)) : Token → Option (Rule Statement)
  | .keyword .loop => some (loopOf body)
  | .keyword .jez => some jez
  | .keyword .incr => some incr
  | .keyword .decr => some decr
  | .text _ => some call
  | _ => none

theorem statement_agreeOn {tok : Token} {r : Rule Statement} (h : picked (block n) tok = some r) :
    AgreeOn (tok :: rest) (statement (n + 1)).parse r.parse := by
  -- The alternatives before the picked one ask for another keyword.
  have hpass : ∀ {k : Keyword} {name definition : String} {g : Token → Parser Statement},
      tok ≠ .keyword k →
      Passes (Rule.parse ⟨name, definition, (keyword k).parse >>= g⟩) (tok :: rest) := by
    intro k name definition g hne
    apply passes_opened
    intro tok' htok'
    rw [List.head?_cons, Option.mem_some_iff] at htok'
    rwa [← htok']
  apply (parse_agreeOn _ _).trans
  cases tok with
  | number i => cases h
  | text name =>
    obtain rfl := Option.some.inj h
    apply firstOf_agreeOn [(loop n).parse, jez.parse, incr.parse, decr.parse] _ (settles_call name)
    simp only [List.forall_mem_cons]
    exact ⟨hpass nofun, hpass nofun, hpass nofun, hpass nofun, by simp⟩
  | keyword k =>
    cases k with
    | loop =>
      obtain rfl := Option.some.inj h
      exact firstOf_agreeOn [] (by simp) settles_opened
    | jez =>
      obtain rfl := Option.some.inj h
      apply firstOf_agreeOn [(loop n).parse] _ settles_opened
      simp only [List.forall_mem_cons]
      exact ⟨hpass nofun, by simp⟩
    | incr =>
      obtain rfl := Option.some.inj h
      apply firstOf_agreeOn [(loop n).parse, jez.parse] _ settles_opened
      simp only [List.forall_mem_cons]
      exact ⟨hpass nofun, hpass nofun, by simp⟩
    | decr =>
      obtain rfl := Option.some.inj h
      apply firstOf_agreeOn [(loop n).parse, jez.parse, incr.parse] _ settles_opened
      simp only [List.forall_mem_cons]
      exact ⟨hpass nofun, hpass nofun, hpass nofun, by simp⟩
    | define => cases h
    | body => cases h
    | close => cases h
    | colon => cases h
    | semicolon => cases h

/-- Where no statement begins, every alternative fails at once. -/
theorem refuses_statement_absent (h : Demand.statement.Unmet t) :
    Refuses (statement (n + 1)).parse [] t (Demand.statement.failure t) := by
  have hne : ∀ {k : Keyword}, Demand.statement.meets (.keyword k) = true →
      ∀ tok ∈ t.head?, tok ≠ .keyword k := by
    rintro k hk tok htok rfl
    rw [h _ htok] at hk
    cases hk
  have hword : Demand.word.Unmet t := by
    intro tok htok
    have hmeets := h tok htok
    cases tok with
    | keyword k => rfl
    | text w => cases hmeets
    | number i => rfl
  apply Refuses.of_agreeOn _ (parse_agreeOn _ _)
  apply refuses_firstOf
  intro q hq
  simp only [alternatives, List.map_cons, List.map_nil, List.mem_cons, List.not_mem_nil,
    or_false] at hq
  rcases hq with rfl | rfl | rfl | rfl | rfl
  · exact passes_opened (hne rfl)
  · exact passes_opened (hne rfl)
  · exact passes_opened (hne rfl)
  · exact passes_opened (hne rfl)
  · exact passes_call hword

theorem passes_statement (hn : 0 < n) (h : Demand.statement.Unmet t) :
    Passes (statement n).parse t := by
  obtain ⟨m, rfl⟩ := Nat.exists_eq_add_of_lt hn
  rw [Nat.zero_add]
  exact (refuses_statement_absent h).passes fun _ => rfl

/-! ## Blocks -/

section Block

variable {body : List Statement} {f : Int → Failure}

/-- A block tries the rule for statements by another name. -/
theorem called_agreeOn (r : Rule Statement) (t : List Token) :
    AgreeOn t (r.called statementName statementDefinition).parse r.parse := parse_agreeOn _ t

theorem readsEach_called
    (h : ∀ s ∈ body, ∀ rest, Reads (statement n).parse s.tokens rest s) :
    ReadsEach ((statement n).called statementName statementDefinition).parse tokens body :=
  fun s hs => ⟨s.tokens_ne_nil, fun rest => (h s hs rest).of_agreeOn (called_agreeOn _ _)⟩

theorem reads_block (h : ∀ s ∈ body, ∀ rest, Reads (statement n).parse s.tokens rest s)
    (hp : Passes (statement n).parse rest) : Reads (block n).parse (tokensAll body) rest body := by
  apply Reads.of_agreeOn _ (parse_agreeOn _ _)
  rw [tokensAll_eq_flatMap]
  exact (readsEach_called h).reads_many (hp.of_agreeOn (called_agreeOn _ _))

theorem refuses_block (h : ∀ s ∈ body, ∀ rest, Reads (statement n).parse s.tokens rest s)
    (hp : Refuses (statement n).parse u rest f) (hf : ∀ i, (f i).committed = true) :
    Refuses (block n).parse (tokensAll body ++ u) rest f := by
  apply Refuses.of_agreeOn _ (parse_agreeOn _ _)
  rw [tokensAll_eq_flatMap]
  exact (readsEach_called h).refuses_many ((hp.of_agreeOn (called_agreeOn _ _)).many hf)

theorem aborts_block (h : ∀ s ∈ body, ∀ rest, Reads (statement n).parse s.tokens rest s)
    (hp : Aborts (statement n).parse u rest) :
    Aborts (block n).parse (tokensAll body ++ u) rest := by
  apply Aborts.of_agreeOn _ (parse_agreeOn _ _)
  rw [tokensAll_eq_flatMap]
  exact (readsEach_called h).aborts_many (hp.of_agreeOn (called_agreeOn _ _)).many

/-- A block and the keyword that ends it, as they stand in loops and in definitions. -/
def enclosed (limit : Nat) (f : List Statement → α) : Parser α := do
  let body ← (block limit).parse
  let _ ← (keyword .close).parse
  return f body

variable {g : List Statement → α}

theorem reads_enclosed (hbody : depthAll body < n)
    (h : ∀ s ∈ body, ∀ rest, Reads (statement n).parse s.tokens rest s) :
    Reads (enclosed n g) (tokensAll body ++ [.keyword .close]) rest (g body) := by
  have hn : 0 < n := by omega
  have hclose : Demand.statement.Unmet ([.keyword .close] ++ rest) := Demand.unmet_cons_iff.mpr rfl
  apply Reads.bind (reads_block h (passes_statement hn hclose))
  exact Reads.bind (v := []) (Demand.reads_keyword .close) reads_pure

theorem refuses_enclosed_inside
    (h : ∀ s ∈ body, ∀ rest, Reads (statement n).parse s.tokens rest s)
    (hp : Refuses (statement n).parse u rest f) (hf : ∀ i, (f i).committed = true) :
    Refuses (enclosed n g) (tokensAll body ++ u) rest f := (refuses_block h hp hf).bind

theorem refuses_enclosed_close (hbody : depthAll body < n)
    (h : ∀ s ∈ body, ∀ rest, Reads (statement n).parse s.tokens rest s)
    (hs : Demand.statement.Unmet rest) (hclose : Demand.close.Unmet rest) :
    Refuses (enclosed n g) (tokensAll body) rest
      fun i => { cause := Demand.close.cause rest, position := some i } := by
  have hn : 0 < n := by omega
  have hblock : Reads (block n).parse (tokensAll body) ([] ++ rest) body :=
    reads_block h (passes_statement hn hs)
  rw [← List.append_nil (tokensAll body)]
  apply hblock.bind_refuses
  exact (Demand.askedBy_keyword rfl rest hclose).bind

theorem aborts_enclosed
    (h : ∀ s ∈ body, ∀ rest, Reads (statement n).parse s.tokens rest s)
    (hp : Aborts (statement n).parse u rest) :
    Aborts (enclosed n g) (tokensAll body ++ u) rest :=
  (aborts_block h hp).bind

end Block

/-! ## Statements -/

theorem reads_loop {body : List Statement} (count : Value) (hbody : depthAll body < n)
    (h : ∀ s ∈ body, ∀ rest, Reads (statement n).parse s.tokens rest s) :
    Reads (loop n).parse (.keyword .loop :: count.token :: (tokensAll body ++ [.keyword .close]))
      rest (.loop count body) := by
  apply reads_opened
  apply Reads.bind (Demand.reads_value count)
  exact reads_enclosed hbody h

theorem reads_statement {s : Statement} (hs : s.depth < n) (rest : List Token) :
    Reads (statement n).parse s.tokens rest s := by
  -- By the bound: the statements of a loop are read with a bound that is one less.
  induction n generalizing s rest with
  | zero => cases hs
  | succ n ih =>
    cases s with
    | loop count body =>
      have hbody : depthAll body < n := Nat.lt_of_succ_lt_succ hs
      have hall := (depthAll_lt_iff.mp hbody).2
      exact (reads_loop count hbody fun s hmem => ih (hall s hmem)).of_agreeOn
        (statement_agreeOn rfl)
    | jez r l => exact (reads_jez r.name l.name).of_agreeOn (statement_agreeOn rfl)
    | incr r => exact (reads_incr r.name).of_agreeOn (statement_agreeOn rfl)
    | decr r => exact (reads_decr r.name).of_agreeOn (statement_agreeOn rfl)
    | call name args => exact (reads_call name args).of_agreeOn (statement_agreeOn rfl)

theorem reads_each {body : List Statement} (hbody : ∀ s ∈ body, s.depth < n) :
    ∀ s ∈ body, ∀ rest, Reads (statement n).parse s.tokens rest s :=
  fun s hs => reads_statement (hbody s hs)

theorem failure_committed (hd : d ≠ .statement) (t : List Token) (i : Int) :
    (d.failure t i).committed = true := by
  simp [Demand.failure, hd]

theorem refuses_loop_count (n : Nat) (h : Demand.value.Unmet rest) :
    Refuses (loop n).parse [.keyword .loop] rest (Demand.value.failure rest) := by
  apply refuses_opened (Demand.askedBy_value rest h).bind
  exact Demand.commit_failure (by decide) rest

theorem refuses_loop_inside {body : List Statement} (count : Value)
    (hbody : ∀ s ∈ body, s.depth < n) (hd : d ≠ .statement)
    (h : Refuses (statement n).parse u rest (d.failure rest)) :
    Refuses (loop n).parse (.keyword .loop :: count.token :: (tokensAll body ++ u)) rest
      (d.failure rest) := by
  refine refuses_opened ?_ (commit_demand_failure hd rest)
  apply (Demand.reads_value count).bind_refuses
  exact refuses_enclosed_inside (reads_each hbody) h (failure_committed hd rest)

theorem refuses_loop_close {body : List Statement} (count : Value) (hbody : depthAll body < n)
    (hs : Demand.statement.Unmet rest) (h : Demand.close.Unmet rest) :
    Refuses (loop n).parse (.keyword .loop :: count.token :: tokensAll body) rest
      (Demand.close.failure rest) := by
  refine refuses_opened ?_ (Demand.commit_failure (by decide) rest)
  apply (Demand.reads_value count).bind_refuses
  exact refuses_enclosed_close hbody (reads_each (depthAll_lt_iff.mp hbody).2) hs h

theorem aborts_loop {body : List Statement} (count : Value) (hbody : ∀ s ∈ body, s.depth < n)
    (h : Aborts (statement n).parse u rest) :
    Aborts (loop n).parse (.keyword .loop :: count.token :: (tokensAll body ++ u)) rest := by
  apply aborts_opened
  apply (Demand.reads_value count).bind_aborts
  exact aborts_enclosed (reads_each hbody) h

theorem refuses_statement (h : Stops n u rest d) :
    Refuses (statement n).parse u rest (d.failure rest) := by
  induction h with
  | count h => exact (refuses_loop_count _ h).of_agreeOn (statement_agreeOn rfl)
  | inside count body hbody h ih =>
    exact (refuses_loop_inside count hbody h.ne_statement ih).of_agreeOn
      (statement_agreeOn rfl)
  | close count body hbody hs h =>
    exact (refuses_loop_close count hbody hs h).of_agreeOn (statement_agreeOn rfl)
  | register h => exact Refuses.of_agreeOn (refuses_opened_word h) (statement_agreeOn rfl)
  | label register h => exact (refuses_jez_label register h).of_agreeOn (statement_agreeOn rfl)
  | incr h => exact Refuses.of_agreeOn (refuses_opened_word h) (statement_agreeOn rfl)
  | decr h => exact Refuses.of_agreeOn (refuses_opened_word h) (statement_agreeOn rfl)
  | args name args hv h => exact (refuses_call name args hv h).of_agreeOn (statement_agreeOn rfl)

theorem aborts_abort : Aborts (Parser.abort .endless : Parser α) [] rest := by
  intro tracing pos
  refine ⟨rfl, ?_⟩
  show (⟨pos, rest⟩ : Point) = ⟨pos + 0, rest⟩
  rw [Int.add_zero]

theorem aborts_statement (h : Overruns n u) : Aborts (statement n).parse u rest := by
  induction h with
  | limit => exact aborts_abort.of_agreeOn (parse_agreeOn _ _)
  | inside count body hbody h ih =>
    exact (aborts_loop count hbody ih).of_agreeOn (statement_agreeOn rfl)

/-! ## Parameters -/

theorem reads_param (p : Param) : Reads param.parse p.tokens rest p := by
  apply Reads.of_agreeOn _ (parse_agreeOn _ _)
  apply Reads.bind (v := [.keyword .colon, .text p.type.keyword]) (Demand.reads_word p.name)
  apply Reads.bind (v := [.text p.type.keyword]) (Demand.reads_keyword .colon)
  apply Reads.committed
  exact Reads.bind (v := []) (Demand.reads_paramType p.type) reads_pure

theorem passes_param (h : opensParam t = false) : Passes param.parse t := by
  apply Passes.of_agreeOn _ (parse_agreeOn _ _)
  rcases Demand.word.met_or_unmet t with ⟨tok, rest, rfl, hmeets⟩ | hword
  · obtain ⟨w, rfl⟩ := Demand.exists_of_meets_word hmeets
    have hcolon : ∀ tok ∈ rest.head?, tok ≠ .keyword .colon := by
      rintro tok htok rfl
      obtain ⟨rest, rfl⟩ := List.head?_eq_some_iff.mp htok
      cases h
    have hpass : Passes (keyword .colon).parse rest :=
      (Demand.refuses_keyword hcolon).passes fun _ => rfl
    exact (Demand.reads_word w).bind_passes hpass.bind
  · exact (Demand.askedBy_word.passes hword).bind

theorem refuses_param (w : String) (h : Demand.paramType.Unmet rest) :
    Refuses param.parse [.text w, .keyword .colon] rest (Demand.paramType.failure rest) := by
  apply Refuses.of_agreeOn _ (parse_agreeOn _ _)
  apply Reads.bind_refuses (v := [.keyword .colon]) (Demand.reads_word w)
  apply Reads.bind_refuses (v := []) (Demand.reads_keyword .colon)
  refine Refuses.committed_eq ?_ (Demand.commit_failure (by decide) rest)
  exact (Demand.askedBy_paramType rest h).bind

theorem readsEach_param (params : List Param) : ReadsEach param.parse Param.tokens params :=
  fun p _ => ⟨by simp [Param.tokens], fun _ => reads_param p⟩

theorem reads_params (ps : List Param) (h : opensParam rest = false) :
    Reads params.parse (ps.flatMap Param.tokens) rest ps := by
  apply Reads.of_agreeOn _ (parse_agreeOn _ _)
  exact (readsEach_param ps).reads_many (passes_param h)

theorem refuses_params (ps : List Param) (w : String) (h : Demand.paramType.Unmet rest) :
    Refuses params.parse (ps.flatMap Param.tokens ++ [.text w, .keyword .colon]) rest
      (Demand.paramType.failure rest) := by
  apply Refuses.of_agreeOn _ (parse_agreeOn _ _)
  exact (readsEach_param ps).refuses_many ((refuses_param w h).many fun _ => rfl)

/-! ## Definitions -/

/-- What comes after the keyword of a definition. -/
def definitionTail (limit : Nat) : Parser Definition := do
  let name ← Rule.word.parse
  let params ← params.parse
  let _ ← (keyword .body).parse
  enclosed limit fun body => ⟨name, params, body⟩

theorem reads_definition {d : Definition} (h : depthAll d.body < n) :
    Reads (definition n).parse d.tokens rest d := by
  have htail : Reads (definitionTail n) (.text d.name :: (d.params.flatMap Param.tokens ++
      .keyword .body :: (tokensAll d.body ++ [.keyword .close]))) rest d := by
    apply Reads.bind (Demand.reads_word d.name)
    apply Reads.bind (reads_params d.params rfl)
    apply Reads.bind (Demand.reads_keyword .body)
    exact reads_enclosed h (reads_each (depthAll_lt_iff.mp h).2)
  apply Reads.of_agreeOn _ (parse_agreeOn _ _)
  apply Reads.bind (Demand.reads_keyword .define)
  rw [← List.append_nil (_ :: _)]
  apply Reads.bind
  · exact htail.committed
  · exact Reads.bind (u := []) reads_note reads_pure

theorem refuses_definitionTail {e : Int → Failure} (h : Refuses (definitionTail n) u rest e)
    (he : ∀ i, (e i).commit = d.failure rest i) :
    Refuses (definition n).parse (.keyword .define :: u) rest (d.failure rest) := by
  have hrefuses : Refuses (definition n).body ([.keyword .define] ++ u) rest (d.failure rest) :=
    (Demand.reads_keyword .define).bind_refuses (h.committed_eq he).bind
  exact hrefuses.of_agreeOn (parse_agreeOn _ _)

/-- The body of a definition decides, once its head has been read. -/
theorem refuses_body {e : Int → Failure} (name : String) (ps : List Param)
    (h : Refuses (enclosed n (Definition.mk name ps)) u rest e)
    (he : ∀ i, (e i).commit = d.failure rest i) :
    Refuses (definition n).parse (Definition.head name ps ++ .keyword .body :: u) rest
      (d.failure rest) := by
  apply refuses_definitionTail _ he
  apply Reads.bind_refuses (Demand.reads_word name)
  apply (reads_params ps rfl).bind_refuses
  exact (Demand.reads_keyword .body).bind_refuses h

theorem refuses_definition (h : Definition.Stops n u rest d) :
    Refuses (definition n).parse u rest (d.failure rest) := by
  cases h with
  | name h =>
    apply refuses_definitionTail (Demand.askedBy_word rest h).bind
    exact Demand.commit_failure (by decide) rest
  | paramType name ps w h =>
    refine refuses_definitionTail ?_ (commit_demand_failure (by decide) rest)
    apply Reads.bind_refuses (Demand.reads_word name)
    exact (refuses_params ps w h).bind
  | params name ps hp h =>
    have hparams : Reads params.parse (ps.flatMap Param.tokens) ([] ++ rest) ps :=
      reads_params ps hp
    rw [← List.append_nil (Definition.head name ps)]
    refine refuses_definitionTail ?_ (Demand.commit_failure (by decide) rest)
    apply Reads.bind_refuses (Demand.reads_word name)
    apply hparams.bind_refuses
    exact (Demand.askedBy_keyword rfl rest h).bind
  | inside name ps body hbody h =>
    have hd := h.ne_statement
    exact refuses_body name ps
      (refuses_enclosed_inside (reads_each hbody) (refuses_statement h) (failure_committed hd rest))
      (commit_demand_failure hd rest)
  | close name ps body hbody hs h =>
    exact refuses_body name ps
      (refuses_enclosed_close hbody (reads_each (depthAll_lt_iff.mp hbody).2) hs h)
      (Demand.commit_failure (by decide) rest)

theorem aborts_definition (h : Definition.Overruns n u) :
    Aborts (definition n).parse u rest := by
  cases h with
  | @inside u name ps body hbody h =>
    have htail : Aborts (definitionTail n) (.text name :: (ps.flatMap Param.tokens ++
        .keyword .body :: (tokensAll body ++ u))) rest := by
      apply Reads.bind_aborts (Demand.reads_word name)
      apply (reads_params ps rfl).bind_aborts
      apply (Demand.reads_keyword .body).bind_aborts
      exact aborts_enclosed (reads_each hbody) (aborts_statement h)
    have hdef : Aborts (definition n).body ([.keyword .define] ++ _) rest :=
      (Demand.reads_keyword .define).bind_aborts htail.committed.bind
    exact hdef.of_agreeOn (parse_agreeOn _ _)

/-! ## Items and programs -/

theorem item_agreeOn_definition :
    AgreeOn (.keyword .define :: t) (item n) (Item.definition <$> (definition n).parse) := by
  intro tracing pos
  simp [item, ifNext]

theorem item_agreeOn_statement (h : t.head? ≠ some (.keyword .define)) :
    AgreeOn t (item n) (Item.statement <$> (statement n).parse) := by
  intro tracing pos
  simp [item, ifNext, h]

theorem statement_tokens_head (s : Statement) (rest : List Token) :
    (s.tokens ++ rest).head? ≠ some (.keyword .define) := by
  cases s <;> simp [Statement.tokens]

theorem reads_item {i : Item} (hi : i.depth < n) (rest : List Token) :
    Reads (item n) i.tokens rest i := by
  cases i with
  | definition d => exact (reads_definition hi).map.of_agreeOn item_agreeOn_definition
  | statement s =>
    exact (reads_statement hi rest).map.of_agreeOn
      (item_agreeOn_statement (statement_tokens_head s rest))

theorem readsEach_item {items : List Item} (h : ∀ i ∈ items, i.depth < n) :
    ReadsEach (item n) Item.tokens items :=
  fun i hi => ⟨i.tokens_ne_nil, reads_item (h i hi)⟩

theorem statement_stops_head (h : Stops n u rest d) :
    (u ++ rest).head? ≠ some (.keyword .define) := by
  cases h <;> simp

theorem definition_stops_head (h : Definition.Stops n u rest d) :
    (u ++ rest).head? = some (.keyword .define) := by
  cases h <;> rfl

theorem refuses_item (h : Item.Stops n u rest d) : Refuses (item n) u rest (d.failure rest) := by
  cases h with
  | definition h =>
    obtain ⟨t, ht⟩ := List.head?_eq_some_iff.mp (definition_stops_head h)
    apply (refuses_definition h).map.of_agreeOn
    rw [ht]
    exact item_agreeOn_definition
  | statement h =>
    exact (refuses_statement h).map.of_agreeOn (item_agreeOn_statement (statement_stops_head h))
  | absent hn hdef h =>
    obtain ⟨m, rfl⟩ := Nat.exists_eq_succ_of_ne_zero (Nat.pos_iff_ne_zero.mp hn)
    apply (refuses_statement_absent (Demand.unmet_cons_iff.mpr h)).map.of_agreeOn
    exact item_agreeOn_statement (by simpa using hdef)

theorem aborts_item (h : Item.Overruns n u rest) : Aborts (item n) u rest := by
  cases h with
  | definition h =>
    have haborts : Aborts (definition n).parse u rest := aborts_definition h
    cases h
    exact haborts.map.of_agreeOn item_agreeOn_definition
  | statement hdef h => exact (aborts_statement h).map.of_agreeOn (item_agreeOn_statement hdef)

theorem reads_items {is : List Item} (h : ∀ i ∈ is, i.depth < n) :
    Reads (items n) (is.flatMap Item.tokens) [] is := (readsEach_item h).reads_untilEnd

theorem stops_append_ne_nil (h : Item.Stops n u rest d) : u ++ rest ≠ [] := by
  cases h with
  | definition h =>
    obtain ⟨t, ht⟩ := List.head?_eq_some_iff.mp (definition_stops_head h)
    rw [ht]
    exact List.cons_ne_nil _ _
  | statement h => cases h <;> simp
  | absent hn hdef h => simp

theorem refuses_items (h : Program.Stops n u rest d) :
    Refuses (items n) u rest (d.failure rest) := by
  cases h with
  | item is his h =>
    exact (readsEach_item his).refuses_untilEnd
      ((refuses_item h).untilEnd (stops_append_ne_nil h))

theorem aborts_items (h : Program.Overruns n u rest) : Aborts (items n) u rest := by
  cases h with
  | item is his hne h =>
    exact (readsEach_item his).aborts_untilEnd ((aborts_item h).untilEnd hne)

end Grammar
end CounterLang
