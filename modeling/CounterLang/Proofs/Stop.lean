/-
Where a reading comes to an end.

Faced with any tokens, reading a statement comes to one of four ends.  A statement stands
there and is read.  No statement begins there at all.  One begins and then stops for good,
at a demand that is unmet (`Stops`).  Or its loops lie inside each other as deep as is
allowed, whatever comes next (`Overruns`).  `Statement.ending` says that there is no other
end, and the same is said of definitions, of items and of programs.

The relations speak of tokens alone.  `Stops n u rest d` says that `u` has been read, that
`rest` is ahead, and that `d` is unmet there.  Of the tokens ahead only the first matters,
except where the head of a definition may go on with a parameter, which takes two tokens to
be told.
-/
import CounterLang.Proofs.Demand

namespace CounterLang

open Statement (tokensAll)

/-- The tokens begin like a parameter of a definition. -/
def opensParam : List Token → Bool
  | .text _ :: .keyword .colon :: _ => true
  | _ => false

theorem exists_of_opensParam {t : List Token} (h : opensParam t = true) :
    ∃ param rest, t = .text param :: .keyword .colon :: rest := by
  unfold opensParam at h
  split at h
  · exact ⟨_, _, rfl⟩
  · cases h

namespace Statement

/-- The reading of a statement stops for good, where `n` bounds the depth of its loops. -/
inductive Stops : (n : Nat) → (u rest : List Token) → Demand → Prop
  | count {n rest} (h : Demand.value.Unmet rest) : Stops (n + 1) [.keyword .loop] rest .value
  | inside {n u rest d} (count : Value) (body : List Statement)
      (hbody : ∀ s ∈ body, s.depth < n) (h : Stops n u rest d) :
      Stops (n + 1) (.keyword .loop :: count.token :: (tokensAll body ++ u)) rest d
  | close {n rest} (count : Value) (body : List Statement) (hbody : depthAll body < n)
      (hs : Demand.statement.Unmet rest) (h : Demand.close.Unmet rest) :
      Stops (n + 1) (.keyword .loop :: count.token :: tokensAll body) rest .close
  | register {n rest} (h : Demand.word.Unmet rest) :
      Stops (n + 1) [.keyword .jez] rest .word
  | label {n rest} (register : String) (h : Demand.word.Unmet rest) :
      Stops (n + 1) [.keyword .jez, .text register] rest .word
  | incr {n rest} (h : Demand.word.Unmet rest) : Stops (n + 1) [.keyword .incr] rest .word
  | decr {n rest} (h : Demand.word.Unmet rest) : Stops (n + 1) [.keyword .decr] rest .word
  | args {n rest} (name : String) (args : List Value) (hv : Demand.value.Unmet rest)
      (h : Demand.semicolon.Unmet rest) :
      Stops (n + 1) (.text name :: args.map Value.token) rest .semicolon

/-- The tokens open `n` loops, each inside the one before it. -/
inductive Overruns : (n : Nat) → (u : List Token) → Prop
  | limit : Overruns 0 []
  | inside {n u} (count : Value) (body : List Statement) (hbody : ∀ s ∈ body, s.depth < n)
      (h : Overruns n u) :
      Overruns (n + 1) (.keyword .loop :: count.token :: (tokensAll body ++ u))

/-- The ends that the reading of a statement can come to. -/
inductive Ending (n : Nat) : (t : List Token) → Prop
  | reads (s : Statement) (rest : List Token) (hs : s.depth < n) : Ending n (s.tokens ++ rest)
  | absent {t : List Token} (hn : 0 < n) (h : Demand.statement.Unmet t) : Ending n t
  | stops {u rest : List Token} {d : Demand} (h : Stops n u rest d) : Ending n (u ++ rest)
  | overruns {u : List Token} (rest : List Token) (h : Overruns n u) : Ending n (u ++ rest)

/-- The ends that the reading of the statements of a block can come to. -/
inductive BlockEnding (n : Nat) : (t : List Token) → Prop
  | absent {rest : List Token} (body : List Statement) (hbody : depthAll body < n)
      (h : Demand.statement.Unmet rest) : BlockEnding n (tokensAll body ++ rest)
  | stops {u rest : List Token} {d : Demand} (body : List Statement)
      (hbody : ∀ s ∈ body, s.depth < n) (h : Stops n u rest d) :
      BlockEnding n (tokensAll body ++ u ++ rest)
  | overruns {u : List Token} (rest : List Token) (body : List Statement)
      (hbody : ∀ s ∈ body, s.depth < n) (h : Overruns n u) :
      BlockEnding n (tokensAll body ++ u ++ rest)

theorem BlockEnding.cons {n : Nat} {t : List Token} {s : Statement} (hs : s.depth < n)
    (h : BlockEnding n t) : BlockEnding n (s.tokens ++ t) := by
  cases h with
  | @absent rest body hbody h =>
    have hn : 0 < n := by omega
    have hcons : depthAll (s :: body) < n := by
      rw [depthAll_lt_iff, List.forall_mem_cons]
      exact ⟨hn, hs, (depthAll_lt_iff.mp hbody).2⟩
    have hend := BlockEnding.absent (s :: body) hcons h
    rwa [tokensAll, List.append_assoc] at hend
  | @stops u rest d body hbody h =>
    have hend := BlockEnding.stops (s :: body) (List.forall_mem_cons.mpr ⟨hs, hbody⟩) h
    rwa [tokensAll, List.append_assoc, List.append_assoc, ← List.append_assoc _ u] at hend
  | @overruns u rest body hbody h =>
    have hend := BlockEnding.overruns rest (s :: body) (List.forall_mem_cons.mpr ⟨hs, hbody⟩) h
    rwa [tokensAll, List.append_assoc, List.append_assoc, ← List.append_assoc _ u] at hend

theorem blockEnding {n : Nat} (hn : ∀ t, Ending n t) (t : List Token) : BlockEnding n t := by
  -- By the length of the tokens: a statement that is read leaves fewer of them.
  induction hlen : t.length using Nat.strongRecOn generalizing t with
  | ind m ih =>
    cases hn t with
    | reads s rest hs =>
      have hpos : 0 < s.tokens.length := List.length_pos_iff.mpr s.tokens_ne_nil
      have hlt : rest.length < m := by
        rw [List.length_append] at hlen
        omega
      exact (ih rest.length hlt rest rfl).cons hs
    | absent hpos h =>
      exact BlockEnding.absent [] hpos h
    | stops h => exact BlockEnding.stops [] (by simp) h
    | overruns rest h => exact BlockEnding.overruns rest [] (by simp) h

theorem exists_args (t : List Token) :
    ∃ (args : List Value) (rest : List Token),
      t = args.map Value.token ++ rest ∧ Demand.value.Unmet rest := by
  induction t with
  | nil => exact ⟨[], [], rfl, Demand.unmet_nil _⟩
  | cons tok t ih =>
    rcases Demand.value.met_or_unmet (tok :: t) with ⟨tok', t', heq, hmeets⟩ | h
    · obtain ⟨rfl, rfl⟩ := List.cons.inj heq
      obtain ⟨v, rfl⟩ := Demand.exists_of_meets_value hmeets
      obtain ⟨args, rest, hargs, hrest⟩ := ih
      exact ⟨v :: args, rest, by rw [hargs]; rfl, hrest⟩
    · exact ⟨[], tok :: t, rfl, h⟩

/-! ## One keyword after the other -/

theorem Ending.word {n : Nat} {rest : List Token} (u : List Token) (s : String → Statement)
    (hs : ∀ w, (s w).tokens = u ++ [.text w] ∧ (s w).depth < n)
    (hstop : Demand.word.Unmet rest → Stops n u rest .word) : Ending n (u ++ rest) := by
  rcases Demand.word.met_or_unmet rest with ⟨tok, rest, rfl, hmeets⟩ | h
  · obtain ⟨w, rfl⟩ := Demand.exists_of_meets_word hmeets
    have hend := Ending.reads (s w) rest (hs w).2
    rwa [(hs w).1, List.append_assoc] at hend
  · exact Ending.stops (hstop h)

theorem ending_jez {n : Nat} (rest : List Token) :
    Ending (n + 1) (.keyword .jez :: rest) := by
  rcases Demand.word.met_or_unmet rest with ⟨tok, rest, rfl, hmeets⟩ | h
  · obtain ⟨r, rfl⟩ := Demand.exists_of_meets_word hmeets
    exact Ending.word [.keyword .jez, .text r] (fun l => .jez ⟨r⟩ ⟨l⟩)
      (fun l => ⟨rfl, Nat.succ_pos n⟩) (Stops.label r)
  · exact Ending.stops (Stops.register h)

theorem ending_call {n : Nat} (name : String) (rest : List Token) :
    Ending (n + 1) (.text name :: rest) := by
  obtain ⟨args, rest, rfl, hv⟩ := exists_args rest
  rcases Demand.semicolon.met_or_unmet rest with ⟨tok, rest, rfl, hmeets⟩ | h
  · rw [Demand.eq_of_meets_keyword rfl hmeets]
    have hend := Ending.reads (n := n + 1) (.call name args) rest (Nat.succ_pos n)
    simpa [tokens] using hend
  · exact Ending.stops (Stops.args name args hv h)

theorem ending_loop {n : Nat} (hn : ∀ t, Ending n t) (rest : List Token) :
    Ending (n + 1) (.keyword .loop :: rest) := by
  rcases Demand.value.met_or_unmet rest with ⟨tok, rest, rfl, hmeets⟩ | h
  · obtain ⟨count, rfl⟩ := Demand.exists_of_meets_value hmeets
    cases blockEnding hn rest with
    | @absent rest body hbody hs =>
      rcases Demand.close.met_or_unmet rest with ⟨tok, rest, rfl, hmeets⟩ | h
      · rw [Demand.eq_of_meets_keyword rfl hmeets]
        have hdepth : (Statement.loop count body).depth < n + 1 := Nat.succ_lt_succ hbody
        have hend := Ending.reads (.loop count body) rest hdepth
        simpa [tokens] using hend
      · exact Ending.stops (Stops.close count body hbody hs h)
    | @stops u rest d body hbody h =>
      exact Ending.stops (Stops.inside count body hbody h)
    | overruns rest body hbody h =>
      exact Ending.overruns rest (Overruns.inside count body hbody h)
  · exact Ending.stops (Stops.count h)

/-- There is no other end. -/
theorem ending (n : Nat) (t : List Token) : Ending n t := by
  induction n generalizing t with
  | zero => exact Ending.overruns t Overruns.limit
  | succ n ih =>
    have hn : 0 < n + 1 := Nat.succ_pos n
    have habsent : ∀ {tok : Token} {rest : List Token},
        Demand.statement.meets tok = false → Ending (n + 1) (tok :: rest) :=
      fun h => Ending.absent hn (Demand.unmet_cons_iff.mpr h)
    cases t with
    | nil => exact Ending.absent hn (Demand.unmet_nil _)
    | cons tok rest =>
      cases tok with
      | text name => exact ending_call name rest
      | number i => exact habsent rfl
      | keyword k =>
        cases k with
        | loop => exact ending_loop ih rest
        | jez => exact ending_jez rest
        | incr =>
          exact Ending.word [.keyword .incr] (fun r => .incr ⟨r⟩) (fun r => ⟨rfl, hn⟩) Stops.incr
        | decr =>
          exact Ending.word [.keyword .decr] (fun r => .decr ⟨r⟩) (fun r => ⟨rfl, hn⟩) Stops.decr
        | define => exact habsent rfl
        | body => exact habsent rfl
        | close => exact habsent rfl
        | colon => exact habsent rfl
        | semicolon => exact habsent rfl

end Statement

namespace Definition

def head (name : String) (params : List Param) : List Token :=
  .keyword .define :: .text name :: params.flatMap Param.tokens

inductive Stops (n : Nat) : (u rest : List Token) → Demand → Prop
  | name {rest} (h : Demand.word.Unmet rest) : Stops n [.keyword .define] rest .word
  | paramType {rest} (name : String) (params : List Param) (param : String)
      (h : Demand.paramType.Unmet rest) :
      Stops n (head name params ++ [.text param, .keyword .colon]) rest .paramType
  | params {rest} (name : String) (params : List Param) (hp : opensParam rest = false)
      (h : Demand.body.Unmet rest) : Stops n (head name params) rest .body
  | inside {u rest d} (name : String) (params : List Param) (body : List Statement)
      (hbody : ∀ s ∈ body, s.depth < n) (h : Statement.Stops n u rest d) :
      Stops n (head name params ++ .keyword .body :: (tokensAll body ++ u)) rest d
  | close {rest} (name : String) (params : List Param) (body : List Statement)
      (hbody : Statement.depthAll body < n) (hs : Demand.statement.Unmet rest)
      (h : Demand.close.Unmet rest) :
      Stops n (head name params ++ .keyword .body :: tokensAll body) rest .close

inductive Overruns (n : Nat) : (u : List Token) → Prop
  | inside {u} (name : String) (params : List Param) (body : List Statement)
      (hbody : ∀ s ∈ body, s.depth < n) (h : Statement.Overruns n u) :
      Overruns n (head name params ++ .keyword .body :: (tokensAll body ++ u))

/-- The ends that the reading of a definition can come to, once its keyword is there. -/
inductive Ending (n : Nat) : (t : List Token) → Prop
  | reads (d : Definition) (rest : List Token) (hd : Statement.depthAll d.body < n) :
      Ending n (d.tokens ++ rest)
  | stops {u rest : List Token} {d : Demand} (h : Stops n u rest d) : Ending n (u ++ rest)
  | overruns {u : List Token} (rest : List Token) (h : Overruns n u) : Ending n (u ++ rest)

theorem exists_params (t : List Token) :
    ∃ (params : List Param) (rest : List Token), t = params.flatMap Param.tokens ++ rest ∧
      (opensParam rest = false ∨
        ∃ param rest', rest = .text param :: .keyword .colon :: rest' ∧
          Demand.paramType.Unmet rest') := by
  -- By the length of the tokens: a parameter takes three of them.
  induction hlen : t.length using Nat.strongRecOn generalizing t with
  | ind m ih =>
    cases hopen : opensParam t with
    | false => exact ⟨[], t, rfl, Or.inl hopen⟩
    | true =>
      obtain ⟨param, rest, rfl⟩ := exists_of_opensParam hopen
      rcases Demand.paramType.met_or_unmet rest with ⟨tok, rest, rfl, hmeets⟩ | h
      · obtain ⟨type, rfl⟩ := Demand.exists_of_meets_paramType hmeets
        have hlt : rest.length < m := by
          simp only [List.length_cons] at hlen
          omega
        obtain ⟨params, rest', hrest, hend⟩ := ih rest.length hlt rest rfl
        refine ⟨⟨param, type⟩ :: params, rest', ?_, hend⟩
        rw [hrest]
        rfl
      · exact ⟨[], _, rfl, Or.inr ⟨param, rest, rfl, h⟩⟩

theorem ending_body {n : Nat} (name : String) (params : List Param) (rest : List Token) :
    Ending n (head name params ++ .keyword .body :: rest) := by
  cases Statement.blockEnding (Statement.ending n) rest with
  | @absent rest body hbody hs =>
    rcases Demand.close.met_or_unmet rest with ⟨tok, rest, rfl, hmeets⟩ | h
    · rw [Demand.eq_of_meets_keyword rfl hmeets]
      have hend := Ending.reads ⟨name, params, body⟩ rest hbody
      simpa [head, tokens] using hend
    · have hend := Ending.stops (Stops.close name params body hbody hs h)
      rwa [List.append_assoc] at hend
  | @stops u rest d body hbody h =>
    have hend := Ending.stops (Stops.inside name params body hbody h)
    rwa [List.append_assoc] at hend
  | overruns rest body hbody h =>
    have hend := Ending.overruns rest (Overruns.inside name params body hbody h)
    rwa [List.append_assoc, List.cons_append] at hend

theorem ending (n : Nat) (rest : List Token) : Ending n (.keyword .define :: rest) := by
  rcases Demand.word.met_or_unmet rest with ⟨tok, rest, rfl, hmeets⟩ | h
  · obtain ⟨name, rfl⟩ := Demand.exists_of_meets_word hmeets
    obtain ⟨params, rest, rfl, hparams⟩ := exists_params rest
    show Ending n (head name params ++ rest)
    rcases hparams with hopen | ⟨param, rest, rfl, h⟩
    · rcases Demand.body.met_or_unmet rest with ⟨tok, rest, rfl, hmeets⟩ | h
      · rw [Demand.eq_of_meets_keyword rfl hmeets]
        exact ending_body name params rest
      · exact Ending.stops (Stops.params name params hopen h)
    · have hend := Ending.stops (Stops.paramType (n := n) name params param h)
      rwa [List.append_assoc] at hend
  · exact Ending.stops (Stops.name h)

end Definition

namespace Item

inductive Stops (n : Nat) : (u rest : List Token) → Demand → Prop
  | definition {u rest d} (h : Definition.Stops n u rest d) : Stops n u rest d
  | statement {u rest d} (h : Statement.Stops n u rest d) : Stops n u rest d
  /-- Neither a definition nor a statement begins here. -/
  | absent {tok rest} (hn : 0 < n) (hdef : tok ≠ .keyword .define)
      (h : Demand.statement.meets tok = false) : Stops n [] (tok :: rest) .statement

inductive Overruns (n : Nat) : (u rest : List Token) → Prop
  | definition {u rest} (h : Definition.Overruns n u) : Overruns n u rest
  | statement {u rest} (hdef : (u ++ rest).head? ≠ some (.keyword .define))
      (h : Statement.Overruns n u) : Overruns n u rest

/-- The ends that the reading of an item can come to, as long as there are tokens. -/
inductive Ending (n : Nat) : (t : List Token) → Prop
  | reads (i : Item) (rest : List Token) (hi : i.depth < n) : Ending n (i.tokens ++ rest)
  | stops {u rest : List Token} {d : Demand} (h : Stops n u rest d) : Ending n (u ++ rest)
  | overruns {u rest : List Token} (h : Overruns n u rest) : Ending n (u ++ rest)

theorem ending_definition {n : Nat} {t : List Token} (h : Definition.Ending n t) :
    Ending n t := by
  cases h with
  | reads d rest hd => exact Ending.reads (.definition d) rest hd
  | stops h => exact Ending.stops (Stops.definition h)
  | overruns rest h => exact Ending.overruns (Overruns.definition h)

theorem ending_statement {n : Nat} {t : List Token} (hne : t ≠ [])
    (hdef : t.head? ≠ some (.keyword .define)) : Ending n t := by
  cases Statement.ending n t with
  | reads s rest hs => exact Ending.reads (.statement s) rest hs
  | absent hn h =>
    obtain ⟨tok, rest, rfl⟩ := List.exists_cons_of_ne_nil hne
    have htok : tok ≠ .keyword .define := by simpa using hdef
    exact Ending.stops (Stops.absent hn htok (Demand.unmet_cons_iff.mp h))
  | stops h => exact Ending.stops (Stops.statement h)
  | overruns rest h => exact Ending.overruns (Overruns.statement hdef h)

theorem ending (n : Nat) {t : List Token} (hne : t ≠ []) : Ending n t := by
  by_cases hdef : t.head? = some (.keyword .define)
  · obtain ⟨rest, rfl⟩ := List.head?_eq_some_iff.mp hdef
    exact ending_definition (Definition.ending n rest)
  · exact ending_statement hne hdef

end Item

namespace Program

/-- The reading of a program stops for good in the item after `items`. -/
inductive Stops (n : Nat) : (u rest : List Token) → Demand → Prop
  | item {u rest d} (items : List Item) (hitems : ∀ i ∈ items, i.depth < n)
      (h : Item.Stops n u rest d) : Stops n (items.flatMap Item.tokens ++ u) rest d

inductive Overruns (n : Nat) : (u rest : List Token) → Prop
  | item {u rest} (items : List Item) (hitems : ∀ i ∈ items, i.depth < n)
      (hne : u ++ rest ≠ []) (h : Item.Overruns n u rest) :
      Overruns n (items.flatMap Item.tokens ++ u) rest

/-- The ends that the reading of a program can come to. -/
inductive Ending (n : Nat) : (t : List Token) → Prop
  | reads (items : List Item) (hitems : ∀ i ∈ items, i.depth < n) :
      Ending n (items.flatMap Item.tokens)
  | stops {u rest : List Token} {d : Demand} (h : Stops n u rest d) : Ending n (u ++ rest)
  | overruns {u rest : List Token} (h : Overruns n u rest) : Ending n (u ++ rest)

/-- A program stops where its first item does. -/
theorem Stops.first {n : Nat} {u rest : List Token} {d : Demand}
    (h : Item.Stops n u rest d) : Stops n u rest d := Stops.item [] nofun h

/-! Items that are read change nothing about the end, but for what has been read before it. -/

section Behind

variable {n : Nat} {t u rest : List Token} {d : Demand} {items : List Item}

theorem Stops.behind (hitems : ∀ i ∈ items, i.depth < n) (h : Stops n u rest d) :
    Stops n (items.flatMap Item.tokens ++ u) rest d := by
  cases h with
  | item items' hitems' h =>
    rw [← List.append_assoc, ← List.flatMap_append]
    exact Stops.item (items ++ items') (List.forall_mem_append.mpr ⟨hitems, hitems'⟩) h

theorem Overruns.behind (hitems : ∀ i ∈ items, i.depth < n) (h : Overruns n u rest) :
    Overruns n (items.flatMap Item.tokens ++ u) rest := by
  cases h with
  | item items' hitems' hne h =>
    rw [← List.append_assoc, ← List.flatMap_append]
    exact Overruns.item (items ++ items') (List.forall_mem_append.mpr ⟨hitems, hitems'⟩) hne h

theorem Ending.behind (hitems : ∀ i ∈ items, i.depth < n) (h : Ending n t) :
    Ending n (items.flatMap Item.tokens ++ t) := by
  cases h with
  | reads items' hitems' =>
    rw [← List.flatMap_append]
    exact Ending.reads (items ++ items') (List.forall_mem_append.mpr ⟨hitems, hitems'⟩)
  | stops h =>
    rw [← List.append_assoc]
    exact Ending.stops (h.behind hitems)
  | overruns h =>
    rw [← List.append_assoc]
    exact Ending.overruns (h.behind hitems)

theorem Ending.cons {i : Item} (hi : i.depth < n) (h : Ending n t) :
    Ending n (i.tokens ++ t) := by
  have hend := h.behind (List.forall_mem_singleton.mpr hi)
  rwa [List.flatMap_singleton] at hend

end Behind

/-- Whatever the tokens are, a program comes to one of the three ends. -/
theorem ending (n : Nat) (t : List Token) : Ending n t := by
  -- By the length of the tokens: an item that is read leaves fewer of them.
  induction hlen : t.length using Nat.strongRecOn generalizing t with
  | ind m ih =>
    by_cases hne : t = []
    · rw [hne]
      exact Ending.reads [] (by simp)
    · cases Item.ending n hne with
      | reads i rest hi =>
        have hpos : 0 < i.tokens.length := List.length_pos_iff.mpr i.tokens_ne_nil
        have hlt : rest.length < m := by
          rw [List.length_append] at hlen
          omega
        exact (ih rest.length hlt rest rfl).cons hi
      | stops h => exact Ending.stops (Stops.first h)
      | overruns h => exact Ending.overruns (Overruns.item [] (by simp) hne h)

end Program

/-! ## Which demands stop a reading -/

variable {n : Nat} {u rest : List Token} {d : Demand}

theorem Statement.Stops.unmet (h : Stops n u rest d) : d.Unmet rest := by
  induction h with
  | inside count body hbody h ih => exact ih
  | count h => exact h
  | close count body hbody hs h => exact h
  | register h => exact h
  | label register h => exact h
  | incr h => exact h
  | decr h => exact h
  | args name args hv h => exact h

theorem Definition.Stops.unmet (h : Stops n u rest d) : d.Unmet rest := by
  cases h with
  | inside name params body hbody h => exact h.unmet
  | name h => exact h
  | paramType name params param h => exact h
  | params name params hp h => exact h
  | close name params body hbody hs h => exact h

theorem Program.Stops.unmet (h : Stops n u rest d) : d.Unmet rest := by
  cases h with
  | item items hitems h =>
    cases h with
    | definition h => exact h.unmet
    | statement h => exact h.unmet
    | absent hn hdef h => exact Demand.unmet_cons_iff.mpr h

theorem Statement.Stops.demand_mem (h : Stops n u rest d) :
    d ∈ [Demand.word, .value, .close, .semicolon] := by
  induction h with
  | inside count body hbody h ih => exact ih
  | count h => decide
  | close count body hbody hs h => decide
  | register h => decide
  | label register h => decide
  | incr h => decide
  | decr h => decide
  | args name args hv h => decide

theorem Statement.Stops.ne_statement (h : Stops n u rest d) : d ≠ .statement := by
  rintro rfl
  exact absurd h.demand_mem (by decide)

theorem Statement.Stops.ne_body (h : Stops n u rest d) : d ≠ .body := by
  rintro rfl
  exact absurd h.demand_mem (by decide)

theorem Definition.Stops.ne_statement (h : Stops n u rest d) : d ≠ .statement := by
  cases h with
  | inside name params body hbody h => exact h.ne_statement
  | name h => decide
  | paramType name params param h => decide
  | params name params hp h => decide
  | close name params body hbody hs h => decide

/-- A statement is only missed at the start of an item. -/
theorem Program.Stops.exists_absent (h : Stops n u rest .statement) :
    ∃ (items : List Item) (tok : Token) (rest' : List Token), u = items.flatMap Item.tokens ∧
      rest = tok :: rest' ∧ tok ≠ .keyword .define ∧ Demand.statement.meets tok = false := by
  cases h with
  | item items hitems h =>
    cases h with
    | definition h => exact absurd rfl h.ne_statement
    | statement h => exact absurd rfl h.ne_statement
    | @absent tok rest hn hdef h => exact ⟨items, tok, rest, List.append_nil _, rfl, hdef, h⟩

/-- The body of a definition is only missed behind its head, where no parameter begins. -/
theorem Program.Stops.exists_head (h : Stops n u rest .body) :
    (∃ (items : List Item) (name : String) (params : List Param),
      u = items.flatMap Item.tokens ++ Definition.head name params) ∧ opensParam rest = false := by
  cases h with
  | item items hitems h =>
    cases h with
    | statement h => exact absurd rfl h.ne_body
    | definition h =>
      cases h with
      | params name params hp h => exact ⟨⟨items, name, params, rfl⟩, hp⟩
      | inside name params body hbody h => exact absurd rfl h.ne_body

end CounterLang
