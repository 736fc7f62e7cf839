/-
How many loops are open, and when a reading gives up.

A reading gives up where as many loops are open, each inside the one before it, as its limit
says.  Here the loops are not counted by the grammar but on the tokens: a loop opens with its
keyword, and an end closes the innermost loop, or a definition where no loop is open.  The
count is the same at every place that a reading comes to, so it decides what happens
(`Program.readWithin_openLoops`).  Where the count stays below the limit, the limit plays no
part.  Where it reaches the limit, the reading gives up there, and nothing that comes behind
makes a difference, whether it would be a program or not.

What is complete leaves the count as it was (`loopsAfter_tokens`).  So only what has been
begun and not ended counts, and that is what `Overruns` and `Stops` tell.
-/
import CounterLang.Proofs.Block

namespace CounterLang

open Statement (tokensAll)

variable {n k : Nat} {u v rest t : List Token} {d : Demand}

/-! ## Counting -/

/-- How many loops are open behind the token, where `k` are open before it. -/
def Token.loopsBehind (k : Nat) : Token → Nat
  | keyword .loop => k + 1
  | keyword .close => k - 1
  | _ => k

/-- How many loops are open behind the tokens, where `k` are open before them. -/
def loopsAfter (k : Nat) : List Token → Nat
  | [] => k
  | tok :: rest => loopsAfter (tok.loopsBehind k) rest

/-- How many loops are open at the end of the tokens. -/
def openLoops (t : List Token) : Nat := loopsAfter 0 t

theorem loopsAfter_append (k : Nat) (u v : List Token) :
    loopsAfter k (u ++ v) = loopsAfter (loopsAfter k u) v := by
  induction u generalizing k with
  | nil => rfl
  | cons tok u ih =>
    rw [List.cons_append, loopsAfter, loopsAfter]
    exact ih _

/-- No more loops are open than have been opened. -/
theorem loopsAfter_le_count (k : Nat) (t : List Token) :
    loopsAfter k t ≤ k + t.count (.keyword .loop) := by
  induction t generalizing k with
  | nil => exact Nat.le_refl k
  | cons tok t ih =>
    have hle := ih (tok.loopsBehind k)
    rw [loopsAfter, List.count_cons]
    have htok : tok.loopsBehind k ≤ k + if (tok == .keyword .loop) = true then 1 else 0 := by
      cases tok with
      | text w => exact Nat.le_add_right k _
      | number i => exact Nat.le_add_right k _
      | keyword c =>
        cases c with
        | loop => exact Nat.le_refl (k + 1)
        | close => exact Nat.le_trans (Nat.sub_le k 1) (Nat.le_add_right k _)
        | _ => exact Nat.le_add_right k _
    omega

theorem loopsAfter_cons_loop (k : Nat) (t : List Token) :
    loopsAfter k (.keyword .loop :: t) = loopsAfter (k + 1) t := rfl

theorem loopsAfter_cons_text (k : Nat) (w : String) (t : List Token) :
    loopsAfter k (.text w :: t) = loopsAfter k t := rfl

theorem loopsAfter_cons_value (k : Nat) (v : Value) (t : List Token) :
    loopsAfter k (v.token :: t) = loopsAfter k t := by
  cases v with
  | text w => rfl
  | number i => rfl

theorem loopsAfter_values (k : Nat) (args : List Value) :
    loopsAfter k (args.map Value.token) = k := by
  induction args with
  | nil => rfl
  | cons v args ih => rw [List.map_cons, loopsAfter_cons_value, ih]

theorem loopsAfter_params (k : Nat) (params : List Param) :
    loopsAfter k (params.flatMap Param.tokens) = k := by
  induction params with
  | nil => rfl
  | cons p params ih =>
    rw [List.flatMap_cons, loopsAfter_append]
    exact ih

theorem loopsAfter_head (k : Nat) (name : String) (params : List Param) :
    loopsAfter k (Definition.head name params) = k := loopsAfter_params k params

/-! ## What is complete -/

namespace Statement

mutual

theorem loopsAfter_tokens (k : Nat) (s : Statement) : loopsAfter k s.tokens = k := by
  cases s with
  | loop count body =>
    rw [tokens, loopsAfter_cons_loop, loopsAfter_cons_value, loopsAfter_append,
      loopsAfter_tokensAll (k + 1) body]
    rfl
  | jez register label => rfl
  | incr register => rfl
  | decr register => rfl
  | call name args =>
    rw [tokens, loopsAfter_cons_text, loopsAfter_append, loopsAfter_values]
    rfl

theorem loopsAfter_tokensAll (k : Nat) (body : List Statement) :
    loopsAfter k (tokensAll body) = k := by
  cases body with
  | nil => rfl
  | cons s body =>
    rw [tokensAll, loopsAfter_append, loopsAfter_tokens k s, loopsAfter_tokensAll k body]

end

end Statement

/-- The body of a definition is where the head of it leaves off. -/
theorem loopsAfter_head_body (k : Nat) (name : String) (params : List Param) (t : List Token) :
    loopsAfter k (Definition.head name params ++ .keyword .body :: t) = loopsAfter k t := by
  rw [loopsAfter_append, loopsAfter_head]
  rfl

theorem Item.openLoops_tokens (i : Item) : openLoops i.tokens = 0 := by
  cases i with
  | statement s => exact s.loopsAfter_tokens 0
  | definition d =>
    have htokens : d.tokens = Definition.head d.name d.params ++
        .keyword .body :: (tokensAll d.body ++ [.keyword .close]) := by
      simp [Definition.tokens, Definition.head]
    rw [openLoops, Item.tokens, htokens, loopsAfter_head_body, loopsAfter_append,
      Statement.loopsAfter_tokensAll]
    rfl

namespace Program

theorem openLoops_tokens (items : List Item) : openLoops (items.flatMap Item.tokens) = 0 := by
  induction items with
  | nil => rfl
  | cons i items ih =>
    rw [List.flatMap_cons, openLoops, loopsAfter_append]
    show loopsAfter (openLoops i.tokens) _ = 0
    rw [i.openLoops_tokens]
    exact ih

theorem openLoops_behind (items : List Item) (t : List Token) :
    openLoops (items.flatMap Item.tokens ++ t) = openLoops t := by
  rw [openLoops, loopsAfter_append]
  show loopsAfter (openLoops _) t = openLoops t
  rw [openLoops_tokens]
  rfl

end Program

/-! ## Where a reading gives up

As many loops are open there as the limit says. -/

theorem Statement.Overruns.loopsAfter_eq (h : Overruns n u) (k : Nat) :
    loopsAfter k u = k + n := by
  induction h generalizing k with
  | limit => rfl
  | inside count body hbody h ih =>
    rw [loopsAfter_cons_loop, loopsAfter_cons_value, loopsAfter_append,
      Statement.loopsAfter_tokensAll, ih]
    omega

theorem Item.Overruns.openLoops_eq (h : Overruns n u rest) : openLoops u = n := by
  cases h with
  | statement hdef h =>
    rw [openLoops, h.loopsAfter_eq, Nat.zero_add]
  | definition h =>
    cases h with
    | inside name params body hbody h =>
      rw [openLoops, loopsAfter_head_body, loopsAfter_append, Statement.loopsAfter_tokensAll,
        h.loopsAfter_eq, Nat.zero_add]

theorem Program.Overruns.openLoops_eq (h : Overruns n u rest) : openLoops u = n := by
  cases h with
  | item items hitems hne h => rw [openLoops_behind, h.openLoops_eq]

/-! ## Where a reading stops

Fewer loops are open there than the limit says, unless it is the count of the last one that
is missing. -/

theorem Statement.Stops.loopsAfter_lt (h : Stops n u rest d) (hd : d ≠ .value) (k : Nat) :
    loopsAfter k u < k + n := by
  induction h generalizing k with
  | count h => exact absurd rfl hd
  | inside count body hbody h ih =>
    have hlt := ih hd (k + 1)
    rw [loopsAfter_cons_loop, loopsAfter_cons_value, loopsAfter_append,
      Statement.loopsAfter_tokensAll]
    omega
  | close count body hbody hs h =>
    rw [loopsAfter_cons_loop, loopsAfter_cons_value, Statement.loopsAfter_tokensAll]
    omega
  | args name args hv h =>
    rw [loopsAfter_cons_text, loopsAfter_values]
    omega
  | register h => exact Nat.lt_add_of_pos_right (Nat.succ_pos _)
  | label register h => exact Nat.lt_add_of_pos_right (Nat.succ_pos _)
  | incr h => exact Nat.lt_add_of_pos_right (Nat.succ_pos _)
  | decr h => exact Nat.lt_add_of_pos_right (Nat.succ_pos _)

theorem Definition.Stops.openLoops_lt (h : Stops n u rest d) (hd : d ≠ .value) (hn : 0 < n) :
    openLoops u < n := by
  cases h with
  | name h => exact hn
  | paramType name params param h =>
    rw [openLoops, loopsAfter_append, loopsAfter_head]
    exact hn
  | params name params hp h =>
    rw [openLoops, loopsAfter_head]
    exact hn
  | inside name params body hbody h =>
    have hlt := h.loopsAfter_lt hd 0
    rw [openLoops, loopsAfter_head_body, loopsAfter_append, Statement.loopsAfter_tokensAll]
    omega
  | close name params body hbody hs h =>
    rw [openLoops, loopsAfter_head_body, Statement.loopsAfter_tokensAll]
    exact hn

theorem Program.Stops.openLoops_lt (h : Stops n u rest d) (hd : d ≠ .value) (hn : 0 < n) :
    openLoops u < n := by
  cases h with
  | item items hitems h =>
    rw [openLoops_behind]
    cases h with
    | definition h => exact h.openLoops_lt hd hn
    | statement h =>
      have hlt := h.loopsAfter_lt hd 0
      rw [openLoops]
      omega
    | absent hn' hdef h => exact hn

namespace Program

/-- A reading stops at the end of viable tokens, or else at a word in the head of a
definition that is the last of them. -/
theorem Stops.rest_of_viable (h : Stops n u rest d) (hv : Viable (u ++ rest)) :
    rest = [] ∨ d = .body ∧ ∃ w, rest = [.text w] := by
  cases rest with
  | nil => exact Or.inl rfl
  | cons tok rest =>
    right
    by_cases hword : d = .body ∧ ∃ w, tok = .text w
    · obtain ⟨hd, w, rfl⟩ := hword
      cases rest with
      | nil => exact ⟨hd, w, rfl⟩
      | cons tok' rest =>
        have htwo : Viable (u ++ [.text w, tok'] ++ rest) := by simpa using hv
        exact absurd htwo.of_append h.not_viable_two
    · have hone : Viable (u ++ [tok] ++ rest) := by simpa using hv
      exact absurd hone.of_append (h.not_viable fun hd w htok => hword ⟨hd, w, htok⟩)

theorem Stops.openLoops_lt_of_viable (h : Stops n u rest d) (hv : Viable (u ++ rest))
    (hlast : (u ++ rest).getLast? ≠ some (.keyword .loop)) (hn : 0 < n) :
    openLoops (u ++ rest) < n := by
  rcases h.rest_of_viable hv with rfl | ⟨rfl, w, rfl⟩
  · rw [List.append_nil] at hlast ⊢
    apply h.openLoops_lt _ hn
    rintro rfl
    obtain ⟨v, rfl, -⟩ := h.exists_loop
    exact hlast (by simp)
  · have hlt := h.openLoops_lt (by decide) hn
    rw [openLoops, loopsAfter_append]
    exact hlt

/-- Viable tokens with `n` open loops, each with its count, are given up in. -/
theorem overruns_of_viable (hv : Viable u) (hn : 0 < n) (hopen : n ≤ openLoops u)
    (hlast : u.getLast? ≠ some (.keyword .loop)) :
    ∃ v rest, u = v ++ rest ∧ Overruns n v rest := by
  cases ending n u with
  | reads items hitems =>
    rw [openLoops_tokens] at hopen
    omega
  | stops h =>
    have hlt := h.openLoops_lt_of_viable hv hlast hn
    omega
  | @overruns v rest h => exact ⟨v, rest, rfl, h⟩

/-! ## What a reading comes to -/

theorem not_tooDeep_of_demand (d : Demand) (t : List Token) (i : Int) (filename : Option String) :
    ¬TooDeep ((d.failure t i).located filename) := by
  intro h
  cases d with
  | word => cases t <;> cases h
  | value => exact absurd (Cause.failedRule.inj h).1 (by decide)
  | body => cases t <;> cases h
  | close => cases t <;> cases h
  | semicolon => cases t <;> cases h
  | statement => exact absurd (Cause.failedRule.inj h).2.2 (by decide)
  | paramType =>
    cases t with
    | nil => cases h
    | cons tok t =>
      cases tok with
      | text w => exact absurd (Cause.failedRule.inj h).1 (by decide)
      | keyword k => cases h
      | number j => cases h

theorem conclusive_of_openLoops (options : Options)
    (h : ∀ u, u <+: t → Viable u → openLoops u < n) : Conclusive (readWithin n options t) := by
  cases ending n t with
  | reads items hitems =>
    rw [readWithin_of_items options hitems]
    trivial
  | stops hstops =>
    rw [readWithin_of_stops options hstops]
    exact not_tooDeep_of_demand _ _ _ _
  | overruns hover =>
    have hlt := h _ (List.prefix_append _ _) hover.viable
    rw [hover.openLoops_eq] at hlt
    omega

theorem readWithin_of_openLoops (options : Options) (hv : Viable u) (hn : 0 < n)
    (hopen : n ≤ openLoops u) (hlast : u.getLast? ≠ some (.keyword .loop)) (t : List Token) :
    ∃ position : Nat, position ≤ u.length ∧ readWithin n options (u ++ t) =
      .error ((Reading.tooDeep position).located (some options.filename)) := by
  obtain ⟨v, rest, rfl, hover⟩ := overruns_of_viable hv hn hopen hlast
  refine ⟨v.length, by simp, ?_⟩
  rw [List.append_assoc]
  exact readWithin_of_overruns options (hover.of_pos hn _)

/-- Whatever limit is chosen from the range, loops up to the one end of it are no matter, and
loops beyond the other end are reported.  The last of the open loops has its count if its
keyword is not the last token. -/
theorem readWithin_openLoops (options : Options) (t : List Token) :
    (read options t).result = readWithin Grammar.nestingLimit options t ∧
    80 < Grammar.nestingLimit ∧ Grammar.nestingLimit ≤ 250 ∧
    ∀ limit, 80 < limit → limit ≤ 250 →
      ((∀ u, u <+: t → Viable u → openLoops u ≤ 80) →
        Conclusive (readWithin limit options t)) ∧
      ∀ u, u <+: t → Viable u → 250 ≤ openLoops u → u.getLast? ≠ some (.keyword .loop) →
        ∃ position : Nat, position ≤ t.length ∧ readWithin limit options t =
          .error { cause := .failedRule "statement" "repeat | jez | incr | decr | call"
                     (some "nesting too deep"),
                   position := some position, filename := some options.filename,
                   committed := false } := by
  refine ⟨read_result options t, by decide, by decide, fun limit hlow hhigh => ⟨?_, ?_⟩⟩
  · intro h
    apply conclusive_of_openLoops options
    intro u hu hv
    have hle := h u hu hv
    omega
  · intro u hu hv hopen hlast
    obtain ⟨v, rfl⟩ := hu
    obtain ⟨position, hle, hresult⟩ :=
      readWithin_of_openLoops (n := limit) options hv (by omega) (by omega) hlast v
    exact ⟨position, by rw [List.length_append]; omega, hresult⟩

/-- So many loops, each inside the one before it, and none of them ended. -/
def nest (n : Nat) : List Token := (List.replicate n [.keyword .loop, .text "n"]).flatten

theorem overruns_nest (n : Nat) : Statement.Overruns n (nest n) := by
  induction n with
  | zero => exact Statement.Overruns.limit
  | succ n ih => exact Statement.Overruns.inside (.text "n") [] nofun ih

theorem overruns_nest_body (hn : 0 < n) :
    Overruns n ([.keyword .incr, .text "r", .keyword .define, .text "F", .keyword .body] ++ nest n)
      [] := by
  have hitem : Item.Overruns n (Definition.head "F" [] ++ .keyword .body :: nest n) [] :=
    Item.Overruns.definition (Definition.Overruns.inside "F" [] [] nofun (overruns_nest n))
  exact Overruns.item [.statement (.incr ⟨"r"⟩)] (List.forall_mem_singleton.mpr hn)
    (List.cons_ne_nil _ _) hitem

/-- Eighty loops that are ended, and 250 in the body of a definition that are not. -/
theorem readWithin_openLoops_nest :
    let t : List Token := nest 80 ++ List.replicate 80 (.keyword .close)
    let u : List Token :=
      [.keyword .incr, .text "r", .keyword .define, .text "F", .keyword .body] ++ nest 250
    let v : List Token := u ++ [.keyword .semicolon]
    Conclusive (readWithin 81 {} t) ∧ Viable u ∧ 250 ≤ openLoops u ∧
      ∃ position : Nat, position ≤ v.length ∧ readWithin 250 {} v =
        .error { cause := .failedRule "statement" "repeat | jez | incr | decr | call"
                   (some "nesting too deep"),
                 position := some position, filename := some "<input>",
                 committed := false } := by
  intro t u v
  have hcount : t.count (.keyword .loop) = 80 := by decide +kernel
  have hopen : ∀ s, s <+: t → Viable s → openLoops s ≤ 80 := by
    intro s hs _
    have hle := loopsAfter_le_count 0 s
    have hprefix := hs.sublist.count_le (.keyword .loop)
    rw [openLoops]
    omega
  have hover : Overruns 250 u [] := overruns_nest_body (by decide)
  have hle : 250 ≤ openLoops u := Nat.le_of_eq hover.openLoops_eq.symm
  have hlast : u.getLast? ≠ some (.keyword .loop) := by decide +kernel
  have hprefix : u <+: v := List.prefix_append u _
  exact ⟨((readWithin_openLoops {} t).2.2.2 81 (by decide) (by decide)).1 hopen,
    hover.viable, hle,
    ((readWithin_openLoops {} v).2.2.2 250 (by decide) (by decide)).2 u hprefix hover.viable hle
      hlast⟩

end Program
end CounterLang
