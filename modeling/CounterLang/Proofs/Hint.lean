/-
A failure asks for what can come next.

What a failure says it expected is a promise: the tokens before its position, together with
any token of the kind it names, are the beginning of some program, and the token that was
found is of another kind.  One promise is not for every token of the kind.  Where the type
of a parameter comes next the failure asks for a word, and of all words only the three that
name a type will do.

The promise is kept because a reading stops at a demand that is unmet, and behind a stop the
tokens that meet the demand are exactly those that go on (`Stops.viable`, `Stops.not_viable`).
What remains is to see that each cause describes its demand.
-/
import CounterLang.Proofs.Viability

namespace CounterLang

open CounterLang.Parser (lack)

variable {n : Nat} {u rest t : List Token} {d : Demand} {tok : Token}

namespace Program

/-! ## Where the type of a parameter comes next -/

/-- The tokens end with the colon of a parameter. -/
def TypePlace (t : List Token) : Prop :=
  ∃ (items : List Item) (name : String) (params : List Param) (param : String),
    t = items.flatMap Item.tokens ++
      (Definition.head name params ++ [.text param, .keyword .colon])

theorem Stops.typePlace (h : Stops n u rest .paramType) : TypePlace u := by
  cases h with
  | item items hitems h =>
    cases h with
    | statement h => exact absurd h.demand_mem (by decide)
    | definition h =>
      cases h with
      | paramType name params param h => exact ⟨items, name, params, param, rfl⟩
      | inside name params body hbody h => exact absurd h.demand_mem (by decide)

theorem TypePlace.not_viable (h : TypePlace u) (htok : Demand.paramType.meets tok = false) :
    ¬Viable (u ++ [tok]) := by
  obtain ⟨items, name, params, param, rfl⟩ := h
  obtain ⟨n, hn⟩ := exists_depth_bound items
  have hstops : Definition.Stops n _ [tok] .paramType :=
    Definition.Stops.paramType name params param (Demand.unmet_cons_iff.mpr htok)
  exact (Stops.item items hn (Item.Stops.definition hstops)).not_viable nofun

/-- No other demand stands there, since some token that meets it does not name a type. -/
theorem Stops.not_typePlace (h : Stops n u rest d) (tok : Token) (htok : d.meets tok = true)
    (htype : Demand.paramType.meets tok = false) : ¬TypePlace u :=
  fun hplace => hplace.not_viable htype (h.viable htok)

/-! ## What can come next -/

/-- Behind the tokens `t` the kind can come next: any token of it, unless the type of a
parameter comes next, where the words that will do are exactly the names of types. -/
def Invites (t : List Token) : Kind → Prop
  | .keyword k => Viable (t ++ [.keyword k])
  | .text => ∀ w, Viable (t ++ [.text w]) ↔ (TypePlace t → w ∈ ["REG", "LABEL", "NUM"])
  | .number => ∀ i, Viable (t ++ [.number i])

theorem Stops.invites_keyword {k : Keyword} (h : Stops n u rest d) (hd : d.keyword? = some k) :
    Invites u (.keyword k) := h.viable (Demand.keyword_meets hd)

theorem Stops.invites_word (h : Stops n u rest .word) : Invites u .text := by
  intro w
  have hplace : ¬TypePlace u := h.not_typePlace (.text "") rfl (by decide)
  exact ⟨fun _ hp => absurd hp hplace, fun _ => h.viable rfl⟩

theorem Stops.invites_paramType (h : Stops n u rest .paramType) : Invites u .text := by
  intro w
  constructor
  · intro hviable hplace
    by_cases hmeets : Demand.paramType.meets (.text w) = true
    · exact Demand.meets_paramType_iff.mp hmeets
    · exact absurd hviable (hplace.not_viable (Bool.eq_false_iff.mpr hmeets))
  · intro hw
    exact h.viable (Demand.meets_paramType_iff.mpr (hw h.typePlace))

/-! ## What the cause of a failure tells -/

/-- The causes of a failure at the index `e` of the tokens `t` that keep their promise. -/
inductive Advises (t : List Token) (e : Nat) : Cause → Prop
  | unexpectedToken {kind : Kind} {tok : Token} (htok : t[e]? = some tok) (hkind : tok.kind ≠ kind)
      (h : Invites (t.take e) kind) :
      Advises t e (.unexpectedToken kind.wanted (.token tok))
  | unexpectedEnd {kind : Kind} (h : Invites (t.take e) kind) :
      Advises t e (.unexpectedEnd kind.wanted)
  | value (htok : ∀ tok ∈ t[e]?, tok.kind ∉ [Kind.number, .text])
      (h : ∀ tok : Token, tok.kind ∈ [Kind.number, .text] → Viable (t.take e ++ [tok])) :
      Advises t e (.failedRule "value" "<number> | <text>" (some "no alternative matched"))
  | statement {tok : Token} (htok : t[e]? = some tok)
      (hkind : tok.kind ∉
        [Kind.keyword .loop, .keyword .jez, .keyword .incr, .keyword .decr, .text])
      (h : ∀ tok : Token,
        tok.kind ∈ [Kind.keyword .loop, .keyword .jez, .keyword .incr, .keyword .decr, .text] →
          Viable (t.take e ++ [tok])) :
      Advises t e (.failedRule "statement" "repeat | jez | incr | decr | call"
        (some "no alternative matched"))
  | paramType {word : String} (htok : t[e]? = some (.text word))
      (hword : word ∉ ["REG", "LABEL", "NUM"])
      (h : ∀ w ∈ ["REG", "LABEL", "NUM"], Viable (t.take e ++ [.text w])) :
      Advises t e (.failedRule "function-arg" "<text> ':' <text in \x7bNUM, REG, LABEL\x7d>"
        (some ("unknown argument type '" ++ word ++ "'")))

theorem advises_lack {kind : Kind} (h : Invites u kind)
    (hkind : ∀ tok ∈ rest.head?, tok.kind ≠ kind) :
    Advises (u ++ rest) u.length (lack kind rest) := by
  have hinvites : Invites ((u ++ rest).take u.length) kind := by rwa [List.take_left' rfl]
  cases rest with
  | nil => exact Advises.unexpectedEnd hinvites
  | cons tok rest => exact Advises.unexpectedToken (by simp) (hkind tok rfl) hinvites

theorem advises_keyword {k : Keyword} (h : Stops n u rest d) (hd : d.keyword? = some k) :
    Advises (u ++ rest) u.length (lack (.keyword k) rest) := by
  apply advises_lack (h.invites_keyword hd)
  intro tok htok hkind
  exact h.unmet.not_meets htok ((Demand.meets_keyword_iff hd).mpr hkind)

/-- A word is asked for under two demands. -/
theorem advises_word (h : Invites u .text) (hword : Demand.word.Unmet rest) :
    Advises (u ++ rest) u.length (lack .text rest) := by
  apply advises_lack h
  intro tok htok hkind
  exact hword.not_meets htok (Demand.meets_word_iff.mpr hkind)

theorem advises_value (h : Stops n u rest .value) :
    Advises (u ++ rest) u.length (Demand.value.cause rest) := by
  apply Advises.value
  · intro tok htok hkind
    rw [List.getElem?_append_right (Nat.le_refl _), Nat.sub_self, ← List.head?_eq_getElem?] at htok
    exact h.unmet.not_meets htok (Demand.meets_value_iff.mpr hkind)
  · intro tok hkind
    rw [List.take_left' rfl]
    exact h.viable (Demand.meets_value_iff.mpr hkind)

theorem advises_statement (h : Stops n u rest .statement) :
    Advises (u ++ rest) u.length (Demand.statement.cause rest) := by
  obtain ⟨items, tok, rest, -, rfl, -, -⟩ := h.exists_absent
  have htok : (u ++ tok :: rest)[u.length]? = some tok := by simp
  apply Advises.statement htok
  · intro hkind
    exact h.unmet.not_meets rfl (Demand.meets_statement_iff.mpr hkind)
  · intro tok' hkind
    rw [List.take_left' rfl]
    exact h.viable (Demand.meets_statement_iff.mpr hkind)

theorem advises_paramType (h : Stops n u rest .paramType) :
    Advises (u ++ rest) u.length (Demand.paramType.cause rest) := by
  -- A word that names no type has a cause of its own; all else is a missing word.
  rcases Demand.word.met_or_unmet rest with ⟨tok, rest, rfl, htok⟩ | hword
  · obtain ⟨word, rfl⟩ := Demand.exists_of_meets_word htok
    apply Advises.paramType (by simp)
    · intro hword
      exact h.unmet.not_meets rfl (Demand.meets_paramType_iff.mpr hword)
    · intro w hw
      rw [List.take_left' rfl]
      exact h.viable (Demand.meets_paramType_iff.mpr hw)
  · rw [Demand.cause_paramType hword]
    exact advises_word h.invites_paramType hword

theorem Stops.advises (h : Stops n u rest d) : Advises (u ++ rest) u.length (d.cause rest) := by
  cases d with
  | word => exact advises_word h.invites_word h.unmet
  | value => exact advises_value h
  | paramType => exact advises_paramType h
  | body => exact advises_keyword h rfl
  | close => exact advises_keyword h rfl
  | semicolon => exact advises_keyword h rfl
  | statement => exact advises_statement h

theorem read_error_advises (options : Options) (t : List Token) (f : Failure)
    (h : (read options t).result = .error f) (hf : ¬TooDeep f) :
    ∃ e : Nat, f.position = some (e : Int) ∧ e ≤ t.length ∧ Advises t e f.cause := by
  obtain ⟨u, rest, d, rfl, hstops, rfl⟩ := stops_of_read_error h hf
  exact ⟨u.length, rfl, by simp, hstops.advises⟩

/-- A keyword stands where the type of a parameter comes next. -/
theorem read_error_advises_colon :
    let t : List Token :=
      [.keyword .define, .text "F", .text "x", .keyword .colon, .keyword .body]
    let f : Failure :=
      { cause := .unexpectedToken "text" (.token (.keyword .body)), position := some 4,
        filename := some "<input>", committed := true }
    (read {} t).result = .error f ∧
      ∃ e : Nat, f.position = some (e : Int) ∧ e ≤ t.length ∧ Advises t e f.cause :=
  ⟨by decide +kernel, read_error_advises {} _ _ (by decide +kernel) (by decide)⟩

end Program
end CounterLang
