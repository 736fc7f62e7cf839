/-
The position of a failure is the first token that makes the tokens unfixable.

What comes before the position is viable, so the tokens up to there are not to blame.  With
the token at the position it is not viable any more, unless there is none, or the token is a
word in the head of a definition.  Such a word is complained about because no colon follows
it, and then it is the word together with what follows that no program goes on from.
-/
import CounterLang.Proofs.Viability

namespace CounterLang
namespace Program

/-- No program goes on with the token at index `e`. -/
def UnfixableAt (t : List Token) (e : Nat) : Prop :=
  e < t.length ∧ ¬Viable (t.take (e + 1))

/-- All tokens are viable, and there are too few of them. -/
def CutOffAt (t : List Token) (e : Nat) (f : Failure) : Prop :=
  e = t.length ∧
    ((∃ expected, f.cause = .unexpectedEnd expected) ∨
      (∃ definition reason, f.cause = .failedRule "value" definition reason) ∧
        ∃ v, t = v ++ [.keyword .loop] ∧ StatementPlace v)

/-- The token at index `e` is a word where the head of a definition may go on with a
parameter, and the word is not the name of one. -/
def HeadWordAt (t : List Token) (e : Nat) (f : Failure) : Prop :=
  ∃ word, t[e]? = some (.text word) ∧
    (∃ (items : List Item) (name : String) (params : List Param),
      t.take e = items.flatMap Item.tokens ++ Definition.head name params) ∧
    t[e + 1]? ≠ some (.keyword .colon) ∧
    f.cause = .unexpectedToken "'AS'" (.token (.text word)) ∧
    (e + 1 = t.length ∨ ¬Viable (t.take (e + 2)))

variable {n : Nat} {u rest : List Token} {d : Demand}

theorem Stops.cutOffAt (h : Stops n u [] d) (i : Int) (filename : Option String) :
    CutOffAt (u ++ []) u.length ((d.failure [] i).located filename) := by
  refine ⟨by rw [List.append_nil], ?_⟩
  cases d with
  | value =>
    obtain ⟨v, hv, hplace⟩ := h.exists_loop
    exact Or.inr ⟨⟨_, _, rfl⟩, v, by rw [List.append_nil, hv], hplace⟩
  | statement =>
    obtain ⟨items, tok, rest, -, hrest, -⟩ := h.exists_absent
    cases hrest
  | word => exact Or.inl ⟨_, rfl⟩
  | paramType => exact Or.inl ⟨_, rfl⟩
  | body => exact Or.inl ⟨_, rfl⟩
  | close => exact Or.inl ⟨_, rfl⟩
  | semicolon => exact Or.inl ⟨_, rfl⟩

theorem Stops.headWordAt {word : String} (h : Stops n u (.text word :: rest) .body) (i : Int)
    (filename : Option String) :
    HeadWordAt (u ++ .text word :: rest) u.length
      ((Demand.body.failure (.text word :: rest) i).located filename) := by
  obtain ⟨⟨items, name, params, hu⟩, hopen⟩ := h.exists_head
  refine ⟨word, by simp, ⟨items, name, params, by rw [List.take_left' rfl, hu]⟩, ?_, rfl, ?_⟩
  · intro hcolon
    rw [List.getElem?_append_right (by omega), Nat.add_sub_cancel_left] at hcolon
    cases rest with
    | nil => cases hcolon
    | cons tok rest =>
      obtain rfl := Option.some.inj hcolon
      cases hopen
  · cases rest with
    | nil => exact Or.inl (by simp)
    | cons tok rest =>
      right
      rw [List.take_length_add_append]
      exact h.not_viable_two

theorem Stops.unfixableAt {tok : Token} (h : Stops n u (tok :: rest) d)
    (hword : d = .body → ∀ w, tok ≠ .text w) : UnfixableAt (u ++ tok :: rest) u.length := by
  refine ⟨by simp, ?_⟩
  rw [List.take_length_add_append]
  exact h.not_viable hword

theorem read_error_position (options : Options) (t : List Token) (f : Failure)
    (h : (read options t).result = .error f) (hf : ¬TooDeep f) :
    ∃ e : Nat, f.position = some (e : Int) ∧ e ≤ t.length ∧ Viable (t.take e) ∧
      (UnfixableAt t e ∨ CutOffAt t e f ∨ HeadWordAt t e f) := by
  obtain ⟨u, rest, d, rfl, hstops, rfl⟩ := stops_of_read_error h hf
  refine ⟨u.length, rfl, by simp, ?_, ?_⟩
  · rw [List.take_left' rfl]
    exact hstops.viable_read
  · cases rest with
    | nil => exact Or.inr (Or.inl (hstops.cutOffAt _ _))
    | cons tok rest =>
      by_cases hword : d = .body ∧ ∃ w, tok = .text w
      · obtain ⟨rfl, w, rfl⟩ := hword
        exact Or.inr (Or.inr (hstops.headWordAt _ _))
      · exact Or.inl (hstops.unfixableAt fun hd w htok => hword ⟨hd, w, htok⟩)

theorem read_error_position_head_word :
    let t : List Token :=
      [.keyword .define, .text "F", .text "x", .keyword .incr, .text "x", .keyword .close]
    let f : Failure :=
      { cause := .unexpectedToken "'AS'" (.token (.text "x")), position := some 2,
        filename := some "<input>", committed := true }
    (read {} t).result = .error f ∧
      ∃ e : Nat, f.position = some (e : Int) ∧ e ≤ t.length ∧ Viable (t.take e) ∧
        (UnfixableAt t e ∨ CutOffAt t e f ∨ HeadWordAt t e f) :=
  ⟨by decide +kernel, read_error_position {} _ _ (by decide +kernel) (by decide)⟩

end Program
end CounterLang
