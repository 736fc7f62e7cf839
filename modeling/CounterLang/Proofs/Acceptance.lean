/-
A reading accepts exactly the token forms of programs, and gives back the only program that
tokens are a form of.

One direction is that a program which has been read accounts for every token: the tokens are
those of its definitions and statements, in some order of their own.  The other is that every
program whose loops nest at most 80 deep is read from its tokens.  That there is no second
program with the same tokens follows by reading both with a bound that is large enough.
-/
import CounterLang.Proofs.Outcome

namespace CounterLang
namespace Program

open Grammar (nestingLimit)

/-- The token form determines the items. -/
theorem flatMap_tokens_injective {items items' : List Item}
    (h : items.flatMap Item.tokens = items'.flatMap Item.tokens) : items = items' := by
  -- The limit on nesting plays no part: both are read with a bound that neither reaches.
  obtain ⟨n, hn⟩ := exists_depth_bound (items ++ items')
  have hreads := (Grammar.reads_items
    (fun i hi => hn i (List.mem_append_left items' hi)) false 0).1
  have hreads' := (Grammar.reads_items
    (fun i hi => hn i (List.mem_append_right items hi)) false 0).1
  rw [h, hreads', Outcome.value.injEq] at hreads
  exact hreads.symm

theorem read_accepts_exactly (options : Options) :
    (∀ (t : List Token) (p : Program), (read options t).result = .ok p →
      ∃ items : List Item, t = items.flatMap Item.tokens ∧
        p.definitions = items.filterMap Item.definition? ∧
        p.statements = items.filterMap Item.statement? ∧
        ∀ items' : List Item, t = items'.flatMap Item.tokens → items' = items) ∧
    ∀ items : List Item, (∀ i ∈ items, i.depth ≤ 80) →
      (read options (items.flatMap Item.tokens)).result =
        .ok ⟨items.filterMap Item.definition?, items.filterMap Item.statement?⟩ := by
  constructor
  · intro t p h
    obtain ⟨items, -, rfl, rfl⟩ := items_of_read_ok h
    exact ⟨items, rfl, rfl, rfl, fun items' h' => flatMap_tokens_injective h'.symm⟩
  · intro items h
    apply read_of_items options
    intro i hi
    have hdepth := h i hi
    have hlimit : 80 < nestingLimit := by decide
    omega

theorem read_accepts_exactly_loop_and_definition :
    (∃ items : List Item,
      [.keyword .loop, .number 2, .text "F", .text "r", .keyword .semicolon, .keyword .close,
        .keyword .define, .text "F", .text "x", .keyword .colon, .text "REG", .keyword .body,
        .keyword .incr, .text "x", .keyword .close] = items.flatMap Item.tokens ∧
      [⟨"F", [⟨"x", .register⟩], [.incr ⟨"x"⟩]⟩] = items.filterMap Item.definition? ∧
      [.loop (.number 2) [.call "F" [.text "r"]]] = items.filterMap Item.statement? ∧
      ∀ items' : List Item,
        [.keyword .loop, .number 2, .text "F", .text "r", .keyword .semicolon, .keyword .close,
          .keyword .define, .text "F", .text "x", .keyword .colon, .text "REG", .keyword .body,
          .keyword .incr, .text "x", .keyword .close] = items'.flatMap Item.tokens →
        items' = items) ∧
    (read {} ([Item.statement (.loop (.number 2) [.loop (.text "n") []])].flatMap
      Item.tokens)).result = .ok ⟨[], [.loop (.number 2) [.loop (.text "n") []]]⟩ :=
  ⟨(read_accepts_exactly {}).1 _ ⟨_, _⟩ (by decide +kernel),
    (read_accepts_exactly {}).2 _ (by decide)⟩

end Program
end CounterLang
