/-
Programs one after the other.

A program that has been read is complete: nothing that comes behind it changes how it was
read, and nothing of it is left over for what comes behind.  So two lists of tokens in a row
come to what the second one comes to, with the definitions and statements of the first put
before it, and with every position moved by the length of the first (`Reading.behind`).

The same is true of texts with a blank between them.  A blank ends every word, so the scan
goes on behind it as if the text began there.
-/
import CounterLang.Proofs.Outcome
import CounterLang.Proofs.Writing

namespace CounterLang

/-- The failure as it looks with `n` more tokens in front. -/
def Failure.moved (n : Nat) (f : Failure) : Failure :=
  { f with position := f.position.map fun i => i + n }

/-- The two programs as one, the first in front. -/
def Program.followedBy (p q : Program) : Program :=
  ⟨p.definitions ++ q.definitions, p.statements ++ q.statements⟩

/-- What tokens come to behind `n` tokens that are the program `p`, given what they come to
on their own. -/
def Reading.behind (p : Program) (n : Nat) : Except Failure Program → Except Failure Program
  | .ok q => .ok (p.followedBy q)
  | .error f => .error (f.moved n)

/-! ## Tokens -/

namespace Program

open Grammar (nestingLimit)

theorem ofItems_append (items items' : List Item) :
    ofItems (items ++ items') = (ofItems items).followedBy (ofItems items') := by
  simp only [ofItems, followedBy, List.filterMap_append]

theorem position_behind (t u : List Token) :
    (u.length : Int) + t.length = ((t ++ u).length : Nat) := by
  rw [List.length_append]
  omega

theorem read_tokens_append (options : Options) {a : List Token} {p : Program}
    (ha : (read options a).result = .ok p) (b : List Token) :
    (read options (a ++ b)).result = Reading.behind p a.length (read options b).result := by
  obtain ⟨items, hitems, rfl, rfl⟩ := items_of_read_ok ha
  cases ending nestingLimit b with
  | reads items' hitems' =>
    have hall := List.forall_mem_append.mpr ⟨hitems, hitems'⟩
    rw [← List.flatMap_append, read_of_items options hall, read_of_items options hitems',
      ofItems_append]
    rfl
  | @stops u rest d h =>
    rw [← List.append_assoc, read_of_stops options (h.behind hitems), read_of_stops options h,
      ← position_behind]
    rfl
  | @overruns u rest h =>
    rw [← List.append_assoc, read_of_overruns options (h.behind hitems),
      read_of_overruns options h, ← position_behind]
    rfl

end Program

/-! ## Texts -/

/-- A gap cuts a text in two, and the pieces of the halves are found on their own. -/
theorem piecesAfter_append_gap {gap : List Char} (hne : gap ≠ [])
    (hgap : gap.all Text.isBlank = true) (word cs text : List Char) :
    piecesAfter word (cs ++ (gap ++ text)) = piecesAfter word cs ++ piecesAfter [] text := by
  have hends : EndsWord (gap ++ text) := Layout.endsWord_gap hgap fun hempty => absurd hempty hne
  rw [piecesAfter_append_of_endsWord hends, piecesAfter_gap hgap]

theorem tokensOf_append {x gap y : String} {a b : List Token} (hx : tokensOf x = .ok a)
    (hy : tokensOf y = .ok b) (hne : gap ≠ "") (hgap : gap.toList.all Text.isBlank = true) :
    tokensOf (x ++ gap ++ y) = .ok (a ++ b) := by
  have hne' : gap.toList ≠ [] := by simpa using hne
  have hpieces : pieces (x ++ gap ++ y).toList = pieces x.toList ++ pieces y.toList := by
    rw [String.toList_append, String.toList_append, List.append_assoc, pieces,
      piecesAfter_append_gap hne' hgap, List.map_append]
    rfl
  rw [tokensOf, Scan.tokens, Scan.start] at hx hy ⊢
  rw [hpieces, List.mapM_append, hx, hy]
  rfl

namespace Program

theorem read_append (options : Options) :
    (∀ (a b : List Token) (p : Program), (read options a).result = .ok p →
      (read options (a ++ b)).result = Reading.behind p a.length (read options b).result) ∧
    ∀ (x gap y : String) (a b : List Token), tokensOf x = .ok a → tokensOf y = .ok b →
      gap ≠ "" → gap.toList.all Text.isBlank = true →
      ∃ first second whole, readText options x = .ok first ∧ readText options y = .ok second ∧
        readText options (x ++ gap ++ y) = .ok whole ∧
        ∀ p, first.result = .ok p → whole.result = Reading.behind p a.length second.result := by
  refine ⟨fun a b p ha => read_tokens_append options ha b, ?_⟩
  intro x gap y a b hx hy hne hgap
  obtain ⟨first, hfirst, hfirstResult⟩ := readText_of_tokensOf options hx
  obtain ⟨second, hsecond, hsecondResult⟩ := readText_of_tokensOf options hy
  obtain ⟨whole, hwhole, hwholeResult⟩ :=
    readText_of_tokensOf options (tokensOf_append hx hy hne hgap)
  refine ⟨first, second, whole, hfirst, hsecond, hwhole, ?_⟩
  intro p hp
  rw [hfirstResult] at hp
  rw [hwholeResult, hsecondResult]
  exact read_tokens_append options hp b

/-- A type that is not known and a label that is missing, each behind a statement. -/
theorem read_append_failures :
    (read {} ([.keyword .incr, .text "r"] ++
        [.keyword .define, .text "F", .text "x", .keyword .colon, .text "FOO"])).result =
      Reading.behind ⟨[], [.incr ⟨"r"⟩]⟩ 2
        (read {} [.keyword .define, .text "F", .text "x", .keyword .colon, .text "FOO"]).result ∧
    ∃ first second whole, readText {} "INCR r" = .ok first ∧ readText {} "JEZ r" = .ok second ∧
      readText {} ("INCR r" ++ "\n " ++ "JEZ r") = .ok whole ∧
      ∀ p, first.result = .ok p → whole.result = Reading.behind p 2 second.result :=
  ⟨(read_append {}).1 _ _ _ (by decide +kernel),
    (read_append {}).2 "INCR r" "\n " "JEZ r" [.keyword .incr, .text "r"]
      [.keyword .jez, .text "r"] rfl rfl (by decide) (by decide)⟩

end Program
end CounterLang
