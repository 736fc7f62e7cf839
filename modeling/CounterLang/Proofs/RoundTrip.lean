/-
From a program to a text and back.

A program can be written as a text if its names are words that mean nothing else and its
numbers fit.  Then all its tokens are well-formed, the scan of the text gives them back, and
reading them gives back the program.  Neither the choice of blanks nor the way definitions
and statements lie between each other makes a difference.
-/
import CounterLang.Proofs.Outcome
import CounterLang.Proofs.Writing

namespace CounterLang

/-! ## What can be written -/

/-- The word is one that a text spells and that is neither a keyword nor a number. -/
def IsName (word : String) : Prop := IsWord word.toList ∧ Token.ofWord word = .ok (.text word)

def Value.Writable : Value → Prop
  | text word => IsName word
  | number value => Numeral.InRange value

namespace Statement

mutual

def Writable : Statement → Prop
  | loop count body => count.Writable ∧ WritableAll body
  | jez register label => IsName register.name ∧ IsName label.name
  | incr register => IsName register.name
  | decr register => IsName register.name
  | call name args => IsName name ∧ ∀ v ∈ args, v.Writable

def WritableAll : List Statement → Prop
  | [] => True
  | s :: rest => Writable s ∧ WritableAll rest

end

end Statement

def Definition.Writable (d : Definition) : Prop :=
  IsName d.name ∧ (∀ p ∈ d.params, IsName p.name) ∧ Statement.WritableAll d.body

def Item.Writable : Item → Prop
  | definition d => d.Writable
  | statement s => s.Writable

/-! ## Its tokens are well-formed -/

theorem IsName.wellFormed {word : String} (h : IsName word) : (Token.text word).WellFormed := h

theorem wellFormedAll_name {word : String} (h : IsName word) : WellFormedAll [.text word] :=
  wellFormedAll_nil.cons h.wellFormed

theorem Value.Writable.wellFormed {v : Value} (h : v.Writable) : v.token.WellFormed := by
  cases v with
  | text word => exact h
  | number value => exact h

theorem Value.Writable.wellFormedAll {args : List Value} (h : ∀ v ∈ args, v.Writable) :
    WellFormedAll (args.map Value.token) := by
  intro t ht
  obtain ⟨v, hv, rfl⟩ := List.mem_map.mp ht
  exact (h v hv).wellFormed

namespace Statement

mutual

theorem Writable.wellFormedAll {s : Statement} (h : s.Writable) : WellFormedAll s.tokens := by
  cases s with
  | loop count body =>
    obtain ⟨hcount, hbody⟩ := h
    have htokens := (WritableAll.wellFormedAll hbody).append (wellFormedAll_keyword .close)
    exact (htokens.cons hcount.wellFormed).cons trivial
  | jez register label =>
    obtain ⟨hregister, hlabel⟩ := h
    exact ((wellFormedAll_name hlabel).cons hregister.wellFormed).cons trivial
  | incr register => exact (wellFormedAll_name h).cons trivial
  | decr register => exact (wellFormedAll_name h).cons trivial
  | call name args =>
    obtain ⟨hname, hargs⟩ := h
    have htokens := Value.Writable.wellFormedAll hargs
    exact (htokens.append (wellFormedAll_keyword .semicolon)).cons hname.wellFormed

theorem WritableAll.wellFormedAll {body : List Statement} (h : WritableAll body) :
    WellFormedAll (tokensAll body) := by
  cases body with
  | nil => exact wellFormedAll_nil
  | cons s rest =>
    obtain ⟨hs, hrest⟩ := h
    exact (Writable.wellFormedAll hs).append (WritableAll.wellFormedAll hrest)

end

end Statement

/-- The keywords of types are ordinary words. -/
theorem isName_paramType (type : ParamType) : IsName type.keyword := by
  cases type with
  | register => exact ⟨by decide, rfl⟩
  | label => exact ⟨by decide, rfl⟩
  | number => exact ⟨by decide, rfl⟩

theorem Param.wellFormedAll {p : Param} (h : IsName p.name) : WellFormedAll p.tokens := by
  have htype := wellFormedAll_name (isName_paramType p.type)
  exact (htype.cons (t := .keyword .colon) trivial).cons h.wellFormed

theorem Definition.Writable.wellFormedAll {d : Definition} (h : d.Writable) :
    WellFormedAll d.tokens := by
  obtain ⟨hname, hparams, hbody⟩ := h
  have hparams' := wellFormedAll_flatMap fun p hp => Param.wellFormedAll (hparams p hp)
  have hbody' := hbody.wellFormedAll.append (wellFormedAll_keyword .close)
  have hrest := hparams'.append (hbody'.cons (t := .keyword .body) trivial)
  exact (hrest.cons hname.wellFormed).cons trivial

theorem Item.Writable.wellFormedAll {i : Item} (h : i.Writable) : WellFormedAll i.tokens := by
  cases i with
  | definition d => exact Definition.Writable.wellFormedAll h
  | statement s => exact Statement.Writable.wellFormedAll h

/-! ## Reading the text -/

namespace Program

theorem readText_written (options : Options) {items : List Item} {text : String}
    (hitems : ∀ i ∈ items, i.Writable ∧ i.depth ≤ 80)
    (htext : Written (items.flatMap Item.tokens) text) :
    ∃ reading, readText options text = .ok reading ∧
      reading.result =
        .ok ⟨items.filterMap Item.definition?, items.filterMap Item.statement?⟩ := by
  have hwellFormed : WellFormedAll (items.flatMap Item.tokens) :=
    wellFormedAll_flatMap fun i hi => (hitems i hi).1.wellFormedAll
  have htokens := htext.tokensOf_eq hwellFormed
  have hdepth : ∀ i ∈ items, i.depth < Grammar.nestingLimit := by
    intro i hi
    have hle := (hitems i hi).2
    have hlimit : 80 < Grammar.nestingLimit := by decide
    omega
  obtain ⟨reading, hreading, hresult⟩ := readText_of_tokensOf options htokens
  exact ⟨reading, hreading, hresult.trans (read_of_items options hdepth)⟩

theorem readText_written_glued_marks :
    ∃ reading, readText {} "\tDEFINE F x:REG AS END F 3 r;INCR r" = .ok reading ∧
      reading.result = .ok ⟨[⟨"F", [⟨"x", .register⟩], []⟩],
        [.call "F" [.number 3, .text "r"], .incr ⟨"r"⟩]⟩ := by
  have hF : IsName "F" := ⟨by decide, rfl⟩
  have hx : IsName "x" := ⟨by decide, rfl⟩
  have hr : IsName "r" := ⟨by decide, rfl⟩
  have hdefinition : Definition.Writable ⟨"F", [⟨"x", .register⟩], []⟩ :=
    ⟨hF, List.forall_mem_singleton.mpr hx, trivial⟩
  have hcall : Statement.Writable (.call "F" [.number 3, .text "r"]) :=
    ⟨hF, List.forall_mem_cons.mpr ⟨(by decide : Numeral.InRange 3),
      List.forall_mem_singleton.mpr hr⟩⟩
  have hincr : Statement.Writable (.incr ⟨"r"⟩) := hr
  have hlayout : Layout ([.definition ⟨"F", [⟨"x", .register⟩], []⟩,
      .statement (.call "F" [.number 3, .text "r"]), .statement (.incr ⟨"r"⟩)].flatMap Item.tokens)
      "DEFINE F x:REG AS END F 3 r;INCR r".toList :=
    .cons (.keyword .define) [' '] rfl nofun <|
    .cons (.text "F") [' '] rfl nofun <|
    .cons (.text "x") [] rfl (by decide) <|
    .cons (.keyword .colon) [] rfl (by decide) <|
    .cons (.text "REG") [' '] rfl nofun <|
    .cons (.keyword .body) [' '] rfl nofun <|
    .cons (.keyword .close) [' '] rfl nofun <|
    .cons (.text "F") [' '] rfl nofun <|
    .cons (.number 3) [' '] rfl nofun <|
    .cons (.text "r") [] rfl (by decide) <|
    .cons (.keyword .semicolon) [] rfl (by decide) <|
    .cons (.keyword .incr) [' '] rfl nofun <|
    .cons (.text "r") [] rfl (by decide) .nil
  have hwritten : Written _ "\tDEFINE F x:REG AS END F 3 r;INCR r" :=
    ⟨['\t'], _, rfl, by decide, hlayout⟩
  refine readText_written {} ?_ hwritten
  simp only [List.forall_mem_cons]
  exact ⟨⟨hdefinition, by decide⟩, ⟨hcall, by decide⟩, ⟨hincr, by decide⟩, nofun⟩

end Program
end CounterLang
