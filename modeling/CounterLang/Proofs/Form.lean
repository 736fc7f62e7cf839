/-
Forms, the trees that records are written from.

A record is a heading with fields in parentheses, or a list without a heading, or a quoted text,
or a word of its own.  All records of tokens and nodes are written from forms, so that what is
unambiguous about records is proved once.  What a form is written as shows by its first character
and by the first separator in it (`foretold_chars`), and then where its parts end, one by one.
Only a word goes on as long as there is no separator, so behind a form there must be one or
nothing.  That from a form and what is behind it both can be told (`told`) is what the induction
on forms carries, and the theorem this file exists for is `Form.text_inj`.
-/
import CounterLang.Program.Node
import CounterLang.Proofs.Headline
import CounterLang.Proofs.Quoted

namespace CounterLang

open Text (IsQuote)

/-! ## Forms and their texts -/

/-- The characters that part a record, where they are not quoted. -/
def separators : List Char := [',', '=', '(', ')']

def isSeparator (c : Char) : Bool := c ∈ separators

/-- A word that can stand in a record without quotes. -/
def IsAtom (cs : List Char) : Prop :=
  cs ≠ [] ∧ (∀ c ∈ cs, isSeparator c = false) ∧ ∀ c ∈ cs.head?, ¬IsQuote c

instance (cs : List Char) : Decidable (IsAtom cs) :=
  decidable_of_iff (cs ≠ [] ∧ cs.all (fun c => !isSeparator c) = true ∧
    cs.head?.all (fun c => !decide (IsQuote c)) = true) (by cases cs <;> simp [IsAtom])

@[ext]
structure Atom where
  text : String
  isAtom : IsAtom text.toList

inductive Form
  | atom (a : Atom)
  | quoted (text : String)
  | field (name : Atom) (value : Form)
  | record (heading : Atom) (entries : List Form)
  | list (entries : List Form)

namespace Form

mutual

def text : Form → String
  | atom a => a.text
  | quoted s => Text.quoted s
  | field name value => name.text ++ "=" ++ text value
  | record heading entries => heading.text ++ "(" ++ ", ".intercalate (textAll entries) ++ ")"
  | list entries => listRecord (textAll entries)

def textAll : List Form → List String
  | [] => []
  | f :: rest => text f :: textAll rest

end

def chars (f : Form) : List Char := f.text.toList

/-- The entries of a list, each behind the one before it. -/
def insideChars (entries : List Form) : List Char := [',', ' '].intercalate (entries.map chars)

/-- What ends a list.  A comma tells a single entry in a list from the entry itself. -/
def closing : List Form → List Char
  | [_] => [',', ')']
  | _ => [')']

variable {f g : Form} {es fs : List Form} {cs ds rest rest' : List Char}

theorem textAll_eq_map (es : List Form) : textAll es = es.map text := by
  induction es with
  | nil => rfl
  | cons e es ih => rw [textAll, ih, List.map_cons]

theorem toList_intercalate_textAll (es : List Form) :
    (", ".intercalate (textAll es)).toList = insideChars es := by
  rw [textAll_eq_map, String.toList_intercalate, List.map_map]
  rfl

theorem chars_quoted (s : String) : (quoted s).chars = Text.quotedChars s.toList := by
  rw [chars, text, Text.toList_quoted]

theorem chars_field (name : Atom) (value : Form) :
    (field name value).chars = name.text.toList ++ '=' :: value.chars := by
  rw [chars, text, String.toList_append, String.toList_append, List.append_assoc]
  rfl

theorem chars_record (heading : Atom) (es : List Form) :
    (record heading es).chars = heading.text.toList ++ '(' :: (insideChars es ++ [')']) := by
  rw [chars, text, String.toList_append, String.toList_append, String.toList_append,
    toList_intercalate_textAll, List.append_assoc, List.append_assoc]
  rfl

theorem listRecord_of_length_ne_one {entries : List String} (h : entries.length ≠ 1) :
    listRecord entries = "(" ++ ", ".intercalate entries ++ ")" := by
  unfold listRecord
  split
  · exact absurd rfl h
  · rfl

theorem chars_list (es : List Form) : (list es).chars = '(' :: (insideChars es ++ closing es) := by
  have hmany : ∀ {es : List Form}, es.length ≠ 1 →
      (list es).chars = '(' :: (insideChars es ++ [')']) := by
    intro es hlength
    rw [chars, text, listRecord_of_length_ne_one (by rwa [textAll_eq_map, List.length_map]),
      String.toList_append, String.toList_append, toList_intercalate_textAll, List.append_assoc]
    rfl
  match es with
  | [] => exact hmany nofun
  | [e] =>
    rw [chars, text, textAll, textAll, listRecord, String.toList_append, String.toList_append,
      List.append_assoc, insideChars, List.map_singleton, List.intercalate_singleton]
    rfl
  | e :: f :: es => exact hmany (by simp)

/-! ## What a form starts with -/

/-- The five kinds of forms. -/
inductive Shape
  | atom
  | quoted
  | field
  | record
  | list

def shape : Form → Shape
  | atom _ => .atom
  | quoted _ => .quoted
  | field .. => .field
  | record .. => .record
  | list _ => .list

/-- The shape of a form that starts with an atom, given what is behind the atom. -/
def Shape.ofBehind : List Char → Shape
  | '=' :: _ => .field
  | '(' :: _ => .record
  | _ => .atom

/-- The shape of the form that starts a text. -/
def Shape.foretold : List Char → Shape
  | [] => .atom
  | c :: rest =>
    if c = '(' then .list
    else if IsQuote c then .quoted
    else .ofBehind (rest.dropWhile fun c => !isSeparator c)

/-- Nothing, or more entries, or the end of a list. -/
def Ends (rest : List Char) : Prop := ∀ c ∈ rest.head?, c = ',' ∨ c = ')'

theorem ends_nil : Ends [] := by
  rintro c ⟨⟩

theorem Ends.isSeparator (h : Ends rest) : ∀ c ∈ rest.head?, isSeparator c = true := by
  intro c hc
  rcases h c hc with rfl | rfl
  · rfl
  · rfl

theorem exists_cons_atom (a : Atom) :
    ∃ c cs, a.text.toList = c :: cs ∧ isSeparator c = false ∧ ¬IsQuote c ∧
      ∀ d ∈ cs, isSeparator d = false := by
  obtain ⟨hne, hfree, hhead⟩ := a.isAtom
  obtain ⟨c, cs, hcs⟩ := List.exists_cons_of_ne_nil hne
  rw [hcs] at hfree hhead
  rw [List.forall_mem_cons] at hfree
  exact ⟨c, cs, hcs, hfree.1, hhead c rfl, hfree.2⟩

theorem foretold_atom (a : Atom) (hrest : ∀ c ∈ rest.head?, isSeparator c = true) :
    Shape.foretold (a.text.toList ++ rest) = .ofBehind rest := by
  obtain ⟨c, cs, hcs, hc, hquote, hfree⟩ := exists_cons_atom a
  have hbracket : c ≠ '(' := by
    rintro rfl
    cases hc
  have hskip : (cs ++ rest).dropWhile (fun c => !isSeparator c) = rest := by
    rw [List.dropWhile_append_of_pos fun d hd => by rw [hfree d hd]; rfl]
    cases rest with
    | nil => rfl
    | cons d rest => rw [List.dropWhile_cons_of_neg (by rw [hrest d rfl]; decide)]
  rw [hcs, List.cons_append, Shape.foretold, if_neg hbracket, if_neg hquote, hskip]

theorem foretold_chars (hrest : Ends rest) : Shape.foretold (f.chars ++ rest) = f.shape := by
  cases f with
  | atom a =>
    have hshape : (atom a).shape = .ofBehind rest := by
      cases rest with
      | nil => rfl
      | cons c rest =>
        rcases hrest c rfl with rfl | rfl
        · rfl
        · rfl
    rw [hshape]
    exact foretold_atom a hrest.isSeparator
  | quoted s =>
    rw [chars_quoted, Text.quotedChars_append]
    rcases Text.isQuote_quoteOf s.toList with hquote | hquote
    · rw [hquote]
      rfl
    · rw [hquote]
      rfl
  | field name value =>
    rw [chars_field, List.append_assoc]
    apply foretold_atom
    rintro c ⟨⟩
    rfl
  | record heading es =>
    rw [chars_record, List.append_assoc]
    apply foretold_atom
    rintro c ⟨⟩
    rfl
  | list es =>
    rw [chars_list]
    rfl

theorem not_ends_atom (a : Atom) (rest : List Char) : ¬Ends (a.text.toList ++ rest) := by
  obtain ⟨c, cs, hcs, hc, -⟩ := exists_cons_atom a
  rw [hcs, List.cons_append]
  intro hends
  rcases hends c rfl with rfl | rfl
  · cases hc
  · cases hc

/-- No form starts with what ends one. -/
theorem not_ends_chars_append (f : Form) (rest : List Char) : ¬Ends (f.chars ++ rest) := by
  cases f with
  | atom a => exact not_ends_atom a rest
  | quoted s =>
    rw [chars_quoted, Text.quotedChars_append]
    intro hends
    rcases Text.isQuote_quoteOf s.toList with hquote | hquote
    · exact absurd (hends _ rfl) (by rw [hquote]; decide)
    · exact absurd (hends _ rfl) (by rw [hquote]; decide)
  | field name value =>
    rw [chars_field, List.append_assoc]
    exact not_ends_atom name _
  | record heading es =>
    rw [chars_record, List.append_assoc]
    exact not_ends_atom heading _
  | list es =>
    rw [chars_list]
    intro hends
    exact absurd (hends '(' rfl) (by decide)

/-! ## Where a form ends -/

/-- From the text of the form and what is behind it, both can be told. -/
def Told (f : Form) : Prop :=
  ∀ {g : Form} {rest rest' : List Char}, Ends rest → Ends rest' →
    f.chars ++ rest = g.chars ++ rest' → f = g ∧ rest = rest'

/-- The end of a list, with anything behind it. -/
inductive Closes : List Char → Prop
  | bracket (rest : List Char) : Closes (')' :: rest)
  | comma (rest : List Char) : Closes (',' :: ')' :: rest)

theorem Closes.ends (h : Closes cs) : Ends cs := by
  cases h with
  | bracket rest => rintro c ⟨⟩; exact Or.inr rfl
  | comma rest => rintro c ⟨⟩; exact Or.inl rfl

theorem closes_closing (es : List Form) (rest : List Char) : Closes (closing es ++ rest) := by
  match es with
  | [] => exact .bracket rest
  | [e] => exact .comma rest
  | e :: f :: es => exact .bracket rest

/-- The entries behind the first one, each with the comma before it. -/
def following (es : List Form) : List Char := es.flatMap fun e => ',' :: ' ' :: e.chars

theorem insideChars_cons (e : Form) (es : List Form) :
    insideChars (e :: es) = e.chars ++ following es := by
  induction es generalizing e with
  | nil => rw [insideChars, List.map_singleton, List.intercalate_singleton, following,
      List.flatMap_nil, List.append_nil]
  | cons f es ih =>
    have hrest := ih f
    rw [insideChars, List.map_cons] at hrest
    rw [insideChars, List.map_cons, List.map_cons, List.intercalate_cons_cons, hrest, following,
      following, List.flatMap_cons, List.append_assoc]
    rfl

theorem ends_following (es : List Form) (h : Closes cs) : Ends (following es ++ cs) := by
  cases es with
  | nil => exact h.ends
  | cons e es => rintro c ⟨⟩; exact Or.inl rfl

theorem following_cons_append (e : Form) (es : List Form) (cs : List Char) :
    following (e :: es) ++ cs = ',' :: ' ' :: (e.chars ++ (following es ++ cs)) := by
  rw [following, List.flatMap_cons, List.append_assoc, ← following]
  rfl

/-- A list ends where no entry follows. -/
theorem following_append_inj (hes : ∀ e ∈ es, e.Told) (hcs : Closes cs) (hds : Closes ds)
    (h : following es ++ cs = following fs ++ ds) : es = fs ∧ cs = ds := by
  -- Behind a comma there is a bracket or a blank, and only then an entry.
  have hne : ∀ {cs : List Char} {e : Form} {es : List Form} {ds : List Char}, Closes cs →
      cs ≠ following (e :: es) ++ ds := by
    intro cs e es ds hcs h
    rw [following_cons_append] at h
    cases hcs with
    | bracket rest => cases h
    | comma rest => cases h
  induction es generalizing fs with
  | nil =>
    cases fs with
    | nil => exact ⟨rfl, h⟩
    | cons f fs => exact absurd h (hne hcs)
  | cons e es ih =>
    cases fs with
    | nil => exact absurd h.symm (hne hds)
    | cons f fs =>
      rw [List.forall_mem_cons] at hes
      rw [following_cons_append, following_cons_append, List.cons.injEq, List.cons.injEq] at h
      obtain ⟨rfl, hrest⟩ := hes.1 (ends_following es hcs) (ends_following fs hds) h.2.2
      obtain ⟨rfl, hcs⟩ := ih hes.2 hrest
      exact ⟨rfl, hcs⟩

theorem insideChars_append_inj (hes : ∀ e ∈ es, e.Told) (hcs : Closes cs) (hds : Closes ds)
    (h : insideChars es ++ cs = insideChars fs ++ ds) : es = fs ∧ cs = ds := by
  have hne : ∀ {cs : List Char} {e : Form} {es : List Form} {ds : List Char}, Closes cs →
      cs ≠ insideChars (e :: es) ++ ds := by
    intro cs e es ds hcs h
    rw [insideChars_cons, List.append_assoc] at h
    exact not_ends_chars_append e _ (h ▸ hcs.ends)
  cases es with
  | nil =>
    cases fs with
    | nil => exact ⟨rfl, h⟩
    | cons f fs => exact absurd h (hne hcs)
  | cons e es =>
    cases fs with
    | nil => exact absurd h.symm (hne hds)
    | cons f fs =>
      rw [List.forall_mem_cons] at hes
      rw [insideChars_cons, insideChars_cons, List.append_assoc, List.append_assoc] at h
      obtain ⟨rfl, hrest⟩ := hes.1 (ends_following es hcs) (ends_following fs hds) h
      obtain ⟨rfl, hcs⟩ := following_append_inj hes.2 hcs hds hrest
      exact ⟨rfl, hcs⟩

/-! ## All forms -/

/-- The forms that lie directly inside. -/
def parts : Form → List Form
  | field _ value => [value]
  | record _ entries => entries
  | list entries => entries
  | _ => []

mutual

theorem parts_induction {P : Form → Prop} (step : ∀ f : Form, (∀ g ∈ f.parts, P g) → P f)
    (f : Form) : P f := by
  cases f with
  | atom a => exact step _ nofun
  | quoted s => exact step _ nofun
  | field name value =>
    exact step _ fun g hg => List.mem_singleton.mp hg ▸ parts_induction step value
  | record heading es => exact step _ (parts_inductionAll step es)
  | list es => exact step _ (parts_inductionAll step es)

theorem parts_inductionAll {P : Form → Prop} (step : ∀ f : Form, (∀ g ∈ f.parts, P g) → P f)
    (es : List Form) : ∀ e ∈ es, P e := by
  cases es with
  | nil => exact List.forall_mem_nil _
  | cons e es =>
    exact List.forall_mem_cons.mpr ⟨parts_induction step e, parts_inductionAll step es⟩

end

/-- An atom ends at the first separator. -/
theorem atom_append_inj {a b : Atom} (hrest : ∀ c ∈ rest.head?, isSeparator c = true)
    (hrest' : ∀ c ∈ rest'.head?, isSeparator c = true)
    (h : a.text.toList ++ rest = b.text.toList ++ rest') : a = b ∧ rest = rest' := by
  obtain ⟨htext, hbehind⟩ := append_inj_of_head (p := fun c => isSeparator c = false) h
    a.isAtom.2.1 b.isAtom.2.1 (fun c hc => by rw [hrest c hc]; decide)
    (fun c hc => by rw [hrest' c hc]; decide)
  exact ⟨Atom.ext (String.toList_inj.mp htext), hbehind⟩

theorem told (f : Form) : f.Told := by
  induction f using parts_induction with
  | step f ih =>
  intro g rest rest' hrest hrest' h
  -- A form can only be taken for one of its own shape.
  have hshape : f.shape = g.shape := by
    rw [← foretold_chars hrest, h, foretold_chars hrest']
  cases f with
  | atom a =>
    cases g with
    | atom b =>
      obtain ⟨rfl, hbehind⟩ := atom_append_inj hrest.isSeparator hrest'.isSeparator h
      exact ⟨rfl, hbehind⟩
    | quoted | field | record | list => cases hshape
  | quoted s =>
    cases g with
    | quoted t =>
      rw [chars_quoted, chars_quoted] at h
      obtain ⟨htext, hbehind⟩ := Text.quotedChars_append_inj h
      rw [String.toList_inj.mp htext]
      exact ⟨rfl, hbehind⟩
    | atom | field | record | list => cases hshape
  | field name value =>
    cases g with
    | field name' value' =>
      rw [chars_field, chars_field, List.append_assoc, List.append_assoc] at h
      obtain ⟨rfl, hvalue⟩ := atom_append_inj (by rintro c ⟨⟩; rfl) (by rintro c ⟨⟩; rfl) h
      obtain ⟨rfl, hbehind⟩ := ih value List.mem_cons_self hrest hrest' (List.cons.inj hvalue).2
      exact ⟨rfl, hbehind⟩
    | atom | quoted | record | list => cases hshape
  | record heading es =>
    cases g with
    | record heading' fs =>
      rw [chars_record, chars_record, List.append_assoc, List.append_assoc, List.cons_append,
        List.cons_append, List.append_assoc, List.append_assoc] at h
      obtain ⟨rfl, hinside⟩ := atom_append_inj (by rintro c ⟨⟩; rfl) (by rintro c ⟨⟩; rfl) h
      obtain ⟨rfl, hbehind⟩ := insideChars_append_inj ih (.bracket rest) (.bracket rest')
        (List.cons.inj hinside).2
      exact ⟨rfl, (List.cons.inj hbehind).2⟩
    | atom | quoted | field | list => cases hshape
  | list es =>
    cases g with
    | list fs =>
      rw [chars_list, chars_list, List.cons_append, List.cons_append, List.append_assoc,
        List.append_assoc] at h
      obtain ⟨rfl, hbehind⟩ := insideChars_append_inj ih (closes_closing es rest)
        (closes_closing fs rest') (List.cons.inj h).2
      exact ⟨rfl, List.append_cancel_left hbehind⟩
    | atom | quoted | field | record => cases hshape

/-- A form is told by its text. -/
theorem text_inj (h : f.text = g.text) : f = g := by
  have hchars : f.chars ++ [] = g.chars ++ [] := by rw [chars, h, ← chars]
  exact (told f ends_nil ends_nil hchars).1

end Form
end CounterLang
