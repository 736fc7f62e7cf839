/-
The line of an outline that tells of one part of a program.

A definition or a statement has one line of its own, its headline, which says everything of it
but what it holds inside.  Words stand in a headline as they are, next to commas, brackets and
arrows that they may themselves contain, so that it is not plain that a headline can be taken
apart.  It can, because what a text spells has no blanks in it: the first blank ends the
opening, and in a list the next blank ends an entry and its comma (`intercalate_inj`).  Only
the name of a function is ended by the first bracket, and so must not contain one.  The theorem
this file exists for is `Item.eq_of_headline_eq`: the headline and the parts inside are all of
a part.
-/
import CounterLang.Program.Outline
import CounterLang.Proofs.RoundTrip

namespace CounterLang

attribute [ext] Register Label Param Definition

variable {cs ds xs ys xs' ys' : List Char} {c : Char}

/-! ## Texts without blanks -/

/-- One or more characters, none of which is a blank. -/
def IsSolid (cs : List Char) : Prop := cs ≠ [] ∧ ∀ c ∈ cs, Text.isBlank c = false

instance (cs : List Char) : Decidable (IsSolid cs) :=
  decidable_of_iff (cs ≠ [] ∧ cs.all (fun c => !Text.isBlank c) = true) (by simp [IsSolid])

theorem IsSolid.notMem (h : IsSolid cs) (hc : Text.isBlank c = true) : c ∉ cs := by
  intro hmem
  rw [h.2 c hmem] at hc
  cases hc

theorem IsSolid.append (h : IsSolid cs) (h' : IsSolid ds) : IsSolid (cs ++ ds) :=
  ⟨List.append_ne_nil_of_left_ne_nil h.1 ds, List.forall_mem_append.mpr ⟨h.2, h'.2⟩⟩

theorem isBlank_of_isWordChar (h : isWordChar c = true) : Text.isBlank c = false := by
  rw [isWordChar, Bool.and_eq_true, Bool.not_eq_true'] at h
  exact h.1

theorem IsWord.isSolid (h : IsWord cs) : IsSolid cs :=
  ⟨h.1, fun c hc => isBlank_of_isWordChar (List.all_eq_true.mp h.2 c hc)⟩

/-- A text whose only blanks are plain spaces. -/
def IsSpaced (cs : List Char) : Prop := ∀ c ∈ cs, Text.isBlank c = true → c = ' '

instance (cs : List Char) : Decidable (IsSpaced cs) :=
  decidable_of_iff (cs.all (fun c => !Text.isBlank c || c == ' ') = true)
    (by simp [IsSpaced, Decidable.or_iff_not_imp_left])

theorem IsSolid.isSpaced (h : IsSolid cs) : IsSpaced cs := by
  intro c hc hblank
  rw [h.2 c hc] at hblank
  cases hblank

theorem IsSpaced.append (h : IsSpaced cs) (h' : IsSpaced ds) : IsSpaced (cs ++ ds) :=
  List.forall_mem_append.mpr ⟨h, h'⟩

/-! ## Taking texts apart -/

/-- Two lists are cut at the same place if what is kept before the cut is never found right
behind it. -/
theorem append_inj_of_head {p : α → Prop} {as bs as' bs' : List α}
    (h : as ++ bs = as' ++ bs') (has : ∀ a ∈ as, p a) (has' : ∀ a ∈ as', p a)
    (hbs : ∀ b ∈ bs.head?, ¬p b) (hbs' : ∀ b ∈ bs'.head?, ¬p b) : as = as' ∧ bs = bs' := by
  induction as generalizing as' with
  | nil =>
    cases as' with
    | nil => exact ⟨rfl, h⟩
    | cons a' as' =>
      rw [List.nil_append, List.cons_append] at h
      exact absurd (has' a' List.mem_cons_self) (hbs a' (by rw [h]; rfl))
  | cons a as ih =>
    cases as' with
    | nil =>
      rw [List.nil_append, List.cons_append] at h
      exact absurd (has a List.mem_cons_self) (hbs' a (by rw [← h]; rfl))
    | cons a' as' =>
      obtain ⟨rfl, hrest⟩ := List.cons.inj h
      obtain ⟨rfl, hbs⟩ := ih hrest (List.forall_mem_cons.mp has).2
        (List.forall_mem_cons.mp has').2
      exact ⟨rfl, hbs⟩

/-- A text is cut at the first place where a character stands. -/
theorem append_cons_inj_left (h : xs ++ c :: ys = xs' ++ c :: ys') (hxs : c ∉ xs)
    (hxs' : c ∉ xs') : xs = xs' ∧ ys = ys' := by
  have hhead : ∀ zs : List Char, ∀ b ∈ (c :: zs).head?, ¬b ≠ c := by
    rintro zs b ⟨⟩ hne
    exact hne rfl
  obtain ⟨hxs, hcons⟩ := append_inj_of_head h (p := (· ≠ c))
    (fun a ha hac => hxs (hac ▸ ha)) (fun a ha hac => hxs' (hac ▸ ha)) (hhead ys) (hhead ys')
  exact ⟨hxs, (List.cons.inj hcons).2⟩

/-! ## Lists in a headline -/

variable {es es' : List (List Char)}

/-- Behind the last entry there is no comma, but there might as well be one. -/
theorem intercalate_append_comma (hne : es ≠ []) :
    [',', ' '].intercalate es ++ [',', ' '] = es.flatMap (· ++ [',', ' ']) := by
  induction es with
  | nil => exact absurd rfl hne
  | cons e es ih =>
    cases es with
    | nil => simp
    | cons f es =>
      rw [List.intercalate_cons_cons, List.append_assoc, ih (List.cons_ne_nil f es)]
      rfl

theorem intercalate_ne_nil (hes : ∀ e ∈ es, IsSolid e) (hne : es ≠ []) :
    [',', ' '].intercalate es ≠ [] := by
  obtain ⟨e, es, rfl⟩ := List.exists_cons_of_ne_nil hne
  have he := (hes e List.mem_cons_self).1
  cases es with
  | nil => rwa [List.intercalate_singleton]
  | cons f es =>
    rw [List.intercalate_cons_cons, List.append_assoc]
    exact List.append_ne_nil_of_left_ne_nil he _

/-- Entries may contain commas, even at their end, but no blanks, so that each of them goes on
up to the comma before the next blank. -/
theorem flatMap_comma_inj (hes : ∀ e ∈ es, IsSolid e) (hes' : ∀ e ∈ es', IsSolid e)
    (h : es.flatMap (· ++ [',', ' ']) = es'.flatMap (· ++ [',', ' '])) : es = es' := by
  induction es generalizing es' with
  | nil =>
    cases es' with
    | nil => rfl
    | cons e' es' => simp at h
  | cons e es ih =>
    cases es' with
    | nil => simp at h
    | cons e' es' =>
      rw [List.forall_mem_cons] at hes hes'
      -- An entry and its comma have no blank, so the first blank is the one behind them.
      have hsplit : (e ++ [',']) ++ ' ' :: es.flatMap (· ++ [',', ' ']) =
          (e' ++ [',']) ++ ' ' :: es'.flatMap (· ++ [',', ' ']) := by
        simpa using h
      have hcomma : IsSolid [','] := by decide
      obtain ⟨hentry, hrest⟩ := append_cons_inj_left hsplit
        ((hes.1.append hcomma).notMem rfl) ((hes'.1.append hcomma).notMem rfl)
      rw [List.append_cancel_right hentry, ih hes.2 hes'.2 hrest]

theorem intercalate_inj (hes : ∀ e ∈ es, IsSolid e) (hes' : ∀ e ∈ es', IsSolid e)
    (h : [',', ' '].intercalate es = [',', ' '].intercalate es') : es = es' := by
  by_cases hnil : es = []
  · by_cases hnil' : es' = []
    · rw [hnil, hnil']
    · exact absurd (by rw [← h, hnil]; rfl) (intercalate_ne_nil hes' hnil')
  · by_cases hnil' : es' = []
    · exact absurd (by rw [h, hnil']; rfl) (intercalate_ne_nil hes hnil)
    · apply flatMap_comma_inj hes hes'
      rw [← intercalate_append_comma hnil, ← intercalate_append_comma hnil', h]

theorem IsSpaced.intercalate (hes : ∀ e ∈ es, IsSpaced e) :
    IsSpaced ([',', ' '].intercalate es) := by
  by_cases hnil : es = []
  · rw [hnil]
    exact nofun
  · have hflatMap : IsSpaced (es.flatMap (· ++ [',', ' '])) := by
      intro c hc
      obtain ⟨e, he, hmem⟩ := List.mem_flatMap.mp hc
      exact (hes e he).append (by decide) c hmem
    rw [← intercalate_append_comma hnil] at hflatMap
    exact (List.forall_mem_append.mp hflatMap).1

/-- The name stands before the first bracket, and the last one closes the list. -/
def applied (name : String) (entries : List String) : String :=
  name ++ "(" ++ ", ".intercalate entries ++ ")"

theorem toList_applied (name : String) (entries : List String) :
    (applied name entries).toList =
      name.toList ++ '(' :: ([',', ' '].intercalate (entries.map String.toList) ++ [')']) := by
  rw [applied, String.toList_append, String.toList_append, String.toList_append,
    String.toList_intercalate, List.append_assoc, List.append_assoc]
  rfl

variable {name name' : String} {entries entries' : List String}

theorem isSpaced_applied (hname : IsSpaced name.toList)
    (hentries : ∀ e ∈ entries, IsSolid e.toList) : IsSpaced (applied name entries).toList := by
  rw [toList_applied]
  have hlist : IsSpaced ([',', ' '].intercalate (entries.map String.toList)) :=
    IsSpaced.intercalate (List.forall_mem_map.mpr fun e he => (hentries e he).isSpaced)
  have hbracket : IsSpaced ['('] := by decide
  exact hname.append (hbracket.append (hlist.append (by decide)))

theorem applied_inj (hentries : ∀ e ∈ entries, IsSolid e.toList)
    (hentries' : ∀ e ∈ entries', IsSolid e.toList) (hname : '(' ∉ name.toList)
    (hname' : '(' ∉ name'.toList) (h : applied name entries = applied name' entries') :
    name = name' ∧ entries = entries' := by
  have hchars := congrArg String.toList h
  rw [toList_applied, toList_applied] at hchars
  obtain ⟨hsame, hrest⟩ := append_cons_inj_left hchars hname hname'
  have hlists := intercalate_inj (List.forall_mem_map.mpr hentries)
    (List.forall_mem_map.mpr hentries') (List.append_cancel_right hrest)
  exact ⟨String.toList_inj.mp hsame,
    (List.map_inj_right fun _ _ => String.toList_inj.mp).mp hlists⟩

/-! ## Values and parameters -/

theorem IsName.isSolid (h : IsName name) : IsSolid name.toList := h.1.isSolid

theorem IsName.notMem_colon (h : IsName name) : ':' ∉ name.toList := by
  intro hmem
  exact absurd (List.all_eq_true.mp h.1.2 ':' hmem) (by decide)

namespace Value

variable {v w : Value}

theorem outline_eq_spelling (v : Value) : v.outline = v.token.spelling := by
  cases v with
  | text word => rfl
  | number value => rfl

theorem Writable.isSolid (h : v.Writable) : IsSolid v.outline.toList := by
  cases v with
  | text word => exact IsName.isSolid h
  | number value =>
    rw [outline, Numeral.text, String.toList_ofList]
    exact (Numeral.isWord_write value).isSolid

theorem token_inj (h : v.token = w.token) : v = w := by
  cases v with
  | text word =>
    cases w with
    | text word' => rw [Token.text.inj h]
    | number value' => cases h
  | number value =>
    cases w with
    | text word' => cases h
    | number value' => rw [Token.number.inj h]

/-- A word that looks like a number is one. -/
theorem eq_of_outline_eq (hv : v.Writable) (hw : w.Writable) (h : v.outline = w.outline) :
    v = w := by
  rw [outline_eq_spelling, outline_eq_spelling] at h
  have htoken : Except.ok (ε := Numeral.TooLong) v.token = .ok w.token := by
    rw [← hv.wellFormed.ofWord_spelling, ← hw.wellFormed.ofWord_spelling, h]
  exact token_inj (Except.ok.inj htoken)

end Value

namespace Param

variable {p q : Param}

theorem isSolid_outline (hp : IsName p.name) : IsSolid p.outline.toList := by
  rw [outline, String.toList_append, String.toList_append]
  exact (hp.isSolid.append (by decide)).append (isName_paramType p.type).isSolid

theorem eq_of_outline_eq (hp : IsName p.name) (hq : IsName q.name)
    (h : p.outline = q.outline) : p = q := by
  have hchars := congrArg String.toList h
  rw [outline, outline, String.toList_append, String.toList_append, String.toList_append,
    String.toList_append, List.append_assoc, List.append_assoc] at hchars
  obtain ⟨hname, htype⟩ := append_cons_inj_left hchars hp.notMem_colon hq.notMem_colon
  have hkeyword : ParamType.ofKeyword? p.type.keyword = some q.type :=
    ParamType.ofKeyword?_eq_some_iff.mpr (String.toList_inj.mp htype)
  rw [ParamType.ofKeyword?_eq_some_iff.mpr rfl] at hkeyword
  exact Param.ext (String.toList_inj.mp hname) (Option.some.inj hkeyword)

end Param

/-- What `f` tells of entries, taken one by one, it tells of a list of them. -/
theorem map_eq_of_map_eq {f : α → β} {g : α → γ} {as bs : List α}
    (hf : ∀ a ∈ as, ∀ b ∈ bs, f a = f b → g a = g b) (h : as.map f = bs.map f) :
    as.map g = bs.map g := by
  induction as generalizing bs with
  | nil => rw [List.map_eq_nil_iff.mp h.symm]
  | cons a as ih =>
    cases bs with
    | nil => cases h
    | cons b bs =>
      obtain ⟨hhead, htail⟩ := List.cons.inj h
      rw [List.map_cons, List.map_cons, hf a List.mem_cons_self b List.mem_cons_self hhead,
        ih ?_ htail]
      intro a' ha' b' hb'
      exact hf a' (List.mem_cons_of_mem a ha') b' (List.mem_cons_of_mem b hb')

theorem eq_of_map_eq {f : α → β} {as bs : List α}
    (hf : ∀ a ∈ as, ∀ b ∈ bs, f a = f b → a = b) (h : as.map f = bs.map f) : as = bs := by
  have hid := map_eq_of_map_eq (g := id) hf h
  rwa [List.map_id, List.map_id] at hid

/-! ## Headlines -/

namespace Item

/-- The word that says what kind of part it is. -/
def opening : Item → String
  | definition _ => "Function:"
  | statement (.loop ..) => "Repeat"
  | statement (.jez ..) => "Jez"
  | statement (.incr ..) => "Incr"
  | statement (.decr ..) => "Decr"
  | statement (.call ..) => "Call"

def details : Item → String
  | definition d => applied d.name (d.params.map Param.outline)
  | statement (.loop count _) => count.outline
  | statement (.jez register label) => register.name ++ " -> " ++ label.name
  | statement (.incr register) => register.name
  | statement (.decr register) => register.name
  | statement (.call name args) => applied name (args.map Value.outline)

/-- The line that tells of a part, apart from the parts inside. -/
def headline : Item → String
  | definition d =>
    "Function: " ++ d.name ++ "(" ++ ", ".intercalate (d.params.map Param.outline) ++ ")"
  | statement (.loop count _) => "Repeat " ++ count.outline
  | statement (.jez register label) => "Jez " ++ register.name ++ " -> " ++ label.name
  | statement (.incr register) => "Incr " ++ register.name
  | statement (.decr register) => "Decr " ++ register.name
  | statement (.call name args) =>
    "Call " ++ name ++ "(" ++ ", ".intercalate (args.map Value.outline) ++ ")"

theorem headline_eq (i : Item) : i.headline = i.opening ++ " " ++ i.details := by
  cases i with
  | definition d =>
    simp only [headline, opening, details, applied, String.append_assoc]
    rfl
  | statement s =>
    cases s with
    | loop count body => rfl
    | jez register label =>
      simp only [headline, opening, details, String.append_assoc]
      rfl
    | incr register => rfl
    | decr register => rfl
    | call name args =>
      simp only [headline, opening, details, applied, String.append_assoc]
      rfl

/-- The parts that lie directly inside. -/
def parts : Item → List Item
  | definition d => d.body.map statement
  | statement (.loop _ body) => body.map statement
  | statement _ => []

/-- The name of the function that is defined or called. -/
def functionName? : Item → Option String
  | definition d => some d.name
  | statement (.call name _) => some name
  | statement _ => none

variable {i j : Item}

theorem isSolid_opening (i : Item) : IsSolid i.opening.toList := by
  cases i with
  | definition d => exact (by decide : IsSolid "Function:".toList)
  | statement s =>
    cases s with
    | loop count body => exact (by decide : IsSolid "Repeat".toList)
    | jez register label => exact (by decide : IsSolid "Jez".toList)
    | incr register => exact (by decide : IsSolid "Incr".toList)
    | decr register => exact (by decide : IsSolid "Decr".toList)
    | call name args => exact (by decide : IsSolid "Call".toList)

theorem toList_headline (i : Item) :
    i.headline.toList = i.opening.toList ++ ' ' :: i.details.toList := by
  rw [headline_eq, String.toList_append, String.toList_append, List.append_assoc]
  rfl

theorem head?_headline (i : Item) : ∀ c ∈ i.headline.toList.head?, c ≠ ' ' := by
  intro c hc
  obtain ⟨a, cs, hcs⟩ := List.exists_cons_of_ne_nil (isSolid_opening i).1
  rw [toList_headline, hcs, List.cons_append, List.head?_cons] at hc
  obtain rfl : a = c := Option.some.inj hc
  rintro rfl
  exact (isSolid_opening i).notMem rfl (by rw [hcs]; exact List.mem_cons_self)

theorem isSpaced_details (hi : i.Writable) : IsSpaced i.details.toList := by
  cases i with
  | definition d =>
    exact isSpaced_applied hi.1.isSolid.isSpaced
      (List.forall_mem_map.mpr fun p hp => Param.isSolid_outline (hi.2.1 p hp))
  | statement s =>
    cases s with
    | loop count body => exact hi.1.isSolid.isSpaced
    | jez register label =>
      rw [details, String.toList_append, String.toList_append]
      exact (hi.1.isSolid.isSpaced.append (by decide)).append hi.2.isSolid.isSpaced
    | incr register => exact IsName.isSolid hi |>.isSpaced
    | decr register => exact IsName.isSolid hi |>.isSpaced
    | call name args =>
      exact isSpaced_applied hi.1.isSolid.isSpaced
        (List.forall_mem_map.mpr fun v hv => (hi.2 v hv).isSolid)

theorem isSpaced_headline (hi : i.Writable) : IsSpaced i.headline.toList := by
  rw [toList_headline]
  have hblank : IsSpaced [' '] := by decide
  exact (isSolid_opening i).isSpaced.append (hblank.append (isSpaced_details hi))

theorem headline_inj (h : i.headline = j.headline) :
    i.opening = j.opening ∧ i.details = j.details := by
  have hchars := congrArg String.toList h
  rw [toList_headline, toList_headline] at hchars
  obtain ⟨hopening, hdetails⟩ := append_cons_inj_left hchars
    ((isSolid_opening i).notMem rfl) ((isSolid_opening j).notMem rfl)
  exact ⟨String.toList_inj.mp hopening, String.toList_inj.mp hdetails⟩

theorem parts_inj {body body' : List Statement} (h : body.map statement = body'.map statement) :
    body = body' :=
  (List.map_inj_right fun _ _ => statement.inj).mp h

/-- No name in the part contains a bracket that opens a list. -/
def IsPlain (i : Item) : Prop := ∀ name ∈ i.functionName?, '(' ∉ name.toList

theorem eq_of_headline_eq_definition {d e : Definition} (hd : d.Writable) (he : e.Writable)
    (hplaind : IsPlain (.definition d)) (hplaine : IsPlain (.definition e))
    (hdetails : (definition d).details = (definition e).details)
    (hparts : (definition d).parts = (definition e).parts) : d = e := by
  obtain ⟨hname, hparams⟩ := applied_inj
    (List.forall_mem_map.mpr fun p hp => Param.isSolid_outline (hd.2.1 p hp))
    (List.forall_mem_map.mpr fun p hp => Param.isSolid_outline (he.2.1 p hp))
    (hplaind d.name rfl) (hplaine e.name rfl) hdetails
  have hparams := eq_of_map_eq
    (fun p hp q hq => Param.eq_of_outline_eq (hd.2.1 p hp) (he.2.1 q hq)) hparams
  exact Definition.ext hname hparams (parts_inj hparts)

theorem eq_of_headline_eq_call {name name' : String} {args args' : List Value}
    (hs : (Statement.call name args).Writable) (hs' : (Statement.call name' args').Writable)
    (hplain : IsPlain (.statement (.call name args)))
    (hplain' : IsPlain (.statement (.call name' args')))
    (hdetails : (statement (.call name args)).details = (statement (.call name' args')).details) :
    Statement.call name args = .call name' args' := by
  obtain ⟨hname, hargs⟩ := applied_inj
    (List.forall_mem_map.mpr fun v hv => (hs.2 v hv).isSolid)
    (List.forall_mem_map.mpr fun v hv => (hs'.2 v hv).isSolid)
    (hplain name rfl) (hplain' name' rfl) hdetails
  rw [hname, eq_of_map_eq
    (fun v hv w hw => Value.eq_of_outline_eq (hs.2 v hv) (hs'.2 w hw)) hargs]

theorem eq_of_headline_eq_jez {r r' : Register} {l l' : Label} (hr : IsName r.name)
    (hr' : IsName r'.name)
    (hdetails : (statement (.jez r l)).details = (statement (.jez r' l')).details) :
    Statement.jez r l = .jez r' l' := by
  have hchars := congrArg String.toList hdetails
  rw [details, details, String.toList_append, String.toList_append, String.toList_append,
    String.toList_append, List.append_assoc, List.append_assoc] at hchars
  obtain ⟨hregister, harrow⟩ := append_cons_inj_left hchars
    (hr.isSolid.notMem rfl) (hr'.isSolid.notMem rfl)
  have hlabel : l.name.toList = l'.name.toList :=
    (List.append_right_inj ['-', '>', ' ']).mp harrow
  rw [Register.ext (String.toList_inj.mp hregister), Label.ext (String.toList_inj.mp hlabel)]

/-- The headline and the parts inside are all of a part. -/
theorem eq_of_headline_eq (hi : i.Writable) (hj : j.Writable) (hplaini : i.IsPlain)
    (hplainj : j.IsPlain) (h : i.headline = j.headline) (hparts : i.parts = j.parts) :
    i = j := by
  obtain ⟨hopening, hdetails⟩ := headline_inj h
  cases i with
  | definition d =>
    cases j with
    | definition e =>
      rw [eq_of_headline_eq_definition hi hj hplaini hplainj hdetails hparts]
    | statement t => cases t <;> simp [opening] at hopening
  | statement s =>
    cases j with
    | definition e => cases s <;> simp [opening] at hopening
    | statement t =>
      rw [statement.injEq]
      cases s with
      | loop count body =>
        cases t with
        | loop count' body' =>
          rw [Value.eq_of_outline_eq hi.1 hj.1 hdetails, parts_inj hparts]
        | jez | incr | decr | call => simp [opening] at hopening
      | jez r l =>
        cases t with
        | jez r' l' => exact eq_of_headline_eq_jez hi.1 hj.1 hdetails
        | loop | incr | decr | call => simp [opening] at hopening
      | incr r =>
        cases t with
        | incr r' => rw [Register.ext hdetails]
        | loop | jez | decr | call => simp [opening] at hopening
      | decr r =>
        cases t with
        | decr r' => rw [Register.ext hdetails]
        | loop | jez | incr | call => simp [opening] at hopening
      | call name args =>
        cases t with
        | call name' args' => exact eq_of_headline_eq_call hi hj hplaini hplainj hdetails
        | loop | jez | incr | decr => simp [opening] at hopening

/-- With a bracket in a name, the line does not tell where the list begins. -/
example : (statement (.call "f(a" [.text "b"])).headline =
    (statement (.call "f" [.text "a(b"])).headline := by rfl


end Item

end CounterLang
