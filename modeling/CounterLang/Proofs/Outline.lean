/-
The outline of a program, and what can be told from it.

A visit is a part of a program together with the parts around it.  The outline is one line for
the program and then one for each visit: definitions before statements, a part before the parts
inside of it, and as many levels in as there are parts around it.

From the outline of a program that a text spells, the program can be told, unless a function
has a bracket in its name that opens a list.  Blanks at the start of a line are its level,
because no headline starts with one.  Behind a headline, the lines that are further in belong
to the parts inside, up to the first line that is not further in.  What carries the induction on
parts is that a headline and the parts inside are all of a part.  The theorem this file exists for
is `Program.outlineText_determines`.
-/
import CounterLang.Proofs.Headline
import CounterLang.Proofs.Readable

namespace CounterLang

/-! ## Parts inside of parts -/

section

variable {P : Item → Prop}

mutual

theorem Statement.parts_induction (h : ∀ i : Item, (∀ j ∈ i.parts, P j) → P i) (s : Statement) :
    P (.statement s) := by
  cases s with
  | loop count body => exact h _ (List.forall_mem_map.mpr (Statement.parts_inductionAll h body))
  | jez register label => exact h _ nofun
  | incr register => exact h _ nofun
  | decr register => exact h _ nofun
  | call name args => exact h _ nofun

theorem Statement.parts_inductionAll (h : ∀ i : Item, (∀ j ∈ i.parts, P j) → P i)
    (body : List Statement) : ∀ s ∈ body, P (.statement s) := by
  cases body with
  | nil => exact List.forall_mem_nil _
  | cons s rest =>
    exact List.forall_mem_cons.mpr
      ⟨Statement.parts_induction h s, Statement.parts_inductionAll h rest⟩

end

/-- What holds of a part because it holds of the parts inside holds of all parts. -/
theorem Item.parts_induction (step : ∀ i : Item, (∀ j ∈ i.parts, P j) → P i) (i : Item) : P i := by
  cases i with
  | definition d =>
    exact step _ (List.forall_mem_map.mpr (Statement.parts_inductionAll step d.body))
  | statement s => exact Statement.parts_induction step s

end

/-! ## Visits -/

/-- A part of a program and the parts that it lies inside of, the innermost first. -/
structure Visit where
  around : List Item
  part : Item

namespace Visit

/-- A part that lies in no other is one level in. -/
def line (v : Visit) : String := indented (v.around.length + 1) v.part.headline

end Visit

namespace Statement

mutual

def visits (around : List Item) : Statement → List Visit
  | loop count body =>
    ⟨around, .statement (.loop count body)⟩ ::
      visitsAll (.statement (.loop count body) :: around) body
  | jez register label => [⟨around, .statement (.jez register label)⟩]
  | incr register => [⟨around, .statement (.incr register)⟩]
  | decr register => [⟨around, .statement (.decr register)⟩]
  | call name args => [⟨around, .statement (.call name args)⟩]

def visitsAll (around : List Item) : List Statement → List Visit
  | [] => []
  | s :: rest => visits around s ++ visitsAll around rest

end

theorem visitsAll_eq_flatMap (around : List Item) (body : List Statement) :
    visitsAll around body = body.flatMap (visits around) := by
  induction body with
  | nil => rfl
  | cons s rest ih => rw [visitsAll, ih, List.flatMap_cons]

end Statement

/-- A part is visited before the parts inside. -/
def Item.visits (around : List Item) : Item → List Visit
  | definition d => ⟨around, .definition d⟩ :: Statement.visitsAll (.definition d :: around) d.body
  | statement s => s.visits around

theorem Item.visits_eq (around : List Item) (i : Item) :
    i.visits around = ⟨around, i⟩ :: i.parts.flatMap (Item.visits (i :: around)) := by
  cases i with
  | definition d =>
    rw [visits, Statement.visitsAll_eq_flatMap, parts, List.flatMap_map]
    rfl
  | statement s =>
    cases s with
    | loop count body =>
      rw [visits, Statement.visits, Statement.visitsAll_eq_flatMap, parts, List.flatMap_map]
      rfl
    | jez register label => rfl
    | incr register => rfl
    | decr register => rfl
    | call name args => rfl

namespace Program

def visits (p : Program) : List Visit := p.items.flatMap (Item.visits [])

/-- The program has this part, inside of these. -/
inductive Holds (p : Program) : List Item → Item → Prop
  | item {i : Item} (h : i ∈ p.items) : Holds p [] i
  | part {around : List Item} {i j : Item} (h : Holds p around i) (hj : j ∈ i.parts) :
      Holds p (i :: around) j

/-- The names of the functions that are defined or called, at whatever level. -/
def functionNames (p : Program) : List String :=
  p.visits.filterMap fun v => v.part.functionName?

end Program

variable {p q : Program} {i j : Item} {around around' : List Item} {v : Visit}

theorem Item.mem_visits_iff :
    v ∈ i.visits around ↔ v = ⟨around, i⟩ ∨ ∃ j ∈ i.parts, v ∈ j.visits (i :: around) := by
  rw [Item.visits_eq, List.mem_cons, List.mem_flatMap]

theorem Item.self_mem_visits (around : List Item) (i : Item) : ⟨around, i⟩ ∈ i.visits around :=
  Item.mem_visits_iff.mpr (Or.inl rfl)

theorem Item.length_around_le (hv : v ∈ i.visits around) : around.length ≤ v.around.length := by
  induction i using Item.parts_induction generalizing around with
  | step i ih =>
    rcases Item.mem_visits_iff.mp hv with rfl | ⟨j, hj, hv⟩
    · exact Nat.le_refl _
    · exact Nat.le_of_succ_le (ih j hj hv)

/-- Where a part is visited, so are the parts inside. -/
theorem Item.mem_visits_of_mem_parts (hv : v ∈ i.visits around) (hj : j ∈ v.part.parts) :
    ⟨v.part :: v.around, j⟩ ∈ i.visits around := by
  induction i using Item.parts_induction generalizing around with
  | step i ih =>
    rw [Item.mem_visits_iff]
    right
    rcases Item.mem_visits_iff.mp hv with rfl | ⟨k, hk, hv⟩
    · exact ⟨j, hj, Item.self_mem_visits _ j⟩
    · exact ⟨k, hk, ih k hk hv⟩

theorem Program.Holds.of_mem_visits (h : p.Holds around i) (hv : v ∈ i.visits around) :
    p.Holds v.around v.part := by
  induction i using Item.parts_induction generalizing around with
  | step i ih =>
    rcases Item.mem_visits_iff.mp hv with rfl | ⟨j, hj, hv⟩
    · exact h
    · exact ih j hj (h.part hj) hv

theorem Program.Holds.mem_visits (h : p.Holds around i) : ⟨around, i⟩ ∈ p.visits := by
  rw [visits, List.mem_flatMap]
  induction h with
  | @item i hi => exact ⟨i, hi, Item.self_mem_visits [] i⟩
  | part _ hj ih =>
    obtain ⟨i, hi, hv⟩ := ih
    exact ⟨i, hi, Item.mem_visits_of_mem_parts hv hj⟩

/-- Every part is visited where it lies, and nothing else is. -/
theorem Program.mem_visits_iff : v ∈ p.visits ↔ p.Holds v.around v.part := by
  constructor
  · intro hv
    rw [visits, List.mem_flatMap] at hv
    obtain ⟨i, hi, hv⟩ := hv
    exact (Holds.item hi).of_mem_visits hv
  · exact Holds.mem_visits

/-! ## One line for each visit -/

namespace Statement

mutual

theorem outline_eq_visits (s : Statement) (around : List Item) :
    s.outline (around.length + 1) = (s.visits around).map Visit.line := by
  cases s with
  | loop count body =>
    rw [outline, visits, List.map_cons, ← outlineAll_eq_visits]
    rfl
  | jez register label => rfl
  | incr register => rfl
  | decr register => rfl
  | call name args => rfl

theorem outlineAll_eq_visits (body : List Statement) (around : List Item) :
    outlineAll (around.length + 1) body = (visitsAll around body).map Visit.line := by
  cases body with
  | nil => rfl
  | cons s rest =>
    rw [outlineAll, visitsAll, List.map_append, ← outline_eq_visits, ← outlineAll_eq_visits]

end

end Statement

namespace Program

theorem outline_eq_visits (p : Program) :
    p.outline = "Program" :: p.visits.map Visit.line := by
  have hdefinition : Definition.outline 1 =
      fun d => (Item.visits [] (.definition d)).map Visit.line := by
    funext d
    rw [Definition.outline, Item.visits, List.map_cons, ← Statement.outlineAll_eq_visits]
    rfl
  have hstatements := Statement.outlineAll_eq_visits p.statements []
  rw [Statement.visitsAll_eq_flatMap] at hstatements
  rw [outline, visits, items, List.flatMap_append, List.map_append, List.flatMap_map,
    List.flatMap_map, List.map_flatMap, hdefinition]
  exact congrArg (fun lines => "Program" :: (_ ++ lines)) hstatements

end Program

/-! ## From lines to levels -/

/-- What is told of a visit: its level and its headline. -/
def Visit.row (v : Visit) : Nat × String := (v.around.length, v.part.headline)

theorem toList_indented (depth : Nat) (line : String) :
    (indented depth line).toList = List.replicate (2 * depth) ' ' ++ line.toList := by
  rw [indented, String.toList_append, String.toList_ofList]

theorem indented_inj {m n : Nat} {line line' : String} (h : indented m line = indented n line')
    (hline : ∀ c ∈ line.toList.head?, c ≠ ' ') (hline' : ∀ c ∈ line'.toList.head?, c ≠ ' ') :
    m = n ∧ line = line' := by
  have hchars := congrArg String.toList h
  rw [toList_indented, toList_indented] at hchars
  obtain ⟨hblanks, hline⟩ := append_inj_of_head (p := (· = ' ')) hchars
    (fun _ => List.eq_of_mem_replicate) (fun _ => List.eq_of_mem_replicate) hline hline'
  have hlength := congrArg List.length hblanks
  rw [List.length_replicate, List.length_replicate] at hlength
  exact ⟨by omega, String.toList_inj.mp hline⟩

theorem Visit.row_eq_of_line_eq {v w : Visit} (h : v.line = w.line) : v.row = w.row := by
  obtain ⟨hdepth, hheadline⟩ := indented_inj h (Item.head?_headline _) (Item.head?_headline _)
  rw [Visit.row, Visit.row, hheadline, Nat.succ.inj hdepth]

/-! ## From levels to parts -/

/-- What is told of all visits of these parts. -/
def rowsOf (around is : List Item) : List (Nat × String) :=
  (is.flatMap (Item.visits around)).map Visit.row

variable {is js : List Item}

theorem rowsOf_cons (around : List Item) (i : Item) (is : List Item) :
    rowsOf around (i :: is) =
      (around.length, i.headline) :: (rowsOf (i :: around) i.parts ++ rowsOf around is) := by
  rw [rowsOf, List.flatMap_cons, Item.visits_eq, List.map_append, List.map_cons,
    List.cons_append]
  rfl

theorem length_around_le_of_mem_rowsOf {r : Nat × String} (hr : r ∈ rowsOf around is) :
    around.length ≤ r.1 := by
  obtain ⟨v, hv, rfl⟩ := List.mem_map.mp hr
  obtain ⟨i, _, hv⟩ := List.mem_flatMap.mp hv
  exact Item.length_around_le hv

theorem head?_rowsOf (around is : List Item) :
    ∀ r ∈ (rowsOf around is).head?, r.1 = around.length := by
  intro r hr
  cases is with
  | nil => cases hr
  | cons i is =>
    rw [rowsOf_cons, List.head?_cons] at hr
    rw [← Option.some.inj hr]

/-- The rows of the parts inside are those that are further in than the headline. -/
theorem rowsOf_cons_inj (hlength : around.length = around'.length)
    (h : rowsOf around (i :: is) = rowsOf around' (j :: js)) :
    i.headline = j.headline ∧ rowsOf (i :: around) i.parts = rowsOf (j :: around') j.parts ∧
      rowsOf around is = rowsOf around' js := by
  rw [rowsOf_cons, rowsOf_cons] at h
  obtain ⟨hrow, hrest⟩ := List.cons.inj h
  -- The cut is where the level falls back: all rows inside are further in than the headline,
  -- and the first one behind them is not.
  have hinside : ∀ (around : List Item) (i : Item),
      ∀ r ∈ rowsOf (i :: around) i.parts, around.length < r.1 :=
    fun around i r => length_around_le_of_mem_rowsOf
  have hbehind : ∀ around is : List Item, ∀ r ∈ (rowsOf around is).head?,
      ¬around.length < r.1 := by
    intro around is r hr
    rw [head?_rowsOf around is r hr]
    exact Nat.lt_irrefl _
  have hsplit := append_inj_of_head (p := fun r => around.length < r.1) hrest
    (hinside around i) (hlength ▸ hinside around' j) (hbehind around is)
    (hlength ▸ hbehind around' js)
  exact ⟨congrArg Prod.snd hrow, hsplit⟩

/-- A part that can be told from its headline, with all that lies inside of it. -/
inductive Item.Legible : Item → Prop
  | intro {i : Item} (hwritable : i.Writable) (hplain : i.IsPlain)
      (hparts : ∀ j ∈ i.parts, Legible j) : Legible i

/-- The part is the only legible one with its headline and with the rows of its parts. -/
def Item.Told (i : Item) : Prop :=
  ∀ {around around' : List Item} {j : Item}, around.length = around'.length → j.Legible →
    i.headline = j.headline → rowsOf (i :: around) i.parts = rowsOf (j :: around') j.parts →
      i = j

theorem eq_of_rowsOf_eq (his : ∀ i ∈ is, i.Told) (hjs : ∀ j ∈ js, j.Legible)
    (hlength : around.length = around'.length) (h : rowsOf around is = rowsOf around' js) :
    is = js := by
  induction is generalizing js with
  | nil =>
    cases js with
    | nil => rfl
    | cons j js =>
      rw [rowsOf_cons] at h
      cases h
  | cons i is ih =>
    cases js with
    | nil =>
      rw [rowsOf_cons] at h
      cases h
    | cons j js =>
      obtain ⟨hheadline, hinside, hbehind⟩ := rowsOf_cons_inj hlength h
      rw [List.forall_mem_cons] at his hjs
      rw [his.1 hlength hjs.1 hheadline hinside, ih his.2 hjs.2 hbehind]

theorem Item.Legible.told (hi : i.Legible) : i.Told := by
  induction hi with
  | @intro i hwritable hplain _ ih =>
    intro around around' j hlength hj hheadline hinside
    obtain ⟨hwritable', hplain', hparts'⟩ := hj
    have hlength' : (i :: around).length = (j :: around').length := congrArg Nat.succ hlength
    have hparts := eq_of_rowsOf_eq ih hparts' hlength' hinside
    exact Item.eq_of_headline_eq hwritable hwritable' hplain hplain' hheadline hparts

namespace Program

theorem legible_of_holds (h : ∀ around i, p.Holds around i → i.Writable ∧ i.IsPlain)
    (hi : p.Holds around i) : i.Legible := by
  induction i using Item.parts_induction generalizing around with
  | step i ih =>
    obtain ⟨hwritable, hplain⟩ := h around i hi
    exact ⟨hwritable, hplain, fun j hj => ih j hj (hi.part hj)⟩

theorem visits_inj (hp : ∀ i ∈ p.items, i.Legible) (hq : ∀ i ∈ q.items, i.Legible)
    (h : p.visits.map Visit.row = q.visits.map Visit.row) : p = q := by
  have hitems := eq_of_rowsOf_eq (fun i hi => (hp i hi).told) hq rfl h
  rw [← ofItems_items p, hitems, ofItems_items q]

end Program

/-! ## Programs that a text spells -/

theorem Statement.WritableAll.of_mem {body : List Statement} (h : Statement.WritableAll body) :
    ∀ s ∈ body, s.Writable := by
  induction body with
  | nil => exact List.forall_mem_nil _
  | cons s rest ih => exact List.forall_mem_cons.mpr ⟨h.1, ih h.2⟩

namespace Item

theorem Writable.of_mem_parts (hi : i.Writable) (hj : j ∈ i.parts) : j.Writable := by
  cases i with
  | definition d =>
    obtain ⟨s, hs, rfl⟩ := List.mem_map.mp hj
    exact hi.2.2.of_mem s hs
  | statement s =>
    cases s with
    | loop count body =>
      obtain ⟨s, hs, rfl⟩ := List.mem_map.mp hj
      exact hi.2.of_mem s hs
    | jez | incr | decr | call => cases hj

end Item

namespace Program

theorem Readable.writable (h : p.Readable) (hi : p.Holds around i) : i.Writable := by
  induction hi with
  | item hi => exact (readable_iff.mp h _ hi).1
  | part _ hj ih => exact ih.of_mem_parts hj

/-! ## From text to lines -/

theorem Readable.notMem_newline (h : p.Readable) : ∀ line ∈ p.outline, '\n' ∉ line.toList := by
  rw [outline_eq_visits]
  refine List.forall_mem_cons.mpr ⟨by decide, List.forall_mem_map.mpr fun v hv => ?_⟩
  have hspaced : IsSpaced v.line.toList := by
    rw [Visit.line, toList_indented]
    refine IsSpaced.append ?_ (Item.isSpaced_headline (h.writable (mem_visits_iff.mp hv)))
    intro c hc _
    exact List.eq_of_mem_replicate hc
  intro hmem
  exact absurd (hspaced _ hmem rfl) (by decide)

theorem Readable.outline_inj (hp : p.Readable) (hq : q.Readable)
    (h : p.outlineText = q.outlineText) : p.outline = q.outline := by
  have hsplit : ∀ {p : Program}, p.Readable →
      p.outlineText.toList.splitOn '\n' = p.outline.map String.toList := by
    intro p hp
    rw [outlineText, String.toList_intercalate]
    exact List.splitOn_intercalate '\n' (List.forall_mem_map.mpr hp.notMem_newline)
      (by rw [outline_eq_visits]; exact List.cons_ne_nil _ _)
  have hlists : p.outline.map String.toList = q.outline.map String.toList := by
    rw [← hsplit hp, ← hsplit hq, h]
  exact (List.map_inj_right fun _ _ => String.toList_inj.mp).mp hlists

theorem Readable.legible (h : p.Readable) (hnames : ∀ name ∈ p.functionNames, '(' ∉ name.toList)
    (hi : p.Holds around i) : i.Legible := by
  refine legible_of_holds (fun around i hi => ⟨h.writable hi, fun name hname => ?_⟩) hi
  exact hnames name (List.mem_filterMap.mpr ⟨⟨around, i⟩, hi.mem_visits, hname⟩)

/-- The outline has a line for each part that the program has, wherever it lies, and if no
function has a bracket in its name, the program is the only one with that outline. -/
theorem outlineText_determines :
    (∀ p : Program, p.Readable →
      p.outlineText = "\n".intercalate ("Program" :: p.visits.map Visit.line) ∧
        (∀ v ∈ p.visits, '\n' ∉ v.line.toList) ∧
        ∀ v : Visit, v ∈ p.visits ↔ p.Holds v.around v.part) ∧
      ∀ p q : Program, p.Readable → q.Readable →
        (∀ name ∈ p.functionNames, '(' ∉ name.toList) →
        (∀ name ∈ q.functionNames, '(' ∉ name.toList) →
        p.outlineText = q.outlineText → p = q := by
  constructor
  · intro p hp
    have hlines := hp.notMem_newline
    rw [outlineText, outline_eq_visits] at *
    exact ⟨rfl, fun v hv => hlines _ (List.mem_cons_of_mem _ (List.mem_map_of_mem hv)),
      fun v => mem_visits_iff⟩
  · intro p q hp hq hpnames hqnames h
    have houtline := hp.outline_inj hq h
    rw [outline_eq_visits, outline_eq_visits] at houtline
    have hrows := map_eq_of_map_eq (g := Visit.row)
      (fun v _ w _ => Visit.row_eq_of_line_eq) (List.cons.inj houtline).2
    exact visits_inj (fun i hi => hp.legible hpnames (.item hi))
      (fun i hi => hq.legible hqnames (.item hi)) hrows

/-- Two texts of one program, with words that look like the outline around them. -/
theorem outlineText_determines_lookalikes :
    let d : Definition :=
      ⟨"f,", [⟨"x", .register⟩], [.loop (.number 1) [.jez ⟨"x"⟩ ⟨"a->b"⟩]]⟩
    let s : Statement := .call "f," [.text "a)", .number 1]
    let p := ofItems [.definition d, .statement s]
    let q := ofItems [.statement s, .definition d]
    tokensOf "DEFINE f, x:REG AS REPEAT +1 JEZ x a->b END END f, a) 01;" =
        .ok (d.tokens ++ s.tokens) ∧
      tokensOf "f, a) 1 ;\nDEFINE f, x : REG AS REPEAT 1\tJEZ x a->b END END" =
        .ok (s.tokens ++ d.tokens) ∧
      p.Readable ∧ q.Readable ∧
      p.outlineText = "\n".intercalate ("Program" :: p.visits.map Visit.line) ∧
      p.outlineText = "Program\n  Function: f,(x:REG)\n    Repeat 1\n      Jez x -> a->b\n" ++
        "  Call f,(a), 1)" ∧
      p = q := by
  intro d s p q
  have htokensp : tokensOf "DEFINE f, x:REG AS REPEAT +1 JEZ x a->b END END f, a) 01;" =
      .ok (d.tokens ++ s.tokens) := rfl
  have htokensq : tokensOf "f, a) 1 ;\nDEFINE f, x : REG AS REPEAT 1\tJEZ x a->b END END" =
      .ok (s.tokens ++ d.tokens) := rfl
  have hp : p.Readable := readable_of_tokensOf htokensp (by decide)
  have hq : q.Readable := readable_of_tokensOf htokensq (by decide)
  have hnames : ∀ name ∈ p.functionNames, '(' ∉ name.toList := by decide
  have hnames' : ∀ name ∈ q.functionNames, '(' ∉ name.toList := by decide
  have houtline : p.outlineText = q.outlineText := rfl
  exact ⟨htokensp, htokensq, hp, hq, (outlineText_determines.1 p hp).1, rfl,
    outlineText_determines.2 p q hp hq hnames hnames' houtline⟩

end Program

end CounterLang
