/-
Ordered choice.

The alternatives of a choice all start from one place, and each has its turn only where those
before it failed in a way that can be backtracked over.  The first one that did not decides: the
choice comes to what that run comes to, and stops where that run stops, whatever the others have
read before they were given up.  So a choice is a search in the list of its alternatives
(`Rule.result_oneOf`), and it obeys the laws of searching lists.  A choice that is itself an
alternative might as well be replaced by its own alternatives (`Rule.oneOf_nested`), and the
order is of no account where no two alternatives could decide (`Rule.result_oneOf_perm`).
-/
import Mathlib.Data.List.Find
import CounterLang.Proofs.Parser

namespace CounterLang

variable {α : Type}

namespace Run

/-- The run can be backtracked over: it ended in a failure that is not committed. -/
def passes (r : Run α) : Bool :=
  match r.outcome with
  | .failure f => !f.committed
  | _ => false

/-- What the run came to, and where it stopped. -/
def result (r : Run α) : Outcome α × Point := (r.outcome, r.point)

variable {r r' : Run α}

theorem passes_eq_true_iff :
    r.passes = true ↔ ∃ f, r.outcome = .failure f ∧ f.committed = false := by
  cases ho : r.outcome <;> simp [passes, ho]

theorem passes_congr (h : r.result = r'.result) : r.passes = r'.passes := by
  have ho : r.outcome = r'.outcome := congrArg Prod.fst h
  rw [passes, passes, ho]

@[simp] theorem result_after (j : Journal) (r : Run α) : (r.after j).result = r.result := rfl

end Run

namespace Parser

variable {p q : Parser α} {t : List Token}

theorem result_orElse (p q : Parser α) (tracing : Bool) (s : Point) :
    (p.orElse q tracing s).result =
      if (p tracing s).passes then (q tracing s).result else (p tracing s).result := by
  cases ho : (p tracing s).outcome with
  | value a => simp [orElse, Run.passes, ho]
  | abort b => simp [orElse, Run.passes, ho]
  | failure f =>
    by_cases hf : f.committed = true
    · simp [orElse, Run.passes, ho, hf]
    · simp [orElse, Run.passes, ho, hf]

theorem Passes.passes (h : Passes p t) (tracing : Bool) (pos : Int) :
    (p tracing ⟨pos, t⟩).passes = true := Run.passes_eq_true_iff.mpr (h tracing pos)

theorem Settles.passes (h : Settles p t) (tracing : Bool) (pos : Int) :
    (p tracing ⟨pos, t⟩).passes = false := by
  rw [Bool.eq_false_iff]
  intro hpasses
  obtain ⟨f, ho, hf⟩ := Run.passes_eq_true_iff.mp hpasses
  rw [h tracing pos f ho] at hf
  cases hf

end Parser

namespace Rule

variable {rules rules' : List (Rule α)} {tracing : Bool} {s : Point}

theorem result_parse (rule : Rule α) (tracing : Bool) (s : Point) :
    (rule.parse tracing s).result = (rule.body tracing s).result := by
  cases tracing <;> rfl

/-- The first of the alternatives that cannot be backtracked over at the place. -/
def deciding? (rules : List (Rule α)) (tracing : Bool) (s : Point) : Option (Rule α) :=
  rules.find? fun rule => !(rule.parse tracing s).passes

theorem result_firstOf (name definition : String) (rules : List (Rule α)) (tracing : Bool)
    (s : Point) :
    (firstOf name definition (rules.map parse) tracing s).result =
      match deciding? rules tracing s with
      | some rule => (rule.parse tracing s).result
      | none => (.failure (failed name definition "no alternative matched" s.position), s) := by
  induction rules with
  | nil => rfl
  | cons rule rules ih =>
    show (rule.parse.orElse (firstOf name definition (rules.map parse)) tracing s).result = _
    rw [Parser.result_orElse, ih, deciding?, deciding?, List.find?_cons]
    cases (rule.parse tracing s).passes <;> rfl

/-- A choice comes to what its deciding alternative comes to. -/
theorem result_oneOf (rules : List (Rule α)) (name definition : String) (tracing : Bool)
    (s : Point) :
    let choice := oneOf rules name definition
    (choice.parse tracing s).result =
      match deciding? rules tracing s with
      | some rule => (rule.parse tracing s).result
      | none => (.failure (failed choice.name choice.definition "no alternative matched"
          s.position), s) := by
  intro choice
  rw [result_parse]
  exact result_firstOf choice.name choice.definition rules tracing s

theorem passes_of_deciding? {rule : Rule α} (h : deciding? rules tracing s = some rule) :
    (rule.parse tracing s).passes = false := by
  simpa using List.find?_some h

/-- A choice can be backtracked over where every alternative can. -/
theorem passes_oneOf (rules : List (Rule α)) (name definition : String) (tracing : Bool)
    (s : Point) :
    ((oneOf rules name definition).parse tracing s).passes =
      (deciding? rules tracing s).isNone := by
  have hresult := result_oneOf rules name definition tracing s
  cases hdeciding : deciding? rules tracing s with
  | none =>
    rw [hdeciding] at hresult
    have ho := congrArg Prod.fst hresult
    exact Run.passes_eq_true_iff.mpr ⟨_, ho, rfl⟩
  | some rule =>
    rw [hdeciding] at hresult
    rw [Run.passes_congr hresult]
    exact passes_of_deciding? hdeciding

theorem deciding?_eq_none_iff :
    deciding? rules tracing s = none ↔ ∀ rule ∈ rules, (rule.parse tracing s).passes = true := by
  simp [deciding?]

/-! ## Choices inside of choices -/

section Nested

variable {xs ys zs : List (Rule α)} {name definition : String}

theorem deciding?_append (xs ys : List (Rule α)) :
    deciding? (xs ++ ys) tracing s = (deciding? xs tracing s).or (deciding? ys tracing s) :=
  List.find?_append

/-- As an alternative, a choice decides where one of its own alternatives does. -/
theorem deciding?_oneOf (ys : List (Rule α)) (name definition : String) :
    deciding? [oneOf ys name definition] tracing s =
      (deciding? ys tracing s).map fun _ => oneOf ys name definition := by
  rw [deciding?, List.find?_singleton, passes_oneOf]
  cases deciding? ys tracing s <;> rfl

/-- The alternative that decides among all of them decides among the nested ones, by itself or
as the choice that it is an alternative of. -/
theorem exists_deciding?_nested (name definition : String) {rule : Rule α}
    (h : deciding? (xs ++ ys ++ zs) tracing s = some rule) :
    ∃ rule', deciding? (xs ++ [oneOf ys name definition] ++ zs) tracing s = some rule' ∧
      (rule'.parse tracing s).result = (rule.parse tracing s).result := by
  rw [deciding?_append, deciding?_append] at h
  rw [deciding?_append, deciding?_append, deciding?_oneOf]
  cases hxs : deciding? xs tracing s with
  | some x =>
    rw [hxs] at h
    obtain rfl : x = rule := Option.some.inj h
    exact ⟨x, rfl, rfl⟩
  | none =>
    rw [hxs] at h
    cases hys : deciding? ys tracing s with
    | some y =>
      rw [hys] at h
      obtain rfl : y = rule := Option.some.inj h
      have hresult := result_oneOf ys name definition tracing s
      rw [hys] at hresult
      exact ⟨_, rfl, hresult⟩
    | none =>
      rw [hys] at h
      exact ⟨rule, h, rfl⟩

theorem deciding?_nested_eq_none (h : deciding? (xs ++ ys ++ zs) tracing s = none) :
    deciding? (xs ++ [oneOf ys name definition] ++ zs) tracing s = none := by
  rw [deciding?_append, deciding?_append, Option.or_eq_none_iff, Option.or_eq_none_iff] at h
  rw [deciding?_append, deciding?_append, deciding?_oneOf, h.1.1, h.1.2, h.2]
  rfl

end Nested

/-- Whether the alternatives `ys` are put among the others or form a choice of their own there:
the first alternative that cannot be backtracked over decides, from the place where all of them
start.  Without one, each choice fails under its own name, at that place. -/
theorem oneOf_nested (xs ys zs : List (Rule α)) (name definition name₁ definition₁ name₂
    definition₂ : String) (tracing : Bool) (s : Point) :
    let nested := oneOf (xs ++ [oneOf ys name definition] ++ zs) name₁ definition₁
    let flat := oneOf (xs ++ ys ++ zs) name₂ definition₂
    (∃ before rule after, xs ++ ys ++ zs = before ++ rule :: after ∧
      (∀ r ∈ before, (r.parse tracing s).passes = true) ∧
      (rule.parse tracing s).passes = false ∧
      (nested.parse tracing s).result = (rule.parse tracing s).result ∧
      (flat.parse tracing s).result = (rule.parse tracing s).result) ∨
    ((∀ r ∈ xs ++ ys ++ zs, (r.parse tracing s).passes = true) ∧
      (nested.parse tracing s).result =
        (.failure (failed nested.name nested.definition "no alternative matched" s.position), s) ∧
      (flat.parse tracing s).result =
        (.failure (failed flat.name flat.definition "no alternative matched" s.position), s)) := by
  intro nested flat
  have hnested := result_oneOf (xs ++ [oneOf ys name definition] ++ zs) name₁ definition₁ tracing s
  have hflat := result_oneOf (xs ++ ys ++ zs) name₂ definition₂ tracing s
  cases hdeciding : deciding? (xs ++ ys ++ zs) tracing s with
  | some rule =>
    obtain ⟨rule', hdeciding', hresult⟩ := exists_deciding?_nested name definition hdeciding
    obtain ⟨-, before, after, hsplit, hbefore⟩ := List.find?_eq_some_iff_append.mp hdeciding
    rw [hdeciding'] at hnested
    rw [hdeciding] at hflat
    refine Or.inl ⟨before, rule, after, hsplit, ?_, passes_of_deciding? hdeciding,
      hnested.trans hresult, hflat⟩
    intro r hr
    simpa using hbefore r hr
  | none =>
    rw [deciding?_nested_eq_none hdeciding] at hnested
    rw [hdeciding] at hflat
    exact Or.inr ⟨deciding?_eq_none_iff.mp hdeciding, hnested, hflat⟩

/-! ## The order of the alternatives -/

/-- No two of the rules are such that neither of them can be backtracked over at the place. -/
def OneAtMost (rules : List (Rule α)) (tracing : Bool) (s : Point) : Prop :=
  ∀ r ∈ rules, ∀ r' ∈ rules, (r.parse tracing s).passes = false →
    (r'.parse tracing s).passes = false → r = r'

theorem deciding?_perm (h : rules.Perm rules') (hone : OneAtMost rules tracing s) :
    deciding? rules tracing s = deciding? rules' tracing s := by
  apply List.find?_eq_find?_of_perm h
  rintro r ⟨hr, hpasses⟩ r' ⟨hr', hpasses'⟩
  exact hone r hr r' hr' (by simpa using hpasses) (by simpa using hpasses')

/-- Choices among the same alternatives in another order, under one name. -/
theorem result_oneOf_perm {name definition name' definition' : String} (h : rules.Perm rules')
    (hone : OneAtMost rules tracing s)
    (hname : (oneOf rules name definition).name = (oneOf rules' name' definition').name)
    (hdefinition : (oneOf rules name definition).definition =
      (oneOf rules' name' definition').definition) :
    ((oneOf rules name definition).parse tracing s).result =
      ((oneOf rules' name' definition').parse tracing s).result := by
  rw [result_oneOf, result_oneOf, deciding?_perm h hone, hname, hdefinition]

end Rule
end CounterLang
