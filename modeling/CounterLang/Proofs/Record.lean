/-
Records, and the nodes that they are records of.

The record of a node is the text of a form, which has the class of the node for its heading and
an entry for each of its fields.  A form is told by its text, and a node by its form, because the
heading says the class and the entries say the fields, down to the innermost body.  So whatever
words a program has, even such that look like records, no two nodes have one record.  The theorem
this file exists for is `Node.record_determines`.
-/
import CounterLang.Proofs.Form

namespace CounterLang

attribute [ext] Program

/-! ## Numbers -/

namespace Numeral

theorem write_inj {m n : Int} (h : write m = write n) : m = n := by
  have hread := ofChars?_write m
  rw [h, ofChars?_write, Option.some.injEq] at hread
  rw [← value_toDigits m, ← hread, value_toDigits]

theorem toList_text (n : Int) : (text n).toList = write n := String.toList_ofList

theorem text_inj {m n : Int} (h : text m = text n) : m = n :=
  write_inj (by rw [← toList_text, h, toList_text])

theorem mem_write {n : Int} {c : Char} (h : c ∈ write n) : c.isDigit = true ∨ c = '-' := by
  cases n with
  | ofNat n => exact Or.inl (isDigit_of_mem h)
  | negSucc n =>
    rcases List.mem_cons.mp h with rfl | h
    · exact Or.inr rfl
    · exact Or.inl (isDigit_of_mem h)

theorem isAtom_write (n : Int) : IsAtom (write n) := by
  have hseparator : ∀ c ∈ write n, isSeparator c = false := by
    intro c hc
    rw [Bool.eq_false_iff]
    intro hmem
    have hcases : c = ',' ∨ c = '=' ∨ c = '(' ∨ c = ')' := by
      simpa [isSeparator, separators] using hmem
    have hwrite := mem_write hc
    rcases hcases with rfl | rfl | rfl | rfl <;> revert hwrite <;> decide
  refine ⟨(isWord_write n).1, hseparator, fun c hc hquote => ?_⟩
  have hwrite := mem_write (List.mem_of_mem_head? hc)
  rcases hquote with rfl | rfl
  · revert hwrite; decide
  · revert hwrite; decide

def atom (n : Int) : Atom := ⟨text n, by rw [toList_text]; exact isAtom_write n⟩

theorem atom_inj {m n : Int} (h : atom m = atom n) : m = n := text_inj (congrArg Atom.text h)

end Numeral

/-! ## Forms of nodes -/

def Register.form (r : Register) : Form :=
  .record ⟨"Register", by decide⟩ [.field ⟨"name", by decide⟩ (.quoted r.name)]

def Label.form (l : Label) : Form :=
  .record ⟨"Label", by decide⟩ [.field ⟨"name", by decide⟩ (.quoted l.name)]

def Value.form : Value → Form
  | text word => .record ⟨"TextValue", by decide⟩ [.field ⟨"text", by decide⟩ (.quoted word)]
  | number value =>
    .record ⟨"NumberValue", by decide⟩ [.field ⟨"number", by decide⟩ (.atom (Numeral.atom value))]

namespace Statement

mutual

def form : Statement → Form
  | loop count body =>
    .record ⟨"RepeatStatement", by decide⟩
      [.field ⟨"count", by decide⟩ count.form, .field ⟨"body", by decide⟩ (.list (formAll body))]
  | jez register label =>
    .record ⟨"JezStatement", by decide⟩
      [.field ⟨"register", by decide⟩ register.form, .field ⟨"label", by decide⟩ label.form]
  | incr register =>
    .record ⟨"IncrStatement", by decide⟩ [.field ⟨"register", by decide⟩ register.form]
  | decr register =>
    .record ⟨"DecrStatement", by decide⟩ [.field ⟨"register", by decide⟩ register.form]
  | call name args =>
    .record ⟨"CallStatement", by decide⟩
      [.field ⟨"name", by decide⟩ (.quoted name),
        .field ⟨"args", by decide⟩ (.list (args.map Value.form))]

def formAll : List Statement → List Form
  | [] => []
  | s :: rest => form s :: formAll rest

end

end Statement

/-- The name of a parameter type has no separators, though it is a record of its own kind. -/
def ParamType.form (t : ParamType) : Form := .atom ⟨t.record, by cases t <;> decide⟩

def Param.form (p : Param) : Form :=
  .record ⟨"FunctionArg", by decide⟩
    [.field ⟨"name", by decide⟩ (.quoted p.name), .field ⟨"type", by decide⟩ p.type.form]

def Definition.form (d : Definition) : Form :=
  .record ⟨"FunctionDefinition", by decide⟩
    [.field ⟨"name", by decide⟩ (.quoted d.name),
      .field ⟨"args", by decide⟩ (.list (d.params.map Param.form)),
      .field ⟨"body", by decide⟩ (.list (Statement.formAll d.body))]

def Program.form (p : Program) : Form :=
  .record ⟨"Program", by decide⟩
    [.field ⟨"function_definitions", by decide⟩ (.list (p.definitions.map Definition.form)),
      .field ⟨"statements", by decide⟩ (.list (Statement.formAll p.statements))]

def Token.form : Token → Form
  | keyword k => .record ⟨"Token", by decide⟩ [.atom ⟨k.label, by cases k <;> decide⟩]
  | text word => .record ⟨"Token", by decide⟩ [.atom ⟨"TEXT", by decide⟩, .quoted word]
  | number value =>
    .record ⟨"Token", by decide⟩ [.atom ⟨"NUMBER", by decide⟩, .atom (Numeral.atom value)]

def Node.form : Node → Form
  | register r => r.form
  | label l => l.form
  | value v => v.form
  | statement s => s.form
  | param p => p.form
  | paramType t => t.form
  | definition d => d.form
  | program p => p.form
  | token t => t.form

/-! ## Their texts are the records -/

theorem Form.textAll_map {form : α → Form} {record : α → String}
    (h : ∀ a, (form a).text = record a) (as : List α) :
    Form.textAll (as.map form) = as.map record := by
  rw [Form.textAll_eq_map, List.map_map]
  exact List.map_congr_left fun a _ => h a

theorem Value.text_form (v : Value) : v.form.text = v.record := by
  cases v with
  | text word => rfl
  | number value => rfl

namespace Statement

mutual

theorem text_form (s : Statement) : s.form.text = s.record := by
  cases s with
  | loop count body =>
    rw [record, ← textAll_formAll, ← Value.text_form]
    rfl
  | jez register label => rfl
  | incr register => rfl
  | decr register => rfl
  | call name args =>
    rw [record, ← Form.textAll_map Value.text_form]
    rfl

theorem textAll_formAll (body : List Statement) : Form.textAll (formAll body) = recordAll body := by
  cases body with
  | nil => rfl
  | cons s rest => rw [formAll, Form.textAll, recordAll, text_form, textAll_formAll]

end

end Statement

theorem Param.text_form (p : Param) : p.form.text = p.record := rfl

theorem Definition.text_form (d : Definition) : d.form.text = d.record := by
  rw [record, ← Form.textAll_map Param.text_form, ← Statement.textAll_formAll]
  rfl

theorem Program.text_form (p : Program) : p.form.text = p.record := by
  rw [record, ← Form.textAll_map Definition.text_form, ← Statement.textAll_formAll]
  rfl

theorem Token.text_form (t : Token) : t.form.text = t.record := by
  cases t with
  | keyword k =>
    rw [form, Form.text, Form.textAll, Form.textAll, String.intercalate_singleton]
    rfl
  | text word =>
    rw [form, Form.text, Form.textAll, Form.textAll, Form.textAll, String.intercalate_cons_cons,
      String.intercalate_singleton, ← String.append_assoc, ← String.append_assoc]
    rfl
  | number value =>
    rw [form, Form.text, Form.textAll, Form.textAll, Form.textAll, String.intercalate_cons_cons,
      String.intercalate_singleton, ← String.append_assoc, ← String.append_assoc]
    rfl

theorem Node.text_form (n : Node) : n.form.text = n.record := by
  cases n with
  | register r => rfl
  | label l => rfl
  | value v => exact v.text_form
  | statement s => exact s.text_form
  | param p => rfl
  | paramType t => rfl
  | definition d => exact d.text_form
  | program p => exact p.text_form
  | token t => exact t.text_form

/-! ## Nodes are told by their forms -/

theorem Register.form_inj {r s : Register} (h : r.form = s.form) : r = s := by
  simp only [form, Form.record.injEq, List.cons.injEq, Form.field.injEq, Form.quoted.injEq] at h
  exact Register.ext h.2.1.2

theorem Label.form_inj {l m : Label} (h : l.form = m.form) : l = m := by
  simp only [form, Form.record.injEq, List.cons.injEq, Form.field.injEq, Form.quoted.injEq] at h
  exact Label.ext h.2.1.2

theorem Value.form_inj {v w : Value} (h : v.form = w.form) : v = w := by
  cases v with
  | text word =>
    cases w with
    | text word' => simpa [form] using h
    | number value' => simp [form] at h
  | number value =>
    cases w with
    | text word' => simp [form] at h
    | number value' =>
      have hatom : Numeral.atom value = Numeral.atom value' := by simpa [form] using h
      rw [Numeral.atom_inj hatom]

namespace Statement

mutual

theorem form_inj {s t : Statement} (h : s.form = t.form) : s = t := by
  cases s with
  | loop count body =>
    cases t with
    | loop count' body' =>
      obtain ⟨hcount, hbody⟩ : count.form = count'.form ∧ formAll body = formAll body' := by
        simpa [form] using h
      rw [Value.form_inj hcount, formAll_inj hbody]
    | jez | incr | decr | call => simp [form] at h
  | jez r l =>
    cases t with
    | jez r' l' =>
      obtain ⟨hregister, hlabel⟩ : r.form = r'.form ∧ l.form = l'.form := by
        simpa [form] using h
      rw [Register.form_inj hregister, Label.form_inj hlabel]
    | loop | incr | decr | call => simp [form] at h
  | incr r =>
    cases t with
    | incr r' =>
      have hregister : r.form = r'.form := by simpa [form] using h
      rw [Register.form_inj hregister]
    | loop | jez | decr | call => simp [form] at h
  | decr r =>
    cases t with
    | decr r' =>
      have hregister : r.form = r'.form := by simpa [form] using h
      rw [Register.form_inj hregister]
    | loop | jez | incr | call => simp [form] at h
  | call name args =>
    cases t with
    | call name' args' =>
      obtain ⟨rfl, hargs⟩ : name = name' ∧ args.map Value.form = args'.map Value.form := by
        simpa [form] using h
      rw [eq_of_map_eq (fun v _ w _ => Value.form_inj) hargs]
    | loop | jez | incr | decr => simp [form] at h

theorem formAll_inj {body body' : List Statement} (h : formAll body = formAll body') :
    body = body' := by
  cases body with
  | nil =>
    cases body' with
    | nil => rfl
    | cons t rest' => cases h
  | cons s rest =>
    cases body' with
    | nil => cases h
    | cons t rest' =>
      obtain ⟨hs, hrest⟩ := List.cons.inj h
      rw [form_inj hs, formAll_inj hrest]

end

end Statement

theorem ParamType.form_inj {t u : ParamType} (h : t.form = u.form) : t = u := by
  have hrecord : t.record = u.record := congrArg Atom.text (Form.atom.inj h)
  revert hrecord
  cases t <;> cases u <;> decide

theorem Param.form_inj {p q : Param} (h : p.form = q.form) : p = q := by
  obtain ⟨hname, htype⟩ : p.name = q.name ∧ p.type.form = q.type.form := by
    simpa [form] using h
  exact Param.ext hname (ParamType.form_inj htype)

theorem Definition.form_inj {d e : Definition} (h : d.form = e.form) : d = e := by
  obtain ⟨hname, hparams, hbody⟩ : d.name = e.name ∧
      d.params.map Param.form = e.params.map Param.form ∧
      Statement.formAll d.body = Statement.formAll e.body := by
    simpa [form] using h
  exact Definition.ext hname (eq_of_map_eq (fun p _ q _ => Param.form_inj) hparams)
    (Statement.formAll_inj hbody)

theorem Program.form_inj {p q : Program} (h : p.form = q.form) : p = q := by
  obtain ⟨hdefinitions, hstatements⟩ :
      p.definitions.map Definition.form = q.definitions.map Definition.form ∧
      Statement.formAll p.statements = Statement.formAll q.statements := by
    simpa [form] using h
  exact Program.ext (eq_of_map_eq (fun d _ e _ => Definition.form_inj) hdefinitions)
    (Statement.formAll_inj hstatements)

theorem Token.form_inj {t u : Token} (h : t.form = u.form) : t = u := by
  cases t with
  | keyword k =>
    cases u with
    | keyword k' =>
      have hlabel : k.label = k'.label := by simpa [form] using h
      revert hlabel
      cases k <;> cases k' <;> decide
    | text | number => simp [form] at h
  | text word =>
    cases u with
    | text word' => simpa [form] using h
    | keyword | number => simp [form] at h
  | number value =>
    cases u with
    | number value' =>
      have hatom : Numeral.atom value = Numeral.atom value' := by simpa [form] using h
      rw [Numeral.atom_inj hatom]
    | keyword | text => simp [form] at h

theorem Token.record_inj {t u : Token} (h : t.record = u.record) : t = u := by
  rw [← Token.text_form, ← Token.text_form] at h
  exact Token.form_inj (Form.text_inj h)

/-- The class that a form says.  Only a parameter type has no heading. -/
def Form.heading : Form → String
  | record heading _ => heading.text
  | _ => "ValueType"

namespace Node

variable {a b : Node}

theorem heading_form (n : Node) : n.form.heading = n.heading := by
  cases n with
  | value v => cases v <;> rfl
  | statement s => cases s <;> rfl
  | token t => cases t <;> rfl
  | register | label | param | paramType | definition | program => rfl

/-- The classes of nodes, by what the nodes are. -/
def classes : List (List String) :=
  [["Register"], ["Label"], ["TextValue", "NumberValue"],
    ["RepeatStatement", "JezStatement", "IncrStatement", "DecrStatement", "CallStatement"],
    ["FunctionArg"], ["ValueType"], ["FunctionDefinition"], ["Program"], ["Token"]]

theorem findIdx_classes (n : Node) : classes.findIdx (n.heading ∈ ·) = n.ctorIdx := by
  cases n with
  | value v => cases v <;> rfl
  | statement s => cases s <;> rfl
  | register | label | param | paramType | definition | program | token => rfl

theorem form_inj (h : a.form = b.form) : a = b := by
  have hidx : a.ctorIdx = b.ctorIdx := by
    rw [← findIdx_classes, ← findIdx_classes, ← heading_form, ← heading_form, h]
  cases a with
  | register r =>
    cases b with
    | register s => rw [Register.form_inj h]
    | label | value | statement | param | paramType | definition | program | token => cases hidx
  | label l =>
    cases b with
    | label m => rw [Label.form_inj h]
    | register | value | statement | param | paramType | definition | program | token => cases hidx
  | value v =>
    cases b with
    | value w => rw [Value.form_inj h]
    | register | label | statement | param | paramType | definition | program | token => cases hidx
  | statement s =>
    cases b with
    | statement t => rw [Statement.form_inj h]
    | register | label | value | param | paramType | definition | program | token => cases hidx
  | param p =>
    cases b with
    | param q => rw [Param.form_inj h]
    | register | label | value | statement | paramType | definition | program | token => cases hidx
  | paramType t =>
    cases b with
    | paramType u => rw [ParamType.form_inj h]
    | register | label | value | statement | param | definition | program | token => cases hidx
  | definition d =>
    cases b with
    | definition e => rw [Definition.form_inj h]
    | register | label | value | statement | param | paramType | program | token => cases hidx
  | program p =>
    cases b with
    | program q => rw [Program.form_inj h]
    | register | label | value | statement | param | paramType | definition | token => cases hidx
  | token t =>
    cases b with
    | token u => rw [Token.form_inj h]
    | register | label | value | statement | param | paramType | definition | program => cases hidx

theorem record_inj (h : a.record = b.record) : a = b := by
  rw [← text_form, ← text_form] at h
  exact form_inj (Form.text_inj h)

theorem listRecord_map_inj {as bs : List Node}
    (h : listRecord (as.map record) = listRecord (bs.map record)) : as = bs := by
  rw [← Form.textAll_map text_form, ← Form.textAll_map text_form] at h
  have hlist : Form.list (as.map form) = .list (bs.map form) := Form.text_inj h
  exact eq_of_map_eq (fun _ _ _ _ => form_inj) (Form.list.inj hlist)

/-- Two nodes of any classes have the same record if and only if they are the same, and so have
two lists of nodes, whatever their lengths. -/
theorem record_determines :
    (∀ a b : Node, a.record = b.record ↔ a = b) ∧
      (∀ a b : Node, a.heading ≠ b.heading → a.record ≠ b.record) ∧
      ∀ as bs : List Node, listRecord (as.map record) = listRecord (bs.map record) ↔ as = bs := by
  refine ⟨fun a b => ⟨record_inj, ?_⟩, fun a b hne h => ?_, fun as bs => ⟨listRecord_map_inj, ?_⟩⟩
  · rintro rfl
    rfl
  · exact hne (by rw [record_inj h])
  · rintro rfl
    rfl

/-- A word that looks like a number, a name that looks like the rest of a record, and a list that
has its only entry twice. -/
theorem record_determines_lookalikes :
    let word : Node := .value (.text "1")
    let number : Node := .value (.number 1)
    let call : Node := .statement (.call "f" [.text "x"])
    let name : Node := .statement (.call "f', args=(TextValue(text='x'),))" [])
    word.heading ≠ number.heading ∧ word.record ≠ number.record ∧
      name.record = "CallStatement(name=\"f', args=(TextValue(text='x'),))\", args=())" ∧
      call.record ≠ name.record ∧
      listRecord [call.record] ≠ listRecord [call.record, call.record] := by
  intro word number call name
  have hclass : word.heading ≠ number.heading := by decide
  refine ⟨hclass, record_determines.2.1 word number hclass, rfl, ?_, ?_⟩
  · exact mt (record_determines.1 call name).mp (by decide)
  · exact mt (record_determines.2.2 [call] [call, call]).mp (by decide)

end Node
end CounterLang
