/-
Quoted texts, read back.

Behind a backslash the next character says what is meant: a character by its name, by its code
point in digits of a fixed number, or itself.  So it is plain where the escape of a character
ends, and as none starts with the quote in use, it is plain where the text ends.  The two
theorems this file exists for are `quotedChars_append_inj`, from a quoted text and anything
behind it both can be told, and `isPrintable_of_mem_quoted`.
-/
import CounterLang.Text.Quoted
import Mathlib.Algebra.GroupWithZero.Nat

namespace CounterLang
namespace Text

/-! ## Hexadecimal digits -/

def hexValue (c : Char) : Nat := if c.toNat < 58 then c.toNat - 48 else c.toNat - 87

/-- The number that hexadecimal digits stand for. -/
def ofHexDigits (cs : List Char) : Nat := cs.foldl (fun n c => 16 * n + hexValue c) 0

theorem hexValue_hexDigit : ∀ n < 16, hexValue (hexDigit n) = n := by decide

theorem isPrintable_hexDigit : ∀ n < 16, isPrintable (hexDigit n) = true := by decide

theorem length_hexDigits (width n : Nat) : (hexDigits width n).length = width := by
  induction width generalizing n with
  | zero => rfl
  | succ width ih => rw [hexDigits, List.length_append, ih, List.length_singleton]

theorem ofHexDigits_append (cs : List Char) (c : Char) :
    ofHexDigits (cs ++ [c]) = 16 * ofHexDigits cs + hexValue c := by
  rw [ofHexDigits, List.foldl_append]
  rfl

theorem ofHexDigits_hexDigits (width n : Nat) :
    ofHexDigits (hexDigits width n) = n % 16 ^ width := by
  induction width generalizing n with
  | zero => rw [Nat.pow_zero, Nat.mod_one]; rfl
  | succ width ih =>
    have hdigit : n % 16 < 16 := Nat.mod_lt n (by decide)
    rw [hexDigits, ofHexDigits_append, ih, hexValue_hexDigit _ hdigit, Nat.pow_succ',
      Nat.mod_mul, Nat.add_comm]

theorem isPrintable_of_mem_hexDigits {width n : Nat} {c : Char} (h : c ∈ hexDigits width n) :
    isPrintable c = true := by
  induction width generalizing n with
  | zero => cases h
  | succ width ih =>
    rcases List.mem_append.mp h with h | h
    · exact ih h
    · rw [List.mem_singleton.mp h]
      exact isPrintable_hexDigit _ (Nat.mod_lt n (by decide))

/-! ## One character -/

variable {quote c d : Char} {cs ds rest rest' : List Char}

def IsQuote (c : Char) : Prop := c = '\x27' ∨ c = '"'

instance (c : Char) : Decidable (IsQuote c) := inferInstanceAs (Decidable (_ ∨ _))

theorem isQuote_quoteOf (cs : List Char) : IsQuote (quoteOf cs) := by
  unfold quoteOf
  split
  · exact Or.inr rfl
  · exact Or.inl rfl

/-- How many digits come behind the mark of a numeric escape. -/
def escapeWidth? (mark : Char) : Option Nat :=
  if mark = 'x' then some 2 else if mark = 'u' then some 4 else if mark = 'U' then some 8
  else none

/-- The character that is meant by a mark without digits. -/
def meant (mark : Char) : Char :=
  if mark = 'n' then '\n' else if mark = 'r' then '\r' else if mark = 't' then '\t' else mark

/-- The first character that is meant, and what comes behind it. -/
def readChar? : List Char → Option (Char × List Char)
  | [] => none
  | c :: rest =>
    if c = '\\' then
      match rest with
      | [] => none
      | mark :: rest =>
        match escapeWidth? mark with
        | some width => some (Char.ofNat (ofHexDigits (rest.take width)), rest.drop width)
        | none => some (meant mark, rest)
    else some (c, rest)

/-- The ways to write a character: as it is, by a name or by its code point. -/
inductive Writes (quote c : Char) : List Char → Prop
  | plain (hquote : c ≠ quote) (hbackslash : c ≠ '\\') (hc : isPrintable c = true) :
    Writes quote c [c]
  | named {mark : Char} (hwidth : escapeWidth? mark = none) (hmeant : meant mark = c)
      (hmark : isPrintable mark = true) : Writes quote c ['\\', mark]
  | digits {mark : Char} {width : Nat} (hwidth : escapeWidth? mark = some width)
      (hc : c.toNat < 16 ^ width) (hmark : isPrintable mark = true) :
    Writes quote c ('\\' :: mark :: hexDigits width c.toNat)

theorem writes_numericEscape (quote c : Char) : Writes quote c (numericEscape c) := by
  have hvalid : c.toNat < 0xD800 ∨ 0xDFFF < c.toNat ∧ c.toNat < 0x110000 := c.valid
  rw [numericEscape]
  by_cases hbyte : c.toNat < 0x100
  · rw [if_pos hbyte]
    exact .digits rfl hbyte (by decide)
  · by_cases hplane : c.toNat < 0x10000
    · rw [if_neg hbyte, if_pos hplane]
      exact .digits rfl hplane (by decide)
    · rw [if_neg hbyte, if_neg hplane]
      exact .digits rfl (by omega) (by decide)

theorem writes_escaped (hquote : IsQuote quote) (c : Char) : Writes quote c (escaped quote c) := by
  rw [escaped]
  by_cases hself : c = quote ∨ c = '\\'
  · have hmark : c = '\x27' ∨ c = '"' ∨ c = '\\' := by
      rcases hself with rfl | rfl
      · exact hquote.imp_right Or.inl
      · exact Or.inr (Or.inr rfl)
    rw [if_pos hself]
    rcases hmark with rfl | rfl | rfl
    all_goals exact .named rfl rfl (by decide)
  rw [if_neg hself]
  by_cases hfeed : c = '\n'
  · rw [if_pos hfeed]
    exact .named rfl hfeed.symm (by decide)
  rw [if_neg hfeed]
  by_cases hreturn : c = '\r'
  · rw [if_pos hreturn]
    exact .named rfl hreturn.symm (by decide)
  rw [if_neg hreturn]
  by_cases htab : c = '\t'
  · rw [if_pos htab]
    exact .named rfl htab.symm (by decide)
  rw [if_neg htab]
  by_cases hprintable : isPrintable c = true
  · rw [if_pos hprintable]
    exact .plain (fun hc => hself (Or.inl hc)) (fun hc => hself (Or.inr hc)) hprintable
  · rw [if_neg hprintable]
    exact writes_numericEscape quote c

namespace Writes

theorem readChar?_append (h : Writes quote c cs) (rest : List Char) :
    readChar? (cs ++ rest) = some (c, rest) := by
  cases h with
  | plain _ hbackslash _ => exact if_neg hbackslash
  | named hwidth hmeant _ => simp [readChar?, hwidth, hmeant]
  | @digits mark width hwidth hc _ =>
    have hlength := length_hexDigits width c.toNat
    simp [readChar?, hwidth, List.take_left' hlength, List.drop_left' hlength,
      ofHexDigits_hexDigits, Nat.mod_eq_of_lt hc]

/-- No quote in use is written at the start, as it has a backslash before it. -/
theorem exists_cons (hquote : IsQuote quote) (h : Writes quote c cs) :
    ∃ e es, cs = e :: es ∧ e ≠ quote := by
  have hbackslash : '\\' ≠ quote := by
    rcases hquote with rfl | rfl <;> decide
  cases h with
  | plain hc _ _ => exact ⟨c, [], rfl, hc⟩
  | named => exact ⟨_, _, rfl, hbackslash⟩
  | digits => exact ⟨_, _, rfl, hbackslash⟩

theorem isPrintable_of_mem (h : Writes quote c cs) (hd : d ∈ cs) : isPrintable d = true := by
  have hbackslash : isPrintable '\\' = true := by decide
  cases h with
  | plain _ _ hc => rwa [List.mem_singleton.mp hd]
  | named _ _ hmark =>
    rw [List.mem_cons, List.mem_singleton] at hd
    rcases hd with rfl | rfl
    · exact hbackslash
    · exact hmark
  | digits _ _ hmark =>
    rw [List.mem_cons, List.mem_cons] at hd
    rcases hd with rfl | rfl | hd
    · exact hbackslash
    · exact hmark
    · exact isPrintable_of_mem_hexDigits hd

end Writes

/-! ## Whole texts -/

/-- Where the quote in use comes up, the text is at its end. -/
theorem flatMap_escaped_append_inj (hquote : IsQuote quote)
    (h : cs.flatMap (escaped quote) ++ quote :: rest =
      ds.flatMap (escaped quote) ++ quote :: rest') : cs = ds ∧ rest = rest' := by
  -- In front of a character there is no quote, in whatever way the character is written.
  have hne : ∀ {c : Char} {cs rest rest' : List Char},
      quote :: rest ≠ (c :: cs).flatMap (escaped quote) ++ rest' := by
    intro c cs rest rest' h
    obtain ⟨e, es, hes, he⟩ := (writes_escaped hquote c).exists_cons hquote
    rw [List.flatMap_cons, hes] at h
    exact he (List.cons.inj h).1.symm
  induction cs generalizing ds with
  | nil =>
    cases ds with
    | nil => exact ⟨rfl, (List.cons.inj h).2⟩
    | cons d ds => exact absurd h hne
  | cons c cs ih =>
    cases ds with
    | nil => exact absurd h.symm hne
    | cons d ds =>
      rw [List.flatMap_cons, List.flatMap_cons, List.append_assoc, List.append_assoc] at h
      have hread := (writes_escaped hquote c).readChar?_append (cs.flatMap (escaped quote) ++
        quote :: rest)
      rw [h, (writes_escaped hquote d).readChar?_append, Option.some.injEq, Prod.mk.injEq] at hread
      obtain ⟨rfl, hbehind⟩ := hread
      obtain ⟨rfl, hrest⟩ := ih hbehind.symm
      exact ⟨rfl, hrest⟩

theorem toList_quoted (s : String) : (quoted s).toList = quotedChars s.toList :=
  String.toList_ofList

theorem quotedChars_append (cs rest : List Char) :
    quotedChars cs ++ rest =
      quoteOf cs :: (cs.flatMap (escaped (quoteOf cs)) ++ quoteOf cs :: rest) := by
  rw [quotedChars, List.cons_append, List.append_assoc]
  rfl

/-- A quoted text says which text it is and where it ends. -/
theorem quotedChars_append_inj (h : quotedChars cs ++ rest = quotedChars ds ++ rest') :
    cs = ds ∧ rest = rest' := by
  rw [quotedChars_append, quotedChars_append] at h
  obtain ⟨hquote, hbehind⟩ := List.cons.inj h
  rw [← hquote] at hbehind
  exact flatMap_escaped_append_inj (isQuote_quoteOf cs) hbehind

theorem isPrintable_of_mem_quotedChars (h : c ∈ quotedChars cs) : isPrintable c = true := by
  have hprintable : isPrintable (quoteOf cs) = true := by
    rcases isQuote_quoteOf cs with hquote | hquote
    all_goals
      rw [hquote]
      decide
  rw [quotedChars, List.mem_cons, List.mem_append, List.mem_singleton, List.mem_flatMap] at h
  rcases h with rfl | ⟨d, _, hd⟩ | rfl
  · exact hprintable
  · exact (writes_escaped (isQuote_quoteOf cs) d).isPrintable_of_mem hd
  · exact hprintable

theorem isPrintable_of_mem_quoted {s : String} (h : c ∈ (quoted s).toList) :
    isPrintable c = true := by
  rw [toList_quoted] at h
  exact isPrintable_of_mem_quotedChars h

end Text
end CounterLang
