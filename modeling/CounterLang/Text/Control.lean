/-
Control sequences: what a terminal carries out instead of showing it.
-/

namespace CounterLang
namespace Text

/-- A control sequence starts with this character and an opening bracket. -/
def escape : Char := '\x1b'

/-- The characters that may stand before the letter that ends a control sequence. -/
def isParameter (c : Char) : Bool := c = ';' || c = '?' || c.isDigit

/-- The number of characters up to the first one that is no parameter, which has to be an
ASCII letter. -/
def finalLength? : List Char → Option Nat
  | [] => none
  | c :: rest =>
    if isParameter c then (finalLength? rest).map (· + 1)
    else if c.isAlpha then some 1 else none

/-- The length of a control sequence, given what comes after its first character. -/
def controlLength? : List Char → Option Nat
  | '[' :: rest => (finalLength? rest).map (· + 1)
  | _ => none

/-- The characters that are shown, after the next `skip` of them.  What is left when a
control sequence has been taken out is not looked at again, even if it is one. -/
def visibleFrom : (skip : Nat) → List Char → List Char
  | _, [] => []
  | skip + 1, _ :: rest => visibleFrom skip rest
  | 0, c :: rest =>
    match if c = escape then controlLength? rest else none with
    | some length => visibleFrom length rest
    | none => c :: visibleFrom 0 rest

def visible (text : String) : String := String.ofList (visibleFrom 0 text.toList)

theorem visible_eq_self {text : String} (h : escape ∉ text.toList) : visible text = text := by
  have hall : ∀ {cs : List Char}, escape ∉ cs → visibleFrom 0 cs = cs := by
    intro cs hcs
    induction cs with
    | nil => rfl
    | cons c rest ih =>
      simp only [List.mem_cons, not_or] at hcs
      simp [visibleFrom, Ne.symm hcs.1, ih hcs.2]
  rw [visible, hall h, String.ofList_toList]

example : visible "\x1b\x1b[1m[1mx \x1b[?2;5" = "\x1b[1mx \x1b[?2;5" := by decide +kernel

end Text
end CounterLang
