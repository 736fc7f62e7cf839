/-
From a word to its token.
-/
import CounterLang.Token

namespace CounterLang
namespace Token

/-- The token of a whole word.  A numeral outside the range of numbers is a text like any
other word; one too long to be read is refused before its value is known. -/
def ofWord (word : String) : Except Numeral.TooLong Token :=
  match Keyword.ofSpelling? word with
  | some k => .ok (.keyword k)
  | none =>
    match Numeral.ofChars? word.toList with
    | none => .ok (.text word)
    | some n =>
      if Numeral.digitLimit < n.digits.length then .error ⟨n.digits.length⟩
      else if Numeral.InRange n.value then .ok (.number n.value)
      else .ok (.text word)

example : ofWord "+007" = .ok (.number 7) := by rfl

example : ofWord "-9223372036854775809" = .ok (.text "-9223372036854775809") := by
  rfl

end Token
end CounterLang
