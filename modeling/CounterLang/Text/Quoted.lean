/-
Quoted texts.  A quoted text shows every character on one line and can be read
back: the quote in use, the backslash and what is not printable are escaped.
-/
import CounterLang.Text.Printable

namespace CounterLang
namespace Text

def hexDigit (n : Nat) : Char :=
  if n < 10 then Char.ofNat ('0'.toNat + n) else Char.ofNat ('a'.toNat + (n - 10))

/-- The last `width` hexadecimal digits of `n`. -/
def hexDigits : Nat → Nat → List Char
  | 0, _ => []
  | width + 1, n => hexDigits width (n / 16) ++ [hexDigit (n % 16)]

/-- A character that is not printable takes the shortest of the three numeric
escapes that has room for its code point. -/
def numericEscape (c : Char) : List Char :=
  if c.toNat < 0x100 then '\\' :: 'x' :: hexDigits 2 c.toNat
  else if c.toNat < 0x10000 then '\\' :: 'u' :: hexDigits 4 c.toNat
  else '\\' :: 'U' :: hexDigits 8 c.toNat

def escaped (quote c : Char) : List Char :=
  if c = quote ∨ c = '\\' then ['\\', c]
  else if c = '\n' then ['\\', 'n']
  else if c = '\r' then ['\\', 'r']
  else if c = '\t' then ['\\', 't']
  else if isPrintable c then [c]
  else numericEscape c

/-- Double quotes save an escape where the text has single quotes and no double ones. -/
def quoteOf (cs : List Char) : Char :=
  if '\x27' ∈ cs ∧ '"' ∉ cs then '"' else '\x27'

def quotedChars (cs : List Char) : List Char :=
  quoteOf cs :: (cs.flatMap (escaped (quoteOf cs)) ++ [quoteOf cs])

def quoted (s : String) : String := String.ofList (quotedChars s.toList)

example : quoted "it's" = "\"it's\"" := by decide +kernel

example : quoted "a\\\u00a0\n" = "'a\\\\\\xa0\\n'" := by decide +kernel

end Text
end CounterLang
