/-
Signed decimal numerals: reading, writing, and the limits on both.
-/

namespace CounterLang

/-- An optional sign and one or more decimal digits. -/
structure Numeral where
  negative : Bool
  digits : List Char
deriving DecidableEq, Repr

namespace Numeral

def ofDigits? (negative : Bool) (digits : List Char) : Option Numeral :=
  if digits ≠ [] ∧ digits.all Char.isDigit then some ⟨negative, digits⟩ else none

/-- A word is a numeral only as a whole.  Only the ten ASCII digits count. -/
def ofChars? : List Char → Option Numeral
  | '+' :: digits => ofDigits? false digits
  | '-' :: digits => ofDigits? true digits
  | digits => ofDigits? false digits

def magnitude (n : Numeral) : Nat := Nat.ofDigitChars 10 n.digits 0

def value (n : Numeral) : Int := if n.negative then -n.magnitude else n.magnitude

/-- The plain notation of a number: no plus sign and no leading zeros. -/
def write : Int → List Char
  | .ofNat n => Nat.toDigits 10 n
  | .negSucc n => '-' :: Nat.toDigits 10 (n + 1)

def text (n : Int) : String := String.ofList (write n)

/-- Numbers are those of a signed machine word of 64 bits, so that there is one more below
zero than above. -/
def least : Int := -0x8000000000000000

def greatest : Int := 0x7FFFFFFFFFFFFFFF

def InRange (n : Int) : Prop := least ≤ n ∧ n ≤ greatest

instance (n : Int) : Decidable (InRange n) := inferInstanceAs (Decidable (_ ∧ _))

/-- Longer numerals are not read at all.  Leading zeros count as digits. -/
def digitLimit : Nat := 4300

structure TooLong where
  digits : Nat
deriving DecidableEq, Repr

def TooLong.message (e : TooLong) : String :=
  "Exceeds the limit (" ++ text digitLimit ++
    " digits) for integer string conversion: value has " ++ text e.digits ++
    " digits; use sys.set_int_max_str_digits() to increase the limit"

end Numeral
end CounterLang
