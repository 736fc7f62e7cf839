/-
UTF-8: characters from bytes, and where a sequence of bytes goes wrong.
-/
import CounterLang.Text.Quoted
import CounterLang.Text.Numeral

namespace CounterLang
namespace Utf8

inductive Reason
  | invalidStart
  | invalidContinuation
  | unexpectedEnd
deriving DecidableEq, Repr

def Reason.text : Reason → String
  | invalidStart => "invalid start byte"
  | invalidContinuation => "invalid continuation byte"
  | unexpectedEnd => "unexpected end of data"

/-- The first bytes that are no character: the bytes of one that was begun, as far as they
are valid, or a byte that begins none. -/
structure Fault where
  reason : Reason
  start : Nat
  length : Nat
  lead : UInt8
deriving DecidableEq, Repr

def Fault.message (f : Fault) : String :=
  let place :=
    if f.length = 1 then
      "byte 0x" ++ String.ofList (Text.hexDigits 2 f.lead.toNat) ++ " in position " ++
        Numeral.text f.start
    else
      "bytes in position " ++ Numeral.text f.start ++ "-" ++
        Numeral.text (f.start + f.length - 1 : Nat)
  "'utf-8' codec can't decode " ++ place ++ ": " ++ f.reason.text

/-- A character of several bytes that has been begun: how many bytes it lacks, between
which bounds the next of them lies, and the bits read so far. -/
structure Begun where
  lead : UInt8
  length : Nat
  lacking : Nat
  low : Nat
  high : Nat
  bits : Nat
deriving DecidableEq, Repr

/-- The bounds of the second byte keep out overlong forms, surrogates and code points
beyond the last one. -/
def begin? (b : UInt8) : Option Begun :=
  let n := b.toNat
  if n < 0xC2 then none
  else if n < 0xE0 then some ⟨b, 1, 1, 0x80, 0xBF, n - 0xC0⟩
  else if n < 0xF0 then
    some ⟨b, 1, 2, if n = 0xE0 then 0xA0 else 0x80, if n = 0xED then 0x9F else 0xBF, n - 0xE0⟩
  else if n < 0xF5 then
    some ⟨b, 1, 3, if n = 0xF0 then 0x90 else 0x80, if n = 0xF4 then 0x8F else 0xBF, n - 0xF0⟩
  else none

/-- The characters of the bytes from `position` on, given the character that was begun
before them. -/
def decodeFrom (position : Nat) : Option Begun → List UInt8 → Except Fault (List Char)
  | none, [] => .ok []
  | some begun, [] => .error ⟨.unexpectedEnd, position - begun.length, begun.length, begun.lead⟩
  | none, b :: rest =>
    if b.toNat < 0x80 then
      (Char.ofNat b.toNat :: ·) <$> decodeFrom (position + 1) none rest
    else
      match begin? b with
      | none => .error ⟨.invalidStart, position, 1, b⟩
      | some begun => decodeFrom (position + 1) (some begun) rest
  | some begun, b :: rest =>
    if begun.low ≤ b.toNat ∧ b.toNat ≤ begun.high then
      let bits := begun.bits * 0x40 + (b.toNat - 0x80)
      if begun.lacking = 1 then
        (Char.ofNat bits :: ·) <$> decodeFrom (position + 1) none rest
      else
        decodeFrom (position + 1)
          (some ⟨begun.lead, begun.length + 1, begun.lacking - 1, 0x80, 0xBF, bits⟩) rest
    else
      .error ⟨.invalidContinuation, position - begun.length, begun.length, begun.lead⟩

def decode (bytes : List UInt8) : Except Fault (List Char) := decodeFrom 0 none bytes

example : decode [0x49, 0xC3, 0xA9, 0xF0, 0x9F, 0x98, 0x80] = .ok ['I', 'é', '😀'] := by rfl

example : decode [0x49, 0xE2, 0x82] = .error ⟨.unexpectedEnd, 1, 2, 0xE2⟩ := by rfl

example : decode [0xED, 0xA0, 0x80] = .error ⟨.invalidContinuation, 0, 1, 0xED⟩ := by rfl

end Utf8
end CounterLang
