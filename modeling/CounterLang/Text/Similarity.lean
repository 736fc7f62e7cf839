/-
How similar two words are, by the stretches that they have in common.
-/

namespace CounterLang
namespace Similarity

def commonStart : List Char → List Char → Nat
  | a :: as, b :: bs => if a = b then commonStart as bs + 1 else 0
  | _, _ => 0

structure Stretch where
  left : Nat
  right : Nat
  length : Nat
deriving DecidableEq, Repr

/-- The longer of two stretches, the first one if they are equally long. -/
def Stretch.longer (a b : Stretch) : Stretch := if a.length < b.length then b else a

/-- The longest stretch that starts at the beginning of `as`, which has the place `left`
in its word. -/
def longestAt (left : Nat) (as : List Char) : (right : Nat) → List Char → Stretch
  | right, [] => ⟨left, right, 0⟩
  | right, b :: bs =>
    Stretch.longer ⟨left, right, commonStart as (b :: bs)⟩ (longestAt left as (right + 1) bs)

/-- The longest stretch of all.  Of equally long ones it is the one furthest to the left
in the first word, and then in the second. -/
def longestFrom (bs : List Char) : (left : Nat) → List Char → Stretch
  | left, [] => ⟨left, 0, 0⟩
  | left, a :: as => Stretch.longer (longestAt left (a :: as) 0 bs) (longestFrom bs (left + 1) as)

/-- The number of characters in common: those of the longest stretch, and those that the
parts before it and the parts behind it have in common.  The number of rounds is at most
the number of stretches, and so at most the length of either word. -/
def commonWithin : (rounds : Nat) → List Char → List Char → Nat
  | 0, _, _ => 0
  | rounds + 1, as, bs =>
    let s := longestFrom bs 0 as
    if s.length = 0 then 0
    else
      commonWithin rounds (as.take s.left) (bs.take s.right) + s.length +
        commonWithin rounds (as.drop (s.left + s.length)) (bs.drop (s.right + s.length))

def common (as bs : List Char) : Nat := commonWithin as.length as bs

structure Score where
  candidate : String
  common : Nat
  total : Nat
deriving DecidableEq, Repr

namespace Score

def of (word candidate : String) : Score :=
  ⟨candidate, Similarity.common candidate.toList word.toList, candidate.length + word.length⟩

/-- Common characters make up at least three fifths of both words together. -/
def isClose (s : Score) : Bool := 3 * s.total ≤ 10 * s.common

/-- The better score comes first, and of equal scores the greater candidate. -/
def before (a b : Score) : Bool :=
  if a.common * b.total = b.common * a.total then b.candidate ≤ a.candidate
  else b.common * a.total < a.common * b.total

end Score

/-- The candidates closest to a word, at most three of them, the closest first. -/
def closest (word : String) (candidates : List String) : List String :=
  (((candidates.map (Score.of word)).filter Score.isClose).mergeSort Score.before
    |>.take 3).map Score.candidate

end Similarity
end CounterLang
