/-
Sets of characters given as intervals of code points, the form in which
properties of characters are published.
-/

namespace CounterLang
namespace Text

/-- Closed intervals of code points in ascending order.  The order lets a look-up
stop at the first interval that starts beyond the code point. -/
abbrev Ranges := List (Nat × Nat)

def Ranges.covers : Ranges → Nat → Bool
  | [], _ => false
  | (low, high) :: rest, n =>
    if n < low then false else n ≤ high || Ranges.covers rest n

theorem Ranges.exists_of_covers {rs : Ranges} {n : Nat} (h : rs.covers n = true) :
    ∃ r ∈ rs, r.1 ≤ n ∧ n ≤ r.2 := by
  induction rs with
  | nil => simp [covers] at h
  | cons r rest ih =>
    obtain ⟨low, high⟩ := r
    simp only [covers] at h
    split at h
    · simp at h
    · rename_i hlow
      simp only [Bool.or_eq_true, decide_eq_true_eq] at h
      rcases h with h | h
      · exact ⟨(low, high), by simp, by simp; omega⟩
      · obtain ⟨r, hr, hb⟩ := ih h
        exact ⟨r, by simp [hr], hb⟩

end Text
end CounterLang
