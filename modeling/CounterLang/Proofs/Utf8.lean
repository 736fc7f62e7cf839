/-
Decoding is the inverse of encoding.

The decoder reads one byte after the other and keeps what it knows of a character that has been
begun.  What it accepts is said here without it: a character is formed by a lead byte and the
bytes that continue it (`Forms`), and the bytes that form a character are the ones that the
standard gives it (`forms_iff`).  So bytes are decoded to a text exactly if they are the bytes
of that text (`decode_encode`), and are refused if they are those of none (`decode_cases`).
-/
import CounterLang.Text.Utf8

namespace CounterLang
namespace Utf8

variable {b : Begun} {x : UInt8} {bytes tail rest : List UInt8} {n : Nat} {c : Char}
  {cs : List Char} {position : Nat}

/-- The bytes of a text. -/
def encode (text : String) : List UInt8 := text.toUTF8.data.toList

theorem encode_eq_flatMap (text : String) :
    encode text = text.toList.flatMap String.utf8EncodeChar := by
  rw [encode, String.toUTF8, ← String.utf8Encode_toList]
  exact List.toList_data_toByteArray

/-! ## The bytes of a character -/

namespace Begun

def Allows (b : Begun) (x : UInt8) : Prop := b.low ≤ x.toNat ∧ x.toNat ≤ b.high

/-- The bits with those of one more byte. -/
def extended (b : Begun) (x : UInt8) : Nat := b.bits * 0x40 + (x.toNat - 0x80)

def next (b : Begun) (x : UInt8) : Begun :=
  ⟨b.lead, b.length + 1, b.lacking - 1, 0x80, 0xBF, b.extended x⟩

/-- The bytes complete the character, and `n` is its code point. -/
inductive Continues : Begun → List UInt8 → Nat → Prop
  | last {b : Begun} {x : UInt8} (hx : b.Allows x) (hb : b.lacking = 1) :
      Continues b [x] (b.extended x)
  | more {b : Begun} {x : UInt8} {tail : List UInt8} {n : Nat} (hx : b.Allows x)
      (hb : b.lacking ≠ 1) (h : Continues (b.next x) tail n) : Continues b (x :: tail) n

theorem continues_of_one (hb : b.lacking = 1) :
    b.Continues tail n ↔ ∃ x, tail = [x] ∧ b.Allows x ∧ n = b.extended x := by
  constructor
  · intro h
    cases h with
    | last hx _ => exact ⟨_, rfl, hx, rfl⟩
    | more _ hb' _ => exact absurd hb hb'
  · rintro ⟨x, rfl, hx, hn⟩
    rw [hn]
    exact .last hx hb

theorem continues_of_add_two {k : Nat} (hb : b.lacking = k + 2) :
    b.Continues tail n ↔
      ∃ x tail', tail = x :: tail' ∧ b.Allows x ∧ (b.next x).Continues tail' n := by
  have hne : b.lacking ≠ 1 := by omega
  constructor
  · intro h
    cases h with
    | last _ hb' => exact absurd hb' hne
    | more hx _ h => exact ⟨_, _, rfl, hx, h⟩
  · rintro ⟨x, tail', rfl, hx, h⟩
    exact .more hx hne h

end Begun

/-- The bytes are one character, which has the code point `n`. -/
inductive Forms : List UInt8 → Nat → Prop
  | alone {x : UInt8} (hx : x.toNat < 0x80) : Forms [x] x.toNat
  | begun {x : UInt8} {b : Begun} {tail : List UInt8} {n : Nat} (hx : 0x80 ≤ x.toNat)
      (hb : begin? x = some b) (h : b.Continues tail n) : Forms (x :: tail) n

/-! ## The decoder -/

theorem map_cons_eq_ok_iff {e : Except Fault (List Char)} :
    (c :: ·) <$> e = .ok cs ↔ ∃ cs', cs = c :: cs' ∧ e = .ok cs' := by
  cases e with
  | error f => exact ⟨nofun, nofun⟩
  | ok cs' =>
    show Except.ok (c :: cs') = .ok cs ↔ _
    simp [eq_comm]

theorem decodeFrom_last (hx : b.Allows x) (hb : b.lacking = 1) :
    decodeFrom position (some b) (x :: bytes) =
      (Char.ofNat (b.extended x) :: ·) <$> decodeFrom (position + 1) none bytes := by
  rw [decodeFrom]
  exact (if_pos hx).trans (if_pos hb)

theorem decodeFrom_more (hx : b.Allows x) (hb : b.lacking ≠ 1) :
    decodeFrom position (some b) (x :: bytes) =
      decodeFrom (position + 1) (some (b.next x)) bytes := by
  rw [decodeFrom]
  exact (if_pos hx).trans (if_neg hb)

theorem decodeFrom_refused (hx : ¬b.Allows x) :
    decodeFrom position (some b) (x :: bytes) =
      .error ⟨.invalidContinuation, position - b.length, b.length, b.lead⟩ := by
  rw [decodeFrom]
  exact if_neg hx

/-- A character that has been begun is completed before the next one begins. -/
theorem decodeFrom_begun (b : Begun) (position : Nat) (bytes : List UInt8) :
    decodeFrom position (some b) bytes = .ok cs ↔
      ∃ tail rest n cs', bytes = tail ++ rest ∧ b.Continues tail n ∧ cs = Char.ofNat n :: cs' ∧
        decodeFrom (position + tail.length) none rest = .ok cs' := by
  induction bytes generalizing b position with
  | nil =>
    refine ⟨nofun, ?_⟩
    rintro ⟨tail, rest, n, cs', happend, h, -⟩
    obtain ⟨rfl, -⟩ := List.append_eq_nil_iff.mp happend.symm
    cases h
  | cons x bytes ih =>
    constructor
    · intro h
      by_cases hx : b.Allows x
      · by_cases hb : b.lacking = 1
        · rw [decodeFrom_last hx hb] at h
          obtain ⟨cs', hcs, hrest⟩ := map_cons_eq_ok_iff.mp h
          exact ⟨[x], bytes, _, cs', rfl, .last hx hb, hcs, hrest⟩
        · rw [decodeFrom_more hx hb] at h
          obtain ⟨tail, rest, n, cs', rfl, htail, hcs, hrest⟩ := (ih _ _).mp h
          refine ⟨x :: tail, rest, n, cs', rfl, .more hx hb htail, hcs, ?_⟩
          rwa [List.length_cons, ← Nat.add_assoc, Nat.add_right_comm]
      · rw [decodeFrom_refused hx] at h
        cases h
    · rintro ⟨tail, rest, n, cs', happend, htail, hcs, hrest⟩
      cases htail with
      | last hx hb =>
        obtain ⟨rfl, rfl⟩ := List.cons.inj happend
        rw [decodeFrom_last hx hb]
        exact map_cons_eq_ok_iff.mpr ⟨cs', hcs, hrest⟩
      | more hx hb htail =>
        obtain ⟨rfl, rfl⟩ := List.cons.inj happend
        rw [decodeFrom_more hx hb]
        refine (ih _ _).mpr ⟨_, rest, n, cs', rfl, htail, hcs, ?_⟩
        rwa [List.length_cons, ← Nat.add_assoc, Nat.add_right_comm] at hrest

theorem decodeFrom_alone (hx : x.toNat < 0x80) :
    decodeFrom position none (x :: bytes) =
      (Char.ofNat x.toNat :: ·) <$> decodeFrom (position + 1) none bytes := by
  rw [decodeFrom]
  exact if_pos hx

theorem decodeFrom_lead (hx : ¬x.toNat < 0x80) (hb : begin? x = some b) :
    decodeFrom position none (x :: bytes) = decodeFrom (position + 1) (some b) bytes := by
  rw [decodeFrom, if_neg hx, hb]

theorem decodeFrom_stray (hx : ¬x.toNat < 0x80) (hb : begin? x = none) :
    decodeFrom position none (x :: bytes) = .error ⟨.invalidStart, position, 1, x⟩ := by
  rw [decodeFrom, if_neg hx, hb]

/-- The first of the bytes form a character, and the rest is decoded behind it. -/
theorem decodeFrom_cons (position : Nat) (x : UInt8) (bytes : List UInt8) :
    decodeFrom position none (x :: bytes) = .ok cs ↔
      ∃ form rest n cs', x :: bytes = form ++ rest ∧ Forms form n ∧ cs = Char.ofNat n :: cs' ∧
        decodeFrom (position + form.length) none rest = .ok cs' := by
  constructor
  · intro h
    by_cases hx : x.toNat < 0x80
    · rw [decodeFrom_alone hx] at h
      obtain ⟨cs', hcs, hrest⟩ := map_cons_eq_ok_iff.mp h
      exact ⟨[x], bytes, _, cs', rfl, .alone hx, hcs, hrest⟩
    · cases hb : begin? x with
      | none =>
        rw [decodeFrom_stray hx hb] at h
        cases h
      | some b =>
        rw [decodeFrom_lead hx hb] at h
        obtain ⟨tail, rest, n, cs', rfl, htail, hcs, hrest⟩ := (decodeFrom_begun _ _ _).mp h
        refine ⟨x :: tail, rest, n, cs', rfl, .begun (Nat.le_of_not_lt hx) hb htail, hcs, ?_⟩
        rwa [List.length_cons, ← Nat.add_assoc, Nat.add_right_comm]
  · rintro ⟨form, rest, n, cs', happend, hform, hcs, hrest⟩
    cases hform with
    | alone hx =>
      obtain ⟨rfl, rfl⟩ := List.cons.inj happend
      rw [decodeFrom_alone hx]
      exact map_cons_eq_ok_iff.mpr ⟨cs', hcs, hrest⟩
    | begun hx hb htail =>
      obtain ⟨rfl, rfl⟩ := List.cons.inj happend
      rw [decodeFrom_lead (Nat.not_lt_of_le hx) hb]
      refine (decodeFrom_begun _ _ _).mpr ⟨_, rest, n, cs', rfl, htail, hcs, ?_⟩
      rwa [List.length_cons, ← Nat.add_assoc, Nat.add_right_comm] at hrest

/-! ## The bytes of the standard -/

theorem begin?_two (hlow : 0xC2 ≤ x.toNat) (hhigh : x.toNat < 0xE0) :
    begin? x = some ⟨x, 1, 1, 0x80, 0xBF, x.toNat - 0xC0⟩ := by
  simp only [begin?]
  rw [if_neg (by omega), if_pos hhigh]

theorem begin?_three (hlow : 0xE0 ≤ x.toNat) (hhigh : x.toNat < 0xF0) :
    begin? x = some ⟨x, 1, 2, if x.toNat = 0xE0 then 0xA0 else 0x80,
      if x.toNat = 0xED then 0x9F else 0xBF, x.toNat - 0xE0⟩ := by
  simp only [begin?]
  rw [if_neg (by omega), if_neg (by omega), if_pos hhigh]

theorem begin?_four (hlow : 0xF0 ≤ x.toNat) (hhigh : x.toNat < 0xF5) :
    begin? x = some ⟨x, 1, 3, if x.toNat = 0xF0 then 0x90 else 0x80,
      if x.toNat = 0xF4 then 0x8F else 0xBF, x.toNat - 0xF0⟩ := by
  simp only [begin?]
  rw [if_neg (by omega), if_neg (by omega), if_neg (by omega), if_pos hhigh]

theorem begin?_eq_none (h : x.toNat < 0xC2 ∨ 0xF5 ≤ x.toNat) : begin? x = none := by
  simp only [begin?]
  by_cases hlow : x.toNat < 0xC2
  · exact if_pos hlow
  · rw [if_neg hlow, if_neg (by omega), if_neg (by omega), if_neg (by omega)]

/-- The second byte of a long character is bounded more closely behind some leads. -/
theorem bounds_iff {p q : Prop} [Decidable p] [Decidable q] {low high : Nat} (hlow : 0x80 ≤ low)
    (hhigh : high ≤ 0xBF) :
    (if p then low else 0x80) ≤ n ∧ n ≤ (if q then high else 0xBF) ↔
      0x80 ≤ n ∧ n ≤ 0xBF ∧ (p → low ≤ n) ∧ (q → n ≤ high) := by
  by_cases hp : p
  · by_cases hq : q
    · simp only [hp, hq, if_true, true_implies]
      omega
    · simp only [hp, hq, if_true, if_false, true_implies, false_implies, and_true]
      omega
  · by_cases hq : q
    · simp only [hp, hq, if_true, if_false, true_implies, false_implies, true_and]
      omega
    · simp only [hp, hq, if_false, false_implies, and_true]

section Lengths

variable {y z w : UInt8}

/-- A byte that only ever continues a character. -/
def IsTail (x : UInt8) : Prop := 0x80 ≤ x.toNat ∧ x.toNat ≤ 0xBF

theorem forms_pair_iff (hx : 0xC2 ≤ x.toNat) (hx' : x.toNat < 0xE0) :
    Forms (x :: tail) n ↔
      ∃ y, tail = [y] ∧ IsTail y ∧ n = (x.toNat - 0xC0) * 0x40 + (y.toNat - 0x80) := by
  constructor
  · intro h
    cases h with
    | alone h => omega
    | begun _ hb h =>
      rw [begin?_two hx hx', Option.some.injEq] at hb
      subst hb
      exact (Begun.continues_of_one rfl).mp h
  · intro h
    exact .begun (by omega) (begin?_two hx hx') ((Begun.continues_of_one rfl).mpr h)

theorem forms_triple_iff (hx : 0xE0 ≤ x.toNat) (hx' : x.toNat < 0xF0) :
    Forms (x :: tail) n ↔
      ∃ y z, tail = [y, z] ∧ IsTail y ∧ IsTail z ∧ (x.toNat = 0xE0 → 0xA0 ≤ y.toNat) ∧
        (x.toNat = 0xED → y.toNat ≤ 0x9F) ∧
        n = ((x.toNat - 0xE0) * 0x40 + (y.toNat - 0x80)) * 0x40 + (z.toNat - 0x80) := by
  constructor
  · intro h
    cases h with
    | alone h => omega
    | begun _ hb h =>
      rw [begin?_three hx hx', Option.some.injEq] at hb
      subst hb
      obtain ⟨y, tail, rfl, hy, h⟩ := (Begun.continues_of_add_two rfl).mp h
      obtain ⟨z, rfl, hz, hn⟩ := (Begun.continues_of_one rfl).mp h
      have hy := (bounds_iff (by decide) (by decide)).mp hy
      exact ⟨y, z, rfl, ⟨hy.1, hy.2.1⟩, hz, hy.2.2.1, hy.2.2.2, hn⟩
  · rintro ⟨y, z, rfl, hy, hz, hlow, hhigh, hn⟩
    apply Forms.begun (by omega) (begin?_three hx hx')
    apply (Begun.continues_of_add_two rfl).mpr
    refine ⟨y, [z], rfl, (bounds_iff (by decide) (by decide)).mpr ⟨hy.1, hy.2, hlow, hhigh⟩, ?_⟩
    exact (Begun.continues_of_one rfl).mpr ⟨z, rfl, hz, hn⟩

theorem forms_quadruple_iff (hx : 0xF0 ≤ x.toNat) (hx' : x.toNat < 0xF5) :
    Forms (x :: tail) n ↔
      ∃ y z w, tail = [y, z, w] ∧ IsTail y ∧ IsTail z ∧ IsTail w ∧
        (x.toNat = 0xF0 → 0x90 ≤ y.toNat) ∧ (x.toNat = 0xF4 → y.toNat ≤ 0x8F) ∧
        n = (((x.toNat - 0xF0) * 0x40 + (y.toNat - 0x80)) * 0x40 + (z.toNat - 0x80)) * 0x40 +
          (w.toNat - 0x80) := by
  constructor
  · intro h
    cases h with
    | alone h => omega
    | begun _ hb h =>
      rw [begin?_four hx hx', Option.some.injEq] at hb
      subst hb
      obtain ⟨y, tail, rfl, hy, h⟩ := (Begun.continues_of_add_two rfl).mp h
      obtain ⟨z, tail, rfl, hz, h⟩ := (Begun.continues_of_add_two rfl).mp h
      obtain ⟨w, rfl, hw, hn⟩ := (Begun.continues_of_one rfl).mp h
      have hy := (bounds_iff (by decide) (by decide)).mp hy
      exact ⟨y, z, w, rfl, ⟨hy.1, hy.2.1⟩, hz, hw, hy.2.2.1, hy.2.2.2, hn⟩
  · rintro ⟨y, z, w, rfl, hy, hz, hw, hlow, hhigh, hn⟩
    apply Forms.begun (by omega) (begin?_four hx hx')
    apply (Begun.continues_of_add_two rfl).mpr
    refine ⟨y, [z, w], rfl, (bounds_iff (by decide) (by decide)).mpr ⟨hy.1, hy.2, hlow, hhigh⟩, ?_⟩
    apply (Begun.continues_of_add_two rfl).mpr
    refine ⟨z, [w], rfl, hz, ?_⟩
    exact (Begun.continues_of_one rfl).mpr ⟨w, rfl, hw, hn⟩

theorem ofNat_eq (h : n = x.toNat) : UInt8.ofNat n = x := by
  rw [h, UInt8.ofNat_toNat]

/-- The bytes that the standard gives to a character form it.  How many there are depends on
how large its code point is, and that it is no surrogate bounds the second of three. -/
theorem forms_encodeChar (c : Char) : Forms (String.utf8EncodeChar c) c.toNat := by
  have hvalid : c.toNat < 0xD800 ∨ 0xDFFF < c.toNat ∧ c.toNat < 0x110000 := c.valid
  have hval : c.val.toNat = c.toNat := rfl
  simp only [String.utf8EncodeChar, hval]
  split
  · have hx : (UInt8.ofNat c.toNat).toNat = c.toNat := by
      rw [UInt8.toNat_ofNat']
      omega
    have hform := Forms.alone (x := UInt8.ofNat c.toNat) (by omega)
    rwa [hx] at hform
  · split
    · refine (forms_pair_iff ?_ ?_).mpr ⟨_, rfl, ?_, ?_⟩
      all_goals simp only [IsTail, UInt8.toNat_ofNat']
      all_goals omega
    · split
      · refine (forms_triple_iff ?_ ?_).mpr ⟨_, _, rfl, ?_, ?_, ?_, ?_, ?_⟩
        all_goals simp only [IsTail, UInt8.toNat_ofNat']
        all_goals omega
      · refine (forms_quadruple_iff ?_ ?_).mpr ⟨_, _, _, rfl, ?_, ?_, ?_, ?_, ?_, ?_⟩
        all_goals simp only [IsTail, UInt8.toNat_ofNat']
        all_goals omega

/-- With the bits of two bytes, the character has those two bytes. -/
theorem encodeChar_pair (hx : 0xC2 ≤ x.toNat) (hx' : x.toNat < 0xE0) (hy : IsTail y)
    (hc : c.toNat = (x.toNat - 0xC0) * 0x40 + (y.toNat - 0x80)) :
    String.utf8EncodeChar c = [x, y] := by
  have hval : c.val.toNat = c.toNat := rfl
  obtain ⟨hlow, hhigh⟩ := hy
  simp only [String.utf8EncodeChar, hval]
  rw [if_neg (by omega), if_pos (by omega), ofNat_eq (x := x) (by omega),
    ofNat_eq (x := y) (by omega)]

theorem encodeChar_triple (hx : 0xE0 ≤ x.toNat) (hx' : x.toNat < 0xF0) (hy : IsTail y)
    (hz : IsTail z) (hlow : x.toNat = 0xE0 → 0xA0 ≤ y.toNat)
    (hc : c.toNat = ((x.toNat - 0xE0) * 0x40 + (y.toNat - 0x80)) * 0x40 + (z.toNat - 0x80)) :
    String.utf8EncodeChar c = [x, y, z] := by
  have hval : c.val.toNat = c.toNat := rfl
  obtain ⟨hy, hy'⟩ := hy
  obtain ⟨hz, hz'⟩ := hz
  simp only [String.utf8EncodeChar, hval]
  rw [if_neg (by omega), if_neg (by omega), if_pos (by omega), ofNat_eq (x := x) (by omega),
    ofNat_eq (x := y) (by omega), ofNat_eq (x := z) (by omega)]

theorem encodeChar_quadruple (hx : 0xF0 ≤ x.toNat) (hx' : x.toNat < 0xF5) (hy : IsTail y)
    (hz : IsTail z) (hw : IsTail w) (hlow : x.toNat = 0xF0 → 0x90 ≤ y.toNat)
    (hc : c.toNat = (((x.toNat - 0xF0) * 0x40 + (y.toNat - 0x80)) * 0x40 + (z.toNat - 0x80)) *
      0x40 + (w.toNat - 0x80)) :
    String.utf8EncodeChar c = [x, y, z, w] := by
  have hval : c.val.toNat = c.toNat := rfl
  obtain ⟨hy, hy'⟩ := hy
  obtain ⟨hz, hz'⟩ := hz
  obtain ⟨hw, hw'⟩ := hw
  simp only [String.utf8EncodeChar, hval]
  rw [if_neg (by omega), if_neg (by omega), if_neg (by omega), ofNat_eq (x := x) (by omega),
    ofNat_eq (x := y) (by omega), ofNat_eq (x := z) (by omega), ofNat_eq (x := w) (by omega)]

theorem exists_char_of_valid (h : n < 0xD800 ∨ 0xDFFF < n ∧ n < 0x110000) :
    ∃ c : Char, c.toNat = n := ⟨Char.ofNatAux n h, rfl⟩

/-- No other bytes form a character. -/
theorem Forms.exists_char (h : Forms bytes n) :
    ∃ c : Char, c.toNat = n ∧ bytes = String.utf8EncodeChar c := by
  cases bytes with
  | nil => cases h
  | cons x tail =>
    by_cases htwo : 0xC2 ≤ x.toNat ∧ x.toNat < 0xE0
    · obtain ⟨y, rfl, hy, hn⟩ := (forms_pair_iff htwo.1 htwo.2).mp h
      obtain ⟨c, hc⟩ := exists_char_of_valid (n := n) (by
        obtain ⟨_, _⟩ := hy
        omega)
      exact ⟨c, hc, (encodeChar_pair htwo.1 htwo.2 hy (hc.trans hn)).symm⟩
    by_cases hthree : 0xE0 ≤ x.toNat ∧ x.toNat < 0xF0
    · obtain ⟨y, z, rfl, hy, hz, hlow, hhigh, hn⟩ := (forms_triple_iff hthree.1 hthree.2).mp h
      obtain ⟨c, hc⟩ := exists_char_of_valid (n := n) (by
        obtain ⟨_, _⟩ := hy
        obtain ⟨_, _⟩ := hz
        omega)
      exact ⟨c, hc, (encodeChar_triple hthree.1 hthree.2 hy hz hlow (hc.trans hn)).symm⟩
    by_cases hfour : 0xF0 ≤ x.toNat ∧ x.toNat < 0xF5
    · obtain ⟨y, z, w, rfl, hy, hz, hw, hlow, hhigh, hn⟩ :=
        (forms_quadruple_iff hfour.1 hfour.2).mp h
      obtain ⟨c, hc⟩ := exists_char_of_valid (n := n) (by
        obtain ⟨_, _⟩ := hy
        obtain ⟨_, _⟩ := hz
        obtain ⟨_, _⟩ := hw
        omega)
      exact ⟨c, hc, (encodeChar_quadruple hfour.1 hfour.2 hy hz hw hlow (hc.trans hn)).symm⟩
    cases h with
    | alone hx =>
      obtain ⟨c, hc⟩ := exists_char_of_valid (n := x.toNat) (by omega)
      refine ⟨c, hc, ?_⟩
      have hval : c.val.toNat = x.toNat := hc
      simp only [String.utf8EncodeChar, hval]
      rw [if_pos (by omega), UInt8.ofNat_toNat]
    | begun hx hb h =>
      rw [begin?_eq_none (by omega)] at hb
      cases hb

end Lengths

theorem forms_iff : Forms bytes n ↔ ∃ c : Char, c.toNat = n ∧ bytes = String.utf8EncodeChar c := by
  refine ⟨Forms.exists_char, ?_⟩
  rintro ⟨c, rfl, rfl⟩
  exact forms_encodeChar c

/-! ## Texts -/

theorem decodeFrom_eq_ok_iff :
    decodeFrom position none bytes = .ok cs ↔ bytes = cs.flatMap String.utf8EncodeChar := by
  induction cs generalizing position bytes with
  | nil =>
    cases bytes with
    | nil => exact ⟨fun _ => rfl, fun _ => rfl⟩
    | cons x bytes =>
      refine ⟨fun h => ?_, nofun⟩
      obtain ⟨form, rest, n, cs', -, -, hcs, -⟩ := (decodeFrom_cons position x bytes).mp h
      cases hcs
  | cons c cs ih =>
    rw [List.flatMap_cons]
    cases bytes with
    | nil =>
      refine ⟨nofun, fun h => ?_⟩
      have hnil := (List.append_eq_nil_iff.mp h.symm).1
      have hform := forms_encodeChar c
      rw [hnil] at hform
      cases hform
    | cons x bytes =>
      rw [decodeFrom_cons]
      constructor
      · rintro ⟨form, rest, n, cs', happend, hform, hcs, hrest⟩
        obtain ⟨rfl, rfl⟩ := List.cons.inj hcs
        obtain ⟨c', rfl, rfl⟩ := forms_iff.mp hform
        rw [happend, ih.mp hrest, Char.ofNat_toNat]
      · intro h
        exact ⟨_, _, c.toNat, cs, h, forms_encodeChar c, by rw [Char.ofNat_toNat], ih.mpr rfl⟩

theorem decode_encode (text : String) : decode (encode text) = .ok text.toList :=
  decodeFrom_eq_ok_iff.mpr (encode_eq_flatMap text)

/-- Bytes are those of one text, to which they are decoded, or of none, and are refused. -/
theorem decode_cases (bytes : List UInt8) :
    (∃ text, bytes = encode text) ∨
      (∃ f, decode bytes = .error f) ∧ ∀ text, bytes ≠ encode text := by
  cases h : decode bytes with
  | ok cs =>
    refine Or.inl ⟨String.ofList cs, ?_⟩
    rw [encode_eq_flatMap, String.toList_ofList]
    exact decodeFrom_eq_ok_iff.mp h
  | error f =>
    refine Or.inr ⟨⟨f, rfl⟩, ?_⟩
    rintro text rfl
    rw [decode_encode] at h
    cases h

end Utf8
end CounterLang
