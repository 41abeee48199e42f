import Mathlib

/-!
# Decimal texts

Numbers written in base ten, one character a digit, most significant first.
-/
namespace Decimal

/-- A character string. -/
abbrev Text := List Char

/-- The decimal text of a number, without leading zeros. -/
def digits (n : Nat) : Text := Nat.toDigits 10 n

/-- The number a text of decimal digits denotes. -/
def value (s : Text) : Nat := Nat.ofDigitChars 10 s 0

/-- The number one digit denotes. -/
def digitOf (c : Char) : Nat := c.toNat - 48

/-- Every character is a decimal digit. -/
def Numeric (s : Text) : Prop := ∀ c ∈ s, c.isDigit = true

variable {s t : Text} {c : Char} {n m : Nat}

@[simp] theorem numeric_nil : Numeric [] := by simp [Numeric]

@[simp] theorem numeric_cons : Numeric (c :: s) ↔ c.isDigit = true ∧ Numeric s := by
  simp [Numeric]

@[simp] theorem numeric_append : Numeric (s ++ t) ↔ Numeric s ∧ Numeric t := by
  simp [Numeric, or_imp, forall_and]

theorem numeric_digits (n : Nat) : Numeric (digits n) :=
  fun _ hc => Nat.isDigit_of_mem_toDigits (by decide) (by decide) hc

theorem numeric_replicate_zero (n : Nat) : Numeric (List.replicate n '0') := by
  intro c hc
  rw [(List.mem_replicate.mp hc).2]
  rfl

@[simp] theorem digits_ne_nil (n : Nat) : digits n ≠ [] := Nat.toDigits_ne_nil

@[simp] theorem value_digits (n : Nat) : value (digits n) = n := Nat.ofDigitChars_ten_toDigits

theorem digits_injective : Function.Injective digits :=
  Function.LeftInverse.injective value_digits

@[simp] theorem digits_inj : digits n = digits m ↔ n = m := digits_injective.eq_iff

@[simp] theorem value_nil : value [] = 0 := rfl

theorem value_append (s t : Text) : value (s ++ t) = value s * 10 ^ t.length + value t := by
  simp only [value, Nat.ofDigitChars_append]
  rw [Nat.ofDigitChars_eq_ofDigitChars_zero, Nat.mul_comm]

theorem value_singleton (c : Char) : value [c] = digitOf c := by
  simp [value, Nat.ofDigitChars_cons, digitOf]

theorem value_cons (c : Char) (s : Text) :
    value (c :: s) = digitOf c * 10 ^ s.length + value s := by
  rw [← List.singleton_append, value_append, value_singleton]

@[simp] theorem value_replicate_zero_append (n : Nat) (s : Text) :
    value (List.replicate n '0' ++ s) = value s := by
  have h0 : value (List.replicate n '0') = 0 := by simp [value]
  rw [value_append, h0, Nat.zero_mul, Nat.zero_add]

theorem digit_bounds (h : c.isDigit = true) : 48 ≤ c.toNat ∧ c.toNat ≤ 57 :=
  Char.isDigit_iff_toNat.mp h

theorem digitOf_lt (h : c.isDigit = true) : digitOf c < 10 := by
  have := digit_bounds h
  simp only [digitOf]
  omega

theorem digitChar_digitOf (h : c.isDigit = true) : (digitOf c).digitChar = c := by
  have := digit_bounds h
  apply Char.toNat_inj.mp
  rw [Nat.toNat_digitChar_of_lt_ten (digitOf_lt h), digitOf]
  omega

theorem digitOf_pos (h : c.isDigit = true) (hc : c ≠ '0') : 0 < digitOf c := by
  have := digit_bounds h
  have : c.toNat ≠ 48 := fun he => hc (Char.toNat_inj.mp he)
  simp only [digitOf]
  omega

/-- A text of `n` digits denotes a number below `10 ^ n`. -/
theorem value_lt (h : Numeric s) : value s < 10 ^ s.length := by
  induction s with
  | nil => simp
  | cons c s ih =>
    obtain ⟨hc, hs⟩ := numeric_cons.mp h
    have hv := ih hs
    have hd := digitOf_lt hc
    rw [value_cons, List.length_cons, Nat.pow_succ]
    nlinarith

/-- A text that does not start with a zero denotes at least `10 ^ (n - 1)`. -/
theorem le_value_cons (hc : c.isDigit = true) (h0 : c ≠ '0') (s : Text) :
    10 ^ s.length ≤ value (c :: s) := by
  have hp := digitOf_pos hc h0
  rw [value_cons]
  exact Nat.le_add_right_of_le (Nat.le_mul_of_pos_left _ hp)

/-- A digit text without a leading zero is the text of its number. -/
theorem digits_value (h : Numeric s) (hne : s ≠ []) (h0 : s.head? ≠ some '0') :
    digits (value s) = s := by
  induction s using List.reverseRecOn with
  | nil => exact absurd rfl hne
  | append_singleton t c ih =>
    obtain ⟨ht, hc⟩ := numeric_append.mp h
    have hc : c.isDigit = true := by simpa using hc
    have hd := digitOf_lt hc
    have hcd : digits (digitOf c) = [c] := by
      rw [digits, Nat.toDigits_of_lt_base hd, digitChar_digitOf hc]
    rw [value_append, value_singleton, List.length_singleton, Nat.pow_one, Nat.mul_comm]
    cases t with
    | nil => simpa using hcd
    | cons d t =>
      have hd0 : d ≠ '0' := by simpa using h0
      have hpos : 0 < value (d :: t) :=
        Nat.lt_of_lt_of_le (Nat.pow_pos (by decide)) (le_value_cons (numeric_cons.mp ht).1 hd0 t)
      have happ : digits (10 * value (d :: t) + digitOf c) =
          digits (value (d :: t)) ++ digits (digitOf c) :=
        (Nat.toDigits_append_toDigits (by decide) hpos hd).symm
      rw [happ, ih ht (by simp) (by simpa using hd0), hcd]

theorem value_dropWhile_zero (s : Text) : value (s.dropWhile (· == '0')) = value s := by
  induction s with
  | nil => rfl
  | cons c s ih =>
    by_cases h : c = '0'
    · subst c
      simp [value_cons, digitOf, ih]
    · simp [h]

theorem numeric_dropWhile_zero (h : Numeric s) : Numeric (s.dropWhile (· == '0')) :=
  fun _ hc => h _ ((List.dropWhile_sublist _).subset hc)

theorem head_dropWhile_zero (s : Text) : (s.dropWhile (· == '0')).head? ≠ some '0' := by
  intro h
  have := List.head?_dropWhile_not (· == '0') s
  simp [h] at this

/-- Among texts of one length the lexicographic order is the numeric one. -/
theorem lt_iff_value_lt (hs : Numeric s) (ht : Numeric t) (hlen : s.length = t.length) :
    s < t ↔ value s < value t := by
  induction s generalizing t with
  | nil =>
    cases t with
    | nil => simp
    | cons => simp at hlen
  | cons c s ih =>
    cases t with
    | nil => simp at hlen
    | cons d t =>
      obtain ⟨hc, hs⟩ := numeric_cons.mp hs
      obtain ⟨hd, ht⟩ := numeric_cons.mp ht
      have hlen : s.length = t.length := by simpa using hlen
      have hvs := value_lt hs
      have hvt := value_lt ht
      rw [hlen] at hvs
      have hcd : c < d ↔ digitOf c < digitOf d := by
        have := digit_bounds hc
        have := digit_bounds hd
        rw [Char.lt_def, UInt32.lt_iff_toNat_lt]
        change c.toNat < d.toNat ↔ _
        simp only [digitOf]
        omega
      have heq : c = d ↔ digitOf c = digitOf d := by
        constructor
        · rintro rfl; rfl
        · intro h; rw [← digitChar_digitOf hc, h, digitChar_digitOf hd]
      rw [List.cons_lt_cons_iff, ih hs ht hlen, hcd, heq, value_cons, value_cons, hlen]
      rcases lt_trichotomy (digitOf c) (digitOf d) with h | h | h
      · refine ⟨fun _ => ?_, fun _ => .inl h⟩
        nlinarith
      · simp [h]
      · constructor
        · rintro (h' | ⟨h', _⟩) <;> omega
        · intro h'
          nlinarith

/-- Lexicographic order looks past a common prefix only when it is common. -/
theorem append_lt_append_iff {x y : Text} (hlen : s.length = t.length) :
    s ++ x < t ++ y ↔ s < t ∨ s = t ∧ x < y := by
  induction s generalizing t with
  | nil =>
    cases t with
    | nil => simp
    | cons => simp at hlen
  | cons c s ih =>
    cases t with
    | nil => simp at hlen
    | cons d t =>
      have hlen : s.length = t.length := by simpa using hlen
      simp only [List.cons_append, List.cons_lt_cons_iff, ih hlen, List.cons.injEq]
      tauto

/-- A longer text without a leading zero denotes a larger number. -/
theorem value_lt_of_length_lt (hs : Numeric s) (ht : Numeric t) (h0 : t.head? ≠ some '0')
    (hlen : s.length < t.length) : value s < value t := by
  cases t with
  | nil => simp at hlen
  | cons d t =>
    calc value s < 10 ^ s.length := value_lt hs
      _ ≤ 10 ^ t.length := Nat.pow_le_pow_right (by decide)
        (by simpa [Nat.lt_succ_iff] using hlen)
      _ ≤ value (d :: t) := le_value_cons (numeric_cons.mp ht).1 (by simpa using h0) t

theorem length_digits_le (h : n < 10 ^ m) (hm : 0 < m) : (digits n).length ≤ m :=
  (Nat.length_toDigits_le_iff (by decide) hm).mpr h

theorem head_digits (h : n ≠ 0) : (digits n).head? ≠ some '0' := by
  intro h0
  -- Dropping the leading zero leaves a shorter text of the same number.
  obtain ⟨s, hs⟩ : ∃ s, digits n = '0' :: s := by
    cases hd : digits n with
    | nil => exact absurd hd (digits_ne_nil n)
    | cons c s => simp [hd] at h0; exact ⟨s, by rw [h0]⟩
  have hv : value s = n := by rw [← value_digits n, hs, value_cons]; simp [digitOf]
  have hdig : Numeric s := (numeric_cons.mp (hs ▸ numeric_digits n)).2
  have hpos : 0 < s.length := by
    cases s with
    | nil => exact absurd hv.symm h
    | cons => simp
  have hle := length_digits_le (hv ▸ value_lt hdig) hpos
  simp [hs] at hle

theorem colon_not_mem_digits (n : Nat) : ':' ∉ digits n :=
  fun h => absurd (numeric_digits n _ h) (by decide)

end Decimal
