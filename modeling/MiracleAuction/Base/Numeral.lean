import Mathlib

/-!
# Rounded numbers and their texts

Integers rounded to a number of significant digits, as binary floating point
and `%g` formatting round them, and the two shapes a printed integer takes.
-/
namespace Numeral

/-- The multiple of `u` nearest to `n`; a tie goes to the even multiple. -/
def roundHalfEven (u n : Nat) : Nat :=
  let q := n / u
  let r := n % u
  if 2 * r < u then q * u
  else if u < 2 * r then (q + 1) * u
  else if q % 2 = 0 then q * u else (q + 1) * u

/-- `n` rounded to `p` significant digits in base `b`. -/
def roundNat (b p n : Nat) : Nat :=
  if n < b ^ p then n else roundHalfEven (b ^ (Nat.log b n + 1 - p)) n

/-- Rounding keeps the sign. -/
def round (b p : Nat) (x : Int) : Int := x.sign * roundNat b p x.natAbs

theorem roundNat_of_lt {b p n : Nat} (h : n < b ^ p) : roundNat b p n = n := by
  simp [roundNat, h]

theorem round_of_lt {b p : Nat} {x : Int} (h : x.natAbs < b ^ p) : round b p x = x := by
  rw [round, roundNat_of_lt h]
  exact Int.sign_mul_natAbs x

/-! ## Rounding is monotone and idempotent -/

variable {b p u m n : Nat}

theorem dvd_roundHalfEven (u n : Nat) : u ∣ roundHalfEven u n := by
  simp only [roundHalfEven]
  split
  · exact Nat.dvd_mul_left _ _
  · split
    · exact Nat.dvd_mul_left _ _
    · split <;> exact Nat.dvd_mul_left _ _

theorem roundHalfEven_of_dvd (hu : 0 < u) (h : u ∣ n) : roundHalfEven u n = n := by
  simp [roundHalfEven, Nat.mod_eq_zero_of_dvd h, hu, Nat.div_mul_cancel h]

/-- The rounded number is one of the two multiples around `n`. -/
theorem roundHalfEven_bounds (u n : Nat) :
    n / u * u ≤ roundHalfEven u n ∧ roundHalfEven u n ≤ (n / u + 1) * u := by
  have hle : n / u * u ≤ (n / u + 1) * u := Nat.mul_le_mul_right u (Nat.le_succ _)
  simp only [roundHalfEven]
  split
  · exact ⟨Nat.le_refl _, hle⟩
  · split
    · exact ⟨hle, Nat.le_refl _⟩
    · split
      · exact ⟨Nat.le_refl _, hle⟩
      · exact ⟨hle, Nat.le_refl _⟩

theorem roundHalfEven_eq (u n : Nat) :
    roundHalfEven u n =
      if u < 2 * (n % u) ∨ 2 * (n % u) = u ∧ n / u % 2 = 1 then (n / u + 1) * u
        else n / u * u := by
  simp only [roundHalfEven]
  split
  · rw [if_neg (by omega)]
  · split
    · rw [if_pos (by omega)]
    · split
      · rw [if_neg (by omega)]
      · rw [if_pos (by omega)]

theorem roundHalfEven_mono (h : m ≤ n) : roundHalfEven u m ≤ roundHalfEven u n := by
  rcases Nat.lt_or_eq_of_le (Nat.div_le_div_right (c := u) h) with hq | hq
  · calc roundHalfEven u m ≤ (m / u + 1) * u := (roundHalfEven_bounds u m).2
      _ ≤ n / u * u := Nat.mul_le_mul_right u hq
      _ ≤ roundHalfEven u n := (roundHalfEven_bounds u n).1
  · -- Between the same two multiples the remainders decide.
    have hr : m % u ≤ n % u := by
      have hm := Nat.div_add_mod m u
      have hn := Nat.div_add_mod n u
      rw [hq] at hm
      omega
    have hle : n / u * u ≤ (n / u + 1) * u := Nat.mul_le_mul_right u (Nat.le_succ _)
    rw [roundHalfEven_eq, roundHalfEven_eq, hq]
    split
    · rw [if_pos (by omega)]
    · split
      · exact hle
      · exact Nat.le_refl _

/-- A number of at least `b ^ p` is rounded between the powers of `b` around it. -/
theorem roundNat_bounds (hb : 1 < b) (hp : 0 < p) (hn : b ^ p ≤ n) :
    b ^ Nat.log b n ≤ roundNat b p n ∧ roundNat b p n ≤ b ^ (Nat.log b n + 1) := by
  have hn0 : n ≠ 0 := by
    have := Nat.pow_pos (n := p) (Nat.lt_trans Nat.zero_lt_one hb)
    omega
  have hu : 0 < b ^ (Nat.log b n + 1 - p) := Nat.pow_pos (by omega)
  have hdvd : b ^ (Nat.log b n + 1 - p) ∣ b ^ Nat.log b n := Nat.pow_dvd_pow b (by omega)
  rw [roundNat, if_neg (by omega)]
  constructor
  · calc b ^ Nat.log b n = roundHalfEven (b ^ (Nat.log b n + 1 - p)) (b ^ Nat.log b n) :=
          (roundHalfEven_of_dvd hu hdvd).symm
      _ ≤ _ := roundHalfEven_mono (Nat.pow_log_le_self b hn0)
  · calc _ ≤ roundHalfEven (b ^ (Nat.log b n + 1 - p)) (b ^ (Nat.log b n + 1)) :=
          roundHalfEven_mono (Nat.le_of_lt (Nat.lt_pow_succ_log_self hb n))
      _ = b ^ (Nat.log b n + 1) :=
          roundHalfEven_of_dvd hu (Nat.dvd_trans hdvd (Nat.pow_dvd_pow b (Nat.le_succ _)))

theorem roundNat_mono (hb : 1 < b) (hp : 0 < p) (h : m ≤ n) :
    roundNat b p m ≤ roundNat b p n := by
  by_cases hn : n < b ^ p
  · rwa [roundNat_of_lt hn, roundNat_of_lt (by omega)]
  · have hlow := (roundNat_bounds hb hp (not_lt.mp hn)).1
    have hpow : b ^ p ≤ b ^ Nat.log b n := by
      refine Nat.pow_le_pow_right (by omega) ?_
      exact Nat.le_log_of_pow_le hb (not_lt.mp hn)
    by_cases hm : m < b ^ p
    · rw [roundNat_of_lt hm]
      omega
    · rcases Nat.lt_or_eq_of_le (Nat.log_mono_right (b := b) h) with hlog | hlog
      · calc roundNat b p m ≤ b ^ (Nat.log b m + 1) := (roundNat_bounds hb hp (not_lt.mp hm)).2
          _ ≤ b ^ Nat.log b n := Nat.pow_le_pow_right (by omega) hlog
          _ ≤ roundNat b p n := hlow
      · rw [roundNat, if_neg hm, roundNat, if_neg hn, hlog]
        exact roundHalfEven_mono h

theorem roundNat_roundNat (hb : 1 < b) (hp : 0 < p) (n : Nat) :
    roundNat b p (roundNat b p n) = roundNat b p n := by
  by_cases hn : n < b ^ p
  · rw [roundNat_of_lt hn, roundNat_of_lt hn]
  · have hlog : p ≤ Nat.log b n := Nat.le_log_of_pow_le hb (not_lt.mp hn)
    obtain ⟨hlow, hhigh⟩ := roundNat_bounds hb hp (not_lt.mp hn)
    have hdvd : b ^ (Nat.log b n + 1 - p) ∣ roundNat b p n := by
      rw [roundNat, if_neg hn]
      exact dvd_roundHalfEven _ _
    generalize roundNat b p n = r at *
    have hr : ¬ r < b ^ p := by
      have := Nat.pow_le_pow_right (n := b) (by omega) hlog
      omega
    rw [roundNat, if_neg hr]
    refine roundHalfEven_of_dvd (Nat.pow_pos (by omega)) ?_
    rcases Nat.lt_or_eq_of_le hhigh with hlt | heq
    · rwa [Nat.log_eq_of_pow_le_of_lt_pow hlow hlt]
    · rw [heq, Nat.log_pow hb]
      exact Nat.pow_dvd_pow b (by omega)

variable {x y : Int}

theorem round_of_nonneg (hb : 0 < b) (h : 0 ≤ x) : round b p x = roundNat b p x.natAbs := by
  rcases Int.lt_or_eq_of_le h with hpos | rfl
  · rw [round, Int.sign_eq_one_of_pos hpos, Int.one_mul]
  · simp [round, roundNat_of_lt (Nat.pow_pos (n := p) hb)]

theorem round_of_neg (h : x < 0) : round b p x = -roundNat b p x.natAbs := by
  rw [round, Int.sign_eq_neg_one_of_neg h, Int.neg_one_mul]

theorem round_mono (hb : 1 < b) (hp : 0 < p) (h : x ≤ y) : round b p x ≤ round b p y := by
  have hmono {m n : Nat} (h : m ≤ n) := roundNat_mono hb hp h
  rcases Int.lt_or_le x 0 with hx | hx
  · rw [round_of_neg hx]
    rcases Int.lt_or_le y 0 with hy | hy
    · rw [round_of_neg hy]
      have := hmono (show y.natAbs ≤ x.natAbs by omega)
      omega
    · rw [round_of_nonneg (by omega) hy]
      omega
  · rw [round_of_nonneg (by omega) hx, round_of_nonneg (by omega) (by omega)]
    have := hmono (show x.natAbs ≤ y.natAbs by omega)
    omega

theorem round_round (hb : 1 < b) (hp : 0 < p) (x : Int) :
    round b p (round b p x) = round b p x := by
  rcases Int.lt_or_le x 0 with hx | hx
  · rw [round_of_neg hx]
    by_cases h0 : roundNat b p x.natAbs = 0
    · simp [h0, round]
    · rw [round_of_neg (by omega), Int.natAbs_neg, Int.natAbs_natCast, roundNat_roundNat hb hp]
  · rw [round_of_nonneg (by omega) hx, round_of_nonneg (by omega) (Int.natCast_nonneg _),
      Int.natAbs_natCast, roundNat_roundNat hb hp]

/-! ## Rounding errors -/

/-- Rounding to a multiple of `u` moves a number by no more than `u`. -/
theorem roundHalfEven_near (hu : 0 < u) (n : Nat) :
    roundHalfEven u n ≤ n + u ∧ n ≤ roundHalfEven u n + u := by
  obtain ⟨hlow, hhigh⟩ := roundHalfEven_bounds u n
  have hdiv := Nat.div_add_mod n u
  have hmod := Nat.mod_lt n hu
  rw [Nat.mul_comm] at hdiv
  rw [Nat.add_mul, Nat.one_mul] at hhigh
  omega

/-- Of `p + j` digits the last `j` are lost. -/
theorem roundNat_near {j : Nat} (hb : 1 < b) (hn : n < b ^ (p + j)) :
    roundNat b p n ≤ n + b ^ j ∧ n ≤ roundNat b p n + b ^ j := by
  by_cases hsmall : n < b ^ p
  · rw [roundNat_of_lt hsmall]
    omega
  · have hunit : b ^ (Nat.log b n + 1 - p) ≤ b ^ j := by
      refine Nat.pow_le_pow_right (by omega) ?_
      have hlog : Nat.log b n < p + j := Nat.log_lt_of_lt_pow (by
        rintro rfl
        exact hsmall (Nat.pow_pos (by omega))) hn
      omega
    rw [roundNat, if_neg hsmall]
    have hnear := roundHalfEven_near (Nat.pow_pos (n := Nat.log b n + 1 - p) (by omega : 0 < b)) n
    omega

theorem round_near {j : Nat} (hb : 1 < b) (hx : x.natAbs < b ^ (p + j)) :
    round b p x ≤ x + b ^ j ∧ x ≤ round b p x + b ^ j := by
  have hnear := roundNat_near hb hx
  have hcast : ((b ^ j : Nat) : Int) = (b : Int) ^ j := by push_cast; rfl
  rcases Int.lt_or_le x 0 with hneg | hpos
  · rw [round_of_neg hneg, ← hcast]
    omega
  · rw [round_of_nonneg (by omega) hpos, ← hcast]
    omega

/-- Rounding does not carry a number across the bound below which it is exact. -/
theorem natAbs_round_lt_iff (hb : 1 < b) (hp : 0 < p) :
    (round b p x).natAbs < b ^ p ↔ x.natAbs < b ^ p := by
  constructor
  · intro h
    by_contra hge
    have hpow : b ^ p ≤ b ^ Nat.log b x.natAbs :=
      Nat.pow_le_pow_right (by omega) (Nat.le_log_of_pow_le hb (not_lt.mp hge))
    have hbounds := (roundNat_bounds hb hp (not_lt.mp hge)).1
    rcases Int.lt_or_le x 0 with hx | hx
    · rw [round_of_neg hx] at h
      omega
    · rw [round_of_nonneg (by omega) hx] at h
      omega
  · intro h
    rwa [round_of_lt h]

/-! ## Doubles -/

/-- The integer nearest to `q`; a tie goes to the even one. -/
def nearestInt (q : ℚ) : Int :=
  if q - ⌊q⌋ < 1 / 2 then ⌊q⌋
  else if 1 / 2 < q - ⌊q⌋ then ⌊q⌋ + 1
  else if ⌊q⌋ % 2 = 0 then ⌊q⌋ else ⌊q⌋ + 1

/-- The distance of the numbers of 53 binary digits around `q`. -/
def ulp (q : ℚ) : ℚ := 2 ^ (Int.log 2 |q| - 52)

/-- The double nearest to `q`, with ties to even, if it neither overflows nor underflows. -/
def double (q : ℚ) : ℚ := nearestInt (q / ulp q) * ulp q

variable {q : ℚ}

theorem abs_nearestInt_sub_le (q : ℚ) : |nearestInt q - q| ≤ 1 / 2 := by
  have hlow := Int.floor_le q
  have hhigh := Int.lt_floor_add_one q
  rw [abs_le]
  unfold nearestInt
  split
  · constructor <;> linarith
  · split
    · push_cast
      constructor <;> linarith
    · split
      · constructor <;> linarith
      · push_cast
        constructor <;> linarith

theorem ulp_pos (q : ℚ) : 0 < ulp q := zpow_pos two_pos _

/-- A double is at most half a unit in the last place off. -/
theorem abs_double_sub_le (q : ℚ) : |double q - q| ≤ ulp q / 2 := by
  have hpos := ulp_pos q
  have hq : double q - q = (nearestInt (q / ulp q) - q / ulp q) * ulp q := by
    unfold double
    rw [sub_mul, div_mul_cancel₀ _ hpos.ne']
  rw [hq, abs_mul, abs_of_pos hpos]
  calc _ ≤ 1 / 2 * ulp q := mul_le_mul_of_nonneg_right (abs_nearestInt_sub_le _) hpos.le
    _ = ulp q / 2 := by ring

theorem ulp_le {k : Int} (hk : 0 ≤ k) (h : |q| < 2 ^ (k + 1)) : ulp q ≤ 2 ^ (k - 52) := by
  refine zpow_le_zpow_right₀ one_le_two ?_
  rcases (abs_nonneg q).lt_or_eq with hpos | hzero
  · have := (Int.lt_zpow_iff_log_lt one_lt_two hpos).mp (by exact_mod_cast h)
    omega
  · rw [← hzero, Int.log_zero_right]
    omega

end Numeral

/-- A printed integer: plain digits, or a mantissa with an exponent. The texts
of one shape are in bijection with the numbers they denote. -/
inductive Numeral
  | plain (n : Int)
  | scientific (n : Int)
  deriving DecidableEq, Repr

namespace Numeral

/-- The integer the text denotes. -/
def denotes : Numeral → Int
  | plain n | scientific n => n

@[simp] theorem denotes_plain (n : Int) : (plain n).denotes = n := rfl

end Numeral
