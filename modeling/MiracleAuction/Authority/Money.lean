import MiracleAuction.Base.Decimal

/-!
# Money

Amounts are decimal texts in Redis and `bigint` in TypeScript and PostgreSQL.
The text routines of `auction-mutate.lua` come first, then what they compute on
the text of a number, then `parseMoneyVnd`.
-/
namespace MiracleAuction
open Decimal

namespace Lua

def trim (value : Text) : Text :=
  let normalized := value.dropWhile (· == '0')
  if normalized = [] then ['0'] else normalized

def compare (left right : Text) : Int :=
  let left := trim left
  let right := trim right
  if left.length ≠ right.length then
    if left.length < right.length then -1 else 1
  else if left = right then 0
  else if left < right then -1 else 1

/-- The loop of `add`. Both numbers are reversed, so that the digit the loop
reads next is the head; the fuel bounds the number of rounds. -/
def addLoop : Nat → Text → Text → Nat → Text → Text
  | 0, _, _, _, output => output
  | fuel + 1, left, right, carry, output =>
    if left = [] ∧ right = [] ∧ carry = 0 then output
    else
      let ld := (left.head?.map digitOf).getD 0
      let rd := (right.head?.map digitOf).getD 0
      let sum := ld + rd + carry
      addLoop fuel left.tail right.tail (sum / 10) ((sum % 10).digitChar :: output)

def add (left right : Text) : Text :=
  let left := trim left
  let right := trim right
  trim (addLoop (left.length + right.length + 1) left.reverse right.reverse 0 [])

def minimum (left right : Text) : Text :=
  if compare left right ≤ 0 then trim left else trim right

def pad (value : Text) : Text :=
  List.replicate (19 - (trim value).length) '0' ++ trim value

def rankMember (amount bidderId : Text) : Text :=
  pad amount ++ ':' :: pad bidderId

variable {s t : Text} {a b m n : Nat}

theorem trim_eq (h : Numeric s) : trim s = digits (value s) := by
  simp only [trim]
  split
  · rename_i hnil
    have hv : value s = 0 := by rw [← value_dropWhile_zero s, hnil, value_nil]
    rw [hv]
    rfl
  · rename_i hne
    rw [← digits_value (numeric_dropWhile_zero h) hne (head_dropWhile_zero s),
      value_dropWhile_zero]

@[simp] theorem trim_digits (n : Nat) : trim (digits n) = digits n := by
  rw [trim_eq (numeric_digits n), value_digits]

theorem digits_length_lt (h : (digits a).length < (digits b).length) : a < b := by
  have hb : b ≠ 0 := by
    rintro rfl
    have : 0 < (digits a).length := List.length_pos_of_ne_nil (digits_ne_nil a)
    have h1 : (digits 0).length = 1 := rfl
    omega
  simpa using value_lt_of_length_lt (numeric_digits a) (numeric_digits b) (head_digits hb) h

theorem compare_digits (a b : Nat) :
    compare (digits a) (digits b) = if a < b then -1 else if a = b then 0 else 1 := by
  simp only [compare, trim_digits, digits_inj]
  by_cases hlen : (digits a).length = (digits b).length
  · have hlt := lt_iff_value_lt (numeric_digits a) (numeric_digits b) hlen
    simp only [value_digits] at hlt
    simp only [hlen, ne_eq, not_true_eq_false, if_false, hlt]
    split <;> split <;> first | rfl | omega
  · rcases Nat.lt_or_gt_of_ne hlen with h | h
    · have := digits_length_lt h
      simp [h, hlen, this]
    · have := digits_length_lt h
      have h1 : ¬ (digits a).length < (digits b).length := by omega
      have h2 : ¬ a < b := by omega
      have h3 : a ≠ b := by omega
      simp [hlen, h1, h2, h3]

/-- The value of a reversed text. -/
theorem value_reverse_cons (c : Char) (s : Text) :
    value (c :: s).reverse = value s.reverse * 10 + digitOf c := by
  rw [List.reverse_cons, value_append, value_singleton, List.length_singleton, Nat.pow_one]

theorem digitOf_digitChar (h : n < 10) : digitOf n.digitChar = n :=
  Nat.toNat_digitChar_sub_48_of_lt_ten h

theorem head_digit_lt (h : Numeric s) : (s.head?.map digitOf).getD 0 < 10 := by
  cases s with
  | nil => simp
  | cons c s => simpa using digitOf_lt (numeric_cons.mp h).1

theorem value_reverse_eq (s : Text) :
    value s.reverse = value s.tail.reverse * 10 + (s.head?.map digitOf).getD 0 := by
  cases s with
  | nil => rfl
  | cons c s => simpa using value_reverse_cons c s

theorem numeric_tail (h : Numeric s) : Numeric s.tail :=
  fun _ hc => h _ (List.mem_of_mem_tail hc)

/-- The loop adds what is left of both numbers to the digits already written. -/
theorem addLoop_spec (fuel : Nat) : ∀ (left right : Text) (carry : Nat) (output : Text),
    Numeric left → Numeric right → Numeric output → carry ≤ 1 →
    (left.length < fuel ∧ right.length < fuel ∨ left = [] ∧ right = [] ∧ carry = 0) →
    Numeric (addLoop fuel left right carry output) ∧
      value (addLoop fuel left right carry output) =
        (value left.reverse + value right.reverse + carry) * 10 ^ output.length + value output := by
  induction fuel with
  | zero =>
    intro left right carry output _ _ hout _ hfuel
    obtain ⟨rfl, rfl, rfl⟩ : left = [] ∧ right = [] ∧ carry = 0 := by
      rcases hfuel with ⟨h, _⟩ | h
      · omega
      · exact h
    simpa [addLoop] using hout
  | succ fuel ih =>
    intro left right carry output hl hr hout hc hfuel
    simp only [addLoop]
    split
    · rename_i hend
      obtain ⟨rfl, rfl, rfl⟩ := hend
      simpa using hout
    · rename_i hend
      have hld := head_digit_lt hl
      have hrd := head_digit_lt hr
      have hvl := value_reverse_eq left
      have hvr := value_reverse_eq right
      generalize (left.head?.map digitOf).getD 0 = ld at *
      generalize (right.head?.map digitOf).getD 0 = rd at *
      have hcarry : (ld + rd + carry) / 10 ≤ 1 := by omega
      have hdigit : (ld + rd + carry) % 10 < 10 := Nat.mod_lt _ (by decide)
      have hout' : Numeric (((ld + rd + carry) % 10).digitChar :: output) := by
        refine numeric_cons.mpr ⟨?_, hout⟩
        rw [Char.isDigit_iff_toNat, Nat.toNat_digitChar_of_lt_ten hdigit]
        change 48 ≤ _ ∧ _ ≤ 57
        omega
      have hfuel' : left.tail.length < fuel ∧ right.tail.length < fuel ∨
          left.tail = [] ∧ right.tail = [] ∧ (ld + rd + carry) / 10 = 0 := by
        have hnil : ∀ x : Text, x.tail.length = x.length - 1 := fun x => List.length_tail
        rcases hfuel with ⟨h1, h2⟩ | h
        · by_cases hz : left = [] ∧ right = []
          · -- Only a carry was left: it is the last digit.
            obtain ⟨rfl, rfl⟩ := hz
            have : value ([] : Text).reverse = 0 := rfl
            refine .inr ⟨rfl, rfl, ?_⟩
            simp at hvl hvr
            omega
          · left
            have : 0 < left.length ∨ 0 < right.length := by
              rcases not_and_or.mp hz with h | h
              · exact .inl (List.length_pos_of_ne_nil h)
              · exact .inr (List.length_pos_of_ne_nil h)
            rw [hnil, hnil]
            omega
        · exact absurd h hend
      obtain ⟨hnum, hval⟩ := ih _ _ _ _ (numeric_tail hl) (numeric_tail hr) hout' hcarry hfuel'
      refine ⟨hnum, ?_⟩
      rw [hval, value_cons, digitOf_digitChar hdigit, List.length_cons, Nat.pow_succ, hvl, hvr]
      have hdiv : ld + rd + carry = (ld + rd + carry) / 10 * 10 + (ld + rd + carry) % 10 := by omega
      generalize (ld + rd + carry) / 10 = q at *
      generalize (ld + rd + carry) % 10 = r at *
      generalize value left.tail.reverse = x at *
      generalize value right.tail.reverse = y at *
      have hsum : x * 10 + ld + (y * 10 + rd) + carry = (x + y + q) * 10 + r := by omega
      rw [hsum]
      ring

/-- `add` on the texts of two numbers writes the text of their sum. -/
theorem add_digits (a b : Nat) : add (digits a) (digits b) = digits (a + b) := by
  simp only [add, trim_digits]
  have hrev : ∀ n, Numeric (digits n).reverse := fun n c hc =>
    numeric_digits n c (List.mem_reverse.mp hc)
  obtain ⟨hnum, hval⟩ := addLoop_spec ((digits a).length + (digits b).length + 1)
    (digits a).reverse (digits b).reverse 0 [] (hrev a) (hrev b) numeric_nil (by decide)
    (.inl ⟨by rw [List.length_reverse]; omega, by rw [List.length_reverse]; omega⟩)
  rw [trim_eq hnum, hval]
  simp

theorem compare_digits_nonpos : compare (digits a) (digits b) ≤ 0 ↔ a ≤ b := by
  rw [compare_digits]
  split
  · simp; omega
  · split <;> simp <;> omega

theorem minimum_digits (a b : Nat) : minimum (digits a) (digits b) = digits (min a b) := by
  simp only [minimum, compare_digits_nonpos, trim_digits]
  split <;> rename_i h
  · rw [Nat.min_eq_left h]
  · rw [Nat.min_eq_right (Nat.le_of_not_le h)]

theorem pad_length (h : n < 10 ^ 19) : (pad (digits n)).length = 19 := by
  have := length_digits_le h (by decide)
  simp only [pad, trim_digits, List.length_append, List.length_replicate]
  omega

@[simp] theorem value_pad (n : Nat) : value (pad (digits n)) = n := by simp [pad]

theorem numeric_pad (n : Nat) : Numeric (pad (digits n)) := by
  simpa [pad] using ⟨numeric_replicate_zero _, numeric_digits n⟩

end Lua

/-! ## The script's arithmetic on numbers

A money field holds the text of a number, and the model holds the number. The
script's routines run on the texts; these are their results as numbers. -/
namespace Money

def compare (left right : Nat) : Int := Lua.compare (digits left) (digits right)

def add (left right : Nat) : Nat := value (Lua.add (digits left) (digits right))

def minimum (left right : Nat) : Nat := value (Lua.minimum (digits left) (digits right))

/-- The member of the ranking for a bidder's maximum. -/
def rankMember (amount bidderId : Nat) : Text := Lua.rankMember (digits amount) (digits bidderId)

/-- `trim(string.sub(member, 21))`. -/
def rankedBidder (member : Text) : Nat := value (Lua.trim (member.drop 20))

/-- `trim(string.sub(member, 1, 19))`. -/
def rankedMaximum (member : Text) : Nat := value (Lua.trim (member.take 19))

variable {a b m n : Nat}

theorem compare_eq (a b : Nat) : compare a b = if a < b then -1 else if a = b then 0 else 1 :=
  Lua.compare_digits a b

@[simp] theorem compare_nonpos : compare a b ≤ 0 ↔ a ≤ b := Lua.compare_digits_nonpos

@[simp] theorem compare_neg : compare a b < 0 ↔ a < b := by
  rw [compare_eq]
  split
  · simp_all
  · split <;> simp_all

@[simp] theorem compare_pos : compare a b > 0 ↔ b < a := by
  rw [gt_iff_lt, ← not_le, compare_nonpos, not_le]

@[simp] theorem compare_nonneg : compare a b ≥ 0 ↔ b ≤ a := by
  rw [ge_iff_le, ← not_lt, compare_neg, not_lt]

@[simp] theorem add_eq (a b : Nat) : add a b = a + b := by rw [add, Lua.add_digits, value_digits]

@[simp] theorem minimum_eq (a b : Nat) : minimum a b = min a b := by
  rw [minimum, Lua.minimum_digits, value_digits]

theorem rankedMaximum_rankMember (ha : a < 10 ^ 19) : rankedMaximum (rankMember a b) = a := by
  have hl := Lua.pad_length ha
  have ht : (rankMember a b).take 19 = Lua.pad (digits a) := by
    simp [rankMember, Lua.rankMember, hl]
  rw [rankedMaximum, ht, Lua.trim_eq (Lua.numeric_pad a), value_digits, Lua.value_pad]

theorem rankedBidder_rankMember (ha : a < 10 ^ 19) : rankedBidder (rankMember a b) = b := by
  have hl := Lua.pad_length ha
  have ht : (rankMember a b).drop 20 = Lua.pad (digits b) := by
    simp [rankMember, Lua.rankMember, List.drop_append, hl]
  rw [rankedBidder, ht, Lua.trim_eq (Lua.numeric_pad b), value_digits, Lua.value_pad]

/-- The ranking orders its members by maximum and, at equal maxima, by bidder. -/
theorem rankMember_lt_iff (ha : a < 10 ^ 19) (hb : b < 10 ^ 19) (hm : m < 10 ^ 19)
    (hn : n < 10 ^ 19) : rankMember a b < rankMember m n ↔ a < m ∨ a = m ∧ b < n := by
  have hlen {x y : Nat} (hx : x < 10 ^ 19) (hy : y < 10 ^ 19) :
      (Lua.pad (digits x)).length = (Lua.pad (digits y)).length := by
    rw [Lua.pad_length hx, Lua.pad_length hy]
  have hlt {x y : Nat} (hx : x < 10 ^ 19) (hy : y < 10 ^ 19) :
      Lua.pad (digits x) < Lua.pad (digits y) ↔ x < y := by
    rw [lt_iff_value_lt (Lua.numeric_pad x) (Lua.numeric_pad y) (hlen hx hy)]
    simp
  have heq : Lua.pad (digits a) = Lua.pad (digits m) ↔ a = m := by
    constructor
    · intro h; simpa using congrArg value h
    · rintro rfl; rfl
  rw [rankMember, rankMember, Lua.rankMember, Lua.rankMember, append_lt_append_iff (hlen ha hm),
    List.cons_lt_cons_iff, hlt ha hm, hlt hb hn, heq]
  simp

end Money

/-! ## `money.ts` -/

/-- `MAX_VND`, the largest PostgreSQL `BIGINT`. -/
def maxVnd : Nat := 9223372036854775807

/-- An amount that `parseMoneyVnd` returned. -/
abbrev MoneyVnd := { n : Nat // 0 < n ∧ n ≤ maxVnd }

structure BidDomainError where
  message : String
  statusCode : Nat := 400
  code : String := "BID_REJECTED"
  deriving DecidableEq, Repr

/-- `VND_PATTERN`: a zero, or up to nineteen digits that do not start with a zero. -/
def vndPattern : Text → Bool
  | [] => false
  | c :: rest => c == '0' && rest.isEmpty ||
      c != '0' && c.isDigit && rest.all Char.isDigit && rest.length ≤ 18

def parseMoneyVnd (text : Text) (field : String := "amount") : Except BidDomainError MoneyVnd :=
  if vndPattern text then
    let amount := value text
    if h : 0 < amount ∧ amount ≤ maxVnd then .ok ⟨amount, h⟩
    else .error ⟨field ++ " is outside the supported BIGINT range", 400, "INVALID_MONEY"⟩
  else .error ⟨field ++ " must be a base-10 VND integer string", 400, "INVALID_MONEY"⟩

/-- What passes the pattern is the text of its number. -/
theorem digits_value_of_vndPattern {text : Text} (h : vndPattern text = true) :
    digits (value text) = text := by
  cases text with
  | nil => simp [vndPattern] at h
  | cons c rest =>
    simp only [vndPattern, Bool.or_eq_true, Bool.and_eq_true, beq_iff_eq, bne_iff_ne] at h
    rcases h with ⟨rfl, hrest⟩ | ⟨⟨⟨h0, hc⟩, hrest⟩, _⟩
    · rw [List.isEmpty_iff.mp hrest]
      rfl
    · refine digits_value (numeric_cons.mpr ⟨hc, ?_⟩) (by simp) (by simpa using h0)
      exact fun d hd => List.all_eq_true.mp hrest d hd

/-- An accepted text is the decimal text of the amount returned. -/
theorem parseMoneyVnd_ok {text : Text} {field : String} {amount : MoneyVnd}
    (h : parseMoneyVnd text field = .ok amount) : text = digits amount.val := by
  simp only [parseMoneyVnd] at h
  split at h
  · rename_i hp
    split at h
    · cases h
      exact (digits_value_of_vndPattern hp).symm
    · cases h
  · cases h

end MiracleAuction
