import Mathlib

/-!
# UTF-8

Bytes are decoded from left to right. The bytes of a character that breaks off, and each byte that
belongs to none, are replaced by one character.
-/
namespace Utf8

def replacement : Char := '\uFFFD'

/-- Between characters, or inside one: the number of bytes that it needs, the bits so far, and the
range of the next byte. -/
inductive State
  | start
  | inside (needed bits lower upper : Nat)

/-- A byte between characters. -/
def first (b : Nat) : State × List Char :=
  if b < 0x80 then (.start, [Char.ofNat b])
  else if 0xC2 ≤ b ∧ b < 0xE0 then (.inside 1 (b - 0xC0) 0x80 0xBF, [])
  else if 0xE0 ≤ b ∧ b < 0xF0 then
    (.inside 2 (b - 0xE0) (if b = 0xE0 then 0xA0 else 0x80) (if b = 0xED then 0x9F else 0xBF), [])
  else if 0xF0 ≤ b ∧ b < 0xF5 then
    (.inside 3 (b - 0xF0) (if b = 0xF0 then 0x90 else 0x80) (if b = 0xF4 then 0x8F else 0xBF), [])
  else (.start, [replacement])

/-- The byte goes on with a character. -/
def State.goesOn : State → Nat → Bool
  | start, _ => false
  | inside _ _ lower upper, b => lower ≤ b && b ≤ upper

def step : State → Nat → State × List Char
  | .start, b => first b
  | .inside needed bits lower upper, b =>
    if (State.inside needed bits lower upper).goesOn b then
      if needed = 1 then (.start, [Char.ofNat (bits * 64 + (b - 0x80))])
      else (.inside (needed - 1) (bits * 64 + (b - 0x80)) 0x80 0xBF, [])
    else ((first b).1, replacement :: (first b).2)

def finish : State → List Char
  | .start => []
  | .inside .. => [replacement]

def decodeFrom : State → List UInt8 → List Char
  | s, [] => finish s
  | s, b :: bytes => (step s b.toNat).2 ++ decodeFrom (step s b.toNat).1 bytes

def decode (bytes : List UInt8) : List Char := decodeFrom .start bytes

def after (s : State) (bytes : List UInt8) : State :=
  bytes.foldl (fun s b => (step s b.toNat).1) s

/-- The first bytes end inside a character that the others go on with. -/
def cut (bytes more : List UInt8) : Bool :=
  more.head?.any fun b => (after .start bytes).goesOn b.toNat

variable {s : State} {b : Nat} {bytes more : List UInt8}

theorem step_of_not_goesOn (h : s.goesOn b = false) :
    step s b = ((first b).1, finish s ++ (first b).2) := by
  cases s with
  | start => rfl
  | inside needed bits lower upper =>
    rw [step, h]
    rfl

/-- Decoding from a state in which nothing goes on starts anew. -/
theorem decodeFrom_of_not_goesOn (h : (bytes.head?.any fun b => s.goesOn b.toNat) = false) :
    decodeFrom s bytes = finish s ++ decode bytes := by
  cases bytes with
  | nil => exact (List.append_nil _).symm
  | cons b bytes =>
    rw [decode, decodeFrom, decodeFrom, step_of_not_goesOn h, List.append_assoc]
    rfl

theorem decodeFrom_append (h : (more.head?.any fun b => (after s bytes).goesOn b.toNat) = false) :
    decodeFrom s (bytes ++ more) = decodeFrom s bytes ++ decode more := by
  induction bytes generalizing s with
  | nil => exact decodeFrom_of_not_goesOn h
  | cons b bytes ih =>
    rw [List.cons_append, decodeFrom, decodeFrom, ih h, List.append_assoc]

/-- Bytes may be decoded in two parts where no character is cut. -/
theorem decode_append (h : cut bytes more = false) :
    decode (bytes ++ more) = decode bytes ++ decode more :=
  decodeFrom_append h

/-- No character is cut at a boundary between parts. -/
def uncut : List (List UInt8) → Bool
  | [] => true
  | part :: parts => !cut part parts.flatten && uncut parts

theorem decode_flatten {parts : List (List UInt8)} (h : uncut parts = true) :
    decode parts.flatten = (parts.map decode).flatten := by
  induction parts with
  | nil => rfl
  | cons part parts ih =>
    obtain ⟨hcut, h⟩ := Bool.and_eq_true_iff.mp h
    rw [List.flatten_cons, decode_append (by simpa using hcut), ih h]
    rfl

theorem uncut_of_append {parts others : List (List UInt8)} (h : uncut (parts ++ others) = true) :
    uncut parts = true := by
  induction parts with
  | nil => rfl
  | cons part parts ih =>
    rw [List.cons_append] at h
    obtain ⟨hcut, h⟩ := Bool.and_eq_true_iff.mp h
    refine Bool.and_eq_true_iff.mpr ⟨?_, ih h⟩
    rw [Bool.not_eq_true', cut] at hcut ⊢
    rw [List.flatten_append, List.head?_append] at hcut
    cases hhead : parts.flatten.head? with
    | none => rfl
    | some b =>
      rw [hhead, Option.some_or] at hcut
      exact hcut

/-! ## Encoding -/

def encodeChar (c : Char) : List UInt8 :=
  let n := c.toNat
  if n < 0x80 then [.ofNat n]
  else if n < 0x800 then [.ofNat (0xC0 + n / 64), .ofNat (0x80 + n % 64)]
  else if n < 0x10000 then
    [.ofNat (0xE0 + n / 4096), .ofNat (0x80 + n / 64 % 64), .ofNat (0x80 + n % 64)]
  else
    [.ofNat (0xF0 + n / 262144), .ofNat (0x80 + n / 4096 % 64), .ofNat (0x80 + n / 64 % 64),
      .ofNat (0x80 + n % 64)]

def encode (text : List Char) : List UInt8 := text.flatMap encodeChar

theorem step_last {bits lower upper r : Nat} (hlower : lower ≤ 0x80 + r)
    (hupper : 0x80 + r ≤ upper) :
    step (.inside 1 bits lower upper) (0x80 + r) = (.start, [Char.ofNat (bits * 64 + r)]) := by
  have hgoes : (State.inside 1 bits lower upper).goesOn (0x80 + r) = true := by
    simp [State.goesOn, hlower, hupper]
  rw [step, if_pos hgoes, if_pos rfl, Nat.add_sub_cancel_left]

theorem step_more {needed bits lower upper r : Nat} (hlower : lower ≤ 0x80 + r)
    (hupper : 0x80 + r ≤ upper) : step (.inside (needed + 2) bits lower upper) (0x80 + r) =
      (.inside (needed + 1) (bits * 64 + r) 0x80 0xBF, []) := by
  have hgoes : (State.inside (needed + 2) bits lower upper).goesOn (0x80 + r) = true := by
    simp [State.goesOn, hlower, hupper]
  rw [step, if_pos hgoes, if_neg (by omega), Nat.add_sub_cancel_left]
  rfl

theorem first_two {q : Nat} (hlower : 2 ≤ q) (hupper : q < 32) :
    first (0xC0 + q) = (.inside 1 q 0x80 0xBF, []) := by
  rw [first, if_neg (by omega), if_pos (by omega), Nat.add_sub_cancel_left]

theorem first_three {q : Nat} (hupper : q < 16) : first (0xE0 + q) =
    (.inside 2 q (if q = 0 then 0xA0 else 0x80) (if q = 13 then 0x9F else 0xBF), []) := by
  have hsurrogate : 0xE0 + q = 0xED ↔ q = 13 := by omega
  rw [first, if_neg (by omega), if_neg (by omega), if_pos (by omega), Nat.add_sub_cancel_left]
  simp [hsurrogate]

theorem first_four {q : Nat} (hupper : q < 5) : first (0xF0 + q) =
    (.inside 3 q (if q = 0 then 0x90 else 0x80) (if q = 4 then 0x8F else 0xBF), []) := by
  have hlast : 0xF0 + q = 0xF4 ↔ q = 4 := by omega
  rw [first, if_neg (by omega), if_neg (by omega), if_neg (by omega), if_pos (by omega),
    Nat.add_sub_cancel_left]
  simp [hlast]

theorem decodeFrom_cons {n : Nat} (h : n < 256) : decodeFrom s (.ofNat n :: bytes) =
    (step s n).2 ++ decodeFrom (step s n).1 bytes := by
  rw [decodeFrom, UInt8.toNat_ofNat_of_lt' h]

/-- A character is decoded from its own bytes, and nothing is left of it. -/
theorem decode_encodeChar (c : Char) (more : List UInt8) :
    decode (encodeChar c ++ more) = c :: decode more := by
  have hvalid : c.toNat < 0xD800 ∨ 0xDFFF < c.toNat ∧ c.toNat < 0x110000 := c.valid
  have hofNat : Char.ofNat c.toNat = c := Char.ofNat_toNat c
  unfold encodeChar
  generalize c.toNat = n at hvalid hofNat
  by_cases hone : n < 0x80
  · rw [if_pos hone, List.singleton_append, decode, decodeFrom_cons (by omega), step, first,
      if_pos hone, hofNat]
    rfl
  · by_cases htwo : n < 0x800
    · rw [if_neg hone, if_pos htwo]
      simp only [List.cons_append, List.nil_append]
      rw [decode, decodeFrom_cons (by omega), step, first_two (by omega) (by omega),
        decodeFrom_cons (by omega), step_last (by omega) (by omega),
        show n / 64 * 64 + n % 64 = n by omega, hofNat]
      rfl
    · by_cases hthree : n < 0x10000
      · rw [if_neg hone, if_neg htwo, if_pos hthree]
        simp only [List.cons_append, List.nil_append]
        rw [decode, decodeFrom_cons (by omega), step, first_three (by omega),
          decodeFrom_cons (by omega), step_more (by split <;> omega) (by split <;> omega),
          decodeFrom_cons (by omega), step_last (by omega) (by omega),
          show (n / 4096 * 64 + n / 64 % 64) * 64 + n % 64 = n by omega, hofNat]
        rfl
      · rw [if_neg hone, if_neg htwo, if_neg hthree]
        simp only [List.cons_append, List.nil_append]
        rw [decode, decodeFrom_cons (by omega), step, first_four (by omega),
          decodeFrom_cons (by omega), step_more (by split <;> omega) (by split <;> omega),
          decodeFrom_cons (by omega), step_more (by omega) (by omega),
          decodeFrom_cons (by omega), step_last (by omega) (by omega),
          show ((n / 262144 * 64 + n / 4096 % 64) * 64 + n / 64 % 64) * 64 + n % 64 = n by omega,
          hofNat]
        rfl

theorem decode_encode_append (text : List Char) (more : List UInt8) :
    decode (encode text ++ more) = text ++ decode more := by
  induction text with
  | nil => rfl
  | cons c text ih =>
    rw [encode, List.flatMap_cons, List.append_assoc, decode_encodeChar, ← encode, ih]
    rfl

theorem decode_encode (text : List Char) : decode (encode text) = text := by
  have h := decode_encode_append text []
  rwa [List.append_nil, show decode [] = [] from rfl, List.append_nil] at h

end Utf8
