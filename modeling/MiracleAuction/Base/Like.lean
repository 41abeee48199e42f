import MiracleAuction.Base.Decimal

/-!
# `LIKE` and `ILIKE`

The patterns of SQL: `%` stands for any text, `_` for any character, and a backslash takes the
character behind it as it is.
-/
namespace Like
open Decimal

inductive Item
  | any
  | one
  | char (c : Char)
  deriving DecidableEq

def items : Text → List Item
  | '\\' :: c :: pattern => .char c :: items pattern
  | '%' :: pattern => .any :: items pattern
  | '_' :: pattern => .one :: items pattern
  | c :: pattern => .char c :: items pattern
  | [] => []

variable {fold : Char → Char} {pattern : List Item} {x text : Text}

/-- Characters are compared after `fold`. -/
def admits (fold : Char → Char) : List Item → Text → Bool
  | [], text => text.isEmpty
  | .any :: pattern, text => text.tails.any (admits fold pattern)
  | .one :: pattern, _ :: text => admits fold pattern text
  | .char c :: pattern, d :: text => fold c = fold d && admits fold pattern text
  | .one :: _, [] | .char _ :: _, [] => false

def like (text pattern : Text) : Bool := admits id (items pattern) text

/-- `lower` is the lower case of the collation. -/
def ilike (lower : Char → Char) (text pattern : Text) : Bool := admits lower (items pattern) text

/-- Without regard to case more texts match. -/
theorem admits_fold (h : admits id pattern text = true) : admits fold pattern text = true := by
  induction pattern generalizing text with
  | nil => exact h
  | cons item pattern ih =>
    cases item with
    | any =>
      obtain ⟨rest, hrest, h⟩ := List.any_eq_true.mp h
      exact List.any_eq_true.mpr ⟨rest, hrest, ih h⟩
    | one =>
      cases text with
      | nil => exact h
      | cons d text => exact ih (show admits id pattern text = true from h)
    | char c =>
      cases text with
      | nil => exact h
      | cons d text =>
        simp only [admits, id, Bool.and_eq_true, decide_eq_true_eq] at h ⊢
        exact ⟨congrArg fold h.1, ih h.2⟩

theorem ilike_of_like {lower : Char → Char} {text pattern : Text} (h : like text pattern = true) :
    ilike lower text pattern = true := admits_fold h

/-- No character of the text means another one in a pattern. -/
def Plain (x : Text) : Prop := ∀ c ∈ x, c ≠ '%' ∧ c ≠ '_' ∧ c ≠ '\\'

theorem items_cons {c : Char} (hany : c ≠ '%') (hone : c ≠ '_') (hescape : c ≠ '\\')
    (pattern : Text) : items (c :: pattern) = .char c :: items pattern := by
  rw [items.eq_def]
  split
  · rename_i heq
    exact absurd (List.cons.inj heq).1 hescape
  · rename_i heq
    exact absurd (List.cons.inj heq).1 hany
  · rename_i heq
    exact absurd (List.cons.inj heq).1 hone
  · rename_i heq
    obtain ⟨rfl, rfl⟩ := List.cons.inj heq
    rfl
  · rename_i heq
    cases heq

theorem items_plain (hx : Plain x) (pattern : Text) :
    items (x ++ pattern) = x.map .char ++ items pattern := by
  induction x with
  | nil => rfl
  | cons c x ih =>
    obtain ⟨hany, hone, hescape⟩ := hx c List.mem_cons_self
    have hx : Plain x := fun d hd => hx d (List.mem_cons_of_mem c hd)
    rw [List.cons_append, items_cons hany hone hescape, ih hx]
    rfl

/-- Everything ends with a text that `%` stands for. -/
theorem admits_any (fold : Char → Char) (text : Text) : admits fold [.any] text = true := by
  refine List.any_eq_true.mpr ⟨[], ?_, rfl⟩
  exact (List.mem_tails _ _).mpr List.nil_suffix

theorem admits_chars (h : x.map fold = text.map fold) :
    admits fold (x.map .char ++ [.any]) text = true := by
  induction x generalizing text with
  | nil => exact admits_any fold text
  | cons c x ih =>
    cases text with
    | nil => cases h
    | cons d text =>
      obtain ⟨hcd, h⟩ := List.cons.inj h
      simp only [List.map_cons, List.cons_append, admits, Bool.and_eq_true, decide_eq_true_eq]
      exact ⟨hcd, ih h⟩

/-- A text without pattern characters is found in itself, written in any case. -/
theorem ilike_self {lower : Char → Char} (hx : Plain x) (h : x.map lower = text.map lower) :
    ilike lower text ('%' :: x ++ ['%']) = true := by
  have hitems : items ('%' :: x ++ ['%']) = .any :: (x.map .char ++ [.any]) := by
    rw [List.cons_append]
    change Item.any :: items (x ++ ['%']) = _
    rw [items_plain hx]
    rfl
  unfold ilike
  rw [hitems]
  exact List.any_eq_true.mpr ⟨text, (List.mem_tails _ _).mpr List.suffix_rfl, admits_chars h⟩

end Like
