import Mathlib

/-!
# Regular expressions

Expressions without anchors and lookaround, matched by backtracking: the matches at the start of a
text are listed in the order in which they are tried. A replacement of all matches reads the text
from left to right.
-/

/-- `many` takes as many characters of a class as it can. -/
inductive Regex
  | empty
  | char (p : Char → Bool)
  | seq (r s : Regex)
  | alt (r s : Regex)
  | many (p : Char → Bool)

namespace Regex

/-- The lengths of the runs of a class at the start of a text, the longest first. -/
def runs (p : Char → Bool) : List Char → List Nat
  | [] => [0]
  | c :: text => if p c then (runs p text).map (· + 1) ++ [0] else [0]

/-- The lengths of the matches at the start of a text, in the order in which they are tried. -/
def ends : Regex → List Char → List Nat
  | empty, _ => [0]
  | char _, [] => []
  | char p, c :: _ => if p c then [1] else []
  | seq r s, text => (r.ends text).flatMap fun n => (s.ends (text.drop n)).map (n + ·)
  | alt r s, text => r.ends text ++ s.ends text
  | many p, text => runs p text

def many1 (p : Char → Bool) : Regex := seq (char p) (many p)

/-- A text, compared after `fold`. -/
def literal (fold : Char → Char) : List Char → Regex
  | [] => empty
  | c :: text => seq (char fun d => fold d = fold c) (literal fold text)

/-- The matches of parts one after the other, each as the lengths of the parts. -/
def splits : List Regex → List Char → List (List Nat)
  | [], _ => [[]]
  | r :: parts, text => (r.ends text).flatMap fun n => (splits parts (text.drop n)).map (n :: ·)

/-- The match that is tried first. -/
def firstMatch (parts : List Regex) (text : List Char) : Option (List Nat) :=
  (splits parts text).head?

/-- The texts of the parts. -/
def texts : List Nat → List Char → List (List Char)
  | [], _ => []
  | n :: ns, text => text.take n :: texts ns (text.drop n)

variable {r : Regex} {parts : List Regex} {u v left right text : List Char} {ns : List Nat}

/-! ## Matches in part of a text -/

/-- Of combinations with a weight, those up to a bound come from parts up to it. -/
theorem filter_flatMap {β γ : Type} (weight : γ → Nat) (weightOf : β → Nat)
    (join : Nat → β → γ)
    (hjoin : ∀ n b, weight (join n b) = n + weightOf b) (k : Nat) (ns : List Nat)
    (f : Nat → List β) :
    (ns.flatMap fun n => (f n).map (join n)).filter (weight · ≤ k) =
      (ns.filter (· ≤ k)).flatMap fun n =>
        ((f n).filter (weightOf · ≤ k - n)).map (join n) := by
  induction ns with
  | nil => rfl
  | cons n ns ih =>
    rw [List.flatMap_cons, List.filter_append, ih, List.filter_map]
    by_cases hn : n ≤ k
    · have hiff : ∀ b, (weight (join n b) ≤ k) = (weightOf b ≤ k - n) := by
        intro b
        rw [hjoin]
        exact propext (by omega)
      rw [List.filter_cons_of_pos (by simpa using hn), List.flatMap_cons]
      simp only [Function.comp_def, hiff]
    · have hnone : (f n).filter ((fun c => decide (weight c ≤ k)) ∘ join n) = [] := by
        refine List.filter_eq_nil_iff.mpr fun b _ => ?_
        simp only [Function.comp_apply, hjoin, decide_eq_true_eq]
        omega
      rw [List.filter_cons_of_neg (by simpa using hn), hnone]
      rfl

theorem filter_runs (p : Char → Bool) (u v : List Char) :
    (runs p (u ++ v)).filter (· ≤ u.length) = runs p u := by
  induction u with
  | nil =>
    cases v with
    | nil => rfl
    | cons c v =>
      by_cases hp : p c = true
      · simp [runs, hp, List.filter_map, Function.comp_def]
      · simp [runs, hp]
  | cons c u ih =>
    by_cases hp : p c = true
    · simp [runs, hp, List.filter_map, Function.comp_def, ih]
    · simp [runs, hp]

/-- The matches that end in the first part of a text are those of that part alone. -/
theorem filter_ends (r : Regex) (u v : List Char) :
    (r.ends (u ++ v)).filter (· ≤ u.length) = r.ends u := by
  induction r generalizing u with
  | empty => rfl
  | char p =>
    cases u with
    | nil =>
      cases v with
      | nil => rfl
      | cons c v =>
        by_cases hp : p c = true
        · simp [ends, hp]
        · simp [ends, hp]
    | cons c u =>
      by_cases hp : p c = true
      · simp [ends, hp]
      · simp [ends, hp]
  | seq r s ihr ihs =>
    have hlength : ∀ n ∈ r.ends u, n ≤ u.length := by
      intro n hn
      rw [← ihr u, List.mem_filter] at hn
      exact of_decide_eq_true hn.2
    have h := filter_flatMap id id (· + ·) (fun _ _ => rfl) u.length (r.ends (u ++ v))
      fun n => s.ends ((u ++ v).drop n)
    simp only [id] at h
    rw [ends, ends, h, ihr]
    refine List.flatMap_congr fun n hn => ?_
    rw [List.drop_append_of_le_length (hlength n hn), ← List.length_drop, ihs]
  | alt r s ihr ihs => rw [ends, ends, List.filter_append, ihr, ihs]
  | many p => exact filter_runs p u v

theorem ends_le {n : Nat} (h : n ∈ r.ends text) : n ≤ text.length := by
  have hfilter := filter_ends r text []
  rw [List.append_nil] at hfilter
  rw [← hfilter, List.mem_filter] at h
  exact of_decide_eq_true h.2

theorem filter_splits (parts : List Regex) (u v : List Char) :
    (splits parts (u ++ v)).filter (·.sum ≤ u.length) = splits parts u := by
  induction parts generalizing u with
  | nil => rfl
  | cons r parts ih =>
    have h := filter_flatMap List.sum List.sum List.cons (fun _ _ => List.sum_cons) u.length
      (r.ends (u ++ v)) fun n => splits parts ((u ++ v).drop n)
    rw [splits, splits, h, filter_ends]
    refine List.flatMap_congr fun n hn => ?_
    rw [List.drop_append_of_le_length (ends_le hn), ← List.length_drop, ih]

theorem firstMatch_of_append_none (h : firstMatch parts (u ++ v) = none) :
    firstMatch parts u = none := by
  have hfilter := filter_splits parts u v
  rw [List.head?_eq_none_iff.mp h] at hfilter
  rw [firstMatch, ← hfilter]
  rfl

theorem firstMatch_of_append (h : firstMatch parts (u ++ v) = some ns)
    (hle : ns.sum ≤ u.length) : firstMatch parts u = some ns := by
  obtain ⟨others, hsplits⟩ := List.head?_eq_some_iff.mp h
  have hfilter := filter_splits parts u v
  rw [hsplits, List.filter_cons_of_pos (by simpa using hle)] at hfilter
  rw [firstMatch, ← hfilter]
  rfl

/-- An expression that does not match the empty text has only matches that take something. -/
theorem sum_pos (hnonempty : firstMatch parts [] = none) (h : firstMatch parts text = some ns) :
    0 < ns.sum := by
  by_contra hzero
  have hempty := firstMatch_of_append (u := [])
    (show firstMatch parts ([] ++ text) = some ns from h) (by simpa using hzero)
  rw [hnonempty] at hempty
  cases hempty

theorem texts_append (h : ns.sum ≤ u.length) : texts ns (u ++ v) = texts ns u := by
  induction ns generalizing u with
  | nil => rfl
  | cons n ns ih =>
    rw [List.sum_cons] at h
    rw [texts, texts, List.take_append_of_le_length (by omega),
      List.drop_append_of_le_length (by omega), ih]
    rw [List.length_drop]
    omega

/-! ## Replacing in parts of a text -/

/-- A match that reaches from `left` to `right` goes on as a match of `right`, with the same parts
after the first, and `left` has no match in what it has of it. -/
def continues (parts : List Regex) (left right : List Char) : List Nat → Bool
  | [] => false
  | n :: ns =>
    left.length ≤ n && firstMatch parts right = some ((n - left.length) :: ns) &&
      left.tails.all fun text => (firstMatch parts text).isNone

/-- No match of the text that begins in `left`, after `skip` characters, reaches into `right` unless
it goes on there. -/
def joins (parts : List Regex) (right : List Char) : Nat → List Char → Bool
  | _, [] => true
  | skip + 1, _ :: left => joins parts right skip left
  | 0, c :: left =>
    match firstMatch parts (c :: left ++ right) with
    | none => joins parts right 0 left
    | some ns =>
      if ns.sum ≤ left.length + 1 then joins parts right (ns.sum - 1) left
      else continues parts (c :: left) right ns

/-- Every boundary between pieces joins what is before it with what is behind it. -/
def uncut (parts : List Regex) : List (List Char) → Bool
  | [] => true
  | piece :: pieces => joins parts pieces.flatten 0 piece && uncut parts pieces

/-- A global replacement: the template makes the new text of the texts of the parts. It keeps what
is before a match that goes on. -/
structure Replacement where
  parts : List Regex
  template : List (List Char) → List Char
  nonempty : firstMatch parts [] = none
  keeps : ∀ left right n ns, firstMatch parts (left ++ right) = some (n :: ns) →
    continues parts left right (n :: ns) = true →
      template (texts (n :: ns) (left ++ right)) =
        left ++ template (texts ((n - left.length) :: ns) right)

variable {p : Replacement}

/-- `skip` characters belong to a match that has been replaced. -/
def Replacement.applyFrom (p : Replacement) : Nat → List Char → List Char
  | _, [] => []
  | skip + 1, _ :: text => p.applyFrom skip text
  | 0, c :: text =>
    match firstMatch p.parts (c :: text) with
    | none => c :: p.applyFrom 0 text
    | some ns => p.template (texts ns (c :: text)) ++ p.applyFrom (ns.sum - 1) text

def Replacement.apply (p : Replacement) (text : List Char) : List Char := p.applyFrom 0 text

theorem applyFrom_of_quiet (h : (left.tails.all fun t => (firstMatch p.parts t).isNone) = true) :
    p.applyFrom 0 left = left := by
  induction left with
  | nil => rfl
  | cons c left ih =>
    rw [List.tails_cons, List.all_cons, Bool.and_eq_true] at h
    rw [Replacement.applyFrom, Option.isNone_iff_eq_none.mp h.1]
    exact congrArg (c :: ·) (ih h.2)

theorem applyFrom_drop (p : Replacement) (n : Nat) (text : List Char) :
    p.applyFrom n text = p.apply (text.drop n) := by
  induction text generalizing n with
  | nil =>
    rw [List.drop_nil]
    cases n <;> rfl
  | cons c text ih =>
    cases n with
    | zero => rfl
    | succ n => exact ih n

/-- A text that begins with a match. -/
theorem apply_of_firstMatch (h : firstMatch p.parts text = some ns) :
    p.apply text = p.template (texts ns text) ++ p.apply (text.drop ns.sum) := by
  have hpos := sum_pos p.nonempty h
  cases text with
  | nil =>
    rw [p.nonempty] at h
    cases h
  | cons c text =>
    rw [Replacement.apply, Replacement.applyFrom, h]
    show _ ++ p.applyFrom (ns.sum - 1) text = _
    rw [applyFrom_drop, ← List.drop_succ_cons, Nat.sub_add_cancel hpos]

theorem apply_of_none {c : Char} (h : firstMatch p.parts (c :: text) = none) :
    p.apply (c :: text) = c :: p.apply text := by
  rw [Replacement.apply, Replacement.applyFrom, h]
  rfl

theorem apply_continues (hfirst : firstMatch p.parts (left ++ right) = some ns)
    (h : continues p.parts left right ns = true) :
    p.apply (left ++ right) = p.apply left ++ p.apply right := by
  cases ns with
  | nil => cases h
  | cons n ns =>
    have hkeeps := p.keeps left right n ns hfirst h
    rw [continues, Bool.and_eq_true, Bool.and_eq_true, decide_eq_true_eq, decide_eq_true_eq] at h
    obtain ⟨⟨hle, hright⟩, hquiet⟩ := h
    have hsum : ((n - left.length) :: ns).sum = (n :: ns).sum - left.length := by
      rw [List.sum_cons, List.sum_cons]
      omega
    have hdrop : (left ++ right).drop (n :: ns).sum =
        right.drop ((n - left.length) :: ns).sum := by
      rw [List.drop_append, hsum, List.drop_eq_nil_of_le, List.nil_append]
      rw [List.sum_cons]
      omega
    rw [apply_of_firstMatch hfirst, apply_of_firstMatch hright, hdrop, hkeeps, List.append_assoc]
    exact congrArg (· ++ _) (applyFrom_of_quiet hquiet).symm

theorem applyFrom_append {skip : Nat} (hskip : skip ≤ left.length)
    (h : joins p.parts right skip left = true) :
    p.applyFrom skip (left ++ right) = p.applyFrom skip left ++ p.apply right := by
  induction left generalizing skip with
  | nil =>
    obtain rfl : skip = 0 := by simpa using hskip
    rfl
  | cons c left ih =>
    cases skip with
    | succ skip => exact ih (Nat.le_of_succ_le_succ hskip) h
    | zero =>
      rw [joins] at h
      cases hfirst : firstMatch p.parts (c :: left ++ right) with
      | none =>
        rw [hfirst] at h
        have hleft := firstMatch_of_append_none hfirst
        have hrest := ih (Nat.zero_le _) h
        rw [List.cons_append] at hfirst
        show p.apply (c :: (left ++ right)) = p.apply (c :: left) ++ _
        rw [apply_of_none hfirst, apply_of_none hleft]
        exact congrArg (c :: ·) hrest
      | some ns =>
        rw [hfirst] at h
        by_cases hle : ns.sum ≤ left.length + 1
        · have hleft := firstMatch_of_append hfirst (u := c :: left) hle
          have hrest := ih (show ns.sum - 1 ≤ left.length by omega) (by simpa [hle] using h)
          rw [List.cons_append, Replacement.applyFrom, Replacement.applyFrom, hleft]
          rw [List.cons_append] at hfirst
          simp only [hfirst]
          rw [← List.cons_append, texts_append (u := c :: left) hle, hrest, List.append_assoc]
        · refine apply_continues hfirst ?_
          simpa [hle] using h

theorem apply_append (h : joins p.parts right 0 left = true) :
    p.apply (left ++ right) = p.apply left ++ p.apply right :=
  applyFrom_append (Nat.zero_le _) h

/-- A replacement may be made piece by piece where no match is cut. -/
theorem apply_flatten {pieces : List (List Char)} (h : uncut p.parts pieces = true) :
    p.apply pieces.flatten = (pieces.map p.apply).flatten := by
  induction pieces with
  | nil => rfl
  | cons piece pieces ih =>
    obtain ⟨hjoins, h⟩ := Bool.and_eq_true_iff.mp h
    rw [List.flatten_cons, apply_append hjoins, ih h]
    rfl

/-! ## Literal texts -/

theorem ends_literal (t text : List Char) :
    (literal id t).ends text = if t <+: text then [t.length] else [] := by
  induction t generalizing text with
  | nil => simp [literal, ends]
  | cons c t ih =>
    cases text with
    | nil => simp [literal, ends]
    | cons d text =>
      by_cases hc : d = c
      · subst hc
        by_cases ht : t <+: text
        · simp [literal, ends, ih, ht, Nat.add_comm]
        · simp [literal, ends, ih, ht]
      · simp [literal, ends, hc, Ne.symm hc]

theorem firstMatch_literal (t text : List Char) :
    firstMatch [literal id t] text = if t <+: text then some [t.length] else none := by
  rw [firstMatch, splits, ends_literal]
  split
  · rfl
  · rfl

/-- Every occurrence of a text gives way to another. -/
def Replacement.literal (t new : List Char) (ht : t ≠ []) : Replacement where
  parts := [.literal id t]
  template := fun _ => new
  nonempty := by
    rw [firstMatch_literal, if_neg]
    simpa using ht
  keeps := by
    intro left right n ns hfirst h
    rw [continues, Bool.and_eq_true, Bool.and_eq_true, decide_eq_true_eq, decide_eq_true_eq] at h
    obtain ⟨⟨hle, hright⟩, -⟩ := h
    rw [firstMatch_literal] at hfirst hright
    split at hfirst
    · split at hright
      · simp only [Option.some.injEq, List.cons.injEq] at hfirst hright
        obtain rfl : left = [] := List.length_eq_zero_iff.mp (by omega)
        rfl
      · cases hright
    · cases hfirst

variable {t new : List Char} {ht : t ≠ []}

theorem apply_of_not_infix (h : ¬ t <:+: text) :
    (Replacement.literal t new ht).apply text = text := by
  refine applyFrom_of_quiet (List.all_eq_true.mpr fun suffix hsuffix => ?_)
  have hnone : ¬ t <+: suffix := fun hstart =>
    h (hstart.isInfix.trans ((List.mem_tails _ _).mp hsuffix).isInfix)
  show (firstMatch [Regex.literal id t] suffix).isNone = true
  rw [firstMatch_literal, if_neg hnone]
  rfl

theorem apply_literal (t new : List Char) (ht : t ≠ []) :
    (Replacement.literal t new ht).apply t = new := by
  have hfirst : firstMatch (Replacement.literal t new ht).parts t = some [t.length] := by
    show firstMatch [Regex.literal id t] t = _
    rw [firstMatch_literal, if_pos (List.prefix_refl t)]
  rw [apply_of_firstMatch hfirst, List.sum_singleton, List.drop_length]
  exact List.append_nil _

/-! ## Several replacements -/

def applyAll (ps : List Replacement) (text : List Char) : List Char :=
  ps.foldl (fun current p => p.apply current) text

/-- Each replacement finds its matches uncut in the pieces that the ones before have made. -/
def uncutAll : List Replacement → List (List Char) → Bool
  | [], _ => true
  | p :: ps, pieces => uncut p.parts pieces && uncutAll ps (pieces.map p.apply)

theorem applyAll_cons (p : Replacement) (ps : List Replacement) (text : List Char) :
    applyAll (p :: ps) text = applyAll ps (p.apply text) := rfl

theorem applyAll_append (ps qs : List Replacement) (text : List Char) :
    applyAll (ps ++ qs) text = applyAll qs (applyAll ps text) :=
  List.foldl_append

theorem applyAll_of_fixed {ps : List Replacement} (h : ∀ p ∈ ps, p.apply text = text) :
    applyAll ps text = text := by
  induction ps with
  | nil => rfl
  | cons p ps ih =>
    obtain ⟨hfixed, h⟩ := List.forall_mem_cons.mp h
    rw [applyAll_cons, hfixed, ih h]

theorem applyAll_flatten {ps : List Replacement} {pieces : List (List Char)}
    (h : uncutAll ps pieces = true) :
    applyAll ps pieces.flatten = (pieces.map (applyAll ps)).flatten := by
  induction ps generalizing pieces with
  | nil => exact congrArg List.flatten (List.map_id _).symm
  | cons p ps ih =>
    obtain ⟨huncut, h⟩ := Bool.and_eq_true_iff.mp h
    have hrest := ih h
    rw [← apply_flatten huncut, List.map_map] at hrest
    exact hrest

end Regex
