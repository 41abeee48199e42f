import Mathlib

/-!
# The first maximal member of a list

`List.argmax` returns the first of the members with the greatest value. The
lemmas here say where it stands, and when removals and additions keep it.
-/
namespace List
variable {α β : Type*} [LinearOrder β] {f : α → β} {l : List α} {a c : α}

theorem argmax_append_split {pre post : List α} (hpre : ∀ b ∈ pre, f b < f c)
    (hpost : ∀ b ∈ post, f b ≤ f c) : (pre ++ c :: post).argmax f = some c := by
  induction post using List.reverseRecOn with
  | nil =>
    rw [argmax_concat]
    cases h : pre.argmax f with
    | none => rfl
    | some d => simp [hpre d (argmax_mem h)]
  | append_singleton post b ih =>
    rw [← cons_append, ← append_assoc, argmax_concat,
      ih fun d hd => hpost d (mem_append_left _ hd)]
    simp [hpost b (by simp)]

/-- What stands before the first maximal member is smaller, and nothing exceeds it. -/
theorem argmax_eq_some_iff_split : l.argmax f = some c ↔
    ∃ pre post, l = pre ++ c :: post ∧ (∀ b ∈ pre, f b < f c) ∧
      ∀ b ∈ post, f b ≤ f c := by
  constructor
  · intro h
    induction l using List.reverseRecOn generalizing c with
    | nil => simp at h
    | append_singleton l a ih =>
      rw [argmax_concat] at h
      cases hl : l.argmax f with
      | none =>
        rw [argmax_eq_none] at hl
        subst hl
        simp only [argmax_nil, Option.some.injEq] at h
        exact ⟨[], [], by simp [h], by simp, by simp⟩
      | some d =>
        simp only [hl] at h
        split at h
        · rename_i hlt
          cases h
          exact ⟨l, [], rfl, fun b hb => lt_of_le_of_lt (le_of_mem_argmax hb hl) hlt, by simp⟩
        · rename_i hle
          cases h
          obtain ⟨pre, post, rfl, hpre, hpost⟩ := ih hl
          refine ⟨pre, post ++ [a], by simp, hpre, fun b hb => ?_⟩
          rcases mem_append.mp hb with hb | hb
          · exact hpost b hb
          · rw [mem_singleton.mp hb]
            exact not_lt.mp hle
  · rintro ⟨pre, post, rfl, hpre, hpost⟩
    exact argmax_append_split hpre hpost

/-- Removing other members keeps the first maximal one. -/
theorem argmax_filter {p : α → Bool} (h : l.argmax f = some c) (hc : p c = true) :
    (l.filter p).argmax f = some c := by
  obtain ⟨pre, post, rfl, hpre, hpost⟩ := argmax_eq_some_iff_split.mp h
  rw [filter_append, filter_cons_of_pos hc]
  exact argmax_append_split (fun b hb => hpre b (mem_of_mem_filter hb))
    fun b hb => hpost b (mem_of_mem_filter hb)

/-- A later member that is not greater changes nothing. -/
theorem argmax_concat_of_le (h : l.argmax f = some c) (hle : f a ≤ f c) :
    (l ++ [a]).argmax f = some c := by
  rw [argmax_concat, h]
  simp [hle]

/-- A later member that exceeds all others is the first maximal one. -/
theorem argmax_concat_of_lt (h : ∀ b ∈ l, f b < f a) : (l ++ [a]).argmax f = some a :=
  argmax_append_split h (by simp)

end List
