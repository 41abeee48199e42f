import Mathlib

/-!
# Reading a log from a cursor

Rows in the order of their keys, and the pages after a key.
-/
namespace Cursor

variable {ρ κ : Type*} [LinearOrder κ] {key : ρ → κ} {rows page more : List ρ} {c d : κ}
  {r e : ρ}

/-- Every key is larger than those before it. -/
def Sorted (key : ρ → κ) (rows : List ρ) : Prop := rows.Pairwise fun r r' => key r < key r'

def later (key : ρ → κ) (rows : List ρ) (c : κ) : List ρ := rows.filter fun r => c < key r

/-- The rows after `c`, up to `d`. -/
def span (key : ρ → κ) (rows : List ρ) (c d : κ) : List ρ :=
  rows.filter fun r => c < key r ∧ key r ≤ d

theorem mem_span : r ∈ span key rows c d ↔ r ∈ rows ∧ c < key r ∧ key r ≤ d := by
  simp [span]

theorem span_sorted (h : Sorted key rows) : Sorted key (span key rows c d) :=
  h.sublist List.filter_sublist

theorem prefix_later_append (h : page <+: later key rows c) :
    page <+: later key (rows ++ more) c := by
  unfold later at h ⊢
  rw [List.filter_append]
  exact h.trans (List.prefix_append _ _)

/-- The rows up to `d` come before those that are later. -/
theorem span_prefix_later (h : Sorted key rows) : span key rows c d <+: later key rows c := by
  induction rows with
  | nil => exact List.prefix_rfl
  | cons r rows ih =>
    obtain ⟨hr, hrows⟩ := List.pairwise_cons.mp h
    by_cases hrd : key r ≤ d
    · by_cases hcr : c < key r
      · simpa [span, later, hcr, hrd] using ih hrows
      · simpa [span, later, hcr] using ih hrows
    · have hnone : span key (r :: rows) c d = [] := by
        refine List.filter_eq_nil_iff.mpr fun r' hr' => ?_
        simp only [decide_eq_true_eq, not_and]
        intro _
        obtain rfl | hr' := List.mem_cons.mp hr'
        · exact hrd
        · exact not_le.mpr ((not_le.mp hrd).trans (hr r' hr'))
      rw [hnone]
      exact List.nil_prefix

/-- Adjacent spans join. -/
theorem span_append (h : Sorted key rows) (hcd : c ≤ d) (hde : d ≤ key e) :
    span key rows c d ++ span key rows d (key e) = span key rows c (key e) := by
  induction rows with
  | nil => rfl
  | cons r rows ih =>
    obtain ⟨hr, hrows⟩ := List.pairwise_cons.mp h
    have ih := ih hrows
    by_cases hrd : key r ≤ d
    · have hspan : span key (r :: rows) d (key e) = span key rows d (key e) := by
        simp [span, not_lt.mpr hrd]
      rw [hspan]
      by_cases hcr : c < key r
      · simpa [span, hcr, hrd, hrd.trans hde] using ih
      · simpa [span, hcr] using ih
    · -- the first row is after `d`, and so are all that follow
      have hnone : span key (r :: rows) c d = [] := by
        refine List.filter_eq_nil_iff.mpr fun r' hr' => ?_
        simp only [decide_eq_true_eq, not_and]
        intro _
        obtain rfl | hr' := List.mem_cons.mp hr'
        · exact hrd
        · exact not_le.mpr ((not_le.mp hrd).trans (hr r' hr'))
      rw [hnone, List.nil_append]
      refine List.filter_congr fun r' hr' => ?_
      have hd : d < key r' := by
        obtain rfl | hr' := List.mem_cons.mp hr'
        · exact not_le.mp hrd
        · exact (not_le.mp hrd).trans (hr r' hr')
      simp [hd, hcd.trans_lt hd]

/-- A page that ends with a row holds the rows from its cursor up to that row. -/
theorem prefix_eq_span (h : Sorted key rows) (hpage : page <+: later key rows c)
    (hlast : page.getLast? = some e) : page = span key rows c (key e) := by
  obtain ⟨rest, hrest⟩ := hpage
  have hsorted : Sorted key (page ++ rest) := hrest ▸ h.sublist List.filter_sublist
  obtain ⟨hpage, _, hbefore⟩ := List.pairwise_append.mp hsorted
  have hspan : span key rows c (key e) = (page ++ rest).filter fun r => key r ≤ key e := by
    rw [hrest, later, List.filter_filter]
    refine List.filter_congr fun r _ => ?_
    simp [and_comm]
  have hmem : e ∈ page := List.mem_of_getLast? hlast
  have hle : ∀ r ∈ page, key r ≤ key e := by
    obtain ⟨before, rfl⟩ := List.getLast?_eq_some_iff.mp hlast
    intro r hr
    obtain hr | hr := List.mem_append.mp hr
    · exact ((List.pairwise_append.mp hpage).2.2 r hr e (List.mem_singleton_self e)).le
    · rw [List.mem_singleton.mp hr]
  rw [hspan, List.filter_append, List.filter_eq_self.mpr (by simpa using hle),
    List.filter_eq_nil_iff.mpr (by simpa using fun r hr => hbefore e hmem r hr), List.append_nil]

/-- The first row of a page is no later than any row after the cursor. -/
theorem head_le (h : Sorted key rows) (hpage : e :: page <+: later key rows c) (hr : r ∈ rows)
    (hcr : c < key r) : key e ≤ key r := by
  obtain ⟨rest, hrest⟩ := hpage
  have hmem : r ∈ later key rows c := List.mem_filter.mpr ⟨hr, by simpa using hcr⟩
  have hsorted : Sorted key (later key rows c) := h.sublist List.filter_sublist
  rw [← hrest] at hmem hsorted
  obtain rfl | hr := List.mem_cons.mp hmem
  · exact le_rfl
  · exact ((List.pairwise_cons.mp hsorted).1 r hr).le

theorem mem_of_page (hpage : page <+: later key rows c) (hr : r ∈ page) :
    r ∈ rows ∧ c < key r := by
  simpa [later] using hpage.subset hr

end Cursor
