import Mathlib.Data.List.Perm.Basic
import Mathlib.Data.List.Sort

/-!
# Queries with `ORDER BY` and `LIMIT`

Rows that the comparison does not tell apart may come in another order in each query.
-/

/-! ## `LIMIT 1`

Any row may be returned that comes after none. -/

namespace OrderBy

variable {ρ : Type*} {after : ρ → ρ → Prop} [DecidableRel after] {rows : List ρ}
  {row other : ρ}

/-- The rows that may come first, where `after a b` says that `a` may stand after `b`. -/
def candidates (after : ρ → ρ → Prop) [DecidableRel after] (rows : List ρ) : List ρ :=
  rows.filter fun row => ∀ other ∈ rows, after other row

theorem mem_candidates :
    row ∈ candidates after rows ↔ row ∈ rows ∧ ∀ other ∈ rows, after other row := by
  simp [candidates]

/-- Of a total comparison, some row comes first. -/
theorem exists_candidate (htotal : ∀ a b, after a b ∨ after b a)
    (htrans : ∀ a b c, after a b → after b c → after a c) (hrow : row ∈ rows) :
    ∃ first, first ∈ candidates after rows := by
  have hrefl : ∀ a, after a a := fun a => (htotal a a).elim id id
  induction rows generalizing row with
  | nil => cases hrow
  | cons a rows ih =>
    simp only [mem_candidates]
    cases hrows : rows with
    | nil => exact ⟨a, List.mem_cons_self, by simpa using hrefl a⟩
    | cons b rest =>
      rw [← hrows]
      have hb : b ∈ rows := by simp [hrows]
      obtain ⟨first, hfirst⟩ := ih hb
      obtain ⟨hmem, hmax⟩ := mem_candidates.mp hfirst
      rcases htotal a first with hle | hle
      · exact ⟨first, List.mem_cons_of_mem _ hmem, List.forall_mem_cons.mpr ⟨hle, hmax⟩⟩
      · exact ⟨a, List.mem_cons_self, List.forall_mem_cons.mpr
          ⟨hrefl a, fun c hc => htrans c first a (hmax c hc) hle⟩⟩

end OrderBy

/-! ## `FOR UPDATE SKIP LOCKED`

The query with which workers share the rows of a table. -/

namespace Claims

variable {ρ : Type*} {key : ρ → Nat} {wanted : ρ → Prop} [DecidablePred wanted]
  {rows : List ρ} {limit : Nat} {locked : List Nat} {row : ρ}

/-- The rows that a query takes; it skips those that other transactions have locked. -/
def select (key : ρ → Nat) (wanted : ρ → Prop) [DecidablePred wanted] (rows : List ρ)
    (limit : Nat) (locked : List Nat) : List ρ :=
  ((rows.filter fun row => wanted row ∧ key row ∉ locked).insertionSort
    fun r₁ r₂ => key r₁ ≤ key r₂).take limit

/-- Only wanted rows are taken. -/
theorem mem_of_mem_select (h : row ∈ select key wanted rows limit locked) :
    row ∈ rows ∧ wanted row := by
  have hsort := List.mem_of_mem_take h
  rw [List.mem_insertionSort] at hsort
  obtain ⟨hrow, hwanted⟩ := List.mem_filter.mp hsort
  rw [decide_eq_true_eq] at hwanted
  exact ⟨hrow, hwanted.1⟩

/-- No row is taken twice. -/
theorem nodup_select (h : (rows.map key).Nodup) :
    ((select key wanted rows limit locked).map key).Nodup := by
  unfold select
  have hsorted := ((List.perm_insertionSort (fun r₁ r₂ => key r₁ ≤ key r₂)
    (rows.filter fun row => wanted row ∧ key row ∉ locked)).map key).nodup_iff
  have hfiltered : ((rows.filter fun row => wanted row ∧ key row ∉ locked).map key).Nodup :=
    h.sublist (List.filter_sublist.map key)
  exact (hsorted.mpr hfiltered).sublist ((List.take_sublist _ _).map key)

/-- A limit that is large enough leaves out none but the locked ones. -/
theorem mem_select (hrow : row ∈ rows) (hwanted : wanted row) (hlocked : key row ∉ locked)
    (hlimit : rows.length ≤ limit) : row ∈ select key wanted rows limit locked := by
  unfold select
  rw [List.take_of_length_le, List.mem_insertionSort]
  · exact List.mem_filter.mpr ⟨hrow, by simp [hwanted, hlocked]⟩
  · rw [List.length_insertionSort]
    exact (List.length_filter_le _ _).trans hlimit

end Claims

/-! ## `LIMIT n OFFSET m`

Pages of a table, each by a query of its own. -/

namespace Paging

variable {ρ : Type*} {before : ρ → ρ → Prop} {rows order order' page : List ρ}
  {limit k m : Nat} {a b : ρ}

/-- An order in which a query may return the rows, where `before a b` says that `a` may stand before
`b`. -/
def Sorts (before : ρ → ρ → Prop) (rows order : List ρ) : Prop :=
  order.Perm rows ∧ order.Pairwise before

/-- What a query may return. -/
def Answers (before : ρ → ρ → Prop) (rows : List ρ) (limit offset : Nat)
    (page : List ρ) : Prop :=
  ∃ order, Sorts before rows order ∧ page = (order.drop offset).take limit

/-- `Math.ceil(total / limit)`. -/
def pageCount (total limit : Nat) : Nat := (total + limit - 1) / limit

/-- The rows of the pages, one after the other. -/
def concat (pages : Nat → List ρ) (count : Nat) : List ρ := (List.range count).flatMap pages

/-- The last row of a page may not stand after the first row of the next one. -/
def Separated (before : ρ → ρ → Prop) (rows : List ρ) (limit : Nat) : Prop :=
  ∀ order, Sorts before rows order → ∀ i a b, order[(i + 1) * limit - 1]? = some a →
    order[(i + 1) * limit]? = some b → ¬ before b a

theorem le_pageCount (hlimit : 0 < limit) (total : Nat) :
    total ≤ pageCount total limit * limit := by
  unfold pageCount
  have hmod := Nat.div_add_mod (total + limit - 1) limit
  have hlt := Nat.mod_lt (total + limit - 1) hlimit
  rw [Nat.mul_comm] at hmod
  omega

/-- The pages of one order, one after the other. -/
theorem concat_slices (order : List ρ) (limit count : Nat) :
    concat (fun i => (order.drop (i * limit)).take limit) count = order.take (count * limit) := by
  induction count with
  | zero => simp [concat]
  | succ count ih =>
    unfold concat at ih ⊢
    rw [List.range_succ, List.flatMap_append, ih, List.flatMap_singleton, Nat.succ_mul,
      List.take_add]

/-- In an order, the rows that may stand before `a` come first. -/
theorem filter_eq_take (htrans : ∀ a b c, before a b → before b c → before a c)
    (p : ρ → Bool) (hp : ∀ b, p b = true ↔ before b a) (horder : order.Pairwise before) :
    order.filter p = order.take (order.countP p) := by
  induction order with
  | nil => rfl
  | cons b order ih =>
    obtain ⟨hb, horder⟩ := List.pairwise_cons.mp horder
    by_cases hba : p b = true
    · rw [List.filter_cons_of_pos hba, List.countP_cons_of_pos hba, List.take_succ_cons, ih horder]
    · have hnone : ∀ c ∈ order, p c ≠ true := by
        intro c hc hca
        exact hba ((hp b).mpr (htrans b c a (hb c hc) ((hp c).mp hca)))
      have hcount : order.countP p = 0 := List.countP_eq_zero.mpr hnone
      rw [List.filter_cons_of_neg hba, List.countP_cons_of_neg hba, hcount, List.take_zero]
      exact List.filter_eq_nil_iff.mpr hnone

/-- The rows up to one of an order are those that may stand before it, if the next one may not. -/
theorem countP_eq (htrans : ∀ a b c, before a b → before b c → before a c)
    (hrefl : ∀ a, before a a) (p : ρ → Bool) (hp : ∀ b, p b = true ↔ before b a)
    (horder : order.Pairwise before) (ha : order[k]? = some a)
    (hnext : ∀ b, order[k + 1]? = some b → ¬ before b a) : order.countP p = k + 1 := by
  obtain ⟨hk, ha⟩ := List.getElem?_eq_some_iff.mp ha
  have htake : ∀ c ∈ order.take (k + 1), p c = true := by
    intro c hc
    obtain ⟨i, hi, rfl⟩ := List.mem_take_iff_getElem.mp hc
    rw [hp, ← ha]
    obtain hlt | rfl := Nat.lt_or_eq_of_le (Nat.le_of_lt_succ (lt_of_lt_of_le hi (min_le_left _ _)))
    · exact List.pairwise_iff_getElem.mp horder i k _ hk hlt
    · exact hrefl _
  have hdrop : ∀ c ∈ order.drop (k + 1), p c ≠ true := by
    intro c hc hca
    obtain ⟨i, hi, rfl⟩ := List.mem_drop_iff_getElem.mp hc
    have hk' : k + 1 < order.length := by omega
    refine hnext _ (List.getElem?_eq_getElem hk') (htrans _ _ _ ?_ ((hp _).mp hca))
    obtain rfl | hpos := Nat.eq_zero_or_pos i
    · exact hrefl _
    · exact List.pairwise_iff_getElem.mp horder (k + 1) (k + 1 + i) hk' (by omega) (by omega)
  rw [← List.take_append_drop (k + 1) order, List.countP_append, List.countP_eq_length.mpr htake,
    List.countP_eq_zero.mpr hdrop, List.length_take]
  omega

/-- Where a row and the next one are told apart, every order has the same rows up to there. -/
theorem take_perm (htrans : ∀ a b c, before a b → before b c → before a c)
    (hrefl : ∀ a, before a a) (horder : Sorts before rows order)
    (horder' : Sorts before rows order')
    (hnext : ∀ a b, order[k]? = some a → order[k + 1]? = some b → ¬ before b a) :
    (order.take (k + 1)).Perm (order'.take (k + 1)) := by
  classical
  have hperm : order.Perm order' := horder.1.trans horder'.1.symm
  obtain hk | hk := Nat.lt_or_ge k order.length
  · have hp : ∀ b, decide (before b order[k]) = true ↔ before b order[k] :=
      fun b => decide_eq_true_iff
    have ha : order[k]? = some order[k] := List.getElem?_eq_getElem hk
    have hcount := countP_eq htrans hrefl _ hp horder.2 ha fun b => hnext _ b ha
    rw [← hcount, ← filter_eq_take htrans _ hp horder.2, hperm.countP_eq,
      ← filter_eq_take htrans _ hp horder'.2]
    exact hperm.filter _
  · rw [List.take_of_length_le (by omega),
      List.take_of_length_le (by rw [← hperm.length_eq]; omega)]
    exact hperm

/-- Pages of separate queries have the rows of one order. -/
theorem page_perm (htrans : ∀ a b c, before a b → before b c → before a c)
    (hrefl : ∀ a, before a a) (hlimit : 0 < limit) (hseparated : Separated before rows limit)
    (horder : Sorts before rows order) (horder' : Sorts before rows order') (i : Nat) :
    ((order'.drop (i * limit)).take limit).Perm ((order.drop (i * limit)).take limit) := by
  have htake : ∀ i, (order'.take (i * limit)).Perm (order.take (i * limit)) := by
    intro i
    cases i with
    | zero => simp
    | succ i =>
      have hpos : 0 < (i + 1) * limit := Nat.mul_pos (Nat.succ_pos i) hlimit
      obtain ⟨k, hk⟩ : ∃ k, (i + 1) * limit = k + 1 := ⟨(i + 1) * limit - 1, by omega⟩
      rw [hk]
      refine take_perm htrans hrefl horder' horder fun a b ha hb => ?_
      exact hseparated order' horder' i a b (by rw [hk]; exact ha) (by rw [hk]; exact hb)
  have hnext := htake (i + 1)
  rw [Nat.succ_mul, List.take_add, List.take_add] at hnext
  exact (List.perm_append_left_iff _).mp (hnext.trans ((htake i).symm.append_right _))

/-- Two rows that stand next to each other and may change places. -/
theorem swap_sorts {pre post : List ρ} (h : Sorts before rows (pre ++ a :: b :: post))
    (hba : before b a) : Sorts before rows (pre ++ b :: a :: post) := by
  obtain ⟨hperm, hsorted⟩ := h
  refine ⟨((List.Perm.swap a b post).append_left pre).trans hperm, ?_⟩
  simp only [List.pairwise_append, List.pairwise_cons, List.mem_cons] at hsorted ⊢
  obtain ⟨hpre, ⟨ha, hb, hpost⟩, hcross⟩ := hsorted
  refine ⟨hpre, ⟨?_, fun c hc => ha c (.inr hc), hpost⟩, ?_⟩
  · rintro c (rfl | hc)
    · exact hba
    · exact hb c hc
  · rintro c hc d (rfl | rfl | hd)
    · exact hcross c hc d (.inr (.inl rfl))
    · exact hcross c hc d (.inl rfl)
    · exact hcross c hc d (.inr (.inr hd))

theorem eq_append_cons_cons (ha : order[k]? = some a) (hb : order[k + 1]? = some b) :
    order = order.take k ++ a :: b :: order.drop (k + 2) := by
  obtain ⟨hk, rfl⟩ := List.getElem?_eq_some_iff.mp ha
  obtain ⟨hk', rfl⟩ := List.getElem?_eq_some_iff.mp hb
  rw [← List.drop_eq_getElem_cons hk', ← List.drop_eq_getElem_cons hk, List.take_append_drop]

theorem mem_slice (ha : order[k]? = some a) (hk : m ≤ k) (hlt : k < m + limit) :
    a ∈ (order.drop m).take limit := by
  refine List.mem_iff_getElem?.mpr ⟨k - m, ?_⟩
  rw [List.getElem?_take_of_lt (by omega), List.getElem?_drop, Nat.add_sub_cancel' hk, ha]

/-- Where no two rows may change places, the pages are separated. -/
theorem separated_of_antisymm (hlimit : 0 < limit) (hrows : rows.Nodup)
    (hanti : ∀ a ∈ rows, ∀ b ∈ rows, before a b → before b a → a = b) :
    Separated before rows limit := by
  intro order horder i a b ha hb hba
  obtain ⟨hlast, rfl⟩ := List.getElem?_eq_some_iff.mp ha
  obtain ⟨hfirst, rfl⟩ := List.getElem?_eq_some_iff.mp hb
  have hpos : 0 < (i + 1) * limit := Nat.mul_pos (Nat.succ_pos i) hlimit
  have hlt : (i + 1) * limit - 1 < (i + 1) * limit := by omega
  have hab := List.pairwise_iff_getElem.mp horder.2 _ _ hlast hfirst hlt
  have hsame := hanti _ (horder.1.mem_iff.mp (List.getElem_mem hlast)) _
    (horder.1.mem_iff.mp (List.getElem_mem hfirst)) hab hba
  exact hlt.ne ((horder.1.nodup_iff.mpr hrows).getElem_inj_iff.mp hsame)

/-- If the pages list every row once in every case, no page ends between two rows that may change
places. -/
theorem separated_of_pages {count : Nat} (hlimit : 0 < limit) (hrows : rows.Nodup)
    (hcount : rows.length ≤ count * limit)
    (hall : ∀ pages : Nat → List ρ,
      (∀ i, Answers before rows limit (i * limit) (pages i)) → (concat pages count).Perm rows) :
    Separated before rows limit := by
  -- The row before the end of a page may come again on the next page.
  intro order horder i a b ha hb hba
  have hpos : 0 < (i + 1) * limit := Nat.mul_pos (Nat.succ_pos i) hlimit
  have hsucc : (i + 1) * limit = i * limit + limit := Nat.succ_mul i limit
  obtain ⟨k, hk⟩ : ∃ k, (i + 1) * limit = k + 1 := ⟨(i + 1) * limit - 1, by omega⟩
  rw [hk, Nat.add_sub_cancel] at ha
  rw [hk] at hb
  have hi : i + 1 < count := by
    obtain ⟨hlt, _⟩ := List.getElem?_eq_some_iff.mp hb
    rw [horder.1.length_eq] at hlt
    exact Nat.lt_of_mul_lt_mul_right (lt_of_lt_of_le (hk ▸ hlt) hcount)
  have heq := eq_append_cons_cons ha hb
  have hswap : Sorts before rows (order.take k ++ b :: a :: order.drop (k + 2)) :=
    swap_sorts (heq ▸ horder) hba
  have hlength : (order.take k).length = k := by
    obtain ⟨hlt, _⟩ := List.getElem?_eq_some_iff.mp ha
    rw [List.length_take]
    omega
  have hlast : (order.take k ++ b :: a :: order.drop (k + 2))[k + 1]? = some a := by
    rw [List.getElem?_append_right (by omega), hlength]
    simp
  have hperm := hall
    (fun j => (if j = i + 1 then order.take k ++ b :: a :: order.drop (k + 2) else order).drop
      (j * limit) |>.take limit) fun j => by
        by_cases hj : j = i + 1
        · exact ⟨_, hswap, by rw [if_pos hj]⟩
        · exact ⟨_, horder, by rw [if_neg hj]⟩
  have hnodup := (List.Perm.nodup_iff hperm).mpr hrows
  obtain ⟨_, hdisjoint⟩ := List.nodup_flatMap.mp hnodup
  have hpages := List.pairwise_iff_getElem.mp hdisjoint i (i + 1) (by simp; omega) (by simp; omega)
    (Nat.lt_succ_self i)
  simp only [List.getElem_range, Function.onFun] at hpages
  refine hpages (a := a) ?_ ?_
  · rw [if_neg (by omega)]
    exact mem_slice ha (by omega) (by omega)
  · rw [if_pos trivial]
    exact mem_slice hlast (by omega) (by omega)

/-- Pages whose rows are those of one order, page by page, list its rows once. -/
theorem pages_of_same {count : Nat} (hcount : rows.length ≤ count * limit)
    (horder : Sorts before rows order) {pages : Nat → List ρ}
    (hpages : ∀ i < count, (pages i).Perm ((order.drop (i * limit)).take limit)) :
    (concat pages count).Perm rows := by
  have hslices : (concat pages count).Perm
      (concat (fun i => (order.drop (i * limit)).take limit) count) :=
    List.Perm.flatMap_left _ fun i hi => hpages i (List.mem_range.mp hi)
  rw [concat_slices, List.take_of_length_le (by rw [horder.1.length_eq]; exact hcount)] at hslices
  exact hslices.trans horder.1

/-- If no page ends between two such rows, the pages list every row once. -/
theorem pages_of_separated {count : Nat}
    (htrans : ∀ a b c, before a b → before b c → before a c)
    (hrefl : ∀ a, before a a) (hlimit : 0 < limit) (hcount : rows.length ≤ count * limit)
    (hseparated : Separated before rows limit) {pages : Nat → List ρ}
    (hpages : ∀ i < count, Answers before rows limit (i * limit) (pages i)) :
    (concat pages count).Perm rows := by
  obtain rfl | hpos := Nat.eq_zero_or_pos count
  · obtain rfl : rows = [] := List.eq_nil_of_length_eq_zero (by omega)
    exact .nil
  obtain ⟨order, horder, _⟩ := hpages 0 hpos
  refine pages_of_same hcount horder fun i hi => ?_
  obtain ⟨order', horder', hpage⟩ := hpages i hi
  rw [hpage]
  exact page_perm htrans hrefl hlimit hseparated horder horder' i

/-! ## Rows that change between the queries -/

/-- A page is the same of two sets of rows, in every order. -/
def SamePage (before : ρ → ρ → Prop) (rows rows' : List ρ) (limit i : Nat) : Prop :=
  ∀ order order', Sorts before rows order → Sorts before rows' order' →
    ((order'.drop (i * limit)).take limit).Perm ((order.drop (i * limit)).take limit)

/-- Where one page of two may differ, and they list the same rows in all, it does not. -/
theorem perm_of_concat {pages pages' : Nat → List ρ} {count i : Nat} (hi : i < count)
    (hpages : ∀ j, j ≠ i → pages' j = pages j)
    (h : (concat pages' count).Perm (concat pages count)) : (pages' i).Perm (pages i) := by
  obtain ⟨before, after, hrange⟩ := List.append_of_mem (List.mem_range.mpr hi)
  have hnodup := hrange ▸ List.nodup_range (n := count)
  obtain ⟨hbefore, hafter⟩ : i ∉ before ∧ i ∉ after := by
    rw [List.nodup_middle, List.nodup_cons, List.mem_append, not_or] at hnodup
    exact hnodup.1
  have hsame : ∀ indices : List Nat, i ∉ indices →
      indices.flatMap pages' = indices.flatMap pages := by
    intro indices hnot
    refine List.flatMap_congr fun j hj => hpages j ?_
    rintro rfl
    exact hnot hj
  unfold concat at h
  rw [hrange, List.flatMap_append, List.flatMap_append, List.flatMap_cons, List.flatMap_cons,
    hsame before hbefore, hsame after hafter, List.perm_append_left_iff,
    List.perm_append_right_iff] at h
  exact h

/-- Of a total comparison, there is an order. -/
theorem exists_sorts (htrans : ∀ a b c, before a b → before b c → before a c)
    (htotal : ∀ a b, before a b ∨ before b a) (rows : List ρ) :
    ∃ order, Sorts before rows order := by
  classical
  have : IsTrans ρ before := ⟨htrans⟩
  have : Std.Total before := ⟨htotal⟩
  exact ⟨rows.insertionSort before, List.perm_insertionSort before rows,
    List.pairwise_insertionSort before rows⟩

end Paging
