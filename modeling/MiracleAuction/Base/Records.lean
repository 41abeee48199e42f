import Mathlib

/-!
# Records

The entries of a list that rank above a start and above every entry before them, and the highest
rank.
-/
namespace MiracleAuction.Records

variable {α β : Type} [LinearOrder β] {rank : α → β} {start : WithBot β} {entries : List α}
  {entry : α}

def records (rank : α → β) : WithBot β → List α → List α
  | _, [] => []
  | high, entry :: entries =>
    if high < rank entry then entry :: records rank (rank entry) entries
    else records rank high entries

def peak (rank : α → β) (start : WithBot β) (entries : List α) : WithBot β :=
  entries.foldl (fun high entry => max high (rank entry)) start

theorem records_cons_of_lt (h : start < rank entry) :
    records rank start (entry :: entries) = entry :: records rank (rank entry) entries :=
  if_pos h

theorem records_cons_of_not_lt (h : ¬ start < rank entry) :
    records rank start (entry :: entries) = records rank start entries :=
  if_neg h

/-- A record is an entry, above the start. -/
theorem records_spec (h : entry ∈ records rank start entries) :
    entry ∈ entries ∧ start < rank entry := by
  induction entries generalizing start with
  | nil => cases h
  | cons first entries ih =>
    by_cases hlt : start < rank first
    · rw [records_cons_of_lt hlt] at h
      obtain rfl | h := List.mem_cons.mp h
      · exact ⟨List.mem_cons_self, hlt⟩
      · obtain ⟨hmem, habove⟩ := ih h
        exact ⟨List.mem_cons_of_mem _ hmem, hlt.trans habove⟩
    · rw [records_cons_of_not_lt hlt] at h
      obtain ⟨hmem, habove⟩ := ih h
      exact ⟨List.mem_cons_of_mem _ hmem, habove⟩

theorem records_increasing (rank : α → β) (start : WithBot β) (entries : List α) :
    (records rank start entries).Pairwise fun a b => rank a < rank b := by
  induction entries generalizing start with
  | nil => exact .nil
  | cons first entries ih =>
    by_cases hlt : start < rank first
    · rw [records_cons_of_lt hlt]
      exact .cons (fun b hb => WithBot.coe_lt_coe.mp (records_spec hb).2) (ih _)
    · rw [records_cons_of_not_lt hlt]
      exact ih start

/-- The last record, or the start where there is none, is the peak. -/
theorem last_record (rank : α → β) (start : WithBot β) (entries : List α) :
    ((records rank start entries).getLast?.elim start fun last => (rank last : WithBot β)) =
      peak rank start entries := by
  induction entries generalizing start with
  | nil => rfl
  | cons first entries ih =>
    rw [peak, List.foldl_cons, ← peak]
    by_cases hlt : start < rank first
    · rw [records_cons_of_lt hlt, max_eq_right hlt.le, ← ih, List.getLast?_cons]
      cases (records rank (rank first) entries).getLast? <;> rfl
    · rw [records_cons_of_not_lt hlt, max_eq_left (not_lt.mp hlt), ih]

theorem peak_isGreatest (rank : α → β) (start : WithBot β) (entries : List α) :
    IsGreatest (insert start {place : WithBot β | ∃ entry ∈ entries, place = rank entry})
      (peak rank start entries) := by
  induction entries generalizing start with
  | nil =>
    refine ⟨Set.mem_insert _ _, fun place hplace => ?_⟩
    obtain rfl | ⟨entry, hentry, _⟩ := hplace
    · exact le_rfl
    · cases hentry
  | cons first entries ih =>
    obtain ⟨hmem, hbound⟩ := ih (max start (rank first))
    have hstart := hbound (Set.mem_insert _ _)
    rw [peak, List.foldl_cons, ← peak]
    constructor
    · obtain heq | ⟨entry, hentry, heq⟩ := hmem
      · rw [heq]
        obtain hmax | hmax := max_choice start (rank first : WithBot β)
        · exact .inl hmax
        · exact .inr ⟨first, List.mem_cons_self, hmax⟩
      · exact .inr ⟨entry, List.mem_cons_of_mem _ hentry, heq⟩
    · rintro place (rfl | ⟨entry, hentry, rfl⟩)
      · exact (le_max_left _ _).trans hstart
      · obtain rfl | hentry := List.mem_cons.mp hentry
        · exact (le_max_right _ _).trans hstart
        · exact hbound (.inr ⟨entry, hentry, rfl⟩)

end MiracleAuction.Records
