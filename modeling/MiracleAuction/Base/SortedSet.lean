import Mathlib

/-!
# Sorted sets

A finite set kept in strictly descending order, so that its greatest members
are a prefix. The order is part of the type: no operation re-proves it.
-/

/-- A finite set of `α`, listed from the greatest member down. -/
structure SortedSet (α : Type*) [LinearOrder α] where
  members : List α
  descending : members.Pairwise (· > ·)

namespace SortedSet
variable {α : Type*} [LinearOrder α] {s : SortedSet α} {x y : α}

instance : Membership α (SortedSet α) := ⟨fun s x => x ∈ s.members⟩

instance : DecidableEq (SortedSet α) := fun s t =>
  decidable_of_iff (s.members = t.members) (by cases s; cases t; simp)

instance (s : SortedSet α) (x : α) : Decidable (x ∈ s) :=
  inferInstanceAs (Decidable (x ∈ s.members))

theorem mem_def : x ∈ s ↔ x ∈ s.members := Iff.rfl

/-- Two sorted sets with the same members are equal. -/
theorem ext_mem {s t : SortedSet α} (h : ∀ x, x ∈ s ↔ x ∈ t) : s = t := by
  have hs : s.members.Nodup := s.descending.imp (fun h => ne_of_gt h)
  have ht : t.members.Nodup := t.descending.imp (fun h => ne_of_gt h)
  have hperm : s.members.Perm t.members := (List.perm_ext_iff_of_nodup hs ht).mpr h
  have heq : s.members = t.members :=
    hperm.eq_of_pairwise (fun a b _ _ hab hba => absurd hab (asymm hba)) s.descending t.descending
  cases s
  cases t
  simp_all

/-- The set without members. -/
def empty : SortedSet α := ⟨[], .nil⟩

@[simp] theorem not_mem_empty : x ∉ (empty : SortedSet α) := by simp [mem_def, empty]

/-- Insertion into a descending list; a member already present is left alone. -/
def insertDesc (x : α) : List α → List α
  | [] => [x]
  | y :: ys => if y < x then x :: y :: ys else if x = y then y :: ys else y :: insertDesc x ys

@[simp] theorem mem_insertDesc {l : List α} : y ∈ insertDesc x l ↔ y = x ∨ y ∈ l := by
  induction l with
  | nil => simp [insertDesc]
  | cons z l ih =>
    simp only [insertDesc]
    split
    · simp
    · split
      · subst x; simp
      · simp [ih, or_left_comm]

theorem insertDesc_descending {l : List α} (h : l.Pairwise (· > ·)) :
    (insertDesc x l).Pairwise (· > ·) := by
  induction l with
  | nil => simp [insertDesc]
  | cons z l ih =>
    obtain ⟨hz, hl⟩ := List.pairwise_cons.mp h
    simp only [insertDesc]
    split
    · rename_i hzx
      refine List.pairwise_cons.mpr ⟨?_, h⟩
      intro a ha
      rcases List.mem_cons.mp ha with rfl | ha
      · exact hzx
      · exact lt_trans (hz a ha) hzx
    · split
      · exact h
      · rename_i hzx hne
        refine List.pairwise_cons.mpr ⟨?_, ih hl⟩
        intro a ha
        rcases mem_insertDesc.mp ha with rfl | ha
        · exact lt_of_le_of_ne (not_lt.mp hzx) hne
        · exact hz a ha

/-- Adds a member. -/
def insert (x : α) (s : SortedSet α) : SortedSet α :=
  ⟨insertDesc x s.members, insertDesc_descending s.descending⟩

/-- Removes a member, if it is there. -/
def erase (x : α) (s : SortedSet α) : SortedSet α :=
  ⟨s.members.filter (· ≠ x), s.descending.filter _⟩

@[simp] theorem mem_insert : y ∈ s.insert x ↔ y = x ∨ y ∈ s := mem_insertDesc

@[simp] theorem mem_erase : y ∈ s.erase x ↔ y ∈ s ∧ y ≠ x := by
  simp [mem_def, erase]

/-- The `n` greatest members, greatest first. -/
def greatest (n : Nat) (s : SortedSet α) : List α := s.members.take n

theorem mem_of_mem_greatest {n : Nat} (h : x ∈ s.greatest n) : x ∈ s := List.mem_of_mem_take h

/-- What the two greatest members say about the whole set. -/
inductive TopTwo (s : SortedSet α) : List α → Prop
  | none (h : ∀ x, x ∉ s) : TopTwo s []
  | one {a : α} (ha : ∀ x, x ∈ s ↔ x = a) : TopTwo s [a]
  | two {a b : α} (ha : a ∈ s) (hb : b ∈ s) (hlt : b < a)
      (hrest : ∀ x ∈ s, x ≠ a → x ≤ b) : TopTwo s [a, b]

theorem topTwo (s : SortedSet α) : TopTwo s (s.greatest 2) := by
  obtain ⟨l, hl⟩ := s
  match l, hl with
  | [], _ => exact .none (by simp [mem_def])
  | [a], _ => exact .one (by simp [mem_def])
  | a :: b :: l, hl =>
    obtain ⟨ha, hb⟩ := List.pairwise_cons.mp hl
    obtain ⟨hb, _⟩ := List.pairwise_cons.mp hb
    refine .two (by simp [mem_def]) (by simp [mem_def]) (ha b (by simp)) ?_
    intro x hx hne
    simp only [mem_def, List.mem_cons] at hx
    rcases hx with rfl | rfl | hx
    · exact absurd rfl hne
    · exact le_rfl
    · exact le_of_lt (hb x hx)

end SortedSet
