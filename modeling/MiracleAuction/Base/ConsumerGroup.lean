import Mathlib
import MiracleAuction.Base.Cursor

/-!
# Streams with a consumer group

A stream of entries with increasing ids, and a group whose consumers are given each entry
once and acknowledge it.
-/

structure ConsumerGroup (ι β : Type*) where
  entries : List (ι × β)
  lastGenerated : ι
  lastDelivered : ι
  pending : List ι

namespace ConsumerGroup
variable {ι β : Type*} [LinearOrder ι]

section
variable (g : ConsumerGroup ι β)

/-- The entry is not delivered yet, or not acknowledged since. -/
def Outstanding (id : ι) : Prop := g.lastDelivered < id ∨ id ∈ g.pending

instance (id : ι) : Decidable (g.Outstanding id) := inferInstanceAs (Decidable (_ ∨ _))

def add (entry : ι × β) : ConsumerGroup ι β :=
  { g with entries := g.entries ++ [entry], lastGenerated := entry.1 }

/-- The next entries for a consumer. -/
def page (count : Nat) : List (ι × β) :=
  (Cursor.later Prod.fst g.entries g.lastDelivered).take count

def read (count : Nat) : ConsumerGroup ι β :=
  { g with
    pending := g.pending ++ (g.page count).map Prod.fst
    lastDelivered := ((g.page count).getLast?.map Prod.fst).getD g.lastDelivered }

def acknowledge (id : ι) : ConsumerGroup ι β :=
  { g with pending := g.pending.filter fun other => other ≠ id }

def delete (id : ι) : ConsumerGroup ι β :=
  { g with entries := g.entries.filter fun entry => entry.1 ≠ id }

/-- Entries before the threshold are dropped. -/
def trim (threshold : ι) : ConsumerGroup ι β :=
  { g with entries := g.entries.filter fun entry => threshold ≤ entry.1 }

end

/-- Ids only grow, and the consumers follow. -/
structure Ordered (g : ConsumerGroup ι β) : Prop where
  sorted : Cursor.Sorted Prod.fst g.entries
  generated : ∀ entry ∈ g.entries, entry.1 ≤ g.lastGenerated
  delivered : g.lastDelivered ≤ g.lastGenerated
  pending : ∀ id ∈ g.pending, id ≤ g.lastDelivered

/-- Everything before the threshold is acknowledged, but for some exceptions. -/
def Clears (g : ConsumerGroup ι β) (late : List ι) (threshold : ι) : Prop :=
  ∀ id, g.Outstanding id → threshold ≤ id ∨ id ∈ late

section
variable {g : ConsumerGroup ι β} {entry : ι × β} {id threshold : ι} {late : List ι}
  {count : Nat}

theorem mem_page (h : entry ∈ g.page count) :
    entry ∈ g.entries ∧ g.lastDelivered < entry.1 := by
  have := List.mem_of_mem_take h
  simpa [Cursor.later] using this

/-- The group moves on to the last entry that it delivers. -/
theorem read_delivered (h : g.Ordered) : g.lastDelivered ≤ (g.read count).lastDelivered ∧
    (g.read count).lastDelivered ≤ g.lastGenerated ∧
    ∀ entry ∈ g.page count, entry.1 ≤ (g.read count).lastDelivered := by
  unfold read
  dsimp only
  cases hlast : (g.page count).getLast? with
  | none =>
    rw [List.getLast?_eq_none_iff] at hlast
    refine ⟨le_rfl, h.delivered, fun entry hentry => ?_⟩
    rw [hlast] at hentry
    cases hentry
  | some last =>
    obtain ⟨hin, hlt⟩ := mem_page (List.mem_of_getLast? hlast)
    refine ⟨hlt.le, h.generated last hin, fun entry hentry => ?_⟩
    have hsorted : Cursor.Sorted Prod.fst (g.page count) :=
      h.sorted.sublist ((List.take_sublist _ _).trans List.filter_sublist)
    obtain ⟨before, hbefore⟩ := List.getLast?_eq_some_iff.mp hlast
    rw [hbefore] at hentry hsorted
    obtain hentry | hentry := List.mem_append.mp hentry
    · exact ((List.pairwise_append.mp hsorted).2.2 entry hentry last
        (List.mem_singleton_self _)).le
    · rw [List.mem_singleton.mp hentry]
      exact le_rfl

theorem Ordered.add (h : g.Ordered) (hid : g.lastGenerated < entry.1) : (g.add entry).Ordered where
  sorted := by
    refine List.pairwise_append.mpr ⟨h.sorted, List.pairwise_singleton _ _, ?_⟩
    intro other hother last hlast
    rw [List.mem_singleton.mp hlast]
    exact (h.generated other hother).trans_lt hid
  generated other hother := by
    obtain hother | hother := List.mem_append.mp hother
    · exact (h.generated other hother).trans hid.le
    · rw [List.mem_singleton.mp hother]
      exact le_rfl
  delivered := h.delivered.trans hid.le
  pending := h.pending

theorem Ordered.read (h : g.Ordered) : (g.read count).Ordered where
  sorted := h.sorted
  generated := h.generated
  delivered := (read_delivered h).2.1
  pending id hid := by
    obtain hid | hid := List.mem_append.mp hid
    · exact (h.pending id hid).trans (read_delivered h).1
    · obtain ⟨entry, hentry, rfl⟩ := List.mem_map.mp hid
      exact (read_delivered h).2.2 entry hentry

theorem Ordered.acknowledge (h : g.Ordered) : (g.acknowledge id).Ordered where
  sorted := h.sorted
  generated := h.generated
  delivered := h.delivered
  pending other hother := h.pending other (List.mem_filter.mp hother).1

theorem Ordered.delete (h : g.Ordered) : (g.delete id).Ordered where
  sorted := h.sorted.sublist List.filter_sublist
  generated other hother := h.generated other (List.mem_filter.mp hother).1
  delivered := h.delivered
  pending := h.pending

theorem Ordered.trim (h : g.Ordered) : (g.trim threshold).Ordered where
  sorted := h.sorted.sublist List.filter_sublist
  generated other hother := h.generated other (List.mem_filter.mp hother).1
  delivered := h.delivered
  pending := h.pending

/-- What is acknowledged stays so when the group reads on. -/
theorem outstanding_of_read (h : g.Ordered) (hid : (g.read count).Outstanding id) :
    g.Outstanding id := by
  obtain hid | hid := hid
  · exact .inl ((read_delivered h).1.trans_lt hid)
  · obtain hid | hid := List.mem_append.mp hid
    · exact .inr hid
    · obtain ⟨entry, hentry, rfl⟩ := List.mem_map.mp hid
      exact .inl (mem_page hentry).2

theorem outstanding_acknowledge_iff : (g.acknowledge id).Outstanding threshold ↔
    g.lastDelivered < threshold ∨ (threshold ∈ g.pending ∧ threshold ≠ id) := by
  simp [Outstanding, acknowledge]

theorem outstanding_of_acknowledge (h : (g.acknowledge id).Outstanding threshold) :
    g.Outstanding threshold := by
  obtain h | ⟨h, _⟩ := outstanding_acknowledge_iff.mp h
  · exact .inl h
  · exact .inr h

/-- A pending entry is settled by its acknowledgement. -/
theorem not_outstanding_acknowledge (h : g.Ordered) (hid : id ∈ g.pending) :
    ¬ (g.acknowledge id).Outstanding id := by
  rw [outstanding_acknowledge_iff]
  rintro (hlt | ⟨_, hne⟩)
  · exact absurd (h.pending id hid) (not_le.mpr hlt)
  · exact hne rfl

/-- Before the oldest pending entry everything is acknowledged. -/
theorem clears_of_least (h : g.Ordered) (hid : id ∈ g.pending)
    (hleast : ∀ other ∈ g.pending, id ≤ other) : g.Clears late id := by
  rintro other (hlt | hmem)
  · exact .inl ((h.pending id hid).trans hlt.le)
  · exact .inl (hleast other hmem)

/-- Where only exceptions are pending, so is everything else up to the last one delivered. -/
theorem clears_of_pending (h : ∀ id ∈ g.pending, id ∈ late) :
    g.Clears late g.lastDelivered := by
  rintro other (hlt | hmem)
  · exact .inl hlt.le
  · exact .inr (h other hmem)

/-- Trimming at such a threshold drops no other outstanding entry. -/
theorem mem_trim (h : g.Clears late threshold) (hentry : entry ∈ g.entries)
    (hid : g.Outstanding entry.1) : entry ∈ (g.trim threshold).entries ∨ entry.1 ∈ late := by
  obtain hle | hlate := h entry.1 hid
  · exact .inl (List.mem_filter.mpr ⟨hentry, by simpa using hle⟩)
  · exact .inr hlate

end

end ConsumerGroup
