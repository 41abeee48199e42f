import Mathlib

/-!
# Fixed windows

A counter that admits a limited number of events until it expires. Its first event opens
a window; it expires at the end of the window or later.
-/
namespace FixedWindow

variable {limit length clock clock' count expiresAt : Nat} {times : List Nat}

/-- The events at or after a time and less than a window later. -/
def within (length t : Nat) (times : List Nat) : Nat :=
  times.countP fun x => t ≤ x ∧ x < t + length

/-- The counter and the times of the events that it has admitted, the last one first. -/
structure Admits (limit length clock count expiresAt : Nat) (times : List Nat) : Prop where
  past : ∀ x ∈ times, x ≤ clock
  spread : ∀ t, within length t times ≤ 2 * limit - 1
  /-- Between two windows, the events of less than a window ago were those of the last one,
  but for the event that opened it. -/
  idle : count = 0 → times.countP (fun x => clock < x + length) ≤ limit - 1
  /-- In a window, so were those of less than a window before it opened. -/
  busy : 0 < count → count ≤ limit ∧ expiresAt ≤ clock + length ∧ ∃ now before,
    times = now ++ before ∧ now.length = count ∧ (∃ x ∈ now, x + length ≤ expiresAt) ∧
      (∀ x ∈ before, x + length ≤ expiresAt) ∧
      before.countP (fun x => expiresAt < x + 2 * length) ≤ limit - 1

theorem admits_start : Admits limit length clock 0 expiresAt [] where
  past := by simp
  spread := by simp [within]
  idle := by simp
  busy := by simp

theorem Admits.wait (h : Admits limit length clock count expiresAt times)
    (hclock : clock ≤ clock') : Admits limit length clock' count expiresAt times where
  past x hx := (h.past x hx).trans hclock
  spread := h.spread
  idle hcount := by
    refine le_trans (List.countP_mono_left fun x _ hx => ?_) (h.idle hcount)
    simp only [decide_eq_true_eq] at hx ⊢
    omega
  busy hcount := by
    obtain ⟨hlimit, hexpires, hwindow⟩ := h.busy hcount
    exact ⟨hlimit, by omega, hwindow⟩

/-- An event now adds to the spans that reach back less than a window. -/
theorem within_cons (length clock : Nat) (times : List Nat) (t : Nat) :
    within length t (clock :: times) ≤ within length t times ∨
      (within length t (clock :: times) = within length t times + 1 ∧
        within length t times ≤ times.countP fun x => clock < x + length) := by
  unfold within
  rw [List.countP_cons]
  split
  · rename_i hin
    simp only [decide_eq_true_eq] at hin
    refine .inr ⟨rfl, List.countP_mono_left fun x hx hspan => ?_⟩
    simp only [decide_eq_true_eq] at hspan ⊢
    omega
  · exact .inl (by omega)

/-- A window opens. -/
theorem Admits.first (h : Admits limit length clock 0 expiresAt times) (hlimit : 0 < limit) :
    Admits limit length clock 1 (clock + length) (clock :: times) where
  past x hx := by
    obtain rfl | hx := List.mem_cons.mp hx
    · exact le_rfl
    · exact h.past x hx
  spread t := by
    have hidle := h.idle rfl
    have hold := h.spread t
    obtain hle | ⟨heq, hle⟩ := within_cons length clock times t <;> omega
  idle := by simp
  busy _ := by
    refine ⟨hlimit, le_rfl, [clock], times, rfl, rfl, ⟨clock, by simp, le_rfl⟩,
      fun x hx => ?_, ?_⟩
    · have := h.past x hx
      omega
    · refine le_trans (List.countP_mono_left fun x _ hx => ?_) (h.idle rfl)
      simp only [decide_eq_true_eq] at hx ⊢
      omega

/-- An event in an open window. -/
theorem Admits.next (h : Admits limit length clock count expiresAt times) (hcount : 0 < count)
    (hlimit : count < limit) :
    Admits limit length clock (count + 1) expiresAt (clock :: times) where
  past x hx := by
    obtain rfl | hx := List.mem_cons.mp hx
    · exact le_rfl
    · exact h.past x hx
  spread t := by
    obtain ⟨_, hexpires, now, before, rfl, hnow, _, _, hbefore⟩ := h.busy hcount
    have hold := h.spread t
    obtain hle | ⟨heq, hle⟩ := within_cons length clock (now ++ before) t
    · omega
    · -- those of the last window before this one, and of this one
      have hsplit : (now ++ before).countP (fun x => decide (clock < x + length)) ≤
          now.length + before.countP fun x => decide (expiresAt < x + 2 * length) := by
        rw [List.countP_append]
        refine Nat.add_le_add List.countP_le_length (List.countP_mono_left fun x _ hx => ?_)
        simp only [decide_eq_true_eq] at hx ⊢
        omega
      omega
  idle hzero := by cases hzero
  busy _ := by
    obtain ⟨_, hexpires, now, before, rfl, hnow, ⟨x, hx, hopened⟩, hends, hbefore⟩ :=
      h.busy hcount
    exact ⟨hlimit, hexpires, clock :: now, before, rfl, by simp [hnow],
      ⟨x, List.mem_cons_of_mem _ hx, hopened⟩, hends, hbefore⟩

/-- The counter expires. -/
theorem Admits.expire (h : Admits limit length clock count expiresAt times)
    (hexpired : expiresAt ≤ clock) : Admits limit length clock 0 expiresAt times where
  past := h.past
  spread := h.spread
  idle _ := by
    obtain hzero | hcount := Nat.eq_zero_or_pos count
    · exact h.idle hzero
    · obtain ⟨hlimit, _, now, before, rfl, hnow, ⟨x, hx, hopened⟩, hends, _⟩ :=
        h.busy hcount
      have hnone : before.countP (fun x => decide (clock < x + length)) = 0 := by
        rw [List.countP_eq_zero]
        intro y hy
        have := hends y hy
        simp only [decide_eq_true_eq]
        omega
      have hopening : now.countP (fun x => decide (clock < x + length)) < now.length := by
        rw [List.countP_lt_length_iff]
        exact ⟨x, hx, by simp only [decide_eq_false_iff_not]; omega⟩
      rw [List.countP_append]
      omega
  busy hzero := absurd hzero (lt_irrefl 0)

end FixedWindow
