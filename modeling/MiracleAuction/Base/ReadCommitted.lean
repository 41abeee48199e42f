import MiracleAuction.Base.Run

/-!
# Transactions under READ COMMITTED

A statement sees what has been committed when it starts and the changes of its own transaction. What
a transaction has locked stays locked until it ends, and a statement that needs it waits.
-/
namespace ReadCommitted

/-- The transactions of a program, each told apart by how far it has come. -/
structure Program (δ π κ : Type*) where
  /-- The data with the changes of a transaction. -/
  view : π → δ → δ
  /-- The next statement, of what it sees; none if it fails or nothing is left but `COMMIT`. -/
  statement : π → δ → Option π
  done : π → Bool
  locks : π → List κ

inductive Status (π : Type*)
  | running (phase : π)
  | committed
  | aborted

structure State (ι δ π : Type*) where
  data : δ
  status : ι → Status π

inductive Move (ι : Type*)
  | statement (i : ι)
  | commit (i : ι)
  | abort (i : ι)
  deriving DecidableEq

variable {ι δ π κ : Type*}

/-- Two transactions that lock nothing in common. -/
def Program.Apart (program : Program δ π κ) (p q : π) : Prop :=
  ∀ key ∈ program.locks p, key ∉ program.locks q

instance [DecidableEq κ] (program : Program δ π κ) (p q : π) : Decidable (program.Apart p q) :=
  inferInstanceAs (Decidable (∀ key ∈ program.locks p, key ∉ program.locks q))

/-- A phase of a running transaction satisfies a condition. -/
def Status.Sat (condition : π → Prop) : Status π → Prop
  | .running p => condition p
  | _ => True

instance (condition : π → Prop) [DecidablePred condition] (status : Status π) :
    Decidable (status.Sat condition) := by
  unfold Status.Sat
  split <;> infer_instance

namespace State

def set [DecidableEq ι] (s : State ι δ π) (i : ι) (status : Status π) : State ι δ π :=
  { s with status := Function.update s.status i status }

/-- No other transaction holds what this one would lock. -/
def Free (program : Program δ π κ) (s : State ι δ π) (i : ι) (p : π) : Prop :=
  ∀ j, j ≠ i → (s.status j).Sat (program.Apart p)

end State

/-- One transaction goes on. -/
inductive Step [DecidableEq ι] (program : Program δ π κ) :
    State ι δ π → Move ι → State ι δ π → Prop
  | statement {s : State ι δ π} {i : ι} {p p' : π} (hp : s.status i = .running p)
      (hp' : program.statement p (program.view p s.data) = some p')
      (hfree : s.Free program i p') :
      Step program s (.statement i) (s.set i (.running p'))
  | commit {s : State ι δ π} {i : ι} {p : π} (hp : s.status i = .running p)
      (hdone : program.done p) :
      Step program s (.commit i)
        { data := program.view p s.data, status := Function.update s.status i .committed }
  | abort {s : State ι δ π} {i : ι} {p : π} (hp : s.status i = .running p) :
      Step program s (.abort i) (s.set i .aborted)

/-- The state after a step, if it can be taken. -/
def State.next [DecidableEq ι] [Fintype ι] [DecidableEq κ] (program : Program δ π κ)
    (s : State ι δ π) : Move ι → Option (State ι δ π)
  | .statement i =>
    match s.status i with
    | .running p =>
      match program.statement p (program.view p s.data) with
      | some p' =>
        if ∀ j, j ≠ i → (s.status j).Sat (program.Apart p') then some (s.set i (.running p'))
        else none
      | none => none
    | _ => none
  | .commit i =>
    match s.status i with
    | .running p =>
      if program.done p then
        some { data := program.view p s.data, status := Function.update s.status i .committed }
      else none
    | _ => none
  | .abort i =>
    match s.status i with
    | .running _ => some (s.set i .aborted)
    | _ => none

variable [DecidableEq ι] {program : Program δ π κ} {s t : State ι δ π} {a : Move ι}
  {as : List (Move ι)} {i j : ι} {p q : π}

theorem Program.Apart.symm (h : program.Apart p q) : program.Apart q p :=
  fun key hq hp => h key hp hq

theorem step_of_next [Fintype ι] [DecidableEq κ] (h : s.next program a = some t) :
    Step program s a t := by
  unfold State.next at h
  split at h
  · split at h
    · rename_i hp
      split at h
      · rename_i hp'
        split at h
        · rename_i hfree
          cases h
          exact .statement hp hp' hfree
        · cases h
      · cases h
    · cases h
  · split at h
    · rename_i hp
      split at h
      · rename_i hdone
        cases h
        exact .commit hp hdone
      · cases h
    · cases h
  · split at h
    · rename_i hp
      cases h
      exact .abort hp
    · cases h

/-- Labels that can be followed make a run. -/
theorem run_final [Fintype ι] [DecidableEq κ] (h : (as.foldlM (State.next program) s).isSome) :
    Run (Step program) s as (Run.final (State.next program) s as) :=
  (Run.to_final h).mono fun _ _ _ => step_of_next

/-- What a committed table and the running transactions promise. -/
structure Intact (program : Program δ π κ) (I : δ → Prop) (J : π → δ → Prop)
    (s : State ι δ π) :
    Prop where
  data : I s.data
  running : ∀ i p, s.status i = .running p → J p s.data
  apart : ∀ i j p q, i ≠ j → s.status i = .running p → s.status j = .running q →
    program.Apart p q

/-- What `COMMIT` keeps of the table and what no other `COMMIT` can break is kept by every step. -/
theorem intact_step {I : δ → Prop} {J : π → δ → Prop}
    (hstatement : ∀ p p' d, I d → J p d →
      program.statement p (program.view p d) = some p' → J p' d)
    (hcommit : ∀ p d, I d → J p d → program.done p → I (program.view p d))
    (hstable : ∀ p q d, I d → J p d → J q d → program.done p → program.Apart p q →
      J q (program.view p d))
    (h : Step program s a t) (hs : Intact program I J s) : Intact program I J t := by
  obtain ⟨hdata, hrunning, hapart⟩ := hs
  cases h with
  | @statement i p p' hp hp' hfree =>
    refine ⟨hdata, fun j q hq => ?_, fun j k q r hne hq hr => ?_⟩
    · by_cases hj : j = i
      · subst hj
        obtain rfl : p' = q := by simpa [State.set] using hq
        exact hstatement p p' _ hdata (hrunning j p hp) hp'
      · exact hrunning j q (by simpa [State.set, hj] using hq)
    · have hother : ∀ l, l ≠ i → ∀ r, (s.set i (.running p')).status l = .running r →
          s.status l = .running r ∧ program.Apart p' r := by
        intro l hl r hr
        have hr : s.status l = .running r := by simpa [State.set, hl] using hr
        have hsat := hfree l hl
        rw [hr] at hsat
        exact ⟨hr, hsat⟩
      by_cases hj : j = i
      · subst hj
        obtain rfl : p' = q := by simpa [State.set] using hq
        exact (hother k (Ne.symm hne) r hr).2
      · obtain ⟨hq, hp'q⟩ := hother j hj q hq
        by_cases hk : k = i
        · subst hk
          obtain rfl : p' = r := by simpa [State.set] using hr
          exact hp'q.symm
        · exact hapart j k q r hne hq (hother k hk r hr).1
  | @commit i p hp hdone =>
    have hother : ∀ j q, Function.update s.status i Status.committed j = .running q →
        j ≠ i ∧ s.status j = .running q := by
      intro j q hq
      by_cases hj : j = i
      · simp [hj] at hq
      · exact ⟨hj, by simpa [hj] using hq⟩
    refine ⟨hcommit p _ hdata (hrunning i p hp) hdone, fun j q hq => ?_,
      fun j k q r hne hq hr => ?_⟩
    · obtain ⟨hj, hq⟩ := hother j q hq
      exact hstable p q _ hdata (hrunning i p hp) (hrunning j q hq) hdone
        (hapart i j p q (Ne.symm hj) hp hq)
    · exact hapart j k q r hne (hother j q hq).2 (hother k r hr).2
  | @abort i p hp =>
    have hother : ∀ j q, (s.set i .aborted).status j = .running q →
        s.status j = .running q := by
      intro j q hq
      by_cases hj : j = i
      · simp [State.set, hj] at hq
      · simpa [State.set, hj] using hq
    exact ⟨hdata, fun j q hq => hrunning j q (hother j q hq),
      fun j k q r hne hq hr => hapart j k q r hne (hother j q hq) (hother k r hr)⟩

/-- So it is by every run. -/
theorem intact_run {I : δ → Prop} {J : π → δ → Prop}
    (hstatement : ∀ p p' d, I d → J p d →
      program.statement p (program.view p d) = some p' → J p' d)
    (hcommit : ∀ p d, I d → J p d → program.done p → I (program.view p d))
    (hstable : ∀ p q d, I d → J p d → J q d → program.done p → program.Apart p q →
      J q (program.view p d))
    (h : Run (Step program) s as t) (hs : Intact program I J s) : Intact program I J t :=
  h.preserves (fun _ _ _ => intact_step hstatement hcommit hstable) hs

/-! ## Serial execution -/

/-- The transactions that these steps commit, in this order. -/
def committed : List (Move ι) → List ι
  | [] => []
  | .commit i :: as => i :: committed as
  | .statement _ :: as => committed as
  | .abort _ :: as => committed as

omit [DecidableEq ι] in
theorem committed_append (bs : List (Move ι)) :
    committed (as ++ bs) = committed as ++ committed bs := by
  induction as with
  | nil => rfl
  | cons a as ih => cases a <;> simp [committed, ih]

variable {ρ : Type*} {origin : π → ρ} {effect : ρ → δ → Option δ} {requests : ι → ρ}

/-- The running transactions are those that were requested. -/
def Requested (origin : π → ρ) (requests : ι → ρ) (s : State ι δ π) : Prop :=
  ∀ i p, s.status i = .running p → origin p = requests i

theorem requested_step
    (horigin : ∀ p p' d, program.statement p d = some p' → origin p' = origin p)
    (h : Step program s a t) (hs : Requested origin requests s) : Requested origin requests t := by
  intro j q hq
  cases h with
  | @statement i p p' hp hp' hfree =>
    by_cases hj : j = i
    · subst hj
      obtain rfl : p' = q := by simpa [State.set] using hq
      rw [horigin p p' _ hp', hs j p hp]
    · exact hs j q (by simpa [State.set, hj] using hq)
  | @commit i p hp hdone =>
    by_cases hj : j = i
    · simp [hj] at hq
    · exact hs j q (by simpa [hj] using hq)
  | @abort i p hp =>
    by_cases hj : j = i
    · simp [State.set, hj] at hq
    · exact hs j q (by simpa [State.set, hj] using hq)

/-- Transactions that commit what they would do alone take effect one after another, in the
order of their commits. -/
theorem serial_run {J : π → δ → Prop}
    (horigin : ∀ p p' d, program.statement p d = some p' → origin p' = origin p)
    (hstatement : ∀ p p' d, J p d → program.statement p (program.view p d) = some p' → J p' d)
    (hcommit : ∀ p d, J p d → program.done p → effect (origin p) d = some (program.view p d))
    (hstable : ∀ p q d, J p d → J q d → program.done p → program.Apart p q →
      J q (program.view p d))
    (h : Run (Step program) s as t) (hs : Intact program (fun _ => True) J s)
    (hrequests : Requested origin requests s) :
    Run (StepOf fun d i => effect (requests i) d) s.data (committed as) t.data := by
  induction h with
  | refl s => exact .refl s.data
  | cons ha hr ih =>
    have hnext := ih
      (intact_step (fun p p' d _ => hstatement p p' d) (fun _ _ _ _ _ => trivial)
        (fun p q d _ => hstable p q d) ha hs)
      (requested_step horigin ha hrequests)
    cases ha with
    | statement => exact hnext
    | abort => exact hnext
    | @commit i p hp hdone =>
      have heffect := hcommit p _ (hs.running i p hp) hdone
      rw [hrequests i p hp] at heffect
      exact .cons heffect hnext

end ReadCommitted
