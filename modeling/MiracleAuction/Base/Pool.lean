import Mathlib

/-!
# Workers that share a list of items

A fixed number of workers take the items of a list in turn and call a mapper for each
of them. The calls run interleaved, over a state that others change as well.
-/

/-- What a step of an asynchronous call leads to. -/
inductive Progress (φ ε : Type)
  | proceed (phase : φ)
  | returned
  | threw (error : ε)
  deriving DecidableEq, Repr

/-- A worker before its next item, in a call, or at its end. -/
inductive Worker (α φ : Type)
  | ready
  | busy (item : α) (phase : φ)
  | finished
  | failed

variable {α κ φ ψ ε : Type}

def Progress.map (f : φ → ψ) : Progress φ ε → Progress ψ ε
  | .proceed phase => .proceed (f phase)
  | .returned => .returned
  | .threw error => .threw error

/-- The worker after a step of its call. -/
def Worker.after (item : α) : Progress φ ε → Worker α φ
  | .proceed phase => .busy item phase
  | .returned => .ready
  | .threw _ => .failed

structure Pool (α φ : Type) where
  items : List α
  nextIndex : Nat := 0
  workers : List (Worker α φ)

namespace Pool

/-- The workers are started; none where there is nothing to do. -/
def start (concurrency : Nat) (items : List α) : Pool α φ where
  items := items
  workers :=
    if items.isEmpty then []
    else List.replicate (max 1 (min items.length concurrency)) .ready

section
variable (p : Pool α φ)

def taken : List α := p.items.take p.nextIndex

def setWorker (i : Nat) (worker : Worker α φ) : Pool α φ :=
  { p with workers := p.workers.set i worker }

def worker (i : Nat) : Option (Worker α φ) := p.workers[i]?

/-- A worker takes the next item, or ends. -/
def take (first : φ) (i : Nat) : Option (Pool α φ) :=
  match p.worker i with
  | some .ready =>
    let next := p.setWorker i
      (match p.items[p.nextIndex]? with
      | some item => .busy item first
      | none => .finished)
    some { next with nextIndex := p.nextIndex + 1 }
  | _ => none

/-- All workers have ended, none of them with an error. -/
def complete : Bool := p.workers.all fun
  | .finished => true
  | _ => false

/-- A call has thrown. -/
def hasFailed : Bool := p.workers.any fun
  | .failed => true
  | _ => false

/-- An item with this key is in a call. -/
def handles [DecidableEq κ] (key : α → κ) (k : κ) : Bool := p.workers.any fun
  | .busy item _ => key item = k
  | _ => false

end

section
variable [DecidableEq κ] {p p' : Pool α φ} {key : α → κ} {k : κ} {i : Nat} {item : α}
  {phase : φ}

theorem mem_workers_iff {worker : Worker α φ} :
    worker ∈ p.workers ↔ ∃ i, p.worker i = some worker := List.mem_iff_getElem?

theorem hasFailed_iff : p.hasFailed = true ↔ ∃ i, p.worker i = some .failed := by
  unfold hasFailed
  rw [List.any_eq_true, ← mem_workers_iff]
  constructor
  · rintro ⟨worker, hmem, hworker⟩
    cases worker with
    | failed => exact hmem
    | _ => cases hworker
  · intro h
    exact ⟨.failed, h, rfl⟩

theorem handles_iff : p.handles key k = true ↔
    ∃ i item phase, p.worker i = some (.busy item phase) ∧ key item = k := by
  unfold handles
  rw [List.any_eq_true]
  constructor
  · rintro ⟨worker, hmem, hworker⟩
    cases worker with
    | busy item phase =>
      obtain ⟨i, hi⟩ := mem_workers_iff.mp hmem
      exact ⟨i, item, phase, hi, by simpa using hworker⟩
    | _ => cases hworker
  · rintro ⟨i, item, phase, hi, hkey⟩
    exact ⟨.busy item phase, mem_workers_iff.mpr ⟨i, hi⟩, by simpa using hkey⟩

/-- The other workers keep their state. -/
theorem worker_setWorker_of_ne {worker : Worker α φ} {j : Nat} (h : i ≠ j) :
    (p.setWorker i worker).worker j = p.worker j := List.getElem?_set_ne h

theorem worker_setWorker {old worker : Worker α φ} (h : p.worker i = some old) :
    (p.setWorker i worker).worker i = some worker :=
  List.getElem?_set_self (List.getElem?_eq_some_iff.mp h).1

/-- A worker in another state is another one. -/
theorem worker_setWorker_of_state {old other worker : Worker α φ} {j : Nat}
    (h : p.worker i = some old) (hj : p.worker j = some other) (hne : other ≠ old) :
    (p.setWorker i worker).worker j = some other := by
  have hij : i ≠ j := by
    intro hij
    subst hij
    exact hne (Option.some.inj (hj.symm.trans h))
  rw [worker_setWorker_of_ne hij]
  exact hj

/-- After a turn of a worker the workers are that one and those before. -/
theorem worker_setWorker_cases {other worker : Worker α φ} {j : Nat}
    (h : (p.setWorker i worker).worker j = some other) :
    other = worker ∨ p.worker j = some other := by
  by_cases hij : i = j
  · subst hij
    unfold Pool.worker setWorker at h
    rw [List.getElem?_set_self'] at h
    obtain ⟨_, _, hother⟩ := Option.map_eq_some_iff.mp h
    exact .inl hother.symm
  · right
    rwa [worker_setWorker_of_ne hij] at h

end

/-- Each item that was taken is done, or one with its key is in a call, unless the
pool has failed. `Fits` relates the calls to their items. -/
structure Covered [DecidableEq κ] (Fits : α → φ → Prop) (key : α → κ)
    (Done : α → Prop) (p : Pool α φ) : Prop where
  fits : ∀ i item phase, p.worker i = some (.busy item phase) → Fits item phase
  exhausted : ∀ i, p.worker i = some .finished → p.items.length ≤ p.nextIndex
  staffed : p.workers = [] → p.items = []
  covered : p.hasFailed = true ∨ ∀ item ∈ p.taken, Done item ∨
    p.handles key (key item) = true

namespace Covered
variable [DecidableEq κ] {Fits : α → φ → Prop} {key : α → κ} {Done Done' : α → Prop}
  {p p' : Pool α φ} {i : Nat} {item : α} {phase : φ}

theorem start {concurrency : Nat} {items : List α} :
    Covered Fits key Done (Pool.start concurrency items : Pool α φ) := by
  have hready : ∀ (i : Nat) (worker : Worker α φ),
      (Pool.start concurrency items).worker i = some worker → worker = .ready := by
    intro i worker h
    have hmem := mem_workers_iff.mpr ⟨i, h⟩
    unfold Pool.start at hmem
    dsimp only at hmem
    split at hmem
    · simp at hmem
    · exact List.eq_of_mem_replicate hmem
  refine ⟨fun i item phase h => ?_, fun i h => ?_, fun h => ?_, .inr ?_⟩
  · cases hready i _ h
  · cases hready i _ h
  · unfold Pool.start at h
    dsimp only at h
    split at h
    · rename_i hempty
      exact List.isEmpty_iff.mp hempty
    · have hlength := congrArg List.length h
      rw [List.length_replicate, List.length_nil] at hlength
      omega
  · intro item hitem
    simp [Pool.start, taken] at hitem

/-- The item that is taken is in a call. -/
theorem take {first : φ} (hfirst : ∀ item, Fits item first) (h : Covered Fits key Done p)
    (ht : p.take first i = some p') : Covered Fits key Done p' := by
  unfold Pool.take at ht
  split at ht
  · rename_i hready
    cases ht
    refine ⟨fun j item phase hj => ?_, fun j hj => ?_, fun hnil => ?_, ?_⟩
    · obtain hnew | hold := worker_setWorker_cases hj
      · split at hnew
        · cases hnew
          exact hfirst _
        · cases hnew
      · exact h.fits j item phase hold
    · change p.items.length ≤ p.nextIndex + 1
      obtain hnew | hold := worker_setWorker_cases hj
      · split at hnew
        · cases hnew
        · rename_i hnone
          have := List.getElem?_eq_none_iff.mp hnone
          omega
      · have := h.exhausted j hold
        omega
    · exact h.staffed (by simpa [setWorker] using hnil)
    · obtain hfailed | hcovered := h.covered
      · left
        obtain ⟨j, hj⟩ := hasFailed_iff.mp hfailed
        exact hasFailed_iff.mpr ⟨j, worker_setWorker_of_state hready hj (by simp)⟩
      · right
        intro item hitem
        simp only [taken, List.take_add_one, List.mem_append, Option.mem_toList] at hitem
        obtain hold | hnew := hitem
        · obtain hdone | hhandled := hcovered item hold
          · exact .inl hdone
          · right
            obtain ⟨j, other, phase, hj, hkey⟩ := handles_iff.mp hhandled
            exact handles_iff.mpr
              ⟨j, other, phase, worker_setWorker_of_state hready hj (by simp), hkey⟩
        · right
          have hitems : p.items[p.nextIndex]? = some item := hnew
          simp only [hitems]
          exact handles_iff.mpr ⟨i, item, first, worker_setWorker hready, rfl⟩
  · cases ht

/-- A step of a call; what it makes undone has the key of its own item. -/
theorem step {outcome : Progress φ ε} (h : Covered Fits key Done p)
    (hbusy : p.worker i = some (.busy item phase))
    (hfits : ∀ phase', outcome = .proceed phase' → Fits item phase')
    (hreturned : outcome = .returned → ∀ other, key other = key item → Done' other)
    (hkeeps : ∀ other, key other ≠ key item → Done other → Done' other) :
    Covered Fits key Done' (p.setWorker i (.after item outcome)) := by
  refine ⟨fun j other phase' hj => ?_, fun j hj => ?_, fun hnil => ?_, ?_⟩
  · obtain hnew | hold := worker_setWorker_cases hj
    · cases outcome with
      | proceed next =>
        cases hnew
        exact hfits phase' rfl
      | returned => cases hnew
      | threw => cases hnew
    · exact h.fits j other phase' hold
  · obtain hnew | hold := worker_setWorker_cases hj
    · cases outcome <;> cases hnew
    · exact h.exhausted j hold
  · exact h.staffed (by simpa [setWorker] using hnil)
  · have hself : (p.setWorker i (.after item outcome)).worker i = some (.after item outcome) :=
      worker_setWorker hbusy
    have hother : ∀ other ∈ p.taken, key other ≠ key item →
        (∀ other ∈ p.taken, Done other ∨ p.handles key (key other) = true) →
        Done' other ∨ (p.setWorker i (.after item outcome)).handles key (key other) = true := by
      intro other hmem hkey hcovered
      obtain hdone | hhandled := hcovered other hmem
      · exact .inl (hkeeps other hkey hdone)
      · right
        obtain ⟨j, item', phase', hj, hkey'⟩ := handles_iff.mp hhandled
        refine handles_iff.mpr ⟨j, item', phase', worker_setWorker_of_state hbusy hj ?_, hkey'⟩
        intro heq
        cases heq
        exact hkey hkey'.symm
    obtain hfailed | hcovered := h.covered
    · left
      obtain ⟨j, hj⟩ := hasFailed_iff.mp hfailed
      exact hasFailed_iff.mpr ⟨j, worker_setWorker_of_state hbusy hj (by simp)⟩
    · cases outcome with
      | threw error => exact .inl (hasFailed_iff.mpr ⟨i, hself⟩)
      | proceed next =>
        right
        intro other hmem
        by_cases hkey : key other = key item
        · exact .inr (handles_iff.mpr ⟨i, item, next, hself, hkey.symm⟩)
        · exact hother other hmem hkey hcovered
      | returned =>
        right
        intro other hmem
        by_cases hkey : key other = key item
        · exact .inl (hreturned rfl other hkey)
        · exact hother other hmem hkey hcovered

/-- Others may make an item undone that is in a call. -/
theorem frame (h : Covered Fits key Done p)
    (hkeeps : p.hasFailed = false → ∀ item ∈ p.taken, p.handles key (key item) = false →
      Done item → Done' item) :
    Covered Fits key Done' p := by
  refine ⟨h.fits, h.exhausted, h.staffed, ?_⟩
  cases hfailed : p.hasFailed with
  | true => exact .inl rfl
  | false =>
    right
    have hcovered := h.covered.resolve_left (by simp [hfailed])
    intro item hitem
    cases hhandled : p.handles key (key item) with
    | true => exact .inr rfl
    | false =>
      have hdone := (hcovered item hitem).resolve_right (by simp [hhandled])
      exact .inl (hkeeps hfailed item hitem hhandled hdone)

/-- When all workers have ended without an error, all items are done. -/
theorem complete (h : Covered Fits key Done p) (hc : p.complete = true) :
    ∀ item ∈ p.items, Done item := by
  have hfinished : ∀ (i : Nat) (worker : Worker α φ), p.worker i = some worker →
      worker = .finished := by
    intro i worker hi
    have hworker := List.all_eq_true.mp hc worker (mem_workers_iff.mpr ⟨i, hi⟩)
    cases worker with
    | finished => rfl
    | _ => cases hworker
  have htaken : ∀ item ∈ p.items, item ∈ p.taken := by
    intro item hitem
    cases hworkers : p.workers with
    | nil =>
      rw [h.staffed hworkers] at hitem
      cases hitem
    | cons worker rest =>
      have hfirst : p.worker 0 = some worker := by simp [Pool.worker, hworkers]
      obtain rfl := hfinished 0 worker hfirst
      rwa [taken, List.take_of_length_le (h.exhausted 0 hfirst)]
  intro item hitem
  obtain hfailed | hcovered := h.covered
  · obtain ⟨i, hi⟩ := hasFailed_iff.mp hfailed
    cases hfinished i _ hi
  · obtain hdone | hhandled := hcovered item (htaken item hitem)
    · exact hdone
    · obtain ⟨i, other, phase, hi, _⟩ := handles_iff.mp hhandled
      cases hfinished i _ hi

end Covered

end Pool
