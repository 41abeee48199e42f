import Mathlib
import MiracleAuction.Base.Run

/-!
# `runKeyedLanes`

Workers that take lanes from a shared cursor and call the handler for the items of a lane in turn. A
call runs until its promise is fulfilled; the workers go on in any order.
-/
namespace MiracleAuction.KeyedLanes

/-- A number of JavaScript, none for `NaN`. The sign of zero plays no part here. -/
abbrev Number := Option (WithBot (WithTop ℚ))

def mathMax : Number → Number → Number := Option.map₂ max

def mathMin : Number → Number → Number := Option.map₂ min

/-- `a < b`, which is false where one of them is `NaN`. -/
def less (a b : Number) : Prop := ∃ x ∈ a, ∃ y ∈ b, x < y

def finite (q : ℚ) : WithBot (WithTop ℚ) := ((q : WithTop ℚ) : WithBot (WithTop ℚ))

def ofNat (n : Nat) : Number := some (finite n)

/-- The length that `Array.from` reads from a number. -/
def toLength : Number → Nat
  | some (some (some q)) => min ⌊q⌋.toNat 9007199254740991
  | some (some none) => 9007199254740991
  | _ => 0

/-- `CONCURRENCY`, of the number that the environment denotes. -/
def projectorConcurrency (configured : Number) : Number := mathMax (ofNat 1) configured

variable {α κ : Type}

/-- The item joins the lane of its key, which comes last if it is new. -/
def addToLane [DecidableEq κ] (keyOf : α → κ) (item : α) :
    List (κ × List α) → List (κ × List α)
  | [] => [(keyOf item, [item])]
  | (key, lane) :: lanes =>
    if key = keyOf item then (key, lane ++ [item]) :: lanes
    else (key, lane) :: addToLane keyOf item lanes

/-- The map of the lanes, in the order of its keys. -/
def lanesOf [DecidableEq κ] (keyOf : α → κ) (items : List α) : List (κ × List α) :=
  items.foldl (fun lanes item => addToLane keyOf item lanes) []

/-- A worker before its next lane, or in a lane of which it has `handled` items; `running` while the
handler of the next one runs. -/
inductive Worker
  | ready
  | busy (lane handled : Nat) (running : Bool)
  | finished
deriving DecidableEq

/-- `calls` are the items that the handler has been called for. -/
structure State (α : Type) where
  cursor : Nat := 0
  workers : List Worker
  calls : List α := []

/-- `Math.min(Math.max(1, concurrency), pendingLanes.length)` workers. -/
def start (pendingLanes : List (List α)) (concurrency : Number) : State α where
  workers := List.replicate
    (toLength (mathMin (mathMax (ofNat 1) concurrency) (ofNat pendingLanes.length))) .ready

/-- `goOn` is what a worker does up to its next call, lane or end, `fulfill` the end of a call. -/
inductive Action
  | goOn (worker : Nat)
  | fulfill (worker : Nat)

def setWorker (s : State α) (i : Nat) (worker : Worker) : State α :=
  { s with workers := s.workers.set i worker }

def next (pendingLanes : List (List α)) (s : State α) : Action → Option (State α)
  | .goOn i =>
    match s.workers[i]? with
    | some .ready =>
      if s.cursor < pendingLanes.length then
        some { setWorker s i (.busy s.cursor 0 false) with cursor := s.cursor + 1 }
      else some (setWorker s i .finished)
    | some (.busy lane handled false) =>
      match pendingLanes[lane]?.bind (·[handled]?) with
      | some item =>
        some { setWorker s i (.busy lane handled true) with calls := s.calls ++ [item] }
      | none => some (setWorker s i .ready)
    | _ => none
  | .fulfill i =>
    match s.workers[i]? with
    | some (.busy lane handled true) => some (setWorker s i (.busy lane (handled + 1) false))
    | _ => none

/-- The promise of `runKeyedLanes` is fulfilled. -/
def Resolved (s : State α) : Prop := ∀ worker ∈ s.workers, worker = .finished

/-- The item of a running call. -/
def Worker.item (pendingLanes : List (List α)) : Worker → Option α
  | busy lane handled true => pendingLanes[lane]?.bind (·[handled]?)
  | _ => none

/-- The items of the calls that run. -/
def running (pendingLanes : List (List α)) (s : State α) : List α :=
  s.workers.filterMap (·.item pendingLanes)

def pendingLanes [DecidableEq κ] (keyOf : α → κ) (items : List α) : List (List α) :=
  (lanesOf keyOf items).map Prod.snd

/-- What callers expect of `runKeyedLanes`, in every state of every run: no more calls than allowed
run, those that run have different keys, calls of one key come in the order of the list; runs end,
and when the promise is fulfilled every item has been handled once. -/
structure Handles [DecidableEq κ] (keyOf : α → κ) (items : List α) (concurrency : Number)
    (as : List Action) (s : State α) : Prop where
  bounded :
    ¬ less (mathMax (ofNat 1) concurrency) (ofNat (running (pendingLanes keyOf items) s).length)
  separate : ((running (pendingLanes keyOf items) s).map keyOf).Nodup
  ordered : ∀ key, s.calls.filter (keyOf · = key) <+: items.filter (keyOf · = key)
  complete : Resolved s → s.calls.Perm items
  progresses : ¬ Resolved s → ∃ a t, next (pendingLanes keyOf items) s a = some t
  ends : as.length ≤ 5 * items.length

/-! ## Steps -/

variable {lanes : List (κ × List α)} {s t : State α} {i k : Nat} {w w' : Worker} {a : Action}
  {as : List Action}

/-- A worker after a change of one. -/
theorem workers_set (h : (setWorker s i w).workers[k]? = some w') :
    k = i ∧ w' = w ∨ k ≠ i ∧ s.workers[k]? = some w' := by
  by_cases hk : k = i
  · subst hk
    simp only [setWorker, List.getElem?_set_self'] at h
    obtain ⟨_, _, hw⟩ := Option.map_eq_some_iff.mp h
    exact .inl ⟨rfl, hw.symm⟩
  · rw [setWorker, List.getElem?_set_ne (Ne.symm hk)] at h
    exact .inr ⟨hk, h⟩

theorem workers_set_self {old : Worker} (h : s.workers[i]? = some old) (w : Worker) :
    (setWorker s i w).workers[i]? = some w :=
  List.getElem?_set_self (List.getElem?_eq_some_iff.mp h).1

theorem workers_set_ne (h : k ≠ i) (w : Worker) :
    (setWorker s i w).workers[k]? = s.workers[k]? :=
  List.getElem?_set_ne h.symm

/-- The lanes without their keys. -/
theorem lane_get {c j : Nat} : ((lanes.map Prod.snd)[c]?.bind (·[j]?)) =
    lanes[c]?.bind (·.2[j]?) := by
  rw [List.getElem?_map]
  cases lanes[c]? <;> rfl

/-- What one step does. -/
theorem next_cases (h : next (lanes.map Prod.snd) s a = some t) :
    (∃ i, s.workers[i]? = some .ready ∧ s.cursor < lanes.length ∧
      t = { setWorker s i (.busy s.cursor 0 false) with cursor := s.cursor + 1 }) ∨
    (∃ i old w, s.workers[i]? = some old ∧
      (w = .finished ∧ old = .ready ∧ lanes.length ≤ s.cursor ∨
      w = .ready ∧ ∃ c j, old = .busy c j false ∧ ∀ l, lanes[c]? = some l →
        l.2.length ≤ j) ∧
      t = setWorker s i w) ∨
    (∃ i c j l item, s.workers[i]? = some (.busy c j false) ∧ lanes[c]? = some l ∧
      l.2[j]? = some item ∧
      t = { setWorker s i (.busy c j true) with calls := s.calls ++ [item] }) ∨
    ∃ i c j, s.workers[i]? = some (.busy c j true) ∧
      t = setWorker s i (.busy c (j + 1) false) := by
  cases a with
  | goOn i =>
    simp only [next] at h
    split at h
    · rename_i hw
      rw [List.length_map] at h
      by_cases hlt : s.cursor < lanes.length
      · rw [if_pos hlt] at h
        exact .inl ⟨i, hw, hlt, (Option.some.inj h).symm⟩
      · rw [if_neg hlt] at h
        exact .inr (.inl ⟨i, _, _, hw, .inl ⟨rfl, rfl, by omega⟩, (Option.some.inj h).symm⟩)
    · rename_i c j hw
      rw [lane_get] at h
      split at h
      · rename_i item hitem
        obtain ⟨l, hl, hitem⟩ := Option.bind_eq_some_iff.mp hitem
        exact .inr (.inr (.inl ⟨i, c, j, l, item, hw, hl, hitem, (Option.some.inj h).symm⟩))
      · rename_i hnone
        refine .inr (.inl ⟨i, _, _, hw, .inr ⟨rfl, c, j, rfl, fun l hl => ?_⟩,
          (Option.some.inj h).symm⟩)
        rw [hl, Option.bind_some] at hnone
        exact List.getElem?_eq_none_iff.mp hnone
    · cases h
  | fulfill i =>
    simp only [next] at h
    split at h
    · rename_i c j hw
      exact .inr (.inr (.inr ⟨i, c, j, hw, (Option.some.inj h).symm⟩))
    · cases h

theorem workers_length (h : next (lanes.map Prod.snd) s a = some t) :
    t.workers.length = s.workers.length := by
  obtain ⟨i, _, _, rfl⟩ | ⟨i, _, w, _, _, rfl⟩ | ⟨i, c, j, _, _, _, _, _, rfl⟩ |
      ⟨i, c, j, _, rfl⟩ :=
    next_cases h
  all_goals exact List.length_set

/-- The steps that a worker has left before its next lane or its end. -/
def Worker.steps (lanes : List (κ × List α)) : Worker → Nat
  | ready => 1
  | finished => 0
  | busy c j running =>
    2 * ((lanes[c]?.map (·.2.length)).getD 0 - (j + running.toNat)) + running.toNat + 2

theorem steps_busy (lanes : List (κ × List α)) (c j : Nat) (running : Bool) :
    (Worker.busy c j running).steps lanes =
      2 * ((lanes[c]?.map (·.2.length)).getD 0 - (j + running.toNat)) + running.toNat + 2 := rfl

theorem steps_ready (lanes : List (κ × List α)) : Worker.ready.steps lanes = 1 := rfl

theorem steps_finished (lanes : List (κ × List α)) : Worker.finished.steps lanes = 0 := rfl

/-- The steps that are left. -/
def stepsLeft (lanes : List (κ × List α)) (s : State α) : Nat :=
  ((lanes.drop s.cursor).map fun l => 2 * l.2.length + 2).sum + (s.workers.map (·.steps lanes)).sum

theorem sum_set {β : Type} (f : β → Nat) {l : List β} {b c : β} (h : l[i]? = some b) :
    ((l.set i c).map f).sum + f b = (l.map f).sum + f c := by
  induction l generalizing i with
  | nil => cases h
  | cons first l ih =>
    cases i with
    | zero =>
      obtain rfl := Option.some.inj h
      simp only [List.set_cons_zero, List.map_cons, List.sum_cons]
      omega
    | succ i =>
      have := ih h
      simp only [List.set_cons_succ, List.map_cons, List.sum_cons]
      omega

theorem exists_next (h : ¬ Resolved s) : ∃ a t, next (lanes.map Prod.snd) s a = some t := by
  simp only [Resolved, not_forall] at h
  obtain ⟨worker, hmem, hne⟩ := h
  obtain ⟨i, hi⟩ := List.mem_iff_getElem?.mp hmem
  cases worker with
  | finished => exact absurd rfl hne
  | ready =>
    refine ⟨.goOn i, ?_⟩
    simp only [next, hi]
    split
    · exact ⟨_, rfl⟩
    · exact ⟨_, rfl⟩
  | busy lane handled running =>
    cases running with
    | true => exact ⟨.fulfill i, _, by simp only [next, hi]; rfl⟩
    | false =>
      refine ⟨.goOn i, ?_⟩
      simp only [next, hi]
      split
      · exact ⟨_, rfl⟩
      · exact ⟨_, rfl⟩

/-! ## The lanes -/

variable [DecidableEq κ] {keyOf : α → κ} {items : List α} {item : α} {key : κ}

/-- The lanes of the items so far. -/
structure Grouped (keyOf : α → κ) (items : List α) (lanes : List (κ × List α)) : Prop where
  keys : (lanes.map Prod.fst).Nodup
  lane : ∀ l ∈ lanes, l.2 = items.filter (keyOf · = l.1) ∧ l.2 ≠ []
  covered : ∀ item ∈ items, keyOf item ∈ lanes.map Prod.fst

theorem addToLane_keys (keyOf : α → κ) (item : α) (lanes : List (κ × List α)) :
    keyOf item ∈ lanes.map Prod.fst ∧
      (addToLane keyOf item lanes).map Prod.fst = lanes.map Prod.fst ∨
    keyOf item ∉ lanes.map Prod.fst ∧
      (addToLane keyOf item lanes).map Prod.fst = lanes.map Prod.fst ++ [keyOf item] := by
  induction lanes with
  | nil => exact .inr ⟨List.not_mem_nil, rfl⟩
  | cons l lanes ih =>
    unfold addToLane
    by_cases hkey : l.1 = keyOf item
    · rw [if_pos hkey, ← hkey]
      exact .inl ⟨List.mem_cons_self, rfl⟩
    · rw [if_neg hkey]
      obtain ⟨hold, ih⟩ | ⟨hnew, ih⟩ := ih
      · exact .inl ⟨List.mem_cons_of_mem _ hold, by simp [ih]⟩
      · refine .inr ⟨?_, by simp [ih]⟩
        rw [List.map_cons, List.mem_cons, not_or]
        exact ⟨fun heq => hkey heq.symm, hnew⟩

theorem mem_addToLane {l : κ × List α} (hkeys : (lanes.map Prod.fst).Nodup)
    (h : l ∈ addToLane keyOf item lanes) :
    (l ∈ lanes ∧ l.1 ≠ keyOf item) ∨
    (l.1 = keyOf item ∧ ((∃ lane, (l.1, lane) ∈ lanes ∧ l.2 = lane ++ [item]) ∨
      l.1 ∉ lanes.map Prod.fst ∧ l.2 = [item])) := by
  induction lanes with
  | nil =>
    obtain rfl := List.mem_singleton.mp h
    exact .inr ⟨rfl, .inr ⟨List.not_mem_nil, rfl⟩⟩
  | cons first lanes ih =>
    obtain ⟨hfirst, hkeys⟩ := List.nodup_cons.mp hkeys
    unfold addToLane at h
    by_cases hkey : first.1 = keyOf item
    · rw [if_pos hkey] at h
      obtain rfl | h := List.mem_cons.mp h
      · exact .inr ⟨hkey, .inl ⟨first.2, List.mem_cons_self, rfl⟩⟩
      · refine .inl ⟨List.mem_cons_of_mem _ h, fun heq => hfirst ?_⟩
        rw [show first.1 = l.1 from hkey.trans heq.symm]
        exact List.mem_map_of_mem h
    · rw [if_neg hkey] at h
      obtain rfl | h := List.mem_cons.mp h
      · exact .inl ⟨List.mem_cons_self, hkey⟩
      · obtain ⟨hmem, hne⟩ | ⟨heq, ⟨lane, hlane, hl⟩ | ⟨hnew, hl⟩⟩ := ih hkeys h
        · exact .inl ⟨List.mem_cons_of_mem _ hmem, hne⟩
        · exact .inr ⟨heq, .inl ⟨lane, List.mem_cons_of_mem _ hlane, hl⟩⟩
        · refine .inr ⟨heq, .inr ⟨?_, hl⟩⟩
          rw [List.map_cons, List.mem_cons, not_or]
          exact ⟨fun h => hkey (h.symm.trans heq), hnew⟩

theorem grouped_addToLane (h : Grouped keyOf items lanes) :
    Grouped keyOf (items ++ [item]) (addToLane keyOf item lanes) := by
  constructor
  · obtain ⟨_, hkeys⟩ | ⟨hnew, hkeys⟩ := addToLane_keys keyOf item lanes
    · exact hkeys ▸ h.keys
    · rw [hkeys]
      exact List.nodup_append.mpr ⟨h.keys, List.nodup_singleton _, fun k hk k' hk' heq =>
        hnew (List.mem_singleton.mp hk' ▸ heq ▸ hk)⟩
  · intro l hl
    obtain ⟨hmem, hne⟩ | ⟨heq, ⟨lane, hlane, hl⟩ | ⟨hnew, hl⟩⟩ :=
      mem_addToLane h.keys hl
    · obtain ⟨hlane, hnil⟩ := h.lane l hmem
      refine ⟨?_, hnil⟩
      rw [List.filter_append, ← hlane]
      simp [hne.symm]
    · obtain ⟨hlane, _⟩ := h.lane _ hlane
      rw [hl, List.filter_append, ← hlane]
      simp [heq]
    · have hnone : items.filter (keyOf · = l.1) = [] := by
        refine List.filter_eq_nil_iff.mpr fun x hx hkey => hnew ?_
        exact of_decide_eq_true hkey ▸ h.covered x hx
      rw [hl, List.filter_append, hnone]
      simp [heq]
  · intro x hx
    obtain hx | hx := List.mem_append.mp hx
    · have hold := h.covered x hx
      obtain ⟨_, hkeys⟩ | ⟨_, hkeys⟩ := addToLane_keys keyOf item lanes
      · exact hkeys ▸ hold
      · exact hkeys ▸ List.mem_append_left _ hold
    · obtain rfl := List.mem_singleton.mp hx
      obtain ⟨hold, hkeys⟩ | ⟨_, hkeys⟩ := addToLane_keys keyOf x lanes
      · exact hkeys ▸ hold
      · exact hkeys ▸ List.mem_append_right _ (List.mem_singleton_self _)

theorem lanesOf_append (keyOf : α → κ) (items : List α) (item : α) :
    lanesOf keyOf (items ++ [item]) = addToLane keyOf item (lanesOf keyOf items) :=
  List.foldl_concat _ _ _ _

theorem lanesOf_grouped (keyOf : α → κ) (items : List α) :
    Grouped keyOf items (lanesOf keyOf items) := by
  induction items using List.reverseRecOn with
  | nil =>
    exact ⟨List.nodup_nil, (fun l hl => by cases hl), (fun item hitem => by cases hitem)⟩
  | append_singleton items item ih =>
    rw [lanesOf_append]
    exact grouped_addToLane ih

/-- How many items the lanes hold. -/
def size (lanes : List (κ × List α)) : Nat := (lanes.map fun l => l.2.length).sum

theorem size_addToLane (keyOf : α → κ) (item : α) (lanes : List (κ × List α)) :
    size (addToLane keyOf item lanes) = size lanes + 1 ∧
      (addToLane keyOf item lanes).length ≤ lanes.length + 1 := by
  induction lanes with
  | nil => exact ⟨rfl, le_rfl⟩
  | cons l lanes ih =>
    obtain ⟨hsize, hlength⟩ := ih
    rw [addToLane]
    split
    · simp only [size, List.map_cons, List.sum_cons, List.length_append, List.length_cons,
        List.length_nil]
      omega
    · simp only [size, List.map_cons, List.sum_cons, List.length_cons] at hsize ⊢
      omega

theorem lanesOf_size (keyOf : α → κ) (items : List α) :
    size (lanesOf keyOf items) = items.length ∧
      (lanesOf keyOf items).length ≤ items.length := by
  induction items using List.reverseRecOn with
  | nil => exact ⟨rfl, le_rfl⟩
  | append_singleton items item ih =>
    have hsize := size_addToLane keyOf item (lanesOf keyOf items)
    rw [lanesOf_append, List.length_append, List.length_singleton]
    omega

/-- Equal keys mean the same lane. -/
theorem Grouped.lane_unique {c c' : Nat} {l l' : κ × List α} (h : Grouped keyOf items lanes)
    (hl : lanes[c]? = some l) (hl' : lanes[c']? = some l') (hkey : l.1 = l'.1) : c = c' := by
  have hsame : (lanes.map Prod.fst)[c]? = (lanes.map Prod.fst)[c']? := by
    rw [List.getElem?_map, List.getElem?_map, hl, hl']
    exact congrArg some hkey
  have hc : c < (lanes.map Prod.fst).length := by
    rw [List.length_map]
    exact (List.getElem?_eq_some_iff.mp hl).1
  exact (List.getElem?_inj hc h.keys).mp hsame

/-! ## The workers -/

/-- The lanes before the cursor are done or in the hands of one worker, and the calls of a lane are
the items that its worker has come to. -/
structure Inv (keyOf : α → κ) (lanes : List (κ × List α)) (s : State α) : Prop where
  taken : ∀ (i c j : Nat) r, s.workers[i]? = some (.busy c j r) →
    c < s.cursor ∧ c < lanes.length
  apart : ∀ (i i' c j j' : Nat) r r', s.workers[i]? = some (.busy c j r) →
    s.workers[i']? = some (.busy c j' r') → i = i'
  inside : ∀ (i c j : Nat) r l, s.workers[i]? = some (.busy c j r) → lanes[c]? = some l →
    j + r.toNat ≤ l.2.length
  working : ∀ (i c j : Nat) r l, s.workers[i]? = some (.busy c j r) → lanes[c]? = some l →
    s.calls.filter (keyOf · = l.1) = l.2.take (j + r.toNat)
  untouched : ∀ (c : Nat) l, s.cursor ≤ c → lanes[c]? = some l →
    s.calls.filter (keyOf · = l.1) = []
  done : ∀ (c : Nat) l, c < s.cursor → lanes[c]? = some l →
    (∀ (i j : Nat) r, s.workers[i]? ≠ some (.busy c j r)) →
      s.calls.filter (keyOf · = l.1) = l.2
  exhausted : ∀ i : Nat, s.workers[i]? = some .finished → lanes.length ≤ s.cursor
  known : ∀ x ∈ s.calls, keyOf x ∈ lanes.map Prod.fst

theorem inv_start (keyOf : α → κ) (lanes : List (κ × List α)) (pending : List (List α))
    (concurrency : Number) : Inv keyOf lanes (start pending concurrency) := by
  have hready : ∀ (i : Nat) w, (start pending concurrency).workers[i]? = some w → w = .ready :=
    fun i w h => List.eq_of_mem_replicate (List.mem_of_getElem? h)
  refine ⟨fun i c j r h => ?_, fun i _ c j _ r _ h => ?_, fun i c j r l h => ?_,
    fun i c j r l h => ?_, fun _ _ _ _ => rfl, fun c l h => ?_, fun i h => ?_, fun x hx => ?_⟩
  · cases hready i _ h
  · cases hready i _ h
  · cases hready i _ h
  · cases hready i _ h
  · exact absurd h (Nat.not_lt_zero c)
  · cases hready i _ h
  · cases hx

/-- A worker takes the next lane. -/
theorem inv_take (hw : s.workers[i]? = some .ready) (hlt : s.cursor < lanes.length)
    (hs : Inv keyOf lanes s) :
    Inv keyOf lanes { setWorker s i (.busy s.cursor 0 false) with cursor := s.cursor + 1 } := by
  have hcases : ∀ (k c j : Nat) r,
      (setWorker s i (.busy s.cursor 0 false)).workers[k]? = some (.busy c j r) →
      (k = i ∧ c = s.cursor ∧ j = 0 ∧ r = false) ∨ s.workers[k]? = some (.busy c j r) := by
    intro k c j r h
    obtain ⟨hk, heq⟩ | ⟨_, h⟩ := workers_set h
    · cases heq
      exact .inl ⟨hk, rfl, rfl, rfl⟩
    · exact .inr h
  refine ⟨fun k c j r h => ?_, fun k k' c j j' r r' h h' => ?_, fun k c j r l h hl => ?_,
    fun k c j r l h hl => ?_, fun c l hle hl => hs.untouched c l (by simp only at hle; omega) hl,
    fun c l hle hl hnone => ?_, fun k h => ?_, hs.known⟩
  · obtain ⟨_, rfl, _⟩ | h := hcases k c j r h
    · exact ⟨Nat.lt_succ_self _, hlt⟩
    · have := hs.taken k c j r h
      exact ⟨by simp only; omega, this.2⟩
  · obtain ⟨hk, hc, _⟩ | h := hcases k c j r h
    · obtain ⟨hk', _⟩ | h' := hcases k' c j' r' h'
      · rw [hk, hk']
      · have := (hs.taken k' c j' r' h').1
        omega
    · obtain ⟨hk', hc, _⟩ | h' := hcases k' c j' r' h'
      · have := (hs.taken k c j r h).1
        omega
      · exact hs.apart k k' c j j' r r' h h'
  · obtain ⟨_, _, rfl, rfl⟩ | h := hcases k c j r h
    · exact Nat.zero_le _
    · exact hs.inside k c j r l h hl
  · obtain ⟨_, rfl, rfl, rfl⟩ | h := hcases k c j r h
    · exact hs.untouched _ l le_rfl hl
    · exact hs.working k c j r l h hl
  · obtain hlt | rfl := Nat.lt_or_eq_of_le (Nat.le_of_lt_succ hle)
    · refine hs.done c l hlt hl fun k j r h => hnone k j r ?_
      have hk : k ≠ i := by
        rintro rfl
        rw [hw] at h
        cases h
      exact (workers_set_ne hk _).trans h
    · exact absurd (workers_set_self hw _) (hnone i 0 false)
  · obtain ⟨_, heq⟩ | ⟨_, h⟩ := workers_set h
    · cases heq
    · have := hs.exhausted k h
      simp only
      omega

/-- A worker ends, or puts back a lane that is done. -/
theorem inv_leave {old : Worker} (hw : s.workers[i]? = some old)
    (hnew : w = .finished ∧ old = .ready ∧ lanes.length ≤ s.cursor ∨
      w = .ready ∧ ∃ c j, old = .busy c j false ∧ ∀ l, lanes[c]? = some l →
        l.2.length ≤ j)
    (hs : Inv keyOf lanes s) : Inv keyOf lanes (setWorker s i w) := by
  have hcases : ∀ (k c j : Nat) r, (setWorker s i w).workers[k]? = some (.busy c j r) →
      s.workers[k]? = some (.busy c j r) := by
    intro k c j r h
    obtain ⟨_, heq⟩ | ⟨_, h⟩ := workers_set h
    · obtain ⟨rfl, _⟩ | ⟨rfl, _⟩ := hnew <;> cases heq
    · exact h
  refine ⟨fun k c j r h => hs.taken k c j r (hcases k c j r h),
    fun k k' c j j' r r' h h' =>
      hs.apart k k' c j j' r r' (hcases k c j r h) (hcases k' c j' r' h'),
    fun k c j r l h => hs.inside k c j r l (hcases k c j r h),
    fun k c j r l h => hs.working k c j r l (hcases k c j r h), hs.untouched,
    fun c l hlt hl hnone => ?_, fun k h => ?_, hs.known⟩
  · by_cases hold : ∃ j r, old = .busy c j r
    · obtain ⟨j, r, rfl⟩ := hold
      obtain ⟨_, heq, _⟩ | ⟨_, c', j', heq, hlane⟩ := hnew
      · cases heq
      · cases heq
        exact (hs.working i c j false l hw hl).trans (List.take_of_length_le (hlane l hl))
    · refine hs.done c l hlt hl fun k j r h => hnone k j r ?_
      have hk : k ≠ i := by
        rintro rfl
        exact hold ⟨j, r, Option.some.inj (hw.symm.trans h)⟩
      exact (workers_set_ne hk _).trans h
  · obtain ⟨_, rfl⟩ | ⟨_, h⟩ := workers_set h
    · obtain ⟨_, _, hle⟩ | ⟨heq, _⟩ := hnew
      · exact hle
      · cases heq
    · exact hs.exhausted k h

/-- A worker in a lane calls the handler, or its call ends. -/
theorem inv_advance (hgrouped : Grouped keyOf items lanes) {c j j' : Nat} {r r' : Bool}
    {l : κ × List α} {calls : List α} (hw : s.workers[i]? = some (.busy c j r))
    (hl : lanes[c]? = some l) (hle : j' + r'.toNat ≤ l.2.length)
    (hcalls : s.calls ++ (l.2.take (j' + r'.toNat)).drop (j + r.toNat) = calls)
    (hmono : j + r.toNat ≤ j' + r'.toNat) (hs : Inv keyOf lanes s) :
    Inv keyOf lanes { setWorker s i (.busy c j' r') with calls } := by
  obtain ⟨hlane, _⟩ := hgrouped.lane l (List.mem_of_getElem? hl)
  have hnew : ∀ x ∈ (l.2.take (j' + r'.toNat)).drop (j + r.toNat), keyOf x = l.1 := by
    intro x hx
    have hmem := List.mem_of_mem_take (List.mem_of_mem_drop hx)
    rw [hlane] at hmem
    exact of_decide_eq_true (List.mem_filter.mp hmem).2
  have hself : calls.filter (keyOf · = l.1) = l.2.take (j' + r'.toNat) := by
    rw [← hcalls, List.filter_append, hs.working i c j r l hw hl,
      List.filter_eq_self.mpr (by simpa using hnew)]
    have htake : l.2.take (j + r.toNat) = (l.2.take (j' + r'.toNat)).take (j + r.toNat) := by
      rw [List.take_take, Nat.min_eq_left hmono]
    rw [htake, List.take_append_drop]
  have hother : ∀ (c' : Nat) l', c' ≠ c → lanes[c']? = some l' →
      calls.filter (keyOf · = l'.1) = s.calls.filter (keyOf · = l'.1) := by
    intro c' l' hne hl'
    rw [← hcalls, List.filter_append]
    refine List.append_right_eq_self.mpr (List.filter_eq_nil_iff.mpr fun x hx hkey => hne ?_)
    exact hgrouped.lane_unique hl' hl ((of_decide_eq_true hkey).symm.trans (hnew x hx))
  have hcases : ∀ (k c1 j1 : Nat) r1,
      (setWorker s i (.busy c j' r')).workers[k]? = some (.busy c1 j1 r1) →
      (k = i ∧ c1 = c ∧ j1 = j' ∧ r1 = r') ∨
        (k ≠ i ∧ s.workers[k]? = some (.busy c1 j1 r1)) := by
    intro k c1 j1 r1 h
    obtain ⟨hk, heq⟩ | h := workers_set h
    · cases heq
      exact .inl ⟨hk, rfl, rfl, rfl⟩
    · exact .inr h
  refine ⟨fun k c1 j1 r1 h => ?_, fun k k' c1 j1 j2 r1 r2 h h' => ?_,
    fun k c1 j1 r1 l1 h hl1 => ?_,
    fun k c1 j1 r1 l1 h hl1 => ?_, fun c1 l1 hle1 hl1 => ?_, fun c1 l1 hlt hl1 hnone => ?_,
    fun k h => ?_, fun x hx => ?_⟩
  · obtain ⟨_, rfl, _⟩ | ⟨_, h⟩ := hcases k c1 j1 r1 h
    · exact hs.taken i _ j r hw
    · exact hs.taken k c1 j1 r1 h
  · obtain ⟨hk, hc, _⟩ | ⟨hk, h⟩ := hcases k c1 j1 r1 h
    · obtain ⟨hk', _⟩ | ⟨hk', h'⟩ := hcases k' c1 j2 r2 h'
      · rw [hk, hk']
      · rw [hc] at h'
        exact absurd (hs.apart k' i c j2 j r2 r h' hw) hk'
    · obtain ⟨_, hc, _⟩ | ⟨_, h'⟩ := hcases k' c1 j2 r2 h'
      · rw [hc] at h
        exact absurd (hs.apart k i c j1 j r1 r h hw) hk
      · exact hs.apart k k' c1 j1 j2 r1 r2 h h'
  · obtain ⟨_, rfl, rfl, rfl⟩ | ⟨_, h⟩ := hcases k c1 j1 r1 h
    · obtain rfl := Option.some.inj (hl.symm.trans hl1)
      exact hle
    · exact hs.inside k c1 j1 r1 l1 h hl1
  · obtain ⟨_, rfl, rfl, rfl⟩ | ⟨hk, hold⟩ := hcases k c1 j1 r1 h
    · obtain rfl := Option.some.inj (hl.symm.trans hl1)
      exact hself
    · have hne : c1 ≠ c := by
        rintro rfl
        exact hk (hs.apart k i c1 j1 j r1 r hold hw)
      exact (hother c1 l1 hne hl1).trans (hs.working k c1 j1 r1 l1 hold hl1)
  · have hne : c1 ≠ c := by
      rintro rfl
      have := (hs.taken i c1 j r hw).1
      exact absurd hle1 (Nat.not_le.mpr this)
    exact (hother c1 l1 hne hl1).trans (hs.untouched c1 l1 hle1 hl1)
  · by_cases hne : c1 = c
    · subst hne
      exact absurd (workers_set_self hw _) (hnone i j' r')
    · refine (hother c1 l1 hne hl1).trans (hs.done c1 l1 hlt hl1 fun k j1 r1 h => hnone k j1 r1 ?_)
      have hk : k ≠ i := by
        rintro rfl
        rw [hw] at h
        cases h
        exact hne rfl
      exact (workers_set_ne hk _).trans h
  · obtain ⟨_, heq⟩ | ⟨_, h⟩ := workers_set h
    · cases heq
    · exact hs.exhausted k h
  · rw [← hcalls] at hx
    obtain hx | hx := List.mem_append.mp hx
    · exact hs.known x hx
    · rw [hnew x hx]
      exact List.mem_map_of_mem (List.mem_of_getElem? hl)

theorem inv_next (hgrouped : Grouped keyOf items lanes)
    (h : next (lanes.map Prod.snd) s a = some t) (hs : Inv keyOf lanes s) : Inv keyOf lanes t := by
  obtain ⟨i, hw, hlt, rfl⟩ | ⟨i, old, w, hw, hnew, rfl⟩ |
      ⟨i, c, j, l, item, hw, hl, hitem, rfl⟩ |
    ⟨i, c, j, hw, rfl⟩ := next_cases h
  · exact inv_take hw hlt hs
  · exact inv_leave hw hnew hs
  · obtain ⟨hj, rfl⟩ := List.getElem?_eq_some_iff.mp hitem
    refine inv_advance hgrouped hw hl hj ?_ (Nat.le_succ _) hs
    rw [Bool.toNat_true, Bool.toNat_false, Nat.add_zero, List.take_succ_eq_append_getElem hj,
      List.drop_left' (List.length_take_of_le hj.le)]
  · obtain ⟨l, hl⟩ : ∃ l, lanes[c]? = some l :=
      ⟨_, List.getElem?_eq_getElem (hs.taken i c j true hw).2⟩
    refine inv_advance hgrouped hw hl (hs.inside i c j true l hw hl) ?_ le_rfl hs
    rw [Bool.toNat_true, Bool.toNat_false, Nat.add_zero, List.drop_eq_nil_of_le (by simp)]
    exact List.append_nil _

/-! ## The end of a run -/

theorem stepsLeft_next (h : next (lanes.map Prod.snd) s a = some t) (hs : Inv keyOf lanes s) :
    stepsLeft lanes t + 1 = stepsLeft lanes s := by
  have hset : ∀ {i : Nat} {old w : Worker}, s.workers[i]? = some old →
      ((s.workers.set i w).map (·.steps lanes)).sum + old.steps lanes =
        (s.workers.map (·.steps lanes)).sum + w.steps lanes := fun hw => sum_set _ hw
  obtain ⟨i, hw, hlt, rfl⟩ | ⟨i, old, w, hw, hnew, rfl⟩ |
      ⟨i, c, j, l, item, hw, hl, hitem, rfl⟩ |
    ⟨i, c, j, hw, rfl⟩ := next_cases h
  · have hsum := hset (w := .busy s.cursor 0 false) hw
    simp only [stepsLeft, setWorker, List.drop_eq_getElem_cons hlt, List.map_cons, List.sum_cons]
    simp only [steps_busy, steps_ready, List.getElem?_eq_getElem hlt, Option.map_some,
      Option.getD_some, Bool.toNat_false] at hsum
    omega
  · have hsum := hset (w := w) hw
    simp only [stepsLeft, setWorker]
    obtain ⟨rfl, rfl, _⟩ | ⟨rfl, c, j, rfl, hlane⟩ := hnew
    · simp only [steps_ready, steps_finished] at hsum
      omega
    · have hle : (lanes[c]?.map (·.2.length)).getD 0 ≤ j := by
        cases hl : lanes[c]? with
        | none => exact Nat.zero_le _
        | some l => exact hlane l hl
      simp only [steps_busy, steps_ready, Bool.toNat_false] at hsum
      omega
  · have hsum := hset (w := .busy c j true) hw
    obtain ⟨hj, _⟩ := List.getElem?_eq_some_iff.mp hitem
    simp only [stepsLeft, setWorker]
    simp only [steps_busy, hl, Option.map_some, Option.getD_some, Bool.toNat_false,
      Bool.toNat_true] at hsum
    omega
  · have hsum := hset (w := .busy c (j + 1) false) hw
    obtain ⟨l, hl⟩ : ∃ l, lanes[c]? = some l :=
      ⟨_, List.getElem?_eq_getElem (hs.taken i c j true hw).2⟩
    have hinside := hs.inside i c j true l hw hl
    simp only [stepsLeft, setWorker]
    simp only [steps_busy, hl, Option.map_some, Option.getD_some, Bool.toNat_false,
      Bool.toNat_true] at hsum hinside
    omega

theorem run_length {u : State α} (hgrouped : Grouped keyOf items lanes)
    (h : Run (StepOf (next (lanes.map Prod.snd))) s as u) (hs : Inv keyOf lanes s) :
    as.length + stepsLeft lanes u = stepsLeft lanes s := by
  induction h with
  | refl => exact Nat.zero_add _
  | cons hstep _ ih =>
    have hrest := ih (inv_next hgrouped hstep hs)
    have hone := stepsLeft_next hstep hs
    rw [List.length_cons]
    omega

/-! ## What callers expect -/

/-- The calls of a key are the first items of the list that have it. -/
theorem calls_prefix (hgrouped : Grouped keyOf items lanes) (hs : Inv keyOf lanes s) (key : κ) :
    s.calls.filter (keyOf · = key) <+: items.filter (keyOf · = key) := by
  by_cases hkey : key ∈ lanes.map Prod.fst
  · obtain ⟨l, hmem, rfl⟩ := List.mem_map.mp hkey
    obtain ⟨c, hl⟩ := List.mem_iff_getElem?.mp hmem
    rw [← (hgrouped.lane l hmem).1]
    by_cases hcursor : s.cursor ≤ c
    · rw [hs.untouched c l hcursor hl]
      exact List.nil_prefix
    · by_cases hbusy : ∃ (i j : Nat) (r : Bool), s.workers[i]? = some (.busy c j r)
      · obtain ⟨i, j, r, hw⟩ := hbusy
        rw [hs.working i c j r l hw hl]
        exact List.take_prefix _ _
      · rw [hs.done c l (Nat.not_le.mp hcursor) hl fun i j r hw => hbusy ⟨i, j, r, hw⟩]
  · have hnone : s.calls.filter (keyOf · = key) = [] := by
      refine List.filter_eq_nil_iff.mpr fun x hx hx' => hkey ?_
      exact of_decide_eq_true hx' ▸ hs.known x hx
    rw [hnone]
    exact List.nil_prefix

theorem calls_perm (hgrouped : Grouped keyOf items lanes) (hs : Inv keyOf lanes s)
    (hstaffed : s.workers = [] → lanes = []) (hresolved : Resolved s) : s.calls.Perm items := by
  have hfilter : ∀ l ∈ lanes, s.calls.filter (keyOf · = l.1) =
      items.filter (keyOf · = l.1) := by
    intro l hmem
    obtain ⟨c, hl⟩ := List.mem_iff_getElem?.mp hmem
    obtain ⟨hc, _⟩ := List.getElem?_eq_some_iff.mp hl
    have hexhausted : lanes.length ≤ s.cursor := by
      cases hworkers : s.workers with
      | nil => simp [hstaffed hworkers]
      | cons worker workers =>
        have hfirst : s.workers[0]? = some worker := by simp [hworkers]
        obtain rfl := hresolved worker (List.mem_of_getElem? hfirst)
        exact hs.exhausted 0 hfirst
    rw [← (hgrouped.lane l hmem).1]
    refine hs.done c l (by omega) hl fun i j r hw => ?_
    cases hresolved _ (List.mem_of_getElem? hw)
  classical
  refine List.perm_iff_count.mpr fun x => ?_
  have hcount : ∀ xs : List α, xs.count x = (xs.filter (keyOf · = keyOf x)).count x :=
    fun xs => (List.count_filter (by simp)).symm
  by_cases hkey : keyOf x ∈ lanes.map Prod.fst
  · obtain ⟨l, hmem, heq⟩ := List.mem_map.mp hkey
    rw [hcount, hcount items, ← heq, hfilter l hmem]
  · rw [List.count_eq_zero_of_not_mem fun hx => hkey (hs.known x hx),
      List.count_eq_zero_of_not_mem fun hx => hkey (hgrouped.covered x hx)]

/-- The call that a worker runs is for an item of its lane. -/
theorem item_key (hgrouped : Grouped keyOf items lanes) {x : α}
    (h : x ∈ w.item (lanes.map Prod.snd)) :
    ∃ c j l, w = .busy c j true ∧ lanes[c]? = some l ∧
      keyOf x = l.1 := by
  cases w with
  | busy c j r =>
    cases r with
    | true =>
      rw [Worker.item, lane_get] at h
      obtain ⟨l, hl, hitem⟩ := Option.bind_eq_some_iff.mp h
      have hmem := List.mem_of_getElem? hitem
      rw [(hgrouped.lane l (List.mem_of_getElem? hl)).1] at hmem
      exact ⟨c, j, l, rfl, hl, of_decide_eq_true (List.mem_filter.mp hmem).2⟩
    | false => cases h
  | _ => cases h

/-- Two calls that run are for different keys. -/
theorem running_separate (hgrouped : Grouped keyOf items lanes) (hs : Inv keyOf lanes s) :
    ((running (lanes.map Prod.snd) s).map keyOf).Nodup := by
  refine List.pairwise_map.mpr (List.pairwise_filterMap.mpr (List.pairwise_iff_getElem.mpr ?_))
  intro i i' hi hi' hlt x hx x' hx' heq
  obtain ⟨c, j, l, hw, hl, hkey⟩ := item_key hgrouped hx
  obtain ⟨c', j', l', hw', hl', hkey'⟩ := item_key hgrouped hx'
  obtain rfl := hgrouped.lane_unique hl hl' (hkey.symm.trans (heq.trans hkey'))
  have hsame := hs.apart i i' c j j' true true (List.getElem?_eq_some_iff.mpr ⟨hi, hw⟩)
    (List.getElem?_eq_some_iff.mpr ⟨hi', hw'⟩)
  omega

theorem finite_le {p q : ℚ} : finite p ≤ finite q ↔ p ≤ q := by
  simp [finite]

/-- Between two finite numbers there are finite ones only. -/
theorem exists_rat {p r : ℚ} {x : WithBot (WithTop ℚ)} (hp : finite p ≤ x)
    (hr : x ≤ finite r) :
    ∃ q : ℚ, x = finite q ∧ p ≤ q ∧ q ≤ r := by
  induction x using WithBot.recBotCoe with
  | bot => simp [finite] at hp
  | coe x =>
    induction x using WithTop.recTopCoe with
    | top => simp [finite] at hr
    | coe q => exact ⟨q, rfl, finite_le.mp hp, finite_le.mp hr⟩

/-- With a concurrency that is a number there are workers for every list of lanes, no more than the
lanes and no more than the concurrency. -/
theorem staff_spec (x : WithBot (WithTop ℚ)) {n : Nat} (hn : 0 < n) :
    ∃ m, toLength (mathMin (mathMax (ofNat 1) (some x)) (ofNat n)) = m ∧ 0 < m ∧ m ≤ n ∧
      ∀ k ≤ m, ¬ less (mathMax (ofNat 1) (some x)) (ofNat k) := by
  have hone : finite (1 : Nat) ≤ min (max (finite (1 : Nat)) x) (finite n) := by
    refine le_min (le_max_left _ _) (finite_le.mpr ?_)
    exact_mod_cast hn
  obtain ⟨q, hq, hqone, hqn⟩ := exists_rat hone (min_le_right _ _)
  have hfloor : (1 : Int) ≤ ⌊q⌋ := Int.le_floor.mpr (by simpa using hqone)
  have hcast : ((⌊q⌋.toNat : Nat) : ℚ) ≤ q := by
    have hnat : ((⌊q⌋.toNat : Nat) : Int) = ⌊q⌋ := Int.toNat_of_nonneg (by omega)
    calc ((⌊q⌋.toNat : Nat) : ℚ) = ((⌊q⌋ : Int) : ℚ) := by rw [← hnat]; rfl
      _ ≤ q := Int.floor_le q
  have hlength : toLength (mathMin (mathMax (ofNat 1) (some x)) (ofNat n)) =
      min ⌊q⌋.toNat 9007199254740991 := by
    have hmin : mathMin (mathMax (ofNat 1) (some x)) (ofNat n) = some (finite q) := congrArg some hq
    rw [hmin]
    rfl
  refine ⟨_, hlength, by omega, ?_, fun k hk hless => ?_⟩
  · have hle : ((⌊q⌋.toNat : Nat) : ℚ) ≤ n := hcast.trans hqn
    have : ⌊q⌋.toNat ≤ n := by exact_mod_cast hle
    omega
  · obtain ⟨y, hy, z, hz, hlt⟩ := hless
    obtain rfl := Option.some.inj hy
    obtain rfl := Option.some.inj hz
    have hle : ((k : Nat) : ℚ) ≤ q := by
      have hkq : ((k : Nat) : ℚ) ≤ ((⌊q⌋.toNat : Nat) : ℚ) := by
        exact_mod_cast hk.trans (min_le_left _ _)
      exact hkq.trans hcast
    have hmax : finite q ≤ max (finite (1 : Nat)) x := hq ▸ min_le_left _ _
    exact absurd hlt (not_lt.mpr ((finite_le.mpr hle).trans hmax))

/-- Without lanes there are no workers. -/
theorem staff_nil (x : WithBot (WithTop ℚ)) :
    toLength (mathMin (mathMax (ofNat 1) (some x)) (ofNat 0)) = 0 := by
  have hle : finite (0 : Nat) ≤ max (finite (1 : Nat)) x :=
    (finite_le.mpr (by simp)).trans (le_max_left _ _)
  have hmin : mathMin (mathMax (ofNat 1) (some x)) (ofNat 0) = some (finite (0 : Nat)) :=
    congrArg some (min_eq_right hle)
  rw [hmin]
  simp [toLength, finite]

theorem start_length (pending : List (List α)) (concurrency : Number) :
    (start pending concurrency).workers.length =
      toLength (mathMin (mathMax (ofNat 1) concurrency) (ofNat pending.length)) :=
  List.length_replicate

omit [DecidableEq κ] in
theorem stepsLeft_start (lanes : List (κ × List α)) (pending : List (List α))
    (concurrency : Number) :
    stepsLeft lanes (start pending concurrency) =
      2 * size lanes + 2 * lanes.length + (start pending concurrency).workers.length := by
  have hlanes : ∀ lanes : List (κ × List α),
      (lanes.map fun l => 2 * l.2.length + 2).sum = 2 * size lanes + 2 * lanes.length := by
    intro lanes
    induction lanes with
    | nil => rfl
    | cons l lanes ih =>
      simp only [size, List.map_cons, List.sum_cons, List.length_cons] at ih ⊢
      omega
  have hworkers : ∀ n, ((List.replicate n Worker.ready).map (·.steps lanes)).sum = n := by
    intro n
    simp [steps_ready]
  unfold stepsLeft
  rw [start_length]
  simp only [start, List.drop_zero, hlanes, hworkers]

/-- Where the concurrency is a number, or there is nothing to do, every run is as expected. -/
theorem handles_of_number {concurrency : Number} (h : items = [] ∨ concurrency ≠ none)
    (hrun : Run (StepOf (next (pendingLanes keyOf items)))
      (start (pendingLanes keyOf items) concurrency) as s) :
    Handles keyOf items concurrency as s := by
  have hgrouped := lanesOf_grouped keyOf items
  have hinv : Inv keyOf (lanesOf keyOf items) s :=
    hrun.preserves (fun _ _ _ hstep => inv_next hgrouped hstep) (inv_start _ _ _ _)
  have hlength : s.workers.length =
      toLength (mathMin (mathMax (ofNat 1) concurrency) (ofNat (lanesOf keyOf items).length)) := by
    refine hrun.preserves (I := fun s => s.workers.length = _)
      (fun _ _ _ hstep hs => (workers_length hstep).trans hs) ?_
    rw [start_length, pendingLanes, List.length_map]
  have hnil : lanesOf keyOf items = [] → items = [] := by
    intro hlanes
    have hsize := (lanesOf_size keyOf items).1
    rw [hlanes] at hsize
    exact List.length_eq_zero_iff.mp hsize.symm
  have hstaff : s.workers.length ≤ (lanesOf keyOf items).length ∧
      (s.workers = [] → lanesOf keyOf items = []) ∧
      ∀ k ≤ s.workers.length, ¬ less (mathMax (ofNat 1) concurrency) (ofNat k) := by
    cases concurrency with
    | none =>
      have hzero : s.workers.length = 0 := hlength
      refine ⟨by omega, fun _ => ?_, fun _ _ hless => ?_⟩
      · rw [h.resolve_right (by simp)]
        rfl
      · obtain ⟨_, hnone, _⟩ := hless
        cases hnone
    | some x =>
      rcases Nat.eq_zero_or_pos (lanesOf keyOf items).length with hzero | hpos
      · obtain ⟨m, hm, _, _, hless⟩ := staff_spec x Nat.one_pos
        have hempty := List.length_eq_zero_iff.mp hzero
        have hworkers : s.workers.length = 0 := by
          rw [hlength, hzero]
          exact staff_nil x
        refine ⟨by omega, fun _ => hempty, fun k hk => hless k (by omega)⟩
      · obtain ⟨m, hm, hmpos, hmle, hless⟩ := staff_spec x hpos
        rw [hm] at hlength
        refine ⟨by omega, fun hworkers => ?_, fun k hk => hless k (by omega)⟩
        rw [hworkers] at hlength
        exact absurd hlength.symm (by simpa using hmpos.ne')
  obtain ⟨hle, hstaffed, hless⟩ := hstaff
  refine ⟨hless _ (List.length_filterMap_le _ _), running_separate hgrouped hinv,
    calls_prefix hgrouped hinv, calls_perm hgrouped hinv hstaffed, exists_next, ?_⟩
  have hsteps := run_length hgrouped hrun (inv_start _ _ _ _)
  obtain ⟨hsize, hcount⟩ := lanesOf_size keyOf items
  have hstart := stepsLeft_start (lanesOf keyOf items) (pendingLanes keyOf items) concurrency
  rw [start_length, pendingLanes, List.length_map, ← hlength] at hstart
  rw [pendingLanes] at hsteps
  omega

/-- Callers get what they expect exactly if the concurrency is a number or there is nothing to do:
with `NaN` there is no worker, and the promise is fulfilled before any call. -/
theorem keyed_lanes_iff (keyOf : α → κ) (items : List α) (concurrency : Number) :
    (∀ as s, Run (StepOf (next (pendingLanes keyOf items)))
      (start (pendingLanes keyOf items) concurrency) as s →
      Handles keyOf items concurrency as s) ↔ items = [] ∨ concurrency ≠ none := by
  constructor
  · intro hall
    by_cases hnone : concurrency = none
    · subst hnone
      have hstart := (hall [] _ (.refl _)).complete fun worker hworker => by cases hworker
      exact .inl hstart.nil_eq.symm
    · exact .inr hnone
  · exact fun h as s hrun => handles_of_number h hrun

/-- A concurrency of the environment that is no number leaves the items of a batch unhandled. -/
theorem entries_skipped : ∃ s, Run (StepOf (next (pendingLanes id [1])))
    (start (pendingLanes id [1]) (projectorConcurrency none)) [] s ∧ Resolved s ∧
    s.calls = [] ∧
    ¬ Handles id [1] (projectorConcurrency none) [] s := by
  have hresolved : Resolved (start (pendingLanes id [1]) (projectorConcurrency none)) := by
    intro worker hworker
    cases hworker
  refine ⟨_, .refl _, hresolved, rfl, fun h => ?_⟩
  exact absurd (h.complete hresolved).length_eq (by decide)

end MiracleAuction.KeyedLanes
