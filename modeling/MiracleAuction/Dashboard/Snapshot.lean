import MiracleAuction.Base.Run

/-!
# `refreshDashboardSnapshot` and `singleFlightRefresh`

A refresh reads the tables, and stores what it has read under the next version. A process has
one refresh under way that all its batches share; other refreshes run beside it.
-/
namespace MiracleAuction.Dashboard

/-- The row of `dashboard_stats`, with the moment at which the reads of its value began. -/
structure Snapshot where
  version : Nat
  readAt : Nat
  deriving DecidableEq, Repr

/-- A call of `refreshDashboardSnapshot`. Its promise may be rejected although its
transaction is carried out, and that later still. -/
structure Refresh where
  readAt : Nat
  stored : Bool := false
  fulfilled : Option Bool := none
  deriving DecidableEq, Repr

/-- Where a call of `eachBatch` stands: it handles its messages, or waits for a refresh. -/
inductive BatchPhase
  | handling
  | waiting (refresh : Nat)
  | ended
  deriving DecidableEq, Repr

/-- A batch with the moments at which its messages were received. -/
structure Batch where
  process : Nat
  received : List Nat
  phase : BatchPhase := .handling
  deriving DecidableEq, Repr

/-- The offsets that a batch has committed, with the snapshot of that moment. -/
structure Commit where
  received : List Nat
  snapshot : Option Snapshot
  deriving DecidableEq, Repr

/-- The processes and the versions of the row, the last one first. -/
structure RefreshWorld where
  now : Nat
  stored : List Snapshot
  refreshes : List Refresh := []
  refreshFlight : Nat → Option Nat := fun _ => none
  batches : List Batch := []
  commits : List Commit := []

/-- `refresh` stands for the startup and the scheduled refreshes of a worker, `fallback` for
a call of another process. -/
inductive RefreshAction
  | eachBatch (process : Nat) (received : List Nat) (stop : Bool)
  | refresh (process : Nat)
  | fallback
  | refreshBatch (batch : Nat)
  | store (refresh : Nat)
  | fulfil (refresh : Nat)
  | reject (refresh : Nat)
  | commitOffsets (batch : Nat)
  | fail (batch : Nat)

namespace RefreshWorld
variable (w : RefreshWorld)

/-- The reads begin. -/
def begin : RefreshWorld := { w with refreshes := w.refreshes ++ [{ readAt := w.now }] }

/-- `singleFlightRefresh`: the refresh that is under way, or a new one. -/
def singleFlightRefresh (process : Nat) : RefreshWorld × Nat :=
  match w.refreshFlight process with
  | some refresh => (w, refresh)
  | none =>
    ({ w.begin with
      refreshFlight := Function.update w.refreshFlight process (some w.refreshes.length) },
      w.refreshes.length)

/-- `version + 1`, or the version of a new row. -/
def nextVersion : Nat :=
  match w.stored with
  | [] => 1
  | snapshot :: _ => snapshot.version + 1

/-- The promise of a refresh is fulfilled or rejected, and its process forgets it. -/
def settle (refresh : Nat) (flight : Refresh) (fulfilled : Bool) : RefreshWorld :=
  { w with
    refreshes := w.refreshes.set refresh { flight with fulfilled := some fulfilled }
    refreshFlight := fun process =>
      if w.refreshFlight process = some refresh then none else w.refreshFlight process }

def setPhase (batch : Nat) (run : Batch) (phase : BatchPhase) : RefreshWorld :=
  { w with batches := w.batches.set batch { run with phase } }

/-- What an action does; `none` where it is not possible. -/
def act : RefreshAction → Option RefreshWorld
  | .eachBatch process received stop =>
    if ∀ time ∈ received, time < w.now then
      some (if stop then w else { w with batches := w.batches ++ [{ process, received }] })
    else none
  | .refresh process => some (w.singleFlightRefresh process).1
  | .fallback => some w.begin
  | .refreshBatch batch =>
    match w.batches[batch]? with
    | some run =>
      if run.phase = .handling then
        let (w, refresh) := w.singleFlightRefresh run.process
        some (w.setPhase batch run (.waiting refresh))
      else none
    | none => none
  | .store refresh =>
    match w.refreshes[refresh]? with
    | some flight =>
      if flight.stored then none
      else
        some { w with
          stored := ⟨w.nextVersion, flight.readAt⟩ :: w.stored
          refreshes := w.refreshes.set refresh { flight with stored := true } }
    | none => none
  | .fulfil refresh =>
    match w.refreshes[refresh]? with
    | some flight =>
      if flight.stored ∧ flight.fulfilled = none then some (w.settle refresh flight true)
        else none
    | none => none
  | .reject refresh =>
    match w.refreshes[refresh]? with
    | some flight => if flight.fulfilled = none then some (w.settle refresh flight false) else none
    | none => none
  | .commitOffsets batch =>
    match w.batches[batch]? with
    | some run =>
      match run.phase with
      | .waiting refresh =>
        if (w.refreshes[refresh]?).any (·.fulfilled = some true) then
          let w' := w.setPhase batch run .ended
          -- a batch without messages returns before the commit
          if run.received = [] then some w'
          else some { w' with commits := w.commits ++ [⟨run.received, w.stored.head?⟩] }
        else none
      | _ => none
    | none => none
  | .fail batch =>
    match w.batches[batch]? with
    | some run => some (w.setPhase batch run .ended)
    | none => none

/-- One step, and time goes on. -/
def next (a : RefreshAction) : Option RefreshWorld :=
  (w.act a).map fun w' => { w' with now := w'.now + 1 }

/-- At each commit the stored snapshot came from reads that began after the messages, and a
larger version never from older reads. -/
structure Reflected : Prop where
  commits : ∀ commit ∈ w.commits, ∃ snapshot, commit.snapshot = some snapshot ∧
    ∀ time ∈ commit.received, time < snapshot.readAt
  versions : ∀ older ∈ w.stored, ∀ newer ∈ w.stored, older.version < newer.version →
    older.readAt ≤ newer.readAt

/-- A batch that finds a refresh under way has received its messages before its reads began, and
no refresh is stored after one whose reads began later. -/
def Timely : RefreshAction → Prop
  | .refreshBatch batch =>
    ∀ run ∈ w.batches[batch]?, ∀ refresh ∈ w.refreshFlight run.process,
    ∀ flight ∈ w.refreshes[refresh]?, ∀ time ∈ run.received, time < flight.readAt
  | .store refresh => ∀ flight ∈ w.refreshes[refresh]?, ∀ other ∈ w.refreshes,
    other.stored = true → other.readAt ≤ flight.readAt
  | _ => True

end RefreshWorld

/-! ## What the processes rely on -/

/-- The refresh began after the messages were received. -/
def RefreshWorld.Covers (w : RefreshWorld) (refresh : Nat) (received : List Nat) : Prop :=
  ∃ flight, w.refreshes[refresh]? = some flight ∧ ∀ time ∈ received, time < flight.readAt

structure RefreshWorld.Sound (w : RefreshWorld) : Prop where
  commits : ∀ commit ∈ w.commits, ∃ snapshot, commit.snapshot = some snapshot ∧
    ∀ time ∈ commit.received, time < snapshot.readAt
  ordered : w.stored.Pairwise fun newer older =>
    older.version < newer.version ∧ older.readAt ≤ newer.readAt
  origin : ∀ snapshot ∈ w.stored, snapshot.readAt = 0 ∨
    ∃ flight ∈ w.refreshes, flight.stored = true ∧ flight.readAt = snapshot.readAt
  shown : ∀ flight ∈ w.refreshes, flight.stored = true →
    ∃ snapshot ∈ w.stored, snapshot.readAt = flight.readAt
  fulfilled : ∀ flight ∈ w.refreshes, flight.fulfilled = some true → flight.stored = true
  flights : ∀ process, ∀ refresh ∈ w.refreshFlight process, refresh < w.refreshes.length
  received : ∀ run ∈ w.batches, ∀ time ∈ run.received, time < w.now
  waiting : ∀ run ∈ w.batches, ∀ refresh, run.phase = .waiting refresh →
    w.Covers refresh run.received

section
variable {w w' : RefreshWorld} {refresh batch process : Nat} {flight : Refresh} {run : Batch}

theorem RefreshWorld.Sound.tick (h : w.Sound) :
    ({ w with now := w.now + 1 } : RefreshWorld).Sound :=
  { h with
    received := fun run hrun time htime => Nat.lt_succ_of_lt (h.received run hrun time htime) }

theorem RefreshWorld.Covers.begin {received : List Nat} (h : w.Covers refresh received) :
    w.begin.Covers refresh received := by
  obtain ⟨flight, hflight, htimes⟩ := h
  have hlt : refresh < w.refreshes.length := (List.getElem?_eq_some_iff.mp hflight).1
  exact ⟨flight, (List.getElem?_append_left hlt).trans hflight, htimes⟩

/-- A refresh whose reads begin now covers every message so far. -/
theorem RefreshWorld.covers_begin {received : List Nat} (h : ∀ time ∈ received, time < w.now) :
    w.begin.Covers w.refreshes.length received :=
  ⟨_, List.getElem?_concat_length, h⟩

theorem RefreshWorld.Sound.begin (h : w.Sound) : w.begin.Sound where
  commits := h.commits
  ordered := h.ordered
  origin := by
    intro snapshot hsnapshot
    obtain hzero | ⟨flight, hflight, hstored, hread⟩ := h.origin snapshot hsnapshot
    · exact .inl hzero
    · exact .inr ⟨flight, List.mem_append_left _ hflight, hstored, hread⟩
  shown := by
    intro flight hflight hstored
    obtain hflight | hflight := List.mem_append.mp hflight
    · exact h.shown flight hflight hstored
    · obtain rfl := List.mem_singleton.mp hflight
      cases hstored
  fulfilled := by
    intro flight hflight hfulfilled
    obtain hflight | hflight := List.mem_append.mp hflight
    · exact h.fulfilled flight hflight hfulfilled
    · obtain rfl := List.mem_singleton.mp hflight
      cases hfulfilled
  flights := by
    intro process refresh hrefresh
    have hlt := h.flights process refresh hrefresh
    simp only [RefreshWorld.begin, List.length_append]
    omega
  received := h.received
  waiting := fun run hrun refresh hphase => (h.waiting run hrun refresh hphase).begin

theorem RefreshWorld.Sound.singleFlightRefresh (h : w.Sound) (process : Nat) :
    (w.singleFlightRefresh process).1.Sound := by
  unfold RefreshWorld.singleFlightRefresh
  split
  · exact h
  · refine { h.begin with flights := fun process' refresh hrefresh => ?_ }
    by_cases hprocess : process' = process
    · subst hprocess
      simp only [Function.update_self] at hrefresh
      cases hrefresh
      simp [RefreshWorld.begin]
    · simp only [Function.update_of_ne hprocess] at hrefresh
      exact h.begin.flights process' refresh hrefresh

/-- The refresh that a batch waits for covers its messages. -/
theorem RefreshWorld.Sound.covers (h : w.Sound) {received : List Nat}
    (hreceived : ∀ time ∈ received, time < w.now)
    (htimely : ∀ refresh ∈ w.refreshFlight process, ∀ flight ∈ w.refreshes[refresh]?,
      ∀ time ∈ received, time < flight.readAt) :
    (w.singleFlightRefresh process).1.Covers (w.singleFlightRefresh process).2 received := by
  unfold RefreshWorld.singleFlightRefresh
  split
  · rename_i refresh hrefresh
    have hlt := h.flights process refresh hrefresh
    have hflight := List.getElem?_eq_getElem hlt
    exact ⟨_, hflight, htimely refresh hrefresh _ hflight⟩
  · exact RefreshWorld.covers_begin hreceived

theorem RefreshWorld.Sound.setPhase {phase : BatchPhase} (h : w.Sound)
    (hrun : w.batches[batch]? = some run)
    (hphase : ∀ refresh, phase = .waiting refresh → w.Covers refresh run.received) :
    (w.setPhase batch run phase).Sound :=
  { h with
    received := by
      intro other hother
      obtain hother | rfl := List.mem_or_eq_of_mem_set hother
      · exact h.received other hother
      · exact h.received run (List.mem_of_getElem? hrun)
    waiting := by
      intro other hother refresh hwaiting
      obtain hother | rfl := List.mem_or_eq_of_mem_set hother
      · exact h.waiting other hother refresh hwaiting
      · exact hphase refresh hwaiting }

/-! ## A refresh goes on -/

/-- The list with another version of a refresh, which began at the same time. -/
theorem Covers.set (flight' : Refresh) {received : List Nat} {refresh' : Nat}
    (hflight : w.refreshes[refresh]? = some flight) (hread : flight'.readAt = flight.readAt)
    (hw : w'.refreshes = w.refreshes.set refresh flight') (h : w.Covers refresh' received) :
    w'.Covers refresh' received := by
  obtain ⟨other, hother, htimes⟩ := h
  unfold RefreshWorld.Covers
  rw [hw]
  by_cases hsame : refresh = refresh'
  · subst hsame
    obtain rfl : flight = other := Option.some.inj (hflight.symm.trans hother)
    have hlt : refresh < w.refreshes.length := (List.getElem?_eq_some_iff.mp hflight).1
    exact ⟨flight', List.getElem?_set_self hlt, by rw [hread]; exact htimes⟩
  · exact ⟨other, (List.getElem?_set_ne hsame).trans hother, htimes⟩

theorem exists_mem_set {refreshes : List Refresh} {flight' other : Refresh}
    (hflight : refreshes[refresh]? = some flight) (hread : flight'.readAt = flight.readAt)
    (hstored : flight.stored = true → flight'.stored = true) (hother : other ∈ refreshes)
    (hshown : other.stored = true) :
    ∃ other' ∈ refreshes.set refresh flight', other'.stored = true ∧
      other'.readAt = other.readAt := by
  obtain ⟨i, hi⟩ := List.mem_iff_getElem?.mp hother
  by_cases hsame : refresh = i
  · subst hsame
    obtain rfl : flight = other := Option.some.inj (hflight.symm.trans hi)
    have hlt : refresh < refreshes.length := (List.getElem?_eq_some_iff.mp hflight).1
    exact ⟨flight', List.mem_of_getElem? (List.getElem?_set_self hlt), hstored hshown, hread⟩
  · exact ⟨other, List.mem_of_getElem? ((List.getElem?_set_ne hsame).trans hi), hshown, rfl⟩

theorem RefreshWorld.Sound.settle {fulfilled : Bool} (h : w.Sound)
    (hflight : w.refreshes[refresh]? = some flight)
    (hstored : fulfilled = true → flight.stored = true) :
    (w.settle refresh flight fulfilled).Sound := by
  have hmem := List.mem_of_getElem? hflight
  refine ⟨h.commits, h.ordered, ?_, ?_, ?_, ?_, h.received, ?_⟩
  · intro snapshot hsnapshot
    obtain hzero | ⟨other, hother, hshown, hread⟩ := h.origin snapshot hsnapshot
    · exact .inl hzero
    · obtain ⟨other', hother', hshown', hread'⟩ := exists_mem_set hflight
        (show ({ flight with fulfilled := some fulfilled } : Refresh).readAt =
          flight.readAt from rfl)
        id hother hshown
      exact .inr ⟨other', hother', hshown', hread'.trans hread⟩
  · intro other hother hshown
    obtain hother | rfl := List.mem_or_eq_of_mem_set hother
    · exact h.shown other hother hshown
    · exact h.shown flight hmem hshown
  · intro other hother htrue
    obtain hother | rfl := List.mem_or_eq_of_mem_set hother
    · exact h.fulfilled other hother htrue
    · exact hstored (Option.some.inj htrue)
  · intro process other hother
    simp only [RefreshWorld.settle, Option.mem_def] at hother ⊢
    rw [List.length_set]
    split at hother
    · cases hother
    · exact h.flights process other hother
  · intro run hrun other hphase
    exact Covers.set { flight with fulfilled := some fulfilled } hflight rfl rfl
      (h.waiting run hrun other hphase)

/-- The last version is the largest, and comes from the newest reads. -/
theorem RefreshWorld.Sound.head_newest (h : w.Sound) {last snapshot : Snapshot}
    (hlast : w.stored.head? = some last) (hsnapshot : snapshot ∈ w.stored) :
    snapshot.version ≤ last.version ∧ snapshot.readAt ≤ last.readAt := by
  have hordered := h.ordered
  obtain ⟨rest, hrest⟩ := List.head?_eq_some_iff.mp hlast
  rw [hrest] at hordered hsnapshot
  obtain rfl | hold := List.mem_cons.mp hsnapshot
  · exact ⟨Nat.le_refl _, Nat.le_refl _⟩
  · exact (List.rel_of_pairwise_cons hordered hold).imp_left Nat.le_of_lt

theorem RefreshWorld.Sound.version_lt (h : w.Sound) {snapshot : Snapshot}
    (hsnapshot : snapshot ∈ w.stored) : snapshot.version < w.nextVersion := by
  unfold RefreshWorld.nextVersion
  cases hstored : w.stored with
  | nil =>
    rw [hstored] at hsnapshot
    cases hsnapshot
  | cons last rest =>
    exact Nat.lt_succ_of_le (h.head_newest (by rw [hstored]; rfl) hsnapshot).1

/-- The snapshot of a refresh that is not overtaken is the newest. -/
theorem RefreshWorld.Sound.store (h : w.Sound) (hflight : w.refreshes[refresh]? = some flight)
    (htimely : ∀ other ∈ w.refreshes, other.stored = true → other.readAt ≤ flight.readAt) :
    ({ w with
      stored := ⟨w.nextVersion, flight.readAt⟩ :: w.stored
      refreshes := w.refreshes.set refresh { flight with stored := true } } :
        RefreshWorld).Sound := by
  have hlt : refresh < w.refreshes.length := (List.getElem?_eq_some_iff.mp hflight).1
  refine ⟨h.commits, ?_, ?_, ?_, ?_, ?_, h.received, ?_⟩
  · refine List.pairwise_cons.mpr
      ⟨fun snapshot hsnapshot => ⟨h.version_lt hsnapshot, ?_⟩, h.ordered⟩
    obtain hzero | ⟨other, hother, hshown, hread⟩ := h.origin snapshot hsnapshot
    · rw [hzero]
      exact Nat.zero_le _
    · rw [← hread]
      exact htimely other hother hshown
  · intro snapshot hsnapshot
    obtain rfl | hold := List.mem_cons.mp hsnapshot
    · exact .inr ⟨_, List.mem_of_getElem? (List.getElem?_set_self hlt), rfl, rfl⟩
    · obtain hzero | ⟨other, hother, hshown, hread⟩ := h.origin snapshot hold
      · exact .inl hzero
      · obtain ⟨other', hother', hshown', hread'⟩ := exists_mem_set hflight
          (show ({ flight with stored := true } : Refresh).readAt = flight.readAt from rfl)
          (fun _ => rfl) hother hshown
        exact .inr ⟨other', hother', hshown', hread'.trans hread⟩
  · intro other hother hshown
    obtain hother | rfl := List.mem_or_eq_of_mem_set hother
    · obtain ⟨snapshot, hsnapshot, hread⟩ := h.shown other hother hshown
      exact ⟨snapshot, List.mem_cons_of_mem _ hsnapshot, hread⟩
    · exact ⟨_, List.mem_cons_self, rfl⟩
  · intro other hother htrue
    obtain hother | rfl := List.mem_or_eq_of_mem_set hother
    · exact h.fulfilled other hother htrue
    · rfl
  · intro process other hother
    rw [List.length_set]
    exact h.flights process other hother
  · intro run hrun other hphase
    exact Covers.set { flight with stored := true } hflight rfl rfl
      (h.waiting run hrun other hphase)

/-- A batch commits after its refresh has stored a snapshot. -/
theorem RefreshWorld.Sound.commitOffsets (h : w.Sound) (hrun : w.batches[batch]? = some run)
    (hphase : run.phase = .waiting refresh)
    (hfulfilled : (w.refreshes[refresh]?).any (·.fulfilled = some true) = true) :
    ({ w.setPhase batch run .ended with
      commits := w.commits ++ [⟨run.received, w.stored.head?⟩] } : RefreshWorld).Sound := by
  have hended : (w.setPhase batch run .ended).Sound := h.setPhase hrun fun _ hnow => by cases hnow
  refine { hended with commits := fun commit hcommit => ?_ }
  obtain hcommit | hcommit := List.mem_append.mp hcommit
  · exact h.commits commit hcommit
  obtain rfl := List.mem_singleton.mp hcommit
  obtain ⟨flight, hflight, htimes⟩ := h.waiting run (List.mem_of_getElem? hrun) refresh hphase
  have htrue : flight.fulfilled = some true := by simpa [hflight] using hfulfilled
  have hmem := List.mem_of_getElem? hflight
  obtain ⟨snapshot, hsnapshot, hread⟩ := h.shown flight hmem (h.fulfilled flight hmem htrue)
  obtain ⟨last, hlast⟩ : ∃ last, w.stored.head? = some last := by
    cases hstored : w.stored with
    | nil =>
      rw [hstored] at hsnapshot
      cases hsnapshot
    | cons last rest => exact ⟨last, rfl⟩
  refine ⟨last, hlast, fun time htime => ?_⟩
  have hbefore := htimes time htime
  have hnewest := (h.head_newest hlast hsnapshot).2
  omega

/-! ## Runs -/

theorem sound_act {a : RefreshAction} (hact : w.act a = some w') (htimely : w.Timely a)
    (h : w.Sound) : w'.Sound := by
  cases a with
  | eachBatch process received stop =>
    simp only [RefreshWorld.act] at hact
    split at hact
    · rename_i hreceived
      cases hact
      cases stop with
      | true => exact h
      | false =>
        refine { h with
          received := fun run hrun => ?_
          waiting := fun run hrun refresh hphase => ?_ }
        · obtain hrun | hrun := List.mem_append.mp hrun
          · exact h.received run hrun
          · obtain rfl := List.mem_singleton.mp hrun
            exact hreceived
        · obtain hrun | hrun := List.mem_append.mp hrun
          · exact h.waiting run hrun refresh hphase
          · obtain rfl := List.mem_singleton.mp hrun
            cases hphase
    · cases hact
  | refresh process =>
    cases hact
    exact h.singleFlightRefresh process
  | fallback =>
    cases hact
    exact h.begin
  | refreshBatch batch =>
    simp only [RefreshWorld.act] at hact
    split at hact
    · rename_i run hrun
      split at hact
      · cases hact
        have hbatches : (w.singleFlightRefresh run.process).1.batches = w.batches := by
          unfold RefreshWorld.singleFlightRefresh
          split <;> rfl
        refine (h.singleFlightRefresh run.process).setPhase
          (hbatches ▸ hrun) fun refresh hwaiting => ?_
        cases hwaiting
        exact h.covers (h.received run (List.mem_of_getElem? hrun)) (htimely run hrun)
      · cases hact
    · cases hact
  | store refresh =>
    simp only [RefreshWorld.act] at hact
    split at hact
    · rename_i flight hflight
      split at hact <;> cases hact
      exact h.store hflight (htimely flight hflight)
    · cases hact
  | fulfil refresh =>
    simp only [RefreshWorld.act] at hact
    split at hact
    · rename_i flight hflight
      split at hact
      · rename_i hpossible
        cases hact
        exact h.settle hflight fun _ => hpossible.1
      · cases hact
    · cases hact
  | reject refresh =>
    simp only [RefreshWorld.act] at hact
    split at hact
    · rename_i flight hflight
      split at hact <;> cases hact
      exact h.settle hflight nofun
    · cases hact
  | commitOffsets batch =>
    simp only [RefreshWorld.act] at hact
    split at hact
    · rename_i run hrun
      split at hact
      · rename_i refresh hphase
        split at hact
        · rename_i hfulfilled
          split at hact <;> cases hact
          · exact h.setPhase hrun fun _ hnow => by cases hnow
          · exact h.commitOffsets hrun hphase hfulfilled
        · cases hact
      · cases hact
    · cases hact
  | fail batch =>
    simp only [RefreshWorld.act] at hact
    split at hact
    · rename_i run hrun
      cases hact
      exact h.setPhase hrun fun _ hnow => by cases hnow
    · cases hact

theorem sound_step {a : RefreshAction} (hstep : StepOf RefreshWorld.next w a w')
    (htimely : w.Timely a) (h : w.Sound) : w'.Sound := by
  obtain ⟨acted, hact, rfl⟩ := Option.map_eq_some_iff.mp hstep
  exact (sound_act hact htimely h).tick

theorem RefreshWorld.Sound.reflected (h : w.Sound) : w.Reflected where
  commits := h.commits
  versions := by
    intro older holder newer hnewer hlt
    obtain ⟨i, hi, rfl⟩ := List.mem_iff_getElem.mp holder
    obtain ⟨j, hj, rfl⟩ := List.mem_iff_getElem.mp hnewer
    have hpairs := List.pairwise_iff_getElem.mp h.ordered
    obtain hij | rfl | hji := Nat.lt_trichotomy i j
    · have hversions := (hpairs i j hi hj hij).1
      omega
    · exact Nat.le_refl _
    · exact (hpairs j i hj hi hji).2

/-- The table may hold a snapshot of an earlier time. -/
def RefreshWorld.start (version : Option Nat) : RefreshWorld where
  now := 1
  stored := (version.map fun version => ⟨version, 0⟩).toList

theorem sound_start (version : Option Nat) : (RefreshWorld.start version).Sound where
  commits := by simp [RefreshWorld.start]
  ordered := by cases version <;> simp [RefreshWorld.start]
  origin := by cases version <;> simp [RefreshWorld.start]
  shown := by simp [RefreshWorld.start]
  fulfilled := by simp [RefreshWorld.start]
  flights := by simp [RefreshWorld.start]
  received := by simp [RefreshWorld.start]
  waiting := by simp [RefreshWorld.start]

end

/-- A committed batch is reflected in the snapshot, as long as no batch joins a refresh that began
before its messages, and no refresh overtakes a later one. -/
theorem committed_reflected {version : Option Nat} {w : RefreshWorld} {as : List RefreshAction}
    (hrun : Run (Guarded RefreshWorld.Timely (StepOf RefreshWorld.next)) (.start version) as w) :
    w.Reflected := by
  have hsound : w.Sound :=
    hrun.preserves (fun _ _ _ hstep h => sound_step hstep.2 hstep.1 h) (sound_start version)
  exact hsound.reflected

namespace Sample

/-- The startup refresh, then a message, and a refresh for its batch. -/
def batch : List RefreshAction :=
  [.refresh 0, .store 0, .fulfil 0, .eachBatch 0 [2] false, .refreshBatch 0, .store 1, .fulfil 1,
    .commitOffsets 0]

/-- The message arrives while a scheduled refresh computes, and its batch joins this refresh. -/
def joined : List RefreshAction :=
  [.refresh 0, .eachBatch 0 [1] false, .refreshBatch 0, .store 0, .fulfil 0, .commitOffsets 0]

/-- A slow refresh of another process is stored after the one of the batch. -/
def overtaken : List RefreshAction :=
  [.fallback, .eachBatch 0 [1] false, .refreshBatch 0, .store 1, .fulfil 1, .store 0,
    .commitOffsets 0]

end Sample

instance (w : RefreshWorld) (a : RefreshAction) : Decidable (w.Timely a) := by
  unfold RefreshWorld.Timely
  split <;> infer_instance

theorem committed_reflected_sample :
    (Run.final RefreshWorld.next (.start none) Sample.batch).Reflected :=
  committed_reflected (Run.to_final_guarded (by decide))

/-- In both cases the commit leaves a snapshot that does not know the message. -/
theorem committed_unreflected :
    (Run (StepOf RefreshWorld.next) (.start none) Sample.joined
        (Run.final RefreshWorld.next (.start none) Sample.joined) ∧
      ¬ (Run.final RefreshWorld.next (.start none) Sample.joined).Reflected) ∧
    Run (StepOf RefreshWorld.next) (.start none) Sample.overtaken
        (Run.final RefreshWorld.next (.start none) Sample.overtaken) ∧
      ¬ (Run.final RefreshWorld.next (.start none) Sample.overtaken).Reflected := by
  refine ⟨⟨Run.to_final (by decide), fun h => ?_⟩, Run.to_final (by decide), fun h => ?_⟩
  · obtain ⟨snapshot, hsnapshot, htimes⟩ := h.commits ⟨[1], some ⟨1, 1⟩⟩ (by decide)
    cases hsnapshot
    exact absurd (htimes 1 (by decide)) (by decide)
  · exact absurd (h.versions ⟨1, 3⟩ (by decide) ⟨2, 1⟩ (by decide) (by decide)) (by decide)

end MiracleAuction.Dashboard
