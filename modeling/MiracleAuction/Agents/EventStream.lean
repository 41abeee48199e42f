import MiracleAuction.Base.Cursor
import MiracleAuction.Base.Decimal
import MiracleAuction.Base.Run

/-!
# The event stream of a run

One connection of `GET /:id/events/stream`. Every tick of its timer starts a read of the events
after the cursor, whether or not earlier reads have been answered; an answer is written at once and
moves the cursor.
-/
namespace MiracleAuction.Agents.EventStream
open Decimal (Text)

structure AgentEvent where
  sequence : Int
  eventType : String
  content : Text := []
deriving DecidableEq

/-- A read, with the cursor that it was started from; `rows` once the query has been executed. -/
structure Read where
  start : Int
  rows : Option (List AgentEvent) := none
deriving DecidableEq

/-- The interval is set when the first read has been answered. -/
inductive Timer
  | pending
  | ticking
  | cleared
deriving DecidableEq

/-- `events` are the visible rows of the run, `written` is what has been sent. `after` is none where
it is no finite number. -/
structure Stream where
  start : Int
  after : Option Int
  events : List AgentEvent := []
  reads : List Read
  timer : Timer := .pending
  opened : Bool := true
  written : List AgentEvent := []
deriving DecidableEq

/-- `Number.isFinite(after) ? after : 0`. -/
def finite (after : Option Int) : Int := after.getD 0

def Stream.cursor (s : Stream) : Int := finite s.after

/-- The request has arrived and its first read has been started. -/
def connect (after : Option Int) : Stream where
  start := finite after
  after := after
  reads := [{ start := finite after }]

def listEvents (events : List AgentEvent) (afterSequence : Int) : List AgentEvent :=
  (Cursor.later AgentEvent.sequence events afterSequence).take 500

/-- The loop of `writeEvents`; what is written to a response that has ended is not sent. -/
def writeEvents (s : Stream) (rows : List AgentEvent) : Stream :=
  rows.foldl
    (fun s event =>
      { s with
        after := some event.sequence
        written := if s.opened then s.written ++ [event] else s.written })
    s

inductive Action
  | insert (event : AgentEvent)
  | tick
  | execute (read : Nat)
  | answer (read : Nat)
  | fail (read : Nat)
  | close

def next (s : Stream) : Action → Option Stream
  | .insert event =>
    if ∀ e ∈ s.events, e.sequence < event.sequence then
      some { s with events := s.events ++ [event] }
    else none
  | .tick =>
    if s.timer = .ticking then some { s with reads := s.reads ++ [{ start := s.cursor }] } else none
  | .execute read => do
    let r ← s.reads[read]?
    if r.rows.isNone then
      some { s with
        reads := s.reads.set read { r with rows := some (listEvents s.events r.start) } }
    else none
  | .answer read => do
    let rows ← (← s.reads[read]?).rows
    let s := writeEvents { s with reads := s.reads.eraseIdx read } rows
    some { s with timer := if s.timer = .pending then .ticking else s.timer }
  | .fail read => do
    let _ ← s.reads[read]?
    some { s with reads := s.reads.eraseIdx read, timer := .cleared, opened := false }
  | .close =>
    some { s with timer := if s.timer = .ticking then .cleared else s.timer, opened := false }

/-- What the reader of the stream may rely on. -/
structure InOrder (s : Stream) : Prop where
  increasing : s.written.Pairwise fun e e' => e.sequence < e'.sequence
  later : ∀ e ∈ s.written, e ∈ s.events ∧ s.start < e.sequence
  complete : ∀ e ∈ s.events, s.start < e.sequence →
    (∃ e' ∈ s.written, e.sequence ≤ e'.sequence) → e ∈ s.written

/-- A read that answers with events was started from the cursor that the stream still has. -/
def FromCursor (s : Stream) : Action → Prop
  | .answer read => ∀ r rows, s.reads[read]? = some r → r.rows = some rows → rows ≠ [] →
    s.opened = true → r.start = s.cursor
  | _ => True

variable {s t : Stream} {a : Action} {as : List Action} {rows : List AgentEvent} {r : Read}
  {i : Nat}

/-- While the stream is open it has sent the events up to its cursor, and no read is ahead of it. -/
structure Tracks (s : Stream) : Prop where
  sorted : Cursor.Sorted AgentEvent.sequence s.events
  inOrder : InOrder s
  start_le : s.opened = true → s.start ≤ s.cursor
  sent : s.opened = true → s.written = Cursor.span AgentEvent.sequence s.events s.start s.cursor
  reached : s.opened = true → s.start < s.cursor → ∃ e ∈ s.events, e.sequence = s.cursor
  behind : s.opened = true → ∀ r ∈ s.reads, s.start ≤ r.start ∧ r.start ≤ s.cursor
  pages : ∀ r ∈ s.reads, ∀ rows, r.rows = some rows →
    rows <+: Cursor.later AgentEvent.sequence s.events r.start

/-- The effect of `writeEvents`. -/
theorem writeEvents_eq (s : Stream) (rows : List AgentEvent) :
    writeEvents s rows = { s with
      after := (rows.getLast?.map (·.sequence)).or s.after
      written := if s.opened then s.written ++ rows else s.written } := by
  induction rows generalizing s with
  | nil => simp [writeEvents]
  | cons e rows ih =>
    rw [writeEvents, List.foldl_cons, ← writeEvents, ih]
    cases hrows : rows with
    | nil => cases s.opened <;> simp
    | cons e' rest =>
      cases s.opened <;> simp [List.getLast?_cons]

theorem inOrder_of_span (hsorted : Cursor.Sorted AgentEvent.sequence s.events) {c : Int}
    (h : s.written = Cursor.span AgentEvent.sequence s.events s.start c) : InOrder s := by
  refine ⟨h ▸ Cursor.span_sorted hsorted, fun e he => ?_, fun e he hstart hle => ?_⟩
  · rw [h] at he
    obtain ⟨hmem, hstart, _⟩ := Cursor.mem_span.mp he
    exact ⟨hmem, hstart⟩
  · obtain ⟨e', he', hle⟩ := hle
    rw [h] at he' ⊢
    exact Cursor.mem_span.mpr ⟨he, hstart, hle.trans (Cursor.mem_span.mp he').2.2⟩

theorem connect_tracks (after : Option Int) : Tracks (connect after) := by
  have hspan : (connect after).written = Cursor.span AgentEvent.sequence (connect after).events
    (connect after).start (connect after).cursor := rfl
  refine ⟨List.Pairwise.nil, inOrder_of_span List.Pairwise.nil hspan, fun _ => le_rfl,
    fun _ => hspan, fun _ hlt => absurd hlt (lt_irrefl _), fun _ r hr => ?_,
      fun r hr rows hrows => ?_⟩
  · obtain rfl := List.mem_singleton.mp hr
    exact ⟨le_rfl, le_rfl⟩
  · obtain rfl := List.mem_singleton.mp hr
    cases hrows

theorem mem_of_eraseIdx (h : r ∈ s.reads.eraseIdx i) : r ∈ s.reads :=
  (List.eraseIdx_sublist s.reads i).subset h

/-- A new event is later than what has been sent. -/
theorem insert_tracks {event : AgentEvent}
    (hevent : ∀ e ∈ s.events, e.sequence < event.sequence)
    (hs : Tracks s) : Tracks { s with events := s.events ++ [event] } := by
  have hspan : s.opened = true →
      Cursor.span AgentEvent.sequence (s.events ++ [event]) s.start s.cursor =
        Cursor.span AgentEvent.sequence s.events s.start s.cursor := by
    intro hopened
    have hafter : ¬ (s.start < event.sequence ∧ event.sequence ≤ s.cursor) := by
      rintro ⟨hstart, hle⟩
      obtain ⟨e, he, hcursor⟩ := hs.reached hopened (hstart.trans_le hle)
      have := hevent e he
      omega
    simp [Cursor.span, hafter]
  refine ⟨?_, ⟨hs.inOrder.increasing, fun e he => ?_, fun e he hstart hle => ?_⟩, hs.start_le,
    fun hopened => ?_, fun hopened hlt => ?_, hs.behind, fun r hr rows hrows =>
      Cursor.prefix_later_append (hs.pages r hr rows hrows)⟩
  · exact List.pairwise_append.mpr ⟨hs.sorted, List.pairwise_singleton _ _, fun e he e' he' =>
      List.mem_singleton.mp he' ▸ hevent e he⟩
  · obtain ⟨hmem, hstart⟩ := hs.inOrder.later e he
    exact ⟨List.mem_append_left _ hmem, hstart⟩
  · obtain he | he := List.mem_append.mp he
    · exact hs.inOrder.complete e he hstart hle
    · obtain rfl := List.mem_singleton.mp he
      obtain ⟨e', he', hle⟩ := hle
      have := hevent e' (hs.inOrder.later e' he').1
      omega
  · exact (hs.sent hopened).trans (hspan hopened).symm
  · obtain ⟨e, he, hcursor⟩ := hs.reached hopened hlt
    exact ⟨e, List.mem_append_left _ he, hcursor⟩

/-- The stream ends, or other reads are under way. -/
theorem reads_tracks {reads : List Read} {timer : Timer} {opened : Bool}
    (hopened : opened = true → s.opened = true)
    (hbehind : opened = true → ∀ r ∈ reads, s.start ≤ r.start ∧ r.start ≤ s.cursor)
    (hpages : ∀ r ∈ reads, ∀ rows, r.rows = some rows →
      rows <+: Cursor.later AgentEvent.sequence s.events r.start)
    (hs : Tracks s) : Tracks { s with reads, timer, opened } :=
  ⟨hs.sorted, ⟨hs.inOrder.increasing, hs.inOrder.later, hs.inOrder.complete⟩,
    fun h => hs.start_le (hopened h), fun h => hs.sent (hopened h),
    fun h => hs.reached (hopened h), hbehind, hpages⟩

/-- What an answer does. -/
theorem answer_spec (h : next s (.answer i) = some t) : ∃ r rows timer, s.reads[i]? = some r ∧
    r.rows = some rows ∧ t = { s with
      reads := s.reads.eraseIdx i, timer
      after := (rows.getLast?.map (·.sequence)).or s.after
      written := if s.opened then s.written ++ rows else s.written } := by
  simp only [next, Option.bind_eq_bind, Option.bind_eq_some_iff, Option.some.injEq] at h
  obtain ⟨r, hr, rows, hrows, rfl⟩ := h
  exact ⟨r, rows, _, hr, hrows, by rw [writeEvents_eq]⟩

/-- An answer from the cursor that the stream still has goes on with the log. -/
theorem answer_tracks (h : next s (.answer i) = some t) (hok : FromCursor s (.answer i))
    (hs : Tracks s) : Tracks t := by
  obtain ⟨r, rows, timer, hr, hrows, rfl⟩ := answer_spec h
  have hmem := List.mem_of_getElem? hr
  have hpages : ∀ r ∈ s.reads.eraseIdx i, ∀ rows, r.rows = some rows →
      rows <+: Cursor.later AgentEvent.sequence s.events r.start :=
    fun r' hr' => hs.pages r' (mem_of_eraseIdx hr')
  cases hopened : s.opened with
  | false =>
    refine ⟨hs.sorted, ⟨hs.inOrder.increasing, hs.inOrder.later, hs.inOrder.complete⟩,
      ?_, ?_, ?_, ?_, hpages⟩
    all_goals exact fun h => by simp at h
  | true =>
    cases hlast : rows.getLast? with
    | none =>
      obtain rfl := List.getLast?_eq_none_iff.mp hlast
      have hbehind : ∀ r ∈ s.reads.eraseIdx i, s.start ≤ r.start ∧ r.start ≤ s.cursor :=
        fun r' hr' => hs.behind hopened r' (mem_of_eraseIdx hr')
      have htracks : Tracks { s with reads := s.reads.eraseIdx i, timer, opened := true } :=
        reads_tracks (fun _ => hopened) (fun _ => hbehind) hpages hs
      simpa using htracks
    | some e =>
      have hne : rows ≠ [] := by
        rintro rfl
        cases hlast
      have hcursor := hok r rows hr hrows hne hopened
      have hpage := hs.pages r hmem rows hrows
      obtain ⟨he, hlt⟩ := Cursor.mem_of_page hpage (List.mem_of_getLast? hlast)
      rw [hcursor] at hpage hlt
      have hle : s.cursor ≤ e.sequence := le_of_lt hlt
      have hrows := Cursor.prefix_eq_span hs.sorted hpage hlast
      have hwritten : s.written ++ rows =
          Cursor.span AgentEvent.sequence s.events s.start e.sequence := by
        rw [hs.sent hopened, hrows]
        exact Cursor.span_append hs.sorted (hs.start_le hopened) hle
      refine ⟨hs.sorted, inOrder_of_span hs.sorted hwritten,
        fun _ => (hs.start_le hopened).trans hle, fun _ => hwritten, fun _ _ => ⟨e, he, rfl⟩,
        fun _ r' hr' => ?_, hpages⟩
      obtain ⟨hstart, hbehind⟩ := hs.behind hopened r' (mem_of_eraseIdx hr')
      exact ⟨hstart, hbehind.trans hle⟩

/-- An answer from an earlier cursor sends an event again. -/
theorem answer_repeats (h : next s (.answer i) = some t) (hok : ¬ FromCursor s (.answer i))
    (hs : Tracks s) : ¬ InOrder t := by
  obtain ⟨r, rows, timer, hr, hrows, rfl⟩ := answer_spec h
  simp only [FromCursor, not_forall] at hok
  obtain ⟨r', rows', hr', hrows', hne, hopened, hcursor⟩ := hok
  obtain rfl := Option.some.inj (hr.symm.trans hr')
  obtain rfl := Option.some.inj (hrows.symm.trans hrows')
  obtain ⟨hstart, hbehind⟩ := hs.behind hopened r (List.mem_of_getElem? hr)
  have hlt : r.start < s.cursor := lt_of_le_of_ne hbehind hcursor
  obtain ⟨e, rest, rfl⟩ := List.exists_cons_of_ne_nil hne
  have hpage := hs.pages r (List.mem_of_getElem? hr) _ hrows
  obtain ⟨he, hafter⟩ := Cursor.mem_of_page hpage List.mem_cons_self
  obtain ⟨reached, hreached, hsequence⟩ := hs.reached hopened (hstart.trans_lt hlt)
  have hle : e.sequence ≤ s.cursor :=
    (Cursor.head_le hs.sorted hpage hreached (by omega)).trans_eq hsequence
  have hsent : e ∈ s.written := by
    rw [hs.sent hopened]
    exact Cursor.mem_span.mpr ⟨he, hstart.trans_lt hafter, hle⟩
  intro horder
  have hincreasing : (s.written ++ e :: rest).Pairwise fun e e' => e.sequence < e'.sequence := by
    simpa [hopened] using horder.increasing
  exact absurd ((List.pairwise_append.mp hincreasing).2.2 e hsent e List.mem_cons_self)
    (lt_irrefl _)

/-- Every other step keeps the log. -/
theorem next_tracks (h : next s a = some t) (hok : FromCursor s a) (hs : Tracks s) : Tracks t := by
  cases a with
  | insert event =>
    simp only [next, Option.ite_none_right_eq_some, Option.some.injEq] at h
    obtain ⟨hevent, rfl⟩ := h
    exact insert_tracks hevent hs
  | tick =>
    simp only [next, Option.ite_none_right_eq_some, Option.some.injEq] at h
    obtain ⟨_, rfl⟩ := h
    refine reads_tracks (fun h => h) (fun hopened r hr => ?_) (fun r hr rows hrows => ?_) hs
    · obtain hr | hr := List.mem_append.mp hr
      · exact hs.behind hopened r hr
      · obtain rfl := List.mem_singleton.mp hr
        exact ⟨hs.start_le hopened, le_rfl⟩
    · obtain hr | hr := List.mem_append.mp hr
      · exact hs.pages r hr rows hrows
      · obtain rfl := List.mem_singleton.mp hr
        cases hrows
  | execute read =>
    simp only [next, Option.bind_eq_bind, Option.bind_eq_some_iff, Option.ite_none_right_eq_some,
      Option.some.injEq] at h
    obtain ⟨r, hr, _, rfl⟩ := h
    have hmem := List.mem_of_getElem? hr
    refine reads_tracks (fun h => h) (fun hopened r' hr' => ?_) (fun r' hr' rows hrows => ?_) hs
    · obtain hr' | rfl := List.mem_or_eq_of_mem_set hr'
      · exact hs.behind hopened r' hr'
      · exact hs.behind hopened r hmem
    · obtain hr' | rfl := List.mem_or_eq_of_mem_set hr'
      · exact hs.pages r' hr' rows hrows
      · obtain rfl := Option.some.inj hrows
        exact List.take_prefix 500 _
  | answer read => exact answer_tracks h hok hs
  | fail read =>
    simp only [next, Option.bind_eq_bind, Option.bind_eq_some_iff, Option.some.injEq] at h
    obtain ⟨r, _, rfl⟩ := h
    exact reads_tracks (fun h => by cases h) (fun h => by cases h)
      (fun r' hr' => hs.pages r' (mem_of_eraseIdx hr')) hs
  | close =>
    simp only [next, Option.some.injEq] at h
    subst h
    exact reads_tracks (fun h => by cases h) (fun h => by cases h) hs.pages hs

theorem inOrder_next_iff (h : next s a = some t) (hs : Tracks s) :
    InOrder t ↔ FromCursor s a := by
  refine ⟨fun horder => ?_, fun hok => (next_tracks h hok hs).inOrder⟩
  by_contra hok
  cases a with
  | answer read => exact answer_repeats h hok hs horder
  | _ => exact hok trivial

/-- The stream stays in order exactly if every answer with events is to a read that was started from
the cursor which the stream still has. -/
theorem stream_in_order_iff {after : Option Int} (h : Run (StepOf next) (connect after) as s) :
    Run.Always next InOrder (connect after) as ↔
      Run (Guarded FromCursor (StepOf next)) (connect after) as s :=
  Run.always_iff_guarded (fun _ hs => hs.inOrder) (fun _ _ _ hstep hs => inOrder_next_iff hstep hs)
    (fun _ _ _ hstep hs hok => next_tracks hstep hok hs) h (connect_tracks after)

namespace Sample

def event (sequence : Int) : AgentEvent := { sequence, eventType := "output" }

/-- One read at a time. -/
def inTurn : List Action :=
  [.execute 0, .answer 0, .insert (event 1), .tick, .execute 0, .answer 0, .insert (event 2), .tick,
    .execute 0, .answer 0]

/-- The second tick comes before the first read is answered. -/
def overlapping : List Action :=
  [.execute 0, .answer 0, .insert (event 1), .tick, .tick, .execute 0, .execute 1, .answer 0,
    .answer 0]

end Sample

theorem stream_in_order_in_turn :
    Run.Always next InOrder (connect none) Sample.inTurn ↔
      Run (Guarded FromCursor (StepOf next)) (connect none) Sample.inTurn
        (Run.final next (connect none) Sample.inTurn) :=
  stream_in_order_iff (Run.to_final (by decide))

/-- Two reads that overlap send one event twice. -/
theorem event_sent_twice : ∃ s, Run (StepOf next) (connect none) Sample.overlapping s ∧
    s.written = [Sample.event 1, Sample.event 1] ∧ ¬ InOrder s := by
  refine ⟨Run.final next (connect none) Sample.overlapping, Run.to_final (by decide), by decide,
    fun h => ?_⟩
  have hwritten : (Run.final next (connect none) Sample.overlapping).written =
      [Sample.event 1, Sample.event 1] := by decide
  have hincreasing := h.increasing
  rw [hwritten] at hincreasing
  exact absurd hincreasing (by decide)

end MiracleAuction.Agents.EventStream
