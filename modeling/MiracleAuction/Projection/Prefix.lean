import MiracleAuction.Projection.Delivery

/-!
# What the deliveries of an auction have committed

However its events are delivered, the rows of an auction are those of the first so many of them.
-/
namespace MiracleAuction

/-! ## What one operation does to the tables -/

/-- The entries that an acknowledgement returns to. -/
def AckContext.entries : AckContext → List RedisStreamEntry
  | .lane entries rest => entries ++ rest
  | .entry rest | .deadLetter rest => rest

namespace Phase

/-- The entries that a lane still works on. -/
def entries : Phase → List RedisStreamEntry
  | .projectLane lane _ => lane
  | .projectEntry entry rest _ => entry :: rest
  | .finalize context entry | .acknowledge context entry _ => entry :: context.entries
  | .recordFailure entry _ rest | .deadLetter entry _ _ rest => entry :: rest

/-- What its transaction has read. -/
def reads : Phase → List Tables
  | .projectLane _ reads | .projectEntry _ _ reads => reads
  | _ => []

/-- What follows works on no other entries, and has read the present tables at most. -/
def Narrows (entries : List RedisStreamEntry) (reads : List Tables) (T : Tables)
    (next : Option Phase) : Prop :=
  ∀ phase ∈ next, (∀ entry ∈ phase.entries, entry ∈ entries) ∧
    ∀ T' ∈ phase.reads, T' ∈ reads ∨ T' = T

end Phase

namespace Delivery

/-- What an operation may do: it commits events of its entries, or leaves the tables alone. -/
structure Operated (s : Delivery) (phase : Phase) (result : Delivery × Option Phase) : Prop where
  stream : result.1.stream = s.stream
  next : Phase.Narrows phase.entries phase.reads s.tables result.2
  tables : result.1.tables = s.tables ∨ ∃ productId fresh,
    AppliedAll productId fresh s.tables result.1.tables ∧
      ∀ item ∈ fresh, item.entry ∈ phase.entries

section
variable {s s' : Delivery} {entry : RedisStreamEntry} {rest lane entries : List RedisStreamEntry}
  {context : AckContext} {phase : Phase} {next : Option Phase} {reads : List Tables} {T : Tables}
  {response : Response} {maxAttempts : Nat}

theorem narrows_none : Phase.Narrows entries reads T none := by
  intro phase hphase
  cases hphase

theorem narrows_some (hentries : ∀ e ∈ phase.entries, e ∈ entries)
    (hreads : ∀ T' ∈ phase.reads, T' ∈ reads ∨ T' = T) :
    Phase.Narrows entries reads T (some phase) := by
  intro next hnext
  cases hnext
  exact ⟨hentries, hreads⟩

theorem narrows_nextEntry (h : ∀ e ∈ rest, e ∈ entries) :
    Phase.Narrows entries reads T (nextEntry rest) := by
  cases rest with
  | nil => exact narrows_none
  | cons entry rest => exact narrows_some h (by simp [Phase.reads])

theorem narrows_nextFinal (hlane : ∀ e ∈ lane, e ∈ entries)
    (h : ∀ e ∈ rest, e ∈ entries) :
    Phase.Narrows entries reads T (nextFinal lane rest) := by
  cases rest with
  | nil => exact narrows_none
  | cons entry rest =>
    refine narrows_some (fun e he => ?_) (by simp [Phase.reads])
    simp only [Phase.entries, AckContext.entries, List.mem_cons, List.mem_append] at he
    rcases he with rfl | he | he
    · exact h _ List.mem_cons_self
    · exact hlane e he
    · exact h e (List.mem_cons_of_mem _ he)

theorem narrows_next (h : ∀ e ∈ context.entries, e ∈ entries) :
    Phase.Narrows entries reads T context.next := by
  cases context with
  | lane lane rest =>
    exact narrows_nextFinal (fun e he => h e (List.mem_append_left _ he))
      fun e he => h e (List.mem_append_right _ he)
  | entry rest => exact narrows_nextEntry h
  | deadLetter rest => exact narrows_nextEntry h

theorem narrows_caught {error : Failure} (h : ∀ e ∈ entry :: context.entries, e ∈ entries) :
    Phase.Narrows entries reads T (context.caught entry error) := by
  cases context with
  | lane lane rest =>
    exact narrows_nextEntry fun e he => h e (List.mem_cons_of_mem _ (List.mem_append_left _ he))
  | entry rest => exact narrows_some h (by simp [Phase.reads])
  | deadLetter rest => exact narrows_none

/-- An operation that leaves the tables alone. -/
theorem operated_of_tables (hstream : s'.stream = s.stream) (htables : s'.tables = s.tables)
    (hnext : Phase.Narrows phase.entries phase.reads s.tables next) :
    Operated s phase (s', next) :=
  ⟨hstream, hnext, .inl htables⟩

/-- One that may commit. -/
theorem operated_of_commit {productId : Nat} {fresh : List ParsedLaneEntry} (effective : Bool)
    (happlied : AppliedAll productId fresh s.tables T)
    (hfresh : ∀ item ∈ fresh, item.entry ∈ phase.entries)
    (hnext : Phase.Narrows phase.entries phase.reads s.tables next) :
    Operated s phase (s.when effective { s with tables := T }, next) := by
  cases effective with
  | false => exact ⟨rfl, hnext, .inl rfl⟩
  | true => exact ⟨rfl, hnext, .inr ⟨productId, fresh, happlied, hfresh⟩⟩

theorem when_keeps {α : Type} {effective : Bool} {f : Delivery → α} (h : f s' = f s) :
    f (s.when effective s') = f s := by
  cases effective with
  | false => rfl
  | true => exact h

theorem operated_commitLane {duplicates owners product : Tables} (hlater : Later product s.tables) :
    Operated s (.projectLane lane [duplicates, owners, product])
      (s.commitLane lane ⟨duplicates, owners, product⟩ response) := by
  unfold commitLane
  have hfallback : Operated s (.projectLane lane [duplicates, owners, product])
      (s, nextEntry lane) := operated_of_tables rfl rfl (narrows_nextEntry fun _ => id)
  cases hresult : projectAuctionLaneAt ⟨duplicates, owners, product⟩ lane s.tables with
  | error error => exact hfallback
  | ok result =>
    obtain ⟨outcomes, T⟩ := result
    obtain ⟨productId, items, fresh, hentries, -, happlied, hfresh, -⟩ :=
      projectAuctionLaneAt_ok hlater hresult
    have hmem : ∀ item ∈ fresh, item.entry ∈ lane := by
      intro item hitem
      rw [← hentries]
      exact List.mem_map_of_mem (hfresh item hitem)
    cases response with
    | completes =>
      exact operated_of_commit true happlied hmem
        (narrows_nextFinal (fun _ => id) fun _ => id)
    | fails effective =>
      exact operated_of_commit effective happlied hmem (narrows_nextEntry fun _ => id)

theorem operated_commitEntry {duplicates owners product : Tables}
    (hlater : Later product s.tables) :
    Operated s (.projectEntry entry rest [duplicates, owners, product])
      (s.commitEntry entry rest ⟨duplicates, owners, product⟩ response) := by
  unfold commitEntry
  cases hresult : projectAuctionEntryAt ⟨duplicates, owners, product⟩ entry s.tables with
  | error error =>
    exact operated_of_tables rfl rfl (narrows_some (fun _ => id) (by simp [Phase.reads]))
  | ok result =>
    obtain ⟨outcome, T⟩ := result
    obtain ⟨event, fresh, -, happlied, hfresh, -⟩ := projectAuctionEntryAt_ok hlater hresult
    have hmem : ∀ item ∈ fresh, item.entry ∈ entry :: rest := by
      intro item hitem
      rw [hfresh item hitem]
      exact List.mem_cons_self
    cases response with
    | completes =>
      exact operated_of_commit true happlied hmem
        (narrows_some (fun _ => id) (by simp [Phase.reads]))
    | fails effective =>
      exact operated_of_commit effective happlied hmem
        (narrows_some (fun _ => id) (by simp [Phase.reads]))

theorem acknowledge_tables {command : AckCommand} :
    (s.acknowledge context entry command).1.tables = s.tables := by
  cases command with
  | xack =>
    dsimp only [acknowledge]
    split
    · rfl
    · rfl
  | xdel => rfl
  | hdel => rfl

theorem operated_acknowledge {command : AckCommand} :
    Operated s (.acknowledge context entry command) (s.acknowledge context entry command) := by
  cases command with
  | xack =>
    dsimp only [acknowledge]
    split
    · exact operated_of_tables rfl rfl (narrows_some (fun _ => id) (by simp [Phase.reads]))
    · exact operated_of_tables rfl rfl (narrows_some (fun _ => id) (by simp [Phase.reads]))
  | xdel => exact operated_of_tables rfl rfl (narrows_some (fun _ => id) (by simp [Phase.reads]))
  | hdel =>
    exact operated_of_tables rfl rfl (narrows_next fun e he => List.mem_cons_of_mem _ he)

theorem operate_operated (hreads : ∀ T ∈ phase.reads, Later T s.tables) :
    Operated s phase (s.operate maxAttempts response phase) := by
  unfold operate
  split
  · exact operated_commitLane (hreads _ (by simp [Phase.reads]))
  · rename_i lane reads _
    cases response with
    | fails effective => exact operated_of_tables rfl rfl (narrows_nextEntry fun _ => id)
    | completes =>
      exact operated_of_tables rfl rfl (narrows_some (fun _ => id) (by simp [Phase.reads]))
  · exact operated_commitEntry (hreads _ (by simp [Phase.reads]))
  · rename_i entry rest reads _
    cases response with
    | fails effective =>
      exact operated_of_tables rfl rfl (narrows_some (fun _ => id) (by simp [Phase.reads]))
    | completes =>
      exact operated_of_tables rfl rfl (narrows_some (fun _ => id) (by simp [Phase.reads]))
  · rename_i context entry
    have hacknowledge : Operated s (.finalize context entry)
        (s, some (.acknowledge context entry .xack)) :=
      operated_of_tables rfl rfl (narrows_some (fun _ => id) (by simp [Phase.reads]))
    unfold finalize
    split
    · exact operated_of_tables rfl rfl (narrows_caught fun _ => id)
    · exact hacknowledge
    · split
      · exact operated_of_tables rfl rfl (narrows_caught fun _ => id)
      · exact hacknowledge
  · rename_i context entry command
    have h : Operated s (.acknowledge context entry command)
        (s.acknowledge context entry command) :=
      operated_acknowledge
    cases response with
    | completes => exact h
    | fails effective =>
      exact operated_of_tables (when_keeps h.stream) (when_keeps acknowledge_tables)
        (narrows_caught fun _ => id)
  · rename_i entry error rest
    unfold recordFailure
    cases response with
    | fails effective =>
      exact operated_of_tables (when_keeps rfl) (when_keeps rfl) narrows_none
    | completes =>
      dsimp only
      split
      · exact operated_of_tables rfl rfl (narrows_nextEntry fun e he => List.mem_cons_of_mem _ he)
      · exact operated_of_tables rfl rfl (narrows_some (fun _ => id) (by simp [Phase.reads]))
  · rename_i entry error attempts rest
    cases response with
    | fails effective =>
      exact operated_of_tables (when_keeps rfl) (when_keeps rfl) narrows_none
    | completes =>
      exact operated_of_tables rfl rfl (narrows_some (fun _ => id) (by simp [Phase.reads]))

/-- The lanes work on entries of the stream, and have read tables of the past. -/
structure Fed (s : Delivery) : Prop where
  entries : ∀ task ∈ s.tasks, ∀ entry ∈ task.2.entries, entry ∈ s.stream
  reads : ∀ task ∈ s.tasks, ∀ T ∈ task.2.reads, Later T s.tables

/-- What one step does to the tables. -/
def Commits (s s' : Delivery) : Prop :=
  s'.tables = s.tables ∨ ∃ productId fresh, AppliedAll productId fresh s.tables s'.tables ∧
    ∀ item ∈ fresh, item.entry ∈ s.stream

/-- What one step does to the stream. -/
def Streams (s : Delivery) (x : DeliveryAction) (s' : Delivery) : Prop :=
  s'.stream = s.stream ∨ ∃ entry, x = .append entry ∧ s'.stream = s.stream ++ [entry]

theorem Commits.later (h : Commits s s') : Later s.tables s'.tables := by
  rcases h with hsame | ⟨productId, fresh, happlied, -⟩
  · rw [hsame]
    exact .refl _
  · exact happlied.later

theorem fed_step {x : DeliveryAction} (hs : s.Fed) (h : DeliveryStep maxAttempts s x s') :
    s'.Fed ∧ Commits s s' ∧ Streams s x s' := by
  unfold DeliveryStep Delivery.next at h
  cases x with
  | append entry =>
    dsimp only at h
    split at h
    · cases h
      exact ⟨⟨fun task htask e he => List.mem_append_left _ (hs.entries task htask e he),
        hs.reads⟩, .inl rfl, .inr ⟨entry, rfl, rfl⟩⟩
    · cases h
  | batch consumer shards idle count =>
    cases h
    have hlanes : ∀ task ∈ (s.startBatch consumer shards idle count).tasks, task ∈ s.tasks ∨
        (∀ e ∈ task.2.entries, e ∈ s.stream) ∧ task.2.reads = [] := by
      intro task htask
      rcases List.mem_append.mp htask with hold | hnew
      · exact .inl hold
      · obtain ⟨lane, hlane, rfl⟩ := List.mem_map.mp hnew
        obtain ⟨key, -, rfl⟩ := List.mem_map.mp hlane
        refine .inr ⟨fun e he => ?_, rfl⟩
        rcases List.mem_append.mp (List.mem_filter.mp he).1 with hclaimed | hfresh
        · obtain ⟨shard, -, he⟩ := List.mem_flatMap.mp hclaimed
          exact (List.mem_filter.mp (List.mem_of_mem_take he)).1
        · obtain ⟨shard, -, he⟩ := List.mem_flatMap.mp (List.mem_filter.mp hfresh).1
          exact (List.mem_filter.mp (List.mem_of_mem_take he)).1
    refine ⟨⟨fun task htask e he => ?_, fun task htask T hT => ?_⟩, .inl rfl, .inl rfl⟩
    · rcases hlanes task htask with hold | ⟨hentries, -⟩
      · exact hs.entries task hold e he
      · exact hentries e he
    · rcases hlanes task htask with hold | ⟨-, hnone⟩
      · exact hs.reads task hold T hT
      · simp [hnone] at hT
  | crash consumer =>
    cases h
    exact ⟨⟨fun task htask => hs.entries task (List.mem_filter.mp htask).1,
      fun task htask => hs.reads task (List.mem_filter.mp htask).1⟩, .inl rfl, .inl rfl⟩
  | advance index response =>
    dsimp only at h
    split at h
    · cases h
    rename_i consumer phase htask
    have hmem : (consumer, phase) ∈ s.tasks := List.mem_of_getElem? htask
    have hop : Operated s phase (s.operate maxAttempts response phase) :=
      operate_operated (hs.reads _ hmem)
    generalize s.operate maxAttempts response phase = result at h hop
    obtain ⟨s₁, next⟩ := result
    have hcommits : Commits s s₁ := by
      rcases hop.tables with hsame | ⟨productId, fresh, happlied, hfresh⟩
      · exact .inl hsame
      · exact .inr ⟨productId, fresh, happlied,
          fun item hitem => hs.entries _ hmem _ (hfresh item hitem)⟩
    have htasks : ∀ task ∈ s'.tasks, task ∈ s.tasks ∨ some task.2 = next := by
      cases h
      intro task htask
      cases next with
      | none => exact .inl (List.mem_of_mem_eraseIdx htask)
      | some next =>
        rcases List.mem_or_eq_of_mem_set htask with hold | rfl
        · exact .inl hold
        · exact .inr rfl
    cases h
    refine ⟨⟨fun task htask e he => ?_, fun task htask T hT => ?_⟩, hcommits,
      .inl hop.stream⟩
    · rw [show s₁.stream = s.stream from hop.stream]
      rcases htasks task htask with hold | rfl
      · exact hs.entries task hold e he
      · exact hs.entries _ hmem e ((hop.next _ rfl).1 e he)
    · refine Later.trans ?_ hcommits.later
      rcases htasks task htask with hold | rfl
      · exact hs.reads task hold T hT
      · rcases (hop.next _ rfl).2 T hT with hread | rfl
        · exact hs.reads _ hmem T hread
        · exact .refl _

end

end Delivery

/-! ## The rows of an auction -/

/-- The bids of a list of events, each with the events after it. -/
def bids : List AuctionStreamEvent → List (AuctionStreamEvent × List AuctionStreamEvent)
  | [] => []
  | event :: later =>
    if event.type = .bidAccepted then (event, later) :: bids later else bids later

/-- The history row of a bid is marked if its bidder is banned later. -/
def BidRow (p : Nat) (bid : AuctionStreamEvent × List AuctionStreamEvent)
    (row : HistoryRow) : Prop :=
  ∃ (maximum : Bigint) (banned : Bool), bid.1.requestedMaxPriceVnd = some maximum.val ∧
    row = { Projector.historyRow bid.1 maximum with banned := banned } ∧
    (banned = true ↔ ∃ event ∈ bid.2, event.Bans p bid.1.actorId)

/-- The receipt of an event names an entry with this event. -/
def ReceiptOf (event : AuctionStreamEvent) (row : ReceiptRow) : Prop :=
  ∃ entry, parseEvent entry.payload = .ok event ∧ row = Projector.receiptRow event entry

/-- The product's row in `T` is the snapshot of the last event. -/
def ShowsLast (p : Nat) (T₀ : Tables) (events : List AuctionStreamEvent) (T : Tables) : Prop :=
  match events.getLast? with
  | none => T.products p = T₀.products p
  | some event => ∃ product date, T₀.products p = some product ∧
      Tables.toDate event.endAtMs = .ok date ∧ T.products p = some (snapshot event date product)

/-- The rows of auction `p` are those of `events`, and no others. -/
structure Projected (p : Nat) (T₀ : Tables) (events : List AuctionStreamEvent) (T : Tables) :
    Prop where
  transitions : T.transitions.filter (·.productId = p) = events.map Projector.transitionRow
  receipts : List.Forall₂ ReceiptOf events (T.receipts.filter (·.productId = p))
  outbox : T.outbox.filter (·.aggregateId = p) = events.map Projector.outboxRow
  history : List.Forall₂ (BidRow p) (bids events) (T.history.filter (·.productId = p))
  bansOnce : ((T.bans.filter (·.productId = p)).map (·.userId)).Nodup
  bans : ∀ u, T.Banned p u ↔ ∃ event ∈ events, event.Bans p u
  orders : T.orders.filter (·.productId = p) =
    T₀.orders.filter (·.productId = p) ++ events.flatMap Projector.orderRows
  product : ShowsLast p T₀ events T

/-- Nothing of the auction is projected yet. -/
structure Unprojected (p : Nat) (T : Tables) : Prop where
  transitions : ∀ row ∈ T.transitions, row.productId ≠ p
  receipts : ∀ row ∈ T.receipts, row.productId ≠ p
  outbox : ∀ row ∈ T.outbox, row.aggregateId ≠ p
  history : ∀ row ∈ T.history, row.productId ≠ p
  bans : ∀ row ∈ T.bans, row.productId ≠ p
  product : ∀ product, T.products p = some product → product.auctionSequence = 0

section
variable {p productId : Nat} {T₀ T T' : Tables} {events done : List AuctionStreamEvent}
  {event : AuctionStreamEvent} {fresh : List ParsedLaneEntry}
  {before after : List HistoryRow}

theorem filter_none {ρ : Type} {key : ρ → Nat} {rows : List ρ}
    (h : ∀ row ∈ rows, key row ≠ p) :
    rows.filter (key · = p) = [] :=
  List.filter_eq_nil_iff.mpr fun row hrow => by simpa using h row hrow

/-- New rows of the auction are added to its rows. -/
theorem filter_own {ρ : Type} {key : ρ → Nat} {rows new : List ρ}
    (h : ∀ row ∈ new, key row = p) :
    (rows ++ new).filter (key · = p) = rows.filter (key · = p) ++ new := by
  have hall : new.filter (key · = p) = new :=
    List.filter_eq_self.mpr fun row hrow => by simpa using h row hrow
  rw [List.filter_append, hall]

/-- New rows of other auctions leave its rows alone. -/
theorem filter_other {ρ : Type} {key : ρ → Nat} {rows new : List ρ}
    (h : ∀ row ∈ new, key row ≠ p) :
    (rows ++ new).filter (key · = p) = rows.filter (key · = p) := by
  rw [List.filter_append, filter_none h, List.append_nil]

theorem projected_start (h : Unprojected p T₀) : Projected p T₀ [] T₀ where
  transitions := filter_none h.transitions
  receipts := by
    rw [filter_none h.receipts]
    exact .nil
  outbox := filter_none h.outbox
  history := by
    rw [filter_none h.history]
    exact .nil
  bansOnce := by simp [filter_none h.bans]
  bans := by
    intro u
    constructor
    · rintro ⟨ban, hban, hp, -⟩
      exact absurd hp (h.bans ban hban)
    · rintro ⟨event, hevent, -⟩
      cases hevent
  orders := by simp
  product := rfl

theorem bids_snoc (done : List AuctionStreamEvent) (event : AuctionStreamEvent) :
    bids (done ++ [event]) = (bids done).map (fun bid => (bid.1, bid.2 ++ [event])) ++
      if event.type = .bidAccepted then [(event, [])] else [] := by
  induction done with
  | nil => simp [bids]
  | cons first done ih =>
    simp only [List.cons_append, bids, ih]
    split
    · simp
    · rfl

/-- A later event that bans no bidder of `p` leaves the mark of a row alone. -/
theorem BidRow.keeps {bid : AuctionStreamEvent × List AuctionStreamEvent} {row : HistoryRow}
    (h : BidRow p bid row) (hban : ∀ u, ¬ event.Bans p u) :
    BidRow p (bid.1, bid.2 ++ [event]) row := by
  obtain ⟨maximum, banned, hmaximum, hrow, hbanned⟩ := h
  refine ⟨maximum, banned, hmaximum, hrow, hbanned.trans ?_⟩
  simp [hban]

/-- A later ban marks the rows of its target. -/
theorem BidRow.marks {bid : AuctionStreamEvent × List AuctionStreamEvent} {row : HistoryRow}
    {target : Nat} (h : BidRow p bid row) (hban : ∀ u, event.Bans p u ↔ u = target) :
    BidRow p (bid.1, bid.2 ++ [event])
      (if row.userId = target then { row with banned := true } else row) := by
  obtain ⟨maximum, banned, hmaximum, rfl, hbanned⟩ := h
  have hlater : (∃ later ∈ bid.2 ++ [event], later.Bans p bid.1.actorId) ↔
      banned = true ∨ bid.1.actorId = target := by
    rw [hbanned]
    simp [or_and_right, exists_or, hban]
  by_cases huser : bid.1.actorId = target
  · exact ⟨maximum, true, hmaximum, by simp [Projector.historyRow, huser],
      iff_of_true rfl (hlater.mpr (.inr huser))⟩
  · exact ⟨maximum, banned, hmaximum, by simp [Projector.historyRow, huser],
      (or_iff_left huser).symm.trans hlater.symm⟩

theorem filter_markRows {target : Nat} (rows : List HistoryRow) :
    (Tables.markRows productId target rows).filter (·.productId = p) =
      (rows.filter (·.productId = p)).map fun row =>
        if productId = p ∧ row.userId = target then { row with banned := true } else row := by
  have hkeeps : ∀ row : HistoryRow, (if row.productId = productId ∧ row.userId = target
      then { row with banned := true } else row).productId = row.productId := by
    intro row
    split <;> rfl
  unfold Tables.markRows
  rw [List.filter_map]
  simp only [Function.comp_def, hkeeps]
  refine List.map_congr_left fun row hrow => ?_
  have hp := of_decide_eq_true (List.mem_filter.mp hrow).2
  simp [hp, eq_comm]

/-- An event of the auction extends its history. -/
theorem history_snoc (h : HistoryWrites event before after) (hproduct : event.productId = p)
    (hs : List.Forall₂ (BidRow p) (bids done) (before.filter (·.productId = p))) :
    List.Forall₂ (BidRow p) (bids (done ++ [event])) (after.filter (·.productId = p)) := by
  rw [bids_snoc]
  cases h with
  | @bid maximum htype hmaximum =>
    have hnot : ∀ u, ¬ event.Bans p u := fun u hbans => absurd hbans.1 (by simp [htype])
    have hown : ∀ row ∈ [Projector.historyRow event maximum], row.productId = p := by
      simpa [Projector.historyRow] using hproduct
    rw [if_pos htype, filter_own hown]
    refine List.rel_append (List.forall₂_map_left_iff.mpr (hs.imp fun _ _ h => h.keeps hnot)) ?_
    exact .cons ⟨maximum, false, hmaximum, rfl, by simp⟩ .nil
  | @ban target htype htarget =>
    have hban : ∀ u, event.Bans p u ↔ u = target := by
      intro u
      simp [AuctionStreamEvent.Bans, htype, hproduct, htarget, eq_comm]
    have hmarked : (fun row : HistoryRow => if event.productId = p ∧ row.userId = target then
        { row with banned := true } else row) = fun row => if row.userId = target then
        { row with banned := true } else row := by simp [hproduct]
    rw [if_neg (by simp [htype]), List.append_nil, filter_markRows, hmarked]
    refine List.forall₂_map_left_iff.mpr (List.forall₂_map_right_iff.mpr ?_)
    exact hs.imp fun _ _ h => h.marks hban
  | keeps hbid hban =>
    rw [if_neg hbid, List.append_nil]
    exact List.forall₂_map_left_iff.mpr (hs.imp fun _ _ h => h.keeps (hban p))

theorem history_append (h : HistoryAfter events before after)
    (hproduct : ∀ event ∈ events, event.productId = p)
    (hs : List.Forall₂ (BidRow p) (bids done) (before.filter (·.productId = p))) :
    List.Forall₂ (BidRow p) (bids (done ++ events)) (after.filter (·.productId = p)) := by
  induction h generalizing done with
  | nil => simpa using hs
  | @cons event events _ _ _ hwrites _ ih =>
    have hfirst := history_snoc hwrites (hproduct event List.mem_cons_self) hs
    rw [List.append_cons]
    exact ih (fun e he => hproduct e (List.mem_cons_of_mem _ he)) hfirst

/-- Events of another auction leave it alone. -/
theorem history_other (h : HistoryAfter events before after)
    (hproduct : ∀ event ∈ events, event.productId ≠ p) :
    after.filter (·.productId = p) = before.filter (·.productId = p) := by
  induction h with
  | nil => rfl
  | @cons event events before between after hwrites _ ih =>
    rw [ih fun e he => hproduct e (List.mem_cons_of_mem _ he)]
    have hother := hproduct event List.mem_cons_self
    cases hwrites with
    | @bid maximum htype hmaximum =>
      have hnone : ∀ row ∈ [Projector.historyRow event maximum], row.productId ≠ p := by
        simpa [Projector.historyRow] using hother
      exact filter_other hnone
    | ban htype htarget => simp [filter_markRows, hother]
    | keeps => rfl

/-- A ban is inserted once. -/
theorem insertBans_once {bans rows : List BanRow}
    (h : ((bans.filter (·.productId = p)).map (·.userId)).Nodup) :
    (((Tables.insertBans bans rows).filter (·.productId = p)).map (·.userId)).Nodup := by
  unfold Tables.insertBans
  induction rows generalizing bans with
  | nil => exact h
  | cons row rows ih =>
    rw [List.foldl_cons]
    apply ih
    split
    · exact h
    · rename_i hnew
      by_cases hp : row.productId = p
      · have hone : ∀ r ∈ [row], r.productId = p := by simpa using hp
        rw [filter_own hone, List.map_append]
        refine List.nodup_append.mpr ⟨h, List.nodup_singleton _, ?_⟩
        rintro u hold _ hmem rfl
        obtain ⟨ban, hban, hu⟩ := List.mem_map.mp hold
        obtain ⟨hban, hbp⟩ := List.mem_filter.mp hban
        refine hnew (List.any_eq_true.mpr ⟨ban, hban, decide_eq_true ⟨?_, ?_⟩⟩)
        · exact (of_decide_eq_true hbp).trans hp.symm
        · exact hu.trans (List.mem_singleton.mp hmem)
      · have hone : ∀ r ∈ [row], r.productId ≠ p := by simpa using hp
        rw [filter_other hone]
        exact h

/-- The number of the last event that the product's row shows. -/
theorem ShowsLast.sequence {product : ProductRow} (h : ShowsLast p T₀ done T)
    (hnumbered : done.map (·.sequence) = List.range' 1 done.length)
    (hstart : ∀ product, T₀.products p = some product → product.auctionSequence = 0)
    (hproduct : T.products p = some product) : product.auctionSequence = done.length := by
  unfold ShowsLast at h
  cases hlast : done.getLast? with
  | none =>
    rw [List.getLast?_eq_none_iff.mp hlast] at h ⊢
    exact hstart product (h.symm.trans hproduct)
  | some event =>
    simp only [hlast] at h
    obtain ⟨old, date, -, -, hrow⟩ := h
    obtain ⟨init, rfl⟩ := List.getLast?_eq_some_iff.mp hlast
    rw [List.length_append, List.length_singleton, List.range'_concat, List.map_append] at hnumbered
    have hsequence := List.append_inj_right' hnumbered rfl
    obtain rfl := Option.some.inj (hproduct.symm.trans hrow)
    simp only [List.map_cons, List.map_nil, List.cons.injEq] at hsequence
    simp only [snapshot, List.length_append, List.length_singleton]
    omega

theorem ShowsLast.extend (h : ShowsLast p T₀ done T) (happlied : AppliedAll p fresh T T') :
    ShowsLast p T₀ (done ++ fresh.map (·.event)) T' := by
  rcases happlied.product with ⟨rfl, hproducts⟩ |
    ⟨product, date, last, hproduct, hlast, -, hdate, hproducts⟩
  · unfold ShowsLast at h ⊢
    simpa [hproducts] using h
  · unfold ShowsLast
    have hlast' : (done ++ fresh.map (·.event)).getLast? = some last.event := by
      rw [List.getLast?_append, List.getLast?_map, hlast]
      rfl
    simp only [hlast', hproducts, Function.update_self]
    unfold ShowsLast at h
    cases hdone : done.getLast? with
    | none =>
      simp only [hdone] at h
      exact ⟨product, date, h ▸ hproduct, hdate, rfl⟩
    | some event =>
      simp only [hdone] at h
      obtain ⟨old, date', hold, -, hrow⟩ := h
      obtain rfl := Option.some.inj (hproduct.symm.trans hrow)
      exact ⟨old, date, hold, hdate, rfl⟩

/-- Committed events extend the list. -/
theorem Projected.extend (h : Projected p T₀ done T) (happlied : AppliedAll p fresh T T') :
    Projected p T₀ (done ++ fresh.map (·.event)) T' where
  transitions := by
    have hown : ∀ row ∈ fresh.map (Projector.transitionRow ·.event), row.productId = p := by
      intro row hrow
      obtain ⟨item, hitem, rfl⟩ := List.mem_map.mp hrow
      exact (happlied.parsed item hitem).2
    rw [happlied.transitions, filter_own hown, h.transitions]
    simp
  receipts := by
    have hown : ∀ row ∈ fresh.map fun item => Projector.receiptRow item.event item.entry,
        row.productId = p := by
      intro row hrow
      obtain ⟨item, hitem, rfl⟩ := List.mem_map.mp hrow
      exact (happlied.parsed item hitem).2
    rw [happlied.receipts, filter_own hown]
    refine List.rel_append h.receipts ?_
    refine List.forall₂_map_left_iff.mpr (List.forall₂_map_right_iff.mpr ?_)
    exact List.forall₂_same.mpr fun item hitem =>
      ⟨item.entry, (happlied.parsed item hitem).1, rfl⟩
  outbox := by
    have hown : ∀ row ∈ fresh.map (Projector.outboxRow ·.event), row.aggregateId = p := by
      intro row hrow
      obtain ⟨item, hitem, rfl⟩ := List.mem_map.mp hrow
      exact (happlied.parsed item hitem).2
    rw [happlied.outbox, filter_own hown, h.outbox]
    simp
  history := by
    refine history_append happlied.history (fun event hevent => ?_) h.history
    obtain ⟨item, hitem, rfl⟩ := List.mem_map.mp hevent
    exact (happlied.parsed item hitem).2
  bansOnce := by
    rw [happlied.bans]
    exact insertBans_once h.bansOnce
  bans := by
    intro u
    rw [happlied.banned_iff, h.bans]
    simp [or_and_right, exists_or]
  orders := by
    have hown : ∀ row ∈ fresh.flatMap (Projector.orderRows ·.event), row.productId = p := by
      intro row hrow
      obtain ⟨item, hitem, hrow⟩ := List.mem_flatMap.mp hrow
      exact (Projector.mem_orderRows hrow).2.2.trans (happlied.parsed item hitem).2
    rw [happlied.orders, filter_own hown, h.orders]
    simp [List.flatMap_map]
  product := h.product.extend happlied

/-- What is committed for another auction leaves the rows of `p` alone. -/
theorem Projected.other (h : Projected p T₀ done T) (happlied : AppliedAll productId fresh T T')
    (hp : productId ≠ p) : Projected p T₀ done T' := by
  have hother : ∀ item ∈ fresh, item.event.productId ≠ p :=
    fun item hitem heq => hp ((happlied.parsed item hitem).2.symm.trans heq)
  have htransitions : T'.transitions.filter (·.productId = p) =
      T.transitions.filter (·.productId = p) := by
    rw [happlied.transitions]
    refine filter_other fun row hrow => ?_
    obtain ⟨item, hitem, rfl⟩ := List.mem_map.mp hrow
    exact hother item hitem
  have hreceipts : T'.receipts.filter (·.productId = p) =
      T.receipts.filter (·.productId = p) := by
    rw [happlied.receipts]
    refine filter_other fun row hrow => ?_
    obtain ⟨item, hitem, rfl⟩ := List.mem_map.mp hrow
    exact hother item hitem
  have houtbox : T'.outbox.filter (·.aggregateId = p) = T.outbox.filter (·.aggregateId = p) := by
    rw [happlied.outbox]
    refine filter_other fun row hrow => ?_
    obtain ⟨item, hitem, rfl⟩ := List.mem_map.mp hrow
    exact hother item hitem
  have horders : T'.orders.filter (·.productId = p) = T.orders.filter (·.productId = p) := by
    rw [happlied.orders]
    refine filter_other fun row hrow => ?_
    obtain ⟨item, hitem, hrow⟩ := List.mem_flatMap.mp hrow
    rw [(Projector.mem_orderRows hrow).2.2]
    exact hother item hitem
  have hhistory : T'.history.filter (·.productId = p) = T.history.filter (·.productId = p) := by
    refine history_other happlied.history fun event hevent => ?_
    obtain ⟨item, hitem, rfl⟩ := List.mem_map.mp hevent
    exact hother item hitem
  have hproduct : T'.products p = T.products p := by
    rcases happlied.product with ⟨-, hsame⟩ | ⟨product, date, last, -, -, -, -, hproducts⟩
    · rw [hsame]
    · rw [hproducts, Function.update_of_ne hp.symm]
  refine ⟨htransitions ▸ h.transitions, hreceipts ▸ h.receipts, houtbox ▸ h.outbox,
    hhistory ▸ h.history, ?_, fun u => ?_, horders ▸ h.orders, ?_⟩
  · rw [happlied.bans]
    exact insertBans_once h.bansOnce
  · rw [happlied.banned_iff, ← h.bans, or_iff_left]
    rintro ⟨item, hitem, -, heq, -⟩
    exact hother item hitem heq
  · have hshows := h.product
    unfold ShowsLast at hshows ⊢
    rw [hproduct]
    exact hshows

/-- Events of the list, numbered from `k + 1` on, are the next ones. -/
theorem take_append {k : Nat} {new : List AuctionStreamEvent}
    (hnumbered : events.map (·.sequence) = List.range' 1 events.length)
    (hmem : ∀ event ∈ new, event ∈ events) (hk : k ≤ events.length)
    (hsequence : new.map (·.sequence) = List.range' (k + 1) new.length) :
    k + new.length ≤ events.length ∧ events.take k ++ new = events.take (k + new.length) := by
  induction new generalizing k with
  | nil => simpa using hk
  | cons event new ih =>
    rw [List.map_cons, List.length_cons, List.range'_succ, List.cons.injEq] at hsequence
    obtain ⟨i, hi, rfl⟩ := List.getElem_of_mem (hmem event List.mem_cons_self)
    have hnumber : events[i].sequence = 1 + i := by
      have h := List.getElem_of_eq hnumbered (i := i) (by simpa using hi)
      simpa using h
    obtain rfl : i = k := by omega
    obtain ⟨hle, htake⟩ :=
      ih (fun e he => hmem e (List.mem_cons_of_mem _ he)) (by omega : i + 1 ≤ _)
      hsequence.2
    rw [List.length_cons, List.append_cons, List.take_concat_get' events i hi, htake]
    exact ⟨by omega, by congr 1; omega⟩

end

/-- The entries that are added carry events of the auction, or nothing of it. -/
def Delivers (p : Nat) (events : List AuctionStreamEvent) (_ : Delivery) : DeliveryAction → Prop
  | .append entry => ∀ event, parseEvent entry.payload = .ok event → event.productId = p →
      event ∈ events
  | _ => True

/-- The state of the deliveries of `events`. -/
structure DeliveredPrefix (p : Nat) (T₀ : Tables) (events : List AuctionStreamEvent)
    (s : Delivery) : Prop where
  fed : s.Fed
  stream : ∀ entry ∈ s.stream, ∀ event, parseEvent entry.payload = .ok event →
    event.productId = p → event ∈ events
  projected : ∃ k ≤ events.length, Projected p T₀ (events.take k) s.tables

section
variable {p maxAttempts : Nat} {T₀ : Tables} {events : List AuctionStreamEvent}
  {s s' : Delivery} {x : DeliveryAction} {xs : List DeliveryAction}

theorem prefix_step (hnumbered : events.map (·.sequence) = List.range' 1 events.length)
    (hstart : ∀ product, T₀.products p = some product → product.auctionSequence = 0)
    (hs : DeliveredPrefix p T₀ events s) (hdelivers : Delivers p events s x)
    (h : DeliveryStep maxAttempts s x s') : DeliveredPrefix p T₀ events s' := by
  obtain ⟨hfed, hcommits, hstreams⟩ := Delivery.fed_step hs.fed h
  refine ⟨hfed, ?_, ?_⟩
  · intro entry hentry
    rcases hstreams with hsame | ⟨new, rfl, hstream⟩
    · exact hs.stream entry (hsame ▸ hentry)
    · rw [hstream] at hentry
      rcases List.mem_append.mp hentry with hold | hnew
      · exact hs.stream entry hold
      · rw [List.mem_singleton.mp hnew]
        exact hdelivers
  · obtain ⟨k, hk, hprojected⟩ := hs.projected
    rcases hcommits with hsame | ⟨productId, fresh, happlied, hfresh⟩
    · exact ⟨k, hk, hsame ▸ hprojected⟩
    by_cases hp : productId = p
    · subst hp
      have hmem : ∀ event ∈ fresh.map (·.event), event ∈ events := by
        intro event hevent
        obtain ⟨item, hitem, rfl⟩ := List.mem_map.mp hevent
        obtain ⟨hparsed, hproduct⟩ := happlied.parsed item hitem
        exact hs.stream _ (hfresh item hitem) _ hparsed hproduct
      rcases happlied.product with
        ⟨rfl, -⟩ | ⟨product, date, last, hproduct, -, hsequence, -, -⟩
      · exact ⟨k, hk, by simpa using hprojected.extend happlied⟩
      have hlength : (events.take k).length = k := List.length_take_of_le hk
      have hshown : product.auctionSequence = k := by
        have hnumbered' : (events.take k).map (·.sequence) =
            List.range' 1 (events.take k).length := by
          rw [List.map_take, hnumbered, hlength, List.take_range'_of_length_ge hk]
        rw [hprojected.product.sequence hnumbered' hstart hproduct, hlength]
      rw [hshown] at hsequence
      obtain ⟨hle, htake⟩ := take_append hnumbered hmem hk
        (by simpa [Function.comp_def] using hsequence)
      exact ⟨_, hle, htake ▸ hprojected.extend happlied⟩
    · exact ⟨k, hk, hprojected.other happlied hp⟩

/-- At every moment the rows of an auction are those of a prefix of its events, however they are
delivered, and whatever fails. -/
theorem projects_prefix (hnumbered : events.map (·.sequence) = List.range' 1 events.length)
    (hstart : Unprojected p T₀)
    (h : Run (Guarded (Delivers p events) (DeliveryStep maxAttempts)) { tables := T₀ } xs s) :
    ∃ k ≤ events.length, Projected p T₀ (events.take k) s.tables := by
  have hinitial : DeliveredPrefix p T₀ events { tables := T₀ } := by
    refine ⟨⟨by simp, by simp⟩, by simp, 0, by omega, ?_⟩
    simpa using projected_start hstart
  exact (h.preserves (I := DeliveredPrefix p T₀ events) (fun _ _ _ hstep hs =>
    prefix_step hnumbered hstart.product hs hstep.1 hstep.2) hinitial).projected

end

namespace Sample

/-- Bidder 3 is outbid at once. -/
def outbid : AuctionStreamEvent :=
  { opened with
    eventId := 2, idempotencyKey := ['l'], actorId := 3, requestedMaxPriceVnd := some 150
    currentPriceVnd := 160, sequence := 2, version := 2 }

/-- Then bidder 3 takes the lead. -/
def raised : AuctionStreamEvent :=
  { opened with
    eventId := 3, idempotencyKey := ['m'], actorId := 3, requestedMaxPriceVnd := some 250
    currentPriceVnd := 210, leaderId := some 3, leaderMaxPriceVnd := some 250, sequence := 3
    version := 3 }

/-- The first event stands twice in the stream. -/
def delivered : List RedisStreamEntry :=
  [openedEntry, { id := 2, payload := .event outbid }, { id := 3, payload := .event opened },
    { id := 4, payload := .event raised }]

def completes (index n : Nat) : List DeliveryAction :=
  List.replicate n (.advance index .completes)

/-- One consumer loses the answer to its commit, takes the entries one by one, and stops. Another
one claims them in the meantime, and goes on. -/
def twoConsumers : List DeliveryAction :=
  delivered.map .append ++ [.batch 0 [0] (fun _ => true) 2] ++ completes 0 3 ++
    [.advance 0 (.fails true)] ++ completes 0 5 ++ [.batch 1 [0] (fun _ => true) 2] ++
    completes 0 1 ++ completes 1 3 ++ [.crash 0] ++ completes 0 16

end Sample

theorem projects_prefix_sample : ∃ s, Sample.twoConsumers.foldlM (Delivery.next 10)
    { tables := Sample.tables } = some s ∧
      (s.tables.products 1).map (·.auctionSequence) = some 3 ∧
      ∃ k ≤ 3, Projected 1 Sample.tables
        ([Sample.opened, Sample.outbid, Sample.raised].take k) s.tables := by
  have hsome : (Sample.twoConsumers.foldlM (Delivery.next 10) { tables := Sample.tables }).map
      (fun s => (s.tables.products 1).map (·.auctionSequence)) = some (some 3) := by decide +kernel
  obtain ⟨s, hs, hsequence⟩ := Option.map_eq_some_iff.mp hsome
  have hdelivers : ∀ x ∈ Sample.twoConsumers, ∀ s,
      Delivers 1 [Sample.opened, Sample.outbid, Sample.raised] s x := by
    intro x hx s
    cases x with
    | append entry =>
      have hentry : entry ∈ Sample.delivered := by
        simpa [Sample.twoConsumers, Sample.completes, Sample.delivered] using hx
      intro event hparsed _
      obtain ⟨hpayload, -⟩ := parseEvent_ok hparsed
      simp only [Sample.delivered, List.mem_cons, List.not_mem_nil, or_false] at hentry
      rcases hentry with rfl | rfl | rfl | rfl <;> cases hpayload <;> simp
    | batch => trivial
    | advance => trivial
    | crash => trivial
  have hunprojected : Unprojected 1 Sample.tables := by
    refine ⟨by simp [Sample.tables], by simp [Sample.tables], by simp [Sample.tables],
      by simp [Sample.tables], by simp [Sample.tables], fun product hproduct => ?_⟩
    obtain rfl : Sample.product = product := Option.some.inj hproduct
    rfl
  have hrun : Run (Guarded (Delivers 1 [Sample.opened, Sample.outbid, Sample.raised])
      (DeliveryStep 10)) { tables := Sample.tables } Sample.twoConsumers s :=
    (run_partial_iff.mpr hs).guard hdelivers
  exact ⟨s, hs, hsequence, projects_prefix rfl hunprojected hrun⟩

end MiracleAuction
