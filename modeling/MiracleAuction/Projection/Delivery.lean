import MiracleAuction.Projection.Convergence
import MiracleAuction.Projection.Lane

/-!
# `runProjectorBatch`

The consumer group of the event stream, several consumers with their lanes, and the tables.
Each step is one transaction's read or commit, or one Redis command; any of them may fail,
with or without its effect, and a consumer may stop between two of them.
-/
namespace MiracleAuction

/-- Where an entry stands in the consumer group and the stream. -/
inductive EntryStatus
  | waiting | pending | acknowledged | deleted
  deriving DecidableEq, Repr

/-- Why a projection failed: by an error of the projector, or of Redis. -/
inductive Failure
  | projection (error : ProjectionError)
  | redis
  deriving DecidableEq, Repr

/-- An entry of the dead letter stream. -/
structure DeadLetter where
  sourceEntryId : Nat
  attempts : Nat
  error : Failure
  event : StreamPayload

/-- The commands of `acknowledgeProjectedEntry`. -/
inductive AckCommand
  | xack | xdel | hdel
  deriving DecidableEq

/-- Where an acknowledgement is called from, and the entries that are left there. -/
inductive AckContext
  | lane (lane rest : List RedisStreamEntry)
  | entry (rest : List RedisStreamEntry)
  | deadLetter (rest : List RedisStreamEntry)

/-- The next operation of a lane. A transaction keeps what it has read. -/
inductive Phase
  | projectLane (lane : List RedisStreamEntry) (reads : List Tables)
  | projectEntry (entry : RedisStreamEntry) (rest : List RedisStreamEntry) (reads : List Tables)
  | finalize (context : AckContext) (entry : RedisStreamEntry)
  | acknowledge (context : AckContext) (entry : RedisStreamEntry) (command : AckCommand)
  | recordFailure (entry : RedisStreamEntry) (error : Failure) (rest : List RedisStreamEntry)
  | deadLetter (entry : RedisStreamEntry) (error : Failure) (attempts : Nat)
      (rest : List RedisStreamEntry)

/-- `stream` lists every entry that was ever added, also when it is deleted by now. -/
structure Delivery where
  stream : List RedisStreamEntry := []
  status : Nat × Nat → EntryStatus := fun _ => .waiting
  retries : Nat × Nat → Nat := fun _ => 0
  dlq : List DeadLetter := []
  tables : Tables
  /-- The running lanes, each with its consumer. -/
  tasks : List (Nat × Phase) := []

/-- The outcome of an operation, as its caller sees it. -/
inductive Response
  | completes
  | fails (effective : Bool)

/-- The fallback takes the entries of a lane one by one. -/
def nextEntry : List RedisStreamEntry → Option Phase
  | [] => none
  | entry :: rest => some (.projectEntry entry rest [])

def nextFinal (lane : List RedisStreamEntry) : List RedisStreamEntry → Option Phase
  | [] => none
  | entry :: rest => some (.finalize (.lane lane rest) entry)

namespace AckContext

/-- After the acknowledgement. -/
def next : AckContext → Option Phase
  | .lane entries rest => nextFinal entries rest
  | .entry rest => nextEntry rest
  | .deadLetter rest => nextEntry rest

/-- Where an error is caught. One in `recordProjectionFailure` ends the lane. -/
def caught (entry : RedisStreamEntry) (error : Failure) : AckContext → Option Phase
  | .lane entries _ => nextEntry entries
  | .entry rest => some (.recordFailure entry error rest)
  | .deadLetter _ => none

end AckContext

namespace Delivery

def setStatus (s : Delivery) (entry : RedisStreamEntry) (status : EntryStatus) : Delivery :=
  { s with status := Function.update s.status (streamReceiptId entry) status }

def setRetries (s : Delivery) (entry : RedisStreamEntry) (retries : Nat) : Delivery :=
  { s with retries := Function.update s.retries (streamReceiptId entry) retries }

/-- What `effect` leaves behind, if the operation took effect. -/
def when (effective : Bool) (s s' : Delivery) : Delivery := if effective then s' else s

/-- `XACK` counts the entry only while it is pending, and only then `XDEL` follows. -/
def acknowledge (s : Delivery) (context : AckContext) (entry : RedisStreamEntry) :
    AckCommand → Delivery × Option Phase
  | .xack =>
    if s.status (streamReceiptId entry) = .pending then
      (s.setStatus entry .acknowledged, some (.acknowledge context entry .xdel))
    else (s, some (.acknowledge context entry .hdel))
  | .xdel => (s.setStatus entry .deleted, some (.acknowledge context entry .hdel))
  | .hdel => (s.setRetries entry 0, context.next)

/-- The commit of a lane's transaction. -/
def commitLane (s : Delivery) (lane : List RedisStreamEntry) (reads : Reads)
    (response : Response) : Delivery × Option Phase :=
  match projectAuctionLaneAt reads lane s.tables, response with
  | .ok (_, T), .completes => ({ s with tables := T }, nextFinal lane lane)
  | .ok (_, T), .fails effective => (s.when effective { s with tables := T }, nextEntry lane)
  | .error _, _ => (s, nextEntry lane)

/-- The commit of a single entry's transaction. -/
def commitEntry (s : Delivery) (entry : RedisStreamEntry) (rest : List RedisStreamEntry)
    (reads : Reads) (response : Response) : Delivery × Option Phase :=
  match projectAuctionEntryAt reads entry s.tables, response with
  | .ok (_, T), .completes => ({ s with tables := T }, some (.finalize (.entry rest) entry))
  | .ok (_, T), .fails effective =>
    (s.when effective { s with tables := T },
      some (.recordFailure entry (.projection .database) rest))
  | .error error, _ => (s, some (.recordFailure entry (.projection error) rest))

/-- `finalizeProjectedEntry` up to the acknowledgement. Only a terminal event reaches Redis,
for keys that are not modelled here. -/
def finalize (s : Delivery) (context : AckContext) (entry : RedisStreamEntry)
    (response : Response) : Delivery × Option Phase :=
  match parseEvent entry.payload, response with
  | .error error, _ => (s, context.caught entry (.projection error))
  | .ok _, .completes => (s, some (.acknowledge context entry .xack))
  | .ok event, .fails _ =>
    if event.status.isTerminal then (s, context.caught entry .redis)
    else (s, some (.acknowledge context entry .xack))

/-- The first command of `recordProjectionFailure` decides whether it is the last. -/
def recordFailure (s : Delivery) (maxAttempts : Nat) (entry : RedisStreamEntry) (error : Failure)
    (rest : List RedisStreamEntry) (response : Response) : Delivery × Option Phase :=
  let attempts := s.retries (streamReceiptId entry) + 1
  match response with
  | .completes =>
    (s.setRetries entry attempts,
      if attempts < maxAttempts then nextEntry rest
      else some (.deadLetter entry error attempts rest))
  | .fails effective => (s.when effective (s.setRetries entry attempts), none)

/-- One operation of a lane, and what it does next. -/
def operate (s : Delivery) (maxAttempts : Nat) (response : Response) :
    Phase → Delivery × Option Phase
  | .projectLane lane [duplicates, owners, product] =>
    s.commitLane lane ⟨duplicates, owners, product⟩ response
  | .projectLane lane reads =>
    match response with
    | .completes => (s, some (.projectLane lane (reads ++ [s.tables])))
    | .fails _ => (s, nextEntry lane)
  | .projectEntry entry rest [duplicates, owners, product] =>
    s.commitEntry entry rest ⟨duplicates, owners, product⟩ response
  | .projectEntry entry rest reads =>
    match response with
    | .completes => (s, some (.projectEntry entry rest (reads ++ [s.tables])))
    | .fails _ => (s, some (.recordFailure entry (.projection .database) rest))
  | .finalize context entry => s.finalize context entry response
  | .acknowledge context entry command =>
    match response with
    | .completes => s.acknowledge context entry command
    | .fails effective =>
      (s.when effective (s.acknowledge context entry command).1, context.caught entry .redis)
  | .recordFailure entry error rest => s.recordFailure maxAttempts entry error rest response
  | .deadLetter entry error attempts rest =>
    let sent := { s with dlq := s.dlq ++ [⟨entry.id, attempts, error, entry.payload⟩] }
    match response with
    | .completes => (sent, some (.acknowledge (.deadLetter rest) entry .xack))
    | .fails effective => (s.when effective sent, none)

/-! ## Batches -/

/-- The key of an entry's lane: its auction, or itself if the payload is malformed. -/
inductive LaneKey
  | product (productId : Nat)
  | invalid (id : Nat)
  deriving DecidableEq

def entryKey (entry : RedisStreamEntry) : LaneKey :=
  match parseEvent entry.payload with
  | .ok event => .product event.productId
  | .error _ => .invalid entry.id

def laneList (entries : List RedisStreamEntry) : List (List RedisStreamEntry) :=
  (entries.map entryKey).eraseDups.map fun key => entries.filter fun entry => entryKey entry = key

/-- `XAUTOCLAIM`: pending entries that are idle for long enough. -/
def autoClaimProjectorEntries (s : Delivery) (shards : List Nat) (idle : Nat × Nat → Bool)
    (count : Nat) : List RedisStreamEntry :=
  shards.flatMap fun shard => (s.stream.filter fun entry => entry.shard = shard ∧
    s.status (streamReceiptId entry) = .pending ∧ idle (streamReceiptId entry)).take count

/-- `XREADGROUP`: entries that no consumer was given yet. -/
def readNewProjectorEntries (s : Delivery) (shards : List Nat) (count : Nat) :
    List RedisStreamEntry :=
  shards.flatMap fun shard => (s.stream.filter fun entry => entry.shard = shard ∧
    s.status (streamReceiptId entry) = .waiting).take count

/-- The entries of a batch: those claimed, then those read that are not among them. -/
def batchEntries (claimed fresh : List RedisStreamEntry) : List RedisStreamEntry :=
  claimed ++ fresh.filter fun entry =>
    ¬ claimed.any fun item => item.id = entry.id ∧ item.shard = entry.shard

/-- A consumer starts a batch on the shards that answer it. -/
def startBatch (s : Delivery) (consumer : Nat) (shards : List Nat) (idle : Nat × Nat → Bool)
    (count : Nat) : Delivery :=
  let claimed := s.autoClaimProjectorEntries shards idle count
  let fresh := s.readNewProjectorEntries shards count
  { s with
    status := fun key => if key ∈ fresh.map streamReceiptId then .pending else s.status key
    tasks := s.tasks ++ (laneList (batchEntries claimed fresh)).map fun lane =>
      (consumer, .projectLane lane []) }

end Delivery

/-- An entry is added, a consumer starts a batch, a lane goes on, or a consumer stops. -/
inductive DeliveryAction
  | append (entry : RedisStreamEntry)
  | batch (consumer : Nat) (shards : List Nat) (idle : Nat × Nat → Bool) (count : Nat)
  | advance (index : Nat) (response : Response)
  | crash (consumer : Nat)

namespace Delivery

def next (maxAttempts : Nat) (s : Delivery) : DeliveryAction → Option Delivery
  | .append entry =>
    -- Redis numbers the entries of a shard in ascending order.
    if ∀ old ∈ s.stream, old.shard = entry.shard → old.id < entry.id then
      some ({ s with stream := s.stream ++ [entry] }.setStatus entry .waiting)
    else none
  | .batch consumer shards idle count => some (s.startBatch consumer shards idle count)
  | .advance index response =>
    match s.tasks[index]? with
    | none => none
    | some (consumer, phase) =>
      let (s', phase') := s.operate maxAttempts response phase
      some { s' with
        tasks :=
          match phase' with
          | some phase' => s.tasks.set index (consumer, phase')
          | none => s.tasks.eraseIdx index }
  | .crash consumer => some { s with tasks := s.tasks.filter (·.1 ≠ consumer) }

end Delivery

abbrev DeliveryStep (maxAttempts : Nat) (s : Delivery) (x : DeliveryAction)
    (s' : Delivery) : Prop :=
  s.next maxAttempts x = some s'

/-! ## What may leave the stream -/

/-- The payload is no event, or a bid without a maximum. -/
def Malformed (payload : StreamPayload) : Prop :=
  ∀ event, parseEvent payload = .ok event →
    event.type = .bidAccepted ∧ event.requestedMaxPriceVnd = none

/-- The sequence number of the event belongs to another event. -/
def SequenceTaken (T : Tables) (event : AuctionStreamEvent) : Prop :=
  ∃ row ∈ T.receipts, row.productId = event.productId ∧ row.sequence = event.sequence ∧
    row.eventId ≠ event.eventId

namespace Delivery

/-- The entry can never be projected, or the event of its id is committed. -/
inductive Settled (s : Delivery) (entry : RedisStreamEntry) : Prop
  | malformed (h : Malformed entry.payload)
  | conflict {event : AuctionStreamEvent} (hparsed : parseEvent entry.payload = .ok event)
      (h : SequenceTaken s.tables event)
  | committed {other : RedisStreamEntry} {event event' : AuctionStreamEvent}
      (hother : other ∈ s.stream) (hparsed : parseEvent entry.payload = .ok event)
      (hparsed' : parseEvent other.payload = .ok event') (hid : event'.eventId = event.eventId)
      (h : Committed event' s.tables)

/-- Every entry that is acknowledged or deleted is settled. -/
def NothingLost (s : Delivery) : Prop :=
  ∀ entry ∈ s.stream, s.status (streamReceiptId entry) = .acknowledged ∨
    s.status (streamReceiptId entry) = .deleted → s.Settled entry

/-- A failure that is recorded is not the last one allowed, unless its entry is settled. -/
def Spares (maxAttempts : Nat) (s : Delivery) : DeliveryAction → Prop
  | .advance index .completes =>
    match s.tasks[index]? with
    | some (_, .recordFailure entry _ _) =>
      s.retries (streamReceiptId entry) + 1 < maxAttempts ∨ s.Settled entry
    | _ => True
  | _ => True

/-- A consumer has been given the entry. -/
def Held (s : Delivery) (entry : RedisStreamEntry) : Prop :=
  entry ∈ s.stream ∧ s.status (streamReceiptId entry) ≠ .waiting

/-- The entries of the stream stay, those held stay held, and the tables grow. -/
structure Evolves (s s' : Delivery) : Prop where
  stream : ∀ entry ∈ s.stream, entry ∈ s'.stream
  held : ∀ entry, s.Held entry → s'.Held entry
  tables : Later s.tables s'.tables

theorem Settled.evolves {s s' : Delivery} {entry : RedisStreamEntry} (hs : s.Settled entry)
    (h : Evolves s s') : s'.Settled entry := by
  cases hs with
  | malformed hmalformed => exact .malformed hmalformed
  | conflict hparsed htaken =>
    obtain ⟨row, hrow, hrest⟩ := htaken
    exact .conflict hparsed ⟨row, h.tables.receipts row hrow, hrest⟩
  | committed hother hparsed hparsed' hid hcommitted =>
    exact .committed (h.stream _ hother) hparsed hparsed' hid (hcommitted.later h.tables)

/-! ## The invariant -/

/-- Every receipt is that of a committed event of the stream. -/
def Receipted (s : Delivery) : Prop :=
  ∀ row ∈ s.tables.receipts, ∃ other ∈ s.stream, ∃ event,
    parseEvent other.payload = .ok event ∧
    event.eventId = row.eventId ∧ Committed event s.tables

structure Sound (s : Delivery) : Prop where
  keys : (s.stream.map streamReceiptId).Nodup
  receipted : s.Receipted
  lossless : s.NothingLost

/-- The entries that an acknowledgement will return to are held. -/
def ContextOk (s : Delivery) : AckContext → Prop
  | .lane entries rest =>
    (∀ entry ∈ entries, s.Held entry) ∧ ∀ entry ∈ rest, s.Held entry ∧ s.Settled entry
  | .entry rest | .deadLetter rest => ∀ entry ∈ rest, s.Held entry

/-- The entries of a phase are held, those about to be acknowledged are settled, and what a
transaction has read is past. -/
def PhaseOk (s : Delivery) : Phase → Prop
  | .projectLane lane reads =>
    (∀ entry ∈ lane, s.Held entry) ∧ ∀ T ∈ reads, Later T s.tables
  | .projectEntry entry rest reads =>
    s.Held entry ∧ (∀ entry ∈ rest, s.Held entry) ∧ ∀ T ∈ reads, Later T s.tables
  | .finalize context entry | .acknowledge context entry _ =>
    s.Held entry ∧ s.Settled entry ∧ s.ContextOk context
  | .recordFailure entry _ rest => s.Held entry ∧ ∀ entry ∈ rest, s.Held entry
  | .deadLetter entry _ _ rest =>
    s.Held entry ∧ s.Settled entry ∧ ∀ entry ∈ rest, s.Held entry

/-- The invariant of the delivery. -/
structure Invariant (s : Delivery) : Prop where
  sound : s.Sound
  tasks : ∀ task ∈ s.tasks, s.PhaseOk task.2

section
variable {s s' s'' : Delivery} {entry : RedisStreamEntry} {rest lane : List RedisStreamEntry}
  {context : AckContext} {phase : Phase} {response : Response} {maxAttempts : Nat}

theorem Evolves.refl (s : Delivery) : Evolves s s := ⟨fun _ => id, fun _ => id, .refl _⟩

theorem ContextOk.evolves (hs : s.ContextOk context) (h : Evolves s s') : s'.ContextOk context := by
  cases context with
  | lane entries rest =>
    exact ⟨fun e he => h.held e (hs.1 e he),
      fun e he => ⟨h.held e (hs.2 e he).1, (hs.2 e he).2.evolves h⟩⟩
  | entry rest => exact fun e he => h.held e (hs e he)
  | deadLetter rest => exact fun e he => h.held e (hs e he)

/-- What holds of a phase, the steps of other lanes preserve. -/
theorem PhaseOk.evolves (hs : s.PhaseOk phase) (h : Evolves s s') : s'.PhaseOk phase := by
  cases phase with
  | projectLane lane reads =>
    exact ⟨fun e he => h.held e (hs.1 e he), fun T hT => (hs.2 T hT).trans h.tables⟩
  | projectEntry entry rest reads =>
    exact ⟨h.held _ hs.1, fun e he => h.held e (hs.2.1 e he),
      fun T hT => (hs.2.2 T hT).trans h.tables⟩
  | finalize context entry => exact ⟨h.held _ hs.1, hs.2.1.evolves h, hs.2.2.evolves h⟩
  | acknowledge context entry command =>
    exact ⟨h.held _ hs.1, hs.2.1.evolves h, hs.2.2.evolves h⟩
  | recordFailure entry error rest => exact ⟨h.held _ hs.1, fun e he => h.held e (hs.2 e he)⟩
  | deadLetter entry error attempts rest =>
    exact ⟨h.held _ hs.1, hs.2.1.evolves h, fun e he => h.held e (hs.2.2 e he)⟩

theorem phaseOk_nextEntry (h : ∀ entry ∈ rest, s.Held entry) :
    ∀ phase ∈ nextEntry rest, s.PhaseOk phase := by
  intro phase hphase
  cases rest with
  | nil => cases hphase
  | cons entry rest =>
    cases hphase
    exact ⟨h entry List.mem_cons_self, fun e he => h e (List.mem_cons_of_mem _ he), by simp⟩

theorem phaseOk_nextFinal (hlane : ∀ entry ∈ lane, s.Held entry)
    (h : ∀ entry ∈ rest, s.Held entry ∧ s.Settled entry) :
    ∀ phase ∈ nextFinal lane rest, s.PhaseOk phase := by
  intro phase hphase
  cases rest with
  | nil => cases hphase
  | cons entry rest =>
    cases hphase
    obtain ⟨hheld, hsettled⟩ := h entry List.mem_cons_self
    exact ⟨hheld, hsettled, hlane, fun e he => h e (List.mem_cons_of_mem _ he)⟩

theorem ContextOk.next (h : s.ContextOk context) : ∀ phase ∈ context.next, s.PhaseOk phase := by
  cases context with
  | lane entries rest => exact phaseOk_nextFinal h.1 h.2
  | entry rest => exact phaseOk_nextEntry h
  | deadLetter rest => exact phaseOk_nextEntry h

theorem ContextOk.caught {error : Failure} (h : s.ContextOk context) (hheld : s.Held entry) :
    ∀ phase ∈ context.caught entry error, s.PhaseOk phase := by
  cases context with
  | lane entries rest => exact phaseOk_nextEntry h.1
  | entry rest =>
    rintro phase hphase
    cases hphase
    exact ⟨hheld, h⟩
  | deadLetter rest => exact fun phase hphase => by cases hphase

/-! ## Operations -/

/-- What an operation leaves: a sound state that evolved from `s`, with the same tasks. -/
structure Leaves (s s' : Delivery) : Prop where
  evolves : Evolves s s'
  sound : s'.Sound
  tasks : s'.tasks = s.tasks

theorem Leaves.refl (hs : s.Sound) : Leaves s s := ⟨.refl s, hs, rfl⟩

theorem Leaves.when {effective : Bool} (hs : s.Sound) (h : Leaves s s') :
    Leaves s (s.when effective s') := by
  cases effective with
  | true => exact h
  | false => exact .refl hs

/-- A settled entry may be acknowledged and deleted. -/
theorem leaves_setStatus {status : EntryStatus} (hs : s.Sound) (hheld : s.Held entry)
    (hsettled : s.Settled entry) (hstatus : status ≠ .waiting) :
    Leaves s (s.setStatus entry status) := by
  have hevolves : Evolves s (s.setStatus entry status) := by
    refine ⟨fun _ => id, fun e he => ⟨he.1, ?_⟩, .refl _⟩
    by_cases hkey : streamReceiptId e = streamReceiptId entry
    · simpa [setStatus, hkey] using hstatus
    · simpa [setStatus, Function.update_of_ne hkey] using he.2
  refine ⟨hevolves, ⟨hs.keys, hs.receipted, fun e he hremoved => ?_⟩, rfl⟩
  by_cases hkey : streamReceiptId e = streamReceiptId entry
  · obtain rfl : e = entry := List.inj_on_of_nodup_map hs.keys he hheld.1 hkey
    exact hsettled.evolves hevolves
  · refine (hs.lossless e he ?_).evolves hevolves
    simpa [setStatus, Function.update_of_ne hkey] using hremoved

/-- The counter of attempts and the dead letters do not matter. -/
theorem leaves_setRetries (hs : s.Sound) (entry : RedisStreamEntry) (retries : Nat) :
    Leaves s (s.setRetries entry retries) :=
  ⟨⟨fun _ => id, fun _ => id, .refl _⟩, ⟨hs.keys, hs.receipted, fun e he hremoved =>
    (hs.lossless e he hremoved).evolves ⟨fun _ => id, fun _ => id, .refl _⟩⟩, rfl⟩

theorem leaves_dlq (hs : s.Sound) (dlq : List DeadLetter) : Leaves s { s with dlq := dlq } :=
  ⟨⟨fun _ => id, fun _ => id, .refl _⟩, ⟨hs.keys, hs.receipted, fun e he hremoved =>
    (hs.lossless e he hremoved).evolves ⟨fun _ => id, fun _ => id, .refl _⟩⟩, rfl⟩

/-- A transaction on entries of the stream commits their events. -/
theorem leaves_commit {productId : Nat} {fresh : List ParsedLaneEntry} {T : Tables} (hs : s.Sound)
    (happlied : AppliedAll productId fresh s.tables T)
    (hstream : ∀ item ∈ fresh, item.entry ∈ s.stream) : Leaves s { s with tables := T } := by
  have hevolves : Evolves s { s with tables := T } := ⟨fun _ => id, fun _ => id, happlied.later⟩
  refine ⟨hevolves, ⟨hs.keys, fun row hrow => ?_, fun e he hremoved =>
    (hs.lossless e he hremoved).evolves hevolves⟩, rfl⟩
  change row ∈ T.receipts at hrow
  rw [happlied.receipts] at hrow
  rcases List.mem_append.mp hrow with hold | hnew
  · obtain ⟨other, hother, event, hparsed, hid, hcommitted⟩ := hs.receipted row hold
    exact ⟨other, hother, event, hparsed, hid, hcommitted.later happlied.later⟩
  · obtain ⟨item, hitem, rfl⟩ := List.mem_map.mp hnew
    exact ⟨item.entry, hstream item hitem, item.event, (happlied.parsed item hitem).1, rfl,
      happlied.committed hitem⟩

/-- An event with a receipt is committed. -/
theorem Receipted.settled {event : AuctionStreamEvent} {row : ReceiptRow} (hs : s.Receipted)
    (hparsed : parseEvent entry.payload = .ok event) (hrow : row ∈ s.tables.receipts)
    (hid : row.eventId = event.eventId) : s.Settled entry := by
  obtain ⟨other, hother, event', hparsed', hid', hcommitted⟩ := hs row hrow
  exact .committed hother hparsed hparsed' (hid'.trans hid) hcommitted

/-- An operation of a sound phase leaves a sound phase. -/
def OperationOk (s : Delivery) (result : Delivery × Option Phase) : Prop :=
  Leaves s result.1 ∧ ∀ phase ∈ result.2, result.1.PhaseOk phase

theorem commitLane_ok {reads : Reads} (hs : s.Sound) (hheld : ∀ entry ∈ lane, s.Held entry)
    (hduplicates : Later reads.duplicates s.tables) (hproduct : Later reads.product s.tables) :
    s.OperationOk (s.commitLane lane reads response) := by
  unfold commitLane
  have hfallback : s.OperationOk (s, nextEntry lane) := ⟨.refl hs, phaseOk_nextEntry hheld⟩
  cases hresult : projectAuctionLaneAt reads lane s.tables with
  | error error => exact hfallback
  | ok result =>
    obtain ⟨outcomes, T⟩ := result
    obtain ⟨productId, items, fresh, hentries, hparsed, happlied, hfresh, hcovered⟩ :=
      projectAuctionLaneAt_ok hproduct hresult
    have hmem : ∀ item ∈ items, item.entry ∈ lane := fun item hitem => by
      rw [← hentries]
      exact List.mem_map_of_mem hitem
    have hleaves : Leaves s { s with tables := T } := leaves_commit hs happlied
      fun item hitem => (hheld _ (hmem item (hfresh item hitem))).1
    have hheld' : ∀ entry ∈ lane, ({ s with tables := T } : Delivery).Held entry :=
      fun e he => hleaves.evolves.held e (hheld e he)
    cases response with
    | fails effective =>
      refine ⟨hleaves.when hs, phaseOk_nextEntry fun e he => ?_⟩
      exact (hleaves.when hs).evolves.held e (hheld e he)
    | completes =>
      refine ⟨hleaves, phaseOk_nextFinal hheld' fun e he => ⟨hheld' e he, ?_⟩⟩
      -- The event was applied just now, or has a receipt from before.
      rw [← hentries] at he
      obtain ⟨item, hitem, rfl⟩ := List.mem_map.mp he
      have hreceipted := hleaves.sound.receipted
      rcases hcovered item hitem with hnew | ⟨row, hrow, hid⟩
      · exact hreceipted.settled (hparsed item hitem) (happlied.receipt hnew) rfl
      · exact hreceipted.settled (hparsed item hitem)
          (happlied.later.receipts row (hduplicates.receipts row hrow)) hid

theorem commitEntry_ok {reads : Reads} (hs : s.Sound) (hheld : s.Held entry)
    (hrest : ∀ entry ∈ rest, s.Held entry) (hduplicates : Later reads.duplicates s.tables)
    (hproduct : Later reads.product s.tables) :
    s.OperationOk (s.commitEntry entry rest reads response) := by
  unfold commitEntry
  have hrecord {s' : Delivery} {error : Failure} (h : Leaves s s') :
      s.OperationOk (s', some (.recordFailure entry error rest)) := by
    refine ⟨h, ?_⟩
    rintro phase hphase
    cases hphase
    exact ⟨h.evolves.held _ hheld, fun e he => h.evolves.held e (hrest e he)⟩
  cases hresult : projectAuctionEntryAt reads entry s.tables with
  | error error => exact hrecord (.refl hs)
  | ok result =>
    obtain ⟨outcome, T⟩ := result
    obtain ⟨event, fresh, hparsed, happlied, hfresh, hcovered⟩ :=
      projectAuctionEntryAt_ok hproduct hresult
    have hleaves : Leaves s { s with tables := T } := leaves_commit hs happlied
      fun item hitem => by rw [hfresh item hitem]; exact hheld.1
    cases response with
    | fails effective => exact hrecord (hleaves.when hs)
    | completes =>
      refine ⟨hleaves, ?_⟩
      rintro phase hphase
      cases hphase
      refine ⟨hleaves.evolves.held _ hheld, ?_, fun e he => hleaves.evolves.held e (hrest e he)⟩
      have hreceipted := hleaves.sound.receipted
      rcases hcovered with hnew | ⟨row, hrow, hid⟩
      · exact hreceipted.settled hparsed (happlied.receipt hnew) rfl
      · exact hreceipted.settled hparsed
          (happlied.later.receipts row (hduplicates.receipts row hrow)) hid

theorem acknowledge_ok {command : AckCommand} (hs : s.Sound) (hheld : s.Held entry)
    (hsettled : s.Settled entry) (hcontext : s.ContextOk context) :
    s.OperationOk (s.acknowledge context entry command) := by
  have hgoes {s' : Delivery} {command : AckCommand} (h : Leaves s s') :
      s.OperationOk (s', some (.acknowledge context entry command)) := by
    refine ⟨h, ?_⟩
    rintro phase hphase
    cases hphase
    exact ⟨h.evolves.held _ hheld, hsettled.evolves h.evolves, hcontext.evolves h.evolves⟩
  cases command with
  | xack =>
    simp only [acknowledge]
    split
    · exact hgoes (leaves_setStatus hs hheld hsettled (by simp))
    · exact hgoes (.refl hs)
  | xdel => exact hgoes (leaves_setStatus hs hheld hsettled (by simp))
  | hdel =>
    have h := leaves_setRetries hs entry 0
    exact ⟨h, (hcontext.evolves h.evolves).next⟩

/-- An operation keeps the invariant. Only a last failure needs its entry to be settled. -/
theorem operate_ok (hs : s.Sound) (hphase : s.PhaseOk phase)
    (hspares : ∀ entry error rest, phase = .recordFailure entry error rest →
      response = .completes →
        s.retries (streamReceiptId entry) + 1 < maxAttempts ∨ s.Settled entry) :
    s.OperationOk (s.operate maxAttempts response phase) := by
  unfold operate
  split
  · -- The commit of a lane.
    obtain ⟨hheld, hreads⟩ := hphase
    exact commitLane_ok hs hheld (hreads _ (by simp)) (hreads _ (by simp))
  · obtain ⟨hheld, hreads⟩ := hphase
    cases response with
    | fails effective => exact ⟨.refl hs, phaseOk_nextEntry hheld⟩
    | completes =>
      refine ⟨.refl hs, ?_⟩
      rintro phase hphase
      cases hphase
      refine ⟨hheld, fun T hT => ?_⟩
      rcases List.mem_append.mp hT with hT | hT
      · exact hreads T hT
      · rw [List.mem_singleton.mp hT]
        exact .refl _
  · -- The commit of an entry.
    obtain ⟨hheld, hrest, hreads⟩ := hphase
    exact commitEntry_ok hs hheld hrest (hreads _ (by simp)) (hreads _ (by simp))
  · obtain ⟨hheld, hrest, hreads⟩ := hphase
    cases response with
    | fails effective =>
      refine ⟨.refl hs, ?_⟩
      rintro phase hphase
      cases hphase
      exact ⟨hheld, hrest⟩
    | completes =>
      refine ⟨.refl hs, ?_⟩
      rintro phase hphase
      cases hphase
      refine ⟨hheld, hrest, fun T hT => ?_⟩
      rcases List.mem_append.mp hT with hT | hT
      · exact hreads T hT
      · rw [List.mem_singleton.mp hT]
        exact .refl _
  · obtain ⟨hheld, hsettled, hcontext⟩ := hphase
    rename_i context entry
    have hacknowledge : s.OperationOk (s, some (.acknowledge context entry .xack)) := by
      refine ⟨.refl hs, ?_⟩
      rintro phase hphase
      cases hphase
      exact ⟨hheld, hsettled, hcontext⟩
    unfold finalize
    split
    · exact ⟨.refl hs, hcontext.caught hheld⟩
    · exact hacknowledge
    · split
      · exact ⟨.refl hs, hcontext.caught hheld⟩
      · exact hacknowledge
  · obtain ⟨hheld, hsettled, hcontext⟩ := hphase
    rename_i context entry command
    have h : s.OperationOk (s.acknowledge context entry command) :=
      acknowledge_ok hs hheld hsettled hcontext
    cases response with
    | completes => exact h
    | fails effective =>
      have hleaves : Leaves s (s.when effective (s.acknowledge context entry command).1) :=
        h.1.when hs
      exact ⟨hleaves, (hcontext.evolves hleaves.evolves).caught (hleaves.evolves.held _ hheld)⟩
  · obtain ⟨hheld, hrest⟩ := hphase
    rename_i entry error rest
    have h := leaves_setRetries hs entry (s.retries (streamReceiptId entry) + 1)
    have hrest' : ∀ e ∈ rest, (s.setRetries entry _).Held e :=
      fun e he => h.evolves.held e (hrest e he)
    unfold recordFailure
    cases response with
    | fails effective => exact ⟨h.when hs, fun phase hphase => by cases hphase⟩
    | completes =>
      dsimp only
      split
      · exact ⟨h, phaseOk_nextEntry hrest'⟩
      · rename_i hlast
        refine ⟨h, ?_⟩
        rintro phase hphase
        cases hphase
        refine ⟨h.evolves.held _ hheld, ?_, hrest'⟩
        rcases hspares entry error rest rfl rfl with hretry | hsettled
        · exact absurd hretry hlast
        · exact hsettled.evolves h.evolves
  · obtain ⟨hheld, hsettled, hrest⟩ := hphase
    rename_i entry error attempts rest
    have h := leaves_dlq hs (s.dlq ++ [⟨entry.id, attempts, error, entry.payload⟩])
    cases response with
    | fails effective => exact ⟨h.when hs, fun phase hphase => by cases hphase⟩
    | completes =>
      refine ⟨h, ?_⟩
      rintro phase hphase
      cases hphase
      exact ⟨h.evolves.held _ hheld, hsettled.evolves h.evolves,
        fun e he => h.evolves.held e (hrest e he)⟩

/-! ## Steps and runs -/

/-- A step that leaves the tasks alone keeps the invariant of each. -/
theorem Invariant.leaves (hs : s.Invariant) (h : Leaves s s') : s'.Invariant :=
  ⟨h.sound, fun task htask => (hs.tasks task (h.tasks ▸ htask)).evolves h.evolves⟩

/-- The running lanes matter only through their phases. -/
theorem invariant_tasks {tasks : List (Nat × Phase)} (hs : s.Sound)
    (htasks : ∀ task ∈ tasks, s.PhaseOk task.2) :
    ({ s with tasks := tasks } : Delivery).Invariant := by
  have hevolves : Evolves s { s with tasks := tasks } := ⟨fun _ => id, fun _ => id, .refl _⟩
  refine ⟨⟨hs.keys, hs.receipted, fun e he hremoved => ?_⟩, fun task htask => ?_⟩
  · exact (hs.lossless e he hremoved).evolves hevolves
  · exact (htasks task htask).evolves hevolves

theorem leaves_append (hs : s.Sound)
    (hfresh : ∀ old ∈ s.stream, old.shard = entry.shard → old.id < entry.id) :
    Leaves s ({ s with stream := s.stream ++ [entry] }.setStatus entry .waiting) := by
  have hkey : ∀ old ∈ s.stream, streamReceiptId old ≠ streamReceiptId entry := by
    intro old hold heq
    obtain ⟨hshard, hid⟩ := Prod.ext_iff.mp heq
    have := hfresh old hold hshard
    simp only [streamReceiptId] at hid
    omega
  have hevolves : Evolves s
      ({ s with stream := s.stream ++ [entry] }.setStatus entry .waiting) := by
    refine ⟨fun e he => List.mem_append_left _ he, fun e he =>
      ⟨List.mem_append_left _ he.1, ?_⟩, .refl _⟩
    simpa [setStatus, Function.update_of_ne (hkey e he.1)] using he.2
  refine ⟨hevolves, ⟨?_, fun row hrow => ?_, fun e he hremoved => ?_⟩, rfl⟩
  · simp only [setStatus, List.map_append, List.map_cons, List.map_nil]
    refine List.nodup_append.mpr ⟨hs.keys, List.nodup_singleton _, ?_⟩
    rintro _ hold _ hnew rfl
    obtain ⟨old, hmem, heq⟩ := List.mem_map.mp hold
    exact hkey old hmem (heq.trans (List.mem_singleton.mp hnew))
  · obtain ⟨other, hother, hrest⟩ := hs.receipted row hrow
    exact ⟨other, List.mem_append_left _ hother, hrest⟩
  · rcases List.mem_append.mp he with hold | hnew
    · refine (hs.lossless e hold ?_).evolves hevolves
      simpa [setStatus, Function.update_of_ne (hkey e hold)] using hremoved
    · rw [List.mem_singleton.mp hnew] at hremoved
      simp [setStatus] at hremoved

/-- The entries of a batch are given to its consumer. -/
theorem invariant_startBatch {consumer count : Nat} {shards : List Nat} {idle : Nat × Nat → Bool}
    (hs : s.Invariant) : (s.startBatch consumer shards idle count).Invariant := by
  have hfresh : ∀ e ∈ s.readNewProjectorEntries shards count,
      e ∈ s.stream ∧ s.status (streamReceiptId e) = .waiting := by
    intro e he
    obtain ⟨shard, _, he⟩ := List.mem_flatMap.mp he
    obtain ⟨hmem, he⟩ := List.mem_filter.mp (List.mem_of_mem_take he)
    exact ⟨hmem, (of_decide_eq_true he).2⟩
  have hclaimed : ∀ e ∈ s.autoClaimProjectorEntries shards idle count,
      e ∈ s.stream ∧ s.status (streamReceiptId e) = .pending := by
    intro e he
    obtain ⟨shard, _, he⟩ := List.mem_flatMap.mp he
    obtain ⟨hmem, he⟩ := List.mem_filter.mp (List.mem_of_mem_take he)
    exact ⟨hmem, (of_decide_eq_true he).2.1⟩
  have hevolves : Evolves s (s.startBatch consumer shards idle count) := by
    refine ⟨fun _ => id, fun e he => ⟨he.1, ?_⟩, .refl _⟩
    simp only [startBatch]
    split
    · simp
    · exact he.2
  refine ⟨⟨hs.sound.keys, hs.sound.receipted, fun e he hremoved => ?_⟩,
    fun task htask => ?_⟩
  · simp only [startBatch] at hremoved
    split at hremoved
    · simp at hremoved
    · exact (hs.sound.lossless e he hremoved).evolves hevolves
  · rcases List.mem_append.mp htask with hold | hnew
    · exact (hs.tasks task hold).evolves hevolves
    · obtain ⟨lane, hlane, rfl⟩ := List.mem_map.mp hnew
      obtain ⟨key, _, rfl⟩ := List.mem_map.mp hlane
      refine ⟨fun e he => ?_, by simp⟩
      rcases List.mem_append.mp (List.mem_filter.mp he).1 with hmem | hmem
      · obtain ⟨hstream, hpending⟩ := hclaimed e hmem
        exact hevolves.held e ⟨hstream, by simp [hpending]⟩
      · have hmem := (List.mem_filter.mp hmem).1
        refine ⟨(hfresh e hmem).1, ?_⟩
        simp only [startBatch]
        rw [if_pos (List.mem_map_of_mem hmem)]
        simp

theorem invariant_step {x : DeliveryAction} (hs : s.Invariant) (hspares : s.Spares maxAttempts x)
    (h : DeliveryStep maxAttempts s x s') : s'.Invariant := by
  unfold DeliveryStep next at h
  cases x with
  | append entry =>
    dsimp only at h
    split at h
    · rename_i hfresh
      cases h
      exact hs.leaves (leaves_append hs.sound hfresh)
    · cases h
  | batch consumer shards idle count =>
    cases h
    exact invariant_startBatch hs
  | crash consumer =>
    cases h
    exact invariant_tasks hs.sound fun task htask => hs.tasks task (List.mem_filter.mp htask).1
  | advance index response =>
    dsimp only at h
    split at h
    · cases h
    rename_i consumer phase htask
    cases h
    have hphase : s.PhaseOk phase := hs.tasks _ (List.mem_of_getElem? htask)
    have hguard : ∀ entry error rest, phase = .recordFailure entry error rest →
        response = .completes →
          s.retries (streamReceiptId entry) + 1 < maxAttempts ∨ s.Settled entry := by
      rintro entry error rest rfl rfl
      simpa [Spares, htask] using hspares
    obtain ⟨hleaves, hnext⟩ := operate_ok hs.sound hphase hguard
    refine invariant_tasks hleaves.sound fun task hmem => ?_
    have hold : task ∈ s.tasks → (s.operate maxAttempts response phase).1.PhaseOk task.2 :=
      fun hmem => (hs.tasks task hmem).evolves hleaves.evolves
    generalize s.operate maxAttempts response phase = result at hnext hold hmem
    obtain ⟨s₁, phase'⟩ := result
    cases phase' with
    | none => exact hold (List.mem_of_mem_eraseIdx hmem)
    | some phase' =>
      rcases List.mem_or_eq_of_mem_set hmem with hmem | rfl
      · exact hold hmem
      · exact hnext phase' rfl

/-- Before the first entry. -/
theorem invariant_start {T : Tables} (hT : T.receipts = []) :
    ({ tables := T } : Delivery).Invariant :=
  ⟨⟨by simp, fun row hrow => by simp [hT] at hrow, fun e he => by cases he⟩, by simp⟩

end

end Delivery

open Delivery in
/-- In every run in which no failure of an unsettled entry is its last, an entry leaves the
stream only when the event of its id is committed, or if it can never be projected. -/
theorem nothing_lost {maxAttempts : Nat} {T : Tables} {xs : List DeliveryAction} {s : Delivery}
    (hT : T.receipts = [])
    (h : Run (Guarded (Spares maxAttempts) (DeliveryStep maxAttempts)) { tables := T } xs s) :
    s.NothingLost :=
  (h.preserves (I := Invariant) (fun _ _ _ hstep hs => invariant_step hs hstep.1 hstep.2)
    (invariant_start hT)).sound.lossless

namespace Sample

/-- Bidder 2 opens the auction of product 1. -/
def opened : AuctionStreamEvent where
  eventId := 1
  correlationId := ['c']
  idempotencyKey := ['k']
  schemaVersion := 1
  type := .bidAccepted
  productId := 1
  actorId := 2
  requestedMaxPriceVnd := some 200
  targetUserId := none
  currentPriceVnd := 100
  leaderId := some 2
  leaderMaxPriceVnd := some 200
  endAtMs := .plain 1000
  status := .active
  sequence := 1
  version := 1
  occurredAtMs := .plain 10
  orderId := none
  reason := none

def openedEntry : RedisStreamEntry := { id := 1, payload := .event opened }

/-- A batch with the entry of the sample, whose lane fails and isolates it. -/
def isolated : List DeliveryAction :=
  [.batch 0 [0] (fun _ => true) 50, .advance 0 (.fails false)]

/-- An attempt during an outage of the database. -/
def failedAttempt : List DeliveryAction :=
  isolated ++ [.advance 0 (.fails false), .advance 0 .completes]

/-- One failed attempt, then one that reads three times, commits and acknowledges. -/
def retried : List DeliveryAction :=
  .append openedEntry :: failedAttempt ++ .batch 0 [0] (fun _ => true) 50 ::
    List.replicate 8 (.advance 0 .completes)

/-- Ten failed attempts, a dead letter and its acknowledgement. -/
def outage : List DeliveryAction :=
  .append openedEntry :: (List.replicate 10 failedAttempt).flatten ++
    List.replicate 3 (.advance 0 .completes)

/-- A failure that is not the last one allowed. -/
def retries (s : Delivery) : DeliveryAction → Bool
  | .advance index .completes =>
    match s.tasks[index]? with
    | some (_, .recordFailure entry _ _) => s.retries (streamReceiptId entry) + 1 < 10
    | _ => true
  | _ => true

theorem spares_of_retries {s : Delivery} {x : DeliveryAction} (h : retries s x = true) :
    s.Spares 10 x := by
  unfold Delivery.Spares
  unfold retries at h
  split at h
  · split at h
    · exact .inl (of_decide_eq_true h)
    · trivial
  · trivial

end Sample

/-- The entry is deleted after its second attempt. -/
theorem nothing_lost_sample : ∃ s, Sample.retried.foldlM (Delivery.next 10)
    { tables := Sample.tables } = some s ∧ s.status (0, 1) = .deleted ∧ s.NothingLost := by
  have hsome : (Sample.retried.foldlM (fun s x =>
      if Sample.retries s x = true then s.next 10 x else none) { tables := Sample.tables }).map
      (fun s => s.status (0, 1)) = some .deleted := by decide +kernel
  obtain ⟨s, hs, hdeleted⟩ := Option.map_eq_some_iff.mp hsome
  have hrun := run_guarded_of_foldlM hs
  refine ⟨s, run_partial_iff.mp (hrun.mono fun _ _ _ h => h.2), hdeleted, ?_⟩
  have hspares : Run (Guarded (Delivery.Spares 10) (DeliveryStep 10)) { tables := Sample.tables }
      Sample.retried s := hrun.mono fun _ _ _ h => ⟨Sample.spares_of_retries h.1, h.2⟩
  exact nothing_lost rfl hspares

/-- An outage of ten attempts loses an accepted bid. -/
theorem nothing_lost_outage : ¬ ∀ (T : Tables) (xs : List DeliveryAction) (s : Delivery),
    T.receipts = [] → Run (DeliveryStep 10) { tables := T } xs s → s.NothingLost := by
  intro h
  have hsome : (Sample.outage.foldlM (Delivery.next 10) { tables := Sample.tables }).map
      (fun s => (s.status (0, 1), s.stream, s.tables.receipts)) =
      some (.deleted, [Sample.openedEntry], []) := by decide +kernel
  obtain ⟨s, hs, hlost⟩ := Option.map_eq_some_iff.mp hsome
  obtain ⟨hstatus, hstream, hreceipts⟩ := by simpa using hlost
  have hsettled := h Sample.tables Sample.outage s rfl (run_partial_iff.mpr hs) Sample.openedEntry
    (by simp [hstream]) (.inr hstatus)
  have hparsed : parseEvent Sample.openedEntry.payload = .ok Sample.opened := by decide
  cases hsettled with
  | malformed hmalformed =>
    have hmaximum := (hmalformed _ hparsed).2
    simp [Sample.opened] at hmaximum
  | conflict _ htaken =>
    obtain ⟨row, hrow, _⟩ := htaken
    simp [hreceipts] at hrow
  | committed _ _ _ _ hcommitted =>
    obtain ⟨entry, hrow⟩ := hcommitted.receipt
    simp [hreceipts] at hrow

end MiracleAuction
