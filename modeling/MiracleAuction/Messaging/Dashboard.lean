import MiracleAuction.Messaging.Notifications

/-!
# `dashboard.worker.ts`: receipts of the dashboard

Each event gets a receipt before it is completed, and is tried again until its receipt
is processed or terminal.
-/
namespace MiracleAuction.Messaging

theorem hashedId_ne_empty (hash : String) : hashedId hash ≠ "" := by
  simp [hashedId]

theorem toISOString_ne_empty (date : DateMs) : toISOString date ≠ "" := by
  simp [toISOString]

/-- An event that was parsed, or the one of a message that cannot be. -/
abbrev DashboardEvent := { event : IncomingEvent // event.WellFormed }

def DashboardEvent.eventId (event : DashboardEvent) : String := event.val.eventId

/-- A row of `dashboard_event_receipts`. -/
structure DashboardReceipt where
  event : DashboardEvent
  topic : String
  partition : Nat
  offset : Nat
  status : ReceiptStatus
  attempts : Nat
  lastError : Option String := none
  processedAt : Option DateMs := none
  terminalAt : Option DateMs := none

/-- Processed or terminal. -/
def DashboardReceipt.Settled (receipt : DashboardReceipt) : Prop :=
  receipt.status = .processed ∨ receipt.status = .terminal

instance DashboardReceipt.decidableSettled (receipt : DashboardReceipt) :
    Decidable receipt.Settled := by
  unfold DashboardReceipt.Settled; infer_instance

/-- The tables of both consumers. -/
structure WorkerDb extends NotificationDb where
  dashboardReceipts : String → Option DashboardReceipt := fun _ => none

/-! ## Statements -/

/-- The upsert of `receiptAttempts`. -/
def countedReceipt (event : DashboardEvent) (message : IncomingMessage) :
    Option DashboardReceipt → DashboardReceipt
  | none =>
    { event, topic := message.topic, partition := message.partition, offset := message.offset
      status := .retrying, attempts := 1 }
  | some receipt =>
    { receipt with
      attempts := receipt.attempts + 1
      partition := message.partition
      offset := message.offset
      status := .retrying }

/-- The upsert of `completeDashboardReceipt`. -/
def completedReceipt (event : DashboardEvent) (message : IncomingMessage) (attempts : Nat)
    (now : DateMs) : Option DashboardReceipt → DashboardReceipt
  | none =>
    { event, topic := message.topic, partition := message.partition, offset := message.offset
      status := .processed, attempts, processedAt := some now }
  | some receipt =>
    { receipt with
      status := .processed
      attempts
      partition := message.partition
      offset := message.offset
      processedAt := some now
      lastError := none }

/-- The upsert of `recordDashboardTerminal`. -/
def terminalDashboardReceipt (event : DashboardEvent) (message : IncomingMessage) (attempts : Nat)
    (error : String) (now : DateMs) : Option DashboardReceipt → DashboardReceipt
  | none =>
    { event, topic := message.topic, partition := message.partition, offset := message.offset
      status := .terminal, attempts, lastError := some (slice 2000 error), terminalAt := some now }
  | some receipt =>
    { receipt with
      status := .terminal
      attempts
      lastError := some (slice 2000 error)
      terminalAt := some now }

namespace WorkerDb
variable (db : WorkerDb)

def setDashboardReceipt (eventId : String) (receipt : DashboardReceipt) : WorkerDb :=
  { db with dashboardReceipts := Function.update db.dashboardReceipts eventId (some receipt) }

def upsertDashboardReceipt (eventId : String)
    (write : Option DashboardReceipt → DashboardReceipt) : WorkerDb :=
  db.setDashboardReceipt eventId (write (db.dashboardReceipts eventId))

def dashboardSettled (eventId : String) : Bool :=
  (db.dashboardReceipts eventId).any (·.Settled)

end WorkerDb

/-- The event of a message that has failed for good. -/
def consumerTerminal (topics : KafkaTopics) (groupId : String) (event : DashboardEvent)
    (message : IncomingMessage) (attempts : Nat) (error : String) : AddOutboxEventInput where
  topic := topics.asyncDlq
  eventType := "async.consumer_terminal.v1"
  aggregateId := event.val.aggregateId
  correlationId := some event.val.correlationId
  causationId := some event.eventId
  payload := .object
    [("consumer", .string groupId),
      ("source", .object
        [("topic", .string message.topic), ("partition", .number message.partition),
          ("offset", .string (toString message.offset))]),
      ("envelope", event.val.json), ("attempt", .number attempts),
      ("error", .object [("message", .string (slice 2000 error))])]

/-- The failure of an event is in the outbox. -/
def ReportsTerminal (topics : KafkaTopics) (eventId : String) (row : OutboxEvent) : Prop :=
  row.topic = topics.asyncDlq ∧ row.causationId = some eventId ∧
    row.eventType = "async.consumer_terminal.v1"

instance (topics : KafkaTopics) (eventId : String) (row : OutboxEvent) :
    Decidable (ReportsTerminal topics eventId row) := by
  unfold ReportsTerminal; infer_instance

/-- `recordDashboardTerminal`. -/
def recordDashboardTerminal (topics : KafkaTopics) (groupId : String) (event : DashboardEvent)
    (message : IncomingMessage) (attempts : Nat) (error : String) (now : DateMs)
    (generated : Generated) (db : WorkerDb) : Except String WorkerDb := do
  let db := db.upsertDashboardReceipt event.eventId
    (terminalDashboardReceipt event message attempts error now)
  if db.outbox.any (ReportsTerminal topics event.eventId ·) then return db
  let failure ←
    addOutboxEvent topics (consumerTerminal topics groupId event message attempts error) generated
  return { db with outbox := db.outbox ++ [failure] }

/-! ## Handlers -/

inductive DashboardPhase
  | arrived
  | existing (event : DashboardEvent)
  | attempt (event : DashboardEvent)
  | loop (event : DashboardEvent) (attempts : Nat)
  | complete (event : DashboardEvent) (attempts : Nat)
  | failing (event : DashboardEvent) (attempts : Nat) (error : String)
  | waiting (event : DashboardEvent)
  | terminal (event : DashboardEvent) (attempts : Nat) (error : String)

section
variable (topics : KafkaTopics) (groupId : String) (retryLimit : Nat) (sha256 : String → String)

/-- The event that stands for a message which cannot be parsed. -/
def invalidDashboardEvent (message : IncomingMessage) (text : String) (now : DateMs) :
    DashboardEvent :=
  let eventId := syntheticEventId sha256 message.topic message.partition message.offset
  { val :=
      { eventId
        eventType := "dashboard.invalid_event.v1"
        eventVersion := 1
        aggregateId := "invalid"
        occurredAt := toISOString now
        correlationId := eventId
        payload := .object [("raw", .string (slice 4000 text))] }
    property :=
      { eventId := hashedId_ne_empty _
        eventType := by simp
        aggregateId := by simp
        occurredAt := toISOString_ne_empty now
        correlationId := hashedId_ne_empty _
        eventVersion := le_refl 1
        payload := rfl } }

/-- The start of `processMessage`. -/
def receiveDashboard (message : IncomingMessage) (now : DateMs) : Progress DashboardPhase String :=
  match message.value with
  | none => .threw "Kafka event has no value"
  | some value =>
    match h : message.event with
    | .error error =>
      .proceed (.terminal (invalidDashboardEvent sha256 message value.text now) retryLimit error)
    | .ok event => .proceed (.existing ⟨event, message.event_ok h⟩)

/-- A step of what `eachBatch` does with a message; the refresh waits for the end of the batch. -/
def processMessage (message : IncomingMessage) (db : WorkerDb) :
    DashboardPhase → StepInput → Option (WorkerDb × Progress DashboardPhase String)
  | .arrived, .flags stop now =>
    some (db, if stop then .returned else receiveDashboard retryLimit sha256 message now)
  | .existing event, .query none =>
    some (db, if db.dashboardSettled event.eventId then .returned else .proceed (.attempt event))
  | .existing _, .query (some failure) => some (db, .threw failure)
  | .attempt event, .write answer failure _ _ =>
    let receipt := countedReceipt event message (db.dashboardReceipts event.eventId)
    some (if answer.effective then db.setDashboardReceipt event.eventId receipt else db,
      if answer = .done then .proceed (.loop event receipt.attempts) else .threw failure)
  | .loop event attempts, .flags stopping _ =>
    some (db, if stopping then .threw "Dashboard worker is stopping"
      else .proceed (.complete event attempts))
  | .complete event attempts, .write answer failure now _ =>
    let completed :=
      db.upsertDashboardReceipt event.eventId (completedReceipt event message attempts now)
    some (if answer.effective then completed else db,
      if answer = .done then .returned else .proceed (.failing event attempts failure))
  | .failing event attempts error, .write answer failure _ _ =>
    match db.dashboardReceipts event.eventId with
    | none => some (db, .threw failure)
    | some receipt =>
      let noted := { receipt with lastError := some (slice 2000 error) }
      some (if answer.effective then db.setDashboardReceipt event.eventId noted else db,
        if answer ≠ .done then .threw failure
        else if retryLimit ≤ attempts then .proceed (.terminal event attempts error)
        else .proceed (.waiting event))
  | .waiting event, .query none => some (db, .proceed (.attempt event))
  | .waiting _, .query (some failure) => some (db, .threw failure)
  | .terminal event attempts error, .write answer failure now generated =>
    match recordDashboardTerminal topics groupId event message attempts error now generated db with
    | .error failure => some (db, .threw failure)
    | .ok recorded =>
      some (if answer.effective then recorded else db,
        if answer = .done then .returned else .threw failure)
  | _, _ => none

end

end MiracleAuction.Messaging
