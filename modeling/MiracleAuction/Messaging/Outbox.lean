import MiracleAuction.Authority.Keys

/-!
# The outbox

The rows of `auction_outbox`, the envelopes that the relay publishes of them, and
the checks of `validateRelayRow`.
-/
namespace MiracleAuction.Messaging

/-! ## Values of JavaScript -/

/-- A JavaScript number; a finite one as the fraction it is. -/
inductive Number
  | nan
  | infinite (negative : Bool)
  | finite (value : ℚ)
  deriving DecidableEq

/-- `Math.min` with a number that is finite. -/
def Number.minimum (y : ℚ) : Number → Number
  | .nan => .nan
  | .infinite true => .infinite true
  | .infinite false => .finite y
  | .finite x => .finite (min x y)

/-- `new Date(Date.now() + x)`, if that is a valid date. -/
def dateAfter (clock : DateMs) : Number → Option DateMs
  | .finite x =>
    let time := (clock.val + x).num.tdiv (clock.val + x).den
    if h : time.natAbs ≤ 8640000000000000 then some ⟨time, h⟩ else none
  | _ => none

/-- The characters that fit into so many UTF-16 units. -/
def takeUnits : Nat → List Char → List Char
  | _, [] => []
  | n, c :: cs =>
    let size := if c.toNat < 0x10000 then 1 else 2
    if size ≤ n then c :: takeUnits (n - size) cs else []

/-- `message.slice(0, n)`, without the first half of a character that is cut. -/
def slice (n : Nat) (message : String) : String := String.ofList (takeUnits n message.toList)

example : slice 3 "a𝄞b𝄞" = "a𝄞" := by decide

/-- What becomes of a statement that a worker waits for: it is carried out, with or
without an answer, or the worker gives up while it is on its way. -/
inductive Answer
  | done
  | replyLost
  | givenUp
  deriving DecidableEq, Repr

/-- The statement has been carried out. -/
def Answer.effective : Answer → Bool
  | .done | .replyLost => true
  | .givenUp => false

inductive Json
  | null
  | bool (b : Bool)
  | number (n : ℚ)
  | string (s : String)
  | array (items : List Json)
  | object (fields : List (String × Json))

/-- Truthy, of type `object`, and no array. -/
def Json.isObject : Json → Bool
  | .object _ => true
  | _ => false

/-- `kafkaTopics`: each name comes from the environment or is the default. -/
structure KafkaTopics where
  bidding : String := "bidding_events"
  domain : String := "domain_events"
  dashboard : String := "dashboard_updates"
  asyncDlq : String := "async_events_dlq"

def KafkaTopics.relayTopics (topics : KafkaTopics) : List String :=
  [topics.bidding, topics.domain, topics.dashboard, topics.asyncDlq]

/-! ## `EVENT_TYPE` -/

/-- `[a-z0-9_]`. -/
def isWordChar (c : Char) : Bool := c.isLower || c.isDigit || c == '_'

/-- `[a-z][a-z0-9_]*`. -/
def isName : List Char → Bool
  | c :: cs => c.isLower && cs.all isWordChar
  | [] => false

/-- `[a-z0-9_]+`. -/
def isPart : List Char → Bool
  | c :: cs => isWordChar c && cs.all isWordChar
  | [] => false

/-- `v[1-9]\d*`. -/
def isVersion : List Char → Bool
  | v :: d :: ds => v == 'v' && d.isDigit && d != '0' && ds.all Char.isDigit
  | _ => false

/-- `EVENT_TYPE.test`. No class of the pattern holds the dot, so it constrains the
parts between the dots one by one. -/
def matchesEventType (text : String) : Bool :=
  match text.toList.splitOn '.' with
  | name :: part :: parts =>
    isName name && (part :: parts).dropLast.all isPart &&
      isVersion ((part :: parts).getLast (by simp))
  | _ => false

/-! ## Rows -/

/-- The columns that a producer fills. -/
structure OutboxEvent where
  eventId : String
  eventType : String
  eventVersion : Int
  aggregateId : String
  payload : Json
  topic : String
  correlationId : String
  causationId : Option String := none
  occurredAt : DateMs

structure RelayRow extends OutboxEvent where
  id : Nat
  attempts : Nat

/-- A `TIMESTAMPTZ` value. -/
inductive Timestamp
  | negInfinity
  | at (time : Int)
  | infinity
  deriving DecidableEq, Repr

/-- The comparison with `NOW()`. -/
def Timestamp.reached (now : Int) : Timestamp → Prop
  | .negInfinity => True
  | .at time => time ≤ now
  | .infinity => False

instance (now : Int) (t : Timestamp) : Decidable (t.reached now) := by
  unfold Timestamp.reached; split <;> infer_instance

/-- A row of `auction_outbox`. -/
structure OutboxRow extends RelayRow where
  availableAt : Timestamp
  deliveredAt : Option DateMs := none
  lastError : Option String := none
  terminalAt : Option DateMs := none

/-- `validateRelayRow`. -/
def validateRelayRow (relayTopics : List String) (row : OutboxEvent) : Option String :=
  if row.topic ∉ relayTopics then some ("Unsupported outbox topic: " ++ row.topic)
  else if !matchesEventType row.eventType then some ("Invalid event type: " ++ row.eventType)
  else if row.eventVersion < 1 then some "Invalid event version"
  else if row.aggregateId = "" ∨ row.correlationId = "" ∨ row.eventId = "" then
    some "Invalid event envelope"
  else if !row.payload.isObject then some "Invalid event payload"
  else none

/-- The row passes every check. -/
theorem validateRelayRow_eq_none {relayTopics : List String} {row : OutboxEvent} :
    validateRelayRow relayTopics row = none ↔
      row.topic ∈ relayTopics ∧ matchesEventType row.eventType = true ∧
        1 ≤ row.eventVersion ∧
        (row.aggregateId ≠ "" ∧ row.correlationId ≠ "" ∧ row.eventId ≠ "") ∧
        row.payload.isObject = true := by
  unfold validateRelayRow
  constructor
  · intro h
    split at h
    · cases h
    rename_i htopic
    split at h
    · cases h
    rename_i htype
    split at h
    · cases h
    rename_i hversion
    split at h
    · cases h
    rename_i hids
    split at h
    · cases h
    rename_i hpayload
    exact ⟨not_not.mp htopic, by simpa using htype, not_lt.mp hversion,
      by simpa [not_or] using hids, by simpa using hpayload⟩
  · rintro ⟨htopic, htype, hversion, ⟨haggregate, hcorrelation, hevent⟩, hpayload⟩
    rw [if_neg (not_not.mpr htopic), if_neg (by simp [htype]), if_neg (not_lt.mpr hversion),
      if_neg (by simp [haggregate, hcorrelation, hevent]), if_neg (by simp [hpayload])]

/-! ## `addOutboxEvent` -/

structure AddOutboxEventInput where
  topic : String
  eventType : String
  aggregateId : String
  payload : Json
  correlationId : Option String := none
  causationId : Option String := none

/-- The values of `randomUUID` and of the clock in a call of `addOutboxEvent`. -/
structure Generated where
  eventId : String
  correlationId : String
  occurredAt : DateMs

def addOutboxEvent (topics : KafkaTopics) (input : AddOutboxEventInput) (generated : Generated) :
    Except String OutboxEvent :=
  if input.topic ∉ topics.relayTopics then .error ("Unsupported outbox topic: " ++ input.topic)
  else
    .ok
      { eventId := generated.eventId
        eventType := input.eventType
        eventVersion := 1
        aggregateId := input.aggregateId
        payload := input.payload
        topic := input.topic
        correlationId := input.correlationId.getD generated.correlationId
        causationId := input.causationId
        occurredAt := generated.occurredAt }

/-- The event that is added has the columns of the input. -/
theorem addOutboxEvent_ok {topics : KafkaTopics} {input : AddOutboxEventInput}
    {generated : Generated} {event : OutboxEvent}
    (h : addOutboxEvent topics input generated = .ok event) :
    input.topic ∈ topics.relayTopics ∧ event =
      { eventId := generated.eventId
        eventType := input.eventType
        eventVersion := 1
        aggregateId := input.aggregateId
        payload := input.payload
        topic := input.topic
        correlationId := input.correlationId.getD generated.correlationId
        causationId := input.causationId
        occurredAt := generated.occurredAt } := by
  unfold addOutboxEvent at h
  split at h
  · cases h
  · rename_i htopic
    cases h
    exact ⟨not_not.mp htopic, rfl⟩

/-! ## Envelopes -/

structure EventEnvelope where
  eventId : String
  eventType : String
  eventVersion : Int
  aggregateId : String
  occurredAt : DateMs
  correlationId : String
  causationId : Option String
  payload : Json

/-- `createEventEnvelope`, of an outbox event. -/
def createEventEnvelope (event : OutboxEvent) : EventEnvelope where
  eventId := event.eventId
  eventType := event.eventType
  eventVersion := event.eventVersion
  aggregateId := event.aggregateId
  occurredAt := event.occurredAt
  correlationId := event.correlationId
  causationId := event.causationId
  payload := event.payload

structure KafkaMessage where
  key : String
  value : EventEnvelope

structure KafkaEventBatch where
  topic : String
  messages : List KafkaMessage

/-- The message that the relay makes of an event. -/
def relayMessage (event : OutboxEvent) : KafkaMessage :=
  ⟨event.aggregateId, createEventEnvelope event⟩

namespace Sample

/-- A time in the first hours of the epoch. -/
def time (ms : Fin 10000000) : DateMs := .early ms

def eventId : String := "11111111-1111-4111-a111-111111111111"

def correlationId : String := "22222222-2222-4222-a222-222222222222"

def firstId : String := "33333333-3333-4333-a333-333333333333"

def secondId : String := "44444444-4444-4444-a444-444444444444"

end Sample

end MiracleAuction.Messaging
