import MiracleAuction.Messaging.Dashboard
import MiracleAuction.Messaging.Deliveries

/-!
# The producers of outbox events

Every row that is written to `auction_outbox`, and what `validateRelayRow` says of it.
The types that are named without a version do not match `EVENT_TYPE`.
-/
namespace MiracleAuction.Messaging

/-! ## The projector -/

def eventTypeText : EventType → String
  | .bidAccepted => "BID_ACCEPTED"
  | .buyNowCompleted => "BUY_NOW_COMPLETED"
  | .bidderBanned => "BIDDER_BANNED"
  | .auctionClosed => "AUCTION_CLOSED"
  | .auctionCancelled => "AUCTION_CANCELLED"

def statusText : AuctionStatus → String
  | .pending => "PENDING"
  | .active => "ACTIVE"
  | .sold => "SOLD"
  | .ended => "ENDED"
  | .cancelled => "CANCELLED"

/-- A UUID in hexadecimal digits. -/
def uuidText (id : Uuid) : String :=
  let hex := String.ofList (Nat.toDigits 16 id)
  let text := String.ofList (List.replicate (32 - hex.length) '0') ++ hex
  cut text 0 8 ++ "-" ++ cut text 8 12 ++ "-" ++ cut text 12 16 ++ "-" ++ cut text 16 20 ++ "-" ++
    cut text 20 32

/-- The digits of a number as `%g` prints a large one. -/
def scientificText (n : Nat) : String :=
  let digits := Nat.toDigits 10 n
  let fraction := (digits.drop 1).reverse.dropWhile (· = '0') |>.reverse
  String.ofList (digits.take 1 ++ (if fraction.isEmpty then [] else '.' :: fraction)) ++ "e+" ++
    padded 2 (digits.length - 1)

def numeralText : Numeral → String
  | .plain n => toString n
  | .scientific n => (if n < 0 then "-" else "") ++ scientificText n.natAbs

def optionalText (value : Option String) : Json := (value.map .string).getD .null

/-- `jsonPayload`; a leader or a leader maximum that is missing is an empty text. -/
def jsonPayload (event : AuctionStreamEvent) : Json :=
  .object
    [("eventId", .string (uuidText event.eventId)),
      ("correlationId", .string (String.ofList event.correlationId)),
      ("idempotencyKey", .string (String.ofList event.idempotencyKey)),
      ("schemaVersion", .number event.schemaVersion), ("type", .string (eventTypeText event.type)),
      ("productId", .string (toString event.productId)),
      ("actorId", .string (toString event.actorId)),
      ("requestedMaxPriceVnd", optionalText (event.requestedMaxPriceVnd.map toString)),
      ("targetUserId", optionalText (event.targetUserId.map toString)),
      ("currentPriceVnd", .string (toString event.currentPriceVnd)),
      ("leaderId", .string ((event.leaderId.map toString).getD "")),
      ("leaderMaxPriceVnd", .string ((event.leaderMaxPriceVnd.map toString).getD "")),
      ("endAtMs", .string (numeralText event.endAtMs)),
      ("status", .string (statusText event.status)),
      ("sequence", .string (toString event.sequence)),
      ("version", .string (toString event.version)),
      ("occurredAtMs", .string (numeralText event.occurredAtMs)),
      ("orderId", optionalText (event.orderId.map uuidText)),
      ("reason", optionalText (event.reason.map String.ofList))]

/-- A row of `projectAuctionEntry` or `projectAuctionLane` as it is read; the topic, the
correlation id and the time are the defaults of their columns. -/
def projectedOutbox (row : MiracleAuction.OutboxRow) (generated : Generated) : OutboxEvent where
  eventId := uuidText row.eventId
  eventType := row.eventType
  eventVersion := 1
  aggregateId := toString row.aggregateId
  payload := jsonPayload row.payload
  topic := "bidding_events"
  correlationId := generated.correlationId
  occurredAt := generated.occurredAt

/-! ## Callers of `addOutboxEvent` -/

inductive OrderDecision
  | rejected | paymentVerified
  deriving DecidableEq, Repr

inductive Moderation
  | remove | restore | destroy
  deriving DecidableEq, Repr

def Moderation.text : Moderation → String
  | .remove => "remove"
  | .restore => "restore"
  | .destroy => "destroy"

section
variable (topics : KafkaTopics)

def addBidOutboxEvent (eventType : String) (aggregateId : Int) (payload : Json) :
    AddOutboxEventInput where
  topic := topics.bidding
  eventType := eventType
  aggregateId := toString aggregateId
  payload := payload

/-- `PlaceBidUseCase`. -/
def bidAccepted (productId bidderId currentPrice priceOwnerId : Int) : AddOutboxEventInput :=
  addBidOutboxEvent topics "bid.accepted" productId (.object
    [("productId", .number productId), ("bidderId", .number bidderId),
      ("currentPrice", .string (toString currentPrice)), ("priceOwnerId", .number priceOwnerId)])

def auctionExtended (productId : Int) (endTime : DateMs) : AddOutboxEventInput :=
  addBidOutboxEvent topics "auction.extended" productId (.object
    [("productId", .number productId), ("endTime", .string (toISOString endTime))])

/-- `BuyNowUseCase.complete`. -/
def buyNowCompleted (productId userId : Int) (orderId : String) (price : Int) :
    AddOutboxEventInput :=
  addBidOutboxEvent topics "auction.buy_now_completed" productId (.object
    [("productId", .number productId), ("buyerId", .number userId), ("orderId", .string orderId),
      ("currentPrice", .string (toString price))])

/-- `BanBidderUseCase`. -/
def bidderBanned (productId bannedUserId : Int) (reason : String) : AddOutboxEventInput :=
  addBidOutboxEvent topics "bidder.banned" productId (.object
    [("productId", .number productId), ("bannedUserId", .number bannedUserId),
      ("reason", .string reason)])

def extendInterruptedAuctions (productId epoch : Int) (extensionSeconds : ℚ) :
    AddOutboxEventInput where
  topic := topics.domain
  eventType := "auction.authority_recovered"
  aggregateId := toString productId
  payload := .object
    [("productId", .string (toString productId)), ("recoveryEpoch", .string (toString epoch)),
      ("extensionSeconds", .number extensionSeconds)]

def transitionSellerOrder (nextStatus : OrderDecision) (orderId : Int) (productId : Option Int) :
    AddOutboxEventInput where
  topic := topics.domain
  eventType :=
    if nextStatus = .paymentVerified then "order.payment_verified.v1" else "order.rejected.v1"
  aggregateId := toString orderId
  payload := .object
    [("orderId", .string (toString orderId)), ("productId", optionalText (productId.map toString))]

def editUserRoleAndStatus (userId : Int) (role status correlationId : String) :
    AddOutboxEventInput where
  topic := topics.domain
  eventType := "user.access_changed.v1"
  aggregateId := toString userId
  correlationId := some correlationId
  payload := .object
    [("userId", .number userId), ("role", .string role), ("status", .string status)]

def setApplicationStatus (applicationId userId : Int) (status correlationId : String) :
    AddOutboxEventInput where
  topic := topics.domain
  eventType := if status = "accepted" then "seller.approved.v1" else "seller.rejected.v1"
  aggregateId := toString applicationId
  correlationId := some correlationId
  payload := .object
    [("applicationId", .number applicationId), ("userId", .number userId),
      ("status", .string status)]

/-- `askers` are the authors of the questions. -/
def postProductQuestion (askers : Int → Option Int) (productId userId questionId : Int)
    (parentId : Option Int) (sellerId : Int) : AddOutboxEventInput :=
  let parent := (parentId.filter (· ≠ 0)).bind askers
  let isSellerAnswer := parent.any fun askerId => sellerId = userId && askerId ≠ userId
  { topic := topics.domain
    eventType := if isSellerAnswer then "product.question_answered.v1"
      else "product.question_created.v1"
    aggregateId := toString productId
    payload := .object
      [("productId", .string (toString productId)), ("questionId", .string (toString questionId)),
        ("actorId", .string (toString userId)),
        ("parentQuestionId", optionalText (parentId.map toString))] }

def updateProductDescription (productId sellerId : Int) (leaderId : Option Int) :
    AddOutboxEventInput where
  topic := topics.domain
  eventType := "product.description_changed.v1"
  aggregateId := toString productId
  payload := .object
    [("productId", .string (toString productId)), ("sellerId", .string (toString sellerId)),
      ("leaderId", optionalText (leaderId.map toString))]

def moderateProduct (id : Int) (action : Moderation) (correlationId : String) :
    AddOutboxEventInput where
  topic := topics.domain
  eventType := "product." ++ action.text ++ "d.v1"
  aggregateId := toString id
  correlationId := some correlationId
  payload := .object [("productId", .number id), ("action", .string action.text)]

def requestDashboardRecalculation (correlationId : Option String) (now : DateMs) :
    AddOutboxEventInput where
  topic := topics.dashboard
  eventType := "dashboard.refresh_requested.v1"
  aggregateId := "dashboard"
  correlationId := correlationId
  payload := .object [("requestedAt", .string (toISOString now))]

/-- `retryDlq` of a notification; the event is sent again to where it came from. -/
def retryNotification (receipt : NotificationReceipt) (correlationId : String) :
    AddOutboxEventInput where
  topic := receipt.metadata.topic
  eventType := receipt.event.eventType
  aggregateId := receipt.event.aggregateId
  correlationId := some correlationId
  causationId := some receipt.event.eventId
  payload := receipt.event.payload

/-- `retryDlq` of an event of the dashboard. -/
def retryDashboard (eventId correlationId : String) : AddOutboxEventInput where
  topic := topics.dashboard
  eventType := "dashboard.dlq_retry_requested.v1"
  aggregateId := "dashboard"
  correlationId := some correlationId
  causationId := some eventId
  payload := .object [("failedEventId", .string eventId)]

end

/-! ## Rows -/

/-- The callers of `addOutboxEvent`, with what they are called with. -/
inductive Producer
  | bidAccepted (productId bidderId currentPrice priceOwnerId : Int)
  | auctionExtended (productId : Int) (endTime : DateMs)
  | buyNowCompleted (productId userId : Int) (orderId : String) (price : Int)
  | bidderBanned (productId bannedUserId : Int) (reason : String)
  | extendInterruptedAuctions (productId epoch : Int) (extensionSeconds : ℚ)
  | transitionSellerOrder (nextStatus : OrderDecision) (orderId : Int) (productId : Option Int)
  | editUserRoleAndStatus (userId : Int) (role status correlationId : String)
  | setApplicationStatus (applicationId userId : Int) (status correlationId : String)
  | postProductQuestion (askers : Int → Option Int) (productId userId questionId : Int)
    (parentId : Option Int) (sellerId : Int)
  | updateProductDescription (productId sellerId : Int) (leaderId : Option Int)
  | moderateProduct (id : Int) (action : Moderation) (correlationId : String)
  | requestDashboardRecalculation (correlationId : Option String) (now : DateMs)
  | retryNotification (receipt : NotificationReceipt) (correlationId : String)
  | retryDashboard (receipt : DashboardReceipt) (correlationId : String)
  | recordDashboardTerminal (groupId : String) (event : DashboardEvent)
    (message : IncomingMessage) (attempts : Nat) (error : String)
  | terminalReceipt (groupId : String) (event : ReceivedEvent) (metadata : Metadata)
    (attempts : Nat) (error : String)
  | markDeliveryFailure (row : ClaimedDelivery) (error : String)

/-- What a producer hands to `addOutboxEvent`. -/
def Producer.input (topics : KafkaTopics) : Producer → Except String AddOutboxEventInput
  | .bidAccepted productId bidderId currentPrice priceOwnerId =>
    .ok (Messaging.bidAccepted topics productId bidderId currentPrice priceOwnerId)
  | .auctionExtended productId endTime => .ok (Messaging.auctionExtended topics productId endTime)
  | .buyNowCompleted productId userId orderId price =>
    .ok (Messaging.buyNowCompleted topics productId userId orderId price)
  | .bidderBanned productId bannedUserId reason =>
    .ok (Messaging.bidderBanned topics productId bannedUserId reason)
  | .extendInterruptedAuctions productId epoch extensionSeconds =>
    .ok (Messaging.extendInterruptedAuctions topics productId epoch extensionSeconds)
  | .transitionSellerOrder nextStatus orderId productId =>
    .ok (Messaging.transitionSellerOrder topics nextStatus orderId productId)
  | .editUserRoleAndStatus userId role status correlationId =>
    .ok (Messaging.editUserRoleAndStatus topics userId role status correlationId)
  | .setApplicationStatus applicationId userId status correlationId =>
    .ok (Messaging.setApplicationStatus topics applicationId userId status correlationId)
  | .postProductQuestion askers productId userId questionId parentId sellerId =>
    .ok (Messaging.postProductQuestion topics askers productId userId questionId parentId sellerId)
  | .updateProductDescription productId sellerId leaderId =>
    .ok (Messaging.updateProductDescription topics productId sellerId leaderId)
  | .moderateProduct id action correlationId =>
    .ok (Messaging.moderateProduct topics id action correlationId)
  | .requestDashboardRecalculation correlationId now =>
    .ok (Messaging.requestDashboardRecalculation topics correlationId now)
  | .retryNotification receipt correlationId =>
    if receipt.status = .terminal then .ok (Messaging.retryNotification receipt correlationId)
    else .error "DLQ event was not found"
  | .retryDashboard receipt correlationId =>
    if receipt.status = .terminal then
      .ok (Messaging.retryDashboard topics receipt.event.eventId correlationId)
    else .error "DLQ event was not found"
  | .recordDashboardTerminal groupId event message attempts error =>
    .ok (consumerTerminal topics groupId event message attempts error)
  | .terminalReceipt groupId event metadata attempts error =>
    .ok (consumerFailed topics groupId event metadata attempts error)
  | .markDeliveryFailure row error => .ok (deliveryFailed topics row error)

/-- Where a row of the outbox comes from. -/
inductive OutboxSource
  | projector (event : AuctionStreamEvent)
  | producer (p : Producer)

/-- The insert of a row. A text that is no UUID is refused in the columns of ids; here
only the empty one is. -/
def insertOutbox (row : OutboxEvent) : Except String OutboxEvent :=
  if row.eventId = "" ∨ row.correlationId = "" ∨ row.causationId = some "" then
    .error "Error creating UUID"
  else .ok row

/-- The row that is written. -/
def OutboxSource.write (topics : KafkaTopics) (generated : Generated) :
    OutboxSource → Except String OutboxEvent
  | .projector event => insertOutbox (projectedOutbox (Projector.outboxRow event) generated)
  | .producer p => do
    let input ← p.input topics
    let row ← addOutboxEvent topics input generated
    insertOutbox row

/-! ## What the relay accepts -/

/-- The name of the event ends in a version. -/
def Producer.Versioned : Producer → Prop
  | .bidAccepted .. | .auctionExtended .. | .buyNowCompleted .. | .bidderBanned .. => False
  | .extendInterruptedAuctions .. => False
  | _ => True

/-- The projector relies on the default name of a topic, the others on their own names. -/
def OutboxSource.Publishable (topics : KafkaTopics) : OutboxSource → Prop
  | .projector _ => "bidding_events" ∈ topics.relayTopics
  | .producer p => p.Versioned

section
variable {topics : KafkaTopics} {generated : Generated} {row stored : OutboxEvent}
  {input : AddOutboxEventInput} {p : Producer}

theorem insertOutbox_ok (h : insertOutbox row = .ok stored) :
    stored = row ∧ row.eventId ≠ "" ∧ row.correlationId ≠ "" := by
  unfold insertOutbox at h
  split at h
  · cases h
  · rename_i hids
    cases h
    exact ⟨rfl, fun hevent => hids (.inl hevent), fun hid => hids (.inr (.inl hid))⟩

/-- The types that the notification consumer keeps are versioned. -/
theorem matchesEventType_of_named {eventType : String}
    (h : requiresNotification eventType = true ∨ eventType = invalidEventType) :
    matchesEventType eventType = true := by
  have hall : ∀ eventType ∈ invalidEventType :: notificationEventTypes,
      matchesEventType eventType = true := by decide +kernel
  refine hall eventType ?_
  obtain h | rfl := h
  · exact List.mem_cons_of_mem _ (of_decide_eq_true h)
  · exact List.mem_cons_self

/-- Each producer names the aggregate, and its payload is an object. -/
theorem Producer.addressed (h : p.input topics = .ok input) :
    input.aggregateId ≠ "" ∧ input.payload.isObject = true := by
  cases p with
  | retryNotification receipt =>
    simp only [Producer.input] at h
    split at h
    · cases h
      exact ⟨receipt.event.aggregate, receipt.event.object⟩
    · cases h
  | retryDashboard =>
    simp only [Producer.input] at h
    split at h
    · cases h
      exact ⟨by simp [Messaging.retryDashboard], rfl⟩
    · cases h
  | requestDashboardRecalculation =>
    cases h
    exact ⟨by simp [Messaging.requestDashboardRecalculation], rfl⟩
  | recordDashboardTerminal groupId event =>
    cases h
    exact ⟨event.property.aggregateId, rfl⟩
  | terminalReceipt groupId event =>
    cases h
    exact ⟨event.aggregate, rfl⟩
  | markDeliveryFailure row =>
    cases h
    exact ⟨Nat.repr_ne_empty, rfl⟩
  | _ =>
    cases h
    exact ⟨toString_ne_empty _, rfl⟩

/-- Only a versioned name matches. -/
theorem Producer.matches_iff (h : p.input topics = .ok input) :
    matchesEventType input.eventType = true ↔ p.Versioned := by
  cases p with
  | bidAccepted | auctionExtended | buyNowCompleted | bidderBanned | extendInterruptedAuctions =>
    cases h
    refine iff_of_false ?_ not_false
    simp only [Messaging.bidAccepted, Messaging.auctionExtended, Messaging.buyNowCompleted,
      Messaging.bidderBanned, addBidOutboxEvent, Messaging.extendInterruptedAuctions]
    decide +kernel
  | retryNotification receipt =>
    simp only [Producer.input] at h
    split at h
    · cases h
      exact iff_of_true (matchesEventType_of_named receipt.event.named) trivial
    · cases h
  | retryDashboard =>
    simp only [Producer.input] at h
    split at h
    · cases h
      refine iff_of_true ?_ trivial
      simp only [Messaging.retryDashboard]
      decide +kernel
    · cases h
  | moderateProduct _ action =>
    cases h
    refine iff_of_true ?_ trivial
    simp only [Messaging.moderateProduct]
    cases action <;> decide +kernel
  | transitionSellerOrder | setApplicationStatus | postProductQuestion =>
    cases h
    refine iff_of_true ?_ trivial
    simp only [Messaging.transitionSellerOrder, Messaging.setApplicationStatus,
      Messaging.postProductQuestion]
    split <;> decide +kernel
  | _ =>
    cases h
    refine iff_of_true ?_ trivial
    simp only [Messaging.editUserRoleAndStatus, Messaging.updateProductDescription,
      Messaging.requestDashboardRecalculation, consumerTerminal, consumerFailed, deliveryFailed]
    decide +kernel

theorem matches_canonicalAuctionEventType (type : EventType) :
    matchesEventType (canonicalAuctionEventType type) = true := by
  cases type <;> decide +kernel

end

/-- The relay accepts the row of any producer if and only if its name has a version, and
that of the projector if and only if the default topic is a topic of the relay. -/
theorem publishable_iff {topics : KafkaTopics} {generated : Generated} {source : OutboxSource}
    {row : OutboxEvent} (h : source.write topics generated = .ok row) :
    validateRelayRow topics.relayTopics row = none ↔ source.Publishable topics := by
  rw [validateRelayRow_eq_none]
  cases source with
  | projector event =>
    simp only [OutboxSource.write] at h
    obtain ⟨rfl, hevent, hcorrelation⟩ := insertOutbox_ok h
    constructor
    · exact And.left
    · intro htopic
      exact ⟨htopic, matches_canonicalAuctionEventType event.type, le_refl 1,
        ⟨Nat.repr_ne_empty, hcorrelation, hevent⟩, rfl⟩
  | producer p =>
    simp only [OutboxSource.write] at h
    obtain ⟨input, hinput, h⟩ := Except.bind_eq_ok h
    obtain ⟨added, hadded, h⟩ := Except.bind_eq_ok h
    obtain ⟨rfl, hevent, hcorrelation⟩ := insertOutbox_ok h
    obtain ⟨htopic, rfl⟩ := addOutboxEvent_ok hadded
    obtain ⟨haggregate, hpayload⟩ := Producer.addressed hinput
    constructor
    · rintro ⟨_, hmatches, _⟩
      exact (Producer.matches_iff hinput).mp hmatches
    · intro hversioned
      exact ⟨htopic, (Producer.matches_iff hinput).mpr hversioned, le_refl 1,
        ⟨haggregate, hcorrelation, hevent⟩, hpayload⟩

def Sample.generated : Generated := ⟨Sample.firstId, Sample.secondId, Sample.time 0⟩

/-- A changed description is published. -/
theorem publishable_sample : ∃ row, OutboxSource.write {} Sample.generated
    (.producer (.updateProductDescription 1 9 none)) = .ok row ∧
      validateRelayRow (KafkaTopics.relayTopics {}) row = none :=
  have hwrite : OutboxSource.write {} Sample.generated
    (.producer (.updateProductDescription 1 9 none)) = .ok _ := rfl
  ⟨_, hwrite, (publishable_iff hwrite).mpr trivial⟩

/-- An accepted bid of the PostgreSQL engine is not. -/
theorem publishable_unversioned : ¬ ∀ (topics : KafkaTopics) (generated : Generated)
    (source : OutboxSource) (row : OutboxEvent), source.write topics generated = .ok row →
    validateRelayRow topics.relayTopics row = none := by
  intro h
  have hnone := h {} Sample.generated (.producer (.bidAccepted 1 2 100 2)) _ rfl
  exact absurd hnone (by decide +kernel)

end MiracleAuction.Messaging
