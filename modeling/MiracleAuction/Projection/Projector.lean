import MiracleAuction.Projection.Tables

/-!
# `redis-stream.projector.ts`: transactions

`projectAuctionEntry` projects one stream entry, `projectAuctionLane` several
entries of one auction, each in one transaction.
-/
namespace MiracleAuction
open Decimal

/-- What `JSON.parse` makes of the payload of an entry: text that is no JSON, a
value that is no object, an object of another shape, an event whose order id is no
UUID, or an event. -/
inductive StreamPayload
  | notJson
  | notObject
  | invalidContract
  | invalidOrder
  | event (event : AuctionStreamEvent)
  deriving DecidableEq

structure RedisStreamEntry where
  id : Nat
  payload : StreamPayload
  shard : Nat := 0
  deriving DecidableEq

inductive Outcome
  | applied
  | duplicate
  deriving DecidableEq, Repr

/-- `DECIMAL`, on the text of a number: at most nineteen digits. -/
def isDecimal (n : Nat) : Prop := n < 10 ^ 19

instance (n : Nat) : Decidable (isDecimal n) := inferInstanceAs (Decidable (_ < _))

/-- `DECIMAL` on a printed time. -/
def Numeral.isDecimal : Numeral → Prop
  | .plain n => 0 ≤ n ∧ n < 10 ^ 19
  | .scientific _ => False

instance (text : Numeral) : Decidable (Numeral.isDecimal text) := by
  unfold Numeral.isDecimal; split <;> infer_instance

def contractHolds (event : AuctionStreamEvent) : Prop :=
  isDecimal event.actorId ∧ isDecimal event.productId ∧ isDecimal event.currentPriceVnd ∧
    Numeral.isDecimal event.endAtMs ∧ isDecimal event.sequence ∧ isDecimal event.version ∧
    Numeral.isDecimal event.occurredAtMs ∧ event.schemaVersion = 1

instance (event : AuctionStreamEvent) : Decidable (contractHolds event) := by
  unfold contractHolds; infer_instance

def parseEvent : StreamPayload → Except ProjectionError AuctionStreamEvent
  | .notJson => .error (.invalid "Stream payload is not JSON")
  | .notObject => .error (.invalid "Stream payload is not an object")
  | .invalidContract => .error (.invalid "Stream event contract is invalid")
  | .invalidOrder => .error (.invalid "Order UUID is invalid")
  | .event event =>
    if contractHolds event then .ok event
    else .error (.invalid "Stream event contract is invalid")

/-- `streamReceiptId`. -/
def streamReceiptId (entry : RedisStreamEntry) : Nat × Nat := (entry.shard, entry.id)

def canonicalAuctionEventType : EventType → String
  | .bidAccepted => "bid.accepted.v1"
  | .buyNowCompleted => "auction.buy_now_completed.v1"
  | .bidderBanned => "bidder.banned.v1"
  | .auctionClosed => "auction.closed.v1"
  | .auctionCancelled => "auction.cancelled.v1"

namespace Projector
variable (event : AuctionStreamEvent)

def sequenceConflict : ProjectionError :=
  .invalid ("Sequence " ++ toString event.sequence ++ " belongs to another event")

def missingAuction (productId : Nat) : ProjectionError :=
  .invalid ("Auction " ++ toString productId ++ " does not exist")

def fenceRejected : ProjectionError :=
  .gap ("Projection fence rejected auction=" ++ toString event.productId ++ " sequence=" ++
    toString event.sequence ++ " version=" ++ toString event.version)

def transitionRow : TransitionRow where
  eventId := event.eventId
  productId := event.productId
  eventType := event.type
  sequence := event.sequence
  version := event.version
  payload := event

def historyRow (maximum : Bigint) : HistoryRow where
  eventId := some event.eventId
  productId := event.productId
  userId := event.actorId
  maxPrice := some maximum
  productPrice := some event.currentPriceVnd
  priceOwnerId := event.leaderId
  sequence := some event.sequence
  version := some event.version

def banRow (targetUserId : Nat) : BanRow where
  productId := event.productId
  userId := targetUserId
  reason := event.reason

/-- The row of a ban with a target. -/
def banRows : List BanRow :=
  match event.type, event.targetUserId with
  | .bidderBanned, some targetUserId => [banRow event targetUserId]
  | _, _ => []

/-- The order of a terminal event with a leader. -/
def orderRows : List OrderRow :=
  match event.orderId, event.leaderId with
  | some orderId, some leaderId =>
    if event.type = .buyNowCompleted ∨ event.type = .auctionClosed then
      [{ publicOrderId := orderId
         productId := event.productId
         userId := leaderId
         auctionSequence := some event.sequence }]
    else []
  | _, _ => []

def receiptRow (entry : RedisStreamEntry) : ReceiptRow where
  eventId := event.eventId
  redisEntryId := streamReceiptId entry
  productId := event.productId
  sequence := event.sequence
  version := event.version

def outboxRow : OutboxRow where
  eventId := event.eventId
  eventType := canonicalAuctionEventType event.type
  aggregateId := event.productId
  payload := event

/-- The writes that depend on the type of the event. -/
def projectType (T : Tables) : Except ProjectionError Tables :=
  match event.type, event.requestedMaxPriceVnd, event.targetUserId with
  | .bidAccepted, none, _ => .error (.invalid "Accepted bid has no maximum")
  | .bidAccepted, some maximum, _ => do
    let maximum ← toBigint maximum
    T.createHistory [historyRow event maximum]
  | .bidderBanned, _, some targetUserId => do
    let T ← T.createBans [banRow event targetUserId]
    return T.markBanned event.productId targetUserId
  | _, _, _ => .ok T

/-- The creation of the order, if the event has one. -/
def projectOrder (T : Tables) : Except ProjectionError Tables :=
  if orderRows event = [] then .ok T else T.createOrders (orderRows event)

end Projector

open Projector in
/-- The writes of the transaction. -/
def projectWrites (entry : RedisStreamEntry) (event : AuctionStreamEvent) (T : Tables) :
    Except ProjectionError Tables := do
  let T ← T.createTransitions [transitionRow event]
  let T ← projectType event T
  let T ← projectOrder event T
  let T ← T.updateProduct event
  let T ← T.createReceipts [receiptRow event entry]
  T.createOutbox [outboxRow event]

open Projector in
def projectAuctionEntry (entry : RedisStreamEntry) (T : Tables) :
    Except ProjectionError (Outcome × Tables) := do
  let event ← parseEvent entry.payload
  if ¬ (fitsBigint event.productId ∧ fitsBigint event.sequence) then .error .database
  else if T.receipts.any (·.eventId = event.eventId) then .ok (.duplicate, T)
  else if T.receipts.any fun row =>
      row.productId = event.productId ∧ row.sequence = event.sequence then
    .error (sequenceConflict event)
  else
    match T.products event.productId with
    | none => .error (missingAuction event.productId)
    | some product =>
      if event.sequence ≠ product.auctionSequence + 1 ∨
        event.version ≤ product.auctionVersion then
        .error (fenceRejected event)
      else do
        let T ← projectWrites entry event T
        return (.applied, T)

/-! ## What a projection does -/

section
variable {event : AuctionStreamEvent} {T T' : Tables} {entry : RedisStreamEntry}

theorem parseEvent_ok {payload : StreamPayload} (h : parseEvent payload = .ok event) :
    payload = .event event ∧ contractHolds event := by
  unfold parseEvent at h
  split at h
  · cases h
  · cases h
  · cases h
  · cases h
  · split at h
    · rename_i hcontract
      cases h
      exact ⟨rfl, hcontract⟩
    · cases h

/-- The row of the event's auction after its snapshot is taken. -/
def snapshot (event : AuctionStreamEvent) (date : DateMs) (product : ProductRow) : ProductRow :=
  { product with
    currentPrice := some event.currentPriceVnd
    priceOwnerId := event.leaderId
    endTime := some date
    auctionStatus := event.status
    isRemoved := some (event.status = .cancelled)
    auctionSequence := event.sequence
    auctionVersion := event.version }

/-- Only a sale and a close have an order, and it goes to the leader. -/
theorem Projector.mem_orderRows {order : OrderRow} (h : order ∈ orderRows event) :
    (event.type = .buyNowCompleted ∨ event.type = .auctionClosed) ∧
      event.leaderId = some order.userId ∧ order.productId = event.productId := by
  unfold orderRows at h
  split at h
  · rename_i hleader
    split at h
    · rename_i htype
      rw [List.mem_singleton.mp h]
      exact ⟨htype, hleader, rfl⟩
    · cases h
  · cases h

/-- The event bans the user on the product. -/
def AuctionStreamEvent.Bans (event : AuctionStreamEvent) (p u : Nat) : Prop :=
  event.type = .bidderBanned ∧ event.productId = p ∧ event.targetUserId = some u

/-- The history after the event: a bid adds a row, a ban marks those of its target. -/
inductive HistoryWrites (event : AuctionStreamEvent) (history : List HistoryRow) :
    List HistoryRow → Prop
  | bid {maximum : Bigint} (htype : event.type = .bidAccepted)
      (hmaximum : event.requestedMaxPriceVnd = some maximum.val) :
      HistoryWrites event history (history ++ [Projector.historyRow event maximum])
  | ban {target : Nat} (htype : event.type = .bidderBanned)
      (htarget : event.targetUserId = some target) :
      HistoryWrites event history (Tables.markRows event.productId target history)
  | keeps (hbid : event.type ≠ .bidAccepted) (hban : ∀ p u, ¬ event.Bans p u) :
      HistoryWrites event history history

/-- The writes of `projectType` are confined to the history and the bans. -/
structure TypeWrites (event : AuctionStreamEvent) (T T' : Tables) : Prop where
  frame : ∃ history bans, T' = { T with history := history, bans := bans }
  known : ∀ p u, event.Bans p u → u ∈ T.users
  bans : T'.bans = Tables.insertBans T.bans (Projector.banRows event)
  history : HistoryWrites event T.history T'.history

/-- The row of a ban is that of its product and target. -/
theorem Projector.exists_mem_banRows {p u : Nat} :
    (∃ row ∈ banRows event, row.productId = p ∧ row.userId = u) ↔ event.Bans p u := by
  unfold banRows AuctionStreamEvent.Bans
  split
  · rename_i htype htarget
    simp [htype, htarget, banRow]
  · rename_i hnot
    simp only [List.not_mem_nil, false_and, exists_false, false_iff]
    exact fun ⟨htype, _, htarget⟩ => hnot u htype htarget

theorem projectType_ok (h : Projector.projectType event T = .ok T') : TypeWrites event T T' := by
  unfold Projector.projectType at h
  split at h
  · cases h
  · rename_i amount htype hamount
    obtain ⟨maximum, hmaximum, h⟩ := Except.bind_eq_ok h
    obtain ⟨-, rfl⟩ := Tables.statement_ok h
    rw [toBigint_ok hmaximum] at hamount
    have hnot : ∀ p u, ¬ event.Bans p u := fun p u hbans => absurd hbans.1 (by simp [htype])
    exact ⟨⟨_, T.bans, rfl⟩, fun p u hbans => (hnot p u hbans).elim,
      by simp [Projector.banRows, htype, Tables.insertBans], .bid htype hamount⟩
  · rename_i target htype htarget
    obtain ⟨T₁, hbans, hmark⟩ := Except.bind_eq_ok h
    cases hmark
    obtain ⟨hknown, rfl⟩ := Tables.statement_ok hbans
    refine ⟨⟨_, _, rfl⟩, fun p u hbanned => ?_, ?_, .ban htype htarget⟩
    · rw [← Option.some.inj (htarget.symm.trans hbanned.2.2)]
      exact hknown _ List.mem_cons_self
    · simp only [Tables.markBanned, Projector.banRows, htype, htarget]
  · rename_i hnone hbid hban
    cases h
    have hnot : ∀ p u, ¬ event.Bans p u :=
      fun p u ⟨htype, _, htarget⟩ => hban u htype htarget
    have hnil : Projector.banRows event = [] := by
      unfold Projector.banRows
      split
      · rename_i target htype htarget
        exact (hban target htype htarget).elim
      · rfl
    refine ⟨⟨_, _, rfl⟩, fun p u hbans => (hnot p u hbans).elim, by rw [hnil]; rfl,
      .keeps (fun htype => ?_) hnot⟩
    cases hamount : event.requestedMaxPriceVnd with
    | none => exact hnone htype hamount
    | some maximum => exact hbid maximum htype hamount

/-- A row that stands after the event stood before, or is the row of a bid. -/
theorem HistoryWrites.standing {history history' : List HistoryRow}
    (h : HistoryWrites event history history') (row : HistoryRow) (hrow : row ∈ history')
    (hstanding : row.banned = false) : ¬ event.Bans row.productId row.userId ∧
      (row ∈ history ∨
        event.type = .bidAccepted ∧ row.productId = event.productId ∧
          row.userId = event.actorId) := by
  cases h with
  | bid htype _ =>
    refine ⟨fun hbans => absurd hbans.1 (by simp [htype]), ?_⟩
    rcases List.mem_append.mp hrow with hrow | hrow
    · exact .inl hrow
    · rw [List.mem_singleton.mp hrow]
      exact .inr ⟨htype, rfl, rfl⟩
  | ban htype htarget =>
    obtain ⟨old, hold, rfl⟩ := List.mem_map.mp hrow
    split at hstanding
    · cases hstanding
    · rename_i hne
      rw [if_neg hne]
      refine ⟨fun ⟨_, hproduct, huser⟩ => hne ?_, .inl hold⟩
      rw [htarget, Option.some.injEq] at huser
      exact ⟨hproduct.symm, huser.symm⟩
  | keeps _ hban => exact ⟨hban _ _, .inl hrow⟩

/-- What an applied entry has checked and written. -/
structure Applied (entry : RedisStreamEntry) (event : AuctionStreamEvent) (T T' : Tables) :
    Prop where
  parsed : parseEvent entry.payload = .ok event
  product : ∃ product date, T.products event.productId = some product ∧
    event.sequence = product.auctionSequence + 1 ∧ Tables.toDate event.endAtMs = .ok date ∧
    T'.products = Function.update T.products event.productId (some (snapshot event date product))
  transitions : T'.transitions = T.transitions ++ [Projector.transitionRow event]
  newTransition : ∀ t ∈ T.transitions, t.eventId ≠ event.eventId
  known : ∀ p u, event.Bans p u → u ∈ T.users
  bans : T'.bans = Tables.insertBans T.bans (Projector.banRows event)
  history : HistoryWrites event T.history T'.history
  orders : T'.orders = T.orders ++ Projector.orderRows event
  newOrder : ∀ order ∈ Projector.orderRows event, ∀ old ∈ T.orders,
    old.productId ≠ order.productId
  receipts : T'.receipts = T.receipts ++ [Projector.receiptRow event entry]
  outbox : T'.outbox = T.outbox ++ [Projector.outboxRow event]
  settings : T'.settings = T.settings

theorem projectOrder_ok (h : Projector.projectOrder event T = .ok T') :
    T' = { T with orders := T.orders ++ Projector.orderRows event } ∧
      ∀ order ∈ Projector.orderRows event, ∀ old ∈ T.orders,
        old.productId ≠ order.productId := by
  unfold Projector.projectOrder at h
  split at h
  · rename_i hnil
    cases h
    simp [hnil]
  · obtain ⟨hconstraints, rfl⟩ := Tables.statement_ok h
    refine ⟨rfl, fun order horder old hold heq => ?_⟩
    exact hconstraints.2.1.2 order horder (List.mem_map.mpr ⟨old, hold, heq⟩)

/-- A ban is listed if it was before, or is that of the event. -/
theorem Applied.banned (h : Applied entry event T T') (p u : Nat) :
    T'.Banned p u ↔ T.Banned p u ∨ event.Bans p u := by
  unfold Tables.Banned
  rw [h.bans, Tables.mem_insertBans, Projector.exists_mem_banRows]

/-- The transition of a successful transaction is new. -/
theorem projectWrites_new (h : projectWrites entry event T = .ok T') :
    ∀ t ∈ T.transitions, (t.productId, t.sequence) ≠ (event.productId, event.sequence) := by
  obtain ⟨T₁, h₁, -⟩ := Except.bind_eq_ok h
  obtain ⟨⟨-, hunique, -⟩, -⟩ := Tables.statement_ok h₁
  exact fun t ht heq => hunique.2 _ List.mem_cons_self (List.mem_map.mpr ⟨t, ht, heq⟩)

/-- The writes of an entry that passed the fence. -/
theorem projectWrites_applied (hparsed : parseEvent entry.payload = .ok event)
    (hfence : ∀ product, T.products event.productId = some product →
      event.sequence = product.auctionSequence + 1)
    (h : projectWrites entry event T = .ok T') : Applied entry event T T' := by
  unfold projectWrites at h
  obtain ⟨T₁, h₁, h⟩ := Except.bind_eq_ok h
  obtain ⟨T₂, h₂, h⟩ := Except.bind_eq_ok h
  obtain ⟨T₃, h₃, h⟩ := Except.bind_eq_ok h
  obtain ⟨T₄, h₄, h⟩ := Except.bind_eq_ok h
  obtain ⟨T₅, h₅, h₆⟩ := Except.bind_eq_ok h
  obtain ⟨hunique, rfl⟩ := Tables.statement_ok h₁
  have htype := projectType_ok h₂
  obtain ⟨history, bans, rfl⟩ := htype.frame
  obtain ⟨rfl, hnew⟩ := projectOrder_ok h₃
  obtain ⟨product, date, hproduct, hdate, rfl⟩ := Tables.updateProduct_ok h₄
  obtain ⟨-, rfl⟩ := Tables.statement_ok h₅
  obtain ⟨-, rfl⟩ := Tables.statement_ok h₆
  refine ⟨hparsed, ⟨product, date, hproduct, hfence product hproduct, hdate, rfl⟩, rfl,
    fun t ht heq => ?_, htype.known, htype.bans, htype.history, rfl, hnew, rfl, rfl, rfl⟩
  exact hunique.1.2 _ List.mem_cons_self (List.mem_map.mpr ⟨t, ht, heq⟩)

theorem projectAuctionEntry_applied
    (h : projectAuctionEntry entry T = .ok (.applied, T')) :
    ∃ event, Applied entry event T T' := by
  unfold projectAuctionEntry at h
  obtain ⟨event, hparsed, h⟩ := Except.bind_eq_ok h
  split at h
  · cases h
  split at h
  · cases h
  split at h
  · cases h
  split at h
  · cases h
  rename_i product hproduct
  split at h
  · cases h
  rename_i hfence
  simp only [not_or, not_not] at hfence
  obtain ⟨T₆, h, heq⟩ := Except.bind_eq_ok h
  cases heq
  refine ⟨event, projectWrites_applied hparsed (fun product' hproduct' => ?_) h⟩
  cases hproduct.symm.trans hproduct'
  exact hfence.1

end

end MiracleAuction
