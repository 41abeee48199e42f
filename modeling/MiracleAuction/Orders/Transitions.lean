import MiracleAuction.Base.Run
import MiracleAuction.Messaging.Outbox

/-!
# `order.use-case.ts` and `order.repository.ts`

The winner completes a pending order, and the seller approves or rejects it. Each
transition reads the order, and writes it later by an update that asks for the status
again. The row stays locked from this update to the end of the transaction.
-/
namespace MiracleAuction.Orders

open Messaging

/-! ## Rows -/

/-- What `orders_status_check` allows. -/
inductive OrderStatus
  | pending
  | paymentVerified
  | rejected
  deriving DecidableEq, Repr

def OrderStatus.text : OrderStatus → String
  | .pending => "pending"
  | .paymentVerified => "payment_verified"
  | .rejected => "rejected"

/-- A row of `orders`. -/
structure Order where
  orderId : Nat
  publicOrderId : String
  createdAt : Int
  userId : Int
  productId : Option Nat
  orderStatus : OrderStatus := .pending
  rejectionReason : Option String := none
  shippingAddress : Option String := none
  phoneNumber : Option String := none
  paymentProofImageUrl : Option String := none
  shippingLabelImageUrl : Option String := none
  amountVnd : Option Int := none
  completedAt : Option DateMs := none

structure Product where
  sellerId : Int
  currentPrice : Option Int

inductive OrderError
  | domain (message : String) (statusCode : Nat) (code : String)
  | error (message : String)
  deriving DecidableEq, Repr

/-! ## `createOrder` -/

structure CreateOrderData where
  userId : Int
  publicOrderId : String
  shippingAddress : Option String := none
  phoneNumber : Option String := none
  paymentProofImageUrl : Option String := none

/-- The `where` of `getPendingWinnerOrder` and `updateWinnerOrder`. -/
def CreateOrderData.Matches (data : CreateOrderData) (order : Order) : Prop :=
  order.publicOrderId = data.publicOrderId ∧ order.userId = data.userId ∧
    order.orderStatus = .pending

instance (data : CreateOrderData) (order : Order) : Decidable (data.Matches order) := by
  unfold CreateOrderData.Matches; infer_instance

/-- The `data` of `updateWinnerOrder`; a field that is undefined is left as it is. -/
def CreateOrderData.update (data : CreateOrderData) (order : Order) : Order :=
  { order with
    shippingAddress := data.shippingAddress.or order.shippingAddress
    phoneNumber := data.phoneNumber.or order.phoneNumber
    paymentProofImageUrl := data.paymentProofImageUrl.or order.paymentProofImageUrl }

def winnerOrderNotFound : OrderError :=
  .domain "Winner order was not found or is not pending" 404 "WINNER_ORDER_NOT_FOUND"

/-! ## `transitionSellerOrder` -/

inductive NextStatus
  | rejected
  | paymentVerified
  deriving DecidableEq, Repr

def NextStatus.status : NextStatus → OrderStatus
  | .rejected => .rejected
  | .paymentVerified => .paymentVerified

def NextStatus.eventType : NextStatus → String
  | .rejected => "order.rejected.v1"
  | .paymentVerified => "order.payment_verified.v1"

/-- The arguments of `transitionSellerOrder`. -/
structure Transition where
  orderId : Nat
  sellerId : Int
  nextStatus : NextStatus
  shippingLabelImageUrl : Option String := none
  rejectionReason : Option String := none

/-- A text that is not empty. -/
def truthy : Option String → Option String
  | some text => if text = "" then none else some text
  | none => none

/-- The `where` of the update. -/
def Transition.Matches (t : Transition) (order : Order) : Prop :=
  order.orderId = t.orderId ∧ order.orderStatus = .pending

instance (t : Transition) (order : Order) : Decidable (t.Matches order) := by
  unfold Transition.Matches; infer_instance

/-- The `data` of the update. -/
def Transition.update (t : Transition) (currentPrice : Option Int) (now : DateMs) (order : Order) :
    Order :=
  { order with
    orderStatus := t.nextStatus.status
    completedAt := if t.nextStatus = .paymentVerified then some now else order.completedAt
    amountVnd := if t.nextStatus = .paymentVerified then currentPrice else order.amountVnd
    shippingLabelImageUrl := (truthy t.shippingLabelImageUrl).or order.shippingLabelImageUrl
    rejectionReason := (truthy t.rejectionReason).or order.rejectionReason }

/-- The checks of what `findUnique` has read. -/
def Transition.check (t : Transition) (order : Option Order) (product : Option Product) :
    Except OrderError (Order × Product) :=
  match order, product with
  | some order, some product =>
    if product.sellerId ≠ t.sellerId then
      .error (.domain "Order was not found for this seller" 404 "SELLER_ORDER_NOT_FOUND")
    else if order.orderStatus ≠ .pending then
      .error (.domain "Only pending orders can change state" 409 "ORDER_TRANSITION_INVALID")
    else .ok (order, product)
  | _, _ => .error (.domain "Order was not found for this seller" 404 "SELLER_ORDER_NOT_FOUND")

/-- The event that is added, of the order as it was read. -/
def transitionEvent (topics : KafkaTopics) (nextStatus : NextStatus) (order : Order) :
    AddOutboxEventInput where
  topic := topics.domain
  eventType := nextStatus.eventType
  aggregateId := toString order.orderId
  payload := .object
    [("orderId", .string (toString order.orderId)),
      ("productId", (order.productId.map fun id => Json.string (toString id)).getD .null)]

/-! ## The database -/

/-- The transaction that holds a row: its version of the row, and the event once it is added. -/
structure Writer where
  order : Order
  input : AddOutboxEventInput
  event : Option OutboxEvent := none

/-- A committed row. -/
structure Row where
  order : Order
  writer : Option Writer := none

/-- Where a request stands before it holds a row. -/
inductive Task
  | checkout (data : CreateOrderData) (file : Bool)
  | proof (data : CreateOrderData) (file : Bool)
  | enrich (data : CreateOrderData)
  | label (orderId : Nat) (sellerId : Int) (file : Bool)
  | transition (t : Transition)
  | found (t : Transition) (order : Order) (product : Product)
  | writing
  | returned
  | thrown (error : OrderError)

structure OrderWorld where
  rows : List Row := []
  products : Nat → Option Product
  outbox : List OutboxEvent := []
  tasks : List Task := []

namespace OrderWorld
variable (w : OrderWorld)

def goto (task : Nat) (next : Task) : OrderWorld := { w with tasks := w.tasks.set task next }

def findOrder (orderId : Nat) : Option Order :=
  (w.rows.find? (·.order.orderId = orderId)).map (·.order)

def productOf (order : Option Order) : Option Product := (order.bind (·.productId)).bind w.products

/-- The rows that an update asks for, and how many they are. -/
def updateMany (p : Order → Prop) [DecidablePred p] (f : Row → Row) : List Row × Nat :=
  (w.rows.map fun row => if p row.order then f row else row, w.rows.countP (p ·.order))

/-- An update waits for the transactions that hold a row it asks for. -/
def Waits (p : Order → Prop) : Prop := ∃ row ∈ w.rows, p row.order ∧ row.writer.isSome

instance (p : Order → Prop) [DecidablePred p] : Decidable (w.Waits p) := by
  unfold Waits; infer_instance

def setRow (orderId : Nat) (f : Row → Row) : OrderWorld :=
  { w with rows := w.rows.map fun row => if row.order.orderId = orderId then f row else row }

end OrderWorld

/-! ## Runs -/

/-- `createOrder`, `approveOrder` and `rejectOrder` with their arguments. -/
inductive Request
  | createOrder (data : CreateOrderData) (file : Bool)
  | approveOrder (orderId : Nat) (sellerId : Int) (file : Bool)
  | rejectOrder (orderId : Nat) (sellerId : Int) (reason : String)

def Request.task : Request → Task
  | .createOrder data file => .checkout data file
  | .approveOrder orderId sellerId file => .label orderId sellerId file
  | .rejectOrder orderId sellerId reason =>
    .transition { orderId, sellerId, nextStatus := .rejected, rejectionReason := some reason }

/-- The end of an auction places its order and writes the price; later snapshots write the
price again. A request may fail at any time, and its transaction is then rolled back. -/
inductive OrderAction
  | place (order : Order) (productId : Nat) (price : Int)
  | reprice (productId : Nat) (price : Int)
  | request (request : Request)
  | advance (task : Nat) (url : String) (clock : DateMs)
  | fail (task : Nat) (message : String)
  | addEvent (orderId : Nat) (generated : Generated)
  | commit (orderId : Nat)
  | rollback (orderId : Nat)

namespace OrderWorld

def reprice (w : OrderWorld) (productId : Nat) (price : Int) : OrderWorld :=
  { w with
    products := Function.update w.products productId
      ((w.products productId).map fun product => { product with currentPrice := some price }) }

/-- The row that the projector inserts: the other columns have their defaults. -/
def placed (order : Order) (productId : Nat) : Order :=
  { orderId := order.orderId
    publicOrderId := order.publicOrderId
    createdAt := order.createdAt
    userId := order.userId
    productId := some productId }

/-- The keys of a new row are new, and its product exists. -/
def Insertable (w : OrderWorld) (order : Order) (productId : Nat) : Prop :=
  (∀ row ∈ w.rows, row.order.orderId ≠ order.orderId ∧
    row.order.publicOrderId ≠ order.publicOrderId ∧ row.order.productId ≠ some productId) ∧
    (w.products productId).isSome

instance (w : OrderWorld) (order : Order) (productId : Nat) :
    Decidable (w.Insertable order productId) := by
  unfold Insertable; infer_instance

/-- A request goes on; `none` while it waits for a row. -/
def advance (topics : KafkaTopics) (w : OrderWorld) (task : Nat) (url : String) (clock : DateMs) :
    Option OrderWorld :=
  match w.tasks[task]? with
  | some (.checkout data file) =>
    match w.rows.find? (data.Matches ·.order) with
    | none => some (w.goto task (.thrown winnerOrderNotFound))
    | some _ => some (w.goto task (.proof data file))
  | some (.proof data file) =>
    let data := if file then { data with paymentProofImageUrl := some url } else data
    some (w.goto task (.enrich data))
  | some (.enrich data) =>
    if w.Waits data.Matches then none
    else
      let updated := w.updateMany data.Matches fun row =>
        { row with order := data.update row.order }
      let w := { w with rows := updated.1 }
      if updated.2 = 1 then some (w.goto task .returned)
      else some (w.goto task (.thrown (.error "Winner order was not found or is not pending")))
  | some (.label orderId sellerId file) =>
    if file = true ∧ url ≠ "" then
      some (w.goto task (.transition
        { orderId, sellerId, nextStatus := .paymentVerified, shippingLabelImageUrl := some url }))
    else
      some (w.goto task (.thrown (.domain "A shipping label is required to verify payment" 400
        "SHIPPING_LABEL_REQUIRED")))
  | some (.transition t) =>
    match t.check (w.findOrder t.orderId) (w.productOf (w.findOrder t.orderId)) with
    | .error error => some (w.goto task (.thrown error))
    | .ok (order, product) => some (w.goto task (.found t order product))
  | some (.found t order product) =>
    if w.Waits t.Matches then none
    else
      let updated := w.updateMany t.Matches fun row =>
        { row with
          writer := some
            { order := t.update product.currentPrice clock row.order
              input := transitionEvent topics t.nextStatus order } }
      if updated.2 = 1 then some ({ w with rows := updated.1 }.goto task .writing)
      else
        some (w.goto task (.thrown (.domain "Order state changed concurrently" 409
          "ORDER_TRANSITION_CONFLICT")))
  | some .writing | some .returned | some (.thrown _) | none => none

/-- One step; `none` where the action is not possible. -/
def next (topics : KafkaTopics) (w : OrderWorld) : OrderAction → Option OrderWorld
  | .place order productId price =>
    if w.Insertable order productId then
      some
        { w.reprice productId price with rows := w.rows ++ [{ order := placed order productId }] }
    else none
  | .reprice productId price => some (w.reprice productId price)
  | .request request => some { w with tasks := w.tasks ++ [request.task] }
  | .advance task url clock => w.advance topics task url clock
  | .fail task message => some (w.goto task (.thrown (.error message)))
  | .addEvent orderId generated =>
    match (w.rows.find? (·.order.orderId = orderId)).bind (·.writer) with
    | none => none
    | some writer =>
      match addOutboxEvent topics writer.input generated with
      | .error _ => some (w.setRow orderId fun row => { row with writer := none })
      | .ok event => some (w.setRow orderId fun row =>
          { row with writer := some { writer with event := some event } })
  | .commit orderId =>
    match (w.rows.find? (·.order.orderId = orderId)).bind (·.writer) with
    | some { order, event := some event, .. } =>
      some { w.setRow orderId fun _ => { order } with outbox := w.outbox ++ [event] }
    | _ => none
  | .rollback orderId => some (w.setRow orderId fun row => { row with writer := none })

end OrderWorld

/-! ## What the database shows of an order -/

/-- The events about an order. -/
def orderEvents (outbox : List OutboxEvent) (orderId : Nat) : List OutboxEvent :=
  outbox.filter (·.aggregateId = toString orderId)

/-- The events that the status of an order stands for. -/
def OrderStatus.eventTypes : OrderStatus → List String
  | .pending => []
  | .paymentVerified => ["order.payment_verified.v1"]
  | .rejected => ["order.rejected.v1"]

/-- The event matches the status, and a completion is recorded if and only if there was one. -/
structure Settled (outbox : List OutboxEvent) (order : Order) : Prop where
  events : (orderEvents outbox order.orderId).map (·.eventType) = order.orderStatus.eventTypes
  completed : order.completedAt.isSome ↔ order.orderStatus = .paymentVerified
  amount : order.amountVnd.isSome ↔ order.orderStatus = .paymentVerified

/-- The order may change as long as it is pending. -/
def OrderWorld.Follows (w w' : OrderWorld) : Prop :=
  ∀ row ∈ w.rows, ∃ row' ∈ w'.rows, row'.order.orderId = row.order.orderId ∧
    (row.order.orderStatus ≠ .pending → row'.order = row.order ∧
      orderEvents w'.outbox row.order.orderId = orderEvents w.outbox row.order.orderId)

/-- The transaction that holds a pending row makes one of the two transitions of it. -/
structure Held (order : Order) (writer : Writer) : Prop where
  pending : order.orderStatus = .pending
  leaves : ∃ t : Transition, ∃ price now, writer.order = t.update (some price) now order ∧
    writer.input.eventType = t.nextStatus.eventType
  input : writer.input.aggregateId = toString order.orderId
  event : ∀ event ∈ writer.event, event.eventType = writer.input.eventType ∧
    event.aggregateId = writer.input.aggregateId

structure Row.Sound (outbox : List OutboxEvent) (row : Row) : Prop where
  settled : Settled outbox row.order
  held : ∀ writer ∈ row.writer, Held row.order writer

/-- What a transition has read. -/
def Task.Sound : Task → Prop
  | .found t order product => order.orderId = t.orderId ∧ product.currentPrice.isSome
  | _ => True

structure OrderWorld.Sound (w : OrderWorld) : Prop where
  ids : (w.rows.map (·.order.orderId)).Nodup
  rows : ∀ row ∈ w.rows, row.Sound w.outbox
  priced : ∀ row ∈ w.rows, ∀ product ∈ w.productOf (some row.order),
    product.currentPrice.isSome
  tasks : ∀ task ∈ w.tasks, task.Sound
  outbox : ∀ event ∈ w.outbox, ∃ row ∈ w.rows,
    event.aggregateId = toString row.order.orderId

section
variable {topics : KafkaTopics} {w w' : OrderWorld} {outbox outbox' : List OutboxEvent}
  {row row' : Row}

theorem OrderWorld.Follows.refl (w : OrderWorld) : w.Follows w :=
  fun row hrow => ⟨row, hrow, rfl, fun _ => ⟨rfl, rfl⟩⟩

theorem OrderWorld.Follows.trans {w'' : OrderWorld} (h : w.Follows w') (h' : w'.Follows w'') :
    w.Follows w'' := by
  intro row hrow
  obtain ⟨row', hrow', hid, hkept⟩ := h row hrow
  obtain ⟨row'', hrow'', hid', hkept'⟩ := h' row' hrow'
  refine ⟨row'', hrow'', hid'.trans hid, fun hstatus => ?_⟩
  obtain ⟨horder, hevents⟩ := hkept hstatus
  obtain ⟨horder', hevents'⟩ := hkept' (by rw [horder]; exact hstatus)
  rw [hid] at hevents'
  exact ⟨horder'.trans horder, hevents'.trans hevents⟩

/-- Both have been read. -/
theorem Transition.check_ok {t : Transition} {order : Option Order} {product : Option Product}
    {found : Order × Product} (h : t.check order product = .ok found) :
    order = some found.1 ∧ product = some found.2 := by
  unfold Transition.check at h
  split at h
  · split at h
    · cases h
    split at h
    · cases h
    cases h
    exact ⟨rfl, rfl⟩
  · cases h

/-! ## One row -/

/-- A step takes the row to another version of the same order. -/
structure Row.Moves (outbox outbox' : List OutboxEvent) (row row' : Row) : Prop where
  orderId : row'.order.orderId = row.order.orderId
  productId : row'.order.productId = row.order.productId
  sound : row'.Sound outbox'
  frozen : row.order.orderStatus ≠ .pending → row'.order = row.order ∧
    orderEvents outbox' row.order.orderId = orderEvents outbox row.order.orderId

theorem Row.Sound.stays (h : row.Sound outbox)
    (hevents : orderEvents outbox' row.order.orderId = orderEvents outbox row.order.orderId) :
    row.Moves outbox outbox' row := by
  refine ⟨rfl, rfl, ⟨⟨?_, h.settled.completed, h.settled.amount⟩, h.held⟩,
    fun _ => ⟨rfl, hevents⟩⟩
  rw [hevents]
  exact h.settled.events

/-- Only the transaction that holds the row changes. -/
theorem Row.Sound.hold {writer : Option Writer} (h : row.Sound outbox)
    (hheld : ∀ held ∈ writer, Held row.order held) :
    row.Moves outbox outbox { row with writer } :=
  ⟨rfl, rfl, ⟨h.settled, hheld⟩, fun _ => ⟨rfl, rfl⟩⟩

theorem Row.Sound.enrich {data : CreateOrderData} (h : row.Sound outbox)
    (hpending : row.order.orderStatus = .pending) (hfree : row.writer = none) :
    row.Moves outbox outbox { row with order := data.update row.order } := by
  refine ⟨rfl, rfl, ⟨⟨h.settled.events, h.settled.completed, h.settled.amount⟩, ?_⟩,
    absurd hpending⟩
  intro writer hwriter
  cases hfree.symm.trans hwriter

theorem OrderStatus.eventTypes_next (next : NextStatus) :
    next.status.eventTypes = [next.eventType] := by
  cases next <;> rfl

theorem Settled.nulls {order : Order} (h : Settled outbox order)
    (hpending : order.orderStatus = .pending) :
    orderEvents outbox order.orderId = [] ∧ order.completedAt = none ∧
      order.amountVnd = none := by
  obtain ⟨hevents, hcompleted, hamount⟩ := h
  rw [hpending] at hevents hcompleted hamount
  refine ⟨List.map_eq_nil_iff.mp hevents, ?_, ?_⟩
  · simpa using hcompleted
  · simpa using hamount

/-- The commit of a transition settles the order. -/
theorem Row.Sound.commit {writer : Writer} {event : OutboxEvent} (h : row.Sound outbox)
    (hwriter : row.writer = some writer) (hevent : writer.event = some event) :
    row.Moves outbox (outbox ++ [event]) { order := writer.order } := by
  obtain ⟨hpending, ⟨t, price, now, horder, htype⟩, hinput, hevents⟩ :=
    h.held writer hwriter
  obtain ⟨heventType, haggregate⟩ := hevents event hevent
  obtain ⟨hnone, hcompleted, hamount⟩ := h.settled.nulls hpending
  have hid : writer.order.orderId = row.order.orderId := by rw [horder]; rfl
  have hstatus : writer.order.orderStatus = t.nextStatus.status := by rw [horder]; rfl
  refine ⟨hid, by rw [horder]; rfl, ⟨⟨?_, ?_, ?_⟩, fun _ hheld => by cases hheld⟩,
    absurd hpending⟩
  · have happended : orderEvents (outbox ++ [event]) writer.order.orderId = [event] := by
      rw [hid]
      unfold orderEvents at hnone ⊢
      rw [List.filter_append, hnone, List.nil_append, List.filter_singleton, haggregate, hinput]
      simp
    rw [happended, hstatus, OrderStatus.eventTypes_next, List.map_singleton, heventType, htype]
  · rw [hstatus, horder]
    cases hnext : t.nextStatus <;> simp [Transition.update, NextStatus.status, hnext, hcompleted]
  · rw [hstatus, horder]
    cases hnext : t.nextStatus <;> simp [Transition.update, NextStatus.status, hnext, hamount]

/-! ## One step -/

theorem OrderWorld.Sound.goto {task : Nat} {next : Task} (h : w.Sound) (hnext : next.Sound) :
    (w.goto task next).Sound ∧ w.Follows (w.goto task next) := by
  refine ⟨⟨h.ids, h.rows, h.priced, fun other hother => ?_, h.outbox⟩, .refl w⟩
  obtain hother | rfl := List.mem_or_eq_of_mem_set hother
  · exact h.tasks other hother
  · exact hnext

theorem OrderWorld.Sound.move {g : Row → Row} (h : w.Sound)
    (hmoves : ∀ row ∈ w.rows, row.Moves w.outbox outbox' (g row))
    (houtbox : ∀ event ∈ outbox', ∃ row ∈ w.rows,
      event.aggregateId = toString row.order.orderId) :
    ({ w with rows := w.rows.map g, outbox := outbox' } : OrderWorld).Sound ∧
      w.Follows { w with rows := w.rows.map g, outbox := outbox' } := by
  refine ⟨⟨?_, ?_, ?_, h.tasks, ?_⟩, ?_⟩
  · have hids : (w.rows.map g).map (·.order.orderId) = w.rows.map (·.order.orderId) := by
      rw [List.map_map]
      exact List.map_congr_left fun row hrow => (hmoves row hrow).orderId
    rw [hids]
    exact h.ids
  · intro row' hrow'
    obtain ⟨row, hrow, rfl⟩ := List.mem_map.mp hrow'
    exact (hmoves row hrow).sound
  · intro row' hrow' product hproduct
    obtain ⟨row, hrow, rfl⟩ := List.mem_map.mp hrow'
    refine h.priced row hrow product ?_
    simpa only [OrderWorld.productOf, Option.bind_some, (hmoves row hrow).productId] using hproduct
  · intro event hevent
    obtain ⟨row, hrow, haggregate⟩ := houtbox event hevent
    refine ⟨g row, List.mem_map_of_mem hrow, ?_⟩
    rw [(hmoves row hrow).orderId]
    exact haggregate
  · intro row hrow
    have hmove := hmoves row hrow
    exact ⟨g row, List.mem_map_of_mem hrow, hmove.orderId, hmove.frozen⟩

/-- Where the outbox stays as it is. -/
theorem OrderWorld.Sound.moveRows {g : Row → Row} (h : w.Sound)
    (hmoves : ∀ row ∈ w.rows, row.Moves w.outbox w.outbox (g row)) :
    ({ w with rows := w.rows.map g } : OrderWorld).Sound ∧
      w.Follows { w with rows := w.rows.map g } :=
  h.move hmoves h.outbox

/-- The row that is found is the only one with its id. -/
theorem OrderWorld.Sound.writer_eq {orderId : Nat} {writer : Writer} (h : w.Sound)
    (hwriter : (w.rows.find? (·.order.orderId = orderId)).bind (·.writer) = some writer) :
    ∀ row ∈ w.rows, row.order.orderId = orderId → row.writer = some writer := by
  intro row hrow hid
  obtain ⟨found, hfound, hwriter⟩ := Option.bind_eq_some_iff.mp hwriter
  have hfoundId : found.order.orderId = orderId := by simpa using List.find?_some hfound
  have hsame : row = found :=
    List.inj_on_of_nodup_map h.ids hrow (List.mem_of_find?_eq_some hfound) (hid.trans hfoundId.symm)
  rw [hsame]
  exact hwriter

theorem OrderWorld.Sound.reprice (h : w.Sound) (productId : Nat) (price : Int) :
    (w.reprice productId price).Sound ∧ w.Follows (w.reprice productId price) := by
  refine ⟨⟨h.ids, h.rows, ?_, h.tasks, h.outbox⟩, .refl w⟩
  intro row hrow product hproduct
  obtain ⟨id, hid, hproduct⟩ := Option.bind_eq_some_iff.mp hproduct
  simp only [OrderWorld.reprice, Function.update_apply] at hproduct
  split at hproduct
  · obtain ⟨_, _, rfl⟩ := Option.map_eq_some_iff.mp hproduct
    rfl
  · refine h.priced row hrow product ?_
    unfold OrderWorld.productOf
    rw [hid]
    exact hproduct

/-- A new order has the columns of a pending one, and its product has a price. -/
theorem OrderWorld.Sound.place {order : Order} {productId : Nat} {price : Int} (h : w.Sound)
    (hnew : w.Insertable order productId) :
    let placed : OrderWorld := { w.reprice productId price with
      rows := w.rows ++ [{ order := OrderWorld.placed order productId }] }
    placed.Sound ∧ w.Follows placed := by
  obtain ⟨hnew, hproduct⟩ := hnew
  have hpriced := (h.reprice productId price).1
  refine ⟨⟨?_, ?_, ?_, h.tasks, ?_⟩, ?_⟩
  · rw [List.map_append, List.map_singleton, List.nodup_append]
    refine ⟨h.ids, List.nodup_singleton _, ?_⟩
    intro id hid other hother heq
    obtain ⟨row, hrow, rfl⟩ := List.mem_map.mp hid
    exact (hnew row hrow).1 (heq.trans (List.mem_singleton.mp hother))
  · intro row hrow
    obtain hrow | hrow := List.mem_append.mp hrow
    · exact h.rows row hrow
    obtain rfl := List.mem_singleton.mp hrow
    have hnone : orderEvents w.outbox order.orderId = [] := by
      refine List.filter_eq_nil_iff.mpr fun event hevent hid => ?_
      obtain ⟨other, hother, haggregate⟩ := h.outbox event hevent
      exact (hnew other hother).1
        (Nat.repr_injective (haggregate.symm.trans (of_decide_eq_true hid)))
    refine ⟨⟨?_, ?_, ?_⟩, fun _ hheld => by cases hheld⟩
    · exact List.map_eq_nil_iff.mpr hnone
    · exact iff_of_false Bool.false_ne_true (fun h => by cases h)
    · exact iff_of_false Bool.false_ne_true (fun h => by cases h)
  · intro row hrow product hproduct
    obtain hrow | hrow := List.mem_append.mp hrow
    · exact hpriced.priced row hrow product hproduct
    · obtain rfl := List.mem_singleton.mp hrow
      change (w.reprice productId price).products productId = some product at hproduct
      simp only [OrderWorld.reprice, Function.update_self] at hproduct
      obtain ⟨_, _, rfl⟩ := Option.map_eq_some_iff.mp hproduct
      rfl
  · intro event hevent
    obtain ⟨row, hrow, haggregate⟩ := h.outbox event hevent
    exact ⟨row, List.mem_append_left _ hrow, haggregate⟩
  · intro row hrow
    exact ⟨row, List.mem_append_left _ hrow, rfl, fun _ => ⟨rfl, rfl⟩⟩

theorem OrderWorld.Sound.updateMany {p : Order → Prop} [DecidablePred p] {f : Row → Row}
    (h : w.Sound)
    (hmoves : ∀ row ∈ w.rows, p row.order → row.Moves w.outbox w.outbox (f row)) :
    ({ w with rows := (w.updateMany p f).1 } : OrderWorld).Sound ∧
      w.Follows { w with rows := (w.updateMany p f).1 } := by
  refine h.moveRows fun row hrow => ?_
  by_cases hp : p row.order
  · rw [if_pos hp]
    exact hmoves row hrow hp
  · rw [if_neg hp]
    exact (h.rows row hrow).stays rfl

theorem OrderWorld.Sound.setRow {orderId : Nat} {f : Row → Row} (h : w.Sound)
    (hmoves : ∀ row ∈ w.rows, row.order.orderId = orderId →
      row.Moves w.outbox w.outbox (f row)) :
    (w.setRow orderId f).Sound ∧ w.Follows (w.setRow orderId f) := by
  refine h.moveRows fun row hrow => ?_
  by_cases hid : row.order.orderId = orderId
  · rw [if_pos hid]
    exact hmoves row hrow hid
  · rw [if_neg hid]
    exact (h.rows row hrow).stays rfl

theorem OrderWorld.Sound.advance {task : Nat} {url : String} {clock : DateMs} (h : w.Sound)
    (hstep : w.advance topics task url clock = some w') : w'.Sound ∧ w.Follows w' := by
  unfold OrderWorld.advance at hstep
  split at hstep
  · -- `getPendingWinnerOrder`
    split at hstep <;> cases hstep <;> exact h.goto trivial
  · cases hstep
    exact h.goto trivial
  · -- `updateWinnerOrder`
    rename_i data _
    split at hstep
    · cases hstep
    rename_i hwaits
    have hmoves : ∀ row ∈ w.rows, data.Matches row.order →
        row.Moves w.outbox w.outbox { row with order := data.update row.order } := by
      intro row hrow hmatches
      refine (h.rows row hrow).enrich hmatches.2.2 ?_
      by_contra hheld
      exact hwaits ⟨row, hrow, hmatches, Option.isSome_iff_ne_none.mpr hheld⟩
    obtain ⟨hsound, hfollows⟩ := h.updateMany hmoves
    dsimp only at hstep
    split at hstep
    · cases hstep
      exact (hsound.goto (show Task.returned.Sound from trivial)).imp_right hfollows.trans
    · cases hstep
      exact (hsound.goto (show (Task.thrown _).Sound from trivial)).imp_right hfollows.trans
  · -- `approveOrder`
    split at hstep <;> cases hstep <;> exact h.goto trivial
  · -- `findUnique`
    rename_i t _
    split at hstep
    · cases hstep
      exact h.goto trivial
    · rename_i order product hcheck
      cases hstep
      obtain ⟨horder, hproduct⟩ := t.check_ok hcheck
      obtain ⟨row, hfound, hread⟩ := Option.map_eq_some_iff.mp horder
      have hid : row.order.orderId = t.orderId := by simpa using List.find?_some hfound
      rw [hread] at hid
      refine h.goto ⟨hid, ?_⟩
      rw [horder, ← hread] at hproduct
      exact h.priced row (List.mem_of_find?_eq_some hfound) product hproduct
  · -- the update
    rename_i t order product htask
    obtain ⟨hid, hprice⟩ := h.tasks _ (List.mem_of_getElem? htask)
    obtain ⟨price, hprice⟩ := Option.isSome_iff_exists.mp hprice
    split at hstep
    · cases hstep
    have hmoves : ∀ row ∈ w.rows, t.Matches row.order → row.Moves w.outbox w.outbox
        { row with
          writer := some
            { order := t.update product.currentPrice clock row.order
              input := transitionEvent topics t.nextStatus order } } := by
      intro row hrow hmatches
      refine (h.rows row hrow).hold fun held hheld => ?_
      cases hheld
      refine ⟨hmatches.2, ⟨t, price, clock, by rw [hprice], rfl⟩, ?_,
        fun _ hnone => by cases hnone⟩
      rw [hmatches.1, ← hid]
      rfl
    obtain ⟨hsound, hfollows⟩ := h.updateMany hmoves
    dsimp only at hstep
    split at hstep
    · cases hstep
      exact (hsound.goto (show Task.writing.Sound from trivial)).imp_right hfollows.trans
    · cases hstep
      exact h.goto trivial
  · cases hstep
  · cases hstep
  · cases hstep
  · cases hstep

theorem sound_step {a : OrderAction} (hstep : StepOf (OrderWorld.next topics) w a w')
    (h : w.Sound) :
    w'.Sound ∧ w.Follows w' := by
  unfold StepOf at hstep
  cases a with
  | place order productId price =>
    simp only [OrderWorld.next] at hstep
    split at hstep
    · rename_i hnew
      cases hstep
      exact h.place hnew
    · cases hstep
  | reprice productId price =>
    cases hstep
    exact h.reprice productId price
  | request request =>
    cases hstep
    refine ⟨⟨h.ids, h.rows, h.priced, fun task htask => ?_, h.outbox⟩, .refl w⟩
    obtain htask | htask := List.mem_append.mp htask
    · exact h.tasks task htask
    · obtain rfl := List.mem_singleton.mp htask
      cases request <;> trivial
  | advance task url clock => exact h.advance hstep
  | fail task message =>
    cases hstep
    exact h.goto trivial
  | addEvent orderId generated =>
    simp only [OrderWorld.next] at hstep
    split at hstep
    · cases hstep
    rename_i writer hwriter
    have hheld := h.writer_eq hwriter
    split at hstep
    · cases hstep
      exact h.setRow fun row hrow _ => (h.rows row hrow).hold fun _ hnone => by cases hnone
    · rename_i event hadded
      cases hstep
      refine h.setRow fun row hrow hid => (h.rows row hrow).hold fun held hnow => ?_
      cases hnow
      obtain ⟨hpending, hleaves, hinput, -⟩ :=
        (h.rows row hrow).held writer (hheld row hrow hid)
      refine ⟨hpending, hleaves, hinput, fun added hevent => ?_⟩
      cases hevent
      obtain ⟨-, rfl⟩ := addOutboxEvent_ok hadded
      exact ⟨rfl, rfl⟩
  | commit orderId =>
    simp only [OrderWorld.next] at hstep
    split at hstep
    · rename_i order input event hwriter
      cases hstep
      have hheld := h.writer_eq hwriter
      obtain ⟨found, hfound, hwriter⟩ := Option.bind_eq_some_iff.mp hwriter
      have hrow := List.mem_of_find?_eq_some hfound
      have hid : found.order.orderId = orderId := by simpa using List.find?_some hfound
      obtain ⟨-, -, hinput, hevent⟩ := (h.rows found hrow).held _ hwriter
      have haggregate : event.aggregateId = toString orderId := by
        rw [(hevent event rfl).2, hinput, hid]
      refine h.move (fun row hrow => ?_) fun added hadded => ?_
      · dsimp only
        split
        · rename_i hsame
          exact (h.rows row hrow).commit (hheld row hrow hsame) rfl
        · rename_i hother
          refine (h.rows row hrow).stays ?_
          unfold orderEvents
          rw [List.filter_append, List.filter_singleton, haggregate]
          simp [Ne.symm hother]
      · obtain hadded | hadded := List.mem_append.mp hadded
        · exact h.outbox added hadded
        · obtain rfl := List.mem_singleton.mp hadded
          exact ⟨found, hrow, by rw [haggregate, hid]⟩
    · cases hstep
  | rollback orderId =>
    cases hstep
    exact h.setRow fun row hrow _ => (h.rows row hrow).hold fun _ hnone => by cases hnone

theorem sound_start (products : Nat → Option Product) : OrderWorld.Sound { products } where
  ids := List.nodup_nil
  rows := by simp
  priced := by simp
  tasks := by simp
  outbox := by simp

end

/-- In every run each order leaves `pending` at most once, with its one event; after that no request
changes it. -/
theorem leaves_pending_once {topics : KafkaTopics} {products : Nat → Option Product}
    {w : OrderWorld}
    {as : List OrderAction} (hrun : Run (StepOf (OrderWorld.next topics)) { products } as w) :
    (∀ row ∈ w.rows, Settled w.outbox row.order) ∧
      ∀ (bs : List OrderAction) (w' : OrderWorld),
        Run (StepOf (OrderWorld.next topics)) w bs w' →
        w.Follows w' := by
  have hsound : w.Sound :=
    hrun.preserves (fun _ _ _ hstep h => (sound_step hstep h).1) (sound_start products)
  refine ⟨fun row hrow => (hsound.rows row hrow).settled, fun bs w' hlater => ?_⟩
  have hboth : w'.Sound ∧ w.Follows w' := by
    refine hlater.preserves (I := fun v => v.Sound ∧ w.Follows v) ?_ ⟨hsound, .refl w⟩
    rintro u a v hstep ⟨hu, hfollows⟩
    exact (sound_step hstep hu).imp_right hfollows.trans
  exact hboth.2

namespace Sample

def products : Nat → Option Product
  | 7 => some { sellerId := 9, currentPrice := none }
  | _ => none

def order : Order :=
  { orderId := 2, publicOrderId := "da74a956-ea91-4553-a04a-4fe915c87951", createdAt := 0,
    userId := 1, productId := some 7 }

def generated : Generated :=
  ⟨Messaging.Sample.firstId, Messaging.Sample.secondId, Messaging.Sample.time 5⟩

/-- The winner pays, the seller approves, and rejects the order while it waits for the commit. -/
def actions : List OrderAction :=
  [.place order 7 100,
    .request (.createOrder
      { userId := 1, publicOrderId := order.publicOrderId
        shippingAddress := some "1 Main St" } true),
    .request (.approveOrder 2 9 true), .request (.rejectOrder 2 9 "no payment"),
    .advance 0 "proof.png" (Messaging.Sample.time 1),
    .advance 0 "proof.png" (Messaging.Sample.time 1),
    .advance 0 "proof.png" (Messaging.Sample.time 1),
    .advance 1 "label.png" (Messaging.Sample.time 2),
    .advance 1 "label.png" (Messaging.Sample.time 2), .advance 2 "" (Messaging.Sample.time 3),
    .advance 1 "label.png" (Messaging.Sample.time 4), .addEvent 2 generated, .commit 2,
    .advance 2 "" (Messaging.Sample.time 6)]

def final : OrderWorld := Run.final (OrderWorld.next {}) { products } actions

end Sample

theorem leaves_pending_once_sample :
    (∀ row ∈ Sample.final.rows, Settled Sample.final.outbox row.order) ∧
      ∀ (bs : List OrderAction) (w' : OrderWorld),
        Run (StepOf (OrderWorld.next {})) Sample.final bs w' → Sample.final.Follows w' :=
  leaves_pending_once (Run.to_final (by decide))

example : Sample.final.rows.map (·.order.orderStatus) = [.paymentVerified] := by decide

end MiracleAuction.Orders
