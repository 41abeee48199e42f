import MiracleAuction.Authority.Keys
import MiracleAuction.Base.Run

/-!
# The PostgreSQL tables

The rows that the projector, the bootstrap and the reconciliation read and
write, and the statements they run. A statement fails when a constraint of the
schema is violated; a failed statement rolls its transaction back.
-/
namespace MiracleAuction
open Decimal

/-- The amounts that a `BIGINT` column holds. -/
abbrev Bigint := { n : Nat // n ≤ maxVnd }

/-! ## Rows -/

structure ProductRow where
  sellerId : Nat
  startPrice : Option Nat
  currentPrice : Option Nat
  stepPrice : Option Nat
  buyNowPrice : Option Nat
  priceOwnerId : Option Nat
  startTime : Option DateMs
  endTime : Option DateMs
  autoExtended : Option Bool
  isRemoved : Option Bool
  auctionStatus : AuctionStatus
  auctionVersion : Nat
  auctionSequence : Nat
  deriving DecidableEq

/-- `extend_bidding_time`, in minutes. -/
structure ExtendBiddingTime where
  extendTime : Option Nat
  thresholdTime : Option Nat
  deriving DecidableEq

structure TransitionRow where
  eventId : Uuid
  productId : Nat
  eventType : EventType
  sequence : Nat
  version : Nat
  payload : AuctionStreamEvent
  deriving DecidableEq

structure HistoryRow where
  eventId : Option Uuid
  productId : Nat
  userId : Nat
  maxPrice : Option Bigint
  productPrice : Option Nat
  priceOwnerId : Option Nat
  /-- `status = 'BANNED'`; the column is null otherwise. -/
  banned : Bool := false
  sequence : Option Nat
  version : Option Nat
  deriving DecidableEq

structure BanRow where
  productId : Nat
  userId : Nat
  reason : Option Text
  deriving DecidableEq

structure OrderRow where
  publicOrderId : Uuid
  productId : Nat
  userId : Nat
  auctionSequence : Option Nat
  deriving DecidableEq

/-- A row of `auction_processed_events`; the entry id is a shard and a stream id. -/
structure ReceiptRow where
  eventId : Uuid
  redisEntryId : Nat × Nat
  productId : Nat
  sequence : Nat
  version : Nat
  deriving DecidableEq

structure OutboxRow where
  eventId : Uuid
  eventType : String
  aggregateId : Nat
  payload : AuctionStreamEvent
  deriving DecidableEq

structure Tables where
  products : Nat → Option ProductRow := fun _ => none
  users : Finset Nat := ∅
  settings : Option ExtendBiddingTime := none
  transitions : List TransitionRow := []
  history : List HistoryRow := []
  bans : List BanRow := []
  orders : List OrderRow := []
  receipts : List ReceiptRow := []
  outbox : List OutboxRow := []

/-! ## Statements -/

/-- The errors of a projection: the two classes of the projector, and any other. -/
inductive ProjectionError
  | invalid (message : String)
  | gap (message : String)
  | database
  deriving DecidableEq, Repr

/-- A `BIGINT` column holds this number. -/
def fitsBigint (n : Nat) : Prop := n ≤ maxVnd

instance (n : Nat) : Decidable (fitsBigint n) := inferInstanceAs (Decidable (_ ≤ _))

def toBigint (n : Nat) : Except ProjectionError Bigint :=
  if h : n ≤ maxVnd then .ok ⟨n, h⟩ else .error .database

/-- The new rows keep a unique index on `key`. -/
def KeepsUnique {ρ κ : Type} (key : ρ → κ) (table rows : List ρ) : Prop :=
  (rows.map key).Nodup ∧ ∀ row ∈ rows, key row ∉ table.map key

instance {ρ κ : Type} [DecidableEq κ] (key : ρ → κ) (table rows : List ρ) :
    Decidable (KeepsUnique key table rows) := by
  unfold KeepsUnique; infer_instance

namespace Tables

/-- The constraints met, the statement is carried out. -/
def statement (constraints : Prop) [Decidable constraints] (next : Tables) :
    Except ProjectionError Tables :=
  if constraints then .ok next else .error .database

variable (T : Tables)

def createTransitions (rows : List TransitionRow) : Except ProjectionError Tables :=
  statement
    (KeepsUnique TransitionRow.eventId T.transitions rows ∧
      KeepsUnique (fun row => (row.productId, row.sequence)) T.transitions rows ∧
      ∀ row ∈ rows, fitsBigint row.sequence ∧ fitsBigint row.version)
    { T with transitions := T.transitions ++ rows }

def createHistory (rows : List HistoryRow) : Except ProjectionError Tables :=
  statement
    (KeepsUnique HistoryRow.eventId T.history rows ∧
      KeepsUnique (fun row => (row.productId, row.sequence)) T.history rows ∧
      ∀ row ∈ rows, row.userId ∈ T.users ∧ (∀ n ∈ row.productPrice, fitsBigint n) ∧
        ∀ n ∈ row.priceOwnerId, fitsBigint n)
    { T with history := T.history ++ rows }

/-- The bans after an insertion that skips duplicates. -/
def insertBans (bans rows : List BanRow) : List BanRow :=
  rows.foldl (fun bans row =>
    if bans.any fun ban => ban.productId = row.productId ∧ ban.userId = row.userId then bans
    else bans ++ [row]) bans

/-- `createMany` with `skipDuplicates`. -/
def createBans (rows : List BanRow) : Except ProjectionError Tables :=
  statement (∀ row ∈ rows, row.userId ∈ T.users) { T with bans := insertBans T.bans rows }

/-- The rows of a banned user are marked. -/
def markRows (productId userId : Nat) (rows : List HistoryRow) : List HistoryRow :=
  rows.map fun row =>
    if row.productId = productId ∧ row.userId = userId then { row with banned := true } else row

/-- The maxima of a banned user no longer count. -/
def markBanned (productId userId : Nat) : Tables :=
  { T with history := markRows productId userId T.history }

def createOrders (rows : List OrderRow) : Except ProjectionError Tables :=
  statement
    (KeepsUnique OrderRow.publicOrderId T.orders rows ∧
      KeepsUnique OrderRow.productId T.orders rows ∧ ∀ row ∈ rows, row.userId ∈ T.users)
    { T with orders := T.orders ++ rows }

def createReceipts (rows : List ReceiptRow) : Except ProjectionError Tables :=
  statement
    (KeepsUnique ReceiptRow.eventId T.receipts rows ∧
      KeepsUnique ReceiptRow.redisEntryId T.receipts rows ∧
      KeepsUnique (fun row => (row.productId, row.sequence)) T.receipts rows)
    { T with receipts := T.receipts ++ rows }

def createOutbox (rows : List OutboxRow) : Except ProjectionError Tables :=
  statement (KeepsUnique OutboxRow.eventId T.outbox rows)
    { T with outbox := T.outbox ++ rows }

/-- `new Date(Number(endAtMs))`, which must be a valid date. -/
def toDate (text : Numeral) : Except ProjectionError DateMs :=
  if h : text.denotes.natAbs ≤ 8640000000000000 then .ok ⟨text.denotes, h⟩
    else .error .database

/-- The snapshot update, guarded by the version. -/
def updateProduct (event : AuctionStreamEvent) : Except ProjectionError Tables := do
  let endTime ← toDate event.endAtMs
  match T.products event.productId with
  | some product =>
    if product.auctionVersion < event.version then
      statement (fitsBigint event.currentPriceVnd ∧ ∀ n ∈ event.leaderId, fitsBigint n)
        { T with
          products := Function.update T.products event.productId (some
            { product with
              currentPrice := some event.currentPriceVnd
              priceOwnerId := event.leaderId
              endTime := some endTime
              auctionStatus := event.status
              isRemoved := some (event.status = .cancelled)
              auctionSequence := event.sequence
              auctionVersion := event.version }) }
    else .error (.gap "Projection version fence rejected the snapshot update")
  | none => .error (.gap "Projection version fence rejected the snapshot update")

/-- The user is listed in `bidding_ban_user` for the product. -/
def Banned (productId userId : Nat) : Prop :=
  ∃ ban ∈ T.bans, ban.productId = productId ∧ ban.userId = userId

instance (productId userId : Nat) : Decidable (T.Banned productId userId) := by
  unfold Banned; infer_instance

/-- The newest transition of a product. -/
def latestTransition (productId : Nat) : Option TransitionRow :=
  (T.transitions.filter (·.productId = productId)).argmax TransitionRow.sequence

end Tables

/-! ## Statements that succeed -/

section
variable {T T' : Tables}

theorem Tables.statement_ok {constraints : Prop} [Decidable constraints] {next : Tables}
    (h : Tables.statement constraints next = .ok T') : constraints ∧ T' = next := by
  unfold Tables.statement at h
  split at h
  · rename_i hc
    cases h
    exact ⟨hc, rfl⟩
  · cases h

theorem toBigint_ok {n : Nat} {amount : Bigint} (h : toBigint n = .ok amount) : n = amount.val := by
  unfold toBigint at h
  split at h
  · cases h; rfl
  · cases h

theorem Tables.toDate_ok {text : Numeral} {date : DateMs} (h : Tables.toDate text = .ok date) :
    date.val = text.denotes := by
  unfold Tables.toDate at h
  split at h
  · cases h; rfl
  · cases h

/-- A successful snapshot update has overwritten the product's row. -/
theorem Tables.updateProduct_ok {event : AuctionStreamEvent}
    (h : T.updateProduct event = .ok T') :
    ∃ product date, T.products event.productId = some product ∧
      Tables.toDate event.endAtMs = .ok date ∧
      T' = { T with
        products := Function.update T.products event.productId (some
          { product with
            currentPrice := some event.currentPriceVnd
            priceOwnerId := event.leaderId
            endTime := some date
            auctionStatus := event.status
            isRemoved := some (event.status = .cancelled)
            auctionSequence := event.sequence
            auctionVersion := event.version }) } := by
  unfold Tables.updateProduct at h
  obtain ⟨date, hdate, h⟩ := Except.bind_eq_ok h
  split at h
  · rename_i product hproduct
    split at h
    · exact ⟨product, date, hproduct, hdate, (Tables.statement_ok h).2⟩
    · cases h
  · cases h

/-- A ban is recorded, at most once. -/
theorem Tables.mem_insertBans {bans rows : List BanRow} {p u : Nat} :
    (∃ ban ∈ insertBans bans rows, ban.productId = p ∧ ban.userId = u) ↔
      (∃ ban ∈ bans, ban.productId = p ∧ ban.userId = u) ∨
        ∃ row ∈ rows, row.productId = p ∧ row.userId = u := by
  unfold insertBans
  induction rows generalizing bans with
  | nil => simp
  | cons row rows ih =>
    rw [List.foldl_cons, ih]
    have hone : (∃ ban ∈ (if bans.any fun ban => ban.productId = row.productId ∧
        ban.userId = row.userId then bans else bans ++ [row]), ban.productId = p ∧
          ban.userId = u) ↔
        (∃ ban ∈ bans, ban.productId = p ∧ ban.userId = u) ∨
          row.productId = p ∧ row.userId = u := by
      split
      · rename_i hany
        simp only [List.any_eq_true, decide_eq_true_eq] at hany
        obtain ⟨ban, hban, hp, hu⟩ := hany
        constructor
        · exact .inl
        · rintro (h | ⟨rfl, rfl⟩)
          · exact h
          · exact ⟨ban, hban, hp, hu⟩
      · simp [or_and_right, exists_or]
    rw [hone]
    simp [or_assoc]

end

end MiracleAuction
