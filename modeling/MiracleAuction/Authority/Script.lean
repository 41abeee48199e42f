import MiracleAuction.Authority.Keys

/-! # `auction-mutate.lua` -/
namespace MiracleAuction
open Decimal

/-- `fail`. -/
def fail (code message : String) (statusCode : Nat := 400) : Reply := .error code message statusCode

def maxBigint : Nat := 9223372036854775807

/-- The local variables an operation branch leaves behind. -/
structure Decision where
  nextStatus : AuctionStatus
  nextLeaderId : Option Nat
  nextLeaderMax : Option Nat
  nextPrice : Nat
  nextEndAtMs : Int
  orderId : Option Uuid
  eventType : EventType
  oldRankMember : Option Text := none
  newRankMember : Option Text := none

/-- `tonumber(request.nowMs)`. -/
def Request.now (req : Request) : Int := Lua.tonumber req.nowMs.text

/-- `trim(request.amountVnd)`; a missing amount is trimmed to zero. -/
def Request.amount (req : Request) : Nat := (req.amountVnd.map Subtype.val).getD 0

/-- `tostring(request.actorId)`. -/
def Request.actor (req : Request) : Nat := Lua.tostringId req.actorId

def Request.banTargetId (req : Request) : Option Nat := req.targetUserId.map Lua.tostringId

/-- `BID` and `BUY_NOW`, the operations of bidders. -/
def Operation.isBidding : Operation → Bool
  | .bid | .buyNow => true
  | _ => false

namespace StateHash
variable (h : StateHash)

def startAt : Int := Lua.tonumber h.startAtMs
def endAt : Int := Lua.tonumber h.endAtMs

/-- A `PENDING` auction counts as active inside its window. -/
def effectiveStatus (nowMs : Int) : AuctionStatus :=
  if h.status = .pending ∧ h.startAt ≤ nowMs ∧ nowMs < h.endAt then .active else h.status

/-- The anti-sniping condition. -/
def snipes (nowMs : Int) : Prop :=
  h.autoExtend = true ∧ 0 < Lua.tonumber h.antiSnipeWindowMs ∧
    0 < Lua.tonumber h.antiSnipeExtensionMs ∧
    Lua.number (h.endAt - nowMs) ≤ Lua.tonumber h.antiSnipeWindowMs

instance (nowMs : Int) : Decidable (h.snipes nowMs) := by unfold snipes; infer_instance

/-- The deadline a bid leaves. -/
def bidEnd (nowMs : Int) : Int :=
  if h.snipes nowMs then Lua.number (h.endAt + Lua.tonumber h.antiSnipeExtensionMs) else h.endAt

end StateHash

namespace Script
variable (a : Auction) (req : Request)

/-- The initial values of the `next*` variables. -/
def unchanged (eventType : EventType) : Decision where
  nextStatus := a.hash.effectiveStatus req.now
  nextLeaderId := a.hash.leaderId
  nextLeaderMax := a.hash.leaderMaxPriceVnd
  nextPrice := a.hash.currentPriceVnd
  nextEndAtMs := a.hash.endAt
  orderId := req.orderId
  eventType := eventType

/-- The checks shared by `BID` and `BUY_NOW`. -/
def bidderCheck : Except Reply Unit :=
  if a.hash.effectiveStatus req.now ≠ .active ∨ req.now < a.hash.startAt ∨
    a.hash.endAt ≤ req.now then
    .error (fail "AUCTION_NOT_ACTIVE" "Auction is not active" 409)
  else if req.actor = a.hash.sellerId then
    .error (fail "SELLER_CANNOT_BID" "Seller cannot bid on their own auction" 403)
  else if req.actor ∈ a.sets.bans then
    .error (fail "BIDDER_BANNED" "Bidder is banned from this auction" 403)
  else .ok ()

/-- The proxy rule: leader, leader maximum and price after an accepted bid. -/
def proxyBid (h : StateHash) (actorId maximum : Nat) : Option Nat × Option Nat × Nat :=
  match h.leaderId with
  | none => (some actorId, some maximum, h.currentPriceVnd)
  | some leaderId =>
    let leaderMax := h.leaderMaxPriceVnd.getD 0
    if leaderId = actorId then (some leaderId, some maximum, h.currentPriceVnd)
    else if Money.compare maximum leaderMax ≤ 0 then
      (some leaderId, h.leaderMaxPriceVnd,
        Money.minimum (Money.add maximum h.stepPriceVnd) leaderMax)
    else
      (some actorId, some maximum, Money.minimum (Money.add leaderMax h.stepPriceVnd) maximum)

def bid : Except Reply Decision :=
  let h := a.hash
  let maximum := req.amount
  let minimumBid := Money.add h.currentPriceVnd h.stepPriceVnd
  if Money.compare minimumBid maxBigint > 0 then
    .error (fail "MONEY_OVERFLOW" "No higher BIGINT bid can be represented" 409)
  else if Money.compare maximum minimumBid < 0 then
    .error (fail "BID_TOO_LOW" "Maximum bid does not meet the next bid step" 409)
  else if (a.sets.maxima req.actor).any fun previousMaximum =>
      Money.compare maximum previousMaximum ≤ 0 then
    .error (fail "MAXIMUM_NOT_INCREASED" "Maximum bid must increase" 409)
  else
    let next := proxyBid h req.actor maximum
    .ok { unchanged a req .bidAccepted with
      nextLeaderId := next.1
      nextLeaderMax := next.2.1
      nextPrice := next.2.2
      nextEndAtMs := h.bidEnd req.now
      oldRankMember := a.sets.rankMembers req.actor
      newRankMember := some (Money.rankMember maximum req.actor) }

def buyNow : Except Reply Decision :=
  match a.hash.buyNowPriceVnd with
  | none => .error (fail "BUY_NOW_DISABLED" "Buy now is not available" 409)
  | some buyNowPrice =>
    if Money.compare req.amount buyNowPrice < 0 then
      .error (fail "BUY_NOW_PRICE_MISMATCH" "Buy now amount is too low" 409)
    else
      .ok { unchanged a req .buyNowCompleted with
        nextStatus := .sold
        nextLeaderId := some req.actor
        nextLeaderMax := some buyNowPrice
        nextPrice := buyNowPrice
        nextEndAtMs := req.now }

def ban : Except Reply Decision :=
  if a.hash.effectiveStatus req.now ≠ .active then
    .error (fail "AUCTION_NOT_ACTIVE" "Auction is not active" 409)
  else if req.actor ≠ a.hash.sellerId ∧ req.actorRole ≠ .admin then
    .error (fail "FORBIDDEN" "Only the seller or admin can ban" 403)
  else
    match req.banTargetId with
    | none => .error (fail "INVALID_TARGET" "A bidder is required" 400)
    | some banTargetId =>
      if banTargetId = a.hash.sellerId then
        .error (fail "INVALID_TARGET" "Seller cannot be banned" 409)
      else if banTargetId ∈ a.sets.bans then
        .error (fail "ALREADY_BANNED" "Bidder is already banned" 409)
      else
        .ok { unchanged a req .bidderBanned with
          oldRankMember := a.sets.rankMembers banTargetId }

def close : Except Reply Decision :=
  if a.hash.effectiveStatus req.now ≠ .active then
    .error (fail "AUCTION_NOT_ACTIVE" "Auction is not active" 409)
  else if req.now < a.hash.endAt then
    .error (fail "AUCTION_NOT_DUE" "Auction deadline has not passed" 409)
  else
    .ok { unchanged a req .auctionClosed with
      nextStatus := .ended
      orderId := if a.hash.leaderId = none then none else req.orderId }

def cancel : Except Reply Decision :=
  let status := a.hash.effectiveStatus req.now
  if status ≠ .pending ∧ status ≠ .active then
    .error (fail "AUCTION_NOT_CANCELLABLE" "Auction cannot be cancelled" 409)
  else if req.actor ≠ a.hash.sellerId ∧ req.actorRole ≠ .admin then
    .error (fail "FORBIDDEN" "Only the seller or admin can cancel" 403)
  else .ok { unchanged a req .auctionCancelled with nextStatus := .cancelled }

/-- The operation branches; an error is a rejection that is stored. -/
def operate : Except Reply Decision :=
  match req.operation with
  | .bid => do bidderCheck a req; bid a req
  | .buyNow => do bidderCheck a req; buyNow a req
  | .ban => ban a req
  | .close => close a req
  | .cancel => cancel a req

/-- The event, serialised before the structures are updated. -/
def event (d : Decision) : AuctionStreamEvent where
  eventId := req.eventId
  correlationId := req.correlationId
  idempotencyKey := req.idempotencyKey
  schemaVersion := 1
  type := d.eventType
  productId := a.hash.productId
  actorId := req.actor
  requestedMaxPriceVnd := if req.operation.isBidding then some req.amount else none
  targetUserId := req.banTargetId
  currentPriceVnd := d.nextPrice
  leaderId := d.nextLeaderId
  leaderMaxPriceVnd := d.nextLeaderMax
  endAtMs := Lua.tostring d.nextEndAtMs
  status := d.nextStatus
  sequence := Money.add a.hash.sequence 1
  version := Money.add a.hash.version 1
  occurredAtMs := Lua.tostring req.now
  orderId := d.orderId
  reason := req.reason

/-- `ZREM` of a member that may be missing. -/
def zrem (member : Option Text) (ranking : SortedSet Text) : SortedSet Text :=
  match member with
  | some m => ranking.erase m
  | none => ranking

def bidSets (d : Decision) : BidSets :=
  match d.newRankMember with
  | some member =>
    { a.sets with
      ranking := (zrem d.oldRankMember a.sets.ranking).insert member
      maxima := Function.update a.sets.maxima req.actor (some req.amount)
      rankMembers := Function.update a.sets.rankMembers req.actor (some member) }
  | none => a.sets

def banSets (banTargetId : Nat) (d : Decision) : BidSets where
  bans := insert banTargetId a.sets.bans
  maxima := Function.update a.sets.maxima banTargetId none
  rankMembers := Function.update a.sets.rankMembers banTargetId none
  ranking := zrem d.oldRankMember a.sets.ranking

/-- After a ban of the leader the two greatest ranking members decide. -/
def reelect (h : StateHash) (ranking : SortedSet Text) (d : Decision) : Decision :=
  match ranking.greatest 2 with
  | [] => { d with nextLeaderId := none, nextLeaderMax := none, nextPrice := h.startPriceVnd }
  | [top] =>
    { d with
      nextLeaderId := some (Money.rankedBidder top)
      nextLeaderMax := some (Money.rankedMaximum top)
      nextPrice := h.startPriceVnd }
  | top :: second :: _ =>
    let nextLeaderMax := Money.rankedMaximum top
    { d with
      nextLeaderId := some (Money.rankedBidder top)
      nextLeaderMax := some nextLeaderMax
      nextPrice :=
        Money.minimum (Money.add (Money.rankedMaximum second) h.stepPriceVnd) nextLeaderMax }

/-- The structure updates: the new sets, and the variables as they leave. -/
def update (d : Decision) : BidSets × Decision :=
  match req.operation, req.banTargetId with
  | .bid, _ => (bidSets a req d, d)
  | .ban, some banTargetId =>
    let sets := banSets a banTargetId d
    (sets, if a.hash.leaderId = some banTargetId then reelect a.hash sets.ranking d else d)
  | _, _ => (a.sets, d)

/-- The auction after the writes that follow the event. -/
def write (d : Decision) : Auction :=
  let next := update a req d
  { sets := next.1
    hash := { a.hash with
      status := next.2.nextStatus
      currentPriceVnd := next.2.nextPrice
      leaderId := next.2.nextLeaderId
      leaderMaxPriceVnd := next.2.nextLeaderMax
      endAtMs := Lua.tostring next.2.nextEndAtMs
      sequence := Money.add a.hash.sequence 1
      version := Money.add a.hash.version 1
      lastEventId := some req.eventId }
    deadline := if next.2.nextStatus = .active then some next.2.nextEndAtMs else none }

/-- The success reply. `leader_id` is never null: a missing leader is the empty text. -/
def result (d : Decision) : AuctionMutationData :=
  let next := (update a req d).2
  { eventId := req.eventId
    productId := a.hash.productId
    currentPrice := next.nextPrice
    leaderId := .text next.nextLeaderId
    endTimeMs := Lua.tostring next.nextEndAtMs
    sequence := Money.add a.hash.sequence 1
    version := Money.add a.hash.version 1
    orderId := next.orderId }

/-- The checks of a loaded auction that fail without a stored reply. -/
def integrityCheck (h : StateHash) : Option Reply :=
  if Money.compare h.sequence maxBigint ≥ 0 ∨ Money.compare h.version maxBigint ≥ 0 then
    some (fail "CORRUPT_REDIS_STATE" "Auction sequence or version is exhausted" 503)
  else if Numeral.plain h.productId ≠ Lua.tostring (Lua.number req.productId) then
    some (fail "CORRUPT_REDIS_STATE" "Auction identifier does not match its key" 503)
  else none

/-- The recovery fences and key types, checked before anything else. -/
def fenceCheck (k : AuctionKeys) : Option Reply :=
  if k.wrongType then
    some (fail "CORRUPT_REDIS_STATE" "Redis key has an unexpected type" 503)
  else if k.recoveryFence then
    some (fail "AUCTION_AUTHORITY_RECOVERING" "Auction authority is recovering" 503)
  else if k.auctionRecoveryFence then
    some (fail "AUCTION_AUTHORITY_RECOVERING" "This auction is recovering" 503)
  else none

/-- The key of the request's idempotency record. -/
def digest : Sha256 := ⟨req.idempotencyKey⟩

/-- The record of an earlier reply: the request's own key, else the legacy hash. -/
def replay (k : AuctionKeys) : Option StoredReply :=
  (k.idempotency (digest req)).or (k.legacyIdempotency req.idempotencyKey)

/-- `SET` of the request's idempotency record. -/
def store (k : AuctionKeys) (stored : StoredReply) : AuctionKeys :=
  { k with idempotency := Function.update k.idempotency (digest req) (some stored) }

/-- A record found only in the legacy hash is copied while that hash expires. -/
def migrate (k : AuctionKeys) : AuctionKeys :=
  match k.idempotency (digest req), k.legacyIdempotency req.idempotencyKey with
  | none, some stored => if 0 < k.legacyTtlMs then store req k stored else k
  | _, _ => k

/-- `INCR` of the bidder's rate key. -/
def countRate (k : AuctionKeys) : AuctionKeys :=
  if req.operation.isBidding then
    { k with rate := Function.update k.rate req.actor (k.rate req.actor + 1) }
  else k

/-- Everything an accepted command writes. -/
def accept (k : AuctionKeys) (d : Decision) : AuctionKeys :=
  let written := write a req d
  store req
    { countRate req k with
      stream := k.stream ++ [event a req d]
      state := .hash written.hash
      sets := written.sets
      deadline := written.deadline }
    ⟨req.fingerprint, .success (result a req d)⟩

/-- The script from the operation branches on. -/
def conclude (k : AuctionKeys) : Reply × AuctionKeys :=
  match operate a req with
  | .error rejection => (rejection, store req k ⟨req.fingerprint, rejection⟩)
  | .ok d =>
    if req.operation.isBidding ∧ req.rateLimit ≤ k.rate req.actor then
      (fail "RATE_LIMITED" "Too many auction mutations" 429, k)
    else (.success (result a req d), accept a req k d)

/-- The script once no recorded reply was found. -/
def execute (k : AuctionKeys) : Reply × AuctionKeys :=
  match k.state with
  | .absent =>
    (fail "AUCTION_STATE_NOT_READY" "Auction is not loaded into the bidding authority" 503, k)
  | .incomplete => (fail "CORRUPT_REDIS_STATE" "Auction state is incomplete" 503, k)
  | .hash h =>
    match integrityCheck req h with
    | some failure => (failure, k)
    | none => conclude ⟨h, k.sets, k.deadline⟩ req k

end Script

/-- The script `auction-mutate.lua`, one atomic step. -/
def mutateScript (req : Request) (k : AuctionKeys) : Reply × AuctionKeys :=
  match Script.fenceCheck k with
  | some failure => (failure, k)
  | none =>
    match Script.replay req k with
    | some stored =>
      if stored.fingerprint ≠ req.fingerprint then
        (fail "IDEMPOTENCY_KEY_REUSED" "Idempotency key was used for another request" 409,
          Script.migrate req k)
      else (stored.result, Script.migrate req k)
    | none => Script.execute req k

end MiracleAuction
