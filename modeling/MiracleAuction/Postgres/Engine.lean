import MiracleAuction.Authority.Script
import MiracleAuction.Base.Queries
import MiracleAuction.Projection.Tables

/-!
# The PostgreSQL engine

The transactions of `BID_ENGINE=postgres` on one auction. The lock on its row serialises them,
and one that fails is rolled back.
-/
namespace MiracleAuction
namespace Postgres
open Decimal

/-! ## Rows -/

/-- A row of `bidding_history` that this engine wrote. Its maximum is never null. -/
structure Bid where
  createdAt : Int
  userId : Nat
  maxPrice : Nat
  productPrice : Nat
  priceOwnerId : Nat
  banned : Bool := false
  deriving DecidableEq

structure UserRow where
  rating : Option ℚ
  ratingCount : Option Int

structure IdempotencyRow where
  operation : String
  userId : Nat
  idempotencyKey : Text
  requestFingerprint : Text
  deriving DecidableEq

/-- What the transactions read and write. `history` is in the order of `bidding_id`, and `order`
is the user of the product's only order. -/
structure State where
  productId : Nat
  product : ProductRow
  history : List Bid := []
  bans : List BanRow := []
  order : Option Nat := none
  users : Nat → Option UserRow
  settings : Option ExtendBiddingTime := none
  idempotency : List IdempotencyRow := []

/-- Why a transaction is rolled back. -/
inductive Failure
  | domain (error : BidDomainError)
  | database
  deriving DecidableEq, Repr

/-! ## Policies -/

structure AuctionState where
  productId : Nat
  sellerId : Nat
  currentPrice : Nat
  startPrice : Nat
  stepPrice : Nat
  priceOwnerId : Option Nat
  buyNowPrice : Option Nat
  startTime : Int
  endTime : Int
  isRemoved : Bool
  status : AuctionStatus
  version : Nat
  sequence : Nat

structure BidderEligibility where
  rating : ℚ
  ratingCount : Int
  banned : Bool

structure ProxyBid where
  userId : Nat
  maxPrice : Nat

structure ProxyBidResult where
  currentPrice : Nat
  priceOwnerId : Nat
  turns : Nat

/-- An auction that is `PENDING` is active inside its window. -/
def effectiveStatus (status : AuctionStatus) (startTime endTime now : Int) : AuctionStatus :=
  if status = .pending ∧ startTime ≤ now ∧ now < endTime then .active else status

/-- `mapAuctionRow`. -/
def mapAuctionRow (productId : Nat) (row : ProductRow) (now : Int) : AuctionState :=
  let startTime := (row.startTime.map Subtype.val).getD 0
  let endTime := (row.endTime.map Subtype.val).getD 0
  { productId := productId
    sellerId := row.sellerId
    currentPrice := row.currentPrice.getD 0
    startPrice := row.startPrice.getD 0
    stepPrice := row.stepPrice.getD 0
    priceOwnerId := row.priceOwnerId
    buyNowPrice := row.buyNowPrice
    startTime := startTime
    endTime := endTime
    isRemoved := row.isRemoved.getD false
    status := effectiveStatus row.auctionStatus startTime endTime now
    version := row.auctionVersion
    sequence := row.auctionSequence }

def reject (message : String) (statusCode : Nat := 400) : Except Failure Unit :=
  .error (.domain ⟨message, statusCode, "BID_REJECTED"⟩)

def assertAuctionAvailable (auction : AuctionState) (now : Int) : Except Failure Unit :=
  if effectiveStatus auction.status auction.startTime auction.endTime now ≠ .active ∨
      auction.isRemoved ∨ now < auction.startTime ∨ auction.endTime ≤ now then
    reject "Product is not in bidding period"
  else .ok ()

def assertBidderCanParticipate (auction : AuctionState) (userId : Nat)
    (eligibility : BidderEligibility) : Except Failure Unit :=
  if auction.sellerId = userId then reject "Seller cannot bid on their own product"
  else if eligibility.banned then reject "You have been banned from bidding on this product" 403
  else if eligibility.ratingCount ≠ 0 ∧ eligibility.rating < 4 then
    reject "User ratings too low to bid"
  else .ok ()

/-- The amount is a whole number of steps above the price. -/
def followsStep (auction : AuctionState) (maximum : Nat) : Prop :=
  auction.stepPrice = 0 ∨ ((maximum : Int) - auction.currentPrice) % auction.stepPrice = 0

instance (auction : AuctionState) (maximum : Nat) : Decidable (followsStep auction maximum) :=
  inferInstanceAs (Decidable (_ ∨ _))

def assertBidAmount (auction : AuctionState) (maximum : Nat) : Except Failure Unit :=
  if maximum < auction.currentPrice + auction.stepPrice ∨ ¬ followsStep auction maximum then
    reject "Invalid bid price"
  else .ok ()

def assertBanAuthority (actorId : Nat) (role : Role) (auction : AuctionState) :
    Except Failure Unit :=
  if role ≠ .admin ∧ actorId ≠ auction.sellerId then
    reject "Only the seller or an administrator can ban bidders" 403
  else .ok ()

def calculateProxyBid (auction : AuctionState) (incoming : ProxyBid) (leader : Option ProxyBid) :
    ProxyBidResult :=
  match leader with
  | none => ⟨auction.currentPrice, incoming.userId, 1⟩
  | some leader =>
    if leader.userId = incoming.userId then ⟨auction.currentPrice, incoming.userId, 0⟩
    else if incoming.maxPrice ≤ leader.maxPrice then
      ⟨min (incoming.maxPrice + auction.stepPrice) leader.maxPrice, leader.userId, 2⟩
    else ⟨min (leader.maxPrice + auction.stepPrice) incoming.maxPrice, incoming.userId, 1⟩

/-! ## `BidRepository` -/

/-- `max_price` descending, then `created_at` descending. -/
def Bid.After (row other : Bid) : Prop :=
  row.maxPrice < other.maxPrice ∨ row.maxPrice = other.maxPrice ∧
    row.createdAt ≤ other.createdAt

instance : DecidableRel Bid.After := fun _ _ => inferInstanceAs (Decidable (_ ∨ _))

/-- The rows that `leader` may find. -/
def leaderRows (history : List Bid) : List Bid :=
  OrderBy.candidates Bid.After (history.filter fun row => !row.banned)

/-- `created_at` descending, then `bidding_id` descending. -/
def Older (row other : Bid × Nat) : Prop :=
  row.1.createdAt < other.1.createdAt ∨
    row.1.createdAt = other.1.createdAt ∧ row.2 ≤ other.2

instance : DecidableRel Older := fun _ _ => inferInstanceAs (Decidable (_ ∨ _))

/-- The newest standing row of a user. -/
def latestBid (history : List Bid) (userId : Nat) : Option Nat :=
  (OrderBy.candidates Older (history.zipIdx.filter fun (row, _) =>
    row.userId = userId ∧ !row.banned)).head?.map Prod.snd

def updateLeaderMax (history : List Bid) (userId maxPrice : Nat) : List Bid :=
  match latestBid history userId with
  | some biddingId => history.modify biddingId fun row => { row with maxPrice := maxPrice }
  | none => history

namespace State
variable (s : State)

/-- The leader, where `choice` decides between rows that the query does not order. -/
def leader (choice : Nat) : Option ProxyBid :=
  (leaderRows s.history)[choice % (leaderRows s.history).length]?.map fun row =>
    ⟨row.userId, row.maxPrice⟩

def banned (userId : Nat) : Bool :=
  s.bans.any fun ban => ban.productId = s.productId ∧ ban.userId = userId

def eligibility (userId : Nat) : Except Failure BidderEligibility :=
  match s.users userId with
  | none => .error (.domain ⟨"User not found", 403, "BID_REJECTED"⟩)
  | some user => .ok ⟨user.rating.getD 0, user.ratingCount.getD 0, s.banned userId⟩

/-- `extendedEndTime`, in milliseconds. -/
def extendedEndTime (auction : AuctionState) (now : Int) : Option Int :=
  let threshold : Int := ((s.settings.bind (·.thresholdTime)).getD 0 : Nat)
  let extension : Int := ((s.settings.bind (·.extendTime)).getD 0 : Nat)
  if threshold ≤ 0 ∨ extension ≤ 0 ∨ now + threshold * 60000 < auction.endTime then none
  else some (auction.endTime + extension * 60000)

/-- `updateAuction`. A time outside of the range of dates is refused, and so is a counter that
leaves its column. -/
def updateAuction (currentPrice priceOwnerId : Nat) (endTime : Option Int) : Except Failure State :=
  if ¬ (fitsBigint (s.product.auctionVersion + 1) ∧
    fitsBigint (s.product.auctionSequence + 1)) then
    .error .database
  else
    let written := { s.product with
      currentPrice := some currentPrice
      priceOwnerId := some priceOwnerId
      auctionVersion := s.product.auctionVersion + 1
      auctionSequence := s.product.auctionSequence + 1 }
    match endTime with
    | none => .ok { s with product := written }
    | some time =>
      if h : time.natAbs ≤ 8640000000000000 then
        .ok { s with product := { written with endTime := some ⟨time, h⟩ } }
      else .error .database

def record (bid : Bid) : State := { s with history := s.history ++ [bid] }

/-- `createOrder`: a product has one order. -/
def createOrder (userId : Nat) : Except Failure State :=
  match s.order with
  | none => .ok { s with order := some userId }
  | some _ => .error .database

/-- Whether the key has a stored response. -/
def findIdempotentResponse (operation : String) (userId : Nat) (key fingerprint : Text) :
    Except Failure Bool :=
  match s.idempotency.find? fun row =>
    key ≠ [] ∧ row.operation = operation ∧ row.userId = userId ∧
      row.idempotencyKey = key with
  | none => .ok false
  | some row =>
    if row.requestFingerprint ≠ fingerprint then
      .error (.domain ⟨"Idempotency key was already used for a different request", 400,
        "BID_REJECTED"⟩)
    else .ok true

/-- The column holds keys of up to 255 characters. -/
def saveIdempotentResponse (operation : String) (userId : Nat) (key fingerprint : Text) :
    Except Failure State :=
  if key = [] then .ok s
  else if 255 < key.length then .error .database
  else .ok { s with idempotency := s.idempotency ++ [⟨operation, userId, key, fingerprint⟩] }

end State

/-! ## Transactions -/

/-- `PlaceBidInput`, the clock, the `created_at` of the rows that are written, and the row that the
query of the leader finds. -/
structure PlaceBidInput where
  userId : UserId
  maxPriceVnd : Text
  idempotencyKey : Text
  now : DateMs
  createdAt : Int
  recreatedAt : Int
  choice : Nat := 0

namespace PlaceBid
variable (s : State) (input : PlaceBidInput)

/-- `BuyNowUseCase.complete`. -/
def complete (auction : AuctionState) : Except Failure State :=
  match auction.buyNowPrice with
  | none => .error (.domain ⟨"Product does not have buy now price", 400, "BID_REJECTED"⟩)
  | some price => do
    let s ← s.updateAuction price input.userId (some input.now.val)
    (s.record
      { createdAt := input.createdAt
        userId := input.userId
        maxPrice := price
        productPrice := price
        priceOwnerId := input.userId }).createOrder input.userId

/-- The rows of an accepted bid. -/
def recordBid (maxPrice : Nat) (result : ProxyBidResult) :
    Option ProxyBid → Except Failure State
  | some leader =>
    if leader.userId = input.userId then
      if maxPrice ≤ leader.maxPrice then
        .error (.domain ⟨"Your new maximum bid must be higher than your current maximum bid", 400,
          "BID_REJECTED"⟩)
      else .ok { s with history := updateLeaderMax s.history input.userId maxPrice }
    else
      let recorded := s.record
        { createdAt := input.createdAt
          userId := input.userId
          maxPrice := maxPrice
          productPrice := result.currentPrice
          priceOwnerId := result.priceOwnerId }
      if maxPrice ≤ leader.maxPrice then
        .ok (recorded.record
          { createdAt := input.recreatedAt
            userId := leader.userId
            maxPrice := leader.maxPrice
            productPrice := result.currentPrice
            priceOwnerId := leader.userId })
      else .ok recorded
  | none =>
    .ok (s.record
      { createdAt := input.createdAt
        userId := input.userId
        maxPrice := maxPrice
        productPrice := result.currentPrice
        priceOwnerId := result.priceOwnerId })

/-- A bid below the buy-now price. -/
def proxy (auction : AuctionState) (maxPrice : Nat) : Except Failure State := do
  let leader := s.leader input.choice
  let result := calculateProxyBid auction ⟨input.userId, maxPrice⟩ leader
  let recorded ← recordBid s input maxPrice result leader
  recorded.updateAuction result.currentPrice result.priceOwnerId
    (s.extendedEndTime auction input.now.val)

/-- The maximum reaches the buy-now price. -/
def reachesBuyNow (auction : AuctionState) (maxPrice : Nat) : Prop :=
  ∃ price ∈ auction.buyNowPrice, price ≤ maxPrice

instance (auction : AuctionState) (maxPrice : Nat) :
    Decidable (reachesBuyNow auction maxPrice) := by
  unfold reachesBuyNow; infer_instance

/-- The checks, then the writes. -/
def decide (auction : AuctionState) (maxPrice : Nat) : Except Failure State := do
  assertAuctionAvailable auction input.now.val
  let eligibility ← s.eligibility input.userId
  assertBidderCanParticipate auction input.userId eligibility
  assertBidAmount auction maxPrice
  if reachesBuyNow auction maxPrice then complete s input auction
  else proxy s input auction maxPrice

def fingerprint : Text := digits s.productId ++ ':' :: input.maxPriceVnd

end PlaceBid

/-- The PostgreSQL branch of `PlaceBidUseCase.execute`. -/
def placeBid (s : State) (input : PlaceBidInput) : Except Failure State := do
  let maxPrice ← (parseMoneyVnd input.maxPriceVnd "max_price").mapError .domain
  let fingerprint := PlaceBid.fingerprint s input
  let replay ← s.findIdempotentResponse "place_bid" input.userId input.idempotencyKey fingerprint
  if replay then return s
  let next ← PlaceBid.decide s input
      (mapAuctionRow s.productId s.product input.now.val) maxPrice.val
  next.saveIdempotentResponse "place_bid" input.userId input.idempotencyKey fingerprint

/-- What `BanBidderUseCase.execute` is called with. -/
structure BanInput where
  actorId : UserId
  actorRole : Role
  bannedUserId : Nat
  reason : Text
  now : DateMs

/-- `BidRepository.ban`, for a user that exists. -/
def State.ban (s : State) (userId : Nat) (reason : Text) : Except Failure State :=
  match s.users userId with
  | none => .error .database
  | some _ =>
    .ok { s with
      bans := s.bans ++ [⟨s.productId, userId, some reason⟩]
      history := s.history.map fun row =>
        if row.userId = userId ∧ row.banned = false then { row with banned := true } else row }

/-- The PostgreSQL branch of `BanBidderUseCase.execute`. -/
def banBidder (s : State) (input : BanInput) : Except Failure State := do
  let auction := mapAuctionRow s.productId s.product input.now.val
  assertBanAuthority input.actorId input.actorRole auction
  if s.banned input.bannedUserId then
    .error (.domain ⟨"Bidder was already banned", 400, "BID_REJECTED"⟩)
  else s.ban input.bannedUserId input.reason

/-- A transaction of the engine. -/
inductive Transaction
  | bid (input : PlaceBidInput)
  | ban (input : BanInput)

/-- One that fails leaves the state as it was. -/
def Transaction.apply (s : State) : Transaction → State
  | .bid input => ((placeBid s input).toOption).getD s
  | .ban input => ((banBidder s input).toOption).getD s

end Postgres

end MiracleAuction
