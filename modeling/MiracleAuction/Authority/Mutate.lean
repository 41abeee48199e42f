import MiracleAuction.Base.Run
import MiracleAuction.Authority.Script

/-!
# `RedisAuctionAuthority.mutate`

The TypeScript caller of the script, and the actions that change the keys of an
auction between and besides its calls.
-/
namespace MiracleAuction
open Decimal

/-- The number of UTF-16 units, JavaScript's `length`. -/
def jsLength (text : Text) : Nat := (text.map fun c => if c.toNat < 65536 then 1 else 2).sum

namespace Operation

def text : Operation → Text
  | .bid => "BID".toList
  | .buyNow => "BUY_NOW".toList
  | .ban => "BAN".toList
  | .close => "CLOSE".toList
  | .cancel => "CANCEL".toList

end Operation

/-- The parts of a fingerprint, joined by colons. -/
def joinFingerprint (operation : Operation) (productId actorId : Nat)
    (amount target reason : Text) :
    Text :=
  List.intercalate [':'] [operation.text, digits productId, digits actorId, amount, target, reason]

def fingerprint (command : AuctionMutationCommand) : Text :=
  joinFingerprint command.operation command.productId command.actorId (command.amountVnd.getD [])
    ((command.targetUserId.map digits).getD []) (command.reason.getD [])

def idempotencyDigest (command : AuctionMutationCommand) : Sha256 := ⟨command.idempotencyKey⟩

/-- What becomes of the round trip to Redis. -/
inductive Connection
  | answered
  | requestLost
  | replyLost
  deriving DecidableEq, Repr

/-- One call of `mutate`: the command, the two values of `randomUUID`, the
clock, the environment variables it reads, and the answers of the network. -/
structure Call where
  command : AuctionMutationCommand
  eventId : Uuid
  newOrderId : Uuid
  clock : DateMs
  rateLimit : Nat := 30
  replicas : Nat := 0
  acknowledged : Nat := 0
  connection : Connection := .answered

namespace Call

/-- `command.orderId`, or a fresh id for the operations that can create an order. -/
def orderId (c : Call) : Option Uuid :=
  c.command.orderId.or
    (if c.command.operation = .buyNow ∨ c.command.operation = .close then some c.newOrderId
      else none)

/-- The payload, once the amount is parsed. -/
def request (c : Call) (amountVnd : Option MoneyVnd) : Request where
  operation := c.command.operation
  productId := c.command.productId
  actorId := c.command.actorId
  actorRole := c.command.actorRole
  idempotencyKey := c.command.idempotencyKey
  correlationId := c.command.correlationId
  amountVnd := amountVnd
  targetUserId := c.command.targetUserId
  reason := c.command.reason
  eventId := c.eventId
  orderId := c.orderId
  nowMs := c.command.now.getD c.clock
  fingerprint := fingerprint c.command
  rateLimit := c.rateLimit

/-- The checks before the script runs, and the payload. -/
def payload (c : Call) : Except BidDomainError Request :=
  if c.command.idempotencyKey = [] ∨ 255 < jsLength c.command.idempotencyKey then
    .error ⟨"A valid idempotency key is required", 400, "IDEMPOTENCY_KEY_REQUIRED"⟩
  else
    match c.command.amountVnd with
    | none => .ok (c.request none)
    | some text =>
      match parseMoneyVnd text with
      | .error e => .error e
      | .ok amount => .ok (c.request (some amount))

end Call

def bidInfrastructureError (message : String := "Bidding authority is unavailable") :
    BidDomainError := ⟨message, 503, "BID_AUTHORITY_UNAVAILABLE"⟩

/-- `BidDurabilityUnconfirmedError.details`. -/
structure DurabilityDetails where
  eventId : Uuid
  productId : Nat
  sequence : Nat
  version : Nat
  deriving DecidableEq, Repr

inductive MutateResult
  | success (data : AuctionMutationData)
  | rejected (error : BidDomainError)
  | unconfirmed (error : BidDomainError) (details : DurabilityDetails)
  deriving DecidableEq, Repr

/-- What `mutate` makes of the script's reply. -/
def settle (c : Call) : Reply → MutateResult
  | .error code message statusCode =>
    if code = "AUCTION_STATE_NOT_READY" then .rejected ⟨message, statusCode, code⟩
    else if 500 ≤ statusCode then .rejected (bidInfrastructureError message)
    else .rejected ⟨message, statusCode, code⟩
  | .success data =>
    if 0 < c.replicas ∧ c.acknowledged < c.replicas then
      .unconfirmed
        ⟨"Bid mutation was accepted by Redis primary but replica acknowledgement was not confirmed",
          503, "BID_DURABILITY_UNCONFIRMED"⟩
        ⟨data.eventId, data.productId, data.sequence, data.version⟩
    else .success data

def mutate (c : Call) (k : AuctionKeys) : MutateResult × AuctionKeys :=
  match c.payload with
  | .error e => (.rejected e, k)
  | .ok req =>
    match c.connection with
    | .requestLost => (.rejected bidInfrastructureError, k)
    | .replyLost => (.rejected bidInfrastructureError, (mutateScript req k).2)
    | .answered => (settle c (mutateScript req k).1, (mutateScript req k).2)

/-! ## Runs -/

/-- A call, the expiry of a key, or a recovery worker setting or deleting a fence. -/
inductive Action
  | call (c : Call)
  | expireRecord (digest : Sha256)
  | expireLegacy
  | expireRate (actorId : Nat)
  | setRecoveryFence (present : Bool)
  | setAuctionFence (present : Bool)

/-- The effect of an action on the keys. -/
def Action.apply (k : AuctionKeys) : Action → AuctionKeys
  | .call c => (mutate c k).2
  | .expireRecord digest => { k with idempotency := Function.update k.idempotency digest none }
  | .expireLegacy => { k with legacyIdempotency := fun _ => none, legacyTtlMs := -2 }
  | .expireRate actorId => { k with rate := Function.update k.rate actorId 0 }
  | .setRecoveryFence present => { k with recoveryFence := present }
  | .setAuctionFence present => { k with auctionRecoveryFence := present }

/-- Runs of the authority on one auction. -/
abbrev AuthorityRun := Run (Does Action.apply)

end MiracleAuction
