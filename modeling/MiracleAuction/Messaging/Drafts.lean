import MiracleAuction.Messaging.Envelope
import MiracleAuction.Projection.Projector

/-!
# `notification.service.ts`: the mails of an event

The drafts that `resolveNotificationDrafts` makes of an event and of the rows that it
reads, or the error that it throws. The bodies of the mails are left out.
-/
namespace MiracleAuction.Messaging

/-! ## `auction-event-contract.ts` -/

def legacyAliases : List (String × EventType) :=
  [("bid.accepted", .bidAccepted), ("buy.now.completed", .buyNowCompleted),
    ("auction.buy_now_completed", .buyNowCompleted), ("bidder.banned", .bidderBanned),
    ("auction.closed", .auctionClosed), ("auction.cancelled", .auctionCancelled)]

/-- `normalizeAuctionEventType`, as the type whose canonical text it returns. -/
def normalizeAuctionEventType (value : String) : Option EventType :=
  ([.bidAccepted, .buyNowCompleted, .bidderBanned, .auctionClosed, .auctionCancelled].find?
    (canonicalAuctionEventType · = value)).orElse fun _ => legacyAliases.lookup value

/-- The event ends an auction. -/
def closesAuction (eventType : String) : Bool :=
  normalizeAuctionEventType eventType = some .auctionClosed ||
    normalizeAuctionEventType eventType = some .buyNowCompleted

/-! ## Rows -/

/-- A user, under his id. -/
structure NotificationUser where
  email : String
  username : String

structure NotificationProduct where
  productName : Option String
  currentPrice : Option Int
  sellerId : Int
  priceOwnerId : Option Int

/-- A question with its product, its author, and the author of the question above it. -/
structure NotificationQuestion where
  product : NotificationProduct
  userId : Int
  parentUserId : Option Int

/-- The rows that the queries find: `bidders` are the users with an unbanned bid on a
product, each once, and `applications` the applicants. -/
structure NotificationTables where
  products : Int → Option NotificationProduct := fun _ => none
  users : Int → Option NotificationUser := fun _ => none
  bidders : Int → List Int := fun _ => []
  questions : Int → Option NotificationQuestion := fun _ => none
  applications : Int → Option Int := fun _ => none

structure EmailDraft where
  recipientKey : String
  recipientEmail : String
  templateKey : String
  subject : String
  deriving DecidableEq, Repr

/-! ## Drafts -/

def orThrow {α : Type} (error : String) : Option α → Except String α
  | some value => .ok value
  | none => .error error

/-- A text that is not falsy. -/
def truthy (text : Option String) : Option String := text.filter (· ≠ "")

def emailDraft (userId : Int) (user : NotificationUser) (templateKey subject : String) :
    EmailDraft :=
  ⟨"user:" ++ toString userId, user.email, templateKey, subject⟩

/-- `payloadId`; the text of a `RangeError` names the number. -/
def payloadId (event : IncomingEvent) (field : String) : Except String Int :=
  match (event.payload.property field).getD .null with
  | .null => bigInt event.aggregateId
  | .string text => bigInt text
  | .number n =>
    if n.isInt then .ok n.num
    else .error "The number cannot be converted to a BigInt because it is not an integer"
  | _ => .error ("Missing " ++ field)

section
variable (tables : NotificationTables) (event : IncomingEvent)

def auctionDrafts : Except String (List EmailDraft) := do
  let productId ← bigInt event.aggregateId
  let unavailable := "Auction " ++ event.aggregateId ++ " is unavailable"
  let product ← orThrow unavailable (tables.products productId)
  let productName ← orThrow unavailable (truthy product.productName)
  let seller ← orThrow ("Seller for auction " ++ event.aggregateId ++ " is unavailable")
    (tables.users product.sellerId)
  match product.priceOwnerId with
  | none =>
    return [emailDraft product.sellerId seller "auction-seller-no-winner"
      ("Auction ended: " ++ productName)]
  | some winnerId =>
    let winner ← orThrow ("Winner for auction " ++ event.aggregateId ++ " is unavailable")
      (tables.users winnerId)
    let losers := ((tables.bidders productId).filter (· ≠ winnerId)).filterMap fun userId =>
      (tables.users userId).map fun loser =>
        emailDraft userId loser "auction-loser" ("Auction ended: " ++ productName)
    return emailDraft winnerId winner "auction-winner"
      ("Congratulations! You won: " ++ productName) ::
      emailDraft product.sellerId seller "auction-seller-with-winner"
        ("Sold! Auction ended: " ++ productName) :: losers

def questionDrafts (answered : Bool) : Except String (List EmailDraft) := do
  let questionId ← payloadId event "questionId"
  let unavailable := "Question " ++ toString questionId ++ " is unavailable"
  let question ← orThrow unavailable (tables.questions questionId)
  let _ ← orThrow unavailable (truthy question.product.productName)
  let sellerId := question.product.sellerId
  let seller ← orThrow ("Seller for question " ++ toString questionId ++ " is unavailable")
    (tables.users sellerId)
  if answered then
    match question.parentUserId.bind fun askerId => (tables.users askerId).map (askerId, ·) with
    | none => return []
    | some (askerId, asker) =>
      if askerId = sellerId then return []
      return [emailDraft askerId asker "product-question-answered"
        "Seller replied to your question"]
  else
    if sellerId = question.userId then return []
    return [emailDraft sellerId seller "product-question-created"
      "New question regarding your product"]

def descriptionDrafts : Except String (List EmailDraft) := do
  let productId ← bigInt event.aggregateId
  match tables.products productId with
  | some { productName, priceOwnerId := some bidderId, currentPrice := some _, .. } =>
    match truthy productName, tables.users bidderId with
    | some _, some bidder =>
      return [emailDraft bidderId bidder "product-description-changed"
        "Product description update alert"]
    | _, _ => return []
  | _ => return []

def sellerDecisionDrafts : Except String (List EmailDraft) := do
  let applicationId ← bigInt event.aggregateId
  let unavailable := "Seller application " ++ event.aggregateId ++ " is unavailable"
  let userId ← orThrow unavailable (tables.applications applicationId)
  let user ← orThrow unavailable (tables.users userId)
  let decision := if event.eventType = "seller.approved.v1" then "approved" else "rejected"
  return [emailDraft userId user ("seller-application-" ++ decision)
    ("Seller application " ++ decision)]

def resolveNotificationDrafts : Except String (List EmailDraft) :=
  if closesAuction event.eventType then auctionDrafts tables event
  else if event.eventType = "product.question_created.v1" then questionDrafts tables event false
  else if event.eventType = "product.question_answered.v1" then questionDrafts tables event true
  else if event.eventType = "product.description_changed.v1" then descriptionDrafts tables event
  else if event.eventType = "seller.approved.v1" ∨ event.eventType = "seller.rejected.v1" then
    sellerDecisionDrafts tables event
  else .ok []

end

end MiracleAuction.Messaging
