import MiracleAuction.Authority.Transition
import MiracleAuction.Postgres.Leader

/-!
# The two engines on the same bid

`BID_ENGINE` chooses between the script and the transaction. Both decide a bid on an auction that
each of them has in its own form.
-/
namespace MiracleAuction
namespace Postgres
open Decimal

/-! ## One bid, two engines -/

/-- What a bid leaves of the auction. -/
structure BidOutcome where
  price : Nat
  leader : Option Nat
  sold : Bool
  endTime : Int
  deriving DecidableEq

def State.outcome (s : State) : BidOutcome where
  price := s.product.currentPrice.getD 0
  leader := s.product.priceOwnerId
  sold := s.order.isSome
  endTime := (s.product.endTime.map Subtype.val).getD 0

def redisOutcomeOf (a : Auction) : BidOutcome where
  price := a.hash.currentPriceVnd
  leader := a.hash.leaderId
  sold := a.hash.status = .sold
  endTime := a.hash.endAt

/-- What the redis branch of `PlaceBidUseCase.execute` reads besides its input. -/
structure RedisContext where
  role : Role
  correlationId : Text
  eventId : Uuid
  newOrderId : Uuid
  rateLimit : Nat

/-- The command of the redis branch, which is answered. -/
def PlaceBidInput.call (input : PlaceBidInput) (productId : Nat) (context : RedisContext) :
    Call where
  command :=
    { operation := .bid
      productId := productId
      actorId := input.userId
      actorRole := context.role
      idempotencyKey := input.idempotencyKey
      correlationId := context.correlationId
      amountVnd := some input.maxPriceVnd }
  eventId := context.eventId
  newOrderId := context.newOrderId
  clock := input.now
  rateLimit := context.rateLimit

/-- The outcome of an accepted bid: PostgreSQL commits it. -/
def postgresOutcome (s : State) (input : PlaceBidInput) : Option BidOutcome :=
  (placeBid s input).toOption.map State.outcome

/-- The script appends the event of an accepted bid. -/
def redisOutcome (k : AuctionKeys) (c : Call) : Option BidOutcome :=
  if (mutate c k).2.stream = k.stream then none else (mutate c k).2.auction.map redisOutcomeOf

/-- The greatest maximum of a user's rows that count. -/
def maximum (history : List Bid) (userId : Nat) : Option Nat :=
  (((standing history).filter (·.userId = userId)).map (·.maxPrice)).max?

/-- The same auction in both forms, with the same bids, bans and settings. -/
structure Corresponds (s : State) (a : Auction) : Prop where
  product : a.hash.productId = s.productId
  seller : a.hash.sellerId = s.product.sellerId
  status : a.hash.status = s.product.auctionStatus
  removed : s.product.isRemoved = some true → s.product.auctionStatus = .cancelled
  startTime : ∃ start, s.product.startTime = some start ∧ a.hash.startAt = start.val
  endTime : ∃ time, s.product.endTime = some time ∧ a.hash.endAt = time.val
  price : s.product.currentPrice = some a.hash.currentPriceVnd
  step : s.product.stepPrice = some a.hash.stepPriceVnd
  buyNow : a.hash.buyNowPriceVnd = s.product.buyNowPrice
  sequence : a.hash.sequence = s.product.auctionSequence
  version : a.hash.version = s.product.auctionVersion
  leader : ∀ choice, s.leader choice =
    a.hash.leaderId.map fun id => ⟨id, a.hash.leaderMaxPriceVnd.getD 0⟩
  maxima : ∀ u, a.sets.maxima u = maximum s.history u
  bans : ∀ u, u ∈ a.sets.bans ↔ s.banned u = true
  unsold : s.product.auctionStatus = .pending ∨ s.product.auctionStatus = .active →
    s.order = none
  autoExtend : a.hash.autoExtend = s.product.autoExtended.getD false
  window : Lua.tonumber a.hash.antiSnipeWindowMs =
    ((s.settings.bind (·.thresholdTime)).getD 0 : Nat) * 60000
  extension : Lua.tonumber a.hash.antiSnipeExtensionMs =
    ((s.settings.bind (·.extendTime)).getD 0 : Nat) * 60000

/-- Both engines are ready for a new request: no fence, and no response is stored under its key. -/
structure Ready (s : State) (k : AuctionKeys) (a : Auction) (input : PlaceBidInput) : Prop where
  loaded : k.auction = some a
  unfenced : Script.fenceCheck k = none
  named : Numeral.plain a.hash.productId = Lua.tostring (Lua.number s.productId)
  key : input.idempotencyKey ≠ [] ∧ jsLength input.idempotencyKey ≤ 255
  freshRedis : k.idempotency ⟨input.idempotencyKey⟩ = none ∧
    k.legacyIdempotency input.idempotencyKey = none
  freshPostgres : ∀ row ∈ s.idempotency, ¬ (row.operation = "place_bid" ∧
    row.userId = input.userId ∧ row.idempotencyKey = input.idempotencyKey)

/-! ## When they agree -/

/-- The counters of the product have room for one more event. -/
def Counts (s : State) : Prop :=
  fitsBigint (s.product.auctionVersion + 1) ∧ fitsBigint (s.product.auctionSequence + 1)

section
variable (s : State) (a : Auction) (input : PlaceBidInput) (amount : Nat)

/-- The auction as the transaction sees it. -/
def PlaceBidInput.auction : AuctionState := mapAuctionRow s.productId s.product input.now.val

/-- The checks that both engines make. -/
def Admitted : Prop :=
  let auction := input.auction s
  assertAuctionAvailable auction input.now.val = .ok () ∧ auction.sellerId ≠ input.userId ∧
    s.banned input.userId = false ∧ auction.currentPrice + auction.stepPrice ≤ amount ∧
      Counts s

/-- The checks of the script alone: the bidder's own maximum, and the rate. -/
def RedisRefuses (k : AuctionKeys) (context : RedisContext) : Prop :=
  (∃ previous ∈ maximum s.history input.userId, amount ≤ previous) ∨
    context.rateLimit ≤ k.rate input.userId

/-- A bid that does not buy fails if it does not raise the leader's own maximum, or moves the end
out of the range of dates. -/
def ProxyFails : Prop :=
  (∃ leader ∈ s.leader input.choice, leader.userId = input.userId ∧
    amount ≤ leader.maxPrice) ∨
    ∃ time ∈ s.extendedEndTime (input.auction s) input.now.val, 8640000000000000 < time.natAbs

/-- The checks of the transaction alone: the bidder's row and rating, and the step rule. -/
def PostgresRefuses : Prop :=
  (∀ user ∈ s.users input.userId, user.ratingCount.getD 0 ≠ 0 ∧ user.rating.getD 0 < 4) ∨
    ¬ followsStep (input.auction s) amount ∨
    ¬ PlaceBid.reachesBuyNow (input.auction s) amount ∧ ProxyFails s input amount

/-- The end of the auction after a bid that does not buy. -/
def newEnd : Int :=
  (s.extendedEndTime (input.auction s) input.now.val).getD (input.auction s).endTime

/-- The bid does not buy, both engines extend the auction or neither does, and Lua prints the end
in full. -/
def SameTerms : Prop :=
  ¬ PlaceBid.reachesBuyNow (input.auction s) amount ∧
    ((s.extendedEndTime (input.auction s) input.now.val).isSome ↔ a.hash.snipes input.now.val) ∧
    Lua.tonumber (Lua.tostring (newEnd s input)) = newEnd s input

/-- Both engines refuse the bid, or both accept it on the same terms. -/
def EnginesAgree (k : AuctionKeys) (context : RedisContext) : Prop :=
  Admitted s input amount →
    RedisRefuses s input amount k context ∧ PostgresRefuses s input amount ∨
    ¬ RedisRefuses s input amount k context ∧ ¬ PostgresRefuses s input amount ∧
      SameTerms s a input amount

end

/-! ## The transaction -/

section
variable {s s' : State} {a : Auction} {k : AuctionKeys} {input : PlaceBidInput} {amount : Nat}
  {context : RedisContext}

theorem updateAuction_checks {currentPrice priceOwnerId : Nat} {endTime : Option Int}
    (h : s.updateAuction currentPrice priceOwnerId endTime = .ok s') :
    Counts s ∧ ∀ time ∈ endTime, time.natAbs ≤ 8640000000000000 := by
  unfold State.updateAuction at h
  split at h
  · cases h
  rename_i hcounts
  refine ⟨not_not.mp hcounts, fun time htime => ?_⟩
  cases htime
  dsimp only at h
  split at h
  · assumption
  · cases h

/-- An update that passes its checks is written. -/
theorem updateAuction_commits (endTime : Option Int) (currentPrice priceOwnerId : Nat)
    (hcounts : Counts s) (hdate : ∀ time ∈ endTime, time.natAbs ≤ 8640000000000000) :
    ∃ product, s.updateAuction currentPrice priceOwnerId endTime =
      .ok { s with product := product } ∧
      product.currentPrice = some currentPrice ∧ product.priceOwnerId = some priceOwnerId ∧
      (product.endTime.map Subtype.val).getD 0 =
        endTime.getD ((s.product.endTime.map Subtype.val).getD 0) := by
  obtain ⟨hversion, hsequence⟩ := hcounts
  unfold State.updateAuction
  rw [if_neg (not_not.mpr ⟨hversion, hsequence⟩)]
  cases endTime with
  | none => exact ⟨_, rfl, rfl, rfl, rfl⟩
  | some time =>
    dsimp only
    rw [dif_pos (hdate time rfl)]
    exact ⟨_, rfl, rfl, rfl, rfl⟩

/-- What a bid that does not buy has passed. -/
theorem proxy_checks (h : PlaceBid.proxy s input (input.auction s) amount = .ok s') :
    Counts s ∧ ¬ ProxyFails s input amount := by
  unfold PlaceBid.proxy at h
  obtain ⟨recorded, hrecorded, h⟩ := Except.bind_eq_ok h
  obtain ⟨hcounts, hdate⟩ := updateAuction_checks h
  have hproduct : recorded.product = s.product ∧ ∀ leader ∈ s.leader input.choice,
      leader.userId = input.userId → leader.maxPrice < amount := by
    unfold PlaceBid.recordBid at hrecorded
    split at hrecorded
    · rename_i leader hleader
      split at hrecorded
      · split at hrecorded
        · cases hrecorded
        · rename_i hraise
          cases hrecorded
          refine ⟨rfl, fun other hother _ => ?_⟩
          cases hleader.symm.trans hother
          exact Nat.lt_of_not_le hraise
      · rename_i huser
        refine ⟨?_, fun other hother hsame => ?_⟩
        · split at hrecorded
          · cases hrecorded
            rfl
          · cases hrecorded
            rfl
        · cases hleader.symm.trans hother
          exact absurd hsame huser
    · rename_i hleader
      cases hrecorded
      refine ⟨rfl, fun other hother => ?_⟩
      cases hleader.symm.trans hother
  unfold Counts at hcounts ⊢
  rw [hproduct.1] at hcounts
  refine ⟨hcounts, ?_⟩
  rintro (⟨leader, hleader, huser, hle⟩ | ⟨time, htime, hlt⟩)
  · exact absurd (hproduct.2 leader hleader huser) (Nat.not_lt.mpr hle)
  · exact absurd (hdate time htime) (Nat.not_le.mpr hlt)

theorem complete_checks (h : PlaceBid.complete s input (input.auction s) = .ok s') : Counts s := by
  unfold PlaceBid.complete at h
  split at h
  · cases h
  obtain ⟨updated, hupdate, -⟩ := Except.bind_eq_ok h
  exact (updateAuction_checks hupdate).1

/-- What a committed bid has passed. -/
theorem decide_sound (h : PlaceBid.decide s input (input.auction s) amount = .ok s') :
    Admitted s input amount ∧ ¬ PostgresRefuses s input amount := by
  unfold PlaceBid.decide at h
  obtain ⟨⟨⟩, havailable, h⟩ := Except.bind_eq_ok h
  obtain ⟨eligibility, heligible, h⟩ := Except.bind_eq_ok h
  obtain ⟨⟨⟩, hparticipates, h⟩ := Except.bind_eq_ok h
  obtain ⟨⟨⟩, hamount, h⟩ := Except.bind_eq_ok h
  obtain ⟨user, huser, heligibility⟩ := eligibility_ok heligible
  obtain ⟨hseller, hbanned, hrating⟩ := assertBidderCanParticipate_ok hparticipates
  rw [heligibility] at hbanned hrating
  obtain ⟨hminimum, hstep⟩ :
      (input.auction s).currentPrice + (input.auction s).stepPrice ≤ amount ∧
        followsStep (input.auction s) amount := by
    unfold assertBidAmount at hamount
    split at hamount
    · cases hamount
    · rename_i hnot
      simpa [not_or] using hnot
  have hrest : Counts s ∧ ¬ (¬ PlaceBid.reachesBuyNow (input.auction s) amount ∧
      ProxyFails s input amount) := by
    split at h
    · rename_i hreaches
      exact ⟨complete_checks h, fun hfails => hfails.1 hreaches⟩
    · obtain ⟨hcounts, hproxy⟩ := proxy_checks h
      exact ⟨hcounts, fun hfails => hproxy hfails.2⟩
  refine ⟨⟨havailable, hseller, hbanned, hminimum, hrest.1⟩, ?_⟩
  rintro (hnone | hstep' | hfails)
  · exact hrating (hnone user huser)
  · exact hstep' hstep
  · exact hrest.2 hfails

/-- A bid that does not buy and that nothing refuses. -/
theorem proxy_commits (hcounts : Counts s) (hfails : ¬ ProxyFails s input amount) :
    ∃ s', PlaceBid.proxy s input (input.auction s) amount = .ok s' ∧
      s'.outcome =
        { price := (calculateProxyBid (input.auction s) ⟨input.userId, amount⟩
            (s.leader input.choice)).currentPrice
          leader := some (calculateProxyBid (input.auction s) ⟨input.userId, amount⟩
            (s.leader input.choice)).priceOwnerId
          sold := s.order.isSome
          endTime := newEnd s input } := by
  unfold ProxyFails at hfails
  obtain ⟨hraises, hdate⟩ := not_or.mp hfails
  unfold PlaceBid.proxy
  dsimp only
  generalize calculateProxyBid (input.auction s) ⟨input.userId, amount⟩ (s.leader input.choice) =
    result
  obtain ⟨recorded, hrecorded, hproduct, horder⟩ : ∃ recorded,
      PlaceBid.recordBid s input amount result (s.leader input.choice) = .ok recorded ∧
        recorded.product = s.product ∧ recorded.order = s.order := by
    unfold PlaceBid.recordBid
    split
    · rename_i leader hleader
      split
      · rename_i huser
        rw [if_neg fun hle => hraises ⟨leader, hleader, huser, hle⟩]
        exact ⟨_, rfl, rfl, rfl⟩
      · dsimp only
        split
        · exact ⟨_, rfl, rfl, rfl⟩
        · exact ⟨_, rfl, rfl, rfl⟩
    · exact ⟨_, rfl, rfl, rfl⟩
  obtain ⟨product, hupdate, hprice, howner, hend⟩ := updateAuction_commits
    (s.extendedEndTime (input.auction s) input.now.val) result.currentPrice result.priceOwnerId
    (show Counts recorded by rwa [Counts, hproduct]) fun time htime =>
      Nat.le_of_not_lt fun hlt => hdate ⟨time, htime, hlt⟩
  refine ⟨_, (Except.bind_of_ok hrecorded _).trans hupdate, ?_⟩
  simp only [State.outcome, hprice, howner, hend, horder, hproduct]
  rfl

/-- A bid that buys. -/
theorem complete_commits {price : Nat} (hcounts : Counts s) (horder : s.order = none)
    (hprice : s.product.buyNowPrice = some price) :
    ∃ s', PlaceBid.complete s input (input.auction s) = .ok s' ∧ s'.outcome.sold = true := by
  have hprice' : (input.auction s).buyNowPrice = some price := hprice
  obtain ⟨product, hupdate, -⟩ := updateAuction_commits (some input.now.val) price input.userId
    hcounts fun time htime => by cases htime; exact input.now.property
  unfold PlaceBid.complete
  simp only [hprice', Except.bind_of_ok hupdate, State.createOrder, State.record, horder]
  exact ⟨_, rfl, rfl⟩

/-- What is admitted and not refused commits. -/
theorem decide_complete (hadmitted : Admitted s input amount)
    (hrefuses : ¬ PostgresRefuses s input amount) :
    PlaceBid.decide s input (input.auction s) amount =
      if PlaceBid.reachesBuyNow (input.auction s) amount then
        PlaceBid.complete s input (input.auction s)
      else PlaceBid.proxy s input (input.auction s) amount := by
  obtain ⟨havailable, hseller, hbanned, hminimum, -⟩ := hadmitted
  unfold PostgresRefuses at hrefuses
  simp only [not_or, not_not] at hrefuses
  obtain ⟨hrating, hstep, -⟩ := hrefuses
  simp only [not_forall] at hrating
  obtain ⟨user, huser, hrating⟩ := hrating
  have heligible : s.eligibility input.userId =
      .ok ⟨user.rating.getD 0, user.ratingCount.getD 0, s.banned input.userId⟩ := by
    unfold State.eligibility
    rw [show s.users input.userId = some user from huser]
  have hparticipates : assertBidderCanParticipate (input.auction s) input.userId
      ⟨user.rating.getD 0, user.ratingCount.getD 0, s.banned input.userId⟩ = .ok () := by
    unfold assertBidderCanParticipate
    rw [if_neg hseller, if_neg (by simp [hbanned]), if_neg hrating]
  have hamount : assertBidAmount (input.auction s) amount = .ok () := by
    unfold assertBidAmount
    rw [if_neg (by simp [hstep, hminimum])]
  unfold PlaceBid.decide
  rw [Except.bind_of_ok havailable, Except.bind_of_ok heligible, Except.bind_of_ok hparticipates,
    Except.bind_of_ok hamount]

/-- The field only names the error. -/
theorem parseMoneyVnd_field {text : Text} {field : String} {parsed : MoneyVnd} (field' : String)
    (h : parseMoneyVnd text field = .ok parsed) : parseMoneyVnd text field' = .ok parsed := by
  unfold parseMoneyVnd at h ⊢
  split at h
  · rename_i hpattern
    dsimp only at h ⊢
    split at h
    · rename_i hrange
      rw [if_pos hpattern, dif_pos hrange]
      exact h
    · cases h
  · cases h

theorem length_le_jsLength (text : Text) : text.length ≤ jsLength text := by
  unfold jsLength
  induction text with
  | nil => simp
  | cons c text ih =>
    simp only [List.map_cons, List.sum_cons, List.length_cons]
    split <;> omega

/-- A new request commits what `decide` commits. -/
theorem postgresOutcome_eq {parsed : MoneyVnd} (hready : Ready s k a input)
    (hparsed : parseMoneyVnd input.maxPriceVnd = .ok parsed) :
    postgresOutcome s input =
      (PlaceBid.decide s input (input.auction s) parsed.val).toOption.map State.outcome := by
  have hamount : (parseMoneyVnd input.maxPriceVnd "max_price").mapError Failure.domain =
      .ok parsed := by
    rw [parseMoneyVnd_field "max_price" hparsed]
    rfl
  have hfresh : s.findIdempotentResponse "place_bid" input.userId input.idempotencyKey
      (PlaceBid.fingerprint s input) = .ok false := by
    unfold State.findIdempotentResponse
    rw [List.find?_eq_none.mpr fun row hrow => ?_]
    have hnot := hready.freshPostgres row hrow
    simpa using fun _ hoperation huser hkey => hnot ⟨hoperation, huser, hkey⟩
  unfold postgresOutcome placeBid
  rw [Except.bind_of_ok hamount, Except.bind_of_ok hfresh]
  change ((PlaceBid.decide s input (input.auction s) parsed.val >>= fun next =>
    next.saveIdempotentResponse "place_bid" input.userId input.idempotencyKey _).toOption).map _ = _
  cases hdecide : PlaceBid.decide s input (input.auction s) parsed.val with
  | error e => rfl
  | ok next =>
    have hlength : ¬ 255 < input.idempotencyKey.length :=
      Nat.not_lt.mpr ((length_le_jsLength _).trans hready.key.2)
    rw [Except.bind_of_ok rfl, State.saveIdempotentResponse, if_neg hready.key.1, if_neg hlength]
    rfl

theorem postgresOutcome_malformed {failure : BidDomainError}
    (hparsed : parseMoneyVnd input.maxPriceVnd = .error failure) :
    postgresOutcome s input = none := by
  unfold postgresOutcome placeBid
  cases hfield : parseMoneyVnd input.maxPriceVnd "max_price" with
  | error => rfl
  | ok parsed => cases hparsed.symm.trans (parseMoneyVnd_field _ hfield)

theorem postgresOutcome_refuses {parsed : MoneyVnd} (hready : Ready s k a input)
    (hparsed : parseMoneyVnd input.maxPriceVnd = .ok parsed)
    (h : Admitted s input parsed.val → PostgresRefuses s input parsed.val) :
    postgresOutcome s input = none := by
  rw [postgresOutcome_eq hready hparsed]
  cases hdecide : PlaceBid.decide s input (input.auction s) parsed.val with
  | error => rfl
  | ok s' =>
    obtain ⟨hadmitted, hrefuses⟩ := decide_sound hdecide
    exact absurd (h hadmitted) hrefuses

/-! ## The script -/

/-- The payload of the redis branch. -/
def PlaceBidInput.request (input : PlaceBidInput) (productId : Nat) (context : RedisContext)
    (parsed : MoneyVnd) : Request :=
  (input.call productId context).request (some parsed)

theorem call_payload {parsed : MoneyVnd} (hready : Ready s k a input)
    (hparsed : parseMoneyVnd input.maxPriceVnd = .ok parsed) :
    (input.call s.productId context).payload = .ok (input.request s.productId context parsed) := by
  unfold Call.payload PlaceBidInput.request
  rw [if_neg]
  · dsimp only [PlaceBidInput.call]
    rw [hparsed]
  · rw [not_or]
    exact ⟨hready.key.1, Nat.not_lt.mpr hready.key.2⟩

/-- The script appends an event exactly for the requests that it accepts. -/
theorem redisOutcome_accepts {parsed : MoneyVnd} {d : Decision} (hready : Ready s k a input)
    (hparsed : parseMoneyVnd input.maxPriceVnd = .ok parsed)
    (h : Accepts k (input.request s.productId context parsed) a d) :
    redisOutcome k (input.call s.productId context) = some (redisOutcomeOf
      (Script.write a (input.request s.productId context parsed) d)) := by
  have hmutate := h.mutate_eq (call_payload hready hparsed) (by simp [PlaceBidInput.call])
  unfold redisOutcome
  rw [hmutate, if_neg (by simp [Script.accept_stream]), Script.accept_auction]
  rfl

theorem redisOutcome_refuses {parsed : MoneyVnd} (hready : Ready s k a input)
    (hparsed : parseMoneyVnd input.maxPriceVnd = .ok parsed)
    (h : ∀ d, ¬ Accepts k (input.request s.productId context parsed) a d) :
    redisOutcome k (input.call s.productId context) = none := by
  have hfresh : Script.replay (input.request s.productId context parsed) k = none := by
    unfold Script.replay Script.digest
    rw [Option.or_eq_none_iff]
    exact hready.freshRedis
  have hstream : (mutate (input.call s.productId context) k).2.stream = k.stream := by
    rcases call_cases (input.call s.productId context) k with
      hsame | ⟨req, reply, hpayload, hcases⟩
    · rw [hsame]
    · cases (call_payload hready hparsed).symm.trans hpayload
      generalize (mutate (input.call s.productId context) k).2 = k' at hcases
      cases hcases with
      | fails => rfl
      | replays hreplay => rw [hreplay] at hfresh; cases hfresh
      | rejects => rfl
      | accepts haccepts =>
        cases hready.loaded.symm.trans haccepts.loaded
        exact absurd haccepts (h _)
  unfold redisOutcome
  rw [if_pos hstream]

/-- Neither engine accepts an amount that is not money. -/
theorem redisOutcome_malformed {failure : BidDomainError} (hready : Ready s k a input)
    (hparsed : parseMoneyVnd input.maxPriceVnd = .error failure) :
    redisOutcome k (input.call s.productId context) = none := by
  have hpayload : (input.call s.productId context).payload = .error failure := by
    unfold Call.payload
    rw [if_neg]
    · dsimp only [PlaceBidInput.call]
      rw [hparsed]
    · rw [not_or]
      exact ⟨hready.key.1, Nat.not_lt.mpr hready.key.2⟩
  unfold redisOutcome mutate
  rw [hpayload]
  exact if_pos rfl

theorem effectiveStatus_twice (status : AuctionStatus) (startTime endTime now : Int) :
    effectiveStatus (effectiveStatus status startTime endTime now) startTime endTime now =
      effectiveStatus status startTime endTime now := by
  unfold effectiveStatus
  split
  · simp
  · rfl

/-- Both engines find the auction open at the same times. -/
theorem available_iff (hc : Corresponds s a) :
    assertAuctionAvailable (input.auction s) input.now.val = .ok () ↔
      a.hash.effectiveStatus input.now.val = .active ∧ a.hash.startAt ≤ input.now.val ∧
        input.now.val < a.hash.endAt := by
  obtain ⟨start, hstart, hstartAt⟩ := hc.startTime
  obtain ⟨time, htime, hendAt⟩ := hc.endTime
  have hstatus : effectiveStatus (input.auction s).status (input.auction s).startTime
      (input.auction s).endTime input.now.val = a.hash.effectiveStatus input.now.val := by
    unfold PlaceBidInput.auction mapAuctionRow
    dsimp only
    rw [effectiveStatus_twice, hstart, htime]
    unfold effectiveStatus StateHash.effectiveStatus
    rw [hc.status, hstartAt, hendAt]
    rfl
  have hstartTime : (input.auction s).startTime = a.hash.startAt := by
    simp [PlaceBidInput.auction, mapAuctionRow, hstart, hstartAt]
  have hendTime : (input.auction s).endTime = a.hash.endAt := by
    simp [PlaceBidInput.auction, mapAuctionRow, htime, hendAt]
  have hremoved : a.hash.effectiveStatus input.now.val = .active →
      (input.auction s).isRemoved = false := by
    intro hactive
    by_contra hremoved
    have hcancelled : a.hash.status = .cancelled := by
      rw [hc.status]
      refine hc.removed ?_
      cases hflag : s.product.isRemoved with
      | none => simp [PlaceBidInput.auction, mapAuctionRow, hflag] at hremoved
      | some removed => simpa [PlaceBidInput.auction, mapAuctionRow, hflag] using hremoved
    simp [StateHash.effectiveStatus, hcancelled] at hactive
  unfold assertAuctionAvailable
  rw [hstatus, hstartTime, hendTime]
  constructor
  · intro h
    split at h
    · cases h
    · rename_i hnot
      simp only [not_or, not_not, not_lt, not_le] at hnot
      exact ⟨hnot.1, hnot.2.2.1, hnot.2.2.2⟩
  · rintro ⟨hactive, hstarted, hopen⟩
    rw [if_neg]
    simp only [not_or, not_not, not_lt, not_le]
    exact ⟨hactive, by simp [hremoved hactive], hstarted, hopen⟩

/-- The script accepts what both engines admit and it does not refuse itself. -/
theorem accepts_iff {parsed : MoneyVnd} (hc : Corresponds s a) (hready : Ready s k a input) :
    (∃ d, Accepts k (input.request s.productId context parsed) a d) ↔
      Admitted s input parsed.val ∧ ¬ RedisRefuses s input parsed.val k context := by
  have hactor : (input.request s.productId context parsed).actor = input.userId.val :=
    Request.actor_eq _
  have hnow : (input.request s.productId context parsed).now = input.now.val := Request.now_eq _
  have hbidding : (input.request s.productId context parsed).operation = .bid := rfl
  have hamount : (input.request s.productId context parsed).amount = parsed.val := rfl
  have hlimit : (input.request s.productId context parsed).rateLimit = context.rateLimit := rfl
  have hprice : (input.auction s).currentPrice = a.hash.currentPriceVnd := by
    simp [PlaceBidInput.auction, mapAuctionRow, hc.price]
  have hstep : (input.auction s).stepPrice = a.hash.stepPriceVnd := by
    simp [PlaceBidInput.auction, mapAuctionRow, hc.step]
  have hintact : Script.integrityCheck (input.request s.productId context parsed) a.hash = none ↔
      Counts s := by
    rw [integrityCheck_eq_none]
    unfold StateHash.Intact Counts fitsBigint
    rw [hc.sequence, hc.version]
    change _ < maxVnd ∧ _ < maxVnd ∧ _ = Lua.tostring (Lua.number s.productId) ↔ _
    have := hready.named
    constructor
    · rintro ⟨hsequence, hversion, -⟩
      exact ⟨hversion, hsequence⟩
    · rintro ⟨hversion, hsequence⟩
      exact ⟨hsequence, hversion, hready.named⟩
  constructor
  · rintro ⟨d, haccepts⟩
    have hcounts := hintact.mp haccepts.intact
    have hthrottle := haccepts.throttle
    rw [hbidding, hlimit, hactor] at hthrottle
    have hdecided := Script.operate_ok haccepts.decided
    cases hdecided with
    | bid _ hbidder _ henough hincreased =>
      rw [hactor, hamount] at hincreased
      refine ⟨⟨(available_iff hc).mpr ⟨hnow ▸ hbidder.active, hnow ▸ hbidder.started,
        hnow ▸ hbidder.open_⟩, fun heq => ?_, ?_, ?_, hcounts⟩, ?_⟩
      · have hseller : s.product.sellerId = input.userId.val := heq
        exact hbidder.notSeller (by rw [hactor, hc.seller, hseller])
      · have hbanned := hbidder.notBanned
        rw [hactor, hc.bans] at hbanned
        simpa using hbanned
      · rw [hprice, hstep]
        exact henough
      · rintro (⟨previous, hprevious, hle⟩ | hrate)
        · exact absurd (hincreased previous ((hc.maxima _).trans hprevious)) (Nat.not_lt.mpr hle)
        · exact hthrottle ⟨rfl, hrate⟩
    | buyNow hop => cases hbidding.symm.trans hop
    | ban hop => cases hbidding.symm.trans hop
    | close hop => cases hbidding.symm.trans hop
    | cancel hop => cases hbidding.symm.trans hop
  · rintro ⟨⟨havailable, hseller, hbanned, hminimum, hcounts⟩, hrefuses⟩
    obtain ⟨hactive, hstarted, hopen⟩ := (available_iff hc).mp havailable
    have hbidder : Bidder a (input.request s.productId context parsed) := by
      refine ⟨hnow ▸ hactive, hnow ▸ hstarted, hnow ▸ hopen, fun heq => ?_,
        fun hmem => ?_⟩
      · rw [hactor, hc.seller] at heq
        exact hseller heq.symm
      · rw [hactor, hc.bans, hbanned] at hmem
        cases hmem
    have hincreased : ∀ previous, a.sets.maxima
        (input.request s.productId context parsed).actor = some previous →
          previous < (input.request s.productId context parsed).amount := by
      intro previous hprevious
      rw [hactor, hc.maxima] at hprevious
      exact Nat.lt_of_not_le fun hle => hrefuses (.inl ⟨previous, hprevious, hle⟩)
    rw [hprice, hstep] at hminimum
    obtain ⟨d, hd⟩ := Script.operate_bid hbidding hbidder hminimum hincreased
    have hfresh : Script.replay (input.request s.productId context parsed) k = none := by
      unfold Script.replay Script.digest
      rw [Option.or_eq_none_iff]
      exact hready.freshRedis
    refine ⟨d, ⟨hintact.mpr hcounts, hd⟩, hready.loaded, hready.unfenced, hfresh, ?_⟩
    rintro ⟨-, hrate⟩
    rw [hlimit, hactor] at hrate
    exact hrefuses (.inr hrate)

/-- The same price and leader. -/
theorem proxyBid_eq (input : PlaceBidInput) (bidder amount choice : Nat) (hc : Corresponds s a) :
    let result := calculateProxyBid (input.auction s) ⟨bidder, amount⟩ (s.leader choice)
    (Script.proxyBid a.hash bidder amount).1 = some result.priceOwnerId ∧
      (Script.proxyBid a.hash bidder amount).2.2 = result.currentPrice := by
  have hprice : (input.auction s).currentPrice = a.hash.currentPriceVnd := by
    simp [PlaceBidInput.auction, mapAuctionRow, hc.price]
  have hstep : (input.auction s).stepPrice = a.hash.stepPriceVnd := by
    simp [PlaceBidInput.auction, mapAuctionRow, hc.step]
  dsimp only
  rw [hc.leader choice]
  unfold Script.proxyBid calculateProxyBid
  simp only [Money.compare_nonpos, Money.add_eq, Money.minimum_eq, hprice, hstep]
  cases a.hash.leaderId with
  | none => exact ⟨rfl, rfl⟩
  | some leader =>
    simp only [Option.map_some]
    by_cases hsame : leader = bidder
    · rw [if_pos hsame, if_pos hsame, hsame]
      exact ⟨rfl, rfl⟩
    · rw [if_neg hsame, if_neg hsame]
      split
      · exact ⟨rfl, rfl⟩
      · exact ⟨rfl, rfl⟩

/-- The end that the script stores is that of the transaction exactly on the same terms. -/
theorem ends_agree_iff (input : PlaceBidInput) (hc : Corresponds s a)
    (hdate : ∀ time ∈ s.extendedEndTime (input.auction s) input.now.val,
      time.natAbs ≤ 8640000000000000) :
    Lua.tonumber (Lua.tostring (a.hash.bidEnd input.now.val)) = newEnd s input ↔
      ((s.extendedEndTime (input.auction s) input.now.val).isSome ↔
        a.hash.snipes input.now.val) ∧
        Lua.tonumber (Lua.tostring (newEnd s input)) = newEnd s input := by
  obtain ⟨time, htime, hendAt⟩ := hc.endTime
  have hend : (input.auction s).endTime = time.val := by
    simp [PlaceBidInput.auction, mapAuctionRow, htime]
  have hbound : time.val.natAbs ≤ 8640000000000000 := time.property
  have hnear := Lua.tonumber_tostring_near (x := time.val) (by omega)
  unfold newEnd StateHash.bidEnd
  rw [hc.extension, hendAt]
  cases hextended : s.extendedEndTime (input.auction s) input.now.val with
  | none =>
    rw [Option.getD_none, hend]
    by_cases hsnipes : a.hash.snipes input.now.val
    · -- The script alone extends the auction.
      have hpositive := hsnipes.2.2.1
      rw [hc.extension] at hpositive
      have hlate := Lua.tonumber_tostring_mono (Lua.number_mono (x := time.val + 60000)
        (y := time.val + ((s.settings.bind (·.extendTime)).getD 0 : Nat) * 60000) (by omega))
      rw [Lua.number_of_lt (by omega : (time.val + 60000).natAbs < 2 ^ 53)] at hlate
      have hnear' := Lua.tonumber_tostring_near (x := time.val + 60000) (by omega)
      rw [if_pos hsnipes]
      simp only [Option.isSome_none, Bool.false_eq_true, hsnipes, iff_true, false_and, iff_false]
      omega
    · rw [if_neg hsnipes]
      simp [hsnipes]
  | some extended =>
    have hvalid := hdate extended hextended
    obtain ⟨hpositive, heq⟩ : 0 < (s.settings.bind (·.extendTime)).getD 0 ∧
        extended = time.val + ((s.settings.bind (·.extendTime)).getD 0 : Nat) * 60000 := by
      unfold State.extendedEndTime at hextended
      dsimp only at hextended
      split at hextended
      · cases hextended
      · rename_i hnot
        rw [hend] at hextended
        cases hextended
        exact ⟨by omega, rfl⟩
    rw [Option.getD_some]
    by_cases hsnipes : a.hash.snipes input.now.val
    · rw [if_pos hsnipes, ← heq, Lua.number_of_lt (by omega)]
      simp [hsnipes]
    · -- The transaction alone extends the auction.
      rw [if_neg hsnipes]
      simp only [Option.isSome_some, hsnipes, iff_false, not_true_eq_false, false_and]
      omega

/-- What the script stores for an accepted bid. -/
theorem redisOutcomeOf_write {parsed : MoneyVnd} {d : Decision}
    (hd : Script.operate a (input.request s.productId context parsed) = .ok d) :
    redisOutcomeOf (Script.write a (input.request s.productId context parsed) d) =
      { price := (Script.proxyBid a.hash input.userId parsed.val).2.2
        leader := (Script.proxyBid a.hash input.userId parsed.val).1
        sold := false
        endTime := Lua.tonumber (Lua.tostring (a.hash.bidEnd input.now.val)) } := by
  have hactor : (input.request s.productId context parsed).actor = input.userId.val :=
    Request.actor_eq _
  have hnow : (input.request s.productId context parsed).now = input.now.val := Request.now_eq _
  have hbidding : (input.request s.productId context parsed).operation = .bid := rfl
  have hamount : (input.request s.productId context parsed).amount = parsed.val := rfl
  cases Script.operate_ok hd with
  | bid hop hbidder =>
    have hactive := hbidder.active
    rw [hnow] at hactive
    unfold Script.write redisOutcomeOf StateHash.endAt
    rw [Script.update_bid hop]
    simp only [Script.unchanged, hactive, hactor, hnow, hamount]
    rfl
  | buyNow hop => cases hbidding.symm.trans hop
  | ban hop => cases hbidding.symm.trans hop
  | close hop => cases hbidding.symm.trans hop
  | cancel hop => cases hbidding.symm.trans hop

/-- A running auction has no order. -/
theorem order_of_available (hc : Corresponds s a)
    (h : assertAuctionAvailable (input.auction s) input.now.val = .ok ()) : s.order = none := by
  obtain ⟨hactive, -, -⟩ := (available_iff hc).mp h
  refine hc.unsold ?_
  rw [← hc.status]
  unfold StateHash.effectiveStatus at hactive
  split at hactive
  · rename_i hpending
    exact .inl hpending.1
  · exact .inr hactive

/-- The transaction commits an admitted bid that it does not refuse: it sells the auction to a bid
that reaches the buy-now price. -/
theorem postgresOutcome_accepts {parsed : MoneyVnd} (hc : Corresponds s a)
    (hready : Ready s k a input) (hparsed : parseMoneyVnd input.maxPriceVnd = .ok parsed)
    (hadmitted : Admitted s input parsed.val) (hrefuses : ¬ PostgresRefuses s input parsed.val) :
    ∃ outcome, postgresOutcome s input = some outcome ∧
      if PlaceBid.reachesBuyNow (input.auction s) parsed.val then outcome.sold = true
      else outcome =
        { price := (Script.proxyBid a.hash input.userId parsed.val).2.2
          leader := (Script.proxyBid a.hash input.userId parsed.val).1
          sold := false
          endTime := newEnd s input } := by
  have horder := order_of_available hc hadmitted.1
  have hcounts := hadmitted.2.2.2.2
  rw [postgresOutcome_eq hready hparsed, decide_complete hadmitted hrefuses]
  by_cases hbuys : PlaceBid.reachesBuyNow (input.auction s) parsed.val
  · have hprice := hbuys
    obtain ⟨price, hprice, -⟩ := hprice
    obtain ⟨s', hcomplete, hsold⟩ :
        ∃ s', PlaceBid.complete s input (input.auction s) = .ok s' ∧ s'.outcome.sold = true := complete_commits hcounts horder hprice
    rw [if_pos hbuys, hcomplete]
    refine ⟨_, rfl, ?_⟩
    rwa [if_pos hbuys]
  · have hfails : ¬ ProxyFails s input parsed.val := fun hfails =>
      hrefuses (.inr (.inr ⟨hbuys, hfails⟩))
    obtain ⟨s', hproxy, houtcome⟩ := proxy_commits hcounts hfails
    obtain ⟨hleader, hprice⟩ := proxyBid_eq input input.userId parsed.val input.choice hc
    rw [if_neg hbuys, hproxy]
    refine ⟨_, rfl, ?_⟩
    rw [if_neg hbuys, houtcome, hleader, hprice, horder]
    rfl

/-- Two engines that accept a bid leave the same auction exactly on the same terms. -/
theorem accepted_agree_iff {parsed : MoneyVnd} {d : Decision} (hc : Corresponds s a)
    (hready : Ready s k a input) (hparsed : parseMoneyVnd input.maxPriceVnd = .ok parsed)
    (haccepts : Accepts k (input.request s.productId context parsed) a d)
    (hadmitted : Admitted s input parsed.val) (hrefuses : ¬ PostgresRefuses s input parsed.val) :
    redisOutcome k (input.call s.productId context) = postgresOutcome s input ↔
      SameTerms s a input parsed.val := by
  obtain ⟨outcome, haccepted, houtcome⟩ :=
    postgresOutcome_accepts hc hready hparsed hadmitted hrefuses
  rw [redisOutcome_accepts hready hparsed haccepts, redisOutcomeOf_write haccepts.decided,
    haccepted, Option.some.injEq]
  unfold SameTerms
  split at houtcome
  · rename_i hbuys
    constructor
    · intro h
      rw [← h] at houtcome
      cases houtcome
    · rintro ⟨hnot, -⟩
      exact absurd hbuys hnot
  · rename_i hbuys
    have hfails : ¬ ProxyFails s input parsed.val := fun hfails =>
      hrefuses (.inr (.inr ⟨hbuys, hfails⟩))
    have hends := ends_agree_iff input hc fun time htime =>
      Nat.le_of_not_lt fun hlt => hfails (.inr ⟨time, htime, hlt⟩)
    rw [houtcome, ← hends, BidOutcome.mk.injEq]
    simp [hbuys]

end

/-- The engines decide a bid alike exactly if both refuse it, or both accept it on the same
terms. -/
theorem engines_agree_iff {s : State} {a : Auction} {k : AuctionKeys} {input : PlaceBidInput}
    {context : RedisContext} (hc : Corresponds s a) (hready : Ready s k a input) :
    redisOutcome k (input.call s.productId context) = postgresOutcome s input ↔
      ∀ amount, parseMoneyVnd input.maxPriceVnd = .ok amount →
        EnginesAgree s a input amount.val k context := by
  cases hparsed : parseMoneyVnd input.maxPriceVnd with
  | error failure =>
    simp [redisOutcome_malformed hready hparsed, postgresOutcome_malformed hparsed]
  | ok parsed =>
    have haccepts : (∃ d, Accepts k (input.request s.productId context parsed) a d) ↔
        Admitted s input parsed.val ∧ ¬ RedisRefuses s input parsed.val k context :=
      accepts_iff hc hready
    simp only [Except.ok.injEq, forall_eq']
    unfold EnginesAgree
    by_cases hadmitted : Admitted s input parsed.val
    · by_cases hredis : RedisRefuses s input parsed.val k context
      · rw [redisOutcome_refuses hready hparsed fun d hd => (haccepts.mp ⟨d, hd⟩).2 hredis]
        by_cases hpostgres : PostgresRefuses s input parsed.val
        · simp [postgresOutcome_refuses hready hparsed fun _ => hpostgres, hredis, hpostgres]
        · obtain ⟨outcome, haccepted⟩ :=
            postgresOutcome_accepts hc hready hparsed hadmitted hpostgres
          simp [haccepted, hadmitted, hredis, hpostgres]
      · obtain ⟨d, hd⟩ := haccepts.mpr ⟨hadmitted, hredis⟩
        by_cases hpostgres : PostgresRefuses s input parsed.val
        · rw [redisOutcome_accepts hready hparsed hd]
          simp [postgresOutcome_refuses hready hparsed fun _ => hpostgres, hadmitted, hredis,
            hpostgres]
        · rw [accepted_agree_iff hc hready hparsed hd hadmitted hpostgres]
          simp [hadmitted, hredis, hpostgres]
    · rw [redisOutcome_refuses hready hparsed fun d hd => hadmitted (haccepts.mp ⟨d, hd⟩).1,
        postgresOutcome_refuses hready hparsed fun h => absurd h hadmitted]
      simp [hadmitted]

namespace Sample

/-- The auction of `start` with a minute to extend it, before any bid. -/
def opening : State := { start with settings := some ⟨some 1, some 1⟩ }

/-- The same auction in Redis. -/
def mirror : Auction where
  hash :=
    { productId := 1
      sellerId := 9
      status := .active
      startAtMs := .plain 0
      endAtMs := .plain 1000
      startPriceVnd := 100
      currentPriceVnd := 100
      stepPriceVnd := 10
      buyNowPriceVnd := some 1000
      leaderId := none
      leaderMaxPriceVnd := none
      sequence := 0
      version := 0
      autoExtend := true
      antiSnipeWindowMs := .plain 60000
      antiSnipeExtensionMs := .plain 60000
      lastEventId := none }
  sets := .empty
  deadline := some 1000

def mirrorKeys : AuctionKeys where
  state := .hash mirror.hash
  sets := mirror.sets
  deadline := mirror.deadline

def context : RedisContext where
  role := .user
  correlationId := ['c']
  eventId := 1
  newOrderId := 1
  rateLimit := 5

theorem corresponds : Corresponds opening mirror where
  product := rfl
  seller := rfl
  status := rfl
  removed := by decide
  startTime := ⟨_, rfl, by decide⟩
  endTime := ⟨_, rfl, by decide⟩
  price := rfl
  step := rfl
  buyNow := rfl
  sequence := rfl
  version := rfl
  leader := fun _ => rfl
  maxima := fun _ => rfl
  bans := by simp [mirror, BidSets.empty, opening, start, State.banned]
  unsold := fun _ => rfl
  autoExtend := rfl
  window := by decide
  extension := by decide

theorem ready (amount : String) :
    Ready opening mirrorKeys mirror (bid 500 (by decide) 2 amount 500) where
  loaded := rfl
  unfenced := rfl
  named := by decide
  key := by
    change (toString 500).toList ≠ [] ∧ jsLength (toString 500).toList ≤ 255
    decide
  freshRedis := ⟨rfl, rfl⟩
  freshPostgres := by simp [opening, start]

end Sample

/-- A bid on the step, below the buy-now price, extends the auction in both engines. -/
theorem engines_agree_sample :
    redisOutcome Sample.mirrorKeys
        ((Sample.bid 500 (by decide) 2 "200" 500).call 1 Sample.context) =
      some ⟨100, some 2, false, 61000⟩ ∧
    redisOutcome Sample.mirrorKeys
        ((Sample.bid 500 (by decide) 2 "200" 500).call 1 Sample.context) =
      postgresOutcome Sample.opening (Sample.bid 500 (by decide) 2 "200" 500) := by
  refine ⟨by decide +kernel, (engines_agree_iff Sample.corresponds (Sample.ready "200")).mpr ?_⟩
  intro amount hamount
  obtain rfl : (⟨200, by decide⟩ : MoneyVnd) = amount := by
    have hparsed : parseMoneyVnd "200".toList = .ok ⟨200, by decide⟩ := by decide +kernel
    exact Except.ok.inj (hparsed.symm.trans hamount)
  refine fun _ => .inr ⟨?_, ?_, ?_⟩
  · unfold RedisRefuses
    decide +kernel
  · unfold PostgresRefuses ProxyFails
    decide +kernel
  · unfold SameTerms
    decide +kernel

/-- A maximum that reaches the buy-now price sells the auction in PostgreSQL only, and one between
two steps is accepted by the script only. -/
theorem engines_disagree :
    (¬ ∀ (s : State) (a : Auction) (k : AuctionKeys) (input : PlaceBidInput)
      (context : RedisContext), Corresponds s a → Ready s k a input →
        redisOutcome k (input.call s.productId context) = postgresOutcome s input) ∧
    redisOutcome Sample.mirrorKeys
        ((Sample.bid 500 (by decide) 2 "1000" 500).call 1 Sample.context) =
      some ⟨100, some 2, false, 61000⟩ ∧
    postgresOutcome Sample.opening (Sample.bid 500 (by decide) 2 "1000" 500) =
      some ⟨1000, some 2, true, 500⟩ ∧
    redisOutcome Sample.mirrorKeys
        ((Sample.bid 500 (by decide) 2 "205" 500).call 1 Sample.context) =
      some ⟨100, some 2, false, 61000⟩ ∧
    postgresOutcome Sample.opening (Sample.bid 500 (by decide) 2 "205" 500) = none := by
  refine ⟨fun h => ?_, by decide +kernel, by decide +kernel, by decide +kernel,
    by decide +kernel⟩
  have heq := h _ _ _ _ Sample.context Sample.corresponds (Sample.ready "1000")
  revert heq
  decide +kernel

end Postgres

end MiracleAuction
