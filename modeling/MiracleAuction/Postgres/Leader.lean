import MiracleAuction.Base.Run
import MiracleAuction.Postgres.Engine

/-!
# The leader of the PostgreSQL engine

`products.price_owner_id` and the leader that a bid reads from the history.
-/
namespace MiracleAuction
namespace Postgres
open Decimal

section
variable {s s' : State} {input : PlaceBidInput} {auction : AuctionState} {maxPrice : Nat}
  {history : List Bid} {row other : Bid}

/-! ## What a transaction does -/

/-- The product's row changes, and its buy-now price stays. -/
theorem updateAuction_ok {currentPrice priceOwnerId : Nat} {endTime : Option Int}
    (h : s.updateAuction currentPrice priceOwnerId endTime = .ok s') :
    ∃ product, s' = { s with product := product } ∧
      product.priceOwnerId = some priceOwnerId ∧ product.buyNowPrice = s.product.buyNowPrice := by
  unfold State.updateAuction at h
  split at h
  · cases h
  dsimp only at h
  split at h
  · cases h
    exact ⟨_, rfl, rfl, rfl⟩
  · split at h
    · cases h
      exact ⟨_, rfl, rfl, rfl⟩
    · cases h

/-- What an accepted bid does to the history, and who leads after it. -/
inductive Records (s : State) (input : PlaceBidInput) (maxPrice : Nat) :
    List Bid → Nat → Prop
  | first {productPrice priceOwnerId : Nat} (hleader : s.leader input.choice = none) :
      Records s input maxPrice
        (s.history ++
          [⟨input.createdAt, input.userId, maxPrice, productPrice, priceOwnerId, false⟩])
        input.userId
  | raises {leader : ProxyBid} (hleader : s.leader input.choice = some leader)
      (huser : leader.userId = input.userId) (hmax : leader.maxPrice < maxPrice) :
      Records s input maxPrice (updateLeaderMax s.history input.userId maxPrice) input.userId
  | outbids {leader : ProxyBid} {productPrice priceOwnerId : Nat}
      (hleader : s.leader input.choice = some leader) (hmax : leader.maxPrice < maxPrice) :
      Records s input maxPrice
        (s.history ++
          [⟨input.createdAt, input.userId, maxPrice, productPrice, priceOwnerId, false⟩])
        input.userId
  | loses {leader : ProxyBid} {productPrice : Nat} {priceOwnerId : Nat}
      (hleader : s.leader input.choice = some leader) (huser : leader.userId ≠ input.userId)
      (hmax : maxPrice ≤ leader.maxPrice) :
      Records s input maxPrice
        (s.history ++
          [⟨input.createdAt, input.userId, maxPrice, productPrice, priceOwnerId, false⟩,
            ⟨input.recreatedAt, leader.userId, leader.maxPrice, productPrice, leader.userId,
              false⟩])
        leader.userId

/-- A bid that is accepted without a sale. -/
theorem proxy_ok (h : PlaceBid.proxy s input auction maxPrice = .ok s') :
    ∃ product history owner, s' = { s with product := product, history := history } ∧
      product.priceOwnerId = some owner ∧ product.buyNowPrice = s.product.buyNowPrice ∧
      Records s input maxPrice history owner := by
  unfold PlaceBid.proxy at h
  obtain ⟨recorded, hrecorded, h⟩ := Except.bind_eq_ok h
  obtain ⟨product, rfl, howner, hbuyNow⟩ := updateAuction_ok h
  unfold PlaceBid.recordBid at hrecorded
  cases hleader : s.leader input.choice with
  | none =>
    simp only [hleader, calculateProxyBid] at hrecorded howner
    cases hrecorded
    exact ⟨product, _, _, rfl, howner, hbuyNow, .first hleader⟩
  | some leader =>
    simp only [hleader] at hrecorded howner
    by_cases huser : leader.userId = input.userId
    · rw [if_pos huser] at hrecorded
      simp only [calculateProxyBid, if_pos huser] at howner
      split at hrecorded
      · cases hrecorded
      · rename_i hmax
        cases hrecorded
        exact ⟨product, _, _, rfl, howner, hbuyNow,
          .raises hleader huser (Nat.lt_of_not_le hmax)⟩
    · rw [if_neg huser] at hrecorded
      simp only [calculateProxyBid, if_neg huser] at howner
      split at hrecorded
      · rename_i hmax
        simp only [if_pos hmax] at howner
        cases hrecorded
        refine ⟨product, _, _, rfl, howner, hbuyNow, ?_⟩
        simpa [State.record] using Records.loses hleader huser hmax
      · rename_i hmax
        simp only [if_neg hmax] at howner
        cases hrecorded
        exact ⟨product, _, _, rfl, howner, hbuyNow, .outbids hleader (Nat.lt_of_not_le hmax)⟩

/-- A bid that buys. -/
theorem complete_ok (h : PlaceBid.complete s input auction = .ok s') :
    ∃ price product, auction.buyNowPrice = some price ∧ s.order = none ∧
      s' = { s with
        product := product
        history :=
          s.history ++ [⟨input.createdAt, input.userId, price, price, input.userId, false⟩]
        order := some input.userId.val } ∧
      product.priceOwnerId = some input.userId.val ∧
      product.buyNowPrice = s.product.buyNowPrice := by
  unfold PlaceBid.complete at h
  split at h
  · cases h
  rename_i price hprice
  obtain ⟨s₁, hupdate, h⟩ := Except.bind_eq_ok h
  obtain ⟨product, rfl, howner, hbuyNow⟩ := updateAuction_ok hupdate
  unfold State.createOrder at h
  split at h
  · rename_i horder
    cases h
    exact ⟨price, product, hprice, horder, rfl, howner, hbuyNow⟩
  · cases h

/-- What the transaction of a bid does, besides the stored response. -/
inductive Placed (s : State) (input : PlaceBidInput) (s' : State) : Prop
  | replayed (h : s' = s)
  | sold {price : Nat} {product : ProductRow} {idempotency : List IdempotencyRow}
      (hprice : s.product.buyNowPrice = some price) (horder : s.order = none)
      (hbanned : s.banned input.userId = false)
      (howner : product.priceOwnerId = some input.userId.val)
      (hbuyNow : product.buyNowPrice = s.product.buyNowPrice)
      (h : s' = { s with
        product := product
        history :=
          s.history ++ [⟨input.createdAt, input.userId, price, price, input.userId, false⟩]
        order := some input.userId.val
        idempotency := idempotency })
  | recorded {amount : MoneyVnd} {product : ProductRow} {history : List Bid} {owner : Nat}
      {idempotency : List IdempotencyRow}
      (hamount : parseMoneyVnd input.maxPriceVnd "max_price" = .ok amount)
      (hbelow : ∀ price, s.product.buyNowPrice = some price → amount.val < price)
      (hbanned : s.banned input.userId = false) (hrecords : Records s input amount history owner)
      (howner : product.priceOwnerId = some owner)
      (hbuyNow : product.buyNowPrice = s.product.buyNowPrice)
      (h : s' = { s with product := product, history := history, idempotency := idempotency })

theorem saveIdempotentResponse_ok {operation : String} {userId : Nat} {key fingerprint : Text}
    (h : s.saveIdempotentResponse operation userId key fingerprint = .ok s') :
    ∃ idempotency, s' = { s with idempotency := idempotency } := by
  unfold State.saveIdempotentResponse at h
  split at h
  · cases h
    exact ⟨_, rfl⟩
  · split at h
    · cases h
    · cases h
      exact ⟨_, rfl⟩

theorem assertBidderCanParticipate_ok {userId : Nat} {eligibility : BidderEligibility}
    (h : assertBidderCanParticipate auction userId eligibility = .ok ()) :
    auction.sellerId ≠ userId ∧ eligibility.banned = false ∧
      ¬ (eligibility.ratingCount ≠ 0 ∧ eligibility.rating < 4) := by
  unfold assertBidderCanParticipate at h
  split at h
  · cases h
  rename_i hseller
  split at h
  · cases h
  rename_i hbanned
  split at h
  · cases h
  rename_i hrating
  exact ⟨hseller, by simpa using hbanned, hrating⟩

theorem eligibility_ok {userId : Nat} {eligibility : BidderEligibility}
    (h : s.eligibility userId = .ok eligibility) : ∃ user, s.users userId = some user ∧
      eligibility = ⟨user.rating.getD 0, user.ratingCount.getD 0, s.banned userId⟩ := by
  unfold State.eligibility at h
  split at h
  · cases h
  · rename_i user huser
    cases h
    exact ⟨user, huser, rfl⟩

theorem placeBid_ok (h : placeBid s input = .ok s') : Placed s input s' := by
  unfold placeBid at h
  obtain ⟨amount, hamount, h⟩ := Except.bind_eq_ok h
  obtain ⟨replay, -, h⟩ := Except.bind_eq_ok h
  split at h
  · cases h
    exact .replayed rfl
  obtain ⟨s₁, hdecide, h⟩ := Except.bind_eq_ok h
  obtain ⟨idempotency, rfl⟩ := saveIdempotentResponse_ok h
  have hparsed : parseMoneyVnd input.maxPriceVnd "max_price" = .ok amount := by
    cases hparse : parseMoneyVnd input.maxPriceVnd "max_price" with
    | error e => simp [hparse, Except.mapError] at hamount
    | ok parsed =>
      simp only [hparse, Except.mapError, Except.ok.injEq] at hamount
      rw [hamount]
  unfold PlaceBid.decide at hdecide
  obtain ⟨-, -, hdecide⟩ := Except.bind_eq_ok hdecide
  obtain ⟨eligibility, heligible, hdecide⟩ := Except.bind_eq_ok hdecide
  obtain ⟨⟨⟩, hparticipates, hdecide⟩ := Except.bind_eq_ok hdecide
  obtain ⟨-, -, hdecide⟩ := Except.bind_eq_ok hdecide
  obtain ⟨user, -, heligibility⟩ := eligibility_ok heligible
  have hbanned : s.banned input.userId = false := by
    have h := (assertBidderCanParticipate_ok hparticipates).2.1
    rwa [heligibility] at h
  split at hdecide
  · obtain ⟨price, product, hprice, horder, rfl, howner, hbuyNow⟩ := complete_ok hdecide
    exact .sold hprice horder hbanned howner hbuyNow rfl
  · rename_i hreaches
    obtain ⟨product, history, owner, rfl, howner, hbuyNow, hrecords⟩ := proxy_ok hdecide
    refine .recorded hparsed (fun price hprice => ?_) hbanned hrecords howner hbuyNow rfl
    by_contra hle
    exact hreaches ⟨price, hprice, Nat.le_of_not_lt hle⟩

/-! ## The row that comes first -/

/-- The rows that count: `status IS NULL`. -/
abbrev standing (history : List Bid) : List Bid := history.filter fun row => !row.banned

theorem mem_standing : row ∈ standing history ↔ row ∈ history ∧ row.banned = false := by
  simp [standing]

theorem after_total (row other : Bid) : row.After other ∨ other.After row := by
  unfold Bid.After
  omega

theorem Bid.After.trans {third : Bid} (h : row.After other) (h' : other.After third) :
    row.After third := by
  unfold Bid.After at *
  omega

theorem mem_leaderRows : row ∈ leaderRows history ↔
    (row ∈ history ∧ row.banned = false) ∧
      ∀ other ∈ history, other.banned = false → other.After row := by
  simp [leaderRows, OrderBy.mem_candidates]

/-- Some row leads, if any counts. -/
theorem exists_leaderRow (hmem : row ∈ history) (hstanding : row.banned = false) :
    ∃ leader, leader ∈ leaderRows history :=
  OrderBy.exists_candidate after_total (fun _ _ _ h h' => h.trans h')
    (mem_standing.mpr ⟨hmem, hstanding⟩)

/-- The leader is the user of a row that leads. -/
theorem leader_eq_some {choice : Nat} {leader : ProxyBid} (h : s.leader choice = some leader) :
    ∃ row ∈ leaderRows s.history, leader = ⟨row.userId, row.maxPrice⟩ := by
  obtain ⟨row, hrow, rfl⟩ := Option.map_eq_some_iff.mp h
  exact ⟨row, List.mem_of_getElem? hrow, rfl⟩

/-- There is no leader only if no row counts. -/
theorem leader_eq_none {choice : Nat} (h : s.leader choice = none) (hmem : row ∈ s.history) :
    row.banned = true := by
  by_contra hstanding
  obtain ⟨first, hfirst⟩ := exists_leaderRow hmem (by simpa using hstanding)
  have hpos : 0 < (leaderRows s.history).length := List.length_pos_of_mem hfirst
  have hsome := Option.map_eq_none_iff.mp h
  rw [List.getElem?_eq_none_iff] at hsome
  exact absurd (Nat.mod_lt choice hpos) (Nat.not_lt.mpr hsome)

/-- A new row above all others leads alone. -/
theorem leaderRows_append (hnew : row.banned = false)
    (hgreatest : ∀ old ∈ history, old.banned = false → old.maxPrice < row.maxPrice)
    (hother : other ∈ leaderRows (history ++ [row])) : other = row := by
  obtain ⟨⟨hmem, hstanding⟩, hmax⟩ := mem_leaderRows.mp hother
  rcases List.mem_append.mp hmem with hold | hmem
  · have hlt := hgreatest other hold hstanding
    have hafter := hmax row (List.mem_append_right _ List.mem_cons_self) hnew
    unfold Bid.After at hafter
    omega
  · exact List.mem_singleton.mp hmem

/-- The newest row of a user that counts. -/
theorem latestBid_eq_some {userId : Nat} (hmem : row ∈ history) (hstanding : row.banned = false)
    (huser : row.userId = userId) :
    ∃ biddingId latest, latestBid history userId = some biddingId ∧
      history[biddingId]? = some latest ∧ latest.userId = userId ∧ latest.banned = false := by
  obtain ⟨i, hi⟩ := List.mem_iff_getElem?.mp hmem
  have hmine : (row, i) ∈ history.zipIdx.filter fun old =>
      old.1.userId = userId ∧ !old.1.banned := by
    simp [List.mem_zipIdx_iff_getElem?, hi, huser, hstanding]
  have htotal : ∀ a b, Older a b ∨ Older b a := fun a b => by unfold Older; omega
  have htrans : ∀ a b c, Older a b → Older b c → Older a c := fun a b c h h' => by
    unfold Older at *
    omega
  obtain ⟨first, hfirst⟩ := OrderBy.exists_candidate htotal htrans hmine
  have hlatest : latestBid history userId = (OrderBy.candidates Older (history.zipIdx.filter
      fun old => old.1.userId = userId ∧ !old.1.banned)).head?.map Prod.snd := rfl
  rw [hlatest]
  cases hhead : OrderBy.candidates Older (history.zipIdx.filter fun old =>
      old.1.userId = userId ∧ !old.1.banned) with
  | nil =>
    rw [hhead] at hfirst
    cases hfirst
  | cons head tail =>
    obtain ⟨latest, biddingId⟩ := head
    have hcandidate : (latest, biddingId) ∈ OrderBy.candidates Older
        (history.zipIdx.filter fun old => old.1.userId = userId ∧ !old.1.banned) := by
      rw [hhead]
      exact List.mem_cons_self
    have hlatest := (OrderBy.mem_candidates.mp hcandidate).1
    simp only [List.mem_filter, List.mem_zipIdx_iff_getElem?, Bool.not_eq_true', decide_eq_true_eq]
      at hlatest
    exact ⟨biddingId, latest, rfl, hlatest.1, hlatest.2.1, by simpa using hlatest.2.2⟩

/-- A raise leads alone, for a user who has a row that counts. -/
theorem leaderRows_updateLeaderMax {userId : Nat} (hmem : row ∈ history)
    (hstanding : row.banned = false) (huser : row.userId = userId)
    (hgreatest : ∀ old ∈ history, old.banned = false → old.maxPrice < maxPrice)
    (hother : other ∈ leaderRows (updateLeaderMax history userId maxPrice)) :
    other.userId = userId := by
  obtain ⟨biddingId, latest, hlatest, hget, hlatestUser, hlatestStanding⟩ :=
    latestBid_eq_some hmem hstanding huser
  simp only [updateLeaderMax, hlatest] at hother
  obtain ⟨⟨hmem', hstanding'⟩, hmax⟩ := mem_leaderRows.mp hother
  have hraised : { latest with maxPrice := maxPrice } ∈ history.modify biddingId
      fun row => { row with maxPrice := maxPrice } := by
    refine List.mem_of_getElem? (i := biddingId) ?_
    simp [hget]
  have hafter := hmax _ hraised hlatestStanding
  obtain ⟨i, hi⟩ := List.mem_iff_getElem?.mp hmem'
  rw [List.getElem?_modify] at hi
  by_cases hsame : biddingId = i
  · subst hsame
    rw [hget] at hi
    simp only [if_true, Option.map_eq_map, Option.map_some, Option.some.injEq] at hi
    rw [← hi]
    exact hlatestUser
  · simp only [if_neg hsame, Option.map_eq_map, Option.map_id'] at hi
    have hlt := hgreatest other (List.mem_of_getElem? hi) hstanding'
    unfold Bid.After at hafter
    dsimp only at hafter
    omega

/-! ## The two views of the leader -/

/-- The product names the leader that the next bid will read, if there is one, and no banned
user. -/
structure LeaderAgrees (s : State) : Prop where
  unbanned : ∀ u, s.product.priceOwnerId = some u → s.banned u = false
  none_iff : s.product.priceOwnerId = none ↔ ∀ row ∈ s.history, row.banned = true
  leader : ∀ choice, (s.leader choice).map (·.userId) = s.product.priceOwnerId

/-- No bid was placed yet. -/
structure Fresh (s : State) : Prop where
  history : s.history = []
  priceOwnerId : s.product.priceOwnerId = none

/-- `created_at` does not decrease. -/
def InOrder (s : State) : Transaction → Prop
  | .bid input => (∀ row ∈ s.history, row.createdAt ≤ input.createdAt) ∧
      input.createdAt ≤ input.recreatedAt
  | .ban _ => True

/-- The leader's row that a losing bid adds is newer than every row of another bidder with the same
maximum, also than that of the losing bid. -/
def Reasserts (s : State) (input : PlaceBidInput) (amount : Nat) (leader : ProxyBid) : Prop :=
  (amount = leader.maxPrice → input.createdAt < input.recreatedAt) ∧
    ∀ row ∈ s.history, row.banned = false → row.userId ≠ leader.userId →
      row.maxPrice = leader.maxPrice → row.createdAt < input.recreatedAt

/-- A ban that is accepted spares the leader, and a losing bid that is accepted reasserts it. -/
def KeepsLeader (s : State) : Transaction → Prop
  | .bid input => (placeBid s input).isOk = true → ∀ leader ∈ s.leader input.choice,
      leader.userId ≠ input.userId → value input.maxPriceVnd ≤ leader.maxPrice →
        Reasserts s input (value input.maxPriceVnd) leader
  | .ban input => (banBidder s input).isOk = true →
      s.product.priceOwnerId ≠ some input.bannedUserId

instance (s : State) (x : Transaction) : Decidable (KeepsLeader s x) := by
  unfold KeepsLeader Reasserts
  split <;> infer_instance

instance (s : State) (x : Transaction) : Decidable (InOrder s x) := by
  unfold InOrder
  split <;> infer_instance

/-- The invariant of the engine. -/
structure Consistent (s : State) : Prop where
  leads : ∀ row ∈ leaderRows s.history, s.product.priceOwnerId = some row.userId
  vacant : (∀ row ∈ s.history, row.banned = true) → s.product.priceOwnerId = none
  standing : ∀ row ∈ s.history, row.banned = false → s.banned row.userId = false
  below : s.order = none → ∀ price, s.product.buyNowPrice = some price →
    ∀ row ∈ s.history, row.maxPrice < price

theorem consistent_fresh (h : Fresh s) : Consistent s := by
  refine ⟨fun row hrow => ?_, fun _ => h.priceOwnerId, ?_, ?_⟩
  · simp [h.history, leaderRows, OrderBy.candidates] at hrow
  · simp [h.history]
  · simp [h.history]

theorem Consistent.agrees (h : Consistent s) : LeaderAgrees s := by
  have hleader : ∀ choice, (s.leader choice).map (·.userId) = s.product.priceOwnerId := by
    intro choice
    cases hleader : s.leader choice with
    | none => exact (h.vacant fun row hrow => leader_eq_none hleader hrow).symm
    | some leader =>
      obtain ⟨row, hrow, rfl⟩ := leader_eq_some hleader
      exact (h.leads row hrow).symm
  refine ⟨fun u hu => ?_, ⟨fun hnone row hrow => ?_, h.vacant⟩, hleader⟩
  · rw [← hleader 0] at hu
    obtain ⟨leader, hsome, rfl⟩ := Option.map_eq_some_iff.mp hu
    obtain ⟨row, hrow, rfl⟩ := leader_eq_some hsome
    obtain ⟨⟨hmem, hstanding⟩, -⟩ := mem_leaderRows.mp hrow
    exact h.standing row hmem hstanding
  · rw [← hleader 0, Option.map_eq_none_iff] at hnone
    exact leader_eq_none hnone hrow

/-- The maximum of the leader is the greatest that counts. -/
theorem leader_greatest {choice : Nat} {leader : ProxyBid} (h : s.leader choice = some leader)
    (hrow : row ∈ s.history) (hstanding : row.banned = false) :
    row.maxPrice ≤ leader.maxPrice := by
  obtain ⟨first, hfirst, rfl⟩ := leader_eq_some h
  have hafter := (mem_leaderRows.mp hfirst).2 row hrow hstanding
  unfold Bid.After at hafter
  dsimp only
  omega

/-- Who leads after an accepted bid. -/
theorem Records.leads {history : List Bid} {owner : Nat}
    (h : Records s input maxPrice history owner)
    (hkeeps : ∀ leader, s.leader input.choice = some leader → leader.userId ≠ input.userId →
      maxPrice ≤ leader.maxPrice → Reasserts s input maxPrice leader)
    (hrow : row ∈ leaderRows history) : row.userId = owner := by
  cases h with
  | first hleader =>
    rw [leaderRows_append rfl (fun old hold hstanding => ?_) hrow]
    rw [leader_eq_none hleader hold] at hstanding
    cases hstanding
  | raises hleader huser hmax =>
    obtain ⟨first, hfirst, rfl⟩ := leader_eq_some hleader
    obtain ⟨⟨hmem, hstanding⟩, -⟩ := mem_leaderRows.mp hfirst
    refine leaderRows_updateLeaderMax hmem hstanding huser (fun old hold hstanding => ?_) hrow
    exact Nat.lt_of_le_of_lt (leader_greatest hleader hold hstanding) hmax
  | outbids hleader hmax =>
    rw [leaderRows_append rfl (fun old hold hstanding => ?_) hrow]
    exact Nat.lt_of_le_of_lt (leader_greatest hleader hold hstanding) hmax
  | @loses leader _ _ hleader huser hmax =>
    obtain ⟨htie, hothers⟩ := hkeeps leader hleader huser hmax
    obtain ⟨⟨hmem, hstanding⟩, hall⟩ := mem_leaderRows.mp hrow
    have hafter := hall _ (List.mem_append_right _ (List.mem_cons_of_mem _ List.mem_cons_self)) rfl
    unfold Bid.After at hafter
    dsimp only at hafter
    rcases List.mem_append.mp hmem with hold | hnew
    · -- An older row of another bidder would have to be as high and not older.
      by_contra hother
      have hle := leader_greatest hleader hold hstanding
      have holder := hothers row hold hstanding hother
      omega
    · rcases List.mem_cons.mp hnew with rfl | hnew
      · dsimp only at hafter
        omega
      · rw [List.mem_singleton.mp hnew]

/-- An accepted bid is recorded. -/
theorem Records.standing {history : List Bid} {owner : Nat}
    (h : Records s input maxPrice history owner) : ∃ row ∈ history, row.banned = false := by
  cases h with
  | first => exact ⟨_, List.mem_append_right _ List.mem_cons_self, rfl⟩
  | outbids => exact ⟨_, List.mem_append_right _ List.mem_cons_self, rfl⟩
  | loses => exact ⟨_, List.mem_append_right _ List.mem_cons_self, rfl⟩
  | raises hleader huser _ =>
    obtain ⟨first, hfirst, rfl⟩ := leader_eq_some hleader
    obtain ⟨⟨hmem, hstanding⟩, -⟩ := mem_leaderRows.mp hfirst
    obtain ⟨biddingId, latest, hlatest, hget, -, hlatestStanding⟩ :=
      latestBid_eq_some hmem hstanding huser
    refine ⟨{ latest with maxPrice := maxPrice }, List.mem_of_getElem? (i := biddingId) ?_,
      hlatestStanding⟩
    simp [updateLeaderMax, hlatest, hget]

/-- Where the rows of the history come from: an older row with this user, or the bid. -/
theorem Records.origin {history : List Bid} {owner : Nat}
    (h : Records s input maxPrice history owner) (hrow : row ∈ history) :
    (∃ old ∈ s.history, old.userId = row.userId ∧ old.banned = row.banned ∧
      (row.maxPrice ≤ old.maxPrice ∨ row.maxPrice = maxPrice)) ∨
      row.userId = input.userId ∧ row.maxPrice = maxPrice := by
  cases h with
  | first | outbids =>
    rcases List.mem_append.mp hrow with hold | hnew
    · exact .inl ⟨row, hold, rfl, rfl, .inl le_rfl⟩
    · rw [List.mem_singleton.mp hnew]
      exact .inr ⟨rfl, rfl⟩
  | loses hleader =>
    rcases List.mem_append.mp hrow with hold | hnew
    · exact .inl ⟨row, hold, rfl, rfl, .inl le_rfl⟩
    · rcases List.mem_cons.mp hnew with rfl | hnew
      · exact .inr ⟨rfl, rfl⟩
      · obtain ⟨first, hfirst, rfl⟩ := leader_eq_some hleader
        obtain ⟨⟨hmem, hstanding⟩, -⟩ := mem_leaderRows.mp hfirst
        rw [List.mem_singleton.mp hnew]
        exact .inl ⟨first, hmem, rfl, hstanding, .inl le_rfl⟩
  | raises =>
    unfold updateLeaderMax at hrow
    split at hrow
    · rename_i biddingId _
      obtain ⟨i, hi⟩ := List.mem_iff_getElem?.mp hrow
      rw [List.getElem?_modify] at hi
      obtain ⟨old, hold, hi⟩ := Option.map_eq_some_iff.mp hi
      refine .inl ⟨old, List.mem_of_getElem? hold, ?_⟩
      split at hi
      · rw [← hi]
        exact ⟨rfl, rfl, .inr rfl⟩
      · rw [← hi]
        exact ⟨rfl, rfl, .inl le_rfl⟩
    · exact .inl ⟨row, hrow, rfl, rfl, .inl le_rfl⟩

theorem value_of_parse {text field} {amount : MoneyVnd}
    (h : parseMoneyVnd text field = .ok amount) :
    value text = amount.val := by
  unfold parseMoneyVnd at h
  split at h
  · dsimp only at h
    split at h
    · cases h
      rfl
    · cases h
  · cases h

theorem consistent_bid (hs : Consistent s) (hkeeps : KeepsLeader s (.bid input))
    (h : placeBid s input = .ok s') : Consistent s' := by
  have hkeeps := hkeeps (by rw [h]; rfl)
  cases placeBid_ok h with
  | replayed h => exact h ▸ hs
  | @sold price product _ hprice horder hbanned howner hbuyNow h =>
    obtain rfl := h
    have hbelow := hs.below horder price hprice
    refine ⟨fun row hrow => ?_, fun hall => ?_, fun row hmem hstanding => ?_, fun hnone => ?_⟩
    · rw [leaderRows_append rfl (fun old hold _ => hbelow old hold) hrow]
      exact howner
    · have hnew := hall _ (List.mem_append_right _ List.mem_cons_self)
      cases hnew
    · rcases List.mem_append.mp hmem with hold | hnew
      · exact hs.standing row hold hstanding
      · rw [List.mem_singleton.mp hnew]
        exact hbanned
    · cases hnone
  | @recorded amount product history owner _ hamount hbelow hbanned hrecords howner hbuyNow h =>
    obtain rfl := h
    rw [value_of_parse hamount] at hkeeps
    refine ⟨fun row hrow => ?_, fun hall => ?_, fun row hmem hstanding => ?_,
      fun horder price hprice row hmem => ?_⟩
    · rw [hrecords.leads hkeeps hrow]
      exact howner
    · obtain ⟨row, hmem, hstanding⟩ := hrecords.standing
      rw [hall row hmem] at hstanding
      cases hstanding
    · rcases hrecords.origin hmem with ⟨old, hold, huser, hsame, -⟩ | ⟨huser, -⟩
      · have hunbanned := hs.standing old hold (hsame.trans hstanding)
        rwa [huser] at hunbanned
      · rw [huser]
        exact hbanned
    · have hprice' : s.product.buyNowPrice = some price := hbuyNow.symm.trans hprice
      have hamount := hbelow price hprice'
      rcases hrecords.origin hmem with ⟨old, hold, -, -, hle⟩ | ⟨-, heq⟩
      · have hold := hs.below horder price hprice' old hold
        omega
      · omega

theorem banBidder_ok {input : BanInput} (h : banBidder s input = .ok s') :
    s' = { s with
      bans := s.bans ++ [⟨s.productId, input.bannedUserId, some input.reason⟩]
      history := s.history.map fun row =>
        if row.userId = input.bannedUserId ∧ row.banned = false then { row with banned := true }
        else row } := by
  unfold banBidder at h
  obtain ⟨-, -, h⟩ := Except.bind_eq_ok h
  split at h
  · cases h
  unfold State.ban at h
  split at h
  · cases h
  · cases h
    rfl

/-- The rows that count after a ban are those of the other users. -/
theorem mem_marked {u : Nat} (hstanding : row.banned = false) :
    (row ∈ history.map fun row => if row.userId = u ∧ row.banned = false then
      { row with banned := true } else row) ↔ row ∈ history ∧ row.userId ≠ u := by
  constructor
  · intro hmem
    obtain ⟨old, hold, rfl⟩ := List.mem_map.mp hmem
    split at hstanding
    · cases hstanding
    · rename_i hnot
      rw [if_neg hnot]
      exact ⟨hold, fun hu => hnot ⟨hu, hstanding⟩⟩
  · rintro ⟨hmem, hu⟩
    exact List.mem_map.mpr ⟨row, hmem, if_neg fun h => hu h.1⟩

theorem consistent_ban {input : BanInput} (hs : Consistent s) (hkeeps : KeepsLeader s (.ban input))
    (h : banBidder s input = .ok s') : Consistent s' := by
  have hkeeps := hkeeps (by rw [h]; rfl)
  obtain rfl := banBidder_ok h
  -- A row that led before still does, since its user is not the one banned.
  have hstays : ∀ first ∈ leaderRows s.history, first.userId ≠ input.bannedUserId :=
    fun first hfirst heq => hkeeps (heq ▸ hs.leads first hfirst)
  refine ⟨fun row hrow => ?_, fun hall => hs.vacant fun row hmem => ?_,
    fun row hmem hstanding => ?_, fun horder price hprice row hmem => ?_⟩
  · obtain ⟨⟨hmem, hstanding⟩, hmax⟩ := mem_leaderRows.mp hrow
    obtain ⟨hold, -⟩ := (mem_marked hstanding).mp hmem
    obtain ⟨first, hfirst⟩ := exists_leaderRow hold hstanding
    obtain ⟨⟨hfirstMem, hfirstStanding⟩, hfirstMax⟩ := mem_leaderRows.mp hfirst
    have hafter := hmax first ((mem_marked hfirstStanding).mpr ⟨hfirstMem, hstays first hfirst⟩)
      hfirstStanding
    refine hs.leads row
      (mem_leaderRows.mpr ⟨⟨hold, hstanding⟩, fun other hother hcounts => ?_⟩)
    exact (hfirstMax other hother hcounts).trans hafter
  · by_contra hstanding
    obtain ⟨first, hfirst⟩ := exists_leaderRow hmem (by simpa using hstanding)
    obtain ⟨⟨hfirstMem, hfirstStanding⟩, -⟩ := mem_leaderRows.mp hfirst
    have hbanned := hall first
      ((mem_marked hfirstStanding).mpr ⟨hfirstMem, hstays first hfirst⟩)
    rw [hfirstStanding] at hbanned
    cases hbanned
  · obtain ⟨hold, huser⟩ := (mem_marked hstanding).mp hmem
    have hunbanned := hs.standing row hold hstanding
    simpa [State.banned, huser.symm] using hunbanned
  · obtain ⟨old, hold, rfl⟩ := List.mem_map.mp hmem
    have hlt := hs.below horder price hprice old hold
    split
    · exact hlt
    · exact hlt

theorem consistent_step {x : Transaction} (hs : Consistent s) (hkeeps : KeepsLeader s x)
    (h : Does Transaction.apply s x s') : Consistent s' := by
  obtain rfl := h
  cases x with
  | bid input =>
    dsimp only [Transaction.apply]
    cases hplaced : placeBid s input with
    | error => exact hs
    | ok next => exact consistent_bid hs hkeeps hplaced
  | ban input =>
    dsimp only [Transaction.apply]
    cases hbanned : banBidder s input with
    | error => exact hs
    | ok next => exact consistent_ban hs hkeeps hbanned

end

/-- While no ban hits the leader, and every losing bid reasserts it, the product names the leader
that the next bid reads. -/
theorem leader_agrees {s s' : State} {xs : List Transaction} (hs : Fresh s)
    (h : Run (Guarded KeepsLeader (Does Transaction.apply)) s xs s') : LeaderAgrees s' :=
  (h.preserves (I := Consistent) (fun _ _ _ hstep hs => consistent_step hs hstep.1 hstep.2)
    (consistent_fresh hs)).agrees

namespace Sample

def start : State where
  productId := 1
  product :=
    { sellerId := 9
      startPrice := some 100
      currentPrice := some 100
      stepPrice := some 10
      buyNowPrice := some 1000
      priceOwnerId := none
      startTime := some (.early 0)
      endTime := some (.early 1000)
      autoExtended := some true
      isRemoved := some false
      auctionStatus := .active
      auctionVersion := 0
      auctionSequence := 0 }
  users := fun _ => some ⟨none, none⟩

theorem start_fresh : Fresh start := ⟨rfl, rfl⟩

/-- A bid at time `n`. -/
def bid (n : Nat) (h : n < 1000) (userId : UserId) (amount : String) (recreatedAt : Int) :
    PlaceBidInput where
  userId := userId
  maxPriceVnd := amount.toList
  idempotencyKey := (toString n).toList
  now := ⟨n, by omega⟩
  createdAt := n
  recreatedAt := recreatedAt

/-- The seller bans a bidder. -/
def ban (userId : Nat) : Transaction :=
  .ban
    { actorId := 9
      actorRole := .seller
      bannedUserId := userId
      reason := []
      now := .early 500 }

/-- Bidder 3 ties with bidder 2, who raises; then bidder 3 is banned. -/
def rivals : List Transaction :=
  [.bid (bid 1 (by decide) 2 "200" 1), .bid (bid 2 (by decide) 3 "200" 3),
    .bid (bid 4 (by decide) 2 "300" 4), ban 3]

/-- Both rows of the losing bid have the same time. -/
def tie : List PlaceBidInput := [bid 1 (by decide) 2 "200" 1, bid 2 (by decide) 3 "200" 2]

end Sample

/-- The leader stays through a tie, a raise and a ban. -/
theorem leader_agrees_sample :
    (Sample.rivals.foldl Transaction.apply Sample.start).history.length = 3 ∧
    LeaderAgrees (Sample.rivals.foldl Transaction.apply Sample.start) := by
  have hrun : Run (Guarded KeepsLeader (Does Transaction.apply)) Sample.start Sample.rivals
      (Sample.rivals.foldl Transaction.apply Sample.start) :=
    .cons ⟨by decide +kernel, rfl⟩ (.cons ⟨by decide +kernel, rfl⟩
      (.cons ⟨by decide +kernel, rfl⟩ (.cons ⟨by decide +kernel, rfl⟩ (.refl _))))
  exact ⟨by decide +kernel, leader_agrees Sample.start_fresh hrun⟩

/-- A ban of the leader leaves a banned user as the owner of the price; and without any ban, a tie
whose two rows have the same time may make the next bid read the other bidder. -/
theorem leader_disagrees :
    (¬ ∀ (s s' : State) (xs : List Transaction), Fresh s →
      Run (Guarded InOrder (Does Transaction.apply)) s xs s' → LeaderAgrees s') ∧
    ¬ ∀ (s s' : State) (inputs : List PlaceBidInput), Fresh s →
      Run (Guarded InOrder (Does Transaction.apply)) s (inputs.map .bid) s' →
        LeaderAgrees s' := by
  constructor
  · intro h
    have hagrees := h Sample.start _ [.bid (Sample.bid 1 (by decide) 2 "200" 1), Sample.ban 2]
      Sample.start_fresh (.cons ⟨by decide, rfl⟩ (.cons ⟨trivial, rfl⟩ (.refl _)))
    have hbanned := hagrees.unbanned 2 (by decide +kernel)
    revert hbanned
    decide +kernel
  · intro h
    have hagrees := h Sample.start _ Sample.tie Sample.start_fresh
      (.cons ⟨by decide, rfl⟩ (.cons ⟨by decide +kernel, rfl⟩ (.refl _)))
    have hleader := hagrees.leader 0
    revert hleader
    decide +kernel

end Postgres

end MiracleAuction
