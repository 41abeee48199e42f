import MiracleAuction.Authority.Frames
import MiracleAuction.Authority.Invariant
import MiracleAuction.Postgres.Engine

/-!
# `lua-reference.model.ts`

The reference decides a bid on unbounded integers. The script decides it on decimal texts,
and makes the same decision wherever the authority invariant holds.
-/
namespace MiracleAuction
open Decimal

/-! ## The reference -/

structure LuaReferenceBidState where
  currentPriceVnd : Int
  stepPriceVnd : Int
  leaderId : Option Nat
  leaderMaxPriceVnd : Option Int

structure LuaReferenceBidDecision where
  currentPriceVnd : Int
  leaderId : Nat
  leaderMaxPriceVnd : Int
  deriving DecidableEq, Repr

def decideLuaReferenceBid (state : LuaReferenceBidState) (bidderId : Nat) (maximumVnd : Int) :
    Except String LuaReferenceBidDecision :=
  if maximumVnd < state.currentPriceVnd + state.stepPriceVnd then .error "BID_TOO_LOW"
  else
    match state.leaderId, state.leaderMaxPriceVnd with
    | some leaderId, some leaderMaxPriceVnd =>
      if leaderId = bidderId then
        if maximumVnd ≤ leaderMaxPriceVnd then .error "MAXIMUM_NOT_INCREASED"
        else .ok ⟨state.currentPriceVnd, bidderId, maximumVnd⟩
      else if maximumVnd ≤ leaderMaxPriceVnd then
        .ok
          ⟨min (maximumVnd + state.stepPriceVnd) leaderMaxPriceVnd, leaderId, leaderMaxPriceVnd⟩
      else .ok ⟨min (leaderMaxPriceVnd + state.stepPriceVnd) maximumVnd, bidderId, maximumVnd⟩
    | _, _ => .ok ⟨state.currentPriceVnd, bidderId, maximumVnd⟩

/-- The state that the reference is given for a hash. -/
def StateHash.reference (h : StateHash) : LuaReferenceBidState where
  currentPriceVnd := h.currentPriceVnd
  stepPriceVnd := h.stepPriceVnd
  leaderId := h.leaderId
  leaderMaxPriceVnd := h.leaderMaxPriceVnd.map Int.ofNat

/-! ## The branch on texts -/

namespace Lua

/-- The variables that the `BID` branch reads; a missing leader is nil or empty, and so is
the maximum that goes with it. -/
structure BidLocals where
  actorId : Text
  amountVnd : Text
  currentPrice : Text
  stepPrice : Text
  leaderId : Option Text
  leaderMax : Text
  previousMaximum : Option Text

/-- The code of a rejection, or `nextLeaderId`, `nextLeaderMax` and `nextPrice`. -/
def bidBranch (v : BidLocals) : Except String (Text × Text × Text) :=
  let maximum := trim v.amountVnd
  let minimumBid := add v.currentPrice v.stepPrice
  if compare minimumBid (digits maxBigint) > 0 then .error "MONEY_OVERFLOW"
  else if compare maximum minimumBid < 0 then .error "BID_TOO_LOW"
  else if v.previousMaximum.any (compare maximum · ≤ 0) then .error "MAXIMUM_NOT_INCREASED"
  else
    match v.leaderId with
    | none | some [] => .ok (v.actorId, maximum, v.currentPrice)
    | some leaderId =>
      if leaderId = v.actorId then .ok (leaderId, maximum, v.currentPrice)
      else if compare maximum v.leaderMax ≤ 0 then
        .ok (leaderId, v.leaderMax, minimum (add maximum v.stepPrice) v.leaderMax)
      else .ok (v.actorId, maximum, minimum (add v.leaderMax v.stepPrice) maximum)

/-- The text routines are exact on the texts of numbers of any size. -/
structure Lossless : Prop where
  trim : ∀ n, trim (digits n) = digits n
  add : ∀ m n, add (digits m) (digits n) = digits (m + n)
  minimum : ∀ m n, minimum (digits m) (digits n) = digits (min m n)
  compare : ∀ m n, compare (digits m) (digits n) = if m < n then -1 else if m = n then 0 else 1

theorem lossless : Lossless where
  trim := trim_digits
  add := add_digits
  minimum := minimum_digits
  compare := compare_digits

theorem compare_digits_pos {m n : Nat} : compare (digits m) (digits n) > 0 ↔ n < m :=
  Money.compare_pos

theorem compare_digits_neg {m n : Nat} : compare (digits m) (digits n) < 0 ↔ m < n :=
  Money.compare_neg

end Lua

/-- The texts of an auction and a bid. -/
def Auction.bidLocals (a : Auction) (bidder : Nat) (amountVnd : Text) : Lua.BidLocals where
  actorId := digits bidder
  amountVnd := amountVnd
  currentPrice := digits a.hash.currentPriceVnd
  stepPrice := digits a.hash.stepPriceVnd
  leaderId := a.hash.leaderId.map digits
  leaderMax := (a.hash.leaderMaxPriceVnd.map digits).getD []
  previousMaximum := (a.sets.maxima bidder).map digits

/-! ## Agreement -/

/-- The hash that an accepted bid leaves, beside both models of the domain. -/
structure AgreesWithReference (h h' : StateHash) (bidder amount : Nat)
    (r : LuaReferenceBidDecision) : Prop where
  price : (h'.currentPriceVnd : Int) = r.currentPriceVnd
  leader : h'.leaderId = some r.leaderId
  maximum : h'.leaderMaxPriceVnd.map Int.ofNat = some r.leaderMaxPriceVnd
  proxy : ∀ auction : Postgres.AuctionState, auction.currentPrice = h.currentPriceVnd →
    auction.stepPrice = h.stepPriceVnd →
    let result := Postgres.calculateProxyBid auction ⟨bidder, amount⟩
      (h.leaderId.map fun leader => ⟨leader, h.leaderMaxPriceVnd.getD 0⟩)
    h'.currentPriceVnd = result.currentPrice ∧ h'.leaderId = some result.priceOwnerId
  bounded : r.currentPriceVnd ≤ maxVnd ∧ r.leaderMaxPriceVnd ≤ maxVnd

/-- The script on numbers and the branch on texts decide like the reference. -/
structure MatchesReference (k : AuctionKeys) (a : Auction) (req : Request) (amountVnd : Text)
    (reference : Except String LuaReferenceBidDecision) : Prop where
  accepts : (∃ data, (mutateScript req k).1 = .success data) ↔ ∃ r, reference = .ok r
  leaves : ∀ r, reference = .ok r → ∃ a', (mutateScript req k).2.auction = some a' ∧
    AgreesWithReference a.hash a'.hash req.actor req.amount r
  texts : ∀ r, reference = .ok r → Lua.bidBranch (a.bidLocals req.actor amountVnd) =
    .ok (digits r.leaderId, digits r.leaderMaxPriceVnd.toNat, digits r.currentPriceVnd.toNat)
  rejects : ∀ code, reference = .error code →
    ∃ rejection, Lua.bidBranch (a.bidLocals req.actor amountVnd) = .error rejection

/-- A bid meets the next step, and a leader raises its own maximum. -/
structure Meets (h : StateHash) (bidder amount : Nat) : Prop where
  enough : h.currentPriceVnd + h.stepPriceVnd ≤ amount
  raised : h.leaderId = some bidder → ∀ m, h.leaderMaxPriceVnd = some m → m < amount

section
variable {h : StateHash} {a : Auction} {bidder amount : Nat} {r : LuaReferenceBidDecision}

/-- What the reference decides, as the proxy rule of the script on the same numbers. -/
theorem decideLuaReferenceBid_ok
    (hled : ∀ l, h.leaderId = some l → ∃ m, h.leaderMaxPriceVnd = some m)
    (hmeets : Meets h bidder amount) :
    ∃ leader maximum price : Nat,
      decideLuaReferenceBid h.reference bidder amount = .ok ⟨price, leader, maximum⟩ ∧
        Script.proxyBid h bidder amount = (some leader, some maximum, price) := by
  have henough := hmeets.enough
  have hlow : ¬ ((amount : Int) < h.currentPriceVnd + h.stepPriceVnd) := by omega
  unfold decideLuaReferenceBid Script.proxyBid StateHash.reference
  simp only [Money.compare_nonpos, Money.add_eq, Money.minimum_eq]
  rw [if_neg hlow]
  cases hleader : h.leaderId with
  | none => exact ⟨bidder, amount, h.currentPriceVnd, rfl, rfl⟩
  | some leader =>
    obtain ⟨m, hm⟩ := hled leader hleader
    simp only [hm, Option.map_some, Option.getD_some, Int.ofNat_eq_natCast]
    by_cases hown : leader = bidder
    · have hraised := hmeets.raised (hown ▸ hleader) m hm
      rw [if_pos hown, if_pos hown, if_neg (by omega)]
      exact ⟨bidder, amount, h.currentPriceVnd, rfl, by rw [hown]⟩
    · rw [if_neg hown, if_neg hown]
      by_cases hle : amount ≤ m
      · rw [if_pos (by omega), if_pos hle]
        exact ⟨leader, m, min (amount + h.stepPriceVnd) m, by simp, rfl⟩
      · rw [if_neg (by omega), if_neg hle]
        exact ⟨bidder, amount, min (m + h.stepPriceVnd) amount, by simp, rfl⟩

/-- The reference throws on every other bid. -/
theorem meets_of_reference (hr : decideLuaReferenceBid h.reference bidder amount = .ok r) :
    Meets h bidder amount := by
  unfold decideLuaReferenceBid StateHash.reference at hr
  dsimp only at hr
  split at hr
  · cases hr
  rename_i hlow
  refine ⟨by omega, fun hleader m hm => ?_⟩
  simp only [hleader, hm, Option.map_some, Int.ofNat_eq_natCast, if_true] at hr
  split at hr
  · cases hr
  · omega

/-- A maximum below the price is no obstacle: only a leader can fail to raise. -/
theorem raises_iff (ha : AuthorityInvariant a) (hstep : 1 ≤ a.hash.stepPriceVnd)
    (henough : a.hash.currentPriceVnd + a.hash.stepPriceVnd ≤ amount) :
    (∀ previous, a.sets.maxima bidder = some previous → previous < amount) ↔
      (a.hash.leaderId = some bidder → ∀ m, a.hash.leaderMaxPriceVnd = some m →
        m < amount) := by
  by_cases hleader : a.hash.leaderId = some bidder
  · rw [(ha.leaderMaximum bidder hleader).1]
    exact ⟨fun h _ => h, fun h => h hleader⟩
  · refine ⟨fun _ hl => absurd hl hleader, fun _ previous hprevious => ?_⟩
    have := ha.others bidder previous hprevious hleader
    omega

theorem any_maximum_iff (maxima : Nat → Option Nat) (bidder : Nat) :
    ((maxima bidder).map digits).any
        (fun previous => Lua.compare (digits amount) previous ≤ 0) = true ↔
      ¬ ∀ previous, maxima bidder = some previous → previous < amount := by
  cases maxima bidder with
  | none => simp
  | some previous => simp [Lua.compare_digits_nonpos]

/-- On the texts of numbers the branch follows the proxy rule. -/
theorem bidBranch_ok {leader maximum price : Nat}
    (hled : ∀ l, a.hash.leaderId = some l → ∃ m, a.hash.leaderMaxPriceVnd = some m)
    (hamount : amount ≤ maxBigint)
    (henough : a.hash.currentPriceVnd + a.hash.stepPriceVnd ≤ amount)
    (hincreased : ∀ previous, a.sets.maxima bidder = some previous → previous < amount)
    (hproxy : Script.proxyBid a.hash bidder amount = (some leader, some maximum, price)) :
    Lua.bidBranch (a.bidLocals bidder (digits amount)) =
      .ok (digits leader, digits maximum, digits price) := by
  unfold Lua.bidBranch Auction.bidLocals
  simp only [Lua.trim_digits, Lua.add_digits, Lua.compare_digits_pos, Lua.compare_digits_neg]
  rw [if_neg (by omega), if_neg (by omega),
    if_neg (by rw [any_maximum_iff]; exact not_not.mpr hincreased)]
  have hcases := Script.proxyBid_cases a.hash bidder amount
  generalize Script.proxyBid a.hash bidder amount = next at hproxy hcases
  cases hcases with
  | first hl =>
    cases hproxy
    rw [hl]
    rfl
  | raised hl =>
    cases hproxy
    simp [hl]
  | outbid hl hne hle =>
    obtain ⟨m, hm⟩ := hled _ hl
    rw [hm] at hproxy hle
    cases hproxy
    rw [Option.getD_some] at hle
    simp [hl, hm, hne, hle, Lua.compare_digits_nonpos, Lua.minimum_digits]
  | overtakes hl hne hlt =>
    obtain ⟨m, hm⟩ := hled _ hl
    rw [hm] at hproxy hlt
    cases hproxy
    rw [Option.getD_some] at hlt
    simp [hl, hm, hne, Nat.not_le.mpr hlt, Lua.compare_digits_nonpos, Lua.minimum_digits,
      Lua.add_digits]

theorem bidBranch_error
    (h : ¬ (a.hash.currentPriceVnd + a.hash.stepPriceVnd ≤ amount ∧
      ∀ previous, a.sets.maxima bidder = some previous → previous < amount)) :
    ∃ rejection, Lua.bidBranch (a.bidLocals bidder (digits amount)) = .error rejection := by
  unfold Lua.bidBranch Auction.bidLocals
  simp only [Lua.trim_digits, Lua.add_digits, Lua.compare_digits_pos, Lua.compare_digits_neg]
  split
  · exact ⟨_, rfl⟩
  split
  · exact ⟨_, rfl⟩
  rename_i hlow
  rw [if_pos ((any_maximum_iff _ _).mpr fun hraised => h ⟨by omega, hraised⟩)]
  exact ⟨_, rfl⟩

/-- The policy of the PostgreSQL engine finds the same price and owner. -/
theorem calculateProxyBid_eq {leader maximum price : Nat} (auction : Postgres.AuctionState)
    (hprice : auction.currentPrice = h.currentPriceVnd) (hstep : auction.stepPrice = h.stepPriceVnd)
    (hproxy : Script.proxyBid h bidder amount = (some leader, some maximum, price)) :
    let result := Postgres.calculateProxyBid auction ⟨bidder, amount⟩
      (h.leaderId.map fun leader => ⟨leader, h.leaderMaxPriceVnd.getD 0⟩)
    price = result.currentPrice ∧ leader = result.priceOwnerId := by
  have hcases := Script.proxyBid_cases h bidder amount
  generalize Script.proxyBid h bidder amount = next at hproxy hcases
  unfold Postgres.calculateProxyBid
  rw [hprice, hstep]
  cases hcases with
  | first hl =>
    cases hproxy
    simp [hl]
  | raised hl =>
    cases hproxy
    simp [hl]
  | outbid hl hne hle =>
    obtain ⟨rfl, -, rfl⟩ : _ = leader ∧ _ ∧ _ = price := by simpa using hproxy
    simp [hl, hne, hle]
  | overtakes hl hne hlt =>
    obtain ⟨rfl, -, rfl⟩ : _ = leader ∧ _ ∧ _ = price := by simpa using hproxy
    simp [hl, hne, Nat.not_le.mpr hlt]

/-- Price and maximum stay below the larger of the two maxima. -/
theorem proxyBid_le {leader maximum price bound : Nat}
    (hled : ∀ l m, h.leaderId = some l → h.leaderMaxPriceVnd = some m → m ≤ bound)
    (henough : h.currentPriceVnd + h.stepPriceVnd ≤ amount) (hamount : amount ≤ bound)
    (hproxy : Script.proxyBid h bidder amount = (some leader, some maximum, price)) :
    price ≤ bound ∧ maximum ≤ bound := by
  have hcases := Script.proxyBid_cases h bidder amount
  generalize Script.proxyBid h bidder amount = next at hproxy hcases
  cases hcases with
  | first hl =>
    cases hproxy
    omega
  | raised hl =>
    cases hproxy
    omega
  | outbid hl hne hle =>
    obtain ⟨-, hm, rfl⟩ : _ ∧ _ ∧ _ = price := by simpa using hproxy
    have := hled _ maximum hl hm
    rw [hm, Option.getD_some]
    omega
  | overtakes hl hne hlt =>
    cases hproxy
    omega

end

/-- The branch on texts, the script and both models of the domain make one decision. -/
theorem bid_matches_reference {k : AuctionKeys} {a : Auction} {req : Request} {amountVnd : Text}
    {amount : MoneyVnd} (hk : k.auction = some a) (ha : AuthorityInvariant a)
    (hstep : 1 ≤ a.hash.stepPriceVnd) (hop : req.operation = .bid) (hbidder : Bidder a req)
    (hintact : a.hash.Intact req.productId) (hfence : Script.fenceCheck k = none)
    (hfresh : Script.replay req k = none) (hrate : k.rate req.actor < req.rateLimit)
    (hparse : parseMoneyVnd amountVnd = .ok amount) (hamount : req.amountVnd = some amount) :
    Lua.Lossless ∧ MatchesReference k a req amountVnd
      (decideLuaReferenceBid a.hash.reference req.actor amount.val) := by
  obtain rfl : amountVnd = digits amount.val := parseMoneyVnd_ok hparse
  have hreq : req.amount = amount.val := by simp [Request.amount, hamount]
  rw [← hreq]
  have hled : ∀ l, a.hash.leaderId = some l → ∃ m, a.hash.leaderMaxPriceVnd = some m := by
    intro l hl
    obtain ⟨-, m, hm, -⟩ := ha.leaderMaximum l hl
    exact ⟨m, hm⟩
  have hceiling : ∀ l m, a.hash.leaderId = some l → a.hash.leaderMaxPriceVnd = some m →
      m ≤ maxVnd := by
    intro l m hl hm
    obtain ⟨-, m', hm', -, -, hbound⟩ := ha.leaderMaximum l hl
    cases hm.symm.trans hm'
    exact hbound
  have hdecided : ∀ d, Script.operate a req = .ok d → Meets a.hash req.actor req.amount := by
    intro d hd
    cases Script.operate_ok hd with
    | bid _ _ _ henough hincreased =>
      exact ⟨henough, (raises_iff ha hstep henough).mp hincreased⟩
    | buyNow hbuy => simp [hop] at hbuy
    | ban hban => simp [hop] at hban
    | close hclose => simp [hop] at hclose
    | cancel hcancel => simp [hop] at hcancel
  refine ⟨Lua.lossless, ?_⟩
  by_cases hmeets : Meets a.hash req.actor req.amount
  · have hincreased := (raises_iff ha hstep hmeets.enough).mpr hmeets.raised
    obtain ⟨leader, maximum, price, hreference, hproxy⟩ := decideLuaReferenceBid_ok hled hmeets
    obtain ⟨d, hd⟩ := Script.operate_bid hop hbidder hmeets.enough hincreased
    have haccepts : Accepts k req a d :=
      ⟨⟨integrityCheck_eq_none.mpr hintact, hd⟩, hk, hfence, hfresh,
        fun hthrottled => Nat.not_le.mpr hrate hthrottled.2⟩
    rw [hreference]
    refine ⟨iff_of_true ⟨_, congrArg Prod.fst haccepts.mutateScript_eq⟩ ⟨_, rfl⟩,
      ?_, ?_, ?_⟩
    · rintro r ⟨⟩
      have hwritten : (mutateScript req k).2.auction = some (Script.write a req d) := by
        rw [haccepts.mutateScript_eq]
        rfl
      refine ⟨_, hwritten, ?_⟩
      have hbounds := proxyBid_le hceiling hmeets.enough req.amount_le hproxy
      cases Script.operate_ok hd with
      | bid =>
        simp only [Script.write, Script.update_bid hop, hproxy]
        refine ⟨rfl, rfl, rfl, fun auction hprice hauction => ?_,
          Int.ofNat_le.mpr hbounds.1, Int.ofNat_le.mpr hbounds.2⟩
        obtain ⟨hcurrent, howner⟩ := calculateProxyBid_eq auction hprice hauction hproxy
        exact ⟨hcurrent, congrArg some howner⟩
      | buyNow hbuy => simp [hop] at hbuy
      | ban hban => simp [hop] at hban
      | close hclose => simp [hop] at hclose
      | cancel hcancel => simp [hop] at hcancel
    · rintro r ⟨⟩
      exact bidBranch_ok hled req.amount_le hmeets.enough hincreased hproxy
    · rintro code ⟨⟩
  · have hthrows : ∀ r, decideLuaReferenceBid a.hash.reference req.actor req.amount ≠ .ok r :=
      fun r hr => hmeets (meets_of_reference hr)
    refine ⟨iff_of_false ?_ ?_, fun r hr => absurd hr (hthrows r),
      fun r hr => absurd hr (hthrows r), fun code _ => bidBranch_error ?_⟩
    · rintro ⟨data, hdata⟩
      obtain ⟨b, d, hb⟩ := accepts_of_success hfresh hdata
      cases hk.symm.trans hb.loaded
      exact hmeets (hdecided d hb.decided)
    · rintro ⟨r, hr⟩
      exact hthrows r hr
    · rintro ⟨henough, hincreased⟩
      exact hmeets ⟨henough, (raises_iff ha hstep henough).mp hincreased⟩

namespace Sample

/-- Bidder 2 leads with a maximum of 250. -/
def led : Option Auction := (request (call 1 .bid 2 (some "250"))).bind (Script.next auction)

/-- Bidder 3 bids too little to lead. -/
def short : Option Request := request (call 2 .bid 3 (some "200"))

theorem invariant_led {a : Auction} (ha : led = some a) (hsold : a.hash.status ≠ .sold) :
    AuthorityInvariant a := by
  obtain ⟨req, hreq, hnext⟩ := Option.bind_eq_some_iff.mp ha
  have hexact : ∀ req ∈ request (call 1 .bid 2 (some "250")),
      Script.KeepsExactEnd auction req := by
    decide +kernel
  have hrun : Run (Guarded Script.KeepsExactEnd AuctionStep) auction [req] a :=
    .cons ⟨hexact req hreq, hnext⟩ (.refl a)
  exact (authorityState_run hrun (fresh (.plain 1000)).state hsold).invariant

end Sample

theorem bid_matches_reference_sample :
    ∃ a req, Sample.led = some a ∧ Sample.short = some req ∧ a.hash.leaderId = some 2 ∧
      Lua.Lossless ∧ MatchesReference (Sample.keys a) a req (digits 200)
        (.ok ⟨210, 2, 250⟩) := by
  obtain ⟨a, ha⟩ := Option.isSome_iff_exists.mp (by decide +kernel : Sample.led.isSome = true)
  obtain ⟨req, hreq⟩ :=
    Option.isSome_iff_exists.mp (by decide +kernel : Sample.short.isSome = true)
  have hhash : ∀ a ∈ Sample.led, a.hash.status = .active ∧ a.hash.leaderId = some 2 ∧
      1 ≤ a.hash.stepPriceVnd ∧ ∀ req ∈ Sample.short, req.operation = .bid ∧
        a.hash.Intact req.productId ∧ 0 < req.rateLimit ∧
          req.amountVnd = some ⟨200, by decide⟩ ∧
        a.hash.effectiveStatus req.now = .active ∧ a.hash.startAt ≤ req.now ∧
        req.now < a.hash.endAt ∧ req.actor ≠ a.hash.sellerId ∧ req.actor ∉ a.sets.bans := by
    decide +kernel
  have hreference : ∀ a ∈ Sample.led, ∀ req ∈ Sample.short,
      (decideLuaReferenceBid a.hash.reference req.actor 200).toOption = some ⟨210, 2, 250⟩ := by
    decide +kernel
  obtain ⟨hstatus, hleader, hstep, hrequest⟩ := hhash a ha
  obtain ⟨hop, hintact, hrate, hamount, hactive, hstart, hend, hseller, hban⟩ :=
    hrequest req hreq
  have hparse : parseMoneyVnd (digits 200) = .ok ⟨200, by decide⟩ := by rfl
  have hmatches := bid_matches_reference (k := Sample.keys a) rfl
    (Sample.invariant_led ha (by simp [hstatus])) hstep hop
      ⟨hactive, hstart, hend, hseller, hban⟩
    hintact rfl rfl hrate hparse hamount
  have hdecision := hreference a ha req hreq
  refine ⟨a, req, ha, hreq, hleader, hmatches.1, ?_⟩
  cases hr : decideLuaReferenceBid a.hash.reference req.actor 200 with
  | error code => simp [hr, Except.toOption] at hdecision
  | ok r =>
    obtain rfl : r = ⟨210, 2, 250⟩ := by simpa [hr, Except.toOption] using hdecision
    rw [← hr]
    exact hmatches.2

end MiracleAuction
