import MiracleAuction.Authority.Invariant

/-!
# Price and deadline

Between bans the price of an auction and its end time only grow, except where
`BUY_NOW` overwrites a price that the bids have already passed.
-/
namespace MiracleAuction
open Decimal

/-- The anti-sniping extension never shortens an auction. -/
theorem StateHash.le_bidEnd (h : StateHash) (nowMs : Int) : h.endAt ≤ h.bidEnd nowMs := by
  unfold bidEnd
  split
  · rename_i hsnipes
    calc h.endAt = Lua.number h.endAt := (Lua.number_tonumber _).symm
      _ ≤ Lua.number (h.endAt + Lua.tonumber h.antiSnipeExtensionMs) :=
        Lua.number_mono (by have := hsnipes.2.2.1; omega)
  · exact Int.le_refl _

/-- What an accepted request other than a ban may do to price, leader and end time. -/
structure Forward (a : Auction) (req : Request) (a' : Auction) : Prop where
  price : a.hash.currentPriceVnd ≤ a'.hash.currentPriceVnd
  settled : req.operation = .close ∨ req.operation = .cancel →
    a'.hash.currentPriceVnd = a.hash.currentPriceVnd ∧ a'.hash.leaderId = a.hash.leaderId
  deadline : req.operation ≠ .buyNow → a.hash.endAt ≤ a'.hash.endAt
  soldAt : req.operation = .buyNow → a'.hash.endAt = req.now

/-- The price of an auction with a leader is within the leader's maximum. -/
def PriceLed (h : StateHash) : Prop :=
  ∀ l, h.leaderId = some l → h.currentPriceVnd ≤ h.leaderMaxPriceVnd.getD 0

theorem AuthorityInvariant.priceLed {a : Auction} (h : AuthorityInvariant a) : PriceLed a.hash := by
  intro l hl
  obtain ⟨_, m, hmax, _, hceil, _⟩ := h.leaderMaximum l hl
  simpa [hmax] using hceil

namespace Script

/-- The proxy rule never lowers the price, and never lifts it over the leader's maximum. -/
theorem Proxied.price {h : StateHash} {actorId maximum : Nat}
    {next : Option Nat × Option Nat × Nat} (hnext : Proxied h actorId maximum next)
    (hled : PriceLed h) (henough : h.currentPriceVnd + h.stepPriceVnd ≤ maximum) :
    h.currentPriceVnd ≤ next.2.2 ∧ next.2.2 ≤ next.2.1.getD 0 := by
  cases hnext with
  | first =>
    simp only [Option.getD_some]
    omega
  | raised =>
    simp only [Option.getD_some]
    omega
  | outbid hl _ hle =>
    have := hled _ hl
    dsimp only
    omega
  | overtakes hl _ hlt =>
    have := hled _ hl
    simp only [Option.getD_some]
    omega

/-- The request neither sells below the price reached nor keeps a time that is
printed with a loss. -/
def KeepsPrice (a : Auction) (req : Request) : Prop :=
  (req.operation = .buyNow →
    ∀ price ∈ a.hash.buyNowPriceVnd, a.hash.currentPriceVnd ≤ price) ∧
    Lua.Exact (keptEnd a req)

instance (a : Auction) (req : Request) : Decidable (KeepsPrice a req) := by
  unfold KeepsPrice; infer_instance

theorem write_endAt (a : Auction) (req : Request) (d : Decision) :
    (write a req d).hash.endAt = Lua.tonumber (Lua.tostring d.nextEndAtMs) := by
  simp [write, StateHash.endAt]

end Script

theorem forward_step {a a' : Auction} {req : Request} (hled : PriceLed a.hash)
    (hban : req.operation ≠ .ban) (hkeep : Script.KeepsPrice a req) (h : AuctionStep a req a') :
    Forward a req a' ∧ PriceLed a'.hash := by
  obtain ⟨d, ⟨_, hd⟩, rfl⟩ := auctionStep_iff.mp h
  have hd := Script.operate_ok hd
  obtain ⟨hbuy, hexact⟩ := hkeep
  unfold Script.keptEnd at hexact
  cases hd with
  | bid hop hb _ henough _ =>
    rw [hop] at hexact
    obtain ⟨hup, hmax⟩ := (Script.proxyBid_cases a.hash req.actor req.amount).price hled henough
    refine ⟨⟨?_, by simp [hop], fun _ => ?_, by simp [hop]⟩, fun l _ => ?_⟩
    · simpa only [Script.write, Script.update_bid hop] using hup
    · rw [Script.write_endAt]
      exact (a.hash.le_bidEnd req.now).trans (Int.le_of_eq (Eq.symm hexact))
    · simpa only [Script.write, Script.update_bid hop] using hmax
  | buyNow hop _ henabled =>
    have hupdate {d : Decision} : Script.update a req d = (a.sets, d) :=
      Script.update_of_ne (by simp [hop]) hban
    rw [hop] at hexact
    refine ⟨⟨?_, by simp [hop], by simp [hop], fun _ => ?_⟩, fun l _ => ?_⟩
    · simpa only [Script.write, hupdate] using hbuy hop _ henabled
    · rw [Script.write_endAt]
      exact hexact
    · simp [Script.write, hupdate]
  | ban hop => exact absurd hop hban
  | close hop =>
    have hupdate {d : Decision} : Script.update a req d = (a.sets, d) :=
      Script.update_of_ne (by simp [hop]) hban
    rw [hop] at hexact
    refine ⟨⟨?_, fun _ => ?_, fun _ => ?_, by simp [hop]⟩, ?_⟩
    · simp [Script.write, hupdate, Script.unchanged]
    · simp [Script.write, hupdate, Script.unchanged]
    · rw [Script.write_endAt]
      exact Int.le_of_eq (Eq.symm hexact)
    · simp only [Script.write, hupdate]
      exact hled
  | cancel hop =>
    have hupdate {d : Decision} : Script.update a req d = (a.sets, d) :=
      Script.update_of_ne (by simp [hop]) hban
    rw [hop] at hexact
    refine ⟨⟨?_, fun _ => ?_, fun _ => ?_, by simp [hop]⟩, ?_⟩
    · simp [Script.write, hupdate, Script.unchanged]
    · simp [Script.write, hupdate, Script.unchanged]
    · rw [Script.write_endAt]
      exact Int.le_of_eq (Eq.symm hexact)
    · simp only [Script.write, hupdate]
      exact hled

/-- Without bans, and without a sale below the price reached, price and end
time only move forward along a run. -/
theorem price_forward {a a' : Auction} {reqs : List Request} (ha : AuthorityInvariant a)
    (hban : ∀ req ∈ reqs, req.operation ≠ .ban)
    (hrun : Run (Guarded Script.KeepsPrice AuctionStep) a reqs a') :
    Run Forward a reqs a' ∧ a.hash.currentPriceVnd ≤ a'.hash.currentPriceVnd := by
  have hforward : Run Forward a reqs a' := by
    have hled := ha.priceLed
    clear ha
    induction hrun with
    | refl a => exact .refl a
    | cons h _ ih =>
      obtain ⟨hstep, hled'⟩ := forward_step hled (hban _ List.mem_cons_self) h.1 h.2
      exact .cons hstep (ih (fun req hreq => hban req (List.mem_cons_of_mem _ hreq)) hled')
  refine ⟨hforward, hforward.compares (R := fun a a' => a.hash.currentPriceVnd ≤
    a'.hash.currentPriceVnd) (fun _ => Nat.le_refl _) (fun _ _ _ => Nat.le_trans) ?_⟩
  exact fun _ _ _ h => h.price

namespace Sample

/-- Two bids pass the buy-now price of 300. -/
def bidding : List Request :=
  [call 1 .bid 2 (some "500"), call 2 .bid 3 (some "400")].filterMap request

def buyingNow : List Request := [call 3 .buyNow 4 (some "300")].filterMap request

end Sample

theorem price_forward_sample :
    ∃ a, Sample.bidding.foldlM Script.next Sample.auction = some a ∧
      a.hash.currentPriceVnd = 410 ∧ Run Forward Sample.auction Sample.bidding a := by
  have hsome : (Sample.bidding.foldlM (fun a req =>
      if Script.KeepsPrice a req then Script.next a req else none) Sample.auction).map
      (·.hash.currentPriceVnd) = some 410 := by decide +kernel
  obtain ⟨a, ha, hprice⟩ := Option.map_eq_some_iff.mp hsome
  have hrun : Run (Guarded Script.KeepsPrice AuctionStep) Sample.auction Sample.bidding a :=
    run_guarded_of_foldlM ha
  refine ⟨a, run_partial_iff.mp (hrun.mono fun _ _ _ h => h.2), hprice, ?_⟩
  exact (price_forward (Sample.fresh (.plain 1000)).state.invariant (by decide +kernel) hrun).1

/-- Bids of 500 and 400 lift the price to 410; then the auction is sold for 300. -/
theorem price_forward_undercut :
    ¬ ∀ (a a' : Auction) (reqs : List Request), AuthorityInvariant a →
      (∀ req ∈ reqs, req.operation ≠ .ban) → Run AuctionStep a reqs a' →
      Run Forward a reqs a' ∧ a.hash.currentPriceVnd ≤ a'.hash.currentPriceVnd := by
  intro h
  have hbids : (Sample.bidding.foldlM (fun a req =>
      if Script.KeepsExactEnd a req then Script.next a req else none) Sample.auction).map
      (fun a => (a.hash.currentPriceVnd, a.hash.status,
        (Sample.buyingNow.foldlM Script.next a).map (·.hash.currentPriceVnd))) =
      some (410, .active, some 300) := by decide +kernel
  simp only [Option.map_eq_some_iff, Prod.mk.injEq] at hbids
  obtain ⟨a, ha, hprice, hstatus, a', ha', hprice'⟩ := hbids
  have hstate : AuthorityState a := authorityState_run (run_guarded_of_foldlM ha)
    (Sample.fresh (.plain 1000)).state (by simp [hstatus])
  have := (h a a' Sample.buyingNow hstate.invariant (by decide +kernel)
    (run_partial_iff.mpr ha')).2
  omega

end MiracleAuction
