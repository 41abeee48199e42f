import MiracleAuction.Authority.Invariant

/-!
# The price that bids make

Without bans the price stays at the start until two bidders have bid. Then it is at
least the highest maximum of those who do not lead, and at most one step above it.
-/
namespace MiracleAuction
open Decimal

/-- The bidder and the maximum of an accepted bid. -/
def Request.bid (req : Request) : Nat × Nat := (req.actor, req.amount)

/-- The amounts that a bidder has bid. -/
def amountsOf (bids : List (Nat × Nat)) (u : Nat) : Set Nat := { n | (u, n) ∈ bids }

/-- The amounts that the others have bid. -/
def amountsBeside (bids : List (Nat × Nat)) (u : Nat) : Set Nat :=
  { n | ∃ v, v ≠ u ∧ (v, n) ∈ bids }

/-- The second-price rule, of the accepted bids and the auction they leave. -/
structure SecondPrice (bids : List (Nat × Nat)) (a : Auction) : Prop where
  leads : bids ≠ [] → ∃ leader n, a.hash.leaderId = some leader ∧ (leader, n) ∈ bids
  single : ∀ u, bids ≠ [] → (∀ b ∈ bids, b.1 = u) →
    a.hash.currentPriceVnd = a.hash.startPriceVnd
  bounded : ∀ leader, a.hash.leaderId = some leader →
    ∀ m, IsGreatest (amountsOf bids leader) m →
      ∀ second, IsGreatest (amountsBeside bids leader) second →
      second ≤ a.hash.currentPriceVnd ∧
        a.hash.currentPriceVnd ≤ min m (second + a.hash.stepPriceVnd)

/-- The maxima are the greatest bids, and the price is the start, or within a step of the
maximum of a competitor. -/
structure Priced (bids : List (Nat × Nat)) (a : Auction) : Prop extends Ledger a where
  maxima : ∀ u m, a.sets.maxima u = some m → IsGreatest (amountsOf bids u) m
  placed : ∀ u n, (u, n) ∈ bids → ∃ m, a.sets.maxima u = some m
  price : ∀ leader, a.hash.leaderId = some leader →
    ((∀ u m, a.sets.maxima u = some m → u = leader) ∧
        a.hash.currentPriceVnd = a.hash.startPriceVnd) ∨
      ∃ u m, u ≠ leader ∧ a.sets.maxima u = some m ∧
        a.hash.currentPriceVnd ≤ m + a.hash.stepPriceVnd

section
variable {bids : List (Nat × Nat)} {a a' : Auction} {req : Request} {u m : Nat}

/-- What the invariant says of the bids. -/
theorem Priced.secondPrice (h : Priced bids a) : SecondPrice bids a := by
  have hleads : bids ≠ [] → ∃ leader, a.hash.leaderId = some leader := by
    intro hne
    obtain ⟨⟨u, n⟩, hbid⟩ := List.exists_mem_of_ne_nil bids hne
    obtain ⟨m, hm⟩ := h.placed u n hbid
    by_contra hnone
    have hleader : a.hash.leaderId = none := by
      by_contra hsome
      exact hnone (Option.ne_none_iff_exists'.mp hsome)
    have hmaxima := (h.led.nobody_of hleader).2 u
    cases hm.symm.trans hmaxima
  have hled : ∀ leader, a.hash.leaderId = some leader →
      ∃ m, IsGreatest (amountsOf bids leader) m ∧
      a.hash.currentPriceVnd ≤ m := by
    intro leader hleader
    obtain ⟨m, hm, _, hceil, _⟩ := h.led.leads hleader
    exact ⟨m, h.maxima leader m hm, hceil⟩
  refine ⟨fun hne => ?_, fun u hne hall => ?_, fun leader hleader m hm second hsecond => ?_⟩
  · obtain ⟨leader, hleader⟩ := hleads hne
    obtain ⟨m, hm, _⟩ := hled leader hleader
    exact ⟨leader, m, hleader, hm.1⟩
  · obtain ⟨leader, hleader⟩ := hleads hne
    obtain ⟨m, hm, _⟩ := hled leader hleader
    obtain ⟨-, hprice⟩ | ⟨v, n, hv, hmaximum, -⟩ := h.price leader hleader
    · exact hprice
    · have hleaderBid := hall _ hm.1
      have hother := hall _ (h.maxima v n hmaximum).1
      exact absurd (hother.trans hleaderBid.symm) hv
  · obtain ⟨m', hm', hceil⟩ := hled leader hleader
    obtain rfl := hm.unique hm'
    obtain ⟨v, hv, hbid⟩ := hsecond.1
    obtain ⟨n, hn⟩ := h.placed v second hbid
    have hfloor : second ≤ a.hash.currentPriceVnd := by
      have hle : second ≤ n := (h.maxima v n hn).2 hbid
      have hothers := h.led.others_le hn fun heq =>
        hv (Option.some.inj (hleader.symm.trans heq)).symm
      omega
    refine ⟨hfloor, le_min hceil ?_⟩
    obtain ⟨honly, -⟩ | ⟨w, p, hw, hmaximum, hprice⟩ := h.price leader hleader
    · exact absurd (honly v n hn) hv
    · have hp : p ≤ second := hsecond.2 ⟨w, hw, (h.maxima w p hmaximum).1⟩
      omega

/-- A raised maximum is the greatest bid of its bidder. -/
theorem isGreatest_concat {amount : Nat} (hbids : ∀ n, (u, n) ∈ bids → n < amount) :
    IsGreatest (amountsOf (bids ++ [(u, amount)]) u) amount := by
  refine ⟨List.mem_append_right _ List.mem_cons_self, fun n hn => ?_⟩
  obtain hn | hn := List.mem_append.mp hn
  · exact Nat.le_of_lt (hbids n hn)
  · cases List.mem_singleton.mp hn
    exact Nat.le_refl _

theorem amountsOf_concat {v amount : Nat} (hne : u ≠ v) :
    amountsOf (bids ++ [(v, amount)]) u = amountsOf bids u := by
  ext n
  simp [amountsOf, hne]

/-- Every branch of the proxy rule keeps the price within a step of a competitor. -/
theorem Priced.proxied {actor amount : Nat} (h : Priced bids a)
    {next : Option Nat × Option Nat × Nat} (hnext : Script.Proxied a.hash actor amount next) :
    ∀ leader, next.1 = some leader →
      ((∀ u m, Function.update a.sets.maxima actor (some amount) u = some m → u = leader) ∧
          next.2.2 = a.hash.startPriceVnd) ∨
        ∃ u m, u ≠ leader ∧ Function.update a.sets.maxima actor (some amount) u = some m ∧
          next.2.2 ≤ m + a.hash.stepPriceVnd := by
  have honly : ∀ l, (∀ u m, a.sets.maxima u = some m → u = l) → l = actor →
      ∀ u m, Function.update a.sets.maxima actor (some amount) u = some m → u = l := by
    intro l hl hactor u m hm
    by_cases hu : u = actor
    · exact hu.trans hactor.symm
    · rw [Function.update_of_ne hu] at hm
      exact hl u m hm
  intro leader hleader
  cases hnext with
  | first hl =>
    cases hleader
    obtain ⟨hprice, hnone⟩ := h.led.nobody_of hl
    exact .inl ⟨honly actor (fun u m hm => absurd hm (by simp [hnone u])) rfl, hprice⟩
  | raised hl =>
    cases hleader
    obtain ⟨hall, hprice⟩ | ⟨u, m, hu, hm, hprice⟩ := h.price actor hl
    · exact .inl ⟨honly actor hall rfl, hprice⟩
    · exact .inr ⟨u, m, hu, by rwa [Function.update_of_ne hu], hprice⟩
  | outbid hl hne =>
    cases hleader
    -- the bidder who was outbid is the competitor
    exact .inr ⟨actor, amount, Ne.symm hne, Function.update_self .., Nat.min_le_left _ _⟩
  | @overtakes l hl hne =>
    cases hleader
    obtain ⟨m, hm, hmax, _⟩ := h.led.leads hl
    rw [hmax]
    exact .inr ⟨l, m, hne, by rwa [Function.update_of_ne hne], Nat.min_le_left _ _⟩

/-- One accepted bid. -/
theorem priced_step (h : Priced bids a) (hop : req.operation = .bid)
    (hstep : AuctionStep a req a') :
    Priced (bids ++ [req.bid]) a' := by
  obtain ⟨d, ⟨_, hd⟩, rfl⟩ := auctionStep_iff.mp hstep
  have hd := Script.operate_ok hd
  cases hd with
  | bid _ hb _ henough hraise =>
    have hledger := h.toLedger.step hstep (by
      simp only [Script.write, Script.update_bid hop]
      change a.hash.effectiveStatus req.now ≠ .sold
      rw [hb.active]
      decide)
    have hproxied := h.proxied (Script.proxyBid_cases a.hash req.actor req.amount)
    refine ⟨hledger, ?_, ?_, ?_⟩
    · intro u m hm
      simp only [Script.write, Script.update_bid hop, Script.bidSets] at hm
      by_cases hu : u = req.actor
      · subst hu
        rw [Function.update_self] at hm
        cases hm
        refine isGreatest_concat fun n hn => ?_
        obtain ⟨previous, hprevious⟩ := h.placed _ n hn
        exact Nat.lt_of_le_of_lt ((h.maxima _ previous hprevious).2 hn) (hraise previous hprevious)
      · rw [Function.update_of_ne hu] at hm
        unfold Request.bid
        rw [amountsOf_concat hu]
        exact h.maxima u m hm
    · intro u n hn
      simp only [Script.write, Script.update_bid hop, Script.bidSets]
      by_cases hu : u = req.actor
      · subst hu
        exact ⟨_, Function.update_self ..⟩
      · rw [Function.update_of_ne hu]
        obtain hn | hn := List.mem_append.mp hn
        · exact h.placed u n hn
        · exact absurd (congrArg Prod.fst (List.mem_singleton.mp hn)) hu
    · simpa only [Script.write, Script.update_bid hop, Script.bidSets] using hproxied
  | buyNow hbuy => simp [hop] at hbuy
  | ban hban => simp [hop] at hban
  | close hclose => simp [hop] at hclose
  | cancel hcancel => simp [hop] at hcancel

theorem Fresh.priced (h : Fresh a) : Priced [] a where
  toLedger := h.state.toLedger
  maxima := by simp [h.noBids, BidSets.empty]
  placed := by simp
  price := by simp [h.leaderless]

end

/-- After every run of accepted bids on a fresh auction the leader pays the second price. -/
theorem second_price {a a' : Auction} {reqs : List Request} (hfresh : Fresh a)
    (hops : ∀ req ∈ reqs, req.operation = .bid) (hrun : Run AuctionStep a reqs a') :
    SecondPrice (reqs.map Request.bid) a' := by
  suffices h : ∀ {bids : List (Nat × Nat)} {a : Auction}, Run AuctionStep a reqs a' →
      Priced bids a →
      Priced (bids ++ reqs.map Request.bid) a' from (h hrun hfresh.priced).secondPrice
  clear hrun hfresh
  intro bids a hrun h
  induction hrun generalizing bids with
  | refl => simpa using h
  | @cons a b c req reqs hstep _ ih =>
    have hnext := priced_step h (hops req List.mem_cons_self) hstep
    have hrest := ih (fun other hother => hops other (List.mem_cons_of_mem _ hother)) hnext
    rwa [List.append_assoc, List.singleton_append] at hrest

namespace Sample

/-- Bidder 2 bids, raises, and is overtaken by bidder 3, whom bidder 4 does not reach. -/
def contest : List Request :=
  [call 1 .bid 2 (some "200"), call 2 .bid 2 (some "250"), call 3 .bid 3 (some "400"),
    call 4 .bid 4 (some "300")].filterMap request

end Sample

theorem second_price_sample :
    ∃ a, Run AuctionStep Sample.auction Sample.contest a ∧ a.hash.leaderId = some 3 ∧
      a.hash.currentPriceVnd = 310 ∧ SecondPrice (Sample.contest.map Request.bid) a := by
  have hsome : (Sample.contest.foldlM Script.next Sample.auction).map
      (fun a => (a.hash.leaderId, a.hash.currentPriceVnd)) = some (some 3, 310) := by decide +kernel
  obtain ⟨a, ha, hend⟩ := Option.map_eq_some_iff.mp hsome
  obtain ⟨hleader, hprice⟩ := Prod.mk.inj hend
  have hrun : Run AuctionStep Sample.auction Sample.contest a := run_partial_iff.mpr ha
  exact ⟨a, hrun, hleader, hprice,
    second_price (Sample.fresh (.plain 1000)) (by decide +kernel) hrun⟩

end MiracleAuction
