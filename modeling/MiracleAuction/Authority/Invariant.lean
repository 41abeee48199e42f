import MiracleAuction.Authority.Ranking

/-!
# The authority invariant

Leader, price, maxima, bans, ranking and deadline of an auction describe one
another in every state that is not sold, as long as the script prints the end
times it keeps without loss.
-/
namespace MiracleAuction
open Decimal

namespace Lua

/-- `tostring` keeps fourteen digits; an exact time is read back unchanged. -/
def Exact (x : Int) : Prop := tonumber (tostring x) = x

instance (x : Int) : Decidable (Exact x) := inferInstanceAs (Decidable (_ = _))

end Lua

/-- Leader, leader maximum and price, as the maxima determine them. -/
inductive Led (maxima : Nat → Option Nat) (start : Nat) :
    Option Nat → Option Nat → Nat → Prop
  | nobody {leaderMax : Option Nat} (hnone : ∀ u, maxima u = none) :
      Led maxima start none leaderMax start
  | bidder {leader m price : Nat} (hl : maxima leader = some m) (hfloor : start ≤ price)
      (hceil : price ≤ m) (hbound : m ≤ maxBigint)
      (others : ∀ u n, maxima u = some n → u ≠ leader → n ≤ price) :
      Led maxima start (some leader) (some m) price

/-- The sets agree and the hash follows them. -/
structure Ledger (a : Auction) : Prop where
  standings : Standings a.hash a.sets
  led : Led a.sets.maxima a.hash.startPriceVnd a.hash.leaderId a.hash.leaderMaxPriceVnd
    a.hash.currentPriceVnd

/-- The inductive invariant: the ledger is in order and the index follows the hash. -/
structure AuthorityState (a : Auction) : Prop extends Ledger a where
  indexed : a.deadline = if a.hash.status = .active then some a.hash.endAt else none

/-- What the structures of an auction say about each other. -/
structure AuthorityInvariant (a : Auction) : Prop where
  leaderless : a.hash.leaderId = none ↔ ∀ u, a.sets.maxima u = none
  opening : a.hash.leaderId = none → a.hash.currentPriceVnd = a.hash.startPriceVnd
  leaderMaximum : ∀ l, a.hash.leaderId = some l →
    a.hash.leaderMaxPriceVnd = a.sets.maxima l ∧
      ∃ m, a.hash.leaderMaxPriceVnd = some m ∧
        a.hash.startPriceVnd ≤ a.hash.currentPriceVnd ∧
        a.hash.currentPriceVnd ≤ m ∧ m ≤ maxBigint
  others : ∀ u m, a.sets.maxima u = some m → a.hash.leaderId ≠ some u →
    m ≤ a.hash.currentPriceVnd
  excluded : ∀ u, u ∈ a.sets.bans ∨ u = a.hash.sellerId →
    a.sets.maxima u = none ∧ a.hash.leaderId ≠ some u
  rankMembers : ∀ u, a.sets.rankMembers u = (a.sets.maxima u).map (Money.rankMember · u)
  ranking : ∀ x, x ∈ a.sets.ranking ↔ ∃ u m, a.sets.maxima u = some m ∧
    x = Money.rankMember m u
  deadline : a.deadline = if a.hash.status = .active then some a.hash.endAt else none

namespace Led
variable {maxima : Nat → Option Nat} {start price : Nat} {leader leaderMax : Option Nat}

theorem floor (h : Led maxima start leader leaderMax price) : start ≤ price := by
  cases h with
  | nobody => exact Nat.le_refl _
  | bidder _ hfloor => exact hfloor

theorem nobody_of (h : Led maxima start leader leaderMax price) (hl : leader = none) :
    price = start ∧ ∀ u, maxima u = none := by
  cases h with
  | nobody hnone => exact ⟨rfl, hnone⟩
  | bidder => cases hl

theorem others_le (h : Led maxima start leader leaderMax price) {u n : Nat}
    (hu : maxima u = some n) (hne : leader ≠ some u) : n ≤ price := by
  cases h with
  | nobody hnone => simp [hnone u] at hu
  | bidder _ _ _ _ others => exact others u n hu fun heq => hne (congrArg some heq.symm)

theorem leads (h : Led maxima start leader leaderMax price) {u : Nat} (hu : leader = some u) :
    ∃ m, maxima u = some m ∧ leaderMax = some m ∧ price ≤ m ∧ m ≤ maxBigint := by
  cases h with
  | nobody => cases hu
  | bidder hl _ hceil hbound =>
    cases hu
    exact ⟨_, hl, rfl, hceil, hbound⟩

/-- A new maximum for a bidder, and the price and leader of the proxy rule. -/
theorem bid {h : StateHash} {actor amount : Nat} {next : Option Nat × Option Nat × Nat}
    (hled : Led maxima h.startPriceVnd h.leaderId h.leaderMaxPriceVnd h.currentPriceVnd)
    (henough : h.currentPriceVnd + h.stepPriceVnd ≤ amount) (hamount : amount ≤ maxBigint)
    (hnext : Script.Proxied h actor amount next) :
    Led (Function.update maxima actor (some amount)) h.startPriceVnd next.1 next.2.1 next.2.2 := by
  have hothers : ∀ u n, Function.update maxima actor (some amount) u = some n → u ≠ actor →
      maxima u = some n := by
    intro u n hu hne
    rwa [Function.update_of_ne hne] at hu
  have hfloor := hled.floor
  generalize hleader : h.leaderId = leader at hled
  generalize hmax : h.leaderMaxPriceVnd = leaderMax at hled
  generalize hprice : h.currentPriceVnd = price at *
  cases hnext with
  | first hl =>
    rw [hleader] at hl
    subst hl
    rw [hprice]
    dsimp only
    cases hled with
    | nobody hnone =>
      refine .bidder (by simp) (Nat.le_refl _) (by omega) hamount fun u n hu hne => ?_
      have := hothers u n hu hne
      simp [hnone u] at this
  | raised hl =>
    rw [hleader] at hl
    subst hl
    rw [hprice]
    dsimp only
    cases hled with
    | bidder _ _ _ _ others =>
      refine .bidder (by simp) hfloor (by omega) hamount fun u n hu hne => ?_
      exact others u n (hothers u n hu hne) hne
  | @outbid l hl hne hle =>
    rw [hleader] at hl
    subst hl
    rw [hmax] at hle ⊢
    cases hled with
    | @bidder _ m _ hl _ hceil hbound others =>
      simp only [Option.getD_some] at hle ⊢
      refine .bidder (by rwa [Function.update_of_ne hne]) (by omega) (by omega) hbound ?_
      intro u n hu hul
      by_cases hua : u = actor
      · subst u
        simp only [Function.update_self, Option.some.injEq] at hu
        omega
      · have := others u n (hothers u n hu hua) hul
        omega
  | @overtakes l hl hne hlt =>
    rw [hleader] at hl
    subst hl
    rw [hmax] at hlt ⊢
    cases hled with
    | @bidder _ m _ hl _ hceil hbound others =>
      simp only [Option.getD_some] at hlt ⊢
      refine .bidder (by simp) (by omega) (by omega) hamount ?_
      intro u n hu hua
      have hu := hothers u n hu hua
      by_cases hul : u = l
      · subst u
        rw [hl] at hu
        cases hu
        omega
      · have := others u n hu hul
        omega

/-- A ban of somebody else leaves the leader in place. -/
theorem ban_other {target : Nat} (h : Led maxima start leader leaderMax price)
    (hne : leader ≠ some target) :
    Led (Function.update maxima target none) start leader leaderMax price := by
  have hothers : ∀ u n, Function.update maxima target none u = some n → maxima u = some n := by
    intro u n hu
    by_cases hut : u = target
    · subst u; simp at hu
    · rwa [Function.update_of_ne hut] at hu
  cases h with
  | nobody hnone =>
    refine .nobody fun u => ?_
    by_cases hut : u = target
    · subst u; simp
    · rw [Function.update_of_ne hut, hnone]
  | @bidder l m price hl hfloor hceil hbound others =>
    have hlt : l ≠ target := fun heq => hne (congrArg some heq)
    exact .bidder (by rwa [Function.update_of_ne hlt]) hfloor hceil hbound
      fun u n hu => others u n (hothers u n hu)

end Led

/-- The re-election reads leader, maximum and price off the ranking. -/
theorem reelect_led {h : StateHash} {s : BidSets} (hs : Standings h s) (d : Decision) :
    Led s.maxima h.startPriceVnd (Script.reelect h s.ranking d).nextLeaderId
      (Script.reelect h s.ranking d).nextLeaderMax (Script.reelect h s.ranking d).nextPrice := by
  have hbound : ∀ u m, s.maxima u = some m → m < 10 ^ 19 := fun u m hu =>
    Money.lt_of_le_maxVnd (hs.ceiling u m hu)
  have htop := hs.top
  unfold Script.reelect
  generalize s.ranking.greatest 2 = members at htop ⊢
  cases htop with
  | none hnone => exact .nobody hnone
  | one hu only =>
    simp only [Money.rankedBidder_rankMember (hbound _ _ hu),
      Money.rankedMaximum_rankMember (hbound _ _ hu)]
    exact .bidder hu (Nat.le_refl _) (hs.floor _ _ hu) (hs.ceiling _ _ hu)
      fun w p hw hne => absurd (only w p hw) hne
  | two hu hv hne hlt rest =>
    simp only [Money.rankedBidder_rankMember (hbound _ _ hu),
      Money.rankedMaximum_rankMember (hbound _ _ hu),
      Money.rankedMaximum_rankMember (hbound _ _ hv), Money.add_eq, Money.minimum_eq]
    have hfloor := hs.floor _ _ hu
    have hsecond := hs.floor _ _ hv
    refine .bidder hu (by omega) (by omega) (hs.ceiling _ _ hu) fun w p hw hwu => ?_
    have := rest w p hw hwu
    omega

namespace Script

/-- The end time that an accepted request leaves, before it is printed. -/
def keptEnd (a : Auction) (req : Request) : Int :=
  match req.operation with
  | .bid => a.hash.bidEnd req.now
  | .buyNow => req.now
  | _ => a.hash.endAt

/-- A bid or ban of an active auction keeps an exact end time. -/
def KeepsExactEnd (a : Auction) (req : Request) : Prop :=
  a.hash.effectiveStatus req.now = .active → req.operation = .bid ∨ req.operation = .ban →
    Lua.Exact (keptEnd a req)

instance (a : Auction) (req : Request) : Decidable (KeepsExactEnd a req) := by
  unfold KeepsExactEnd; infer_instance

/-- The index and the hash agree when the end time is printed without loss. -/
theorem indexed_write {a : Auction} {req : Request} {d : Decision}
    (hexact : d.nextStatus = .active → Lua.Exact d.nextEndAtMs) :
    (write a req d).deadline =
      if (write a req d).hash.status = .active then some (write a req d).hash.endAt
      else none := by
  simp only [Script.write, update_nextStatus, update_nextEndAtMs, StateHash.endAt]
  split
  · rename_i hactive
    rw [hexact hactive]
  · rfl

end Script

namespace AuthorityState
variable {a a' : Auction} {req : Request}

/-- The clauses of the invariant follow from its inductive form. -/
theorem invariant (h : AuthorityState a) : AuthorityInvariant a := by
  have hexcluded : ∀ u, a.sets.maxima u = none → a.hash.leaderId ≠ some u := by
    intro u hu hl
    obtain ⟨m, hm, _⟩ := h.led.leads hl
    simp [hu] at hm
  constructor
  · constructor
    · exact fun hl => (h.led.nobody_of hl).2
    · intro hnone
      by_contra hne
      obtain ⟨l, hl⟩ := Option.ne_none_iff_exists'.mp hne
      exact hexcluded l (hnone l) hl
  · exact fun hl => (h.led.nobody_of hl).1
  · intro l hl
    obtain ⟨m, hm, hmax, hceil, hbound⟩ := h.led.leads hl
    exact ⟨hmax.trans hm.symm, m, hmax, h.led.floor, hceil, hbound⟩
  · exact fun u m => h.led.others_le
  · rintro u (hu | rfl)
    · exact ⟨h.standings.banned u hu, hexcluded u (h.standings.banned u hu)⟩
    · exact ⟨h.standings.seller, hexcluded _ h.standings.seller⟩
  · exact h.standings.rankMembers
  · exact h.standings.ranking
  · exact h.indexed

end AuthorityState

/-- Every accepted request that does not sell the auction leaves the ledger in order. -/
theorem Ledger.step {a a' : Auction} {req : Request} (ha : Ledger a) (h : AuctionStep a req a')
    (hsold : a'.hash.status ≠ .sold) : Ledger a' := by
  have hstandings := standings_step ha.standings ha.led.floor h
  obtain ⟨d, ⟨_, hd⟩, rfl⟩ := auctionStep_iff.mp h
  have hd := Script.operate_ok hd
  cases hd with
  | bid hop hb _ henough _ =>
    refine ⟨hstandings, ?_⟩
    simp only [Script.write, Script.update_bid hop]
    exact ha.led.bid henough req.amount_le (Script.proxyBid_cases _ _ _)
  | buyNow hop => simp [Script.write] at hsold
  | ban hop _ _ hnamed _ _ =>
    refine ⟨hstandings, ?_⟩
    simp only [Script.write, Script.update_ban hop hnamed] at hstandings ⊢
    split
    · exact reelect_led (hstandings.congr rfl rfl) _
    · rename_i hne
      exact ha.led.ban_other hne
  | close hop =>
    refine ⟨hstandings, ?_⟩
    simp only [Script.write, Script.update_of_ne (show req.operation ≠ .bid by simp [hop])
      (show req.operation ≠ .ban by simp [hop])]
    exact ha.led
  | cancel hop =>
    refine ⟨hstandings, ?_⟩
    simp only [Script.write, Script.update_of_ne (show req.operation ≠ .bid by simp [hop])
      (show req.operation ≠ .ban by simp [hop])]
    exact ha.led

/-- If the end time is exact, the index follows the hash after the step. -/
theorem indexed_step {a a' : Auction} {req : Request} (hend : Script.KeepsExactEnd a req)
    (h : AuctionStep a req a') :
    a'.deadline = if a'.hash.status = .active then some a'.hash.endAt else none := by
  obtain ⟨d, ⟨_, hd⟩, rfl⟩ := auctionStep_iff.mp h
  refine Script.indexed_write fun hactive => ?_
  have hd := Script.operate_ok hd
  cases hd with
  | bid hop hb =>
    have hexact := hend hb.active (.inl hop)
    simp only [Script.keptEnd, hop] at hexact
    exact hexact
  | ban hop hban =>
    have hexact := hend hban (.inr hop)
    simp only [Script.keptEnd, hop] at hexact
    exact hexact
  | buyNow => cases hactive
  | close => cases hactive
  | cancel => cases hactive

theorem AuthorityState.step {a a' : Auction} {req : Request} (ha : AuthorityState a)
    (hend : Script.KeepsExactEnd a req) (h : AuctionStep a req a')
    (hsold : a'.hash.status ≠ .sold) : AuthorityState a' :=
  ⟨ha.toLedger.step h hsold, indexed_step hend h⟩

/-- An auction as it is loaded before the first bid. -/
structure Fresh (a : Auction) : Prop where
  noBids : a.sets = .empty
  leaderless : a.hash.leaderId = none
  opening : a.hash.currentPriceVnd = a.hash.startPriceVnd
  startPrice : 1 ≤ a.hash.startPriceVnd ∧ a.hash.startPriceVnd ≤ maxBigint
  stepPrice : 1 ≤ a.hash.stepPriceVnd
  indexed : a.deadline = if a.hash.status = .active then some a.hash.endAt else none

theorem Fresh.state {a : Auction} (h : Fresh a) : AuthorityState a where
  standings := by rw [h.noBids]; exact .empty _
  led := by
    rw [h.noBids, h.leaderless, h.opening]
    exact .nobody fun _ => rfl
  indexed := h.indexed

/-- Nothing is accepted once an auction is sold. -/
theorem not_sold_of_step {a a' : Auction} {req : Request} (h : AuctionStep a req a') :
    a.hash.status ≠ .sold := by
  obtain ⟨d, hd, _⟩ := auctionStep_iff.mp h
  rcases (Script.operate_ok hd.decided).standing with h | h <;> simp [h]

/-- The inductive invariant holds along runs, until the auction is sold. -/
theorem authorityState_run {a a' : Auction} {reqs : List Request}
    (hrun : Run (Guarded Script.KeepsExactEnd AuctionStep) a reqs a') (ha : AuthorityState a) :
    a'.hash.status ≠ .sold → AuthorityState a' := by
  refine hrun.preserves (I := fun a => a.hash.status ≠ .sold → AuthorityState a) ?_ fun _ => ha
  rintro a req a' ⟨hend, h⟩ hI hsold
  exact (hI (not_sold_of_step h)).step hend h hsold

/-- The invariant holds in every state that is not sold, along every run whose
steps keep exact end times. -/
theorem authority_invariant {k k' : AuctionKeys} {a a' : Auction} {xs : List Action}
    (hk : k.auction = some a) (hfresh : Fresh a)
    (hrun : Run (Guarded (Action.Ensures Script.KeepsExactEnd) (Does Action.apply)) k xs k')
    (hk' : k'.auction = some a') (hsold : a'.hash.status ≠ .sold) : AuthorityInvariant a' := by
  obtain ⟨_, reqs, hk₀, hreqs, _⟩ := authorityRun_refines hrun hk'
  cases hk.symm.trans hk₀
  exact (authorityState_run hreqs hfresh.state hsold).invariant

theorem Sample.fresh (endAtMs : Numeral) : Fresh (Sample.auction endAtMs) where
  noBids := rfl
  leaderless := rfl
  opening := rfl
  startPrice := ⟨show 1 ≤ 100 by decide, show 100 ≤ maxBigint by decide⟩
  stepPrice := show 1 ≤ 10 by decide
  indexed := rfl

/-- Two bids and a ban of the leader. -/
theorem authority_invariant_sample :
    ∃ a, (Sample.handOver.foldl Action.apply (Sample.keys Sample.auction)).auction = some a ∧
      a.hash.leaderId = some 2 ∧ AuthorityInvariant a := by
  obtain ⟨a, ha⟩ := Option.isSome_iff_exists.mp (by decide +kernel :
    (Sample.handOver.foldl Action.apply (Sample.keys Sample.auction)).auction.isSome = true)
  have hleader : (Sample.handOver.foldl Action.apply (Sample.keys Sample.auction)).auction.map
      (fun a => (a.hash.leaderId, a.hash.status)) = some (some 2, .active) := by decide +kernel
  simp only [ha, Option.map_some, Option.some.injEq, Prod.mk.injEq] at hleader
  have hrun : Run (Guarded (Action.Ensures Script.KeepsExactEnd) (Does Action.apply))
      (Sample.keys Sample.auction) Sample.handOver
        (Sample.handOver.foldl Action.apply (Sample.keys Sample.auction)) :=
    .cons ⟨by decide +kernel, rfl⟩ (.cons ⟨by decide +kernel, rfl⟩
      (.cons ⟨by decide +kernel, rfl⟩ (.refl _)))
  exact ⟨a, ha, hleader.1,
    authority_invariant rfl (Sample.fresh (.plain 1000)) hrun ha (by simp [hleader.2])⟩

/-- In the year 5138 a bid rounds the end time of the hash, not that of the index. -/
theorem authority_invariant_late :
    ¬ ∀ (k k' : AuctionKeys) (a a' : Auction) (xs : List Action), k.auction = some a →
      Fresh a →
      AuthorityRun k xs k' → k'.auction = some a' → a'.hash.status ≠ .sold →
      AuthorityInvariant a' := by
  intro h
  have hlate : ((Action.call (Sample.call 1 .bid 2 (some "200"))).apply
      (Sample.keys (Sample.auction (.plain 100000000000001)))).auction.map
      (fun a => (a.hash.status, a.hash.endAt, a.deadline)) =
      some (.active, 100000000000000, some 100000000000001) := by decide +kernel
  simp only [Option.map_eq_some_iff, Prod.mk.injEq] at hlate
  obtain ⟨a, ha, hstatus, hend, hdeadline⟩ := hlate
  have hindexed := (h _ _ (Sample.auction _) a _ rfl (Sample.fresh _) (.cons rfl (.refl _)) ha
    (by simp [hstatus])).deadline
  simp [hstatus, hend, hdeadline] at hindexed

end MiracleAuction
