import MiracleAuction.Authority.Transition

/-!
# The ranking

The maxima of an auction are kept three times: in the hash `maxima`, as members
in `rank-members`, and in the sorted set `ranking`. `Standings` says that the
three agree, whom they leave out, and within which bounds they lie.
-/
namespace MiracleAuction
open Decimal

/-- The three copies of the maxima agree. -/
structure Ranked (s : BidSets) : Prop where
  rankMembers : ∀ u, s.rankMembers u = (s.maxima u).map (Money.rankMember · u)
  ranking : ∀ x, x ∈ s.ranking ↔ ∃ u m, s.maxima u = some m ∧ x = Money.rankMember m u
  ceiling : ∀ u m, s.maxima u = some m → m ≤ maxVnd

/-- The sets of an auction agree with each other and with its hash. -/
structure Standings (h : StateHash) (s : BidSets) : Prop extends Ranked s where
  banned : ∀ u ∈ s.bans, s.maxima u = none
  seller : s.maxima h.sellerId = none
  floor : ∀ u m, s.maxima u = some m → h.startPriceVnd ≤ m
  bidders : ∀ u m, s.maxima u = some m → u < 2 ^ 31

/-- The two greatest members of the ranking, as bidders and maxima. -/
inductive TopMaxima (maxima : Nat → Option Nat) : List Text → Prop
  | none (h : ∀ u, maxima u = none) : TopMaxima maxima []
  | one {u m : Nat} (hu : maxima u = some m) (only : ∀ w p, maxima w = some p → w = u) :
      TopMaxima maxima [Money.rankMember m u]
  | two {u v m n : Nat} (hu : maxima u = some m) (hv : maxima v = some n) (hne : v ≠ u)
      (hlt : n < m ∨ n = m ∧ v < u)
      (rest : ∀ w p, maxima w = some p → w ≠ u → p < n ∨ p = n ∧ w ≤ v) :
      TopMaxima maxima [Money.rankMember m u, Money.rankMember n v]

namespace Money
variable {a b m n : Nat}

theorem lt_of_le_maxVnd (h : a ≤ maxVnd) : a < 10 ^ 19 := Nat.lt_of_le_of_lt h (by decide)

theorem rankMember_inj (ha : a ≤ maxVnd) (hm : m ≤ maxVnd) :
    rankMember a b = rankMember m n ↔ a = m ∧ b = n := by
  constructor
  · intro h
    constructor
    · have := congrArg rankedMaximum h
      rwa [rankedMaximum_rankMember (lt_of_le_maxVnd ha),
        rankedMaximum_rankMember (lt_of_le_maxVnd hm)] at this
    · have := congrArg rankedBidder h
      rwa [rankedBidder_rankMember (lt_of_le_maxVnd ha),
        rankedBidder_rankMember (lt_of_le_maxVnd hm)] at this
  · rintro ⟨rfl, rfl⟩
    rfl

end Money

section Updates
variable {s : BidSets} {u w target amount p : Nat}

theorem update_some_cases (h : Function.update s.maxima u (some amount) w = some p) :
    w = u ∧ p = amount ∨ w ≠ u ∧ s.maxima w = some p := by
  by_cases hwu : w = u
  · subst w
    simp only [Function.update_self, Option.some.injEq] at h
    exact .inl ⟨rfl, h.symm⟩
  · rw [Function.update_of_ne hwu] at h
    exact .inr ⟨hwu, h⟩

theorem update_none_cases (h : Function.update s.maxima target none w = some p) :
    w ≠ target ∧ s.maxima w = some p := by
  by_cases hwt : w = target
  · subst w; simp at h
  · rw [Function.update_of_ne hwt] at h
    exact ⟨hwt, h⟩

theorem update_none_of_none (h : s.maxima w = none) :
    Function.update s.maxima target none w = none := by
  by_cases hwt : w = target
  · subst w; simp
  · rwa [Function.update_of_ne hwt]

end Updates

namespace Ranked
variable {s : BidSets} {u v m n target amount : Nat}

theorem inj (hs : Ranked s) (hu : s.maxima u = some m) (hv : s.maxima v = some n) :
    Money.rankMember m u = Money.rankMember n v ↔ m = n ∧ u = v :=
  Money.rankMember_inj (hs.ceiling u m hu) (hs.ceiling v n hv)

/-- The member of `u` leaves the ranking with `u`. -/
theorem mem_zrem (hs : Ranked s) (u : Nat) (x : Text) :
    x ∈ Script.zrem (s.rankMembers u) s.ranking ↔
      ∃ v m, v ≠ u ∧ s.maxima v = some m ∧ x = Money.rankMember m v := by
  rw [hs.rankMembers u]
  cases hmax : s.maxima u with
  | none =>
    simp only [Option.map_none, Script.zrem, hs.ranking]
    constructor
    · rintro ⟨v, m, hv, rfl⟩
      refine ⟨v, m, ?_, hv, rfl⟩
      rintro rfl
      simp [hmax] at hv
    · rintro ⟨v, m, _, hv, rfl⟩
      exact ⟨v, m, hv, rfl⟩
  | some n =>
    simp only [Option.map_some, Script.zrem, SortedSet.mem_erase, hs.ranking]
    constructor
    · rintro ⟨⟨v, m, hv, rfl⟩, hne⟩
      refine ⟨v, m, ?_, hv, rfl⟩
      rintro rfl
      rw [hmax] at hv
      cases hv
      exact hne rfl
    · rintro ⟨v, m, hvu, hv, rfl⟩
      exact ⟨⟨v, m, hv, rfl⟩, fun heq => hvu ((hs.inj hv hmax).mp heq).2⟩

/-- A bid replaces the maximum of its bidder in all three. -/
theorem bid (hs : Ranked s) (hceil : amount ≤ maxVnd) :
    Ranked
      { s with
        ranking := (Script.zrem (s.rankMembers u) s.ranking).insert (Money.rankMember amount u)
        maxima := Function.update s.maxima u (some amount)
        rankMembers := Function.update s.rankMembers u (some (Money.rankMember amount u)) } := by
  constructor
  · intro w
    by_cases hwu : w = u
    · subst w; simp
    · simpa [Function.update_of_ne hwu] using hs.rankMembers w
  · intro x
    simp only [SortedSet.mem_insert, hs.mem_zrem]
    constructor
    · rintro (rfl | ⟨v, m, hvu, hv, rfl⟩)
      · exact ⟨u, amount, by simp, rfl⟩
      · exact ⟨v, m, by simpa [Function.update_of_ne hvu] using hv, rfl⟩
    · rintro ⟨w, p, hw, rfl⟩
      rcases update_some_cases hw with ⟨rfl, rfl⟩ | ⟨hwu, hw⟩
      · exact .inl rfl
      · exact .inr ⟨w, p, hwu, hw, rfl⟩
  · intro w p hw
    rcases update_some_cases hw with ⟨rfl, rfl⟩ | ⟨_, hw⟩
    · exact hceil
    · exact hs.ceiling w p hw

/-- A ban takes its target out of all three. -/
theorem ban (hs : Ranked s) (target : Nat) :
    Ranked
      { bans := insert target s.bans
        maxima := Function.update s.maxima target none
        rankMembers := Function.update s.rankMembers target none
        ranking := Script.zrem (s.rankMembers target) s.ranking } := by
  constructor
  · intro w
    by_cases hwt : w = target
    · subst w; simp
    · simpa [Function.update_of_ne hwt] using hs.rankMembers w
  · intro x
    rw [hs.mem_zrem]
    constructor
    · rintro ⟨v, m, hvt, hv, rfl⟩
      exact ⟨v, m, by simpa [Function.update_of_ne hvt] using hv, rfl⟩
    · rintro ⟨w, p, hw, rfl⟩
      obtain ⟨hwt, hw⟩ := update_none_cases hw
      exact ⟨w, p, hwt, hw, rfl⟩
  · exact fun w p hw => hs.ceiling w p (update_none_cases hw).2

/-- Nobody has bid. -/
theorem empty : Ranked .empty where
  rankMembers := fun _ => rfl
  ranking := by simp [BidSets.empty]
  ceiling := by simp [BidSets.empty]

/-- A re-elected leader has a maximum. -/
theorem elected (hs : Ranked s) {h : StateHash} {d : Decision}
    (hu : (Script.reelect h s.ranking d).nextLeaderId = some u) : ∃ m, s.maxima u = some m := by
  have hmem : ∀ x ∈ s.ranking.greatest 2, ∃ v m, s.maxima v = some m ∧
      x = Money.rankMember m v :=
    fun x hx => (hs.ranking x).mp (SortedSet.mem_of_mem_greatest hx)
  have hfirst : ∀ top ∈ s.ranking.greatest 2, Money.rankedBidder top = u →
      ∃ m, s.maxima u = some m := by
    rintro top htop rfl
    obtain ⟨v, m, hv, rfl⟩ := hmem top htop
    exact ⟨m,
      by rwa [Money.rankedBidder_rankMember (Money.lt_of_le_maxVnd (hs.ceiling v m hv))]⟩
  unfold Script.reelect at hu
  split at hu
  · cases hu
  · rename_i top heq
    exact hfirst top (by simp [heq]) (by simpa using hu)
  · rename_i top second rest heq
    exact hfirst top (by simp [heq]) (by simpa using hu)

/-- A re-elected leader leads with that maximum. -/
theorem elected_maximum (hs : Ranked s) (h : StateHash) (d : Decision) :
    (Script.reelect h s.ranking d).nextLeaderMax =
      (Script.reelect h s.ranking d).nextLeaderId.map fun u => (s.maxima u).getD 0 := by
  have hfirst : ∀ top ∈ s.ranking.greatest 2,
      (s.maxima (Money.rankedBidder top)).getD 0 = Money.rankedMaximum top := by
    intro top htop
    obtain ⟨v, m, hv, rfl⟩ := (hs.ranking top).mp (SortedSet.mem_of_mem_greatest htop)
    have hlt := Money.lt_of_le_maxVnd (hs.ceiling v m hv)
    rw [Money.rankedBidder_rankMember hlt, Money.rankedMaximum_rankMember hlt, hv]
    rfl
  unfold Script.reelect
  split
  · rfl
  · rename_i top heq
    simp [hfirst top (by simp [heq])]
  · rename_i top second rest heq
    simp [hfirst top (by simp [heq])]

end Ranked

namespace Standings
variable {h h' : StateHash} {s : BidSets} {u v m n target amount : Nat}

/-- The fields of the hash that the standings do not read may change. -/
theorem congr (hs : Standings h s) (hseller : h'.sellerId = h.sellerId)
    (hstart : h'.startPriceVnd = h.startPriceVnd) : Standings h' s where
  toRanked := hs.toRanked
  banned := hs.banned
  seller := by rw [hseller]; exact hs.seller
  floor := by rw [hstart]; exact hs.floor
  bidders := hs.bidders

theorem lt_iff (hs : Standings h s) (hu : s.maxima u = some m) (hv : s.maxima v = some n) :
    Money.rankMember m u < Money.rankMember n v ↔ m < n ∨ m = n ∧ u < v :=
  Money.rankMember_lt_iff (Money.lt_of_le_maxVnd (hs.ceiling u m hu))
    (Nat.lt_trans (hs.bidders u m hu) (by decide)) (Money.lt_of_le_maxVnd (hs.ceiling v n hv))
    (Nat.lt_trans (hs.bidders v n hv) (by decide))

/-- The two greatest members name the two bidders who bid most. -/
theorem top (hs : Standings h s) : TopMaxima s.maxima (s.ranking.greatest 2) := by
  have htop := s.ranking.topTwo
  generalize s.ranking.greatest 2 = members at htop ⊢
  cases htop with
  | none hnone =>
    refine .none fun u => ?_
    cases hmax : s.maxima u with
    | none => rfl
    | some m => exact absurd ((hs.ranking _).mpr ⟨u, m, hmax, rfl⟩) (hnone _)
  | @one a ha =>
    obtain ⟨u, m, hu, rfl⟩ := (hs.ranking a).mp ((ha a).mpr rfl)
    refine .one hu fun w p hw => ?_
    have hmem := (ha _).mp ((hs.ranking _).mpr ⟨w, p, hw, rfl⟩)
    exact ((hs.inj hw hu).mp hmem).2
  | @two a b ha hb hlt hrest =>
    obtain ⟨u, m, hu, rfl⟩ := (hs.ranking a).mp ha
    obtain ⟨v, n, hv, rfl⟩ := (hs.ranking b).mp hb
    have hlt := (hs.lt_iff hv hu).mp hlt
    refine .two hu hv ?_ hlt fun w p hw hwu => ?_
    · rintro rfl
      rw [hu] at hv
      cases hv
      omega
    · have hle := hrest _ ((hs.ranking _).mpr ⟨w, p, hw, rfl⟩)
        fun heq => hwu ((hs.inj hw hu).mp heq).2
      rcases lt_or_eq_of_le hle with hlt | heq
      · have := (hs.lt_iff hw hv).mp hlt
        omega
      · have := (hs.inj hw hv).mp heq
        omega

/-- A bid within the bounds keeps the standings. -/
theorem bid (hs : Standings h s) (hseller : u ≠ h.sellerId) (hban : u ∉ s.bans)
    (hfloor : h.startPriceVnd ≤ amount) (hceil : amount ≤ maxVnd) (hu : u < 2 ^ 31) :
    Standings h
      { s with
        ranking := (Script.zrem (s.rankMembers u) s.ranking).insert (Money.rankMember amount u)
        maxima := Function.update s.maxima u (some amount)
        rankMembers := Function.update s.rankMembers u (some (Money.rankMember amount u)) } := by
  refine ⟨hs.toRanked.bid hceil, fun w hw => ?_, ?_, fun w p hw => ?_, fun w p hw => ?_⟩
  · have hwu : w ≠ u := by rintro rfl; exact hban hw
    simpa [Function.update_of_ne hwu] using hs.banned w hw
  · simpa [Function.update_of_ne hseller.symm] using hs.seller
  · rcases update_some_cases hw with ⟨rfl, rfl⟩ | ⟨_, hw⟩
    · exact hfloor
    · exact hs.floor w p hw
  · rcases update_some_cases hw with ⟨rfl, rfl⟩ | ⟨_, hw⟩
    · exact hu
    · exact hs.bidders w p hw

/-- So does a ban. -/
theorem ban (hs : Standings h s) (target : Nat) :
    Standings h
      { bans := insert target s.bans
        maxima := Function.update s.maxima target none
        rankMembers := Function.update s.rankMembers target none
        ranking := Script.zrem (s.rankMembers target) s.ranking } := by
  refine ⟨hs.toRanked.ban target, fun w hw => ?_, update_none_of_none hs.seller,
    fun w p hw => hs.floor w p (update_none_cases hw).2,
    fun w p hw => hs.bidders w p (update_none_cases hw).2⟩
  rcases Finset.mem_insert.mp hw with rfl | hw
  · simp
  · exact update_none_of_none (hs.banned w hw)

/-- Nobody has bid and nobody is banned. -/
theorem empty (h : StateHash) : Standings h .empty where
  toRanked := .empty
  banned := by simp [BidSets.empty]
  seller := rfl
  floor := by simp [BidSets.empty]
  bidders := by simp [BidSets.empty]

end Standings

/-- The copies of the maxima agree after every accepted request. -/
theorem ranked_step {a a' : Auction} {req : Request} (hs : Ranked a.sets)
    (h : AuctionStep a req a') : Ranked a'.sets := by
  obtain ⟨d, ⟨_, hd⟩, rfl⟩ := auctionStep_iff.mp h
  simp only [Script.write]
  cases Script.operate_ok hd with
  | bid hop =>
    rw [Script.update_bid hop]
    exact hs.bid req.amount_le
  | ban hop _ _ hnamed =>
    rw [Script.update_ban hop hnamed]
    exact hs.ban _
  | buyNow hop => rwa [Script.update_of_ne (by simp [hop]) (by simp [hop])]
  | close hop => rwa [Script.update_of_ne (by simp [hop]) (by simp [hop])]
  | cancel hop => rwa [Script.update_of_ne (by simp [hop]) (by simp [hop])]

/-- The standings survive every accepted request whose bid is at least the start price. -/
theorem standings_step {a a' : Auction} {req : Request} (hs : Standings a.hash a.sets)
    (hfloor : a.hash.startPriceVnd ≤ a.hash.currentPriceVnd) (h : AuctionStep a req a') :
    Standings a'.hash a'.sets := by
  obtain ⟨d, ⟨_, hd⟩, rfl⟩ := auctionStep_iff.mp h
  refine Standings.congr (h := a.hash) ?_ rfl rfl
  have hd := Script.operate_ok hd
  simp only [Script.write]
  cases hd with
  | bid hop hb _ henough _ =>
    rw [Script.update_bid hop]
    refine hs.bid hb.notSeller hb.notBanned (by omega) req.amount_le ?_
    rw [req.actor_eq]
    exact req.actorId.isLt
  | ban hop _ _ hnamed _ _ =>
    rw [Script.update_ban hop hnamed]
    exact hs.ban _
  | buyNow hop => rwa [Script.update_of_ne (by simp [hop]) (by simp [hop])]
  | close hop => rwa [Script.update_of_ne (by simp [hop]) (by simp [hop])]
  | cancel hop => rwa [Script.update_of_ne (by simp [hop]) (by simp [hop])]

end MiracleAuction
