import MiracleAuction.Authority.Ranking
import MiracleAuction.Projection.Tables

/-!
# `bootstrapRedisAuction`

Loads an auction from the tables into its keys: the TypeScript part computes a
seed, `auction-bootstrap.lua` writes it.
-/
namespace MiracleAuction
open Decimal

namespace Bootstrap

/-- `value.toString().padStart(19, "0")`. -/
def pad (value : Nat) : Text := List.replicate (19 - (digits value).length) '0' ++ digits value

def rankMember (amount userId : Nat) : Text := pad amount ++ ':' :: pad userId

/-- The bootstrap and the script write the same members. -/
theorem rankMember_eq (amount userId : Nat) :
    rankMember amount userId = Money.rankMember amount userId := by
  simp [rankMember, pad, Money.rankMember, Lua.rankMember, Lua.pad]

structure Maximum where
  userId : Nat
  amount : Nat
  member : Text

structure Seed where
  state : StateHash
  maxima : List Maximum
  bans : List Nat
  deadlineScore : Option Int
  recovery : Bool

section
variable (T : Tables) (productId : Nat)

/-- The history rows of the product whose status is null. -/
def standingRows : List HistoryRow :=
  T.history.filter fun row => row.productId = productId ∧ !row.banned

/-- `MAX(max_price)` of a user's standing rows, zero if every price is null. -/
def maximumOf (userId : Nat) : Nat :=
  (((standingRows T productId).filter (·.userId = userId)).filterMap
    fun row => row.maxPrice.map Subtype.val).foldl max 0

/-- `maximumByUser`. -/
def maximumByUser (userId : Nat) : Option Nat :=
  if userId ∈ (standingRows T productId).map (·.userId) then some (maximumOf T productId userId)
  else none

def effectiveStatus (auction : ProductRow) (now : DateMs) : AuctionStatus :=
  if auction.auctionStatus = .pending ∧
    (∃ start ∈ auction.startTime, start.val ≤ now.val) ∧
      now.val < (auction.endTime.map Subtype.val).getD 0 then .active
  else auction.auctionStatus

/-- `(time ?? new Date(0)).getTime().toString()`. -/
def timeText (time : Option DateMs) : Numeral := .plain ((time.map Subtype.val).getD 0)

def seedState (auction : ProductRow) (now : DateMs) : StateHash where
  productId := productId
  sellerId := auction.sellerId
  status := effectiveStatus auction now
  startAtMs := timeText auction.startTime
  endAtMs := timeText auction.endTime
  startPriceVnd := auction.startPrice.getD 0
  currentPriceVnd := (auction.currentPrice.or auction.startPrice).getD 0
  stepPriceVnd := auction.stepPrice.getD 0
  buyNowPriceVnd := auction.buyNowPrice
  leaderId := auction.priceOwnerId
  leaderMaxPriceVnd := auction.priceOwnerId.map fun leaderId =>
    (maximumByUser T productId leaderId).getD 0
  sequence := auction.auctionSequence
  version := auction.auctionVersion
  autoExtend := auction.autoExtended.getD false
  antiSnipeWindowMs := .plain ((T.settings.bind (·.thresholdTime)).getD 0 * 60000 : Nat)
  antiSnipeExtensionMs := .plain ((T.settings.bind (·.extendTime)).getD 0 * 60000 : Nat)
  lastEventId := (T.latestTransition productId).map (·.eventId)

def seed (auction : ProductRow) (now : DateMs) (recovery : Bool) : Seed where
  state := seedState T productId auction now
  maxima := ((standingRows T productId).map (·.userId)).dedup.map fun userId =>
    { userId := userId
      amount := maximumOf T productId userId
      member := rankMember (maximumOf T productId userId) userId }
  bans := (T.bans.filter (·.productId = productId)).map (·.userId)
  deadlineScore :=
    if effectiveStatus auction now = .active then auction.endTime.map Subtype.val else none
  recovery := recovery

end

inductive Error
  | missing (productId : Nat)
  | recovering
  | corruptTarget
  deriving DecidableEq, Repr

def addMaximum (s : BidSets) (maximum : Maximum) : BidSets :=
  { s with
    maxima := Function.update s.maxima maximum.userId (some maximum.amount)
    rankMembers := Function.update s.rankMembers maximum.userId (some maximum.member)
    ranking := s.ranking.insert maximum.member }

/-- The script `auction-bootstrap.lua`. -/
def script (seed : Seed) (k : AuctionKeys) : Except Error Bool × AuctionKeys :=
  if (k.recoveryFence ∨ k.auctionRecoveryFence) ∧ seed.recovery = false
    then (.error .recovering, k)
  else
    match k.state with
    | .absent =>
      if k.wrongType then (.error .corruptTarget, k)
      else
        let sets := seed.maxima.foldl addMaximum k.sets
        (.ok true,
          { k with
            state := .hash seed.state
            sets := { sets with bans := sets.bans ∪ seed.bans.toFinset }
            deadline := seed.deadlineScore.or k.deadline })
    | _ => (.ok false, k)

/-- `DEL` of the auction's keys and `ZREM` of its deadline. -/
def forget (k : AuctionKeys) : AuctionKeys :=
  { k with state := .absent, sets := .empty, deadline := none }

end Bootstrap

open Bootstrap in
def bootstrapRedisAuction (productId : Nat) (recovery force : Bool) (now : DateMs) (T : Tables)
    (k : AuctionKeys) : Except Bootstrap.Error Bool × AuctionKeys :=
  match force, k.state with
  | false, .incomplete | false, .hash _ => (.ok false, k)
  | _, _ =>
    match T.products productId with
    | none => (.error (.missing productId), k)
    | some auction =>
      script (seed T productId auction now recovery) (if force then forget k else k)

/-! ## What a bootstrap loads -/

/-- The keys hold nothing of the auction. -/
structure Unloaded (k : AuctionKeys) : Prop where
  state : k.state = .absent
  sets : k.sets = .empty
  deadline : k.deadline = none

theorem Bootstrap.unloaded_forget (k : AuctionKeys) : Unloaded (Bootstrap.forget k) :=
  ⟨rfl, rfl, rfl⟩

/-- The auction that the tables describe. -/
structure Loaded (T : Tables) (productId : Nat) (product : ProductRow) (now : DateMs)
    (a : Auction) : Prop where
  hash : a.hash = Bootstrap.seedState T productId product now
  maxima : ∀ u, a.sets.maxima u = Bootstrap.maximumByUser T productId u
  ranked : Ranked a.sets
  bans : ∀ u, u ∈ a.sets.bans ↔ T.Banned productId u
  deadline : a.deadline =
    if a.hash.status = .active then product.endTime.map Subtype.val else none

namespace Bootstrap
variable {T : Tables} {productId : Nat} {product : ProductRow} {now : DateMs} {k k' : AuctionKeys}
  {recovery force : Bool}

theorem foldl_max_le {l : List Nat} {b n : Nat} (hn : n ≤ b) (h : ∀ x ∈ l, x ≤ b) :
    l.foldl max n ≤ b := by
  induction l generalizing n with
  | nil => exact hn
  | cons x l ih =>
    exact ih (max_le hn (h x List.mem_cons_self)) fun y hy => h y (List.mem_cons_of_mem _ hy)

theorem maximumOf_le (T : Tables) (productId userId : Nat) :
    maximumOf T productId userId ≤ maxVnd := by
  refine foldl_max_le (Nat.zero_le _) fun n hn => ?_
  obtain ⟨row, _, hrow⟩ := List.mem_filterMap.mp hn
  obtain ⟨price, _, rfl⟩ := Option.map_eq_some_iff.mp hrow
  exact price.property

/-- The three copies of the maxima after a list of users was added. -/
theorem foldl_addMaximum (f : Nat → Nat) (users : List Nat) (s : BidSets) :
    let s' := (users.map fun u => Maximum.mk u (f u) (rankMember (f u) u)).foldl addMaximum s
    s'.bans = s.bans ∧
    (∀ w, s'.maxima w = if w ∈ users then some (f w) else s.maxima w) ∧
    (∀ w, s'.rankMembers w =
      if w ∈ users then some (Money.rankMember (f w) w) else s.rankMembers w) ∧
    ∀ x, x ∈ s'.ranking ↔
      x ∈ s.ranking ∨ ∃ u ∈ users, x = Money.rankMember (f u) u := by
  induction users generalizing s with
  | nil => simp
  | cons u users ih =>
    obtain ⟨hbans, hmaxima, hmembers, hranking⟩ := ih
      (addMaximum s (Maximum.mk u (f u) (rankMember (f u) u)))
    rw [List.map_cons, List.foldl_cons]
    refine ⟨hbans, fun w => ?_, fun w => ?_, fun x => ?_⟩
    · rw [hmaxima]
      by_cases hwu : w = u
      · subst w; simp [addMaximum]
      · simp [addMaximum, hwu]
    · rw [hmembers]
      by_cases hwu : w = u
      · subst w; simp [addMaximum, rankMember_eq]
      · simp [addMaximum, hwu]
    · rw [hranking]
      simp only [addMaximum, SortedSet.mem_insert, rankMember_eq, List.exists_mem_cons_iff]
      tauto

/-- The script loads empty keys from the seed. -/
theorem script_loads (hk : Unloaded k)
    (h : script (seed T productId product now recovery) k = (.ok true, k')) :
    k'.stream = k.stream ∧ ∃ a, k'.auction = some a ∧ Loaded T productId product now a := by
  unfold script at h
  split at h
  · cases h
  rw [hk.state] at h
  dsimp only at h
  split at h
  · cases h
  cases h
  obtain ⟨hbans, hmaxima, hmembers, hranking⟩ := foldl_addMaximum (maximumOf T productId)
    ((standingRows T productId).map (·.userId)).dedup k.sets
  have hdeadline : (seed T productId product now recovery).deadlineScore.or k.deadline =
      (seed T productId product now recovery).deadlineScore := by
    rw [hk.deadline, Option.or_none]
  refine ⟨rfl, _, rfl, rfl, fun u => ?_, ⟨fun u => ?_, fun x => ?_, fun u m hu => ?_⟩,
    fun u => ?_, hdeadline⟩
  · refine (hmaxima u).trans ?_
    simp [maximumByUser, hk.sets, BidSets.empty]
  · refine (hmembers u).trans ?_
    dsimp only [seed]
    rw [hmaxima u]
    split <;> simp [hk.sets, BidSets.empty]
  · refine (hranking x).trans ?_
    constructor
    · rintro (hx | ⟨u, hu, rfl⟩)
      · rw [hk.sets] at hx
        exact absurd hx SortedSet.not_mem_empty
      · exact ⟨u, _, (hmaxima u).trans (if_pos hu), rfl⟩
    · rintro ⟨u, m, hu, rfl⟩
      replace hu := (hmaxima u).symm.trans hu
      split at hu
      · rename_i hmem
        cases hu
        exact .inr ⟨u, hmem, rfl⟩
      · simp [hk.sets, BidSets.empty] at hu
  · dsimp only [seed] at hu
    rw [hmaxima u] at hu
    split at hu
    · cases hu
      exact maximumOf_le _ _ _
    · simp [hk.sets, BidSets.empty] at hu
  · dsimp only [seed]
    rw [hbans, hk.sets]
    simp [BidSets.empty, Tables.Banned, and_assoc]

end Bootstrap

/-- A bootstrap that initialises the keys loads the auction of the tables. -/
theorem bootstrap_loads {T : Tables} {productId : Nat} {now : DateMs} {k k' : AuctionKeys}
    {recovery force : Bool} (hk : force = false → k.state = .absent → Unloaded k)
    (h : bootstrapRedisAuction productId recovery force now T k = (.ok true, k')) :
    (force = false → k.state = .absent) ∧ k'.stream = k.stream ∧ ∃ product a,
      T.products productId = some product ∧ k'.auction = some a ∧
        Loaded T productId product now a := by
  have habsent : force = false → k.state = .absent := by
    rintro rfl
    cases hstate : k.state with
    | absent => rfl
    | incomplete => simp [bootstrapRedisAuction, hstate] at h
    | hash h' => simp [bootstrapRedisAuction, hstate] at h
  have hstream₀ : (if force then Bootstrap.forget k else k).stream = k.stream := by
    split <;> rfl
  have hbase : Unloaded (if force then Bootstrap.forget k else k) := by
    cases force with
    | true => exact Bootstrap.unloaded_forget k
    | false => exact hk rfl (habsent rfl)
  unfold bootstrapRedisAuction at h
  split at h
  · cases h
  · cases h
  · split at h
    · cases h
    · rename_i product hproduct
      obtain ⟨hstream, a, ha, hloaded⟩ := Bootstrap.script_loads hbase h
      exact ⟨habsent, hstream.trans hstream₀, product, a, hproduct, ha, hloaded⟩

/-- Any other bootstrap writes nothing, or has only deleted the keys. -/
theorem bootstrap_else {T : Tables} {productId : Nat} {now : DateMs} {k k' : AuctionKeys}
    {recovery force : Bool} {r : Except Bootstrap.Error Bool} (hr : r ≠ .ok true)
    (h : bootstrapRedisAuction productId recovery force now T k = (r, k')) :
    k' = k ∨ force = true ∧ k' = Bootstrap.forget k := by
  have hscript : ∀ {seed : Bootstrap.Seed} {base : AuctionKeys},
      Bootstrap.script seed base = (r, k') → k' = base := by
    intro seed base h
    unfold Bootstrap.script at h
    split at h
    · cases h; rfl
    · split at h
      · split at h
        · cases h; rfl
        · cases h; exact absurd rfl hr
      · cases h; rfl
  unfold bootstrapRedisAuction at h
  split at h
  · cases h; exact .inl rfl
  · cases h; exact .inl rfl
  · split at h
    · cases h; exact .inl rfl
    · have hbase := hscript h
      split at hbase
      · rename_i hforce
        exact .inr ⟨hforce, hbase⟩
      · exact .inl hbase

end MiracleAuction
