import MiracleAuction.Projection.Deadlines
import MiracleAuction.Projection.Projector

/-!
# What the parser makes of the script's events

The script prints the two times of an event with `tostring`, the parser asks for
plain digits. Every other field it checks is in the format it accepts, in every
state that the engine reaches.
-/
namespace MiracleAuction
open Decimal

/-- `parseEvent` and the conversions of the projector accept the event. -/
structure Readable (event : AuctionStreamEvent) : Prop where
  parsed : parseEvent (.event event) = .ok event
  endTime : ∃ date, Tables.toDate event.endAtMs = .ok date
  maximum : event.type = .bidAccepted → event.requestedMaxPriceVnd ≠ none

/-- The times that Lua prints in plain digits. -/
def PlainTime (t : Int) : Prop := 0 ≤ t ∧ t < 10 ^ 14

instance (t : Int) : Decidable (PlainTime t) := by unfold PlainTime; infer_instance

theorem isDecimal_tostring_iff {t : Int} : Numeral.isDecimal (Lua.tostring t) ↔ PlainTime t := by
  unfold PlainTime
  constructor
  · intro h
    cases htext : Lua.tostring t with
    | plain n =>
      obtain ⟨hsmall, rfl⟩ := Lua.tostring_eq_plain htext
      rw [htext] at h
      have := h.1
      omega
    | scientific n =>
      rw [htext] at h
      exact h.elim
  · intro h
    rw [Lua.tostring_of_lt (by omega)]
    simp only [Numeral.isDecimal]
    omega

/-- A plain time is a date. -/
theorem PlainTime.toDate {t : Int} (h : PlainTime t) :
    ∃ date, Tables.toDate (Lua.tostring t) = .ok date := by
  have hbound : (Lua.tostring t).denotes.natAbs ≤ 8640000000000000 := by
    unfold PlainTime at h
    rw [Lua.tostring_of_lt (by omega)]
    simp only [Numeral.denotes_plain]
    omega
  exact ⟨_, dif_pos hbound⟩

/-! ## Amounts -/

/-- The amounts of a state hash fit their columns. -/
structure StateHash.Representable (h : StateHash) : Prop where
  start : h.startPriceVnd ≤ maxVnd
  current : h.currentPriceVnd ≤ maxVnd
  buyNow : ∀ price ∈ h.buyNowPriceVnd, price ≤ maxVnd
  leaderMax : ∀ m ∈ h.leaderMaxPriceVnd, m ≤ maxVnd

/-- So do those of the keys. -/
structure AuctionKeys.Representable (k : AuctionKeys) : Prop where
  hash : ∀ a, k.auction = some a → a.hash.Representable
  ranking : ∀ x ∈ k.sets.ranking, Money.rankedMaximum x ≤ maxVnd

/-- The price columns of the row are of type `BIGINT`. -/
def ProductRow.Fits (product : ProductRow) : Prop :=
  (∀ n ∈ product.startPrice, fitsBigint n) ∧
    (∀ n ∈ product.currentPrice, fitsBigint n) ∧
    ∀ n ∈ product.buyNowPrice, fitsBigint n

instance (product : ProductRow) : Decidable product.Fits := by
  unfold ProductRow.Fits; infer_instance

/-- A bootstrap reads a row of the table. -/
def EngineAction.ReadsRow (productId : Nat) (_ : AuctionKeys) : EngineAction → Prop
  | .bootstrap T _ _ _ => ∀ product ∈ T.products productId, product.Fits
  | _ => True

namespace Script
variable {a : Auction} {req : Request} {d : Decision}

/-- The decision of an accepted request names amounts that fit. -/
theorem representable_decided (ha : a.hash.Representable) (h : Decided a req d) :
    d.nextPrice ≤ maxVnd ∧ ∀ m ∈ d.nextLeaderMax, m ≤ maxVnd := by
  have hamount := req.amount_le
  cases h with
  | bid hop _ _ henough _ =>
    have hleader : a.hash.leaderMaxPriceVnd.getD 0 ≤ maxVnd := by
      cases hmax : a.hash.leaderMaxPriceVnd with
      | none => exact Nat.zero_le _
      | some m => exact ha.leaderMax m hmax
    have hnext := proxyBid_cases a.hash req.actor req.amount
    generalize proxyBid a.hash req.actor req.amount = next at hnext
    cases hnext with
    | first => exact ⟨ha.current, by simpa using hamount⟩
    | raised => exact ⟨ha.current, by simpa using hamount⟩
    | outbid => exact ⟨(Nat.min_le_right _ _).trans hleader, ha.leaderMax⟩
    | overtakes => exact ⟨(Nat.min_le_right _ _).trans hamount, by simpa using hamount⟩
  | buyNow _ _ henabled =>
    have hprice := ha.buyNow _ henabled
    exact ⟨hprice, by simpa using hprice⟩
  | ban => exact ⟨ha.current, ha.leaderMax⟩
  | close => exact ⟨ha.current, ha.leaderMax⟩
  | cancel => exact ⟨ha.current, ha.leaderMax⟩

/-- A re-election takes its amounts from the ranking. -/
theorem representable_reelect {h : StateHash} {ranking : SortedSet Text} (hh : h.Representable)
    (hranking : ∀ x ∈ ranking, Money.rankedMaximum x ≤ maxVnd) :
    (reelect h ranking d).nextPrice ≤ maxVnd ∧
      ∀ m ∈ (reelect h ranking d).nextLeaderMax, m ≤ maxVnd := by
  have htop : ∀ x ∈ ranking.greatest 2, Money.rankedMaximum x ≤ maxVnd :=
    fun x hx => hranking x (SortedSet.mem_of_mem_greatest hx)
  unfold reelect
  split
  · exact ⟨hh.start, by simp⟩
  · rename_i top heq
    have := htop top (by simp [heq])
    exact ⟨hh.start, by simpa using this⟩
  · rename_i top second rest heq
    have hmax := htop top (by simp [heq])
    simp only [Money.minimum_eq]
    exact ⟨(Nat.min_le_right _ _).trans hmax, by simpa using hmax⟩

theorem mem_of_mem_zrem {member : Option Text} {ranking : SortedSet Text} {x : Text}
    (h : x ∈ zrem member ranking) : x ∈ ranking := by
  cases member with
  | none => exact h
  | some m => exact (SortedSet.mem_erase.mp h).1

/-- The structure updates keep the amounts of the ranking and of the decision. -/
theorem representable_update (ha : a.hash.Representable)
    (hranking : ∀ x ∈ a.sets.ranking, Money.rankedMaximum x ≤ maxVnd) (h : Decided a req d) :
    (∀ x ∈ (update a req d).1.ranking, Money.rankedMaximum x ≤ maxVnd) ∧
      (update a req d).2.nextPrice ≤ maxVnd ∧
      ∀ m ∈ (update a req d).2.nextLeaderMax, m ≤ maxVnd := by
  have hnext := representable_decided ha h
  cases h with
  | bid hop =>
    rw [update_bid hop]
    refine ⟨fun x hx => ?_, hnext⟩
    simp only [bidSets, SortedSet.mem_insert] at hx
    rcases hx with rfl | hx
    · rw [Money.rankedMaximum_rankMember (Money.lt_of_le_maxVnd req.amount_le)]
      exact req.amount_le
    · exact hranking x (mem_of_mem_zrem hx)
  | ban hop _ _ hnamed =>
    rw [update_ban hop hnamed]
    have hbanned (target : Nat) (d : Decision) :
        ∀ x ∈ (banSets a target d).ranking, Money.rankedMaximum x ≤ maxVnd :=
      fun x hx => hranking x (mem_of_mem_zrem hx)
    refine ⟨hbanned _ _, ?_⟩
    dsimp only
    split
    · exact representable_reelect ha (hbanned _ _)
    · exact hnext
  | buyNow hop =>
    rw [update_of_ne (by simp [hop]) (by simp [hop])]
    exact ⟨hranking, hnext⟩
  | close hop =>
    rw [update_of_ne (by simp [hop]) (by simp [hop])]
    exact ⟨hranking, hnext⟩
  | cancel hop =>
    rw [update_of_ne (by simp [hop]) (by simp [hop])]
    exact ⟨hranking, hnext⟩

end Script

theorem representable_accept {k : AuctionKeys} {req : Request} {a : Auction} {d : Decision}
    (hk : k.Representable) (h : Accepts k req a d) : (Script.accept a req k d).Representable := by
  have ha := hk.hash a h.loaded
  have hsets : a.sets = k.sets := by
    have hloaded := h.loaded
    unfold AuctionKeys.auction at hloaded
    split at hloaded
    · cases hloaded; rfl
    · cases hloaded
  obtain ⟨hranking, hprice, hmax⟩ := Script.representable_update ha
    (by rw [hsets]; exact hk.ranking) (Script.operate_ok h.decided)
  refine ⟨fun a' ha' => ?_, hranking⟩
  rw [Script.accept_auction] at ha'
  cases ha'
  exact ⟨ha.start, hprice, ha.buyNow, hmax⟩

theorem Keeps.representable {k k' : AuctionKeys} (h : Keeps k k') (hk : k.Representable) :
    k'.Representable where
  hash := fun a ha => hk.hash a (h.auction.symm.trans ha)
  ranking := by rw [h.sets]; exact hk.ranking

/-- Keys without a loaded auction and with an empty ranking, as after a deletion. -/
theorem representable_forgotten {k : AuctionKeys} (hstate : k.state = .absent)
    (hsets : k.sets = .empty) : k.Representable where
  hash := by simp [AuctionKeys.auction_of_absent hstate]
  ranking := by simp [hsets, BidSets.empty]

namespace Bootstrap
variable {T : Tables} {productId : Nat} {product : ProductRow} {now : DateMs} {recovery : Bool}
  {k : AuctionKeys}

theorem getD_le {amount : Option Nat} (h : ∀ n ∈ amount, n ≤ maxVnd) :
    amount.getD 0 ≤ maxVnd := by
  cases amount with
  | none => exact Nat.zero_le _
  | some n => exact h n rfl

theorem representable_seedState (hproduct : product.Fits) :
    (seedState T productId product now).Representable where
  start := getD_le hproduct.1
  current := by
    refine getD_le fun n hn => ?_
    rcases Option.or_eq_some_iff.mp hn with h | ⟨_, h⟩
    · exact hproduct.2.1 n h
    · exact hproduct.1 n h
  buyNow := hproduct.2.2
  leaderMax := by
    intro m hm
    obtain ⟨leaderId, _, rfl⟩ := Option.map_eq_some_iff.mp hm
    refine getD_le fun n hn => ?_
    unfold maximumByUser at hn
    split at hn
    · cases hn
      exact maximumOf_le _ _ _
    · cases hn

theorem representable_script (hk : k.Representable) (hproduct : product.Fits) :
    (script (seed T productId product now recovery) k).2.Representable := by
  unfold script
  split
  · exact hk
  split
  · split
    · exact hk
    · obtain ⟨_, _, _, hranking⟩ := foldl_addMaximum (maximumOf T productId)
        ((standingRows T productId).map (·.userId)).dedup k.sets
      refine ⟨fun a ha => ?_, fun x hx => ?_⟩
      · cases ha
        exact representable_seedState hproduct
      · rcases (hranking x).mp hx with hx | ⟨u, _, rfl⟩
        · exact hk.ranking x hx
        · rw [Money.rankedMaximum_rankMember (Money.lt_of_le_maxVnd (maximumOf_le _ _ _))]
          exact maximumOf_le _ _ _
  · exact hk

end Bootstrap

/-- Every action of the engine keeps the amounts representable. -/
theorem representable_step {productId : Nat} {k k' : AuctionKeys} {x : EngineAction}
    (hrow : x.ReadsRow productId k) (h : Does (EngineAction.apply productId) k x k')
    (hk : k.Representable) : k'.Representable := by
  rw [show k' = x.apply productId k from h]
  cases x with
  | act x =>
    have hcases := action_cases x k
    simp only [EngineAction.apply]
    generalize x.apply k = k' at hcases ⊢
    cases hcases with
    | accepts _ hacc => exact representable_accept hk hacc
    | keeps hkeeps => exact hkeeps.representable hk
  | bootstrap T now recovery force =>
    simp only [EngineAction.apply]
    have hbase : (if force then Bootstrap.forget k else k).Representable := by
      split
      · exact representable_forgotten rfl rfl
      · exact hk
    unfold bootstrapRedisAuction
    split
    · exact hk
    · exact hk
    · split
      · exact hk
      · rename_i product hproduct
        exact Bootstrap.representable_script hbase (hrow product hproduct)
  | expireTerminal =>
    simp only [EngineAction.apply, EngineAction.expire]
    split
    · split
      · exact representable_forgotten rfl rfl
      · exact hk
    · exact hk
  | restart => exact representable_forgotten rfl rfl

/-- The event of an accepted request is readable if and only if both of its times are plain. -/
theorem Accepts.readable_iff {k : AuctionKeys} {req : Request} {a : Auction} {d : Decision}
    (hk : k.Representable) (h : Accepts k req a d) :
    Readable (Script.event a req d) ↔ PlainTime (Script.keptEnd a req) ∧ PlainTime req.now := by
  have hd := Script.operate_ok h.decided
  have hend : d.nextEndAtMs = Script.keptEnd a req := by
    unfold Script.keptEnd
    cases hd with
    | bid hop => simp [hop]
    | buyNow hop => simp [hop]
    | ban hop => simp [hop, Script.unchanged]
    | close hop => simp [hop, Script.unchanged]
    | cancel hop => simp [hop, Script.unchanged]
  have hcontract : contractHolds (Script.event a req d) ↔
      PlainTime (Script.keptEnd a req) ∧ PlainTime req.now := by
    have hintact := integrityCheck_eq_none.mp h.intact
    have hactor : isDecimal req.actor := by
      rw [req.actor_eq]
      exact Nat.lt_trans req.actorId.isLt (by decide)
    have hproduct : isDecimal a.hash.productId := by
      obtain ⟨hsmall, _⟩ := Lua.tostring_eq_plain hintact.2.2.symm
      rw [hintact.product]
      exact Nat.lt_trans (Lua.lt_of_number_lt hsmall) (by decide)
    have hprice : isDecimal d.nextPrice :=
      Money.lt_of_le_maxVnd (Script.representable_decided (hk.hash a h.loaded) hd).1
    have hsequence : isDecimal (Money.add a.hash.sequence 1) := by
      rw [Money.add_eq]
      exact Nat.lt_of_le_of_lt hintact.1 (by decide)
    have hversion : isDecimal (Money.add a.hash.version 1) := by
      rw [Money.add_eq]
      exact Nat.lt_of_le_of_lt hintact.2.1 (by decide)
    simp only [contractHolds, Script.event, hactor, hproduct, hprice, hsequence, hversion, hend,
      isDecimal_tostring_iff, true_and, and_true]
  constructor
  · intro hreadable
    exact hcontract.mp (parseEvent_ok hreadable.parsed).2
  · intro htimes
    refine ⟨if_pos (hcontract.mpr htimes), ?_, fun htype => ?_⟩
    · simp only [Script.event, hend]
      exact htimes.1.toDate
    · have hop : req.operation = .bid := by
        have := hd.eventType_eq.symm.trans htype
        cases hop : req.operation <;> simp_all [Operation.eventType]
      simp [Script.event, hop, Operation.isBidding]

/-- A call appends the event of the request that it makes the script accept. -/
theorem appended_accepts {c : Call} {k : AuctionKeys} {event : AuctionStreamEvent}
    (h : (mutate c k).2.stream = k.stream ++ [event]) :
    ∃ req a d, c.payload = .ok req ∧ Accepts k req a d ∧ event = Script.event a req d := by
  have hne : ¬ Keeps k (mutate c k).2 := fun hkeeps => by simp [hkeeps.stream] at h
  rcases call_cases c k with heq | ⟨req, reply, hpayload, hcases⟩
  · exact absurd (by rw [heq]; exact .refl k) hne
  · generalize (mutate c k).2 = k' at *
    cases hcases with
    | fails => exact absurd (.refl k) hne
    | replays => exact absurd (Script.keeps_migrate req k) hne
    | rejects => exact absurd (Script.keeps_store _ _ _) hne
    | @accepts a d hacc =>
      refine ⟨req, a, d, hpayload, hacc, ?_⟩
      simpa [Script.accept_stream] using h.symm

/-- In every state of the engine, whatever the rows it was loaded from, the event that
a call appends is readable if and only if the end time that the request keeps and the
time of the request are plain. -/
theorem appended_readable_iff {productId : Nat} {k : AuctionKeys} {xs : List EngineAction}
    {c : Call} {req : Request} {a : Auction} {event : AuctionStreamEvent}
    (hrun : Run (Guarded (EngineAction.ReadsRow productId) (Does (EngineAction.apply productId)))
      {} xs k)
    (hpayload : c.payload = .ok req) (hk : k.auction = some a)
    (hevent : (mutate c k).2.stream = k.stream ++ [event]) :
    Readable event ↔ PlainTime (Script.keptEnd a req) ∧ PlainTime req.nowMs.val := by
  have hkeys : k.Representable := hrun.preserves
    (fun _ _ _ hstep => representable_step hstep.1 hstep.2) (representable_forgotten rfl rfl)
  obtain ⟨req', a', d, hpayload', hacc, rfl⟩ := appended_accepts hevent
  cases hpayload.symm.trans hpayload'
  cases hk.symm.trans hacc.loaded
  rw [← req.now_eq]
  exact hacc.readable_iff hkeys

namespace Sample

/-- The auction of `scheduledTables` with another end. -/
def endingTables (endTime : DateMs) : Tables where
  products := fun productId =>
    ((scheduledTables .active opening).products productId).map
      fun product => { product with endTime := some endTime }

def loading (endTime : DateMs) : EngineAction :=
  .bootstrap (endingTables endTime) opening false false

def loaded (endTime : DateMs) : AuctionKeys := (loading endTime).apply 1 {}

theorem loaded_run (endTime : DateMs) :
    Run (Guarded (EngineAction.ReadsRow 1) (Does (EngineAction.apply 1))) {} [loading endTime]
      (loaded endTime) := by
  refine .cons ⟨fun product hproduct => ?_, rfl⟩ (.refl _)
  simp only [endingTables, scheduledTables, if_true, Option.map_some, Option.mem_def,
    Option.some.injEq] at hproduct
  subst hproduct
  simp [ProductRow.Fits, fitsBigint, maxVnd]

def openingBid : Call := call 1 .bid 2 (some "200")

/-- The bid is accepted: it appends an event. -/
theorem openingBid_appended (endTime : DateMs)
    (h : ((request openingBid).bind fun req => Script.acceptance req (loaded endTime)).isSome) :
    ∃ req a d, openingBid.payload = .ok req ∧ (loaded endTime).auction = some a ∧
      Script.acceptance req (loaded endTime) = some (a, d) ∧
      (mutate openingBid (loaded endTime)).2.stream =
        (loaded endTime).stream ++ [Script.event a req d] := by
  obtain ⟨⟨a, d⟩, hfound⟩ := Option.isSome_iff_exists.mp h
  obtain ⟨req, hreq, hacc⟩ := Option.bind_eq_some_iff.mp hfound
  obtain ⟨req', hpayload⟩ := exists_payload (c := openingBid) (by simp [hreq])
  obtain rfl : req = req' := by simpa [request, hpayload, Except.toOption] using hreq.symm
  have haccepts := accepts_of_acceptance hacc
  refine ⟨req, a, d, hpayload, haccepts.loaded, hacc, ?_⟩
  rw [haccepts.mutate_eq hpayload (by decide)]
  rfl

end Sample

/-- With an end in 1970 the event of a first bid is readable. -/
theorem appended_readable_sample : ∃ event,
    (mutate Sample.openingBid (Sample.loaded ⟨1000, by decide⟩)).2.stream =
      (Sample.loaded ⟨1000, by decide⟩).stream ++ [event] ∧ Readable event := by
  obtain ⟨req, a, d, hpayload, hk, hacc, hevent⟩ :=
    Sample.openingBid_appended ⟨1000, by decide⟩ (by decide +kernel)
  refine ⟨_, hevent, (appended_readable_iff (Sample.loaded_run _) hpayload hk hevent).mpr ?_⟩
  have htimes : ((Sample.request Sample.openingBid).bind fun req =>
      (Script.acceptance req (Sample.loaded ⟨1000, by decide⟩)).map fun p =>
        decide (PlainTime (Script.keptEnd p.1 req) ∧ PlainTime req.nowMs.val)) = some true := by
    decide +kernel
  simpa [Sample.request, hpayload, Except.toOption, hacc] using htimes

/-- With an end in the year 5138 it is not. -/
theorem appended_readable_late : ¬ ∀ (productId : Nat) (k : AuctionKeys) (xs : List EngineAction)
    (c : Call) (event : AuctionStreamEvent),
    Run (Guarded (EngineAction.ReadsRow productId) (Does (EngineAction.apply productId)))
    {} xs k →
    (mutate c k).2.stream = k.stream ++ [event] → Readable event := by
  intro h
  obtain ⟨req, a, d, hpayload, _, hacc, hevent⟩ :=
    Sample.openingBid_appended ⟨100000000000000, by decide⟩ (by decide +kernel)
  have hcontract : ((Sample.request Sample.openingBid).bind fun req =>
      (Script.acceptance req (Sample.loaded ⟨100000000000000, by decide⟩)).map fun p =>
        decide (contractHolds (Script.event p.1 req p.2))) = some false := by
    decide +kernel
  have hreadable := h 1 _ _ _ _ (Sample.loaded_run ⟨100000000000000, by decide⟩) hevent
  simp [Sample.request, hpayload, Except.toOption, hacc, (parseEvent_ok hreadable.parsed).2]
    at hcontract

end MiracleAuction
