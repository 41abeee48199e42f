import MiracleAuction.Projection.Insertion
import MiracleAuction.Projection.Readable

/-!
# What the stream holds can be stored

The script is the only writer of the stream. An event that it has appended, and that the parser
accepts, has a snapshot that the row of its product can hold.
-/
namespace MiracleAuction
open Decimal

/-- The users whom the keys name fit the column of a user id. -/
structure AuctionKeys.NamesUsers (k : AuctionKeys) : Prop where
  leader : ∀ a, k.auction = some a → ∀ l ∈ a.hash.leaderId, fitsBigint l
  bidders : ∀ x ∈ k.sets.ranking, fitsBigint (Money.rankedBidder x)

/-- A bootstrap reads rows of the tables: the columns of prices and user ids are of type
`BIGINT`. -/
def EngineAction.ReadsTables (productId : Nat) (k : AuctionKeys) (x : EngineAction) : Prop :=
  x.ReadsRow productId k ∧
    match x with
    | .bootstrap T _ _ _ =>
      (∀ product ∈ T.products productId, ∀ owner ∈ product.priceOwnerId,
        fitsBigint owner) ∧
        ∀ row ∈ T.history, fitsBigint row.userId
    | _ => True

/-- Runs of the engine from empty keys. -/
abbrev EngineRuns (productId : Nat) :=
  Run (Guarded (EngineAction.ReadsTables productId) (Does (EngineAction.apply productId))) {}

/-- The entry is in the stream of some state of the engine. -/
def Appended (productId : Nat) (entry : RedisStreamEntry) : Prop :=
  ∃ xs k event, EngineRuns productId xs k ∧ event ∈ k.stream ∧ entry.payload = .event event

theorem Request.actor_fits (req : Request) : fitsBigint req.actor := by
  rw [req.actor_eq]
  have hlt := req.actorId.isLt
  unfold fitsBigint maxVnd
  omega

namespace Script
variable {a : Auction} {req : Request} {d : Decision}

/-- The leader after an accepted request is the one before or the one who bids. -/
theorem leader_decided (ha : ∀ l ∈ a.hash.leaderId, fitsBigint l) (h : Decided a req d) :
    ∀ l ∈ d.nextLeaderId, fitsBigint l := by
  have hactor := req.actor_fits
  cases h with
  | bid =>
    have hnext := proxyBid_cases a.hash req.actor req.amount
    generalize proxyBid a.hash req.actor req.amount = next at hnext
    cases hnext with
    | first => simpa using hactor
    | raised => simpa using hactor
    | outbid hl => exact fun l hmem => ha l (hl ▸ hmem)
    | overtakes => simpa using hactor
  | buyNow => simpa using hactor
  | ban => exact ha
  | close => exact ha
  | cancel => exact ha

/-- A re-election takes the leader from the ranking. -/
theorem leader_reelect {h : StateHash} {ranking : SortedSet Text}
    (hranking : ∀ x ∈ ranking, fitsBigint (Money.rankedBidder x)) :
    ∀ l ∈ (reelect h ranking d).nextLeaderId, fitsBigint l := by
  have htop : ∀ x ∈ ranking.greatest 2, fitsBigint (Money.rankedBidder x) :=
    fun x hx => hranking x (SortedSet.mem_of_mem_greatest hx)
  unfold reelect
  split
  · simp
  · rename_i top heq
    have := htop top (by simp [heq])
    simpa using this
  · rename_i top second rest heq
    have := htop top (by simp [heq])
    simpa using this

/-- The structure updates name users that fit. -/
theorem users_update (ha : ∀ l ∈ a.hash.leaderId, fitsBigint l)
    (hranking : ∀ x ∈ a.sets.ranking, fitsBigint (Money.rankedBidder x)) (h : Decided a req d) :
    (∀ x ∈ (update a req d).1.ranking, fitsBigint (Money.rankedBidder x)) ∧
      ∀ l ∈ (update a req d).2.nextLeaderId, fitsBigint l := by
  have hnext := leader_decided ha h
  cases h with
  | bid hop =>
    rw [update_bid hop]
    refine ⟨fun x hx => ?_, hnext⟩
    simp only [bidSets, SortedSet.mem_insert] at hx
    rcases hx with rfl | hx
    · rw [Money.rankedBidder_rankMember (Money.lt_of_le_maxVnd req.amount_le)]
      exact req.actor_fits
    · exact hranking x (mem_of_mem_zrem hx)
  | ban hop _ _ hnamed =>
    rw [update_ban hop hnamed]
    have hbanned (target : Nat) (d : Decision) :
        ∀ x ∈ (banSets a target d).ranking, fitsBigint (Money.rankedBidder x) :=
      fun x hx => hranking x (mem_of_mem_zrem hx)
    refine ⟨hbanned _ _, ?_⟩
    dsimp only
    split
    · exact leader_reelect (hbanned _ _)
    · exact hnext
  | buyNow hop =>
    rw [update_of_ne (by simp [hop]) (by simp [hop])]
    exact ⟨hranking, hnext⟩
  | close hop =>
    rw [update_of_ne (by simp [hop]) (by simp [hop])]
    exact ⟨hranking, hnext⟩
  | cancel hop =>
    rw [update_of_ne (by simp [hop]) (by simp [hop])]
    exact ⟨hranking, hnext⟩

end Script

/-! ## The invariant of the engine -/

/-- The keys name amounts and users that fit, and so does every event of the stream that the parser
accepts. -/
structure AuctionKeys.Storable (k : AuctionKeys) : Prop where
  amounts : k.Representable
  users : k.NamesUsers
  events : ∀ event ∈ k.stream, contractHolds event → event.StoresSnapshot

theorem namesUsers_forgotten {k : AuctionKeys} (hstate : k.state = .absent)
    (hsets : k.sets = .empty) : k.NamesUsers where
  leader := by simp [AuctionKeys.auction_of_absent hstate]
  bidders := by simp [hsets, BidSets.empty]

theorem Accepts.sets_eq {k : AuctionKeys} {req : Request} {a : Auction} {d : Decision}
    (h : Accepts k req a d) : a.sets = k.sets := by
  have hloaded := h.loaded
  unfold AuctionKeys.auction at hloaded
  split at hloaded
  · cases hloaded
    rfl
  · cases hloaded

/-- The event of an accepted request has a snapshot that can be stored, if the parser accepts it. -/
theorem Accepts.storesSnapshot {k : AuctionKeys} {req : Request} {a : Auction} {d : Decision}
    (hk : k.Storable) (h : Accepts k req a d) (hcontract : contractHolds (Script.event a req d)) :
    (Script.event a req d).StoresSnapshot := by
  have hd := Script.operate_ok h.decided
  refine ⟨?_, ?_, ?_⟩
  · obtain ⟨date, hdate⟩ := PlainTime.toDate (isDecimal_tostring_iff.mp hcontract.2.2.2.1)
    unfold Tables.toDate at hdate
    split at hdate
    · rename_i hbound
      exact hbound
    · cases hdate
  · exact (Script.representable_decided (hk.amounts.hash a h.loaded) hd).1
  · exact Script.leader_decided (hk.users.leader a h.loaded) hd

theorem storable_accept {k : AuctionKeys} {req : Request} {a : Auction} {d : Decision}
    (hk : k.Storable) (h : Accepts k req a d) : (Script.accept a req k d).Storable := by
  obtain ⟨hranking, hleader⟩ := Script.users_update (hk.users.leader a h.loaded)
    (by rw [h.sets_eq]; exact hk.users.bidders) (Script.operate_ok h.decided)
  refine ⟨representable_accept hk.amounts h, ⟨fun a' ha' => ?_, hranking⟩, ?_⟩
  · rw [Script.accept_auction] at ha'
    cases ha'
    exact hleader
  · intro event hevent hcontract
    rw [Script.accept_stream] at hevent
    rcases List.mem_append.mp hevent with hold | hnew
    · exact hk.events event hold hcontract
    · obtain rfl := List.mem_singleton.mp hnew
      exact h.storesSnapshot hk hcontract

theorem Keeps.storable {k k' : AuctionKeys} (h : Keeps k k') (hk : k.Storable) : k'.Storable where
  amounts := h.representable hk.amounts
  users :=
    { leader := fun a ha => hk.users.leader a (h.auction.symm.trans ha)
      bidders := by rw [h.sets]; exact hk.users.bidders }
  events := by rw [h.stream]; exact hk.events

/-- A bootstrap keeps the stream, and loads users from the tables. -/
theorem bootstrap_users {T : Tables} {productId : Nat} {now : DateMs} {recovery force : Bool}
    {k : AuctionKeys} (hk : k.NamesUsers)
    (howner : ∀ product ∈ T.products productId, ∀ owner ∈ product.priceOwnerId,
      fitsBigint owner)
    (hhistory : ∀ row ∈ T.history, fitsBigint row.userId) :
    (bootstrapRedisAuction productId recovery force now T k).2.NamesUsers ∧
      (bootstrapRedisAuction productId recovery force now T k).2.stream = k.stream := by
  have hbase : (if force then Bootstrap.forget k else k).NamesUsers := by
    split
    · exact namesUsers_forgotten rfl rfl
    · exact hk
  have hstream : (if force then Bootstrap.forget k else k).stream = k.stream := by
    split <;> rfl
  generalize hbasis : (if force then Bootstrap.forget k else k) = k₀ at hbase hstream
  unfold bootstrapRedisAuction
  rw [hbasis]
  split
  · exact ⟨hk, rfl⟩
  · exact ⟨hk, rfl⟩
  split
  · exact ⟨hk, rfl⟩
  rename_i product hproduct
  unfold Bootstrap.script
  split
  · exact ⟨hbase, hstream⟩
  split
  · split
    · exact ⟨hbase, hstream⟩
    · obtain ⟨_, _, _, hranking⟩ :=
        Bootstrap.foldl_addMaximum (Bootstrap.maximumOf T productId)
        ((Bootstrap.standingRows T productId).map (·.userId)).dedup k₀.sets
      refine ⟨⟨fun a ha => ?_, fun x hx => ?_⟩, hstream⟩
      · cases ha
        exact howner product hproduct
      · rcases (hranking x).mp hx with hx | ⟨u, hu, rfl⟩
        · exact hbase.bidders x hx
        · rw [Money.rankedBidder_rankMember
            (Money.lt_of_le_maxVnd (Bootstrap.maximumOf_le _ _ _))]
          obtain ⟨row, hrow, rfl⟩ := List.mem_map.mp (List.mem_dedup.mp hu)
          exact hhistory row (List.mem_filter.mp hrow).1
  · exact ⟨hbase, hstream⟩

theorem storable_step {productId : Nat} {k k' : AuctionKeys} {x : EngineAction}
    (hreads : x.ReadsTables productId k) (h : Does (EngineAction.apply productId) k x k')
    (hk : k.Storable) : k'.Storable := by
  have hamounts := representable_step hreads.1 h hk.amounts
  cases x with
  | act x =>
    cases actionCases_of_does h with
    | accepts _ hacc => exact storable_accept hk hacc
    | keeps hkeeps => exact hkeeps.storable hk
  | bootstrap T now recovery force =>
    obtain ⟨howner, hhistory⟩ := hreads.2
    obtain ⟨husers, hstream⟩ := bootstrap_users hk.users howner hhistory
    rw [show k' = (bootstrapRedisAuction productId recovery force now T k).2 from h] at hamounts ⊢
    exact ⟨hamounts, husers, by rw [hstream]; exact hk.events⟩
  | expireTerminal =>
    rw [show k' = EngineAction.expire k from h] at hamounts ⊢
    refine ⟨hamounts, ?_, ?_⟩
    · unfold EngineAction.expire
      split
      · split
        · exact namesUsers_forgotten rfl rfl
        · exact hk.users
      · exact hk.users
    · have hstream : (EngineAction.expire k).stream = k.stream := by
        unfold EngineAction.expire
        split
        · split <;> rfl
        · rfl
      rw [hstream]
      exact hk.events
  | restart =>
    rw [show k' = {} from h]
    exact ⟨representable_forgotten rfl rfl, namesUsers_forgotten rfl rfl, by simp⟩

/-- Every entry of the stream that the parser accepts can be stored. -/
theorem Appended.storesSnapshot {productId : Nat} {entry : RedisStreamEntry}
    {event : AuctionStreamEvent} (h : Appended productId entry)
    (hparsed : parseEvent entry.payload = .ok event) : event.StoresSnapshot := by
  obtain ⟨xs, k, appended, hrun, hmem, hpayload⟩ := h
  have hempty : ({} : AuctionKeys).Storable :=
    ⟨representable_forgotten rfl rfl, namesUsers_forgotten rfl rfl, by simp⟩
  have hk : k.Storable := hrun.preserves (I := AuctionKeys.Storable)
    (fun _ _ _ hstep => storable_step hstep.1 hstep.2) hempty
  obtain ⟨hpayload', hcontract⟩ := parseEvent_ok hparsed
  cases hpayload.symm.trans hpayload'
  exact hk.events event hmem hcontract

end MiracleAuction
