import MiracleAuction.Projection.BannedLeader
import MiracleAuction.Projection.Completion

/-!
# Rebuilds

A rebuild computes an auction anew from its tables. The maxima, which a run updates one by
one, are then aggregated over the history; both ways end in the same auction.
-/
namespace MiracleAuction
open Decimal

/-! ## Maxima of a history -/

namespace Bootstrap
variable {T T' : Tables} {productId u target : Nat}

theorem maximumByUser_getD (T : Tables) (productId u : Nat) :
    (maximumByUser T productId u).getD 0 = maximumOf T productId u := by
  unfold maximumByUser
  split
  · rfl
  · rename_i hnone
    have hnil : (standingRows T productId).filter (·.userId = u) = [] := by
      refine List.filter_eq_nil_iff.mpr fun row hrow huser => hnone ?_
      exact List.mem_map.mpr ⟨row, hrow, of_decide_eq_true huser⟩
    simp [maximumOf, hnil]

/-- The row of a bid adds to its bidder's maximum. -/
theorem maximumByUser_append {row : HistoryRow} {maximum : Bigint}
    (h : T'.history = T.history ++ [row]) (hproduct : row.productId = productId)
    (hstanding : row.banned = false) (hmaximum : row.maxPrice = some maximum) :
    maximumByUser T' productId u =
      if u = row.userId then some (max ((maximumByUser T productId u).getD 0) maximum.val)
      else maximumByUser T productId u := by
  have hrows : standingRows T' productId = standingRows T productId ++ [row] := by
    simp [standingRows, h, hproduct, hstanding]
  have hof : maximumOf T' productId u =
      if u = row.userId then max (maximumOf T productId u) maximum.val
      else maximumOf T productId u := by
    unfold maximumOf
    rw [hrows]
    split
    · rename_i huser
      simp [huser, hmaximum]
    · rename_i huser
      simp [Ne.symm huser]
  rw [maximumByUser_getD]
  unfold maximumByUser
  rw [hrows, hof]
  by_cases huser : u = row.userId
  · simp [huser]
  · simp [huser]

/-- The mark of a ban takes away its target's maximum. -/
theorem maximumByUser_mark (h : T'.history = Tables.markRows productId target T.history) :
    maximumByUser T' productId u = if u = target then none else maximumByUser T productId u := by
  have hrows : standingRows T' productId =
      (standingRows T productId).filter (·.userId ≠ target) := by
    unfold standingRows Tables.markRows at *
    rw [h, List.filter_filter]
    clear h
    induction T.history with
    | nil => rfl
    | cons row rows ih =>
      rw [List.map_cons, List.filter_cons, List.filter_cons, ih]
      by_cases hproduct : row.productId = productId
      · by_cases huser : row.userId = target
        · simp [hproduct, huser]
        · cases hbanned : row.banned <;> simp [hproduct, huser, hbanned]
      · simp [hproduct]
  unfold maximumByUser maximumOf
  rw [hrows]
  by_cases htarget : u = target
  · subst htarget
    simp
  · have hfilter : ((standingRows T productId).filter (·.userId ≠ target)).filter
        (·.userId = u) =
        (standingRows T productId).filter (·.userId = u) := by
      rw [List.filter_filter]
      refine List.filter_congr fun row _ => ?_
      by_cases huser : row.userId = u <;> simp [huser, htarget]
    rw [hfilter, if_neg htarget]
    congr 1
    simp only [List.mem_map, List.mem_filter, decide_eq_true_eq, eq_iff_iff]
    constructor
    · rintro ⟨row, ⟨hrow, _⟩, huser⟩
      exact ⟨row, hrow, huser⟩
    · rintro ⟨row, hrow, huser⟩
      exact ⟨row, ⟨hrow, by rw [huser]; exact htarget⟩, huser⟩

theorem maximumByUser_congr (h : T'.history = T.history) :
    maximumByUser T' productId u = maximumByUser T productId u := by
  unfold maximumByUser maximumOf standingRows
  rw [h]

end Bootstrap

/-! ## The mirror -/

/-- The fields of a hash that no command changes. -/
structure SameTerms (h h' : StateHash) : Prop where
  productId : h'.productId = h.productId
  sellerId : h'.sellerId = h.sellerId
  startAtMs : h'.startAtMs = h.startAtMs
  startPriceVnd : h'.startPriceVnd = h.startPriceVnd
  stepPriceVnd : h'.stepPriceVnd = h.stepPriceVnd
  buyNowPriceVnd : h'.buyNowPriceVnd = h.buyNowPriceVnd
  autoExtend : h'.autoExtend = h.autoExtend
  antiSnipeWindowMs : h'.antiSnipeWindowMs = h.antiSnipeWindowMs
  antiSnipeExtensionMs : h'.antiSnipeExtensionMs = h.antiSnipeExtensionMs

/-- The tables hold what an auction is rebuilt from, beside the snapshot of its product. -/
structure Mirrors (productId : Nat) (T : Tables) (a : Auction) : Prop where
  ranked : Ranked a.sets
  maxima : ∀ u, a.sets.maxima u = Bootstrap.maximumByUser T productId u
  bans : ∀ u, u ∈ a.sets.bans ↔ T.Banned productId u
  leaderMax : a.hash.status.isTerminal = false →
    a.hash.leaderMaxPriceVnd = a.hash.leaderId.map fun u => (a.sets.maxima u).getD 0
  row : ∃ product, T.products productId = some product ∧
    (∀ now, SameTerms (Bootstrap.seedState T productId product now) a.hash) ∧
    (a.hash.status = .active → a.deadline = product.endTime.map Subtype.val)

section
variable {productId : Nat} {T T' : Tables} {a : Auction} {req : Request} {d : Decision}
  {entry : RedisStreamEntry} {product : ProductRow} {now : DateMs}

theorem Loaded.mirrors (h : Loaded T productId product now a)
    (hproduct : T.products productId = some product) : Mirrors productId T a where
  ranked := h.ranked
  maxima := h.maxima
  bans := h.bans
  leaderMax := by
    intro _
    rw [h.hash]
    simp only [Bootstrap.seedState, h.maxima]
  row := by
    refine ⟨product, hproduct, fun _ => ?_, fun hactive => by rw [h.deadline, if_pos hactive]⟩
    rw [h.hash]
    exact ⟨rfl, rfl, rfl, rfl, rfl, rfl, rfl, rfl, rfl⟩

namespace Script

/-- A command that leaves the auction open leaves its leader's maximum in the hash. -/
theorem write_leaderMax (hd : Decided a req d) (hranked : Ranked a.sets)
    (h : a.hash.leaderMaxPriceVnd = a.hash.leaderId.map fun u => (a.sets.maxima u).getD 0)
    (hopen : (write a req d).hash.status.isTerminal = false) :
    (write a req d).hash.leaderMaxPriceVnd =
      (write a req d).hash.leaderId.map fun u => ((write a req d).sets.maxima u).getD 0 := by
  cases hd with
  | bid hop =>
    simp only [write, update_bid hop, bidSets]
    have hcases := proxyBid_cases a.hash req.actor req.amount
    generalize proxyBid a.hash req.actor req.amount = proxied at hcases
    cases hcases with
    | first => simp
    | raised => simp
    | outbid hl hne => simpa [hl, Function.update_of_ne hne] using h
    | overtakes => simp
  | @ban target hop _ _ hnamed =>
    simp only [write, update_ban hop hnamed]
    split
    · exact (hranked.ban target).elected_maximum a.hash _
    · rename_i hne
      simp only [unchanged, banSets, h]
      refine Option.map_congr fun u hu => ?_
      rw [Function.update_of_ne]
      rintro rfl
      exact hne hu
  | buyNow => simp [write, AuctionStatus.isTerminal] at hopen
  | close => simp [write, AuctionStatus.isTerminal] at hopen
  | cancel => simp [write, AuctionStatus.isTerminal] at hopen

/-- The maxima of Redis and of the history change alike. -/
theorem write_maxima (hd : Decided a req d) (hproduct : a.hash.productId = productId)
    (hmaxima : ∀ u, a.sets.maxima u = Bootstrap.maximumByUser T productId u)
    (happlied : Applied entry (event a req d) T T') (u : Nat) :
    (write a req d).sets.maxima u = Bootstrap.maximumByUser T' productId u := by
  have hwrites := happlied.history
  have htype : (event a req d).type = req.operation.eventType := hd.eventType_eq
  generalize hhistory : T'.history = history at hwrites
  cases hwrites with
  | @bid maximum hbid hmaximum =>
    have hop : req.operation = .bid := by
      rw [htype] at hbid
      cases hop : req.operation <;> simp [hop, Operation.eventType] at hbid ⊢
    have hactor : (Projector.historyRow (event a req d) maximum).userId = req.actor := rfl
    rw [Bootstrap.maximumByUser_append hhistory hproduct rfl rfl, hactor]
    have hamount : maximum.val = req.amount := by
      simpa [event, hop, Operation.isBidding] using hmaximum.symm
    cases hd with
    | bid _ _ _ _ hincreased =>
      simp only [write, update_bid hop, bidSets]
      by_cases hu : u = req.actor
      · subst hu
        rw [Function.update_self, if_pos rfl, hamount, ← hmaxima]
        cases hprevious : a.sets.maxima req.actor with
        | none => simp
        | some previous => simp [le_of_lt (hincreased previous hprevious)]
      · rw [Function.update_of_ne hu, if_neg hu, hmaxima]
    | ban h => simp [hop] at h
    | buyNow h => simp [hop] at h
    | close h => simp [hop] at h
    | cancel h => simp [hop] at h
  | @ban target hban htarget =>
    have hop : req.operation = .ban := by
      rw [htype] at hban
      cases hop : req.operation <;> simp [hop, Operation.eventType] at hban ⊢
    have hmark : T'.history = Tables.markRows productId target T.history := by
      rw [← hproduct]
      exact hhistory
    rw [Bootstrap.maximumByUser_mark hmark]
    simp only [write, update_ban hop htarget, banSets]
    by_cases hu : u = target
    · simp [hu]
    · rw [Function.update_of_ne hu, if_neg hu, hmaxima]
  | keeps hbid hban =>
    rw [Bootstrap.maximumByUser_congr hhistory, ← hmaxima]
    have hops : req.operation ≠ .bid ∧ req.operation ≠ .ban := by
      refine ⟨fun hop => hbid (by rw [htype, hop]; rfl), fun hop => ?_⟩
      cases hd with
      | @ban target _ _ _ hnamed =>
        exact hban _ target
          ((event_bans_iff (.ban hop ‹_› ‹_› hnamed ‹_› ‹_›) target).mpr
          ⟨hop, hnamed⟩)
      | bid h => simp [hop] at h
      | buyNow h => simp [hop] at h
      | close h => simp [hop] at h
      | cancel h => simp [hop] at h
    simp only [write, update_of_ne hops.1 hops.2]

end Script

/-- The projection of a command's event restores the mirror. -/
theorem Mirrors.step (h : Mirrors productId T a) (hacc : Accepted a req d)
    (happlied : Applied entry (Script.event a req d) T T') :
    Mirrors productId T' (Script.write a req d) := by
  have hd := Script.operate_ok hacc.decided
  obtain ⟨product, hproduct, hterms, _⟩ := h.row
  have hown : a.hash.productId = productId := (hterms ⟨0, by decide⟩).productId
  refine ⟨ranked_step h.ranked (auctionStep_iff.mpr ⟨d, hacc, rfl⟩),
    Script.write_maxima hd hown h.maxima happlied, fun u => ?_,
    Script.write_leaderMax hd h.ranked (h.leaderMax hacc.isTerminal), ?_⟩
  · rw [Script.write_bans hd, h.bans, hown, happlied.banned]
  · obtain ⟨product', date, hproduct', _, hdate, hproducts⟩ := happlied.product
    have hsame : (Script.event a req d).productId = productId := hown
    rw [hsame, hproduct] at hproduct'
    cases hproduct'
    refine ⟨snapshot (Script.event a req d) date product, ?_, fun now => ?_, fun hactive => ?_⟩
    · rw [hproducts, hsame, Function.update_self]
    · obtain ⟨_, h₂, h₃, h₄, h₅, h₆, h₇, h₈, h₉⟩ := hterms now
      refine ⟨hown, h₂, h₃, h₄, h₅, h₆, h₇, h₈.trans ?_, h₉.trans ?_⟩ <;>
        simp only [Bootstrap.seedState, happlied.settings]
    · -- The projector takes only a date in plain digits, and these are exact.
      obtain ⟨_, hcontract⟩ := parseEvent_ok happlied.parsed
      have hplain := Numeral.plain_of_isDecimal hcontract.2.2.2.1
      obtain ⟨_, hexact⟩ := Lua.tostring_eq_plain
        (show Lua.tostring d.nextEndAtMs = _ from hplain)
      have hnext : (Script.write a req d).deadline = some d.nextEndAtMs := by
        simp only [Script.write, Script.update_nextStatus, Script.update_nextEndAtMs] at hactive ⊢
        rw [if_pos hactive]
      rw [hnext, ← hexact]
      simp only [snapshot, Option.map_some, Tables.toDate_ok hdate]

/-- A run whose events are all projected ends in the mirror of its tables. -/
theorem Mirrors.run {k₀ k₁ : AuctionKeys} {xs : List Action} {events : List AuctionStreamEvent}
    {entries : List RedisStreamEntry} (hrun : AuthorityRun k₀ xs k₁)
    (ha : k₀.auction = some a)
    (h : Mirrors productId T a) (hstream : k₁.stream = k₀.stream ++ events)
    (hentries : entries.map (·.payload) = events.map .event)
    (hprojected : projectAll entries T = some T') :
    ∃ a', k₁.auction = some a' ∧ Mirrors productId T' a' := by
  induction hrun generalizing a T events entries with
  | refl k =>
    obtain rfl : events = [] := by simpa using hstream
    cases List.map_eq_nil_iff.mp hentries
    cases hprojected
    exact ⟨a, ha, h⟩
  | @cons k k' k₁ x xs hx hrun ih =>
    cases actionCases_of_does hx with
    | @accepts c req a₁ d hpayload hacc =>
      cases ha.symm.trans hacc.loaded
      obtain ⟨rest, hrest⟩ := stream_prefix hrun
      have hevents : events = Script.event a req d :: rest := by
        rw [hstream, Script.accept_stream, List.append_assoc, List.append_cancel_left_eq] at hrest
        exact hrest.symm
      rw [hevents] at hentries
      obtain ⟨entry, entries, rfl, hpay, hentries⟩ := List.map_eq_cons_iff.mp hentries
      obtain ⟨T₁, event, happlied, hprojected⟩ := projectAll_cons hprojected
      obtain ⟨hevent, _⟩ := parseEvent_ok happlied.parsed
      cases hpay.symm.trans hevent
      exact ih Script.accept_auction
        (h.step hacc.toAccepted happlied) hrest.symm hentries hprojected
    | keeps hkeeps =>
      exact ih (hkeeps.auction.trans ha) h (by rw [hstream, hkeeps.stream]) hentries hprojected

/-! ## The rebuilt auction -/

theorem Ranked.sets_eq {s s' : BidSets} (hs : Ranked s) (hs' : Ranked s')
    (hmaxima : ∀ u, s.maxima u = s'.maxima u) (hbans : ∀ u, u ∈ s.bans ↔ u ∈ s'.bans) :
    s = s' := by
  have hmaxima' : s.maxima = s'.maxima := funext hmaxima
  have hmembers : s.rankMembers = s'.rankMembers :=
    funext fun u => by rw [hs.rankMembers, hs'.rankMembers, hmaxima]
  have hranking : s.ranking = s'.ranking :=
    SortedSet.ext_mem fun x => by simp only [hs.ranking, hs'.ranking, hmaxima]
  cases s
  cases s'
  simp only [BidSets.mk.injEq]
  exact ⟨hmaxima', hranking, hmembers, Finset.ext hbans⟩

/-- A mirrored auction that agrees with its product is what a bootstrap loads. -/
theorem Mirrors.loaded_eq {k : AuctionKeys} {b : Auction} (h : Mirrors productId T a)
    (ha : k.auction = some a) (hactive : a.hash.status = .active)
    (hconverged : Converges productId k T) (hproduct : T.products productId = some product)
    (hloaded : Loaded T productId product now b) : b = a := by
  obtain ⟨hstate, -, -⟩ : k.state = .hash a.hash ∧ k.sets = a.sets ∧
      k.deadline = a.deadline := by
    unfold AuctionKeys.auction at ha
    split at ha
    · rename_i hash hstate
      cases ha
      exact ⟨hstate, rfl, rfl⟩
    · cases ha
  obtain ⟨hversion, hsequence, hprice, hend, hstatus, hleader, hlast, _⟩ :=
    (converges_iff hproduct hstate).mp hconverged
  obtain ⟨product', hproduct', hterms, hdeadline⟩ := h.row
  cases hproduct.symm.trans hproduct'
  have heffective : Bootstrap.effectiveStatus product now = .active := by
    unfold Bootstrap.effectiveStatus
    rw [if_neg (by simp [← hstatus, hactive]), ← hstatus, hactive]
  have hmax : (Bootstrap.seedState T productId product now).leaderMaxPriceVnd =
      a.hash.leaderMaxPriceVnd := by
    rw [h.leaderMax (by rw [hactive]; rfl), hleader]
    simp only [Bootstrap.seedState, h.maxima]
  have hhash : b.hash = a.hash := by
    rw [hloaded.hash]
    obtain ⟨h₁, h₂, h₃, h₄, h₅, h₆, h₇, h₈, h₉⟩ := hterms now
    revert hmax hactive
    revert hversion hsequence hprice hend hleader hlast h₁ h₂ h₃ h₄ h₅ h₆ h₇ h₈ h₉
    generalize a.hash = hash
    cases hash
    simp only [Bootstrap.seedState, heffective, Bootstrap.timeText]
    rintro rfl rfl rfl rfl rfl rfl rfl rfl rfl rfl rfl rfl rfl rfl rfl rfl rfl
    rfl
  have hsets : b.sets = a.sets := hloaded.ranked.sets_eq h.ranked
    (fun u => by rw [hloaded.maxima, h.maxima]) fun u => by rw [hloaded.bans, h.bans]
  have hindex : b.deadline = a.deadline := by
    rw [hloaded.deadline, hhash, if_pos hactive, hdeadline hactive]
  cases a
  cases b
  simp_all

end

/-- A forced rebuild of an active auction, once its events are projected and it has converged,
loads the same auction again. -/
theorem rebuild_round_trip {productId : Nat} {recovery force recovery' : Bool} {now now' : DateMs}
    {T₀ T : Tables} {k k₀ k₁ k' k₂ : AuctionKeys} {xs : List Action} {a : Auction}
    {events : List AuctionStreamEvent} {entries : List RedisStreamEntry}
    (hunloaded : force = false → Unloaded k)
    (hboot : bootstrapRedisAuction productId recovery force now T₀ k = (.ok true, k₀))
    (hrun : AuthorityRun k₀ xs k₁) (hk₁ : k₁.auction = some a)
    (hactive : a.hash.status = .active) (hstream : k₁.stream = k₀.stream ++ events)
    (hentries : entries.map (·.payload) = events.map .event)
    (hprojected : projectAll entries T₀ = some T) (hconverged : Converges productId k₁ T)
    (hrebuild : bootstrapRedisAuction productId recovery' true now' T k' = (.ok true, k₂)) :
    k₂.auction = some a := by
  obtain ⟨_, _, product₀, a₀, hproduct₀, ha₀, hloaded₀⟩ :=
    bootstrap_loads (fun hforce _ => hunloaded hforce) hboot
  obtain ⟨a', ha', hmirrors⟩ :=
    (hloaded₀.mirrors hproduct₀).run hrun ha₀ hstream hentries hprojected
  cases ha'.symm.trans hk₁
  obtain ⟨_, _, product, b, hproduct, hb, hloaded⟩ := bootstrap_loads (by simp) hrebuild
  rw [hb, hmirrors.loaded_eq hk₁ hactive hconverged hproduct hloaded]

/-- An auction that is open in the tables has no order. -/
theorem Completion.orderCount {productId : Nat} {k₀ k : AuctionKeys} {xs : List Action}
    {events : List AuctionStreamEvent} {T : Tables} {product : ProductRow}
    (h : Completion productId k₀ k xs events T) (hproduct : T.products productId = some product)
    (hopen : product.auctionStatus = .pending ∨ product.auctionStatus = .active) :
    T.orderCount productId = 0 := by
  refine h.unsold fun event hevent hsells => ?_
  have hterminal : event.type.keepsOpen = false := by
    rcases hsells with h | ⟨h, _⟩ <;> rw [h] <;> rfl
  obtain ⟨product', a, hproduct', _, _, _, hstatus, hover⟩ := h.final event hevent hterminal
  cases hproduct.symm.trans hproduct'
  rw [← hstatus] at hover
  rcases hopen with h | h <;> rw [h] at hover <;> cases hover

/-- A recovery's rebuild of an open product reconciles, unless the row is still `PENDING`
inside its window: then Redis calls it `ACTIVE`. -/
theorem rebuild_converges_iff {productId : Nat} {recovery force : Bool} {now now' : DateMs}
    {T₀ T : Tables} {k k₀ k₁ k' : AuctionKeys} {xs : List Action}
    {events : List AuctionStreamEvent} {entries : List RedisStreamEntry} {product : ProductRow}
    (hnone : T₀.orderCount productId = 0) (hunloaded : force = false → Unloaded k)
    (hboot : bootstrapRedisAuction productId recovery force now T₀ k = (.ok true, k₀))
    (hrun : AuthorityRun k₀ xs k₁) (hstream : k₁.stream = k₀.stream ++ events)
    (hentries : entries.map (·.payload) = events.map .event)
    (hprojected : projectAll entries T₀ = some T) (hproduct : T.products productId = some product)
    (hopen : product.auctionStatus = .pending ∨ product.auctionStatus = .active)
    (hkeys : k'.wrongType = false) :
    Converges productId (bootstrapRedisAuction productId true true now' T k').2 T ↔
      ¬ (product.auctionStatus = .pending ∧
        (∃ start ∈ product.startTime, start.val ≤ now'.val) ∧
        now'.val < (product.endTime.map Subtype.val).getD 0) := by
  have horders := ((completed_once hnone hunloaded hboot hrun hstream).2 entries T hentries
    hprojected).orderCount hproduct hopen
  have hok : (bootstrapRedisAuction productId true true now' T k').1 = .ok true := by
    simp [bootstrapRedisAuction, hproduct, Bootstrap.script, Bootstrap.seed,
      Bootstrap.forget, hkeys]
  obtain ⟨_, _, product', b, hproduct', hb, hloaded⟩ :=
    bootstrap_loads (by simp) (Prod.ext hok rfl)
  cases hproduct.symm.trans hproduct'
  have hstate : (bootstrapRedisAuction productId true true now' T k').2.state = .hash b.hash := by
    unfold AuctionKeys.auction at hb
    split at hb
    · rename_i hash hstate
      cases hb
      exact hstate
    · cases hb
  rw [converges_iff hproduct hstate, hloaded.hash]
  have hexpected : expectedOrderCount (Bootstrap.seedState T productId product now') =
      T.orderCount productId := by
    rw [horders]
    unfold expectedOrderCount
    rw [if_neg]
    simp only [Bootstrap.seedState, Bootstrap.effectiveStatus]
    split
    · simp
    · rcases hopen with h | h <;> simp [h]
  constructor
  · rintro ⟨_, _, _, _, hstatus, _⟩ hdue
    simp only [Bootstrap.seedState, Bootstrap.effectiveStatus] at hstatus
    rw [if_pos hdue, hdue.1] at hstatus
    cases hstatus
  · intro hdue
    refine ⟨rfl, rfl, rfl, rfl, ?_, rfl, rfl, hexpected⟩
    simp only [Bootstrap.seedState, Bootstrap.effectiveStatus]
    rw [if_neg hdue]

namespace Sample

def biddenKeys : AuctionKeys := bids.foldl Action.apply bootKeys

def midway : DateMs := .early 500

/-- A product that is created before its start. -/
def pendingProduct : ProductRow :=
  { product with startTime := some (.early 100), auctionStatus := .pending }

def pendingTables : Tables where
  products := fun productId => if productId = 1 then some pendingProduct else none
  users := {2, 3, 4, 9}

def pendingKeys : AuctionKeys :=
  (bootstrapRedisAuction 1 false false (.early 5) pendingTables {}).2

theorem pending_booted :
    bootstrapRedisAuction 1 false false ⟨5, by decide⟩ pendingTables {} =
      (.ok true, pendingKeys) :=
  Prod.ext (by decide +kernel) rfl

end Sample

/-- Two bids survive the loss of all keys. -/
theorem rebuild_round_trip_sample : ∃ T a,
    projectAll (Sample.entries Sample.biddenKeys.stream) Sample.tables = some T ∧
      Sample.biddenKeys.auction = some a ∧
      (bootstrapRedisAuction 1 true true Sample.midway T {}).2.auction = some a := by
  have hfacts : (projectAll (Sample.entries Sample.biddenKeys.stream) Sample.tables).map (fun T =>
      decide (Converges 1 Sample.biddenKeys T ∧
        (bootstrapRedisAuction 1 true true Sample.midway T {}).1 = .ok true)) = some true := by
    decide +kernel
  obtain ⟨T, hT, hfacts⟩ := Option.map_eq_some_iff.mp hfacts
  obtain ⟨hconverged, hok⟩ := of_decide_eq_true hfacts
  have hactive : Sample.biddenKeys.auction.map (·.hash.status) = some .active := by decide +kernel
  obtain ⟨a, ha, hactive⟩ := Option.map_eq_some_iff.mp hactive
  have hrun : AuthorityRun Sample.bootKeys _ Sample.biddenKeys := run_does_iff.mpr rfl
  exact ⟨T, a, hT, ha, rebuild_round_trip
    (fun _ => ⟨rfl, rfl, rfl⟩) Sample.booted hrun ha hactive
    rfl (Sample.entries_payload _) hT hconverged (Prod.ext hok rfl)⟩

/-- The same rebuild reconciles. -/
theorem rebuild_converges_sample : ∃ T,
    projectAll (Sample.entries Sample.biddenKeys.stream) Sample.tables = some T ∧
      Converges 1 (bootstrapRedisAuction 1 true true Sample.midway T {}).2 T := by
  have hfacts : (projectAll (Sample.entries Sample.biddenKeys.stream) Sample.tables).map (fun T =>
      (T.products 1).map (·.auctionStatus)) = some (some .active) := by decide +kernel
  obtain ⟨T, hT, hfacts⟩ := Option.map_eq_some_iff.mp hfacts
  obtain ⟨product, hproduct, hactive⟩ := Option.map_eq_some_iff.mp hfacts
  have hrun : AuthorityRun Sample.bootKeys _ Sample.biddenKeys := run_does_iff.mpr rfl
  have hnone : Sample.tables.orderCount 1 = 0 := rfl
  exact ⟨T, hT, (rebuild_converges_iff hnone (fun _ => ⟨rfl, rfl, rfl⟩) Sample.booted hrun rfl
    (Sample.entries_payload _) hT hproduct (.inr hactive) rfl).mpr (by simp [hactive])⟩

/-- A row that is `PENDING` past its start is rebuilt as `ACTIVE`, and does not reconcile. -/
theorem rebuild_diverges : ¬ ∀ (productId : Nat) (now now' : DateMs) (T₀ T : Tables)
    (k₀ k₁ k' : AuctionKeys) (xs : List Action) (events : List AuctionStreamEvent)
    (entries : List RedisStreamEntry) (product : ProductRow),
    T₀.orderCount productId = 0 →
    bootstrapRedisAuction productId false false now T₀ {} = (.ok true, k₀) →
    AuthorityRun k₀ xs k₁ → k₁.stream = k₀.stream ++ events →
    entries.map (·.payload) = events.map .event → projectAll entries T₀ = some T →
    T.products productId = some product →
    product.auctionStatus = .pending ∨ product.auctionStatus = .active →
    product.isRemoved ≠ some true → k'.wrongType = false →
    Converges productId (bootstrapRedisAuction productId true true now' T k').2 T := by
  intro h
  have hconverges := h 1 ⟨5, by decide⟩ Sample.midway Sample.pendingTables Sample.pendingTables
    Sample.pendingKeys Sample.pendingKeys {} [] [] [] Sample.pendingProduct rfl
    Sample.pending_booted (.refl _) (by simp) rfl rfl rfl (.inl rfl) (by decide) rfl
  revert hconverges
  decide +kernel

end MiracleAuction
