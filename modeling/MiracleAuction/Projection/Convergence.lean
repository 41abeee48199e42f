import MiracleAuction.Authority.Ranking
import MiracleAuction.Base.FirstMax
import MiracleAuction.Projection.Bootstrap
import MiracleAuction.Projection.Projector

/-!
# Convergence

`reconcileAuctionProjection` compares an auction with its tables. After the
events of a run are projected the two agree, unless the last accepted command
bans the leader: its event is written before the new leader is known.
-/
namespace MiracleAuction
open Decimal

inductive ReconciliationStatus
  | converged | projectionLag | diverged
  deriving DecidableEq, Repr

structure ProjectionReconciliation where
  productId : Nat
  redisVersion : Nat
  postgresVersion : Nat
  redisSequence : Nat
  postgresSequence : Nat
  redisCurrentPriceVnd : Nat
  postgresCurrentPriceVnd : Nat
  redisEndAtMs : Numeral
  postgresEndAtMs : Numeral
  redisStatus : AuctionStatus
  postgresStatus : AuctionStatus
  redisLeaderId : Option Nat
  postgresLeaderId : Option Nat
  redisLastEventId : Option Uuid
  postgresLastEventId : Option Uuid
  redisExpectedOrderCount : Nat
  postgresOrderCount : Nat
  status : ReconciliationStatus
  deriving DecidableEq

/-- The order that a sold auction and an ended one with a leader should have. -/
def expectedOrderCount (h : StateHash) : Nat :=
  if h.status = .sold ∨ h.status = .ended ∧ h.leaderId ≠ none then 1 else 0

def Tables.orderCount (T : Tables) (productId : Nat) : Nat :=
  (T.orders.filter (·.productId = productId)).length

/-- The four reads of a reconciliation are made side by side: the state hash, the row of the
product, its latest transition and its orders. -/
def reconcileAuctionProjectionAt (productId : Nat) (k : AuctionKeys)
    (products transitions orders : Tables) : Except String ProjectionReconciliation :=
  match products.products productId, k.state with
  | some product, .hash h =>
    let postgresCurrentPriceVnd := (product.currentPrice.or product.startPrice).getD 0
    let postgresLastEventId := (transitions.latestTransition productId).map (·.eventId)
    let postgresEndAtMs := Numeral.plain ((product.endTime.map Subtype.val).getD 0)
    let sameVersion := h.version = product.auctionVersion ∧ h.sequence = product.auctionSequence
    let sameSnapshot := sameVersion ∧ h.sequence = product.auctionSequence ∧
      h.currentPriceVnd = postgresCurrentPriceVnd ∧ h.endAtMs = postgresEndAtMs ∧
      h.status = product.auctionStatus ∧ h.leaderId = product.priceOwnerId ∧
      h.lastEventId = postgresLastEventId ∧ expectedOrderCount h = orders.orderCount productId
    .ok
      { productId := productId
        redisVersion := h.version
        postgresVersion := product.auctionVersion
        redisSequence := h.sequence
        postgresSequence := product.auctionSequence
        redisCurrentPriceVnd := h.currentPriceVnd
        postgresCurrentPriceVnd := postgresCurrentPriceVnd
        redisEndAtMs := h.endAtMs
        postgresEndAtMs := postgresEndAtMs
        redisStatus := h.status
        postgresStatus := product.auctionStatus
        redisLeaderId := h.leaderId
        postgresLeaderId := product.priceOwnerId
        redisLastEventId := h.lastEventId
        postgresLastEventId := postgresLastEventId
        redisExpectedOrderCount := expectedOrderCount h
        postgresOrderCount := orders.orderCount productId
        status :=
          if sameSnapshot then .converged
          else if product.auctionVersion ≤ h.version ∧
            product.auctionSequence ≤ h.sequence ∧
              ¬ sameVersion then .projectionLag
          else .diverged }
  | _, _ => .error ("Cannot reconcile incomplete auction " ++ toString productId)

/-- The reads of one moment. -/
def reconcileAuctionProjection (productId : Nat) (k : AuctionKeys) (T : Tables) :
    Except String ProjectionReconciliation :=
  reconcileAuctionProjectionAt productId k T T T

/-- The reconciliation of the auction reports `converged`. -/
def Converges (productId : Nat) (k : AuctionKeys) (T : Tables) : Prop :=
  (reconcileAuctionProjection productId k T).map (·.status) = .ok .converged

instance (productId : Nat) (k : AuctionKeys) (T : Tables) : Decidable (Converges productId k T) :=
  inferInstanceAs (Decidable (_ = _))

/-- Convergence, field by field. -/
theorem converges_iff {productId : Nat} {k : AuctionKeys} {T : Tables} {product : ProductRow}
    {h : StateHash} (hproduct : T.products productId = some product) (hstate : k.state = .hash h) :
    Converges productId k T ↔
      h.version = product.auctionVersion ∧ h.sequence = product.auctionSequence ∧
      h.currentPriceVnd = (product.currentPrice.or product.startPrice).getD 0 ∧
      h.endAtMs = .plain ((product.endTime.map Subtype.val).getD 0) ∧
      h.status = product.auctionStatus ∧ h.leaderId = product.priceOwnerId ∧
      h.lastEventId = (T.latestTransition productId).map (·.eventId) ∧
      expectedOrderCount h = T.orderCount productId := by
  unfold Converges reconcileAuctionProjection reconcileAuctionProjectionAt
  rw [hproduct, hstate]
  simp only [Except.map, Except.ok.injEq]
  split
  · rename_i hsame
    simp only [true_iff]
    tauto
  · rename_i hsame
    split <;> simp only [reduceCtorEq, false_iff] <;> tauto

/-! ## Projecting a run -/

/-- The entries are all applied, one after the other. -/
def projectAll (entries : List RedisStreamEntry) (T : Tables) : Option Tables :=
  entries.foldlM
    (fun T entry =>
      match projectAuctionEntry entry T with
      | .ok (.applied, T') => some T'
      | _ => none) T

/-- No transition is ahead of its product. -/
def Tables.Fenced (T : Tables) : Prop :=
  ∀ t ∈ T.transitions, ∀ product, T.products t.productId = some product →
    t.sequence ≤ product.auctionSequence

theorem Applied.fenced {entry : RedisStreamEntry} {event : AuctionStreamEvent} {T T' : Tables}
    (h : Applied entry event T T') (hT : T.Fenced) : T'.Fenced := by
  obtain ⟨product, date, hproduct, hsequence, _, hproducts⟩ := h.product
  intro t ht row hrow
  rw [h.transitions] at ht
  rw [hproducts] at hrow
  by_cases hp : t.productId = event.productId
  · rw [hp, Function.update_self, Option.some.injEq] at hrow
    subst hrow
    change t.sequence ≤ event.sequence
    rcases List.mem_append.mp ht with ht | ht
    · have := hT t ht product (by rw [hp, hproduct])
      omega
    · rw [List.mem_singleton.mp ht]
      exact Nat.le_refl _
  · rw [Function.update_of_ne hp] at hrow
    rcases List.mem_append.mp ht with ht | ht
    · exact hT t ht row hrow
    · rw [List.mem_singleton.mp ht] at hp
      exact absurd rfl hp

/-- The transition of an applied event is its product's newest. -/
theorem Applied.latest {entry : RedisStreamEntry} {event : AuctionStreamEvent} {T T' : Tables}
    (h : Applied entry event T T') (hT : T.Fenced) :
    T'.latestTransition event.productId = some (Projector.transitionRow event) := by
  obtain ⟨product, date, hproduct, hsequence, _⟩ := h.product
  unfold Tables.latestTransition
  rw [h.transitions, List.filter_append]
  have hown : [Projector.transitionRow event].filter (·.productId = event.productId) =
      [Projector.transitionRow event] := by simp [Projector.transitionRow]
  rw [hown]
  refine List.argmax_concat_of_lt fun t ht => ?_
  obtain ⟨ht, hp⟩ := List.mem_filter.mp ht
  have := hT t ht product (by rw [of_decide_eq_true hp, hproduct])
  change t.sequence < event.sequence
  omega

theorem Applied.orderCount {entry : RedisStreamEntry} {event : AuctionStreamEvent} {T T' : Tables}
    (h : Applied entry event T T') :
    T'.orderCount event.productId =
      T.orderCount event.productId + (Projector.orderRows event).length := by
  unfold Tables.orderCount
  rw [h.orders, List.filter_append, List.length_append]
  congr 2
  refine List.filter_eq_self.mpr fun order horder => ?_
  exact decide_eq_true (Projector.mem_orderRows horder).2.2

/-! ## The events of a run -/

/-- The auction that a run has reached, and the events it has appended. -/
structure RunState (productId : Nat) (k₀ k : AuctionKeys) (a : Auction)
    (events : List AuctionStreamEvent) : Prop where
  loaded : k.auction = some a
  appended : k.stream = k₀.stream ++ events
  product : a.hash.productId = productId
  ranked : Ranked a.sets
  own : ∀ e ∈ events, e.productId = productId
  ongoing : a.hash.status.isTerminal = false → ∀ e ∈ events, e.type.keepsOpen

theorem Accepted.isTerminal {a : Auction} {req : Request} {d : Decision} (h : Accepted a req d) :
    a.hash.status.isTerminal = false := by
  rcases (Script.operate_ok h.decided).standing with h | h <;> rw [h] <;> rfl

theorem runState_step {productId : Nat} {k₀ k k' : AuctionKeys} {x : Action} {a : Auction}
    {events : List AuctionStreamEvent} (h : Does Action.apply k x k')
    (hs : RunState productId k₀ k a events) :
    ∃ a' events', RunState productId k₀ k' a' events' := by
  cases actionCases_of_does h with
  | @accepts c req a₁ d hpayload hacc =>
    cases hs.loaded.symm.trans hacc.loaded
    refine ⟨Script.write a req d, events ++ [Script.event a req d], rfl, ?_, hs.product, ?_,
      ?_, ?_⟩
    · rw [Script.accept_stream, hs.appended, List.append_assoc]
    · exact ranked_step hs.ranked (auctionStep_iff.mpr ⟨d, hacc.toAccepted, rfl⟩)
    · intro e he
      rcases List.mem_append.mp he with he | he
      · exact hs.own e he
      · rw [List.mem_singleton.mp he]
        exact hs.product
    · intro hopen e he
      rcases List.mem_append.mp he with he | he
      · exact hs.ongoing hacc.isTerminal e he
      · rw [List.mem_singleton.mp he]
        rcases (Script.operate_ok hacc.decided).open_or_over with hd | hd
        · exact hd.2
        · simp [Script.write, hd] at hopen
  | keeps hkeeps =>
    exact ⟨a, events, hkeeps.auction.trans hs.loaded, hkeeps.stream.trans hs.appended, hs.product,
      hs.ranked, hs.own, hs.ongoing⟩

theorem runState_run {productId : Nat} {k₀ k : AuctionKeys} {xs : List Action} {a₀ : Auction}
    (h : AuthorityRun k₀ xs k) (hs : RunState productId k₀ k₀ a₀ []) :
    ∃ a events, RunState productId k₀ k a events :=
  h.preserves (I := fun k => ∃ a events, RunState productId k₀ k a events)
    (fun _ _ _ hstep ⟨_, _, hs⟩ => runState_step hstep hs) ⟨a₀, [], hs⟩

/-- A run from a bootstrapped auction. -/
theorem runState_of_bootstrap {productId : Nat} {recovery force : Bool} {now : DateMs} {T : Tables}
    {k k₀ k₁ : AuctionKeys} {xs : List Action} (hunloaded : force = false → Unloaded k)
    (hboot : bootstrapRedisAuction productId recovery force now T k = (.ok true, k₀))
    (hrun : AuthorityRun k₀ xs k₁) : ∃ a events, RunState productId k₀ k₁ a events := by
  obtain ⟨_, _, product, a₀, _, ha₀, hloaded⟩ :=
    bootstrap_loads (fun hforce _ => hunloaded hforce) hboot
  have hstart : RunState productId k₀ k₀ a₀ [] :=
    ⟨ha₀, by simp, by rw [hloaded.hash]; rfl, hloaded.ranked, by simp, by simp⟩
  exact runState_run hrun hstart

/-- The events of an open auction create no order. -/
theorem Projector.orderRows_of_keepsOpen {event : AuctionStreamEvent} (h : event.type.keepsOpen) :
    orderRows event = [] := by
  refine List.eq_nil_iff_forall_not_mem.mpr fun order horder => ?_
  rcases (mem_orderRows horder).1 with htype | htype <;> simp [htype, EventType.keepsOpen] at h

theorem projectAll_append {xs ys : List RedisStreamEntry} {T T' : Tables} :
    projectAll (xs ++ ys) T = some T' ↔
      ∃ T₁, projectAll xs T = some T₁ ∧ projectAll ys T₁ = some T' := by
  simp only [projectAll, List.foldlM_append]
  exact Option.bind_eq_some_iff

theorem projectAll_cons {entry : RedisStreamEntry} {entries : List RedisStreamEntry} {T T' : Tables}
    (h : projectAll (entry :: entries) T = some T') :
    ∃ T₁ event, Applied entry event T T₁ ∧ projectAll entries T₁ = some T' := by
  unfold projectAll at h
  rw [List.foldlM_cons] at h
  obtain ⟨T₁, hstep, h⟩ := Option.bind_eq_some_iff.mp h
  split at hstep
  · rename_i T₂ hproject
    cases hstep
    obtain ⟨event, happlied⟩ := projectAuctionEntry_applied hproject
    exact ⟨_, event, happlied, h⟩
  · cases hstep

/-- Projecting the events of an open auction adds no order and keeps the fence. -/
theorem projectAll_open {productId : Nat} {events : List AuctionStreamEvent}
    {entries : List RedisStreamEntry} {T T' : Tables}
    (hentries : entries.map (·.payload) = events.map .event)
    (hown : ∀ e ∈ events, e.productId = productId) (hopen : ∀ e ∈ events, e.type.keepsOpen)
    (hT : T.Fenced) (h : projectAll entries T = some T') :
    T'.Fenced ∧ T'.orderCount productId = T.orderCount productId := by
  induction entries generalizing events T with
  | nil =>
    cases h
    exact ⟨hT, rfl⟩
  | cons entry entries ih =>
    cases events with
    | nil => cases hentries
    | cons e events =>
      simp only [List.map_cons, List.cons.injEq] at hentries
      obtain ⟨T₁, event, happlied, h⟩ := projectAll_cons h
      obtain ⟨hpayload, _⟩ := parseEvent_ok happlied.parsed
      obtain rfl : e = event := by
        have := hentries.1.symm.trans hpayload
        cases this
        rfl
      obtain ⟨hfenced, hcount⟩ := ih hentries.2 (fun e he => hown e (List.mem_cons_of_mem _ he))
        (fun e he => hopen e (List.mem_cons_of_mem _ he)) (happlied.fenced hT) h
      refine ⟨hfenced, hcount.trans ?_⟩
      have := happlied.orderCount
      rw [Projector.orderRows_of_keepsOpen (hopen e List.mem_cons_self), hown e List.mem_cons_self]
        at this
      exact this

/-! ## The last event -/

/-- The request bans the leader of the auction. -/
def BansLeader (a : Auction) (req : Request) : Prop :=
  req.operation = .ban ∧ ∃ target ∈ req.banTargetId, a.hash.leaderId = some target

instance (a : Auction) (req : Request) : Decidable (BansLeader a req) := by
  unfold BansLeader; infer_instance

namespace Script
variable {a : Auction} {req : Request} {d : Decision}

/-- The event of a ban names its target, and no other event bans. -/
theorem event_bans_iff (hd : Decided a req d) (u : Nat) :
    (event a req d).Bans a.hash.productId u ↔
      req.operation = .ban ∧ req.banTargetId = some u := by
  have htype : (event a req d).type = req.operation.eventType := hd.eventType_eq
  have hban : req.operation.eventType = .bidderBanned ↔ req.operation = .ban := by
    cases req.operation <;> decide
  unfold AuctionStreamEvent.Bans
  rw [htype, hban]
  exact and_congr_right fun _ => and_iff_right rfl

/-- Only a ban of the leader changes the decision after the event is written. -/
theorem update_of_not_bansLeader (h : ¬ BansLeader a req) : (update a req d).2 = d := by
  unfold update
  split
  · rfl
  · rename_i target hop htarget
    dsimp only
    rw [if_neg]
    exact fun hl => h ⟨hop, target, htarget, hl⟩
  · rfl

/-- After a ban of the leader, the leader is somebody else. -/
theorem leader_of_bansLeader (hs : Ranked a.sets) (h : BansLeader a req)
    (hd : Decided a req d) : (write a req d).hash.leaderId ≠ d.nextLeaderId := by
  obtain ⟨hop, target, htarget, hl⟩ := h
  cases hd with
  | ban _ _ _ hnamed =>
    cases hnamed.symm.trans htarget
    simp only [write, update_ban hop htarget, if_pos hl, unchanged]
    rw [hl]
    intro heq
    obtain ⟨m, hm⟩ := (hs.ban target).elected heq
    simp at hm
  | bid hbid => simp [hop] at hbid
  | buyNow hbuy => simp [hop] at hbuy
  | close hclose => simp [hop] at hclose
  | cancel hcancel => simp [hop] at hcancel

end Script

theorem Numeral.plain_of_isDecimal {text : Numeral} (h : Numeral.isDecimal text) :
    text = .plain text.denotes := by
  cases text with
  | plain n => rfl
  | scientific n => exact h.elim

/-- A completed auction has the orders it should have, if it had none before. -/
theorem expected_orders {c : Call} {req : Request} {a : Auction} {d : Decision}
    (hpayload : c.payload = .ok req) (hd : Decided a req d) :
    expectedOrderCount (Script.write a req d).hash =
      (Projector.orderRows (Script.event a req d)).length := by
  obtain ⟨_, amount, hreq, _⟩ := Call.payload_ok hpayload
  have horder : req.operation = .buyNow ∨ req.operation = .close →
      ∃ id, req.orderId = some id := by
    intro hop
    subst hreq
    simp only [Call.request, Call.orderId] at hop ⊢
    rw [if_pos hop]
    cases c.command.orderId with
    | none => exact ⟨_, rfl⟩
    | some id => exact ⟨id, rfl⟩
  cases hd with
  | bid hop hb =>
    rw [Projector.orderRows_of_keepsOpen rfl]
    simp [expectedOrderCount, Script.write, Script.unchanged, hb.active]
  | ban hop hactive =>
    rw [Projector.orderRows_of_keepsOpen rfl]
    simp [expectedOrderCount, Script.write, Script.unchanged, hactive]
  | buyNow hop =>
    obtain ⟨id, hid⟩ := horder (.inl hop)
    simp [expectedOrderCount, Script.write, Projector.orderRows, Script.event,
      Script.unchanged, hid]
  | close hop =>
    obtain ⟨id, hid⟩ := horder (.inr hop)
    have hupdate {d : Decision} : Script.update a req d = (a.sets, d) :=
      Script.update_of_ne (by simp [hop]) (by simp [hop])
    cases hl : a.hash.leaderId <;>
      simp [expectedOrderCount, Script.write, hupdate, Projector.orderRows, Script.event,
        Script.unchanged, hid, hl]
  | cancel hop =>
    have hnil : Projector.orderRows (Script.event a req
        { Script.unchanged a req .auctionCancelled with nextStatus := .cancelled }) = [] := by
      unfold Projector.orderRows
      split
      · simp [Script.event, Script.unchanged]
      · rfl
    rw [hnil]
    simp [expectedOrderCount, Script.write]

/-- Redis and the tables agree on the last event, unless it bans the leader or
the product had an order before. -/
theorem converges_last {productId : Nat} {k : AuctionKeys} {c : Call} {req : Request} {a : Auction}
    {d : Decision} {entry : RedisStreamEntry} {T T' : Tables} (hpayload : c.payload = .ok req)
    (hacc : Accepts k req a d) (hproduct : a.hash.productId = productId) (hranked : Ranked a.sets)
    (hT : T.Fenced) (happlied : Applied entry (Script.event a req d) T T') :
    Converges productId (Script.accept a req k d) T' ↔
      T.orderCount productId = 0 ∧ ¬ BansLeader a req := by
  subst hproduct
  have hd := Script.operate_ok hacc.decided
  obtain ⟨product, date, _, _, hdate, hproducts⟩ := happlied.product
  obtain ⟨_, hcontract⟩ := parseEvent_ok happlied.parsed
  have hrow : T'.products a.hash.productId =
      some (snapshot (Script.event a req d) date product) := by
    rw [hproducts]
    exact Function.update_self ..
  have hend : (Script.event a req d).endAtMs = .plain date.val := by
    rw [Tables.toDate_ok hdate]
    exact Numeral.plain_of_isDecimal hcontract.2.2.2.1
  have hlatest := happlied.latest hT
  have hcount := happlied.orderCount
  have hexpected := expected_orders hpayload hd
  change T'.latestTransition a.hash.productId = _ at hlatest
  change T'.orderCount a.hash.productId = T.orderCount a.hash.productId + _ at hcount
  rw [converges_iff hrow rfl, hlatest, hcount, hexpected]
  constructor
  · rintro ⟨_, _, _, _, _, hleader, _, horders⟩
    refine ⟨by omega, fun hban => ?_⟩
    exact Script.leader_of_bansLeader hranked hban hd hleader
  · rintro ⟨hnone, hban⟩
    have hupdate := Script.update_of_not_bansLeader (d := d) hban
    have hnext : (Script.write a req d).hash.endAtMs = (Script.event a req d).endAtMs := by
      simp only [Script.write, hupdate, Script.event]
    refine ⟨rfl, rfl, ?_, ?_, ?_, ?_, rfl, by omega⟩
    · simp only [Script.write, hupdate, snapshot, Script.event, Option.some_or, Option.getD_some]
    · rw [hnext, hend]
      rfl
    · simp only [Script.write, hupdate, snapshot, Script.event]
    · simp only [Script.write, hupdate, snapshot, Script.event]

/-- After a run from a bootstrapped auction, and once its events are projected,
the reconciliation reports `converged` exactly if the product had no order
before and the last accepted command does not ban the leader. -/
theorem projection_converges_iff {productId : Nat} {recovery force : Bool} {now : DateMs}
    {T₀ T : Tables} {k k₀ k₁ : AuctionKeys} {xs : List Action} {c : Call} {req : Request}
    {a : Auction} {d : Decision} {entries : List RedisStreamEntry} (hfenced : T₀.Fenced)
    (hunloaded : force = false → Unloaded k)
    (hboot : bootstrapRedisAuction productId recovery force now T₀ k = (.ok true, k₀))
    (hrun : AuthorityRun k₀ xs k₁) (hpayload : c.payload = .ok req)
    (hacc : Accepts k₁ req a d) (hentries : entries.map (·.payload) =
      ((Script.accept a req k₁ d).stream.drop k₀.stream.length).map .event)
    (hprojected : projectAll entries T₀ = some T) :
    Converges productId (Script.accept a req k₁ d) T ↔
      T₀.orderCount productId = 0 ∧ ¬ BansLeader a req := by
  obtain ⟨a₁, events, hs⟩ := runState_of_bootstrap hunloaded hboot hrun
  cases hs.loaded.symm.trans hacc.loaded
  rw [Script.accept_stream, hs.appended, List.append_assoc, List.drop_left', List.map_append]
    at hentries
  · obtain ⟨earlier, last, rfl, hearlier, hlast⟩ := List.map_eq_append_iff.mp hentries
    obtain ⟨T₁, h₁, h₂⟩ := projectAll_append.mp hprojected
    obtain ⟨hT₁, hcount⟩ :=
      projectAll_open hearlier hs.own (hs.ongoing hacc.isTerminal) hfenced h₁
    obtain ⟨entry, rest, rfl, hpay, hrest⟩ := List.map_eq_cons_iff.mp hlast
    cases List.map_eq_nil_iff.mp hrest
    obtain ⟨T₂, event, happlied, hnil⟩ := projectAll_cons h₂
    cases hnil
    obtain ⟨hevent, _⟩ := parseEvent_ok happlied.parsed
    cases hpay.symm.trans hevent
    rw [← hcount]
    exact converges_last hpayload hacc hs.product hs.ranked hT₁ happlied
  · rfl

namespace Sample

def product : ProductRow where
  sellerId := 9
  startPrice := some 100
  currentPrice := some 100
  stepPrice := some 10
  buyNowPrice := some 300
  priceOwnerId := none
  startTime := some (.early 0)
  endTime := some (.early 1000)
  autoExtended := some false
  isRemoved := some false
  auctionStatus := .active
  auctionVersion := 0
  auctionSequence := 0

def tables : Tables where
  products := fun productId => if productId = 1 then some product else none
  users := {2, 3, 4, 9}

def bootKeys : AuctionKeys := (bootstrapRedisAuction 1 false false (.early 5) tables {}).2

theorem booted :
    bootstrapRedisAuction 1 false false ⟨5, by decide⟩ tables {} = (.ok true, bootKeys) :=
  Prod.ext (by decide +kernel) rfl

/-- The entries of a list of events, numbered in order. -/
def entries (events : List AuctionStreamEvent) : List RedisStreamEntry :=
  events.zipIdx.map fun (event, id) => { id := id, payload := .event event }

theorem entries_payload (events : List AuctionStreamEvent) :
    (entries events).map (·.payload) = events.map .event := by
  unfold entries
  rw [List.map_map]
  exact (List.map_map (f := Prod.fst) ..).symm.trans (by rw [List.zipIdx_map_fst])

def bids : List Action :=
  [.call (call 1 .bid 2 (some "200")), .call (call 2 .bid 3 (some "250"))]

theorem tables_fenced : tables.Fenced := by simp [Tables.Fenced, tables]

end Sample

/-- Two bids, both projected. -/
theorem projection_converges_sample :
    ∃ T, projectAll (Sample.entries (Sample.bids.foldl Action.apply Sample.bootKeys).stream)
        Sample.tables = some T ∧
      Converges 1 (Sample.bids.foldl Action.apply Sample.bootKeys) T := by
  obtain ⟨T, hT⟩ := Option.isSome_iff_exists.mp (by decide +kernel : (projectAll (Sample.entries
    (Sample.bids.foldl Action.apply Sample.bootKeys).stream) Sample.tables).isSome = true)
  obtain ⟨req, a, d, hpayload, hacc⟩ := Sample.exists_accepts
    (c := Sample.call 2 .bid 3 (some "250"))
    (k := (Action.call (Sample.call 1 .bid 2 (some "200"))).apply Sample.bootKeys)
    (by decide +kernel)
  have hkeys : Sample.bids.foldl Action.apply Sample.bootKeys = Script.accept a req _ d :=
    hacc.mutate_eq hpayload (by decide)
  have hnot : ¬ BansLeader a req := by
    rintro ⟨hop, _⟩
    obtain ⟨_, amount, rfl, _⟩ := Call.payload_ok hpayload
    cases hop
  rw [hkeys] at hT ⊢
  refine ⟨T, hT, (projection_converges_iff Sample.tables_fenced (fun _ => ⟨rfl, rfl, rfl⟩)
    Sample.booted (.cons rfl (.refl _)) hpayload hacc ?_ hT).mpr ⟨rfl, hnot⟩⟩
  exact Sample.entries_payload _

/-- A bid, a higher bid and a ban of the second bidder: PostgreSQL keeps the
banned leader. -/
theorem projection_diverges :
    ¬ ∀ (productId : Nat) (now : DateMs) (T₀ T : Tables) (k₀ k : AuctionKeys)
      (xs : List Action) (entries : List RedisStreamEntry), T₀.Fenced → T₀.orders = [] →
      bootstrapRedisAuction productId false false now T₀ {} = (.ok true, k₀) →
      AuthorityRun k₀ xs k → k₀.stream.length < k.stream.length →
      entries.map (·.payload) = (k.stream.drop k₀.stream.length).map .event →
      projectAll entries T₀ = some T → Converges productId k T := by
  intro h
  have hsome : (projectAll (Sample.entries (Sample.handOver.foldl Action.apply
      Sample.bootKeys).stream) Sample.tables).map
      (fun T => decide (Converges 1 (Sample.handOver.foldl Action.apply Sample.bootKeys) T)) =
      some false := by decide +kernel
  obtain ⟨T, hT, hdiverges⟩ := Option.map_eq_some_iff.mp hsome
  refine of_decide_eq_false hdiverges (h 1 _ _ T _ _ Sample.handOver _ Sample.tables_fenced rfl
    Sample.booted (.cons rfl (.cons rfl (.cons rfl (.refl _)))) (by decide +kernel) ?_ hT)
  exact Sample.entries_payload _

end MiracleAuction
