import MiracleAuction.Authority.Close
import MiracleAuction.Projection.Convergence

/-!
# Banned bidders

The authority, its stream, the projector and the rebuilds of one auction as one
system. A banned bidder neither leads nor wins, as long as the event of a ban of
the leader is never the last one projected: that event still names the banned
leader, and a rebuild would bring it back.
-/
namespace MiracleAuction
open Decimal

/-- An auction in Redis and in PostgreSQL; `projected` events of its stream are projected. -/
structure System where
  keys : AuctionKeys := {}
  tables : Tables
  projected : Nat := 0

/-- An action of the authority, the projection of the next entry, a bootstrap,
or the extension of an interrupted auction. -/
inductive SystemAction
  | act (x : Action)
  | project (id shard : Nat)
  | bootstrap (now : DateMs) (recovery force : Bool)
  | extend (endTime : DateMs)

namespace System

/-- The events that are not yet projected. -/
def pending (s : System) : List AuctionStreamEvent := s.keys.stream.drop s.projected

/-- `extendInterruptedAuctions`, for one product. -/
def extendEnd (T : Tables) (productId : Nat) (endTime : DateMs) : Tables :=
  { T with
    products := Function.update T.products productId
      ((T.products productId).map fun product => { product with endTime := some endTime }) }

/-- A step of the system, if the action is possible. A forced bootstrap waits
until the stream is drained. -/
def next (productId : Nat) (s : System) : SystemAction → Option System
  | .act x => some { s with keys := x.apply s.keys }
  | .project id shard =>
    match s.pending with
    | [] => none
    | event :: _ =>
      match projectAuctionEntry { id := id, payload := .event event, shard := shard } s.tables with
      | .ok (.applied, T) => some { s with tables := T, projected := s.projected + 1 }
      | _ => none
  | .bootstrap now recovery force =>
    if force = true ∧ s.pending ≠ [] then none
    else
      some { s with
        keys := (bootstrapRedisAuction productId recovery force now s.tables s.keys).2 }
  | .extend endTime => some { s with tables := extendEnd s.tables productId endTime }

end System

abbrev SystemStep (productId : Nat) (s : System) (x : SystemAction) (s' : System) : Prop :=
  s.next productId x = some s'

/-- No banned user leads in Redis, owns the price once everything is projected,
or has an order. -/
structure BannedOut (productId : Nat) (s : System) : Prop where
  leader : ∀ a, s.keys.auction = some a → ∀ u, a.hash.leaderId = some u → u ∉ a.sets.bans
  owner : s.pending = [] → ∀ product, s.tables.products productId = some product →
    ∀ u, product.priceOwnerId = some u → ¬ s.tables.Banned productId u
  orders : ∀ order ∈ s.tables.orders, order.productId = productId →
    ¬ s.tables.Banned productId order.userId

/-- The event of a ban of the leader, written while the leader still leads. -/
def AuctionStreamEvent.Stale (event : AuctionStreamEvent) : Prop :=
  event.type = .bidderBanned ∧ event.leaderId ≠ none ∧ event.leaderId = event.targetUserId

instance (event : AuctionStreamEvent) : Decidable event.Stale := by
  unfold AuctionStreamEvent.Stale; infer_instance

/-- The action does not drain the stream by projecting a ban of the leader. -/
def SystemAction.Settled (s : System) : SystemAction → Prop
  | .project _ _ => ∀ event ∈ s.pending, s.pending.length = 1 → ¬ event.Stale
  | _ => True

instance (s : System) (x : SystemAction) : Decidable (x.Settled s) := by
  unfold SystemAction.Settled; split <;> infer_instance

/-! ## Pending events -/

/-- What a pending event may say while the users in `B` are banned. -/
structure Permitted (productId : Nat) (B : Nat → Prop) (event : AuctionStreamEvent) : Prop where
  own : event.productId = productId
  bidder : event.type = .bidAccepted → ¬ B event.actorId
  winner : ∀ order ∈ Projector.orderRows event, ¬ B order.userId
  ends : event.type.keepsOpen = false → event.status.isTerminal

/-- Pending events, each permitted after those before it; only the last ends the auction. -/
def Lawful (productId : Nat) : (Nat → Prop) → List AuctionStreamEvent → Prop
  | _, [] => True
  | B, event :: events =>
    Permitted productId B event ∧ (event.type.keepsOpen = false → events = []) ∧
      Lawful productId (fun u => B u ∨ event.Bans productId u) events

theorem Lawful.concat {productId : Nat} {B : Nat → Prop} {events : List AuctionStreamEvent}
    {event : AuctionStreamEvent} (h : Lawful productId B events)
    (hopen : ∀ e ∈ events, e.type.keepsOpen)
    (hlast : Permitted productId (fun u => B u ∨ ∃ e ∈ events, e.Bans productId u) event) :
    Lawful productId B (events ++ [event]) := by
  induction events generalizing B with
  | nil => exact ⟨by simpa using hlast, fun _ => rfl, trivial⟩
  | cons e events ih =>
    obtain ⟨hfirst, _, hrest⟩ := h
    refine ⟨hfirst, ?_, ih hrest (fun e' he' => hopen e' (List.mem_cons_of_mem _ he')) ?_⟩
    · simp [hopen e List.mem_cons_self]
    · simpa [or_assoc] using hlast

theorem Lawful.congr {productId : Nat} {B B' : Nat → Prop} {events : List AuctionStreamEvent}
    (hB : ∀ u, B' u ↔ B u) (h : Lawful productId B events) : Lawful productId B' events := by
  rwa [show B' = B from funext fun u => propext (hB u)]

/-- The leader after the pending events, as the tables will have it. -/
def lastLeader (product : ProductRow) (pending : List AuctionStreamEvent) : Option Nat :=
  match pending.getLast? with
  | some event => event.leaderId
  | none => product.priceOwnerId

theorem lastLeader_cons (row product : ProductRow) (event e : AuctionStreamEvent)
    (events : List AuctionStreamEvent) :
    lastLeader product (event :: e :: events) = lastLeader row (e :: events) := by
  simp only [lastLeader, List.getLast?_cons, Option.getD_some]

/-! ## The invariant -/

/-- The auction in Redis agrees with its tables and the pending events. -/
structure Tracks (productId : Nat) (T : Tables) (pending : List AuctionStreamEvent) (a : Auction) :
    Prop where
  product : a.hash.productId = productId
  ranked : Ranked a.sets
  bans : ∀ u, u ∈ a.sets.bans ↔ T.Banned productId u ∨ ∃ e ∈ pending, e.Bans productId u
  bidders : ∀ u m, a.sets.maxima u = some m → u ∉ a.sets.bans
  leader : ∀ u, a.hash.leaderId = some u → u ∉ a.sets.bans
  owner : (∃ e, pending.getLast? = some e ∧ e.Stale) ∨
    ∀ product, T.products productId = some product →
      lastLeader product pending = a.hash.leaderId
  ongoing : a.hash.status.isTerminal = false → ∀ e ∈ pending, e.type.keepsOpen
  completed : (∃ order ∈ T.orders, order.productId = productId) → a.hash.status.isTerminal

/-- The tables, and the pending events on top of them. -/
structure Sound (productId : Nat) (T : Tables) (pending : List AuctionStreamEvent) : Prop where
  lawful : Lawful productId (T.Banned productId) pending
  standing : ∀ row ∈ T.history, row.productId = productId → row.banned = false →
    ¬ T.Banned productId row.userId
  owner : pending = [] → ∀ product, T.products productId = some product →
    ∀ u, product.priceOwnerId = some u → ¬ T.Banned productId u
  orders : ∀ order ∈ T.orders, order.productId = productId →
    ¬ T.Banned productId order.userId
  completed : (∃ order ∈ T.orders, order.productId = productId) → pending = [] ∧
    ∀ product, T.products productId = some product → product.auctionStatus.isTerminal

structure SystemInvariant (productId : Nat) (s : System) : Prop where
  sound : Sound productId s.tables s.pending
  tracks : ∀ a, s.keys.auction = some a → Tracks productId s.tables s.pending a
  drained : s.keys.auction = none → s.pending = []
  unloaded : s.keys.state = .absent → Unloaded s.keys
  within : s.projected ≤ s.keys.stream.length

theorem SystemInvariant.bannedOut {productId : Nat} {s : System} (h : SystemInvariant productId s) :
    BannedOut productId s where
  leader := fun a ha => (h.tracks a ha).leader
  owner := h.sound.owner
  orders := h.sound.orders

/-! ## Accepted commands -/

section
variable {productId : Nat} {T T' : Tables} {pending : List AuctionStreamEvent} {a : Auction}
  {req : Request} {d : Decision}

namespace Script

/-- A ban adds its target to the bans of the auction. -/
theorem write_bans (hd : Decided a req d) (u : Nat) :
    u ∈ (write a req d).sets.bans ↔
      u ∈ a.sets.bans ∨ (event a req d).Bans a.hash.productId u := by
  rw [event_bans_iff hd]
  by_cases hop : req.operation = .ban
  · obtain ⟨target, hnamed⟩ : ∃ target, req.banTargetId = some target := by
      cases hd with
      | ban _ _ _ hnamed => exact ⟨_, hnamed⟩
      | bid h => simp [hop] at h
      | buyNow h => simp [hop] at h
      | close h => simp [hop] at h
      | cancel h => simp [hop] at h
    simp only [write, update_ban hop hnamed, banSets, Finset.mem_insert, hop, hnamed, true_and,
      Option.some.injEq]
    tauto
  · have hsame : (write a req d).sets.bans = a.sets.bans := by
      simp only [write]
      unfold update bidSets
      split
      · split <;> rfl
      · contradiction
      · rfl
    simp [hsame, hop]

/-- Nobody with a maximum is banned. -/
theorem write_bidders (hd : Decided a req d)
    (ha : ∀ u m, a.sets.maxima u = some m → u ∉ a.sets.bans) (u m : Nat)
    (hu : (write a req d).sets.maxima u = some m) : u ∉ (write a req d).sets.bans := by
  rw [write_bans hd, event_bans_iff hd]
  cases hd with
  | bid hop hb =>
    simp only [write, update_bid hop, bidSets] at hu
    simp only [hop, reduceCtorEq, false_and, or_false]
    rcases update_some_cases hu with ⟨rfl, _⟩ | ⟨_, hu⟩
    · exact hb.notBanned
    · exact ha u m hu
  | ban hop _ _ hnamed =>
    simp only [write, update_ban hop hnamed, banSets] at hu
    obtain ⟨hne, hu⟩ := update_none_cases hu
    rintro (hban | ⟨_, htarget⟩)
    · exact ha u m hu hban
    · rw [hnamed, Option.some.injEq] at htarget
      exact hne htarget.symm
  | buyNow hop =>
    simp only [write, update_of_ne (show req.operation ≠ .bid by simp [hop])
      (show req.operation ≠ .ban by simp [hop])] at hu
    simpa [hop] using ha u m hu
  | close hop =>
    simp only [write, update_of_ne (show req.operation ≠ .bid by simp [hop])
      (show req.operation ≠ .ban by simp [hop])] at hu
    simpa [hop] using ha u m hu
  | cancel hop =>
    simp only [write, update_of_ne (show req.operation ≠ .bid by simp [hop])
      (show req.operation ≠ .ban by simp [hop])] at hu
    simpa [hop] using ha u m hu

/-- The leader that an accepted command leaves is not banned. -/
theorem write_leader (hd : Decided a req d) (hranked : Ranked a.sets)
    (ha : ∀ u m, a.sets.maxima u = some m → u ∉ a.sets.bans)
    (hleader : ∀ u, a.hash.leaderId = some u → u ∉ a.sets.bans) (u : Nat)
    (hu : (write a req d).hash.leaderId = some u) : u ∉ (write a req d).sets.bans := by
  have hbidders := write_bidders hd ha u
  rw [write_bans hd, event_bans_iff hd] at hbidders ⊢
  cases hd with
  | bid hop hb =>
    simp only [write, update_bid hop] at hu
    simp only [hop, reduceCtorEq, false_and, or_false]
    have hcases := proxyBid_cases a.hash req.actor req.amount
    generalize proxyBid a.hash req.actor req.amount = proxied at hu hcases
    cases hcases with
    | first => cases hu; exact hb.notBanned
    | raised => cases hu; exact hb.notBanned
    | outbid hl => cases hu; exact hleader u hl
    | overtakes => cases hu; exact hb.notBanned
  | @ban target hop _ _ hnamed =>
    simp only [write, update_ban hop hnamed] at hu hbidders
    split at hu
    · obtain ⟨m, hm⟩ := (hranked.ban target).elected hu
      exact hbidders m hm
    · rename_i hne
      rintro (hban | ⟨_, htarget⟩)
      · exact hleader u hu hban
      · rw [hnamed] at htarget
        exact hne (hu.trans htarget.symm)
  | buyNow hop hb =>
    simp only [write, update_of_ne (show req.operation ≠ .bid by simp [hop])
      (show req.operation ≠ .ban by simp [hop])] at hu
    cases hu
    simpa [hop] using hb.notBanned
  | close hop =>
    simp only [write, update_of_ne (show req.operation ≠ .bid by simp [hop])
      (show req.operation ≠ .ban by simp [hop])] at hu
    simpa [hop] using hleader u hu
  | cancel hop =>
    simp only [write, update_of_ne (show req.operation ≠ .bid by simp [hop])
      (show req.operation ≠ .ban by simp [hop])] at hu
    simpa [hop] using hleader u hu

/-- Only the event of a ban of the leader disagrees with the hash about the leader. -/
theorem stale_or_leader (hd : Decided a req d) : (event a req d).Stale ∨
    (event a req d).leaderId = (write a req d).hash.leaderId := by
  by_cases hban : BansLeader a req
  · obtain ⟨hop, target, htarget, hl⟩ := hban
    have hleader : (event a req d).leaderId = a.hash.leaderId := by
      cases hd with
      | ban => rfl
      | bid h => simp [hop] at h
      | buyNow h => simp [hop] at h
      | close h => simp [hop] at h
      | cancel h => simp [hop] at h
    refine .inl ⟨?_, by simp [hleader, hl], ?_⟩
    · exact hd.eventType_eq.trans (by rw [hop]; rfl)
    · exact hleader.trans (hl.trans htarget.symm)
  · exact .inr (by simp only [write, update_of_not_bansLeader hban, event])

end Script

theorem Tracks.permits (h : Tracks productId T pending a) (hd : Decided a req d) :
    Permitted productId (fun u => T.Banned productId u ∨ ∃ e ∈ pending, e.Bans productId u)
      (Script.event a req d) where
  own := h.product
  bidder := by
    intro htype
    rw [← h.bans]
    cases hd with
    | bid _ hb => exact hb.notBanned
    | _ => cases htype
  winner := by
    intro order horder
    obtain ⟨htype, hleader, _⟩ := Projector.mem_orderRows horder
    rw [← h.bans]
    cases hd with
    | buyNow _ hb => rw [← Option.some.inj hleader]; exact hb.notBanned
    | close => exact h.leader _ hleader
    | _ => rcases htype with htype | htype <;> cases htype
  ends := by
    intro hends
    rcases hd.open_or_over with hopen | hover
    · rw [show (Script.event a req d).type.keepsOpen = true from hopen.2] at hends
      cases hends
    · exact hover

/-- An accepted command adds its event to the pending ones. -/
theorem Tracks.accepts (h : Tracks productId T pending a) (hacc : Accepted a req d) :
    Tracks productId T (pending ++ [Script.event a req d]) (Script.write a req d) := by
  have hd := Script.operate_ok hacc.decided
  refine ⟨h.product, ?_, fun u => ?_, Script.write_bidders hd h.bidders,
    Script.write_leader hd h.ranked h.bidders h.leader, ?_, fun hopen e he => ?_,
      fun horder => ?_⟩
  · exact ranked_step h.ranked (auctionStep_iff.mpr ⟨d, hacc, rfl⟩)
  · rw [Script.write_bans hd, h.bans, h.product]
    simp [or_assoc]
  · rcases Script.stale_or_leader hd with hstale | hleader
    · exact .inl ⟨_, by simp, hstale⟩
    · exact .inr fun product _ => by simpa [lastLeader] using hleader
  · rcases List.mem_append.mp he with he | he
    · exact h.ongoing hacc.isTerminal e he
    · rw [List.mem_singleton.mp he]
      rcases hd.open_or_over with hd | hd
      · exact hd.2
      · simp [Script.write, hd] at hopen
  · exact absurd (h.completed horder) (by simp [hacc.isTerminal])

theorem Sound.accepts (hs : Sound productId T pending) (h : Tracks productId T pending a)
    (hacc : Accepted a req d) : Sound productId T (pending ++ [Script.event a req d]) where
  lawful := hs.lawful.concat (h.ongoing hacc.isTerminal)
    (h.permits (Script.operate_ok hacc.decided))
  standing := hs.standing
  owner := by simp
  orders := hs.orders
  completed := fun horder => absurd (h.completed horder) (by simp [hacc.isTerminal])

/-! ## Projections -/

variable {entry : RedisStreamEntry} {event : AuctionStreamEvent}

/-- The next event is projected; it is not the last one if it is stale. -/
theorem Sound.projects (hs : Sound productId T (event :: pending))
    (h : Tracks productId T (event :: pending) a) (happlied : Applied entry event T T')
    (hsettled : pending = [] → ¬ event.Stale) : Sound productId T' pending := by
  obtain ⟨hpermitted, hlast, hlawful⟩ := hs.lawful
  have hbanned : ∀ u, T'.Banned productId u ↔
      T.Banned productId u ∨ event.Bans productId u := happlied.banned productId
  have hnone : ∀ order ∈ T.orders, order.productId ≠ productId :=
    fun order horder hp => by simpa using (hs.completed ⟨order, horder, hp⟩).1
  obtain ⟨product, date, hproduct₀, _, _, hproducts⟩ := happlied.product
  rw [hpermitted.own] at hproduct₀
  have hrow : T'.products productId = some (snapshot event date product) := by
    rw [hproducts, hpermitted.own, Function.update_self]
  have hnew : ∀ order ∈ T'.orders, order.productId = productId →
      order ∈ Projector.orderRows event := by
    intro order horder hp
    rw [happlied.orders] at horder
    rcases List.mem_append.mp horder with hold | hnew
    · exact absurd hp (hnone order hold)
    · exact hnew
  refine ⟨hlawful.congr hbanned, fun row hmem hp hstanding => ?_,
    fun hnil row hproduct u hu => ?_, fun order horder hp => ?_, ?_⟩
  · obtain ⟨hnot, hrow⟩ := happlied.history.standing row hmem hstanding
    rw [hp] at hnot
    rw [hbanned, not_or]
    refine ⟨?_, hnot⟩
    rcases hrow with hold | ⟨htype, _, huser⟩
    · exact hs.standing row hold hp hstanding
    · rw [huser]
      exact hpermitted.bidder htype
  · -- The stream is drained: the tables have the leader and the bans of Redis.
    cases hrow.symm.trans hproduct
    rcases h.owner with ⟨e, he, hstale⟩ | hleader
    · subst hnil
      simp only [List.getLast?_singleton, Option.some.injEq] at he
      subst he
      exact absurd hstale (hsettled rfl)
    · subst hnil
      have howner : event.leaderId = a.hash.leaderId := hleader product hproduct₀
      have hu' := h.leader u (howner.symm.trans hu)
      rw [h.bans] at hu'
      rw [hbanned]
      simpa using hu'
  · have horder := hnew order horder hp
    rw [hbanned, not_or]
    refine ⟨hpermitted.winner order horder, fun hbans => ?_⟩
    rcases (Projector.mem_orderRows horder).1 with htype | htype <;>
      cases htype.symm.trans hbans.1
  · rintro ⟨order, horder, hp⟩
    have horder := hnew order horder hp
    have hends : event.type.keepsOpen = false := by
      rcases (Projector.mem_orderRows horder).1 with htype | htype <;> rw [htype] <;> rfl
    refine ⟨hlast hends, fun row hproduct => ?_⟩
    cases hrow.symm.trans hproduct
    exact hpermitted.ends hends

theorem Tracks.projects (hs : Sound productId T (event :: pending))
    (h : Tracks productId T (event :: pending) a) (happlied : Applied entry event T T')
    (hsettled : pending = [] → ¬ event.Stale) : Tracks productId T' pending a := by
  obtain ⟨hpermitted, hlast, _⟩ := hs.lawful
  obtain ⟨product, date, hproduct, _, _, hproducts⟩ := happlied.product
  rw [hpermitted.own] at hproduct
  have hrow : T'.products productId = some (snapshot event date product) := by
    rw [hproducts, hpermitted.own, Function.update_self]
  refine ⟨h.product, h.ranked, fun u => ?_, h.bidders, h.leader, ?_, fun hopen e he => ?_, ?_⟩
  · rw [h.bans, happlied.banned]
    simp [or_assoc]
  · cases pending with
    | nil =>
      rcases h.owner with ⟨e, he, hstale⟩ | hleader
      · simp only [List.getLast?_singleton, Option.some.injEq] at he
        subst he
        exact absurd hstale (hsettled rfl)
      · refine .inr fun row hrow' => ?_
        cases hrow.symm.trans hrow'
        exact hleader product hproduct
    | cons e events =>
      rcases h.owner with hstale | hleader
      · exact .inl (by simpa using hstale)
      · refine .inr fun row _ => ?_
        exact (lastLeader_cons row product event e events).symm.trans (hleader product hproduct)
  · exact h.ongoing hopen e (List.mem_cons_of_mem _ he)
  · rintro ⟨order, horder, hp⟩
    by_contra hopen
    have hkeeps := h.ongoing (by simpa using hopen) event List.mem_cons_self
    rw [happlied.orders, Projector.orderRows_of_keepsOpen hkeeps, List.append_nil] at horder
    exact hopen (h.completed ⟨order, horder, hp⟩)

/-! ## Bootstraps -/

/-- A bootstrap from drained tables brings their leader and bans to Redis. -/
theorem Loaded.tracks {product : ProductRow} {now : DateMs}
    (h : Loaded T productId product now a) (hproduct : T.products productId = some product)
    (hs : Sound productId T []) : Tracks productId T [] a := by
  have hbans : ∀ u, u ∈ a.sets.bans ↔ T.Banned productId u := h.bans
  refine ⟨by rw [h.hash]; rfl, h.ranked, by simpa using hbans, fun u m hu => ?_, fun u hu => ?_,
    .inr fun row hrow => ?_, by simp, fun horder => ?_⟩
  · rw [h.maxima] at hu
    unfold Bootstrap.maximumByUser at hu
    split at hu
    · rename_i hmem
      obtain ⟨row, hrow, rfl⟩ := List.mem_map.mp hmem
      obtain ⟨hrow, hstanding⟩ := List.mem_filter.mp hrow
      simp only [Bool.decide_and, Bool.and_eq_true, decide_eq_true_eq, Bool.not_eq_true']
        at hstanding
      rw [hbans]
      exact hs.standing row hrow hstanding.1 hstanding.2
    · cases hu
  · rw [h.hash] at hu
    rw [hbans]
    exact hs.owner rfl product hproduct u hu
  · cases hproduct.symm.trans hrow
    rw [h.hash]
    rfl
  · have hterminal := (hs.completed horder).2 product hproduct
    have hstatus : a.hash.status = product.auctionStatus := by
      rw [h.hash]
      simp only [Bootstrap.seedState, Bootstrap.effectiveStatus]
      rw [if_neg]
      rintro ⟨hpending, _⟩
      rw [hpending] at hterminal
      cases hterminal
    rw [hstatus]
    exact hterminal

theorem extendEnd_row {endTime : DateMs} {row : ProductRow}
    (h : (System.extendEnd T productId endTime).products productId = some row) :
    ∃ product, T.products productId = some product ∧
      row = { product with endTime := some endTime } := by
  simp only [System.extendEnd, Function.update_self] at h
  obtain ⟨product, hproduct, rfl⟩ := Option.map_eq_some_iff.mp h
  exact ⟨product, hproduct, rfl⟩

/-- The end time of a product matters neither to its leader nor to its status. -/
theorem Sound.extends (hs : Sound productId T pending) (endTime : DateMs) :
    Sound productId (System.extendEnd T productId endTime) pending where
  lawful := hs.lawful
  standing := hs.standing
  owner := by
    intro hnil row hrow u hu
    obtain ⟨product, hproduct, rfl⟩ := extendEnd_row hrow
    exact hs.owner hnil product hproduct u hu
  orders := hs.orders
  completed := by
    intro horder
    obtain ⟨hnil, hterminal⟩ := hs.completed horder
    refine ⟨hnil, fun row hrow => ?_⟩
    obtain ⟨product, hproduct, rfl⟩ := extendEnd_row hrow
    exact hterminal product hproduct

theorem Tracks.extends (h : Tracks productId T pending a) (endTime : DateMs) :
    Tracks productId (System.extendEnd T productId endTime) pending a where
  product := h.product
  ranked := h.ranked
  bans := h.bans
  bidders := h.bidders
  leader := h.leader
  owner := h.owner.imp_right fun hleader row hrow => by
    obtain ⟨product, hproduct, rfl⟩ := extendEnd_row hrow
    exact hleader product hproduct
  ongoing := h.ongoing
  completed := h.completed

end

/-! ## Steps and runs -/

section
variable {productId : Nat} {s s' : System} {x : SystemAction}

/-- A projection takes the first pending event, and applies it. -/
theorem SystemStep.project {id shard : Nat} (h : SystemStep productId s (.project id shard) s') :
    ∃ event, s.pending = event :: s'.pending ∧ s'.keys = s.keys ∧
      Applied ⟨id, .event event, shard⟩ event s.tables s'.tables ∧
      s'.projected = s.projected + 1 := by
  unfold SystemStep System.next at h
  dsimp only at h
  split at h
  · cases h
  · rename_i event events hpending
    split at h
    · rename_i T hproject
      cases h
      obtain ⟨event', happlied⟩ := projectAuctionEntry_applied hproject
      obtain ⟨hevent, _⟩ := parseEvent_ok happlied.parsed
      cases hevent
      refine ⟨event, ?_, rfl, happlied, rfl⟩
      have hrest : s.keys.stream.drop (s.projected + 1) = events := by
        rw [← List.tail_drop]
        exact congrArg List.tail hpending
      rw [hpending]
      exact congrArg (event :: ·) hrest.symm
    · cases h

/-- A forced bootstrap finds the stream drained. -/
theorem SystemStep.bootstrap {now : DateMs} {recovery force : Bool}
    (h : SystemStep productId s (.bootstrap now recovery force) s') :
    (force = true → s.pending = []) ∧ s' = { s with
      keys := (bootstrapRedisAuction productId recovery force now s.tables s.keys).2 } := by
  unfold SystemStep System.next at h
  dsimp only at h
  split at h
  · cases h
  · rename_i hdrained
    cases h
    exact ⟨fun hforce => by_contra fun hpending => hdrained ⟨hforce, hpending⟩, rfl⟩

theorem systemInvariant_step (hsettled : x.Settled s) (h : SystemStep productId s x s')
    (hs : SystemInvariant productId s) : SystemInvariant productId s' := by
  cases x with
  | act x =>
    cases h
    have hcases := action_cases x s.keys
    generalize x.apply s.keys = k at hcases ⊢
    cases hcases with
    | @accepts c req a d _ hacc =>
      have htracks := hs.tracks a hacc.loaded
      have hpending : System.pending { s with keys := Script.accept a req s.keys d } =
          s.pending ++ [Script.event a req d] := List.drop_append_of_le_length hs.within
      have hwithin := hs.within
      refine ⟨?_, fun a' ha' => ?_, nofun, nofun, ?_⟩
      · rw [hpending]
        exact hs.sound.accepts htracks hacc.toAccepted
      · cases ha'
        rw [hpending]
        exact htracks.accepts hacc.toAccepted
      · dsimp only
        rw [Script.accept_stream, List.length_append]
        omega
    | @keeps _ k hkeeps =>
      have hpending : System.pending { s with keys := k } = s.pending := by
        simp only [System.pending, hkeeps.stream]
      refine ⟨?_, fun a ha => ?_, fun hnone => ?_, fun habsent => ?_, ?_⟩
      · rw [hpending]
        exact hs.sound
      · rw [hpending]
        exact hs.tracks a (hkeeps.auction.symm.trans ha)
      · rw [hpending]
        exact hs.drained (hkeeps.auction.symm.trans hnone)
      · have := hs.unloaded (hkeeps.state.symm.trans habsent)
        exact ⟨habsent, hkeeps.sets.trans this.sets, hkeeps.deadline.trans this.deadline⟩
      · dsimp only
        rw [hkeeps.stream]
        exact hs.within
  | project id shard =>
    obtain ⟨event, hpending, hkeys, happlied, hprojected⟩ := h.project
    have hlast : s'.pending = [] → ¬ event.Stale := fun hnil =>
      hsettled event (by simp [hpending]) (by simp [hpending, hnil])
    have hsound := hs.sound
    have htracks := hs.tracks
    rw [hpending] at hsound htracks
    obtain ⟨a, ha⟩ := Option.ne_none_iff_exists'.mp fun hnone => by
      simpa [hpending] using hs.drained hnone
    refine ⟨hsound.projects (htracks a ha) happlied hlast, fun a' ha' => ?_, fun hnone => ?_,
      fun habsent => ?_, ?_⟩
    · rw [hkeys] at ha'
      exact (htracks a' ha').projects hsound happlied hlast
    · rw [hkeys, ha] at hnone
      cases hnone
    · rw [hkeys] at habsent ⊢
      exact hs.unloaded habsent
    · have hlength := congrArg List.length hpending
      simp only [System.pending, List.length_drop, List.length_cons] at hlength
      rw [hkeys, hprojected]
      omega
  | bootstrap now recovery force =>
    obtain ⟨hdrained, rfl⟩ := h.bootstrap
    generalize hboot : bootstrapRedisAuction productId recovery force now s.tables s.keys = result
    obtain ⟨r, k⟩ := result
    by_cases hr : r = .ok true
    · subst hr
      obtain ⟨habsent, hstream, product, a, hproduct, ha, hloaded⟩ :=
        bootstrap_loads (fun _ => hs.unloaded) hboot
      have hnil : s.pending = [] := by
        cases hforce : force with
        | true => exact hdrained hforce
        | false => exact hs.drained (AuctionKeys.auction_of_absent (habsent hforce))
      have hpending : System.pending { s with keys := k } = [] := by
        rw [← hnil, System.pending, System.pending, hstream]
      have hsound := hs.sound
      rw [hnil] at hsound
      refine ⟨?_, fun a' ha' => ?_, fun _ => hpending, fun habsent' => ?_, ?_⟩
      · rw [hpending]
        exact hsound
      · cases ha.symm.trans ha'
        rw [hpending]
        exact hloaded.tracks hproduct hsound
      · exact (AuctionKeys.state_of_auction ha habsent').elim
      · dsimp only
        rw [hstream]
        exact hs.within
    · rcases bootstrap_else hr hboot with rfl | ⟨hforce, rfl⟩
      · exact hs
      · refine ⟨hs.sound, fun a ha => ?_, fun _ => hdrained hforce,
          fun _ => Bootstrap.unloaded_forget s.keys, hs.within⟩
        exact (AuctionKeys.state_of_auction ha rfl).elim
  | extend endTime =>
    cases h
    exact ⟨hs.sound.extends endTime, fun a ha => (hs.tracks a ha).extends endTime, hs.drained,
      hs.unloaded, hs.within⟩

/-- Nothing has happened to the product yet. -/
structure Untouched (productId : Nat) (T : Tables) : Prop where
  bans : ∀ u, ¬ T.Banned productId u
  history : ∀ row ∈ T.history, row.productId ≠ productId
  orders : ∀ order ∈ T.orders, order.productId ≠ productId
  owner : ∀ product, T.products productId = some product → product.priceOwnerId = none

theorem Untouched.invariant {T : Tables} (h : Untouched productId T) :
    SystemInvariant productId { tables := T } where
  sound :=
    { lawful := trivial
      standing := fun row hrow hp => absurd hp (h.history row hrow)
      owner := fun _ _ _ u _ => h.bans u
      orders := fun order horder hp => absurd hp (h.orders order horder)
      completed := fun ⟨order, horder, hp⟩ => absurd hp (h.orders order horder) }
  tracks := fun _ ha => (AuctionKeys.state_of_auction ha rfl).elim
  drained := fun _ => rfl
  unloaded := fun _ => ⟨rfl, rfl, rfl⟩
  within := Nat.le_refl 0

/-- A drained stream whose last event is stale leaves a banned owner. -/
theorem not_bannedOut_of_stale {id shard : Nat} {event : AuctionStreamEvent}
    (hs : SystemInvariant productId s) (h : SystemStep productId s (.project id shard) s')
    (hlast : s.pending = [event]) (hstale : event.Stale) : ¬ BannedOut productId s' := by
  intro hout
  obtain ⟨event', hpending, _, happlied, _⟩ := h.project
  obtain ⟨rfl, hnil⟩ := List.cons.inj (hlast.symm.trans hpending)
  have hown : event.productId = productId := by
    have := hs.sound.lawful
    rw [hlast] at this
    exact this.1.own
  obtain ⟨htype, hsome, htarget⟩ := hstale
  obtain ⟨u, hu⟩ := Option.ne_none_iff_exists'.mp hsome
  obtain ⟨product, date, _, _, _, hproducts⟩ := happlied.product
  refine hout.owner hnil.symm (snapshot event date product) ?_ u hu ?_
  · rw [hproducts, hown, Function.update_self]
  · rw [happlied.banned]
    exact .inr ⟨htype, hown, htarget.symm.trans hu⟩

/-- No banned user leads, owns or wins in any state of a run in which no projection
drains the stream with a ban of the leader, and such a projection makes one own. -/
theorem banned_never_leads {T : Tables} {xs : List SystemAction} (hT : Untouched productId T)
    (hrun : Run (Guarded (fun s x => x.Settled s) (SystemStep productId)) { tables := T } xs s) :
    BannedOut productId s ∧
      ∀ x s', SystemStep productId s x s' → (BannedOut productId s' ↔ x.Settled s) := by
  have hs : SystemInvariant productId s :=
    hrun.preserves (fun _ _ _ h => systemInvariant_step h.1 h.2) hT.invariant
  refine ⟨hs.bannedOut, fun x s' h => ⟨fun hout => ?_, fun hsettled => ?_⟩⟩
  · cases x with
    | project id shard =>
      intro event hmem hlength hstale
      obtain ⟨e, hlast⟩ := List.length_eq_one_iff.mp hlength
      obtain rfl : event = e := by simpa [hlast] using hmem
      exact not_bannedOut_of_stale hs h hlast hstale hout
    | act => trivial
    | bootstrap => trivial
    | extend => trivial
  · exact (systemInvariant_step hsettled h hs).bannedOut

end

namespace Sample

theorem tables_untouched : Untouched 1 tables where
  bans := by simp [Tables.Banned, tables]
  history := by simp [tables]
  orders := by simp [tables]
  owner := by
    intro product hproduct
    simp only [tables, if_true, Option.some.injEq] at hproduct
    rw [← hproduct]
    rfl

/-- Bidders 2 and 3 bid, and bidder 2, who does not lead, is banned. -/
def banOfOther : List SystemAction :=
  [.bootstrap (.early 5) false false, .act (.call (call 1 .bid 2 (some "200"))),
    .act (.call (call 2 .bid 3 (some "250"))), .act (.call (call 3 .ban 9 none (some 2))),
    .project 1 0, .project 2 0, .project 3 0, .bootstrap (.early 6) true true,
    .act (.call closeCall), .project 4 0]

/-- Bidder 2 bids and is banned; the auction is rebuilt and closed. -/
def banOfLeader : List SystemAction :=
  [.bootstrap (.early 5) false false, .act (.call (call 1 .bid 2 (some "200"))),
    .act (.call (call 2 .ban 9 none (some 2))), .project 1 0, .project 2 0,
    .bootstrap (.early 6) true true, .act (.call closeCall), .project 3 0]

end Sample

theorem banned_never_leads_sample : ∃ s,
    Run (SystemStep 1) { tables := Sample.tables } Sample.banOfOther s ∧ BannedOut 1 s ∧
      s.tables.Banned 1 2 ∧ s.tables.orders.map (·.userId) = [3] := by
  have hview : (Sample.banOfOther.foldlM (fun (s : System) (x : SystemAction) =>
      if x.Settled s then s.next 1 x else none) { tables := Sample.tables }).map
      (fun s => (decide (s.tables.Banned 1 2), s.tables.orders.map (·.userId))) =
      some (true, [3]) := by decide +kernel
  simp only [Option.map_eq_some_iff, Prod.mk.injEq, decide_eq_true_eq] at hview
  obtain ⟨s, hrun, hbanned, horders⟩ := hview
  have hrun := run_guarded_of_foldlM hrun
  exact ⟨s, hrun.mono fun _ _ _ h => h.2, (banned_never_leads Sample.tables_untouched hrun).1,
    hbanned, horders⟩

/-- The banned leader leads after the rebuild, owns the price and gets the order. -/
theorem banned_leads : ¬ ∀ (productId : Nat) (T : Tables) (xs : List SystemAction) (s : System),
    Untouched productId T → Run (SystemStep productId) { tables := T } xs s →
    (∀ a, s.keys.auction = some a → ∀ u, a.hash.leaderId = some u → u ∉ a.sets.bans) ∨
    (s.pending = [] → ∀ product, s.tables.products productId = some product →
      ∀ u, product.priceOwnerId = some u → ¬ s.tables.Banned productId u) ∨
    ∀ order ∈ s.tables.orders, order.productId = productId →
      ¬ s.tables.Banned productId order.userId := by
  intro h
  have hview : (Sample.banOfLeader.foldlM (System.next 1) { tables := Sample.tables }).map
      (fun s => (s.keys.auction.map (fun a => (a.hash.leaderId, decide (2 ∈ a.sets.bans))),
        (s.tables.products 1).map (·.priceOwnerId),
        s.tables.orders.map (fun order => (order.productId, order.userId)),
        decide (s.pending = [] ∧ s.tables.Banned 1 2))) =
      some (some (some 2, true), some (some 2), [(1, 2)], true) := by decide +kernel
  simp only [Option.map_eq_some_iff, Prod.mk.injEq, decide_eq_true_eq] at hview
  obtain ⟨s, hrun, ⟨a, ha, hleader, hban⟩, ⟨product, hproduct, howner⟩, horders, hnil,
    hbanned⟩ := hview
  obtain ⟨order, _, horder, hrest⟩ := List.map_eq_cons_iff.mp horders
  rcases h 1 _ _ s Sample.tables_untouched (run_partial_iff.mpr hrun) with h | h | h
  · exact h a ha 2 hleader hban
  · exact h hnil product hproduct 2 howner hbanned
  · obtain ⟨hp, hu⟩ := Prod.mk.inj hrest.1
    refine h order (by simp [horder]) hp ?_
    rw [hu]
    exact hbanned

end MiracleAuction
