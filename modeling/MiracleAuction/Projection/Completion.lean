import MiracleAuction.Projection.Convergence

/-!
# Completion

A run appends at most one event that ends the auction, as its last one. Projected, it
leaves the order of a sale, under the id that the caller was given, and no other.
-/
namespace MiracleAuction
open Decimal

/-- The event sells the auction. -/
def AuctionStreamEvent.Sells (event : AuctionStreamEvent) : Prop :=
  event.type = .buyNowCompleted ∨ event.type = .auctionClosed ∧ event.leaderId ≠ none

instance (event : AuctionStreamEvent) : Decidable event.Sells := by
  unfold AuctionStreamEvent.Sells; infer_instance

/-- Only the last event ends the auction. -/
def EndsOnce (events : List AuctionStreamEvent) : Prop :=
  ∀ earlier event later, events = earlier ++ event :: later → event.type.keepsOpen = false →
    later = []

/-- A call of the run was answered by `data`. -/
def Answered (k₀ : AuctionKeys) (xs : List Action) (data : AuctionMutationData) : Prop :=
  ∃ ys c zs k req, xs = ys ++ .call c :: zs ∧ AuthorityRun k₀ ys k ∧ c.payload = .ok req ∧
    (mutateScript req k).1 = .success data

/-- What the events of a run leave in the tables: the order of a sale, and the final price. -/
structure Completion (productId : Nat) (k₀ k : AuctionKeys) (xs : List Action)
    (events : List AuctionStreamEvent) (T : Tables) : Prop where
  sold : ∀ event ∈ events, event.Sells → ∃ order data,
    T.orders.filter (·.productId = productId) = [order] ∧
      event.leaderId = some order.userId ∧ order.auctionSequence = some event.sequence ∧
      Answered k₀ xs data ∧ data.eventId = event.eventId ∧
      data.orderId = some order.publicOrderId
  unsold : (∀ event ∈ events, ¬ event.Sells) → T.orderCount productId = 0
  final : ∀ event ∈ events, event.type.keepsOpen = false → ∃ product a,
    T.products productId = some product ∧ k.auction = some a ∧
      event.leaderId = a.hash.leaderId ∧ product.currentPrice = some a.hash.currentPriceVnd ∧
      product.auctionStatus = a.hash.status ∧ a.hash.status.isTerminal

section
variable {productId : Nat} {k₀ k k' : AuctionKeys} {xs : List Action} {a : Auction}
  {events : List AuctionStreamEvent} {event : AuctionStreamEvent}

/-! ## Events and their calls -/

theorem stream_prefix (h : AuthorityRun k xs k') : k.stream <+: k'.stream := by
  refine h.compares (R := fun k k' => k.stream <+: k'.stream) (fun _ => List.prefix_rfl)
    (fun _ _ _ => List.IsPrefix.trans) fun k x k' hstep => ?_
  cases actionCases_of_does hstep with
  | accepts => exact List.prefix_append ..
  | keeps hkeeps => rw [hkeeps.stream]

/-- Nothing happens to an auction that is over. -/
theorem keeps_of_isTerminal (h : AuthorityRun k xs k') (ha : k.auction = some a)
    (hover : a.hash.status.isTerminal) : Keeps k k' := by
  refine h.preserves (I := Keeps k) (fun s x s' hstep hs => ?_) (.refl k)
  cases actionCases_of_does hstep with
  | accepts _ hacc =>
    cases (hs.auction.trans ha).symm.trans hacc.loaded
    rw [hacc.isTerminal] at hover
    cases hover
  | keeps hkeeps =>
    exact ⟨hkeeps.state.trans hs.state, hkeeps.sets.trans hs.sets,
      hkeeps.deadline.trans hs.deadline, hkeeps.stream.trans hs.stream⟩

/-- An event of a run was appended by an accepted call. -/
theorem exists_accepts_of_event {earlier later : List AuctionStreamEvent}
    (h : AuthorityRun k₀ xs k')
    (hstream : k'.stream = k₀.stream ++ (earlier ++ event :: later)) :
    ∃ ys c zs k req a d, xs = ys ++ .call c :: zs ∧ AuthorityRun k₀ ys k ∧
      k.stream = k₀.stream ++ earlier ∧ c.payload = .ok req ∧ Accepts k req a d ∧
      event = Script.event a req d ∧ AuthorityRun (Script.accept a req k d) zs k' := by
  induction h generalizing earlier with
  | refl k => simp at hstream
  | @cons k k₁ k' x xs hx hrun ih =>
    cases actionCases_of_does hx with
    | @accepts c req a d hpayload hacc =>
      obtain ⟨rest, hrest⟩ := stream_prefix hrun
      rw [hstream, Script.accept_stream, List.append_assoc, List.append_cancel_left_eq] at hrest
      cases earlier with
      | nil =>
        obtain ⟨rfl, -⟩ : Script.event a req d = event ∧ rest = later := by simpa using hrest
        exact ⟨[], c, xs, k, req, a, d, rfl, .refl k, by simp, hpayload, hacc, rfl, hrun⟩
      | cons e earlier =>
        obtain ⟨rfl, hrest⟩ : Script.event a req d = e ∧
            rest = earlier ++ event :: later := by
          simpa using hrest
        obtain ⟨ys, c', zs, k₂, req', a', d', rfl, hys, hk₂, hrest⟩ :=
          ih (show k'.stream = (Script.accept a req k d).stream ++ (earlier ++ event :: later) by
            rw [hstream, Script.accept_stream]; simp)
        refine ⟨.call c :: ys, c', zs, k₂, req', a', d', rfl, .cons hx hys, ?_, hrest⟩
        rw [hk₂, Script.accept_stream]
        simp
    | keeps hkeeps =>
      obtain ⟨ys, c, zs, k₂, req, a, d, rfl, hys, hk₂, hrest⟩ :=
        ih (show k'.stream = k₁.stream ++ (earlier ++ event :: later) by
          rw [hstream, hkeeps.stream])
      exact ⟨x :: ys, c, zs, k₂, req, a, d, rfl, .cons hx hys, by rw [hk₂, hkeeps.stream],
        hrest⟩

/-- The accepted call that ends an auction is the last one of its run. -/
theorem write_isTerminal {req : Request} {d : Decision} (hd : Decided a req d)
    (hends : (Script.event a req d).type.keepsOpen = false) :
    (Script.write a req d).hash.status.isTerminal := by
  rcases hd.open_or_over with hopen | hover
  · exact absurd hopen.2 (by rw [show d.eventType.keepsOpen = false from hends]; simp)
  · simpa [Script.write] using hover

theorem endsOnce_of_run (h : AuthorityRun k₀ xs k')
    (hstream : k'.stream = k₀.stream ++ events) :
    EndsOnce events := by
  rintro earlier event later rfl hends
  obtain ⟨_, _, _, k, req, a, d, _, _, hk, _, hacc, rfl, hrun⟩ :=
    exists_accepts_of_event h hstream
  have hover := write_isTerminal (Script.operate_ok hacc.decided) hends
  have hkeeps := (keeps_of_isTerminal hrun Script.accept_auction hover).stream
  rw [hstream, Script.accept_stream, hk] at hkeeps
  simpa using hkeeps

/-! ## Orders of a run -/

/-- The projected events have added their orders. -/
theorem projectAll_orders {entries : List RedisStreamEntry} {T T' : Tables}
    (hentries : entries.map (·.payload) = events.map .event) (h : projectAll entries T = some T') :
    T'.orders = T.orders ++ events.flatMap Projector.orderRows := by
  induction entries generalizing events T with
  | nil =>
    cases h
    cases events with
    | nil => simp
    | cons e events => cases hentries
  | cons entry entries ih =>
    cases events with
    | nil => cases hentries
    | cons e events =>
      simp only [List.map_cons, List.cons.injEq] at hentries
      obtain ⟨T₁, event, happlied, h⟩ := projectAll_cons h
      obtain ⟨hpayload, _⟩ := parseEvent_ok happlied.parsed
      cases hentries.1.symm.trans hpayload
      rw [ih hentries.2 h, happlied.orders]
      simp

/-- An accepted call that does not sell has no order. -/
theorem orderRows_of_not_sells (h : ¬ event.Sells) : Projector.orderRows event = [] := by
  refine List.eq_nil_iff_forall_not_mem.mpr fun order horder => h ?_
  obtain ⟨htype, hleader, _⟩ := Projector.mem_orderRows horder
  exact htype.imp id fun htype => ⟨htype, by simp [hleader]⟩

/-- A sale has one order. -/
theorem orderRows_of_sells {orderId : Uuid} {leaderId : Nat} (h : event.Sells)
    (horder : event.orderId = some orderId) (hleader : event.leaderId = some leaderId) :
    Projector.orderRows event =
      [⟨orderId, event.productId, leaderId, some event.sequence⟩] := by
  unfold Projector.orderRows
  rw [horder, hleader]
  exact if_pos (h.imp id And.left)

/-- The order id of an accepted sale is the one that its caller is told. -/
theorem orderId_of_sells {c : Call} {req : Request} {d : Decision}
    (hpayload : c.payload = .ok req) (hd : Decided a req d)
    (hsells : (Script.event a req d).Sells) : ∃ orderId leaderId,
    (Script.event a req d).orderId = some orderId ∧
      (Script.event a req d).leaderId = some leaderId ∧
      (Script.result a req d).orderId = some orderId := by
  obtain ⟨_, amount, hreq, _⟩ := Call.payload_ok hpayload
  have horder : req.operation = .buyNow ∨ req.operation = .close →
      ∃ id, req.orderId = some id := by
    intro hop
    subst hreq
    simp only [Call.request, Call.orderId] at hop ⊢
    rw [if_pos hop]
    cases c.command.orderId with
    | none => exact ⟨_, rfl⟩
    | some id => exact ⟨id, rfl⟩
  have hresult : (Script.result a req d).orderId = d.orderId := Script.update_orderId
  rw [hresult]
  cases hd with
  | bid => rcases hsells with h | ⟨h, _⟩ <;> cases h
  | ban => rcases hsells with h | ⟨h, _⟩ <;> cases h
  | cancel => rcases hsells with h | ⟨h, _⟩ <;> cases h
  | buyNow hop =>
    obtain ⟨id, hid⟩ := horder (.inl hop)
    exact ⟨id, req.actor, hid, rfl, hid⟩
  | close hop =>
    obtain ⟨id, hid⟩ := horder (.inr hop)
    obtain ⟨leader, hleader⟩ : ∃ leader, a.hash.leaderId = some leader := by
      rcases hsells with h | ⟨_, h⟩
      · cases h
      · exact Option.ne_none_iff_exists'.mp h
    have hnext : (if a.hash.leaderId = none then none else req.orderId) = some id := by
      rw [hleader, if_neg (by simp), hid]
    exact ⟨id, leader, hnext, hleader, hnext⟩

end

/-- Every run of an auction ends it at most once. When its events are projected, the auction has
one order if it was sold, with the id returned to the caller, and none otherwise. -/
theorem completed_once {productId : Nat} {recovery force : Bool} {now : DateMs} {T₀ : Tables}
    {k k₀ k₁ : AuctionKeys} {xs : List Action} {events : List AuctionStreamEvent}
    (hnone : T₀.orderCount productId = 0) (hunloaded : force = false → Unloaded k)
    (hboot : bootstrapRedisAuction productId recovery force now T₀ k = (.ok true, k₀))
    (hrun : AuthorityRun k₀ xs k₁) (hstream : k₁.stream = k₀.stream ++ events) :
    EndsOnce events ∧ ∀ (entries : List RedisStreamEntry) (T : Tables),
      entries.map (·.payload) = events.map .event → projectAll entries T₀ = some T →
      Completion productId k₀ k₁ xs events T := by
  have hends := endsOnce_of_run hrun hstream
  refine ⟨hends, fun entries T hentries hprojected => ?_⟩
  have hprefix : T₀.orders.filter (·.productId = productId) = [] :=
    List.eq_nil_of_length_eq_zero hnone
  obtain ⟨_, events', hstate⟩ := runState_of_bootstrap hunloaded hboot hrun
  obtain rfl : events' = events := by
    simpa [hstream] using hstate.appended.symm
  have horders := projectAll_orders hentries hprojected
  -- An event that ends the auction is the last, and only it may have an order.
  have hlast : ∀ event ∈ events', event.type.keepsOpen = false → ∃ earlier,
      events' = earlier ++ [event] ∧ earlier.flatMap Projector.orderRows = [] := by
    intro event hevent hterminal
    obtain ⟨earlier, later, rfl⟩ := List.append_of_mem hevent
    cases hends earlier event later rfl hterminal
    refine ⟨earlier, rfl, List.flatMap_eq_nil_iff.mpr fun e he => ?_⟩
    refine Projector.orderRows_of_keepsOpen ?_
    by_contra hclosed
    obtain ⟨before, after, rfl⟩ := List.append_of_mem he
    have := hends before e (after ++ [event]) (by simp) (by simpa using hclosed)
    simp at this
  refine ⟨fun event hevent hsells => ?_, fun hunsold => ?_, fun event hevent hterminal => ?_⟩
  · have hterminal : event.type.keepsOpen = false := by
      rcases hsells with h | ⟨h, _⟩ <;> rw [h] <;> rfl
    obtain ⟨earlier, rfl, hearlier⟩ := hlast event hevent hterminal
    obtain ⟨ys, c, zs, k', req, a, d, hxs, hys, _, hpayload, hacc, rfl, hrest⟩ :=
      exists_accepts_of_event hrun hstream
    obtain ⟨orderId, leaderId, horder, hleader, hid⟩ :=
      orderId_of_sells hpayload (Script.operate_ok hacc.decided) hsells
    have hown := hstate.own _ hevent
    refine ⟨⟨orderId, productId, leaderId, some _⟩, Script.result a req d, ?_, hleader, rfl,
      ⟨ys, c, zs, k', req, hxs, hys, hpayload, by rw [hacc.mutateScript_eq]⟩, rfl, hid⟩
    rw [horders, List.flatMap_append, hearlier, List.filter_append, hprefix]
    simp [orderRows_of_sells hsells horder hleader, hown]
  · have hnil : events'.flatMap Projector.orderRows = [] :=
      List.flatMap_eq_nil_iff.mpr fun e he => orderRows_of_not_sells (hunsold e he)
    rw [hnil, List.append_nil] at horders
    unfold Tables.orderCount
    rw [horders, hprefix]
    rfl
  · obtain ⟨earlier, rfl, _⟩ := hlast event hevent hterminal
    obtain ⟨_, _, _, k', req, a, d, _, _, _, _, hacc, rfl, hrest⟩ :=
      exists_accepts_of_event hrun hstream
    have hd := Script.operate_ok hacc.decided
    have hkeeps := keeps_of_isTerminal hrest Script.accept_auction (write_isTerminal hd hterminal)
    rw [List.map_append] at hentries
    obtain ⟨es, es', rfl, _, hlastEntry⟩ := List.map_eq_append_iff.mp hentries
    obtain ⟨T₁, _, h₂⟩ := projectAll_append.mp hprojected
    obtain ⟨entry, rest, rfl, hpay, hnil⟩ := List.map_eq_cons_iff.mp hlastEntry
    cases List.map_eq_nil_iff.mp hnil
    obtain ⟨T₂, event, happlied, hdone⟩ := projectAll_cons h₂
    cases hdone
    obtain ⟨hevent', _⟩ := parseEvent_ok happlied.parsed
    cases hpay.symm.trans hevent'
    obtain ⟨product, date, _, _, _, hproducts⟩ := happlied.product
    have hown := hstate.own _ hevent
    have hban : ¬ BansLeader a req := by
      rintro ⟨hop, _⟩
      have htype : (Script.event a req d).type = req.operation.eventType := hd.eventType_eq
      rw [htype, hop] at hterminal
      cases hterminal
    have hupdate := Script.update_of_not_bansLeader (d := d) hban
    refine ⟨_, Script.write a req d, by rw [hproducts, ← hown, Function.update_self],
      hkeeps.auction.trans Script.accept_auction, ?_, ?_, ?_, write_isTerminal hd hterminal⟩
    · simp only [Script.write, hupdate, Script.event]
    · simp only [snapshot, Script.write, hupdate, Script.event]
    · simp only [snapshot, Script.write, hupdate, Script.event]

namespace Sample

/-- Two bids, and a sale to bidder 4. -/
def sale : List Action := bids ++ [.call (call 3 .buyNow 4 (some "300"))]

def soldKeys : AuctionKeys := sale.foldl Action.apply bootKeys

end Sample

/-- The buyer gets the one order. -/
theorem completed_once_sample : ∃ T, projectAll (Sample.entries Sample.soldKeys.stream)
    Sample.tables = some T ∧ EndsOnce Sample.soldKeys.stream ∧
    Completion 1 Sample.bootKeys Sample.soldKeys Sample.sale Sample.soldKeys.stream T := by
  obtain ⟨T, hT⟩ := Option.isSome_iff_exists.mp (by decide +kernel :
    (projectAll (Sample.entries Sample.soldKeys.stream) Sample.tables).isSome = true)
  have hrun : AuthorityRun Sample.bootKeys Sample.sale Sample.soldKeys := run_does_iff.mpr rfl
  obtain ⟨hends, hcompletion⟩ :=
    completed_once rfl (fun _ => ⟨rfl, rfl, rfl⟩) Sample.booted hrun rfl
  exact ⟨T, hT, hends, hcompletion _ T (Sample.entries_payload _) hT⟩

end MiracleAuction
