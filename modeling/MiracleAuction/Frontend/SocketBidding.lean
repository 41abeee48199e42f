import Mathlib
import MiracleAuction.Base.Records
import MiracleAuction.Messaging.Envelope

/-!
# `useSocketBidding`

The bids that a product page shows, out of the events that its socket delivers.
-/
namespace MiracleAuction.SocketBidding

open Messaging (bigInt)

structure BidSocketEvent where
  eventId : String
  productId : String
  currentPriceVnd : String
  leaderId : Option String
  endTimeMs : String
  sequence : String
  version : String
  orderId : Option String
  status : String

/-- `Pick<BidSocketEvent, "sequence" | "version">`. -/
structure Position where
  sequence : String
  version : String

def BidSocketEvent.position (event : BidSocketEvent) : Position :=
  ⟨event.sequence, event.version⟩

/-- Throws where `BigInt` does. -/
def isNewer (incoming : BidSocketEvent) : Option Position → Except String Bool
  | none => return true
  | some previous => do
    if (← bigInt incoming.sequence) > (← bigInt previous.sequence) then return true
    if (← bigInt incoming.sequence) = (← bigInt previous.sequence) then
      return decide ((← bigInt incoming.version) > (← bigInt previous.version))
    return false

/-- `shown` are the events that `onBid` was called with. -/
structure View where
  latest : Option Position
  shown : List BidSocketEvent := []

/-- The view of an effect; an empty text counts as none. -/
def mount (initialSequence initialVersion : Option String) : View where
  latest := do
    let sequence ← initialSequence
    let version ← initialVersion
    if sequence = "" ∨ version = "" then none else some ⟨sequence, version⟩

/-- `handleBid`, with the product's id as text. -/
def handleBid (productId : String) (view : View) (event : BidSocketEvent) : Except String View := do
  if event.productId ≠ productId then return view
  if ← isNewer event view.latest then
    return { latest := some event.position, shown := view.shown ++ [event] }
  return view

/-- The socket delivers events. A call that throws changes nothing. -/
def receive (productId : String) (view : View) (events : List BidSocketEvent) : View :=
  events.foldl (fun view event => (handleBid productId view event).toOption.getD view) view

/-! ## Places -/

/-- The texts denote integers. -/
def Position.Numeric (position : Position) : Prop :=
  (∃ n, bigInt position.sequence = .ok n) ∧ ∃ n, bigInt position.version = .ok n

/-- The integer of a text that denotes one. -/
def value (text : String) : ℤ := (bigInt text).toOption.getD 0

/-- Sequence and version, in lexicographical order. -/
def Position.place (position : Position) : ℤ ×ₗ ℤ :=
  toLex (value position.sequence, value position.version)

def BidSocketEvent.place (event : BidSocketEvent) : ℤ ×ₗ ℤ := event.position.place

/-- The place of the latest position, below all others if there is none. -/
def View.place (view : View) : WithBot (ℤ ×ₗ ℤ) :=
  view.latest.elim ⊥ fun latest => latest.place

/-- The view only goes forward: the events that it shows increase from the start on, and the last of
them, or else the start, is the highest of the start and all that was delivered for the product. -/
structure GoesForward (productId : String) (start : View) (events : List BidSocketEvent)
    (view : View) : Prop where
  increasing : view.shown.Pairwise fun a b => a.place < b.place
  beyond : ∀ event ∈ view.shown, start.place < event.place
  delivered : ∀ event ∈ view.shown, event ∈ events.filter (·.productId = productId)
  last : IsGreatest
    (insert start.place {place : WithBot (ℤ ×ₗ ℤ) |
      ∃ event ∈ events.filter (·.productId = productId), place = event.place})
    (view.shown.getLast?.elim start.place fun event => event.place)

variable {productId : String} {view : View} {event : BidSocketEvent} {events : List BidSocketEvent}
  {position : Position}

theorem value_of_ok {text : String} {n : ℤ} (h : bigInt text = .ok n) : value text = n := by
  rw [value, h]
  rfl

/-- On numbers `isNewer` compares places. -/
theorem isNewer_eq (hevent : event.position.Numeric) (hposition : position.Numeric) :
    isNewer event (some position) = .ok (decide (position.place < event.place)) := by
  obtain ⟨⟨m, hm⟩, ⟨n, hn⟩⟩ := hposition
  obtain ⟨⟨m', hm'⟩, ⟨n', hn'⟩⟩ := hevent
  have hplace : position.place = toLex (m, n) := by
    rw [Position.place, value_of_ok hm, value_of_ok hn]
  have hplace' : event.place = toLex (m', n') := by
    rw [BidSocketEvent.place, Position.place, value_of_ok hm', value_of_ok hn']
  change bigInt event.sequence = .ok m' at hm'
  change bigInt event.version = .ok n' at hn'
  rw [hplace, hplace', isNewer, Except.bind_of_ok hm', Except.bind_of_ok hm]
  by_cases hgt : m' > m
  · rw [if_pos hgt, decide_eq_true (Prod.Lex.toLex_lt_toLex.mpr (.inl hgt))]
    rfl
  · rw [if_neg hgt, Except.bind_of_ok hm', Except.bind_of_ok hm]
    by_cases heq : m' = m
    · rw [if_pos heq, Except.bind_of_ok hn', Except.bind_of_ok hn]
      refine congrArg Except.ok (decide_eq_decide.mpr ?_)
      simp [Prod.Lex.toLex_lt_toLex, heq]
    · rw [if_neg heq, decide_eq_false]
      · rfl
      · simp [Prod.Lex.toLex_lt_toLex, not_lt.mp hgt, Ne.symm heq]

/-- The view after an event that it has no reason to ignore, and after any other. -/
theorem handleBid_eq (hevent : event.productId = productId → event.position.Numeric)
    (hlatest : ∀ p ∈ view.latest, p.Numeric) :
    handleBid productId view event =
      .ok (if event.productId = productId ∧ view.place < event.place then
        { latest := some event.position, shown := view.shown ++ [event] } else view) := by
  rw [handleBid]
  by_cases hproduct : event.productId = productId
  · have hnewer : isNewer event view.latest = .ok (decide (view.place < event.place)) := by
      rw [View.place]
      cases hlast : view.latest with
      | none => exact congrArg Except.ok (decide_eq_true (WithBot.bot_lt_coe _)).symm
      | some latest =>
        rw [isNewer_eq (hevent hproduct) (hlatest latest hlast)]
        exact congrArg Except.ok (decide_eq_decide.mpr WithBot.coe_lt_coe.symm)
    rw [if_neg (not_not.mpr hproduct), Except.bind_of_ok hnewer]
    by_cases hlt : view.place < event.place
    · rw [if_pos (decide_eq_true hlt), if_pos ⟨hproduct, hlt⟩]
      rfl
    · rw [if_neg (by simpa using hlt), if_neg fun h => hlt h.2]
      rfl
  · rw [if_pos hproduct, if_neg fun h => hproduct h.1]
    rfl

/-- The view shows the records of the events for its product, and keeps the position of the last. -/
theorem receive_eq
    (hevents : ∀ event ∈ events, event.productId = productId → event.position.Numeric)
    (hlatest : ∀ p ∈ view.latest, p.Numeric) :
    (receive productId view events).shown = view.shown ++ Records.records BidSocketEvent.place
      view.place (events.filter (·.productId = productId)) := by
  induction events generalizing view with
  | nil => exact (List.append_nil _).symm
  | cons event events ih =>
    obtain ⟨hevent, hevents⟩ := List.forall_mem_cons.mp hevents
    rw [receive, List.foldl_cons, handleBid_eq hevent hlatest, ← receive]
    by_cases hproduct : event.productId = productId
    · rw [List.filter_cons_of_pos (by simpa using hproduct)]
      by_cases hlt : view.place < event.place
      · rw [if_pos ⟨hproduct, hlt⟩, Records.records_cons_of_lt hlt]
        have hnext := @ih ⟨some event.position, view.shown ++ [event]⟩ hevents
          fun p hp => Option.some.inj hp ▸ hevent hproduct
        exact hnext.trans (List.append_assoc _ _ _)
      · rw [if_neg fun h => hlt h.2, Records.records_cons_of_not_lt hlt]
        exact ih hevents hlatest
    · rw [List.filter_cons_of_neg (by simpa using hproduct), if_neg fun h => hproduct h.1]
      exact ih hevents hlatest

/-- Whatever is delivered, in any order, repeated or left out, the view only goes forward, and its
latest position is that of the last event shown. -/
theorem view_goes_forward (productId : String) (initialSequence initialVersion : Option String)
    (events : List BidSocketEvent)
    (hinitial : ∀ p ∈ (mount initialSequence initialVersion).latest, p.Numeric)
    (hevents : ∀ event ∈ events, event.productId = productId → event.position.Numeric) :
    GoesForward productId (mount initialSequence initialVersion) events
      (receive productId (mount initialSequence initialVersion) events) := by
  have hshown := receive_eq hevents hinitial
  rw [show (mount initialSequence initialVersion).shown = [] from rfl, List.nil_append] at hshown
  have hlast := Records.peak_isGreatest BidSocketEvent.place
    (mount initialSequence initialVersion).place (events.filter (·.productId = productId))
  rw [← Records.last_record, ← hshown] at hlast
  refine ⟨?_, fun event hevent => ?_, fun event hevent => ?_, hlast⟩
  · rw [hshown]
    exact Records.records_increasing _ _ _
  · rw [hshown] at hevent
    exact (Records.records_spec hevent).2
  · rw [hshown] at hevent
    exact (Records.records_spec hevent).1

namespace Sample

def bid (productId sequence version : String) : BidSocketEvent :=
  { eventId := "123e4567-e89b-42d3-a456-426614174000", productId := productId,
    currentPriceVnd := "100", leaderId := "2", endTimeMs := "1770000000000", sequence := sequence,
    version := version, orderId := none, status := "ACTIVE" }

/-- Out of order, one twice, one for another product. -/
def delivered : List BidSocketEvent :=
  [bid "1" "10" "2", bid "1" "9" "3", bid "2" "12" "1", bid "1" "10" "2", bid "1" "10" "3"]

end Sample

theorem view_goes_forward_sample :
    GoesForward "1" (mount (some "9") (some "2")) Sample.delivered
      (receive "1" (mount (some "9") (some "2")) Sample.delivered) :=
  view_goes_forward "1" (some "9") (some "2") Sample.delivered
    (fun p hp => by
      obtain rfl := Option.some.inj hp
      exact ⟨⟨9, by decide⟩, ⟨2, by decide⟩⟩)
    (fun event hevent _ => by
      simp only [Sample.delivered, List.mem_cons, List.not_mem_nil, or_false] at hevent
      obtain rfl | rfl | rfl | rfl | rfl := hevent
      all_goals exact ⟨⟨_, rfl⟩, ⟨_, rfl⟩⟩)

end MiracleAuction.SocketBidding
