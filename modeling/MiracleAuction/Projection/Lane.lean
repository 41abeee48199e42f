import MiracleAuction.Projection.Projector

/-!
# `projectAuctionLane`

One transaction for several entries of an auction. A transaction reads at one moment and
commits at another: the tables that it has read may be older than those that it writes to.
-/
namespace MiracleAuction

/-- The tables as a transaction read them: for the receipts of its events, for the owners of
their sequence numbers, and for the product. -/
structure Reads where
  duplicates : Tables
  owners : Tables
  product : Tables

open Projector in
/-- `projectAuctionEntry`, whose writes are checked against the tables of the commit. -/
def projectAuctionEntryAt (reads : Reads) (entry : RedisStreamEntry) (T : Tables) :
    Except ProjectionError (Outcome × Tables) := do
  let event ← parseEvent entry.payload
  if ¬ (fitsBigint event.productId ∧ fitsBigint event.sequence) then .error .database
  else if reads.duplicates.receipts.any (·.eventId = event.eventId) then .ok (.duplicate, T)
  else if reads.owners.receipts.any fun row =>
      row.productId = event.productId ∧ row.sequence = event.sequence then
    .error (sequenceConflict event)
  else
    match reads.product.products event.productId with
    | none => .error (missingAuction event.productId)
    | some product =>
      if event.sequence ≠ product.auctionSequence + 1 ∨
        event.version ≤ product.auctionVersion then
        .error (fenceRejected event)
      else do
        let T ← projectWrites entry event T
        return (.applied, T)

/-- With nothing in between this is the transaction of one step. -/
theorem projectAuctionEntry_eq (entry : RedisStreamEntry) (T : Tables) :
    projectAuctionEntry entry T = projectAuctionEntryAt ⟨T, T, T⟩ entry T := rfl

/-! ## The lane -/

structure ParsedLaneEntry where
  entry : RedisStreamEntry
  event : AuctionStreamEvent

/-- The variables of the loop. `tables` has the marks that the loop sends itself. -/
structure LaneState where
  rollingSequence : Nat
  rollingVersion : Nat
  finalEvent : Option AuctionStreamEvent := none
  transitions : List TransitionRow := []
  histories : List HistoryRow := []
  receipts : List ReceiptRow := []
  outbox : List OutboxRow := []
  orders : List OrderRow := []
  bans : List BanRow := []
  outcomes : Nat → Option Outcome := fun _ => none
  tables : Tables

/-- No receipt of the event was read. -/
def Reads.unseen (reads : Reads) (item : ParsedLaneEntry) : Bool :=
  !reads.duplicates.receipts.any (·.eventId = item.event.eventId)

namespace Lane

def parse (entry : RedisStreamEntry) : Except ProjectionError ParsedLaneEntry := do
  let event ← parseEvent entry.payload
  return ⟨entry, event⟩

/-- The rows of a banned user that the lane has yet to insert. -/
def flag (bannedUserId : Nat) (histories : List HistoryRow) : List HistoryRow :=
  histories.map fun history =>
    if history.userId = bannedUserId ∧ history.banned = false then { history with banned := true }
    else history

open Projector in
/-- What the loop does that depends on the type of the event. -/
def pushType (event : AuctionStreamEvent) (state : LaneState) :
    Except ProjectionError LaneState :=
  match event.type, event.requestedMaxPriceVnd, event.targetUserId with
  | .bidAccepted, none, _ => .error (.invalid "Accepted bid has no maximum")
  | .bidAccepted, some maximum, _ => do
    -- The insertion fails later in the source, when no column holds the maximum.
    let maximum ← toBigint maximum
    return { state with histories := state.histories ++ [historyRow event maximum] }
  | .bidderBanned, _, some bannedUserId =>
    .ok { state with
      bans := state.bans ++ [banRow event bannedUserId]
      histories := flag bannedUserId state.histories
      tables := state.tables.markBanned event.productId bannedUserId }
  | _, _, _ => .ok state

open Projector in
/-- The rows that every applied event adds. -/
def push (item : ParsedLaneEntry) (state : LaneState) : LaneState :=
  { state with
    rollingSequence := item.event.sequence
    rollingVersion := item.event.version
    finalEvent := some item.event
    transitions := state.transitions ++ [transitionRow item.event]
    orders := state.orders ++ orderRows item.event
    receipts := state.receipts ++ [receiptRow item.event item.entry]
    outbox := state.outbox ++ [outboxRow item.event]
    outcomes := Function.update state.outcomes item.entry.id (some .applied) }

open Projector in
/-- The body of the loop. -/
def step (reads : Reads) (state : LaneState) (item : ParsedLaneEntry) :
    Except ProjectionError LaneState :=
  let event := item.event
  if reads.duplicates.receipts.any (·.eventId = event.eventId) then
    .ok { state with
      outcomes := Function.update state.outcomes item.entry.id (some .duplicate) }
  else if reads.owners.receipts.any fun row =>
      row.productId = event.productId ∧ row.sequence = event.sequence ∧
        row.eventId ≠ event.eventId then
    .error (sequenceConflict event)
  else if event.sequence ≠ state.rollingSequence + 1 ∨
    event.version ≤ state.rollingVersion then
    .error (fenceRejected event)
  else do
    let state ← pushType event state
    return push item state

/-- No statement is sent for no rows. -/
def send {ρ : Type} (create : Tables → List ρ → Except ProjectionError Tables)
    (rows : List ρ) (T : Tables) : Except ProjectionError Tables :=
  if rows.isEmpty then .ok T else create T rows

/-- The statements after the loop. -/
def commit (state : LaneState) : Except ProjectionError Tables :=
  match state.finalEvent with
  | none => .ok state.tables
  | some finalEvent => do
    let T ← send Tables.createTransitions state.transitions state.tables
    let T ← send Tables.createHistory state.histories T
    let T ← send Tables.createBans state.bans T
    let T ← send Tables.createOrders state.orders T
    let T ← send Tables.createReceipts state.receipts T
    let T ← send Tables.createOutbox state.outbox T
    T.updateProduct finalEvent

end Lane

def projectAuctionLaneAt (reads : Reads) (entries : List RedisStreamEntry) (T : Tables) :
    Except ProjectionError ((Nat → Option Outcome) × Tables) := do
  let parsed ← entries.mapM Lane.parse
  match parsed with
  | [] => .ok (fun _ => none, T)
  | first :: _ =>
    let productId := first.event.productId
    if parsed.any (·.event.productId ≠ productId) then
      .error (.invalid "A projector lane contains more than one auction")
    else if ¬ (fitsBigint productId ∧ ∀ item ∈ parsed, fitsBigint item.event.sequence) then
      .error .database
    else
      match reads.product.products productId with
      | none => .error (Projector.missingAuction productId)
      | some product => do
        let state ← parsed.foldlM (Lane.step reads)
          { rollingSequence := product.auctionSequence
            rollingVersion := product.auctionVersion
            tables := T }
        let T ← Lane.commit state
        return (state.outcomes, T)

def projectAuctionLane (entries : List RedisStreamEntry) (T : Tables) :
    Except ProjectionError ((Nat → Option Outcome) × Tables) :=
  projectAuctionLaneAt ⟨T, T, T⟩ entries T

/-! ## Later tables -/

/-- The rows of `T` are still in `T'`, history rows perhaps marked; a product that has moved on
has left a transition behind. -/
structure Later (T T' : Tables) : Prop where
  transitions : ∀ row ∈ T.transitions, row ∈ T'.transitions
  history : ∀ row ∈ T.history, ∃ banned, { row with banned := banned } ∈ T'.history
  banned : ∀ p u, T.Banned p u → T'.Banned p u
  orders : ∀ row ∈ T.orders, row ∈ T'.orders
  receipts : ∀ row ∈ T.receipts, row ∈ T'.receipts
  outbox : ∀ row ∈ T.outbox, row ∈ T'.outbox
  products : ∀ p row, T.products p = some row → T'.products p = some row ∨
    ∃ row', T'.products p = some row' ∧ row.auctionSequence < row'.auctionSequence ∧
      ∃ t ∈ T'.transitions, t.productId = p ∧ t.sequence = row.auctionSequence + 1

theorem Later.refl (T : Tables) : Later T T :=
  ⟨fun _ => id, fun row h => ⟨row.banned, h⟩, fun _ _ => id, fun _ => id, fun _ => id,
    fun _ => id, fun _ _ => .inl⟩

theorem Later.trans {T₁ T₂ T₃ : Tables} (h : Later T₁ T₂) (h' : Later T₂ T₃) :
    Later T₁ T₃ where
  transitions row hrow := h'.transitions row (h.transitions row hrow)
  history := by
    intro row hrow
    obtain ⟨banned, hrow⟩ := h.history row hrow
    obtain ⟨banned', hrow⟩ := h'.history _ hrow
    exact ⟨banned', hrow⟩
  banned p u hbanned := h'.banned p u (h.banned p u hbanned)
  orders row hrow := h'.orders row (h.orders row hrow)
  receipts row hrow := h'.receipts row (h.receipts row hrow)
  outbox row hrow := h'.outbox row (h.outbox row hrow)
  products := by
    intro p row hrow
    rcases h.products p row hrow with hsame | ⟨row', hrow', hlt, t, ht, htp, hts⟩
    · exact h'.products p row hsame
    · refine .inr ?_
      rcases h'.products p row' hrow' with hsame | ⟨row'', hrow'', hlt', _⟩
      · exact ⟨row', hsame, hlt, t, h'.transitions t ht, htp, hts⟩
      · exact ⟨row'', hrow'', hlt.trans hlt', t, h'.transitions t ht, htp, hts⟩

/-! ## What a transaction commits -/

/-- The history after several events, one after the other. -/
inductive HistoryAfter : List AuctionStreamEvent → List HistoryRow → List HistoryRow → Prop
  | nil (history : List HistoryRow) : HistoryAfter [] history history
  | cons {event : AuctionStreamEvent} {events : List AuctionStreamEvent}
      {before between after : List HistoryRow} (h : HistoryWrites event before between)
      (hs : HistoryAfter events between after) : HistoryAfter (event :: events) before after

theorem HistoryAfter.snoc {events : List AuctionStreamEvent} {event : AuctionStreamEvent}
    {before between after : List HistoryRow} (hs : HistoryAfter events before between)
    (h : HistoryWrites event between after) : HistoryAfter (events ++ [event]) before after := by
  induction hs with
  | nil => exact .cons h (.nil _)
  | cons h' _ ih => exact .cons h' (ih h)

/-- The tables after consecutive events of one auction are committed. -/
structure AppliedAll (productId : Nat) (fresh : List ParsedLaneEntry) (T T' : Tables) : Prop where
  parsed : ∀ item ∈ fresh, parseEvent item.entry.payload = .ok item.event ∧
    item.event.productId = productId
  transitions : T'.transitions = T.transitions ++ fresh.map (Projector.transitionRow ·.event)
  history : HistoryAfter (fresh.map (·.event)) T.history T'.history
  bans : T'.bans = Tables.insertBans T.bans (fresh.flatMap (Projector.banRows ·.event))
  orders : T'.orders = T.orders ++ fresh.flatMap (Projector.orderRows ·.event)
  receipts : T'.receipts =
    T.receipts ++ fresh.map fun item => Projector.receiptRow item.event item.entry
  outbox : T'.outbox = T.outbox ++ fresh.map (Projector.outboxRow ·.event)
  product : fresh = [] ∧ T'.products = T.products ∨
    ∃ product date last, T.products productId = some product ∧ fresh.getLast? = some last ∧
      fresh.map (·.event.sequence) = List.range' (product.auctionSequence + 1) fresh.length ∧
      Tables.toDate last.event.endAtMs = .ok date ∧
      T'.products =
        Function.update T.products productId (some (snapshot last.event date product))

section
variable {reads : Reads} {entry : RedisStreamEntry} {event : AuctionStreamEvent} {T T' : Tables}
  {productId start : Nat} {done fresh : List ParsedLaneEntry} {item : ParsedLaneEntry}
  {state state' : LaneState}

theorem AppliedAll.refl (productId : Nat) (T : Tables) : AppliedAll productId [] T T :=
  ⟨by simp, by simp, .nil _, rfl, by simp, by simp, by simp, .inl ⟨rfl, rfl⟩⟩

/-- An entry that is projected alone. -/
theorem Applied.all (h : Applied entry event T T') :
    AppliedAll event.productId [⟨entry, event⟩] T T' := by
  obtain ⟨product, date, hproduct, hsequence, hdate, hproducts⟩ := h.product
  refine ⟨by simp [h.parsed], by simp [h.transitions], .cons h.history (.nil _), by simp [h.bans],
    by simp [h.orders], by simp [h.receipts], by simp [h.outbox],
    .inr ⟨product, date, ⟨entry, event⟩, hproduct, rfl, ?_, hdate, hproducts⟩⟩
  simp [hsequence]

namespace Lane

/-- The loop has applied the events of `fresh`, and found a receipt for the others. -/
structure Invariant (reads : Reads) (productId start : Nat) (T : Tables)
    (done fresh : List ParsedLaneEntry) (state : LaneState) : Prop where
  covered : ∀ item ∈ done, item ∈ fresh ∨
    ∃ row ∈ reads.duplicates.receipts, row.eventId = item.event.eventId
  subset : ∀ item ∈ fresh, item ∈ done
  sequence : fresh.map (·.event.sequence) = List.range' (start + 1) fresh.length
  rolling : state.rollingSequence = start + fresh.length
  final : state.finalEvent = fresh.getLast?.map (·.event)
  transitions : state.transitions = fresh.map (Projector.transitionRow ·.event)
  orders : state.orders = fresh.flatMap (Projector.orderRows ·.event)
  receipts : state.receipts = fresh.map fun item => Projector.receiptRow item.event item.entry
  outbox : state.outbox = fresh.map (Projector.outboxRow ·.event)
  bans : state.bans = fresh.flatMap (Projector.banRows ·.event)
  own : ∀ row ∈ state.histories, row.productId = productId
  idle : fresh = [] → state.histories = []
  tables : ∃ history, state.tables = { T with history := history } ∧
    HistoryAfter (fresh.map (·.event)) T.history (history ++ state.histories)

/-- The rows of the lane are marked like those of the table. -/
theorem flag_eq {target : Nat} {histories : List HistoryRow}
    (hown : ∀ row ∈ histories, row.productId = productId) :
    flag target histories = Tables.markRows productId target histories := by
  refine List.map_congr_left fun row hrow => ?_
  have hproduct := hown row hrow
  by_cases huser : row.userId = target
  · cases hbanned : row.banned with
    | false => simp [hproduct, huser]
    | true =>
      have hsame : { row with banned := true } = row := by rw [← hbanned]
      rw [if_neg (by simp), if_pos ⟨hproduct, huser⟩, hsame]
  · simp [huser]

/-- The type of an event changes the rows of the history and the bans. -/
theorem pushType_ok (hown : ∀ row ∈ state.histories, row.productId = event.productId)
    (h : pushType event state = .ok state') : ∃ history histories,
      state' = { state with
        histories := histories
        bans := state.bans ++ Projector.banRows event
        tables := { state.tables with history := history } } ∧
      (∀ row ∈ histories, row.productId = event.productId) ∧
      HistoryWrites event (state.tables.history ++ state.histories) (history ++ histories) := by
  unfold pushType at h
  split at h
  · cases h
  · rename_i amount htype hamount
    obtain ⟨maximum, hmaximum, h⟩ := Except.bind_eq_ok h
    cases h
    rw [toBigint_ok hmaximum] at hamount
    refine ⟨state.tables.history, state.histories ++ [Projector.historyRow event maximum],
      by simp [Projector.banRows, htype], ?_, ?_⟩
    · intro row hrow
      rcases List.mem_append.mp hrow with hrow | hrow
      · exact hown row hrow
      · rw [List.mem_singleton.mp hrow]
        rfl
    · rw [← List.append_assoc]
      exact .bid htype hamount
  · rename_i target htype htarget
    cases h
    refine ⟨Tables.markRows event.productId target state.tables.history,
      flag target state.histories, ?_, ?_, ?_⟩
    · simp [Projector.banRows, htype, htarget, Tables.markBanned]
    · intro row hrow
      obtain ⟨old, hold, rfl⟩ := List.mem_map.mp hrow
      split
      · exact hown old hold
      · exact hown old hold
    · rw [flag_eq hown]
      have hban : HistoryWrites event (state.tables.history ++ state.histories)
          (Tables.markRows event.productId target (state.tables.history ++ state.histories)) :=
        .ban htype htarget
      simpa [Tables.markRows] using hban
  · rename_i hnone hbid hban
    cases h
    have hnil : Projector.banRows event = [] := by
      unfold Projector.banRows
      split
      · rename_i target htype htarget
        exact (hban target htype htarget).elim
      · rfl
    refine ⟨_, _, by simp [hnil], hown, .keeps (fun htype => ?_) ?_⟩
    · cases hamount : event.requestedMaxPriceVnd with
      | none => exact hnone htype hamount
      | some maximum => exact hbid maximum htype hamount
    · intro p u hbans
      obtain ⟨htype, _, htarget⟩ := hbans
      exact hban u htype htarget

/-- Before the loop. -/
theorem invariant_start (reads : Reads) (productId : Nat) (row : ProductRow) (T : Tables) :
    Invariant reads productId row.auctionSequence T [] []
      { rollingSequence := row.auctionSequence, rollingVersion := row.auctionVersion
        tables := T } :=
  ⟨by simp, by simp, rfl, rfl, rfl, rfl, rfl, rfl, rfl, rfl, by simp, fun _ => rfl,
    T.history, rfl, by simpa using .nil T.history⟩

theorem invariant_step (hproduct : item.event.productId = productId)
    (hs : Invariant reads productId start T done fresh state)
    (h : step reads state item = .ok state') :
    Invariant reads productId start T (done ++ [item]) (fresh ++ [item].filter reads.unseen)
      state' := by
  subst hproduct
  unfold step at h
  dsimp only at h
  split at h
  · rename_i hduplicate
    cases h
    have hseen : [item].filter reads.unseen = [] := by simp [Reads.unseen, hduplicate]
    simp only [List.any_eq_true, decide_eq_true_eq] at hduplicate
    rw [hseen, List.append_nil]
    refine ⟨fun i hi => ?_, fun i hi => List.mem_append_left _ (hs.subset i hi), hs.sequence,
      hs.rolling, hs.final, hs.transitions, hs.orders, hs.receipts, hs.outbox, hs.bans, hs.own,
      hs.idle, hs.tables⟩
    rcases List.mem_append.mp hi with hi | hi
    · exact hs.covered i hi
    · rw [List.mem_singleton.mp hi]
      exact .inr hduplicate
  rename_i hnew
  have hunseen : [item].filter reads.unseen = [item] := by simp [Reads.unseen, hnew]
  rw [hunseen]
  split at h
  · cases h
  split at h
  · cases h
  rename_i hfence
  simp only [not_or, not_not] at hfence
  obtain ⟨state₁, htype, h⟩ := Except.bind_eq_ok h
  cases h
  obtain ⟨history, histories, rfl, hown, hwrites⟩ := pushType_ok hs.own htype
  obtain ⟨before, htables, hafter⟩ := hs.tables
  refine ⟨fun i hi => ?_, fun i hi => ?_, ?_, ?_, by simp [push], ?_, ?_, ?_, ?_, ?_, hown,
    by simp, history, ?_, ?_⟩
  · rcases List.mem_append.mp hi with hi | hi
    · exact (hs.covered i hi).imp_left fun hi => List.mem_append_left _ hi
    · exact .inl (List.mem_append_right _ hi)
  · rcases List.mem_append.mp hi with hi | hi
    · exact List.mem_append_left _ (hs.subset i hi)
    · exact List.mem_append_right _ hi
  · rw [List.map_append, hs.sequence, List.length_append, List.length_singleton,
      List.range'_concat]
    simp [hfence.1, hs.rolling]
    omega
  · simp only [push, List.length_append, List.length_singleton]
    have := hs.rolling
    omega
  · simp [push, hs.transitions]
  · simp [push, hs.orders]
  · simp [push, hs.receipts]
  · simp [push, hs.outbox]
  · simp [push, hs.bans]
  · simp [push, htables]
  · rw [htables] at hwrites
    rw [List.map_append]
    exact hafter.snoc hwrites

theorem invariant_run {items : List ParsedLaneEntry}
    (hproduct : ∀ item ∈ items, item.event.productId = productId)
    (hs : Invariant reads productId start T done fresh state)
    (h : items.foldlM (step reads) state = .ok state') :
    Invariant reads productId start T (done ++ items)
      (fresh ++ items.filter reads.unseen) state' := by
  induction items generalizing done fresh state with
  | nil =>
    cases h
    simpa using hs
  | cons item items ih =>
    rw [List.foldlM_cons] at h
    obtain ⟨state₁, hstep, h⟩ := Except.bind_eq_ok h
    have hs₁ := invariant_step (hproduct item List.mem_cons_self) hs hstep
    have hs' := ih (fun i hi => hproduct i (List.mem_cons_of_mem _ hi)) hs₁ h
    rwa [List.append_assoc, List.append_assoc, List.singleton_append, ← List.filter_append,
      List.singleton_append] at hs'

/-- A statement adds its rows, sent or not. -/
theorem send_ok {ρ : Type} {create : Tables → List ρ → Except ProjectionError Tables}
    {next : Tables → List ρ → Tables} {rows : List ρ}
    (hcreate : ∀ T rows T', create T rows = .ok T' → T' = next T rows)
    (hnil : ∀ T, next T [] = T) (h : send create rows T = .ok T') : T' = next T rows := by
  unfold send at h
  split at h
  · rename_i hempty
    cases h
    rw [List.isEmpty_iff.mp hempty, hnil]
  · exact hcreate T rows T' h

/-- A product whose next transition is new has not moved on. -/
theorem product_of_later {row : ProductRow} (hlater : Later reads.product T)
    (hrow : reads.product.products productId = some row)
    (hnew : ∀ t ∈ T.transitions,
      (t.productId, t.sequence) ≠ (productId, row.auctionSequence + 1)) :
    T.products productId = some row := by
  rcases hlater.products productId row hrow with hsame | ⟨_, _, _, t, ht, htp, hts⟩
  · exact hsame
  · exact absurd (Prod.ext htp hts) (hnew t ht)

theorem commit_ok {row : ProductRow} (hlater : Later reads.product T)
    (hrow : reads.product.products productId = some row)
    (hparsed : ∀ item ∈ done, parseEvent item.entry.payload = .ok item.event ∧
      item.event.productId = productId)
    (hs : Invariant reads productId row.auctionSequence T done fresh state)
    (h : commit state = .ok T') : AppliedAll productId fresh T T' := by
  obtain ⟨before, htables, hafter⟩ := hs.tables
  have hfresh : ∀ item ∈ fresh, parseEvent item.entry.payload = .ok item.event ∧
      item.event.productId = productId := fun item hitem => hparsed item (hs.subset item hitem)
  unfold commit at h
  rw [hs.final] at h
  cases hlast : fresh.getLast? with
  | none =>
    obtain rfl : fresh = [] := List.getLast?_eq_none_iff.mp hlast
    cases h
    rw [hs.idle rfl, List.append_nil] at hafter
    cases hafter
    rw [htables]
    exact .refl productId T
  | some last =>
    have hmem : last ∈ fresh := List.mem_of_getLast? hlast
    simp only [hlast, Option.map_some] at h
    obtain ⟨T₁, h₁, h⟩ := Except.bind_eq_ok h
    obtain ⟨T₂, h₂, h⟩ := Except.bind_eq_ok h
    obtain ⟨T₃, h₃, h⟩ := Except.bind_eq_ok h
    obtain ⟨T₄, h₄, h⟩ := Except.bind_eq_ok h
    obtain ⟨T₅, h₅, h⟩ := Except.bind_eq_ok h
    obtain ⟨T₆, h₆, h₇⟩ := Except.bind_eq_ok h
    have hproduct : T.products productId = some row := by
      -- The first fresh event has the next sequence number, and its transition is new.
      obtain ⟨first, rest, rfl⟩ := List.exists_cons_of_ne_nil (List.ne_nil_of_mem hmem)
      have hnext : first.event.sequence = row.auctionSequence + 1 := by
        have hsequence := hs.sequence
        rw [List.map_cons, List.length_cons, List.range'_succ] at hsequence
        exact (List.cons.inj hsequence).1
      have hcreate : Tables.createTransitions state.tables state.transitions = .ok T₁ := by
        unfold send at h₁
        rwa [if_neg (by simp [hs.transitions])] at h₁
      obtain ⟨⟨-, hunique, -⟩, -⟩ := Tables.statement_ok hcreate
      have hown := (hfresh first List.mem_cons_self).2
      refine product_of_later hlater hrow fun t ht heq => ?_
      refine hunique.2 (Projector.transitionRow first.event) (by simp [hs.transitions]) ?_
      refine List.mem_map.mpr ⟨t, by rwa [htables], heq.trans ?_⟩
      simp [Projector.transitionRow, hown, hnext]
    have e₁ := send_ok (fun _ _ _ h => (Tables.statement_ok h).2) (by simp) h₁
    have e₂ := send_ok (fun _ _ _ h => (Tables.statement_ok h).2) (by simp) h₂
    have e₃ := send_ok (fun _ _ _ h => (Tables.statement_ok h).2)
      (by simp [Tables.insertBans]) h₃
    have e₄ := send_ok (fun _ _ _ h => (Tables.statement_ok h).2) (by simp) h₄
    have e₅ := send_ok (fun _ _ _ h => (Tables.statement_ok h).2) (by simp) h₅
    have e₆ := send_ok (fun _ _ _ h => (Tables.statement_ok h).2) (by simp) h₆
    obtain ⟨product, date, hproduct', hdate, e₇⟩ := Tables.updateProduct_ok h₇
    have hproducts : T₆.products = T.products := by
      simp only [e₆, e₅, e₄, e₃, e₂, e₁, htables]
    have hbans : T₆.bans = Tables.insertBans T.bans state.bans := by
      simp only [e₆, e₅, e₄, e₃, e₂, e₁, htables]
    have hhistory : T₆.history = before ++ state.histories := by
      simp only [e₆, e₅, e₄, e₃, e₂, e₁, htables]
    have htransitions : T₆.transitions = T.transitions ++ state.transitions := by
      simp only [e₆, e₅, e₄, e₃, e₂, e₁, htables]
    have horders : T₆.orders = T.orders ++ state.orders := by
      simp only [e₆, e₅, e₄, e₃, e₂, e₁, htables]
    have hreceipts : T₆.receipts = T.receipts ++ state.receipts := by
      simp only [e₆, e₅, e₄, e₃, e₂, e₁, htables]
    have houtbox : T₆.outbox = T.outbox ++ state.outbox := by
      simp only [e₆, e₅, e₄, e₃, e₂, e₁, htables]
    rw [hproducts, (hfresh last hmem).2, hproduct] at hproduct'
    cases hproduct'
    refine ⟨hfresh, ?_, ?_, ?_, ?_, ?_, ?_,
      .inr ⟨row, date, last, hproduct, hlast, hs.sequence, hdate, ?_⟩⟩
    · rw [e₇, ← hs.transitions]
      exact htransitions
    · rw [e₇]
      exact hhistory ▸ hafter
    · rw [e₇, ← hs.bans]
      exact hbans
    · rw [e₇, ← hs.orders]
      exact horders
    · rw [e₇, ← hs.receipts]
      exact hreceipts
    · rw [e₇, ← hs.outbox]
      exact houtbox
    · rw [e₇, hproducts, (hfresh last hmem).2]
      rfl

end Lane

/-- The entry is new, and applied, or its event has a receipt. -/
theorem projectAuctionEntryAt_ok {outcome : Outcome} (hlater : Later reads.product T)
    (h : projectAuctionEntryAt reads entry T = .ok (outcome, T')) :
    ∃ event fresh, parseEvent entry.payload = .ok event ∧
      AppliedAll event.productId fresh T T' ∧
      (∀ item ∈ fresh, item = ⟨entry, event⟩) ∧
      (⟨entry, event⟩ ∈ fresh ∨
        ∃ row ∈ reads.duplicates.receipts, row.eventId = event.eventId) := by
  unfold projectAuctionEntryAt at h
  obtain ⟨event, hparsed, h⟩ := Except.bind_eq_ok h
  split at h
  · cases h
  split at h
  · rename_i hduplicate
    cases h
    simp only [List.any_eq_true, decide_eq_true_eq] at hduplicate
    exact ⟨event, [], hparsed, .refl _ T, by simp, .inr hduplicate⟩
  split at h
  · cases h
  split at h
  · cases h
  rename_i row hrow
  split at h
  · cases h
  rename_i hfence
  simp only [not_or, not_not] at hfence
  obtain ⟨T₁, hwrites, heq⟩ := Except.bind_eq_ok h
  cases heq
  have hproduct : T.products event.productId = some row := by
    refine Lane.product_of_later hlater hrow fun t ht heq => projectWrites_new hwrites t ht ?_
    rw [heq, hfence.1]
  have happlied := projectWrites_applied hparsed (fun product' hproduct' => by
    cases hproduct.symm.trans hproduct'
    exact hfence.1) hwrites
  exact ⟨event, _, hparsed, happlied.all, by simp, .inl List.mem_cons_self⟩

theorem Lane.parse_ok {entries : List RedisStreamEntry} {items : List ParsedLaneEntry}
    (h : entries.mapM Lane.parse = .ok items) : items.map (·.entry) = entries ∧
      ∀ item ∈ items, parseEvent item.entry.payload = .ok item.event := by
  induction entries generalizing items with
  | nil =>
    cases h
    simp
  | cons entry entries ih =>
    rw [List.mapM_cons] at h
    obtain ⟨item, hitem, h⟩ := Except.bind_eq_ok h
    obtain ⟨rest, hrest, h⟩ := Except.bind_eq_ok h
    cases h
    obtain ⟨event, hparsed, h⟩ := Except.bind_eq_ok hitem
    cases h
    obtain ⟨hentries, hitems⟩ := ih hrest
    refine ⟨by simp [hentries], fun i hi => ?_⟩
    rcases List.mem_cons.mp hi with rfl | hi
    · exact hparsed
    · exact hitems i hi

/-- Every entry of a lane is applied, or its event has a receipt. -/
theorem projectAuctionLaneAt_ok {entries : List RedisStreamEntry}
    {outcomes : Nat → Option Outcome} (hlater : Later reads.product T)
    (h : projectAuctionLaneAt reads entries T = .ok (outcomes, T')) :
    ∃ productId, ∃ items fresh : List ParsedLaneEntry, items.map (·.entry) = entries ∧
      (∀ item ∈ items, parseEvent item.entry.payload = .ok item.event) ∧
      AppliedAll productId fresh T T' ∧ (∀ item ∈ fresh, item ∈ items) ∧
      ∀ item ∈ items, item ∈ fresh ∨
        ∃ row ∈ reads.duplicates.receipts, row.eventId = item.event.eventId := by
  unfold projectAuctionLaneAt at h
  obtain ⟨items, hparse, h⟩ := Except.bind_eq_ok h
  obtain ⟨hentries, hparsed⟩ := Lane.parse_ok hparse
  split at h
  · cases h
    exact ⟨0, [], [], hentries, hparsed, .refl 0 T, by simp, by simp⟩
  rename_i first rest
  dsimp only at h
  split at h
  · cases h
  rename_i hone
  split at h
  · cases h
  split at h
  · cases h
  rename_i row hrow
  obtain ⟨state, hloop, h⟩ := Except.bind_eq_ok h
  obtain ⟨T₁, hcommit, h⟩ := Except.bind_eq_ok h
  cases h
  have hproduct : ∀ item ∈ first :: rest, item.event.productId = first.event.productId := by
    simpa using hone
  have hs := Lane.invariant_run hproduct
    (Lane.invariant_start reads first.event.productId row T) hloop
  rw [List.nil_append, List.nil_append] at hs
  have happlied := Lane.commit_ok hlater hrow
    (fun item hitem => ⟨hparsed item hitem, hproduct item hitem⟩) hs hcommit
  exact ⟨_, _, _, hentries, hparsed, happlied, hs.subset, hs.covered⟩

/-! ## Committed events -/

/-- The rows of the event are in the tables, and its product's row is that of the event or of
a later one. -/
structure Committed (event : AuctionStreamEvent) (T : Tables) : Prop where
  transition : Projector.transitionRow event ∈ T.transitions
  bid : event.type = .bidAccepted → ∃ (maximum : Bigint) (banned : Bool),
    event.requestedMaxPriceVnd = some maximum.val ∧
      { Projector.historyRow event maximum with banned := banned } ∈ T.history
  ban : ∀ p u, event.Bans p u → T.Banned p u
  order : ∀ order ∈ Projector.orderRows event, order ∈ T.orders
  product : ∃ row, T.products event.productId = some row ∧
    (event.sequence < row.auctionSequence ∨ ∃ product date,
      Tables.toDate event.endAtMs = .ok date ∧ row = snapshot event date product)
  receipt : ∃ entry, Projector.receiptRow event entry ∈ T.receipts
  outbox : Projector.outboxRow event ∈ T.outbox

/-- What is committed stays committed. -/
theorem Committed.later (h : Committed event T) (hlater : Later T T') : Committed event T' where
  transition := hlater.transitions _ h.transition
  bid := by
    intro htype
    obtain ⟨maximum, banned, hmaximum, hrow⟩ := h.bid htype
    obtain ⟨banned', hrow⟩ := hlater.history _ hrow
    exact ⟨maximum, banned', hmaximum, hrow⟩
  ban := fun p u hbans => hlater.banned p u (h.ban p u hbans)
  order := fun order horder => hlater.orders order (h.order order horder)
  product := by
    obtain ⟨row, hrow, hshows⟩ := h.product
    rcases hlater.products _ row hrow with hsame | ⟨row', hrow', hlt, _⟩
    · exact ⟨row, hsame, hshows⟩
    · refine ⟨row', hrow', .inl ?_⟩
      rcases hshows with hpast | ⟨product, date, _, rfl⟩
      · exact hpast.trans hlt
      · exact hlt
  receipt := h.receipt.imp fun _ => hlater.receipts _
  outbox := hlater.outbox _ h.outbox

/-- Rows of the history stay, perhaps marked. -/
theorem HistoryWrites.persists {before after : List HistoryRow}
    (h : HistoryWrites event before after)
    {row : HistoryRow} (hrow : row ∈ before) :
    ∃ banned, { row with banned := banned } ∈ after := by
  cases h with
  | bid => exact ⟨row.banned, List.mem_append_left _ hrow⟩
  | @ban target =>
    by_cases hmine : row.productId = event.productId ∧ row.userId = target
    · exact ⟨true, List.mem_map.mpr ⟨row, hrow, if_pos hmine⟩⟩
    · exact ⟨row.banned, List.mem_map.mpr ⟨row, hrow, if_neg hmine⟩⟩
  | keeps => exact ⟨row.banned, hrow⟩

namespace HistoryAfter
variable {events : List AuctionStreamEvent} {before after : List HistoryRow}

theorem persists (h : HistoryAfter events before after) {row : HistoryRow} (hrow : row ∈ before) :
    ∃ banned, { row with banned := banned } ∈ after := by
  induction h generalizing row with
  | nil => exact ⟨row.banned, hrow⟩
  | cons hwrites _ ih =>
    obtain ⟨banned, hrow⟩ := hwrites.persists hrow
    obtain ⟨banned', hrow⟩ := ih hrow
    exact ⟨banned', hrow⟩

/-- Every bid has its row. -/
theorem bid (h : HistoryAfter events before after) (hmem : event ∈ events)
    (htype : event.type = .bidAccepted) : ∃ (maximum : Bigint) (banned : Bool),
    event.requestedMaxPriceVnd = some maximum.val ∧
      { Projector.historyRow event maximum with banned := banned } ∈ after := by
  induction h with
  | nil => cases hmem
  | cons hwrites hs ih =>
    rcases List.mem_cons.mp hmem with rfl | hmem
    · cases hwrites with
      | @bid maximum _ hmaximum =>
        obtain ⟨banned, hrow⟩ := hs.persists (List.mem_append_right _ List.mem_cons_self)
        exact ⟨maximum, banned, hmaximum, hrow⟩
      | ban hban => cases htype.symm.trans hban
      | keeps hbid => exact absurd htype hbid
    · exact ih hmem

end HistoryAfter

namespace AppliedAll

/-- The last of the fresh events has the greatest sequence number. -/
theorem sequence_lt {last : ParsedLaneEntry} {n : Nat}
    (hsequence : fresh.map (·.event.sequence) = List.range' n fresh.length)
    (hlast : fresh.getLast? = some last) (hitem : item ∈ fresh) :
    item = last ∨ item.event.sequence < last.event.sequence := by
  obtain ⟨init, rfl⟩ := List.getLast?_eq_some_iff.mp hlast
  rcases List.mem_append.mp hitem with hinit | hlast
  · have hsorted : (init.map (·.event.sequence) ++ [last.event.sequence]).Pairwise (· < ·) := by
      rw [← List.map_singleton (f := fun i : ParsedLaneEntry => i.event.sequence),
        ← List.map_append, hsequence]
      exact List.pairwise_lt_range'
    exact .inr ((List.pairwise_append.mp hsorted).2.2 _ (List.mem_map_of_mem hinit) _
      List.mem_cons_self)
  · exact .inl (List.mem_singleton.mp hlast)

theorem banned_iff (h : AppliedAll productId fresh T T') (p u : Nat) :
    T'.Banned p u ↔ T.Banned p u ∨ ∃ item ∈ fresh, item.event.Bans p u := by
  unfold Tables.Banned
  rw [h.bans, Tables.mem_insertBans]
  refine or_congr_right ?_
  simp only [List.mem_flatMap, ← Projector.exists_mem_banRows]
  constructor
  · rintro ⟨row, ⟨item, hitem, hrow⟩, hp, hu⟩
    exact ⟨item, hitem, row, hrow, hp, hu⟩
  · rintro ⟨item, hitem, row, hrow, hp, hu⟩
    exact ⟨row, ⟨item, hitem, hrow⟩, hp, hu⟩

/-- A transaction only adds. -/
theorem later (h : AppliedAll productId fresh T T') : Later T T' where
  transitions row hrow := by rw [h.transitions]; exact List.mem_append_left _ hrow
  history row hrow := h.history.persists hrow
  banned p u hbanned := (h.banned_iff p u).mpr (.inl hbanned)
  orders row hrow := by rw [h.orders]; exact List.mem_append_left _ hrow
  receipts row hrow := by rw [h.receipts]; exact List.mem_append_left _ hrow
  outbox row hrow := by rw [h.outbox]; exact List.mem_append_left _ hrow
  products := by
    intro p row hrow
    rcases h.product with ⟨_, hsame⟩ |
      ⟨product, date, last, hproduct, hlast, hsequence, _, hproducts⟩
    · exact .inl (by rw [hsame, hrow])
    by_cases hp : p = productId
    · subst hp
      cases hproduct.symm.trans hrow
      obtain ⟨first, rest, rfl⟩ := List.exists_cons_of_ne_nil
        (List.ne_nil_of_mem (List.mem_of_getLast? hlast))
      have hfirst : first.event.sequence = row.auctionSequence + 1 := by
        have hcons := hsequence
        rw [List.map_cons, List.length_cons, List.range'_succ] at hcons
        exact (List.cons.inj hcons).1
      refine .inr ⟨snapshot last.event date row, by rw [hproducts, Function.update_self], ?_,
        Projector.transitionRow first.event, ?_, (h.parsed first List.mem_cons_self).2, hfirst⟩
      · change row.auctionSequence < last.event.sequence
        rcases sequence_lt hsequence hlast List.mem_cons_self with rfl | hlt <;> omega
      · rw [h.transitions]
        exact List.mem_append_right _ List.mem_cons_self
    · exact .inl (by rw [hproducts, Function.update_of_ne hp, hrow])

theorem receipt (h : AppliedAll productId fresh T T') (hitem : item ∈ fresh) :
    Projector.receiptRow item.event item.entry ∈ T'.receipts := by
  rw [h.receipts]
  exact List.mem_append_right _ (List.mem_map.mpr ⟨item, hitem, rfl⟩)

/-- It commits every fresh event. -/
theorem committed (h : AppliedAll productId fresh T T') (hitem : item ∈ fresh) :
    Committed item.event T' where
  transition := by
    rw [h.transitions]
    exact List.mem_append_right _ (List.mem_map_of_mem hitem)
  bid := h.history.bid (List.mem_map_of_mem hitem)
  ban p u hbans := (h.banned_iff p u).mpr (.inr ⟨item, hitem, hbans⟩)
  order := by
    intro order horder
    rw [h.orders]
    exact List.mem_append_right _ (List.mem_flatMap.mpr ⟨item, hitem, horder⟩)
  product := by
    rcases h.product with ⟨hnil, _⟩ |
      ⟨product, date, last, _, hlast, hsequence, hdate, hproducts⟩
    · rw [hnil] at hitem
      cases hitem
    refine ⟨snapshot last.event date product, ?_, ?_⟩
    · rw [(h.parsed item hitem).2, hproducts, Function.update_self]
    · rcases sequence_lt hsequence hlast hitem with rfl | hlt
      · exact .inr ⟨product, date, hdate, rfl⟩
      · exact .inl hlt
  receipt := ⟨item.entry, h.receipt hitem⟩
  outbox := by
    rw [h.outbox]
    exact List.mem_append_right _ (List.mem_map_of_mem hitem)

end AppliedAll

end

end MiracleAuction
