import MiracleAuction.Projection.Storable

/-!
# A lane and its entries one by one

A lane adds the same rows as its entries do one by one, and leaves the same product: it
writes only the last snapshot, and each entry overwrites the snapshot of the one before.
A snapshot that no row can hold would fail an entry, but not a lane that goes on after it;
the script appends no such event.
-/
namespace MiracleAuction

/-- `projectAuctionEntry` on the entries one by one, and the outcomes. -/
def projectAuctionEntries : List RedisStreamEntry → Tables →
    Except ProjectionError (List Outcome × Tables)
  | [], T => .ok ([], T)
  | entry :: entries, T => do
    let (outcome, T) ← projectAuctionEntry entry T
    let (outcomes, T) ← projectAuctionEntries entries T
    return (outcome :: outcomes, T)

/-- `prisma.$transaction`: what a body that throws has written is rolled back. -/
def transaction {α : Type} (body : Tables → Except ProjectionError (α × Tables)) (T : Tables) :
    Except ProjectionError α × Tables :=
  match body T with
  | .ok (result, T') => (.ok result, T')
  | .error error => (.error error, T)

/-- `outcomes.set` for every entry. -/
def setOutcomes (entries : List RedisStreamEntry) (outcomes : List Outcome) :
    Nat → Option Outcome :=
  (entries.zip outcomes).foldl (fun set pair => Function.update set pair.1.id (some pair.2))
    fun _ => none

/-- The entries one by one succeed, with the outcomes and the tables of the lane. -/
def AgreesOneByOne (entries : List RedisStreamEntry) (T : Tables)
    (lane : (Nat → Option Outcome) × Tables) : Prop :=
  ∃ outcomes, projectAuctionEntries entries T = .ok (outcomes, lane.2) ∧
    lane.1 = setOutcomes entries outcomes

/-- The product's row can hold the snapshot of every event that has no receipt. -/
def SnapshotsFit (entries : List RedisStreamEntry) (T : Tables) : Prop :=
  ∀ entry ∈ entries, ∀ event, parseEvent entry.payload = .ok event →
    (∀ row ∈ T.receipts, row.eventId ≠ event.eventId) → event.StoresSnapshot

section
variable {event : AuctionStreamEvent} {T T' T'' : Tables} {productId : Nat}
  {done rest : List ParsedLaneEntry} {item : ParsedLaneEntry}

/-! ## The loop of the lane -/

/-- No receipt of the event is in the tables. -/
abbrev Tables.unseen (T : Tables) (item : ParsedLaneEntry) : Bool := Reads.unseen ⟨T, T, T⟩ item

def laneOutcome (T : Tables) (item : ParsedLaneEntry) : Outcome :=
  if T.unseen item then .applied else .duplicate

theorem setOutcomes_snoc (T : Tables) (items : List ParsedLaneEntry) (item : ParsedLaneEntry) :
    setOutcomes ((items ++ [item]).map (·.entry)) ((items ++ [item]).map (laneOutcome T)) =
      Function.update (setOutcomes (items.map (·.entry)) (items.map (laneOutcome T))) item.entry.id
        (some (laneOutcome T item)) := by
  unfold setOutcomes
  rw [List.zip_map', List.zip_map', List.map_append, List.foldl_append]
  rfl

namespace Lane
variable {state state' : LaneState} {row : ProductRow}

/-- What the loop keeps of its versions, its outcomes and the history. -/
structure Tracks (T : Tables) (row : ProductRow) (done : List ParsedLaneEntry)
    (state : LaneState) : Prop where
  rolling : state.rollingVersion =
    ((done.filter T.unseen).getLast?.map (·.event.version)).getD row.auctionVersion
  versions : (row.auctionVersion :: (done.filter T.unseen).map (·.event.version)).IsChain (· < ·)
  outcomes : state.outcomes = setOutcomes (done.map (·.entry)) (done.map (laneOutcome T))
  stored : state.tables.history.map HistoryRow.unmarked = T.history.map HistoryRow.unmarked
  pending : state.histories.map HistoryRow.unmarked =
    (done.filter T.unseen).flatMap (Projector.bidRows ·.event)

theorem map_unmarked_flag (u : Nat) (rows : List HistoryRow) :
    (flag u rows).map HistoryRow.unmarked = rows.map HistoryRow.unmarked := by
  unfold flag
  rw [List.map_map]
  refine List.map_congr_left fun row _ => ?_
  rw [Function.comp_apply]
  split <;> rfl

/-- But for marks, the loop keeps the history and collects the rows of the bids. -/
theorem pushType_unmarked (h : pushType event state = .ok state') :
    state'.tables.history.map HistoryRow.unmarked = state.tables.history.map HistoryRow.unmarked ∧
      state'.histories.map HistoryRow.unmarked =
        state.histories.map HistoryRow.unmarked ++ Projector.bidRows event ∧
      state'.outcomes = state.outcomes := by
  unfold pushType at h
  split at h
  · cases h
  · rename_i amount htype hamount
    obtain ⟨maximum, hmaximum, h⟩ := Except.bind_eq_ok h
    cases h
    rw [toBigint_ok hmaximum] at hamount
    rw [Projector.bidRows_bid htype hamount]
    exact ⟨rfl, by rw [List.map_append]; rfl, rfl⟩
  · rename_i target htype htarget
    cases h
    rw [Projector.bidRows_of_ne (by simp [htype]), List.append_nil]
    exact ⟨map_unmarked_markRows _ _ _, map_unmarked_flag _ _, rfl⟩
  · rename_i hnone hbid _
    cases h
    rw [Projector.bidRows_of_ne, List.append_nil]
    · exact ⟨rfl, rfl, rfl⟩
    · intro htype
      cases hamount : event.requestedMaxPriceVnd with
      | none => exact hnone htype hamount
      | some maximum => exact hbid maximum htype hamount

theorem tracks_start (T : Tables) (row : ProductRow) : Tracks T row []
    { rollingSequence := row.auctionSequence, rollingVersion := row.auctionVersion, tables := T } :=
  ⟨rfl, List.isChain_singleton _, rfl, rfl, rfl⟩

theorem tracks_step (hs : Tracks T row done state)
    (h : step ⟨T, T, T⟩ state item = .ok state') :
    Tracks T row (done ++ [item]) state' := by
  have hout := setOutcomes_snoc T done item
  unfold step at h
  dsimp only at h
  split at h
  · rename_i hduplicate
    cases h
    have hseen : T.unseen item = false := by simp [Tables.unseen, Reads.unseen, hduplicate]
    have hfresh : (done ++ [item]).filter T.unseen = done.filter T.unseen := by simp [hseen]
    refine ⟨?_, ?_, ?_, hs.stored, ?_⟩
    · rw [hfresh]
      exact hs.rolling
    · rw [hfresh]
      exact hs.versions
    · rw [hout, ← hs.outcomes]
      simp [laneOutcome, hseen]
    · rw [hfresh]
      exact hs.pending
  rename_i hnew
  have hunseen : T.unseen item = true := by simp [Tables.unseen, Reads.unseen, hnew]
  have hfresh : (done ++ [item]).filter T.unseen = done.filter T.unseen ++ [item] := by
    simp [hunseen]
  split at h
  · cases h
  split at h
  · cases h
  rename_i hfence
  simp only [not_or, not_not, not_le] at hfence
  obtain ⟨state₁, htype, h⟩ := Except.bind_eq_ok h
  cases h
  obtain ⟨hstored, hpending, houtcomes⟩ := pushType_unmarked htype
  refine ⟨?_, ?_, ?_, hstored.trans hs.stored, ?_⟩
  · rw [hfresh]
    simp [push]
  · rw [hfresh, List.map_append, ← List.cons_append, List.isChain_append]
    refine ⟨hs.versions, List.isChain_singleton _, ?_⟩
    intro last hlast first hfirst
    cases Option.mem_some_iff.mp hfirst
    have hrolling := hs.rolling
    rw [List.getLast?_cons, List.getLast?_map, Option.mem_some_iff] at hlast
    rw [← hlast, ← hrolling]
    exact hfence.2
  · rw [hout, ← hs.outcomes, ← houtcomes]
    simp [push, laneOutcome, hunseen]
  · rw [hfresh, List.flatMap_append, List.flatMap_singleton, ← hs.pending]
    exact hpending

theorem tracks_run {items : List ParsedLaneEntry} (hs : Tracks T row done state)
    (h : items.foldlM (step ⟨T, T, T⟩) state = .ok state') :
    Tracks T row (done ++ items) state' := by
  induction items generalizing done state with
  | nil =>
    cases h
    simpa using hs
  | cons item items ih =>
    rw [List.foldlM_cons] at h
    obtain ⟨state₁, hstep, h⟩ := Except.bind_eq_ok h
    have hs' := ih (tracks_step hs hstep) h
    rwa [List.append_assoc, List.singleton_append] at hs'

/-- A statement that is sent succeeds on its constraints; without rows they hold anyway. -/
theorem send_constraints {ρ : Type} {create : Tables → List ρ → Except ProjectionError Tables}
    {constraints : Tables → List ρ → Prop} {rows : List ρ}
    (hcreate : ∀ T rows T', create T rows = .ok T' → constraints T rows)
    (hnil : constraints T []) (h : send create rows T = .ok T') : constraints T rows := by
  unfold send at h
  split at h
  · rename_i hempty
    rwa [List.isEmpty_iff.mp hempty]
  · exact hcreate T rows T' h

theorem keepsUnique_nil {ρ κ : Type} (key : ρ → κ) (table : List ρ) :
    KeepsUnique key table [] := by
  simp [KeepsUnique]

/-- What a lane commits could be inserted. -/
theorem commit_insertable (hs : Invariant ⟨T, T, T⟩ productId row.auctionSequence T done
    (done.filter T.unseen) state) (ht : Tracks T row done state) (h : commit state = .ok T') :
    Insertable T (done.filter T.unseen) ∧ T'.users = T.users ∧ T'.settings = T.settings := by
  obtain ⟨before, htables, -⟩ := hs.tables
  have hstored := ht.stored
  have hpending := ht.pending
  rw [htables] at hstored
  unfold commit at h
  rw [hs.final] at h
  cases hlast : (done.filter T.unseen).getLast? with
  | none =>
    have hnil := List.getLast?_eq_none_iff.mp hlast
    rw [hlast] at h
    cases h
    rw [hnil, htables]
    exact ⟨by constructor <;> simp [keepsUnique_nil], rfl, rfl⟩
  | some last =>
    simp only [hlast, Option.map_some] at h
    obtain ⟨T₁, h₁, h⟩ := Except.bind_eq_ok h
    obtain ⟨T₂, h₂, h⟩ := Except.bind_eq_ok h
    obtain ⟨T₃, h₃, h⟩ := Except.bind_eq_ok h
    obtain ⟨T₄, h₄, h⟩ := Except.bind_eq_ok h
    obtain ⟨T₅, h₅, h⟩ := Except.bind_eq_ok h
    obtain ⟨T₆, h₆, h₇⟩ := Except.bind_eq_ok h
    have e₁ := send_ok (fun _ _ _ h => (Tables.statement_ok h).2) (by simp) h₁
    have e₂ := send_ok (fun _ _ _ h => (Tables.statement_ok h).2) (by simp) h₂
    have e₃ := send_ok (fun _ _ _ h => (Tables.statement_ok h).2)
      (by simp [Tables.insertBans]) h₃
    have e₄ := send_ok (fun _ _ _ h => (Tables.statement_ok h).2) (by simp) h₄
    have e₅ := send_ok (fun _ _ _ h => (Tables.statement_ok h).2) (by simp) h₅
    have e₆ := send_ok (fun _ _ _ h => (Tables.statement_ok h).2) (by simp) h₆
    obtain ⟨_, _, -, -, e₇⟩ := Tables.updateProduct_ok h₇
    have c₁ := send_constraints (fun _ _ _ h => (Tables.statement_ok h).1)
      (by simp [keepsUnique_nil]) h₁
    have c₂ := send_constraints (fun _ _ _ h => (Tables.statement_ok h).1)
      (by simp [keepsUnique_nil]) h₂
    have c₃ := send_constraints (fun _ _ _ h => (Tables.statement_ok h).1) (by simp) h₃
    have c₄ := send_constraints (fun _ _ _ h => (Tables.statement_ok h).1)
      (by simp [keepsUnique_nil]) h₄
    have c₅ := send_constraints (fun _ _ _ h => (Tables.statement_ok h).1)
      (by simp [keepsUnique_nil]) h₅
    have c₆ := send_constraints (fun _ _ _ h => (Tables.statement_ok h).1)
      (by simp [keepsUnique_nil]) h₆
    simp only [e₁, e₂, e₃, e₄, e₅, htables] at c₁ c₂ c₃ c₄ c₅ c₆
    rw [hs.transitions] at c₁
    rw [hs.bans] at c₃
    rw [hs.orders] at c₄
    rw [hs.receipts] at c₅
    rw [hs.outbox] at c₆
    have hkeys : ∀ {κ : Type} {key : HistoryRow → κ},
        (∀ row, key row.unmarked = key row) →
        KeepsUnique key before state.histories →
          KeepsUnique key (T.history.map HistoryRow.unmarked)
          ((done.filter T.unseen).flatMap (Projector.bidRows ·.event)) := by
      intro κ key hkey hunique
      refine hunique.congr ?_ ?_
      · rw [← hstored, map_unmarked hkey]
      · rw [← hpending, map_unmarked hkey]
    refine ⟨⟨c₁.1, c₁.2.1, ?_, hkeys (fun _ => rfl) c₂.1, hkeys (fun _ => rfl) c₂.2.1,
      ?_, c₃, c₄.1, c₄.2.1, c₄.2.2, c₅.1, c₅.2.1, c₅.2.2, c₆⟩, ?_, ?_⟩
    · exact fun item hitem => c₁.2.2 _ (List.mem_map_of_mem hitem)
    · intro row hrow
      rw [← hpending] at hrow
      obtain ⟨row', hrow', rfl⟩ := List.mem_map.mp hrow
      exact c₂.2.2 row' hrow'
    · simp only [e₇, e₆, e₅, e₄, e₃, e₂, e₁, htables]
    · simp only [e₇, e₆, e₅, e₄, e₃, e₂, e₁, htables]

end Lane

/-! ## The entries one by one -/

/-- What a lane has checked when it succeeds. -/
structure LaneAccepts (T : Tables) (productId : Nat) (product : ProductRow)
    (items : List ParsedLaneEntry) : Prop where
  parsed : ∀ item ∈ items, parseEvent item.entry.payload = .ok item.event ∧
    item.event.productId = productId
  fits : fitsBigint productId ∧ ∀ item ∈ items, fitsBigint item.event.sequence
  row : T.products productId = some product
  insertable : Insertable T (items.filter T.unseen)
  sequences : (items.filter T.unseen).map (·.event.sequence) =
    List.range' (product.auctionSequence + 1) (items.filter T.unseen).length
  versions : (product.auctionVersion ::
    (items.filter T.unseen).map (·.event.version)).IsChain (· < ·)
  bids : ∀ item ∈ items.filter T.unseen, item.event.type = .bidAccepted →
    ∃ maximum : Bigint, item.event.requestedMaxPriceVnd = some maximum.val

namespace LaneAccepts
variable {product : ProductRow}

theorem filter_cons_unseen (hunseen : T.unseen item = true) :
    (done ++ item :: rest).filter T.unseen =
      done.filter T.unseen ++ item :: rest.filter T.unseen := by
  rw [List.filter_append, List.filter_cons_of_pos hunseen]

/-- An event with a receipt is a duplicate for its entry too. -/
theorem entry_seen (h : LaneAccepts T productId product (done ++ item :: rest))
    (hdone : Follows productId (done.filter T.unseen) T T') (hseen : T.unseen item = false) :
    projectAuctionEntry item.entry T' = .ok (.duplicate, T') := by
  have hmem : item ∈ done ++ item :: rest := List.mem_append_right _ List.mem_cons_self
  obtain ⟨hparsed, hown⟩ := h.parsed item hmem
  have hreceipt : T'.receipts.any (·.eventId = item.event.eventId) = true := by
    rw [hdone.receipts, List.any_append]
    simp only [Tables.unseen, Reads.unseen, Bool.not_eq_false'] at hseen
    rw [hseen, Bool.true_or]
  unfold projectAuctionEntry
  rw [Except.bind_of_ok hparsed, if_neg (not_not.mpr ⟨hown ▸ h.fits.1, h.fits.2 item hmem⟩),
    if_pos hreceipt]

/-- The product's row when it is the turn of an event. -/
theorem row_before (h : LaneAccepts T productId product (done ++ item :: rest))
    (hdone : Follows productId (done.filter T.unseen) T T') (hunseen : T.unseen item = true) :
    ∃ row, T'.products productId = some row ∧ item.event.sequence = row.auctionSequence + 1 ∧
      row.auctionVersion < item.event.version := by
  obtain ⟨row, hrow, hsequence, hversion, -⟩ := hdone.row h.row
  refine ⟨row, hrow, ?_, ?_⟩
  · have hsequences := h.sequences
    rw [filter_cons_unseen hunseen, List.map_append, List.map_cons, List.length_append,
      ← List.range'_append_1, List.length_cons, List.range'_succ] at hsequences
    have htail := (List.append_inj hsequences (by simp)).2
    have hhead := (List.cons.inj htail).1
    rw [hhead, hsequence]
    omega
  · have hversions := h.versions
    rw [filter_cons_unseen hunseen, List.map_append, ← List.cons_append, List.isChain_append]
      at hversions
    refine hversions.2.2 _ ?_ _ rfl
    rw [List.getLast?_cons, List.getLast?_map, hversion]
    rfl

/-- An event without a receipt comes to its writes. -/
theorem entry_unseen (h : LaneAccepts T productId product (done ++ item :: rest))
    (hdone : Follows productId (done.filter T.unseen) T T') (hunseen : T.unseen item = true) :
    projectAuctionEntry item.entry T' = (do
      let T ← projectWrites item.entry item.event T'
      return (.applied, T)) := by
  have hmem : item ∈ done ++ item :: rest := List.mem_append_right _ List.mem_cons_self
  obtain ⟨hparsed, hown⟩ := h.parsed item hmem
  have hinsertable := h.insertable
  rw [filter_cons_unseen hunseen] at hinsertable
  have hnext := hinsertable.next hdone
  obtain ⟨row, hrow, hsequence, hversion⟩ := h.row_before hdone hunseen
  have hduplicate : ¬ T'.receipts.any (·.eventId = item.event.eventId) = true := by
    simp only [List.any_eq_true, decide_eq_true_eq]
    rintro ⟨receipt, hreceipt, heq⟩
    exact hnext.receiptIds.2 _ List.mem_cons_self (List.mem_map.mpr ⟨receipt, hreceipt, heq⟩)
  have howner : ¬ (T'.receipts.any fun row =>
      row.productId = item.event.productId ∧ row.sequence = item.event.sequence) = true := by
    simp only [List.any_eq_true, decide_eq_true_eq]
    rintro ⟨receipt, hreceipt, hproduct, hnumber⟩
    exact hnext.receiptSequences.2 _ List.mem_cons_self
      (List.mem_map.mpr ⟨receipt, hreceipt, Prod.ext hproduct hnumber⟩)
  unfold projectAuctionEntry
  rw [Except.bind_of_ok hparsed, if_neg (not_not.mpr ⟨hown ▸ h.fits.1, h.fits.2 item hmem⟩),
    if_neg hduplicate, if_neg howner, hown, hrow]
  dsimp only
  rw [if_neg (by simp [hsequence, hversion])]

/-- Such an entry succeeds on a snapshot that fits, and on no other. -/
theorem entry_iff (h : LaneAccepts T productId product (done ++ item :: rest))
    (hdone : Follows productId (done.filter T.unseen) T T') (hunseen : T.unseen item = true) :
    (∃ out, projectAuctionEntry item.entry T' = .ok out) ↔ item.event.StoresSnapshot := by
  have hmem : item ∈ done ++ item :: rest := List.mem_append_right _ List.mem_cons_self
  obtain ⟨row, hrow, -, hversion⟩ := h.row_before hdone hunseen
  have hinsertable := h.insertable
  rw [filter_cons_unseen hunseen] at hinsertable
  have hnext : Insertable T' [⟨item.entry, item.event⟩] := hinsertable.next hdone
  rw [← projectWrites_iff hnext
    (h.bids item (List.mem_filter.mpr ⟨hmem, hunseen⟩))
      ((h.parsed item hmem).2 ▸ hrow) hversion,
    h.entry_unseen hdone hunseen]
  constructor
  · rintro ⟨out, hout⟩
    obtain ⟨T'', hwrites, -⟩ := Except.bind_eq_ok hout
    exact ⟨T'', hwrites⟩
  · rintro ⟨T'', hwrites⟩
    rw [Except.bind_of_ok hwrites]
    exact ⟨_, rfl⟩

/-- What such an entry leaves. -/
theorem entry_follows {outcome : Outcome}
    (h : LaneAccepts T productId product (done ++ item :: rest))
    (hdone : Follows productId (done.filter T.unseen) T T') (hunseen : T.unseen item = true)
    (hentry : projectAuctionEntry item.entry T' = .ok (outcome, T'')) :
    outcome = .applied ∧ Follows productId (done.filter T.unseen ++ [item]) T T'' := by
  have hmem : item ∈ done ++ item :: rest := List.mem_append_right _ List.mem_cons_self
  obtain ⟨hparsed, hown⟩ := h.parsed item hmem
  obtain ⟨row, hrow, hsequence, -⟩ := h.row_before hdone hunseen
  rw [h.entry_unseen hdone hunseen] at hentry
  obtain ⟨T₁, hwrites, heq⟩ := Except.bind_eq_ok hentry
  cases heq
  have happlied := projectWrites_applied hparsed (fun row' hrow' => by
    rw [hown] at hrow'
    cases hrow.symm.trans hrow'
    exact hsequence) hwrites
  obtain ⟨_, _, -, -, husers⟩ := projectWrites_ok hwrites
  exact ⟨rfl, hdone.snoc h.row happlied husers hown⟩

theorem filter_snoc_seen (hseen : T.unseen item = false) :
    (done ++ [item]).filter T.unseen = done.filter T.unseen := by
  rw [List.filter_append, List.filter_singleton, hseen, Bool.cond_false, List.append_nil]

theorem filter_snoc_unseen (hunseen : T.unseen item = true) :
    (done ++ [item]).filter T.unseen = done.filter T.unseen ++ [item] := by
  rw [List.filter_append, List.filter_singleton, hunseen, Bool.cond_true]

/-- If the snapshots fit, the entries that are left succeed one by one. -/
theorem entries_run (h : LaneAccepts T productId product (done ++ rest))
    (hdone : Follows productId (done.filter T.unseen) T T')
    (hfit : ∀ item ∈ rest, T.unseen item = true → item.event.StoresSnapshot) :
    ∃ T'', projectAuctionEntries (rest.map (·.entry)) T' =
      .ok (rest.map (laneOutcome T), T'') ∧
      Follows productId ((done ++ rest).filter T.unseen) T T'' := by
  induction rest generalizing done T' with
  | nil => exact ⟨T', rfl, by rwa [List.append_nil]⟩
  | cons item rest ih =>
    have hsplit : done ++ item :: rest = done ++ [item] ++ rest := by simp
    have hnext : LaneAccepts T productId product (done ++ [item] ++ rest) := hsplit ▸ h
    have hrest : ∀ item ∈ rest, T.unseen item = true → item.event.StoresSnapshot :=
      fun other hother => hfit other (List.mem_cons_of_mem _ hother)
    obtain ⟨T₁, hentry, hfollows⟩ : ∃ T₁,
        projectAuctionEntry item.entry T' = .ok (laneOutcome T item, T₁) ∧
          Follows productId ((done ++ [item]).filter T.unseen) T T₁ := by
      unfold laneOutcome
      cases hseen : T.unseen item with
      | false =>
        rw [filter_snoc_seen hseen]
        exact ⟨T', h.entry_seen hdone hseen, hdone⟩
      | true =>
        obtain ⟨⟨outcome, T₁⟩, hentry⟩ :=
          (h.entry_iff hdone hseen).mpr (hfit item List.mem_cons_self hseen)
        obtain ⟨rfl, hfollows⟩ := h.entry_follows hdone hseen hentry
        rw [filter_snoc_unseen hseen]
        exact ⟨T₁, hentry, hfollows⟩
    obtain ⟨T₂, hentries, hfinal⟩ := ih hnext hfollows hrest
    refine ⟨T₂, ?_, hsplit ▸ hfinal⟩
    rw [List.map_cons, List.map_cons]
    unfold projectAuctionEntries
    rw [Except.bind_of_ok hentry]
    dsimp only
    rw [Except.bind_of_ok hentries]
    rfl

/-- Entries that succeed one by one have snapshots that fit. -/
theorem entries_fit {out : List Outcome × Tables}
    (h : LaneAccepts T productId product (done ++ rest))
    (hdone : Follows productId (done.filter T.unseen) T T')
    (hout : projectAuctionEntries (rest.map (·.entry)) T' = .ok out) :
    ∀ item ∈ rest, T.unseen item = true → item.event.StoresSnapshot := by
  induction rest generalizing done T' out with
  | nil => simp
  | cons item rest ih =>
    have hsplit : done ++ item :: rest = done ++ [item] ++ rest := by simp
    have hnext : LaneAccepts T productId product (done ++ [item] ++ rest) := hsplit ▸ h
    rw [List.map_cons] at hout
    unfold projectAuctionEntries at hout
    obtain ⟨⟨outcome, T₁⟩, hentry, hout⟩ := Except.bind_eq_ok hout
    obtain ⟨out', hentries, -⟩ := Except.bind_eq_ok hout
    intro other hother hunseen
    cases hseen : T.unseen item with
    | false =>
      have hstays := h.entry_seen hdone hseen
      cases hentry.symm.trans hstays
      have hrest := ih hnext (by rwa [filter_snoc_seen hseen]) hentries
      obtain rfl | hother := List.mem_cons.mp hother
      · cases hseen.symm.trans hunseen
      · exact hrest other hother hunseen
    | true =>
      obtain ⟨-, hfollows⟩ := h.entry_follows hdone hseen hentry
      have hrest := ih hnext (by rwa [filter_snoc_unseen hseen]) hentries
      obtain rfl | hother := List.mem_cons.mp hother
      · exact (h.entry_iff hdone hseen).mp ⟨_, hentry⟩
      · exact hrest other hother hunseen

end LaneAccepts

/-- A lane that succeeds has made its checks, and leaves what its fresh events leave. -/
theorem projectAuctionLane_ok {entries : List RedisStreamEntry} {outcomes : Nat → Option Outcome}
    (hne : entries ≠ []) (h : projectAuctionLane entries T = .ok (outcomes, T')) :
    ∃ (items : List ParsedLaneEntry) (productId : Nat) (product : ProductRow),
      items.map (·.entry) = entries ∧ LaneAccepts T productId product items ∧
        Follows productId (items.filter T.unseen) T T' ∧
        outcomes = setOutcomes entries (items.map (laneOutcome T)) := by
  unfold projectAuctionLane projectAuctionLaneAt at h
  obtain ⟨items, hparse, h⟩ := Except.bind_eq_ok h
  obtain ⟨hentries, hparsed⟩ := Lane.parse_ok hparse
  split at h
  · exact absurd hentries.symm hne
  rename_i first rest
  dsimp only at h
  split at h
  · cases h
  rename_i hone
  split at h
  · cases h
  rename_i hfits
  split at h
  · cases h
  rename_i row hrow
  obtain ⟨state, hloop, h⟩ := Except.bind_eq_ok h
  obtain ⟨T₁, hcommit, h⟩ := Except.bind_eq_ok h
  cases h
  have hproduct : ∀ item ∈ first :: rest, item.event.productId = first.event.productId := by
    simpa using hone
  have hs := Lane.invariant_run hproduct
    (Lane.invariant_start ⟨T, T, T⟩ first.event.productId row T) hloop
  have ht := Lane.tracks_run (Lane.tracks_start T row) hloop
  rw [List.nil_append, List.nil_append] at hs
  rw [List.nil_append] at ht
  have hown : ∀ item ∈ first :: rest, parseEvent item.entry.payload = .ok item.event ∧
      item.event.productId = first.event.productId :=
    fun item hitem => ⟨hparsed item hitem, hproduct item hitem⟩
  have happlied := Lane.commit_ok (.refl T) hrow hown hs hcommit
  obtain ⟨hinsertable, husers, hsettings⟩ := Lane.commit_insertable hs ht hcommit
  refine ⟨first :: rest, first.event.productId, row, hentries, ?_,
    ⟨happlied, husers, hsettings⟩, by rw [← hentries, ht.outcomes]⟩
  refine ⟨hown, not_not.mp hfits, hrow, hinsertable, hs.sequence, ht.versions, ?_⟩
  intro item hitem htype
  obtain ⟨maximum, _, hmaximum, -⟩ := happlied.history.bid (List.mem_map_of_mem hitem) htype
  exact ⟨maximum, hmaximum⟩

end

theorem Follows.refl (productId : Nat) (T : Tables) : Follows productId [] T T :=
  ⟨.refl productId T, rfl, rfl⟩

theorem unseen_iff {T : Tables} {item : ParsedLaneEntry} :
    T.unseen item = true ↔ ∀ row ∈ T.receipts, row.eventId ≠ item.event.eventId := by
  simp [Tables.unseen, Reads.unseen]

/-- The entries of a lane whose fresh snapshots fit. -/
theorem snapshotsFit_iff {items : List ParsedLaneEntry} {T : Tables}
    (hparsed : ∀ item ∈ items, parseEvent item.entry.payload = .ok item.event) :
    SnapshotsFit (items.map (·.entry)) T ↔
      ∀ item ∈ items, T.unseen item = true → item.event.StoresSnapshot := by
  constructor
  · intro h item hitem hunseen
    exact h item.entry (List.mem_map_of_mem hitem) item.event (hparsed item hitem)
      (unseen_iff.mp hunseen)
  · intro h entry hentry event hevent hnew
    obtain ⟨item, hitem, rfl⟩ := List.mem_map.mp hentry
    cases hevent.symm.trans (hparsed item hitem)
    exact h item hitem (unseen_iff.mpr hnew)

/-- A lane that succeeds agrees with its entries one by one if and only if every event that it
applies has a snapshot that the product's row can hold. -/
theorem agreesOneByOne_iff {entries : List RedisStreamEntry} {T : Tables}
    {lane : (Nat → Option Outcome) × Tables} (hlane : projectAuctionLane entries T = .ok lane) :
    AgreesOneByOne entries T lane ↔ SnapshotsFit entries T := by
  obtain ⟨outcomes, T'⟩ := lane
  by_cases hne : entries = []
  · subst hne
    cases hlane
    exact iff_of_true ⟨[], rfl, rfl⟩ (by simp [SnapshotsFit])
  obtain ⟨items, productId, product, rfl, haccepts, hfollows, houtcomes⟩ :=
    projectAuctionLane_ok hne hlane
  have hall : LaneAccepts T productId product ([] ++ items) := haccepts
  rw [snapshotsFit_iff fun item hitem => (haccepts.parsed item hitem).1]
  constructor
  · rintro ⟨results, hentries, -⟩
    exact hall.entries_fit (.refl productId T) hentries
  · intro hfit
    obtain ⟨T'', hentries, hfinal⟩ := hall.entries_run (.refl productId T) hfit
    obtain rfl := hfollows.unique hfinal
    exact ⟨_, hentries, houtcomes⟩

/-- A transaction that throws is rolled back. -/
theorem transaction_error {α : Type} {body : Tables → Except ProjectionError (α × Tables)}
    {T T' : Tables} {error : ProjectionError} (h : transaction body T = (.error error, T')) :
    T' = T := by
  unfold transaction at h
  split at h
  · cases h
  · cases h
    rfl

/-- On entries that the script has appended, a lane that succeeds agrees with its entries one by
one. A lane that throws is rolled back. -/
theorem lane_agrees {productId : Nat} {entries : List RedisStreamEntry} (T : Tables)
    (hentries : ∀ entry ∈ entries, Appended productId entry) :
    (∀ lane, projectAuctionLane entries T = .ok lane → AgreesOneByOne entries T lane) ∧
    ∀ error T', transaction (projectAuctionLane entries) T = (.error error, T') → T' = T := by
  refine ⟨fun lane hlane => ?_, fun error T' => transaction_error⟩
  refine (agreesOneByOne_iff hlane).mpr fun entry hentry event hparsed _ => ?_
  exact (hentries entry hentry).storesSnapshot hparsed

namespace Sample

/-- Two bids, the ban of the second bidder and the close of the auction of `scheduledTables`. -/
def laneActions : List EngineAction :=
  [creation .active opening, .act (.call (call 1 .bid 2 (some "200"))),
    .act (.call (call 2 .bid 3 (some "250"))), .act (.call (call 3 .ban 9 none (some 3))),
    .act (.call closeCall)]

def laneKeys : AuctionKeys := laneActions.foldl (EngineAction.apply 1) {}

def laneEntries : List RedisStreamEntry :=
  laneKeys.stream.zipIdx.map fun (event, i) => { id := i + 1, payload := .event event }

def laneTables : Tables := { scheduledTables .active opening with users := {2, 3} }

theorem laneKeys_run : EngineRuns 1 laneActions laneKeys := by
  have hreads : (creation .active opening).ReadsTables 1 {} := by
    refine ⟨fun product hproduct => ?_, fun product hproduct => ?_, by simp [scheduledTables]⟩
    · simp only [scheduledTables, if_true, Option.mem_def, Option.some.injEq] at hproduct
      subst hproduct
      simp [ProductRow.Fits, fitsBigint, maxVnd]
    · simp only [scheduledTables, if_true, Option.mem_def, Option.some.injEq] at hproduct
      subst hproduct
      simp
  exact .cons ⟨hreads, rfl⟩
    (.cons ⟨⟨trivial, trivial⟩, rfl⟩ (.cons ⟨⟨trivial, trivial⟩, rfl⟩
    (.cons ⟨⟨trivial, trivial⟩, rfl⟩ (.cons ⟨⟨trivial, trivial⟩, rfl⟩ (.refl _)))))

theorem laneEntries_appended : ∀ entry ∈ laneEntries, Appended 1 entry := by
  intro entry hentry
  obtain ⟨⟨event, i⟩, hmem, rfl⟩ := List.mem_map.mp hentry
  exact ⟨_, _, event, laneKeys_run, (List.mem_zipIdx hmem).2.2 ▸ List.getElem_mem _, rfl⟩

theorem exists_lane {entries : List RedisStreamEntry}
    (h : (projectAuctionLane entries laneTables).toOption.isSome) :
    ∃ lane, projectAuctionLane entries laneTables = .ok lane := by
  cases hlane : projectAuctionLane entries laneTables with
  | error error => simp [hlane, Except.toOption] at h
  | ok lane => exact ⟨lane, rfl⟩

end Sample

theorem lane_agrees_sample : Sample.laneEntries.length = 4 ∧ ∃ lane,
    projectAuctionLane Sample.laneEntries Sample.laneTables = .ok lane ∧
      AgreesOneByOne Sample.laneEntries Sample.laneTables lane := by
  obtain ⟨lane, hlane⟩ := Sample.exists_lane (by decide +kernel :
    (projectAuctionLane Sample.laneEntries Sample.laneTables).toOption.isSome = true)
  exact ⟨by decide +kernel, lane, hlane,
    (lane_agrees _ Sample.laneEntries_appended).1 lane hlane⟩

end MiracleAuction
