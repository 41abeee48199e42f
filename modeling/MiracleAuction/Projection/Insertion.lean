import MiracleAuction.Projection.Lane

/-!
# Rows inserted together

Rows that keep the constraints together keep them one after the other, and the events decide
what becomes of the tables.
-/
namespace MiracleAuction

/-- The row of a product can hold the snapshot of the event. -/
def AuctionStreamEvent.StoresSnapshot (event : AuctionStreamEvent) : Prop :=
  event.endAtMs.denotes.natAbs ≤ 8640000000000000 ∧ fitsBigint event.currentPriceVnd ∧
    ∀ n ∈ event.leaderId, fitsBigint n

instance (event : AuctionStreamEvent) : Decidable event.StoresSnapshot := by
  unfold AuctionStreamEvent.StoresSnapshot; infer_instance

section
variable {ρ κ : Type} {key : ρ → κ} {table before rows after : List ρ}

/-- Rows that can be inserted together can be inserted one after the other. -/
theorem KeepsUnique.middle (h : KeepsUnique key table (before ++ (rows ++ after))) :
    KeepsUnique key (table ++ before) rows := by
  obtain ⟨hnodup, hnew⟩ := h
  simp only [List.map_append, List.nodup_append] at hnodup
  obtain ⟨-, ⟨hrows, -, -⟩, hdisjoint⟩ := hnodup
  refine ⟨hrows, fun row hrow hold => ?_⟩
  rw [List.map_append] at hold
  obtain hold | hold := List.mem_append.mp hold
  · exact hnew row (List.mem_append_right _ (List.mem_append_left _ hrow)) hold
  · exact hdisjoint _ hold _ (List.mem_append_left _ (List.mem_map_of_mem hrow)) rfl

/-- Only the keys matter. -/
theorem KeepsUnique.congr {table' rows' : List ρ} (htable : table'.map key = table.map key)
    (hrows : rows'.map key = rows.map key) (h : KeepsUnique key table' rows') :
    KeepsUnique key table rows := by
  obtain ⟨hnodup, hnew⟩ := h
  refine ⟨hrows ▸ hnodup, fun row hrow hold => ?_⟩
  have hmem : key row ∈ rows'.map key := by
    rw [hrows]
    exact List.mem_map_of_mem hrow
  obtain ⟨row', hrow', hkey⟩ := List.mem_map.mp hmem
  exact hnew row' hrow' (by rwa [hkey, htable])

end

/-- A row without its mark. -/
def HistoryRow.unmarked (row : HistoryRow) : HistoryRow := { row with banned := false }

theorem map_unmarked {κ : Type} {key : HistoryRow → κ}
    (hkey : ∀ row, key row.unmarked = key row)
    (rows : List HistoryRow) : (rows.map HistoryRow.unmarked).map key = rows.map key := by
  rw [List.map_map]
  exact List.map_congr_left fun row _ => hkey row

namespace Projector

/-- The row of a bid whose maximum the column holds. -/
def bidRows (event : AuctionStreamEvent) : List HistoryRow :=
  match event.type, event.requestedMaxPriceVnd with
  | .bidAccepted, some maximum =>
    if h : maximum ≤ maxVnd then [historyRow event ⟨maximum, h⟩] else []
  | _, _ => []

theorem bidRows_bid {event : AuctionStreamEvent} {maximum : Bigint}
    (htype : event.type = .bidAccepted) (hmaximum : event.requestedMaxPriceVnd = some maximum.val) :
    bidRows event = [historyRow event maximum] := by
  simp [bidRows, htype, hmaximum, maximum.property]

theorem bidRows_of_ne {event : AuctionStreamEvent} (htype : event.type ≠ .bidAccepted) :
    bidRows event = [] := by
  unfold bidRows
  split
  · contradiction
  · rfl

end Projector

/-- The rows of the events keep every constraint of the tables that they are inserted into. -/
structure Insertable (T : Tables) (items : List ParsedLaneEntry) : Prop where
  transitionIds : KeepsUnique TransitionRow.eventId T.transitions
    (items.map (Projector.transitionRow ·.event))
  transitionSequences : KeepsUnique (fun row => (row.productId, row.sequence)) T.transitions
    (items.map (Projector.transitionRow ·.event))
  counters : ∀ item ∈ items, fitsBigint item.event.sequence ∧ fitsBigint item.event.version
  historyIds : KeepsUnique HistoryRow.eventId (T.history.map HistoryRow.unmarked)
    (items.flatMap (Projector.bidRows ·.event))
  historySequences : KeepsUnique (fun row => (row.productId, row.sequence))
    (T.history.map HistoryRow.unmarked) (items.flatMap (Projector.bidRows ·.event))
  bidders : ∀ row ∈ items.flatMap (Projector.bidRows ·.event), row.userId ∈ T.users ∧
    (∀ n ∈ row.productPrice, fitsBigint n) ∧ ∀ n ∈ row.priceOwnerId, fitsBigint n
  banned : ∀ row ∈ items.flatMap (Projector.banRows ·.event), row.userId ∈ T.users
  orderIds : KeepsUnique OrderRow.publicOrderId T.orders
    (items.flatMap (Projector.orderRows ·.event))
  orderProducts : KeepsUnique OrderRow.productId T.orders
    (items.flatMap (Projector.orderRows ·.event))
  buyers : ∀ row ∈ items.flatMap (Projector.orderRows ·.event), row.userId ∈ T.users
  receiptIds : KeepsUnique ReceiptRow.eventId T.receipts
    (items.map fun item => Projector.receiptRow item.event item.entry)
  receiptEntries : KeepsUnique ReceiptRow.redisEntryId T.receipts
    (items.map fun item => Projector.receiptRow item.event item.entry)
  receiptSequences : KeepsUnique (fun row => (row.productId, row.sequence)) T.receipts
    (items.map fun item => Projector.receiptRow item.event item.entry)
  outboxIds : KeepsUnique OutboxRow.eventId T.outbox (items.map (Projector.outboxRow ·.event))

/-- What the events leave, the tables that no event touches included. -/
structure Follows (productId : Nat) (fresh : List ParsedLaneEntry) (T T' : Tables) : Prop
    extends AppliedAll productId fresh T T' where
  users : T'.users = T.users
  settings : T'.settings = T.settings

section
variable {event : AuctionStreamEvent} {events : List AuctionStreamEvent}
  {before after after' : List HistoryRow} {T T' T'' : Tables} {entry : RedisStreamEntry}
  {productId : Nat} {fresh done rest : List ParsedLaneEntry} {item : ParsedLaneEntry}

theorem map_unmarked_markRows (p u : Nat) (rows : List HistoryRow) :
    (Tables.markRows p u rows).map HistoryRow.unmarked = rows.map HistoryRow.unmarked := by
  unfold Tables.markRows
  rw [List.map_map]
  refine List.map_congr_left fun row _ => ?_
  rw [Function.comp_apply]
  split <;> rfl

/-- But for marks, an event adds the row of its bid. -/
theorem HistoryWrites.unmarked (h : HistoryWrites event before after) :
    after.map HistoryRow.unmarked = before.map HistoryRow.unmarked ++ Projector.bidRows event := by
  cases h with
  | bid htype hmaximum =>
    rw [Projector.bidRows_bid htype hmaximum, List.map_append]
    rfl
  | ban htype =>
    rw [Projector.bidRows_of_ne (by simp [htype]), List.append_nil, map_unmarked_markRows]
  | keeps hbid => rw [Projector.bidRows_of_ne hbid, List.append_nil]

theorem HistoryAfter.unmarked (h : HistoryAfter events before after) :
    after.map HistoryRow.unmarked =
      before.map HistoryRow.unmarked ++ events.flatMap Projector.bidRows := by
  induction h with
  | nil => simp
  | cons hwrites _ ih => rw [ih, hwrites.unmarked, List.flatMap_cons, List.append_assoc]

/-- The events decide what becomes of the history. -/
theorem HistoryWrites.unique (h : HistoryWrites event before after)
    (h' : HistoryWrites event before after') : after = after' := by
  cases h with
  | bid htype hmaximum =>
    cases h' with
    | bid _ hmaximum' =>
      rw [Subtype.ext (Option.some.inj (hmaximum.symm.trans hmaximum'))]
    | ban hban => cases htype.symm.trans hban
    | keeps hbid => exact absurd htype hbid
  | ban htype htarget =>
    cases h' with
    | bid hbid => cases htype.symm.trans hbid
    | ban _ htarget' => rw [Option.some.inj (htarget.symm.trans htarget')]
    | keeps _ hban => exact absurd ⟨htype, rfl, htarget⟩ (hban _ _)
  | keeps hbid hban =>
    cases h' with
    | bid htype => exact absurd htype hbid
    | ban htype htarget => exact absurd ⟨htype, rfl, htarget⟩ (hban _ _)
    | keeps => rfl

theorem HistoryAfter.unique (h : HistoryAfter events before after)
    (h' : HistoryAfter events before after') : after = after' := by
  induction h with
  | nil =>
    cases h'
    rfl
  | cons hwrites _ ih =>
    cases h' with
    | cons hwrites' hs' =>
      obtain rfl := hwrites.unique hwrites'
      exact ih hs'

/-- The events decide what becomes of the tables. -/
theorem Follows.unique (h : Follows productId fresh T T') (h' : Follows productId fresh T T'') :
    T' = T'' := by
  have hproducts : T'.products = T''.products := by
    obtain ⟨hnil, hsame⟩ | ⟨product, date, last, hproduct, hlast, -, hdate, hset⟩ :=
      h.product
    · obtain ⟨-, hsame'⟩ | ⟨_, _, last, -, hlast, -⟩ := h'.product
      · rw [hsame, hsame']
      · simp [hnil] at hlast
    · obtain ⟨hnil, -⟩ | ⟨product', date', last', hproduct', hlast', -, hdate', hset'⟩ :=
        h'.product
      · simp [hnil] at hlast
      · cases hproduct.symm.trans hproduct'
        cases hlast.symm.trans hlast'
        cases hdate.symm.trans hdate'
        rw [hset, hset']
  have hhistory := h.history.unique h'.history
  have htransitions := h.transitions.trans h'.transitions.symm
  have hbans := h.bans.trans h'.bans.symm
  have horders := h.orders.trans h'.orders.symm
  have hreceipts := h.receipts.trans h'.receipts.symm
  have houtbox := h.outbox.trans h'.outbox.symm
  have husers := h.users.trans h'.users.symm
  have hsettings := h.settings.trans h'.settings.symm
  cases T'
  cases T''
  simp_all

/-- Rows that a lane can insert together, its entries can insert one by one. -/
theorem Insertable.next (h : Insertable T (done ++ item :: rest))
    (hdone : Follows productId done T T') :
    Insertable T' [item] := by
  have hsplit : done ++ item :: rest = done ++ ([item] ++ rest) := rfl
  have hunmarked : T'.history.map HistoryRow.unmarked =
      T.history.map HistoryRow.unmarked ++ done.flatMap (Projector.bidRows ·.event) := by
    rw [hdone.history.unmarked, List.flatMap_map]
  have hmem : item ∈ done ++ item :: rest := List.mem_append_right _ List.mem_cons_self
  have hrows : ∀ {ρ : Type} (rows : ParsedLaneEntry → List ρ),
      ∀ row ∈ [item].flatMap rows,
      row ∈ (done ++ item :: rest).flatMap rows := by
    intro ρ rows row hrow
    rw [List.flatMap_singleton] at hrow
    exact List.mem_flatMap.mpr ⟨item, hmem, hrow⟩
  constructor
  · rw [hdone.transitions]
    exact KeepsUnique.middle (by simpa only [hsplit, List.map_append] using h.transitionIds)
  · rw [hdone.transitions]
    exact KeepsUnique.middle (by simpa only [hsplit, List.map_append] using h.transitionSequences)
  · intro i hi
    rw [List.mem_singleton.mp hi]
    exact h.counters item hmem
  · rw [hunmarked]
    exact KeepsUnique.middle (by simpa only [hsplit, List.flatMap_append] using h.historyIds)
  · rw [hunmarked]
    exact KeepsUnique.middle (by simpa only [hsplit, List.flatMap_append] using h.historySequences)
  · intro row hrow
    rw [hdone.users]
    exact h.bidders row (hrows _ row hrow)
  · intro row hrow
    rw [hdone.users]
    exact h.banned row (hrows _ row hrow)
  · rw [hdone.orders]
    exact KeepsUnique.middle (by simpa only [hsplit, List.flatMap_append] using h.orderIds)
  · rw [hdone.orders]
    exact KeepsUnique.middle (by simpa only [hsplit, List.flatMap_append] using h.orderProducts)
  · intro row hrow
    rw [hdone.users]
    exact h.buyers row (hrows _ row hrow)
  · rw [hdone.receipts]
    exact KeepsUnique.middle (by simpa only [hsplit, List.map_append] using h.receiptIds)
  · rw [hdone.receipts]
    exact KeepsUnique.middle (by simpa only [hsplit, List.map_append] using h.receiptEntries)
  · rw [hdone.receipts]
    exact KeepsUnique.middle (by simpa only [hsplit, List.map_append] using h.receiptSequences)
  · rw [hdone.outbox]
    exact KeepsUnique.middle (by simpa only [hsplit, List.map_append] using h.outboxIds)

/-- The product's row after some of the events. -/
theorem Follows.row (h : Follows productId fresh T T') {product : ProductRow}
    (hproduct : T.products productId = some product) : ∃ row, T'.products productId = some row ∧
      row.auctionSequence = product.auctionSequence + fresh.length ∧
      row.auctionVersion = (fresh.getLast?.map (·.event.version)).getD product.auctionVersion ∧
      (∀ event date, snapshot event date row = snapshot event date product) ∧
      ∀ row', Function.update T'.products productId row' =
        Function.update T.products productId row' := by
  obtain ⟨rfl, hsame⟩ | ⟨product', date, last, hproduct', hlast, hsequence, -, hproducts⟩ :=
    h.product
  · exact ⟨product, by rw [hsame, hproduct], rfl, rfl, fun _ _ => rfl, fun _ => by rw [hsame]⟩
  · cases hproduct.symm.trans hproduct'
    refine ⟨snapshot last.event date product, by rw [hproducts, Function.update_self], ?_, ?_,
      fun _ _ => rfl, fun row' => by rw [hproducts, Function.update_idem]⟩
    · obtain ⟨init, rfl⟩ := List.getLast?_eq_some_iff.mp hlast
      rw [List.length_append, List.length_singleton, List.range'_concat, List.map_append]
        at hsequence
      have hend := (List.append_inj' hsequence rfl).2
      simp only [List.map_cons, List.map_nil, List.cons.injEq, and_true] at hend
      change last.event.sequence = _
      rw [hend, List.length_append, List.length_singleton]
      omega
    · rw [hlast]
      rfl

/-- One more entry is applied. -/
theorem Follows.snoc {product : ProductRow} (h : Follows productId fresh T T')
    (hproduct : T.products productId = some product) (happlied : Applied entry event T' T'')
    (husers : T''.users = T'.users) (hown : event.productId = productId) :
    Follows productId (fresh ++ [⟨entry, event⟩]) T T'' := by
  subst hown
  obtain ⟨row, hrow, hsequence, -, hsnapshot, hupdate⟩ := h.row hproduct
  obtain ⟨row', date, hrow', hnext, hdate, hproducts⟩ := happlied.product
  cases hrow.symm.trans hrow'
  refine ⟨⟨?_, ?_, ?_, ?_, ?_, ?_, ?_, .inr ?_⟩, husers.trans h.users,
    happlied.settings.trans h.settings⟩
  · intro item hitem
    obtain hitem | hitem := List.mem_append.mp hitem
    · exact h.parsed item hitem
    · rw [List.mem_singleton.mp hitem]
      exact ⟨happlied.parsed, rfl⟩
  · rw [happlied.transitions, h.transitions]
    simp
  · rw [List.map_append]
    exact h.history.snoc happlied.history
  · rw [happlied.bans, h.bans, List.flatMap_append]
    unfold Tables.insertBans
    rw [List.foldl_append, List.flatMap_singleton]
  · rw [happlied.orders, h.orders]
    simp
  · rw [happlied.receipts, h.receipts]
    simp
  · rw [happlied.outbox, h.outbox]
    simp
  · refine ⟨product, date, ⟨entry, event⟩, hproduct, by simp, ?_, hdate, ?_⟩
    · rw [hsequence] at hnext
      have hfresh : fresh.map (·.event.sequence) =
          List.range' (product.auctionSequence + 1) fresh.length := by
        obtain ⟨rfl, -⟩ | ⟨_, _, _, hproduct', -, hfresh, -⟩ := h.product
        · rfl
        · cases hproduct.symm.trans hproduct'
          exact hfresh
      rw [List.map_append, hfresh, List.length_append, List.length_singleton, List.range'_concat]
      simp only [List.map_cons, List.map_nil, hnext]
      congr 2
      omega
    · rw [hproducts, hupdate, hsnapshot]

/-! ## One entry -/

theorem Tables.statement_of {constraints : Prop} [Decidable constraints] (h : constraints)
    (next : Tables) : Tables.statement constraints next = .ok next := if_pos h

/-- The snapshot update fails only on a snapshot that no row can hold. -/
theorem updateProduct_iff {product : ProductRow}
    (hproduct : T.products event.productId = some product)
    (hversion : product.auctionVersion < event.version) :
    (∃ T', T.updateProduct event = .ok T') ↔ event.StoresSnapshot := by
  unfold Tables.updateProduct AuctionStreamEvent.StoresSnapshot
  rw [hproduct]
  by_cases hdate : event.endAtMs.denotes.natAbs ≤ 8640000000000000
  · have hdate' : Tables.toDate event.endAtMs = .ok ⟨event.endAtMs.denotes, hdate⟩ :=
      dif_pos hdate
    rw [Except.bind_of_ok hdate']
    dsimp only
    rw [if_pos hversion]
    constructor
    · rintro ⟨T', h⟩
      exact ⟨hdate, (Tables.statement_ok h).1⟩
    · rintro ⟨-, hfits⟩
      exact ⟨_, Tables.statement_of hfits _⟩
  · have hdate' : Tables.toDate event.endAtMs = .error .database := dif_neg hdate
    refine iff_of_false ?_ fun h => hdate h.1
    rintro ⟨T', h⟩
    obtain ⟨date, hok, -⟩ := Except.bind_eq_ok h
    cases hdate'.symm.trans hok

theorem exists_projectType (T' : Tables) (h : Insertable T [⟨entry, event⟩])
    (hbid : event.type = .bidAccepted → ∃ maximum : Bigint,
      event.requestedMaxPriceVnd = some maximum.val)
    (husers : T'.users = T.users) (hhistory : T'.history = T.history) :
    ∃ T'', Projector.projectType event T' = .ok T'' := by
  unfold Projector.projectType
  split
  · rename_i htype hnone
    obtain ⟨maximum, hmaximum⟩ := hbid htype
    cases hnone.symm.trans hmaximum
  · rename_i amount htype hamount
    obtain ⟨maximum, hmaximum⟩ := hbid htype
    obtain rfl : amount = maximum.val := Option.some.inj (hamount.symm.trans hmaximum)
    have hrows : [(⟨entry, event⟩ : ParsedLaneEntry)].flatMap (Projector.bidRows ·.event) =
        [Projector.historyRow event maximum] := by
      rw [List.flatMap_singleton, Projector.bidRows_bid htype hmaximum]
    have hids := h.historyIds
    have hsequences := h.historySequences
    have hbidders := h.bidders
    rw [hrows] at hids hsequences hbidders
    have hconvert : toBigint maximum.val = .ok maximum := dif_pos maximum.property
    rw [Except.bind_of_ok hconvert]
    refine ⟨_, Tables.statement_of ⟨?_, ?_, ?_⟩ _⟩
    · rw [hhistory]
      exact hids.congr (map_unmarked (fun _ => rfl) _) rfl
    · rw [hhistory]
      exact hsequences.congr (map_unmarked (fun _ => rfl) _) rfl
    · rw [husers]
      exact hbidders
  · rename_i target htype htarget
    have hrow : Projector.banRow event target ∈
        [(⟨entry, event⟩ : ParsedLaneEntry)].flatMap (Projector.banRows ·.event) := by
      simp [Projector.banRows, htype, htarget]
    have hknown : target ∈ T'.users := by
      rw [husers]
      exact h.banned _ hrow
    have hbans : T'.createBans [Projector.banRow event target] = .ok _ :=
      Tables.statement_of (by simpa [Projector.banRow] using hknown) _
    rw [Except.bind_of_ok hbans]
    exact ⟨_, rfl⟩
  · exact ⟨_, rfl⟩

theorem exists_projectOrder (T' : Tables) (h : Insertable T [⟨entry, event⟩])
    (husers : T'.users = T.users)
    (horders : T'.orders = T.orders) : ∃ T'', Projector.projectOrder event T' = .ok T'' := by
  have hids := h.orderIds
  have hproducts := h.orderProducts
  have hbuyers := h.buyers
  rw [List.flatMap_singleton, ← horders] at hids hproducts
  rw [List.flatMap_singleton, ← husers] at hbuyers
  unfold Projector.projectOrder
  split
  · exact ⟨_, rfl⟩
  · exact ⟨_, Tables.statement_of ⟨hids, hproducts, hbuyers⟩ _⟩

/-- The snapshot update among the writes of an entry. -/
theorem projectWrites_ok (h : projectWrites entry event T = .ok T') :
    ∃ T₃ T₄ : Tables, T₃.products = T.products ∧ T₃.updateProduct event = .ok T₄ ∧
      T'.users = T.users := by
  unfold projectWrites at h
  obtain ⟨T₁, h₁, h⟩ := Except.bind_eq_ok h
  obtain ⟨T₂, h₂, h⟩ := Except.bind_eq_ok h
  obtain ⟨T₃, h₃, h⟩ := Except.bind_eq_ok h
  obtain ⟨T₄, h₄, h⟩ := Except.bind_eq_ok h
  obtain ⟨T₅, h₅, h₆⟩ := Except.bind_eq_ok h
  obtain ⟨-, rfl⟩ := Tables.statement_ok h₁
  obtain ⟨history, bans, hframe⟩ := (projectType_ok h₂).frame
  have horders := (projectOrder_ok h₃).1
  obtain ⟨_, _, -, -, hupdated⟩ := Tables.updateProduct_ok h₄
  obtain ⟨-, rfl⟩ := Tables.statement_ok h₅
  obtain ⟨-, rfl⟩ := Tables.statement_ok h₆
  refine ⟨T₃, T₄, by rw [horders, hframe], h₄, ?_⟩
  rw [hupdated, horders, hframe]

/-- An entry whose rows can be inserted fails only on its snapshot. -/
theorem projectWrites_iff {product : ProductRow} (h : Insertable T [⟨entry, event⟩])
    (hbid : event.type = .bidAccepted → ∃ maximum : Bigint,
      event.requestedMaxPriceVnd = some maximum.val)
    (hproduct : T.products event.productId = some product)
    (hversion : product.auctionVersion < event.version) :
    (∃ T', projectWrites entry event T = .ok T') ↔ event.StoresSnapshot := by
  constructor
  · rintro ⟨T', hwrites⟩
    obtain ⟨T₃, T₄, hproducts, hupdate, -⟩ := projectWrites_ok hwrites
    exact (updateProduct_iff (hproducts ▸ hproduct) hversion).mp ⟨T₄, hupdate⟩
  intro hstores
  have h₁ : T.createTransitions [Projector.transitionRow event] = .ok
      { T with transitions := T.transitions ++ [Projector.transitionRow event] } := by
    refine Tables.statement_of ⟨h.transitionIds, h.transitionSequences, fun row hrow => ?_⟩ _
    rw [List.mem_singleton.mp hrow]
    exact h.counters ⟨entry, event⟩ List.mem_cons_self
  obtain ⟨T₂, h₂⟩ := exists_projectType
    { T with transitions := T.transitions ++ [Projector.transitionRow event] } h hbid rfl rfl
  obtain ⟨history, bans, hframe⟩ := (projectType_ok h₂).frame
  obtain ⟨T₃, h₃⟩ := exists_projectOrder T₂ h (by rw [hframe]) (by rw [hframe])
  have horders := (projectOrder_ok h₃).1
  obtain ⟨T₄, h₄⟩ :=
    (updateProduct_iff (T := T₃) (by rw [horders, hframe]; exact hproduct)
    hversion).mpr hstores
  obtain ⟨_, _, -, -, hupdated⟩ := Tables.updateProduct_ok h₄
  have hreceipts : T₄.receipts = T.receipts := by rw [hupdated, horders, hframe]
  have houtbox : T₄.outbox = T.outbox := by rw [hupdated, horders, hframe]
  have h₅ : T₄.createReceipts [Projector.receiptRow event entry] = .ok
      { T₄ with receipts := T₄.receipts ++ [Projector.receiptRow event entry] } := by
    refine Tables.statement_of ?_ _
    rw [hreceipts]
    exact ⟨h.receiptIds, h.receiptEntries, h.receiptSequences⟩
  unfold projectWrites
  rw [Except.bind_of_ok h₁, Except.bind_of_ok h₂, Except.bind_of_ok h₃,
    Except.bind_of_ok h₄, Except.bind_of_ok h₅]
  refine ⟨_, Tables.statement_of ?_ _⟩
  rw [houtbox]
  exact h.outboxIds

end

end MiracleAuction
