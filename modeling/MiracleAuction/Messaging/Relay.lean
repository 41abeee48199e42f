import MiracleAuction.Base.Queries
import MiracleAuction.Base.Run
import MiracleAuction.Messaging.Outbox

/-!
# `outbox-relay.worker.ts`

Relay processes claim rows of the outbox, publish those that are valid, and mark
every row as delivered, terminal, or to be retried. Their statements run between
each other and may be carried out after the relay has given up on them.
-/
namespace MiracleAuction.Messaging

/-! ## Statements -/

/-- `outboxRetryDelayMs`. -/
def outboxRetryDelayMs (attempt : Nat) (maxBackoffMs : Number) : Number :=
  maxBackoffMs.minimum (1000 * 2 ^ min (attempt - 1) 16 : Nat)

/-- The updates of a relay outside of its claims. -/
inductive Statement
  | markTerminal (id : Nat) (terminalAt : DateMs) (reason : String)
  | markDelivered (ids : List Nat) (deliveredAt : DateMs)
  | markRetry (id : Nat) (availableAt : DateMs) (message : String)

/-- What a statement makes of a row. -/
def Statement.update : Statement → OutboxRow → OutboxRow
  | .markTerminal id terminalAt reason, row =>
    if row.id = id ∧ row.deliveredAt = none then
      { row with terminalAt := some terminalAt, lastError := some (slice 2000 reason) }
    else row
  | .markDelivered ids deliveredAt, row =>
    if row.id ∈ ids ∧ row.deliveredAt = none ∧ row.terminalAt = none then
      { row with deliveredAt := some deliveredAt, lastError := none }
    else row
  | .markRetry id availableAt message, row =>
    if row.id = id ∧ row.deliveredAt = none ∧ row.terminalAt = none then
      { row with availableAt := .at availableAt.val, lastError := some (slice 2000 message) }
    else row

/-- The rows that a claim looks for. -/
def OutboxRow.Claimable (now : Int) (row : OutboxRow) : Prop :=
  row.deliveredAt = none ∧ row.terminalAt = none ∧ row.availableAt.reached now

instance (now : Int) (row : OutboxRow) : Decidable (row.Claimable now) := by
  unfold OutboxRow.Claimable; infer_instance

/-- The query of a claim. -/
def claimOutboxRows (rows : List OutboxRow) (now : Int) (limit : Nat) (locked : List Nat) :
    List OutboxRow :=
  Claims.select (·.id) (·.Claimable now) rows limit locked

/-- The update of a claim. -/
def leaseRow (ids : List Nat) (availableAt : DateMs) (row : OutboxRow) : OutboxRow :=
  if row.id ∈ ids ∧ row.deliveredAt = none ∧ row.terminalAt = none then
    { row with attempts := row.attempts + 1, availableAt := .at availableAt.val }
  else row

/-- The `outbox` branch of `retryDlq`. -/
def retryDlqRow (eventId : String) (availableAt : DateMs) (row : OutboxRow) : OutboxRow :=
  if row.eventId = eventId ∧ row.terminalAt ≠ none then
    { row with
      terminalAt := none
      attempts := 0
      availableAt := .at availableAt.val
      lastError := none }
  else row

/-- The batches of a publish call, one for each topic. -/
def relayBatches (valid : List RelayRow) : List KafkaEventBatch :=
  (valid.map (·.topic)).eraseDups.map fun topic =>
    ⟨topic, (valid.filter (·.topic = topic)).map fun row => relayMessage row.toOutboxEvent⟩

/-! ## Processes -/

/-- Where a relay stands in `relayOutboxBatch`. -/
inductive RelayPhase
  | idle
  | validating (todo valid : List RelayRow)
  | publishing (valid : List RelayRow)
  | delivering (valid : List RelayRow)
  | retrying (valid : List RelayRow)

/-- The relays with what they share. `pending` holds the statements that were sent
and are neither carried out nor lost, `acknowledged` the publish calls that Kafka
has acknowledged. -/
structure RelayWorld where
  rows : List OutboxRow := []
  relays : Nat → RelayPhase := fun _ => .idle
  pending : List Statement := []
  acknowledged : List (List KafkaEventBatch) := []

namespace RelayWorld
variable (w : RelayWorld)

def goto (relay : Nat) (phase : RelayPhase) : RelayWorld :=
  { w with relays := Function.update w.relays relay phase }

def update (f : OutboxRow → OutboxRow) : RelayWorld := { w with rows := w.rows.map f }

def send (s : Statement) : Answer → RelayWorld
  | .done | .replyLost => w.update s.update
  | .givenUp => { w with pending := s :: w.pending }

end RelayWorld

inductive RelayAction
  | produce (event : OutboxEvent) (id : Nat) (now : DateMs)
  | claim (relay : Nat) (now : Int) (clock : DateMs) (limit : Nat) (leaseMs : Number)
      (locked : List Nat)
  | validate (relay : Nat) (clock : DateMs) (answer : Answer)
  | publish (relay : Nat) (acknowledged : Bool)
  | deliver (relay : Nat) (clock : DateMs) (answer : Answer)
  | retry (relay : Nat) (clock : DateMs) (maxBackoffMs : Number) (message : String)
  | carryOut (index : Nat)
  | lose (index : Nat)
  | crash (relay : Nat)
  | retryDlq (eventId : String) (clock : DateMs)

/-- The statements of `markRetry`. They run side by side, and the relay goes on when
one of them fails. -/
def retryStatements (clock : DateMs) (maxBackoffMs : Number) (message : String)
    (valid : List RelayRow) : List Statement :=
  valid.filterMap fun row =>
    (dateAfter clock (outboxRetryDelayMs (row.attempts + 1) maxBackoffMs)).map fun availableAt =>
      .markRetry row.id availableAt message

/-- One step; `none` where the action is not possible. -/
def RelayWorld.next (relayTopics : List String) (w : RelayWorld) : RelayAction → Option RelayWorld
  | .produce event id now =>
    if id ∈ w.rows.map (·.id) then none
    else
      some { w with
        rows := w.rows ++ [{ event with id := id, attempts := 0, availableAt := .at now.val }] }
  | .claim relay now clock limit leaseMs locked =>
    match w.relays relay with
    | .idle =>
      let claimed := claimOutboxRows w.rows now limit locked
      match dateAfter clock leaseMs with
      | none => some w
      | some availableAt =>
        some ((w.update (leaseRow (claimed.map (·.id)) availableAt)).goto relay
          (.validating (claimed.map (·.toRelayRow)) []))
    | _ => none
  | .validate relay clock answer =>
    match w.relays relay with
    | .validating [] valid => some (w.goto relay (if valid = [] then .idle else .publishing valid))
    | .validating (row :: todo) valid =>
      match validateRelayRow relayTopics row.toOutboxEvent with
      | none => some (w.goto relay (.validating todo (valid ++ [row])))
      | some reason =>
        some ((w.send (.markTerminal row.id clock reason) answer).goto relay
          (if answer = .done then .validating todo valid else .idle))
    | _ => none
  | .publish relay acknowledged =>
    match w.relays relay with
    | .publishing valid =>
      if acknowledged then
        some ({ w with acknowledged := relayBatches valid :: w.acknowledged }.goto relay
          (.delivering valid))
      else some (w.goto relay (.retrying valid))
    | _ => none
  | .deliver relay clock answer =>
    match w.relays relay with
    | .delivering valid =>
      some ((w.send (.markDelivered (valid.map (·.id)) clock) answer).goto relay
        (if answer = .done then .idle else .retrying valid))
    | _ => none
  | .retry relay clock maxBackoffMs message =>
    match w.relays relay with
    | .retrying valid =>
      some ({ w with
        pending := retryStatements clock maxBackoffMs message valid ++ w.pending }.goto relay .idle)
    | _ => none
  | .carryOut index =>
    (w.pending[index]?).map fun s =>
      { w with rows := w.rows.map s.update, pending := w.pending.eraseIdx index }
  | .lose index => some { w with pending := w.pending.eraseIdx index }
  | .crash relay => some (w.goto relay .idle)
  | .retryDlq eventId clock => some (w.update (retryDlqRow eventId clock))

/-! ## Safety -/

/-- A publish call that contains the event was acknowledged. -/
def Acknowledged (calls : List (List KafkaEventBatch)) (event : OutboxEvent) : Prop :=
  ∃ call ∈ calls, ∃ batch ∈ call, batch.topic = event.topic ∧
    relayMessage event ∈ batch.messages

/-- The id belongs to a row, and the row's event has the property. -/
def About (rows : List OutboxRow) (P : OutboxEvent → Prop) (id : Nat) : Prop :=
  id ∈ rows.map (·.id) ∧ ∀ row ∈ rows, row.id = id → P row.toOutboxEvent

section
variable {relayTopics : List String} {w w' : RelayWorld} {rows : List OutboxRow}
  {P Q : OutboxEvent → Prop} {id : Nat} {f : OutboxRow → OutboxRow}

theorem About.mono (h : About rows P id) (hPQ : ∀ event, P event → Q event) : About rows Q id :=
  ⟨h.1, fun row hrow hid => hPQ _ (h.2 row hrow hid)⟩

/-- An update that keeps the columns of the producer. -/
def KeepsEvent (f : OutboxRow → OutboxRow) : Prop :=
  ∀ row, (f row).id = row.id ∧ (f row).toOutboxEvent = row.toOutboxEvent

theorem About.map (h : About rows P id) (hf : KeepsEvent f) : About (rows.map f) P id := by
  constructor
  · obtain ⟨row, hrow, hid⟩ := List.mem_map.mp h.1
    exact List.mem_map.mpr ⟨f row, List.mem_map_of_mem hrow, (hf row).1.trans hid⟩
  · intro row hrow hid
    obtain ⟨old, hold, rfl⟩ := List.mem_map.mp hrow
    rw [(hf old).2]
    exact h.2 old hold ((hf old).1.symm.trans hid)

theorem About.append {new : OutboxRow} (h : About rows P id) (hnew : new.id ∉ rows.map (·.id)) :
    About (rows ++ [new]) P id := by
  constructor
  · rw [List.map_append]
    exact List.mem_append_left _ h.1
  · intro row hrow hid
    rcases List.mem_append.mp hrow with hrow | hrow
    · exact h.2 row hrow hid
    · rw [List.mem_singleton.mp hrow] at hid
      exact absurd (hid ▸ h.1) hnew

theorem keepsEvent_update (s : Statement) : KeepsEvent s.update := by
  intro row
  unfold Statement.update
  split <;> split <;> exact ⟨rfl, rfl⟩

theorem keepsEvent_leaseRow (ids : List Nat) (availableAt : DateMs) :
    KeepsEvent (leaseRow ids availableAt) := by
  intro row
  unfold leaseRow
  split <;> exact ⟨rfl, rfl⟩

theorem keepsEvent_retryDlqRow (eventId : String) (availableAt : DateMs) :
    KeepsEvent (retryDlqRow eventId availableAt) := by
  intro row
  unfold retryDlqRow
  split <;> exact ⟨rfl, rfl⟩

/-- What holds of every row in every state. -/
structure RowSafe (relayTopics : List String) (calls : List (List KafkaEventBatch))
    (row : OutboxRow) : Prop where
  acknowledged : row.deliveredAt ≠ none → Acknowledged calls row.toOutboxEvent
  exclusive : row.deliveredAt = none ∨ row.terminalAt = none
  invalid : row.terminalAt ≠ none → validateRelayRow relayTopics row.toOutboxEvent ≠ none
  finite : ∃ time, row.availableAt = .at time

/-- A statement marks only the rows that deserve it. -/
def Statement.Justified (relayTopics : List String) (w : RelayWorld) : Statement → Prop
  | .markTerminal id _ _ =>
    About w.rows (fun event => validateRelayRow relayTopics event ≠ none) id
  | .markDelivered ids _ => ∀ id ∈ ids, About w.rows (Acknowledged w.acknowledged) id
  | .markRetry _ _ _ => True

/-- A relay's row is a copy of the table's. -/
def Copied (w : RelayWorld) (row : RelayRow) : Prop :=
  About w.rows (· = row.toOutboxEvent) row.id

def RelayPhase.Sound (w : RelayWorld) : RelayPhase → Prop
  | .validating todo valid => (∀ row ∈ todo, Copied w row) ∧ ∀ row ∈ valid, Copied w row
  | .publishing valid => ∀ row ∈ valid, Copied w row
  | .delivering valid => ∀ row ∈ valid, About w.rows (Acknowledged w.acknowledged) row.id
  | .idle | .retrying _ => True

structure RelayWorld.Sound (relayTopics : List String) (w : RelayWorld) : Prop where
  unique : (w.rows.map (·.id)).Nodup
  rows : ∀ row ∈ w.rows, RowSafe relayTopics w.acknowledged row
  relays : ∀ relay, (w.relays relay).Sound w
  pending : ∀ s ∈ w.pending, s.Justified relayTopics w

/-- What is said about the rows of `w` holds in `w'`. -/
structure Carries (w w' : RelayWorld) : Prop where
  about : ∀ P id, About w.rows P id → About w'.rows P id
  acknowledged : ∀ call ∈ w.acknowledged, call ∈ w'.acknowledged

namespace Carries

theorem acknowledges (h : Carries w w') {event : OutboxEvent}
    (hack : Acknowledged w.acknowledged event) : Acknowledged w'.acknowledged event := by
  obtain ⟨call, hcall, hbatch⟩ := hack
  exact ⟨call, h.acknowledged call hcall, hbatch⟩

theorem justified (h : Carries w w') {s : Statement} (hs : s.Justified relayTopics w) :
    s.Justified relayTopics w' := by
  cases s with
  | markTerminal id terminalAt reason =>
    exact h.about (fun event => validateRelayRow relayTopics event ≠ none) id hs
  | markDelivered => exact fun id hid => (h.about _ _ (hs id hid)).mono fun _ => h.acknowledges
  | markRetry => trivial

theorem phase (h : Carries w w') {p : RelayPhase} (hp : p.Sound w) : p.Sound w' := by
  cases p with
  | idle => trivial
  | validating =>
    exact ⟨fun row hrow => h.about _ _ (hp.1 row hrow),
      fun row hrow => h.about _ _ (hp.2 row hrow)⟩
  | publishing => exact fun row hrow => h.about _ _ (hp row hrow)
  | delivering =>
    exact fun row hrow => (h.about _ _ (hp row hrow)).mono fun _ => h.acknowledges
  | retrying => trivial

end Carries

namespace RelayWorld.Sound

theorem goto (h : Sound relayTopics w) (relay : Nat) {p : RelayPhase} (hp : p.Sound w) :
    Sound relayTopics (w.goto relay p) := by
  have hcarries : Carries w (w.goto relay p) := ⟨fun _ _ h => h, fun _ h => h⟩
  refine ⟨h.unique, h.rows, fun r => ?_, fun s hs => hcarries.justified (h.pending s hs)⟩
  simp only [RelayWorld.goto]
  by_cases hr : r = relay
  · rw [hr, Function.update_self]
    exact hcarries.phase hp
  · rw [Function.update_of_ne hr]
    exact hcarries.phase (h.relays r)

theorem update (h : Sound relayTopics w) (hf : KeepsEvent f)
    (hsafe : ∀ row ∈ w.rows, RowSafe relayTopics w.acknowledged (f row)) :
    Sound relayTopics (w.update f) := by
  have hcarries : Carries w (w.update f) := ⟨fun _ _ h => h.map hf, fun _ h => h⟩
  refine ⟨?_, fun row hrow => ?_, fun r => hcarries.phase (h.relays r),
    fun s hs => hcarries.justified (h.pending s hs)⟩
  · rw [RelayWorld.update, List.map_map]
    exact (List.map_congr_left fun row _ => (hf row).1) ▸ h.unique
  obtain ⟨old, hold, rfl⟩ := List.mem_map.mp hrow
  exact hsafe old hold

/-- A justified statement keeps the rows safe. -/
theorem rowSafe_statement (h : Sound relayTopics w) {s : Statement}
    (hs : s.Justified relayTopics w) (row : OutboxRow) (hrow : row ∈ w.rows) :
    RowSafe relayTopics w.acknowledged (s.update row) := by
  have hsafe := h.rows row hrow
  cases s with
  | markTerminal id terminalAt reason =>
    simp only [Statement.update]
    split
    · rename_i hguard
      exact ⟨hsafe.acknowledged, .inl hguard.2, fun _ => hs.2 row hrow hguard.1, hsafe.finite⟩
    · exact hsafe
  | markDelivered ids deliveredAt =>
    simp only [Statement.update]
    split
    · rename_i hguard
      exact ⟨fun _ => (hs row.id hguard.1).2 row hrow rfl, .inr hguard.2.2, hsafe.invalid,
        hsafe.finite⟩
    · exact hsafe
  | markRetry id availableAt message =>
    simp only [Statement.update]
    split
    · exact ⟨hsafe.acknowledged, hsafe.exclusive, hsafe.invalid, _, rfl⟩
    · exact hsafe

theorem carryOut (h : Sound relayTopics w) {s : Statement} (hs : s.Justified relayTopics w) :
    Sound relayTopics (w.update s.update) :=
  h.update (keepsEvent_update s) (h.rowSafe_statement hs)

theorem pend (h : Sound relayTopics w) {ss : List Statement}
    (hs : ∀ s ∈ ss, s.Justified relayTopics w) :
    Sound relayTopics { w with pending := ss } :=
  have hcarries : Carries w { w with pending := ss } := ⟨fun _ _ h => h, fun _ h => h⟩
  ⟨h.unique, h.rows, fun r => hcarries.phase (h.relays r),
    fun s hmem => hcarries.justified (hs s hmem)⟩

/-- A row of the table is a copy of itself. -/
theorem copied (h : Sound relayTopics w) {row : OutboxRow} (hrow : row ∈ w.rows) :
    Copied w row.toRelayRow := by
  refine ⟨List.mem_map_of_mem hrow, fun other hother hid => ?_⟩
  rw [List.inj_on_of_nodup_map h.unique hother hrow hid]

theorem send (h : Sound relayTopics w) {s : Statement} (hs : s.Justified relayTopics w)
    (answer : Answer) : Sound relayTopics (w.send s answer) ∧ Carries w (w.send s answer) := by
  have hcarries : Carries w (w.update s.update) :=
    ⟨fun _ _ h => h.map (keepsEvent_update s), fun _ h => h⟩
  cases answer with
  | done => exact ⟨h.carryOut hs, hcarries⟩
  | replyLost => exact ⟨h.carryOut hs, hcarries⟩
  | givenUp =>
    refine ⟨h.pend fun s' hs' => ?_, fun _ _ h => h, fun _ h => h⟩
    rcases List.mem_cons.mp hs' with rfl | hs'
    · exact hs
    · exact h.pending s' hs'

end RelayWorld.Sound

theorem RelayWorld.Sound.produce (h : w.Sound relayTopics) {new : OutboxRow}
    (hnew : new.id ∉ w.rows.map (·.id)) (hsafe : RowSafe relayTopics w.acknowledged new) :
    RelayWorld.Sound relayTopics { w with rows := w.rows ++ [new] } := by
  have hcarries : Carries w { w with rows := w.rows ++ [new] } :=
    ⟨fun _ _ h => h.append hnew, fun _ h => h⟩
  refine ⟨?_, fun row hrow => ?_, fun r => hcarries.phase (h.relays r),
    fun s hs => hcarries.justified (h.pending s hs)⟩
  · rw [List.map_append]
    exact List.Nodup.append h.unique (List.nodup_singleton _) (by simpa using hnew)
  · rcases List.mem_append.mp hrow with hrow | hrow
    · exact h.rows row hrow
    · rw [List.mem_singleton.mp hrow]
      exact hsafe

/-- An acknowledged call is added to those before. -/
theorem RelayWorld.Sound.acknowledge (h : w.Sound relayTopics) (call : List KafkaEventBatch) :
    RelayWorld.Sound relayTopics { w with acknowledged := call :: w.acknowledged } := by
  have hcarries : Carries w { w with acknowledged := call :: w.acknowledged } :=
    ⟨fun _ _ h => h, fun _ h => List.mem_cons_of_mem _ h⟩
  refine ⟨h.unique, fun row hrow => ?_, fun r => hcarries.phase (h.relays r),
    fun s hs => hcarries.justified (h.pending s hs)⟩
  have hsafe := h.rows row hrow
  exact ⟨fun hd => hcarries.acknowledges (hsafe.acknowledged hd), hsafe.exclusive, hsafe.invalid,
    hsafe.finite⟩

/-- The publish call of the valid rows contains each of them. -/
theorem acknowledged_relayBatches {valid : List RelayRow} {row : RelayRow} (hrow : row ∈ valid)
    (calls : List (List KafkaEventBatch)) :
    Acknowledged (relayBatches valid :: calls) row.toOutboxEvent := by
  refine ⟨_, List.mem_cons_self, _, List.mem_map.mpr ⟨row.topic, ?_, rfl⟩, rfl, ?_⟩
  · rw [List.mem_eraseDups]
    exact List.mem_map_of_mem hrow
  · exact List.mem_map.mpr ⟨row, List.mem_filter.mpr ⟨hrow, by simp⟩, rfl⟩

theorem rowSafe_lease {ids : List Nat} {availableAt : DateMs}
    {calls : List (List KafkaEventBatch)} {row : OutboxRow} (h : RowSafe relayTopics calls row) :
    RowSafe relayTopics calls (leaseRow ids availableAt row) := by
  unfold leaseRow
  split
  · exact ⟨h.acknowledged, h.exclusive, h.invalid, _, rfl⟩
  · exact h

theorem rowSafe_retryDlq {eventId : String} {availableAt : DateMs}
    {calls : List (List KafkaEventBatch)} {row : OutboxRow} (h : RowSafe relayTopics calls row) :
    RowSafe relayTopics calls (retryDlqRow eventId availableAt row) := by
  unfold retryDlqRow
  split
  · exact ⟨h.acknowledged, .inr rfl, fun hne => absurd rfl hne, _, rfl⟩
  · exact h

/-- The statements of a retry need no justification. -/
theorem justified_retryStatements {clock : DateMs} {maxBackoffMs : Number} {message : String}
    {valid : List RelayRow} {s : Statement}
    (h : s ∈ retryStatements clock maxBackoffMs message valid) : s.Justified relayTopics w := by
  obtain ⟨row, _, hrow⟩ := List.mem_filterMap.mp h
  obtain ⟨availableAt, _, rfl⟩ := Option.map_eq_some_iff.mp hrow
  trivial

/-- Every step keeps the invariant. -/
theorem sound_step {a : RelayAction} (h : StepOf (RelayWorld.next relayTopics) w a w')
    (hw : w.Sound relayTopics) : w'.Sound relayTopics := by
  unfold StepOf at h
  cases a with
  | produce event id now =>
    simp only [RelayWorld.next] at h
    split at h
    · cases h
    · rename_i hnew
      cases h
      exact hw.produce hnew ⟨by simp, .inl rfl, by simp, _, rfl⟩
  | claim relay now clock limit leaseMs locked =>
    simp only [RelayWorld.next] at h
    split at h
    · split at h
      · cases h
        exact hw
      · rename_i availableAt _
        cases h
        have hkeeps := keepsEvent_leaseRow
          ((claimOutboxRows w.rows now limit locked).map (·.id)) availableAt
        have hlease := hw.update hkeeps fun row hrow => rowSafe_lease (hw.rows row hrow)
        refine hlease.goto relay ⟨fun row hrow => ?_, by simp⟩
        obtain ⟨old, hold, rfl⟩ := List.mem_map.mp hrow
        exact About.map (hw.copied (Claims.mem_of_mem_select hold).1) hkeeps
    · cases h
  | validate relay clock answer =>
    simp only [RelayWorld.next] at h
    split at h
    · rename_i valid hphase
      cases h
      have hvalid := hw.relays relay
      rw [hphase] at hvalid
      refine hw.goto relay ?_
      split
      · trivial
      · exact hvalid.2
    · rename_i row todo valid hphase
      have hrows := hw.relays relay
      rw [hphase] at hrows
      have htodo := fun r hr => hrows.1 r (List.mem_cons_of_mem row hr)
      have hrow := hrows.1 row List.mem_cons_self
      split at h
      · cases h
        refine hw.goto relay ⟨htodo, fun r hr => ?_⟩
        rcases List.mem_append.mp hr with hr | hr
        · exact hrows.2 r hr
        · rw [List.mem_singleton.mp hr]
          exact hrow
      · rename_i reason hinvalid
        cases h
        have hjustified : (Statement.markTerminal row.id clock reason).Justified relayTopics w := by
          refine ⟨hrow.1, fun r hr hid => ?_⟩
          simp [hrow.2 r hr hid, hinvalid]
        obtain ⟨hsent, hcarries⟩ := hw.send hjustified answer
        refine hsent.goto relay ?_
        split
        · exact hcarries.phase (p := .validating todo valid) ⟨htodo, hrows.2⟩
        · trivial
    · cases h
  | publish relay acknowledged =>
    simp only [RelayWorld.next] at h
    split at h
    · rename_i valid hphase
      have hvalid := hw.relays relay
      rw [hphase] at hvalid
      split at h
      · cases h
        refine (hw.acknowledge _).goto relay fun row hrow => ?_
        refine (hvalid row hrow).mono fun event hevent => ?_
        rw [hevent]
        exact acknowledged_relayBatches hrow _
      · cases h
        exact hw.goto relay trivial
    · cases h
  | deliver relay clock answer =>
    simp only [RelayWorld.next] at h
    split at h
    · rename_i valid hphase
      cases h
      have hvalid := hw.relays relay
      rw [hphase] at hvalid
      have hjustified :
          (Statement.markDelivered (valid.map (·.id)) clock).Justified relayTopics w := by
        intro id hid
        obtain ⟨row, hrow, rfl⟩ := List.mem_map.mp hid
        exact hvalid row hrow
      obtain ⟨hsent, _⟩ := hw.send hjustified answer
      refine hsent.goto relay ?_
      split <;> trivial
    · cases h
  | retry relay clock maxBackoffMs message =>
    simp only [RelayWorld.next] at h
    split at h
    · cases h
      refine RelayWorld.Sound.goto (hw.pend fun s hs => ?_) relay trivial
      rcases List.mem_append.mp hs with hs | hs
      · exact justified_retryStatements hs
      · exact hw.pending s hs
    · cases h
  | carryOut index =>
    obtain ⟨s, hs, rfl⟩ := Option.map_eq_some_iff.mp h
    have hcarried := hw.carryOut (hw.pending s (List.mem_of_getElem? hs))
    exact hcarried.pend fun s' hs' => hcarried.pending s' (List.mem_of_mem_eraseIdx hs')
  | lose index =>
    cases h
    exact hw.pend fun s hs => hw.pending s (List.mem_of_mem_eraseIdx hs)
  | crash relay =>
    cases h
    exact hw.goto relay trivial
  | retryDlq eventId clock =>
    cases h
    exact hw.update (keepsEvent_retryDlqRow eventId clock) fun row hrow =>
      rowSafe_retryDlq (hw.rows row hrow)

end

/-- In every state that relays, producers and administrators reach together, each row is
delivered only after an acknowledged publish call that contains it, is never both delivered and
terminal, is terminal only if it is invalid, and, as long as it is valid and not delivered, is
found by every claim from some time on. -/
theorem relay_safe {relayTopics : List String} {w : RelayWorld} {as : List RelayAction}
    (hrun : Run (StepOf (RelayWorld.next relayTopics)) {} as w) (row : OutboxRow)
    (hrow : row ∈ w.rows) :
    (row.deliveredAt ≠ none → Acknowledged w.acknowledged row.toOutboxEvent) ∧
      (row.deliveredAt = none ∨ row.terminalAt = none) ∧
      (validateRelayRow relayTopics row.toOutboxEvent = none → row.terminalAt = none ∧
        (row.deliveredAt = none → ∃ time, row.availableAt = .at time ∧
          ∀ now limit, time ≤ now → w.rows.length ≤ limit →
            row ∈ claimOutboxRows w.rows now limit [])) := by
  have hsound : w.Sound relayTopics :=
    hrun.preserves (fun _ _ _ => sound_step) ⟨by simp, by simp, fun _ => trivial, by simp⟩
  have hsafe := hsound.rows row hrow
  refine ⟨hsafe.acknowledged, hsafe.exclusive, fun hvalid => ?_⟩
  have hterminal : row.terminalAt = none := by
    by_contra hne
    exact hsafe.invalid hne hvalid
  refine ⟨hterminal, fun hdelivered => ?_⟩
  obtain ⟨time, htime⟩ := hsafe.finite
  refine ⟨time, htime, fun now limit hnow hlimit => ?_⟩
  refine Claims.mem_select hrow ⟨hdelivered, hterminal, ?_⟩ (by simp) hlimit
  rw [htime]
  exact hnow

namespace Sample

def topics : List String := KafkaTopics.relayTopics {}

def bidAccepted : OutboxEvent where
  eventId := eventId
  eventType := "bid.accepted.v1"
  eventVersion := 1
  aggregateId := "1"
  payload := .object []
  topic := "bidding_events"
  correlationId := correlationId
  occurredAt := time 5

def claimAt (relay : Nat) (time : DateMs) : RelayAction :=
  .claim relay time.val time 100 (.finite 30000) []

def validating (relay : Nat) (time : DateMs) : List RelayAction :=
  [claimAt relay time, .validate relay time .done, .validate relay time .done]

/-- The first relay crashes after Kafka's answer, the publish call of the second fails,
the third delivers. -/
def relayRun : List RelayAction :=
  [.produce bidAccepted 1 (time 5)] ++ validating 0 (time 10) ++ [.publish 0 true, .crash 0] ++
    validating 1 (time 40000) ++
    [.publish 1 false, .retry 1 (time 40100) (.finite 300000) "Kafka unavailable", .carryOut 0] ++
    validating 2 (time 50000) ++ [.publish 2 true, .deliver 2 (time 50100) .done]

end Sample

/-- The row of the sample run is delivered, after its call was acknowledged. -/
theorem relay_safe_sample :
    ∃ row ∈ (Run.final (RelayWorld.next Sample.topics) {} Sample.relayRun).rows,
      row.deliveredAt = some (Sample.time 50100) ∧
      Acknowledged (Run.final (RelayWorld.next Sample.topics) {} Sample.relayRun).acknowledged
        row.toOutboxEvent := by
  have hrun : Run (StepOf (RelayWorld.next Sample.topics)) {} Sample.relayRun _ :=
    Run.to_final (by decide +kernel)
  have hdelivered : (Run.final (RelayWorld.next Sample.topics) {} Sample.relayRun).rows.any
      (fun row => row.deliveredAt = some (Sample.time 50100)) = true := by decide +kernel
  obtain ⟨row, hrow, hd⟩ := List.any_eq_true.mp hdelivered
  rw [decide_eq_true_eq] at hd
  exact ⟨row, hrow, hd, (relay_safe hrun row hrow).1 (by simp [hd])⟩

end MiracleAuction.Messaging
