import MiracleAuction.Base.Queries
import MiracleAuction.Base.Run
import MiracleAuction.Messaging.Outbox

/-!
# `email-delivery.worker.ts`: deliveries

Workers claim rows of `email_deliveries`, send the mails, and record what became of
them. A claim is exclusive until its lease ends; a completion updates its row by id
alone.
-/
namespace MiracleAuction.Messaging

inductive DeliveryStatus
  | pending | leased | sent | terminal
  deriving DecidableEq, Repr

structure ClaimedDelivery where
  id : Nat
  sourceEventId : String
  recipientKey : String
  recipientEmail : String
  templateKey : String
  subject : String
  attempts : Nat

/-- A row of `email_deliveries`. -/
structure EmailDelivery extends ClaimedDelivery where
  status : DeliveryStatus := .pending
  availableAt : Timestamp
  leaseUntil : Option DateMs := none
  lastError : Option String := none
  sentAt : Option DateMs := none
  terminalAt : Option DateMs := none

/-- `emailRetryDelayMs`. -/
def emailRetryDelayMs (attempt : Nat) : Number :=
  .finite (([30000, 120000, 600000, 1800000, 7200000].getD (min (attempt - 1) 4) 0 : Nat) : ℚ)

/-- `attempt >= maxAttempts`. -/
def Number.reachedBy (attempt : Nat) : Number → Bool
  | .nan => false
  | .infinite negative => negative
  | .finite value => value ≤ attempt

/-! ## Statements -/

/-- The rows that `claimDeliveries` looks for. -/
def EmailDelivery.Deliverable (now : Int) (row : EmailDelivery) : Prop :=
  row.terminalAt = none ∧ row.sentAt = none ∧ row.availableAt.reached now ∧
    (row.status = .pending ∨ row.status = .leased ∧ ∃ t ∈ row.leaseUntil, t.val ≤ now)

instance (now : Int) (row : EmailDelivery) : Decidable (row.Deliverable now) := by
  unfold EmailDelivery.Deliverable; infer_instance

/-- The query of `claimDeliveries`. -/
def claimDeliveries (rows : List EmailDelivery) (now : Int) (limit : Nat) (locked : List Nat) :
    List EmailDelivery :=
  Claims.select (·.id) (·.Deliverable now) rows limit locked

/-- The update of a claim. -/
def leaseDelivery (ids : List Nat) (leaseUntil : DateMs) (row : EmailDelivery) : EmailDelivery :=
  if row.id ∈ ids then
    { row with status := .leased, attempts := row.attempts + 1, leaseUntil := some leaseUntil }
  else row

/-- The event reports the failure of the delivery. -/
def ReportsFailure (id : Nat) (event : OutboxEvent) : Prop :=
  event.eventType = "email.delivery_failed.v1" ∧ event.aggregateId = toString id

instance (id : Nat) (event : OutboxEvent) : Decidable (ReportsFailure id event) := by
  unfold ReportsFailure; infer_instance

/-- What a worker records of a delivery; a failure for good comes with its event. -/
inductive Completion (id : Nat)
  | sent (sentAt : DateMs)
  | retry (availableAt : DateMs) (error : String)
  | terminal (terminalAt : DateMs) (error : String)
      (event : { event : OutboxEvent // ReportsFailure id event })

namespace Completion
variable {id : Nat}

/-- What a completion makes of the row with its id. -/
def write : Completion id → EmailDelivery → EmailDelivery
  | .sent sentAt, row =>
    { row with status := .sent, sentAt := some sentAt, leaseUntil := none, lastError := none }
  | .retry availableAt error, row =>
    { row with
      status := .pending
      leaseUntil := none
      availableAt := .at availableAt.val
      lastError := some (slice 2000 error) }
  | .terminal terminalAt error _, row =>
    { row with
      status := .terminal
      terminalAt := some terminalAt
      leaseUntil := none
      lastError := some (slice 2000 error) }

def update (c : Completion id) (row : EmailDelivery) : EmailDelivery :=
  if row.id = id then c.write row else row

/-- The event that is written in the same transaction. -/
def events : Completion id → List OutboxEvent
  | .terminal _ _ event => [event.val]
  | .sent _ | .retry _ _ => []

/-- The delivery is recorded as sent. -/
def isSent : Completion id → Bool
  | .sent _ => true
  | .retry _ _ | .terminal _ _ _ => false

end Completion

/-- The event of a delivery that has failed for good. -/
def deliveryFailed (topics : KafkaTopics) (row : ClaimedDelivery) (error : String) :
    AddOutboxEventInput where
  topic := topics.asyncDlq
  eventType := "email.delivery_failed.v1"
  aggregateId := toString row.id
  causationId := some row.sourceEventId
  payload := .object
    [("consumer", .string "email-delivery"), ("sourceEventId", .string row.sourceEventId),
      ("deliveryId", .string (toString row.id)), ("templateKey", .string row.templateKey),
      ("attempt", .number (row.attempts + 1 : Nat)), ("error", .string (slice 500 error))]

/-- `markDeliveryFailure`, up to its statements. They are not sent when a date is invalid. -/
def markDeliveryFailure (topics : KafkaTopics) (maxAttempts : Number) (row : ClaimedDelivery)
    (error : String) (clock : DateMs) (generated : Generated) : Option (Completion row.id) :=
  let attempt := row.attempts + 1
  if maxAttempts.reachedBy attempt then
    match h : addOutboxEvent topics (deliveryFailed topics row error) generated with
    | .ok event =>
      some (.terminal clock error
        ⟨event, by simp [(addOutboxEvent_ok h).2, ReportsFailure, deliveryFailed]⟩)
    | .error _ => none
  else
    (dateAfter clock (emailRetryDelayMs attempt)).map fun availableAt => .retry availableAt error

/-! ## Processes -/

/-- Where `deliverOne` stands. -/
inductive DeliveryPhase
  | sending
  | recording
  | failing (error : String)
  deriving DecidableEq, Repr

structure DeliveryTask where
  row : ClaimedDelivery
  phase : DeliveryPhase

/-- A completion, with the row that its worker has claimed. -/
structure DeliveryUpdate where
  claimed : ClaimedDelivery
  completion : Completion claimed.id

/-- The deliveries and the events about them, the tasks of all workers, and the updates that were
sent and are neither carried out nor lost. -/
structure DeliveryWorld where
  rows : List EmailDelivery := []
  outbox : List OutboxEvent := []
  tasks : List DeliveryTask := []
  pending : List DeliveryUpdate := []
  /-- The attempts at a delivery before this one are overtaken: the row was claimed again when the
  lease of the last of them had ended. -/
  overtaken : Nat → Nat := fun _ => 0

/-- The lease of the row has ended. -/
def EmailDelivery.LeaseEnded (now : Int) (row : EmailDelivery) : Prop :=
  row.status = .leased ∧ ∃ t ∈ row.leaseUntil, t.val ≤ now

instance (now : Int) (row : EmailDelivery) : Decidable (row.LeaseEnded now) := by
  unfold EmailDelivery.LeaseEnded; infer_instance

/-- The attempts that a claim overtakes. -/
def overtake (now : Int) (claimed : List EmailDelivery) (overtaken : Nat → Nat)
    (id : Nat) : Nat :=
  match claimed.find? fun row => row.id = id ∧ row.LeaseEnded now with
  | some row => row.attempts
  | none => overtaken id

namespace DeliveryWorld
variable (w : DeliveryWorld)

/-- A claim leases the rows, each to a new task. -/
def claim (now : Int) (claimed : List EmailDelivery) (leaseUntil : DateMs) : DeliveryWorld :=
  { w with
    rows := w.rows.map (leaseDelivery (claimed.map (·.id)) leaseUntil)
    tasks := w.tasks ++ claimed.map fun row => ⟨row.toClaimedDelivery, .sending⟩
    overtaken := overtake now claimed w.overtaken }

def carryOut (u : DeliveryUpdate) : DeliveryWorld :=
  { w with rows := w.rows.map u.completion.update, outbox := w.outbox ++ u.completion.events }

def send (u : DeliveryUpdate) (answer : Answer) : DeliveryWorld :=
  if answer.effective then w.carryOut u else { w with pending := u :: w.pending }

def setTask (index : Nat) (task : DeliveryTask) : DeliveryWorld :=
  { w with tasks := w.tasks.set index task }

def dropTask (index : Nat) : DeliveryWorld := { w with tasks := w.tasks.eraseIdx index }

end DeliveryWorld

inductive DeliveryAction
  | enqueue (row : ClaimedDelivery) (now : DateMs)
  | claim (now : Int) (clock : DateMs) (limit : Nat) (leaseMs : Number) (locked : List Nat)
  | mail (task : Nat) (error : Option String)
  | record (task : Nat) (clock : DateMs) (answer : Answer) (error : String)
  | fail (task : Nat) (clock : DateMs) (generated : Generated) (answer : Answer)
  | carryOut (index : Nat)
  | lose (index : Nat)
  | crash (task : Nat)

section
variable (topics : KafkaTopics) (maxAttempts : Number)

/-- The update that a step carries out. -/
def DeliveryWorld.completion (w : DeliveryWorld) : DeliveryAction → Option DeliveryUpdate
  | .record task clock answer _ =>
    match w.tasks[task]? with
    | some ⟨row, .recording⟩ => if answer.effective then some ⟨row, .sent clock⟩ else none
    | _ => none
  | .fail task clock generated answer =>
    match w.tasks[task]? with
    | some ⟨row, .failing error⟩ =>
      if answer.effective then
        (markDeliveryFailure topics maxAttempts row error clock generated).map (.mk row)
      else none
    | _ => none
  | .carryOut index => w.pending[index]?
  | _ => none

/-- One step; `none` where the action is not possible. -/
def DeliveryWorld.next (w : DeliveryWorld) : DeliveryAction → Option DeliveryWorld
  | .enqueue row now =>
    if row.id ∈ w.rows.map (·.id) then none
    else some { w with rows := w.rows ++ [{ row with attempts := 0, availableAt := .at now.val }] }
  | .claim now clock limit leaseMs locked =>
    let claimed := claimDeliveries w.rows now limit locked
    match dateAfter clock leaseMs with
    | none => some w
    | some leaseUntil =>
      some (w.claim now claimed leaseUntil)
  | .mail task error =>
    match w.tasks[task]? with
    | some ⟨row, .sending⟩ =>
      some (w.setTask task ⟨row, match error with
        | none => .recording
        | some error => .failing error⟩)
    | _ => none
  | .record task clock answer error =>
    match w.tasks[task]? with
    | some ⟨row, .recording⟩ =>
      let sent := w.send ⟨row, .sent clock⟩ answer
      some
        (if answer = .done then sent.dropTask task else sent.setTask task ⟨row, .failing error⟩)
    | _ => none
  | .fail task clock generated answer =>
    match w.tasks[task]? with
    | some ⟨row, .failing error⟩ =>
      match markDeliveryFailure topics maxAttempts row error clock generated with
      | some c => some ((w.send ⟨row, c⟩ answer).dropTask task)
      | none => some (w.dropTask task)
    | _ => none
  | .carryOut index =>
    (w.pending[index]?).map fun u => { w.carryOut u with pending := w.pending.eraseIdx index }
  | .lose index => some { w with pending := w.pending.eraseIdx index }
  | .crash task => some (w.dropTask task)

end

/-! ## Sent deliveries -/

/-- The failure events of a delivery. -/
def failures (outbox : List OutboxEvent) (id : Nat) : List OutboxEvent :=
  outbox.filter (ReportsFailure id ·)

/-- A delivery that was sent is in no other state, and its failure is reported at most
once, and not at all if it was sent. -/
def SentStays (w : DeliveryWorld) : Prop :=
  ∀ row ∈ w.rows, (row.sentAt ≠ none → row.status = .sent) ∧
    (failures w.outbox row.id).length ≤ 1 ∧
      (row.sentAt ≠ none → failures w.outbox row.id = [])

/-- The attempt is not overtaken. -/
def DeliveryWorld.Current (w : DeliveryWorld) (claimed : ClaimedDelivery) : Prop :=
  w.overtaken claimed.id ≤ claimed.attempts

instance (w : DeliveryWorld) (claimed : ClaimedDelivery) : Decidable (w.Current claimed) :=
  inferInstanceAs (Decidable (_ ≤ _))

/-- The worker gets the answer to its update that the delivery was sent. -/
def DeliveryAction.answered : DeliveryAction → Bool
  | .record _ _ answer _ => answer = .done
  | _ => false

/-- No update of an overtaken attempt is carried out, and none that a delivery was sent whose
answer is lost. -/
def DeliveryWorld.InTime (topics : KafkaTopics) (maxAttempts : Number) (w : DeliveryWorld)
    (a : DeliveryAction) : Prop :=
  ∀ u ∈ w.completion topics maxAttempts a,
    w.Current u.claimed ∧ (u.completion.isSent = true → a.answered = true)

instance (topics : KafkaTopics) (maxAttempts : Number) (w : DeliveryWorld) (a : DeliveryAction) :
    Decidable (w.InTime topics maxAttempts a) := by
  unfold DeliveryWorld.InTime; infer_instance

namespace Completion
variable {id : Nat} {c : Completion id} {row : EmailDelivery}

@[simp] theorem update_id (c : Completion id) (row : EmailDelivery) :
    (c.update row).id = row.id := by
  unfold update
  split
  · cases c <;> rfl
  · rfl

theorem map_update_id (c : Completion id) (rows : List EmailDelivery) :
    (rows.map c.update).map (·.id) = rows.map (·.id) := by
  simp [Function.comp_def]

theorem update_of_ne (h : row.id ≠ id) : c.update row = row := if_neg h

theorem update_of_eq (h : row.id = id) : c.update row = c.write row := if_pos h

@[simp] theorem update_attempts (c : Completion id) (row : EmailDelivery) :
    (c.update row).attempts = row.attempts := by
  unfold update
  split
  · cases c <;> rfl
  · rfl

/-- The events of a completion are about its own delivery. -/
theorem failures_events (c : Completion id) (other : Nat) :
    failures c.events other = if other = id then c.events else [] := by
  cases c with
  | sent => simp [failures, events]
  | retry => simp [failures, events]
  | terminal terminalAt error event =>
    obtain ⟨event, htype, haggregate⟩ := event
    have hreports : ReportsFailure other event ↔ other = id := by
      constructor
      · intro h
        exact Nat.repr_injective (h.2.symm.trans haggregate)
      · rintro rfl
        exact ⟨htype, haggregate⟩
    simp only [failures, events, List.filter_cons, List.filter_nil, decide_eq_true_eq, hreports]

end Completion

theorem failures_append (outbox events : List OutboxEvent) (id : Nat) :
    failures (outbox ++ events) id = failures outbox id ++ failures events id :=
  List.filter_append ..

/-! ## Attempts under way -/

/-- The attempts that may still complete: those of the tasks, and those whose failure was sent. -/
def underWay (tasks : List DeliveryTask) (pending : List DeliveryUpdate) : List ClaimedDelivery :=
  tasks.map (·.row) ++ (pending.filter fun u => !u.completion.isSent).map (·.claimed)

/-- The invariant of the deliveries: a row is leased to the one attempt that is under way and not
overtaken. -/
structure DeliveryWorld.Sound (w : DeliveryWorld) : Prop where
  unique : (w.rows.map (·.id)).Nodup
  sent : ∀ row ∈ w.rows, row.sentAt ≠ none → row.status = .sent ∧ row.terminalAt = none
  terminal : ∀ row ∈ w.rows, row.terminalAt ≠ none → row.status = .terminal
  reported : ∀ row ∈ w.rows, (failures w.outbox row.id).length = row.terminalAt.toList.length
  unreported : ∀ id ∉ w.rows.map (·.id), failures w.outbox id = []
  counted : ∀ row ∈ w.rows, w.overtaken row.id ≤ row.attempts
  uncounted : ∀ id ∉ w.rows.map (·.id), w.overtaken id = 0
  leased : ∀ claimed ∈ underWay w.tasks w.pending, w.Current claimed →
    ∃ row ∈ w.rows, row.id = claimed.id ∧ row.status = .leased ∧
      row.attempts = claimed.attempts + 1
  single : ∀ id, (underWay w.tasks w.pending).countP
    (fun claimed => claimed.id = id ∧ w.Current claimed) ≤ 1

section
variable {topics : KafkaTopics} {maxAttempts : Number} {w w' : DeliveryWorld} {a : DeliveryAction}
  {u : DeliveryUpdate} {tasks : List DeliveryTask} {pending : List DeliveryUpdate} {index : Nat}
  {row : ClaimedDelivery} {phase next : DeliveryPhase}

/-- A task that ends leaves the other attempts. -/
theorem underWay_eraseIdx (htask : tasks[index]? = some ⟨row, phase⟩)
    (pending : List DeliveryUpdate) :
    (row :: underWay (tasks.eraseIdx index) pending).Perm (underWay tasks pending) := by
  obtain ⟨hlt, heq⟩ := List.getElem?_eq_some_iff.mp htask
  have hperm := (List.getElem_cons_eraseIdx_perm hlt).map (·.row)
  rw [heq] at hperm
  exact hperm.append_right _

/-- A task that goes on is the same attempt. -/
theorem underWay_set (htask : tasks[index]? = some ⟨row, phase⟩)
    (pending : List DeliveryUpdate) :
    underWay (tasks.set index ⟨row, next⟩) pending = underWay tasks pending := by
  obtain ⟨hlt, heq⟩ := List.getElem?_eq_some_iff.mp htask
  have hmap : index < (tasks.map (·.row)).length := by simpa using hlt
  have hself := List.set_getElem_self hmap
  rw [List.getElem_map, heq] at hself
  unfold underWay
  rw [List.map_set]
  exact congrArg (· ++ _) hself

/-- So does an update that is carried out, or lost. -/
theorem underWay_carryOut (hu : pending[index]? = some u) (hfailed : u.completion.isSent = false)
    (tasks : List DeliveryTask) :
    (u.claimed :: underWay tasks (pending.eraseIdx index)).Perm (underWay tasks pending) := by
  obtain ⟨hlt, rfl⟩ := List.getElem?_eq_some_iff.mp hu
  have hperm := ((List.getElem_cons_eraseIdx_perm hlt).filter
    fun u => !u.completion.isSent).map (·.claimed)
  rw [List.filter_cons_of_pos (by simp [hfailed]), List.map_cons] at hperm
  exact List.perm_middle.symm.trans (hperm.append_left _)

theorem underWay_lose (index : Nat) (tasks : List DeliveryTask) (pending : List DeliveryUpdate) :
    (underWay tasks (pending.eraseIdx index)).Sublist (underWay tasks pending) :=
  ((((List.eraseIdx_sublist pending index).filter _).map _).append_left _)

theorem underWay_crash (index : Nat) (tasks : List DeliveryTask) (pending : List DeliveryUpdate) :
    (underWay (tasks.eraseIdx index) pending).Sublist (underWay tasks pending) :=
  ((List.eraseIdx_sublist tasks index).map _).append_right _

namespace DeliveryWorld.Sound

theorem sentStays (h : w.Sound) : SentStays w := by
  intro row hrow
  have hcount := h.reported row hrow
  refine ⟨fun hsent => (h.sent row hrow hsent).1, ?_, fun hsent => ?_⟩
  · rw [hcount]
    cases row.terminalAt <;> simp
  · rw [(h.sent row hrow hsent).2] at hcount
    exact List.eq_nil_of_length_eq_zero hcount

/-- A leased row is neither sent nor failed. -/
theorem unsettled (h : w.Sound) {row : EmailDelivery} (hrow : row ∈ w.rows)
    (hleased : row.status = .leased) : row.sentAt = none ∧ row.terminalAt = none := by
  constructor
  · by_contra hne
    rw [(h.sent row hrow hne).1] at hleased
    cases hleased
  · by_contra hne
    rw [h.terminal row hrow hne] at hleased
    cases hleased

/-- Fewer attempts under way keep the invariant. -/
theorem frame (h : w.Sound) (hway : (underWay tasks pending).Subperm (underWay w.tasks w.pending)) :
    DeliveryWorld.Sound { w with tasks := tasks, pending := pending } where
  unique := h.unique
  sent := h.sent
  terminal := h.terminal
  reported := h.reported
  unreported := h.unreported
  counted := h.counted
  uncounted := h.uncounted
  leased := fun claimed hmem hcurrent => h.leased claimed (hway.subset hmem) hcurrent
  single := fun id => (hway.countP_le _).trans (h.single id)

/-- An attempt that is not overtaken completes a row that is leased to it, and ends. -/
theorem complete (h : w.Sound) (hcurrent : w.Current u.claimed)
    (hway : (u.claimed :: underWay tasks pending).Perm (underWay w.tasks w.pending)) :
    DeliveryWorld.Sound { w.carryOut u with tasks := tasks, pending := pending } := by
  obtain ⟨leased, hleased, hid, hstatus, hattempts⟩ :=
    h.leased u.claimed (hway.subset List.mem_cons_self) hcurrent
  obtain ⟨hunsent, hunfailed⟩ := h.unsettled hleased hstatus
  have hrow : ∀ row ∈ w.rows, row.id = u.claimed.id → row = leased := fun row hmem heq =>
    List.inj_on_of_nodup_map h.unique hmem hleased (heq.trans hid.symm)
  refine ⟨?_, fun row hmem hsent => ?_, fun row hmem hterminal => ?_, fun row hmem => ?_,
    fun id hnot => ?_, fun row hmem => ?_, fun id hnot => ?_, fun claimed hmem hnow => ?_,
    fun id => ?_⟩
  · rw [DeliveryWorld.carryOut, Completion.map_update_id]
    exact h.unique
  · obtain ⟨old, hold, rfl⟩ := List.mem_map.mp hmem
    by_cases heq : old.id = u.claimed.id
    · obtain rfl := hrow old hold heq
      rw [Completion.update_of_eq heq] at hsent ⊢
      cases hc : u.completion with
      | sent => exact ⟨rfl, hunfailed⟩
      | retry => rw [hc] at hsent; exact absurd hunsent hsent
      | terminal => rw [hc] at hsent; exact absurd hunsent hsent
    · rw [Completion.update_of_ne heq] at hsent ⊢
      exact h.sent old hold hsent
  · obtain ⟨old, hold, rfl⟩ := List.mem_map.mp hmem
    by_cases heq : old.id = u.claimed.id
    · obtain rfl := hrow old hold heq
      rw [Completion.update_of_eq heq] at hterminal ⊢
      cases hc : u.completion with
      | sent => rw [hc] at hterminal; exact absurd hunfailed hterminal
      | retry => rw [hc] at hterminal; exact absurd hunfailed hterminal
      | terminal => rfl
    · rw [Completion.update_of_ne heq] at hterminal ⊢
      exact h.terminal old hold hterminal
  · obtain ⟨old, hold, rfl⟩ := List.mem_map.mp hmem
    have hcount := h.reported old hold
    rw [Completion.update_id]
    simp only [DeliveryWorld.carryOut, failures_append, Completion.failures_events,
      List.length_append]
    by_cases heq : old.id = u.claimed.id
    · obtain rfl := hrow old hold heq
      rw [Completion.update_of_eq heq, if_pos heq, hcount]
      cases u.completion with
      | sent => simp [Completion.events, Completion.write]
      | retry => simp [Completion.events, Completion.write]
      | terminal => simp [Completion.events, Completion.write, hunfailed]
    · rw [Completion.update_of_ne heq, if_neg heq, hcount]
      simp
  · rw [DeliveryWorld.carryOut, Completion.map_update_id] at hnot
    simp only [DeliveryWorld.carryOut, failures_append, Completion.failures_events]
    rw [h.unreported id hnot, if_neg]
    · rfl
    · rintro rfl
      exact hnot (List.mem_map.mpr ⟨leased, hleased, hid⟩)
  · obtain ⟨old, hold, rfl⟩ := List.mem_map.mp hmem
    rw [Completion.update_id, Completion.update_attempts]
    exact h.counted old hold
  · rw [DeliveryWorld.carryOut, Completion.map_update_id] at hnot
    exact h.uncounted id hnot
  · obtain ⟨row, hmem', heq, hfields⟩ :=
      h.leased claimed (hway.subset (List.mem_cons_of_mem _ hmem)) hnow
    have hother : claimed.id ≠ u.claimed.id := by
      -- Of each delivery only one attempt is not overtaken.
      intro hsame
      have hone := h.single u.claimed.id
      rw [← hway.countP_eq, List.countP_cons_of_pos (by simpa using hcurrent)] at hone
      have hpos : 0 < (underWay tasks pending).countP
          fun claimed => claimed.id = u.claimed.id ∧ w.Current claimed :=
        List.countP_pos_iff.mpr ⟨claimed, hmem, decide_eq_true ⟨hsame, hnow⟩⟩
      omega
    refine ⟨row, List.mem_map.mpr ⟨row, hmem', ?_⟩, heq, hfields⟩
    exact Completion.update_of_ne (heq ▸ hother)
  · have hone := h.single id
    rw [← hway.countP_eq, List.countP_cons] at hone
    exact Nat.le_of_add_right_le hone

end DeliveryWorld.Sound

end

/-! ### A claim -/

section
variable {now : Int} {claimed : List EmailDelivery} {overtaken : Nat → Nat} {row : EmailDelivery}
  {leaseUntil : DateMs} {ids : List Nat}

theorem overtake_of_claimed (hunique : (claimed.map (·.id)).Nodup) (hrow : row ∈ claimed)
    (hended : row.LeaseEnded now) : overtake now claimed overtaken row.id = row.attempts := by
  unfold overtake
  split
  · rename_i found hfound
    have hmatch := List.find?_some hfound
    simp only [decide_eq_true_eq] at hmatch
    have hmem := List.mem_of_find?_eq_some hfound
    rw [List.inj_on_of_nodup_map hunique hmem hrow hmatch.1]
  · rename_i hnone
    have := List.find?_eq_none.mp hnone row hrow
    simp [hended] at this

/-- A claim overtakes the attempts at a row that it takes, or none. -/
theorem overtake_cases (now : Int) (claimed : List EmailDelivery) (overtaken : Nat → Nat)
    (id : Nat) : overtake now claimed overtaken id = overtaken id ∨
      ∃ row ∈ claimed, row.id = id ∧ overtake now claimed overtaken id = row.attempts := by
  unfold overtake
  split
  · rename_i found hfound
    have hmatch := List.find?_some hfound
    simp only [decide_eq_true_eq] at hmatch
    exact .inr ⟨found, List.mem_of_find?_eq_some hfound, hmatch.1, rfl⟩
  · exact .inl rfl

@[simp] theorem leaseDelivery_id : (leaseDelivery ids leaseUntil row).id = row.id := by
  unfold leaseDelivery
  split <;> rfl

@[simp] theorem leaseDelivery_terminalAt :
    (leaseDelivery ids leaseUntil row).terminalAt = row.terminalAt := by
  unfold leaseDelivery
  split <;> rfl

theorem le_leaseDelivery_attempts :
    row.attempts ≤ (leaseDelivery ids leaseUntil row).attempts := by
  unfold leaseDelivery
  split
  · exact Nat.le_succ _
  · exact Nat.le_refl _

theorem map_leaseDelivery_id (rows : List EmailDelivery) :
    (rows.map (leaseDelivery ids leaseUntil)).map (·.id) = rows.map (·.id) := by
  simp [Function.comp_def]

theorem underWay_claim (claimed : List EmailDelivery) (tasks : List DeliveryTask)
    (pending : List DeliveryUpdate) :
    (claimed.map (·.toClaimedDelivery) ++ underWay tasks pending).Perm
      (underWay (tasks ++ claimed.map fun row => ⟨row.toClaimedDelivery, .sending⟩)
        pending) := by
  unfold underWay
  rw [List.map_append, List.map_map, ← List.append_assoc]
  exact List.perm_append_comm.append_right _

namespace DeliveryWorld.Sound
variable {w : DeliveryWorld}

theorem overtaken_le (h : w.Sound) (hclaimed : ∀ row ∈ claimed, row ∈ w.rows) (id : Nat) :
    w.overtaken id ≤ overtake now claimed w.overtaken id := by
  obtain heq | ⟨row, hrow, rfl, heq⟩ := overtake_cases now claimed w.overtaken id
  · exact heq.ge
  · exact heq ▸ h.counted row (hclaimed row hrow)

/-- An attempt that a claim does not overtake is at a row that it does not take. -/
theorem not_claimed (h : w.Sound) (hunique : (claimed.map (·.id)).Nodup)
    (hclaimed : ∀ row ∈ claimed, row ∈ w.rows ∧ row.Deliverable now) {c : ClaimedDelivery}
    (hc : c ∈ underWay w.tasks w.pending)
    (hcurrent : (w.claim now claimed leaseUntil).Current c) :
    w.Current c ∧ c.id ∉ claimed.map (·.id) := by
  have hbefore : w.Current c :=
    (h.overtaken_le (fun row hrow => (hclaimed row hrow).1) c.id).trans hcurrent
  refine ⟨hbefore, fun hmem => ?_⟩
  obtain ⟨row, hrow, hid⟩ := List.mem_map.mp hmem
  obtain ⟨leased, hleased, hid', hstatus, hattempts⟩ := h.leased c hc hbefore
  obtain ⟨hmem, -, -, -, hpending | hended⟩ := hclaimed row hrow
  · obtain rfl := List.inj_on_of_nodup_map h.unique hmem hleased (hid.trans hid'.symm)
    rw [hpending] at hstatus
    cases hstatus
  · obtain rfl := List.inj_on_of_nodup_map h.unique hmem hleased (hid.trans hid'.symm)
    have hover : overtake now claimed w.overtaken c.id = row.attempts :=
      hid ▸ overtake_of_claimed hunique hrow hended
    have hle : overtake now claimed w.overtaken c.id ≤ c.attempts := hcurrent
    omega

/-- A claim leases its rows to new attempts, and overtakes the earlier ones. -/
theorem claim (h : w.Sound) (hunique : (claimed.map (·.id)).Nodup)
    (hclaimed : ∀ row ∈ claimed, row ∈ w.rows ∧ row.Deliverable now) :
    (w.claim now claimed leaseUntil).Sound := by
  have htaken : ∀ row ∈ w.rows, row.id ∈ claimed.map (·.id) → row ∈ claimed := by
    intro row hrow hmem
    obtain ⟨other, hother, hid⟩ := List.mem_map.mp hmem
    obtain rfl := List.inj_on_of_nodup_map h.unique (hclaimed other hother).1 hrow hid
    exact hother
  have hway := underWay_claim claimed w.tasks w.pending
  refine ⟨?_, fun row hmem hsent => ?_, fun row hmem hterminal => ?_, fun row hmem => ?_,
    fun id hnot => ?_, fun row hmem => ?_, fun id hnot => ?_, fun c hmem hnow => ?_, fun id => ?_⟩
  · rw [DeliveryWorld.claim, map_leaseDelivery_id]
    exact h.unique
  · obtain ⟨old, hold, rfl⟩ := List.mem_map.mp hmem
    by_cases hin : old.id ∈ claimed.map (·.id)
    · rw [leaseDelivery, if_pos hin] at hsent
      exact absurd (hclaimed old (htaken old hold hin)).2.2.1 hsent
    · rw [leaseDelivery, if_neg hin] at hsent ⊢
      exact h.sent old hold hsent
  · obtain ⟨old, hold, rfl⟩ := List.mem_map.mp hmem
    by_cases hin : old.id ∈ claimed.map (·.id)
    · rw [leaseDelivery_terminalAt] at hterminal
      exact absurd (hclaimed old (htaken old hold hin)).2.1 hterminal
    · rw [leaseDelivery, if_neg hin] at hterminal ⊢
      exact h.terminal old hold hterminal
  · obtain ⟨old, hold, rfl⟩ := List.mem_map.mp hmem
    rw [leaseDelivery_id, leaseDelivery_terminalAt]
    exact h.reported old hold
  · rw [DeliveryWorld.claim, map_leaseDelivery_id] at hnot
    exact h.unreported id hnot
  · obtain ⟨old, hold, rfl⟩ := List.mem_map.mp hmem
    rw [leaseDelivery_id]
    refine le_trans ?_ le_leaseDelivery_attempts
    obtain heq | ⟨row, hrow, hid, heq⟩ := overtake_cases now claimed w.overtaken old.id
    · exact heq.trans_le (h.counted old hold)
    · rw [List.inj_on_of_nodup_map h.unique (hclaimed row hrow).1 hold hid] at heq
      exact heq.le
  · rw [DeliveryWorld.claim, map_leaseDelivery_id] at hnot
    obtain heq | ⟨row, hrow, rfl, -⟩ := overtake_cases now claimed w.overtaken id
    · exact heq.trans (h.uncounted id hnot)
    · exact absurd (List.mem_map_of_mem (hclaimed row hrow).1) hnot
  · obtain hnew | hold := List.mem_append.mp (hway.symm.subset hmem)
    · obtain ⟨row, hrow, rfl⟩ := List.mem_map.mp hnew
      refine ⟨_, List.mem_map_of_mem (hclaimed row hrow).1, leaseDelivery_id, ?_⟩
      rw [leaseDelivery, if_pos (List.mem_map_of_mem hrow)]
      exact ⟨rfl, rfl⟩
    · obtain ⟨hbefore, hnot⟩ := h.not_claimed hunique hclaimed hold hnow
      obtain ⟨row, hrow, hid, hfields⟩ := h.leased c hold hbefore
      refine ⟨row, List.mem_map.mpr ⟨row, hrow, ?_⟩, hid, hfields⟩
      rw [leaseDelivery, if_neg (hid ▸ hnot)]
  · have hcount := hway.countP_eq fun c => c.id = id ∧ (w.claim now claimed leaseUntil).Current c
    rw [List.countP_append] at hcount
    refine hcount.symm.trans_le ?_
    by_cases hin : id ∈ claimed.map (·.id)
    · -- The attempts at a claimed row are overtaken, and it is claimed once.
      have hold : (underWay w.tasks w.pending).countP
          (fun c => c.id = id ∧ (w.claim now claimed leaseUntil).Current c) = 0 := by
        refine List.countP_eq_zero.mpr fun c hc hthis => ?_
        simp only [decide_eq_true_eq] at hthis
        exact (h.not_claimed hunique hclaimed hc hthis.2).2 (hthis.1 ▸ hin)
      have honce := List.nodup_iff_count_le_one.mp hunique id
      rw [List.count, List.countP_map] at honce
      rw [hold, Nat.add_zero, List.countP_map]
      refine le_trans (List.countP_mono_left fun row _ hthis => ?_) honce
      simp only [Function.comp_apply, decide_eq_true_eq] at hthis
      exact beq_iff_eq.mpr hthis.1
    · have hnew : (claimed.map (·.toClaimedDelivery)).countP
          (fun c => c.id = id ∧ (w.claim now claimed leaseUntil).Current c) = 0 := by
        refine List.countP_eq_zero.mpr fun c hc hthis => ?_
        simp only [decide_eq_true_eq] at hthis
        obtain ⟨row, hrow, rfl⟩ := List.mem_map.mp hc
        exact hin (hthis.1 ▸ List.mem_map_of_mem hrow)
      rw [hnew, Nat.zero_add]
      refine le_trans (List.countP_mono_left fun c hc hthis => ?_) (h.single id)
      simp only [decide_eq_true_eq] at hthis ⊢
      exact ⟨hthis.1, (h.not_claimed hunique hclaimed hc hthis.2).1⟩

/-- A new row is pending; no attempt is at it. -/
theorem enqueue (h : w.Sound) {row : EmailDelivery} (hnew : row.id ∉ w.rows.map (·.id))
    (hsent : row.sentAt = none) (hterminal : row.terminalAt = none) :
    DeliveryWorld.Sound { w with rows := w.rows ++ [row] } := by
  refine ⟨?_, fun r hr hs => ?_, fun r hr ht => ?_, fun r hr => ?_, fun id hnot => ?_,
    fun r hr => ?_, fun id hnot => ?_, fun c hc hnow => ?_, h.single⟩
  · rw [List.map_append, List.nodup_append]
    refine ⟨h.unique, List.nodup_singleton _, fun a ha b hb heq => ?_⟩
    obtain rfl := List.mem_singleton.mp hb
    exact hnew (heq.subst ha)
  · obtain hold | hlast := List.mem_append.mp hr
    · exact h.sent r hold hs
    · obtain rfl := List.mem_singleton.mp hlast
      exact absurd hsent hs
  · obtain hold | hlast := List.mem_append.mp hr
    · exact h.terminal r hold ht
    · obtain rfl := List.mem_singleton.mp hlast
      exact absurd hterminal ht
  · obtain hold | hlast := List.mem_append.mp hr
    · exact h.reported r hold
    · obtain rfl := List.mem_singleton.mp hlast
      rw [h.unreported _ hnew, hterminal]
      rfl
  · rw [List.map_append, List.mem_append, not_or] at hnot
    exact h.unreported id hnot.1
  · obtain hold | hlast := List.mem_append.mp hr
    · exact h.counted r hold
    · obtain rfl := List.mem_singleton.mp hlast
      exact (h.uncounted _ hnew).trans_le (Nat.zero_le _)
  · rw [List.map_append, List.mem_append, not_or] at hnot
    exact h.uncounted id hnot.1
  · obtain ⟨r, hr, hfields⟩ := h.leased c hc hnow
    exact ⟨r, List.mem_append_left _ hr, hfields⟩

end DeliveryWorld.Sound

end

/-! ## Runs -/

section
variable {topics : KafkaTopics} {maxAttempts : Number} {w w' : DeliveryWorld} {a : DeliveryAction}

namespace DeliveryWorld.Sound

/-- The update of a failure is carried out, or it waits; its task ends. -/
theorem send (h : w.Sound) {u : DeliveryUpdate} {answer : Answer} {index : Nat}
    {phase : DeliveryPhase} (htask : w.tasks[index]? = some ⟨u.claimed, phase⟩)
    (hcurrent : answer.effective = true → w.Current u.claimed)
    (hfailed : u.completion.isSent = false) : ((w.send u answer).dropTask index).Sound := by
  have hway := underWay_eraseIdx htask w.pending
  unfold DeliveryWorld.send
  split
  · rename_i heffective
    exact h.complete (hcurrent heffective) hway
  · refine h.frame (List.Perm.subperm (List.Perm.trans ?_ hway))
    unfold underWay
    rw [List.filter_cons_of_pos (by simp [hfailed]), List.map_cons]
    exact List.perm_middle

end DeliveryWorld.Sound

/-- The update of a failure does not record the delivery as sent. -/
theorem isSent_markDeliveryFailure {row : ClaimedDelivery} {error : String} {clock : DateMs}
    {generated : Generated} {c : Completion row.id}
    (h : markDeliveryFailure topics maxAttempts row error clock generated = some c) :
    c.isSent = false := by
  simp only [markDeliveryFailure] at h
  split at h
  · split at h
    · obtain rfl := Option.some.inj h
      rfl
    · cases h
  · obtain ⟨availableAt, -, rfl⟩ := Option.map_eq_some_iff.mp h
    rfl

/-- Steps in time keep the invariant. -/
theorem DeliveryWorld.Sound.step (h : w.Sound) (hok : w.InTime topics maxAttempts a)
    (hstep : StepOf (DeliveryWorld.next topics maxAttempts) w a w') : w'.Sound := by
  unfold StepOf at hstep
  cases a with
  | enqueue row now =>
    simp only [DeliveryWorld.next] at hstep
    split at hstep
    · cases hstep
    · rename_i hnew
      obtain rfl := Option.some.inj hstep
      exact h.enqueue hnew rfl rfl
  | claim now clock limit leaseMs locked =>
    simp only [DeliveryWorld.next] at hstep
    split at hstep
    · obtain rfl := Option.some.inj hstep
      exact h
    · obtain rfl := Option.some.inj hstep
      exact h.claim (Claims.nodup_select h.unique) fun _ hrow => Claims.mem_of_mem_select hrow
  | mail task error =>
    simp only [DeliveryWorld.next] at hstep
    split at hstep
    · rename_i row htask
      obtain rfl := Option.some.inj hstep
      exact h.frame (underWay_set htask w.pending ▸ List.Subperm.refl _)
    · cases hstep
  | record task clock answer error =>
    simp only [DeliveryWorld.next] at hstep
    split at hstep
    · rename_i row htask
      obtain rfl := Option.some.inj hstep
      have hok' : answer.effective = true → w.Current row ∧ answer = .done := by
        intro heffective
        have hthis := hok ⟨row, .sent clock⟩
          (by simp [DeliveryWorld.completion, htask, heffective])
        exact ⟨hthis.1, of_decide_eq_true (hthis.2 rfl)⟩
      cases answer with
      | done =>
        exact h.complete (u := ⟨row, .sent clock⟩) (hok' rfl).1
          (underWay_eraseIdx htask w.pending)
      | replyLost => exact absurd (hok' rfl).2 (by decide)
      | givenUp =>
        -- The update may still be carried out, but not in time.
        refine h.frame (List.Perm.subperm (.of_eq ?_))
        exact underWay_set htask w.pending
    · cases hstep
  | fail task clock generated answer =>
    simp only [DeliveryWorld.next] at hstep
    split at hstep
    · rename_i row error htask
      split at hstep
      · rename_i c hc
        obtain rfl := Option.some.inj hstep
        refine h.send htask (fun heffective => ?_) (isSent_markDeliveryFailure hc)
        exact (hok ⟨row, c⟩ (by simp [DeliveryWorld.completion, htask, heffective, hc])).1
      · obtain rfl := Option.some.inj hstep
        exact h.frame (underWay_crash task w.tasks w.pending).subperm
    · cases hstep
  | carryOut index =>
    obtain ⟨u, hu, rfl⟩ := Option.map_eq_some_iff.mp hstep
    obtain ⟨hcurrent, hanswered⟩ := hok u hu
    refine h.complete hcurrent (underWay_carryOut hu ?_ w.tasks)
    exact Bool.eq_false_iff.mpr fun hsent => Bool.false_ne_true (hanswered hsent)
  | lose index =>
    obtain rfl := Option.some.inj hstep
    exact h.frame (underWay_lose index w.tasks w.pending).subperm
  | crash task =>
    obtain rfl := Option.some.inj hstep
    exact h.frame (underWay_crash task w.tasks w.pending).subperm

theorem DeliveryWorld.Sound.initial : DeliveryWorld.Sound {} where
  unique := List.nodup_nil
  sent := by rintro row ⟨⟩
  terminal := by rintro row ⟨⟩
  reported := by rintro row ⟨⟩
  unreported := fun _ _ => rfl
  counted := by rintro row ⟨⟩
  uncounted := fun _ _ => rfl
  leased := by rintro claimed ⟨⟩
  single := fun _ => Nat.zero_le _

/-- Where no update comes too late, a delivery that was sent stays sent and is not reported as
failed, whatever fails, crashes or is claimed again. -/
theorem sent_stays_sent {as : List DeliveryAction}
    (h : Run (Guarded (DeliveryWorld.InTime topics maxAttempts)
      (StepOf (DeliveryWorld.next topics maxAttempts))) {} as w) :
    Run.Always (DeliveryWorld.next topics maxAttempts) SentStays {} as :=
  Run.always_of_guarded (fun _ => DeliveryWorld.Sound.sentStays)
    (fun _ _ _ hstep hok hsound => hsound.step hok hstep) h .initial

end

namespace Sample

def winnerMail : ClaimedDelivery where
  id := 1
  sourceEventId := eventId
  recipientKey := "user:2"
  recipientEmail := "two@example.com"
  templateKey := "auction-winner"
  subject := "Congratulations!"
  attempts := 0

def loserMail : ClaimedDelivery :=
  { winnerMail with
    id := 2, recipientKey := "user:3", recipientEmail := "three@example.com"
    templateKey := "auction-loser" }

def claimMails (ms : Fin 10000000) : DeliveryAction :=
  .claim (time ms).val (time ms) 2 (.finite 300000) []

def generatedAt (ms : Fin 10000000) : Generated := ⟨firstId, secondId, time ms⟩

/-- The winner's mail fails, and the worker stops with the loser's in hand. Another worker claims
both, the loser's after its lease has ended, and sends them; the first recovers in the meantime,
but its worker of the loser's mail is gone. -/
def secondAttempt : List DeliveryAction :=
  [.enqueue winnerMail (time 0), .enqueue loserMail (time 0), claimMails 10,
    .mail 0 (some "timeout"), .fail 0 (time 20) (generatedAt 20) .givenUp, .carryOut 0,
    claimMails 60000, .mail 1 none, .record 1 (time 60010) .done "", claimMails 400000,
    .mail 0 none, .crash 0, .mail 0 none, .record 0 (time 400010) .done ""]

/-- The first attempt is overtaken, and fails after the second one has succeeded. -/
def overtakenAttempt : List DeliveryAction :=
  [.enqueue winnerMail (time 0), claimMails 10, claimMails 400000, .mail 1 none,
    .record 1 (time 400010) .done "", .mail 0 (some "timeout"),
    .fail 0 (time 400020) (generatedAt 400020) .done]

end Sample

theorem sent_stays_sent_sample :
    Run.Always (DeliveryWorld.next {} (.finite 5)) SentStays {} Sample.secondAttempt ∧
      ((Run.final (DeliveryWorld.next {} (.finite 5)) {} Sample.secondAttempt).rows.map
        fun row => (row.status, row.attempts)) = [(.sent, 2), (.sent, 2)] :=
  ⟨sent_stays_sent (Run.to_final_guarded (by decide +kernel)), by decide +kernel⟩

/-- The mail is sent, and pending again. -/
theorem sentStays_overtaken : ¬ ∀ (topics : KafkaTopics) (maxAttempts : Number)
    (as : List DeliveryAction) (w : DeliveryWorld),
    Run (StepOf (DeliveryWorld.next topics maxAttempts)) {} as w →
    Run.Always (DeliveryWorld.next topics maxAttempts) SentStays {} as := by
  intro h
  have hrun : Run (StepOf (DeliveryWorld.next {} (.finite 5))) {} Sample.overtakenAttempt _ :=
    Run.to_final (by decide +kernel)
  have hstays := h _ _ _ _ hrun _ [] _ (List.append_nil _).symm hrun
  have hrows : (Run.final (DeliveryWorld.next {} (.finite 5)) {} Sample.overtakenAttempt).rows.any
      (fun row => row.sentAt ≠ none ∧ row.status ≠ .sent) = true := by decide +kernel
  obtain ⟨row, hrow, hfacts⟩ := List.any_eq_true.mp hrows
  rw [decide_eq_true_eq] at hfacts
  exact hfacts.2 ((hstays row hrow).1 hfacts.1)

end MiracleAuction.Messaging
