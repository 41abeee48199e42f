import MiracleAuction.Messaging.Dashboard
import MiracleAuction.Messaging.Failures

/-!
# `eachBatch` of the dashboard and of the notifications

Batches of any number of consumer processes run over the same tables. A commit covers
all messages of its batch, as long as no call that returned early left its message
undone, and no other batch makes an outcome undone that a batch relies on.
-/
namespace MiracleAuction.Messaging

inductive Consumer
  | dashboard | notification
  deriving DecidableEq, Repr

inductive HandlerPhase
  | dashboard (phase : DashboardPhase)
  | notification (phase : ConsumerPhase)

/-- The environment of the consumers. -/
structure ConsumerConfig where
  topics : KafkaTopics := {}
  groupId : Consumer → String
  retryLimit : Consumer → Nat
  batchConcurrency : Consumer → Number
  sha256 : String → String

/-- `Math.floor(requested) || 1`, as a bound for so many items. -/
def Number.workersFor (items : Nat) : Number → Nat
  | .nan => 1
  | .infinite true => 0
  | .infinite false => items
  | .finite x => x.floor.toNat

/-! ## Messages -/

/-- The event of the message needs no notification. -/
def IncomingMessage.unneeded (message : IncomingMessage) : Bool :=
  match message.event with
  | .ok event => !requiresNotification event.eventType
  | .error _ => false

section
variable (sha256 : String → String)

/-- The id under which a receipt of the message is written. -/
def IncomingMessage.eventId (message : IncomingMessage) : String :=
  match message.event with
  | .ok event => event.eventId
  | .error _ => syntheticEventId sha256 message.topic message.partition message.offset

/-- The receipt that the message gets, if any. -/
def receiptKey (consumer : Consumer) (message : IncomingMessage) : Option String :=
  match consumer with
  | .dashboard => if message.value.isSome then some (message.eventId sha256) else none
  | .notification => if message.unneeded then none else some (message.eventId sha256)

/-- A receipt of the consumer is processed or terminal. -/
def settled (consumer : Consumer) (db : WorkerDb) (eventId : String) : Bool :=
  match consumer with
  | .dashboard => db.dashboardSettled eventId
  | .notification => db.settled eventId

/-- A processed or terminal receipt, or no need of a notification. -/
def Durable (consumer : Consumer) (db : WorkerDb) (message : IncomingMessage) : Prop :=
  match consumer with
  | .dashboard =>
    message.value.isSome = true ∧ db.dashboardSettled (message.eventId sha256) = true
  | .notification =>
    message.unneeded = true ∨ db.settled (message.eventId sha256) = true

instance (consumer : Consumer) (db : WorkerDb) (message : IncomingMessage) :
    Decidable (Durable sha256 consumer db message) := by
  unfold Durable; split <;> infer_instance

end

/-! ## Handlers -/

def Consumer.first : Consumer → HandlerPhase
  | .dashboard => .dashboard .arrived
  | .notification => .notification .arrived

/-- A step of the mapper that `eachBatch` hands to `mapWithConcurrency`. -/
def handle (config : ConsumerConfig) (message : IncomingMessage) (db : WorkerDb) :
    HandlerPhase → StepInput → Option (WorkerDb × Progress HandlerPhase String)
  | .dashboard phase, input =>
    (processMessage config.topics (config.groupId .dashboard) (config.retryLimit .dashboard)
      config.sha256 message db phase input).map fun (db, outcome) => (db, outcome.map .dashboard)
  | .notification phase, input =>
    (processKafkaMessage config.topics (config.groupId .notification)
      (config.retryLimit .notification) config.sha256 message db.toNotificationDb phase input).map
      fun (tables, outcome) => ({ db with toNotificationDb := tables }, outcome.map .notification)

/-! ## Batches -/

structure BatchRun where
  consumer : Consumer
  pool : Pool IncomingMessage HandlerPhase

/-- The tables, the batches of all processes, and the offsets that are committed. -/
structure BatchWorld where
  db : WorkerDb := {}
  runs : List BatchRun := []
  offsets : Consumer → String → Nat → Option Nat := fun _ _ _ => none

/-- `fail` ends a batch without a commit: a crash, a call that has thrown, a refresh of
the dashboard or a commit that fails. -/
inductive BatchAction
  | eachBatch (consumer : Consumer) (messages : List IncomingMessage) (stop : Bool)
  | take (run worker : Nat)
  | step (run worker : Nat) (input : StepInput)
  | commit (run : Nat)
  | fail (run : Nat)

namespace BatchWorld
variable (config : ConsumerConfig) (w : BatchWorld)

/-- The batches beside one of them. -/
def others (run : Nat) : List BatchRun := w.runs.take run ++ w.runs.drop (run + 1)

/-- The batches with those that take the place of one of them. -/
def replace (db : WorkerDb) (run : Nat) (runs : List BatchRun) : BatchWorld :=
  { w with db, runs := w.runs.take run ++ runs ++ w.runs.drop (run + 1) }

/-- The batch and the call that a worker is in. -/
def call (run worker : Nat) : Option (BatchRun × IncomingMessage × HandlerPhase) := do
  let batch ← w.runs[run]?
  match batch.pool.worker worker with
  | some (.busy message phase) => some (batch, message, phase)
  | _ => none

/-- One step; `none` where the action is not possible. -/
def next : BatchAction → Option BatchWorld
  | .eachBatch consumer messages stop =>
    if consumer = .dashboard ∧ stop then some w
    else
      let workers := (config.batchConcurrency consumer).workersFor messages.length
      some { w with runs := w.runs ++ [⟨consumer, Pool.start workers messages⟩] }
  | .take run worker => do
    let batch ← w.runs[run]?
    let pool ← batch.pool.take batch.consumer.first worker
    return w.replace w.db run [{ batch with pool }]
  | .step run worker input => do
    let (batch, message, phase) ← w.call run worker
    let (db, outcome) ← handle config message w.db phase input
    let pool := batch.pool.setWorker worker (.after message outcome)
    return w.replace db run [{ batch with pool }]
  | .commit run => do
    let batch ← w.runs[run]?
    guard batch.pool.complete
    let closed := w.replace w.db run []
    match batch.pool.items.getLast? with
    | none => return closed
    | some last =>
      return { closed with
        offsets := fun consumer topic partition =>
          if consumer = batch.consumer ∧ topic = last.topic ∧ partition = last.partition then
            some (last.offset + 1)
          else w.offsets consumer topic partition }
  | .fail run => some (w.replace w.db run [])

/-- A commit covers durable outcomes only. -/
def CommitsDurable : BatchAction → Prop
  | .commit run => ∀ batch ∈ w.runs[run]?, ∀ last ∈ batch.pool.items.getLast?,
    ∀ message ∈ batch.pool.items, message.offset ≤ last.offset →
      Durable config.sha256 batch.consumer w.db message
  | _ => True

instance (a : BatchAction) : Decidable (w.CommitsDurable config a) := by
  unfold CommitsDurable; split <;> infer_instance

end BatchWorld

/-! ## When no message is skipped -/

/-- The call ends because the worker stops, before it has read its message. -/
def HandlerPhase.stopsAt : HandlerPhase → StepInput → Bool
  | .dashboard .arrived, .flags stop _ => stop
  | .notification .arrived, .flags stop _ => stop
  | _, _ => false

/-- The receipt that a step sets to retrying. -/
def HandlerPhase.retries : HandlerPhase → StepInput → Option String
  | .dashboard (.attempt event), .write answer _ _ _ =>
    if answer.effective then some event.eventId else none
  | .notification (.failing event _), .write answer _ _ _ =>
    if answer.effective then some event.eventId else none
  | _, _ => none

/-- The batch is done with a message of the event. -/
def BatchRun.ReliesOn (sha256 : String → String) (eventId : String) (batch : BatchRun) : Prop :=
  batch.pool.hasFailed = false ∧
    (∃ message ∈ batch.pool.taken, receiptKey sha256 batch.consumer message = some eventId) ∧
    batch.pool.handles (receiptKey sha256 batch.consumer) (some eventId) = false

instance (sha256 : String → String) (eventId : String) (batch : BatchRun) :
    Decidable (batch.ReliesOn sha256 eventId) := by
  unfold BatchRun.ReliesOn; infer_instance

/-- A call returns early only for a message with a durable outcome, and no settled receipt
is set to retrying on which another batch of the consumer relies. -/
def BatchWorld.Kept (config : ConsumerConfig) (w : BatchWorld) : BatchAction → Prop
  | .step run worker input => ∀ call ∈ w.call run worker,
    (call.2.2.stopsAt input = true → Durable config.sha256 call.1.consumer w.db call.2.1) ∧
    ∀ eventId ∈ call.2.2.retries input, settled call.1.consumer w.db eventId = true →
      ∀ other ∈ w.others run, other.consumer = call.1.consumer →
        ¬ other.ReliesOn config.sha256 eventId
  | _ => True

instance (config : ConsumerConfig) (w : BatchWorld) (a : BatchAction) :
    Decidable (w.Kept config a) := by
  unfold BatchWorld.Kept; split <;> infer_instance

/-! ## Durable outcomes -/

section
variable {sha256 : String → String} {consumer : Consumer} {message other : IncomingMessage}
  {db db' : WorkerDb} {eventId : String}

/-- A message with a receipt has a durable outcome when the receipt is settled. -/
theorem durable_iff_of_key (h : receiptKey sha256 consumer message = some eventId) :
    Durable sha256 consumer db message ↔ settled consumer db eventId = true := by
  cases consumer with
  | dashboard =>
    simp only [receiptKey] at h
    split at h
    · rename_i hvalue
      cases h
      simp [Durable, settled, hvalue]
    · cases h
  | notification =>
    simp only [receiptKey] at h
    split at h
    · cases h
    · rename_i hneeded
      cases h
      simp [Durable, settled, hneeded]

/-- Without a receipt the consumer decides. -/
theorem durable_iff_of_key_none (h : receiptKey sha256 consumer message = none) :
    Durable sha256 consumer db message ↔ consumer = .notification := by
  cases consumer with
  | dashboard =>
    have hvalue : ¬ message.value.isSome = true := by
      intro hvalue
      simp [receiptKey, hvalue] at h
    simp [Durable, hvalue]
  | notification =>
    have hunneeded : message.unneeded = true := by
      by_contra hneeded
      simp [receiptKey, hneeded] at h
    simp [Durable, hunneeded]

/-- Messages of one receipt are done together. -/
theorem durable_congr (h : receiptKey sha256 consumer other = receiptKey sha256 consumer message)
    (hd : Durable sha256 consumer db message) : Durable sha256 consumer db other := by
  cases hkey : receiptKey sha256 consumer message with
  | none =>
    exact (durable_iff_of_key_none (h.trans hkey)).mpr ((durable_iff_of_key_none hkey).mp hd)
  | some eventId => exact (durable_iff_of_key (h.trans hkey)).mpr ((durable_iff_of_key hkey).mp hd)

end

/-! ## Steps of a handler -/

/-- The event that a call has read. -/
def DashboardPhase.receiptId : DashboardPhase → Option String
  | .arrived => none
  | .existing event | .attempt event | .waiting event => some event.eventId
  | .loop event _ | .complete event _ => some event.eventId
  | .failing event _ _ | .terminal event _ _ => some event.eventId

def ConsumerPhase.receiptId : ConsumerPhase → Option String
  | .arrived => none
  | .enqueue event _ | .failing event _ | .terminal event _ _ => some event.eventId

/-- The call is one of the consumer, about the receipt of the message. -/
def HandlerPhase.Serves (sha256 : String → String) (consumer : Consumer)
    (message : IncomingMessage) : HandlerPhase → Prop
  | .dashboard phase => consumer = .dashboard ∧
    ∀ eventId ∈ phase.receiptId, receiptKey sha256 .dashboard message = some eventId
  | .notification phase => consumer = .notification ∧
    ∀ eventId ∈ phase.receiptId, receiptKey sha256 .notification message = some eventId

/-- What a step of a call does: where it returns its message is done, unless it stops, and
only the receipt that it sets to retrying is no longer settled. -/
structure HandlerSpec (sha256 : String → String) (consumer : Consumer) (message : IncomingMessage)
    (db : WorkerDb) (stops : Bool) (retries : Option String) (db' : WorkerDb)
    (outcome : Progress HandlerPhase String) : Prop where
  serves : ∀ phase, outcome = .proceed phase → phase.Serves sha256 consumer message
  returned : outcome = .returned → (stops = true → Durable sha256 consumer db message) →
    Durable sha256 consumer db' message
  keeps : ∀ eventId, settled consumer db eventId = true → retries ≠ some eventId →
    settled consumer db' eventId = true
  retried : ∀ eventId ∈ retries, receiptKey sha256 consumer message = some eventId
  frame : ∀ other eventId, other ≠ consumer →
    settled other db' eventId = settled other db eventId

section
variable {topics : KafkaTopics} {groupId : String} {retryLimit : Nat} {sha256 : String → String}
  {message : IncomingMessage} {db db' : WorkerDb}

/-- A step that writes nothing. -/
theorem HandlerSpec.same {consumer : Consumer} {stops : Bool}
    {outcome : Progress HandlerPhase String}
    (hserves : ∀ phase, outcome = .proceed phase → phase.Serves sha256 consumer message)
    (hreturned : outcome = .returned → stops = false → Durable sha256 consumer db message) :
    HandlerSpec sha256 consumer message db stops none db outcome where
  serves := hserves
  returned := by
    intro hout hstops
    cases stops with
    | true => exact hstops rfl
    | false => exact hreturned hout rfl
  keeps := fun _ h _ => h
  retried := by simp
  frame := fun _ _ _ => rfl

theorem HandlerSpec.throws {consumer : Consumer} {stops : Bool} {error : String} :
    HandlerSpec sha256 consumer message db stops none db (.threw error) :=
  .same (by simp) (by simp)

theorem HandlerSpec.proceeds {consumer : Consumer} {stops : Bool} {phase : HandlerPhase}
    (h : phase.Serves sha256 consumer message) :
    HandlerSpec sha256 consumer message db stops none db (.proceed phase) := by
  refine .same (fun next hnext => ?_) (by simp)
  cases hnext
  exact h

theorem dashboardSettled_of_receipts {eventId id : String} {receipt : DashboardReceipt}
    (h : db'.dashboardReceipts = (db.setDashboardReceipt eventId receipt).dashboardReceipts) :
    db'.dashboardSettled id = if id = eventId then decide receipt.Settled
      else db.dashboardSettled id := by
  unfold WorkerDb.dashboardSettled
  rw [h]
  by_cases hid : id = eventId
  · simp [WorkerDb.setDashboardReceipt, hid]
  · simp [WorkerDb.setDashboardReceipt, hid]

/-- A step that writes the receipt of the message. -/
theorem HandlerSpec.write {consumer : Consumer} {stops : Bool} {retries : Option String}
    {eventId : String} {b : Bool} {outcome : Progress HandlerPhase String}
    (hsettled : ∀ id, settled consumer db' id = if id = eventId then b
      else settled consumer db id)
    (hframe : ∀ other id, other ≠ consumer → settled other db' id = settled other db id)
    (hkey : receiptKey sha256 consumer message = some eventId)
    (hserves : ∀ phase, outcome = .proceed phase → phase.Serves sha256 consumer message)
    (hreturned : outcome = .returned → b = true) (hretried : ∀ id ∈ retries, id = eventId)
    (hkept : settled consumer db eventId = true → b = true ∨ retries = some eventId) :
    HandlerSpec sha256 consumer message db stops retries db' outcome where
  serves := hserves
  returned := by
    intro hout _
    rw [durable_iff_of_key hkey, hsettled, if_pos rfl]
    exact hreturned hout
  keeps := by
    intro id hid hne
    rw [hsettled]
    by_cases heq : id = eventId
    · subst heq
      rw [if_pos rfl]
      exact (hkept hid).resolve_right hne
    · rw [if_neg heq]
      exact hid
  retried := by
    intro id hid
    rw [hretried id hid]
    exact hkey
  frame := hframe

theorem HandlerSpec.dashboardWrite {stops : Bool} {retries : Option String} {eventId : String}
    {receipt : DashboardReceipt} {outcome : Progress HandlerPhase String}
    (hreceipts : db'.dashboardReceipts = (db.setDashboardReceipt eventId receipt).dashboardReceipts)
    (htables : db'.receipts = db.receipts)
    (hkey : receiptKey sha256 .dashboard message = some eventId)
    (hserves : ∀ phase, outcome = .proceed phase → phase.Serves sha256 .dashboard message)
    (hreturned : outcome = .returned → receipt.Settled)
    (hretried : ∀ id ∈ retries, id = eventId)
    (hkept : db.dashboardSettled eventId = true → receipt.Settled ∨ retries = some eventId) :
    HandlerSpec sha256 .dashboard message db stops retries db' outcome := by
  refine .write (fun id => dashboardSettled_of_receipts hreceipts) (fun other id hother => ?_) hkey
    hserves (by simpa using hreturned) hretried (by simpa [settled] using hkept)
  cases other with
  | dashboard => exact absurd rfl hother
  | notification => simp only [settled, NotificationDb.settled, htables]

theorem HandlerSpec.notificationWrite {stops : Bool} {retries : Option String} {eventId : String}
    {receipt : NotificationReceipt} {tables : NotificationDb}
    {outcome : Progress HandlerPhase String}
    (hreceipts : tables.receipts = Function.update db.receipts eventId (some receipt))
    (hkey : receiptKey sha256 .notification message = some eventId)
    (hserves : ∀ phase, outcome = .proceed phase → phase.Serves sha256 .notification message)
    (hreturned : outcome = .returned → receipt.Settled)
    (hretried : ∀ id ∈ retries, id = eventId)
    (hkept : db.settled eventId = true → receipt.Settled ∨ retries = some eventId) :
    HandlerSpec sha256 .notification message db stops retries
      { db with toNotificationDb := tables } outcome := by
  refine .write (b := decide receipt.Settled) (fun id => ?_) (fun other id hother => ?_) hkey
    hserves (by simpa using hreturned) hretried (by simpa [settled] using hkept)
  · by_cases hid : id = eventId
    · simp [settled, NotificationDb.settled, hreceipts, hid]
    · simp [settled, NotificationDb.settled, hreceipts, hid]
  · cases other with
    | dashboard => rfl
    | notification => exact absurd rfl hother

/-- The first step of a call that does not stop. -/
theorem receiveDashboard_serves {now : DateMs} {phase : DashboardPhase}
    (h : receiveDashboard retryLimit sha256 message now = .proceed phase) :
    (HandlerPhase.dashboard phase).Serves sha256 .dashboard message := by
  refine ⟨rfl, ?_⟩
  unfold receiveDashboard at h
  split at h
  · cases h
  · rename_i value hvalue
    split at h
    · rename_i error herror
      cases h
      simp [DashboardPhase.receiptId, receiptKey, hvalue, IncomingMessage.eventId, herror,
        DashboardEvent.eventId, invalidDashboardEvent]
    · rename_i event hevent
      cases h
      simp [DashboardPhase.receiptId, receiptKey, hvalue, IncomingMessage.eventId, hevent,
        DashboardEvent.eventId]

theorem receiveDashboard_ne_returned {now : DateMs} :
    receiveDashboard retryLimit sha256 message now ≠ .returned := by
  unfold receiveDashboard
  split
  · simp
  · split <;> simp

/-- What a failure for good has written. -/
theorem recordDashboardTerminal_ok {event : DashboardEvent} {attempts : Nat} {error : String}
    {now : DateMs} {generated : Generated}
    (h : recordDashboardTerminal topics groupId event message attempts error now generated db =
      .ok db') :
    db'.receipts = db.receipts ∧ db'.dashboardReceipts = (db.upsertDashboardReceipt event.eventId
      (terminalDashboardReceipt event message attempts error now)).dashboardReceipts := by
  unfold recordDashboardTerminal at h
  dsimp only at h
  split at h
  · cases h
    exact ⟨rfl, rfl⟩
  · obtain ⟨failure, _, h⟩ := Except.bind_eq_ok h
    cases h
    exact ⟨rfl, rfl⟩

theorem completedReceipt_settled {event : DashboardEvent} {attempts : Nat} {now : DateMs}
    (old : Option DashboardReceipt) :
    (completedReceipt event message attempts now old).Settled := by
  cases old <;> exact .inl rfl

theorem terminalDashboardReceipt_settled {event : DashboardEvent} {attempts : Nat} {error : String}
    {now : DateMs} (old : Option DashboardReceipt) :
    (terminalDashboardReceipt event message attempts error now old).Settled := by
  cases old <;> exact .inr rfl

/-- What a step of `processMessage` does. -/
theorem processMessage_spec {phase : DashboardPhase} {input : StepInput}
    {outcome : Progress DashboardPhase String}
    (h : processMessage topics groupId retryLimit sha256 message db phase input =
      some (db', outcome))
    (hserves : (HandlerPhase.dashboard phase).Serves sha256 .dashboard message) :
    HandlerSpec sha256 .dashboard message db ((HandlerPhase.dashboard phase).stopsAt input)
      ((HandlerPhase.dashboard phase).retries input) db' (outcome.map .dashboard) := by
  have hkey := hserves.2
  unfold processMessage at h
  split at h
  · rename_i stop now
    cases h
    cases stop with
    | true => exact .same (by simp [Progress.map]) (by simp [HandlerPhase.stopsAt])
    | false =>
      change HandlerSpec _ _ _ _ _ _ _
        ((receiveDashboard retryLimit sha256 message now).map HandlerPhase.dashboard)
      cases hreceive : receiveDashboard retryLimit sha256 message now with
      | proceed first => exact .proceeds (receiveDashboard_serves hreceive)
      | returned => exact absurd hreceive receiveDashboard_ne_returned
      | threw => exact .throws
  · rename_i event
    cases h
    split
    · rename_i hsettled
      exact .same (by simp [Progress.map]) fun _ _ => (durable_iff_of_key (hkey _ rfl)).mpr hsettled
    · exact .proceeds hserves
  · cases h
    exact .throws
  · rename_i event answer failure _ _
    cases h
    cases answer with
    | givenUp => exact .throws
    | done =>
      refine .dashboardWrite rfl rfl (hkey _ rfl) (fun phase hphase => ?_) (by simp [Progress.map])
        (by simp [HandlerPhase.retries, Answer.effective]) (fun _ => .inr rfl)
      cases hphase
      exact hserves
    | replyLost =>
      exact .dashboardWrite rfl rfl (hkey _ rfl) (by simp [Progress.map]) (by simp [Progress.map])
        (by simp [HandlerPhase.retries, Answer.effective]) fun _ => .inr rfl
  · rename_i event attempts stopping _
    cases h
    cases stopping with
    | true => exact .throws
    | false => exact .proceeds hserves
  · rename_i event attempts answer failure now _
    cases h
    cases answer with
    | givenUp => exact .proceeds hserves
    | done =>
      exact .dashboardWrite rfl rfl (hkey _ rfl) (by simp [Progress.map])
        (fun _ => completedReceipt_settled _) (by simp [HandlerPhase.retries])
        fun _ => .inl (completedReceipt_settled _)
    | replyLost =>
      refine .dashboardWrite rfl rfl (hkey _ rfl) (fun phase hphase => ?_) (by simp [Progress.map])
        (by simp [HandlerPhase.retries]) fun _ => .inl (completedReceipt_settled _)
      cases hphase
      exact hserves
  · rename_i event attempts error answer failure _ _
    split at h
    · cases h
      exact .throws
    · rename_i receipt hreceipt
      have hsettled : db.dashboardSettled event.eventId = true → receipt.Settled := by
        intro hsettled
        simpa [WorkerDb.dashboardSettled, hreceipt] using hsettled
      have hmoves : (HandlerPhase.dashboard (.waiting event)).Serves sha256 .dashboard message :=
        hserves
      have hends : (HandlerPhase.dashboard (.terminal event attempts error)).Serves sha256
        .dashboard message := hserves
      cases h
      cases answer with
      | givenUp => exact .throws
      | done =>
        refine .dashboardWrite rfl rfl (hkey _ rfl) (fun phase hphase => ?_) (fun hout => ?_)
          (by simp [HandlerPhase.retries]) fun h => .inl (hsettled h)
        · split at hphase
          · cases hphase
          · split at hphase
            · cases hphase
              exact hends
            · cases hphase
              exact hmoves
        · split at hout
          · cases hout
          · split at hout <;> cases hout
      | replyLost =>
        exact .dashboardWrite rfl rfl (hkey _ rfl) (by simp [Progress.map]) (by simp [Progress.map])
          (by simp [HandlerPhase.retries]) fun h => .inl (hsettled h)
  · cases h
    exact .proceeds hserves
  · cases h
    exact .throws
  · rename_i event attempts error answer failure now generated
    split at h
    · cases h
      exact .throws
    · rename_i recorded hrecorded
      obtain ⟨htables, hreceipts⟩ := recordDashboardTerminal_ok hrecorded
      cases h
      cases answer with
      | givenUp => exact .throws
      | done =>
        exact .dashboardWrite hreceipts htables (hkey _ rfl) (by simp [Progress.map])
          (fun _ => terminalDashboardReceipt_settled _) (by simp [HandlerPhase.retries])
          fun _ => .inl (terminalDashboardReceipt_settled _)
      | replyLost =>
        exact .dashboardWrite hreceipts htables (hkey _ rfl) (by simp [Progress.map])
          (fun _ => terminalDashboardReceipt_settled _) (by simp [HandlerPhase.retries])
          fun _ => .inl (terminalDashboardReceipt_settled _)
  · cases h

/-- `enqueueNotificationEvent` returns after a settled receipt or with a processed one. -/
theorem enqueueNotificationEvent_cases {event : ReceivedEvent} {metadata : Metadata}
    {tables tables' : NotificationDb} {phase : EnqueuePhase} {input : StepInput}
    {outcome : Progress EnqueuePhase String}
    (h : enqueueNotificationEvent event metadata tables phase input = some (tables', outcome)) :
    tables' = tables ∧ (outcome = .returned → tables.settled event.eventId = true) ∨
      ∃ receipt : NotificationReceipt, receipt.status = .processed ∧
        tables'.receipts = Function.update tables.receipts event.eventId (some receipt) := by
  unfold enqueueNotificationEvent at h
  split at h
  · cases h
    refine .inl ⟨rfl, fun hout => ?_⟩
    split at hout
    · assumption
    · cases hout
  · cases h
    exact .inl ⟨rfl, by simp⟩
  · cases h
    exact .inl ⟨rfl, by simp⟩
  · split at h
    · cases h
      exact .inl ⟨rfl, by simp⟩
    · cases h
      exact .inl ⟨rfl, by simp⟩
  · cases h
    refine .inl ⟨rfl, fun hout => ?_⟩
    split at hout
    · assumption
    · cases hout
  · cases h
    exact .inl ⟨rfl, by simp⟩
  · rename_i drafts answer failure now _
    split at h
    · cases h
      exact .inl ⟨rfl, by simp⟩
    · rename_i enqueued henqueue
      cases h
      cases answer with
      | givenUp => exact .inl ⟨rfl, by simp⟩
      | done | replyLost =>
        exact .inr ⟨_, processedReceipt_status _, (NotificationDb.enqueue_ok henqueue).1⟩
  · cases h

/-- The first step of a call that does not stop. -/
theorem receive_serves {now : DateMs} {phase : ConsumerPhase}
    (h : receive retryLimit sha256 message now = .proceed phase) :
    (HandlerPhase.notification phase).Serves sha256 .notification message := by
  refine ⟨rfl, ?_⟩
  unfold receive at h
  split at h
  · rename_i error herror
    cases h
    simp [ConsumerPhase.receiptId, receiptKey, IncomingMessage.unneeded, IncomingMessage.eventId,
      herror, invalidEvent]
  · rename_i event hevent
    split at h
    · rename_i hname
      cases h
      simp [ConsumerPhase.receiptId, receiptKey, IncomingMessage.unneeded, IncomingMessage.eventId,
        hevent, hname]
    · cases h

theorem receive_returned {now : DateMs} (h : receive retryLimit sha256 message now = .returned) :
    message.unneeded = true := by
  unfold receive at h
  split at h
  · cases h
  · rename_i event hevent
    split at h
    · cases h
    · rename_i hname
      simpa [IncomingMessage.unneeded, hevent] using hname

/-- What a step of `processKafkaMessage` does. -/
theorem processKafkaMessage_spec {tables : NotificationDb} {phase : ConsumerPhase}
    {input : StepInput} {outcome : Progress ConsumerPhase String}
    (h : processKafkaMessage topics groupId retryLimit sha256 message db.toNotificationDb phase
      input = some (tables, outcome))
    (hserves : (HandlerPhase.notification phase).Serves sha256 .notification message) :
    HandlerSpec sha256 .notification message db ((HandlerPhase.notification phase).stopsAt input)
      ((HandlerPhase.notification phase).retries input) { db with toNotificationDb := tables }
      (outcome.map .notification) := by
  have hkey := hserves.2
  unfold processKafkaMessage at h
  split at h
  · rename_i stop now
    cases h
    cases stop with
    | true => exact .same (by simp [Progress.map]) (by simp [HandlerPhase.stopsAt])
    | false =>
      change HandlerSpec _ _ _ _ _ _ _
        ((receive retryLimit sha256 message now).map HandlerPhase.notification)
      cases hreceive : receive retryLimit sha256 message now with
      | proceed first => exact .proceeds (receive_serves hreceive)
      | returned => exact .same (by simp [Progress.map]) fun _ _ => .inl (receive_returned hreceive)
      | threw => exact .throws
  · rename_i event phase
    obtain ⟨⟨enqueued, result⟩, henqueue, hresult⟩ := Option.map_eq_some_iff.mp h
    have hnext : ∀ next, outcome.map HandlerPhase.notification = .proceed next →
        next.Serves sha256 .notification message := by
      intro next hnext
      cases result <;> cases hresult <;> cases hnext <;> exact hserves
    have htables : enqueued = tables := by cases result <;> cases hresult <;> rfl
    subst htables
    obtain ⟨rfl, hreturned⟩ | ⟨receipt, hprocessed, hreceipts⟩ :=
      enqueueNotificationEvent_cases henqueue
    · refine .same hnext fun hout _ => (durable_iff_of_key (hkey _ rfl)).mpr (hreturned ?_)
      cases result <;> cases hresult <;> cases hout
      rfl
    · exact .notificationWrite hreceipts (hkey _ rfl) hnext (fun _ => .inl hprocessed)
        (by simp [HandlerPhase.retries]) fun _ => .inl (.inl hprocessed)
  · rename_i event error answer failure _ _
    cases h
    cases answer with
    | givenUp => exact .throws
    | done =>
      refine .notificationWrite rfl (hkey _ rfl) (fun next hnext => ?_) (fun hout => ?_)
        (by simp [HandlerPhase.retries, Answer.effective]) fun _ => .inr rfl
      · split at hnext
        · cases hnext
        · split at hnext
          · cases hnext
            exact hserves
          · cases hnext
      · split at hout
        · cases hout
        · split at hout <;> cases hout
    | replyLost =>
      exact .notificationWrite rfl (hkey _ rfl) (by simp [Progress.map]) (by simp [Progress.map])
        (by simp [HandlerPhase.retries, Answer.effective]) fun _ => .inr rfl
  · rename_i event attempts error answer failure now generated
    split at h
    · cases h
      exact .throws
    · rename_i reported hreported
      obtain ⟨row, rfl, _⟩ := terminalReceipt_ok hreported
      cases h
      cases answer with
      | givenUp => exact .throws
      | done =>
        exact .notificationWrite rfl (hkey _ rfl) (by simp [Progress.map])
          (fun _ => .inr (failedReceipt_status _)) (by simp [HandlerPhase.retries])
          fun _ => .inl (.inr (failedReceipt_status _))
      | replyLost =>
        exact .notificationWrite rfl (hkey _ rfl) (by simp [Progress.map])
          (fun _ => .inr (failedReceipt_status _)) (by simp [HandlerPhase.retries])
          fun _ => .inl (.inr (failedReceipt_status _))
  · cases h

/-- What a step of a handler does. -/
theorem handle_spec {config : ConsumerConfig} {consumer : Consumer} {phase : HandlerPhase}
    {input : StepInput} {outcome : Progress HandlerPhase String}
    (h : handle config message db phase input = some (db', outcome))
    (hserves : phase.Serves config.sha256 consumer message) :
    HandlerSpec config.sha256 consumer message db (phase.stopsAt input) (phase.retries input) db'
      outcome := by
  cases phase with
  | dashboard phase =>
    obtain rfl := hserves.1
    obtain ⟨⟨written, result⟩, hstep, hresult⟩ := Option.map_eq_some_iff.mp h
    cases hresult
    exact processMessage_spec hstep hserves
  | notification phase =>
    obtain rfl := hserves.1
    obtain ⟨⟨written, result⟩, hstep, hresult⟩ := Option.map_eq_some_iff.mp h
    cases hresult
    exact processKafkaMessage_spec hstep hserves

end

/-! ## Runs -/

/-- Each message that the batch has taken is done or in a call, unless the batch has failed. -/
def BatchRun.Sound (sha256 : String → String) (db : WorkerDb) (batch : BatchRun) : Prop :=
  Pool.Covered (fun message phase => phase.Serves sha256 batch.consumer message)
    (receiptKey sha256 batch.consumer) (Durable sha256 batch.consumer db) batch.pool

def BatchWorld.Sound (sha256 : String → String) (w : BatchWorld) : Prop :=
  ∀ batch ∈ w.runs, batch.Sound sha256 w.db

section
variable {sha256 : String → String} {config : ConsumerConfig} {w w' : BatchWorld} {db' : WorkerDb}
  {batch : BatchRun} {run worker : Nat} {message : IncomingMessage} {phase : HandlerPhase}

theorem Consumer.first_serves (consumer : Consumer) (message : IncomingMessage) :
    consumer.first.Serves sha256 consumer message := by
  cases consumer <;> exact ⟨rfl, by simp [DashboardPhase.receiptId, ConsumerPhase.receiptId]⟩

namespace BatchWorld

theorem mem_runs_of_mem_others (h : batch ∈ w.others run) : batch ∈ w.runs := by
  obtain h | h := List.mem_append.mp h
  · exact List.mem_of_mem_take h
  · exact List.mem_of_mem_drop h

theorem mem_replace {runs : List BatchRun} :
    batch ∈ (w.replace db' run runs).runs ↔ batch ∈ w.others run ∨ batch ∈ runs := by
  simp only [replace, others, List.mem_append]
  tauto

theorem call_eq_some (h : w.call run worker = some (batch, message, phase)) :
    w.runs[run]? = some batch ∧ batch.pool.worker worker = some (.busy message phase) := by
  unfold call at h
  obtain ⟨found, hrun, h⟩ := Option.bind_eq_some_iff.mp h
  split at h
  · rename_i hworker
    cases h
    exact ⟨hrun, hworker⟩
  · cases h

/-- A batch that is put in the place of a sound one, over the same tables. -/
theorem Sound.replace {runs : List BatchRun} (hs : w.Sound sha256)
    (hruns : ∀ batch ∈ runs, batch.Sound sha256 w.db) :
    (w.replace w.db run runs).Sound sha256 := by
  intro batch hmem
  obtain hother | hnew := mem_replace.mp hmem
  · exact hs batch (mem_runs_of_mem_others hother)
  · exact hruns batch hnew

/-- A step of a handler keeps all batches sound. -/
theorem Sound.step {input : StepInput} {outcome : Progress HandlerPhase String}
    (hs : w.Sound config.sha256) (hok : w.Kept config (.step run worker input))
    (hcall : w.call run worker = some (batch, message, phase))
    (h : handle config message w.db phase input = some (db', outcome)) :
    (w.replace db' run [⟨batch.consumer,
      batch.pool.setWorker worker (.after message outcome)⟩]).Sound config.sha256 := by
  obtain ⟨hearly, hretry⟩ := hok _ hcall
  obtain ⟨hrun, hworker⟩ := call_eq_some hcall
  have hbatch := hs batch (List.mem_of_getElem? hrun)
  have hspec := handle_spec h (hbatch.fits worker message phase hworker)
  intro other hmem
  obtain hother | hnew := mem_replace.mp hmem
  · refine (hs other (mem_runs_of_mem_others hother)).frame
      fun hfailed m htaken hhandled hdone => ?_
    cases hkey : receiptKey config.sha256 other.consumer m with
    | none => exact (durable_iff_of_key_none hkey).mpr ((durable_iff_of_key_none hkey).mp hdone)
    | some eventId =>
      rw [durable_iff_of_key hkey] at hdone ⊢
      by_cases hconsumer : other.consumer = batch.consumer
      · rw [hconsumer] at hdone ⊢
        refine hspec.keeps eventId hdone fun hretries => ?_
        rw [hkey] at hhandled
        exact hretry eventId hretries hdone other hother hconsumer
          ⟨hfailed, ⟨m, htaken, hkey⟩, hhandled⟩
      · change settled other.consumer db' eventId = true
        rw [hspec.frame other.consumer eventId hconsumer]
        exact hdone
  · obtain rfl := List.mem_singleton.mp hnew
    refine Pool.Covered.step hbatch hworker hspec.serves
      (fun hout m hkey => durable_congr hkey (hspec.returned hout hearly))
      fun m hkey hdone => ?_
    · cases hother : receiptKey config.sha256 batch.consumer m with
      | none =>
        exact (durable_iff_of_key_none hother).mpr ((durable_iff_of_key_none hother).mp hdone)
      | some eventId =>
        rw [durable_iff_of_key hother] at hdone ⊢
        refine hspec.keeps eventId hdone fun hretries => hkey ?_
        rw [hother, hspec.retried eventId hretries]

/-- So does every action. -/
theorem Sound.next {a : BatchAction} (hs : w.Sound config.sha256) (hok : w.Kept config a)
    (h : StepOf (BatchWorld.next config) w a w') : w'.Sound config.sha256 := by
  unfold StepOf at h
  cases a with
  | eachBatch consumer messages stop =>
    simp only [BatchWorld.next] at h
    split at h
    · cases h
      exact hs
    · cases h
      intro batch hmem
      obtain hold | hnew := List.mem_append.mp hmem
      · exact hs batch hold
      · obtain rfl := List.mem_singleton.mp hnew
        exact .start
  | take run worker =>
    obtain ⟨batch, hrun, h⟩ := Option.bind_eq_some_iff.mp h
    obtain ⟨pool, htake, h⟩ := Option.bind_eq_some_iff.mp h
    cases h
    refine hs.replace fun other hmem => ?_
    obtain rfl := List.mem_singleton.mp hmem
    exact (hs batch (List.mem_of_getElem? hrun)).take batch.consumer.first_serves htake
  | step run worker input =>
    obtain ⟨⟨batch, message, phase⟩, hcall, h⟩ := Option.bind_eq_some_iff.mp h
    obtain ⟨⟨db, outcome⟩, hhandle, h⟩ := Option.bind_eq_some_iff.mp h
    cases h
    exact hs.step hok hcall hhandle
  | commit run =>
    have hclosed : (w.replace w.db run []).Sound config.sha256 := hs.replace (by simp)
    obtain ⟨batch, _, h⟩ := Option.bind_eq_some_iff.mp h
    obtain ⟨_, _, h⟩ := Option.bind_eq_some_iff.mp h
    dsimp only at h
    split at h <;> cases h <;> exact hclosed
  | fail run =>
    cases h
    exact hs.replace (by simp)

end BatchWorld

end

/-- In a run of batches of both consumers in which every step is kept, a commit covers
messages with durable outcomes only. -/
theorem commits_durable {config : ConsumerConfig} {as : List BatchAction} {a : BatchAction}
    {w w' : BatchWorld}
    (hrun : Run (Guarded (BatchWorld.Kept config) (StepOf (BatchWorld.next config))) {} as w)
    (hstep : StepOf (BatchWorld.next config) w a w') : w.CommitsDurable config a := by
  have hs : w.Sound config.sha256 :=
    hrun.preserves (fun _ _ _ h hs => hs.next h.1 h.2) (by intro batch hmem; cases hmem)
  cases a with
  | commit run =>
    intro batch hbatch last _ message hmessage _
    obtain ⟨found, hfound, hstep⟩ := Option.bind_eq_some_iff.mp hstep
    obtain rfl : batch = found := Option.some.inj (hbatch.symm.trans hfound)
    obtain ⟨_, hcomplete, _⟩ := Option.bind_eq_some_iff.mp hstep
    refine (hs batch (List.mem_of_getElem? hbatch)).complete ?_ message hmessage
    by_contra hnot
    simp [hnot] at hcomplete
  | _ => trivial

namespace Sample

def consumerConfig : ConsumerConfig where
  groupId
    | .dashboard => "dashboard-analytics-v1"
    | .notification => "notification-intake-v1"
  retryLimit := fun _ => 5
  batchConcurrency := fun _ => .finite 8
  sha256 := sha256

/-- Two workers handle a batch of two messages, of which one cannot be parsed. -/
def wholeBatch : List BatchAction :=
  [.eachBatch .notification [closingMessage, brokenMessage] false, .take 0 0, .take 0 1,
    .step 0 0 (.flags false (time 0)), .step 0 1 (.flags false (time 0)),
    .step 0 1 (written 10 firstId), .step 0 0 (.query none),
    .step 0 0 (.rows (.ok notificationTables)), .step 0 0 (.query none),
    .step 0 0 (written 20 secondId), .take 0 0, .take 0 1]

/-- The worker stops before it has read the only message of its batch. -/
def stoppedBatch : List BatchAction :=
  [.eachBatch .notification [closingMessage] false, .take 0 0, .step 0 0 (.flags true (time 0)),
    .take 0 0]

end Sample

theorem commits_durable_sample :
    (Run.final (BatchWorld.next Sample.consumerConfig) {} Sample.wholeBatch).CommitsDurable
      Sample.consumerConfig (.commit 0) := by
  obtain ⟨w', hstep⟩ := Option.isSome_iff_exists.mp (show (BatchWorld.next Sample.consumerConfig
    (Run.final (BatchWorld.next Sample.consumerConfig) {} Sample.wholeBatch) (.commit 0)).isSome
    from by decide +kernel)
  exact commits_durable (Run.to_final_guarded (by decide +kernel)) hstep

/-- The message has no receipt, and its offset is committed. -/
theorem commits_durable_stopped : ¬ ∀ (config : ConsumerConfig) (as : List BatchAction)
    (a : BatchAction) (w w' : BatchWorld), Run (StepOf (BatchWorld.next config)) {} as w →
    StepOf (BatchWorld.next config) w a w' → w.CommitsDurable config a := by
  intro h
  obtain ⟨w', hstep⟩ := Option.isSome_iff_exists.mp (show (BatchWorld.next Sample.consumerConfig
    (Run.final (BatchWorld.next Sample.consumerConfig) {} Sample.stoppedBatch) (.commit 0)).isSome
    from by decide +kernel)
  exact absurd (h _ _ _ _ _ (Run.to_final (by decide +kernel)) hstep) (by decide +kernel)

end MiracleAuction.Messaging
