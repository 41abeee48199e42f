import MiracleAuction.Messaging.Notifications

/-!
# Reports of failed notifications

A message that ends terminally is reported by one event, and a processed receipt stays
processed, as long as an attempt that fails has looked at the receipt since the event was
decided, or it was not decided.
-/
namespace MiracleAuction.Messaging

/-- The outbox event reports the failure of an event. -/
def ReportsConsumer (eventId : String) (event : OutboxEvent) : Prop :=
  event.eventType = "notification.consumer_failed.v1" ∧ event.causationId = some eventId

instance (eventId : String) (event : OutboxEvent) : Decidable (ReportsConsumer eventId event) := by
  unfold ReportsConsumer; infer_instance

def reports (outbox : List OutboxEvent) (eventId : String) : List OutboxEvent :=
  outbox.filter (ReportsConsumer eventId ·)

/-- A failure is reported at most once, a terminal receipt has its report, and a receipt
that was processed is in no other state. -/
structure ReportedOnce (db : NotificationDb) : Prop where
  once : ∀ eventId, (reports db.outbox eventId).length ≤ 1
  terminal : ∀ eventId, ∀ receipt ∈ db.receipts eventId, receipt.status = .terminal →
    (reports db.outbox eventId).length = 1
  processed : ∀ eventId, ∀ receipt ∈ db.receipts eventId, receipt.processedAt ≠ none →
    receipt.status = .processed

/-- The event whose failure a step of a handler writes. -/
def ConsumerPhase.failureWrite : ConsumerPhase → StepInput → Option String
  | .failing event _, .write answer _ _ _ => if answer.effective then some event.eventId else none
  | .terminal event _ _, .write answer _ _ _ =>
    if answer.effective then some event.eventId else none
  | _, _ => none

/-- No decision about the event was made since so many. -/
def UndecidedSince (decisions : List Decision) (count : Nat) (eventId : String) : Prop :=
  ∀ d ∈ decisions.drop count, d.event.eventId ≠ eventId

instance (decisions : List Decision) (count : Nat) (eventId : String) :
    Decidable (UndecidedSince decisions count eventId) := by
  unfold UndecidedSince; infer_instance

namespace NotificationWorld

/-- The failure that a step writes, with the last look of its attempt at the receipt. -/
def failureWrite (w : NotificationWorld) : NotificationAction → Option (String × Nat)
  | .step index input =>
    match w.tasks[index]? with
    | some (.consumer _ phase looked) => (phase.failureWrite input).map (·, looked)
    | _ => none
  | _ => none

/-- A failure is written by an attempt that has looked at the receipt since its event was decided,
or the event was not decided. -/
def InTime (w : NotificationWorld) (a : NotificationAction) : Prop :=
  ∀ f ∈ w.failureWrite a, UndecidedSince w.decisions f.2 f.1

instance (w : NotificationWorld) (a : NotificationAction) : Decidable (w.InTime a) := by
  unfold InTime; infer_instance

end NotificationWorld

def ConsumerPhase.event : ConsumerPhase → Option ReceivedEvent
  | .arrived => none
  | .enqueue event _ | .failing event _ | .terminal event _ _ => some event

/-- At its last look a handler saw no decision about its event. -/
def NotificationTask.Looked (decisions : List Decision) : NotificationTask → Prop
  | .consumer _ phase looked =>
    looked ≤ decisions.length ∧ (phase.event = none → looked = 0) ∧
      ∀ event ∈ phase.event, ∀ d ∈ decisions.take looked, d.event.eventId ≠ event.eventId
  | .recovery _ _ _ _ => True

section
variable {topics : KafkaTopics} {groupId : String} {retryLimit : Nat} {sha256 : String → String}
  {db db' : NotificationDb} {event : ReceivedEvent} {metadata : Metadata} {error : String}
  {attempts : Nat} {now : DateMs} {generated : Generated} {drafts : List EmailDraft}
  {decisions decided : List Decision} {failure : Option String}

theorem reports_append (outbox events : List OutboxEvent) (eventId : String) :
    reports (outbox ++ events) eventId = reports outbox eventId ++ reports events eventId :=
  List.filter_append ..

/-- Nothing has been written about the event but failed attempts. -/
def Undecided (db : NotificationDb) (eventId : String) : Prop :=
  reports db.outbox eventId = [] ∧ ∀ receipt ∈ db.receipts eventId, receipt.processedAt = none

/-- The tables agree with the decisions. -/
structure Accounted (db : NotificationDb) (decisions : List Decision) : Prop
    extends ReportedOnce db where
  undecided : ∀ eventId, UndecidedSince decisions 0 eventId → Undecided db eventId
  settled : ∀ d ∈ decisions, db.settled d.event.eventId = true

/-- Only receipts and the outbox matter. -/
theorem Accounted.of_eq (h : Accounted db decisions) (hreceipts : db'.receipts = db.receipts)
    (houtbox : db'.outbox = db.outbox) : Accounted db' decisions := by
  refine ⟨⟨?_, ?_, ?_⟩, ?_, ?_⟩
  · rw [houtbox]
    exact h.once
  · rw [houtbox, hreceipts]
    exact h.terminal
  · rw [hreceipts]
    exact h.processed
  · unfold Undecided
    rw [houtbox, hreceipts]
    exact h.undecided
  · unfold NotificationDb.settled
    rw [hreceipts]
    exact h.settled

/-- One receipt is written, with reports of its own event. -/
theorem Accounted.write (h : Accounted db decisions) (db' : NotificationDb) {eventId : String}
    {receipt : NotificationReceipt} {events : List OutboxEvent}
    (hreceipts : db'.receipts = Function.update db.receipts eventId (some receipt))
    (houtbox : db'.outbox = db.outbox ++ events)
    (hothers : ∀ other, other ≠ eventId → reports events other = [])
    (hdecided : ∀ d ∈ decided, d.event.eventId = eventId)
    (honce : (reports db'.outbox eventId).length ≤ 1)
    (hterminal : receipt.status = .terminal → (reports db'.outbox eventId).length = 1)
    (hprocessed : receipt.processedAt ≠ none → receipt.status = .processed)
    (hundecided : UndecidedSince decisions 0 eventId → decided = [] → Undecided db' eventId)
    (hsettled : receipt.Settled ∨ UndecidedSince decisions 0 eventId ∧ decided = []) :
    Accounted db' (decisions ++ decided) := by
  have hsame : ∀ other, other ≠ eventId →
      reports db'.outbox other = reports db.outbox other := by
    intro other hne
    rw [houtbox, reports_append, hothers other hne, List.append_nil]
  have hown : receipt ∈ db'.receipts eventId := by simp [hreceipts]
  have hkept : ∀ other, other ≠ eventId → db'.receipts other = db.receipts other := by
    intro other hne
    rw [hreceipts, Function.update_of_ne hne]
  have honly : ∀ other ∈ db'.receipts eventId, other = receipt := by
    intro other hother
    rw [hreceipts, Function.update_self] at hother
    exact (Option.some.inj hother).symm
  refine ⟨⟨fun other => ?_, fun other => ?_, fun other => ?_⟩, fun other hfree => ?_,
    fun d hd => ?_⟩
  · by_cases hother : other = eventId
    · exact hother ▸ honce
    · rw [hsame other hother]
      exact h.once other
  · by_cases hother : other = eventId
    · subst hother
      intro found hfound
      exact honly found hfound ▸ hterminal
    · rw [hsame other hother, hkept other hother]
      exact h.terminal other
  · by_cases hother : other = eventId
    · subst hother
      intro found hfound
      exact honly found hfound ▸ hprocessed
    · rw [hkept other hother]
      exact h.processed other
  · have hbefore : UndecidedSince decisions 0 other := fun d hd =>
      hfree d (List.mem_append_left _ hd)
    by_cases hother : other = eventId
    · subst hother
      refine hundecided hbefore (List.eq_nil_iff_forall_not_mem.mpr fun d hd => ?_)
      exact hfree d (List.mem_append_right _ hd) (hdecided d hd)
    · unfold Undecided
      rw [hsame other hother, hkept other hother]
      exact h.undecided other hbefore
  · by_cases hother : d.event.eventId = eventId
    · obtain hsettled | ⟨hfree, rfl⟩ := hsettled
      · unfold NotificationDb.settled
        rw [hother, hreceipts, Function.update_self]
        simpa using hsettled
      · rw [List.append_nil] at hd
        exact absurd hother (hfree d hd)
    · obtain hold | hnew := List.mem_append.mp hd
      · unfold NotificationDb.settled
        rw [hkept _ hother]
        exact h.settled d hold
      · exact absurd (hdecided d hnew) hother

/-! ## Statements -/

@[simp] theorem processedReceipt_status (old : Option NotificationReceipt) :
    (processedReceipt event metadata now old).status = .processed := by
  cases old <;> rfl

@[simp] theorem retriedReceipt_status (old : Option NotificationReceipt) :
    (retriedReceipt event metadata error old).status = .retrying := by
  cases old <;> rfl

@[simp] theorem failedReceipt_status (old : Option NotificationReceipt) :
    (failedReceipt event metadata attempts error now old).status = .terminal := by
  cases old <;> rfl

/-- A failure leaves the date of an earlier success. -/
theorem retriedReceipt_processedAt (old : Option NotificationReceipt) :
    (retriedReceipt event metadata error old).processedAt = none ↔
      ∀ receipt ∈ old, receipt.processedAt = none := by
  cases old <;> simp [retriedReceipt]

theorem failedReceipt_processedAt (old : Option NotificationReceipt) :
    (failedReceipt event metadata attempts error now old).processedAt = none ↔
      ∀ receipt ∈ old, receipt.processedAt = none := by
  cases old <;> simp [failedReceipt]

/-- What a transaction that enqueues an event has written. -/
theorem NotificationDb.enqueue_ok (h : db.enqueue event metadata drafts now = .ok db') :
    db'.receipts =
      (db.upsertReceipt event.eventId (processedReceipt event metadata now)).receipts ∧
      db'.outbox = db.outbox ∧ db'.mails = createMails event drafts db.mails := by
  unfold enqueue at h
  dsimp only at h
  split at h
  · obtain ⟨productId, _, h⟩ := Except.bind_eq_ok h
    cases h
    exact ⟨rfl, rfl, rfl⟩
  · cases h
    exact ⟨rfl, rfl, rfl⟩

/-- What a failure for good has written. -/
theorem terminalReceipt_ok
    (h : terminalReceipt topics groupId event metadata attempts error now generated db = .ok db') :
    ∃ failure, db' =
        { db.upsertReceipt event.eventId (failedReceipt event metadata attempts error now) with
          outbox := db.outbox ++ [failure] } ∧
      ∀ eventId, ReportsConsumer eventId failure ↔ eventId = event.eventId := by
  unfold terminalReceipt at h
  obtain ⟨failure, hfailure, h⟩ := Except.bind_eq_ok h
  cases h
  refine ⟨failure, rfl, fun eventId => ?_⟩
  rw [(addOutboxEvent_ok hfailure).2]
  simp [ReportsConsumer, consumerFailed, eq_comm]

/-- Products stay, with their marks. -/
def KeepsMarks (db db' : NotificationDb) : Prop :=
  ∀ productId, ∀ product ∈ db.products productId, ∃ product' ∈ db'.products productId,
    product.notificationEnqueuedAt ≠ none → product'.notificationEnqueuedAt ≠ none

theorem KeepsMarks.refl (db : NotificationDb) : KeepsMarks db db :=
  fun _ product hproduct => ⟨product, hproduct, id⟩

theorem updateProduct_marks (productId : Int) (status : AuctionStatus)
    (endTime : Option DateMs) : KeepsMarks db (db.updateProduct productId status endTime) := by
  intro other product hproduct
  by_cases hother : other = productId
  · subst hother
    refine ⟨_, Function.update_self .., ?_⟩
    rw [show db.products other = some product from hproduct]
    exact id
  · exact ⟨product, (Function.update_of_ne hother ..).trans hproduct, id⟩

/-- What a step does to the tables, the decisions that it makes, and the failure that it writes. -/
inductive NotificationEffect (topics : KafkaTopics) (groupId : String) (db : NotificationDb) :
    List Decision → Option String → NotificationDb → Prop
  | keeps {db' : NotificationDb} (hreceipts : db'.receipts = db.receipts)
      (houtbox : db'.outbox = db.outbox) (hmails : db'.mails = db.mails)
      (hproducts : KeepsMarks db db') :
      NotificationEffect topics groupId db [] none db'
  | enqueues {event : ReceivedEvent} {metadata : Metadata} {drafts : List EmailDraft}
      {now : DateMs} {db' : NotificationDb}
      (h : db.enqueue event metadata drafts now = .ok db') :
      NotificationEffect topics groupId db [⟨event, .processed⟩] none db'
  | retries (event : ReceivedEvent) (metadata : Metadata) (error : String) :
      NotificationEffect topics groupId db [] (some event.eventId)
        (db.upsertReceipt event.eventId (retriedReceipt event metadata error))
  | reports {event : ReceivedEvent} {metadata : Metadata} {attempts : Nat} {error : String}
      {now : DateMs} {generated : Generated} {db' : NotificationDb}
      (h : terminalReceipt topics groupId event metadata attempts error now generated db =
        .ok db') :
      NotificationEffect topics groupId db [⟨event, .terminal⟩] (some event.eventId) db'

theorem NotificationEffect.refl (topics : KafkaTopics) (groupId : String) (db : NotificationDb) :
    NotificationEffect topics groupId db [] none db :=
  .keeps rfl rfl rfl (.refl db)

/-- A step keeps the account if it writes no failure of an event that is decided. -/
theorem Accounted.effect (h : Accounted db decisions)
    (heffect : NotificationEffect topics groupId db decided failure db')
    (hfree : ∀ eventId ∈ failure, UndecidedSince decisions 0 eventId) :
    Accounted db' (decisions ++ decided) := by
  cases heffect with
  | keeps hreceipts houtbox =>
    rw [List.append_nil]
    exact h.of_eq hreceipts houtbox
  | @enqueues event _ _ _ _ henqueue =>
    obtain ⟨hreceipts, houtbox, _⟩ := NotificationDb.enqueue_ok henqueue
    refine h.write db' hreceipts (by rw [houtbox, List.append_nil]) (fun _ _ => rfl) (by simp) ?_
      (by simp) (by simp) (by simp) (.inl (.inl (processedReceipt_status _)))
    rw [houtbox]
    exact h.once event.eventId
  | retries event metadata error =>
    have hnow := hfree event.eventId rfl
    obtain ⟨hreports, hunprocessed⟩ := h.undecided event.eventId hnow
    have hdate : (retriedReceipt event metadata error
        (db.receipts event.eventId)).processedAt = none :=
      (retriedReceipt_processedAt _).mpr hunprocessed
    refine h.write (db.upsertReceipt event.eventId (retriedReceipt event metadata error)) rfl
      (List.append_nil _).symm (fun _ _ => rfl) (by simp) (h.once event.eventId) (by simp)
      (fun hne => absurd hdate hne) (fun _ _ => ⟨hreports, fun receipt hreceipt => ?_⟩)
      (.inr ⟨hnow, rfl⟩)
    obtain rfl : retriedReceipt event metadata error (db.receipts event.eventId) = receipt := by
      simpa [NotificationDb.upsertReceipt] using hreceipt
    exact hdate
  | @reports event metadata attempts error now _ _ hterminal =>
    obtain ⟨failure, rfl, hown⟩ := terminalReceipt_ok hterminal
    obtain ⟨hreports, hunprocessed⟩ := h.undecided event.eventId (hfree event.eventId rfl)
    have hdate : (failedReceipt event metadata attempts error now
        (db.receipts event.eventId)).processedAt = none :=
      (failedReceipt_processedAt _).mpr hunprocessed
    have hone : reports (db.outbox ++ [failure]) event.eventId = [failure] := by
      rw [reports_append, hreports]
      simp [reports, hown]
    refine h.write { db.upsertReceipt event.eventId
        (failedReceipt event metadata attempts error now) with outbox := db.outbox ++ [failure] }
      rfl rfl (fun other hother => by simp [reports, hown, hother]) (by simp) ?_ ?_
      (fun hne => absurd hdate hne) (by simp) (.inl (.inr (failedReceipt_status _)))
    · exact (congrArg List.length hone).le
    · exact fun _ => congrArg List.length hone

/-! ## Steps -/

/-- The report can always be added. -/
theorem exists_terminalReceipt : ∃ reported,
    terminalReceipt topics groupId event metadata attempts error now generated db =
      .ok reported := by
  have htopic : (consumerFailed topics groupId event metadata attempts error).topic ∈
      topics.relayTopics := by
    simp [consumerFailed, KafkaTopics.relayTopics]
  unfold terminalReceipt addOutboxEvent
  rw [if_neg (not_not.mpr htopic)]
  exact ⟨_, rfl⟩

/-- A step of an attempt leaves the tables, or carries its transaction out. -/
theorem enqueueNotificationEvent_commits {phase : EnqueuePhase} {input : StepInput}
    {outcome : Progress EnqueuePhase String}
    (h : enqueueNotificationEvent event metadata db phase input = some (db', outcome)) :
    db' = db ∧ phase.decision event metadata db input = [] ∨
      phase.commits input = true ∧
        phase.decision event metadata db input = [⟨event, .processed⟩] ∧
        ∃ drafts now, phase = .commit drafts ∧
          db.enqueue event metadata drafts now = .ok db' := by
  unfold enqueueNotificationEvent at h
  split at h
  · cases h
    exact .inl ⟨rfl, rfl⟩
  · cases h
    exact .inl ⟨rfl, rfl⟩
  · cases h
    exact .inl ⟨rfl, rfl⟩
  · split at h
    · cases h
      exact .inl ⟨rfl, rfl⟩
    · cases h
      exact .inl ⟨rfl, rfl⟩
  · cases h
    exact .inl ⟨rfl, rfl⟩
  · cases h
    exact .inl ⟨rfl, rfl⟩
  · rename_i drafts answer failure now generated
    unfold EnqueuePhase.decision EnqueuePhase.commits
    dsimp only
    split at h
    · cases h
      exact .inl ⟨rfl, rfl⟩
    · rename_i enqueued henqueue
      cases h
      cases answer.effective with
      | true => exact .inr ⟨rfl, rfl, drafts, now, rfl, henqueue⟩
      | false => exact .inl ⟨rfl, rfl⟩
  · cases h

theorem enqueueNotificationEvent_effect (topics : KafkaTopics) (groupId : String)
    {phase : EnqueuePhase} {input : StepInput} {outcome : Progress EnqueuePhase String}
    (h : enqueueNotificationEvent event metadata db phase input = some (db', outcome)) :
    NotificationEffect topics groupId db (phase.decision event metadata db input) none db' := by
  obtain ⟨rfl, hnone⟩ | ⟨-, hone, drafts, now, -, henqueue⟩ :=
    enqueueNotificationEvent_commits h
  · rw [hnone]
    exact .refl ..
  · rw [hone]
    exact .enqueues henqueue

theorem processKafkaMessage_effect {message : IncomingMessage} {phase : ConsumerPhase}
    {input : StepInput} {outcome : Progress ConsumerPhase String}
    (h : processKafkaMessage topics groupId retryLimit sha256 message db phase input =
      some (db', outcome)) :
    NotificationEffect topics groupId db (phase.decision message db input)
      (phase.failureWrite input) db' := by
  unfold processKafkaMessage at h
  split at h
  · cases h
    exact .refl ..
  · obtain ⟨⟨enqueued, result⟩, henqueue, hresult⟩ := Option.map_eq_some_iff.mp h
    have heffect := enqueueNotificationEvent_effect topics groupId henqueue
    cases result <;> cases hresult <;> exact heffect
  · rename_i event error answer failure now generated
    cases h
    unfold ConsumerPhase.failureWrite ConsumerPhase.decision
    dsimp only
    cases answer.effective with
    | true => exact .retries event message.metadata error
    | false => exact .refl ..
  · rename_i event attempts error answer failure now generated
    obtain ⟨reported, hreported⟩ : ∃ reported, terminalReceipt topics groupId event
        message.metadata attempts error now generated db = .ok reported :=
      exists_terminalReceipt
    rw [hreported] at h
    cases h
    unfold ConsumerPhase.failureWrite ConsumerPhase.decision
    dsimp only
    cases answer.effective with
    | true => exact .reports hreported
    | false => exact .refl ..
  · cases h

@[simp] theorem ConsumerPhase.failureWrite_within (phase : ConsumerPhase) (input : StepInput) :
    phase.failureWrite (input.within db) = phase.failureWrite input := by
  cases input with
  | flags | query | write => rfl
  | rows tables =>
    cases tables <;> cases phase <;> rfl

/-- What a step of the world does to the tables. -/
theorem NotificationWorld.effect {w w' : NotificationWorld} {a : NotificationAction}
    (h : StepOf (NotificationWorld.next topics groupId retryLimit sha256) w a w') :
    ∃ decided, w'.decisions = w.decisions ++ decided ∧
      NotificationEffect topics groupId w.db decided ((w.failureWrite a).map (·.1)) w'.db := by
  unfold StepOf at h
  cases a with
  | deliver message =>
    cases h
    exact ⟨[], (List.append_nil _).symm, .refl ..⟩
  | scan products now =>
    simp only [next] at h
    split at h
    · cases h
      exact ⟨[], (List.append_nil _).symm, .refl ..⟩
    · cases h
  | step index input =>
    simp only [next, advance] at h
    split at h
    · rename_i message phase looked htask
      obtain ⟨⟨db', outcome⟩, hstep, rfl⟩ := Option.map_eq_some_iff.mp h
      have heffect := processKafkaMessage_effect hstep
      refine ⟨_, rfl, ?_⟩
      simpa [failureWrite, htask, Option.map_map, Function.comp_def] using heffect
    · rename_i event phase rest scanned htask
      obtain ⟨⟨db', outcome⟩, hstep, rfl⟩ := Option.map_eq_some_iff.mp h
      have heffect := enqueueNotificationEvent_effect topics groupId hstep
      refine ⟨_, rfl, ?_⟩
      simpa [failureWrite, htask] using heffect
    · cases h
  | crash index =>
    cases h
    exact ⟨[], (List.append_nil _).symm, .refl ..⟩
  | product productId status endTime =>
    cases h
    exact ⟨[], (List.append_nil _).symm,
      .keeps rfl rfl rfl (updateProduct_marks productId status endTime)⟩

theorem NotificationWorld.mem_replace {w : NotificationWorld} {index : Nat}
    {tasks : List NotificationTask} {task : NotificationTask} (h : task ∈ w.replace index tasks) :
    task ∈ w.tasks ∨ task ∈ tasks := by
  unfold replace at h
  rw [List.append_assoc, List.mem_append, List.mem_append] at h
  obtain hbefore | hnew | hafter := h
  · exact .inl (List.mem_of_mem_take hbefore)
  · exact .inr hnew
  · exact .inl (List.mem_of_mem_drop hafter)

theorem mem_recoveryTask {scanned : Nat} {events : List ReceivedEvent} {task : NotificationTask}
    (h : task ∈ recoveryTask scanned events) :
    ∃ event rest, events = event :: rest ∧ task = .recovery event .existing rest scanned := by
  cases events with
  | nil => cases h
  | cons event rest => exact ⟨event, rest, rfl, List.mem_singleton.mp h⟩

theorem mem_consumerTask {message : IncomingMessage} {looked : Nat}
    {outcome : Progress ConsumerPhase String} {task : NotificationTask}
    (h : task ∈ consumerTask message looked outcome) :
    ∃ phase, outcome = .proceed phase ∧ task = .consumer message phase looked := by
  cases outcome with
  | proceed phase => exact ⟨phase, rfl, List.mem_singleton.mp h⟩
  | returned | threw => cases h

/-- A recovery run is at the same event, or starts with the next one. -/
theorem mem_recoveryTasks {rest : List ReceivedEvent} {scanned : Nat}
    {outcome : Progress EnqueuePhase String} {task : NotificationTask}
    (h : task ∈ recoveryTasks event rest scanned outcome) :
    (∃ phase, outcome = .proceed phase ∧ task = .recovery event phase rest scanned) ∨
      ∃ next others, rest = next :: others ∧ task = .recovery next .existing others scanned := by
  cases outcome with
  | proceed phase => exact .inl ⟨phase, rfl, List.mem_singleton.mp h⟩
  | returned => exact .inr (mem_recoveryTask h)
  | threw => cases h

/-! ## Looks -/

/-- Later decisions do not matter. -/
theorem NotificationTask.Looked.append {task : NotificationTask} (h : task.Looked decisions)
    (decided : List Decision) : task.Looked (decisions ++ decided) := by
  cases task with
  | consumer message phase looked =>
    obtain ⟨hle, harrived, hseen⟩ := h
    refine ⟨?_, harrived, ?_⟩
    · rw [List.length_append]
      omega
    · rw [List.take_append_of_le_length hle]
      exact hseen
  | recovery => trivial

/-- A look at a settled receipt ends the attempt. -/
theorem enqueueNotificationEvent_looks {phase : EnqueuePhase} {input : StepInput}
    {outcome : Progress EnqueuePhase String}
    (h : enqueueNotificationEvent event metadata db phase input = some (db', outcome))
    (hlooks : phase.looks input = true) (hgoes : outcome ≠ .returned) :
    db.settled event.eventId = false := by
  have hreturns : ∀ phase', outcome = (if db.settled event.eventId then .returned
      else .proceed phase') → db.settled event.eventId = false := by
    intro phase' heq
    by_contra hsettled
    rw [Bool.not_eq_false] at hsettled
    rw [hsettled, if_pos rfl] at heq
    exact hgoes heq
  unfold EnqueuePhase.looks at hlooks
  split at hlooks
  · cases h
    exact hreturns _ rfl
  · cases h
    exact hreturns _ rfl
  · cases hlooks

/-- A handler that goes on is at the same event, and has seen it unsettled if it looked. -/
theorem processKafkaMessage_proceeds {message : IncomingMessage} {phase phase' : ConsumerPhase}
    {input : StepInput}
    (h : processKafkaMessage topics groupId retryLimit sha256 message db phase input =
      some (db', .proceed phase')) :
    phase.event = none ∨ (phase'.event = phase.event ∧
      (phase.looks input = true →
        ∀ event ∈ phase.event, db.settled event.eventId = false)) := by
  cases phase with
  | arrived => exact .inl rfl
  | enqueue event phase =>
    obtain ⟨⟨enqueued, result⟩, henqueue, hresult⟩ := Option.map_eq_some_iff.mp h
    have hevent : phase'.event = some event := by
      cases result <;> cases hresult <;> rfl
    refine .inr ⟨hevent, fun hlooks found hfound => ?_⟩
    cases hfound
    refine enqueueNotificationEvent_looks henqueue hlooks ?_
    rintro rfl
    cases hresult
  | failing event error =>
    refine .inr ⟨?_, by simp [ConsumerPhase.looks]⟩
    cases input with
    | write answer failure now generated =>
      obtain ⟨-, hgoes⟩ := Prod.mk.inj (Option.some.inj h)
      split at hgoes
      · cases hgoes
      · split at hgoes <;> cases hgoes
        rfl
    | flags | query | rows => cases h
  | terminal event attempts error =>
    refine .inr ⟨?_, by simp [ConsumerPhase.looks]⟩
    cases input with
    | write answer failure now generated =>
      simp only [processKafkaMessage] at h
      split at h
      · cases h
      · obtain ⟨-, hgoes⟩ := Prod.mk.inj (Option.some.inj h)
        split at hgoes <;> cases hgoes
    | flags | query | rows => cases h

theorem ConsumerPhase.event_of_failureWrite {phase : ConsumerPhase} {input : StepInput}
    {eventId : String} (h : phase.failureWrite input = some eventId) :
    ∃ event ∈ phase.event, event.eventId = eventId := by
  unfold failureWrite at h
  split at h
  · split at h
    · exact ⟨_, rfl, Option.some.inj h⟩
    · cases h
  · split at h
    · exact ⟨_, rfl, Option.some.inj h⟩
    · cases h
  · cases h

theorem ConsumerPhase.looks_of_event {phase : ConsumerPhase} {input : StepInput}
    (h : phase.event = none) : phase.looks input = false := by
  cases phase with
  | arrived => rfl
  | enqueue | failing | terminal => cases h

/-- A step keeps what the handlers have seen. -/
theorem NotificationWorld.looked_step {w w' : NotificationWorld} {a : NotificationAction}
    (h : StepOf (NotificationWorld.next topics groupId retryLimit sha256) w a w')
    (haccount : Accounted w.db w.decisions)
    (hlooked : ∀ task ∈ w.tasks, task.Looked w.decisions) :
    ∀ task ∈ w'.tasks, task.Looked w'.decisions := by
  unfold StepOf at h
  cases a with
  | deliver message =>
    cases h
    intro task htask
    obtain hold | hnew := List.mem_append.mp htask
    · exact hlooked task hold
    · obtain rfl := List.mem_singleton.mp hnew
      exact ⟨Nat.zero_le _, fun _ => rfl, by rintro event ⟨⟩⟩
  | scan products now =>
    simp only [next] at h
    split at h
    · cases h
      intro task htask
      obtain hold | hnew := List.mem_append.mp htask
      · exact hlooked task hold
      · obtain ⟨_, _, _, rfl⟩ := mem_recoveryTask hnew
        trivial
    · cases h
  | step index input =>
    simp only [next, advance] at h
    split at h
    · rename_i message phase looked hindex
      obtain ⟨⟨db', outcome⟩, hstep, rfl⟩ := Option.map_eq_some_iff.mp h
      intro task htask
      obtain hold | hnew := mem_replace htask
      · exact (hlooked task hold).append _
      · obtain ⟨phase', rfl, rfl⟩ := mem_consumerTask hnew
        refine NotificationTask.Looked.append ?_ _
        obtain ⟨hle, harrived, hseen⟩ := hlooked _ (List.mem_of_getElem? hindex)
        obtain hnone | ⟨hevent, hfree⟩ := processKafkaMessage_proceeds hstep
        · rw [ConsumerPhase.looks_of_event hnone, harrived hnone]
          exact ⟨Nat.zero_le _, fun _ => rfl, by simp⟩
        · by_cases hlooks : phase.looks (input.within w.db) = true
          · rw [if_pos hlooks]
            refine ⟨le_rfl, fun hnone => ?_, fun event hin d hd heq => ?_⟩
            · rw [ConsumerPhase.looks_of_event (hevent ▸ hnone)] at hlooks
              cases hlooks
            · rw [List.take_length] at hd
              have hsettled := haccount.settled d hd
              rw [heq, hfree hlooks event (hevent ▸ hin)] at hsettled
              cases hsettled
          · rw [if_neg hlooks]
            exact ⟨hle, hevent ▸ harrived, hevent ▸ hseen⟩
    · rename_i event phase rest scanned hindex
      obtain ⟨⟨db', outcome⟩, hstep, rfl⟩ := Option.map_eq_some_iff.mp h
      intro task htask
      obtain hold | hnew := mem_replace htask
      · exact (hlooked task hold).append _
      · obtain ⟨_, _, rfl⟩ | ⟨_, _, _, rfl⟩ := mem_recoveryTasks hnew <;> trivial
    · cases h
  | crash index =>
    cases h
    intro task htask
    obtain hold | ⟨⟨⟩⟩ := mem_replace htask
    exact hlooked task hold
  | product productId status endTime =>
    cases h
    exact hlooked

/-- The invariant of the handlers. -/
structure NotificationWorld.Sound (w : NotificationWorld) : Prop where
  account : Accounted w.db w.decisions
  looked : ∀ task ∈ w.tasks, task.Looked w.decisions

/-- An attempt that writes a failure in time is at an event that is not decided. -/
theorem NotificationWorld.Sound.undecided {w : NotificationWorld} {a : NotificationAction}
    (h : w.Sound) (hok : w.InTime a) :
    ∀ eventId ∈ (w.failureWrite a).map (·.1), UndecidedSince w.decisions 0 eventId := by
  intro eventId hmem
  obtain ⟨⟨_, _⟩, hwrite, rfl⟩ := Option.map_eq_some_iff.mp hmem
  have hsince := hok _ hwrite
  unfold failureWrite at hwrite
  split at hwrite
  · split at hwrite
    · rename_i message phase count hindex
      obtain ⟨_, hphase, heq⟩ := Option.map_eq_some_iff.mp hwrite
      obtain ⟨rfl, rfl⟩ := Prod.mk.inj heq
      obtain ⟨-, -, hseen⟩ := h.looked _ (List.mem_of_getElem? hindex)
      intro d hd
      -- Before the last look the handler saw no decision, and none was made after it.
      rw [List.drop_zero, ← List.take_append_drop count w.decisions] at hd
      obtain hbefore | hafter := List.mem_append.mp hd
      · obtain ⟨event, hevent, hid⟩ := ConsumerPhase.event_of_failureWrite hphase
        exact hid ▸ hseen event hevent d hbefore
      · exact hsince d hafter
    · cases hwrite
  · cases hwrite

/-- Steps in time keep the invariant. -/
theorem NotificationWorld.Sound.step {w w' : NotificationWorld} {a : NotificationAction}
    (h : w.Sound) (hok : w.InTime a)
    (hstep : StepOf (NotificationWorld.next topics groupId retryLimit sha256) w a w') :
    w'.Sound := by
  refine ⟨?_, looked_step hstep h.account h.looked⟩
  obtain ⟨decided, hdecided, heffect⟩ := NotificationWorld.effect hstep
  rw [hdecided]
  exact h.account.effect heffect (h.undecided hok)

end

/-- In a run of any handlers and recovery runs, through every redelivery, replay and crash, each
terminal message is reported once and processed receipts stay processed, where no failure is
written by an attempt that has not looked at the receipt since its event was decided. -/
theorem reported_once {topics : KafkaTopics} {groupId : String} {retryLimit : Nat}
    {sha256 : String → String} {w : NotificationWorld} {as : List NotificationAction}
    (hrun : Run (Guarded NotificationWorld.InTime
      (StepOf (NotificationWorld.next topics groupId retryLimit sha256))) {} as w) :
    Run.Always (NotificationWorld.next topics groupId retryLimit sha256)
      (fun w => ReportedOnce w.db) {} as := by
  have hinitial : NotificationWorld.Sound {} := by
    refine ⟨⟨⟨by simp [reports], by simp, by simp⟩, fun _ _ => ⟨rfl, by simp⟩,
      ?_⟩, ?_⟩
    · rintro d ⟨⟩
    · rintro task ⟨⟩
  exact Run.always_of_guarded (fun _ h => h.account.toReportedOnce)
    (fun _ _ _ hstep hok h => h.step hok hstep) hrun hinitial

namespace Sample

/-- The event of an auction that has ended. -/
def closingEvent : MessageValue where
  text := "\x7b\"eventId\":\"" ++ eventId ++ "\",\"eventType\":\"auction.closed.v1\"," ++
    "\"eventVersion\":1,\"aggregateId\":\"1\",\"occurredAt\":\"2026-01-01T00:00:00.000Z\"," ++
    "\"correlationId\":\"" ++ correlationId ++ "\",\"payload\":\x7b\x7d\x7d"
  json := .ok (.object
    [("eventId", .string eventId), ("eventType", .string "auction.closed.v1"),
      ("eventVersion", .number 1), ("aggregateId", .string "1"),
      ("occurredAt", .string "2026-01-01T00:00:00.000Z"), ("correlationId", .string correlationId),
      ("payload", .object [])])

def closingMessage : IncomingMessage := ⟨"bidding_events", 0, 7, some closingEvent⟩

/-- The event of an application that is not there. -/
def approvalMessage : IncomingMessage :=
  ⟨"domain_events", 0, 3, some ⟨"approval", .ok (.object
    [("eventId", .string secondId), ("eventType", .string "seller.approved.v1"),
      ("eventVersion", .number 1), ("aggregateId", .string "5"),
      ("occurredAt", .string "2026-01-01T00:00:00.000Z"), ("correlationId", .string correlationId),
      ("payload", .object [])])⟩⟩

def brokenMessage : IncomingMessage :=
  ⟨"bidding_events", 0, 8, some ⟨"closed", .error "Unexpected token"⟩⟩

/-- A product without bids, and its seller. -/
def notificationTables : NotificationTables where
  products := fun productId => if productId = 1 then some ⟨some "Lamp", some 100, 9, none⟩
    else none
  users := fun userId => if userId = 9 then some ⟨"nine@example.com", "nine"⟩ else none

def written (ms : Fin 10000000) (eventId : String) : StepInput :=
  .write .done "" (time ms) ⟨eventId, eventId, time ms⟩

/-- The hashes of the texts that are hashed in the samples. -/
def sha256 (text : String) : String :=
  if text = "auction-recovery:1" then
    "41d17211a2e715ae8ca531299e57a2b1427b6a54ca588a8f2f8c06fa9a6a1741"
  else "a5b6f5c9951241cd7ea3529108c958f9996fdaf54d2a2e43c8267f1c2f14db45"

/-- One delivery of a message that cannot be parsed. -/
def brokenDelivery (ms : Fin 10000000) (eventId : String) : List NotificationAction :=
  [.deliver brokenMessage, .step 0 (.flags false (time ms)), .step 0 (written ms eventId)]

/-- One that fails once, and is handed to two consumers when it is delivered again. Both look at
the receipt before one of them processes it. -/
def overlappingDeliveries : List NotificationAction :=
  [.product 1 .ended (some (time 0)), .deliver closingMessage, .step 0 (.flags false (time 0)),
    .step 0 (.query (some "timeout")), .step 0 (written 10 firstId), .deliver closingMessage,
    .deliver closingMessage, .step 0 (.flags false (time 20)), .step 1 (.flags false (time 20)),
    .step 0 (.query none), .step 1 (.query none), .step 0 (.rows (.ok notificationTables)),
    .step 0 (.query none), .step 0 (written 30 firstId), .step 0 (.rows (.ok notificationTables)),
    .step 0 (.query none)]

/-- An attempt that fails. -/
def failingDelivery (ms : Fin 10000000) : List NotificationAction :=
  [.deliver approvalMessage, .step 0 (.flags false (time ms)), .step 0 (.query none),
    .step 0 (.rows (.ok notificationTables)), .step 0 (written ms firstId)]

/-- A message is processed, one cannot be parsed, and one fails for good and is delivered again. -/
def reportedFailures : List NotificationAction :=
  overlappingDeliveries ++ brokenDelivery 40 firstId ++ failingDelivery 50 ++ failingDelivery 60 ++
    [.step 0 (written 60 firstId), .deliver approvalMessage, .step 0 (.flags false (time 70)),
      .step 0 (.query none)]

/-- The batch of a message that cannot be parsed is replayed. -/
def replayedBatch : List NotificationAction :=
  brokenDelivery 0 firstId ++ brokenDelivery 60000 secondId

end Sample

theorem reported_once_sample :
    Run.Always (NotificationWorld.next {} "notification-intake-v1" 2 Sample.sha256)
        (fun w => ReportedOnce w.db) {} Sample.reportedFailures ∧
      ((Run.final (NotificationWorld.next {} "notification-intake-v1" 2 Sample.sha256) {}
        Sample.reportedFailures).db.outbox.map (·.causationId)) =
          [some (syntheticEventId Sample.sha256 "bidding_events" 0 8), some Sample.secondId] :=
  ⟨reported_once (Run.to_final_guarded (by decide +kernel)), by decide +kernel⟩

/-- The message is reported twice. -/
theorem reportedOnce_replayed : ¬ ∀ (topics : KafkaTopics) (groupId : String) (retryLimit : Nat)
    (sha256 : String → String) (as : List NotificationAction) (w : NotificationWorld),
    Run (StepOf (NotificationWorld.next topics groupId retryLimit sha256)) {} as w →
    ReportedOnce w.db := by
  intro h
  have honce := (h {} "notification-intake-v1" 5 Sample.sha256 Sample.replayedBatch _
    (Run.to_final (by decide +kernel))).once
    (syntheticEventId Sample.sha256 Sample.brokenMessage.topic 0 8)
  exact absurd honce (by decide +kernel)

end MiracleAuction.Messaging
