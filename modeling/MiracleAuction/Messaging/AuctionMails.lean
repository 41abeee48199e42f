import MiracleAuction.Messaging.Failures

/-!
# Mails about the end of an auction

The event of Kafka and the one of a recovery run have different ids, and the unique key
of the mails holds the id. A recipient gets each mail once as long as the events of one end
stay out of each other's way: a handler does not come after a recovery run, nor between its
scan and its transaction.
-/
namespace MiracleAuction.Messaging

/-- The auction that the event ends. -/
def ReceivedEvent.auction (event : ReceivedEvent) : Option Int :=
  if closesAuction event.eventType then (bigInt event.aggregateId).toOption else none

/-- Both mails tell one recipient of the end of one auction, in the same words. -/
def QueuedMail.Repeats (mail other : QueuedMail) : Prop :=
  mail.source.auction ≠ none ∧ mail.source.auction = other.source.auction ∧
    mail.recipientKey = other.recipientKey ∧ mail.templateKey = other.templateKey

instance (mail other : QueuedMail) : Decidable (mail.Repeats other) := by
  unfold QueuedMail.Repeats; infer_instance

/-- At most one mail per recipient and template for the end of an auction. -/
def MailedOnce (mails : List QueuedMail) : Prop :=
  mails.Pairwise fun mail other => ¬ mail.Repeats other

instance (mails : List QueuedMail) : Decidable (MailedOnce mails) := by
  unfold MailedOnce; infer_instance

/-- All mails about the end of the event's auction were enqueued for this event. -/
def Sole (source : ReceivedEvent) (mails : List QueuedMail) : Prop :=
  ∀ mail ∈ mails, source.auction ≠ none → mail.source.auction = source.auction →
    mail.source.eventId = source.eventId

/-! ## `createMany` -/

section
variable {source : ReceivedEvent} {draft : EmailDraft} {drafts : List EmailDraft}
  {mails : List QueuedMail} {mail : QueuedMail}

theorem createMails_cons : createMails source (draft :: drafts) mails =
    createMails source drafts (createMails source [draft] mails) := rfl

theorem createMail_cases (source : ReceivedEvent) (draft : EmailDraft) (mails : List QueuedMail) :
    createMails source [draft] mails = mails ∨
      QueuedMail.key ⟨draft, source⟩ ∉ mails.map (·.key) ∧
        createMails source [draft] mails = mails ++ [⟨draft, source⟩] := by
  by_cases hkey : QueuedMail.key ⟨draft, source⟩ ∈ mails.map (·.key)
  · exact .inl (if_pos hkey)
  · exact .inr ⟨hkey, if_neg hkey⟩

/-- A mail is an earlier one, or it was enqueued for the event. -/
theorem mem_createMails (h : mail ∈ createMails source drafts mails) :
    mail ∈ mails ∨ mail.source = source := by
  induction drafts generalizing mails with
  | nil => exact .inl h
  | cons draft drafts ih =>
    rw [createMails_cons] at h
    obtain hmem | hsource := ih h
    · obtain heq | ⟨-, heq⟩ := createMail_cases source draft mails
      · exact .inl (heq ▸ hmem)
      · rw [heq] at hmem
        obtain hold | hnew := List.mem_append.mp hmem
        · exact .inl hold
        · obtain rfl := List.mem_singleton.mp hnew
          exact .inr rfl
    · exact .inr hsource

/-- One draft repeats no mail: one like it would have its key. -/
theorem mailedOnce_createMail (honce : MailedOnce mails) (hsole : Sole source mails) :
    MailedOnce (createMails source [draft] mails) := by
  obtain heq | ⟨hkey, heq⟩ := createMail_cases source draft mails
  · rw [heq]
    exact honce
  · rw [heq]
    refine List.pairwise_append.mpr ⟨honce, List.pairwise_singleton _ _, ?_⟩
    intro mail hmail last hlast ⟨hauction, hsame, hrecipient, htemplate⟩
    obtain rfl := List.mem_singleton.mp hlast
    have hid := hsole mail hmail (hsame ▸ hauction) hsame
    refine hkey (List.mem_map.mpr ⟨mail, hmail, ?_⟩)
    unfold QueuedMail.key
    rw [hid, hrecipient, htemplate]

/-- So do all drafts of an event. -/
theorem mailedOnce_createMails (honce : MailedOnce mails) (hsole : Sole source mails) :
    MailedOnce (createMails source drafts mails) := by
  induction drafts generalizing mails with
  | nil => exact honce
  | cons draft drafts ih =>
    rw [createMails_cons]
    refine ih (mailedOnce_createMail honce hsole) fun mail hmail hauction hsame => ?_
    obtain hold | hsource := mem_createMails hmail
    · exact hsole mail hold hauction hsame
    · rw [hsource]

end

/-! ## Interleavings -/

namespace NotificationWorld

/-- The event of the transaction that a step carries out, and the number of decisions when its
recovery run scanned the products. A handler never does. -/
def enqueued (w : NotificationWorld) : NotificationAction → Option (ReceivedEvent × Nat)
  | .step index input =>
    match w.tasks[index]? with
    | some (.consumer _ (.enqueue event phase) _) =>
      if phase.commits input then some (event, 0) else none
    | some (.recovery event phase _ scanned) =>
      if phase.commits input then some (event, scanned) else none
    | _ => none
  | _ => none

/-- No transaction of another event about the same end was carried out since the scan, and before
that of a handler none at all. -/
def Undisturbed (w : NotificationWorld) (a : NotificationAction) : Prop :=
  ∀ x ∈ w.enqueued a, ∀ d ∈ w.decisions.drop x.2, d.status = .processed →
    x.1.auction ≠ none →
    d.event.auction = x.1.auction → d.event.eventId = x.1.eventId

instance (w : NotificationWorld) (a : NotificationAction) : Decidable (w.Undisturbed a) := by
  unfold Undisturbed; infer_instance

end NotificationWorld

/-! ## The mark -/

section
variable {topics : KafkaTopics} {groupId : String} {retryLimit : Nat} {sha256 : String → String}
  {db db' : NotificationDb} {event : ReceivedEvent} {metadata : Metadata} {phase : EnqueuePhase}
  {drafts : List EmailDraft} {now : DateMs} {decisions decided : List Decision}
  {failure : Option String} {productId : Int}

/-- The auction of the event is in the table. -/
def Known (db : NotificationDb) (event : ReceivedEvent) : Prop :=
  ∀ productId ∈ event.auction, (db.products productId).isSome

theorem KeepsMarks.known (h : KeepsMarks db db') (hknown : Known db event) : Known db' event := by
  intro productId hauction
  obtain ⟨product, hproduct⟩ := Option.isSome_iff_exists.mp (hknown productId hauction)
  obtain ⟨product', hproduct', -⟩ := h productId product hproduct
  exact Option.isSome_iff_exists.mpr ⟨product', hproduct'⟩

theorem markProduct_self {product : MarkedProduct} (h : db.products productId = some product)
    (now : DateMs) : (db.markProduct productId now).products productId = some { product with
      notificationEnqueuedAt := product.notificationEnqueuedAt.or (some now) } := by
  simp [NotificationDb.markProduct, h]

theorem markProduct_marks (productId : Int) (now : DateMs) :
    KeepsMarks db (db.markProduct productId now) := by
  intro other product hproduct
  by_cases hother : other = productId
  · subst hother
    refine ⟨_, markProduct_self hproduct now, fun hmarked => ?_⟩
    obtain ⟨date, hdate⟩ := Option.ne_none_iff_exists'.mp hmarked
    simp [hdate]
  · exact ⟨product, (Function.update_of_ne hother ..).trans hproduct, id⟩

/-- A transaction marks the auction of its event. -/
theorem NotificationDb.enqueue_marks (h : db.enqueue event metadata drafts now = .ok db') :
    KeepsMarks db db' ∧ (Known db event → ∀ productId ∈ event.auction,
      ∃ product ∈ db'.products productId, product.notificationEnqueuedAt ≠ none) := by
  unfold enqueue at h
  unfold Known ReceivedEvent.auction
  dsimp only at h
  split at h
  · rename_i hcloses
    obtain ⟨productId, hid, h⟩ := Except.bind_eq_ok h
    cases h
    refine ⟨markProduct_marks productId now, fun hknown other hother => ?_⟩
    rw [if_pos hcloses, hid] at hknown hother
    obtain rfl : productId = other := Option.some.inj hother
    obtain ⟨product, hproduct⟩ := Option.isSome_iff_exists.mp (hknown productId rfl)
    exact ⟨_, markProduct_self hproduct now, by simp⟩
  · rename_i hcloses
    cases h
    refine ⟨.refl _, fun _ other hother => ?_⟩
    rw [if_neg hcloses] at hother
    cases hother

/-- The tables agree with the decisions: each mail was enqueued by one of them, which marked the
auction. -/
structure Mailed (db : NotificationDb) (decisions : List Decision) : Prop where
  once : MailedOnce db.mails
  decided : ∀ mail ∈ db.mails, ⟨mail.source, .processed⟩ ∈ decisions
  marked : ∀ mail ∈ db.mails, ∀ productId ∈ mail.source.auction,
    ∃ product ∈ db.products productId, product.notificationEnqueuedAt ≠ none

theorem Mailed.keeps (h : Mailed db decisions) (hmails : db'.mails = db.mails)
    (hproducts : KeepsMarks db db') (decided : List Decision) :
    Mailed db' (decisions ++ decided) := by
  refine ⟨hmails ▸ h.once, fun mail hmail => ?_, fun mail hmail productId hauction => ?_⟩
  · exact List.mem_append_left _ (h.decided mail (hmails ▸ hmail))
  · obtain ⟨product, hproduct, hmarked⟩ := h.marked mail (hmails ▸ hmail) productId hauction
    obtain ⟨product', hproduct', hkept⟩ := hproducts productId product hproduct
    exact ⟨product', hproduct', hkept hmarked⟩

/-- A transaction keeps the mails single if its event is the only one about the end. -/
theorem Mailed.enqueue (h : Mailed db decisions)
    (henqueue : db.enqueue event metadata drafts now = .ok db') (hsole : Sole event db.mails)
    (hknown : Known db event) : Mailed db' (decisions ++ [⟨event, .processed⟩]) := by
  obtain ⟨-, -, hmails⟩ := NotificationDb.enqueue_ok henqueue
  obtain ⟨hproducts, hmarks⟩ := NotificationDb.enqueue_marks henqueue
  refine ⟨?_, fun mail hmail => ?_, fun mail hmail productId hauction => ?_⟩
  · rw [hmails]
    exact mailedOnce_createMails h.once hsole
  · rw [hmails] at hmail
    obtain hold | hsource := mem_createMails hmail
    · exact List.mem_append_left _ (h.decided mail hold)
    · rw [hsource]
      exact List.mem_append_right _ (List.mem_singleton_self _)
  · rw [hmails] at hmail
    obtain hold | hsource := mem_createMails hmail
    · obtain ⟨product, hproduct, hmarked⟩ := h.marked mail hold productId hauction
      obtain ⟨product', hproduct', hkept⟩ := hproducts productId product hproduct
      exact ⟨product', hproduct', hkept hmarked⟩
    · exact hmarks hknown productId (hsource ▸ hauction)

/-! ## Attempts -/

/-- The drafts about an auction are made of its row. -/
def EnqueuePhase.Resolved (db : NotificationDb) (event : ReceivedEvent) : EnqueuePhase → Prop
  | .receipt _ | .commit _ => Known db event
  | .existing | .resolve => True

theorem known_of_resolve {tables : NotificationTables}
    (h : resolveNotificationDrafts (tables.within db) event.toIncomingEvent = .ok drafts) :
    Known db event := by
  intro productId hauction
  unfold ReceivedEvent.auction at hauction
  split at hauction
  · rename_i hcloses
    unfold resolveNotificationDrafts at h
    rw [if_pos hcloses] at h
    unfold auctionDrafts at h
    obtain ⟨found, hid, h⟩ := Except.bind_eq_ok h
    obtain ⟨product, hproduct, -⟩ := Except.bind_eq_ok h
    rw [hid] at hauction
    obtain rfl : found = productId := Option.some.inj hauction
    by_contra hnone
    have hmissing : (tables.within db).products found = none := if_neg hnone
    rw [hmissing] at hproduct
    cases hproduct
  · cases hauction

theorem StepInput.rows_within {input : StepInput} {tables : NotificationTables}
    (h : input.within db = .rows (.ok tables)) :
    ∃ found : NotificationTables, tables = found.within db := by
  unfold within at h
  split at h
  · exact ⟨_, (Except.ok.inj (StepInput.rows.inj h)).symm⟩
  · rename_i hother
    exact absurd h (hother tables)

theorem enqueueNotificationEvent_resolved {phase' : EnqueuePhase} {input : StepInput}
    (h : enqueueNotificationEvent event metadata db phase (input.within db) =
      some (db', .proceed phase')) (hresolved : phase.Resolved db event) :
    phase'.Resolved db event := by
  generalize hinput : input.within db = found at h
  unfold enqueueNotificationEvent at h
  split at h
  · obtain ⟨-, hgoes⟩ := Prod.mk.inj (Option.some.inj h)
    split at hgoes <;> cases hgoes
    trivial
  · cases h
  · cases h
  · split at h
    · rename_i drafts hdrafts
      cases h
      obtain ⟨tables, rfl⟩ := StepInput.rows_within hinput
      exact known_of_resolve hdrafts
    · cases h
  · obtain ⟨-, hgoes⟩ := Prod.mk.inj (Option.some.inj h)
    split at hgoes <;> cases hgoes
    exact hresolved
  · cases h
  · split at h
    · cases h
    · obtain ⟨-, hgoes⟩ := Prod.mk.inj (Option.some.inj h)
      split at hgoes <;> cases hgoes
  · cases h

/-- A step of an attempt keeps the mails single if its event is the only one about the end. -/
theorem Mailed.attempt (h : Mailed db decisions) {input : StepInput}
    {outcome : Progress EnqueuePhase String}
    (hstep : enqueueNotificationEvent event metadata db phase input = some (db', outcome))
    (hsole : phase.commits input = true → Sole event db.mails)
    (hresolved : phase.Resolved db event) :
    Mailed db' (decisions ++ phase.decision event metadata db input) ∧ KeepsMarks db db' ∧
      ∀ mail ∈ db'.mails, mail ∈ db.mails ∨
        ⟨mail.source, .processed⟩ ∈ phase.decision event metadata db input := by
  obtain ⟨rfl, hnone⟩ | ⟨hcommits, hone, drafts, now, rfl, henqueue⟩ :=
    enqueueNotificationEvent_commits hstep
  · exact ⟨h.keeps rfl (.refl _) _, .refl _, fun mail hmail => .inl hmail⟩
  · rw [hone]
    refine ⟨h.enqueue henqueue (hsole hcommits) hresolved,
      (NotificationDb.enqueue_marks henqueue).1, fun mail hmail => ?_⟩
    rw [(NotificationDb.enqueue_ok henqueue).2.2] at hmail
    obtain hold | hsource := mem_createMails hmail
    · exact .inl hold
    · exact .inr (by rw [hsource]; exact List.mem_singleton_self _)

/-! ## Tasks -/

def ConsumerPhase.Resolved (db : NotificationDb) : ConsumerPhase → Prop
  | .enqueue event phase => phase.Resolved db event
  | .arrived | .failing _ _ | .terminal _ _ _ => True

/-- The mails about the event's auction were enqueued since so many decisions. -/
def MailedSince (decisions : List Decision) (count : Nat) (mails : List QueuedMail)
    (event : ReceivedEvent) : Prop :=
  ∀ mail ∈ mails, event.auction ≠ none → mail.source.auction = event.auction →
    ⟨mail.source, .processed⟩ ∈ decisions.drop count

/-- Before its scan nothing was enqueued about the auctions of a recovery run. -/
def NotificationTask.Scanned (db : NotificationDb) (decisions : List Decision) :
    NotificationTask → Prop
  | .consumer _ phase _ => phase.Resolved db
  | .recovery event phase rest scanned =>
    phase.Resolved db event ∧ scanned ≤ decisions.length ∧
      ∀ e ∈ event :: rest, MailedSince decisions scanned db.mails e

theorem EnqueuePhase.Resolved.keeps (h : phase.Resolved db event) (hproducts : KeepsMarks db db') :
    phase.Resolved db' event := by
  cases phase with
  | existing | resolve => trivial
  | receipt | commit => exact hproducts.known h

/-- Later decisions and their mails do not matter. -/
theorem NotificationTask.Scanned.keeps {task : NotificationTask} (h : task.Scanned db decisions)
    (hproducts : KeepsMarks db db')
    (hmails : ∀ mail ∈ db'.mails, mail ∈ db.mails ∨
      ⟨mail.source, .processed⟩ ∈ decided) :
    task.Scanned db' (decisions ++ decided) := by
  cases task with
  | consumer message phase looked =>
    cases phase with
    | enqueue event phase => exact EnqueuePhase.Resolved.keeps h hproducts
    | arrived | failing | terminal => trivial
  | recovery event phase rest scanned =>
    obtain ⟨hresolved, hle, hsince⟩ := h
    refine ⟨hresolved.keeps hproducts, ?_, fun e he mail hmail hauction hsame => ?_⟩
    · rw [List.length_append]
      omega
    · rw [List.drop_append_of_le_length hle]
      obtain hold | hnew := hmails mail hmail
      · exact List.mem_append_left _ (hsince e he mail hold hauction hsame)
      · exact List.mem_append_right _ hnew

theorem processKafkaMessage_resolved {message : IncomingMessage} {phase phase' : ConsumerPhase}
    {input : StepInput}
    (h : processKafkaMessage topics groupId retryLimit sha256 message db phase (input.within db) =
      some (db', .proceed phase')) (hresolved : phase.Resolved db) : phase'.Resolved db := by
  generalize hinput : input.within db = found at h
  unfold processKafkaMessage at h
  split at h
  · obtain ⟨-, hgoes⟩ := Prod.mk.inj (Option.some.inj h)
    dsimp only [receive] at hgoes
    split at hgoes
    · cases hgoes
    · split at hgoes
      · cases hgoes
        trivial
      · split at hgoes <;> cases hgoes
        trivial
  · obtain ⟨⟨enqueued, result⟩, henqueue, hresult⟩ := Option.map_eq_some_iff.mp h
    cases result with
    | returned => cases hresult
    | threw => cases hresult; trivial
    | proceed next =>
      cases hresult
      rw [← hinput] at henqueue
      exact enqueueNotificationEvent_resolved henqueue hresolved
  · obtain ⟨-, hgoes⟩ := Prod.mk.inj (Option.some.inj h)
    split at hgoes
    · cases hgoes
    · split at hgoes <;> cases hgoes
      trivial
  · split at h
    · cases h
    · obtain ⟨-, hgoes⟩ := Prod.mk.inj (Option.some.inj h)
      split at hgoes <;> cases hgoes
  · cases h

/-- What a handler does outside of an attempt is not about mails. -/
theorem processKafkaMessage_frame {message : IncomingMessage} {phase : ConsumerPhase}
    {input : StepInput} {outcome : Progress ConsumerPhase String}
    (h : processKafkaMessage topics groupId retryLimit sha256 message db phase input =
      some (db', outcome)) (hphase : ∀ event attempt, phase ≠ .enqueue event attempt) :
    db'.mails = db.mails ∧ db'.products = db.products := by
  unfold processKafkaMessage at h
  split at h
  · cases h
    exact ⟨rfl, rfl⟩
  · exact absurd rfl (hphase _ _)
  · rename_i event error answer failure now generated
    cases h
    cases answer.effective <;> exact ⟨rfl, rfl⟩
  · rename_i event attempts error answer failure now generated
    split at h
    · cases h
      exact ⟨rfl, rfl⟩
    · rename_i reported hreported
      obtain ⟨row, rfl, -⟩ := terminalReceipt_ok hreported
      cases h
      cases answer.effective <;> exact ⟨rfl, rfl⟩
  · cases h

theorem KeepsMarks.of_eq (h : db'.products = db.products) : KeepsMarks db db' :=
  fun _ product hproduct => ⟨product, h ▸ hproduct, id⟩

/-- So does a step of a handler. -/
theorem Mailed.handle (h : Mailed db decisions) {message : IncomingMessage}
    {phase : ConsumerPhase} {input : StepInput} {outcome : Progress ConsumerPhase String}
    (hstep : processKafkaMessage topics groupId retryLimit sha256 message db phase input =
      some (db', outcome))
    (hsole : ∀ event attempt, phase = .enqueue event attempt → attempt.commits input = true →
      Sole event db.mails) (hresolved : phase.Resolved db) :
    Mailed db' (decisions ++ phase.decision message db input) ∧ KeepsMarks db db' ∧
      ∀ mail ∈ db'.mails, mail ∈ db.mails ∨
        ⟨mail.source, .processed⟩ ∈ phase.decision message db input := by
  by_cases hphase : ∃ event attempt, phase = .enqueue event attempt
  · obtain ⟨event, attempt, rfl⟩ := hphase
    obtain ⟨⟨enqueued, result⟩, henqueue, hresult⟩ := Option.map_eq_some_iff.mp hstep
    obtain rfl : enqueued = db' := by cases result <;> exact congrArg Prod.fst hresult
    exact h.attempt henqueue (hsole event attempt rfl) hresolved
  · obtain ⟨hmails, hproducts⟩ := processKafkaMessage_frame hstep fun event attempt heq =>
      hphase ⟨event, attempt, heq⟩
    exact ⟨h.keeps hmails (.of_eq hproducts) _, .of_eq hproducts,
      fun mail hmail => .inl (hmails.subst hmail)⟩

/-- The invariant of the intake. -/
structure NotificationWorld.Single (w : NotificationWorld) : Prop where
  mailed : Mailed w.db w.decisions
  scanned : ∀ task ∈ w.tasks, task.Scanned w.db w.decisions

@[simp] theorem EnqueuePhase.commits_within (phase : EnqueuePhase) (input : StepInput) :
    phase.commits (input.within db) = phase.commits input := by
  cases input with
  | flags | query | write => rfl
  | rows tables => cases tables <;> cases phase <;> rfl

/-- The scan finds auctions without mails. -/
theorem Mailed.recovery (h : Mailed db decisions)
    (hunmarked : (db.products productId).any (·.Unmarked) = true) (endTime : Option DateMs) :
    MailedSince decisions decisions.length db.mails
      (recoveryEvent sha256 productId endTime now) := by
  intro mail hmail _ hsame
  have hcloses : closesAuction (recoveryEvent sha256 productId endTime now).eventType = true :=
    show closesAuction "auction.closed.v1" = true by decide
  have hid : bigInt (recoveryEvent sha256 productId endTime now).aggregateId = .ok productId :=
    bigInt_toString productId
  have hauction : (recoveryEvent sha256 productId endTime now).auction = some productId := by
    unfold ReceivedEvent.auction
    rw [if_pos hcloses, hid]
    rfl
  obtain ⟨product, hproduct, hmarked⟩ := h.marked mail hmail productId (hsame.trans hauction)
  rw [show db.products productId = some product from hproduct] at hunmarked
  exact absurd (of_decide_eq_true hunmarked).2 hmarked

namespace NotificationWorld
variable {w w' : NotificationWorld} {a : NotificationAction} {index : Nat} {input : StepInput}

/-- A transaction of a handler that is undisturbed is the first about the end. -/
theorem Single.sole_consumer (h : w.Single) (hok : w.Undisturbed (.step index input))
    {message : IncomingMessage} {attempt : EnqueuePhase} {looked : Nat}
    (hindex : w.tasks[index]? = some (.consumer message (.enqueue event attempt) looked))
    (hcommits : attempt.commits input = true) : Sole event w.db.mails := by
  intro mail hmail hauction hsame
  have henqueued : w.enqueued (.step index input) = some (event, 0) := by
    simp only [enqueued, hindex, hcommits, if_true]
  exact hok _ henqueued _ (h.mailed.decided mail hmail) rfl hauction hsame

/-- So is one of a recovery run. -/
theorem Single.sole_recovery (h : w.Single) (hok : w.Undisturbed (.step index input))
    {rest : List ReceivedEvent} {scanned : Nat}
    (hindex : w.tasks[index]? = some (.recovery event phase rest scanned))
    (hcommits : phase.commits input = true) : Sole event w.db.mails := by
  intro mail hmail hauction hsame
  have henqueued : w.enqueued (.step index input) = some (event, scanned) := by
    simp only [enqueued, hindex, hcommits, if_true]
  obtain ⟨-, -, hsince⟩ := h.scanned _ (List.mem_of_getElem? hindex)
  exact hok _ henqueued _ (hsince event List.mem_cons_self mail hmail hauction hsame) rfl hauction
    hsame

/-- Undisturbed steps keep the invariant. -/
theorem Single.step (h : w.Single) (hok : w.Undisturbed a)
    (hstep : StepOf (NotificationWorld.next topics groupId retryLimit sha256) w a w') :
    w'.Single := by
  unfold StepOf at hstep
  cases a with
  | deliver message =>
    cases hstep
    refine ⟨h.mailed, fun task htask => ?_⟩
    obtain hold | hnew := List.mem_append.mp htask
    · exact h.scanned task hold
    · obtain rfl := List.mem_singleton.mp hnew
      trivial
  | scan products now =>
    simp only [next] at hstep
    split at hstep
    · rename_i hunmarked
      cases hstep
      refine ⟨h.mailed, fun task htask => ?_⟩
      obtain hold | hnew := List.mem_append.mp htask
      · exact h.scanned task hold
      · obtain ⟨event, rest, hevents, rfl⟩ := mem_recoveryTask hnew
        refine ⟨trivial, le_rfl, fun e he => ?_⟩
        rw [← hevents] at he
        obtain ⟨productId, hproduct, rfl⟩ := List.mem_map.mp he
        exact h.mailed.recovery (hunmarked productId hproduct) _
    · cases hstep
  | step index input =>
    simp only [next, advance] at hstep
    split at hstep
    · rename_i message phase looked hindex
      obtain ⟨⟨db', outcome⟩, hhandle, rfl⟩ := Option.map_eq_some_iff.mp hstep
      have hresolved := h.scanned _ (List.mem_of_getElem? hindex)
      obtain ⟨hmailed, hproducts, hmails⟩ := h.mailed.handle hhandle
        (fun event attempt heq hcommits =>
          h.sole_consumer hok (heq ▸ hindex) (by simpa using hcommits)) hresolved
      refine ⟨hmailed, fun task htask => ?_⟩
      obtain hold | hnew := mem_replace htask
      · exact (h.scanned task hold).keeps hproducts hmails
      · obtain ⟨phase', rfl, rfl⟩ := mem_consumerTask hnew
        have hnext : (NotificationTask.consumer message phase' looked).Scanned w.db w.decisions :=
          processKafkaMessage_resolved hhandle hresolved
        exact hnext.keeps hproducts hmails
    · rename_i event phase rest scanned hindex
      obtain ⟨⟨db', outcome⟩, hattempt, rfl⟩ := Option.map_eq_some_iff.mp hstep
      obtain ⟨hresolved, hle, hsince⟩ := h.scanned _ (List.mem_of_getElem? hindex)
      obtain ⟨hmailed, hproducts, hmails⟩ := h.mailed.attempt hattempt
        (fun hcommits => h.sole_recovery hok hindex (by simpa using hcommits)) hresolved
      refine ⟨hmailed, fun task htask => ?_⟩
      obtain hold | hnew := mem_replace htask
      · exact (h.scanned task hold).keeps hproducts hmails
      · have hnext : task.Scanned w.db w.decisions := by
          obtain ⟨phase', rfl, rfl⟩ | ⟨next, others, rfl, rfl⟩ := mem_recoveryTasks hnew
          · exact ⟨enqueueNotificationEvent_resolved hattempt hresolved, hle, hsince⟩
          · exact ⟨trivial, hle, fun e he => hsince e (List.mem_cons_of_mem _ he)⟩
        exact hnext.keeps hproducts hmails
    · cases hstep
  | crash index =>
    cases hstep
    refine ⟨h.mailed, fun task htask => ?_⟩
    obtain hold | ⟨⟨⟩⟩ := mem_replace htask
    exact h.scanned task hold
  | product productId status endTime =>
    cases hstep
    have hproducts : KeepsMarks w.db _ := updateProduct_marks productId status endTime
    have hmails : (w.db.updateProduct productId status endTime).mails = w.db.mails := rfl
    have hmailed := h.mailed.keeps hmails hproducts []
    refine ⟨List.append_nil w.decisions ▸ hmailed, fun task htask => ?_⟩
    have hkept : task.Scanned (w.db.updateProduct productId status endTime) (w.decisions ++ []) :=
      (h.scanned task htask).keeps hproducts fun mail hmail => .inl hmail
    exact List.append_nil w.decisions ▸ hkept

end NotificationWorld

end

/-- In a run of any handlers and recovery runs, with any redeliveries and crashes, a recipient gets
each mail about the end of an auction once, where no transaction about it is carried out for another
event before that of a handler, or between the scan and the transaction of a recovery run. -/
theorem mailed_once {topics : KafkaTopics} {groupId : String} {retryLimit : Nat}
    {sha256 : String → String} {w : NotificationWorld} {as : List NotificationAction}
    (hrun : Run (Guarded NotificationWorld.Undisturbed
      (StepOf (NotificationWorld.next topics groupId retryLimit sha256))) {} as w) :
    Run.Always (NotificationWorld.next topics groupId retryLimit sha256)
      (fun w => MailedOnce w.db.mails) {} as := by
  have hinitial : NotificationWorld.Single {} := by
    refine ⟨⟨List.Pairwise.nil, ?_, ?_⟩, ?_⟩
    · rintro mail ⟨⟩
    · rintro mail ⟨⟩
    · rintro task ⟨⟩
  exact Run.always_of_guarded (fun _ h => h.mailed.once)
    (fun _ _ _ hstep hok h => h.step hok hstep) hrun hinitial

namespace Sample

/-- An auction that ends, and the first steps of a recovery run that finds it unmarked. -/
def scannedAuction : List NotificationAction :=
  [.product 1 .ended (some (time 0)), .scan [1] (time 10), .step 0 (.query none),
    .step 0 (.rows (.ok notificationTables)), .step 0 (.query none)]

/-- The delivery of the closing event; its transaction is carried out last. -/
def closingDelivery (task : Nat) : List NotificationAction :=
  [.deliver closingMessage, .step task (.flags false (time 20)), .step task (.query none),
    .step task (.rows (.ok notificationTables)), .step task (.query none),
    .step task (written 30 firstId)]

/-- Another auction, whose event is lost. -/
def otherTables : NotificationTables :=
  { notificationTables with
    products := fun productId =>
      if productId = 2 then some ⟨some "Chair", some 50, 9, none⟩ else none }

/-- The event of an auction is delivered twice, and two recovery runs find another auction, for
which no event comes. Their transactions are carried out one after the other. -/
def closedAndRecovered : List NotificationAction :=
  .product 1 .ended (some (time 0)) :: closingDelivery 0 ++
    [.deliver closingMessage, .step 0 (.flags false (time 40)), .step 0 (.query none),
      .product 2 .ended (some (time 50)), .scan [2] (time 60), .scan [2] (time 60),
      .step 0 (.query none), .step 1 (.query none), .step 0 (.rows (.ok otherTables)),
      .step 1 (.rows (.ok otherTables)), .step 0 (.query none), .step 1 (.query none),
      .step 0 (written 70 firstId), .step 0 (written 80 secondId)]

/-- The delivery is done before the recovery run, which found the auction unmarked. -/
def overtakenRecovery : List NotificationAction :=
  scannedAuction ++ closingDelivery 1 ++ [.step 0 (written 50 secondId)]

end Sample

theorem mailed_once_sample :
    Run.Always (NotificationWorld.next {} "notification-intake-v1" 5 Sample.sha256)
        (fun w => MailedOnce w.db.mails) {} Sample.closedAndRecovered ∧
      ((Run.final (NotificationWorld.next {} "notification-intake-v1" 5 Sample.sha256) {}
        Sample.closedAndRecovered).db.mails.map fun mail => mail.source.aggregateId) = ["1", "2"] :=
  ⟨mailed_once (Run.to_final_guarded (by decide +kernel)), by decide +kernel⟩

/-- The seller is told twice that the auction has ended. -/
theorem mailedOnce_overtaken : ¬ ∀ (topics : KafkaTopics) (groupId : String) (retryLimit : Nat)
    (sha256 : String → String) (as : List NotificationAction) (w : NotificationWorld),
    Run (StepOf (NotificationWorld.next topics groupId retryLimit sha256)) {} as w →
    MailedOnce w.db.mails := by
  intro h
  exact absurd (h {} "notification-intake-v1" 5 Sample.sha256 Sample.overtakenRecovery _
    (Run.to_final (by decide +kernel))) (by decide +kernel)

end MiracleAuction.Messaging
