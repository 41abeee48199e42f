import MiracleAuction.Recovery.Cycle

/-!
# What a step can do

Every step of a worker writes at most one part of the platform, and stays with its attempt or ends
it.
-/
namespace MiracleAuction
namespace Recovery

/-- The attempt that is under way. -/
def Phase.attempt : Phase → Option Attempt
  | .upsertRun a | .setFences a | .captureWatermarks a | .drain a _ | .renewDraining a _ | .extend a
  | .renewExtended a | .refresh a | .rebuild a _ | .bootstrap a _ _ _ _ | .reconcile a _ _
  | .renewRebuilt a _ | .restore a | .writeManifest a _ | .complete a _ | .removeFences a
  | .fail a => some a
  | _ => none

/-- What the worker's step writes, by the phase that it starts in. -/
inductive PlatformCases (config : Config) (ownerId : Nat) (input : Input) (s : Platform) :
    Phase → Platform → Prop
  | keeps (phase : Phase) : PlatformCases config ownerId input s phase s
  | writesManifest (phase : Phase) (generation : Uuid) (epoch : Nat) :
      PlatformCases config ownerId input s phase (s.writeManifest config input generation epoch)
  | touches (now : DateMs) : PlatformCases config ownerId input s (.touch now)
      (s.setControl { s.control with lastRedisHealthyAt := now })
  | claims {trigger : Trigger} {targetProductIds : List Nat} {row : ControlRow}
      (h : s.control.claim config ownerId input.now = some row) :
      PlatformCases config ownerId input s (.claim trigger targetProductIds) (s.setControl row)
  | records (a : Attempt) :
      PlatformCases config ownerId input s (.upsertRun a) (s.upsertRun a.epoch)
  | setsFences (a : Attempt) :
      PlatformCases config ownerId input s (.setFences a) (s.fences config a input true)
  | renews {phase : Phase} {a : Attempt} {row : ControlRow} (hattempt : phase.attempt = some a)
      (h : s.control.renewLease config ownerId a.epoch input.clock = some row) :
      PlatformCases config ownerId input s phase (s.setControl row)
  | prolongs {a : Attempt} {T : Tables} {db : Database} (htrigger : a.trigger = .fullDataLoss)
      (h : extendInterruptedAuctions config input.clock input.now a.lastRedisHealthyAt a.epoch
        s.tables s.database = some (T, db)) :
      PlatformCases config ownerId input s (.extend a)
        { s with database := db, delivery := { s.delivery with tables := T } }
  | loads {a : Attempt} {p : Nat} {rest : List Nat} {T : Tables} {now : DateMs} {k : AuctionKeys}
      (h : k = (bootstrapRedisAuction p true true now T (s.redis.keys config p)).2 ∨
        k = Bootstrap.forget (s.redis.keys config p) ∨ k = s.redis.keys config p) :
      PlatformCases config ownerId input s (.bootstrap a p rest T now)
        { s with redis := s.redis.setKeys p k }
  | restores (a : Attempt) :
      PlatformCases config ownerId input s (.restore a) (s.restoreRecords config input)
  | completes {a : Attempt} (completedAt : DateMs) (h : a.epoch ∈ s.database.runs) :
      PlatformCases config ownerId input s (.complete a completedAt)
        (s.setControl (s.control.complete completedAt))
  | liftsFences (a : Attempt) :
      PlatformCases config ownerId input s (.removeFences a) (s.fences config a input false)
  | fails (a : Attempt) : PlatformCases config ownerId input s (.fail a)
      (s.setControl (s.control.failed ownerId a.epoch))

section
variable {config : Config} {ownerId : Nat} {input : Input} {s s' : Platform} {w w' : Worker}
  {a : Attempt} {phase next : Phase}

theorem PlatformCases.when {effective : Bool} (h : PlatformCases config ownerId input s phase s') :
    PlatformCases config ownerId input s phase (s.when effective s') := by
  cases effective with
  | false => exact .keeps phase
  | true => exact h

theorem renew_platform (hattempt : phase.attempt = some a) :
    PlatformCases config ownerId input s phase (w.renew config ownerId input s a next).1 := by
  unfold Worker.renew
  split
  · exact .renews hattempt ‹_›
  · exact (PlatformCases.renews hattempt ‹_›).when
  · exact .keeps phase

theorem claim_platform {trigger : Trigger} {targetProductIds : List Nat} :
    PlatformCases config ownerId input s (.claim trigger targetProductIds)
      (w.claim config ownerId input s trigger targetProductIds).1 := by
  unfold Worker.claim
  split
  · exact .claims ‹_›
  · exact (PlatformCases.claims ‹_›).when
  · exact .keeps _
  · exact .keeps _

theorem extend_platform :
    PlatformCases config ownerId input s (.extend a) (w.extend config input s a).1 := by
  unfold Worker.extend
  split
  · rename_i htrigger
    split
    · exact .prolongs htrigger ‹_›
    · exact (PlatformCases.prolongs htrigger ‹_›).when
    · exact .keeps _
  · exact .keeps _

theorem load_platform {p : Nat} {rest : List Nat} {T : Tables} {now : DateMs} :
    PlatformCases config ownerId input s (.bootstrap a p rest T now)
      (w.load config input s a p rest T now).1 := by
  unfold Worker.load
  dsimp only
  split
  · exact .loads (.inl rfl)
  · exact .loads (.inl rfl)
  · refine .loads ?_
    split
    · exact .inl rfl
    · split
      · exact .inr (.inl rfl)
      · exact .inr (.inr rfl)

theorem complete_platform {completedAt : DateMs} :
    PlatformCases config ownerId input s (.complete a completedAt)
      (w.complete input s a completedAt).1 := by
  unfold Worker.complete
  split
  · rename_i hrun
    dsimp only
    split
    · exact .completes completedAt hrun
    · exact (PlatformCases.completes completedAt hrun).when
  · exact .keeps _

theorem fail_platform :
    PlatformCases config ownerId input s (.fail a) (Worker.fail ownerId input s a).1 := by
  unfold Worker.fail
  dsimp only
  split
  · exact .fails a
  · exact (PlatformCases.fails a).when

/-- What a step of a worker writes. -/
theorem advance_platform (h : w.advance config ownerId input s = some (s', w')) :
    PlatformCases config ownerId input s w.phase s' := by
  obtain ⟨phase, runtime⟩ := w
  unfold Worker.advance at h
  cases phase with
  | idle => cases h; exact .keeps _
  | findControl =>
    dsimp only at h
    split at h <;> cases h <;> exact .keeps _
  | findProducts control =>
    dsimp only at h
    split at h
    · split at h
      · cases h
        exact .keeps _
      · cases h
    · cases h
      exact .keeps _
  | inspect control productIds =>
    dsimp only at h
    split at h <;> cases h <;> exact .keeps _
  | adopt control now =>
    dsimp only at h
    split at h <;> cases h <;> exact .writesManifest _ _ _
  | touch now =>
    dsimp only at h
    split at h
    · cases h
      exact .touches now
    · cases h
      exact (PlatformCases.touches now).when
  | claim trigger targetProductIds =>
    obtain rfl := congrArg Prod.fst (Option.some.inj h)
    exact claim_platform
  | upsertRun a =>
    dsimp only at h
    split at h
    · cases h
      exact .records a
    · cases h
      exact (PlatformCases.records a).when
  | setFences a => cases h; exact .setsFences a
  | captureWatermarks a => cases h; exact .keeps _
  | drain a watermarks => cases h; exact .keeps _
  | renewDraining a watermarks =>
    obtain rfl := congrArg Prod.fst (Option.some.inj h)
    exact renew_platform rfl
  | extend a =>
    obtain rfl := congrArg Prod.fst (Option.some.inj h)
    exact extend_platform
  | renewExtended a =>
    obtain rfl := congrArg Prod.fst (Option.some.inj h)
    exact renew_platform rfl
  | refresh a =>
    dsimp only at h
    split at h
    · cases h
      exact .keeps _
    · split at h
      · cases h
        exact .keeps _
      · cases h
  | rebuild a rest =>
    cases rest with
    | nil => cases h; exact .keeps _
    | cons productId rest => cases h; exact .keeps _
  | bootstrap a productId rest T now =>
    obtain rfl := congrArg Prod.fst (Option.some.inj h)
    exact load_platform
  | reconcile a productId rest => cases h; exact .keeps _
  | renewRebuilt a rest =>
    obtain rfl := congrArg Prod.fst (Option.some.inj h)
    exact renew_platform rfl
  | restore a =>
    dsimp only at h
    split at h
    · cases h
      exact .restores a
    · cases h
      exact (PlatformCases.restores a).when
  | writeManifest a completedAt => cases h; exact .writesManifest _ _ _
  | complete a completedAt =>
    obtain rfl := congrArg Prod.fst (Option.some.inj h)
    exact complete_platform
  | removeFences a =>
    dsimp only at h
    split at h <;> cases h <;> exact .liftsFences a
  | fail a =>
    obtain rfl := congrArg Prod.fst (Option.some.inj h)
    exact fail_platform

/-! ## The phases of a worker -/

/-- What the inspection of these products finds. -/
abbrev Platform.inspection (s : Platform) (config : Config) (input : Input) (control : ControlRow)
    (productIds : List Nat) : Inspection :=
  inspectRedisAuthority config input.seen productIds control.generation control.recoveryEpoch
    s.tables s.redis

/-- The phase after a step from `s` to `s'`, with what the step has established. -/
inductive Follows (config : Config) (ownerId : Nat) (input : Input) (s s' : Platform) :
    Phase → Phase → Prop
  | begins : Follows config ownerId input s s' .idle .findControl
  | finds : Follows config ownerId input s s' .findControl (.findProducts s.control)
  | lists {control : ControlRow} (h : s.lists input.order) :
      Follows config ownerId input s s' (.findProducts control) (.inspect control input.order)
  | adopts {control : ControlRow} {productIds : List Nat} (hready : control.state = .ready)
      (hfence : (s.inspection config input control productIds).fencePresent = false)
      (hmissing : (s.inspection config input control productIds).missingProductIds = []) :
      Follows config ownerId input s s' (.inspect control productIds) (.adopt control input.clock)
  | confirms {control : ControlRow} {productIds : List Nat} (hready : control.state = .ready)
      (hfence : (s.inspection config input control productIds).fencePresent = false)
      (hmissing : (s.inspection config input control productIds).missingProductIds = []) :
      Follows config ownerId input s s' (.inspect control productIds) (.touch input.clock)
  | blames {control : ControlRow} {productIds : List Nat} {trigger : Trigger}
      (h : trigger = (s.inspection config input control productIds).trigger productIds) :
      Follows config ownerId input s s' (.inspect control productIds)
        (.claim trigger (if trigger.isGlobal then []
          else (s.inspection config input control productIds).missingProductIds))
  | written {control : ControlRow} {now : DateMs} :
      Follows config ownerId input s s' (.adopt control now) (.touch now)
  | stops {phase : Phase} (hattempt : phase.attempt = none) :
      Follows config ownerId input s s' phase .idle
  | claims {trigger : Trigger} {targetProductIds : List Nat} {row : ControlRow}
      (h : s.control.claim config ownerId input.now = some row) (hs : s' = s.setControl row) :
      Follows config ownerId input s s' (.claim trigger targetProductIds) (.upsertRun
        ⟨trigger, targetProductIds, row.generation, row.recoveryEpoch, row.lastRedisHealthyAt⟩)
  | unrecorded (a : Attempt) : Follows config ownerId input s s' (.upsertRun a) .idle
  | recorded (a : Attempt) : Follows config ownerId input s s' (.upsertRun a) (.setFences a)
  | fenced (a : Attempt) (hs : s' = s.fences config a input true)
      (hresponse : input.response = .completes) :
      Follows config ownerId input s s' (.setFences a) (.captureWatermarks a)
  | captured (a : Attempt) :
      Follows config ownerId input s s' (.captureWatermarks a) (.drain a s.watermarks)
  | drained {a : Attempt} {watermarks : Nat → Nat} (h : s.drained a watermarks) :
      Follows config ownerId input s s' (.drain a watermarks) (.extend a)
  | undrained (a : Attempt) (watermarks : Nat → Nat) :
      Follows config ownerId input s s' (.drain a watermarks) (.renewDraining a watermarks)
  | draining (a : Attempt) (watermarks : Nat → Nat) :
      Follows config ownerId input s s' (.renewDraining a watermarks) (.drain a watermarks)
  | extended {a : Attempt} {T : Tables} {db : Database} (htrigger : a.trigger = .fullDataLoss)
      (h : extendInterruptedAuctions config input.clock input.now a.lastRedisHealthyAt a.epoch
        s.tables s.database = some (T, db))
      (hs : s' = { s with database := db, delivery := { s.delivery with tables := T } }) :
      Follows config ownerId input s s' (.extend a) (.renewExtended a)
  | unextended {a : Attempt} (htrigger : a.trigger ≠ .fullDataLoss) :
      Follows config ownerId input s s' (.extend a) (.renewExtended a)
  | renewed (a : Attempt) : Follows config ownerId input s s' (.renewExtended a) (.refresh a)
  | targets {a : Attempt} (htrigger : a.trigger.isGlobal = false) :
      Follows config ownerId input s s' (.refresh a) (.rebuild a a.targetProductIds)
  | refreshes {a : Attempt} (htrigger : a.trigger.isGlobal = true) (h : s.lists input.order) :
      Follows config ownerId input s s' (.refresh a) (.rebuild a input.order)
  | rebuilt (a : Attempt) : Follows config ownerId input s s' (.rebuild a []) (.restore a)
  | seeds (a : Attempt) (p : Nat) (rest : List Nat) :
      Follows config ownerId input s s' (.rebuild a (p :: rest))
        (.bootstrap a p rest s.tables input.clock)
  | locked (a : Attempt) (p : Nat) (rest : List Nat) :
      Follows config ownerId input s s' (.rebuild a (p :: rest)) (.reconcile a p rest)
  | loaded {a : Attempt} {p : Nat} {rest : List Nat} {T : Tables} {now : DateMs} {loads : Bool}
      (h : (bootstrapRedisAuction p true true now T (s.redis.keys config p)).1 = .ok loads)
      (hs : s' = { s with
        redis := s.redis.setKeys p
          (bootstrapRedisAuction p true true now T (s.redis.keys config p)).2 }) :
      Follows config ownerId input s s' (.bootstrap a p rest T now) (.reconcile a p rest)
  | reconciled {a : Attempt} {p : Nat} {rest : List Nat}
      (h : Converges p (s.redis.keys config p) s.tables) :
      Follows config ownerId input s s' (.reconcile a p rest) (.renewRebuilt a rest)
  | kept (a : Attempt) (rest : List Nat) :
      Follows config ownerId input s s' (.renewRebuilt a rest) (.rebuild a rest)
  | restored (a : Attempt) :
      Follows config ownerId input s s' (.restore a) (.writeManifest a input.clock)
  | signed (a : Attempt) (completedAt : DateMs) :
      Follows config ownerId input s s' (.writeManifest a completedAt) (.complete a completedAt)
  | completed {a : Attempt} {completedAt : DateMs}
      (hs : s' = s.setControl (s.control.complete completedAt)) :
      Follows config ownerId input s s' (.complete a completedAt) (.removeFences a)
  | lifted (a : Attempt) (hs : s' = s.fences config a input false)
      (hresponse : input.response = .completes) :
      Follows config ownerId input s s' (.removeFences a) .idle
  | fails {phase : Phase} {a : Attempt} (hattempt : phase.attempt = some a) :
      Follows config ownerId input s s' phase (.fail a)
  | failed (a : Attempt) : Follows config ownerId input s s' (.fail a) .idle

theorem proceed_follows {phase next : Phase} (hattempt : phase.attempt = some a)
    (hnext : input.response = .completes → Follows config ownerId input s s' phase next) :
    Follows config ownerId input s s' phase (w.proceed input a next).phase := by
  unfold Worker.proceed
  split
  · exact hnext ‹_›
  · exact .fails hattempt

theorem renew_follows {phase next : Phase} (hattempt : phase.attempt = some a)
    (hnext : Follows config ownerId input s s' phase next)
    (h : w.renew config ownerId input s a next = (s', w')) :
    Follows config ownerId input s s' phase w'.phase := by
  unfold Worker.renew at h
  split at h <;> cases h
  · exact hnext
  · exact .fails hattempt
  · exact .fails hattempt

theorem decide_follows {control : ControlRow} {productIds : List Nat} :
    Follows config ownerId input s s' (.inspect control productIds)
      (w.decide input control productIds (s.inspection config input control productIds)).phase := by
  unfold Worker.decide
  split
  · exact .stops rfl
  · split
    · rename_i hadopt
      exact .adopts hadopt.1 hadopt.2.1 hadopt.2.2.2
    · split
      · rename_i hconfirm
        exact .confirms hconfirm.2.2.2 hconfirm.2.1 hconfirm.2.2.1
      · exact .blames rfl

theorem claim_follows {trigger : Trigger} {targetProductIds : List Nat} {s' : Platform}
    (h : w.claim config ownerId input s trigger targetProductIds = (s', w')) :
    Follows config ownerId input s s' (.claim trigger targetProductIds) w'.phase := by
  unfold Worker.claim at h
  split at h <;> cases h
  · exact .claims ‹_› rfl
  · exact .stops rfl
  · exact .stops rfl
  · exact .stops rfl

theorem extend_follows (h : w.extend config input s a = (s', w')) :
    Follows config ownerId input s s' (.extend a) w'.phase := by
  unfold Worker.extend at h
  split at h
  · rename_i htrigger
    split at h <;> cases h
    · exact .extended htrigger ‹_› rfl
    · exact .fails rfl
    · exact .fails rfl
  · cases h
    exact .unextended ‹_›

theorem load_follows {p : Nat} {rest : List Nat} {T : Tables} {now : DateMs}
    (h : w.load config input s a p rest T now = (s', w')) :
    Follows config ownerId input s s' (.bootstrap a p rest T now) w'.phase := by
  unfold Worker.load at h
  dsimp only at h
  split at h <;> cases h
  · exact .loaded ‹_› rfl
  · exact .fails rfl
  · exact .fails rfl

theorem complete_follows {completedAt : DateMs} (h : w.complete input s a completedAt = (s', w')) :
    Follows config ownerId input s s' (.complete a completedAt) w'.phase := by
  unfold Worker.complete at h
  split at h
  · dsimp only at h
    split at h <;> cases h
    · exact .completed rfl
    · exact .fails rfl
  · cases h
    exact .fails rfl

theorem fail_follows (h : Worker.fail ownerId input s a = (s', w')) :
    Follows config ownerId input s s' (.fail a) w'.phase := by
  unfold Worker.fail at h
  dsimp only at h
  split at h <;> cases h <;> exact .failed a

/-- Where a step of a worker leads. -/
theorem advance_follows (h : w.advance config ownerId input s = some (s', w')) :
    Follows config ownerId input s s' w.phase w'.phase := by
  obtain ⟨phase, runtime⟩ := w
  unfold Worker.advance at h
  cases phase with
  | idle => cases h; exact .begins
  | findControl =>
    dsimp only at h
    split at h <;> cases h
    · exact .finds
    · exact .stops rfl
  | findProducts control =>
    dsimp only at h
    split at h
    · split at h
      · cases h
        exact .lists ‹_›
      · cases h
    · cases h
      exact .stops rfl
  | inspect control productIds =>
    dsimp only at h
    split at h <;> cases h
    · exact decide_follows
    · exact .stops rfl
  | adopt control now =>
    dsimp only at h
    split at h <;> cases h
    · exact .written
    · exact .stops rfl
  | touch now =>
    dsimp only at h
    split at h <;> cases h <;> exact .stops rfl
  | claim trigger targetProductIds => exact claim_follows (Option.some.inj h)
  | upsertRun a =>
    dsimp only at h
    split at h <;> cases h
    · exact .recorded a
    · exact .unrecorded a
  | setFences a => cases h; exact proceed_follows rfl (.fenced a rfl)
  | captureWatermarks a => cases h; exact proceed_follows rfl fun _ => .captured a
  | drain a watermarks =>
    cases h
    refine proceed_follows rfl fun _ => ?_
    split
    · exact .drained ‹_›
    · exact .undrained a watermarks
  | renewDraining a watermarks =>
    exact renew_follows rfl (.draining a watermarks) (Option.some.inj h)
  | extend a => exact extend_follows (Option.some.inj h)
  | renewExtended a => exact renew_follows rfl (.renewed a) (Option.some.inj h)
  | refresh a =>
    dsimp only at h
    split at h
    · cases h
      exact .targets ‹_›
    · rename_i htrigger
      split at h
      · rename_i hlists
        cases h
        exact proceed_follows rfl fun _ => .refreshes (by simpa using htrigger) hlists
      · cases h
  | rebuild a rest =>
    cases rest with
    | nil => cases h; exact .rebuilt a
    | cons p rest =>
      cases h
      refine proceed_follows rfl fun _ => ?_
      split
      · exact .locked a p rest
      · exact .seeds a p rest
  | bootstrap a p rest T now => exact load_follows (Option.some.inj h)
  | reconcile a p rest =>
    cases h
    refine proceed_follows rfl fun _ => ?_
    split
    · exact .reconciled ‹_›
    · exact .fails rfl
  | renewRebuilt a rest => exact renew_follows rfl (.kept a rest) (Option.some.inj h)
  | restore a =>
    dsimp only at h
    split at h <;> cases h
    · exact .restored a
    · exact .fails rfl
  | writeManifest a completedAt => cases h; exact proceed_follows rfl fun _ => .signed a completedAt
  | complete a completedAt => exact complete_follows (Option.some.inj h)
  | removeFences a =>
    dsimp only at h
    split at h <;> cases h
    · exact .lifted a rfl ‹_›
    · exact .fails rfl
  | fail a => exact fail_follows (Option.some.inj h)

/-! ## The runtime of a worker -/

theorem proceed_runtime {next : Phase} : (w.proceed input a next).runtime = w.runtime := by
  unfold Worker.proceed
  split <;> rfl

theorem renew_runtime {next : Phase} :
    (w.renew config ownerId input s a next).2.runtime = w.runtime := by
  unfold Worker.renew
  split <;> rfl

theorem extend_runtime : (w.extend config input s a).2.runtime = w.runtime := by
  unfold Worker.extend
  split
  · split <;> rfl
  · rfl

theorem load_runtime {p : Nat} {rest : List Nat} {T : Tables} {now : DateMs} :
    (w.load config input s a p rest T now).2.runtime = w.runtime := by
  unfold Worker.load
  dsimp only
  split <;> rfl

theorem complete_runtime {completedAt : DateMs} :
    (w.complete input s a completedAt).2.runtime = w.runtime := by
  unfold Worker.complete
  split
  · dsimp only
    split <;> rfl
  · rfl

theorem claim_runtime {trigger : Trigger} {targetProductIds : List Nat}
    (h : (w.claim config ownerId input s trigger targetProductIds).2.runtime.state = .ready) :
    w.runtime.state = .ready := by
  unfold Worker.claim at h
  split at h
  · exact h
  · exact h
  · cases h
  · exact h

theorem decide_runtime {control : ControlRow} {productIds : List Nat} {inspection : Inspection}
    (h : (w.decide input control productIds inspection).runtime.state = .ready) :
    w.runtime.state = .ready := by
  unfold Worker.decide at h
  split at h
  · cases h
  · split at h
    · exact h
    · split at h <;> exact h

theorem fail_runtime : (Worker.fail ownerId input s a).2.runtime.state = .failed := by
  unfold Worker.fail
  dsimp only
  split <;> rfl

/-- A runtime becomes ready after a healthy check, or when a recovery has lifted its fences. -/
theorem advance_ready (h : w.advance config ownerId input s = some (s', w'))
    (hbusy : w.phase ≠ .idle → w.runtime.state ≠ .ready)
    (hready : w'.runtime.state = .ready) :
    w'.phase = .idle ∧ ((∃ now, w.phase = .touch now) ∨ ∃ a, w.phase = .removeFences a ∧
      input.response = .completes ∧ s' = s.fences config a input false) := by
  obtain ⟨phase, runtime⟩ := w
  unfold Worker.advance at h
  cases phase with
  | idle => cases h; cases hready
  | touch now =>
    dsimp only at h
    split at h <;> cases h
    · exact ⟨rfl, .inl ⟨now, rfl⟩⟩
    · exact absurd hready (hbusy (by simp))
  | removeFences a =>
    dsimp only at h
    split at h <;> cases h
    · exact ⟨rfl, .inr ⟨a, rfl, ‹_›, rfl⟩⟩
    · exact absurd hready (hbusy (by simp))
  | upsertRun a =>
    dsimp only at h
    split at h <;> cases h
    · cases hready
    · exact absurd hready (hbusy (by simp))
  | fail a =>
    obtain rfl := congrArg Prod.snd (Option.some.inj h)
    cases fail_runtime.symm.trans hready
  | rebuild a rest =>
    refine absurd ?_ (hbusy (by simp))
    cases rest with
    | nil => cases h; exact hready
    | cons p rest => cases h; rwa [proceed_runtime] at hready
  | inspect control productIds =>
    refine absurd ?_ (hbusy (by simp))
    dsimp only at h
    split at h <;> cases h
    · exact decide_runtime hready
    · exact hready
  | claim trigger targetProductIds =>
    obtain rfl := congrArg Prod.snd (Option.some.inj h)
    exact absurd (claim_runtime hready) (hbusy (by simp))
  | findControl =>
    refine absurd ?_ (hbusy (by simp))
    dsimp only at h
    split at h <;> cases h <;> exact hready
  | findProducts control =>
    refine absurd ?_ (hbusy (by simp))
    dsimp only at h
    split at h
    · split at h
      · cases h
        exact hready
      · cases h
    · cases h
      exact hready
  | adopt control now =>
    refine absurd ?_ (hbusy (by simp))
    dsimp only at h
    split at h <;> cases h <;> exact hready
  | restore a =>
    refine absurd ?_ (hbusy (by simp))
    dsimp only at h
    split at h <;> cases h <;> exact hready
  | refresh a =>
    refine absurd ?_ (hbusy (by simp))
    dsimp only at h
    split at h
    · cases h
      exact hready
    · split at h
      · cases h
        rwa [proceed_runtime] at hready
      · cases h
  | _ =>
    obtain rfl := congrArg Prod.snd (Option.some.inj h)
    refine absurd ?_ (hbusy (by simp))
    simpa only [proceed_runtime, renew_runtime, extend_runtime, load_runtime, complete_runtime]
      using hready

/-! ## Everything else -/

/-- What happens besides the steps of the workers. -/
inductive NextCases (config : Config) (s : Platform) : WorldAction → Platform → Prop
  | delivers {x : DeliveryAction} {delivery : Delivery} (happend : ∀ entry, x ≠ .append entry)
      (h : s.delivery.next config.maxAttempts x = some delivery) :
      NextCases config s (.deliver x) { s with delivery := delivery }
  | calls {c : Call} {entryId : Nat}
      (h : (mutate c (s.redis.keys config c.command.productId)).2.stream.drop
        (s.redis.keys config c.command.productId).stream.length = []) :
      NextCases config s (.call c entryId) { s with
        redis := s.redis.setKeys c.command.productId
          (mutate c (s.redis.keys config c.command.productId)).2 }
  | appends {c : Call} {entryId : Nat} {event : AuctionStreamEvent}
      {events : List AuctionStreamEvent} {delivery : Delivery}
      (h : (mutate c (s.redis.keys config c.command.productId)).2.stream.drop
        (s.redis.keys config c.command.productId).stream.length = event :: events)
      (happend : s.delivery.next config.maxAttempts (.append
        { id := entryId, payload := .event event, shard := c.command.productId % config.clients }) =
          some delivery) :
      NextCases config s (.call c entryId) { s with
        redis := s.redis.setKeys c.command.productId
          (mutate c (s.redis.keys config c.command.productId)).2
        delivery := delivery }
  | expires {p : Nat} {x : Action} {k : AuctionKeys} (h : Keeps (s.redis.auctions p) k)
      (hfence : k.auctionRecoveryFence = (s.redis.auctions p).auctionRecoveryFence) :
      NextCases config s (.expire p x) { s with redis := s.redis.setKeys p k }
  | creates {p : Nat} {product : ProductRow} (hid : p ∉ s.database.productIds)
      (hrow : s.tables.products p = none) :
      NextCases config s (.create p product) { s with
        delivery := { s.delivery with
          tables := { s.tables with
            products := Function.update s.tables.products p (some product) } }
        database := { s.database with
          productIds := insert p s.database.productIds
          lastAuthorityRecoveryEpoch :=
            Function.update s.database.lastAuthorityRecoveryEpoch p 0 }
        created := insert p s.created }
  | bootstraps {p : Nat} {now : DateMs} (h : p ∈ s.created) :
      NextCases config s (.bootstrap p now) { s with
        redis := s.redis.setKeys p
          (bootstrapRedisAuction p false false now s.tables (s.redis.keys config p)).2
        created := s.created.erase p }
  | plans (client : Nat) (present : Bool) :
      NextCases config s (.plan client present) (s.plan client present)
  | loses (p : Nat) : NextCases config s (.lose p) (s.lose p)
  | losesAll : NextCases config s .loseAll s.loseAll

theorem next_cases {x : WorldAction} (h : s.next config x = some s') : NextCases config s x s' := by
  cases x with
  | advance ownerId input => cases h
  | deliver x =>
    unfold Platform.next Platform.deliver at h
    dsimp only at h
    split at h
    · cases h
    · rename_i happend
      obtain ⟨delivery, hnext, rfl⟩ := Option.map_eq_some_iff.mp h
      exact .delivers happend hnext
  | call c entryId =>
    unfold Platform.next Platform.call at h
    dsimp only at h
    split at h
    · cases h
      exact .calls ‹_›
    · obtain ⟨delivery, hnext, rfl⟩ := Option.map_eq_some_iff.mp h
      exact .appends ‹_› hnext
  | expire p x =>
    unfold Platform.next Platform.expire at h
    dsimp only at h
    split at h <;> cases h <;> exact .expires ⟨rfl, rfl, rfl, rfl⟩ rfl
  | create p product =>
    unfold Platform.next Platform.create at h
    dsimp only at h
    split at h
    · cases h
    · rename_i hnew
      cases h
      obtain ⟨hid, hrow⟩ := not_or.mp hnew
      exact .creates hid (not_not.mp hrow)
  | bootstrap p now =>
    unfold Platform.next Platform.bootstrap at h
    dsimp only at h
    split at h <;> cases h
    exact .bootstraps ‹_›
  | plan client present => cases h; exact .plans client present
  | lose p => cases h; exact .loses p
  | loseAll => cases h; exact .losesAll

/-- What happens to the keys of one auction besides the steps of the workers. -/
inductive KeysCases (config : Config) (s : Platform) (p : Nat) :
    WorldAction → AuctionKeys → Prop
  | keeps (x : WorldAction) : KeysCases config s p x (s.redis.auctions p)
  | called {c : Call} (entryId : Nat) (h : c.command.productId = p) :
      KeysCases config s p (.call c entryId) (mutate c (s.redis.keys config p)).2
  | expired {x : Action} {k : AuctionKeys} (h : Keeps (s.redis.auctions p) k)
      (hfence : k.auctionRecoveryFence = (s.redis.auctions p).auctionRecoveryFence) :
      KeysCases config s p (.expire p x) k
  | created {now : DateMs} (h : p ∈ s.created) : KeysCases config s p (.bootstrap p now)
      (bootstrapRedisAuction p false false now s.tables (s.redis.keys config p)).2
  | lost (x : WorldAction) : KeysCases config s p x {}

theorem setKeys_cases {r : Redis} {p q : Nat} {k : AuctionKeys} {motive : AuctionKeys → Prop}
    (hown : p = q → motive k) (hother : motive (r.auctions p)) :
    motive ((r.setKeys q k).auctions p) := by
  change motive (Function.update r.auctions q k p)
  by_cases heq : p = q
  · rw [heq, Function.update_self]
    exact hown heq
  · rw [Function.update_of_ne heq]
    exact hother

theorem NextCases.keys {x : WorldAction} (h : NextCases config s x s') (p : Nat) :
    KeysCases config s p x (s'.redis.auctions p) := by
  cases h with
  | calls =>
    refine setKeys_cases (fun heq => ?_) (.keeps _)
    rw [← heq]
    exact .called _ heq.symm
  | appends =>
    refine setKeys_cases (fun heq => ?_) (.keeps _)
    rw [← heq]
    exact .called _ heq.symm
  | expires hkeeps hfence =>
    refine setKeys_cases (fun heq => ?_) (.keeps _)
    subst heq
    exact .expired hkeeps hfence
  | bootstraps hcreated =>
    refine setKeys_cases (fun heq => ?_) (.keeps _)
    subst heq
    exact .created hcreated
  | loses => exact setKeys_cases (fun _ => .lost _) (.keeps _)
  | losesAll => exact .lost _
  | _ => exact .keeps _

/-! ## Fences -/

theorem script_fence {T : Tables} {p : Nat} {product : ProductRow} {now : DateMs} {recovery : Bool}
    {k : AuctionKeys} :
    (Bootstrap.script (Bootstrap.seed T p product now recovery) k).2.auctionRecoveryFence =
      k.auctionRecoveryFence := by
  unfold Bootstrap.script
  split
  · rfl
  · split
    · split <;> rfl
    · rfl

/-- No bootstrap touches the fence of the auction. -/
theorem bootstrap_fence {T : Tables} {p : Nat} {now : DateMs} {recovery force : Bool}
    {k : AuctionKeys} : (bootstrapRedisAuction p recovery force now T k).2.auctionRecoveryFence =
      k.auctionRecoveryFence := by
  unfold bootstrapRedisAuction
  split
  · rfl
  · rfl
  · split
    · rfl
    · rw [script_fence]
      split <;> rfl

theorem restore_fence {ttl : Int} {now : DateMs} {p : Nat} {transitions : List StoredTransition}
    {k : AuctionKeys} : (restoreRecentIdempotency ttl now p transitions k).auctionRecoveryFence =
      k.auctionRecoveryFence := by
  unfold restoreRecentIdempotency
  induction transitions.filter _ generalizing k with
  | nil => rfl
  | cons t ts ih =>
    rw [List.foldl_cons, ih]
    split <;> rfl

/-- Nobody but a worker sets a fence. -/
theorem NextCases.recoveryFence {x : WorldAction} {client : Nat} (h : NextCases config s x s')
    (hfence : s'.redis.recoveryFence client = true) : s.redis.recoveryFence client = true := by
  cases h with
  | losesAll => cases hfence
  | _ => exact hfence

/-- A worker closes the clients in a global attempt only. -/
theorem PlatformCases.recoveryFence {client : Nat}
    (h : PlatformCases config ownerId input s phase s')
    (hfence : s'.redis.recoveryFence client = true) :
    s.redis.recoveryFence client = true ∨
      ∃ a, phase = .setFences a ∧ a.trigger.isGlobal = true := by
  cases h with
  | setsFences a =>
    by_cases hglobal : a.trigger.isGlobal
    · exact .inr ⟨a, rfl, hglobal⟩
    · left
      unfold Platform.fences at hfence
      rw [if_neg hglobal] at hfence
      exact hfence
  | liftsFences a =>
    left
    unfold Platform.fences at hfence
    split at hfence
    · unfold Redis.setRecoveryFence at hfence
      dsimp only at hfence
      split at hfence
      · cases hfence
      · exact hfence
    · exact hfence
  | _ => exact .inl hfence

/-- A worker fences the targets of a partial attempt only. -/
theorem PlatformCases.auctionFence {p : Nat} (h : PlatformCases config ownerId input s phase s')
    (hfence : (s'.redis.auctions p).auctionRecoveryFence = true) :
    (s.redis.auctions p).auctionRecoveryFence = true ∨
      ∃ a, phase = .setFences a ∧ a.trigger.isGlobal = false ∧ p ∈ a.targetProductIds := by
  cases h with
  | setsFences a =>
    unfold Platform.fences at hfence
    split at hfence
    · exact .inl hfence
    · rename_i hglobal
      by_cases hp : p ∈ input.reaches a.targetProductIds
      · refine .inr ⟨a, rfl, by simpa using hglobal, ?_⟩
        unfold Input.reaches at hp
        split at hp
        · exact hp
        · exact (List.mem_filter.mp hp).1
      · left
        unfold Redis.setAuctionFences at hfence
        dsimp only at hfence
        rwa [if_neg hp] at hfence
  | liftsFences a =>
    left
    unfold Platform.fences at hfence
    split at hfence
    · exact hfence
    · unfold Redis.setAuctionFences at hfence
      dsimp only at hfence
      split at hfence
      · cases hfence
      · exact hfence
  | loads hk =>
    left
    refine setKeys_cases (motive := fun k => k.auctionRecoveryFence = true → _)
      (fun heq hown => ?_)
      (fun hother => hother) hfence
    subst heq
    obtain rfl | rfl | rfl := hk
    · rwa [bootstrap_fence] at hown
    · exact hown
    · exact hown
  | restores a =>
    left
    change (restoreRecentIdempotency _ _ _ _ _).auctionRecoveryFence = true at hfence
    rwa [restore_fence] at hfence
  | _ => exact .inl hfence

end

end Recovery

end MiracleAuction
