import MiracleAuction.Projection.Delivery
import MiracleAuction.Recovery.Control
import MiracleAuction.Recovery.Idempotency

/-!
# The recovery cycle

Workers run `cycle` against one control row and one Redis, while commands are accepted, entries
are projected and auctions are created. A step of a worker is what happens up to its next `await`;
every awaited operation may fail, with or without its effect, and any step may come much later.
-/
namespace MiracleAuction
namespace Recovery

/-! ## Redis -/

/-- The authority manifest on a client: absent, not of the expected form, or a recovery. -/
inductive ManifestKey
  | absent
  | malformed
  | manifest (generation : Uuid) (recoveryEpoch : Nat)
  deriving DecidableEq

/-- The keys of the clients, and those of the auctions. An auction lives on one client, whose
recovery fence is among the keys that its script is given. -/
structure Redis where
  recoveryFence : Nat → Bool := fun _ => false
  authorityManifest : Nat → ManifestKey := fun _ => .absent
  plannedBootstrap : Nat → Bool := fun _ => false
  auctions : Nat → AuctionKeys := fun _ => {}

namespace Redis
variable (config : Config) (r : Redis)

/-- The keys of an auction as its scripts see them. -/
def keys (productId : Nat) : AuctionKeys :=
  { r.auctions productId with recoveryFence := r.recoveryFence (productId % config.clients) }

def setKeys (productId : Nat) (k : AuctionKeys) : Redis :=
  { r with auctions := Function.update r.auctions productId k }

/-- `SET` or `DEL` of the recovery fence on some clients. -/
def setRecoveryFence (clients : List Nat) (present : Bool) : Redis :=
  { r with recoveryFence := fun client => if client ∈ clients then present
    else r.recoveryFence client }

/-- `SET` or `DEL` of the fences of some auctions. -/
def setAuctionFences (productIds : List Nat) (present : Bool) : Redis :=
  { r with auctions := fun productId =>
      if productId ∈ productIds then { r.auctions productId with auctionRecoveryFence := present }
      else r.auctions productId }

def writeManifest (clients : List Nat) (generation : Uuid) (recoveryEpoch : Nat) : Redis :=
  { r with authorityManifest := fun client =>
      if client ∈ clients then .manifest generation recoveryEpoch
        else r.authorityManifest client }

end Redis

/-! ## Inspection -/

/-- The auction is offered: it is pending or active, and not removed. -/
def Offered (T : Tables) (productId : Nat) : Prop :=
  ∃ product ∈ T.products productId,
    (product.auctionStatus = .pending ∨ product.auctionStatus = .active) ∧
    product.isRemoved = some false

instance (T : Tables) (productId : Nat) : Decidable (Offered T productId) := by
  unfold Offered; infer_instance

/-- The rows that `activeProductIds` finds. A null in `is_removed` is not found. -/
def activeProductIds (T : Tables) (db : Database) : Finset Nat :=
  db.productIds.filter (Offered T)

structure Inspection where
  manifestMatches : Bool
  manifestAbsent : Bool
  fencePresent : Bool
  plannedBootstrap : Bool
  missingProductIds : List Nat

/-- The hashes of maxima and ranking members exist while some user has an entry. -/
def hasBidStructures (users : Finset Nat) (sets : BidSets) : Prop :=
  (∃ u ∈ users, sets.maxima u ≠ none) ∧ sets.ranking.members ≠ [] ∧
    ∃ u ∈ users, sets.rankMembers u ≠ none

instance (users : Finset Nat) (sets : BidSets) : Decidable (hasBidStructures users sets) := by
  unfold hasBidStructures; infer_instance

/-- The keys have the expected types and the fields that the inspection reads. Of an incomplete
hash `seen` says whether it has them. -/
def complete (T : Tables) (seen : Nat → Bool) (productId : Nat) (k : AuctionKeys) : Prop :=
  k.wrongType = false ∧
    (match k.state with
      | .absent => False
      | .incomplete => seen productId = true
      | .hash _ => True) ∧
    (Bootstrap.standingRows T productId ≠ [] → hasBidStructures T.users k.sets)

instance (T : Tables) (seen : Nat → Bool) (productId : Nat) (k : AuctionKeys) :
    Decidable (complete T seen productId k) := by
  unfold complete
  split <;> infer_instance

/-- The auctions that are incomplete or fenced. -/
def missingProductIds (seen : Nat → Bool) (productIds : List Nat) (T : Tables) (r : Redis) :
    List Nat :=
  productIds.filter fun productId =>
    ¬ complete T seen productId (r.auctions productId) ∨
      (r.auctions productId).auctionRecoveryFence

def inspectRedisAuthority (config : Config) (seen : Nat → Bool) (productIds : List Nat)
    (generation : Uuid) (epoch : Nat) (T : Tables) (r : Redis) : Inspection :=
  let clients := List.range config.clients
  { manifestMatches := clients.all fun client =>
      r.authorityManifest client = .manifest generation epoch
    manifestAbsent := clients.all fun client => r.authorityManifest client = .absent
    fencePresent := clients.any r.recoveryFence
    plannedBootstrap := clients.any r.plannedBootstrap
    missingProductIds := missingProductIds seen productIds T r }

/-- The classification of the loss. -/
def Inspection.trigger (inspection : Inspection) (productIds : List Nat) : Trigger :=
  if inspection.missingProductIds.length = productIds.length ∧ 0 < productIds.length then
    .fullDataLoss
  else if 0 < inspection.missingProductIds.length then .partialStateLoss
  else .manifestMismatch

/-! ## Workers -/

inductive RuntimeState
  | checking | ready | recovering | failed
  deriving DecidableEq, Repr

structure Runtime where
  state : RuntimeState
  ready : Bool
  deriving DecidableEq

/-- A claimed recovery. -/
structure Attempt where
  trigger : Trigger
  targetProductIds : List Nat
  generation : Uuid
  epoch : Nat
  lastRedisHealthyAt : DateMs

/-- The operation that a worker awaits next, with what it has read. -/
inductive Phase
  | idle
  | findControl
  | findProducts (control : ControlRow)
  | inspect (control : ControlRow) (productIds : List Nat)
  | adopt (control : ControlRow) (now : DateMs)
  | touch (now : DateMs)
  | claim (trigger : Trigger) (targetProductIds : List Nat)
  | upsertRun (a : Attempt)
  | setFences (a : Attempt)
  | captureWatermarks (a : Attempt)
  | drain (a : Attempt) (watermarks : Nat → Nat)
  | renewDraining (a : Attempt) (watermarks : Nat → Nat)
  | extend (a : Attempt)
  | renewExtended (a : Attempt)
  | refresh (a : Attempt)
  | rebuild (a : Attempt) (rest : List Nat)
  | bootstrap (a : Attempt) (productId : Nat) (rest : List Nat) (T : Tables) (now : DateMs)
  | reconcile (a : Attempt) (productId : Nat) (rest : List Nat)
  | renewRebuilt (a : Attempt) (rest : List Nat)
  | restore (a : Attempt)
  | writeManifest (a : Attempt) (completedAt : DateMs)
  | complete (a : Attempt) (completedAt : DateMs)
  | removeFences (a : Attempt)
  | fail (a : Attempt)

structure Worker where
  phase : Phase := .idle
  runtime : Runtime := ⟨.checking, false⟩

/-- PostgreSQL and Redis with its projectors. `created` are the products whose creation has not
called `bootstrapRedisAuction` yet. -/
structure Platform where
  database : Database
  delivery : Delivery
  redis : Redis := {}
  created : Finset Nat := ∅

/-- What a step of a worker meets: the clocks of the worker and of the database, the response of
the operation, the clients or auctions that a failing one has reached, the order of a query's rows,
a bootstrap lock that another process holds, the incomplete hashes that the inspection accepts,
and the creation times of the stored transitions. -/
structure Input where
  clock : DateMs := .early 0
  now : DateMs := .early 0
  response : Response := .completes
  reached : List Nat := []
  order : List Nat := []
  locked : Bool := false
  seen : Nat → Bool := fun _ => false
  createdAt : Uuid → DateMs := fun _ => .early 0

/-- The clients or auctions that a command to all of them has reached. -/
def Input.reaches (input : Input) (all : List Nat) : List Nat :=
  match input.response with
  | .completes => all
  | .fails _ => all.filter (· ∈ input.reached)

/-- An entry that is left in the stream holds the drain of the targets up. A malformed one may
belong to another auction. -/
def holdsUp (targetProductIds : List Nat) (watermarks : Nat → Nat) (entry : RedisStreamEntry) :
    Prop :=
  entry.id ≤ watermarks entry.shard ∧ ∃ event ∈ (parseEvent entry.payload).toOption,
    event.productId ∈ targetProductIds

instance (targetProductIds : List Nat) (watermarks : Nat → Nat) (entry : RedisStreamEntry) :
    Decidable (holdsUp targetProductIds watermarks entry) := by
  unfold holdsUp; infer_instance

namespace Platform
variable (config : Config) (s : Platform)

abbrev tables : Tables := s.delivery.tables

abbrev control : ControlRow := s.database.control

def setControl (control : ControlRow) : Platform :=
  { s with database := { s.database with control := control } }

/-- What `effect` leaves behind, if the operation took effect. -/
def when (effective : Bool) (s' : Platform) : Platform := if effective then s' else s

/-- What `activeProductIds` returns, in some order. -/
def lists (order : List Nat) : Prop :=
  order.Nodup ∧ order.toFinset = activeProductIds s.tables s.database

instance (order : List Nat) : Decidable (s.lists order) := inferInstanceAs (Decidable (_ ∧ _))

/-- An attempt sets or removes its fences. -/
def fences (a : Attempt) (input : Input) (present : Bool) : Platform :=
  { s with
    redis :=
      if a.trigger.isGlobal then
        s.redis.setRecoveryFence (input.reaches (List.range config.clients)) present
      else s.redis.setAuctionFences (input.reaches a.targetProductIds) present }

/-- `drainProjection` returns: nothing is pending or unread, or no entry of a target up to the
watermark is left in the stream. -/
def drained (a : Attempt) (watermarks : Nat → Nat) : Prop :=
  if a.trigger.isGlobal then
    ∀ entry ∈ s.delivery.stream, s.delivery.status (streamReceiptId entry) ≠ .waiting ∧
      s.delivery.status (streamReceiptId entry) ≠ .pending
  else
    ∀ entry ∈ s.delivery.stream, s.delivery.status (streamReceiptId entry) = .deleted ∨
      ¬ holdsUp a.targetProductIds watermarks entry

instance (a : Attempt) (watermarks : Nat → Nat) : Decidable (s.drained a watermarks) := by
  unfold drained
  split <;> infer_instance

/-- `last-generated-id` of the stream of each client. -/
def watermarks (client : Nat) : Nat :=
  ((s.delivery.stream.filter (·.shard = client)).map (·.id)).foldl max 0

/-- `SET` of the manifest on the clients that the input reaches. -/
def writeManifest (input : Input) (generation : Uuid) (recoveryEpoch : Nat) : Platform :=
  { s with
    redis := s.redis.writeManifest (input.reaches (List.range config.clients)) generation
      recoveryEpoch }

/-- `restoreRecentIdempotency`, for every auction. -/
def restoreRecords (input : Input) : Platform :=
  { s with
    redis := { s.redis with
      auctions := fun productId =>
        restoreRecentIdempotency config.idempotencyTtlMs input.clock productId
          (s.tables.transitions.map fun row => ⟨row, input.createdAt row.eventId⟩)
          (s.redis.auctions productId) } }

def upsertRun (epoch : Nat) : Platform :=
  { s with database := { s.database with runs := insert epoch s.database.runs } }

end Platform

namespace Worker
variable (config : Config) (ownerId : Nat) (input : Input) (s : Platform) (w : Worker)

/-- The worker goes on to a phase. -/
def goto (phase : Phase) : Worker := { w with phase := phase }

/-- After an operation that the attempt awaits: the next phase, or the failure path. -/
def proceed (a : Attempt) (next : Phase) : Worker :=
  match input.response with
  | .completes => w.goto next
  | .fails _ => w.goto (.fail a)

/-- `renewLease`. -/
def renew (a : Attempt) (next : Phase) : Platform × Worker :=
  match s.control.renewLease config ownerId a.epoch input.clock, input.response with
  | some row, .completes => (s.setControl row, w.goto next)
  | some row, .fails effective => (s.when effective (s.setControl row), w.goto (.fail a))
  | none, _ => (s, w.goto (.fail a))

/-- What `cycle` does after the inspection. -/
def decide (control : ControlRow) (productIds : List Nat) (inspection : Inspection) : Worker :=
  if inspection.plannedBootstrap then ⟨.idle, ⟨.checking, false⟩⟩
  else if control.state = .ready ∧ inspection.fencePresent = false ∧
      inspection.manifestAbsent = true ∧ inspection.missingProductIds = [] then
    w.goto (.adopt control input.clock)
  else if inspection.manifestMatches = true ∧ inspection.fencePresent = false ∧
      inspection.missingProductIds = [] ∧ control.state = .ready then
    w.goto (.touch input.clock)
  else
    let trigger := inspection.trigger productIds
    w.goto (.claim trigger (if trigger.isGlobal then [] else inspection.missingProductIds))

/-- `claimRecovery` up to the run. -/
def claim (trigger : Trigger) (targetProductIds : List Nat) : Platform × Worker :=
  match s.control.claim config ownerId input.now, input.response with
  | some row, .completes =>
    (s.setControl row, w.goto (.upsertRun
      ⟨trigger, targetProductIds, row.generation, row.recoveryEpoch, row.lastRedisHealthyAt⟩))
  | some row, .fails effective => (s.when effective (s.setControl row), w.goto .idle)
  | none, .completes => (s, ⟨.idle, ⟨.checking, false⟩⟩)
  | none, .fails _ => (s, w.goto .idle)

/-- `extendInterruptedAuctions`, if the trigger asks for it. -/
def extend (a : Attempt) : Platform × Worker :=
  if a.trigger = .fullDataLoss then
    match extendInterruptedAuctions config input.clock input.now a.lastRedisHealthyAt a.epoch
        s.tables s.database, input.response with
    | some (T, db), .completes =>
      ({ s with database := db, delivery := { s.delivery with tables := T } },
        w.goto (.renewExtended a))
    | some (T, db), .fails effective =>
      (s.when effective { s with database := db, delivery := { s.delivery with tables := T } },
        w.goto (.fail a))
    | none, _ => (s, w.goto (.fail a))
  else (s, w.goto (.renewExtended a))

/-- The commands of a forced bootstrap, with the rows that were read before. -/
def load (a : Attempt) (productId : Nat) (rest : List Nat) (T : Tables) (now : DateMs) :
    Platform × Worker :=
  let k := s.redis.keys config productId
  let result := bootstrapRedisAuction productId true true now T k
  match input.response, result.1 with
  | .completes, .ok _ =>
    ({ s with redis := s.redis.setKeys productId result.2 }, w.goto (.reconcile a productId rest))
  | .completes, .error _ =>
    ({ s with redis := s.redis.setKeys productId result.2 }, w.goto (.fail a))
  | .fails effective, _ =>
    -- The keys are deleted before the script runs.
    let reached := if productId ∈ input.reached then Bootstrap.forget k else k
    ({ s with redis := s.redis.setKeys productId (if effective then result.2 else reached) },
      w.goto (.fail a))

/-- The end of the transaction that stores `READY`. -/
def complete (a : Attempt) (completedAt : DateMs) : Platform × Worker :=
  if a.epoch ∈ s.database.runs then
    let completed := s.setControl (s.control.complete completedAt)
    match input.response with
    | .completes => (completed, w.goto (.removeFences a))
    | .fails effective => (s.when effective completed, w.goto (.fail a))
  else (s, w.goto (.fail a))

/-- The failure path. Its own errors are caught. -/
def fail (a : Attempt) : Platform × Worker :=
  let failed := s.setControl (s.control.failed ownerId a.epoch)
  let runtime : Runtime := ⟨.failed, !a.trigger.isGlobal⟩
  match input.response with
  | .completes => (failed, ⟨.idle, runtime⟩)
  | .fails effective => (s.when effective failed, ⟨.idle, runtime⟩)

/-- A step of a worker, if it is possible. -/
def advance : Option (Platform × Worker) :=
  match w.phase with
  | .idle => some (s, ⟨.findControl, ⟨.checking, false⟩⟩)
  | .findControl =>
    match input.response with
    | .completes => some (s, w.goto (.findProducts s.control))
    | .fails _ => some (s, w.goto .idle)
  | .findProducts control =>
    match input.response with
    | .completes =>
      if s.lists input.order then some (s, w.goto (.inspect control input.order)) else none
    | .fails _ => some (s, w.goto .idle)
  | .inspect control productIds =>
    match input.response with
    | .completes =>
      some (s, w.decide input control productIds (inspectRedisAuthority config input.seen productIds
        control.generation control.recoveryEpoch s.tables s.redis))
    | .fails _ => some (s, w.goto .idle)
  | .adopt control now =>
    let written := s.writeManifest config input control.generation control.recoveryEpoch
    match input.response with
    | .completes => some (written, w.goto (.touch now))
    | .fails _ => some (written, w.goto .idle)
  | .touch now =>
    let touched := s.setControl { s.control with lastRedisHealthyAt := now }
    match input.response with
    | .completes => some (touched, ⟨.idle, ⟨.ready, true⟩⟩)
    | .fails effective => some (s.when effective touched, w.goto .idle)
  | .claim trigger targetProductIds =>
    some (w.claim config ownerId input s trigger targetProductIds)
  | .upsertRun a =>
    match input.response with
    | .completes =>
      some (s.upsertRun a.epoch, ⟨.setFences a, ⟨.recovering, !a.trigger.isGlobal⟩⟩)
    | .fails effective => some (s.when effective (s.upsertRun a.epoch), w.goto .idle)
  | .setFences a => some (s.fences config a input true, w.proceed input a (.captureWatermarks a))
  | .captureWatermarks a => some (s, w.proceed input a (.drain a s.watermarks))
  | .drain a watermarks =>
    some (s, w.proceed input a
      (if s.drained a watermarks then .extend a else .renewDraining a watermarks))
  | .renewDraining a watermarks => some (w.renew config ownerId input s a (.drain a watermarks))
  | .extend a => some (w.extend config input s a)
  | .renewExtended a => some (w.renew config ownerId input s a (.refresh a))
  | .refresh a =>
    if a.trigger.isGlobal = false then some (s, w.goto (.rebuild a a.targetProductIds))
    else if s.lists input.order then some (s, w.proceed input a (.rebuild a input.order))
    else none
  | .rebuild a [] => some (s, w.goto (.restore a))
  | .rebuild a (productId :: rest) =>
    -- A bootstrap that finds its lock taken does nothing.
    some (s, w.proceed input a
      (if input.locked then .reconcile a productId rest
      else .bootstrap a productId rest s.tables input.clock))
  | .bootstrap a productId rest T now => some (w.load config input s a productId rest T now)
  | .reconcile a productId rest =>
    some (s, w.proceed input a
      (if Converges productId (s.redis.keys config productId) s.tables then .renewRebuilt a rest
      else .fail a))
  | .renewRebuilt a rest => some (w.renew config ownerId input s a (.rebuild a rest))
  | .restore a =>
    match input.response with
    | .completes => some (s.restoreRecords config input, w.goto (.writeManifest a input.clock))
    | .fails effective =>
      some (s.when effective (s.restoreRecords config input), w.goto (.fail a))
  | .writeManifest a completedAt =>
    some (s.writeManifest config input a.generation a.epoch,
      w.proceed input a (.complete a completedAt))
  | .complete a completedAt => some (w.complete input s a completedAt)
  | .removeFences a =>
    match input.response with
    | .completes => some (s.fences config a input false, ⟨.idle, ⟨.ready, true⟩⟩)
    | .fails _ => some (s.fences config a input false, w.goto (.fail a))
  | .fail a => some (Worker.fail ownerId input s a)

end Worker

/-! ## Steps -/

/-- The platform and its workers. -/
structure World extends Platform where
  workers : Nat → Worker := fun _ => {}

/-- A step of a worker or of the projector; a command, or the expiry of a key; the creation of an
auction and its bootstrap; the marker of a planned bootstrap; and the loss of an auction's keys, or
of everything in Redis. -/
inductive WorldAction
  | advance (ownerId : Nat) (input : Input)
  | deliver (x : DeliveryAction)
  | call (c : Call) (entryId : Nat)
  | expire (productId : Nat) (x : Action)
  | create (productId : Nat) (product : ProductRow)
  | bootstrap (productId : Nat) (now : DateMs)
  | plan (client : Nat) (present : Bool)
  | lose (productId : Nat)
  | loseAll

namespace Platform
variable (config : Config) (s : Platform)

/-- The command's script runs, and adds at most one entry to the stream. -/
def call (c : Call) (entryId : Nat) : Option Platform :=
  let productId := c.command.productId
  let k := s.redis.keys config productId
  let k' := (mutate c k).2
  let called := { s with redis := s.redis.setKeys productId k' }
  match k'.stream.drop k.stream.length with
  | [] => some called
  | event :: _ =>
    (s.delivery.next config.maxAttempts (.append
      { id := entryId, payload := .event event, shard := productId % config.clients })).map
      fun delivery => { called with delivery := delivery }

/-- A projector reads and projects, but adds no entry. -/
def deliver (x : DeliveryAction) : Option Platform :=
  match x with
  | .append _ => none
  | _ => (s.delivery.next config.maxAttempts x).map fun delivery => { s with delivery := delivery }

/-- A key expires: a stored reply, or a counter of the rate limit. -/
def expire (productId : Nat) (x : Action) : Option Platform :=
  match x with
  | .expireRecord _ | .expireLegacy | .expireRate _ =>
    some { s with redis := s.redis.setKeys productId (x.apply (s.redis.auctions productId)) }
  | _ => none

/-- A new row of `products`. -/
def create (productId : Nat) (product : ProductRow) : Option Platform :=
  if productId ∈ s.database.productIds ∨ s.tables.products productId ≠ none then none
  else
    some { s with
      delivery := { s.delivery with
        tables := { s.tables with
          products := Function.update s.tables.products productId (some product) } }
      database := { s.database with
        productIds := insert productId s.database.productIds
        lastAuthorityRecoveryEpoch :=
          Function.update s.database.lastAuthorityRecoveryEpoch productId 0 }
      created := insert productId s.created }

/-- The bootstrap of a new auction. -/
def bootstrap (productId : Nat) (now : DateMs) : Option Platform :=
  if productId ∈ s.created then
    some { s with
      redis := s.redis.setKeys productId
        (bootstrapRedisAuction productId false false now s.tables (s.redis.keys config productId)).2
      created := s.created.erase productId }
  else none

def plan (client : Nat) (present : Bool) : Platform :=
  { s with
    redis := { s.redis with
      plannedBootstrap := Function.update s.redis.plannedBootstrap client present } }

def lose (productId : Nat) : Platform := { s with redis := s.redis.setKeys productId {} }

/-- Redis loses everything. What the projectors have read stays with them. -/
def loseAll : Platform :=
  { s with
    redis := {}
    delivery := { s.delivery with
      status := fun _ => .deleted
      retries := fun _ => 0
      dlq := [] } }

/-- What is not the step of a worker. -/
def next : WorldAction → Option Platform
  | .advance _ _ => none
  | .deliver x => s.deliver config x
  | .call c entryId => s.call config c entryId
  | .expire productId x => s.expire productId x
  | .create productId product => s.create productId product
  | .bootstrap productId now => s.bootstrap config productId now
  | .plan client present => some (s.plan client present)
  | .lose productId => some (s.lose productId)
  | .loseAll => some s.loseAll

end Platform

def World.next (config : Config) (s : World) : WorldAction → Option World
  | .advance ownerId input =>
    ((s.workers ownerId).advance config ownerId input s.toPlatform).map fun (platform, w) =>
      { platform with workers := Function.update s.workers ownerId w }
  | x => (s.toPlatform.next config x).map fun platform => { platform with workers := s.workers }

abbrev WorldStep (config : Config) (s : World) (x : WorldAction) (s' : World) : Prop :=
  s.next config x = some s'

/-- A step is one of a worker, or none of a worker's. -/
theorem worldStep_cases {config : Config} {s s' : World} {x : WorldAction}
    (h : WorldStep config s x s') :
    (∃ ownerId input platform w, x = .advance ownerId input ∧
      (s.workers ownerId).advance config ownerId input s.toPlatform = some (platform, w) ∧
      s' = { platform with workers := Function.update s.workers ownerId w }) ∨
    ∃ platform, s.toPlatform.next config x = some platform ∧
      s' = { platform with workers := s.workers } := by
  unfold WorldStep World.next at h
  split at h
  · obtain ⟨⟨platform, w⟩, hadvance, rfl⟩ := Option.map_eq_some_iff.mp h
    exact .inl ⟨_, _, platform, w, rfl, hadvance, rfl⟩
  · obtain ⟨platform, hnext, rfl⟩ := Option.map_eq_some_iff.mp h
    exact .inr ⟨platform, hnext, rfl⟩

end Recovery

end MiracleAuction
