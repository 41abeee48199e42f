import MiracleAuction.Projection.Tables
import Mathlib.Data.Finset.Sort

/-!
# The control row

`auction_authority_recovery` has one row. A worker that claims it may recover the authority; the
row counts the recoveries. Every function here is one statement or transaction of PostgreSQL.
-/
namespace MiracleAuction
namespace Recovery

/-- `auction_authority_recovery.state`. -/
inductive ControlState
  | ready | recovering | failedRetrying
  deriving DecidableEq, Repr

inductive Trigger
  | fullDataLoss | partialStateLoss | manifestMismatch
  deriving DecidableEq, Repr

/-- `globalRecovery`. -/
def Trigger.isGlobal : Trigger → Bool
  | .fullDataLoss | .manifestMismatch => true
  | .partialStateLoss => false

/-- The settings of a worker. `clients` counts the Redis clients. -/
structure Config where
  leaseSeconds : Int := 60
  graceSeconds : Int := 300
  idempotencyTtlMs : Int := 86400000
  maxAttempts : Nat := 10
  clients : Nat := 1
  clients_pos : 0 < clients := by decide

/-- An owner is the number of a worker. -/
structure ControlRow where
  generation : Uuid
  recoveryEpoch : Nat
  state : ControlState
  ownerId : Option Nat
  leaseUntil : Option Int
  lastRedisHealthyAt : DateMs
  deriving DecidableEq

/-- A row `auction.authority_recovered` of the outbox. -/
structure RecoveredEvent where
  productId : Nat
  recoveryEpoch : Nat
  extensionSeconds : Int
  deriving DecidableEq

/-- What a recovery reads and writes besides the tables of the projector: the epochs that have a
run, the ids of the products, and the last recovery epoch of each. -/
structure Database where
  control : ControlRow
  runs : Finset Nat := ∅
  productIds : Finset Nat := ∅
  lastAuthorityRecoveryEpoch : Nat → Nat := fun _ => 0
  recovered : List RecoveredEvent := []

namespace ControlRow

/-- A claim that finds the row ready begins a new epoch. -/
def nextEpoch (row : ControlRow) : Nat :=
  if row.state = .ready then row.recoveryEpoch + 1 else row.recoveryEpoch

/-- `claimRecovery`, if the lease is free at the time `now` of the database. -/
def claim (config : Config) (ownerId : Nat) (now : DateMs) (row : ControlRow) : Option ControlRow :=
  if (∀ leaseUntil ∈ row.leaseUntil, leaseUntil < now.val ∨ row.ownerId = some ownerId) ∧
      fitsBigint row.nextEpoch then
    some { row with
      ownerId := some ownerId
      leaseUntil := some (now.val + max 30 config.leaseSeconds * 1000)
      recoveryEpoch := row.nextEpoch
      state := .recovering }
  else none

/-- `renewLease`, unless the lease was lost. -/
def renewLease (config : Config) (ownerId epoch : Nat) (clock : DateMs) (row : ControlRow) :
    Option ControlRow :=
  if row.ownerId = some ownerId ∧ row.recoveryEpoch = epoch ∧ row.state = .recovering then
    some { row with leaseUntil := some (clock.val + max 30 config.leaseSeconds * 1000) }
  else none

/-- The end of a recovery. -/
def complete (completedAt : DateMs) (row : ControlRow) : ControlRow :=
  { row with
    state := .ready
    ownerId := none
    leaseUntil := none
    lastRedisHealthyAt := completedAt }

/-- The failure path, for the owner of the epoch only. -/
def failed (ownerId epoch : Nat) (row : ControlRow) : ControlRow :=
  if row.recoveryEpoch = epoch ∧ row.ownerId = some ownerId then
    { row with state := .failedRetrying, ownerId := none, leaseUntil := none }
  else row

variable {config : Config} {ownerId epoch : Nat} {now clock completedAt : DateMs}
  {row row' : ControlRow}

theorem claim_ok (h : row.claim config ownerId now = some row') :
    row'.ownerId = some ownerId ∧ row'.recoveryEpoch = row.nextEpoch ∧
      row'.state = .recovering ∧
      row'.lastRedisHealthyAt = row.lastRedisHealthyAt := by
  unfold claim at h
  split at h
  · cases h
    exact ⟨rfl, rfl, rfl, rfl⟩
  · cases h

theorem epoch_le_nextEpoch (row : ControlRow) : row.recoveryEpoch ≤ row.nextEpoch := by
  unfold nextEpoch
  split
  · omega
  · exact Nat.le_refl _

theorem renewLease_ok (h : row.renewLease config ownerId epoch clock = some row') :
    row.ownerId = some ownerId ∧ row.recoveryEpoch = epoch ∧ row.state = .recovering ∧
      ∃ leaseUntil, row' = { row with leaseUntil := leaseUntil } := by
  unfold renewLease at h
  split at h
  · rename_i howner
    cases h
    exact ⟨howner.1, howner.2.1, howner.2.2, _, rfl⟩
  · cases h

@[simp] theorem complete_epoch : (row.complete completedAt).recoveryEpoch = row.recoveryEpoch := rfl

@[simp] theorem failed_epoch : (row.failed ownerId epoch).recoveryEpoch = row.recoveryEpoch := by
  unfold failed
  split <;> rfl

end ControlRow

/-! ## The extension of interrupted auctions -/

section
variable (T : Tables) (db : Database)

/-- The auction runs, or may still start, and its end was ahead when Redis was last healthy. -/
def Interrupted (lastHealthyAt : DateMs) (epoch productId : Nat) : Prop :=
  ∃ product ∈ T.products productId,
    (product.auctionStatus = .pending ∨ product.auctionStatus = .active) ∧
    product.isRemoved ≠ some true ∧
    (∃ endTime ∈ product.endTime, lastHealthyAt.val ≤ endTime.val) ∧
    db.lastAuthorityRecoveryEpoch productId < epoch

instance (lastHealthyAt : DateMs) (epoch productId : Nat) :
    Decidable (Interrupted T db lastHealthyAt epoch productId) := by
  unfold Interrupted
  infer_instance

end

/-- The time from the last healthy check to `clock`, in seconds rounded up, and the grace. -/
def extensionSeconds (config : Config) (clock lastHealthyAt : DateMs) : Int :=
  max 0 ((clock.val - lastHealthyAt.val + 999) / 1000) + max 0 config.graceSeconds

/-- `GREATEST(end_time + extension, now() + grace)`. -/
def extendedEnd (config : Config) (clock now lastHealthyAt endTime : DateMs) : Int :=
  max (endTime.val + extensionSeconds config clock lastHealthyAt * 1000)
    (now.val + max 0 config.graceSeconds * 1000)

/-- The row with its extended end, which must be a date. -/
def extendRow (config : Config) (clock now lastHealthyAt : DateMs) (product : ProductRow) :
    Option ProductRow :=
  match product.endTime with
  | none => some product
  | some endTime =>
    if h : (extendedEnd config clock now lastHealthyAt endTime).natAbs ≤ 8640000000000000 then
      some
        { product with endTime := some ⟨extendedEnd config clock now lastHealthyAt endTime, h⟩ }
    else none

/-- The products that the update returns. -/
def interruptedProducts (T : Tables) (db : Database) (lastHealthyAt : DateMs) (epoch : Nat) :
    Finset Nat :=
  db.productIds.filter (Interrupted T db lastHealthyAt epoch)

/-- `extendInterruptedAuctions`: all interrupted auctions, each with its event, or none. -/
def extendInterruptedAuctions (config : Config) (clock now lastHealthyAt : DateMs) (epoch : Nat)
    (T : Tables) (db : Database) : Option (Tables × Database) :=
  let products := interruptedProducts T db lastHealthyAt epoch
  let extended := fun productId =>
    (T.products productId).bind (extendRow config clock now lastHealthyAt)
  if ∀ productId ∈ products, (extended productId).isSome then
    some (
      { T with
        products := fun productId =>
          if productId ∈ products then extended productId else T.products productId },
      { db with
        lastAuthorityRecoveryEpoch := fun productId =>
          if productId ∈ products then epoch else db.lastAuthorityRecoveryEpoch productId
        recovered := db.recovered ++ (products.sort (· ≤ ·)).map fun productId =>
          ⟨productId, epoch, extensionSeconds config clock lastHealthyAt⟩ })
  else none

section
variable {config : Config} {clock now lastHealthyAt : DateMs} {epoch : Nat} {T T' : Tables}
  {db db' : Database}

theorem extensionSeconds_nonneg (config : Config) (clock lastHealthyAt : DateMs) :
    0 ≤ extensionSeconds config clock lastHealthyAt := by
  unfold extensionSeconds
  omega

theorem extendRow_ok {product product' : ProductRow} {endTime : DateMs}
    (hend : product.endTime = some endTime)
    (h : extendRow config clock now lastHealthyAt product = some product') :
    ∃ endTime' : DateMs, endTime'.val = extendedEnd config clock now lastHealthyAt endTime ∧
      product' = { product with endTime := some endTime' } := by
  unfold extendRow at h
  rw [hend] at h
  dsimp only at h
  split at h
  · cases h
    exact ⟨_, rfl, rfl⟩
  · cases h

/-- What the transaction has done: each interrupted auction has a new end, its epoch and one event,
and nothing else is changed. -/
structure Extended (config : Config) (clock now lastHealthyAt : DateMs) (epoch : Nat)
    (T : Tables) (db : Database) (T' : Tables) (db' : Database) : Prop where
  interrupted : ∀ p ∈ interruptedProducts T db lastHealthyAt epoch,
    ∃ product endTime endTime',
    T.products p = some product ∧ product.endTime = some endTime ∧
    endTime'.val = extendedEnd config clock now lastHealthyAt endTime ∧
    T'.products p = some { product with endTime := some endTime' } ∧
    db'.lastAuthorityRecoveryEpoch p = epoch
  others : ∀ p ∉ interruptedProducts T db lastHealthyAt epoch, T'.products p = T.products p ∧
    db'.lastAuthorityRecoveryEpoch p = db.lastAuthorityRecoveryEpoch p
  tables : T' = { T with products := T'.products }
  database : db' = { db with
    lastAuthorityRecoveryEpoch := db'.lastAuthorityRecoveryEpoch
    recovered := db.recovered ++
      ((interruptedProducts T db lastHealthyAt epoch).sort (· ≤ ·)).map fun p =>
        ⟨p, epoch, extensionSeconds config clock lastHealthyAt⟩ }

theorem mem_interruptedProducts {p : Nat} : p ∈ interruptedProducts T db lastHealthyAt epoch ↔
    p ∈ db.productIds ∧ Interrupted T db lastHealthyAt epoch p := by
  unfold interruptedProducts
  rw [Finset.mem_filter]

theorem extendInterruptedAuctions_ok
    (h : extendInterruptedAuctions config clock now lastHealthyAt epoch T db = some (T', db')) :
    Extended config clock now lastHealthyAt epoch T db T' db' := by
  unfold extendInterruptedAuctions at h
  dsimp only at h
  split at h
  · rename_i hextended
    cases h
    refine ⟨fun p hp => ?_, fun p hp => ⟨if_neg hp, if_neg hp⟩, rfl, rfl⟩
    obtain ⟨product, hproduct, -, -, ⟨endTime, hend, -⟩, -⟩ :=
      (mem_interruptedProducts.mp hp).2
    have hproduct' : T.products p = some product := hproduct
    have hend' : product.endTime = some endTime := hend
    have hsome := hextended p hp
    rw [hproduct', Option.bind_some] at hsome
    obtain ⟨product', hrow⟩ := Option.isSome_iff_exists.mp hsome
    obtain ⟨endTime', hval, rfl⟩ := extendRow_ok hend' hrow
    refine ⟨product, endTime, endTime', hproduct', hend', hval, ?_, if_pos hp⟩
    change (if p ∈ _ then _ else _) = _
    rw [if_pos hp, hproduct', Option.bind_some, hrow]
  · cases h

end

end Recovery

end MiracleAuction
