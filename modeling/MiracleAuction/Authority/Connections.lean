import MiracleAuction.Base.Run
import MiracleAuction.Messaging.Envelope

/-!
# Connections of the auction authority

The Redis clients of the configuration, and the pools of connections that the mutations of each
shard lease. A lease is handed over through a promise: the entry is busy from the moment it is
chosen, the holder goes on later and releases it once.
-/
namespace MiracleAuction.Connections
open Decimal (Text)

inductive RedisTopologyMode
  | standalone
  | sentinel
deriving DecidableEq

/-- The variables that decide which servers the clients are connected to. -/
structure Environment where
  topology : RedisTopologyMode := .standalone
  redisUrl : Option Text := none
  auctionRedisUrl : Option Text := none
  auctionRedisUrls : Option Text := none

/-- The server that a URL leads to, and the master that the sentinels name. -/
structure Network (ι : Type) where
  standalone : Text → ι
  master : ι

variable {ι : Type}

/-- `createRedisClient`. -/
def createRedisClient (net : Network ι) (standaloneUrl : Text) : RedisTopologyMode → ι
  | .standalone => net.standalone standaloneUrl
  | .sentinel => net.master

/-- `a || b` of texts. -/
def orText (a : Option Text) (b : Text) : Text := (a.filter (· ≠ [])).getD b

def auctionShardUrls (env : Environment) : List Text :=
  (((env.auctionRedisUrls.getD []).splitOn ',').map Messaging.trim).filter (· ≠ [])

/-- The servers of `auctionMutationRedisClient` and of `auctionMutationRedisClients`. -/
structure Config (ι : Type) where
  auctionMutationRedisClient : ι
  auctionMutationRedisClients : List ι
  nonempty : auctionMutationRedisClients ≠ []

/-- The server of `auctionMutationRedisClient`. -/
def mainServer (net : Network ι) (env : Environment) : ι :=
  createRedisClient net
    (orText env.auctionRedisUrl (orText env.redisUrl "redis://localhost:16379".toList)) env.topology

/-- `redis.config.ts`; none where it throws. -/
def loadConfig (net : Network ι) (env : Environment) : Option (Config ι) :=
  let main := mainServer net env
  match auctionShardUrls env with
  | [] => some ⟨main, [main], by simp⟩
  | url :: urls =>
    if env.topology = .sentinel then none
    else some
      ⟨main, (url :: urls).map fun url => createRedisClient net url .standalone, by simp⟩

variable (config : Config ι)

def auctionRedisShardCount : Nat := config.auctionMutationRedisClients.length

/-- `auctionRedisShardForProduct`; none where it throws. -/
def auctionRedisShardForProduct (productId : Int) : Option Nat :=
  if 0 ≤ productId ∧ productId ≤ 9007199254740991 then
    some (productId.toNat % auctionRedisShardCount config)
  else none

def auctionRedisClientForProduct (productId : Int) : Option ι :=
  (auctionRedisShardForProduct config productId).bind (config.auctionMutationRedisClients[·]?)

/-- A connection; the number tells it from every other. -/
structure Client (ι : Type) where
  number : Nat
  server : ι
deriving DecidableEq

structure MutationPoolEntry (ι : Type) where
  client : Client ι
  busy : Bool
deriving DecidableEq

/-- A call of `acquireMutationClient` that waits. -/
structure Waiter where
  call : Nat
  productId : Int
deriving DecidableEq

/-- A lease from the moment its entry is chosen; `received` once the caller goes on with it. -/
structure MutationLease (ι : Type) where
  call : Nat
  productId : Int
  client : Client ι
  shard : Nat
  entry : Nat
  received : Bool := false
deriving DecidableEq

/-- The pools (empty while there is none) and the waiters by shard, and the leases not yet released.
`arrived` and `served` record which calls began to wait and which of them were served. -/
structure State (ι : Type) where
  mutationPools : Nat → List (MutationPoolEntry ι)
  mutationWaiters : Nat → List Waiter := fun _ => []
  leases : List (MutationLease ι) := []
  created : Nat := 1
  calls : Nat := 0
  arrived : Nat → List Nat := fun _ => []
  served : Nat → List Nat := fun _ => []

/-- The module is loaded. -/
def start : State ι where
  mutationPools
    | 0 =>
      [{ client := { number := 0, server := config.auctionMutationRedisClient }, busy := false }]
    | _ + 1 => []

/-- `mutationPoolSize`, of the integer that `BID_MUTATION_CONNECTIONS` denotes, if it does. -/
def mutationPoolSize : Option Int → Nat
  | some configured => if 0 < configured then min configured.toNat 64 else 8
  | none => 8

variable {config} {s t u : State ι} {shard k i n : Nat} {productId : Int} {as : List α}

/-- An entry with a new client for a product joins a pool. -/
def addEntry (config : Config ι) (s : State ι) (shard : Nat) (productId : Int) :
    Option (State ι) :=
  (auctionRedisClientForProduct config productId).map fun server =>
    { s with
      created := s.created + 1
      mutationPools := Function.update s.mutationPools shard
        (s.mutationPools shard ++ [{ client := { number := s.created, server }, busy := false }]) }

/-- `poolFor`, which makes a pool that is not there. -/
def poolFor (config : Config ι) (s : State ι) (shard : Nat) : Option (State ι) :=
  if (s.mutationPools shard).isEmpty then addEntry config s shard shard else some s

/-- The loop of `ensureMutationPool`, with the number of entries that are missing. -/
def growPool (config : Config ι) (shard : Nat) (productId : Int) :
    Nat → State ι → Option (State ι)
  | 0, s => some s
  | missing + 1, s => do
    growPool config shard productId missing (← addEntry config s shard productId)

def ensureMutationPool (config : Config ι) (s : State ι) (shard : Nat) (productId : Int)
    (size : Nat) : Option (State ι) := do
  let s ← poolFor config s shard
  growPool config shard productId (size - (s.mutationPools shard).length) s

def setBusy (s : State ι) (shard entry : Nat) (busy : Bool) : State ι :=
  { s with
    mutationPools := Function.update s.mutationPools shard
      ((s.mutationPools shard).modify entry fun e => { e with busy }) }

/-- `leaseEntry`. -/
def leaseEntry (s : State ι) (shard entry : Nat) (w : Waiter) : Option (State ι) :=
  (s.mutationPools shard)[entry]?.map fun e =>
    { setBusy s shard entry true with
      leases := s.leases ++
        [{ call := w.call, productId := w.productId, client := e.client, shard, entry }] }

/-- The call joins the waiters. -/
def enqueue (s : State ι) (shard : Nat) (w : Waiter) : State ι :=
  { s with
    mutationWaiters := Function.update s.mutationWaiters shard (s.mutationWaiters shard ++ [w]),
    arrived := Function.update s.arrived shard (s.arrived shard ++ [w.call]) }

/-- `acquireMutationClient` up to its promise, once the shard is known. -/
def acquireOn (config : Config ι) (s : State ι) (shard : Nat) (w : Waiter) (size : Nat) :
    Option (State ι) := do
  let s ← ensureMutationPool config s shard w.productId size
  match (s.mutationPools shard).findIdx? (!·.busy) with
  | some entry => leaseEntry s shard entry w
  | none => some (enqueue s shard w)

/-- A product id that is none is rejected before anything is changed. -/
def acquireMutationClient (config : Config ι) (s : State ι) (productId : Int) (size : Nat) :
    Option (State ι) :=
  match auctionRedisShardForProduct config productId with
  | none => some s
  | some shard =>
    acquireOn config { s with calls := s.calls + 1 } shard { call := s.calls, productId } size

/-- The first waiter leaves the queue. -/
def dequeue (s : State ι) (shard : Nat) (w : Waiter) (waiters : List Waiter) : State ι :=
  { s with
    mutationWaiters := Function.update s.mutationWaiters shard waiters,
    served := Function.update s.served shard (s.served shard ++ [w.call]) }

/-- `release` of the lease at position `j`, which is spent. -/
def release (s : State ι) (j : Nat) : Option (State ι) := do
  let lease ← s.leases[j]?.filter (·.received)
  let s := { s with leases := s.leases.eraseIdx j }
  match s.mutationWaiters lease.shard with
  | w :: waiters => leaseEntry (dequeue s lease.shard w waiters) lease.shard lease.entry w
  | [] => some (setBusy s lease.shard lease.entry false)

/-- The holder of the lease at position `j` goes on. -/
def receive (s : State ι) (j : Nat) : Option (State ι) :=
  s.leases[j]?.map fun _ =>
    { s with leases := s.leases.modify j fun lease => { lease with received := true } }

inductive Action
  | acquire (productId : Int) (configured : Option Int)
  | receive (lease : Nat)
  | release (lease : Nat)

def next (config : Config ι) (s : State ι) : Action → Option (State ι)
  | .acquire productId configured =>
    acquireMutationClient config s productId (mutationPoolSize configured)
  | .receive lease => receive s lease
  | .release lease => release s lease

end MiracleAuction.Connections
