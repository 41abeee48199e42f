import MiracleAuction.Authority.Leases

/-!
# The server of a product

The paths that read or write the keys of a product find its server each in their own way; the
mutations use the connection that they have leased.
-/
namespace MiracleAuction.Connections
open Decimal (Text)

variable {ι : Type} {config : Config ι} {net : Network ι} {env : Environment} {s t : State ι}
  {shard k j : Nat} {productId : Int} {w : Waiter} {as : List Action} {a : Action} {size : Nat}

def getAuctionRedisClients (config : Config ι) : List ι := config.auctionMutationRedisClients

/-- `clients[productId % clients.length]`. -/
def clientByRemainder (config : Config ι) (productId : Int) : Option ι :=
  let clients := getAuctionRedisClients config
  let remainder := productId.tmod clients.length
  if 0 ≤ remainder then clients[remainder.toNat]? else none

/-- Where the paths other than the mutations look for one product. -/
inductive Path
  | bootstrapRedisAuction
  | reconcileAuctionProjection
  | inspectRedisAuthority
  | restoreRecentIdempotency
  | auctionRecoveryFence

def Path.server (config : Config ι) (productId : Int) : Path → Option ι
  | bootstrapRedisAuction | reconcileAuctionProjection =>
    auctionRedisClientForProduct config productId
  | inspectRedisAuthority | restoreRecentIdempotency | auctionRecoveryFence =>
    clientByRemainder config productId

/-- The servers on which the close job reads the deadlines. -/
def closeDueRedisAuctions (config : Config ι) : List ι := getAuctionRedisClients config

/-- The servers on which a global recovery sets its fence. -/
def globalRecoveryFence (config : Config ι) : List ι := getAuctionRedisClients config

/-- A lease is on the server that all other paths use for its product, the close job reads that
server, and a global fence is set on it. -/
def OneServer (config : Config ι) (l : MutationLease ι) : Prop :=
  auctionRedisClientForProduct config l.productId = some l.client.server ∧
  (∀ path : Path, path.server config l.productId = some l.client.server) ∧
  l.client.server ∈ closeDueRedisAuctions config ∧
  l.client.server ∈ globalRecoveryFence config

/-- Pool entries are on the server of their shard; who holds or waits asked for a product of it. -/
structure Routed (config : Config ι) (s : State ι) : Prop where
  entries : ∀ (k i : Nat) (e : MutationPoolEntry ι), (s.mutationPools k)[i]? = some e →
    config.auctionMutationRedisClients[k]? = some e.client.server
  leases : ∀ l ∈ s.leases, auctionRedisShardForProduct config l.productId = some l.shard
  waiters : ∀ k, ∀ w ∈ s.mutationWaiters k,
    auctionRedisShardForProduct config w.productId = some k

theorem clientByRemainder_eq (h : auctionRedisShardForProduct config productId = some shard) :
    clientByRemainder config productId = config.auctionMutationRedisClients[shard]? := by
  unfold auctionRedisShardForProduct at h
  by_cases hsafe : 0 ≤ productId ∧ productId ≤ 9007199254740991
  · rw [if_pos hsafe] at h
    obtain rfl := Option.some.inj h
    obtain ⟨n, rfl⟩ := Int.eq_ofNat_of_zero_le hsafe.1
    have hremainder : clientByRemainder config n =
        if 0 ≤ ((n % auctionRedisShardCount config : Nat) : Int) then
          config.auctionMutationRedisClients[n % auctionRedisShardCount config]?
        else none := rfl
    rw [hremainder, if_pos (Int.natCast_nonneg _)]
    rfl
  · simp [hsafe] at h

theorem oneServer_of_routed (hs : Sound s) (hrouted : Routed config s) {l : MutationLease ι}
    (hl : l ∈ s.leases) : OneServer config l := by
  have hshard := hrouted.leases l hl
  have hserver := hrouted.entries _ _ _ (hs.leased l hl)
  have hproduct : auctionRedisClientForProduct config l.productId = some l.client.server := by
    rw [auctionRedisClientForProduct, hshard]
    exact hserver
  have hmem := List.mem_of_getElem? hserver
  refine ⟨hproduct, fun path => ?_, hmem, hmem⟩
  cases path with
  | bootstrapRedisAuction | reconcileAuctionProjection => exact hproduct
  | inspectRedisAuthority | restoreRecentIdempotency | auctionRecoveryFence =>
    exact (clientByRemainder_eq hshard).trans hserver

theorem routed_addEntry (hs : Routed config s)
    (hproduct : auctionRedisShardForProduct config productId = some shard)
    (h : addEntry config s shard productId = some t) : Routed config t := by
  obtain ⟨server, hserver, hget⟩ := getElem?_addEntry h
  obtain ⟨hleases, hwaiters, _⟩ := addEntry_frame h
  refine ⟨fun k i e he => ?_, hleases ▸ hs.leases, hwaiters ▸ hs.waiters⟩
  rw [hget] at he
  split_ifs at he with hnew
  · obtain rfl := Option.some.inj he
    rw [auctionRedisClientForProduct, hproduct] at hserver
    exact hnew.1 ▸ hserver
  · exact hs.entries k i e he

theorem routed_setBusy {entry : Nat} {busy : Bool} (hs : Routed config s) :
    Routed config (setBusy s shard entry busy) := by
  refine ⟨fun k i e he => ?_, hs.leases, hs.waiters⟩
  obtain ⟨e', he', hclient⟩ := client_setBusy he
  exact hclient ▸ hs.entries k i e' he'

theorem routed_leaseEntry {entry : Nat} (hs : Routed config s)
    (hproduct : auctionRedisShardForProduct config w.productId = some shard)
    (h : leaseEntry s shard entry w = some t) : Routed config t := by
  obtain ⟨e, _, rfl⟩ := Option.map_eq_some_iff.mp h
  refine ⟨(routed_setBusy hs).entries, fun l hl => ?_, hs.waiters⟩
  obtain hl | hl := List.mem_append.mp hl
  · exact hs.leases l hl
  · obtain rfl := List.mem_singleton.mp hl
    exact hproduct

theorem routed_acquireOn (hs : Routed config s)
    (hproduct : auctionRedisShardForProduct config w.productId = some k)
    (h : acquireOn config s k w size = some t) : Routed config t := by
  obtain ⟨u, hu, hcases⟩ := acquireOn_cases h
  have hrouted : Routed config u := ensure_preserves
    (fun _ _ _ hs hproduct hadd => routed_addEntry hs hproduct hadd) hproduct hu hs
  obtain ⟨i, e, _, _, hlease⟩ | ⟨_, rfl⟩ := hcases
  · exact routed_leaseEntry hrouted hproduct hlease
  · refine ⟨hrouted.entries, hrouted.leases, fun k' w' hw' => ?_⟩
    by_cases hk : k' = k
    · subst hk
      simp only [enqueue, Function.update_self, List.mem_append, List.mem_singleton] at hw'
      obtain hw' | rfl := hw'
      · exact hrouted.waiters k' w' hw'
      · exact hproduct
    · simp only [enqueue, Function.update_of_ne hk] at hw'
      exact hrouted.waiters k' w' hw'

theorem routed_release (hs : Routed config s) (h : release s j = some t) : Routed config t := by
  obtain ⟨l, hl, _, hcases⟩ := release_cases h
  have hspent : Routed config { s with leases := s.leases.eraseIdx j } :=
    ⟨hs.entries, fun l hl => hs.leases l (mem_of_eraseIdx hl), hs.waiters⟩
  obtain ⟨w, waiters, hwaiters, hlease⟩ | ⟨_, rfl⟩ := hcases
  · refine routed_leaseEntry
      (s := dequeue { s with leases := s.leases.eraseIdx j } l.shard w waiters)
      ⟨hspent.entries, hspent.leases, fun k w' hw' => ?_⟩ ?_ hlease
    case refine_2 => exact hs.waiters _ w (by rw [hwaiters]; exact List.mem_cons_self)
    by_cases hk : k = l.shard
    · subst hk
      simp only [dequeue, Function.update_self] at hw'
      exact hs.waiters _ w' (by simp [hwaiters, hw'])
    · simp only [dequeue, Function.update_of_ne hk] at hw'
      exact hs.waiters k w' hw'
  · exact routed_setBusy hspent

theorem routed_next (h : next config s a = some t) (hs : Routed config s) : Routed config t := by
  cases a with
  | acquire productId configured =>
    simp only [next, acquireMutationClient] at h
    cases hproduct : auctionRedisShardForProduct config productId with
    | none =>
      simp only [hproduct, Option.some.injEq] at h
      exact h ▸ hs
    | some shard =>
      simp only [hproduct] at h
      have hcalls : Routed config { s with calls := s.calls + 1 } :=
        ⟨hs.entries, hs.leases, hs.waiters⟩
      exact routed_acquireOn hcalls hproduct h
  | receive lease =>
    obtain ⟨l, _, rfl⟩ := Option.map_eq_some_iff.mp h
    refine ⟨hs.entries, fun l' hl' => ?_, hs.waiters⟩
    obtain ⟨i, hi⟩ := List.mem_iff_getElem?.mp hl'
    rw [List.getElem?_modify] at hi
    obtain ⟨l'', hl'', rfl⟩ := Option.map_eq_some_iff.mp hi
    have hold := hs.leases l'' (List.mem_of_getElem? hl'')
    split
    · exact hold
    · exact hold
  | release lease => exact routed_release hs h

theorem start_routed (h : config.auctionMutationRedisClients[0]? =
    some config.auctionMutationRedisClient) : Routed config (start config) := by
  refine ⟨fun k i e he => ?_, (fun l hl => by cases hl), (fun k w hw => by cases hw)⟩
  cases k with
  | zero =>
    cases i with
    | zero =>
      obtain rfl := Option.some.inj he
      exact h
    | succ i => cases he
  | succ k => cases he

/-- The first lease of the first shard is on `auctionMutationRedisClient`. -/
theorem first_lease (config : Config ι) : ∃ s, Run (StepOf (next config)) (start config)
    [.acquire 0 (some 1)] s ∧ ∃ l ∈ s.leases, l.productId = 0 ∧
      l.client.server = config.auctionMutationRedisClient := by
  have hshard : auctionRedisShardForProduct config 0 = some 0 := by
    simp [auctionRedisShardForProduct]
  let s : State ι := { start config with calls := 1 }
  have hensure : ensureMutationPool config s 0 0 1 = some s :=
    ensure_of_full Nat.one_pos (by simp [s, start])
  let w : Waiter := { call := 0, productId := 0 }
  obtain ⟨t, ht⟩ : ∃ t, leaseEntry s 0 0 w = some t := ⟨_, rfl⟩
  have hstep : next config (start config) (.acquire 0 (some 1)) = some t := by
    simp only [next, acquireMutationClient, hshard, acquireOn, mutationPoolSize]
    exact (congrArg (· >>= _) hensure).trans ht
  refine ⟨t, .cons hstep (.refl t), ?_⟩
  obtain rfl : _ = t := Option.some.inj ht
  exact ⟨_, List.mem_append_right _ (List.mem_singleton.mpr rfl), rfl, rfl⟩

/-- The two configurations. -/
theorem loadConfig_cases (h : loadConfig net env = some config) :
    config.auctionMutationRedisClient = mainServer net env ∧
    ((auctionShardUrls env = [] ∧ config.auctionMutationRedisClients = [mainServer net env]) ∨
    ∃ url urls, auctionShardUrls env = url :: urls ∧
      config.auctionMutationRedisClients = (url :: urls).map net.standalone) := by
  unfold loadConfig at h
  cases hurls : auctionShardUrls env with
  | nil =>
    simp only [hurls, Option.some.injEq] at h
    subst h
    exact ⟨rfl, .inl ⟨rfl, rfl⟩⟩
  | cons url urls =>
    simp only [hurls] at h
    by_cases hsentinel : env.topology = .sentinel
    · simp [hsentinel] at h
    · rw [if_neg hsentinel] at h
      obtain rfl := Option.some.inj h
      exact ⟨rfl, .inr ⟨url, urls, rfl, rfl⟩⟩

theorem exists_loadConfig (net : Network ι) (env : Environment)
    (h : env.topology = .standalone) :
    ∃ config, loadConfig net env = some config := by
  unfold loadConfig
  cases auctionShardUrls env with
  | nil => exact ⟨_, rfl⟩
  | cons url urls => simp [h]

/-- Every mutation runs on the server of its product exactly if there are no shard URLs, or the
first of them leads to the server of `auctionMutationRedisClient`. -/
theorem one_server_iff (h : loadConfig net env = some config) :
    (∀ as s, Run (StepOf (next config)) (start config) as s →
      ∀ l ∈ s.leases, OneServer config l) ↔
      ∀ url, (auctionShardUrls env).head? = some url →
        net.standalone url = config.auctionMutationRedisClient := by
  have hfirst : (∀ url, (auctionShardUrls env).head? = some url →
      net.standalone url = config.auctionMutationRedisClient) ↔
      config.auctionMutationRedisClients[0]? = some config.auctionMutationRedisClient := by
    obtain ⟨hmain, ⟨hurls, hclients⟩ | ⟨url, urls, hurls, hclients⟩⟩ :=
      loadConfig_cases h
    · simp [hurls, hclients, hmain]
    · simp [hurls, hclients]
  rw [hfirst]
  constructor
  · intro hall
    obtain ⟨s, hrun, l, hl, hproduct, hserver⟩ := first_lease config
    obtain ⟨hone, _⟩ := hall _ s hrun l hl
    rw [hproduct, hserver, auctionRedisClientForProduct] at hone
    simpa [auctionRedisShardForProduct] using hone
  · intro hstart as s hrun l hl
    have hrouted : Routed config s := hrun.preserves (fun _ _ _ hstep => routed_next hstep)
      (start_routed hstart)
    exact oneServer_of_routed (run_sound hrun).1 hrouted hl

namespace Sample

/-- Two shards, the first of which is not the server of `AUCTION_REDIS_URL`. -/
def sharded : Environment where
  auctionRedisUrl := some "redis://main:6379".toList
  auctionRedisUrls := some "redis://redis-0:6379, redis://redis-1:6379".toList

/-- The same server in both variables. -/
def single : Environment where
  auctionRedisUrl := some "redis://redis-0:6379".toList
  auctionRedisUrls := some "redis://redis-0:6379".toList

/-- Every URL leads to a server of its own. -/
def servers : Network Text := ⟨fun url => url, []⟩

end Sample

theorem one_server_single : ∃ config, loadConfig Sample.servers Sample.single = some config ∧
    ∀ as s, Run (StepOf (next config)) (start config) as s →
      ∀ l ∈ s.leases, OneServer config l := by
  have hurls : auctionShardUrls Sample.single = ["redis://redis-0:6379".toList] := by
    decide +kernel
  have hmain : mainServer Sample.servers Sample.single = "redis://redis-0:6379".toList := by
    decide +kernel
  obtain ⟨config, hconfig⟩ := exists_loadConfig Sample.servers Sample.single rfl
  refine ⟨config, hconfig, (one_server_iff hconfig).mpr fun url hurl => ?_⟩
  rw [hurls] at hurl
  obtain rfl := Option.some.inj hurl
  exact ((loadConfig_cases hconfig).1.trans hmain).symm

/-- With shards, the first lease of product 0 is on another server than its keys. -/
theorem mutation_elsewhere : ∃ config, loadConfig Sample.servers Sample.sharded = some config ∧
    ∃ s, Run (StepOf (next config)) (start config) [.acquire 0 (some 1)] s ∧
      ∃ l ∈ s.leases, l.client.server = "redis://main:6379".toList ∧
        auctionRedisClientForProduct config l.productId = some "redis://redis-0:6379".toList ∧
        l.client.server ∉ globalRecoveryFence config := by
  have hurls : auctionShardUrls Sample.sharded =
      ["redis://redis-0:6379".toList, "redis://redis-1:6379".toList] := by decide +kernel
  have hmain : mainServer Sample.servers Sample.sharded = "redis://main:6379".toList := by
    decide +kernel
  obtain ⟨config, hconfig⟩ := exists_loadConfig Sample.servers Sample.sharded rfl
  obtain ⟨hserver, hcases⟩ := loadConfig_cases hconfig
  have hclients : config.auctionMutationRedisClients =
      ["redis://redis-0:6379".toList, "redis://redis-1:6379".toList] := by
    obtain ⟨hnone, _⟩ | ⟨url, urls, hsome, hclients⟩ := hcases
    · rw [hurls] at hnone
      cases hnone
    · rw [hurls] at hsome
      rw [hclients, ← hsome]
      rfl
  obtain ⟨s, hrun, l, hl, hproduct, hlease⟩ := first_lease config
  have hlease : l.client.server = "redis://main:6379".toList :=
    hlease.trans (hserver.trans hmain)
  refine ⟨config, hconfig, s, hrun, l, hl, hlease, ?_, ?_⟩
  · rw [hproduct, auctionRedisClientForProduct]
    simp [auctionRedisShardForProduct, hclients]
  · rw [hlease, globalRecoveryFence, getAuctionRedisClients, hclients]
    decide +kernel

end MiracleAuction.Connections
