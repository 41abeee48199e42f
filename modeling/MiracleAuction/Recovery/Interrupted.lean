import MiracleAuction.Recovery.Ready

/-!
# Interrupted auctions

When Redis has lost everything, an auction that was running is extended before it accepts a command
again, if no inspection until then finds a complete auction.
-/
namespace MiracleAuction
namespace Recovery

/-- The products that a worker goes through. -/
def Phase.productIds : Phase → List Nat
  | .inspect _ productIds => productIds
  | .claim _ targetProductIds => targetProductIds
  | .rebuild a rest | .renewRebuilt a rest => a.targetProductIds ++ rest
  | .bootstrap a productId rest _ _ | .reconcile a productId rest =>
    a.targetProductIds ++ productId :: rest
  | .fail _ => []
  | phase => (phase.attempt.map (·.targetProductIds)).getD []

/-- A worker past its inspection is in an attempt for a full loss that has not extended the auction
yet. -/
def Phase.Awaits (p epoch : Nat) (endTime : DateMs) : Phase → Prop
  | .idle | .findControl | .findProducts _ | .fail _ => True
  | .inspect _ productIds => p ∈ productIds
  | .claim trigger _ => trigger = .fullDataLoss
  | .upsertRun a | .setFences a | .captureWatermarks a | .drain a _ | .renewDraining a _
  | .extend a =>
    a.trigger = .fullDataLoss ∧ epoch < a.epoch ∧ a.lastRedisHealthyAt.val ≤ endTime.val
  | _ => False

/-- The auction is pending or active, and its end was ahead when Redis was last healthy. -/
structure RunsAt (s : Platform) (p : Nat) (product : ProductRow) (endTime : DateMs) : Prop where
  listed : p ∈ s.database.productIds
  row : s.tables.products p = some product
  status : product.auctionStatus = .pending ∨ product.auctionStatus = .active
  ends : product.endTime = some endTime
  healthy : s.control.lastRedisHealthyAt.val ≤ endTime.val

/-- No recovery under way has extended the auction, or goes on without. -/
structure Unrecovered (s : World) (p : Nat) (endTime : DateMs) : Prop where
  unowned : s.control.state = .ready → s.control.ownerId = none
  epoch : s.database.lastAuthorityRecoveryEpoch p < s.control.nextEpoch
  workers : ∀ ownerId, if Offered s.tables p then
      (s.workers ownerId).phase.Awaits p (s.database.lastAuthorityRecoveryEpoch p) endTime
    else p ∉ (s.workers ownerId).phase.productIds

/-- Until the auction is extended, no inspection that lists it finds a complete auction without a
fence, no projection changes its row, and its creation does not load it. -/
def Intact (config : Config) (p epoch : Nat) (s : World) (x : WorldAction) : Prop :=
  s.database.lastAuthorityRecoveryEpoch p = epoch →
    match x with
    | .advance ownerId input =>
      ∀ control productIds, (s.workers ownerId).phase = .inspect control productIds →
        input.response = .completes →
        (s.inspection config input control productIds).plannedBootstrap = false →
        p ∈ productIds → ∀ q ∈ productIds,
          q ∈ (s.inspection config input control productIds).missingProductIds
    | .deliver x => ∀ s', s.toPlatform.next config (.deliver x) = some s' →
        s'.tables.products p = s.tables.products p
    | .bootstrap productId _ => productId ≠ p
    | _ => True

/-- The command appends an event of the auction. -/
def AcceptedOn (config : Config) (s : World) (p : Nat) : WorldAction → Prop
  | .call c _ => c.command.productId = p ∧
      (mutate c (s.redis.keys config p)).2.stream.drop (s.redis.keys config p).stream.length ≠ []
  | _ => False

/-- The step extends the auction to an end that is the time of grace ahead. -/
def ExtendsFor (config : Config) (p : Nat) (s : World) (x : WorldAction) (s' : World) : Prop :=
  ∃ ownerId input a endTime, x = .advance ownerId input ∧
    (s.workers ownerId).phase = .extend a ∧ s'.endTime p = some endTime ∧
    input.now.val + max 0 config.graceSeconds * 1000 ≤ endTime.val ∧
    s'.database.lastAuthorityRecoveryEpoch p = a.epoch

section
variable {config : Config} {ownerId : Nat} {input : Input} {s s' : Platform} {w w' : Worker}
  {phase phase' : Phase} {p epoch : Nat} {endTime : DateMs} {product : ProductRow}

/-! ## What the worker names -/

theorem lists_offered {order : List Nat} (h : s.lists order) (hp : p ∈ order) :
    Offered s.tables p := by
  have hmem : p ∈ activeProductIds s.tables s.database := by
    rw [← h.2]
    exact List.mem_toFinset.mpr hp
  exact (Finset.mem_filter.mp hmem).2

/-- A worker goes through products that it has listed while they were offered. -/
theorem follows_productIds (h : Follows config ownerId input s s' phase phase')
    (hp : p ∈ phase'.productIds) : p ∈ phase.productIds ∨ Offered s.tables p := by
  cases h with
  | lists hlists => exact .inr (lists_offered hlists hp)
  | refreshes htrigger hlists =>
    obtain htarget | hrest := List.mem_append.mp hp
    · exact .inl htarget
    · exact .inr (lists_offered hlists hrest)
  | blames =>
    left
    change p ∈ ite _ _ _ at hp
    split at hp
    · cases hp
    · exact (List.mem_filter.mp hp).1
  | begins => cases hp
  | finds => cases hp
  | adopts => cases hp
  | confirms => cases hp
  | written => cases hp
  | stops => cases hp
  | unrecorded => cases hp
  | lifted => cases hp
  | fails => cases hp
  | failed => cases hp
  | reconciled =>
    left
    obtain htarget | hrest := List.mem_append.mp hp
    · exact List.mem_append_left _ htarget
    · exact List.mem_append_right _ (List.mem_cons_of_mem _ hrest)
  | _ =>
    left
    simpa [Phase.productIds, Phase.attempt] using hp

/-! ## What a step leaves of the auction -/

theorem restore_keeps {ttl : Int} {now : DateMs} {q : Nat} {transitions : List StoredTransition}
    {k : AuctionKeys} : (restoreRecentIdempotency ttl now q transitions k).state = k.state := by
  unfold restoreRecentIdempotency
  induction transitions.filter _ generalizing k with
  | nil => rfl
  | cons t ts ih =>
    rw [List.foldl_cons, ih]
    split <;> rfl

/-- A worker writes the hash of the auction that it rebuilds only. -/
theorem PlatformCases.state (h : PlatformCases config ownerId input s phase s')
    (hphase : ∀ a rest T now, phase ≠ .bootstrap a p rest T now) :
    (s'.redis.auctions p).state = (s.redis.auctions p).state := by
  have hfences : ∀ (ids : List Nat) present,
      ((s.redis.setAuctionFences ids present).auctions p).state = (s.redis.auctions p).state := by
    intro ids present
    unfold Redis.setAuctionFences
    dsimp only
    split <;> rfl
  cases h with
  | setsFences a =>
    unfold Platform.fences
    split
    · rfl
    · exact hfences _ _
  | liftsFences a =>
    unfold Platform.fences
    split
    · rfl
    · exact hfences _ _
  | loads hk =>
    refine setKeys_cases (motive := fun k => k.state = (s.redis.auctions p).state)
      (fun heq => ?_) rfl
    subst heq
    exact absurd rfl (hphase _ _ _ _)
  | restores a => exact restore_keeps
  | _ => rfl

/-- A worker changes the row and the epoch of an auction in an extension only. -/
theorem PlatformCases.row (h : PlatformCases config ownerId input s phase s') :
    (s'.tables.products p = s.tables.products p ∧
      s'.database.lastAuthorityRecoveryEpoch p = s.database.lastAuthorityRecoveryEpoch p) ∨
    ∃ a endTime, phase = .extend a ∧ s'.endTime p = some endTime ∧
      input.now.val + max 0 config.graceSeconds * 1000 ≤ endTime.val ∧
      s'.database.lastAuthorityRecoveryEpoch p = a.epoch := by
  obtain ⟨a, T, db, rfl, -, hextend, rfl⟩ | ⟨hdelivery, -, hstamps, -⟩ := h.extended
  · have hextended := extendInterruptedAuctions_ok hextend
    by_cases hp : p ∈ interruptedProducts s.tables s.database a.lastRedisHealthyAt a.epoch
    · obtain ⟨product, before, after, -, -, hval, hproduct, hstamp⟩ :=
        hextended.interrupted p hp
      refine .inr ⟨a, after, rfl, ?_, ?_, hstamp⟩
      · unfold Platform.endTime
        rw [hproduct]
        rfl
      · rw [hval]
        unfold extendedEnd
        omega
    · exact .inl (hextended.others p hp)
  · left
    unfold Platform.tables
    rw [hdelivery, hstamps]
    exact ⟨rfl, rfl⟩

theorem PlatformCases.productIds (h : PlatformCases config ownerId input s phase s') :
    s'.database.productIds = s.database.productIds := by
  obtain ⟨a, T, db, -, -, hextend, rfl⟩ | ⟨-, hids, -⟩ := h.extended
  · change db.productIds = s.database.productIds
    rw [(extendInterruptedAuctions_ok hextend).database]
  · exact hids

theorem append_tables {maxAttempts : Nat} {delivery delivery' : Delivery} {entry : RedisStreamEntry}
    (h : delivery.next maxAttempts (.append entry) = some delivery') :
    delivery'.tables = delivery.tables := by
  unfold Delivery.next at h
  dsimp only at h
  split at h <;> cases h
  rfl

/-- A command on an auction that is not loaded changes nothing of it. -/
theorem mutate_of_absent {c : Call} {k : AuctionKeys} (h : k.state = .absent) :
    Keeps k (mutate c k).2 := by
  have hcases := action_cases (.call c) k
  change ActionCases k (.call c) (mutate c k).2 at hcases
  generalize (mutate c k).2 = k' at hcases
  cases hcases with
  | accepts hpayload haccepts =>
    have hloaded := haccepts.loaded
    rw [AuctionKeys.auction_of_absent h] at hloaded
    cases hloaded
  | keeps hkeeps => exact hkeeps

end

/-- The row of the auction is as the loss has left it, and its keys are still lost. -/
structure Lost (p epoch : Nat) (product : ProductRow) (s : Platform) : Prop where
  listed : p ∈ s.database.productIds
  row : s.tables.products p = some product
  stamp : s.database.lastAuthorityRecoveryEpoch p = epoch
  unloaded : (s.redis.auctions p).state = .absent

section
variable {config : Config} {ownerId : Nat} {input : Input} {s s' : Platform} {w w' : Worker}
  {phase phase' : Phase} {p epoch : Nat} {endTime : DateMs} {product : ProductRow}

theorem Lost.advance (hs : Lost p epoch product s)
    (h : PlatformCases config ownerId input s phase s')
    (hphase : ∀ a rest T now, phase ≠ .bootstrap a p rest T now) :
    Lost p epoch product s' ∨ ∃ a endTime, phase = .extend a ∧ s'.endTime p = some endTime ∧
      input.now.val + max 0 config.graceSeconds * 1000 ≤ endTime.val ∧
      s'.database.lastAuthorityRecoveryEpoch p = a.epoch := by
  obtain ⟨hrow, hstamp⟩ | hextends := h.row (p := p)
  · left
    refine ⟨?_, hrow.trans hs.row, hstamp.trans hs.stamp, (h.state hphase).trans hs.unloaded⟩
    rw [h.productIds]
    exact hs.listed
  · exact .inr hextends

theorem Lost.next {x : WorldAction} (hs : Lost p epoch product s) (h : NextCases config s x s')
    (hrow : ∀ y, x = .deliver y → s'.tables.products p = s.tables.products p)
    (hbootstrap : ∀ now, x ≠ .bootstrap p now) : Lost p epoch product s' := by
  have hids := h.database.2.2 p hs.listed
  refine ⟨hids.1, ?_, hids.2.trans hs.stamp, ?_⟩
  · refine Eq.trans ?_ hs.row
    cases h with
    | delivers happend hnext => exact hrow _ rfl
    | creates hid hnone =>
      refine Function.update_of_ne ?_ _ _
      rintro rfl
      exact hid hs.listed
    | appends hdrop happend => rw [Platform.tables, append_tables happend]
    | _ => rfl
  · have hkeys := h.keys p
    generalize s'.redis.auctions p = k at hkeys
    cases hkeys with
    | keeps => exact hs.unloaded
    | called entryId hp =>
      have habsent : (s.redis.keys config p).state = .absent := hs.unloaded
      exact (mutate_of_absent habsent).state.trans habsent
    | expired hkeeps hfence => exact hkeeps.state.trans hs.unloaded
    | created hcreated => exact absurd rfl (hbootstrap _)
    | lost => rfl

/-- The next claim is for an epoch in which the auction is not extended yet. -/
structure ControlRow.Awaits (row : ControlRow) (epoch : Nat) (endTime : DateMs) : Prop where
  healthy : row.lastRedisHealthyAt.val ≤ endTime.val
  unowned : row.state = .ready → row.ownerId = none
  later : epoch < row.nextEpoch

/-- The auction is offered, and every worker may still extend it. -/
structure Waits (p epoch : Nat) (product : ProductRow) (endTime : DateMs) (s : World) : Prop
    extends Lost p epoch product s.toPlatform where
  control : s.control.Awaits epoch endTime
  workers : ∀ ownerId, (s.workers ownerId).phase.Awaits p epoch endTime

/-- The auction is not offered, and no worker names it. -/
structure Hidden (p epoch : Nat) (product : ProductRow) (s : World) : Prop
    extends Lost p epoch product s.toPlatform where
  workers : ∀ ownerId, p ∉ (s.workers ownerId).phase.productIds

section
variable {row row' : ControlRow} {now clock : DateMs} {e : Nat}

theorem ControlRow.Awaits.claim (h : row.Awaits epoch endTime)
    (hclaim : row.claim config ownerId now = some row') : row'.Awaits epoch endTime := by
  obtain ⟨-, hepoch, hstate, hlast⟩ := ControlRow.claim_ok hclaim
  refine ⟨hlast ▸ h.healthy, fun hready => ?_, ?_⟩
  · rw [hstate] at hready
    cases hready
  · have hnext : row'.nextEpoch = row'.recoveryEpoch := by
      unfold ControlRow.nextEpoch
      rw [hstate]
      rfl
    rw [hnext, hepoch]
    exact h.later

theorem ControlRow.Awaits.renewLease (h : row.Awaits epoch endTime)
    (hrenew : row.renewLease config ownerId e clock = some row') : row'.Awaits epoch endTime := by
  obtain ⟨-, -, hstate, leaseUntil, rfl⟩ := ControlRow.renewLease_ok hrenew
  refine ⟨h.healthy, fun hready => ?_, h.later⟩
  rw [hstate] at hready
  cases hready

theorem ControlRow.Awaits.failed (h : row.Awaits epoch endTime) :
    (row.failed ownerId e).Awaits epoch endTime := by
  unfold ControlRow.failed
  split
  · rename_i howner
    refine ⟨h.healthy, (fun hready => nomatch hready), ?_⟩
    -- The row has an owner, so it is not ready.
    have hbusy : row.state ≠ .ready := by
      intro hready
      rw [h.unowned hready] at howner
      cases howner.2
    have hlater := h.later
    unfold ControlRow.nextEpoch at hlater ⊢
    rwa [if_neg hbusy] at hlater
  · exact h

end

/-- The control row waits for the extension as long as the worker does. -/
theorem PlatformCases.control (h : PlatformCases config ownerId input s phase s')
    (hawaits : phase.Awaits p epoch endTime) (hs : s.control.Awaits epoch endTime) :
    s'.control.Awaits epoch endTime := by
  cases h with
  | touches => cases hawaits
  | completes => cases hawaits
  | claims hclaim => exact hs.claim hclaim
  | renews hattempt hrenew => exact hs.renewLease hrenew
  | fails a => exact hs.failed
  | prolongs htrigger hextend =>
    unfold Platform.control
    rw [(extendInterruptedAuctions_ok hextend).database]
    exact hs
  | _ => exact hs

/-- An auction that is not loaded is missing. -/
theorem lost_missing {control : ControlRow} {productIds : List Nat} (hs : Lost p epoch product s)
    (hp : p ∈ productIds) :
    p ∈ (s.inspection config input control productIds).missingProductIds := by
  refine List.mem_filter.mpr ⟨hp, ?_⟩
  rw [decide_eq_true_eq]
  left
  rintro ⟨-, hstate, -⟩
  rw [hs.unloaded] at hstate
  exact hstate

/-- The inspection finds a full loss if it finds no auction complete. -/
theorem trigger_of_missing {control : ControlRow} {productIds : List Nat} (hp : p ∈ productIds)
    (hmissing : ∀ q ∈ productIds,
      q ∈ (s.inspection config input control productIds).missingProductIds) :
    (s.inspection config input control productIds).trigger productIds = .fullDataLoss := by
  have hall : (s.inspection config input control productIds).missingProductIds = productIds := by
    refine List.filter_eq_self.mpr fun q hq => ?_
    exact (List.mem_filter.mp (hmissing q hq)).2
  unfold Inspection.trigger
  rw [hall, if_pos ⟨rfl, List.length_pos_of_mem hp⟩]

/-- An extension in a later epoch extends the auction. -/
theorem Lost.extended {a : Attempt} {T : Tables} {db : Database} (hs : Lost p epoch product s)
    (hoffered : Offered s.tables p) (hends : product.endTime = some endTime)
    (hepoch : epoch < a.epoch) (hhealthy : a.lastRedisHealthyAt.val ≤ endTime.val)
    (hextend : extendInterruptedAuctions config input.clock input.now a.lastRedisHealthyAt a.epoch
      s.tables s.database = some (T, db)) : db.lastAuthorityRecoveryEpoch p = a.epoch := by
  obtain ⟨product', hproduct', hstatus, hremoved⟩ := hoffered
  cases hs.row.symm.trans hproduct'
  have hp : p ∈ interruptedProducts s.tables s.database a.lastRedisHealthyAt a.epoch := by
    refine mem_interruptedProducts.mpr
      ⟨hs.listed, product, hs.row, hstatus, ?_, ⟨endTime, hends, hhealthy⟩, ?_⟩
    · rw [hremoved]
      simp
    · rw [hs.stamp]
      exact hepoch
  obtain ⟨-, -, -, -, -, -, -, hstamp⟩ :=
    (extendInterruptedAuctions_ok hextend).interrupted p hp
  exact hstamp

/-- A worker that may still extend the auction goes on to do it. -/
theorem follows_awaits (h : Follows config ownerId input s s' phase phase')
    (hoffered : Offered s.tables p) (hends : product.endTime = some endTime)
    (hs : Lost p epoch product s) (hs' : Lost p epoch product s')
    (hcontrol : s.control.Awaits epoch endTime) (hawaits : phase.Awaits p epoch endTime)
    (hintact : ∀ control productIds, phase = .inspect control productIds → phase' ≠ .idle →
      ∀ q ∈ productIds, q ∈
        (s.inspection config input control productIds).missingProductIds) :
    phase'.Awaits p epoch endTime := by
  cases h with
  | lists hlists =>
    have hmem : p ∈ activeProductIds s.tables s.database :=
      Finset.mem_filter.mpr ⟨hs.listed, hoffered⟩
    rw [← hlists.2] at hmem
    exact List.mem_toFinset.mp hmem
  | @adopts control productIds _ _ hmissing =>
    have hp : p ∈ (s.inspection config input control productIds).missingProductIds :=
      lost_missing hs hawaits
    rw [hmissing] at hp
    cases hp
  | @confirms control productIds _ _ hmissing =>
    have hp : p ∈ (s.inspection config input control productIds).missingProductIds :=
      lost_missing hs hawaits
    rw [hmissing] at hp
    cases hp
  | blames htrigger =>
    rw [htrigger]
    exact trigger_of_missing hawaits (hintact _ _ rfl nofun)
  | claims hclaim _ =>
    obtain ⟨-, hepoch, -, hlast⟩ := ControlRow.claim_ok hclaim
    refine ⟨hawaits, ?_, ?_⟩
    · rw [hepoch]
      exact hcontrol.later
    · rw [hlast]
      exact hcontrol.healthy
  | extended htrigger hextend heq =>
    obtain ⟨-, hepoch, hhealthy⟩ := hawaits
    have hstamp := hs.extended hoffered hends hepoch hhealthy hextend
    have hkept := hs'.stamp
    rw [heq, hstamp] at hkept
    exact absurd hkept hepoch.ne'
  | unextended htrigger => exact absurd hawaits.1 htrigger
  | begins => trivial
  | finds => trivial
  | stops => trivial
  | unrecorded => trivial
  | fails => trivial
  | failed => trivial
  | recorded => exact hawaits
  | fenced => exact hawaits
  | captured => exact hawaits
  | drained => exact hawaits
  | undrained => exact hawaits
  | draining => exact hawaits
  | _ => cases hawaits

end

section
variable {config : Config} {s s' t t' : World} {x : WorldAction} {xs : List WorldAction}
  {p epoch : Nat} {endTime : DateMs} {product : ProductRow}

theorem update_workers {P : Phase → Prop} {workers : Nat → Worker} {ownerId : Nat} {w : Worker}
    (h : ∀ i, P (workers i).phase) (hw : P w.phase) (i : Nat) :
    P (Function.update workers ownerId w i).phase := by
  by_cases hi : i = ownerId
  · subst hi
    rwa [Function.update_self]
  · rw [Function.update_of_ne hi]
    exact h i

/-- What is no step of a worker leaves the auction lost. -/
theorem Lost.step {platform : Platform} (hs : Lost p epoch product s.toPlatform)
    (hintact : Intact config p epoch s x) (hnext : s.toPlatform.next config x = some platform) :
    Lost p epoch product platform := by
  have hguard := hintact hs.stamp
  refine hs.next (next_cases hnext) ?_ ?_
  · rintro y rfl
    exact hguard platform hnext
  · rintro now rfl
    exact hguard rfl

theorem step_waits (hoffered : product.isRemoved = some false)
    (hstatus : product.auctionStatus = .pending ∨ product.auctionStatus = .active)
    (hends : product.endTime = some endTime)
    (h : Guarded (Intact config p epoch) (WorldStep config) s x s')
    (hs : Waits p epoch product endTime s) :
    Waits p epoch product endTime s' ∨ ExtendsFor config p s x s' := by
  obtain ⟨hintact, hstep⟩ := h
  obtain ⟨ownerId, input, platform, w, rfl, hadvance, rfl⟩ | ⟨platform, hnext, rfl⟩ :=
    worldStep_cases hstep
  · have hplatform := advance_platform hadvance
    have hawaits := hs.workers ownerId
    obtain hlost | ⟨a, after, hphase, hextends⟩ :=
      hs.toLost.advance hplatform fun a rest T now heq => by
        rw [heq] at hawaits
        exact hawaits
    · left
      refine ⟨hlost, hplatform.control hawaits hs.control, update_workers hs.workers ?_⟩
      refine follows_awaits (advance_follows hadvance) ⟨product, hs.row, hstatus, hoffered⟩
        hends hs.toLost hlost hs.control hawaits fun control productIds hphase hbusy => ?_
      obtain ⟨hcompletes, hplanned⟩ := not_not.mp (mt (inspect_stops hadvance hphase) hbusy)
      rw [hphase] at hawaits
      exact hintact hs.stamp control productIds hphase hcompletes hplanned hawaits
    · exact .inr ⟨ownerId, input, a, after, rfl, hphase, hextends⟩
  · left
    refine ⟨hs.toLost.step hintact hnext, ?_, hs.workers⟩
    change platform.control.Awaits epoch endTime
    rw [(next_cases hnext).database.1]
    exact hs.control

theorem step_hidden (hhidden : product.isRemoved ≠ some false)
    (h : Guarded (Intact config p epoch) (WorldStep config) s x s')
    (hs : Hidden p epoch product s) : Hidden p epoch product s' ∨ ExtendsFor config p s x s' := by
  obtain ⟨hintact, hstep⟩ := h
  obtain ⟨ownerId, input, platform, w, rfl, hadvance, rfl⟩ | ⟨platform, hnext, rfl⟩ :=
    worldStep_cases hstep
  · have hplatform := advance_platform hadvance
    have hunnamed := hs.workers ownerId
    obtain hlost | ⟨a, after, hphase, hextends⟩ :=
      hs.toLost.advance hplatform fun a rest T now heq => by
        rw [heq] at hunnamed
        exact hunnamed (List.mem_append_right _ List.mem_cons_self)
    · left
      refine ⟨hlost, update_workers (P := fun phase => p ∉ phase.productIds) hs.workers ?_⟩
      intro hnamed
      obtain hbefore | ⟨product', hproduct', -, hremoved⟩ :=
        follows_productIds (advance_follows hadvance) hnamed
      · exact hunnamed hbefore
      · cases hs.row.symm.trans hproduct'
        exact hhidden hremoved
    · exact .inr ⟨ownerId, input, a, after, rfl, hphase, hextends⟩
  · exact .inl ⟨hs.toLost.step hintact hnext, hs.workers⟩

/-- A lost auction accepts nothing. -/
theorem Lost.refuses (hs : Lost p epoch product s.toPlatform) : ¬ AcceptedOn config s p x := by
  intro haccepted
  cases x with
  | call c entryId =>
    have habsent : (s.redis.keys config p).state = .absent := hs.unloaded
    refine haccepted.2 ?_
    rw [(mutate_of_absent habsent).stream, List.drop_length]
  | _ => exact haccepted

end

/-- The loss takes the keys, and leaves the row. -/
theorem RunsAt.lost {s : World} {p : Nat} {product : ProductRow} {endTime : DateMs}
    (h : RunsAt s.toPlatform p product endTime) :
    Lost p (s.database.lastAuthorityRecoveryEpoch p) product s.toPlatform.loseAll :=
  ⟨h.listed, h.row, rfl, rfl⟩

/-- A run after the loss has extended the auction, or the auction is still lost. -/
theorem extended_or_lost {config : Config} {s t : World} {xs : List WorldAction} {p : Nat}
    {product : ProductRow} {endTime : DateMs} (hruns : RunsAt s.toPlatform p product endTime)
    (hloss : Unrecovered s p endTime)
    (hrun : Run (Guarded (Intact config p (s.database.lastAuthorityRecoveryEpoch p))
      (WorldStep config)) { s.toPlatform.loseAll with workers := s.workers } xs t) :
    Lost p (s.database.lastAuthorityRecoveryEpoch p) product t.toPlatform ∨
    ∃ before y after u u', xs = before ++ y :: after ∧
      Run (Guarded (Intact config p (s.database.lastAuthorityRecoveryEpoch p)) (WorldStep config))
        { s.toPlatform.loseAll with workers := s.workers } before u ∧
      Guarded (Intact config p (s.database.lastAuthorityRecoveryEpoch p)) (WorldStep config)
        u y u' ∧
      ExtendsFor config p u y u' ∧
      Run (Guarded (Intact config p (s.database.lastAuthorityRecoveryEpoch p)) (WorldStep config))
        u' after t := by
  by_cases hremoved : product.isRemoved = some false
  · have hoffered : Offered s.tables p := ⟨product, hruns.row, hruns.status, hremoved⟩
    have hinit : Waits p (s.database.lastAuthorityRecoveryEpoch p) product endTime
        { s.toPlatform.loseAll with workers := s.workers } := by
      refine ⟨hruns.lost, ⟨hruns.healthy, hloss.unowned, hloss.epoch⟩, fun ownerId => ?_⟩
      have hworker := hloss.workers ownerId
      rwa [if_pos hoffered] at hworker
    obtain hwaits | hextended := hrun.preserves_or_ends
      (fun _ _ _ h hs => step_waits hremoved hruns.status hruns.ends h hs) hinit
    · exact .inl hwaits.toLost
    · exact .inr hextended
  · have hhidden : ¬ Offered s.tables p := by
      rintro ⟨product', hproduct', -, hremoved'⟩
      cases hruns.row.symm.trans hproduct'
      exact hremoved hremoved'
    have hinit : Hidden p (s.database.lastAuthorityRecoveryEpoch p) product
        { s.toPlatform.loseAll with workers := s.workers } := by
      refine ⟨hruns.lost, fun ownerId => ?_⟩
      have hworker := hloss.workers ownerId
      rwa [if_neg hhidden] at hworker
    obtain hunnamed | hextended := hrun.preserves_or_ends
      (fun _ _ _ h hs => step_hidden hremoved h hs) hinit
    · exact .inl hunnamed.toLost
    · exact .inr hextended

/-- If Redis loses everything while no recovery is past the extension of an auction that runs, then
a later step extends the auction before a command on it is accepted, provided that until then each
inspection finds all auctions missing. -/
theorem interrupted_extended {config : Config} {s t : World} {xs : List WorldAction}
    {x : WorldAction} {p : Nat} {product : ProductRow} {endTime : DateMs}
    (hruns : RunsAt s.toPlatform p product endTime) (hloss : Unrecovered s p endTime)
    (hrun : Run (Guarded (Intact config p (s.database.lastAuthorityRecoveryEpoch p))
      (WorldStep config)) s (.loseAll :: xs) t)
    (haccepted : AcceptedOn config t p x) :
    ∃ before y after u u', xs = before ++ y :: after ∧
      Run (WorldStep config) s (.loseAll :: before) u ∧ WorldStep config u y u' ∧
      ExtendsFor config p u y u' ∧ Run (WorldStep config) u' after t := by
  cases hrun with
  | cons hlose hrest =>
    obtain rfl := Option.some.inj hlose.2
    obtain hlost | ⟨before, y, after, u, u', rfl, hbefore, hextend, hextends, hafter⟩ :=
      extended_or_lost hruns hloss hrest
    · exact absurd haccepted hlost.refuses
    · exact ⟨before, y, after, u, u', rfl, .cons hlose.2 (hbefore.mono fun _ _ _ h => h.2),
        hextend.2, hextends, hafter.mono fun _ _ _ h => h.2⟩

namespace Sample
open MiracleAuction.Sample

/-- User 2 bids 200 for auction 1. -/
def bid : WorldAction := .call (call 1 .bid 2 (some "200")) 1

theorem plain_intact (p epoch : Nat) {s : World} {x : WorldAction} (h : Plain s x) :
    Intact config p epoch s x := by
  intro hstamp
  cases x with
  | advance ownerId input =>
    intro control productIds hphase
    have hplain := h.2
    rw [hphase] at hplain
    cases hplain
  | _ => cases h

/-- Redis has lost everything. -/
def empty (s : World) : World := { s.toPlatform.loseAll with workers := s.workers }

theorem empty_step {s : World} {p epoch : Nat} :
    Guarded (Intact config p epoch) (WorldStep config) s .loseAll (empty s) :=
  ⟨fun _ => trivial, rfl⟩

theorem runsAt {s : World} (hlisted : 1 ∈ s.database.productIds)
    (hrow : s.tables.products 1 = some product) (hhealthy : s.control.lastRedisHealthyAt.val = 0) :
    RunsAt s.toPlatform 1 product ⟨1000, by decide⟩ :=
  ⟨hlisted, hrow, .inr rfl, rfl, by rw [hhealthy]; decide⟩

theorem unrecovered {s : World} {endTime : DateMs} (hready : s.control.state = .ready)
    (hunowned : s.control.ownerId = none) (hfresh : s.database.lastAuthorityRecoveryEpoch 1 = 0)
    (hidle : ∀ i, (s.workers i).phase = .idle) : Unrecovered s 1 endTime := by
  refine ⟨fun _ => hunowned, ?_, fun ownerId => ?_⟩
  · unfold ControlRow.nextEpoch
    rw [if_pos hready, hfresh]
    omega
  · rw [hidle]
    split
    · trivial
    · exact List.not_mem_nil

/-- The worker is about to inspect the empty Redis. -/
def finding : World := reach (empty lost) (List.replicate 3 step)

/-- It has found a full loss. -/
def found : World := reach finding [step]

theorem finding_step : Guarded (Intact config 1 0) (WorldStep config) finding step found := by
  refine ⟨fun _ control productIds hphase _ _ _ => ?_,
    reach_step finding [] (by decide +kernel)⟩
  have hlisted : (finding.workers 0).phase = .inspect lost.control [1, 2] := rfl
  cases hlisted.symm.trans hphase
  decide +kernel

/-- One auction. -/
def single : World :=
  { lost with
    database := { lost.database with productIds := {1} }
    delivery :=
      { tables :=
          { products := fun p => if p = 1 then some product else none
            users := {2, 3, 4, 9} } } }

/-- Another auction is created, and then the first is recovered. -/
def joined : List WorldAction :=
  [.create 2 product, .bootstrap 2 (.early 5)] ++ List.replicate 21 step

/-- The step keeps the end of auction 1. A worker takes it at time 5. -/
def Stays (s : World) (x : WorldAction) : Prop :=
  ((s.next config x).bind fun t => (t.endTime 1).map (·.val)) = some 1000 ∧
    match x with
    | .advance _ input => input.now.val = 5
    | _ => True

instance (s : World) (x : WorldAction) : Decidable (Stays s x) :=
  @instDecidableAnd _ _ inferInstance <| match x with
    | .advance _ input => inferInstanceAs (Decidable (input.now.val = 5))
    | .deliver .. | .call .. | .expire .. | .create .. | .bootstrap .. | .plan .. | .lose ..
    | .loseAll => .isTrue trivial

theorem stays_short {s s' : World} {x : WorldAction} (h : Stays s x)
    (hstep : WorldStep config s x s') :
    ¬ ExtendsFor config 1 s x s' := by
  rintro ⟨ownerId, input, a, endTime, rfl, -, hend, hlong, -⟩
  obtain ⟨hstays, hnow⟩ := h
  have hnow' : input.now.val = 5 := hnow
  rw [show s.next config (.advance ownerId input) = some s' from hstep, Option.bind_some, hend]
    at hstays
  have hval : endTime.val = 1000 := Option.some.inj hstays
  rw [hval, hnow'] at hlong
  exact absurd hlong (by decide)

end Sample

/-- The recovery of both auctions, and a bid on the first. -/
theorem interrupted_extended_sample : ∃ before y after u u',
    List.replicate 3 Sample.step ++ Sample.step :: List.replicate 21 Sample.step =
      before ++ y :: after ∧
    Run (WorldStep Sample.config) Sample.lost (.loseAll :: before) u ∧
    WorldStep Sample.config u y u' ∧ ExtendsFor Sample.config 1 u y u' ∧
    Run (WorldStep Sample.config) u' after
      (Sample.reach Sample.found (List.replicate 21 Sample.step)) := by
  have hfinds := Sample.plain_run (fun _ _ => Sample.plain_intact 1 0) (Sample.empty Sample.lost)
    (List.replicate 3 Sample.step) (by decide +kernel)
  have hrecovers := Sample.plain_run (fun _ _ => Sample.plain_intact 1 0) Sample.found
    (List.replicate 21 Sample.step) (by decide +kernel)
  have hruns : RunsAt Sample.lost.toPlatform 1 MiracleAuction.Sample.product
      ⟨1000, by decide⟩ :=
    Sample.runsAt (by decide) rfl rfl
  have haccepted : AcceptedOn Sample.config
      (Sample.reach Sample.found (List.replicate 21 Sample.step)) 1 Sample.bid :=
    ⟨rfl, by decide +kernel⟩
  exact interrupted_extended hruns (Sample.unrecovered rfl rfl rfl fun _ => rfl)
    (.cons Sample.empty_step (hfinds.append (.cons Sample.finding_step hrecovers))) haccepted

/-- The creation of another auction after the loss lets the first be recovered, and accept a bid,
with its old end. -/
theorem interrupted_unextended :
    RunsAt Sample.single.toPlatform 1 MiracleAuction.Sample.product ⟨1000, by decide⟩ ∧
    Unrecovered Sample.single 1 ⟨1000, by decide⟩ ∧
    Run (WorldStep Sample.config) Sample.single (.loseAll :: Sample.joined)
      (Sample.reach Sample.single (.loseAll :: Sample.joined)) ∧
    AcceptedOn Sample.config (Sample.reach Sample.single (.loseAll :: Sample.joined)) 1
    Sample.bid ∧
    ¬ ∃ before y after u u', Sample.joined = before ++ y :: after ∧
      Run (WorldStep Sample.config) Sample.single (.loseAll :: before) u ∧
      WorldStep Sample.config u y u' ∧ ExtendsFor Sample.config 1 u y u' ∧
      Run (WorldStep Sample.config) u' after
        (Sample.reach Sample.single (.loseAll :: Sample.joined)) := by
  refine ⟨Sample.runsAt (by decide) rfl rfl, Sample.unrecovered rfl rfl rfl fun _ => rfl,
    Sample.reach_run _ _ (by decide +kernel), ⟨rfl, by decide +kernel⟩, ?_⟩
  rintro ⟨before, y, after, u, u', heq, hbefore, hstep, hextends, -⟩
  have hall : Run (Guarded Sample.Stays (WorldStep Sample.config)) Sample.single
      (.loseAll :: Sample.joined) (Sample.reach Sample.single (.loseAll :: Sample.joined)) :=
    Sample.guarded_run (by decide +kernel)
  rw [heq, ← List.cons_append] at hall
  obtain ⟨v, hv, hrest⟩ := hall.split
  obtain rfl : v = u := by
    have hv' := run_partial_iff.mp (hv.mono fun _ _ _ h => h.2)
    exact Option.some.inj (hv'.symm.trans (run_partial_iff.mp hbefore))
  cases hrest with
  | cons hstays _ => exact Sample.stays_short hstays.1 hstep hextends

end Recovery

end MiracleAuction
