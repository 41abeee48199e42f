import MiracleAuction.Recovery.Steps

/-!
# Epochs

The recovery epoch grows with the recoveries, and each auction is extended at most once in an
epoch, whatever the workers do and however often they fail.
-/
namespace MiracleAuction
namespace Recovery

def Platform.endTime (s : Platform) (p : Nat) : Option DateMs :=
  (s.tables.products p).bind (·.endTime)

/-- The step is a claim that finds the control row ready. -/
def ClaimsReady (s : World) : WorldAction → Prop
  | .advance ownerId _ => s.control.state = .ready ∧
      ∃ trigger targetProductIds, (s.workers ownerId).phase = .claim trigger targetProductIds
  | _ => False

/-- The worker is about to run `extendInterruptedAuctions` for this attempt. -/
def Extending (s : World) (a : Attempt) : WorldAction → Prop
  | .advance ownerId _ => (s.workers ownerId).phase = .extend a
  | _ => False

/-- The step is an extension in the epoch `e`, and moves the end of the auction. -/
def Extends (s : World) (x : WorldAction) (s' : World) (p e : Nat) : Prop :=
  (∃ a, Extending s a x ∧ a.epoch = e) ∧ s'.endTime p ≠ s.endTime p

/-- What an extension of the auction does. -/
structure ExtendsOnce (s : World) (x : WorldAction) (s' : World) (p e : Nat) : Prop where
  trigger : ∀ a, Extending s a x → a.trigger = .fullDataLoss
  later : ∃ before after : DateMs, s.endTime p = some before ∧ s'.endTime p = some after ∧
    before.val ≤ after.val
  event : ∃ events, s'.database.recovered = s.database.recovered ++ events ∧
    ∃ seconds, events.filter (·.productId = p) = [⟨p, e, seconds⟩]

section
variable {config : Config} {ownerId : Nat} {input : Input} {s s' : Platform} {w w' : Worker}
  {a : Attempt} {p e : Nat}

theorem PlatformCases.extended {phase : Phase}
    (h : PlatformCases config ownerId input s phase s') :
    (∃ a T db, phase = .extend a ∧ a.trigger = .fullDataLoss ∧
      extendInterruptedAuctions config input.clock input.now a.lastRedisHealthyAt a.epoch s.tables
        s.database = some (T, db) ∧
      s' = { s with database := db, delivery := { s.delivery with tables := T } }) ∨
    s'.delivery = s.delivery ∧ s'.database.productIds = s.database.productIds ∧
      s'.database.lastAuthorityRecoveryEpoch = s.database.lastAuthorityRecoveryEpoch ∧
      s'.database.recovered = s.database.recovered := by
  cases h with
  | prolongs htrigger hextend => exact .inl ⟨_, _, _, rfl, htrigger, hextend, rfl⟩
  | _ => exact .inr ⟨rfl, rfl, rfl, rfl⟩

/-! ## The epoch -/

/-- Only a claim changes the epoch. -/
theorem advance_epoch (h : w.advance config ownerId input s = some (s', w')) :
    s'.control.recoveryEpoch = s.control.recoveryEpoch ∨
      (∃ trigger targetProductIds, w.phase = .claim trigger targetProductIds) ∧
        s'.control.recoveryEpoch = s.control.nextEpoch := by
  have hcases := advance_platform h
  generalize w.phase = phase at hcases
  cases hcases with
  | claims hclaim => exact .inr ⟨⟨_, _, rfl⟩, (ControlRow.claim_ok hclaim).2.1⟩
  | renews hattempt hrenew =>
    obtain ⟨-, -, -, leaseUntil, rfl⟩ := ControlRow.renewLease_ok hrenew
    exact .inl rfl
  | prolongs htrigger hextend =>
    left
    rw [(extendInterruptedAuctions_ok hextend).database]
  | fails => exact .inl ControlRow.failed_epoch
  | _ => exact .inl rfl

/-- What is no step of a worker leaves the control row and the outbox rows of the recovery, and the
epochs of the products that exist. -/
theorem NextCases.database {x : WorldAction} (h : NextCases config s x s') :
    s'.control = s.control ∧ s'.database.recovered = s.database.recovered ∧
      ∀ p ∈ s.database.productIds, p ∈ s'.database.productIds ∧
        s'.database.lastAuthorityRecoveryEpoch p = s.database.lastAuthorityRecoveryEpoch p := by
  cases h with
  | creates hid =>
    refine ⟨rfl, rfl, fun q hq =>
      ⟨Finset.mem_insert_of_mem hq, Function.update_of_ne ?_ _ _⟩⟩
    rintro rfl
    exact hid hq
  | _ => exact ⟨rfl, rfl, fun q hq => ⟨hq, rfl⟩⟩

end

section
variable {config : Config} {s s' t t' : World} {x : WorldAction} {xs : List WorldAction} {p e : Nat}

theorem step_epoch (h : WorldStep config s x s') :
    s.control.recoveryEpoch ≤ s'.control.recoveryEpoch ∧
      (s.control.recoveryEpoch < s'.control.recoveryEpoch → ClaimsReady s x) := by
  obtain ⟨ownerId, input, platform, w, rfl, hadvance, rfl⟩ | ⟨platform, hnext, rfl⟩ :=
    worldStep_cases h
  · obtain hsame | ⟨hclaim, hepoch⟩ := advance_epoch hadvance
    · change s.control.recoveryEpoch ≤ platform.control.recoveryEpoch ∧
        (s.control.recoveryEpoch < platform.control.recoveryEpoch → _)
      rw [hsame]
      exact ⟨Nat.le_refl _, fun hlt => absurd hlt (Nat.lt_irrefl _)⟩
    · change s.control.recoveryEpoch ≤ platform.control.recoveryEpoch ∧
        (s.control.recoveryEpoch < platform.control.recoveryEpoch → _)
      rw [hepoch]
      refine ⟨ControlRow.epoch_le_nextEpoch _, fun hlt => ⟨?_, hclaim⟩⟩
      unfold ControlRow.nextEpoch at hlt
      split at hlt
      · assumption
      · exact absurd hlt (Nat.lt_irrefl _)
  · change s.control.recoveryEpoch ≤ platform.control.recoveryEpoch ∧
      (s.control.recoveryEpoch < platform.control.recoveryEpoch → _)
    rw [(next_cases hnext).database.1]
    exact ⟨Nat.le_refl _, fun hlt => absurd hlt (Nat.lt_irrefl _)⟩

/-- The extension of an auction, in the terms of its transaction. -/
theorem extends_extended (h : WorldStep config s x s') (hextends : Extends s x s' p e) :
    ∃ (a : Attempt) (input : Input), Extending s a x ∧ a.epoch = e ∧
      a.trigger = .fullDataLoss ∧
      p ∈ interruptedProducts s.tables s.database a.lastRedisHealthyAt e ∧
      Extended config input.clock input.now a.lastRedisHealthyAt e s.tables s.database s'.tables
        s'.database := by
  obtain ⟨⟨a, hextending, rfl⟩, hchanged⟩ := hextends
  obtain ⟨ownerId, input, platform, w, rfl, hadvance, rfl⟩ | ⟨platform, hnext, rfl⟩ :=
    worldStep_cases h
  · have hphase : (s.workers ownerId).phase = .extend a := hextending
    obtain ⟨a', T, db, hphase', htrigger, hextend, rfl⟩ | ⟨hdelivery, -⟩ :=
      (advance_platform hadvance).extended
    · cases hphase.symm.trans hphase'
      have hextended := extendInterruptedAuctions_ok hextend
      refine ⟨a, input, hextending, rfl, htrigger, ?_, hextended⟩
      by_contra hnot
      refine hchanged ?_
      change (T.products p).bind _ = _
      rw [(hextended.others p hnot).1]
      rfl
    · refine absurd ?_ hchanged
      change (platform.delivery.tables.products p).bind _ = _
      rw [hdelivery]
      rfl
  · cases x with
    | advance ownerId input => cases hnext
    | _ => cases hextending

/-- The epoch of an auction that was extended does not decrease. -/
theorem step_stamped (h : WorldStep config s x s')
    (hs : p ∈ s.database.productIds ∧ e ≤ s.database.lastAuthorityRecoveryEpoch p) :
    p ∈ s'.database.productIds ∧ e ≤ s'.database.lastAuthorityRecoveryEpoch p := by
  obtain ⟨ownerId, input, platform, w, rfl, hadvance, rfl⟩ | ⟨platform, hnext, rfl⟩ :=
    worldStep_cases h
  · obtain ⟨a, T, db, -, -, hextend, rfl⟩ | ⟨-, hids, hstamps, -⟩ :=
      (advance_platform hadvance).extended
    · have hextended := extendInterruptedAuctions_ok hextend
      refine ⟨?_, ?_⟩
      · change p ∈ db.productIds
        rw [hextended.database]
        exact hs.1
      · change e ≤ db.lastAuthorityRecoveryEpoch p
        by_cases hp : p ∈ interruptedProducts s.tables s.database a.lastRedisHealthyAt a.epoch
        · obtain ⟨-, -, -, -, -, -, -, hepoch⟩ := hextended.interrupted p hp
          obtain ⟨-, product, -, -, -, -, hlt⟩ := mem_interruptedProducts.mp hp
          omega
        · rw [(hextended.others p hp).2]
          exact hs.2
    · change p ∈ platform.database.productIds ∧
        e ≤ platform.database.lastAuthorityRecoveryEpoch p
      rw [hids, hstamps]
      exact hs
  · obtain ⟨hmem, hepoch⟩ := (next_cases hnext).database.2.2 p hs.1
    exact ⟨hmem, hepoch ▸ hs.2⟩

theorem filter_sort_map {products : Finset Nat} {f : Nat → RecoveredEvent}
    (hf : ∀ p, (f p).productId = p) (hp : p ∈ products) :
    ((products.sort (· ≤ ·)).map f).filter (·.productId = p) = [f p] := by
  have hfilter : (products.sort (· ≤ ·)).filter
      ((fun event => decide (event.productId = p)) ∘ f) =
      [p] := by
    have hcount : (products.sort (· ≤ ·)).count p = 1 :=
      List.count_eq_one_of_mem (Finset.sort_nodup _ _) ((Finset.mem_sort _).mpr hp)
    simp only [Function.comp_def, hf]
    rw [List.filter_eq, hcount]
    rfl
  rw [List.filter_map, hfilter]
  rfl

/-- One extension: with a full loss only, never to an earlier end, and with one event. -/
theorem extends_once (h : WorldStep config s x s') (hextends : Extends s x s' p e) :
    ExtendsOnce s x s' p e := by
  obtain ⟨a, input, hextending, hepoch, htrigger, hp, hextended⟩ := extends_extended h hextends
  obtain ⟨product, before, after, hproduct, hend, hval, hproduct', -⟩ :=
    hextended.interrupted p hp
  have hbefore : s.endTime p = some before := by
    unfold Platform.endTime
    rw [hproduct, Option.bind_some, hend]
  have hafter : s'.endTime p = some after := by
    unfold Platform.endTime
    rw [hproduct', Option.bind_some]
  have hlater : before.val ≤ after.val := by
    have hseconds := extensionSeconds_nonneg config input.clock a.lastRedisHealthyAt
    rw [hval]
    unfold extendedEnd
    omega
  refine ⟨fun a' hextending' => ?_, ⟨before, after, hbefore, hafter, hlater⟩, _,
    congrArg Database.recovered hextended.database, _, filter_sort_map (fun _ => rfl) hp⟩
  cases x with
  | advance ownerId input' =>
    cases hextending.symm.trans hextending'
    exact htrigger
  | _ => cases hextending

/-- No auction is extended twice in an epoch. -/
theorem not_extends_again {u u' : World} {y : WorldAction} (hextends : Extends s x s' p e)
    (hstep : WorldStep config s x s') (hrun : Run (WorldStep config) s' xs u)
    (hstep' : WorldStep config u y u') : ¬ Extends u y u' p e := by
  intro hagain
  obtain ⟨a, input, -, -, -, hp, hextended⟩ := extends_extended hstep hextends
  have hstamped : p ∈ s'.database.productIds ∧
      e ≤ s'.database.lastAuthorityRecoveryEpoch p := by
    obtain ⟨-, -, -, -, -, -, -, hepoch⟩ := hextended.interrupted p hp
    rw [hextended.database]
    exact ⟨(mem_interruptedProducts.mp hp).1, hepoch.ge⟩
  have hlast := hrun.preserves (I := fun u : World =>
    p ∈ u.database.productIds ∧ e ≤ u.database.lastAuthorityRecoveryEpoch p)
    (fun _ _ _ hstep hs => step_stamped hstep hs) hstamped
  obtain ⟨a', input', -, -, -, hp', -⟩ := extends_extended hstep' hagain
  obtain ⟨-, product, -, -, -, -, hlt⟩ := mem_interruptedProducts.mp hp'
  exact absurd hlast.2 (Nat.not_le.mpr hlt)

end

/-- At every step of a run the epoch has not decreased, and it grows with a claim that finds the row
ready only. An extension moves the end of an auction that no earlier step of the run has moved in
the same epoch, in one transaction with one event, after a full loss, and never back. -/
theorem extension_once {config : Config} {s t t' : World} {xs : List WorldAction} {x : WorldAction}
    (hrun : Run (WorldStep config) s xs t) (hstep : WorldStep config t x t') :
    s.control.recoveryEpoch ≤ t'.control.recoveryEpoch ∧
    t.control.recoveryEpoch ≤ t'.control.recoveryEpoch ∧
    (t.control.recoveryEpoch < t'.control.recoveryEpoch → ClaimsReady t x) ∧
    ∀ p e, Extends t x t' p e → ExtendsOnce t x t' p e ∧
      ∀ u y u' before after, xs = before ++ y :: after → Run (WorldStep config) s before u →
        WorldStep config u y u' → Run (WorldStep config) u' after t →
          ¬ Extends u y u' p e := by
  have hgrows : s.control.recoveryEpoch ≤ t.control.recoveryEpoch :=
    hrun.compares (R := fun s t : World => s.control.recoveryEpoch ≤ t.control.recoveryEpoch)
      (fun _ => Nat.le_refl _) (fun _ _ _ => Nat.le_trans) fun _ _ _ h => (step_epoch h).1
  obtain ⟨hle, hclaims⟩ := step_epoch hstep
  refine ⟨hgrows.trans hle, hle, hclaims, fun p e hextends =>
    ⟨extends_once hstep hextends, ?_⟩⟩
  intro u y u' before after _ _ hstep' hafter hearlier
  exact not_extends_again hearlier hstep' hafter hstep hextends

namespace Sample
open MiracleAuction.Sample

def config : Config := {}

/-- Two auctions whose keys are lost. -/
def lost : World where
  database :=
    { control :=
        { generation := 7
          recoveryEpoch := 0
          state := .ready
          ownerId := none
          leaseUntil := none
          lastRedisHealthyAt := .early 0 }
      productIds := {1, 2} }
  delivery :=
    { tables :=
        { products := fun p => if p = 1 ∨ p = 2 then some product else none
          users := {2, 3, 4, 9} } }

/-- Worker 0 at time 5, and the products in order. -/
def step : WorldAction :=
  .advance 0 { clock := .early 5, now := .early 5, order := [1, 2] }

def failure : WorldAction := .advance 0 { response := .fails false }

/-- The state after a run, where it is possible. -/
def reach (s : World) (xs : List WorldAction) : World := (xs.foldlM (World.next config) s).getD s

theorem reach_run (s : World) (xs : List WorldAction)
    (h : (xs.foldlM (World.next config) s).isSome) : Run (WorldStep config) s xs (reach s xs) := by
  obtain ⟨t, ht⟩ := Option.isSome_iff_exists.mp h
  unfold reach
  rw [ht]
  exact run_partial_iff.mpr ht

theorem reach_step (s : World) (xs : List WorldAction) {x : WorldAction}
    (h : ((xs ++ [x]).foldlM (World.next config) s).isSome) :
    WorldStep config (reach s xs) x (reach s (xs ++ [x])) := by
  obtain ⟨u, hu⟩ := Option.isSome_iff_exists.mp h
  have happend := hu
  rw [List.foldlM_append] at happend
  obtain ⟨t, ht, hstep⟩ := Option.bind_eq_some_iff.mp happend
  rw [List.foldlM_cons] at hstep
  obtain ⟨u', hu', heq⟩ := Option.bind_eq_some_iff.mp hstep
  obtain rfl : u' = u := Option.some.inj heq
  unfold reach
  rw [ht, hu]
  exact hu'

/-- A worker claims the recovery and drains the projection. -/
def claimed : List WorldAction := List.replicate 9 step

end Sample

/-- The first extension after the loss. -/
theorem extension_once_sample :
    Extends (Sample.reach Sample.lost Sample.claimed) Sample.step
      (Sample.reach Sample.lost (Sample.claimed ++ [Sample.step])) 1 1 ∧
    ExtendsOnce (Sample.reach Sample.lost Sample.claimed) Sample.step
      (Sample.reach Sample.lost (Sample.claimed ++ [Sample.step])) 1 1 := by
  have hextends : Extends (Sample.reach Sample.lost Sample.claimed) Sample.step
      (Sample.reach Sample.lost (Sample.claimed ++ [Sample.step])) 1 1 := by
    refine ⟨⟨⟨.fullDataLoss, [], 7, 1, ⟨0, by decide⟩⟩, ?_, rfl⟩, by decide +kernel⟩
    rfl
  have hrun := Sample.reach_run Sample.lost Sample.claimed (by decide +kernel)
  have hstep : WorldStep Sample.config (Sample.reach Sample.lost Sample.claimed) Sample.step
      (Sample.reach Sample.lost (Sample.claimed ++ [Sample.step])) :=
    Sample.reach_step _ _ (by decide +kernel)
  exact ⟨hextends, ((extension_once hrun hstep).2.2.2 1 1 hextends).1⟩

end Recovery

end MiracleAuction
