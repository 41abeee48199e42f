import MiracleAuction.Recovery.Epochs

/-!
# Ready and writable

A recovery removes the fences of its own kind. A worker that is ready again has removed all of them
if every attempt finds no fence of the other kind.
-/
namespace MiracleAuction
namespace Recovery

/-- The auction is pending or active. -/
def Running (T : Tables) (p : Nat) : Prop :=
  ∃ product ∈ T.products p, product.auctionStatus = .pending ∨ product.auctionStatus = .active

namespace Platform
variable (config : Config) (s : Platform)

/-- The auction runs behind its own fence. -/
def Fenced (p : Nat) : Prop :=
  Running s.tables p ∧ (s.redis.auctions p).auctionRecoveryFence = true

/-- No client is closed by the global fence. -/
def Open : Prop := ∀ client < config.clients, s.redis.recoveryFence client = false

/-- Commands on every running auction pass the fences. -/
def Writable : Prop := s.Open config ∧ ∀ p, ¬ s.Fenced p

/-- The fences are those that an attempt of this scope removes. -/
def Covers (trigger : Trigger) (targetProductIds : List Nat) : Prop :=
  if trigger.isGlobal then ∀ p, ¬ s.Fenced p
  else s.Open config ∧ ∀ p, s.Fenced p → p ∈ targetProductIds

/-- The inspection finds every fenced auction, and no fence of the other kind. -/
def FindsOwn (input : Input) (control : ControlRow) (productIds : List Nat) : Prop :=
  (∀ p, s.Fenced p → p ∈ productIds) ∧
    if ((s.inspection config input control productIds).trigger productIds).isGlobal then
      ∀ p, ¬ s.Fenced p
    else s.Open config

end Platform

/-- An inspection that is acted on finds no fence of the other kind, and no fenced auction begins to
run. -/
def Separate (config : Config) (s : World) : WorldAction → Prop
  | .advance ownerId input =>
    ∀ control productIds, (s.workers ownerId).phase = .inspect control productIds →
      input.response = .completes →
      (s.inspection config input control productIds).plannedBootstrap = false →
      s.FindsOwn config input control productIds
  | x => ∀ s', s.toPlatform.next config x = some s' → ∀ p, s'.Fenced p → s.Fenced p

/-- No other worker takes part. -/
def WorldAction.By (worker : Nat) : WorldAction → Prop
  | .advance ownerId _ => ownerId = worker
  | _ => True

/-- A cycle of the worker ends with a ready control row and a ready runtime. -/
structure EndsReady (worker : Nat) (s s' : World) : Prop where
  began : (s.workers worker).phase ≠ .idle
  ended : (s'.workers worker).phase = .idle
  runtime : (s'.workers worker).runtime = ⟨.ready, true⟩
  control : s'.control.state = .ready

/-- The fences that a phase is about. -/
def Phase.scope : Phase → Option (Trigger × List Nat)
  | .claim trigger targetProductIds => some (trigger, targetProductIds)
  | phase => phase.attempt.map fun a => (a.trigger, a.targetProductIds)

/-- An inspection has found the authority healthy. -/
def Phase.healthy : Phase → Bool
  | .adopt _ _ | .touch _ => true
  | _ => false

/-- What holds of the fences while a worker is in a phase. -/
structure Scoped (config : Config) (s : Platform) (phase : Phase) : Prop where
  healthy : phase.healthy = true → s.Writable config
  scope : ∀ trigger targetProductIds, phase.scope = some (trigger, targetProductIds) →
    s.Covers config trigger targetProductIds

section
variable {config : Config} {ownerId worker : Nat} {input : Input} {s s' : Platform} {w w' : Worker}
  {phase phase' : Phase} {trigger : Trigger} {targetProductIds productIds : List Nat}
  {control : ControlRow} {p : Nat}

/-- An extension leaves every auction as it runs. -/
theorem PlatformCases.running (h : PlatformCases config ownerId input s phase s') :
    Running s'.tables p → Running s.tables p := by
  obtain ⟨a, T, db, -, -, hextend, rfl⟩ | ⟨hdelivery, -⟩ := h.extended
  · have hextended := extendInterruptedAuctions_ok hextend
    rintro ⟨product', hproduct', hruns⟩
    change T.products p = some product' at hproduct'
    by_cases hp : p ∈ interruptedProducts s.tables s.database a.lastRedisHealthyAt a.epoch
    · obtain ⟨product, -, endTime', hproduct, -, -, hsome, -⟩ := hextended.interrupted p hp
      cases hsome.symm.trans hproduct'
      exact ⟨product, hproduct, hruns⟩
    · rw [(hextended.others p hp).1] at hproduct'
      exact ⟨product', hproduct', hruns⟩
  · unfold Platform.tables
    rw [hdelivery]
    exact id

theorem Covers.mono (hopen : s.Open config → trigger.isGlobal = false → s'.Open config)
    (hfenced : ∀ p, s'.Fenced p → s.Fenced p ∨
      trigger.isGlobal = false ∧ p ∈ targetProductIds)
    (h : s.Covers config trigger targetProductIds) : s'.Covers config trigger targetProductIds := by
  unfold Platform.Covers at h ⊢
  split at h
  · rename_i hglobal
    rw [if_pos hglobal]
    intro p hp
    obtain hbefore | ⟨htargeted, -⟩ := hfenced p hp
    · exact h p hbefore
    · rw [hglobal] at htargeted
      cases htargeted
  · rename_i hglobal
    rw [if_neg hglobal]
    refine ⟨hopen h.1 (by simpa using hglobal), fun p hp => ?_⟩
    obtain hbefore | ⟨-, htarget⟩ := hfenced p hp
    · exact h.2 p hbefore
    · exact htarget

/-- A step of a worker fences what is in its scope only. -/
theorem PlatformCases.fenced (h : PlatformCases config ownerId input s phase s')
    (hp : s'.Fenced p) : s.Fenced p ∨ ∃ trigger targetProductIds,
      phase.scope = some (trigger, targetProductIds) ∧ trigger.isGlobal = false ∧
        p ∈ targetProductIds := by
  obtain hbefore | ⟨a, rfl, htargeted, htarget⟩ := h.auctionFence hp.2
  · exact .inl ⟨h.running hp.1, hbefore⟩
  · exact .inr ⟨_, _, rfl, htargeted, htarget⟩

theorem PlatformCases.isOpen (h : PlatformCases config ownerId input s phase s')
    (hopen : s.Open config)
    (hscope : ∀ trigger targetProductIds, phase.scope = some (trigger, targetProductIds) →
      trigger.isGlobal = false) : s'.Open config := by
  intro client hclient
  by_contra hclosed
  obtain hbefore | ⟨a, rfl, hglobal⟩ := h.recoveryFence (by simpa using hclosed)
  · rw [hopen client hclient] at hbefore
    cases hbefore
  · rw [hscope _ _ rfl] at hglobal
    cases hglobal

theorem PlatformCases.covers (h : PlatformCases config ownerId input s phase s')
    (hscope : ∀ scope, phase.scope = some scope → scope = (trigger, targetProductIds))
    (hcovers : s.Covers config trigger targetProductIds) :
    s'.Covers config trigger targetProductIds := by
  refine Covers.mono (fun hopen htargeted => h.isOpen hopen ?_) (fun p hp => ?_) hcovers
  · intro trigger' targetProductIds' hscope'
    cases hscope _ hscope'
    exact htargeted
  · obtain hbefore | ⟨trigger', targetProductIds', hscope', htargeted, htarget⟩ := h.fenced hp
    · exact .inl hbefore
    · cases hscope _ hscope'
      exact .inr ⟨htargeted, htarget⟩

theorem PlatformCases.writable (h : PlatformCases config ownerId input s phase s')
    (hscope : phase.scope = none) (hwritable : s.Writable config) : s'.Writable config := by
  refine ⟨h.isOpen hwritable.1 fun _ _ hsome => ?_, fun p hp => ?_⟩
  · cases hscope.symm.trans hsome
  · obtain hbefore | ⟨_, _, hsome, -⟩ := h.fenced hp
    · exact hwritable.2 p hbefore
    · cases hscope.symm.trans hsome

theorem scope_of_attempt {a : Attempt} (h : phase.attempt = some a) :
    phase.scope = some (a.trigger, a.targetProductIds) := by
  cases phase <;> cases h <;> rfl

/-- A worker keeps its scope until its cycle ends. -/
theorem follows_scope (h : Follows config ownerId input s s' phase phase') :
    (phase'.scope = none ∨ phase'.scope = phase.scope ∨
      ∃ control productIds, phase = .inspect control productIds) ∧
    (phase'.healthy = true → phase.healthy = true ∨
      ∃ control productIds, phase = .inspect control productIds) := by
  cases h with
  | adopts => exact ⟨.inl rfl, fun _ => .inr ⟨_, _, rfl⟩⟩
  | confirms => exact ⟨.inl rfl, fun _ => .inr ⟨_, _, rfl⟩⟩
  | blames => exact ⟨.inr (.inr ⟨_, _, rfl⟩), fun h => nomatch h⟩
  | written => exact ⟨.inl rfl, fun _ => .inl rfl⟩
  | fails hattempt => exact ⟨.inr (.inl (scope_of_attempt hattempt).symm), fun h => nomatch h⟩
  | begins => exact ⟨.inl rfl, fun h => nomatch h⟩
  | finds => exact ⟨.inl rfl, fun h => nomatch h⟩
  | lists => exact ⟨.inl rfl, fun h => nomatch h⟩
  | stops => exact ⟨.inl rfl, fun h => nomatch h⟩
  | unrecorded => exact ⟨.inl rfl, fun h => nomatch h⟩
  | lifted => exact ⟨.inl rfl, fun h => nomatch h⟩
  | failed => exact ⟨.inl rfl, fun h => nomatch h⟩
  | _ => exact ⟨.inr (.inl rfl), fun h => nomatch h⟩

/-- A fenced auction that is inspected is missing. -/
theorem fenced_missing (hp : s.Fenced p) (hmem : p ∈ productIds) :
    p ∈ (s.inspection config input control productIds).missingProductIds := by
  unfold Platform.inspection inspectRedisAuthority missingProductIds
  refine List.mem_filter.mpr ⟨hmem, ?_⟩
  rw [decide_eq_true_eq]
  exact .inr hp.2

theorem open_of_inspection
    (h : (s.inspection config input control productIds).fencePresent = false) : s.Open config := by
  intro client hclient
  unfold Platform.inspection inspectRedisAuthority at h
  have hall := List.any_eq_false.mp h client (List.mem_range.mpr hclient)
  simpa using hall

/-- The inspection of an authority without loss leaves no fence. -/
theorem writable_of_inspection (hfinds : s.FindsOwn config input control productIds)
    (hfence : (s.inspection config input control productIds).fencePresent = false)
    (hmissing : (s.inspection config input control productIds).missingProductIds = []) :
    s.Writable config := by
  refine ⟨open_of_inspection hfence, fun p hp => ?_⟩
  have hmem : p ∈ (s.inspection config input control productIds).missingProductIds :=
    fenced_missing hp (hfinds.1 p hp)
  rw [hmissing] at hmem
  cases hmem

/-- The attempt that an inspection begins removes every fence that there is. -/
theorem covers_of_inspection (hfinds : s.FindsOwn config input control productIds)
    (htrigger : trigger = (s.inspection config input control productIds).trigger productIds) :
    s.Covers config trigger (if trigger.isGlobal then []
      else (s.inspection config input control productIds).missingProductIds) := by
  obtain ⟨hinspected, hkind⟩ := hfinds
  rw [← htrigger] at hkind
  unfold Platform.Covers
  split
  · rename_i hglobal
    rwa [if_pos hglobal] at hkind
  · rename_i htargeted
    rw [if_neg htargeted] at hkind
    exact ⟨hkind, fun p hp => fenced_missing hp (hinspected p hp)⟩

/-- An inspection that fails, or that finds a planned bootstrap, ends the cycle. -/
theorem inspect_stops (h : w.advance config ownerId input s = some (s', w'))
    (hphase : w.phase = .inspect control productIds)
    (hstops : ¬ (input.response = .completes ∧
      (s.inspection config input control productIds).plannedBootstrap = false)) :
    w'.phase = .idle := by
  obtain ⟨phase, runtime⟩ := w
  obtain rfl : phase = .inspect control productIds := hphase
  unfold Worker.advance at h
  dsimp only at h
  split at h <;> cases h
  · rename_i hcompletes
    have hplanned : (s.inspection config input control productIds).plannedBootstrap = true := by
      by_contra hnone
      exact hstops ⟨hcompletes, by simpa using hnone⟩
    unfold Worker.decide
    rw [if_pos hplanned]
  · rfl

/-- A step of the worker keeps what holds of the fences in its phases. -/
theorem scoped_advance (h : w.advance config ownerId input s = some (s', w'))
    (hs : Scoped config s w.phase)
    (hseparate : ∀ control productIds, w.phase = .inspect control productIds →
      input.response = .completes →
      (s.inspection config input control productIds).plannedBootstrap = false →
      s.FindsOwn config input control productIds) : Scoped config s' w'.phase := by
  have hinspect : ∀ control productIds, w.phase = .inspect control productIds →
      w'.phase ≠ .idle → s.FindsOwn config input control productIds := by
    intro control productIds hphase hbusy
    obtain ⟨hcompletes, hplanned⟩ := not_not.mp (mt (inspect_stops h hphase) hbusy)
    exact hseparate control productIds hphase hcompletes hplanned
  have hplatform := advance_platform h
  have hfollows := advance_follows h
  generalize w.phase = phase at hplatform hfollows hs hinspect
  generalize w'.phase = phase' at hfollows hinspect
  obtain ⟨hscope, hhealthy⟩ := follows_scope hfollows
  refine ⟨fun hnow => ?_, fun trigger targetProductIds hnow => ?_⟩
  · obtain hbefore | ⟨control, productIds, rfl⟩ := hhealthy hnow
    · refine hplatform.writable ?_ (hs.healthy hbefore)
      cases phase <;> first | rfl | cases hbefore
    · refine hplatform.writable rfl ?_
      cases hfollows with
      | adopts _ hfence hmissing =>
        exact writable_of_inspection (hinspect _ _ rfl nofun) hfence hmissing
      | confirms _ hfence hmissing =>
        exact writable_of_inspection (hinspect _ _ rfl nofun) hfence hmissing
      | _ => cases hnow
  · obtain hnone | hsame | ⟨control, productIds, rfl⟩ := hscope
    · cases hnone.symm.trans hnow
    · have hbefore := hsame.symm.trans hnow
      refine hplatform.covers (fun scope hscope => ?_) (hs.scope _ _ hbefore)
      exact Option.some.inj (hscope.symm.trans hbefore)
    · refine hplatform.covers (fun scope hscope => nomatch hscope) ?_
      cases hfollows with
      | blames htrigger =>
        cases hnow
        exact covers_of_inspection (hinspect _ _ rfl nofun) htrigger
      | fails hattempt => cases hattempt
      | _ => cases hnow

/-- A completed removal of the fences leaves none. -/
theorem lifted_writable {a : Attempt} (hresponse : input.response = .completes)
    (h : s.Covers config a.trigger a.targetProductIds) :
    (s.fences config a input false).Writable config := by
  have hreaches : ∀ all, input.reaches all = all := by
    intro all
    unfold Input.reaches
    rw [hresponse]
  unfold Platform.Covers at h
  unfold Platform.fences
  simp only [hreaches]
  split at h
  · rename_i hglobal
    simp only [if_pos hglobal]
    refine ⟨fun client hclient => ?_, h⟩
    exact if_pos (List.mem_range.mpr hclient)
  · rename_i htargeted
    simp only [if_neg htargeted]
    refine ⟨h.1, ?_⟩
    rintro p ⟨hruns, hfence⟩
    change (if p ∈ a.targetProductIds then _ else _ : AuctionKeys).auctionRecoveryFence = true
      at hfence
    split at hfence
    · cases hfence
    · rename_i hp
      exact hp (h.2 p ⟨hruns, hfence⟩)

/-- The last step of a cycle that ends ready. -/
theorem advance_writable (h : w.advance config ownerId input s = some (s', w'))
    (hs : Scoped config s w.phase) (hbusy : w.phase ≠ .idle → w.runtime.state ≠ .ready)
    (hready : w'.runtime.state = .ready) : s'.Writable config := by
  have hplatform := advance_platform h
  obtain ⟨-, ⟨now, hphase⟩ | ⟨a, hphase, hresponse, rfl⟩⟩ :=
    advance_ready h hbusy hready
  · rw [hphase] at hplatform hs
    exact hplatform.writable rfl (hs.healthy rfl)
  · rw [hphase] at hs
    exact lifted_writable hresponse (hs.scope _ _ rfl)

/-- The other steps fence nothing. -/
theorem NextCases.scoped {x : WorldAction} {phase : Phase} (h : NextCases config s x s')
    (hfenced : ∀ p, s'.Fenced p → s.Fenced p) (hs : Scoped config s phase) :
    Scoped config s' phase := by
  have hopen : s.Open config → s'.Open config := by
    intro hopen client hclient
    by_contra hclosed
    have hbefore := h.recoveryFence (by simpa using hclosed)
    rw [hopen client hclient] at hbefore
    cases hbefore
  refine ⟨fun hhealthy => ?_, fun trigger targetProductIds hscope => ?_⟩
  · obtain ⟨hbefore, hnone⟩ := hs.healthy hhealthy
    exact ⟨hopen hbefore, fun p hp => hnone p (hfenced p hp)⟩
  · exact Covers.mono (fun hbefore _ => hopen hbefore) (fun p hp => .inl (hfenced p hp))
      (hs.scope _ _ hscope)

end

section
variable {config : Config} {worker : Nat} {s s' t t' : World} {x : WorldAction}
  {xs : List WorldAction}

/-- What a run of one worker maintains. -/
structure Tracked (config : Config) (worker : Nat) (s : World) : Prop where
  fences : Scoped config s.toPlatform (s.workers worker).phase
  busy : (s.workers worker).phase ≠ .idle → (s.workers worker).runtime.state ≠ .ready

theorem step_tracked (h : Guarded (fun s x => x.By worker ∧ Separate config s x)
    (WorldStep config) s x s') (hs : Tracked config worker s) : Tracked config worker s' := by
  obtain ⟨⟨hby, hseparate⟩, hstep⟩ := h
  obtain ⟨ownerId, input, platform, w, rfl, hadvance, rfl⟩ | ⟨platform, hnext, rfl⟩ :=
    worldStep_cases hstep
  · obtain rfl : ownerId = worker := hby
    have hworker : (Function.update s.workers ownerId w) ownerId = w := Function.update_self ..
    constructor
    · change Scoped config platform (Function.update s.workers ownerId w ownerId).phase
      rw [hworker]
      exact scoped_advance hadvance hs.fences hseparate
    · change (Function.update s.workers ownerId w ownerId).phase ≠ .idle →
        (Function.update s.workers ownerId w ownerId).runtime.state ≠ .ready
      rw [hworker]
      exact fun hbusy hready => hbusy (advance_ready hadvance hs.busy hready).1
  · refine ⟨(next_cases hnext).scoped ?_ hs.fences, hs.busy⟩
    cases x with
    | advance => cases hnext
    | _ => exact hseparate _ hnext

/-- The last step of a cycle that ends ready leaves no fence. -/
theorem ends_writable (h : Guarded (fun s x => x.By worker ∧ Separate config s x)
    (WorldStep config) s x s') (hs : Tracked config worker s) (hends : EndsReady worker s s') :
    s'.Writable config := by
  obtain ⟨⟨hby, hseparate⟩, hstep⟩ := h
  obtain ⟨ownerId, input, platform, w, rfl, hadvance, rfl⟩ | ⟨platform, hnext, rfl⟩ :=
    worldStep_cases hstep
  · obtain rfl : ownerId = worker := hby
    refine advance_writable hadvance hs.fences hs.busy ?_
    have hruntime : (Function.update s.workers ownerId w ownerId).runtime = ⟨.ready, true⟩ :=
      hends.runtime
    rw [Function.update_self] at hruntime
    rw [hruntime]
  · exact absurd hends.ended hends.began

theorem writable_unfenced {s : Platform} {p : Nat} (h : s.Writable config)
    (hruns : Running s.tables p) (htype : (s.redis.auctions p).wrongType = false) :
    Script.fenceCheck (s.redis.keys config p) = none := by
  refine fenceCheck_eq_none.mpr ⟨htype, h.1 _ (Nat.mod_lt _ config.clients_pos), ?_⟩
  change (s.redis.auctions p).auctionRecoveryFence = false
  by_contra hfence
  exact h.2 p ⟨hruns, by simpa using hfence⟩

end

/-- In a run of one worker's cycles whose inspections find fences of their own kind only, a cycle
that ends ready leaves neither the global fence nor that of a pending or active auction, so that
commands on these auctions pass the fence checks. -/
theorem ready_writable {config : Config} {worker : Nat} {s t t' : World} {xs : List WorldAction}
    {x : WorldAction} (hidle : (s.workers worker).phase = .idle)
    (hrun : Run
      (Guarded (fun s x => x.By worker ∧ Separate config s x) (WorldStep config)) s xs t)
    (hstep : Guarded (fun s x => x.By worker ∧ Separate config s x) (WorldStep config) t x t')
    (hends : EndsReady worker t t') :
    t'.Writable config ∧ ∀ p, Running t'.tables p →
      (t'.redis.auctions p).wrongType = false →
      Script.fenceCheck (t'.redis.keys config p) = none := by
  have hinit : Tracked config worker s := by
    refine ⟨⟨fun h => ?_, fun _ _ h => ?_⟩, fun h => absurd hidle h⟩
    · rw [hidle] at h
      cases h
    · rw [hidle] at h
      cases h
  have htracked := hrun.preserves (fun _ _ _ h hs => step_tracked h hs) hinit
  have hwritable := ends_writable hstep htracked hends
  exact ⟨hwritable, fun p hruns htype => writable_unfenced hwritable hruns htype⟩

namespace Sample

/-- A step of worker 0 that inspects nothing. -/
def Plain (s : World) : WorldAction → Prop
  | .advance ownerId _ => ownerId = 0 ∧
      match (s.workers ownerId).phase with
      | .inspect _ _ => False
      | _ => True
  | _ => False

instance (s : World) (x : WorldAction) : Decidable (Plain s x) := by
  unfold Plain
  split
  · refine @instDecidableAnd _ _ _ ?_
    split <;> infer_instance
  · infer_instance

theorem plain_ok {s : World} {x : WorldAction} (h : Plain s x) :
    x.By 0 ∧ Separate config s x := by
  cases x with
  | advance ownerId input =>
    refine ⟨h.1, fun control productIds hphase _ _ => ?_⟩
    have hplain := h.2
    rw [hphase] at hplain
    cases hplain
  | _ => cases h

/-- Steps that are possible and meet a condition. -/
theorem guarded_run {ok : World → WorldAction → Prop} [∀ s x, Decidable (ok s x)] {s : World}
    {xs : List WorldAction}
    (h : (xs.foldlM (fun s x => if ok s x then s.next config x else none) s).isSome) :
    Run (Guarded ok (WorldStep config)) s xs (reach s xs) := by
  obtain ⟨t, ht⟩ := Option.isSome_iff_exists.mp h
  have hrun : Run (Guarded ok (WorldStep config)) s xs t := run_guarded_of_foldlM ht
  have hreach : reach s xs = t := by
    unfold reach
    rw [run_partial_iff.mp (hrun.mono fun _ _ _ hstep => hstep.2)]
    rfl
  rwa [hreach]

/-- Steps that inspect nothing, where such steps meet a condition. -/
theorem plain_run {ok : World → WorldAction → Prop}
    (hok : ∀ s x, Plain s x → ok s x) (s : World) (xs : List WorldAction)
    (h : (xs.foldlM (fun s x => if Plain s x then s.next config x else none) s).isSome) :
    Run (Guarded ok (WorldStep config)) s xs (reach s xs) :=
  (guarded_run h).mono fun _ _ _ hstep => ⟨hok _ _ hstep.1, hstep.2⟩

/-- The worker is about to inspect. -/
def inspecting : World := reach lost (List.replicate 3 step)

def inspected : World := reach inspecting [step]

/-- The worker is about to remove the fence. -/
def rebuilt : World := reach inspected (List.replicate 20 step)

theorem unfenced {p : Nat} : ¬ inspecting.Fenced p := by
  rintro ⟨-, hfence⟩
  change false = true at hfence
  cases hfence

end Sample

/-- The recovery of both auctions. -/
theorem ready_writable_sample :
    EndsReady 0 Sample.rebuilt (Sample.reach Sample.rebuilt [Sample.step]) ∧
      (Sample.reach Sample.rebuilt [Sample.step]).Writable Sample.config := by
  have hbegins := Sample.plain_run (fun _ _ => Sample.plain_ok) Sample.lost
    (List.replicate 3 Sample.step) (by decide +kernel)
  have hinspects : Guarded (fun s x => x.By 0 ∧ Separate Sample.config s x)
      (WorldStep Sample.config) Sample.inspecting Sample.step Sample.inspected := by
    refine ⟨⟨rfl, fun control productIds _ _ _ =>
      ⟨fun p hp => absurd hp Sample.unfenced, ?_⟩⟩,
      Sample.reach_step Sample.inspecting [] (by decide +kernel)⟩
    split
    · exact fun p => Sample.unfenced
    · exact fun client _ => rfl
  have hrebuilds := Sample.plain_run (fun _ _ => Sample.plain_ok) Sample.inspected
    (List.replicate 20 Sample.step) (by decide +kernel)
  have hlifts : Guarded (fun s x => x.By 0 ∧ Separate Sample.config s x)
      (WorldStep Sample.config) Sample.rebuilt Sample.step
      (Sample.reach Sample.rebuilt [Sample.step]) := by
    refine ⟨Sample.plain_ok (by decide +kernel), ?_⟩
    exact Sample.reach_step Sample.rebuilt [] (by decide +kernel)
  have hends : EndsReady 0 Sample.rebuilt (Sample.reach Sample.rebuilt [Sample.step]) := by
    refine ⟨fun hidle => ?_, rfl, by decide +kernel, by decide +kernel⟩
    cases hidle
  exact ⟨hends,
    (ready_writable rfl (hbegins.append (.cons hinspects hrebuilds)) hlifts hends).1⟩

/-- A total loss whose recovery fails at the second auction, and the cycle that recovers it. -/
def Sample.failing : List WorldAction :=
  List.replicate 17 Sample.step ++ [Sample.failure] ++ List.replicate 21 Sample.step

/-- The second cycle finds a partial loss, and ends ready behind the fence that the first has
set. -/
theorem ready_fenced :
    (Sample.lost.workers 0).phase = .idle ∧
    (∀ x ∈ Sample.failing ++ [Sample.step], x.By 0) ∧
    Run (WorldStep Sample.config) Sample.lost Sample.failing
      (Sample.reach Sample.lost Sample.failing) ∧
    WorldStep Sample.config (Sample.reach Sample.lost Sample.failing) Sample.step
      (Sample.reach Sample.lost (Sample.failing ++ [Sample.step])) ∧
    EndsReady 0 (Sample.reach Sample.lost Sample.failing)
      (Sample.reach Sample.lost (Sample.failing ++ [Sample.step])) ∧
    ¬ (Sample.reach Sample.lost (Sample.failing ++ [Sample.step])).Writable Sample.config := by
  refine ⟨rfl, fun x hx => ?_, Sample.reach_run _ _ (by decide +kernel),
    Sample.reach_step _ _ (by decide +kernel),
    ⟨fun hidle => ?_, rfl, by decide +kernel, by decide +kernel⟩, ?_⟩
  · have hx' : x = Sample.step ∨ x = Sample.failure := by
      simp [Sample.failing] at hx
      tauto
    obtain rfl | rfl := hx' <;> rfl
  · cases hidle
  · intro h
    have hopen := h.1 0 (by decide)
    revert hopen
    decide +kernel

end Recovery

end MiracleAuction
