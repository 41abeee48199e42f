import MiracleAuction.Authority.Replay
import MiracleAuction.Projection.Convergence

/-!
# Restored idempotency records

A recovery rebuilds the records of recent commands from the stored transitions.
The record of a bid is the one that the script stored. The other operations are
rebuilt without what their events leave out.
-/
namespace MiracleAuction
open Decimal

/-- A row of `auction_transitions` with the time of its creation. -/
structure StoredTransition extends TransitionRow where
  createdAt : DateMs

def operationByType : EventType → Operation
  | .bidAccepted => .bid
  | .buyNowCompleted => .buyNow
  | .bidderBanned => .ban
  | .auctionClosed => .close
  | .auctionCancelled => .cancel

structure RestoredRecord where
  digest : Sha256
  record : StoredReply
  ttlMs : Int
  deriving DecidableEq

/-- A missing leader is restored as null. -/
def restoredLeader : Option Nat → LeaderJson
  | none => .null
  | some leaderId => .text (some leaderId)

def restoredData (event : AuctionStreamEvent) (eventId : Uuid) (productId : Nat) :
    AuctionMutationData where
  eventId := eventId
  productId := productId
  currentPrice := event.currentPriceVnd
  leaderId := restoredLeader event.leaderId
  endTimeMs := event.endAtMs
  sequence := event.sequence
  version := event.version
  orderId := event.orderId

/-- `BID_IDEMPOTENCY_TTL_MS` less the age of the event. -/
def restoredTtl (configuredTtl : Int) (now : DateMs) (event : AuctionStreamEvent) : Int :=
  configuredTtl - max 0 (now.val - event.occurredAtMs.denotes)

def restoredIdempotencyRecord (configuredTtl : Int) (now : DateMs) (transition : StoredTransition) :
    Option RestoredRecord :=
  let event := transition.payload
  let operation := operationByType transition.eventType
  let amount := if operation.isBidding then event.requestedMaxPriceVnd.map digits else some []
  let target := if operation = .ban then (event.targetUserId.map digits).getD [] else []
  let reason := if operation = .ban then event.reason.getD [] else []
  match amount with
  | none => none
  | some amount =>
    if restoredTtl configuredTtl now event ≤ 0 then none
    else
      some
        { digest := ⟨event.idempotencyKey⟩
          record :=
            { fingerprint :=
                joinFingerprint operation transition.productId event.actorId amount target reason
              result := .success (restoredData event transition.eventId transition.productId) }
          ttlMs := restoredTtl configuredTtl now event }

/-- The records of the product's transitions since the lifetime began, each `SET` in turn. -/
def restoreRecentIdempotency (configuredTtl : Int) (now : DateMs) (productId : Nat)
    (transitions : List StoredTransition) (k : AuctionKeys) : AuctionKeys :=
  (transitions.filter fun t =>
      now.val - configuredTtl ≤ t.createdAt.val ∧ t.productId = productId).foldl
    (fun k t =>
      match restoredIdempotencyRecord configuredTtl now t with
      | none => k
      | some item =>
        { k with idempotency := Function.update k.idempotency item.digest (some item.record) }) k

/-- What a restored fingerprint needs: a bid with its amount, a ban without one,
and nothing at all besides actor and product in the other operations. -/
def RestoresFingerprint (command : AuctionMutationCommand) : Prop :=
  (command.operation.isBidding = true ↔ command.amountVnd ≠ none) ∧
    (command.operation ≠ .ban → command.targetUserId = none ∧ command.reason.getD [] = [])

instance (command : AuctionMutationCommand) : Decidable (RestoresFingerprint command) := by
  unfold RestoresFingerprint; infer_instance

/-- What a restored result needs: a bid, or a leader that the command does not ban. -/
def RestoresResult (a : Auction) (req : Request) : Prop :=
  req.operation.isBidding = true ∨ a.hash.leaderId ≠ none ∧ ¬ BansLeader a req

/-! ## What is restored -/

section
variable {a : Auction} {req : Request} {d : Decision} {c : Call}

theorem operationByType_eventType (o : Operation) : operationByType o.eventType = o := by
  cases o <;> rfl

theorem optionDigits_eq_nil {n : Option Nat} : [] = (n.map digits).getD [] ↔ n = none := by
  cases n with
  | none => simp
  | some n => simp

/-- The restored fingerprint is the one of the command exactly if nothing of the
command is left out of its event. -/
theorem restored_fingerprint_iff (hpayload : c.payload = .ok req)
    (hproduct : a.hash.productId = req.productId)
    (htarget : req.operation = .ban → req.banTargetId = req.targetUserId) :
    joinFingerprint req.operation a.hash.productId req.actor
        (if req.operation.isBidding then digits req.amount else [])
        (if req.operation = .ban then (req.banTargetId.map digits).getD [] else [])
        (if req.operation = .ban then req.reason.getD [] else []) = req.fingerprint ↔
      RestoresFingerprint c.command := by
  obtain ⟨_, amount, rfl, hamount⟩ := Call.payload_ok hpayload
  have hcolon : ':' ∉ (if (c.request amount).operation.isBidding then
      digits (c.request amount).amount else []) := by
    split
    · exact colon_not_mem_digits _
    · simp
  have hcolon' : ':' ∉ (if (c.request amount).operation = .ban then
      ((c.request amount).banTargetId.map digits).getD [] else []) := by
    split
    · exact colon_not_mem_optionDigits _
    · simp
  rw [Call.payload_fingerprint hpayload, fingerprint,
    joinFingerprint_inj hcolon (Call.colon_not_mem_amount hpayload) hcolon'
      (colon_not_mem_optionDigits _)]
  have hamounts : (if (c.request amount).operation.isBidding then
      digits (c.request amount).amount else []) = c.command.amountVnd.getD [] ↔
      (c.command.operation.isBidding = true ↔ c.command.amountVnd ≠ none) := by
    rw [hamount]
    change (if c.command.operation.isBidding then digits ((amount.map Subtype.val).getD 0)
      else []) =
      _ ↔ _
    cases amount with
    | none => cases c.command.operation.isBidding <;> simp [digits_ne_nil]
    | some n => cases c.command.operation.isBidding <;> simp [(digits_ne_nil _).symm]
  have hrest : ((if (c.request amount).operation = .ban then
      ((c.request amount).banTargetId.map digits).getD [] else []) =
        (c.command.targetUserId.map digits).getD [] ∧
      (if (c.request amount).operation = .ban then (c.request amount).reason.getD [] else []) =
        c.command.reason.getD []) ↔
      (c.command.operation ≠ .ban →
        c.command.targetUserId = none ∧ c.command.reason.getD [] = []) := by
    by_cases hop : c.command.operation = .ban
    · have hop' : (c.request amount).operation = .ban := hop
      rw [if_pos hop', if_pos hop', htarget hop']
      simp [hop, Call.request]
    · have hop' : ¬ (c.request amount).operation = .ban := hop
      rw [if_neg hop', if_neg hop', optionDigits_eq_nil]
      exact ⟨fun h _ => ⟨h.1, h.2.symm⟩, fun h => ⟨(h hop).1, (h hop).2.symm⟩⟩
  rw [hamounts, hrest]
  exact ⟨fun h => h.2.2.2, fun h => ⟨rfl, hproduct, Request.actor_eq _, h⟩⟩

theorem Decided.nextLeaderId_ne_none (hd : Decided a req d) :
    d.nextLeaderId ≠ none ↔ req.operation.isBidding = true ∨ a.hash.leaderId ≠ none := by
  cases hd with
  | bid hop =>
    have hcases := Script.proxyBid_cases a.hash req.actor req.amount
    dsimp only
    generalize Script.proxyBid a.hash req.actor req.amount = proxied at hcases
    cases hcases <;> simp [hop, Operation.isBidding]
  | buyNow hop => simp [hop, Operation.isBidding]
  | ban hop => simp [hop, Operation.isBidding, Script.unchanged]
  | close hop => simp [hop, Operation.isBidding, Script.unchanged]
  | cancel hop => simp [hop, Operation.isBidding, Script.unchanged]

theorem restoredLeader_eq_text {leader leader' : Option Nat} :
    restoredLeader leader = .text leader' ↔ leader = leader' ∧ leader ≠ none := by
  cases leader with
  | none => simp [restoredLeader]
  | some l => simp [restoredLeader, eq_comm]

/-- The restored result is the one that the script replied with exactly if there
is a leader, and not one that the command bans. -/
theorem restored_data_iff (hd : Decided a req d) (hranked : Ranked a.sets) :
    restoredData (Script.event a req d) req.eventId a.hash.productId = Script.result a req d ↔
      RestoresResult a req := by
  by_cases hban : BansLeader a req
  · have hleader := Script.leader_of_bansLeader hranked hban hd
    have hbidding : req.operation.isBidding = false := by rw [hban.1]; rfl
    simp only [RestoresResult, hbidding, hban, not_true, and_false, or_false, Bool.false_eq_true,
      iff_false]
    intro heq
    have := congrArg AuctionMutationData.leaderId heq
    exact hleader (restoredLeader_eq_text.mp this).1.symm
  · have hupdate := Script.update_of_not_bansLeader (d := d) hban
    have hresult : restoredData (Script.event a req d) req.eventId a.hash.productId =
        Script.result a req d ↔ restoredLeader d.nextLeaderId = .text d.nextLeaderId := by
      simp [restoredData, Script.result, Script.event, hupdate]
    rw [hresult, restoredLeader_eq_text, hd.nextLeaderId_ne_none]
    simp [RestoresResult, hban]

/-- The record that is rebuilt from an event of the script. -/
theorem restored_eq {ttl : Int} {now createdAt : DateMs} (hd : Decided a req d)
    (hlive : 0 < restoredTtl ttl now (Script.event a req d)) :
    restoredIdempotencyRecord ttl now
      ⟨Projector.transitionRow (Script.event a req d), createdAt⟩ =
      some
        { digest := ⟨req.idempotencyKey⟩
          record :=
            { fingerprint := joinFingerprint req.operation a.hash.productId req.actor
                (if req.operation.isBidding then digits req.amount else [])
                (if req.operation = .ban then (req.banTargetId.map digits).getD [] else [])
                (if req.operation = .ban then req.reason.getD [] else [])
              result := .success
                (restoredData (Script.event a req d) req.eventId a.hash.productId) }
          ttlMs := restoredTtl ttl now (Script.event a req d) } := by
  have htype : operationByType (Projector.transitionRow (Script.event a req d)).eventType =
      req.operation := by
    refine Eq.trans ?_ (operationByType_eventType req.operation)
    exact congrArg operationByType hd.eventType_eq
  have hamount : (if req.operation.isBidding then
      (Script.event a req d).requestedMaxPriceVnd.map digits else some []) =
      some (if req.operation.isBidding then digits req.amount else []) := by
    unfold Script.event
    split <;> simp_all
  unfold restoredIdempotencyRecord
  simp only [htype]
  simp only [Projector.transitionRow, hamount]
  exact if_neg (not_le.mpr hlive)

/-- A projected event is stored as it was written: its ids and times are exact. -/
theorem Applied.exact {entry : RedisStreamEntry} {T T' : Tables}
    (h : Applied entry (Script.event a req d) T T') (husers : ∀ u ∈ T.users, u < 2 ^ 31)
    (hd : Decided a req d) : (Script.event a req d).occurredAtMs.denotes = req.now ∧
      (req.operation = .ban → req.banTargetId = req.targetUserId) := by
  obtain ⟨_, hcontract⟩ := parseEvent_ok h.parsed
  have hplain : Lua.tostring req.now = .plain (Lua.tostring req.now).denotes :=
    Numeral.plain_of_isDecimal hcontract.2.2.2.2.2.2.1
  refine ⟨(Lua.tostring_eq_plain hplain).2, fun hop => ?_⟩
  unfold Request.banTargetId
  cases htarget : req.targetUserId with
  | none => rfl
  | some target =>
    have hbans : (Script.event a req d).Bans a.hash.productId (Lua.tostringId target) :=
      (Script.event_bans_iff hd _).mpr ⟨hop, by simp [Request.banTargetId, htarget]⟩
    simp [Lua.tostringId_eq (husers _ (h.known _ _ hbans))]

end

/-- A command that was accepted in a run, whose event was projected, gets a record
back while its lifetime lasts. The record has the digest of the command; it is the
record of the script exactly if fingerprint and result can both be restored, and
a retry is answered from it. -/
theorem restored_record_iff {productId : Nat} {recovery force : Bool} {loadedAt now : DateMs}
    {T₀ T T' : Tables} {k k₀ k₁ : AuctionKeys} {xs : List Action} {c : Call} {req : Request}
    {a : Auction} {d : Decision} {entry : RedisStreamEntry} {t : StoredTransition} {ttl : Int}
    (hunloaded : force = false → Unloaded k)
    (hboot : bootstrapRedisAuction productId recovery force loadedAt T₀ k = (.ok true, k₀))
    (hrun : AuthorityRun k₀ xs k₁) (hpayload : c.payload = .ok req)
    (hacc : Accepts k₁ req a d)
    (husers : ∀ u ∈ T.users, u < 2 ^ 31)
    (hentry : entry.payload = .event (Script.event a req d))
    (hproject : projectAuctionEntry entry T = .ok (.applied, T'))
    (hstored : t.toTransitionRow ∈ T'.transitions) (hid : t.eventId = req.eventId)
    (hlive : 0 < ttl ∧ now.val < req.now + ttl) :
    ∃ restored, restoredIdempotencyRecord ttl now t = some restored ∧
      restored.digest = idempotencyDigest c.command ∧
      (restored.record = ⟨req.fingerprint, .success (Script.result a req d)⟩ ↔
        RestoresFingerprint c.command ∧ RestoresResult a req) ∧
      ∀ (k' : AuctionKeys) (retry : Call), retry.command = c.command →
        Script.fenceCheck k' = none →
        k'.record c.command.idempotencyKey = some restored.record →
        Answers retry k'
          (if RestoresFingerprint c.command then restored.record.result else keyReused) := by
  obtain ⟨a₁, events, hs⟩ := runState_of_bootstrap hunloaded hboot hrun
  cases hs.loaded.symm.trans hacc.loaded
  have hd := Script.operate_ok hacc.decided
  obtain ⟨event, happlied⟩ := projectAuctionEntry_applied hproject
  obtain ⟨hevent, _⟩ := parseEvent_ok happlied.parsed
  cases hentry.symm.trans hevent
  obtain ⟨htime, htarget⟩ := happlied.exact husers hd
  have hproduct := (integrityCheck_eq_none.mp hacc.intact).product
  obtain ⟨row, createdAt⟩ := t
  obtain rfl : row = Projector.transitionRow (Script.event a req d) := by
    rw [happlied.transitions] at hstored
    rcases List.mem_append.mp hstored with hold | hnew
    · exact absurd hid (happlied.newTransition _ hold)
    · exact List.mem_singleton.mp hnew
  have hfingerprint := restored_fingerprint_iff hpayload hproduct htarget
  have hdata := restored_data_iff hd hs.ranked
  refine ⟨_, restored_eq hd ?_, ?_, ?_, fun k' retry hcommand hfence hrecord => ?_⟩
  · unfold restoredTtl
    rw [htime]
    omega
  · exact congrArg Sha256.mk (Call.payload_key hpayload)
  · simp only [StoredReply.mk.injEq, Reply.success.injEq, hfingerprint, hdata]
  · obtain ⟨req', hretry, hsame⟩ := Call.exists_payload hpayload hcommand
    have hanswers := answers_of_stored (by rwa [hcommand]) hretry hfence
    rw [hsame] at hanswers
    simpa only [hfingerprint] using hanswers

/-- The recovery writes the restored record of a transition, unless a later one has its key. -/
theorem record_restoreRecentIdempotency {productId : Nat} {ttl : Int} {now : DateMs}
    {before after : List StoredTransition} {t : StoredTransition} {restored : RestoredRecord}
    (k : AuctionKeys) (hrestored : restoredIdempotencyRecord ttl now t = some restored)
    (hrecent : now.val - ttl ≤ t.createdAt.val ∧ t.productId = productId)
    (hlast : ∀ t' ∈ after, ∀ other, restoredIdempotencyRecord ttl now t' = some other →
      other.digest ≠ restored.digest) :
    (restoreRecentIdempotency ttl now productId (before ++ t :: after) k).idempotency
      restored.digest = some restored.record := by
  unfold restoreRecentIdempotency
  rw [List.filter_append, List.filter_cons_of_pos (by simpa using hrecent), List.foldl_append,
    List.foldl_cons, hrestored]
  dsimp only
  generalize (before.filter _).foldl _ k = k₁
  have hkeep : ∀ k₂ : AuctionKeys, k₂.idempotency restored.digest = some restored.record →
      ((after.filter fun t => now.val - ttl ≤ t.createdAt.val ∧ t.productId = productId).foldl
        (fun k t =>
          match restoredIdempotencyRecord ttl now t with
          | none => k
          | some item =>
            { k with idempotency := Function.update k.idempotency item.digest (some item.record) })
        k₂).idempotency restored.digest = some restored.record := by
    have hlast' : ∀ t' ∈ after.filter fun t => now.val - ttl ≤ t.createdAt.val ∧
        t.productId = productId, ∀ other, restoredIdempotencyRecord ttl now t' = some other →
        other.digest ≠ restored.digest :=
      fun t' ht' => hlast t' (List.mem_of_mem_filter ht')
    generalize after.filter _ = rest at hlast' ⊢
    induction rest with
    | nil => exact fun k₂ hk₂ => hk₂
    | cons t' rest ih =>
      intro k₂ hk₂
      rw [List.foldl_cons]
      refine ih (fun t'' ht'' => hlast' t'' (List.mem_cons_of_mem _ ht'')) _ ?_
      split
      · exact hk₂
      · rename_i other hother
        have hne := hlast' t' List.mem_cons_self other hother
        dsimp only
        rw [Function.update_of_ne hne.symm, hk₂]
  exact hkeep _ (Function.update_self ..)

namespace Sample

/-- The second bid of `bids`, and its transition. -/
def storedAt (event : AuctionStreamEvent) : StoredTransition :=
  { Projector.transitionRow event with createdAt := .early 6 }

/-- Bidder 2 bids, and the seller cancels with a reason. -/
def cancellation : Call :=
  { call 2 .cancel 9 with
    command := { (call 2 .cancel 9).command with reason := some "sold elsewhere".toList } }

def bidKeys : AuctionKeys := (Action.call (call 1 .bid 2 (some "200"))).apply bootKeys

def bidTables : Tables := (projectAll (entries bidKeys.stream) tables).getD tables

theorem tables_users : ∀ u ∈ tables.users, u < 2 ^ 31 := by decide

theorem bidTables_users : ∀ u ∈ bidTables.users, u < 2 ^ 31 := by decide +kernel

/-- The event of a call that is accepted is the next one to be projected. -/
theorem exists_projected {c : Call} {k : AuctionKeys} {T : Tables}
    (h : ((request c).bind fun req => (Script.acceptance req k).map fun ad =>
      (projectAuctionEntry ⟨7, .event (Script.event ad.1 req ad.2), 0⟩ T).toOption.map (·.1)) =
      some (some .applied)) :
    ∃ req a d T', c.payload = .ok req ∧ Accepts k req a d ∧
      projectAuctionEntry ⟨7, .event (Script.event a req d), 0⟩ T = .ok (.applied, T') := by
  obtain ⟨req, hreq, h⟩ := Option.bind_eq_some_iff.mp h
  obtain ⟨⟨a, d⟩, hacc, h⟩ := Option.map_eq_some_iff.mp h
  obtain ⟨req', hpayload⟩ := exists_payload (c := c) (by simp [hreq])
  obtain rfl : req = req' := by simpa [request, hpayload, Except.toOption] using hreq.symm
  cases hproject : projectAuctionEntry ⟨7, .event (Script.event a req d), 0⟩ T with
  | error e => simp [hproject, Except.toOption] at h
  | ok result =>
    obtain ⟨outcome, T'⟩ := result
    obtain rfl : outcome = .applied := by simpa [hproject, Except.toOption] using h
    exact ⟨req, a, d, T', hpayload, accepts_of_acceptance hacc, hproject⟩

end Sample

theorem restored_record_sample : ∃ req a d restored,
    Accepts Sample.bootKeys req a d ∧
    restoredIdempotencyRecord 1000 ⟨7, by decide⟩ (Sample.storedAt (Script.event a req d)) =
      some restored ∧
    restored.record = ⟨req.fingerprint, .success (Script.result a req d)⟩ := by
  obtain ⟨req, a, d, T', hpayload, hacc, hproject⟩ := Sample.exists_projected
    (c := Sample.call 1 .bid 2 (some "200")) (k := Sample.bootKeys) (T := Sample.tables)
    (by decide +kernel)
  obtain ⟨event, happlied⟩ := projectAuctionEntry_applied hproject
  obtain ⟨hevent, _⟩ := parseEvent_ok happlied.parsed
  cases hevent
  have hop : req.operation = .bid ∧ req.now = 5 := by
    obtain ⟨_, amount, rfl, _⟩ := Call.payload_ok hpayload
    exact ⟨rfl, Request.now_eq _⟩
  have hlive : (0 : Int) < 1000 ∧ (⟨7, by decide⟩ : DateMs).val < req.now + 1000 := by
    rw [hop.2]
    decide
  obtain ⟨restored, hrestored, _, hrecord, _⟩ := restored_record_iff
    (t := Sample.storedAt (Script.event a req d)) (fun _ => ⟨rfl, rfl, rfl⟩) Sample.booted
      (.refl _)
    hpayload hacc Sample.tables_users rfl hproject
    (by rw [happlied.transitions]; exact List.mem_append_right _ List.mem_cons_self) rfl hlive
  refine ⟨req, a, d, restored, hacc, hrestored, hrecord.mpr ⟨by decide, .inl ?_⟩⟩
  rw [hop.1]
  rfl

/-- The reason of a cancellation is not in the fingerprint that is restored. -/
theorem restored_record_loses_reason :
    ¬ ∀ (productId : Nat) (loadedAt now : DateMs) (T₀ T T' : Tables)
    (k₀ k₁ : AuctionKeys) (xs : List Action) (c : Call) (req : Request) (a : Auction)
    (d : Decision)
    (entry : RedisStreamEntry) (t : StoredTransition) (ttl : Int) (restored : RestoredRecord),
    bootstrapRedisAuction productId false false loadedAt T₀ {} = (.ok true, k₀) →
    AuthorityRun k₀ xs k₁ → c.payload = .ok req → Accepts k₁ req a d →
    (∀ u ∈ T.users, u < 2 ^ 31) → entry.payload = .event (Script.event a req d) →
    projectAuctionEntry entry T = .ok (.applied, T') → t.toTransitionRow ∈ T'.transitions →
    t.eventId = req.eventId → 0 < ttl ∧ now.val < req.now + ttl →
    restoredIdempotencyRecord ttl now t = some restored →
    restored.record = ⟨req.fingerprint, .success (Script.result a req d)⟩ := by
  intro h
  obtain ⟨req, a, d, T', hpayload, hacc, hproject⟩ := Sample.exists_projected
    (c := Sample.cancellation) (k := Sample.bidKeys) (T := Sample.bidTables) (by decide +kernel)
  obtain ⟨event, happlied⟩ := projectAuctionEntry_applied hproject
  obtain ⟨hevent, _⟩ := parseEvent_ok happlied.parsed
  cases hevent
  have hop : req.operation = .cancel ∧ req.now = 5 := by
    obtain ⟨_, amount, rfl, _⟩ := Call.payload_ok hpayload
    exact ⟨rfl, Request.now_eq _⟩
  have hlive : (0 : Int) < 1000 ∧ (⟨7, by decide⟩ : DateMs).val < req.now + 1000 := by
    rw [hop.2]
    decide
  have hd := Script.operate_ok hacc.decided
  obtain ⟨htime, _⟩ := happlied.exact Sample.bidTables_users hd
  have hrestored : restoredIdempotencyRecord 1000 ⟨7, by decide⟩
      (Sample.storedAt (Script.event a req d)) = some _ :=
    restored_eq hd (by unfold restoredTtl; rw [htime]; omega)
  have hrecord := h 1 _ ⟨7, by decide⟩ _ _ T' _ _ _ _ req a d _
    (Sample.storedAt (Script.event a req d)) 1000 _ Sample.booted
      (.cons rfl (.refl _)) hpayload hacc
    Sample.bidTables_users rfl hproject
    (by rw [happlied.transitions]; exact List.mem_append_right _ List.mem_cons_self) rfl hlive
    hrestored
  have hfingerprint := (restored_fingerprint_iff hpayload
    (integrityCheck_eq_none.mp hacc.intact).product (by simp [hop.1])).mp
    (congrArg StoredReply.fingerprint hrecord)
  revert hfingerprint
  decide

end MiracleAuction
