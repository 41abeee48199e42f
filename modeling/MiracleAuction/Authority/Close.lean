import MiracleAuction.Authority.Replay

/-!
# The scheduled close

`closeDueRedisAuctions` closes an auction with a key made from its product and
deadline. Users choose their own idempotency keys from the same namespace, so a
user's request can occupy the key of the close.
-/
namespace MiracleAuction
open Decimal

/-- The text of a time in milliseconds. -/
def timeDigits (t : Int) : Text := if t < 0 then '-' :: digits t.natAbs else digits t.natAbs

def closePrefix : Text := "close:".toList

/-- The key `close:<product>:<deadline>`. -/
def closeKey (productId : Nat) (deadlineMs : Int) : Text :=
  closePrefix ++ digits productId ++ ':' :: timeDigits deadlineMs

/-- The command of `MutateAuctionUseCase.close`. -/
def closeCommand (productId : Nat) (deadlineMs : Int) (now : DateMs) (correlationId : Text) :
    AuctionMutationCommand where
  operation := .close
  productId := productId
  actorId := 0
  actorRole := .system
  idempotencyKey := closeKey productId deadlineMs
  correlationId := correlationId
  now := some now

/-- The call closes the auction and reports it. -/
def Closes (c : Call) (k : AuctionKeys) : Prop :=
  (∃ data, (mutate c k).1 = .success data) ∧
    ∃ a, (mutate c k).2.auction = some a ∧ a.hash.status = .ended

/-- The reply arrives, and with the acknowledgements that were asked for. -/
def Call.Confirmed (c : Call) : Prop := c.connection = .answered ∧ c.replicas ≤ c.acknowledged

theorem confirmed_of_success {c : Call} {k : AuctionKeys} {data : AuctionMutationData}
    (h : (mutate c k).1 = .success data) : c.Confirmed := by
  unfold mutate at h
  split at h
  · cases h
  · cases hconnection : c.connection with
    | requestLost => simp [hconnection] at h
    | replyLost => simp [hconnection] at h
    | answered =>
      refine ⟨hconnection, ?_⟩
      simp only [hconnection] at h
      unfold settle at h
      split at h
      · split at h
        · cases h
        · split at h <;> cases h
      · split at h
        · cases h
        · omega

/-! ## The key is valid -/

theorem jsLength_eq {text : Text} (h : ∀ c ∈ text, c.toNat < 65536) :
    jsLength text = text.length := by
  unfold jsLength
  induction text with
  | nil => rfl
  | cons c text ih =>
    rw [List.map_cons, List.sum_cons, if_pos (h c List.mem_cons_self),
      ih fun d hd => h d (List.mem_cons_of_mem _ hd), List.length_cons, Nat.add_comm]

theorem numeric_toNat_lt {text : Text} (h : Numeric text) : ∀ c ∈ text, c.toNat < 65536 := by
  intro c hc
  have hdigit := h c hc
  rw [Char.isDigit_iff_toNat] at hdigit
  have : c.toNat ≤ 57 := hdigit.2
  omega

theorem timeDigits_lt (t : Int) : ∀ c ∈ timeDigits t, c.toNat < 65536 := by
  intro c hc
  unfold timeDigits at hc
  split at hc
  · rcases List.mem_cons.mp hc with rfl | hc
    · decide
    · exact numeric_toNat_lt (numeric_digits _) c hc
  · exact numeric_toNat_lt (numeric_digits _) c hc

theorem closeKey_length {productId : Nat} {deadlineMs : DateMs} (hproduct : productId ≤ maxVnd) :
    jsLength (closeKey productId deadlineMs) ≤ 255 := by
  have hchars : ∀ c ∈ closeKey productId deadlineMs, c.toNat < 65536 := by
    have hall : (closePrefix.all fun c => c.toNat < 65536) = true := by decide
    refine List.forall_mem_append.mpr ⟨List.forall_mem_append.mpr ⟨fun c hc => ?_, ?_⟩, ?_⟩
    · exact of_decide_eq_true (List.all_eq_true.mp hall c hc)
    · exact numeric_toNat_lt (numeric_digits _)
    · exact List.forall_mem_cons.mpr ⟨by decide, timeDigits_lt _⟩
  have hp : (digits productId).length ≤ 19 :=
    length_digits_le (Nat.lt_of_le_of_lt hproduct (by decide)) (by decide)
  have ht : (timeDigits deadlineMs).length ≤ 17 := by
    have hlen : (digits deadlineMs.val.natAbs).length ≤ 16 :=
      length_digits_le (Nat.lt_of_le_of_lt deadlineMs.property (by decide)) (by decide)
    unfold timeDigits
    split
    · rw [List.length_cons]
      omega
    · omega
  rw [jsLength_eq hchars, closeKey]
  simp only [List.length_append, List.length_cons]
  have : closePrefix.length = 6 := rfl
  omega

/-! ## When the close succeeds -/

section
variable {productId : Nat} {deadlineMs now : DateMs} {correlationId : Text} {c : Call}
  {k : AuctionKeys} {a : Auction}

theorem close_payload (hproduct : productId ≤ maxVnd)
    (hc : c.command = closeCommand productId deadlineMs now correlationId) :
    c.payload = .ok (c.request none) := by
  have hkey : c.command.idempotencyKey = closeKey productId deadlineMs := by rw [hc]; rfl
  have hamount : c.command.amountVnd = none := by rw [hc]; rfl
  unfold Call.payload
  rw [if_neg, hamount]
  rw [hkey]
  rintro (hnil | hlong)
  · exact absurd hnil (List.append_ne_nil_of_right_ne_nil _ (List.cons_ne_nil _ _))
  · exact absurd (closeKey_length hproduct) (not_le.mpr hlong)

/-- A due close of a sound auction with a free key is accepted. -/
theorem close_accepts (hk : k.auction = some a) (hactive : a.hash.status = .active)
    (hdeadline : a.hash.endAt = deadlineMs.val) (hfence : Script.fenceCheck k = none)
    (hc : c.command = closeCommand productId deadlineMs now correlationId)
    (hdue : deadlineMs.val ≤ now.val) (hfree : k.record (closeKey productId deadlineMs) = none)
    (hintact : a.hash.Intact productId) :
    ∃ d, Accepts k (c.request none) a d ∧ d.nextStatus = .ended := by
  have hnow : (c.request none).now = now.val := by
    rw [Request.now_eq]
    simp [Call.request, hc, closeCommand]
  have hop : (c.request none).operation = .close := by simp [Call.request, hc, closeCommand]
  have heffective : a.hash.effectiveStatus (c.request none).now = .active := by
    simp [StateHash.effectiveStatus, hactive]
  refine ⟨{ Script.unchanged a (c.request none) .auctionClosed with
      nextStatus := .ended
      orderId := if a.hash.leaderId = none then none else (c.request none).orderId },
    ⟨⟨?_, ?_⟩, hk, hfence, ?_, ?_⟩, rfl⟩
  · rw [integrityCheck_eq_none]
    simpa [Call.request, hc, closeCommand] using hintact
  · unfold Script.operate
    rw [hop]
    dsimp only
    unfold Script.close
    rw [if_neg (not_not.mpr heffective), if_neg (by rw [hnow, hdeadline]; omega)]
  · have : (c.request none).idempotencyKey = closeKey productId deadlineMs := by
      simp [Call.request, hc, closeCommand]
    simpa [Script.replay, Script.digest, AuctionKeys.record, this] using hfree
  · simp [hop, Operation.isBidding]

/-- The due close of an active auction succeeds exactly if no record occupies its
key, no fence is set, the keys are sound, and the reply arrives with the
acknowledgements that were asked for. -/
theorem closes_iff (hproduct : productId ≤ maxVnd) (hk : k.auction = some a)
    (hactive : a.hash.status = .active) (hdeadline : a.hash.endAt = deadlineMs.val)
    (hc : c.command = closeCommand productId deadlineMs now correlationId)
    (hdue : deadlineMs.val ≤ now.val) :
    Closes c k ↔ k.record (closeKey productId deadlineMs) = none ∧
      Script.fenceCheck k = none ∧
      a.hash.Intact productId ∧ c.Confirmed := by
  have hpayload := close_payload hproduct hc
  constructor
  · rintro ⟨⟨data, hdata⟩, a', ha', hended⟩
    have hcases := action_cases (.call c) k
    generalize hk' : (Action.call c).apply k = k' at hcases
    rw [show (mutate c k).2 = k' from hk'] at ha'
    cases hcases with
    | accepts hpayload' hacc =>
      cases hpayload.symm.trans hpayload'
      cases hk.symm.trans hacc.loaded
      have hintact := integrityCheck_eq_none.mp hacc.intact
      have hfresh : k.record (c.request none).idempotencyKey = none := hacc.fresh
      simp only [Call.request, hc, closeCommand] at hintact hfresh
      exact ⟨hfresh, hacc.unfenced, hintact, confirmed_of_success hdata⟩
    | keeps hkeeps =>
      rw [hkeeps.auction, hk, Option.some.injEq] at ha'
      subst ha'
      rw [hactive] at hended
      cases hended
  · rintro ⟨hfree, hfence, hintact, hanswered, hack⟩
    obtain ⟨d, hacc, hended⟩ := close_accepts hk hactive hdeadline hfence hc hdue hfree hintact
    refine ⟨⟨Script.result a (c.request none) d, ?_⟩, Script.write a (c.request none) d,
      ?_, ?_⟩
    · simp only [mutate, hpayload, hanswered, hacc.mutateScript_eq, settle]
      rw [if_neg (by omega)]
    · rw [hacc.mutate_eq hpayload (by simp [hanswered])]
      rfl
    · simpa [Script.write] using hended

end

/-! ## Histories -/

/-- A call with another idempotency key, or no call at all. -/
def Action.Avoids (key : Text) : Action → Prop
  | .call c => c.command.idempotencyKey ≠ key
  | _ => True

/-- Only a call with the key can leave a record under it. -/
theorem record_none_step {k k' : AuctionKeys} {x : Action} {key : Text} (havoids : x.Avoids key)
    (h : Does Action.apply k x k') (hk : k.record key = none) : k'.record key = none := by
  cases x with
  | call c =>
    cases record_cases (x := .call c) trivial h with
    | same hrecord => rw [hrecord, hk]
    | added hpayload _ _ hrecord =>
      rw [hrecord, if_neg, hk]
      rintro rfl
      exact havoids (Call.payload_key hpayload).symm
  | expireRecord digest =>
    rw [show k' = _ from h]
    simp only [AuctionKeys.record, Option.or_eq_none_iff, Action.apply] at hk ⊢
    refine ⟨?_, hk.2⟩
    by_cases hd : (⟨key⟩ : Sha256) = digest
    · subst hd
      exact Function.update_self ..
    · rw [Function.update_of_ne hd, hk.1]
  | expireLegacy =>
    rw [show k' = _ from h]
    simp only [AuctionKeys.record, Option.or_eq_none_iff, Action.apply, and_true] at hk ⊢
    exact hk.1
  | expireRate => exact (congrArg (AuctionKeys.record · key) h).trans hk
  | setRecoveryFence => exact (congrArg (AuctionKeys.record · key) h).trans hk
  | setAuctionFence => exact (congrArg (AuctionKeys.record · key) h).trans hk

theorem record_none_run {k k' : AuctionKeys} {xs : List Action} {key : Text}
    (hrun : AuthorityRun k xs k')
    (havoids : ∀ x ∈ xs, x.Avoids key) (hk : k.record key = none) :
    k'.record key = none := by
  induction hrun with
  | refl => exact hk
  | cons hx _ ih =>
    refine ih (fun x hmem => havoids x (List.mem_cons_of_mem _ hmem)) ?_
    exact record_none_step (havoids _ List.mem_cons_self) hx hk

/-- After any history the scheduled close of an active auction succeeds exactly
if no record is left under its key, and a history of other keys leaves none. -/
theorem scheduled_close {productId : Nat} {deadlineMs now : DateMs} {correlationId : Text}
    {c : Call} {k₀ k : AuctionKeys} {xs : List Action} {a : Auction}
    (hrun : AuthorityRun k₀ xs k) (hproduct : productId ≤ maxVnd) (hk : k.auction = some a)
    (hactive : a.hash.status = .active) (hdeadline : a.hash.endAt = deadlineMs.val)
    (hfence : k.recoveryFence = false ∧ k.auctionRecoveryFence = false)
    (hc : c.command = closeCommand productId deadlineMs now correlationId)
    (hdue : deadlineMs.val ≤ now.val) :
    (Closes c k ↔ k.record (closeKey productId deadlineMs) = none ∧ k.wrongType = false ∧
      a.hash.Intact productId ∧ c.Confirmed) ∧
    (k₀.record (closeKey productId deadlineMs) = none →
      (∀ x ∈ xs, x.Avoids (closeKey productId deadlineMs)) →
      k.record (closeKey productId deadlineMs) = none) := by
  constructor
  · have hunfenced : Script.fenceCheck k = none ↔ k.wrongType = false :=
      fenceCheck_eq_none.trans (and_iff_left hfence)
    rw [closes_iff hproduct hk hactive hdeadline hc hdue, hunfenced]
  · intro hfree havoids
    exact record_none_run hrun havoids hfree

namespace Sample

/-- The close of the sample auction at its deadline. -/
def closeCall : Call where
  command := closeCommand 1 1000 (.early 1000) ['c']
  eventId := 9
  newOrderId := 9
  clock := .early 1000

/-- Two bids and a ban that are accepted, and between them a low bid, a low purchase
and a stranger's cancellation that are refused. -/
def userRequests : List Action :=
  [.call (call 1 .bid 2 (some "200")), .call (call 2 .bid 3 (some "105")),
    .call (call 3 .bid 3 (some "250")), .call (call 4 .buyNow 4 (some "50")),
    .call (call 5 .cancel 5), .call (call 6 .ban 9 none (some 3))]

/-- A request that is refused, and recorded, under the key of the close. -/
def squat : Call :=
  { call 1 .bid 2 (some "1") with
    command := { (call 1 .bid 2 (some "1")).command with idempotencyKey := closeKey 1 1000 } }

end Sample

/-- After the requests of the users, three of them accepted, the auction is closed. -/
theorem scheduled_close_sample :
    (Sample.userRequests.foldl Action.apply (Sample.keys Sample.auction)).stream.length = 3 ∧
      Closes Sample.closeCall
        (Sample.userRequests.foldl Action.apply (Sample.keys Sample.auction)) := by
  refine ⟨by decide +kernel, ?_⟩
  have hrun : AuthorityRun (Sample.keys Sample.auction) Sample.userRequests
      (Sample.userRequests.foldl Action.apply (Sample.keys Sample.auction)) :=
    run_does_iff.mpr rfl
  obtain ⟨a, ha⟩ := Option.isSome_iff_exists.mp (by decide +kernel :
    (Sample.userRequests.foldl Action.apply (Sample.keys Sample.auction)).auction.isSome = true)
  have hfacts : (Sample.userRequests.foldl Action.apply
      (Sample.keys Sample.auction)).auction.map (fun a =>
        (a.hash.status, a.hash.endAt, decide (a.hash.Intact 1))) =
      some (.active, 1000, true) := by decide +kernel
  simp only [ha, Option.map_some, Option.some.injEq, Prod.mk.injEq, decide_eq_true_eq] at hfacts
  obtain ⟨hactive, hend, hintact⟩ := hfacts
  have hdeadline : a.hash.endAt = (⟨1000, by decide⟩ : DateMs).val := hend
  have hclose := scheduled_close (c := Sample.closeCall) hrun (by decide) ha hactive hdeadline
    ⟨by decide +kernel, by decide +kernel⟩ rfl (by decide)
  have hfree := hclose.2 rfl (by
    intro x hx
    simp only [Sample.userRequests, List.mem_cons, List.not_mem_nil, or_false] at hx
    rcases hx with rfl | rfl | rfl | rfl | rfl | rfl
    all_goals exact fun heq => absurd heq (by decide +kernel))
  exact hclose.1.mpr ⟨hfree, by decide +kernel, hintact, rfl, Nat.zero_le 0⟩

/-- A user's request: any operation but `CLOSE`. -/
def Action.UserIssued : Action → Prop
  | .call c => c.command.operation ≠ .close ∧ c.command.actorRole ≠ .system
  | _ => False

/-- A refused bid under the key of the close keeps the auction from being closed. -/
theorem scheduled_close_blocked : ¬ ∀ (productId : Nat) (deadlineMs now : DateMs)
    (correlationId : Text) (c : Call) (k₀ k : AuctionKeys) (xs : List Action) (a : Auction),
    Run (Guarded (fun _ x => x.UserIssued) (Does Action.apply)) k₀ xs k →
    (∀ key, k₀.record key = none) → k₀.wrongType = false → productId ≤ maxVnd →
    k.auction = some a → a.hash.status = .active → a.hash.endAt = deadlineMs.val →
    a.hash.Intact productId → k.recoveryFence = false ∧ k.auctionRecoveryFence = false →
    c.command = closeCommand productId deadlineMs now correlationId → c.Confirmed →
    deadlineMs.val ≤ now.val → Closes c k := by
  intro h
  have hkeeps : ((Action.call Sample.squat).apply (Sample.keys Sample.auction)).auction =
      some Sample.auction := rfl
  have hcloses := h 1 ⟨1000, by decide⟩ ⟨1000, by decide⟩ ['c'] Sample.closeCall
    (Sample.keys Sample.auction) _ [.call Sample.squat] Sample.auction
    (.cons ⟨⟨nofun, nofun⟩, rfl⟩ (.refl _)) (fun _ => rfl) rfl (by decide) hkeeps rfl
    (by decide +kernel) (by decide +kernel) ⟨rfl, rfl⟩ rfl ⟨rfl, Nat.zero_le 0⟩ (by decide)
  have hrefused : (mutate Sample.closeCall
      ((Action.call Sample.squat).apply (Sample.keys Sample.auction))).1 =
      settle Sample.closeCall keyReused := by decide +kernel
  obtain ⟨⟨data, hdata⟩, _⟩ := hcloses
  rw [hrefused] at hdata
  simp [settle, keyReused, fail] at hdata

end MiracleAuction
