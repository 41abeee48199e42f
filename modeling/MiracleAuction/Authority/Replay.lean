import MiracleAuction.Authority.Transition

/-!
# Repeated commands

A record under an idempotency key, in the request's own key or in the legacy
hash, answers every later call with that key. A request that repeats the
recorded one gets the recorded reply, any other one `IDEMPOTENCY_KEY_REUSED`.
-/
namespace MiracleAuction
open Decimal

/-- The record that a call with this idempotency key meets. -/
def AuctionKeys.record (k : AuctionKeys) (key : Text) : Option StoredReply :=
  (k.idempotency ⟨key⟩).or (k.legacyIdempotency key)

/-- The two commands ask for the same; an absent optional field counts as empty. -/
def SameRequest (c c' : AuctionMutationCommand) : Prop :=
  c.operation = c'.operation ∧ c.actorId = c'.actorId ∧
    c.amountVnd.getD [] = c'.amountVnd.getD [] ∧ c.targetUserId = c'.targetUserId ∧
    c.reason.getD [] = c'.reason.getD []

instance (c c' : AuctionMutationCommand) : Decidable (SameRequest c c') := by
  unfold SameRequest; infer_instance

/-! ## Fingerprints -/

section Fingerprint
variable {x y x' y' : Text}

/-- The text before the first colon and the text after it are determined. -/
theorem append_colon_inj (hx : ':' ∉ x) (hx' : ':' ∉ x') :
    x ++ ':' :: y = x' ++ ':' :: y' ↔ x = x' ∧ y = y' := by
  induction x generalizing x' with
  | nil =>
    cases x' with
    | nil => simp
    | cons c x' =>
      simp only [List.mem_cons, not_or] at hx'
      simp [hx'.1]
  | cons c x ih =>
    simp only [List.mem_cons, not_or] at hx
    cases x' with
    | nil => simp [Ne.symm hx.1]
    | cons c' x' =>
      simp only [List.mem_cons, not_or] at hx'
      simp [ih hx.2 hx'.2, and_assoc]

theorem Operation.colon_not_mem_text (operation : Operation) : ':' ∉ operation.text := by
  cases operation <;> decide

theorem Operation.text_inj {o o' : Operation} : o.text = o'.text ↔ o = o' := by
  cases o <;> cases o' <;> decide

theorem optionDigits_inj {n n' : Option Nat} :
    (n.map digits).getD [] = (n'.map digits).getD [] ↔ n = n' := by
  cases n <;> cases n' <;> simp [eq_comm]

theorem colon_not_mem_optionDigits (n : Option Nat) : ':' ∉ (n.map digits).getD [] := by
  cases n with
  | none => simp
  | some n => exact colon_not_mem_digits n

theorem Call.colon_not_mem_amount {c : Call} {req : Request} (h : c.payload = .ok req) :
    ':' ∉ c.command.amountVnd.getD [] := by
  obtain ⟨_, amount, _, hamount⟩ := Call.payload_ok h
  rw [hamount]
  cases amount with
  | none => simp
  | some n => exact colon_not_mem_digits n.val

/-- Only the last field of a fingerprint is free text, so its fields are determined. -/
theorem joinFingerprint_inj {o o' : Operation} {p p' a a' : Nat} {amount amount' target target'
    reason reason' : Text} (hamount : ':' ∉ amount) (hamount' : ':' ∉ amount')
    (htarget : ':' ∉ target) (htarget' : ':' ∉ target') :
    joinFingerprint o p a amount target reason =
      joinFingerprint o' p' a' amount' target' reason' ↔
      o = o' ∧ p = p' ∧ a = a' ∧ amount = amount' ∧ target = target' ∧
        reason = reason' := by
  simp only [joinFingerprint, List.intercalate, List.intersperse_cons_cons,
    List.intersperse_singleton, List.flatten_cons, List.flatten_nil, List.append_nil,
    List.singleton_append]
  rw [append_colon_inj (Operation.colon_not_mem_text _) (Operation.colon_not_mem_text _),
    append_colon_inj (colon_not_mem_digits _) (colon_not_mem_digits _),
    append_colon_inj (colon_not_mem_digits _) (colon_not_mem_digits _),
    append_colon_inj hamount hamount', append_colon_inj htarget htarget', Operation.text_inj,
    digits_inj, digits_inj]

/-- Requests that reach the script have equal fingerprints only if they are the same. -/
theorem fingerprint_inj {c c' : Call} {req req' : Request} (h : c.payload = .ok req)
    (h' : c'.payload = .ok req') (hproduct : c.command.productId = c'.command.productId) :
    fingerprint c.command = fingerprint c'.command ↔ SameRequest c.command c'.command := by
  unfold fingerprint
  rw [joinFingerprint_inj (Call.colon_not_mem_amount h) (Call.colon_not_mem_amount h')
    (colon_not_mem_optionDigits _) (colon_not_mem_optionDigits _), optionDigits_inj, Fin.val_inj]
  simp [SameRequest, hproduct]

theorem Call.payload_fingerprint {c : Call} {req : Request} (h : c.payload = .ok req) :
    req.fingerprint = fingerprint c.command := by
  obtain ⟨_, amount, rfl, _⟩ := Call.payload_ok h
  rfl

theorem Call.payload_key {c : Call} {req : Request} (h : c.payload = .ok req) :
    req.idempotencyKey = c.command.idempotencyKey := by
  obtain ⟨_, amount, rfl, _⟩ := Call.payload_ok h
  rfl

/-- The payload depends on the command alone. -/
theorem Call.exists_payload {c c' : Call} {req : Request} (h : c.payload = .ok req)
    (hcommand : c'.command = c.command) :
    ∃ req', c'.payload = .ok req' ∧ req'.fingerprint = req.fingerprint := by
  obtain ⟨⟨hne, hlen⟩, amount, rfl, hamount⟩ := Call.payload_ok h
  have hc' : ∃ req', c'.payload = .ok req' := by
    unfold Call.payload at h ⊢
    rw [hcommand]
    rw [if_neg (not_or.mpr ⟨hne, not_lt.mpr hlen⟩)] at h ⊢
    cases htext : c.command.amountVnd with
    | none => exact ⟨_, rfl⟩
    | some text =>
      rw [htext] at h
      dsimp only at h ⊢
      cases hparse : parseMoneyVnd text with
      | error e => rw [hparse] at h; cases h
      | ok n => exact ⟨_, rfl⟩
  obtain ⟨req', hreq'⟩ := hc'
  exact ⟨req', hreq',
    by rw [Call.payload_fingerprint hreq', Call.payload_fingerprint h, hcommand]⟩

end Fingerprint

/-! ## Records -/

namespace Script
variable {req : Request} {k : AuctionKeys} {stored : StoredReply} {key : Text}

theorem record_store (req : Request) (k : AuctionKeys) (stored : StoredReply) (key : Text) :
    (store req k stored).record key =
      if key = req.idempotencyKey then some stored else k.record key := by
  unfold AuctionKeys.record store digest
  split
  · rename_i h
    subst h
    simp
  · rename_i h
    have hne : (⟨key⟩ : Sha256) ≠ ⟨req.idempotencyKey⟩ := by simpa using h
    simp [Function.update_of_ne hne]

/-- Copying a legacy record changes neither what a key answers nor the auction. -/
theorem record_migrate (req : Request) (k : AuctionKeys) (key : Text) :
    (migrate req k).record key = k.record key := by
  unfold migrate
  split
  · rename_i stored hown hlegacy
    split
    · rw [record_store]
      split
      · rename_i h
        subst h
        simp [AuctionKeys.record, digest] at hown ⊢
        simp [hown, hlegacy]
      · rfl
    · rfl
  · rfl

theorem migrate_idempotency (req : Request) (k : AuctionKeys) :
    ∃ own, migrate req k = { k with idempotency := own } := by
  unfold migrate
  split
  · split
    · exact ⟨_, rfl⟩
    · exact ⟨_, rfl⟩
  · exact ⟨_, rfl⟩

theorem migrate_of_own (h : (k.idempotency (digest req)).isSome) : migrate req k = k := by
  obtain ⟨stored, hown⟩ := Option.isSome_iff_exists.mp h
  simp [migrate, hown]

end Script

/-- The actions other than the expiry of a record. -/
def Action.Lasting : Action → Prop
  | .expireRecord _ | .expireLegacy => False
  | _ => True

/-- Every event has a record, no key has two events, and the records are those
of calls that reached the script. -/
structure Recorded (k : AuctionKeys) : Prop where
  once : (k.stream.map (·.idempotencyKey)).Nodup
  events : ∀ e ∈ k.stream, (k.record e.idempotencyKey).isSome
  made : ∀ key stored, k.record key = some stored → ∃ (first : Call) (req : Request),
    first.payload = .ok req ∧ req.idempotencyKey = key ∧ stored.fingerprint = req.fingerprint

/-- What a lasting action does to the records and the stream. -/
inductive RecordCases (k k' : AuctionKeys) : Action → Prop
  | same {x : Action} (hrecord : ∀ key, k'.record key = k.record key)
      (hstream : k'.stream = k.stream) : RecordCases k k' x
  | added {c : Call} {req : Request} (hpayload : c.payload = .ok req)
      (hnew : k.record req.idempotencyKey = none) (reply : Reply)
      (hrecord : ∀ key, k'.record key =
        if key = req.idempotencyKey then some ⟨req.fingerprint, reply⟩ else k.record key)
      (hstream : k'.stream = k.stream ∨
        ∃ e, e.idempotencyKey = req.idempotencyKey ∧ k'.stream = k.stream ++ [e]) :
      RecordCases k k' (.call c)

theorem record_cases {k k' : AuctionKeys} {x : Action} (hlast : x.Lasting)
    (h : Does Action.apply k x k') : RecordCases k k' x := by
  rw [show k' = x.apply k from h]
  cases x with
  | call c =>
    simp only [Action.apply]
    rcases call_cases c k with heq | ⟨req, reply, hpayload, hscript⟩
    · rw [heq]
      exact .same (fun _ => rfl) rfl
    · generalize (mutate c k).2 = k₁ at hscript ⊢
      cases hscript with
      | fails => exact .same (fun _ => rfl) rfl
      | replays => exact .same (Script.record_migrate req k) (Script.keeps_migrate req k).stream
      | rejects hnew =>
        exact .added hpayload hnew reply (Script.record_store req k _) (.inl rfl)
      | @accepts a d hacc =>
        refine .added hpayload hacc.fresh (.success (Script.result a req d)) (fun key => ?_)
          (.inr ⟨_, ?_, Script.accept_stream⟩)
        · rw [Script.accept, Script.record_store]
          split
          · rfl
          · unfold Script.countRate
            split <;> rfl
        · rfl
  | expireRecord => exact hlast.elim
  | expireLegacy => exact hlast.elim
  | expireRate => exact .same (fun _ => rfl) rfl
  | setRecoveryFence => exact .same (fun _ => rfl) rfl
  | setAuctionFence => exact .same (fun _ => rfl) rfl

/-- A lasting action keeps every record. -/
theorem record_step {k k' : AuctionKeys} {x : Action} {key : Text} {stored : StoredReply}
    (h : RecordCases k k' x) (hk : k.record key = some stored) : k'.record key = some stored := by
  cases h with
  | same hrecord => rw [hrecord, hk]
  | added _ hnew _ hrecord =>
    rw [hrecord, if_neg, hk]
    rintro rfl
    simp [hnew] at hk

theorem recorded_step {k k' : AuctionKeys} {x : Action} (h : RecordCases k k' x)
    (hk : Recorded k) : Recorded k' := by
  have hkeep : ∀ key, (k.record key).isSome → (k'.record key).isSome := by
    intro key hsome
    obtain ⟨stored, hstored⟩ := Option.isSome_iff_exists.mp hsome
    simp [record_step h hstored]
  cases h with
  | same hrecord hstream =>
    refine ⟨by rw [hstream]; exact hk.once, ?_, ?_⟩
    · intro e he
      rw [hstream] at he
      exact hkeep _ (hk.events e he)
    · intro key stored hstored
      exact hk.made key stored (by rwa [hrecord] at hstored)
  | added hpayload hnew reply hrecord hstream =>
    have hevents : ∀ e ∈ k.stream, (k'.record e.idempotencyKey).isSome := fun e he =>
      hkeep _ (hk.events e he)
    have hmade : ∀ key stored, k'.record key = some stored →
        ∃ (first : Call) (req : Request), first.payload = .ok req ∧ req.idempotencyKey = key ∧
          stored.fingerprint = req.fingerprint := by
      intro key stored hstored
      rw [hrecord] at hstored
      split at hstored
      · rename_i hkey
        cases hstored
        exact ⟨_, _, hpayload, hkey.symm, rfl⟩
      · exact hk.made key stored hstored
    rcases hstream with hstream | ⟨e, hkey, hstream⟩
    · exact ⟨by rw [hstream]; exact hk.once, by rwa [hstream], hmade⟩
    · refine ⟨?_, ?_, hmade⟩
      · -- An earlier event with this key would have left a record.
        rw [hstream, List.map_append, List.nodup_append]
        refine ⟨hk.once, by simp, fun key hmem key' hmem' heq => ?_⟩
        obtain ⟨e', he', rfl⟩ := List.mem_map.mp hmem
        simp only [List.map_cons, List.map_nil, List.mem_singleton] at hmem'
        have := hk.events e' he'
        rw [heq, hmem', hkey, hnew] at this
        cases this
      · rw [hstream]
        intro e' he'
        rcases List.mem_append.mp he' with he' | he'
        · exact hevents e' he'
        · rw [List.mem_singleton.mp he', hrecord, if_pos hkey]
          rfl

/-- `IDEMPOTENCY_KEY_REUSED`. -/
def keyReused : Reply :=
  fail "IDEMPOTENCY_KEY_REUSED" "Idempotency key was used for another request" 409

/-- The call is answered from the record: it gets this reply, and at most a
legacy record is copied to the request's own key. -/
structure Answers (c : Call) (k : AuctionKeys) (reply : Reply) : Prop where
  result : c.connection = .answered → (mutate c k).1 = settle c reply
  writes : ∃ own, (mutate c k).2 = { k with idempotency := own }
  record : ∀ key, (mutate c k).2.record key = k.record key
  untouched : (k.idempotency ⟨c.command.idempotencyKey⟩).isSome → (mutate c k).2 = k

theorem mutateScript_of_record {req : Request} {k : AuctionKeys} {stored : StoredReply}
    (hfence : Script.fenceCheck k = none) (hrecord : k.record req.idempotencyKey = some stored) :
    mutateScript req k =
      (if stored.fingerprint = req.fingerprint then stored.result else keyReused,
        Script.migrate req k) := by
  have hreplay : Script.replay req k = some stored := hrecord
  unfold mutateScript
  rw [hfence, hreplay]
  dsimp only
  by_cases h : stored.fingerprint = req.fingerprint
  · rw [if_neg (not_not.mpr h), if_pos h]
  · rw [if_pos h, if_neg h]
    rfl

/-- A call whose key has a record is answered from it. -/
theorem answers_of_stored {c : Call} {req : Request} {k : AuctionKeys} {stored : StoredReply}
    (hrecord : k.record c.command.idempotencyKey = some stored) (hc : c.payload = .ok req)
    (hfence : Script.fenceCheck k = none) :
    Answers c k (if stored.fingerprint = req.fingerprint then stored.result else keyReused) := by
  have hscript := mutateScript_of_record hfence (by rwa [Call.payload_key hc])
  have hown : Script.digest req = ⟨c.command.idempotencyKey⟩ := by
    rw [Script.digest, Call.payload_key hc]
  have hcases : (mutate c k).2 = k ∨ (mutate c k).2 = Script.migrate req k := by
    unfold mutate
    rw [hc]
    dsimp only
    rw [hscript]
    cases c.connection with
    | requestLost => exact .inl rfl
    | replyLost => exact .inr rfl
    | answered => exact .inr rfl
  refine ⟨fun hanswered => ?_, ?_, fun key => ?_, fun hsome => ?_⟩
  · simp only [mutate, hc, hanswered, hscript]
  · rcases hcases with h | h
    · exact ⟨k.idempotency, h⟩
    · rw [h]
      exact Script.migrate_idempotency req k
  · rcases hcases with h | h
    · rw [h]
    · rw [h, Script.record_migrate]
  · rcases hcases with h | h
    · exact h
    · rw [h, Script.migrate_of_own (by rwa [hown])]

/-- Once a call has left a record, a call with the same key is answered from it. -/
theorem answers_of_record {first c : Call} {req₀ req : Request} {k : AuctionKeys} {result : Reply}
    (hfirst : first.payload = .ok req₀)
    (hrecord : k.record first.command.idempotencyKey = some ⟨req₀.fingerprint, result⟩)
    (hc : c.payload = .ok req) (hkey : c.command.idempotencyKey = first.command.idempotencyKey)
    (hproduct : first.command.productId = c.command.productId)
    (hfence : Script.fenceCheck k = none) :
    Answers c k (if SameRequest first.command c.command then result else keyReused) := by
  have hsame : req₀.fingerprint = req.fingerprint ↔ SameRequest first.command c.command := by
    rw [Call.payload_fingerprint hfirst, Call.payload_fingerprint hc]
    exact fingerprint_inj hfirst hc hproduct
  have hanswers := answers_of_stored (by rwa [hkey]) hc hfence
  simpa only [hsame] using hanswers

/-- Along every run in which no record expires, no idempotency key gets a second
event, and a call whose key has a record is answered from that record. -/
theorem exactly_once {k k' : AuctionKeys} {xs : List Action} (hk : Recorded k)
    (hrun : Run (Guarded (fun _ x => x.Lasting) (Does Action.apply)) k xs k') :
    Recorded k' ∧ ∀ {first c : Call} {req₀ req : Request} {result : Reply},
      first.payload = .ok req₀ →
      k.record first.command.idempotencyKey = some ⟨req₀.fingerprint, result⟩ →
      c.payload = .ok req → c.command.idempotencyKey = first.command.idempotencyKey →
      first.command.productId = c.command.productId → Script.fenceCheck k' = none →
      Answers c k' (if SameRequest first.command c.command then result else keyReused) := by
  constructor
  · refine hrun.preserves (fun _ _ _ h => recorded_step (record_cases h.1 h.2)) hk
  · intro first c req₀ req result hfirst hrecord hc hkey hproduct hfence
    refine answers_of_record hfirst ?_ hc hkey hproduct hfence
    exact hrun.preserves (I := fun k => k.record first.command.idempotencyKey =
      some ⟨req₀.fingerprint, result⟩)
      (fun _ _ _ h => record_step (record_cases h.1 h.2)) hrecord

/-- A loaded auction without a history. -/
theorem Sample.recorded : Recorded (Sample.keys Sample.auction) where
  once := by simp [Sample.keys]
  events := by simp [Sample.keys]
  made := by simp [Sample.keys, AuctionKeys.record]

namespace Sample

def firstBid : Call := call 1 .bid 2 (some "200")

/-- A bid with the key of another bidder's. -/
def reusingBid : Call := call 1 .bid 3 (some "300")

end Sample

theorem exactly_once_sample :
    ∃ k k' reply, Run (Guarded (fun _ x => x.Lasting) (Does Action.apply)) k
        [.call Sample.reusingBid] k' ∧
      Recorded k' ∧ Answers Sample.firstBid k' reply ∧
        Answers Sample.reusingBid k' keyReused := by
  obtain ⟨req₀, hfirst⟩ := Sample.exists_payload (c := Sample.firstBid) (by decide +kernel)
  obtain ⟨req, hreusing⟩ := Sample.exists_payload (c := Sample.reusingBid) (by decide +kernel)
  have hcases := record_cases (x := .call Sample.firstBid) trivial (rfl : Does Action.apply
    (Sample.keys Sample.auction) (.call Sample.firstBid) _)
  have hrecord : (((Action.call Sample.firstBid).apply (Sample.keys Sample.auction)).record
      Sample.firstBid.command.idempotencyKey).map (·.fingerprint) =
      some (fingerprint Sample.firstBid.command) := by decide +kernel
  obtain ⟨⟨stored, reply⟩, hstored, hfingerprint⟩ := Option.map_eq_some_iff.mp hrecord
  rw [← Call.payload_fingerprint hfirst] at hfingerprint
  subst hfingerprint
  obtain ⟨hrecorded, hanswers⟩ := exactly_once (recorded_step hcases Sample.recorded)
    (.cons ⟨trivial, rfl⟩ (.refl _) : Run _ _ [.call Sample.reusingBid] _)
  refine ⟨_, _, reply, .cons ⟨trivial, rfl⟩ (.refl _), hrecorded, ?_, ?_⟩
  · exact hanswers hfirst hstored hfirst rfl rfl (by decide +kernel)
  · exact hanswers hfirst hstored hreusing rfl rfl (by decide +kernel)

/-- In the given circumstances every repeated call gets what the first one got
and writes nothing. -/
def RepeatsExactly (circumstances : Call → AuctionKeys → Prop) : Prop :=
  ∀ (k₀ k : AuctionKeys) (xs : List Action) (first c : Call) (req₀ req : Request)
    (result : Reply),
    Recorded k₀ → Run (Guarded (fun _ x => x.Lasting) (Does Action.apply)) k₀ xs k →
    first.payload = .ok req₀ →
    k.record first.command.idempotencyKey = some ⟨req₀.fingerprint, result⟩ →
    c.payload = .ok req → c.command.idempotencyKey = first.command.idempotencyKey →
    first.command.productId = c.command.productId → c.connection = .answered →
    SameRequest first.command c.command → circumstances c k →
    mutate c k = (settle first result, k)

/-- In the given circumstances every other call with the key gets `IDEMPOTENCY_KEY_REUSED`. -/
def RefusesReuse (circumstances : Call → AuctionKeys → Prop) : Prop :=
  ∀ (k₀ k : AuctionKeys) (xs : List Action) (first c : Call) (req₀ : Request)
    (result : Reply),
    Recorded k₀ → Run (Guarded (fun _ x => x.Lasting) (Does Action.apply)) k₀ xs k →
    first.payload = .ok req₀ →
    k.record first.command.idempotencyKey = some ⟨req₀.fingerprint, result⟩ →
    c.command.idempotencyKey = first.command.idempotencyKey →
    first.command.productId = c.command.productId → c.connection = .answered →
    ¬ SameRequest first.command c.command → circumstances c k →
    (mutate c k).1 = settle c keyReused

namespace Sample

def recordedKeys : AuctionKeys := (Action.call firstBid).apply (keys auction)

theorem record_firstBid : ∃ req₀ reply, firstBid.payload = .ok req₀ ∧
    recordedKeys.record firstBid.command.idempotencyKey = some ⟨req₀.fingerprint, reply⟩ ∧
    settle firstBid reply = (mutate firstBid (keys auction)).1 := by
  obtain ⟨req₀, hfirst⟩ := exists_payload (c := firstBid) (by decide +kernel)
  have hrecord : (recordedKeys.record firstBid.command.idempotencyKey).map
      (fun stored => (stored.fingerprint, settle firstBid stored.result)) =
      some (fingerprint firstBid.command, (mutate firstBid (keys auction)).1) := by decide +kernel
  simp only [Option.map_eq_some_iff, Prod.mk.injEq] at hrecord
  obtain ⟨⟨stored, reply⟩, hstored, hfingerprint, hsettle⟩ := hrecord
  dsimp only at hfingerprint hsettle
  rw [← Call.payload_fingerprint hfirst] at hfingerprint
  subst hfingerprint
  exact ⟨req₀, reply, hfirst, hstored, hsettle⟩

/-- A rejection that an earlier version recorded in the legacy hash. -/
def legacyKeys : AuctionKeys :=
  { keys auction with
    legacyIdempotency := fun key =>
      if key = firstBid.command.idempotencyKey then
        some ⟨fingerprint firstBid.command,
          fail "BID_TOO_LOW" "Maximum bid does not meet the next bid step" 409⟩
      else none
    legacyTtlMs := 1000 }

theorem legacy_recorded : Recorded legacyKeys where
  once := by simp [legacyKeys, keys]
  events := by simp [legacyKeys, keys]
  made := by
    intro key stored hstored
    simp only [AuctionKeys.record, legacyKeys, keys, Option.none_or] at hstored
    split at hstored
    · rename_i hkey
      obtain ⟨req, hreq⟩ := exists_payload (c := firstBid) (by decide +kernel)
      cases hstored
      refine ⟨firstBid, req, hreq, ?_, ?_⟩
      · rw [Call.payload_key hreq, hkey]
      · rw [Call.payload_fingerprint hreq]
    · cases hstored

end Sample

/-- A fence, a missing acknowledgement and the copy of a legacy record each
change what a repeated call gets or writes, and an invalid amount is refused as such. -/
theorem exactly_once_exceptions :
    ¬ RepeatsExactly (fun _ _ => True) ∧
    ¬ RepeatsExactly (fun _ k => Script.fenceCheck k = none) ∧
    ¬ RepeatsExactly (fun c k => Script.fenceCheck k = none ∧ c.replicas = 0) ∧
    ¬ RefusesReuse (fun _ k => Script.fenceCheck k = none) := by
  obtain ⟨req₀, reply, hfirst, hrecord, hsettle⟩ := Sample.record_firstBid
  have hrun : Run (Guarded (fun _ x => x.Lasting) (Does Action.apply)) (Sample.keys Sample.auction)
      [.call Sample.firstBid] Sample.recordedKeys := .cons ⟨trivial, rfl⟩ (.refl _)
  refine ⟨fun h => ?_, fun h => ?_, fun h => ?_, fun h => ?_⟩
  · -- A recovery fence is set before the retry.
    have hfenced : Run (Guarded (fun _ x => x.Lasting) (Does Action.apply))
        (Sample.keys Sample.auction) [.call Sample.firstBid, .setRecoveryFence true]
        { Sample.recordedKeys with recoveryFence := true } :=
      .cons ⟨trivial, rfl⟩ (.cons ⟨trivial, rfl⟩ (.refl _))
    have := congrArg Prod.fst (h _ _ _ _ _ _ _ _ Sample.recorded hfenced hfirst hrecord hfirst rfl
      rfl rfl (by decide +kernel) trivial)
    rw [hsettle] at this
    revert this
    decide +kernel
  · -- The retry is not acknowledged by the replica.
    have := congrArg Prod.fst
      (h _ _ _ Sample.firstBid { Sample.firstBid with replicas := 1 } _ req₀
      _ Sample.recorded hrun hfirst hrecord hfirst rfl rfl rfl (by decide +kernel)
      (by decide +kernel))
    rw [hsettle] at this
    revert this
    decide +kernel
  · -- The record is in the legacy hash only.
    have :=
      congrArg (fun r => (r.2.idempotency ⟨Sample.firstBid.command.idempotencyKey⟩).isSome)
      (h _ Sample.legacyKeys [] Sample.firstBid Sample.firstBid _ req₀
        (fail "BID_TOO_LOW" "Maximum bid does not meet the next bid step" 409)
        Sample.legacy_recorded (.refl _) hfirst
        (by rw [Call.payload_fingerprint hfirst]; decide +kernel) hfirst rfl rfl rfl
        (by decide +kernel) (by decide +kernel))
    revert this
    decide +kernel
  · -- The other amount is not a number.
    have := h _ _ _ Sample.firstBid (Sample.call 1 .bid 2 (some "x")) _ _ Sample.recorded hrun
      hfirst hrecord rfl rfl rfl (by decide +kernel) (by decide +kernel)
    revert this
    decide +kernel

end MiracleAuction
