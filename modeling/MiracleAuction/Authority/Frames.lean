import MiracleAuction.Authority.Transition

/-!
# What a mutation changes

A rejection adds at most a record of its reply, a replay copies at most a legacy record,
and an acceptance adds one entry to the stream and one to both counters.
-/
namespace MiracleAuction

namespace Script
variable (req : Request) (k : AuctionKeys)

/-- Nothing changes, or a record is added under the key of the request. -/
def AddsRecord (k' : AuctionKeys) : Prop :=
  k' = k ∨ k.idempotency (digest req) = none ∧ ∃ stored, k' = store req k stored

/-- Nothing changes, or the legacy record is copied. -/
def CopiesRecord (k' : AuctionKeys) : Prop :=
  k' = k ∨ k.idempotency (digest req) = none ∧
    ∃ stored, k.legacyIdempotency req.idempotencyKey = some stored ∧ k' = store req k stored

end Script

/-- Both counters grow by one, to the values of the entry that is appended. -/
structure Advances (k k' : AuctionKeys) (entry : AuctionStreamEvent) (h h' : StateHash) : Prop where
  before : k.state = .hash h
  after : k'.state = .hash h'
  stream : k'.stream = k.stream ++ [entry]
  sequence : h'.sequence = h.sequence + 1 ∧ entry.sequence = h'.sequence
  version : h'.version = h.version + 1 ∧ entry.version = h'.version

/-- The three outcomes of the script. -/
structure MutationFrame (req : Request) (k : AuctionKeys) (out : Reply × AuctionKeys) : Prop where
  rejected : ∀ code message statusCode, out.1 = .error code message statusCode →
    Script.AddsRecord req k out.2
  replayed : ∀ stored, Script.replay req k = some stored → Script.CopiesRecord req k out.2
  accepted : ∀ data, out.1 = .success data → Script.replay req k = none →
    ∃ entry h h', Advances k out.2 entry h h' ∧ data.sequence = h'.sequence ∧
      data.version = h'.version

/-- The entries that a run appends continue the counters of the auction without a gap. -/
structure Continues (k k' : AuctionKeys) (appended : List AuctionStreamEvent) : Prop where
  stream : k'.stream = k.stream ++ appended
  idle : k.auction = none → appended = [] ∧ k'.auction = none
  counted : ∀ a, k.auction = some a → ∃ a', k'.auction = some a' ∧
    appended.map (·.sequence) = List.range' (a.hash.sequence + 1) appended.length ∧
    appended.map (·.version) = List.range' (a.hash.version + 1) appended.length ∧
    a'.hash.sequence = a.hash.sequence + appended.length ∧
    a'.hash.version = a.hash.version + appended.length

namespace Script
variable {req : Request} {k : AuctionKeys} {a : Auction} {d : Decision}

theorem copiesRecord_migrate (req : Request) (k : AuctionKeys) :
    CopiesRecord req k (migrate req k) := by
  unfold migrate
  split
  · rename_i stored hnone hlegacy
    split
    · exact .inr ⟨hnone, stored, hlegacy, rfl⟩
    · exact .inl rfl
  · exact .inl rfl

theorem CopiesRecord.adds {k' : AuctionKeys} (h : CopiesRecord req k k') : AddsRecord req k k' := by
  obtain hsame | ⟨hnone, stored, -, hstore⟩ := h
  · exact .inl hsame
  · exact .inr ⟨hnone, stored, hstore⟩

theorem idempotency_of_fresh (h : replay req k = none) : k.idempotency (digest req) = none :=
  (Option.or_eq_none_iff.mp h).1

/-- An accepted request writes the next values of both counters. -/
theorem advances_accept (req : Request) (d : Decision) (h : k.auction = some a) :
    ∃ h, Advances k (accept a req k d) (event a req d) h (write a req d).hash ∧
      (result a req d).sequence = (write a req d).hash.sequence ∧
      (result a req d).version = (write a req d).hash.version := by
  unfold AuctionKeys.auction at h
  split at h
  · rename_i hash hstate
    cases h
    refine ⟨hash, ⟨hstate, rfl, rfl, ⟨?_, rfl⟩, ?_, rfl⟩, rfl, rfl⟩
    · exact Money.add_eq hash.sequence 1
    · exact Money.add_eq hash.version 1
  · cases h

end Script

/-! ## A rejection is an error -/

namespace Script

def IsError : Reply → Prop
  | .error .. => True
  | .success _ => False

/-- What a computation rejects, it rejects with an error. -/
def Rejects {α : Type} (x : Except Reply α) : Prop :=
  ∀ reply, x = .error reply → IsError reply

namespace Rejects
variable {α β : Type} {x y : Except Reply α} {f : α → Except Reply β} {p : Prop}
  [Decidable p]

theorem ok (value : α) : Rejects (.ok value) := fun _ h => by cases h

theorem fail {code message : String} {statusCode : Nat} :
    Rejects (.error (MiracleAuction.fail code message statusCode) : Except Reply α) := by
  intro reply h
  cases h
  trivial

theorem ite (hx : Rejects x) (hy : Rejects y) : Rejects (if p then x else y) := by
  split
  · exact hx
  · exact hy

theorem bind (hx : Rejects x) (hf : ∀ value, Rejects (f value)) : Rejects (x >>= f) := by
  intro reply h
  cases hvalue : x with
  | error rejection =>
    rw [hvalue] at h
    cases h
    exact hx _ hvalue
  | ok value =>
    rw [hvalue] at h
    exact hf value reply h

end Rejects

variable (a : Auction) (req : Request)

theorem bidderCheck_rejects : Rejects (bidderCheck a req) :=
  .ite .fail (.ite .fail (.ite .fail (.ok _)))

theorem bid_rejects : Rejects (bid a req) :=
  .ite .fail (.ite .fail (.ite .fail (.ok _)))

theorem buyNow_rejects : Rejects (buyNow a req) := by
  unfold buyNow
  split
  · exact .fail
  · exact .ite .fail (.ok _)

theorem ban_rejects : Rejects (ban a req) := by
  refine .ite .fail (.ite .fail ?_)
  split
  · exact .fail
  · exact .ite .fail (.ite .fail (.ok _))

theorem operate_rejects : Rejects (operate a req) := by
  unfold operate
  split
  · exact (bidderCheck_rejects a req).bind fun _ => bid_rejects a req
  · exact (bidderCheck_rejects a req).bind fun _ => buyNow_rejects a req
  · exact ban_rejects a req
  · exact .ite .fail (.ite .fail (.ok _))
  · exact .ite .fail (.ite .fail (.ok _))

end Script

/-- A success that is no replay comes from an accepted request. -/
theorem accepts_of_success {req : Request} {k : AuctionKeys} {data : AuctionMutationData}
    (hfresh : Script.replay req k = none) (h : (mutateScript req k).1 = .success data) :
    ∃ a d, Accepts k req a d := by
  unfold mutateScript at h
  split at h
  · rename_i failure hfence
    unfold Script.fenceCheck at hfence
    split at hfence
    · cases hfence; cases h
    split at hfence
    · cases hfence; cases h
    split at hfence
    · cases hfence; cases h
    · cases hfence
  rename_i hfence
  rw [hfresh] at h
  dsimp only at h
  unfold Script.execute at h
  split at h
  · cases h
  · cases h
  rename_i hash hstate
  split at h
  · rename_i failure hintact
    unfold Script.integrityCheck at hintact
    split at hintact
    · cases hintact; cases h
    split at hintact
    · cases hintact; cases h
    · cases hintact
  rename_i hintact
  unfold Script.conclude at h
  split at h
  · rename_i rejection hrejected
    have herror := Script.operate_rejects _ _ rejection hrejected
    rw [show rejection = .success data from h] at herror
    exact herror.elim
  · rename_i d hd
    split at h
    · cases h
    · rename_i hrate
      have hloaded : k.auction = some ⟨hash, k.sets, k.deadline⟩ := by
        simp [AuctionKeys.auction, hstate]
      exact ⟨⟨hash, k.sets, k.deadline⟩, d, ⟨hintact, hd⟩, hloaded, hfence, hfresh,
        hrate⟩

/-! ## One call and a run -/

theorem mutationFrame (req : Request) (k : AuctionKeys) :
    MutationFrame req k (mutateScript req k) := by
  have hsuccess : ∀ data, (mutateScript req k).1 = .success data →
      Script.replay req k = none →
      ∃ entry h h', Advances k (mutateScript req k).2 entry h h' ∧
        data.sequence = h'.sequence ∧
        data.version = h'.version := by
    intro data hdata hfresh
    obtain ⟨a, d, haccepts⟩ := accepts_of_success hfresh hdata
    rw [haccepts.mutateScript_eq] at hdata ⊢
    cases hdata
    obtain ⟨hash, hadvances, hsequence, hversion⟩ :=
      Script.advances_accept req d haccepts.loaded
    exact ⟨_, hash, _, hadvances, hsequence, hversion⟩
  have hcases := mutateScript_cases req k
  generalize mutateScript req k = out at hcases hsuccess ⊢
  cases hcases with
  | fails reply => exact ⟨fun _ _ _ _ => .inl rfl, fun _ _ => .inl rfl, hsuccess⟩
  | replays _ reply =>
    have hcopies := Script.copiesRecord_migrate req k
    exact ⟨fun _ _ _ _ => hcopies.adds, fun _ _ => hcopies, hsuccess⟩
  | rejects hfresh rejection =>
    refine ⟨fun _ _ _ _ => .inr ⟨Script.idempotency_of_fresh hfresh, _, rfl⟩, ?_, hsuccess⟩
    intro stored hstored
    cases hfresh.symm.trans hstored
  | accepts h =>
    refine ⟨fun _ _ _ herror => ?_, fun stored hstored => ?_, hsuccess⟩
    · cases herror
    · cases h.fresh.symm.trans hstored

section
variable {k k' k'' : AuctionKeys} {appended rest : List AuctionStreamEvent}

theorem Keeps.continues (h : Keeps k k') : Continues k k' [] where
  stream := by rw [h.stream, List.append_nil]
  idle := fun hnone => ⟨rfl, h.auction.trans hnone⟩
  counted := fun a ha => ⟨a, h.auction.trans ha, rfl, rfl, rfl, rfl⟩

theorem Accepts.continues {req : Request} {a : Auction} {d : Decision}
    (h : Accepts k req a d) : Continues k (Script.accept a req k d) [Script.event a req d] where
  stream := rfl
  idle := fun hnone => by cases hnone.symm.trans h.loaded
  counted := by
    intro b hb
    obtain rfl : a = b := Option.some.inj (h.loaded.symm.trans hb)
    refine ⟨Script.write a req d, rfl, ?_, ?_, ?_, ?_⟩
    · simp [Script.event]
    · simp [Script.event]
    · simp [Script.write]
    · simp [Script.write]

theorem Continues.trans (h : Continues k k' appended) (h' : Continues k' k'' rest) :
    Continues k k'' (appended ++ rest) where
  stream := by rw [h'.stream, h.stream, List.append_assoc]
  idle := by
    intro hnone
    obtain ⟨rfl, hnone'⟩ := h.idle hnone
    exact h'.idle hnone'
  counted := by
    intro a ha
    obtain ⟨a', ha', hsequences, hversions, hsequence, hversion⟩ := h.counted a ha
    obtain ⟨a'', ha'', hsequences', hversions', hsequence', hversion'⟩ := h'.counted a' ha'
    refine ⟨a'', ha'', ?_, ?_, ?_, ?_⟩
    · rw [List.map_append, hsequences, hsequences', hsequence, List.length_append,
        ← List.range'_append_1]
      congr 2
      omega
    · rw [List.map_append, hversions, hversions', hversion, List.length_append,
        ← List.range'_append_1]
      congr 2
      omega
    · rw [hsequence', hsequence, List.length_append]
      omega
    · rw [hversion', hversion, List.length_append]
      omega

theorem continues_run {xs : List Action} (h : AuthorityRun k xs k') :
    ∃ appended, Continues k k' appended := by
  induction h with
  | refl k => exact ⟨[], (Keeps.refl k).continues⟩
  | cons hx _ ih =>
    obtain ⟨rest, hrest⟩ := ih
    cases actionCases_of_does hx with
    | accepts _ haccepts => exact ⟨_, haccepts.continues.trans hrest⟩
    | keeps hkeeps => exact ⟨_, hkeeps.continues.trans hrest⟩

end

/-- Rejections and replays leave the auction as it is, acceptances advance it by one, and the
entries of a run are numbered without a gap. -/
theorem one_step_each :
    (∀ (req : Request) (k : AuctionKeys), MutationFrame req k (mutateScript req k)) ∧
      ∀ (k k' : AuctionKeys) (xs : List Action), AuthorityRun k xs k' →
        ∃ appended, Continues k k' appended :=
  ⟨mutationFrame, fun _ _ _ => continues_run⟩

theorem one_step_each_sample : ∃ appended, Continues (Sample.keys Sample.auction)
    (Sample.handOver.foldl Action.apply (Sample.keys Sample.auction)) appended :=
  one_step_each.2 _ _ Sample.handOver (run_does_iff.mpr rfl)

end MiracleAuction
