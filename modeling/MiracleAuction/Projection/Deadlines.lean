import MiracleAuction.Authority.Close
import MiracleAuction.Authority.Prices
import MiracleAuction.Projection.Bootstrap

/-!
# Overdue auctions

The scheduler finds the auctions to close in the sorted set of deadlines. Only a
stored status of `ACTIVE` puts an auction there: one that was loaded before its
start and never bid on stays `PENDING`, and nothing closes it.
-/
namespace MiracleAuction
open Decimal

/-- What changes the keys of an auction: the authority's actions, a bootstrap from
tables, the expiry of a terminal auction, and a restart that loses the data. -/
inductive EngineAction
  | act (x : Action)
  | bootstrap (T : Tables) (now : DateMs) (recovery force : Bool)
  | expireTerminal
  | restart

namespace EngineAction

/-- The keys that `expireTerminalAuctionState` gave a lifetime are gone. -/
def expire (k : AuctionKeys) : AuctionKeys :=
  match k.state with
  | .hash h =>
    if h.status.isTerminal then
      { k with
        state := .absent
        sets := .empty
        legacyIdempotency := fun _ => none
        legacyTtlMs := -2 }
    else k
  | _ => k

def apply (productId : Nat) (k : AuctionKeys) : EngineAction → AuctionKeys
  | .act x => x.apply k
  | .bootstrap T now recovery force => (bootstrapRedisAuction productId recovery force now T k).2
  | .expireTerminal => expire k
  | .restart => {}

/-- An accepted bid or ban keeps an end time that is printed exactly, and a bootstrap
reads a row that has one. -/
def KeepsEnd (productId : Nat) (k : AuctionKeys) : EngineAction → Prop
  | .act x => x.Ensures Script.KeepsExactEnd k
  | .bootstrap T _ _ _ => ∀ product ∈ T.products productId, product.endTime ≠ none
  | _ => True

end EngineAction

/-- Runs of the engine whose end times are kept. -/
abbrev EngineRun (productId : Nat) :=
  Run (Guarded (EngineAction.KeepsEnd productId) (Does (EngineAction.apply productId)))

/-- The index follows the hash, and an open auction ends no earlier than the first date. -/
structure Timed (a : Auction) : Prop where
  indexed : a.deadline = if a.hash.status = .active then some a.hash.endAt else none
  earliest : a.hash.status = .pending ∨ a.hash.status = .active →
    -8640000000000000 ≤ a.hash.endAt

/-- The keys hold a timed auction, or nothing of one. -/
structure Scheduled (k : AuctionKeys) : Prop where
  timed : ∀ a, k.auction = some a → Timed a
  unloaded : k.state = .absent → Unloaded k

theorem Unloaded.scheduled {k : AuctionKeys} (h : Unloaded k) : Scheduled k where
  timed := by simp [AuctionKeys.auction_of_absent h.state]
  unloaded := fun _ => h

theorem Keeps.scheduled {k k' : AuctionKeys} (h : Keeps k k') (hk : Scheduled k) :
    Scheduled k' where
  timed := fun a ha => hk.timed a (h.auction.symm.trans ha)
  unloaded := fun habsent =>
    have hk := hk.unloaded (h.state.symm.trans habsent)
    ⟨habsent, h.sets.trans hk.sets, h.deadline.trans hk.deadline⟩

theorem Timed.scheduled {k : AuctionKeys} {a : Auction} (hk : k.auction = some a) (ha : Timed a) :
    Scheduled k where
  timed := by
    intro a' ha'
    cases hk.symm.trans ha'
    exact ha
  unloaded := fun habsent => absurd habsent (AuctionKeys.state_of_auction hk)

/-- Accepted requests keep an auction timed. -/
theorem timed_step {a a' : Auction} {req : Request} (ha : Timed a)
    (hend : Script.KeepsExactEnd a req) (h : AuctionStep a req a') : Timed a' := by
  refine ⟨indexed_step hend h, fun hopen => ?_⟩
  obtain ⟨d, ⟨_, hd⟩, rfl⟩ := auctionStep_iff.mp h
  have hd := Script.operate_ok hd
  have hearliest := ha.earliest hd.standing
  rw [Script.write_endAt]
  simp only [Script.write, Script.update_nextStatus] at hopen
  cases hd with
  | bid hop hb =>
    have hexact := hend hb.active (.inl hop)
    simp only [Script.keptEnd, hop] at hexact
    exact (hearliest.trans (a.hash.le_bidEnd req.now)).trans (Int.le_of_eq (Eq.symm hexact))
  | ban hop hban =>
    have hexact := hend hban (.inr hop)
    simp only [Script.keptEnd, hop] at hexact
    exact hearliest.trans (Int.le_of_eq (Eq.symm hexact))
  | buyNow => simp at hopen
  | close => simp at hopen
  | cancel => simp at hopen

/-- An auction loaded from a row with an end time is timed. -/
theorem Loaded.timed {T : Tables} {productId : Nat} {product : ProductRow} {now : DateMs}
    {a : Auction} (h : Loaded T productId product now a) (hend : product.endTime ≠ none) :
    Timed a := by
  obtain ⟨date, hdate⟩ := Option.ne_none_iff_exists'.mp hend
  have hendAt : a.hash.endAt = date.val := by
    rw [h.hash]
    simp only [StateHash.endAt, Bootstrap.seedState, Bootstrap.timeText, hdate, Option.map_some,
      Option.getD_some]
    exact date.tonumber_text
  refine ⟨?_, fun _ => ?_⟩
  · rw [h.deadline, hdate, hendAt]
    rfl
  · rw [hendAt]
    have := date.property
    omega

theorem scheduled_step {productId : Nat} {k k' : AuctionKeys} {x : EngineAction}
    (hend : x.KeepsEnd productId k) (h : Does (EngineAction.apply productId) k x k')
    (hk : Scheduled k) : Scheduled k' := by
  cases x with
  | act x =>
    cases actionCases_of_does h with
    | accepts hpayload hacc hconnection =>
      refine Timed.scheduled Script.accept_auction (timed_step (hk.timed _ hacc.loaded) ?_
        (auctionStep_iff.mpr ⟨_, hacc.toAccepted, rfl⟩))
      exact hend hconnection _ (by simp [hpayload, Except.toOption]) _ hacc.acceptance
    | keeps hkeeps => exact hkeeps.scheduled hk
  | bootstrap T now recovery force =>
    generalize hboot : bootstrapRedisAuction productId recovery force now T k = result at h
    obtain ⟨r, k₁⟩ := result
    obtain rfl : k' = k₁ := by
      rw [show k' = _ from h]
      exact congrArg Prod.snd hboot
    by_cases hr : r = .ok true
    · subst hr
      obtain ⟨_, _, product, a, hproduct, ha, hloaded⟩ :=
        bootstrap_loads (fun _ => hk.unloaded) hboot
      exact Timed.scheduled ha (hloaded.timed (hend product hproduct))
    · rcases bootstrap_else hr hboot with rfl | ⟨_, rfl⟩
      · exact hk
      · exact (Bootstrap.unloaded_forget k).scheduled
  | expireTerminal =>
    rw [show k' = EngineAction.expire k from h]
    unfold EngineAction.expire
    split
    · rename_i hash hstate
      split
      · rename_i hterminal
        refine Unloaded.scheduled ⟨rfl, rfl, ?_⟩
        have htimed :=
          (hk.timed ⟨hash, k.sets, k.deadline⟩ (by simp [AuctionKeys.auction, hstate]))
        refine htimed.indexed.trans (if_neg fun hactive => ?_)
        rw [show hash.status = .active from hactive] at hterminal
        cases hterminal
      · exact hk
    · exact hk
  | restart =>
    rw [show k' = {} from h]
    exact Unloaded.scheduled ⟨rfl, rfl, rfl⟩

theorem scheduled_run {productId : Nat} {k k' : AuctionKeys} {xs : List EngineAction}
    (h : EngineRun productId k xs k') (hk : Scheduled k) : Scheduled k' :=
  h.preserves (fun _ _ _ hstep => scheduled_step hstep.1 hstep.2) hk

/-- The close that the scheduler issues for the auction succeeds. -/
def CloseSucceeds (productId : Nat) (score : Int) (now : DateMs) (k : AuctionKeys) : Prop :=
  ∀ c : Call, (∃ correlationId, c.command = closeCommand productId score now correlationId) →
    c.Confirmed → Closes c k

/-- The auction is in the index with a score that is due, and its close succeeds. -/
def ClosesWhenDue (productId : Nat) (now : DateMs) (k : AuctionKeys) : Prop :=
  ∃ score : Int, k.deadline = some score ∧ score ≤ now.val ∧
    CloseSucceeds productId score now k

/-- `ZRANGEBYSCORE deadlines 0 now`: the range does not reach before 1970. -/
def isDue (now : DateMs) (entry : Nat × Int) : Bool := 0 ≤ entry.2 ∧ entry.2 ≤ now.val

/-- The entries that one sweep of `closeDueRedisAuctions` works on. -/
def dueEntries (limit : Nat) (now : DateMs) (deadlines : List (Nat × Int)) : List (Nat × Int) :=
  (deadlines.filter (isDue now)).take limit

/-- How many due entries stand before one in the index. -/
def dueBefore (now : DateMs) (entry : Nat × Int) (deadlines : List (Nat × Int)) : Nat :=
  (deadlines.takeWhile (· ≠ entry)).countP (isDue now)

/-- The index of a shard, in its order, has the entry of the auction. -/
def Indexes (deadlines : List (Nat × Int)) (productId : Nat) (k : AuctionKeys) : Prop :=
  ∀ score, (productId, score) ∈ deadlines ↔ k.deadline = some score

/-- A sweep comes to the auction, and its close succeeds. -/
def SweptWhenDue (limit productId : Nat) (now : DateMs) (deadlines : List (Nat × Int))
    (k : AuctionKeys) : Prop :=
  ∃ score : Int, (productId, score) ∈ dueEntries limit now deadlines ∧
    CloseSucceeds productId score now k

/-- A sweep comes to a due entry exactly if fewer than `limit` stand before it. -/
theorem mem_dueEntries {limit : Nat} {now : DateMs} {entry : Nat × Int}
    {deadlines : List (Nat × Int)} : entry ∈ dueEntries limit now deadlines ↔
      entry ∈ deadlines ∧ isDue now entry ∧ dueBefore now entry deadlines < limit := by
  unfold dueEntries dueBefore
  induction deadlines generalizing limit with
  | nil => simp
  | cons first rest ih =>
    by_cases hdue : isDue now first
    · rw [List.filter_cons_of_pos hdue]
      cases limit with
      | zero => simp
      | succ limit =>
        by_cases heq : first = entry
        · subst heq
          simp [hdue]
        · rw [List.take_succ_cons, List.mem_cons, List.mem_cons, ih,
            List.takeWhile_cons_of_pos (by simpa using heq), List.countP_cons_of_pos hdue]
          simp [Ne.symm heq]
    · rw [List.filter_cons_of_neg hdue, ih]
      by_cases heq : first = entry
      · subst heq
        simp [hdue]
      · rw [List.mem_cons, List.takeWhile_cons_of_pos (by simpa using heq),
          List.countP_cons_of_neg hdue]
        simp [Ne.symm heq]

/-- In every state of the engine an overdue auction is in the index, and its close
succeeds, exactly if its stored status is `ACTIVE`, no fence is set, no record occupies
the key of the close and its hash is sound. A sweep comes to it if in addition it ends
after 1970 and fewer than `limit` due entries stand before its own. -/
theorem closes_when_due_iff {productId : Nat} {k : AuctionKeys} {xs : List EngineAction}
    {a : Auction} {now : DateMs} (hrun : EngineRun productId {} xs k)
    (hproduct : productId ≤ maxVnd) (hk : k.auction = some a)
    (hopen : a.hash.status = .pending ∨ a.hash.status = .active)
    (hdue : a.hash.endAt ≤ now.val) :
    (ClosesWhenDue productId now k ↔ a.hash.status = .active ∧ Script.fenceCheck k = none ∧
      k.record (closeKey productId a.hash.endAt) = none ∧ a.hash.Intact productId) ∧
    ∀ (limit : Nat) (deadlines : List (Nat × Int)), Indexes deadlines productId k →
      (SweptWhenDue limit productId now deadlines k ↔ ClosesWhenDue productId now k ∧
        0 ≤ a.hash.endAt ∧ dueBefore now (productId, a.hash.endAt) deadlines < limit) := by
  have htimed := (scheduled_run hrun (Unloaded.scheduled ⟨rfl, rfl, rfl⟩)).timed a hk
  have hdeadline : k.deadline = a.deadline := by
    unfold AuctionKeys.auction at hk
    split at hk
    · cases hk; rfl
    · cases hk
  have hbounds : a.hash.endAt.natAbs ≤ 8640000000000000 := by
    have := now.property
    have := htimed.earliest hopen
    omega
  have hcloses {c : Call} {correlationId : Text} (hactive : a.hash.status = .active)
      (hc : c.command = closeCommand productId a.hash.endAt now correlationId) :=
    have hend : a.hash.endAt = (⟨a.hash.endAt, hbounds⟩ : DateMs).val := rfl
    closes_iff hproduct hk hactive hend hc hdue
  have hscored : ∀ score, k.deadline = some score →
      a.hash.status = .active ∧ score = a.hash.endAt := by
    intro score hscore
    rw [hdeadline, htimed.indexed] at hscore
    split at hscore
    · rename_i hactive
      exact ⟨hactive, (Option.some.inj hscore).symm⟩
    · cases hscore
  refine ⟨⟨?_, ?_⟩, ?_⟩
  · rintro ⟨score, hscore, _, hclose⟩
    obtain ⟨hactive, rfl⟩ := hscored score hscore
    obtain ⟨hfree, hfence, hintact, _⟩ := (hcloses hactive rfl).mp (hclose
      { command := closeCommand productId a.hash.endAt now [], eventId := 0, newOrderId := 0,
        clock := now } ⟨[], rfl⟩ ⟨rfl, Nat.le_refl 0⟩)
    exact ⟨hactive, hfence, hfree, hintact⟩
  · rintro ⟨hactive, hfence, hfree, hintact⟩
    refine ⟨a.hash.endAt, ?_, hdue, ?_⟩
    · rw [hdeadline, htimed.indexed, if_pos hactive]
    · rintro c ⟨correlationId, hc⟩ hconfirmed
      exact (hcloses hactive hc).mpr ⟨hfree, hfence, hintact, hconfirmed⟩
  · intro limit deadlines hindex
    constructor
    · rintro ⟨score, hlisted, hclose⟩
      obtain ⟨hmem, hrange, hbefore⟩ := mem_dueEntries.mp hlisted
      obtain ⟨_, rfl⟩ := hscored score ((hindex score).mp hmem)
      simp only [isDue, decide_eq_true_eq] at hrange
      exact ⟨⟨_, (hindex _).mp hmem, hdue, hclose⟩, hrange.1, hbefore⟩
    · rintro ⟨⟨score, hscore, _, hclose⟩, hearly, hbefore⟩
      obtain ⟨_, rfl⟩ := hscored score hscore
      refine ⟨a.hash.endAt, mem_dueEntries.mpr ⟨(hindex _).mpr hscore, ?_, hbefore⟩, hclose⟩
      simpa only [isDue, decide_eq_true_eq] using And.intro hearly hdue

namespace Sample

/-- A product with one auction, open from `start` to 1000. -/
def scheduledTables (status : AuctionStatus) (start : DateMs) : Tables where
  products := fun productId =>
    if productId = 1 then
      some
        { sellerId := 9
          startPrice := some 100
          currentPrice := some 100
          stepPrice := some 10
          buyNowPrice := none
          priceOwnerId := none
          startTime := some start
          endTime := some (.early 1000)
          autoExtended := none
          isRemoved := none
          auctionStatus := status
          auctionVersion := 0
          auctionSequence := 0 }
    else none

/-- The auction is created, and loaded, at time 5. -/
def creation (status : AuctionStatus) (start : DateMs) : EngineAction :=
  .bootstrap (scheduledTables status start) (.early 5) false false

theorem creation_keepsEnd (status : AuctionStatus) (start : DateMs) (k : AuctionKeys) :
    (creation status start).KeepsEnd 1 k := by
  intro product hproduct
  simp only [scheduledTables, if_true, Option.mem_def, Option.some.injEq] at hproduct
  simp [← hproduct]

def created (status : AuctionStatus) (start : DateMs) : AuctionKeys :=
  (creation status start).apply 1 {}

theorem created_run (status : AuctionStatus) (start : DateMs) :
    EngineRun 1 {} [creation status start] (created status start) :=
  .cons ⟨creation_keepsEnd status start {}, rfl⟩ (.refl _)

def opening : DateMs := .early 0

def late : DateMs := .early 2000

end Sample

namespace Sample

/-- The auction is created active, gets an accepted bid and a refused one. -/
def creationAndBids : List EngineAction :=
  [creation .active opening, .act (.call (call 1 .bid 2 (some "200"))),
    .act (.call (call 2 .bid 3 (some "105")))]

def contested : AuctionKeys := creationAndBids.foldl (EngineAction.apply 1) {}

theorem contested_run : EngineRun 1 {} creationAndBids contested := by
  have hbid : (Action.call (call 1 .bid 2 (some "200"))).Ensures Script.KeepsExactEnd
      (created .active opening) := by decide +kernel
  have hlow : (Action.call (call 2 .bid 3 (some "105"))).Ensures Script.KeepsExactEnd
      ((Action.call (call 1 .bid 2 (some "200"))).apply (created .active opening)) := by
    decide +kernel
  exact .cons ⟨creation_keepsEnd _ _ _, rfl⟩
    (.cons ⟨hbid, rfl⟩ (.cons ⟨hlow, rfl⟩ (.refl _)))

end Sample

/-- An auction that is created active, and bid on, is closed at its end by the sweep,
which works on an older entry before. -/
theorem closes_when_due_sample :
    SweptWhenDue 2 1 ⟨1000, by decide⟩ [(7, 400), (1, 1000), (8, 3000)] Sample.contested := by
  obtain ⟨a, ha⟩ := Option.isSome_iff_exists.mp
    (by decide +kernel : Sample.contested.auction.isSome = true)
  have hfacts : Sample.contested.auction.map (fun a =>
      (a.hash.status, a.hash.endAt, decide (
        (Sample.contested.record (closeKey 1 1000)) = none ∧ a.hash.Intact 1))) =
      some (.active, 1000, true) := by decide +kernel
  have hdeadline : Sample.contested.deadline = some 1000 := by decide +kernel
  simp only [ha, Option.map_some, Option.some.injEq, Prod.mk.injEq, decide_eq_true_eq] at hfacts
  obtain ⟨hactive, hend, hfree, hintact⟩ := hfacts
  have hdue : a.hash.endAt ≤ (⟨1000, by decide⟩ : DateMs).val := hend.le
  obtain ⟨hcloses, hswept⟩ :=
    closes_when_due_iff Sample.contested_run (by decide) ha (.inr hactive) hdue
  refine (hswept 2 [(7, 400), (1, 1000), (8, 3000)] ?_).mpr ⟨hcloses.mpr ?_, ?_, ?_⟩
  · intro score
    rw [hdeadline]
    simp [eq_comm]
  · rw [hend]
    exact ⟨hactive, by decide +kernel, hfree, hintact⟩
  · rw [hend]
    decide
  · rw [hend]
    decide

/-- An auction that is created before its start, and gets no bid, is not. -/
theorem closes_when_due_pending : ¬ ∀ (productId : Nat) (k : AuctionKeys)
    (xs : List EngineAction) (a : Auction) (now : DateMs), EngineRun productId {} xs k →
    k.auction = some a → a.hash.status = .pending ∨ a.hash.status = .active →
    a.hash.endAt ≤ now.val → Script.fenceCheck k = none → (∀ key, k.record key = none) →
    a.hash.Intact productId → ClosesWhenDue productId now k := by
  intro h
  have hfacts : (Sample.created .pending ⟨100, by decide⟩).auction.map (fun a =>
      (a.hash.status, decide (a.hash.endAt ≤ Sample.late.val ∧ a.hash.Intact 1))) =
      some (.pending, true) := by decide +kernel
  simp only [Option.map_eq_some_iff, Prod.mk.injEq, decide_eq_true_eq] at hfacts
  obtain ⟨a, ha, hpending, hdue, hintact⟩ := hfacts
  obtain ⟨score, hscore, _⟩ := h 1 _ _ a Sample.late (Sample.created_run _ _) ha
    (.inl hpending) hdue (by decide +kernel) (fun _ => rfl) hintact
  have hnone : (Sample.created .pending ⟨100, by decide⟩).deadline = none := by decide +kernel
  simp [hnone] at hscore

end MiracleAuction
