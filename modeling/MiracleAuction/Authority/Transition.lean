import MiracleAuction.Authority.Mutate
import MiracleAuction.Base.Run

/-!
# What a step of the authority can do

Every action on an auction's keys either keeps the auction and its stream, or
is a call whose request the script accepts. An accepted request passed the
checks of its operation; `Decided` lists them.
-/
namespace MiracleAuction
open Decimal

namespace Request
variable {c : Call} {req : Request} {amount : Option MoneyVnd}

/-- A time value survives the trip through the script. -/
theorem now_eq (req : Request) : req.now = req.nowMs.val := DateMs.tonumber_text _

/-- So does a user id. -/
theorem actor_eq (req : Request) : req.actor = req.actorId.val :=
  Lua.tostringId_of_lt (Nat.lt_trans req.actorId.isLt (by decide))

theorem amount_le (req : Request) : req.amount ≤ maxVnd := by
  unfold amount
  cases req.amountVnd with
  | none => exact Nat.zero_le _
  | some amount => exact amount.property.2

end Request

/-- A successful `payload` is the request of the call, and its amount is the one parsed. -/
theorem Call.payload_ok {c : Call} {req : Request} (h : c.payload = .ok req) :
    (c.command.idempotencyKey ≠ [] ∧ jsLength c.command.idempotencyKey ≤ 255) ∧
      ∃ amount : Option MoneyVnd, req = c.request amount ∧
        c.command.amountVnd = amount.map fun n => digits n.val := by
  unfold Call.payload at h
  split at h
  · cases h
  · rename_i hkey
    refine ⟨by simpa [not_or] using hkey, ?_⟩
    cases hamount : c.command.amountVnd with
    | none => exact ⟨none, by simpa [hamount] using h.symm, rfl⟩
    | some text =>
      simp only [hamount] at h
      cases hparse : parseMoneyVnd text with
      | error e => simp [hparse] at h
      | ok amount =>
        exact ⟨some amount, by simpa [hparse] using h.symm, by simp [parseMoneyVnd_ok hparse]⟩

/-! ## Operations -/

/-- What `bidderCheck` has established. -/
structure Bidder (a : Auction) (req : Request) : Prop where
  active : a.hash.effectiveStatus req.now = .active
  started : a.hash.startAt ≤ req.now
  open_ : req.now < a.hash.endAt
  notSeller : req.actor ≠ a.hash.sellerId
  notBanned : req.actor ∉ a.sets.bans

/-- The outcomes of accepted operations, each with the checks that were passed. -/
inductive Decided (a : Auction) (req : Request) : Decision → Prop
  | bid (hop : req.operation = .bid) (bidder : Bidder a req)
      (representable : a.hash.currentPriceVnd + a.hash.stepPriceVnd ≤ maxBigint)
      (enough : a.hash.currentPriceVnd + a.hash.stepPriceVnd ≤ req.amount)
      (increased : ∀ previous, a.sets.maxima req.actor = some previous →
        previous < req.amount) :
      Decided a req { Script.unchanged a req .bidAccepted with
        nextLeaderId := (Script.proxyBid a.hash req.actor req.amount).1
        nextLeaderMax := (Script.proxyBid a.hash req.actor req.amount).2.1
        nextPrice := (Script.proxyBid a.hash req.actor req.amount).2.2
        nextEndAtMs := a.hash.bidEnd req.now
        oldRankMember := a.sets.rankMembers req.actor
        newRankMember := some (Money.rankMember req.amount req.actor) }
  | buyNow {price : Nat} (hop : req.operation = .buyNow) (bidder : Bidder a req)
      (enabled : a.hash.buyNowPriceVnd = some price) (enough : price ≤ req.amount) :
      Decided a req { Script.unchanged a req .buyNowCompleted with
        nextStatus := .sold
        nextLeaderId := some req.actor
        nextLeaderMax := some price
        nextPrice := price
        nextEndAtMs := req.now }
  | ban {target : Nat} (hop : req.operation = .ban)
      (active : a.hash.effectiveStatus req.now = .active)
      (authorised : req.actor = a.hash.sellerId ∨ req.actorRole = .admin)
      (named : req.banTargetId = some target) (notSeller : target ≠ a.hash.sellerId)
      (notBanned : target ∉ a.sets.bans) :
      Decided a req { Script.unchanged a req .bidderBanned with
        oldRankMember := a.sets.rankMembers target }
  | close (hop : req.operation = .close) (active : a.hash.effectiveStatus req.now = .active)
      (due : a.hash.endAt ≤ req.now) :
      Decided a req { Script.unchanged a req .auctionClosed with
        nextStatus := .ended
        orderId := if a.hash.leaderId = none then none else req.orderId }
  | cancel (hop : req.operation = .cancel)
      (standing : a.hash.effectiveStatus req.now = .pending ∨
        a.hash.effectiveStatus req.now = .active)
      (authorised : req.actor = a.hash.sellerId ∨ req.actorRole = .admin) :
      Decided a req { Script.unchanged a req .auctionCancelled with nextStatus := .cancelled }

namespace StateHash
variable {h : StateHash} {now : Int}

theorem status_of_active (hactive : h.effectiveStatus now = .active) :
    h.status = .pending ∨ h.status = .active := by
  unfold effectiveStatus at hactive
  split at hactive
  · rename_i hp
    exact .inl hp.1
  · exact .inr hactive

theorem status_of_pending (hpending : h.effectiveStatus now = .pending) : h.status = .pending := by
  unfold effectiveStatus at hpending
  split at hpending
  · cases hpending
  · exact hpending

end StateHash

/-- Nothing is accepted on an auction that is over. -/
theorem Decided.standing {a : Auction} {req : Request} {d : Decision} (h : Decided a req d) :
    a.hash.status = .pending ∨ a.hash.status = .active := by
  cases h with
  | bid _ hb => exact StateHash.status_of_active hb.active
  | buyNow _ hb => exact StateHash.status_of_active hb.active
  | ban _ hactive => exact StateHash.status_of_active hactive
  | close _ hactive => exact StateHash.status_of_active hactive
  | cancel _ hstanding =>
    rcases hstanding with h | h
    · exact .inl (StateHash.status_of_pending h)
    · exact StateHash.status_of_active h

/-- `TERMINAL_STATUSES`. -/
def AuctionStatus.isTerminal : AuctionStatus → Bool
  | .sold | .ended | .cancelled => true
  | _ => false

/-- The events that leave an auction open. -/
def EventType.keepsOpen : EventType → Bool
  | .bidAccepted | .bidderBanned => true
  | _ => false

/-- The type of the events of an operation. -/
def Operation.eventType : Operation → EventType
  | .bid => .bidAccepted
  | .buyNow => .buyNowCompleted
  | .ban => .bidderBanned
  | .close => .auctionClosed
  | .cancel => .auctionCancelled

theorem Decided.eventType_eq {a : Auction} {req : Request} {d : Decision} (h : Decided a req d) :
    d.eventType = req.operation.eventType := by
  cases h with
  | bid hop => rw [hop]; rfl
  | buyNow hop => rw [hop]; rfl
  | ban hop => rw [hop]; rfl
  | close hop => rw [hop]; rfl
  | cancel hop => rw [hop]; rfl

/-- Bids and bans leave the auction active, the other operations end it. -/
theorem Decided.open_or_over {a : Auction} {req : Request} {d : Decision} (h : Decided a req d) :
    d.nextStatus = .active ∧ d.eventType.keepsOpen ∨ d.nextStatus.isTerminal := by
  cases h with
  | bid _ hb => exact .inl ⟨hb.active, rfl⟩
  | ban _ hactive => exact .inl ⟨hactive, rfl⟩
  | buyNow => exact .inr rfl
  | close => exact .inr rfl
  | cancel => exact .inr rfl

namespace Script
variable {a : Auction} {req : Request} {d : Decision} {k : AuctionKeys}

theorem bidderCheck_ok (h : bidderCheck a req = .ok ()) : Bidder a req := by
  unfold bidderCheck at h
  split at h
  · cases h
  · split at h
    · cases h
    · split at h
      · cases h
      · rename_i hactive hseller hban
        simp only [not_or, not_not, not_lt, not_le] at hactive
        exact ⟨hactive.1, hactive.2.1, hactive.2.2, hseller, hban⟩

theorem bid_ok (hop : req.operation = .bid) (hb : Bidder a req) (h : bid a req = .ok d) :
    Decided a req d := by
  unfold bid at h
  simp only [Money.add_eq, Money.compare_pos, Money.compare_neg, Money.compare_nonpos] at h
  split at h
  · cases h
  · split at h
    · cases h
    · split at h
      · cases h
      · rename_i hover hlow hraise
        cases h
        refine .bid hop hb (not_lt.mp hover) (not_lt.mp hlow) ?_
        intro previous hprevious
        simpa [hprevious] using hraise

theorem buyNow_ok (hop : req.operation = .buyNow) (hb : Bidder a req) (h : buyNow a req = .ok d) :
    Decided a req d := by
  unfold buyNow at h
  split at h
  · cases h
  · rename_i price hprice
    simp only [Money.compare_neg] at h
    split at h
    · cases h
    · rename_i hlow
      cases h
      exact .buyNow hop hb hprice (not_lt.mp hlow)

theorem ban_ok (hop : req.operation = .ban) (h : ban a req = .ok d) : Decided a req d := by
  unfold ban at h
  split at h
  · cases h
  · rename_i hactive
    split at h
    · cases h
    · rename_i hauth
      split at h
      · cases h
      · rename_i target htarget
        split at h
        · cases h
        · split at h
          · cases h
          · rename_i hseller hban
            cases h
            refine .ban hop (not_not.mp hactive) ?_ htarget hseller hban
            by_cases hs : req.actor = a.hash.sellerId
            · exact .inl hs
            · exact .inr (by_contra fun hr => hauth ⟨hs, hr⟩)

theorem close_ok (hop : req.operation = .close) (h : close a req = .ok d) : Decided a req d := by
  unfold close at h
  split at h
  · cases h
  · split at h
    · cases h
    · rename_i hactive hdue
      cases h
      exact .close hop (not_not.mp hactive) (not_lt.mp hdue)

theorem cancel_ok (hop : req.operation = .cancel) (h : cancel a req = .ok d) :
    Decided a req d := by
  unfold cancel at h
  simp only at h
  split at h
  · cases h
  · split at h
    · cases h
    · rename_i hstanding hauth
      cases h
      refine .cancel hop ?_ ?_
      · by_cases hp : a.hash.effectiveStatus req.now = .pending
        · exact .inl hp
        · exact .inr (by_contra fun ha => hstanding ⟨hp, ha⟩)
      · by_cases hs : req.actor = a.hash.sellerId
        · exact .inl hs
        · exact .inr (by_contra fun hr => hauth ⟨hs, hr⟩)

/-- An accepted operation passed the checks of its branch. -/
theorem operate_ok (h : operate a req = .ok d) : Decided a req d := by
  unfold operate at h
  split at h
  · rename_i hop
    cases hcheck : bidderCheck a req with
    | error e => rw [hcheck] at h; cases h
    | ok u => rw [hcheck] at h; exact bid_ok hop (bidderCheck_ok hcheck) h
  · rename_i hop
    cases hcheck : bidderCheck a req with
    | error e => rw [hcheck] at h; cases h
    | ok u => rw [hcheck] at h; exact buyNow_ok hop (bidderCheck_ok hcheck) h
  · rename_i hop
    exact ban_ok hop h
  · rename_i hop
    exact close_ok hop h
  · rename_i hop
    exact cancel_ok hop h

/-- A bid that passes the script's checks is decided. -/
theorem operate_bid (hop : req.operation = .bid) (hbidder : Bidder a req)
    (hminimum : a.hash.currentPriceVnd + a.hash.stepPriceVnd ≤ req.amount)
    (hincreased : ∀ previous, a.sets.maxima req.actor = some previous → previous < req.amount) :
    ∃ d, operate a req = .ok d := by
  have hcheck : bidderCheck a req = .ok () := by
    unfold bidderCheck
    rw [if_neg, if_neg hbidder.notSeller, if_neg hbidder.notBanned]
    simp only [not_or, not_not, not_lt, not_le]
    exact ⟨hbidder.active, hbidder.started, hbidder.open_⟩
  have hrepresentable : a.hash.currentPriceVnd + a.hash.stepPriceVnd ≤ maxBigint :=
    hminimum.trans req.amount_le
  unfold operate
  rw [hop]
  dsimp only
  rw [Except.bind_of_ok hcheck]
  unfold bid
  simp only [Money.add_eq, Money.compare_pos, Money.compare_neg, Money.compare_nonpos]
  rw [if_neg (Nat.not_lt.mpr hrepresentable), if_neg (Nat.not_lt.mpr hminimum), if_neg]
  · exact ⟨_, rfl⟩
  · cases hprevious : a.sets.maxima req.actor with
    | none => simp
    | some previous => simpa [hprevious] using hincreased previous hprevious

/-- The proxy rule on numbers, case by case. -/
inductive Proxied (h : StateHash) (actorId maximum : Nat) : Option Nat × Option Nat × Nat → Prop
  | first (hl : h.leaderId = none) :
      Proxied h actorId maximum (some actorId, some maximum, h.currentPriceVnd)
  | raised (hl : h.leaderId = some actorId) :
      Proxied h actorId maximum (some actorId, some maximum, h.currentPriceVnd)
  | outbid {leader : Nat} (hl : h.leaderId = some leader) (hne : leader ≠ actorId)
      (hle : maximum ≤ h.leaderMaxPriceVnd.getD 0) :
      Proxied h actorId maximum (some leader, h.leaderMaxPriceVnd,
        min (maximum + h.stepPriceVnd) (h.leaderMaxPriceVnd.getD 0))
  | overtakes {leader : Nat} (hl : h.leaderId = some leader) (hne : leader ≠ actorId)
      (hlt : h.leaderMaxPriceVnd.getD 0 < maximum) :
      Proxied h actorId maximum (some actorId, some maximum,
        min (h.leaderMaxPriceVnd.getD 0 + h.stepPriceVnd) maximum)

theorem proxyBid_cases (h : StateHash) (actorId maximum : Nat) :
    Proxied h actorId maximum (proxyBid h actorId maximum) := by
  unfold proxyBid
  simp only [Money.compare_nonpos, Money.add_eq, Money.minimum_eq]
  split
  · rename_i hl
    exact .first hl
  · rename_i leader hl
    split
    · rename_i heq
      subst heq
      exact .raised hl
    · rename_i hne
      split
      · rename_i hle
        exact .outbid hl hne hle
      · rename_i hlt
        exact .overtakes hl hne (not_le.mp hlt)

theorem update_bid (hop : req.operation = .bid) : update a req d = (bidSets a req d, d) := by
  simp [update, hop]

theorem update_ban {target : Nat} (hop : req.operation = .ban)
    (ht : req.banTargetId = some target) :
    update a req d = (banSets a target d,
      if a.hash.leaderId = some target then reelect a.hash (banSets a target d).ranking d
        else d) := by
  simp [update, hop, ht]

theorem update_of_ne (hbid : req.operation ≠ .bid) (hban : req.operation ≠ .ban) :
    update a req d = (a.sets, d) := by
  unfold update
  split <;> simp_all

/-- A re-election changes the leader, its maximum and the price only. -/
theorem reelect_rest (h : StateHash) (ranking : SortedSet Text) (d : Decision) :
    (reelect h ranking d).nextStatus = d.nextStatus ∧
      (reelect h ranking d).nextEndAtMs = d.nextEndAtMs ∧
      (reelect h ranking d).orderId = d.orderId := by
  unfold reelect
  split <;> simp

/-- The structure updates keep the status, the deadline and the order of the decision. -/
theorem update_rest (a : Auction) (req : Request) (d : Decision) :
    (update a req d).2.nextStatus = d.nextStatus ∧
      (update a req d).2.nextEndAtMs = d.nextEndAtMs ∧
      (update a req d).2.orderId = d.orderId := by
  unfold update
  split
  · simp
  · dsimp only
    split
    · exact reelect_rest _ _ _
    · simp
  · simp

@[simp] theorem update_nextStatus : (update a req d).2.nextStatus = d.nextStatus :=
  (update_rest a req d).1

@[simp] theorem update_nextEndAtMs : (update a req d).2.nextEndAtMs = d.nextEndAtMs :=
  (update_rest a req d).2.1

@[simp] theorem update_orderId : (update a req d).2.orderId = d.orderId :=
  (update_rest a req d).2.2

end Script

/-! ## Steps -/

/-- The counters are not exhausted, and the hash names the product of its key. -/
def StateHash.Intact (h : StateHash) (productId : Nat) : Prop :=
  h.sequence < maxBigint ∧ h.version < maxBigint ∧
    Numeral.plain h.productId = Lua.tostring (Lua.number productId)

instance (h : StateHash) (productId : Nat) : Decidable (h.Intact productId) := by
  unfold StateHash.Intact; infer_instance

theorem integrityCheck_eq_none {req : Request} {h : StateHash} :
    Script.integrityCheck req h = none ↔ h.Intact req.productId := by
  unfold Script.integrityCheck StateHash.Intact
  simp only [Money.compare_nonneg]
  split
  · simp only [reduceCtorEq, false_iff]
    omega
  · rename_i hcounters
    split
    · rename_i hid
      simp only [reduceCtorEq, false_iff]
      exact fun h => hid h.2.2
    · rename_i hid
      exact iff_of_true rfl ⟨by omega, by omega, not_not.mp hid⟩

theorem StateHash.Intact.product {h : StateHash} {productId : Nat} (hintact : h.Intact productId) :
    h.productId = productId := by
  obtain ⟨hsmall, heq⟩ := Lua.tostring_eq_plain hintact.2.2.symm
  have hlt := Lua.lt_of_number_lt hsmall
  rw [Lua.number_of_lt (by omega)] at heq
  omega

theorem fenceCheck_eq_none {k : AuctionKeys} :
    Script.fenceCheck k = none ↔
      k.wrongType = false ∧ k.recoveryFence = false ∧ k.auctionRecoveryFence = false := by
  unfold Script.fenceCheck
  cases k.wrongType <;> cases k.recoveryFence <;> cases k.auctionRecoveryFence <;> simp

/-- The script accepts a request of a loaded auction. -/
structure Accepted (a : Auction) (req : Request) (d : Decision) : Prop where
  intact : Script.integrityCheck req a.hash = none
  decided : Script.operate a req = .ok d

/-- The auction after a request, if the request is accepted. -/
def Script.next (a : Auction) (req : Request) : Option Auction :=
  if (integrityCheck req a.hash).isNone then (operate a req).toOption.map (write a req) else none

/-- An accepted request takes the auction to the one the script writes. -/
def AuctionStep (a : Auction) (req : Request) (a' : Auction) : Prop :=
  Script.next a req = some a'

theorem auctionStep_iff {a a' : Auction} {req : Request} :
    AuctionStep a req a' ↔ ∃ d, Accepted a req d ∧ a' = Script.write a req d := by
  unfold AuctionStep Script.next
  cases hintact : Script.integrityCheck req a.hash with
  | some failure =>
    simp only [Option.isNone_some, Bool.false_eq_true, if_false, reduceCtorEq, false_iff]
    rintro ⟨d, hd, _⟩
    exact absurd hd.intact (by simp [hintact])
  | none =>
    cases hop : Script.operate a req with
    | error rejection =>
      simp only [Option.isNone_none, if_true, Except.toOption, Option.map_none, reduceCtorEq,
        false_iff]
      rintro ⟨d, hd, _⟩
      exact absurd hd.decided (by simp [hop])
    | ok d =>
      simp only [Option.isNone_none, if_true, Except.toOption, Option.map_some,
        Option.some.injEq]
      constructor
      · rintro rfl
        exact ⟨d, ⟨hintact, hop⟩, rfl⟩
      · rintro ⟨d', hd, rfl⟩
        cases hop.symm.trans hd.decided
        rfl

/-- The script accepts the request on these keys. -/
structure Accepts (k : AuctionKeys) (req : Request) (a : Auction) (d : Decision) : Prop
    extends Accepted a req d where
  loaded : k.auction = some a
  unfenced : Script.fenceCheck k = none
  fresh : Script.replay req k = none
  throttle : ¬ (req.operation.isBidding ∧ req.rateLimit ≤ k.rate req.actor)

/-- The auction and the decision with which the script accepts the request, if it does. -/
def Script.acceptance (req : Request) (k : AuctionKeys) : Option (Auction × Decision) :=
  match k.auction with
  | none => none
  | some a =>
    if (fenceCheck k).isNone ∧ (replay req k).isNone ∧ (integrityCheck req a.hash).isNone ∧
        ¬ (req.operation.isBidding ∧ req.rateLimit ≤ k.rate req.actor) then
      (operate a req).toOption.map fun d => (a, d)
    else none

theorem accepts_of_acceptance {req : Request} {k : AuctionKeys} {a : Auction} {d : Decision}
    (h : Script.acceptance req k = some (a, d)) : Accepts k req a d := by
  unfold Script.acceptance at h
  split at h
  · cases h
  · rename_i a' hloaded
    split at h
    · rename_i hchecks
      simp only [Option.isNone_iff_eq_none] at hchecks
      obtain ⟨hfence, hfresh, hintact, hrate⟩ := hchecks
      cases hop : Script.operate a' req with
      | error rejection => simp [hop, Except.toOption] at h
      | ok d' =>
        simp only [hop, Except.toOption, Option.map_some, Option.some.injEq, Prod.mk.injEq] at h
        obtain ⟨rfl, rfl⟩ := h
        exact ⟨⟨hintact, hop⟩, hloaded, hfence, hfresh, hrate⟩
    · cases h

theorem Accepts.acceptance {req : Request} {k : AuctionKeys} {a : Auction} {d : Decision}
    (h : Accepts k req a d) : Script.acceptance req k = some (a, d) := by
  unfold Script.acceptance
  rw [h.loaded]
  dsimp only
  rw [if_pos]
  · simp [h.decided, Except.toOption]
  · simpa [h.unfenced, h.fresh, h.intact] using h.throttle

/-- The auction and its stream are the same. -/
structure Keeps (k k' : AuctionKeys) : Prop where
  state : k'.state = k.state
  sets : k'.sets = k.sets
  deadline : k'.deadline = k.deadline
  stream : k'.stream = k.stream

namespace Keeps
variable {k k' k'' : AuctionKeys}

theorem refl (k : AuctionKeys) : Keeps k k := ⟨rfl, rfl, rfl, rfl⟩

theorem auction (h : Keeps k k') : k'.auction = k.auction := by
  unfold AuctionKeys.auction
  rw [h.state, h.sets, h.deadline]

end Keeps

namespace Script
variable {a : Auction} {req : Request} {d : Decision} {k : AuctionKeys}

theorem keeps_store (req : Request) (k : AuctionKeys) (stored : StoredReply) :
    Keeps k (store req k stored) := ⟨rfl, rfl, rfl, rfl⟩

theorem keeps_migrate (req : Request) (k : AuctionKeys) : Keeps k (migrate req k) := by
  unfold migrate
  split
  · split
    · exact keeps_store _ _ _
    · exact .refl k
  · exact .refl k

theorem accept_stream : (accept a req k d).stream = k.stream ++ [event a req d] := rfl

theorem accept_auction : (accept a req k d).auction = some (write a req d) := rfl

end Script

/-- What the script does: it answers without a write, repeats a recorded reply,
records a rejection, or accepts. -/
inductive ScriptCases (req : Request) (k : AuctionKeys) : Reply × AuctionKeys → Prop
  | fails (reply : Reply) : ScriptCases req k (reply, k)
  | replays {stored : StoredReply} (h : Script.replay req k = some stored) (reply : Reply) :
      ScriptCases req k (reply, Script.migrate req k)
  | rejects (h : Script.replay req k = none) (rejection : Reply) :
      ScriptCases req k (rejection, Script.store req k ⟨req.fingerprint, rejection⟩)
  | accepts {a : Auction} {d : Decision} (h : Accepts k req a d) :
      ScriptCases req k (.success (Script.result a req d), Script.accept a req k d)

open Script in
theorem mutateScript_cases (req : Request) (k : AuctionKeys) :
    ScriptCases req k (mutateScript req k) := by
  unfold mutateScript
  cases hfence : fenceCheck k with
  | some failure => exact .fails _
  | none =>
    cases hreplay : replay req k with
    | some stored =>
      dsimp only
      split <;> exact .replays hreplay _
    | none =>
      dsimp only
      unfold execute
      cases hstate : k.state with
      | absent => exact .fails _
      | incomplete => exact .fails _
      | hash h =>
        have hloaded : k.auction = some ⟨h, k.sets, k.deadline⟩ := by
          simp [AuctionKeys.auction, hstate]
        dsimp only
        cases hintact : integrityCheck req h with
        | some failure => exact .fails _
        | none =>
          dsimp only
          unfold conclude
          cases hop : operate ⟨h, k.sets, k.deadline⟩ req with
          | error rejection => exact .rejects hreplay _
          | ok d =>
            dsimp only
            split
            · exact .fails _
            · rename_i hrate
              exact .accepts ⟨⟨hintact, hop⟩, hloaded, hfence, hreplay, hrate⟩

/-- An accepted request gets the success reply and is written out. -/
theorem Accepts.mutateScript_eq {req : Request} {k : AuctionKeys} {a : Auction} {d : Decision}
    (h : Accepts k req a d) :
    mutateScript req k = (.success (Script.result a req d), Script.accept a req k d) := by
  obtain ⟨hs, hstate, rfl⟩ : ∃ hs, k.state = .hash hs ∧
      a = ⟨hs, k.sets, k.deadline⟩ := by
    have hloaded := h.loaded
    unfold AuctionKeys.auction at hloaded
    split at hloaded
    · rename_i hs hstate
      exact ⟨hs, hstate, by simpa using hloaded.symm⟩
    · cases hloaded
  unfold mutateScript
  rw [h.unfenced, h.fresh]
  dsimp only
  unfold Script.execute
  rw [hstate]
  dsimp only
  rw [h.intact]
  dsimp only
  unfold Script.conclude
  rw [h.decided]
  dsimp only
  rw [if_neg h.throttle]

/-- A call changes nothing, or runs the script on its payload. -/
theorem call_cases (c : Call) (k : AuctionKeys) : (mutate c k).2 = k ∨
    ∃ req reply, c.payload = .ok req ∧ ScriptCases req k (reply, (mutate c k).2) := by
  unfold mutate
  cases hpayload : c.payload with
  | error e => exact .inl rfl
  | ok req =>
    have hcases := mutateScript_cases req k
    dsimp only
    cases c.connection with
    | requestLost => exact .inl rfl
    | replyLost => exact .inr ⟨req, _, rfl, hcases⟩
    | answered => exact .inr ⟨req, _, rfl, hcases⟩

/-- A request that is lost on its way changes nothing. -/
theorem mutate_lost {c : Call} (k : AuctionKeys) (hlost : c.connection = .requestLost) :
    (mutate c k).2 = k := by
  unfold mutate
  rw [hlost]
  split
  · rfl
  · rfl

theorem Accepts.mutate_eq {c : Call} {req : Request} {k : AuctionKeys} {a : Auction} {d : Decision}
    (hpayload : c.payload = .ok req) (hconnection : c.connection ≠ .requestLost)
    (h : Accepts k req a d) : (mutate c k).2 = Script.accept a req k d := by
  simp only [mutate, hpayload, h.mutateScript_eq]
  split
  · contradiction
  · rfl
  · rfl

/-- What an action does to the auction of the keys. -/
inductive ActionCases (k : AuctionKeys) : Action → AuctionKeys → Prop
  | accepts {c : Call} {req : Request} {a : Auction} {d : Decision}
      (hpayload : c.payload = .ok req) (h : Accepts k req a d)
      (hconnection : c.connection ≠ .requestLost) :
      ActionCases k (.call c) (Script.accept a req k d)
  | keeps {x : Action} {k' : AuctionKeys} (h : Keeps k k') : ActionCases k x k'

theorem action_cases (x : Action) (k : AuctionKeys) : ActionCases k x (x.apply k) := by
  cases x with
  | call c =>
    simp only [Action.apply]
    by_cases hlost : c.connection = .requestLost
    · rw [mutate_lost k hlost]
      exact .keeps (.refl k)
    rcases call_cases c k with h | ⟨req, reply, hpayload, h⟩
    · rw [h]
      exact .keeps (.refl k)
    · generalize (mutate c k).2 = k' at h ⊢
      cases h with
      | fails => exact .keeps (.refl k)
      | replays => exact .keeps (Script.keeps_migrate req k)
      | rejects => exact .keeps (Script.keeps_store _ _ _)
      | accepts h => exact .accepts hpayload h hlost
  | expireRecord digest => exact .keeps ⟨rfl, rfl, rfl, rfl⟩
  | expireLegacy => exact .keeps ⟨rfl, rfl, rfl, rfl⟩
  | expireRate actorId => exact .keeps ⟨rfl, rfl, rfl, rfl⟩
  | setRecoveryFence present => exact .keeps ⟨rfl, rfl, rfl, rfl⟩
  | setAuctionFence present => exact .keeps ⟨rfl, rfl, rfl, rfl⟩

theorem actionCases_of_does {k k' : AuctionKeys} {x : Action} (h : Does Action.apply k x k') :
    ActionCases k x k' := by
  have hcases := action_cases x k
  rwa [← show k' = x.apply k from h] at hcases

/-- A call that is accepted meets a condition on the loaded auction and the request. -/
def Action.Ensures (ok : Auction → Request → Prop) (k : AuctionKeys) : Action → Prop
  | .call c => c.connection ≠ .requestLost → ∀ req ∈ c.payload.toOption,
      ∀ accepted ∈ Script.acceptance req k, ok accepted.1 req
  | _ => True

instance (ok : Auction → Request → Prop) [∀ a req, Decidable (ok a req)] (k : AuctionKeys)
    (x : Action) : Decidable (x.Ensures ok k) := by
  unfold Action.Ensures; split <;> infer_instance

/-- The authority refines the steps of its auction: a run on the keys is a run
of the accepted requests among its calls. -/
theorem authorityRun_refines {ok : Auction → Request → Prop} {k k' : AuctionKeys}
    {xs : List Action} {a' : Auction}
    (h : Run (Guarded (Action.Ensures ok) (Does Action.apply)) k xs k')
    (hk' : k'.auction = some a') :
    ∃ a reqs, k.auction = some a ∧ Run (Guarded ok AuctionStep) a reqs a' ∧
      ∀ req ∈ reqs, ∃ c, .call c ∈ xs ∧ c.payload = .ok req := by
  induction h with
  | refl k => exact ⟨a', [], hk', .refl a', by simp⟩
  | @cons k k₁ k' x xs hx _ ih =>
    obtain ⟨a₁, reqs, hk₁, hrun, hcalls⟩ := ih hk'
    obtain ⟨hok, hx⟩ := hx
    have hcalls' : ∀ req ∈ reqs, ∃ c, .call c ∈ x :: xs ∧ c.payload = .ok req := by
      intro req hreq
      obtain ⟨c, hc, hpayload⟩ := hcalls req hreq
      exact ⟨c, List.mem_cons_of_mem _ hc, hpayload⟩
    cases actionCases_of_does hx with
    | @accepts c req a d hpayload hacc hconnection =>
      rw [Script.accept_auction] at hk₁
      cases hk₁
      refine ⟨a, req :: reqs, hacc.loaded, .cons ⟨?_, ?_⟩ hrun, ?_⟩
      · exact hok hconnection req (by simp [hpayload, Except.toOption]) (a, d) hacc.acceptance
      · exact auctionStep_iff.mpr ⟨d, hacc.toAccepted, rfl⟩
      · rintro req' (_ | ⟨_, hreq'⟩)
        · exact ⟨c, List.mem_cons_self, hpayload⟩
        · exact hcalls' req' hreq'
    | keeps hkeeps => exact ⟨a₁, reqs, hkeeps.auction.symm.trans hk₁, hrun, hcalls'⟩

/-! ## Sample inputs -/

namespace Sample

/-- An auction by seller 9 that opens at 100, in steps of 10, with a buy-now price of 300. -/
def auction (endAtMs : Numeral := .plain 1000) : Auction where
  hash :=
    { productId := 1
      sellerId := 9
      status := .active
      startAtMs := .plain 0
      endAtMs := endAtMs
      startPriceVnd := 100
      currentPriceVnd := 100
      stepPriceVnd := 10
      buyNowPriceVnd := some 300
      leaderId := none
      leaderMaxPriceVnd := none
      sequence := 0
      version := 0
      autoExtend := false
      antiSnipeWindowMs := .plain 0
      antiSnipeExtensionMs := .plain 0
      lastEventId := none }
  sets := .empty
  deadline := some (Lua.tonumber endAtMs)

def keys (a : Auction) : AuctionKeys where
  state := .hash a.hash
  sets := a.sets
  deadline := a.deadline

/-- A call at time 5 whose idempotency key, event and order are numbered alike. -/
def call (n : Nat) (operation : Operation) (actorId : UserId) (amountVnd : Option String := none)
    (targetUserId : Option Nat := none) : Call where
  command :=
    { operation := operation
      productId := 1
      actorId := actorId
      actorRole := .user
      idempotencyKey := 'k' :: digits n
      correlationId := 'c' :: digits n
      amountVnd := amountVnd.map String.toList
      targetUserId := targetUserId
      now := some (.early 5) }
  eventId := n
  newOrderId := n
  clock := .early 5

/-- The request of a call, once its amount is parsed. -/
def request (c : Call) : Option Request := c.payload.toOption

theorem exists_payload {c : Call} (h : (request c).isSome) : ∃ req, c.payload = .ok req := by
  unfold request at h
  cases hpayload : c.payload with
  | error e => simp [hpayload, Except.toOption] at h
  | ok req => exact ⟨req, rfl⟩

theorem exists_accepts {c : Call} {k : AuctionKeys}
    (h : ((request c).bind fun req => Script.acceptance req k).isSome) :
    ∃ req a d, c.payload = .ok req ∧ Accepts k req a d := by
  obtain ⟨⟨a, d⟩, h⟩ := Option.isSome_iff_exists.mp h
  obtain ⟨req, hreq, h⟩ := Option.bind_eq_some_iff.mp h
  obtain ⟨req', hpayload⟩ := exists_payload (c := c) (by simp [hreq])
  have : req = req' := by simpa [request, hpayload, Except.toOption] using hreq.symm
  exact ⟨req, a, d, by rw [this]; exact hpayload, accepts_of_acceptance h⟩

/-- Bidder 3 outbids bidder 2 and is banned. -/
def handOver : List Action :=
  [.call (call 1 .bid 2 (some "200")), .call (call 2 .bid 3 (some "250")),
    .call (call 3 .ban 9 none (some 3))]

end Sample

end MiracleAuction
