import MiracleAuction.Base.FixedWindow
import MiracleAuction.Authority.Transition

/-!
# The rate limit of `auction-mutate.lua`

Runs of the authority under Redis' clock. A `BID` or `BUY_NOW` is counted in the bidder's
rate key, which gets its lifetime when it is created; the id of a stream entry holds the
time at which it was added.
-/
namespace MiracleAuction.RateLimit
open Decimal Script

/-- The keys of an auction under a clock: when the rate keys expire, and the entries of
the stream with the times of their ids. -/
structure Timed where
  keys : AuctionKeys
  clock : Nat := 0
  expiresAt : Nat → Nat := fun _ => 0
  entries : List (Nat × AuctionStreamEvent) := []

/-- An entry for which the script counts the bidder. -/
def counts (actorId : Nat) (entry : AuctionStreamEvent) : Bool :=
  entry.actorId = actorId ∧ (entry.type = .bidAccepted ∨ entry.type = .buyNowCompleted)

/-- The times of a bidder's mutations. -/
def times (actorId : Nat) (entries : List (Nat × AuctionStreamEvent)) : List Nat :=
  (entries.filter fun entry => counts actorId entry.2).map Prod.fst

variable (limit windowMs : Nat)

/-- All processes have the same limit, and a rate key does not expire early. -/
def allowed (s : Timed) (time : Nat) : Action → Bool
  | .call c => c.rateLimit = limit
  | .expireRate actorId => s.expiresAt actorId ≤ time
  | _ => true

/-- An action at a time. `PEXPIRE` follows the `INCR` that returns one. -/
def step (s : Timed) : Nat × Action → Option Timed
  | (time, x) =>
    if s.clock ≤ time ∧ allowed limit s time x then
      let keys := x.apply s.keys
      some {
        keys := keys
        clock := time
        expiresAt := fun actorId =>
          if s.keys.rate actorId = 0 ∧ keys.rate actorId = 1 then time + windowMs
          else s.expiresAt actorId
        entries :=
          s.entries ++ (keys.stream.drop s.keys.stream.length).map fun entry => (time, entry) }
    else none

variable {limit windowMs} {k k' : AuctionKeys} {actorId : Nat}

/-- What an action does to a bidder's counter, and with it to the stream. -/
inductive Counted (limit : Nat) (k : AuctionKeys) (actorId : Nat) (k' : AuctionKeys) : Prop
  | uncounted (appended : List AuctionStreamEvent) (hstream : k'.stream = k.stream ++ appended)
      (hcounts : ∀ entry ∈ appended, counts actorId entry = false)
      (hrate : k'.rate actorId = k.rate actorId)
  | counted (entry : AuctionStreamEvent) (hstream : k'.stream = k.stream ++ [entry])
      (hcounts : counts actorId entry = true) (hbelow : k.rate actorId < limit)
      (hrate : k'.rate actorId = k.rate actorId + 1)

theorem Counted.of_same (hrate : k'.rate = k.rate) (hstream : k'.stream = k.stream) :
    Counted limit k actorId k' :=
  .uncounted [] (by rw [hstream, List.append_nil]) (by simp) (by rw [hrate])

theorem migrate_rate (req : Request) : (migrate req k).rate = k.rate := by
  unfold migrate
  split
  · split <;> rfl
  · rfl

theorem counts_event {a : Auction} {req : Request} {d : Decision} (h : operate a req = .ok d) :
    counts actorId (event a req d) = true ↔
      req.actor = actorId ∧ req.operation.isBidding = true := by
  have htype : (event a req d).type = req.operation.eventType := (operate_ok h).eventType_eq
  have hactor : (event a req d).actorId = req.actor := rfl
  unfold counts
  rw [htype, hactor, decide_eq_true_iff]
  refine and_congr_right fun _ => ?_
  cases req.operation <;> decide

/-- The script counts exactly the mutations that it accepts from bidders. -/
theorem counted_accept {a : Auction} {req : Request} {d : Decision} (h : Accepts k req a d)
    (hlimit : req.rateLimit = limit) : Counted limit k actorId (accept a req k d) := by
  have hrate : (accept a req k d).rate = (countRate req k).rate := rfl
  unfold countRate at hrate
  by_cases hcounts : counts actorId (event a req d) = true
  · obtain ⟨rfl, hbidding⟩ := (counts_event h.decided).mp hcounts
    rw [if_pos hbidding] at hrate
    have hbelow := h.throttle
    refine .counted _ rfl hcounts ?_ ?_
    · rw [← hlimit]
      exact Nat.lt_of_not_le fun hle => hbelow ⟨hbidding, hle⟩
    · rw [hrate]
      exact Function.update_self _ _ _
  · have hnot : ∀ entry ∈ [event a req d], counts actorId entry = false := by
      intro entry hentry
      rw [List.mem_singleton.mp hentry]
      simpa using hcounts
    refine .uncounted _ rfl hnot ?_
    rw [hrate]
    split
    · rename_i hbidding
      exact Function.update_of_ne
        (fun heq => hcounts ((counts_event h.decided).mpr ⟨heq.symm, hbidding⟩)) _ _
    · rfl

theorem counted_call (c : Call) (hlimit : c.rateLimit = limit) :
    Counted limit k actorId (mutate c k).2 := by
  obtain hsame | ⟨req, reply, hpayload, hcases⟩ := call_cases c k
  · exact .of_same (by rw [hsame]) (by rw [hsame])
  · have hreq : req.rateLimit = limit := by
      obtain ⟨_, amount, rfl, _⟩ := Call.payload_ok hpayload
      exact hlimit
    generalize (mutate c k).2 = next at hcases ⊢
    cases hcases with
    | fails => exact .of_same rfl rfl
    | replays => exact .of_same (migrate_rate req) (keeps_migrate req k).stream
    | rejects => exact .of_same rfl rfl
    | accepts h => exact counted_accept h hreq

/-! ## Runs -/

/-- What holds of one bidder's counter. -/
def Within (limit windowMs : Nat) (s : Timed) (actorId : Nat) : Prop :=
  FixedWindow.Admits limit windowMs s.clock (s.keys.rate actorId) (s.expiresAt actorId)
    (times actorId s.entries).reverse

theorem times_append (entries appended : List (Nat × AuctionStreamEvent)) :
    times actorId (entries ++ appended) = times actorId entries ++ times actorId appended := by
  simp [times]

/-- The times of what an action adds at a time. -/
theorem times_at {appended : List AuctionStreamEvent} {time : Nat} :
    times actorId (appended.map fun entry => (time, entry)) =
      List.replicate (appended.countP (counts actorId)) time := by
  induction appended with
  | nil => rfl
  | cons entry appended ih =>
    unfold times at ih ⊢
    rw [List.map_cons, List.filter_cons, List.countP_cons]
    dsimp only
    split
    · rw [List.map_cons, ih, List.replicate_succ]
    · exact ih

/-- An action that the limit's environment allows. -/
theorem counted_action (actorId : Nat) {s : Timed} {time : Nat} {x : Action}
    (hallowed : allowed limit s time x)
    (hrate : ∀ actorId, x ≠ .expireRate actorId) :
    Counted limit s.keys actorId (x.apply s.keys) := by
  cases x with
  | call c => exact counted_call c (by simpa [allowed] using hallowed)
  | expireRate other => exact absurd rfl (hrate other)
  | expireRecord digest => exact .of_same rfl rfl
  | expireLegacy => exact .of_same rfl rfl
  | setRecoveryFence present => exact .of_same rfl rfl
  | setAuctionFence present => exact .of_same rfl rfl

theorem within_step {s s' : Timed} {time : Nat} {x : Action}
    (hstep : step limit windowMs s (time, x) = some s') (h : Within limit windowMs s actorId) :
    Within limit windowMs s' actorId := by
  dsimp only [step] at hstep
  split at hstep
  · rename_i hok
    obtain ⟨hclock, hallowed⟩ := hok
    cases hstep
    have hwait := FixedWindow.Admits.wait h hclock
    unfold Within
    dsimp only
    rw [times_append, List.reverse_append]
    by_cases hexpire : ∃ other, x = .expireRate other
    · obtain ⟨other, rfl⟩ := hexpire
      have hnone : ((Action.expireRate other).apply s.keys).stream.drop s.keys.stream.length = [] :=
        List.drop_length
      rw [hnone]
      by_cases hother : actorId = other
      · subst hother
        have hzero : ((Action.expireRate actorId).apply s.keys).rate actorId = 0 :=
          Function.update_self _ _ _
        rw [hzero, if_neg (by simp)]
        exact hwait.expire (by simpa [allowed] using hallowed)
      · have hsame : ((Action.expireRate other).apply s.keys).rate actorId = s.keys.rate actorId :=
          Function.update_of_ne hother _ _
        rw [hsame, if_neg (by omega)]
        exact hwait
    · obtain ⟨appended, hstream, hcounts, hrate⟩ |
          ⟨entry, hstream, hcounts, hbelow, hrate⟩ :=
        counted_action actorId hallowed fun other heq => hexpire ⟨other, heq⟩
      · have hnone : appended.countP (counts actorId) = 0 := by
          rw [List.countP_eq_zero]
          intro entry hentry
          simp [hcounts entry hentry]
        rw [hstream, List.drop_left, times_at, hnone, hrate, if_neg (by omega)]
        exact hwait
      · have hone : [entry].countP (counts actorId) = 1 := by simp [hcounts]
        rw [hstream, List.drop_left, times_at, hone, hrate]
        obtain hzero | hpos := Nat.eq_zero_or_pos (s.keys.rate actorId)
        · rw [hzero] at hwait ⊢
          rw [if_pos ⟨rfl, rfl⟩]
          exact hwait.first (by omega)
        · rw [if_neg (by omega)]
          exact hwait.next hpos hbelow
  · cases hstep

/-- The entries are what was added to the stream. -/
theorem stream_step {s s' : Timed} {x : Nat × Action} (hstep : step limit windowMs s x = some s')
    (h : s.keys.stream = k.stream ++ s.entries.map Prod.snd) :
    s'.keys.stream = k.stream ++ s'.entries.map Prod.snd := by
  obtain ⟨time, x⟩ := x
  dsimp only [step] at hstep
  split at hstep
  · cases hstep
    have hcases := action_cases x s.keys
    have hprefix : s.keys.stream <+: (x.apply s.keys).stream := by
      generalize x.apply s.keys = next at hcases ⊢
      cases hcases with
      | accepts hpayload haccepts => exact List.prefix_append _ _
      | keeps hkeeps => rw [hkeeps.stream]
    obtain ⟨appended, happended⟩ := hprefix
    dsimp only
    rw [← happended, List.drop_left, List.map_append, List.map_map, ← List.append_assoc, ← h]
    simp
  · cases hstep

/-- No bidder gets more than `2 * limit - 1` bids and purchases of an auction accepted in
any span of one window's length, whatever else happens to the auction. -/
theorem rate_limited {s : Timed} {xs : List (Nat × Action)}
    (hrate : ∀ actorId, k.rate actorId = 0)
    (h : Run (StepOf (step limit windowMs)) { keys := k } xs s) :
    s.keys.stream = k.stream ++ s.entries.map Prod.snd ∧
      ∀ actorId t, FixedWindow.within windowMs t (times actorId s.entries) ≤ 2 * limit - 1 := by
  have hstream : s.keys.stream = k.stream ++ s.entries.map Prod.snd :=
    h.preserves (I := fun s => s.keys.stream = k.stream ++ s.entries.map Prod.snd)
      (fun _ _ _ hstep hs => stream_step hstep hs) (by simp)
  refine ⟨hstream, fun actorId t => ?_⟩
  have hwithin : Within limit windowMs s actorId := by
    refine h.preserves (I := fun s => Within limit windowMs s actorId)
      (fun _ _ _ hstep hs => within_step hstep hs) ?_
    unfold Within
    rw [hrate actorId]
    exact FixedWindow.admits_start
  have hspread := hwithin.spread t
  unfold FixedWindow.within at hspread ⊢
  rwa [List.countP_reverse] at hspread

namespace Sample
open MiracleAuction.Sample

/-- The second bid comes last in its window, and two more first in the next one. -/
def actions : List (Nat × Action) :=
  [(0, .call { call 1 .bid 2 (some "110") with rateLimit := 2 }),
    (9, .call { call 2 .bid 2 (some "120") with rateLimit := 2 }),
    (10, .expireRate 2),
    (10, .call { call 3 .bid 2 (some "130") with rateLimit := 2 }),
    (11, .call { call 4 .bid 2 (some "140") with rateLimit := 2 }),
    (12, .call { call 5 .bid 2 (some "150") with rateLimit := 2 })]

def start : Timed := { keys := keys auction }

end Sample

theorem rate_limited_sample :
    let s := Run.final (step 2 10) Sample.start Sample.actions
    (s.keys.stream = (MiracleAuction.Sample.keys MiracleAuction.Sample.auction).stream ++
        s.entries.map Prod.snd ∧
      ∀ actorId t, FixedWindow.within 10 t (times actorId s.entries) ≤ 2 * 2 - 1) ∧
    FixedWindow.within 10 9 (times 2 s.entries) = 3 :=
  ⟨rate_limited (fun _ => rfl) (Run.to_final (by decide +kernel)), by decide +kernel⟩

end MiracleAuction.RateLimit
