import MiracleAuction.Base.Numeral
import MiracleAuction.Base.SortedSet
import MiracleAuction.Authority.Money

/-!
# The Redis authority's data

Commands and their JSON payload, stream events, replies, and the Redis keys of
one auction. An id or a money field holds a decimal text; the model holds the
number it denotes, and `none` stands for the empty text of a leader, a leader
maximum or a buy-now price.
-/
namespace MiracleAuction
open Decimal

namespace Lua

/-- A Lua number is an IEEE double: integers keep 53 significant bits. -/
def number (x : Int) : Int := Numeral.round 2 53 x

def tonumber (text : Numeral) : Int := number text.denotes

/-- `tostring` prints with `%.14g`. -/
def tostring (x : Int) : Numeral :=
  let printed := Numeral.round 10 14 x
  if printed.natAbs < 10 ^ 14 then .plain printed else .scientific printed

/-- `tostring` of a numeric id, as the number the text denotes. -/
def tostringId (n : Nat) : Nat := (tostring (number n)).denotes.toNat

theorem number_of_lt {x : Int} (h : x.natAbs < 2 ^ 53) : number x = x := Numeral.round_of_lt h

theorem tostring_of_lt {x : Int} (h : x.natAbs < 10 ^ 14) : tostring x = .plain x := by
  rw [tostring, Numeral.round_of_lt h, if_pos h]

theorem tostringId_of_lt {n : Nat} (h : n < 10 ^ 14) : tostringId n = n := by
  have hn : ((n : Int)).natAbs < 10 ^ 14 := by simpa using h
  rw [tostringId, number_of_lt (Nat.lt_trans hn (by decide)), tostring_of_lt hn]
  simp

theorem number_mono {x y : Int} (h : x ≤ y) : number x ≤ number y :=
  Numeral.round_mono (by decide) (by decide) h

theorem number_tonumber (text : Numeral) : number (tonumber text) = tonumber text :=
  Numeral.round_round (by decide) (by decide) _

theorem tonumber_tostring (x : Int) : tonumber (tostring x) = number (Numeral.round 10 14 x) := by
  unfold tonumber tostring
  dsimp only
  split <;> rfl

theorem tonumber_tostring_mono {x y : Int} (h : x ≤ y) :
    tonumber (tostring x) ≤ tonumber (tostring y) := by
  rw [tonumber_tostring, tonumber_tostring]
  exact number_mono (Numeral.round_mono (by decide) (by decide) h)

/-- A time value that is printed moves by a tenth of a second at most. -/
theorem tonumber_tostring_near {x : Int} (h : x.natAbs < 9 * 10 ^ 15) :
    tonumber (tostring x) ≤ x + 100 ∧ x ≤ tonumber (tostring x) + 100 := by
  have hnear := Numeral.round_near (b := 10) (p := 14) (j := 2) (by decide)
    (Nat.lt_trans h (by decide))
  rw [tonumber_tostring, number_of_lt (by omega)]
  omega

/-- Only an exact integer is printed in plain digits. -/
theorem tostring_eq_plain {x y : Int} (h : tostring x = .plain y) :
    x.natAbs < 10 ^ 14 ∧ y = x := by
  unfold tostring at h
  dsimp only at h
  split at h
  · rename_i hlt
    have hx := (Numeral.natAbs_round_lt_iff (by decide) (by decide)).mp hlt
    cases h
    exact ⟨hx, Numeral.round_of_lt hx⟩
  · cases h

theorem lt_of_number_lt {n : Nat} (h : (number n).natAbs < 10 ^ 14) : n < 10 ^ 14 := by
  by_contra hge
  have hmono : number (10 ^ 14 : Nat) ≤ number n := number_mono (by omega)
  rw [number_of_lt (by decide)] at hmono
  omega

/-- A printed id is the id, if either is small. -/
theorem tostringId_eq {n : Nat} (h : tostringId n < 2 ^ 31) : tostringId n = n := by
  refine tostringId_of_lt (lt_of_number_lt ?_)
  by_contra hge
  have hpos : 0 ≤ number n := by
    have hmono : number (0 : Nat) ≤ number n := number_mono (by omega)
    rwa [number_of_lt (by decide)] at hmono
  have hlarge : (10 ^ 14 : Int) ≤ Numeral.round 10 14 (number n) := by
    have hmono := Numeral.round_mono (b := 10) (p := 14) (by decide) (by decide)
      (show (10 ^ 14 : Int) ≤ number n by omega)
    have hpower : Numeral.round 10 14 (10 ^ 14) = 10 ^ 14 := by decide +kernel
    omega
  have hid : tostringId n = (Numeral.round 10 14 (number n)).toNat := by
    unfold tostringId tostring
    dsimp only
    split <;> rfl
  omega

end Lua

/-- A JavaScript time value in milliseconds. -/
abbrev DateMs := { t : Int // t.natAbs ≤ 8640000000000000 }

/-- A time in the first hours of 1970. -/
def DateMs.early (ms : Fin 10000000) : DateMs := ⟨ms.val, by omega⟩

instance DateMs.neZero : NeZero 10000000 := ⟨by decide⟩

/-- `getTime().toString()`. -/
def DateMs.text (t : DateMs) : Numeral := .plain t.val

@[simp] theorem DateMs.tonumber_text (t : DateMs) : Lua.tonumber t.text = t.val :=
  Lua.number_of_lt (Nat.lt_of_le_of_lt t.property (by decide))

/-- `users.user_id` is a 32-bit column. -/
abbrev UserId := Fin (2 ^ 31)

instance UserId.neZero : NeZero (2 ^ 31) := ⟨by decide⟩

/-- UUIDs are only told apart. -/
abbrev Uuid := Nat

/-- A SHA-256 digest. Taken as collision-free, it keeps the text it was made from. -/
structure Sha256 where
  preimage : Text
  deriving DecidableEq

inductive AuctionStatus
  | pending | active | sold | ended | cancelled
  deriving DecidableEq, Repr

inductive Operation
  | bid | buyNow | ban | close | cancel
  deriving DecidableEq, Repr

inductive Role
  | user | seller | admin | system
  deriving DecidableEq, Repr

inductive EventType
  | bidAccepted | buyNowCompleted | bidderBanned | auctionClosed | auctionCancelled
  deriving DecidableEq, Repr

/-! ## Commands -/

structure AuctionMutationCommand where
  operation : Operation
  productId : Nat
  actorId : UserId
  actorRole : Role
  idempotencyKey : Text
  correlationId : Text
  amountVnd : Option Text := none
  targetUserId : Option Nat := none
  reason : Option Text := none
  orderId : Option Uuid := none
  now : Option DateMs := none

/-- The JSON payload handed to `auction-mutate.lua`. The lifetimes of the keys
it sets are left to the environment. -/
structure Request where
  operation : Operation
  productId : Nat
  actorId : UserId
  actorRole : Role
  idempotencyKey : Text
  correlationId : Text
  amountVnd : Option MoneyVnd
  targetUserId : Option Nat
  reason : Option Text
  eventId : Uuid
  orderId : Option Uuid
  nowMs : DateMs
  fingerprint : Text
  rateLimit : Nat

/-! ## Events and replies -/

structure AuctionStreamEvent where
  eventId : Uuid
  correlationId : Text
  idempotencyKey : Text
  schemaVersion : Nat
  type : EventType
  productId : Nat
  actorId : Nat
  requestedMaxPriceVnd : Option Nat
  targetUserId : Option Nat
  currentPriceVnd : Nat
  leaderId : Option Nat
  leaderMaxPriceVnd : Option Nat
  endAtMs : Numeral
  status : AuctionStatus
  sequence : Nat
  version : Nat
  occurredAtMs : Numeral
  orderId : Option Uuid
  reason : Option Text
  deriving DecidableEq

/-- The JSON value of `leader_id`: null, or a text that is empty or an id. -/
inductive LeaderJson
  | null
  | text (leader : Option Nat)
  deriving DecidableEq, Repr

structure AuctionMutationData where
  eventId : Uuid
  productId : Nat
  currentPrice : Nat
  leaderId : LeaderJson
  endTimeMs : Numeral
  sequence : Nat
  version : Nat
  orderId : Option Uuid
  deriving DecidableEq, Repr

inductive Reply
  | success (data : AuctionMutationData)
  | error (code message : String) (statusCode : Nat)
  deriving DecidableEq, Repr

/-- The JSON of an idempotency record. -/
structure StoredReply where
  fingerprint : Text
  result : Reply
  deriving DecidableEq

/-! ## Keys of one auction -/

/-- The hash `auction:v1:<id>:state`. -/
structure StateHash where
  productId : Nat
  sellerId : Nat
  status : AuctionStatus
  startAtMs : Numeral
  endAtMs : Numeral
  startPriceVnd : Nat
  currentPriceVnd : Nat
  stepPriceVnd : Nat
  buyNowPriceVnd : Option Nat
  leaderId : Option Nat
  leaderMaxPriceVnd : Option Nat
  sequence : Nat
  version : Nat
  autoExtend : Bool
  antiSnipeWindowMs : Numeral
  antiSnipeExtensionMs : Numeral
  lastEventId : Option Uuid
  deriving DecidableEq

/-- The hashes `maxima` and `rank-members`, the sorted set `ranking`, whose
scores are all zero, and the set `bans`. -/
structure BidSets where
  maxima : Nat → Option Nat
  ranking : SortedSet Text
  rankMembers : Nat → Option Text
  bans : Finset Nat

def BidSets.empty : BidSets := ⟨fun _ => none, .empty, fun _ => none, ∅⟩

/-- What an accepted mutation reads and writes: the state hash, the sets, and
the product's score in the sorted set `auction:v1:deadlines`. -/
structure Auction where
  hash : StateHash
  sets : BidSets
  deadline : Option Int

/-- The state key: absent, a hash without a field the script requires, or whole. -/
inductive StateKey
  | absent
  | incomplete
  | hash (h : StateHash)

/-- The Redis keys that the script is given for one auction. `wrongType` holds
when the `TYPE` of one of them is neither none nor the expected one; `stream`
lists the auction's entries in the order they were added. -/
structure AuctionKeys where
  wrongType : Bool := false
  state : StateKey := .absent
  sets : BidSets := .empty
  deadline : Option Int := none
  idempotency : Sha256 → Option StoredReply := fun _ => none
  legacyIdempotency : Text → Option StoredReply := fun _ => none
  legacyTtlMs : Int := -2
  rate : Nat → Nat := fun _ => 0
  stream : List AuctionStreamEvent := []
  auctionRecoveryFence : Bool := false
  recoveryFence : Bool := false

/-- The auction held by whole keys. -/
def AuctionKeys.auction (k : AuctionKeys) : Option Auction :=
  match k.state with
  | .hash h => some ⟨h, k.sets, k.deadline⟩
  | _ => none

theorem AuctionKeys.state_of_auction {k : AuctionKeys} {a : Auction} (h : k.auction = some a) :
    k.state ≠ .absent := by
  intro habsent
  simp [AuctionKeys.auction, habsent] at h

theorem AuctionKeys.auction_of_absent {k : AuctionKeys} (h : k.state = .absent) :
    k.auction = none := by
  simp [AuctionKeys.auction, h]

end MiracleAuction
