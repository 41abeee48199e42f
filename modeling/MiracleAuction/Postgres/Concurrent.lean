import MiracleAuction.Base.ReadCommitted
import MiracleAuction.Base.Run
import MiracleAuction.Postgres.Leader

/-!
# Concurrent transactions of the PostgreSQL engine

`PlaceBidUseCase`, `BuyNowUseCase` and `BanBidderUseCase` on one auction, statement by
statement: the advisory lock on an idempotency key, the look-up of its stored response, the
lock on the row of the auction, and the writes.
-/
namespace MiracleAuction
namespace Postgres
open Decimal ReadCommitted

/-- `BuyNowInput`, the clock, and the `created_at` of the row that is written. -/
structure BuyNowInput where
  userId : UserId
  buyPriceVnd : Text
  idempotencyKey : Text
  now : DateMs
  createdAt : Int

/-- What `BuyNowUseCase.complete` reads of the input. -/
def BuyNowInput.purchase (input : BuyNowInput) : PlaceBidInput where
  userId := input.userId
  maxPriceVnd := input.buyPriceVnd
  idempotencyKey := input.idempotencyKey
  now := input.now
  createdAt := input.createdAt
  recreatedAt := input.createdAt

def assertBuyNowAvailable (auction : AuctionState) (userId amount : Nat) : Except Failure Unit :=
  if auction.sellerId = userId then reject "Seller cannot buy their own product"
  else
    match auction.buyNowPrice with
    | none => reject "Product is not available for buy now"
    | some price =>
      if amount < price then reject "Product is not available for buy now" else .ok ()

namespace BuyNow
variable (s : State) (input : BuyNowInput)

/-- The checks, then the writes. -/
def decide (auction : AuctionState) (buyPrice : Nat) : Except Failure State := do
  assertAuctionAvailable auction input.now.val
  let eligibility ← s.eligibility input.userId
  assertBidderCanParticipate auction input.userId eligibility
  assertBuyNowAvailable auction input.userId buyPrice
  PlaceBid.complete s input.purchase auction

def fingerprint : Text := digits s.productId ++ ':' :: input.buyPriceVnd

end BuyNow

/-- The PostgreSQL branch of `BuyNowUseCase.execute`. -/
def buyNow (s : State) (input : BuyNowInput) : Except Failure State := do
  let buyPrice ← (parseMoneyVnd input.buyPriceVnd "buy_price").mapError .domain
  let fingerprint := BuyNow.fingerprint s input
  let replay ← s.findIdempotentResponse "buy_now" input.userId input.idempotencyKey fingerprint
  if replay then return s
  let next ← BuyNow.decide s input
      (mapAuctionRow s.productId s.product input.now.val) buyPrice.val
  next.saveIdempotentResponse "buy_now" input.userId input.idempotencyKey fingerprint

/-! ## Statements -/

inductive UseCase
  | bid (input : PlaceBidInput)
  | buyNow (input : BuyNowInput)
  | ban (input : BanInput)

/-- What `lockIdempotencyKey` locks. -/
structure IdempotencyKey where
  operation : String
  userId : Nat
  idempotencyKey : Text
  deriving DecidableEq

namespace UseCase

def now : UseCase → DateMs
  | .bid input => input.now
  | .buyNow input => input.now
  | .ban input => input.now

/-- The key, unless it is empty or the request has none. -/
def key : UseCase → Option IdempotencyKey
  | .bid input =>
    if input.idempotencyKey = [] then none
    else some ⟨"place_bid", input.userId, input.idempotencyKey⟩
  | .buyNow input =>
    if input.idempotencyKey = [] then none
    else some ⟨"buy_now", input.userId, input.idempotencyKey⟩
  | .ban _ => none

/-- The amount, as the client has sent it. -/
def amount : UseCase → Text
  | .bid input => input.maxPriceVnd
  | .buyNow input => input.buyPriceVnd
  | .ban _ => []

/-- `parseMoneyVnd`, before the first statement. -/
def parse : UseCase → Except Failure Nat
  | .bid input => (parseMoneyVnd input.maxPriceVnd "max_price").mapError .domain |>.map Subtype.val
  | .buyNow input =>
    (parseMoneyVnd input.buyPriceVnd "buy_price").mapError .domain |>.map Subtype.val
  | .ban _ => .ok 0

variable (s : State)

def fingerprint (r : UseCase) : Text := digits s.productId ++ ':' :: r.amount

/-- The look-up of the stored response. -/
def replays : UseCase → Except Failure Bool
  | .bid input => s.findIdempotentResponse "place_bid" input.userId input.idempotencyKey
      (PlaceBid.fingerprint s input)
  | .buyNow input => s.findIdempotentResponse "buy_now" input.userId input.idempotencyKey
      (BuyNow.fingerprint s input)
  | .ban _ => .ok false

/-- From the lock on the row on. -/
def execute (amount : Nat) : UseCase → Except Failure State
  | .bid input => do
    let next ← PlaceBid.decide s input (mapAuctionRow s.productId s.product input.now.val) amount
    next.saveIdempotentResponse "place_bid" input.userId input.idempotencyKey
      (PlaceBid.fingerprint s input)
  | .buyNow input => do
    let next ← BuyNow.decide s input (mapAuctionRow s.productId s.product input.now.val) amount
    next.saveIdempotentResponse "buy_now" input.userId input.idempotencyKey
      (BuyNow.fingerprint s input)
  | .ban input => banBidder s input

/-- The transaction alone. -/
def run : UseCase → Except Failure State
  | .bid input => placeBid s input
  | .buyNow input => Postgres.buyNow s input
  | .ban input => banBidder s input

end UseCase

/-- How far a transaction has come. -/
inductive Phase
  | start
  | keyed (amount : Nat)
  | fresh (amount : Nat)
  | locked (amount : Nat)
  | written (amount : Nat)
  | replayed

structure Running where
  request : UseCase
  phase : Phase

inductive Lock
  | key (key : IdempotencyKey)
  | row
  deriving DecidableEq

namespace Running

def statement (p : Running) (d : State) : Option Running :=
  match p.phase with
  | .start => p.request.parse.toOption.map fun amount => { p with phase := .keyed amount }
  | .keyed amount => (p.request.replays d).toOption.map fun replays =>
      { p with phase := if replays then .replayed else .fresh amount }
  | .fresh amount => some { p with phase := .locked amount }
  | .locked amount => (p.request.execute d amount).toOption.map fun _ =>
      { p with phase := .written amount }
  | .written _ | .replayed => none

/-- The data as the transaction has changed them. -/
def view (p : Running) (d : State) : State :=
  match p.phase with
  | .written amount => (p.request.execute d amount).toOption.getD d
  | _ => d

def keyLocks (p : Running) : List Lock := p.request.key.toList.map .key

def locks (p : Running) : List Lock :=
  match p.phase with
  | .start => []
  | .keyed _ | .fresh _ | .replayed => p.keyLocks
  | .locked _ | .written _ => .row :: p.keyLocks

def done (p : Running) : Bool :=
  match p.phase with
  | .written _ | .replayed => true
  | _ => false

end Running

/-- The transactions of the engine, under READ COMMITTED. -/
def engine : Program State Running Lock where
  view := Running.view
  statement := Running.statement
  done := Running.done
  locks := Running.locks

/-- Transactions that are about to begin. -/
def begun {ι : Type*} (requests : ι → UseCase) (d : State) :
    ReadCommitted.State ι State Running where
  data := d
  status i := .running ⟨requests i, .start⟩

section
variable {s s' d : State} {r : UseCase} {p q : Running} {amount : Nat}

/-! ## One transaction -/

theorem decide_ok {input : PlaceBidInput} {auction : AuctionState}
    (h : PlaceBid.decide s input auction amount = .ok s') :
    assertAuctionAvailable auction input.now.val = .ok () ∧
      (PlaceBid.complete s input auction = .ok s' ∨
        PlaceBid.proxy s input auction amount = .ok s') := by
  unfold PlaceBid.decide at h
  obtain ⟨⟨⟩, havailable, h⟩ := Except.bind_eq_ok h
  obtain ⟨eligibility, -, h⟩ := Except.bind_eq_ok h
  obtain ⟨⟨⟩, -, h⟩ := Except.bind_eq_ok h
  obtain ⟨⟨⟩, -, h⟩ := Except.bind_eq_ok h
  split at h
  · exact ⟨havailable, .inl h⟩
  · exact ⟨havailable, .inr h⟩

/-- A purchase. -/
theorem BuyNow.decide_ok {input : BuyNowInput} {auction : AuctionState}
    (h : BuyNow.decide s input auction amount = .ok s') :
    assertAuctionAvailable auction input.now.val = .ok () ∧
      PlaceBid.complete s input.purchase auction = .ok s' := by
  unfold BuyNow.decide at h
  obtain ⟨⟨⟩, havailable, h⟩ := Except.bind_eq_ok h
  obtain ⟨eligibility, -, h⟩ := Except.bind_eq_ok h
  obtain ⟨⟨⟩, -, h⟩ := Except.bind_eq_ok h
  obtain ⟨⟨⟩, -, h⟩ := Except.bind_eq_ok h
  exact ⟨havailable, h⟩

/-- The row that an accepted request stores. -/
def UseCase.stored (s : State) (r : UseCase) : List IdempotencyRow :=
  r.key.toList.map fun key =>
    ⟨key.operation, key.userId, key.idempotencyKey, r.fingerprint s⟩

theorem saves {operation : String} {userId : Nat} {key fingerprint : Text}
    (h : s.saveIdempotentResponse operation userId key fingerprint = .ok s') :
    s' = { s with idempotency := s.idempotency ++
      if key = [] then [] else [⟨operation, userId, key, fingerprint⟩] } := by
  unfold State.saveIdempotentResponse at h
  split at h
  · cases h
    simp [*]
  · split at h
    · cases h
    · cases h
      simp [*]

theorem execute_ok (h : r.execute s amount = .ok s') :
    s'.productId = s.productId ∧ s'.idempotency = s.idempotency ++ r.stored s := by
  cases r with
  | bid input =>
    obtain ⟨next, hdecide, h⟩ := Except.bind_eq_ok h
    have hsame : next.productId = s.productId ∧ next.idempotency = s.idempotency := by
      obtain ⟨-, hcomplete | hproxy⟩ := decide_ok hdecide
      · obtain ⟨_, _, _, _, rfl, _⟩ := complete_ok hcomplete
        exact ⟨rfl, rfl⟩
      · obtain ⟨_, _, _, rfl, _⟩ := proxy_ok hproxy
        exact ⟨rfl, rfl⟩
    rw [saves h]
    refine ⟨hsame.1, ?_⟩
    unfold UseCase.stored UseCase.key
    dsimp only
    rw [hsame.2]
    split <;> rfl
  | buyNow input =>
    obtain ⟨next, hdecide, h⟩ := Except.bind_eq_ok h
    obtain ⟨_, _, _, _, rfl, _⟩ := complete_ok (BuyNow.decide_ok hdecide).2
    rw [saves h]
    refine ⟨rfl, ?_⟩
    unfold UseCase.stored UseCase.key
    dsimp only
    split <;> rfl
  | ban input =>
    have hstored : (UseCase.ban input).stored s = [] := rfl
    rw [hstored, List.append_nil]
    rw [banBidder_ok h]
    exact ⟨rfl, rfl⟩

/-- The transaction alone looks up a stored response, then executes. -/
theorem run_eq_ok_iff : r.run s = .ok s' ↔ ∃ amount, r.parse = .ok amount ∧
    (r.replays s = .ok true ∧ s' = s ∨ r.replays s = .ok false ∧
      r.execute s amount = .ok s') := by
  have hsplit : r.run s = (do
      let amount ← r.parse
      let replay ← r.replays s
      if replay then return s
      r.execute s amount) := by
    cases r with
    | ban input => rfl
    | bid input =>
      simp only [UseCase.run, placeBid, UseCase.parse, UseCase.replays, UseCase.execute]
      cases (parseMoneyVnd input.maxPriceVnd "max_price").mapError Failure.domain <;> rfl
    | buyNow input =>
      simp only [UseCase.run, buyNow, UseCase.parse, UseCase.replays, UseCase.execute]
      cases (parseMoneyVnd input.buyPriceVnd "buy_price").mapError Failure.domain <;> rfl
  rw [hsplit]
  constructor
  · intro h
    obtain ⟨amount, hparse, h⟩ := Except.bind_eq_ok h
    obtain ⟨replay, hreplay, h⟩ := Except.bind_eq_ok h
    refine ⟨amount, hparse, ?_⟩
    cases replay with
    | true =>
      cases h
      exact .inl ⟨hreplay, rfl⟩
    | false => exact .inr ⟨hreplay, h⟩
  · rintro ⟨amount, hparse, ⟨hreplay, rfl⟩ | ⟨hreplay, h⟩⟩
    · rw [hparse, hreplay]
      rfl
    · rw [hparse, hreplay]
      exact h

/-! ## Stored responses -/

/-- `findUnique` of a stored response. -/
def State.lookup (s : State) (key : IdempotencyKey) : Option IdempotencyRow :=
  s.idempotency.find? fun row => row.operation = key.operation ∧ row.userId = key.userId ∧
    row.idempotencyKey = key.idempotencyKey

theorem findIdempotentResponse_of_key {operation : String} {userId : Nat} {key fingerprint : Text}
    (hkey : key ≠ []) : s.findIdempotentResponse operation userId key fingerprint =
      match s.lookup ⟨operation, userId, key⟩ with
      | none => .ok false
      | some row =>
        if row.requestFingerprint ≠ fingerprint then
          .error (.domain ⟨"Idempotency key was already used for a different request", 400,
            "BID_REJECTED"⟩)
        else .ok true := by
  have hlookup : s.lookup ⟨operation, userId, key⟩ = s.idempotency.find? fun row =>
      key ≠ [] ∧ row.operation = operation ∧ row.userId = userId ∧
        row.idempotencyKey = key := by
    unfold State.lookup
    simp only [hkey, ne_eq, not_false_eq_true, true_and]
  rw [hlookup]
  rfl

theorem findIdempotentResponse_of_empty {operation : String} {userId : Nat} {fingerprint : Text} :
    s.findIdempotentResponse operation userId [] fingerprint = .ok false := by
  have hnone : s.idempotency.find? (fun _ => false) = none := List.find?_eq_none.mpr (by simp)
  unfold State.findIdempotentResponse
  simp [hnone]

/-- A request's key, and what is stored for it. -/
theorem replays_eq : r.replays s =
    match r.key with
    | none => .ok false
    | some key =>
      match s.lookup key with
      | none => .ok false
      | some row =>
        if row.requestFingerprint ≠ r.fingerprint s then
          .error (.domain ⟨"Idempotency key was already used for a different request", 400,
            "BID_REJECTED"⟩)
        else .ok true := by
  cases r with
  | ban input => rfl
  | bid input =>
    unfold UseCase.replays UseCase.key
    dsimp only
    by_cases hkey : input.idempotencyKey = []
    · rw [if_pos hkey, hkey]
      exact findIdempotentResponse_of_empty
    · rw [if_neg hkey]
      exact findIdempotentResponse_of_key hkey
  | buyNow input =>
    unfold UseCase.replays UseCase.key
    dsimp only
    by_cases hkey : input.idempotencyKey = []
    · rw [if_pos hkey, hkey]
      exact findIdempotentResponse_of_empty
    · rw [if_neg hkey]
      exact findIdempotentResponse_of_key hkey

theorem replays_iff : r.replays s = .ok true ↔ ∃ key row, r.key = some key ∧
    s.lookup key = some row ∧ row.requestFingerprint = r.fingerprint s := by
  rw [replays_eq]
  cases hkey : r.key with
  | none => simp
  | some key =>
    cases hrow : s.lookup key with
    | none => simp [hrow]
    | some row =>
      dsimp only
      by_cases hsame : row.requestFingerprint = r.fingerprint s <;> simp [hrow, hsame]

theorem not_replays_iff :
    r.replays s = .ok false ↔ ∀ key, r.key = some key → s.lookup key = none := by
  rw [replays_eq]
  cases hkey : r.key with
  | none => simp
  | some key =>
    cases hrow : s.lookup key with
    | none => simp [hrow]
    | some row =>
      dsimp only
      by_cases hsame : row.requestFingerprint = r.fingerprint s <;> simp [hrow, hsame]

/-- What an accepted request stores is found after it. -/
theorem lookup_execute {key : IdempotencyKey} (h : r.execute s amount = .ok s') :
    s'.lookup key = (s.lookup key).or
      (if r.key = some key then
        some ⟨key.operation, key.userId, key.idempotencyKey, r.fingerprint s⟩
      else none) := by
  unfold State.lookup
  rw [(execute_ok h).2, List.find?_append]
  congr 1
  unfold UseCase.stored
  cases hkey : r.key with
  | none => simp
  | some other =>
    obtain ⟨operation, userId, idempotencyKey⟩ := key
    obtain ⟨operation', userId', idempotencyKey'⟩ := other
    by_cases heq : operation' = operation ∧ userId' = userId ∧ idempotencyKey' = idempotencyKey
    · obtain ⟨rfl, rfl, rfl⟩ := heq
      simp
    · simp [heq]

/-! ## Interleavings -/

/-- What a transaction has found out of the data stays true until it ends. -/
def Running.Sound (p : Running) (d : State) : Prop :=
  match p.phase with
  | .start => True
  | .keyed amount => p.request.parse = .ok amount
  | .fresh amount | .locked amount =>
    p.request.parse = .ok amount ∧ p.request.replays d = .ok false
  | .written amount =>
    p.request.parse = .ok amount ∧ p.request.replays d = .ok false ∧
      ∃ d', p.request.execute d amount = .ok d'
  | .replayed => ∃ amount, p.request.parse = .ok amount ∧ p.request.replays d = .ok true

theorem exists_of_toOption {α : Type} {x : Except Failure α} {a : α} (h : x.toOption = some a) :
    x = .ok a := by
  cases x with
  | error => cases h
  | ok b => exact congrArg Except.ok (Option.some.inj h)

theorem sound_statement (hp : p.Sound d) (h : engine.statement p (engine.view p d) = some q) :
    q.Sound d := by
  obtain ⟨request, phase⟩ := p
  dsimp only [engine, Running.statement, Running.view] at h
  cases phase with
  | start =>
    obtain ⟨amount, hparse, rfl⟩ := Option.map_eq_some_iff.mp h
    exact exists_of_toOption hparse
  | keyed amount =>
    obtain ⟨replays, hreplays, rfl⟩ := Option.map_eq_some_iff.mp h
    have hreplays := exists_of_toOption hreplays
    cases replays with
    | true => exact ⟨amount, hp, hreplays⟩
    | false => exact ⟨hp, hreplays⟩
  | fresh amount =>
    cases h
    exact hp
  | locked amount =>
    obtain ⟨d', hd', rfl⟩ := Option.map_eq_some_iff.mp h
    exact ⟨hp.1, hp.2, d', exists_of_toOption hd'⟩
  | written amount => cases h
  | replayed => cases h

theorem view_written {amount : Nat} (hphase : p.phase = .written amount)
    (h : p.request.execute d amount = .ok s') : p.view d = s' := by
  unfold Running.view
  rw [hphase]
  dsimp only
  rw [h]
  rfl

theorem sound_commit (hp : p.Sound d) (hdone : engine.done p) :
    (p.request.run d).toOption = some (engine.view p d) := by
  obtain ⟨request, phase⟩ := p
  dsimp only [engine, Running.done] at hdone
  cases phase with
  | written amount =>
    obtain ⟨hparse, hreplays, d', hd'⟩ := hp
    have hview : engine.view ⟨request, .written amount⟩ d = d' := view_written rfl hd'
    rw [hview, run_eq_ok_iff.mpr ⟨amount, hparse, .inr ⟨hreplays, hd'⟩⟩]
    rfl
  | replayed =>
    obtain ⟨amount, hparse, hreplays⟩ := hp
    rw [run_eq_ok_iff.mpr ⟨amount, hparse, .inl ⟨hreplays, rfl⟩⟩]
    rfl
  | _ => cases hdone

/-- No other transaction with the key runs, and no other holds the row. -/
theorem apart_written {amount : Nat} (hapart : engine.Apart p q) (hp : p.phase = .written amount)
    (hq : q.phase ≠ .start) :
    (∀ key, q.request.key = some key → p.request.key ≠ some key) ∧
      ¬ (Lock.row ∈ q.locks) := by
  have hlocks : p.locks = .row :: p.keyLocks := by
    unfold Running.locks
    rw [hp]
  constructor
  · intro key hkey hpkey
    have hin : Lock.key key ∈ p.locks := by
      rw [hlocks]
      exact List.mem_cons_of_mem _ (by simp [Running.keyLocks, hpkey])
    refine hapart _ hin ?_
    have hother : Lock.key key ∈ q.keyLocks := by simp [Running.keyLocks, hkey]
    dsimp only [engine]
    unfold Running.locks
    split
    · contradiction
    · exact hother
    · exact hother
    · exact hother
    · exact List.mem_cons_of_mem _ hother
    · exact List.mem_cons_of_mem _ hother
  · have hin : Lock.row ∈ p.locks := by
      rw [hlocks]
      exact List.mem_cons_self
    exact hapart _ hin

theorem replays_of_execute {r' : UseCase} (h : r'.execute s amount = .ok s')
    (hr : r.replays s = .ok true) : r.replays s' = .ok true := by
  obtain ⟨key, row, hkey, hrow, hsame⟩ := replays_iff.mp hr
  refine replays_iff.mpr ⟨key, row, hkey, by rw [lookup_execute h, hrow, Option.some_or], ?_⟩
  unfold UseCase.fingerprint at hsame ⊢
  rw [(execute_ok h).1]
  exact hsame

theorem not_replays_of_execute {r' : UseCase} (h : r'.execute s amount = .ok s')
    (hkey : ∀ key, r.key = some key → r'.key ≠ some key) (hr : r.replays s = .ok false) :
    r.replays s' = .ok false := by
  refine not_replays_iff.mpr fun key hk => ?_
  rw [lookup_execute h, not_replays_iff.mp hr key hk, if_neg (hkey key hk)]
  rfl

theorem sound_stable (hp : p.Sound d) (hq : q.Sound d) (hdone : engine.done p)
    (hapart : engine.Apart p q) : q.Sound (engine.view p d) := by
  obtain ⟨r', phase⟩ := p
  dsimp only [engine, Running.done] at hdone
  cases phase with
  | replayed => exact hq
  | written amount =>
    obtain ⟨-, -, d', hd'⟩ := hp
    have hview : engine.view ⟨r', .written amount⟩ d = d' := view_written rfl hd'
    rw [hview]
    obtain ⟨request, phase⟩ := q
    cases phase with
    | start => trivial
    | keyed amount => exact hq
    | fresh amount =>
      exact ⟨hq.1, not_replays_of_execute hd' (apart_written hapart rfl (by simp)).1 hq.2⟩
    | replayed =>
      obtain ⟨amount, hparse, hreplays⟩ := hq
      exact ⟨amount, hparse, replays_of_execute hd' hreplays⟩
    | locked amount => exact absurd List.mem_cons_self (apart_written hapart rfl (by simp)).2
    | written amount => exact absurd List.mem_cons_self (apart_written hapart rfl (by simp)).2
  | _ => cases hdone

variable {ι : Type*} [DecidableEq ι] {requests : ι → UseCase}
  {t u : ReadCommitted.State ι State Running} {as bs : List (Move ι)}

/-- The effect of a request whose transaction runs alone. -/
def UseCase.effect (r : UseCase) (s : State) : Option State := (r.run s).toOption

theorem statement_request {d : State} (h : engine.statement p d = some q) :
    q.request = p.request := by
  obtain ⟨request, phase⟩ := p
  dsimp only [engine, Running.statement] at h
  cases phase with
  | start =>
    obtain ⟨_, _, rfl⟩ := Option.map_eq_some_iff.mp h
    rfl
  | keyed amount =>
    obtain ⟨_, _, rfl⟩ := Option.map_eq_some_iff.mp h
    rfl
  | fresh amount =>
    cases h
    rfl
  | locked amount =>
    obtain ⟨_, _, rfl⟩ := Option.map_eq_some_iff.mp h
    rfl
  | written amount => cases h
  | replayed => cases h

omit [DecidableEq ι] in
theorem begun_intact : Intact engine (fun _ => True) Running.Sound (begun requests s) where
  data := trivial
  running i p hp := by
    cases hp
    trivial
  apart i j p q _ hp hq := by
    cases hp
    intro key hkey
    cases hkey

omit [DecidableEq ι] in
theorem begun_requested : Requested Running.request requests (begun requests s) := by
  intro i p hp
  cases hp
  rfl

/-- Any part of a run is serial as well. -/
theorem serialize_from (h : Run (Step engine) (begun requests s) as t)
    (h' : Run (Step engine) t bs u) :
    Run (StepOf fun s i => (requests i).effect s) t.data (committed bs) u.data := by
  have hintact : Intact engine (fun _ => True) Running.Sound t :=
    intact_run (fun _ _ _ _ => sound_statement) (fun _ _ _ _ _ => trivial)
      (fun _ _ _ _ => sound_stable) h begun_intact
  have hrequested : Requested Running.request requests t :=
    h.preserves (fun _ _ _ => requested_step fun _ _ _ => statement_request) begun_requested
  exact serial_run (fun _ _ _ => statement_request)
    (fun _ _ _ => sound_statement) (fun _ _ => sound_commit) (fun _ _ _ => sound_stable) h'
    hintact hrequested

/-- Whatever the order of their statements, the transactions that commit do what they would
do one after another, in the order of their commits. -/
theorem transactions_serialize (h : Run (Step engine) (begun requests s) as t) :
    Run (StepOf fun s i => (requests i).effect s) s (committed as) t.data :=
  serialize_from (.refl _) h

end

end Postgres

end MiracleAuction
