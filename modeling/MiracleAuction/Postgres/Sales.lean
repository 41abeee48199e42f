import MiracleAuction.Postgres.Concurrent

/-!
# Sales of the PostgreSQL engine

What concurrent bids, purchases and bans cannot do to an auction: apply a request twice, or
change what was sold.
-/
namespace MiracleAuction
namespace Postgres
open Decimal ReadCommitted

section
variable {s s' : State} {r : UseCase} {amount : Nat} {key : IdempotencyKey} {buyer : Nat}

theorem effect_ok (h : r.effect s = some s') : r.run s = .ok s' := exists_of_toOption h

/-! ## Requests that are repeated -/

/-- The response to a request with this key and amount is stored. -/
def State.Answers (s : State) (key : IdempotencyKey) (amount : Text) : Prop :=
  ∃ row, s.lookup key = some row ∧ row.requestFingerprint = digits s.productId ++ ':' :: amount

theorem answers_effect (h : r.effect s = some s') (hkey : r.key = some key) :
    s'.Answers key r.amount := by
  obtain ⟨n, -, ⟨hreplays, rfl⟩ | ⟨hnot, hexecute⟩⟩ := run_eq_ok_iff.mp (effect_ok h)
  · obtain ⟨other, row, hother, hrow, hsame⟩ := replays_iff.mp hreplays
    obtain rfl : key = other := Option.some.inj (hkey.symm.trans hother)
    exact ⟨row, hrow, hsame⟩
  · have hnone := not_replays_iff.mp hnot key hkey
    refine ⟨_, by rw [lookup_execute hexecute, hnone, if_pos hkey, Option.none_or], ?_⟩
    rw [(execute_ok hexecute).1]
    rfl

theorem answers_step {text : Text} (hs : s.Answers key text) (h : r.effect s = some s') :
    s'.Answers key text := by
  obtain ⟨n, -, ⟨-, rfl⟩ | ⟨-, hexecute⟩⟩ := run_eq_ok_iff.mp (effect_ok h)
  · exact hs
  · obtain ⟨row, hrow, hsame⟩ := hs
    refine ⟨row, by rw [lookup_execute hexecute, hrow, Option.some_or], ?_⟩
    rw [(execute_ok hexecute).1]
    exact hsame

/-- A key that is answered is replayed, for the same amount only. -/
theorem replayed_of_answers {text : Text} (hs : s.Answers key text) (h : r.effect s = some s')
    (hkey : r.key = some key) : s' = s ∧ r.amount = text := by
  obtain ⟨row, hrow, hsame⟩ := hs
  obtain ⟨n, -, ⟨hreplays, rfl⟩ | ⟨hnot, -⟩⟩ := run_eq_ok_iff.mp (effect_ok h)
  · obtain ⟨other, row', hother, hrow', hsame'⟩ := replays_iff.mp hreplays
    obtain rfl : key = other := Option.some.inj (hkey.symm.trans hother)
    obtain rfl : row = row' := Option.some.inj (hrow.symm.trans hrow')
    have htail := List.append_cancel_left (hsame'.symm.trans hsame)
    exact ⟨rfl, (List.cons.inj htail).2⟩
  · rw [not_replays_iff.mp hnot key hkey] at hrow
    cases hrow

/-! ## Sales -/

/-- The auction is sold, and over at a time. -/
structure Sold (s : State) (buyer : Nat) (time : Int) : Prop where
  order : s.order = some buyer
  owner : s.product.priceOwnerId = some buyer
  price : s.product.currentPrice = s.product.buyNowPrice
  closed : ∃ endTime, s.product.endTime = some endTime ∧ endTime.val ≤ time

def Bid.unmarked (row : Bid) : Bid := { row with banned := false }

/-- Nothing is changed but for the marks of bans. -/
structure Settled (s s' : State) : Prop where
  product : s'.product = s.product
  order : s'.order = s.order
  history : s'.history.map Bid.unmarked = s.history.map Bid.unmarked

theorem Settled.refl (s : State) : Settled s s := ⟨rfl, rfl, rfl⟩

theorem Settled.trans {s'' : State} (h : Settled s s') (h' : Settled s' s'') : Settled s s'' :=
  ⟨h'.product.trans h.product, h'.order.trans h.order, h'.history.trans h.history⟩

theorem Settled.sold {time : Int} (h : Settled s s') (hs : Sold s buyer time) :
    Sold s' buyer time :=
  ⟨h.order.trans hs.order, by rw [h.product]; exact hs.owner, by rw [h.product]; exact hs.price,
    by rw [h.product]; exact hs.closed⟩

theorem settled_ban {input : BanInput} (h : banBidder s input = .ok s') : Settled s s' := by
  rw [banBidder_ok h]
  refine ⟨rfl, rfl, ?_⟩
  rw [List.map_map]
  refine List.map_congr_left fun row _ => ?_
  dsimp only [Function.comp_apply]
  split <;> rfl

/-- What follows the look-up, but for the stored response. -/
inductive Executed (s : State) (r : UseCase) (s' : State) : Prop
  | banned (h : Settled s s')
  | proxied (hopen : assertAuctionAvailable (mapAuctionRow s.productId s.product r.now.val)
      r.now.val = .ok ()) (horder : s'.order = s.order)
  | sold (buyer : Nat) (hopen : assertAuctionAvailable
      (mapAuctionRow s.productId s.product r.now.val) r.now.val = .ok ())
      (h : Sold s' buyer r.now.val)

theorem sold_of_complete {input : PlaceBidInput}
    (h : PlaceBid.complete s input (mapAuctionRow s.productId s.product input.now.val) = .ok s') :
    Sold s' input.userId input.now.val := by
  unfold PlaceBid.complete at h
  split at h
  · cases h
  rename_i price hprice
  obtain ⟨updated, hupdate, h⟩ := Except.bind_eq_ok h
  unfold State.updateAuction at hupdate
  split at hupdate
  · cases hupdate
  dsimp only at hupdate
  split at hupdate
  · cases hupdate
    unfold State.createOrder at h
    split at h
    · cases h
      exact ⟨rfl, rfl, hprice.symm, _, rfl, le_rfl⟩
    · cases h
  · cases hupdate

theorem Sold.save {operation : String} {userId : Nat} {idempotencyKey fingerprint : Text}
    {time : Int} (hs : Sold s buyer time)
    (h : s.saveIdempotentResponse operation userId idempotencyKey fingerprint = .ok s') :
    Sold s' buyer time := by
  rw [saves h]
  exact ⟨hs.order, hs.owner, hs.price, hs.closed⟩

theorem executed_of_ok (h : r.execute s amount = .ok s') : Executed s r s' := by
  cases r with
  | ban input => exact .banned (settled_ban h)
  | bid input =>
    obtain ⟨next, hdecide, hsave⟩ := Except.bind_eq_ok h
    obtain ⟨hopen, hcomplete | hproxy⟩ := decide_ok hdecide
    · exact .sold input.userId hopen ((sold_of_complete hcomplete).save hsave)
    · obtain ⟨_, _, _, rfl, _⟩ := proxy_ok hproxy
      exact .proxied hopen (by rw [saves hsave])
  | buyNow input =>
    obtain ⟨next, hdecide, hsave⟩ := Except.bind_eq_ok h
    obtain ⟨hopen, hcomplete⟩ := BuyNow.decide_ok hdecide
    exact .sold input.userId hopen (Sold.save (sold_of_complete hcomplete) hsave)

/-- An auction that is over takes no bid and no purchase. -/
theorem settled_step {time : Int} (hs : Sold s buyer time) (hlate : time ≤ r.now.val)
    (h : r.effect s = some s') : Settled s s' := by
  have hclosed : assertAuctionAvailable (mapAuctionRow s.productId s.product r.now.val)
      r.now.val ≠ .ok () := by
    obtain ⟨endTime, hend, hle⟩ := hs.closed
    unfold assertAuctionAvailable
    rw [if_pos]
    · simp [reject]
    · refine .inr (.inr (.inr ?_))
      unfold mapAuctionRow
      rw [hend]
      exact hle.trans hlate
  obtain ⟨n, -, ⟨-, rfl⟩ | ⟨-, hexecute⟩⟩ := run_eq_ok_iff.mp (effect_ok h)
  · exact .refl _
  · cases executed_of_ok hexecute with
    | banned h => exact h
    | proxied hopen => exact absurd hopen hclosed
    | sold _ hopen => exact absurd hopen hclosed

theorem sold_or_open (hs : s.order = none) (h : r.effect s = some s') :
    s'.order = none ∨ ∃ buyer, Sold s' buyer r.now.val := by
  obtain ⟨n, -, ⟨-, rfl⟩ | ⟨-, hexecute⟩⟩ := run_eq_ok_iff.mp (effect_ok h)
  · exact .inl hs
  · cases executed_of_ok hexecute with
    | banned h => exact .inl (h.order.trans hs)
    | proxied _ horder => exact .inl (horder.trans hs)
    | sold buyer _ h => exact .inr ⟨buyer, h⟩

variable {ι : Type*} [DecidableEq ι] {requests : ι → UseCase}
  {t u : ReadCommitted.State ι State Running} {as bs : List (Move ι)} {i j : ι} {is : List ι}

omit [DecidableEq ι] in
theorem settled_run {time : Int} (h : Run (StepOf fun s i => (requests i).effect s) s is s')
    (hs : Sold s buyer time) (hlate : ∀ i ∈ is, time ≤ (requests i).now.val) :
    Settled s s' := by
  induction h with
  | refl s => exact .refl s
  | @cons s₁ s₂ s₃ i is hstep hr ih =>
    have hsettled := settled_step hs (hlate i List.mem_cons_self) hstep
    exact hsettled.trans (ih (hsettled.sold hs) fun j hj => hlate j (List.mem_cons_of_mem _ hj))

omit [DecidableEq ι] in
/-- Of a serial run, a sale was made by one of its requests. -/
theorem sold_run (h : Run (StepOf fun s i => (requests i).effect s) s is s')
    (hs : s.order = none)
    (hclock : is.Pairwise fun i j => (requests i).now.val ≤ (requests j).now.val) :
    s'.order = none ∨ ∃ buyer, ∃ i ∈ is, Sold s' buyer (requests i).now.val := by
  induction h with
  | refl s => exact .inl hs
  | @cons s₁ s₂ s₃ i is hstep hr ih =>
    obtain ⟨hlate, hclock⟩ := List.pairwise_cons.mp hclock
    obtain hopen | ⟨buyer, hsold⟩ := sold_or_open hs hstep
    · obtain hopen | ⟨buyer, j, hj, hsold⟩ := ih hopen hclock
      · exact .inl hopen
      · exact .inr ⟨buyer, j, List.mem_cons_of_mem _ hj, hsold⟩
    · exact .inr ⟨buyer, i, List.mem_cons_self, (settled_run hr hsold hlate).sold hsold⟩

/-! ## Interleavings -/

/-- Of the transactions with one idempotency key the first that commits has an effect: a later
one changes nothing, and commits for the same amount only. -/
theorem key_takes_effect_once (h : Run (Step engine) (begun requests s) as t)
    (hi : Move.commit i ∈ as) (hikey : (requests i).key = some key)
    (hstep : Step engine t (.commit j) u) (hjkey : (requests j).key = some key) :
    u.data = t.data ∧ (requests j).amount = (requests i).amount := by
  obtain ⟨before, after, rfl⟩ := List.append_of_mem hi
  obtain ⟨v, hbefore, hafter⟩ := Run.split h
  have hserial := serialize_from hbefore hafter
  have hlast := serialize_from h (.cons hstep (.refl u))
  have hanswers : t.data.Answers key (requests i).amount := by
    cases hserial with
    | cons heffect hrest =>
      exact hrest.preserves (I := fun d => d.Answers key (requests i).amount)
        (fun _ _ _ hstep hs => answers_step hs hstep) (answers_effect heffect hikey)
  cases hlast with
  | cons heffect hnil =>
    cases hnil
    exact replayed_of_answers hanswers heffect hjkey

/-- A sale is final: once an interleaving of bids, purchases and bans has sold the auction, at
its buy-now price and to the owner of that price, the rest of it changes neither the product
nor the order, and adds no bid. -/
theorem sale_is_final (h : Run (Step engine) (begun requests s) as t)
    (h' : Run (Step engine) t bs u) (hopen : s.order = none)
    (hclock : (committed (as ++ bs)).Pairwise fun i j =>
      (requests i).now.val ≤ (requests j).now.val)
    (hsold : t.data.order = some buyer) :
    (∃ time, Sold t.data buyer time) ∧ Settled t.data u.data := by
  rw [committed_append] at hclock
  obtain ⟨hbefore, -, hafter⟩ := List.pairwise_append.mp hclock
  obtain hnone | ⟨other, i, hi, hother⟩ := sold_run (transactions_serialize h) hopen hbefore
  · rw [hnone] at hsold
    cases hsold
  · obtain rfl : other = buyer := Option.some.inj (hother.order.symm.trans hsold)
    exact ⟨⟨_, hother⟩, settled_run (serialize_from h h') hother fun j hj =>
      hafter i hi j hj⟩

end

namespace Sample

def purchase (ms : Fin 10000000) : BuyNowInput :=
  { userId := 3
    buyPriceVnd := "1000".toList
    idempotencyKey := "b".toList
    now := .early ms
    createdAt := ms.val }

def banOfBidder : BanInput :=
  { actorId := 9
    actorRole := .seller
    bannedUserId := 2
    reason := []
    now := .early 500 }

theorem one_lt : 1 < 1000 := by decide

/-- Bidder 3 buys after bidder 2 has bid, and again; then bidder 2 is banned. -/
def requests (i : Fin 4) : UseCase :=
  [UseCase.bid (bid 1 one_lt 2 "200" 1), .buyNow (purchase 2), .buyNow (purchase 3),
    .ban banOfBidder].get i

/-- Up to the purchase. -/
def sale : List (Move (Fin 4)) :=
  [.statement 0, .statement 1, .statement 0, .statement 1, .statement 0, .statement 0, .commit 0,
    .statement 1, .statement 1, .statement 3, .commit 1]

def afterwards : List (Move (Fin 4)) :=
  [.statement 2, .statement 3, .statement 2]

def rest : List (Move (Fin 4)) :=
  [.commit 2, .statement 3, .statement 3, .commit 3]

def reached (moves : List (Move (Fin 4))) : ReadCommitted.State (Fin 4) State Running :=
  Run.final (State.next engine) (begun requests start) moves

theorem run_reached (moves : List (Move (Fin 4)))
    (h : (moves.foldlM (State.next engine) (begun requests start)).isSome) :
    Run (Step engine) (begun requests start) moves (reached moves) := run_final h

end Sample

theorem transactions_serialize_sample :
    Run (StepOf fun s i => (Sample.requests i).effect s) Sample.start [0, 1, 2, 3]
      (Sample.reached (Sample.sale ++ Sample.afterwards ++ Sample.rest)).data :=
  transactions_serialize (Sample.run_reached (Sample.sale ++ Sample.afterwards ++ Sample.rest)
    (by decide +kernel))

theorem key_takes_effect_once_sample :
    ∃ u, Step engine (Sample.reached (Sample.sale ++ Sample.afterwards)) (.commit 2) u ∧
      u.data = (Sample.reached (Sample.sale ++ Sample.afterwards)).data ∧
        (Sample.requests 2).amount = (Sample.requests 1).amount := by
  have hsome : ((Sample.reached (Sample.sale ++ Sample.afterwards)).next engine
      (.commit 2)).isSome := by decide +kernel
  obtain ⟨u, hu⟩ := Option.isSome_iff_exists.mp hsome
  exact ⟨u, step_of_next hu, key_takes_effect_once (Sample.run_reached _ (by decide +kernel))
    (by decide) rfl (step_of_next hu) rfl⟩

theorem sale_is_final_sample :
    (∃ time, Sold (Sample.reached Sample.sale).data 3 time) ∧
      Settled (Sample.reached Sample.sale).data
        (Run.final (State.next engine) (Sample.reached Sample.sale)
          (Sample.afterwards ++ Sample.rest)).data :=
  sale_is_final (Sample.run_reached _ (by decide +kernel)) (run_final (by decide +kernel)) rfl
    (by decide +kernel) (by decide +kernel)

end Postgres

end MiracleAuction
