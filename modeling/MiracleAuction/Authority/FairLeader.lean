import MiracleAuction.Authority.Invariant
import MiracleAuction.Base.FirstMax

/-!
# Who leads

The book lists the standing maxima in the order in which they were placed. Its
first greatest entry should lead. Bids keep to that; a ban of the leader elects
by the ranking, which breaks ties by bidder and knows no time.
-/
namespace MiracleAuction
open Decimal

/-- Bidders and their maxima, in the order in which the maxima were placed. -/
abbrev Book := List (Nat × Nat)

namespace Book

/-- The book without a bidder. -/
def without (u : Nat) (book : Book) : Book := book.filter fun entry => entry.1 ≠ u

/-- A bid moves its bidder to the end, a ban strikes its target out. -/
def place (book : Book) (req : Request) : Book :=
  match req.operation, req.banTargetId with
  | .bid, _ => book.without req.actor ++ [(req.actor, req.amount)]
  | .ban, some target => book.without target
  | _, _ => book

/-- The bidder with the greatest maximum, the earliest one among equals. -/
def leader (book : Book) : Option Nat := (book.argmax Prod.snd).map Prod.fst

variable {book : Book} {u v m : Nat}

@[simp] theorem mem_without : (u, m) ∈ book.without v ↔ (u, m) ∈ book ∧ u ≠ v := by
  simp [without]

end Book

/-- The book lists the maxima of the auction. -/
def Lists (book : Book) (s : BidSets) : Prop := ∀ u m, (u, m) ∈ book ↔ s.maxima u = some m

namespace Lists
variable {book : Book} {s : BidSets} {u amount target : Nat}

theorem bid (h : Lists book s) {s' : BidSets}
    (hs' : s'.maxima = Function.update s.maxima u (some amount)) :
    Lists (book.without u ++ [(u, amount)]) s' := by
  intro w p
  rw [hs', List.mem_append, Book.mem_without, List.mem_singleton, Prod.mk.injEq, h]
  by_cases hwu : w = u
  · subst w
    simp [eq_comm]
  · simp [hwu]

theorem ban (h : Lists book s) {s' : BidSets}
    (hs' : s'.maxima = Function.update s.maxima target none) : Lists (book.without target) s' := by
  intro w p
  rw [hs', Book.mem_without, h]
  by_cases hwt : w = target
  · subst w
    simp
  · simp [hwt]

end Lists

/-- The auction is led by the bidder whom the book puts first. -/
structure FairLeader (book : Book) (a : Auction) : Prop where
  lists : Lists book a.sets
  barred : ∀ entry ∈ book, entry.1 ∉ a.sets.bans
  leads : a.hash.leaderId = book.leader

/-- An auction and the book of its accepted requests. -/
def Book.next (s : Auction × Book) (req : Request) : Option (Auction × Book) :=
  (Script.next s.1 req).map fun a => (a, s.2.place req)

def BookStep (s : Auction × Book) (req : Request) (s' : Auction × Book) : Prop :=
  Book.next s req = some s'

theorem bookStep_iff {s s' : Auction × Book} {req : Request} :
    BookStep s req s' ↔ AuctionStep s.1 req s'.1 ∧ s'.2 = s.2.place req := by
  simp only [BookStep, Book.next, Option.map_eq_some_iff, AuctionStep]
  constructor
  · rintro ⟨a, ha, rfl⟩
    exact ⟨ha, rfl⟩
  · rintro ⟨ha, hbook⟩
    exact ⟨s'.1, ha, by rw [← hbook]⟩

/-- Where the request bans the leader: of the bidders left with the greatest
maximum, the earliest has the greatest id. -/
def BansInOrder (s : Auction × Book) (req : Request) : Prop :=
  req.operation = .ban → ∀ target ∈ req.banTargetId, s.1.hash.leaderId = some target →
    ∀ first ∈ (s.2.without target).argmax Prod.snd, ∀ entry ∈ s.2.without target,
      entry.2 = first.2 → entry.1 ≤ first.1

instance (s : Auction × Book) (req : Request) : Decidable (BansInOrder s req) := by
  unfold BansInOrder; infer_instance

namespace Book
variable {book : Book} {u l m amount : Nat}

theorem leader_eq_none (h : book.leader = none) : book = [] := by
  simpa [leader] using h

theorem leader_eq_some (h : book.leader = some l) : ∃ m, book.argmax Prod.snd = some (l, m) := by
  obtain ⟨⟨l', m⟩, harg, rfl⟩ := Option.map_eq_some_iff.mp h
  exact ⟨m, harg⟩

theorem leader_of_argmax (h : book.argmax Prod.snd = some (l, m)) : book.leader = some l := by
  simp [leader, h]

/-- Striking out somebody else leaves the leader of the book. -/
theorem argmax_without (h : book.argmax Prod.snd = some (l, m)) (hne : l ≠ u) :
    (book.without u).argmax Prod.snd = some (l, m) :=
  List.argmax_filter h (by simpa using hne)

end Book

namespace FairLeader
variable {book : Book} {a : Auction}

/-- The maximum of the leader is the one in the book. -/
theorem argmax_eq (h : FairLeader book a) {l : Nat} (hl : a.hash.leaderId = some l) {m : Nat}
    (hm : a.sets.maxima l = some m) : book.argmax Prod.snd = some (l, m) := by
  obtain ⟨m', harg⟩ := Book.leader_eq_some (h.leads.symm.trans hl)
  have := (h.lists l m').mp (List.argmax_mem harg)
  rw [hm] at this
  cases this
  exact harg

/-- Every branch of the proxy rule leads as the book does. -/
theorem proxied (h : FairLeader book a) (ha : Ledger a) {actor amount : Nat}
    (hraise : ∀ previous, a.sets.maxima actor = some previous → previous < amount)
    {next : Option Nat × Option Nat × Nat} (hnext : Script.Proxied a.hash actor amount next) :
    next.1 = Book.leader (book.without actor ++ [(actor, amount)]) := by
  -- Nobody else in the book is above the leader's maximum.
  have hle : ∀ l m, a.hash.leaderId = some l → a.sets.maxima l = some m →
      ∀ entry ∈ book, entry.2 ≤ m := fun l m hl hm entry hentry =>
    List.le_of_mem_argmax hentry (h.argmax_eq hl hm)
  have htake : (∀ entry ∈ book.without actor, entry.2 < amount) →
      some actor = Book.leader (book.without actor ++ [(actor, amount)]) := fun hlt =>
    (Book.leader_of_argmax (List.argmax_concat_of_lt hlt)).symm
  cases hnext with
  | first hl =>
    have hnil : book = [] := Book.leader_eq_none (h.leads.symm.trans hl)
    subst hnil
    rfl
  | raised hl =>
    obtain ⟨m, hm, _⟩ := ha.led.leads hl
    refine htake fun entry hentry => ?_
    exact Nat.lt_of_le_of_lt (hle actor m hl hm entry (List.mem_of_mem_filter hentry)) (hraise m hm)
  | outbid hl hne hbelow =>
    obtain ⟨m, hm, hmax, _⟩ := ha.led.leads hl
    rw [hmax, Option.getD_some] at hbelow
    have harg := Book.argmax_without (h.argmax_eq hl hm) hne
    exact (Book.leader_of_argmax (List.argmax_concat_of_le harg hbelow)).symm
  | overtakes hl hne habove =>
    obtain ⟨m, hm, hmax, _⟩ := ha.led.leads hl
    rw [hmax, Option.getD_some] at habove
    refine htake fun entry hentry => ?_
    exact Nat.lt_of_le_of_lt (hle _ m hl hm entry (List.mem_of_mem_filter hentry)) habove

end FairLeader

/-- The ranking elects the greatest id among the greatest maxima, the book the
earliest entry; they agree where these are the same. -/
theorem reelect_leader {h : StateHash} {s : BidSets} {book : Book} (hs : Standings h s)
    (hlists : Lists book s) (d : Decision)
    (horder : ∀ first ∈ book.argmax Prod.snd, ∀ entry ∈ book, entry.2 = first.2 →
      entry.1 ≤ first.1) :
    (Script.reelect h s.ranking d).nextLeaderId = book.leader := by
  have hbound : ∀ u m, s.maxima u = some m → m < 10 ^ 19 := fun u m hu =>
    Money.lt_of_le_maxVnd (hs.ceiling u m hu)
  have hfirst : ∀ u m, s.maxima u = some m →
      (∀ w p, s.maxima w = some p → w ≠ u → p < m ∨ p = m ∧ w < u) →
        some u = book.leader := by
    intro u m hu hrest
    have hmem : (u, m) ∈ book := (hlists u m).mpr hu
    cases harg : book.argmax Prod.snd with
    | none =>
      rw [List.argmax_eq_none] at harg
      simp [harg] at hmem
    | some first =>
      have hle : m ≤ first.2 := List.le_of_mem_argmax hmem harg
      by_cases hne : first.1 = u
      · rw [← hne, Book.leader, harg]
        rfl
      · have := hrest first.1 first.2 ((hlists _ _).mp (List.argmax_mem harg)) hne
        have := horder first harg (u, m) hmem
        dsimp only at this
        omega
  have htop := hs.top
  unfold Script.reelect
  generalize s.ranking.greatest 2 = members at htop ⊢
  cases htop with
  | none hnone =>
    have hnil : book = [] := by
      refine List.eq_nil_iff_forall_not_mem.mpr fun entry hentry => ?_
      have := (hlists entry.1 entry.2).mp hentry
      simp [hnone entry.1] at this
    subst hnil
    rfl
  | one hu only =>
    rw [← hfirst _ _ hu fun w p hw hne => absurd (only w p hw) hne]
    simp only [Money.rankedBidder_rankMember (hbound _ _ hu)]
  | two hu hv hne hlt rest =>
    rw [← hfirst _ _ hu fun w p hw hwu => by have := rest w p hw hwu; omega]
    simp only [Money.rankedBidder_rankMember (hbound _ _ hu)]

/-- One accepted bid or ban keeps the fair leader. -/
theorem fairLeader_step {s s' : Auction × Book} {req : Request} (hfair : FairLeader s.2 s.1)
    (ha : Ledger s.1) (hop : req.operation = .bid ∨ req.operation = .ban)
    (horder : BansInOrder s req) (h : BookStep s req s') : FairLeader s'.2 s'.1 := by
  obtain ⟨a, book⟩ := s
  obtain ⟨a', book'⟩ := s'
  obtain ⟨hstep, hbook⟩ := bookStep_iff.mp h
  dsimp only at *
  subst hbook
  have hstandings := standings_step ha.standings ha.led.floor hstep
  obtain ⟨d, ⟨_, hd⟩, rfl⟩ := auctionStep_iff.mp hstep
  have hd := Script.operate_ok hd
  cases hd with
  | bid hop hb _ _ hraise =>
    have hplace : book.place req = book.without req.actor ++ [(req.actor, req.amount)] := by
      simp [Book.place, hop]
    rw [hplace]
    simp only [Script.write, Script.update_bid hop]
    refine ⟨hfair.lists.bid rfl, ?_, hfair.proxied ha hraise (Script.proxyBid_cases _ _ _)⟩
    intro entry hentry
    rcases List.mem_append.mp hentry with hentry | hentry
    · exact hfair.barred entry (List.mem_of_mem_filter hentry)
    · rw [List.mem_singleton.mp hentry]
      exact hb.notBanned
  | @ban target hop _ _ hnamed _ _ =>
    have hplace : book.place req = book.without target := by simp [Book.place, hop, hnamed]
    rw [hplace]
    simp only [Script.write, Script.update_ban hop hnamed] at hstandings ⊢
    have hlists : Lists (book.without target) (Script.banSets a target
        { Script.unchanged a req .bidderBanned with
          oldRankMember := a.sets.rankMembers target }) := hfair.lists.ban rfl
    refine ⟨hlists, ?_, ?_⟩
    · intro entry hentry hban
      obtain ⟨hentry, hne⟩ := Book.mem_without.mp hentry
      rcases Finset.mem_insert.mp hban with heq | hban
      · exact hne heq
      · exact hfair.barred entry hentry hban
    · dsimp only
      split
      · rename_i hleader
        exact reelect_leader (hstandings.congr rfl rfl) hlists _ (horder hop target hnamed hleader)
      · -- The leader stays in the book.
        rename_i hleader
        change a.hash.leaderId = _
        rw [hfair.leads] at hleader ⊢
        cases hl : book.leader with
        | none => simp [Book.leader_eq_none hl, Book.without, Book.leader]
        | some l =>
          obtain ⟨m, harg⟩ := Book.leader_eq_some hl
          refine (Book.leader_of_argmax (Book.argmax_without harg ?_)).symm
          rintro rfl
          exact hleader hl
  | buyNow hbuy => simp [hbuy] at hop
  | close hclose => simp [hclose] at hop
  | cancel hcancel => simp [hcancel] at hop

/-- Bids and bans leave the auction active. -/
theorem active_of_bid_or_ban {a a' : Auction} {req : Request}
    (hop : req.operation = .bid ∨ req.operation = .ban) (h : AuctionStep a req a') :
    a'.hash.status = .active := by
  obtain ⟨d, ⟨_, hd⟩, rfl⟩ := auctionStep_iff.mp h
  cases Script.operate_ok hd with
  | bid _ hb => exact Script.update_nextStatus.trans hb.active
  | ban _ hactive => exact Script.update_nextStatus.trans hactive
  | buyNow hbuy => simp [hbuy] at hop
  | close hclose => simp [hclose] at hop
  | cancel hcancel => simp [hcancel] at hop

/-- After every run of accepted bids and bans on a fresh auction the earliest
of the greatest maxima leads, if no ban of a leader meets a tie out of order. -/
theorem fair_leader {a a' : Auction} {book : Book} {reqs : List Request} (hfresh : Fresh a)
    (hops : ∀ req ∈ reqs, req.operation = .bid ∨ req.operation = .ban)
    (hrun : Run (Guarded BansInOrder BookStep) (a, []) reqs (a', book)) : FairLeader book a' := by
  have hstart : FairLeader [] a := by
    refine ⟨fun u m => ?_, by simp, by rw [hfresh.leaderless]; rfl⟩
    simp [hfresh.noBids, BidSets.empty]
  suffices h : ∀ {s s' : Auction × Book}, Run (Guarded BansInOrder BookStep) s reqs s' →
      Ledger s.1 → FairLeader s.2 s.1 → FairLeader s'.2 s'.1 from
    h hrun hfresh.state.toLedger hstart
  clear hrun hstart
  intro s s' hrun ha hfair
  induction hrun with
  | refl => exact hfair
  | cons h _ ih =>
    have hop := hops _ List.mem_cons_self
    refine ih (fun req hreq => hops req (List.mem_cons_of_mem _ hreq)) ?_ ?_
    · have hstep := (bookStep_iff.mp h.2).1
      exact ha.step hstep (by simp [active_of_bid_or_ban hop hstep])
    · exact fairLeader_step hfair ha hop h.1 h.2

namespace Sample

/-- Three bidders, the first two with the same maximum; the third is banned. -/
def tie (first second : UserId) : List Request :=
  [call 1 .bid first (some "200"), call 2 .bid second (some "200"), call 3 .bid 4 (some "300"),
    call 4 .ban 9 none (some 4)].filterMap request

end Sample

/-- Bidder 3 bids first, so the ranking agrees with the book. -/
theorem fair_leader_sample :
    ∃ a book, Run BookStep (Sample.auction, []) (Sample.tie 3 2) (a, book) ∧
      a.hash.leaderId = some 3 ∧ FairLeader book a := by
  have hsome : ((Sample.tie 3 2).foldlM (fun s req =>
      if BansInOrder s req then Book.next s req else none) (Sample.auction, [])).map
      (·.1.hash.leaderId) = some (some 3) := by decide +kernel
  obtain ⟨⟨a, book⟩, hfold, hleader⟩ := Option.map_eq_some_iff.mp hsome
  have hrun : Run (Guarded BansInOrder BookStep) (Sample.auction, []) (Sample.tie 3 2) (a, book) :=
    run_guarded_of_foldlM hfold
  exact ⟨a, book, hrun.mono fun _ _ _ h => h.2, hleader,
    fair_leader (Sample.fresh (.plain 1000)) (by decide +kernel) hrun⟩

/-- Bidders 2 and 3 hold 200, bidder 2 first; after the ban of the leader 3 leads. -/
theorem fair_leader_tie :
    ¬ ∀ (a a' : Auction) (book : Book) (reqs : List Request), Fresh a →
      (∀ req ∈ reqs, req.operation = .bid ∨ req.operation = .ban) →
      Run BookStep (a, []) reqs (a', book) → FairLeader book a' := by
  intro h
  have hsome : ((Sample.tie 2 3).foldlM Book.next (Sample.auction, [])).map
      (fun s => (s.1.hash.leaderId, s.2.leader)) = some (some 3, some 2) := by decide +kernel
  simp only [Option.map_eq_some_iff, Prod.mk.injEq] at hsome
  obtain ⟨⟨a, book⟩, hrun, hleader, hfirst⟩ := hsome
  have hfair := h _ a book _ (Sample.fresh (.plain 1000)) (by decide +kernel)
    (run_partial_iff.mpr hrun)
  have := hfair.leads
  dsimp only at hleader hfirst
  simp [hleader, hfirst] at this

end MiracleAuction
