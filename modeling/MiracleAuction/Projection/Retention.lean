import MiracleAuction.Authority.Frames
import MiracleAuction.Projection.BannedLeader

/-!
# `redis-auction.cleanup.ts`

The keys of a finished auction get a lifetime: by the projector after a terminal event, and
by sweeps that compare rows of `products` with Redis. The system of the authority, the
projector and the rebuilds goes on meanwhile.
-/
namespace MiracleAuction
open Decimal

/-- The keys that `expireTerminalAuctionState` gives a lifetime. -/
inductive ExpiringKey
  | state | maxima | ranking | rankMembers | bans | idempotency
  deriving DecidableEq

/-- A key that expires. -/
def ExpiringKey.expire (k : AuctionKeys) : ExpiringKey → AuctionKeys
  | .state => { k with state := .absent }
  | .maxima => { k with sets := { k.sets with maxima := fun _ => none } }
  | .ranking => { k with sets := { k.sets with ranking := .empty } }
  | .rankMembers => { k with sets := { k.sets with rankMembers := fun _ => none } }
  | .bans => { k with sets := { k.sets with bans := ∅ } }
  | .idempotency => { k with legacyIdempotency := fun _ => none, legacyTtlMs := -2 }

/-- What a sweep has selected of a product. -/
structure Selected where
  auctionStatus : AuctionStatus
  auctionSequence : Nat
  auctionVersion : Nat
  deriving DecidableEq

/-- The system, whether the keys have a lifetime, and the rows that sweeps have selected. -/
structure Cleaned extends System where
  expiring : Bool := false
  sweeps : List Selected := []

/-- `finalize` is `finalizeProjectedEntry`, for an event that is projected; `select` and
`compare` are the two reads of `expireConvergedLegacyTerminalAuctions`. -/
inductive CleanupAction
  | system (x : SystemAction)
  | finalize (index : Nat)
  | select
  | compare (sweep : Nat)
  | expire (key : ExpiringKey)

namespace Cleaned

/-- The status, sequence and version of the state key. -/
def selected (s : Cleaned) : Option Selected :=
  s.keys.auction.map fun a => ⟨a.hash.status, a.hash.sequence, a.hash.version⟩

def next (productId : Nat) (s : Cleaned) : CleanupAction → Option Cleaned
  | .system x => (s.toSystem.next productId x).map fun system => { s with toSystem := system }
  | .finalize index =>
    match s.keys.stream[index]? with
    | some event =>
      if index < s.projected then some { s with expiring := s.expiring || event.status.isTerminal }
      else none
    | none => none
  | .select =>
    match s.tables.products productId with
    | some product =>
      if product.auctionStatus.isTerminal then
        some { s with sweeps := s.sweeps ++
          [⟨product.auctionStatus, product.auctionSequence, product.auctionVersion⟩] }
      else none
    | none => none
  | .compare sweep =>
    match s.sweeps[sweep]? with
    | some row => some { s with
        expiring := s.expiring || s.selected = some row
        sweeps := s.sweeps.eraseIdx sweep }
    | none => none
  | .expire key =>
    if s.expiring then some { s with keys := key.expire s.keys } else none

end Cleaned

/-! ## Pending events -/

/-- The pending events continue the counters of the row, and only the last of them is
terminal. -/
def Numbered : Nat → Nat → List AuctionStreamEvent → Prop
  | _, _, [] => True
  | sequence, version, event :: events =>
    event.sequence = sequence + 1 ∧ event.version = version + 1 ∧
      (event.status.isTerminal → events = []) ∧ Numbered (sequence + 1) (version + 1) events

/-- The tables say that the auction is over. -/
def Finished (productId : Nat) (T : Tables) : Prop :=
  ∃ product, T.products productId = some product ∧ product.auctionStatus.isTerminal

/-- Redis is ahead of the tables by the pending events. -/
structure Ahead (productId : Nat) (T : Tables) (pending : List AuctionStreamEvent)
    (k : AuctionKeys) : Prop where
  own : ∀ e ∈ pending, e.productId = productId
  product : ∀ h, k.state = .hash h → h.productId = productId
  counted : ∀ h, k.state = .hash h → ∀ product, T.products productId = some product →
    h.sequence = product.auctionSequence + pending.length ∧
      h.version = product.auctionVersion + pending.length
  numbered : ∀ product, T.products productId = some product →
    Numbered product.auctionSequence product.auctionVersion pending
  ended : ∀ h, k.state = .hash h → (∃ e ∈ pending, e.status.isTerminal) →
    h.status.isTerminal
  drained : (∀ h, k.state ≠ .hash h) → pending = []
  settled : Finished productId T → pending = [] ∧ ∀ h, k.state = .hash h →
    h.status.isTerminal

section
variable {productId sequence version : Nat} {event : AuctionStreamEvent}
  {events pending : List AuctionStreamEvent} {T T' : Tables} {k k' : AuctionKeys}

theorem Numbered.concat (h : Numbered sequence version events)
    (hopen : ∀ e ∈ events, e.status.isTerminal = false)
    (hsequence : event.sequence = sequence + events.length + 1)
    (hversion : event.version = version + events.length + 1) :
    Numbered sequence version (events ++ [event]) := by
  induction events generalizing sequence version with
  | nil => exact ⟨hsequence, hversion, fun _ => rfl, trivial⟩
  | cons e events ih =>
    obtain ⟨hnumber, hstep, _, hrest⟩ := h
    rw [List.length_cons] at hsequence hversion
    refine ⟨hnumber, hstep, fun hterminal => ?_, ?_⟩
    · rw [hopen e List.mem_cons_self] at hterminal
      cases hterminal
    · exact ih hrest (fun e' he' => hopen e' (List.mem_cons_of_mem _ he')) (by omega) (by omega)

theorem state_of_loaded {a : Auction} (h : k.auction = some a) : k.state = .hash a.hash := by
  unfold AuctionKeys.auction at h
  split at h
  · rename_i hash hstate
    cases h
    exact hstate
  · cases h

theorem Ahead.of_state (h : Ahead productId T pending k) (hstate : k'.state = k.state) :
    Ahead productId T pending k' where
  own := h.own
  product hash hhash := h.product hash (hstate ▸ hhash)
  counted hash hhash := h.counted hash (hstate ▸ hhash)
  numbered := h.numbered
  ended hash hhash := h.ended hash (hstate ▸ hhash)
  drained hnone := h.drained (hstate ▸ hnone)
  settled hfinished := by
    rw [hstate]
    exact h.settled hfinished

/-- An accepted command leaves one more event to project. -/
theorem Ahead.accept (h : Ahead productId T pending k) {req : Request} {a : Auction} {d : Decision}
    (hacc : Accepts k req a d) :
    Ahead productId T (pending ++ [Script.event a req d]) (Script.accept a req k d) := by
  have hloaded := state_of_loaded hacc.loaded
  have hopen := hacc.isTerminal
  have hevents : ∀ e ∈ pending, e.status.isTerminal = false := by
    intro e he
    by_contra hterminal
    rw [h.ended _ hloaded ⟨e, he, by simpa using hterminal⟩] at hopen
    cases hopen
  have hsequence : (Script.event a req d).sequence = a.hash.sequence + 1 := Money.add_eq _ _
  have hversion : (Script.event a req d).version = a.hash.version + 1 := Money.add_eq _ _
  have hnext : (Script.accept a req k d).state = .hash (Script.write a req d).hash := rfl
  refine ⟨fun e he => ?_, fun hash hhash => ?_, fun hash hhash product hproduct => ?_,
    fun product hproduct => ?_, fun hash hhash hterminal => ?_, fun hnone => ?_,
    fun hfinished => ?_⟩
  · obtain hold | hnew := List.mem_append.mp he
    · exact h.own e hold
    · rw [List.mem_singleton.mp hnew]
      exact h.product _ hloaded
  · cases hnext.symm.trans hhash
    exact h.product a.hash hloaded
  · cases hnext.symm.trans hhash
    obtain ⟨hs, hv⟩ := h.counted _ hloaded product hproduct
    have hws : (Script.write a req d).hash.sequence = a.hash.sequence + 1 := Money.add_eq _ _
    have hwv : (Script.write a req d).hash.version = a.hash.version + 1 := Money.add_eq _ _
    rw [List.length_append, List.length_singleton]
    omega
  · obtain ⟨hs, hv⟩ := h.counted _ hloaded product hproduct
    exact (h.numbered product hproduct).concat hevents (by omega) (by omega)
  · cases hnext.symm.trans hhash
    obtain ⟨e, he, hterminal⟩ := hterminal
    obtain hold | hnew := List.mem_append.mp he
    · rw [hevents e hold] at hterminal
      cases hterminal
    · rw [List.mem_singleton.mp hnew] at hterminal
      have hstatus : (Script.write a req d).hash.status = d.nextStatus := Script.update_nextStatus
      rw [hstatus]
      exact hterminal
  · exact absurd hnext (hnone _)
  · rw [(h.settled hfinished).2 _ hloaded] at hopen
    cases hopen

/-- The projection of the first pending event. -/
theorem Ahead.project (h : Ahead productId T (event :: pending) k) {entry : RedisStreamEntry}
    (happlied : Applied entry event T T') : Ahead productId T' pending k := by
  obtain ⟨product, date, hproduct, _, _, hproducts⟩ := happlied.product
  have hown : event.productId = productId := h.own event List.mem_cons_self
  subst hown
  have hrow : ∀ row, T'.products event.productId = some row →
      row = snapshot event date product := by
    intro row hrow
    rw [hproducts, Function.update_self] at hrow
    exact (Option.some.inj hrow).symm
  obtain ⟨hsequence, hversion, hlast, hrest⟩ := h.numbered product hproduct
  refine ⟨fun e he => h.own e (List.mem_cons_of_mem _ he), h.product, fun hash hhash row hr => ?_,
    fun row hr => ?_, fun hash hhash hterminal => ?_, fun hnone => ?_, fun hfinished => ?_⟩
  · obtain ⟨hs, hv⟩ := h.counted hash hhash product hproduct
    rw [List.length_cons] at hs hv
    rw [hrow row hr]
    dsimp only [snapshot]
    omega
  · rw [hrow row hr]
    dsimp only [snapshot]
    rw [hsequence, hversion]
    exact hrest
  · obtain ⟨e, he, hterminal⟩ := hterminal
    exact h.ended hash hhash ⟨e, List.mem_cons_of_mem _ he, hterminal⟩
  · cases h.drained hnone
  · obtain ⟨row, hr, hterminal⟩ := hfinished
    rw [hrow row hr] at hterminal
    exact ⟨hlast hterminal,
      fun hash hhash => h.ended hash hhash ⟨event, List.mem_cons_self, hterminal⟩⟩

/-- A bootstrap leaves the state key, deletes it, or loads it from the tables. -/
inductive Booted (productId : Nat) (T : Tables) (k : AuctionKeys) (force : Bool) :
    AuctionKeys → Prop
  | same {k' : AuctionKeys} (hstream : k'.stream = k.stream) (hstate : k'.state = k.state) :
      Booted productId T k force k'
  | deleted {k' : AuctionKeys} (hforce : force = true) (hstream : k'.stream = k.stream)
      (hstate : k'.state = .absent) : Booted productId T k force k'
  | loaded {k' : AuctionKeys} {product : ProductRow} {now : DateMs}
      (hbefore : force = true ∨ k.state = .absent) (hstream : k'.stream = k.stream)
      (hproduct : T.products productId = some product)
      (hstate : k'.state = .hash (Bootstrap.seedState T productId product now)) :
      Booted productId T k force k'

theorem script_state (seed : Bootstrap.Seed) (k : AuctionKeys) :
    (Bootstrap.script seed k).2.stream = k.stream ∧
      ((Bootstrap.script seed k).2.state = k.state ∨
        k.state = .absent ∧ (Bootstrap.script seed k).2.state = .hash seed.state) := by
  unfold Bootstrap.script
  split
  · exact ⟨rfl, .inl rfl⟩
  · split
    · rename_i habsent
      split
      · exact ⟨rfl, .inl rfl⟩
      · exact ⟨rfl, .inr ⟨habsent, rfl⟩⟩
    · exact ⟨rfl, .inl rfl⟩

theorem booted (productId : Nat) (recovery force : Bool) (now : DateMs) (T : Tables)
    (k : AuctionKeys) :
    Booted productId T k force (bootstrapRedisAuction productId recovery force now T k).2 := by
  cases force with
  | true =>
    unfold bootstrapRedisAuction
    cases hproduct : T.products productId with
    | none => exact .same rfl rfl
    | some product =>
      obtain ⟨hstream, hsame | ⟨-, hloaded⟩⟩ := script_state
        (Bootstrap.seed T productId product now recovery) (Bootstrap.forget k)
      · exact .deleted rfl hstream hsame
      · exact .loaded (.inl rfl) hstream hproduct hloaded
  | false =>
    unfold bootstrapRedisAuction
    cases hstate : k.state with
    | incomplete => exact .same rfl rfl
    | hash h => exact .same rfl rfl
    | absent =>
      cases hproduct : T.products productId with
      | none => exact .same rfl rfl
      | some product =>
        obtain ⟨hstream, hsame | ⟨-, hloaded⟩⟩ := script_state
          (Bootstrap.seed T productId product now recovery) k
        · exact .same hstream hsame
        · exact .loaded (.inr hstate) hstream hproduct hloaded

theorem Ahead.boot {force : Bool} (h : Ahead productId T pending k)
    (hboot : Booted productId T k force k') (hdrained : force = true → pending = []) :
    Ahead productId T pending k' := by
  cases hboot with
  | same _ hstate => exact h.of_state hstate
  | deleted hforce _ hstate =>
    have hnot : ∀ hash, k'.state ≠ .hash hash := by simp [hstate]
    exact ⟨h.own, fun hash hhash => absurd hhash (hnot hash), fun hash hhash =>
      absurd hhash (hnot hash), h.numbered, fun hash hhash => absurd hhash (hnot hash),
      fun _ => hdrained hforce,
      fun _ => ⟨hdrained hforce, fun hash hhash => absurd hhash (hnot hash)⟩⟩
  | @loaded product now hbefore _ hproduct hstate =>
    have hnil : pending = [] := by
      obtain hforce | habsent := hbefore
      · exact hdrained hforce
      · exact h.drained (by simp [habsent])
    subst hnil
    refine ⟨by simp, fun hash hhash => ?_, fun hash hhash row hrow => ?_, fun _ _ => trivial,
      by simp, fun _ => rfl, fun hfinished => ⟨rfl, fun hash hhash => ?_⟩⟩
    · cases hstate.symm.trans hhash
      rfl
    · cases hstate.symm.trans hhash
      cases hproduct.symm.trans hrow
      exact ⟨rfl, rfl⟩
    · cases hstate.symm.trans hhash
      obtain ⟨row, hrow, hterminal⟩ := hfinished
      cases hproduct.symm.trans hrow
      have hpending : product.auctionStatus ≠ .pending := by
        intro hstatus
        rw [hstatus] at hterminal
        cases hterminal
      have hstatus : (Bootstrap.seedState T productId product now).status = product.auctionStatus :=
        if_neg fun hwindow => hpending hwindow.1
      rw [hstatus]
      exact hterminal

theorem finished_extendEnd {endTime : DateMs} :
    Finished productId (System.extendEnd T productId endTime) ↔ Finished productId T := by
  unfold Finished System.extendEnd
  dsimp only
  rw [Function.update_self]
  cases T.products productId <;> simp

theorem Ahead.extend (h : Ahead productId T pending k) (endTime : DateMs) :
    Ahead productId (System.extendEnd T productId endTime) pending k := by
  have hrow : ∀ row, (System.extendEnd T productId endTime).products productId = some row →
      ∃ product, T.products productId = some product ∧
        row = { product with endTime := some endTime } := by
    intro row hrow
    unfold System.extendEnd at hrow
    dsimp only at hrow
    rw [Function.update_self] at hrow
    obtain ⟨product, hproduct, rfl⟩ := Option.map_eq_some_iff.mp hrow
    exact ⟨product, hproduct, rfl⟩
  refine ⟨h.own, h.product, fun hash hhash row hr => ?_, fun row hr => ?_, h.ended, h.drained,
    fun hfinished => h.settled (finished_extendEnd.mp hfinished)⟩
  · obtain ⟨product, hproduct, rfl⟩ := hrow row hr
    exact h.counted hash hhash product hproduct
  · obtain ⟨product, hproduct, rfl⟩ := hrow row hr
    exact h.numbered product hproduct

/-! ## The system -/

structure Retained (productId : Nat) (s : Cleaned) : Prop where
  within : s.projected ≤ s.keys.stream.length
  ahead : Ahead productId s.tables s.pending s.keys
  projected : ∀ event ∈ s.keys.stream.take s.projected, event.status.isTerminal →
    Finished productId s.tables
  expiring : s.expiring = true → Finished productId s.tables
  sweeps : ∀ row ∈ s.sweeps, row.auctionStatus.isTerminal ∧ Finished productId s.tables

variable {s s' : Cleaned} {x : CleanupAction}

/-- Nothing is accepted of an auction that is over. -/
theorem Ahead.not_accepts (h : Ahead productId T pending k) (hfinished : Finished productId T)
    {req : Request} {a : Auction} {d : Decision} (hacc : Accepts k req a d) : False := by
  have hterminal := (h.settled hfinished).2 _ (state_of_loaded hacc.loaded)
  rw [hacc.isTerminal] at hterminal
  cases hterminal

/-- A step of the system keeps the auction over, and the stream if it is. -/
theorem system_step {system : System} {x : SystemAction} (h : Retained productId s)
    (hstep : s.toSystem.next productId x = some system) :
    Retained productId { s with toSystem := system } ∧ (Finished productId s.tables →
      Finished productId system.tables ∧ system.keys.stream = s.keys.stream) := by
  cases x with
  | act x =>
    cases hstep
    have hcases := action_cases x s.keys
    generalize x.apply s.keys = k at hcases ⊢
    cases hcases with
    | @accepts c req a d hpayload hacc =>
      have hpending : System.pending { s.toSystem with keys := Script.accept a req s.keys d } =
          s.pending ++ [Script.event a req d] := List.drop_append_of_le_length h.within
      have hfirst : (Script.accept a req s.keys d).stream.take s.projected =
          s.keys.stream.take s.projected := List.take_append_of_le_length h.within
      refine ⟨⟨?_, ?_, ?_, h.expiring, h.sweeps⟩,
        fun hfinished => (h.ahead.not_accepts hfinished hacc).elim⟩
      · dsimp only
        rw [Script.accept_stream, List.length_append]
        exact h.within.trans (Nat.le_add_right _ _)
      · dsimp only
        rw [hpending]
        exact h.ahead.accept hacc
      · dsimp only
        rw [hfirst]
        exact h.projected
    | @keeps _ k hkeeps =>
      have hpending : System.pending { s.toSystem with keys := k } = s.pending := by
        simp only [System.pending, hkeeps.stream]
      refine ⟨⟨?_, ?_, ?_, h.expiring, h.sweeps⟩,
        fun hfinished => ⟨hfinished, hkeeps.stream⟩⟩
      · dsimp only
        rw [hkeeps.stream]
        exact h.within
      · dsimp only
        rw [hpending]
        exact h.ahead.of_state hkeeps.state
      · dsimp only
        rw [hkeeps.stream]
        exact h.projected
  | project id shard =>
    obtain ⟨event, hpending, hkeys, happlied, hprojected⟩ := SystemStep.project hstep
    have hahead := h.ahead
    rw [hpending] at hahead
    have hnot : ¬ Finished productId s.tables := fun hfinished => by
      cases (hahead.settled hfinished).1
    have hown : event.productId = productId := hahead.own event List.mem_cons_self
    have hlength := congrArg List.length hpending
    simp only [System.pending, List.length_drop, List.length_cons] at hlength
    have hget : s.keys.stream[s.projected]? = some event := by
      have hhead := congrArg List.head? hpending
      rwa [System.pending, List.head?_drop, List.head?_cons] at hhead
    refine ⟨⟨?_, ?_, ?_, fun hexpiring => absurd (h.expiring hexpiring) hnot,
      fun row hrow => absurd (h.sweeps row hrow).2 hnot⟩,
      fun hfinished => absurd hfinished hnot⟩
    · dsimp only
      rw [hkeys, hprojected]
      omega
    · dsimp only
      rw [hkeys]
      exact hahead.project happlied
    · dsimp only
      rw [hkeys, hprojected, List.take_add_one, hget]
      intro e he hterminal
      obtain hold | hnew := List.mem_append.mp he
      · exact absurd (h.projected e hold hterminal) hnot
      · obtain rfl : e = event := by simpa using hnew
        obtain ⟨product, date, hproduct, _, _, hproducts⟩ := happlied.product
        refine ⟨snapshot e date product, ?_, hterminal⟩
        rw [hproducts, hown, Function.update_self]
  | bootstrap now recovery force =>
    obtain ⟨hdrained, rfl⟩ := SystemStep.bootstrap hstep
    have hboot := booted productId recovery force now s.tables s.keys
    generalize (bootstrapRedisAuction productId recovery force now s.tables s.keys).2 = k
      at hboot ⊢
    have hstream : k.stream = s.keys.stream := by
      cases hboot with
      | same hstream => exact hstream
      | deleted _ hstream => exact hstream
      | loaded _ hstream => exact hstream
    have hpending : System.pending { s.toSystem with keys := k } = s.pending := by
      simp only [System.pending, hstream]
    refine ⟨⟨?_, ?_, ?_, h.expiring, h.sweeps⟩, fun hfinished => ⟨hfinished, hstream⟩⟩
    · dsimp only
      rw [hstream]
      exact h.within
    · dsimp only
      rw [hpending]
      exact h.ahead.boot hboot hdrained
    · dsimp only
      rw [hstream]
      exact h.projected
  | extend endTime =>
    cases hstep
    refine ⟨⟨h.within, h.ahead.extend endTime, fun event hevent hterminal => ?_,
      fun hexpiring => ?_, fun row hrow => ?_⟩, fun hfinished => ⟨?_, rfl⟩⟩
    · exact finished_extendEnd.mpr (h.projected event hevent hterminal)
    · exact finished_extendEnd.mpr (h.expiring hexpiring)
    · exact ⟨(h.sweeps row hrow).1, finished_extendEnd.mpr (h.sweeps row hrow).2⟩
    · exact finished_extendEnd.mpr hfinished

/-- A key that expires takes nothing away that is not projected. -/
theorem Ahead.expire (h : Ahead productId T pending k) (hfinished : Finished productId T)
    (key : ExpiringKey) : Ahead productId T pending (key.expire k) := by
  cases key with
  | state =>
    have hnot : ∀ hash, (ExpiringKey.state.expire k).state ≠ .hash hash := by
      simp [ExpiringKey.expire]
    have hnil := (h.settled hfinished).1
    exact ⟨h.own, fun hash hhash => absurd hhash (hnot hash), fun hash hhash =>
      absurd hhash (hnot hash), h.numbered, fun hash hhash => absurd hhash (hnot hash),
      fun _ => hnil, fun _ => ⟨hnil, fun hash hhash => absurd hhash (hnot hash)⟩⟩
  | maxima => exact h.of_state rfl
  | ranking => exact h.of_state rfl
  | rankMembers => exact h.of_state rfl
  | bans => exact h.of_state rfl
  | idempotency => exact h.of_state rfl

theorem expire_stream (key : ExpiringKey) : (key.expire k).stream = k.stream := by
  cases key <;> rfl

theorem retained_step (h : Retained productId s) (hstep : s.next productId x = some s') :
    Retained productId s' ∧ (Finished productId s.tables →
      Finished productId s'.tables ∧ s'.keys.stream = s.keys.stream) := by
  cases x with
  | system x =>
    obtain ⟨system, hsystem, rfl⟩ := Option.map_eq_some_iff.mp hstep
    exact system_step h hsystem
  | finalize index =>
    dsimp only [Cleaned.next] at hstep
    split at hstep
    · rename_i event hevent
      split at hstep
      · rename_i hindex
        cases hstep
        refine ⟨⟨h.within, h.ahead, h.projected, fun hexpiring => ?_, h.sweeps⟩,
          fun hfinished => ⟨hfinished, rfl⟩⟩
        obtain hold | hterminal := (Bool.or_eq_true _ _).mp hexpiring
        · exact h.expiring hold
        · refine h.projected event ?_ hterminal
          exact List.mem_of_getElem? (i := index)
            (by rw [List.getElem?_take, if_pos hindex, hevent])
      · cases hstep
    · cases hstep
  | select =>
    dsimp only [Cleaned.next] at hstep
    split at hstep
    · rename_i product hproduct
      split at hstep
      · rename_i hterminal
        cases hstep
        refine ⟨⟨h.within, h.ahead, h.projected, h.expiring, fun row hrow => ?_⟩,
          fun hfinished => ⟨hfinished, rfl⟩⟩
        obtain hold | hnew := List.mem_append.mp hrow
        · exact h.sweeps row hold
        · rw [List.mem_singleton.mp hnew]
          exact ⟨hterminal, product, hproduct, hterminal⟩
      · cases hstep
    · cases hstep
  | compare sweep =>
    dsimp only [Cleaned.next] at hstep
    split at hstep
    · rename_i row hrow
      cases hstep
      refine ⟨⟨h.within, h.ahead, h.projected, fun _ => ?_, fun row hrow => ?_⟩,
        fun hfinished => ⟨hfinished, rfl⟩⟩
      · exact (h.sweeps row (List.mem_of_getElem? hrow)).2
      · exact h.sweeps row (List.mem_of_mem_eraseIdx hrow)
    · cases hstep
  | expire key =>
    dsimp only [Cleaned.next] at hstep
    split at hstep
    · rename_i hexpiring
      cases hstep
      have hfinished := h.expiring hexpiring
      have hstream := expire_stream (k := s.keys) key
      have hpending : System.pending { s.toSystem with keys := key.expire s.keys } = s.pending := by
        simp only [System.pending, hstream]
      refine ⟨⟨?_, ?_, ?_, h.expiring, h.sweeps⟩, fun hfinished => ⟨hfinished, hstream⟩⟩
      · dsimp only
        rw [hstream]
        exact h.within
      · dsimp only
        rw [hpending]
        exact h.ahead.expire hfinished key
      · dsimp only
        rw [hstream]
        exact h.projected
    · cases hstep

/-- Nothing is loaded and nothing has happened, whatever the tables hold. -/
theorem retained_start (T : Tables) : Retained productId { tables := T } where
  within := Nat.zero_le _
  ahead :=
    { own := by simp [System.pending]
      product := by simp
      counted := by simp
      numbered := fun _ _ => trivial
      ended := by simp
      drained := fun _ => rfl
      settled := fun _ => ⟨rfl, by simp⟩ }
  projected := by simp
  expiring := by simp
  sweeps := by simp

theorem retained_run {xs : List CleanupAction}
    (h : Run (StepOf (Cleaned.next productId)) { tables := T } xs s) : Retained productId s :=
  h.preserves (fun _ _ _ hstep hs => (retained_step hs hstep).1) (retained_start T)

/-- Once the keys of an auction have a lifetime, PostgreSQL holds everything: no event is left
to be projected, the row is terminal, and whatever expires, is rebuilt or requested later,
nothing is appended to the stream any more. -/
theorem expiry_loses_nothing {xs ys : List CleanupAction}
    (h : Run (StepOf (Cleaned.next productId)) { tables := T } xs s) (hexpiring : s.expiring = true)
    (h' : Run (StepOf (Cleaned.next productId)) s ys s') :
    s.pending = [] ∧ Finished productId s'.tables ∧ s'.keys.stream = s.keys.stream := by
  have hretained := retained_run h
  have hfinished := hretained.expiring hexpiring
  have hkept : Retained productId s' ∧ Finished productId s'.tables ∧
      s'.keys.stream = s.keys.stream := by
    refine h'.preserves (I := fun t => Retained productId t ∧ Finished productId t.tables ∧
      t.keys.stream = s.keys.stream) (fun _ _ _ hstep ht => ?_) ⟨hretained, hfinished, rfl⟩
    obtain ⟨hnext, hkeeps⟩ := retained_step ht.1 hstep
    obtain ⟨hfinished, hstream⟩ := hkeeps ht.2.1
    exact ⟨hnext, hfinished, hstream.trans ht.2.2⟩
  exact ⟨(hretained.ahead.settled hfinished).1, hkept.2⟩

/-- The sequence and the version of the product's row. -/
def Tables.counters (T : Tables) (productId : Nat) : Option (Nat × Nat) :=
  (T.products productId).map fun product => (product.auctionSequence, product.auctionVersion)

/-- Every projection counts the row on by one, and nothing else does. -/
theorem counters_step (hs : Retained productId s) (hstep : s.next productId x = some s')
    (hcounters : s.tables.counters productId = (T.counters productId).map fun count =>
      (count.1 + s.projected, count.2 + s.projected)) :
    s'.tables.counters productId = (T.counters productId).map fun count =>
      (count.1 + s'.projected, count.2 + s'.projected) := by
  cases x with
  | system x =>
    obtain ⟨system, hsystem, rfl⟩ := Option.map_eq_some_iff.mp hstep
    cases x with
    | act x =>
      cases hsystem
      exact hcounters
    | project id shard =>
      obtain ⟨event, hpending, hkeys, happlied, hprojected⟩ := SystemStep.project hsystem
      have hahead := hs.ahead
      rw [hpending] at hahead
      have hown : event.productId = productId := hahead.own event List.mem_cons_self
      obtain ⟨product, date, hproduct, _, _, hproducts⟩ := happlied.product
      rw [hown] at hproduct hproducts
      obtain ⟨hsequence, hversion, -, -⟩ := hahead.numbered product hproduct
      unfold Tables.counters at hcounters ⊢
      rw [hproduct, Option.map_some] at hcounters
      obtain ⟨count, hcount, heq⟩ := Option.map_eq_some_iff.mp hcounters.symm
      rw [Prod.mk.injEq] at heq
      dsimp only
      rw [hproducts, Function.update_self, hcount, hprojected]
      simp only [Option.map_some, snapshot, Option.some.injEq, Prod.mk.injEq]
      omega
    | bootstrap now recovery force =>
      obtain ⟨-, rfl⟩ := SystemStep.bootstrap hsystem
      exact hcounters
    | extend endTime =>
      cases hsystem
      refine Eq.trans ?_ hcounters
      unfold Tables.counters System.extendEnd
      dsimp only
      rw [Function.update_self, Option.map_map]
      rfl
  | finalize index =>
    dsimp only [Cleaned.next] at hstep
    split at hstep
    · split at hstep
      · cases hstep
        exact hcounters
      · cases hstep
    · cases hstep
  | select =>
    dsimp only [Cleaned.next] at hstep
    split at hstep
    · split at hstep
      · cases hstep
        exact hcounters
      · cases hstep
    · cases hstep
  | compare sweep =>
    dsimp only [Cleaned.next] at hstep
    split at hstep
    · cases hstep
      exact hcounters
    · cases hstep
  | expire key =>
    dsimp only [Cleaned.next] at hstep
    split at hstep
    · cases hstep
      exact hcounters
    · cases hstep

theorem counters_run {xs : List CleanupAction}
    (h : Run (StepOf (Cleaned.next productId)) { tables := T } xs s) :
    s.tables.counters productId = (T.counters productId).map fun count =>
      (count.1 + s.projected, count.2 + s.projected) := by
  refine (h.preserves (I := fun s => Retained productId s ∧ s.tables.counters productId =
    (T.counters productId).map fun count => (count.1 + s.projected, count.2 + s.projected))
    (fun s x s' hstep hs => ?_) ⟨retained_start T, ?_⟩).2
  · exact ⟨(retained_step hs.1 hstep).1, counters_step hs.1 hstep hs.2⟩
  · simp

/-- The counters of a loaded state are those of the first row and the events of the stream. -/
theorem state_counters {xs : List CleanupAction} {hash : StateHash}
    (h : Run (StepOf (Cleaned.next productId)) { tables := T } xs s)
    (hstate : s.keys.state = .hash hash) {count : Nat × Nat}
    (hcount : T.counters productId = some count) :
    hash.sequence = count.1 + s.keys.stream.length ∧
      hash.version = count.2 + s.keys.stream.length := by
  have hretained := retained_run h
  have hcounters := counters_run h
  rw [hcount, Option.map_some] at hcounters
  obtain ⟨product, hproduct, heq⟩ := Option.map_eq_some_iff.mp hcounters
  rw [Prod.mk.injEq] at heq
  obtain ⟨hsequence, hversion⟩ := hretained.ahead.counted hash hstate product hproduct
  have hwithin := hretained.within
  have hlength : s.pending.length = s.keys.stream.length - s.projected := List.length_drop
  omega

/-- The reconciliation reports a lag exactly if an event that is in the stream when it reads the
state hash is not projected when it reads the row, whichever it reads first, and whenever it
reads the transitions and the orders. -/
theorem reconciliation_reports_lag {xs ys : List CleanupAction} {v : Cleaned}
    {transitions orders : Tables} {report : ProjectionReconciliation}
    (hstate : Run (StepOf (Cleaned.next productId)) { tables := T } xs s)
    (hrow : Run (StepOf (Cleaned.next productId)) { tables := T } ys v)
    (hreport : reconcileAuctionProjectionAt productId s.keys v.tables transitions orders =
      .ok report) :
    report.status = .projectionLag ↔ v.projected < s.keys.stream.length := by
  unfold reconcileAuctionProjectionAt at hreport
  split at hreport
  · rename_i product hash hproduct hhash
    have hcounters := counters_run hrow
    unfold Tables.counters at hcounters
    rw [hproduct, Option.map_some] at hcounters
    obtain ⟨count, hcount, heq⟩ := Option.map_eq_some_iff.mp hcounters.symm
    rw [Prod.mk.injEq] at heq
    obtain ⟨hsequence, hversion⟩ := state_counters hstate hhash hcount
    cases hreport
    dsimp only
    split
    · rename_i hsame
      simp only [reduceCtorEq, false_iff]
      omega
    · split
      · rename_i hlag
        simp only [true_iff]
        omega
      · rename_i hnot
        simp only [reduceCtorEq, false_iff]
        omega
  · cases hreport

end

namespace Sample

/-- A bid and the close are projected; the state key gets its lifetime. -/
def finishing : List CleanupAction :=
  [.system (.bootstrap (.early 5) false false), .system (.act (.call (call 1 .bid 2 (some "200")))),
    .system (.project 1 0), .finalize 0, .system (.act (.call closeCall)), .system (.project 2 0),
    .select, .finalize 1]

/-- The key expires during a sweep, and the auction is loaded again. -/
def expired : List CleanupAction :=
  [.expire .state, .compare 0, .system (.bootstrap (.early 6) false false),
    .system (.act (.call (call 3 .bid 3 (some "250")))), .select, .expire .bans]

/-- The close is not yet projected. -/
def lagging : List CleanupAction := finishing.take 5

def cleaned (xs : List CleanupAction) : Cleaned :=
  Run.final (Cleaned.next 1) { tables := tables } xs

end Sample

theorem expiry_loses_nothing_sample :
    (Sample.cleaned Sample.finishing).pending = [] ∧
      Finished 1
        (Run.final (Cleaned.next 1) (Sample.cleaned Sample.finishing) Sample.expired).tables ∧
      (Run.final (Cleaned.next 1) (Sample.cleaned Sample.finishing) Sample.expired).keys.stream =
        (Sample.cleaned Sample.finishing).keys.stream :=
  expiry_loses_nothing (T := Sample.tables) (Run.to_final (by decide +kernel)) (by decide +kernel)
    (Run.to_final (by decide +kernel))

/-- The row is read before, or after, the projection of the close. -/
theorem reconciliation_reports_lag_sample : ∃ before after,
    reconcileAuctionProjectionAt 1 (Sample.cleaned Sample.lagging).keys
        (Sample.cleaned Sample.lagging).tables Sample.tables Sample.tables = .ok before ∧
      before.status = .projectionLag ∧
    reconcileAuctionProjectionAt 1 (Sample.cleaned Sample.lagging).keys
        (Sample.cleaned Sample.finishing).tables Sample.tables Sample.tables = .ok after ∧
      after.status ≠ .projectionLag := by
  have hbefore : (reconcileAuctionProjectionAt 1 (Sample.cleaned Sample.lagging).keys
      (Sample.cleaned Sample.lagging).tables Sample.tables Sample.tables).isOk = true := by
    decide +kernel
  have hafter : (reconcileAuctionProjectionAt 1 (Sample.cleaned Sample.lagging).keys
      (Sample.cleaned Sample.finishing).tables Sample.tables Sample.tables).isOk = true := by
    decide +kernel
  obtain ⟨before, hbefore⟩ := Except.exists_ok hbefore
  obtain ⟨after, hafter⟩ := Except.exists_ok hafter
  have hlagging : Run (StepOf (Cleaned.next 1)) { tables := Sample.tables } Sample.lagging
      (Sample.cleaned Sample.lagging) := Run.to_final (by decide +kernel)
  have hfinishing : Run (StepOf (Cleaned.next 1)) { tables := Sample.tables } Sample.finishing
      (Sample.cleaned Sample.finishing) := Run.to_final (by decide +kernel)
  refine ⟨before, after, hbefore, ?_, hafter, ?_⟩
  · exact (reconciliation_reports_lag hlagging hlagging hbefore).mpr (by decide +kernel)
  · rw [ne_eq, reconciliation_reports_lag hlagging hfinishing hafter]
    decide +kernel

end MiracleAuction
