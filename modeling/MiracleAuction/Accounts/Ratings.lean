import MiracleAuction.Base.Numeral
import MiracleAuction.Base.ReadCommitted

/-!
# `user.repository.ts`: ratings

The transactions of `rateUser`: each inserts a rating, counts the ratings of the user and stores
what it has counted with the user.
-/
namespace MiracleAuction.Accounts
open ReadCommitted Numeral

/-- A row of `user_rating`. -/
structure UserRating where
  userId : Int
  raterId : Int
  score : Int
  comment : String
  deriving DecidableEq, Repr

/-- What a row of `users` says of the ratings; the `rating` is a double. -/
structure RatedUser where
  rating : ℚ
  ratingCount : Nat
  deriving DecidableEq

structure RatingTables where
  userRating : List UserRating
  users : Int → Option RatedUser

namespace RatingTables

def ratingsOf (d : RatingTables) (userId : Int) : List UserRating :=
  d.userRating.filter (·.userId = userId)

end RatingTables

def positiveCount (ratings : List UserRating) : Nat := ratings.countP (1 ≤ ·.score)

/-- The `rating` of `rateUser`: a division and a multiplication of doubles. -/
def ratingOf (positiveRatingCount ratingCount : Nat) : ℚ :=
  if 0 < ratingCount then double (double (positiveRatingCount / ratingCount) * 5) else 5

/-! ## `rateUser` -/

/-- The next statement. -/
inductive RateUserPhase
  | create
  | count
  | countPositive (ratingCount : Nat)
  | update (ratingCount positiveRatingCount : Nat)
  | commit (row : RatedUser)

structure RateUser where
  rating : UserRating
  phase : RateUserPhase

namespace RateUser

/-- The tables as the transaction has changed them. -/
def view (p : RateUser) (d : RatingTables) : RatingTables :=
  match p.phase with
  | .create => d
  | .count | .countPositive _ | .update _ _ =>
    { d with userRating := d.userRating ++ [p.rating] }
  | .commit row =>
    { userRating := d.userRating ++ [p.rating],
      users := Function.update d.users p.rating.userId (some row) }

/-- The next statement; an insert fails without the users that it refers to, and so does an update
of no row. -/
def statement (p : RateUser) (d : RatingTables) : Option RateUser :=
  let ratings := d.ratingsOf p.rating.userId
  match p.phase with
  | .create =>
    if (d.users p.rating.userId).isSome ∧ (d.users p.rating.raterId).isSome then
      some { p with phase := .count }
    else none
  | .count => some { p with phase := .countPositive ratings.length }
  | .countPositive ratingCount =>
    some { p with phase := .update ratingCount (positiveCount ratings) }
  | .update ratingCount positiveRatingCount =>
    (d.users p.rating.userId).map fun _ =>
      { p with phase := .commit ⟨ratingOf positiveRatingCount ratingCount, ratingCount⟩ }
  | .commit _ => none

/-- Only an update of a user locks out another one. -/
def program : Program RatingTables RateUser Int where
  view := view
  statement := statement
  done p :=
    match p.phase with
    | .commit _ => true
    | _ => false
  locks p :=
    match p.phase with
    | .commit _ => [p.rating.userId]
    | _ => []

theorem done_iff {p : RateUser} : program.done p = true ↔ ∃ row, p.phase = .commit row := by
  obtain ⟨rating, phase⟩ := p
  cases phase <;> simp [program]

end RateUser

/-- Each transaction is about to insert its rating. -/
def startRating {ι : Type*} (ratings : ι → UserRating) (d : RatingTables) :
    State ι RatingTables RateUser where
  data := d
  status i := .running ⟨ratings i, .create⟩

/-- The user's row says how many ratings there are, and five times the share of positive ones, both
rounded to doubles. -/
def RatingTables.Matches (d : RatingTables) (userId : Int) : Prop :=
  ∃ row, d.users userId = some row ∧ row.ratingCount = (d.ratingsOf userId).length ∧
    row.rating =
      double (5 * double (positiveCount (d.ratingsOf userId) / (d.ratingsOf userId).length))

/-- The rounding costs less than a billionth. -/
theorem RatingTables.Matches.near {d : RatingTables} {userId : Int} (h : d.Matches userId) :
    ∃ row, d.users userId = some row ∧
      |row.rating - 5 * (positiveCount (d.ratingsOf userId) / (d.ratingsOf userId).length)| ≤
        1 / 10 ^ 9 := by
  obtain ⟨row, hrow, -, hrating⟩ := h
  refine ⟨row, hrow, ?_⟩
  have hle : positiveCount (d.ratingsOf userId) ≤ (d.ratingsOf userId).length :=
    List.countP_le_length
  generalize positiveCount (d.ratingsOf userId) = positive at *
  generalize (d.ratingsOf userId).length = count at *
  have hnonneg : (0 : ℚ) ≤ positive / count := by positivity
  have hone : (positive : ℚ) / count ≤ 1 :=
    div_le_one_of_le₀ (by exact_mod_cast hle) (Nat.cast_nonneg _)
  rw [hrating]
  generalize (positive : ℚ) / count = share at *
  have hshare : |double share - share| ≤ 1 / 2 ^ 52 := by
    have hulp : ulp share ≤ 2 ^ (0 - 52 : Int) := by
      refine ulp_le le_rfl ?_
      rw [abs_of_nonneg hnonneg]
      norm_num
      linarith
    have := abs_double_sub_le share
    norm_num at hulp ⊢
    linarith
  obtain ⟨hlow, hhigh⟩ := abs_le.mp hshare
  have hproduct : |double (5 * double share) - 5 * double share| ≤ 1 / 2 ^ 50 := by
    have hulp : ulp (5 * double share) ≤ 2 ^ (2 - 52 : Int) := by
      refine ulp_le (by omega) ?_
      rw [abs_lt]
      norm_num at hlow hhigh ⊢
      constructor <;> linarith
    have := abs_double_sub_le (5 * double share)
    norm_num at hulp ⊢
    linarith
  obtain ⟨hlow', hhigh'⟩ := abs_le.mp hproduct
  rw [abs_le]
  norm_num at hlow hhigh hlow' hhigh' ⊢
  constructor <;> linarith

section
variable {ι : Type*} [DecidableEq ι] {ratings : ι → UserRating} {d : RatingTables}
  {s t u v : State ι RatingTables RateUser} {a : Move ι}
  {as before between after : List (Move ι)} {i : ι} {p : RateUser} {userId : Int}

/-- The ratings of a user that these steps commit. -/
def committedRatings (ratings : ι → UserRating) (userId : Int) :
    List (Move ι) → List UserRating
  | [] => []
  | .commit i :: as =>
    if (ratings i).userId = userId then ratings i :: committedRatings ratings userId as
    else committedRatings ratings userId as
  | _ :: as => committedRatings ratings userId as

omit [DecidableEq ι] in
theorem committedRatings_eq_nil :
    committedRatings ratings userId as = [] ↔
      ∀ j, .commit j ∈ as → (ratings j).userId ≠ userId := by
  induction as with
  | nil => simp [committedRatings]
  | cons a as ih =>
    cases a with
    | commit j =>
      by_cases hj : (ratings j).userId = userId
      · simp [committedRatings, hj]
      · simp [committedRatings, hj, ih]
    | statement | abort => simp [committedRatings, ih]

/-! ## The ratings in the table -/

/-- Each transaction inserts the rating that it was called with. -/
def Calls (ratings : ι → UserRating) (s : State ι RatingTables RateUser) : Prop :=
  ∀ i p, s.status i = .running p → p.rating = ratings i

theorem statement_rating {p' : RateUser} (h : p.statement d = some p') : p'.rating = p.rating := by
  unfold RateUser.statement at h
  dsimp only at h
  split at h
  · split at h
    · cases h
      rfl
    · cases h
  · cases h
    rfl
  · cases h
    rfl
  · obtain ⟨_, _, rfl⟩ := Option.map_eq_some_iff.mp h
    rfl
  · cases h

omit [DecidableEq ι] in
theorem calls_start (ratings : ι → UserRating) (d : RatingTables) :
    Calls ratings (startRating ratings d) := by
  intro i p hp
  cases hp
  rfl

theorem calls_step (h : Step RateUser.program s a t) (hs : Calls ratings s) : Calls ratings t := by
  intro j q hq
  cases h with
  | @statement i p p' hp hp' hfree =>
    by_cases hj : j = i
    · subst hj
      obtain rfl : p' = q := by simpa [State.set] using hq
      exact (statement_rating hp').trans (hs j p hp)
    · exact hs j q (by simpa [State.set, hj] using hq)
  | @commit i p hp hdone =>
    by_cases hj : j = i
    · simp [hj] at hq
    · exact hs j q (by simpa [hj] using hq)
  | @abort i p hp =>
    by_cases hj : j = i
    · simp [State.set, hj] at hq
    · exact hs j q (by simpa [State.set, hj] using hq)

theorem calls_run (h : Run (Step RateUser.program) s as t) (hs : Calls ratings s) :
    Calls ratings t :=
  h.preserves (fun _ _ _ => calls_step) hs

theorem ratingsOf_append {rating : UserRating} {users : Int → Option RatedUser} :
    RatingTables.ratingsOf ⟨d.userRating ++ [rating], users⟩ userId =
      d.ratingsOf userId ++ if rating.userId = userId then [rating] else [] := by
  unfold RatingTables.ratingsOf
  rw [List.filter_append]
  congr 1
  by_cases h : rating.userId = userId
  · simp [h]
  · simp [h]

theorem ratingsOf_commit (userId : Int) (hdone : RateUser.program.done p) :
    (p.view d).ratingsOf userId =
      d.ratingsOf userId ++ if p.rating.userId = userId then [p.rating] else [] := by
  obtain ⟨row, hrow⟩ := RateUser.done_iff.mp hdone
  unfold RateUser.view
  rw [hrow]
  exact ratingsOf_append

/-- A table holds what it held, and the ratings that were committed. -/
theorem ratingsOf_run (userId : Int) (h : Run (Step RateUser.program) s as t)
    (hs : Calls ratings s) :
    t.data.ratingsOf userId = s.data.ratingsOf userId ++ committedRatings ratings userId as := by
  induction h with
  | refl => simp [committedRatings]
  | @cons s t u a as ha _ ih =>
    rw [ih (calls_step ha hs)]
    cases ha with
    | statement | abort => rfl
    | @commit i p hp hdone =>
      change (p.view s.data).ratingsOf userId ++ _ = _
      rw [ratingsOf_commit _ hdone, hs i p hp, List.append_assoc]
      by_cases hi : (ratings i).userId = userId
      · simp [committedRatings, hi]
      · simp [committedRatings, hi]

/-- Where no rating of the user is committed, the user's row stays. -/
theorem users_run (h : Run (Step RateUser.program) s as t) (hs : Calls ratings s)
    (hnone : ∀ j, .commit j ∈ as → (ratings j).userId ≠ userId) :
    t.data.users userId = s.data.users userId := by
  induction h with
  | refl => rfl
  | @cons s t u a as ha _ ih =>
    rw [ih (calls_step ha hs) fun j hj => hnone j (List.mem_cons_of_mem _ hj)]
    cases ha with
    | statement | abort => rfl
    | @commit i p hp hdone =>
      obtain ⟨row, hrow⟩ := RateUser.done_iff.mp hdone
      have hi := hnone i List.mem_cons_self
      change (p.view s.data).users userId = _
      unfold RateUser.view
      rw [hrow]
      dsimp only
      rw [hs i p hp, Function.update_of_ne (Ne.symm hi)]

/-! ## What a transaction has counted -/

/-- The transaction has counted `old` and its own rating, and while no other rating of the user
comes, what it has computed is true of them. -/
def Counted (old : List UserRating) (p : RateUser) (d : RatingTables) : Prop :=
  old <+: d.ratingsOf p.rating.userId ∧
    let positive := positiveCount (old ++ [p.rating])
    let ratingCount := old.length + 1
    let unchanged := d.ratingsOf p.rating.userId = old
    match p.phase with
    | .create | .count => False
    | .countPositive n => n = ratingCount
    | .update n m => n = ratingCount ∧ (unchanged → m = positive)
    | .commit row => row.ratingCount = ratingCount ∧
        (unchanged → row.rating = double (5 * double (positive / ratingCount)))

theorem counted_statement {old : List UserRating} {p' : RateUser} (h : Counted old p d)
    (hstatement : p.statement (p.view d) = some p') : Counted old p' d := by
  obtain ⟨rating, phase⟩ := p
  obtain ⟨hgrows, h⟩ := h
  have hview : RatingTables.ratingsOf ⟨d.userRating ++ [rating], d.users⟩ rating.userId =
      d.ratingsOf rating.userId ++ [rating] := by
    rw [ratingsOf_append, if_pos rfl]
  cases phase with
  | create | count => exact h.elim
  | countPositive n =>
    cases hstatement
    refine ⟨hgrows, h, fun hsame => ?_⟩
    change positiveCount (RatingTables.ratingsOf ⟨d.userRating ++ [rating], d.users⟩ _) = _
    rw [hview, hsame]
  | update n m =>
    obtain ⟨_, _, rfl⟩ := Option.map_eq_some_iff.mp hstatement
    obtain ⟨hn, hm⟩ := h
    refine ⟨hgrows, hn, fun hsame => ?_⟩
    change ratingOf m n = _
    rw [hm hsame, hn, ratingOf, if_pos (Nat.succ_pos _), mul_comm]
  | commit row => cases hstatement

/-- More ratings keep the promise. -/
theorem counted_mono {old new : List UserRating} {d' : RatingTables} (h : Counted old p d)
    (hd : d'.ratingsOf p.rating.userId = d.ratingsOf p.rating.userId ++ new) :
    Counted old p d' := by
  obtain ⟨rating, phase⟩ := p
  obtain ⟨hgrows, h⟩ := h
  have hgrows' : d.ratingsOf rating.userId <+: d'.ratingsOf rating.userId := ⟨new, hd.symm⟩
  have hsame : d'.ratingsOf rating.userId = old → d.ratingsOf rating.userId = old := by
    intro hold
    exact List.IsPrefix.eq_of_length_le (hold ▸ hgrows') hgrows.length_le
  refine ⟨hgrows.trans hgrows', ?_⟩
  cases phase with
  | create | count => exact h
  | countPositive => exact h
  | update => exact ⟨h.1, fun hold => h.2 (hsame hold)⟩
  | commit => exact ⟨h.1, fun hold => h.2 (hsame hold)⟩

/-- What one transaction has counted is kept by the steps of all. -/
theorem counted_run {old : List UserRating} (h : Run (Step RateUser.program) s as t)
    (hs : ∀ p, s.status i = .running p → Counted old p s.data) :
    ∀ p, t.status i = .running p → Counted old p t.data := by
  refine h.preserves (I := fun s => ∀ p, s.status i = .running p → Counted old p s.data)
    (fun s a t hstep hs q hq => ?_) hs
  cases hstep with
  | @statement j p p' hp hp' hfree =>
    by_cases hi : i = j
    · subst hi
      obtain rfl : p' = q := by simpa [State.set] using hq
      exact counted_statement (hs p hp) hp'
    · exact hs q (by simpa [State.set, hi] using hq)
  | @commit j p hp hdone =>
    by_cases hi : i = j
    · simp [hi] at hq
    · exact counted_mono (hs q (by simpa [hi] using hq)) (ratingsOf_commit _ hdone)
  | @abort j p hp =>
    by_cases hi : i = j
    · simp [State.set, hi] at hq
    · exact hs q (by simpa [State.set, hi] using hq)

/-- The first count of a transaction begins what it promises. -/
theorem counted_count (hcount : s.status i = .running ⟨ratings i, .count⟩)
    (h : Step RateUser.program s (.statement i) t) :
    t.data = s.data ∧ ∀ p, t.status i = .running p →
      Counted (s.data.ratingsOf (ratings i).userId) p t.data := by
  cases h with
  | @statement _ p p' hp hp' hfree =>
    obtain rfl : ⟨ratings i, .count⟩ = p := by
      rw [hcount] at hp
      injection hp
    refine ⟨rfl, fun q hq => ?_⟩
    obtain rfl : p' = q := by simpa [State.set] using hq
    cases hp'
    refine ⟨List.prefix_refl _, ?_⟩
    change (RatingTables.ratingsOf
      ⟨s.data.userRating ++ [ratings i], s.data.users⟩ _).length = _
    rw [ratingsOf_append, if_pos rfl, List.length_append]
    rfl

/-- What is committed is right exactly if nothing has come since the first count. -/
theorem matches_commit {old : List UserRating} (hdone : RateUser.program.done p)
    (h : Counted old p d) :
    (p.view d).Matches p.rating.userId ↔ d.ratingsOf p.rating.userId = old := by
  have hview := ratingsOf_commit p.rating.userId hdone (d := d)
  obtain ⟨row, hrow⟩ := RateUser.done_iff.mp hdone
  obtain ⟨rating, phase⟩ := p
  dsimp only at hrow hview ⊢
  subst hrow
  obtain ⟨hgrows, hcount, hshare⟩ := h
  dsimp only at hgrows hshare
  have husers : (RateUser.view ⟨rating, .commit row⟩ d).users rating.userId = some row := by
    unfold RateUser.view
    simp
  rw [if_pos rfl] at hview
  unfold RatingTables.Matches
  rw [husers, hview, List.length_append, List.length_singleton]
  constructor
  · rintro ⟨_, ⟨⟩, hlength, _⟩
    rw [hcount] at hlength
    exact (hgrows.eq_of_length (by omega)).symm
  · intro hsame
    refine ⟨row, rfl, by rw [hcount, hsame], ?_⟩
    rw [hshare hsame, hsame]

/-- The last transaction that commits a rating of a user leaves what it has counted: the user's row
is right exactly if no other such transaction has committed between its count and its commit. -/
theorem ratings_match_iff {ι : Type*} [DecidableEq ι] (ratings : ι → UserRating)
    (d : RatingTables)
    {before between after : List (Move ι)} {s t v : State ι RatingTables RateUser} {i : ι}
    (hbefore : Run (Step RateUser.program) (startRating ratings d) before s)
    (hcount : s.status i = .running ⟨ratings i, .count⟩)
    (hbetween : Run (Step RateUser.program) s (.statement i :: between) t)
    (hafter : Run (Step RateUser.program) t (.commit i :: after) v)
    (hlast : ∀ j, .commit j ∈ after → (ratings j).userId ≠ (ratings i).userId) :
    v.data.Matches (ratings i).userId ↔
      ∀ j, .commit j ∈ between → (ratings j).userId ≠ (ratings i).userId := by
  have hs := calls_run hbefore (calls_start ratings d)
  have ht := calls_run hbetween hs
  have hgrown := ratingsOf_run (ratings i).userId hbetween hs
  cases hbetween with
  | cons hfirst hrest =>
    obtain ⟨hdata, hcounted⟩ := counted_count hcount hfirst
    have hcounted := counted_run hrest hcounted
    cases hafter with
    | cons hcommit hrun =>
      have hu := calls_step hcommit ht
      have hrows := ratingsOf_run (ratings i).userId hrun hu
      have hrow := users_run hrun hu hlast
      rw [committedRatings_eq_nil.mpr hlast, List.append_nil] at hrows
      cases hcommit with
      | @commit _ p hp hdone =>
        have hsame := matches_commit hdone (hcounted p hp)
        rw [ht i p hp] at hsame
        rw [hgrown] at hsame
        have hmatches : v.data.Matches (ratings i).userId ↔
            (p.view t.data).Matches (ratings i).userId := by
          unfold RatingTables.Matches
          rw [hrow, hrows]
          rfl
        rw [hmatches, hsame, List.append_right_eq_self]
        change committedRatings ratings (ratings i).userId between = [] ↔ _
        exact committedRatings_eq_nil

/-! ## Two ratings -/

/-- Two users rate a third one. -/
def twoRatings (first : Bool) : UserRating := ⟨3, if first then 1 else 2, 1, "good"⟩

def noRatings : RatingTables := ⟨[], fun _ => some ⟨0, 0⟩⟩

/-- Both count before either commits. -/
def overlapping : List (Move Bool) :=
  [.statement true, .statement false, .statement true, .statement false, .statement true,
    .statement false, .statement true, .commit true, .statement false, .commit false]

theorem rating_lost :
    ∃ s, Run (Step RateUser.program) (startRating twoRatings noRatings) overlapping s ∧
      (∀ i, s.status i = .committed) ∧ ¬ s.data.Matches 3 := by
  refine ⟨_, run_final (by decide), fun i => by cases i <;> rfl, ?_⟩
  rintro ⟨row, hrow, hcount, _⟩
  have hone : some 1 = some row.ratingCount := congrArg (Option.map RatedUser.ratingCount) hrow
  have htwo : some row.ratingCount = some 2 := congrArg some hcount
  exact absurd (hone.trans htwo) (by decide)

/-- One of them commits before the other one starts. -/
def firstRated : State Bool RatingTables RateUser :=
  Run.final (State.next RateUser.program) (startRating twoRatings noRatings)
    [.statement true, .statement true, .statement true, .statement true, .commit true,
      .statement false]

def secondCounted : State Bool RatingTables RateUser :=
  Run.final (State.next RateUser.program) firstRated
    [.statement false, .statement false, .statement false]

theorem ratings_match_in_turn :
    (Run.final (State.next RateUser.program) secondCounted [.commit false]).data.Matches 3 :=
  (ratings_match_iff twoRatings noRatings (run_final (by decide)) rfl
    (run_final (by decide)) (run_final (by decide)) (by simp)).mpr (by simp)

end

end MiracleAuction.Accounts
