import MiracleAuction.Base.Like
import MiracleAuction.Base.Queries
import MiracleAuction.Visitors.Recording

/-!
# `visitor-analytics.repository.ts`: the list of sessions

The filter of `listSessions` is written twice, for the query of the rows and for the query of their
number and summary.
-/
namespace MiracleAuction.Visitors
open Decimal

inductive Risk
  | anonymous
  | hosting
  | mobile
  deriving DecidableEq, Repr

inductive SessionSort
  | lastSeenDesc
  | firstSeenDesc
  | durationDesc
  | eventsDesc
  deriving DecidableEq, Repr

/-- `SessionFilters`, but for the page; the schema admits positive limits only. -/
structure SessionFilters where
  limit : Nat
  limit_pos : 0 < limit := by decide
  search : Option Text := none
  authenticated : Option Bool := none
  countryCode : Option Text := none
  region : Option Text := none
  city : Option Text := none
  eventType : Option VisitorEventType := none
  risk : Option Risk := none
  fromDate : Option Int := none
  toDate : Option Int := none
  sort : SessionSort := .lastSeenDesc

/-- What the queries read of a row of `users`. -/
structure Visitor where
  email : Text
  username : Text

structure AnalyticsTables (υ : Type) extends VisitorTables υ where
  users : Int → Option Visitor

/-- The texts of the database: lower case as its collation has it, and the `contains` of Prisma,
which may disregard case. -/
structure Texts where
  lower : Char → Char
  contains : Bool → Text → Text → Bool

/-- What is known of them: lower case extends that of ASCII, and `contains` is `LIKE`, or `ILIKE`,
with the text between two `%`. -/
structure Texts.Lawful (texts : Texts) : Prop where
  lower_toLower : ∀ c : Char, texts.lower c.toLower = texts.lower c
  contains_like : ∀ column x, texts.contains false column x = Like.like column ('%' :: x ++ ['%'])
  contains_ilike : ∀ column x,
    texts.contains true column x = Like.ilike texts.lower column ('%' :: x ++ ['%'])

section
variable {υ : Type} [LinearOrder υ] (uuid : UuidType υ) (texts : Texts) (d : AnalyticsTables υ)
  (filters : SessionFilters) (session : VisitorSession υ)

/-- A text that is there and not empty. -/
def truthy (text : Option Text) : Option Text := text.filter (· ≠ [])

/-- A condition that holds of the user of the session. -/
def isUser (condition : Visitor → Bool) : Bool := (session.userId.bind d.users).any condition

def isRisk : Risk → Bool
  | .anonymous => session.geo.isAnonymous = some true
  | .hosting => session.geo.isHosting = some true
  | .mobile => session.geo.isMobile = some true

def hasEvent (eventType : VisitorEventType) : Bool :=
  (d.eventsOf session.sessionId).any (·.eventType = eventType)

/-- The alternatives of `sessionWhere` for a search. -/
def rowSearch (search : Text) : Bool :=
  texts.contains false session.ipAddress search ||
    (isUuidV4 search &&
      (uuid.parse search = some session.visitorId || uuid.parse search = some session.sessionId)) ||
    texts.contains true session.landingPath search ||
    texts.contains true session.exitPath search ||
    isUser d session (texts.contains true ·.email search) ||
    isUser d session (texts.contains true ·.username search)

/-- `sessionWhere`. -/
def sessionWhere : Bool :=
  filters.fromDate.all (· ≤ session.lastSeenAt) &&
    filters.toDate.all (session.lastSeenAt ≤ ·) &&
    filters.authenticated.all (· = session.userId.isSome) &&
    filters.countryCode.all (session.geo.countryCode = some ·) &&
    filters.region.all (session.geo.region = some ·) &&
    filters.city.all (session.geo.city = some ·) &&
    filters.risk.all (isRisk session) && filters.eventType.all (hasEvent d session) &&
    (truthy filters.search).all (rowSearch uuid texts d session)

/-- The alternatives of `summaryWhere` for a search. -/
def summarySearch (search : Text) : Bool :=
  let term := '%' :: search ++ ['%']
  Like.ilike texts.lower session.ipAddress term ||
    Like.ilike texts.lower (uuid.text session.visitorId) term ||
    Like.ilike texts.lower (uuid.text session.sessionId) term ||
    Like.ilike texts.lower session.landingPath term ||
    Like.ilike texts.lower session.exitPath term ||
    isUser d session fun user =>
      Like.ilike texts.lower user.email term || Like.ilike texts.lower user.username term

/-- `summaryWhere`. -/
def summaryWhere : Bool :=
  filters.fromDate.all (· ≤ session.lastSeenAt) &&
    filters.toDate.all (session.lastSeenAt ≤ ·) &&
    filters.authenticated.all (· = session.userId.isSome) &&
    (truthy filters.countryCode).all (session.geo.countryCode = some ·) &&
    (truthy filters.region).all (session.geo.region = some ·) &&
    (truthy filters.city).all (session.geo.city = some ·) &&
    filters.risk.all (isRisk session) && filters.eventType.all (hasEvent d session) &&
    (truthy filters.search).all (summarySearch uuid texts d session)

/-- `orderBy`: the first session may stand before the second one. -/
def SessionSort.Before (a b : VisitorSession υ) : SessionSort → Prop
  | .lastSeenDesc => toLex (b.lastSeenAt, b.sessionId) ≤ toLex (a.lastSeenAt, a.sessionId)
  | .firstSeenDesc => toLex (b.firstSeenAt, b.sessionId) ≤ toLex (a.firstSeenAt, a.sessionId)
  | .eventsDesc => toLex (b.eventCount, b.lastSeenAt) ≤ toLex (a.eventCount, a.lastSeenAt)
  | .durationDesc =>
    toLex (b.durationSeconds, b.lastSeenAt) ≤ toLex (a.durationSeconds, a.lastSeenAt)

end

/-! ## `listSessions` -/

structure Summary where
  sessions : Nat
  uniqueVisitors : Nat
  authenticatedSessions : Nat
  bounceSessions : Nat
  averageDurationSeconds : Int
  deriving DecidableEq

/-- The aggregates; `AVG` of no rows is `NULL`, for which 0 is reported. -/
def summarise {υ : Type} [DecidableEq υ] (sessions : List (VisitorSession υ)) : Summary where
  sessions := sessions.length
  uniqueVisitors := (sessions.map (·.visitorId)).dedup.length
  authenticatedSessions := sessions.countP (·.userId.isSome)
  bounceSessions := sessions.countP (·.pageViewCount ≤ 1)
  averageDurationSeconds :=
    (((sessions.map (·.durationSeconds)).sum : ℚ) / sessions.length + 1 / 2).floor

structure SessionsPage (υ : Type) where
  rows : List (VisitorSession υ)
  total : Nat
  summary : Summary

variable {υ : Type} [LinearOrder υ] (uuid : UuidType υ) (texts : Texts) (d : AnalyticsTables υ)
  (filters : SessionFilters)

/-- The sessions of the rows, and those of the number and the summary. -/
def matching : List (VisitorSession υ) := d.sessions.filter (sessionWhere uuid texts d filters)

def counted : List (VisitorSession υ) := d.sessions.filter (summaryWhere uuid texts d filters)

/-- What `listSessions` may return for a page; the first one is 1. -/
def ListSessions (page : Nat) (reply : SessionsPage υ) : Prop :=
  ∃ rows, Paging.Answers (fun a b => filters.sort.Before a b) (matching uuid texts d filters)
      filters.limit ((page - 1) * filters.limit) rows ∧
    reply =
      ⟨rows, (counted uuid texts d filters).length, summarise (counted uuid texts d filters)⟩

/-- Replies for the pages up to `totalPages`, which the controller computes. -/
def Replies (replies : Nat → SessionsPage υ) : Prop :=
  ListSessions uuid texts d filters 1 (replies 1) ∧
    ∀ i < Paging.pageCount (replies 1).total filters.limit,
      ListSessions uuid texts d filters (i + 1) (replies (i + 1))

/-- The sessions of these pages, one page after the other. -/
def listed (replies : Nat → SessionsPage υ) : List (VisitorSession υ) :=
  Paging.concat (fun i => (replies (i + 1)).rows)
    (Paging.pageCount (replies 1).total filters.limit)

/-- The pages list every session that was counted, once, and no other, and the number and the
summary are those of the sessions that they list. -/
def Consistent (replies : Nat → SessionsPage υ) : Prop :=
  (listed filters replies).Perm (counted uuid texts d filters) ∧
    (replies 1).total = (listed filters replies).length ∧
    (replies 1).summary = summarise (listed filters replies)

/-! ## Two filters -/

/-- The session is found without regard to case in what both searches look at alike. -/
def foundInTexts (session : VisitorSession υ) (search : Text) : Bool :=
  let term := '%' :: search ++ ['%']
  Like.ilike texts.lower session.landingPath term ||
    Like.ilike texts.lower session.exitPath term ||
    isUser d session (Like.ilike texts.lower ·.email term) ||
    isUser d session (Like.ilike texts.lower ·.username term)

/-- The session is found by its visitor's id or its own, as a whole. -/
def foundById (session : VisitorSession υ) (search : Text) : Bool :=
  isUuidV4 search &&
    (uuid.parse search = some session.visitorId || uuid.parse search = some session.sessionId)

/-- The session is found by a part of an id, or by its address in some case. -/
def foundByPart (session : VisitorSession υ) (search : Text) : Bool :=
  let term := '%' :: search ++ ['%']
  Like.ilike texts.lower session.ipAddress term ||
    Like.ilike texts.lower (uuid.text session.visitorId) term ||
    Like.ilike texts.lower (uuid.text session.sessionId) term

/-- Only the summary finds the session: by a part of an id, or by its address in another case. -/
def OnlyByPart (session : VisitorSession υ) (search : Text) : Prop :=
  foundByPart uuid texts session search = true ∧
    Like.like session.ipAddress ('%' :: search ++ ['%']) = false ∧
    foundById uuid session search = false ∧ foundInTexts texts d session search = false

/-- A location filter is the empty text, which only the query of the rows compares. -/
def OnlyByLocation (session : VisitorSession υ) : Prop :=
  filters.countryCode = some [] ∧ session.geo.countryCode ≠ some [] ∨
    filters.region = some [] ∧ session.geo.region ≠ some [] ∨
    filters.city = some [] ∧ session.geo.city ≠ some []

instance (search : Text) : Decidable (OnlyByPart uuid texts d session search) := by
  unfold OnlyByPart; infer_instance

instance : Decidable (OnlyByLocation filters session) := by
  unfold OnlyByLocation; infer_instance

section
variable {uuid : UuidType υ} {texts : Texts} {d : AnalyticsTables υ} {filters : SessionFilters}
  {session : VisitorSession υ} {search : Text}

theorem plain_of_isUuidV4 (h : isUuidV4 search = true) : Like.Plain search := by
  have hplain : ∀ c, isHexDigit c = true ∨ c = '-' ∨ c = '4' ∨
      c ∈ ['8', '9', 'a', 'b', 'A', 'B'] →
      c ≠ '%' ∧ c ≠ '_' ∧ c ≠ '\\' := by
    rintro c hc
    refine ⟨?_, ?_, ?_⟩
    all_goals
      rintro rfl
      revert hc
      decide
  intro c hc
  obtain ⟨i, hi⟩ := List.getElem?_of_mem hc
  unfold isUuidV4 at h
  have hchar := List.all_eq_true.mp (Bool.and_eq_true_iff.mp h).2 (c, i)
    (List.mk_mem_zipIdx_iff_getElem?.mpr hi)
  refine hplain c ?_
  dsimp only at hchar
  split at hchar
  · exact .inr (.inl (of_decide_eq_true hchar))
  split at hchar
  · exact .inr (.inr (.inl (of_decide_eq_true hchar)))
  split at hchar
  · exact .inr (.inr (.inr (of_decide_eq_true hchar)))
  · exact .inl hchar

theorem rowSearch_eq (h : texts.Lawful) :
    rowSearch uuid texts d session search =
      (Like.like session.ipAddress ('%' :: search ++ ['%']) || foundById uuid session search ||
        foundInTexts texts d session search) := by
  unfold rowSearch foundById foundInTexts
  simp only [h.contains_like, h.contains_ilike, Bool.or_assoc]

omit [LinearOrder υ] in
theorem summarySearch_eq :
    summarySearch uuid texts d session search =
      (foundByPart uuid texts session search || foundInTexts texts d session search) := by
  have huser : ∀ f g : Visitor → Bool, isUser d session (fun user => f user || g user) =
      (isUser d session f || isUser d session g) := by
    intro f g
    unfold isUser
    cases session.userId.bind d.users <;> rfl
  unfold summarySearch foundByPart foundInTexts
  simp only [huser, Bool.or_assoc]

/-- Whoever is found by an id as a whole is found by a part of it. -/
theorem foundByPart_of_foundById (h : texts.Lawful) (hid : foundById uuid session search = true) :
    foundByPart uuid texts session search = true := by
  unfold foundById at hid
  simp only [Bool.and_eq_true, Bool.or_eq_true, decide_eq_true_eq] at hid
  obtain ⟨huuid, hid⟩ := hid
  have hfound : ∀ id, uuid.parse search = some id →
      Like.ilike texts.lower (uuid.text id) ('%' :: search ++ ['%']) = true := by
    intro id hparse
    refine Like.ilike_self (plain_of_isUuidV4 huuid) ?_
    rw [uuid.text_parse search id huuid hparse, List.map_map]
    exact List.map_congr_left fun c _ => (h.lower_toLower c).symm
  unfold foundByPart
  simp only [Bool.or_eq_true]
  obtain hid | hid := hid
  · exact .inl (.inr (hfound _ hid))
  · exact .inr (hfound _ hid)

/-- A search finds no session for the rows that it does not find for the summary, and misses those
that are found by a part only. -/
theorem rowSearch_iff (h : texts.Lawful) :
    rowSearch uuid texts d session search = true ↔
      summarySearch uuid texts d session search = true ∧
        ¬ OnlyByPart uuid texts d session search := by
  have hid : foundById uuid session search = true →
      foundByPart uuid texts session search = true :=
    foundByPart_of_foundById h
  have hlike : Like.like session.ipAddress ('%' :: search ++ ['%']) = true →
      foundByPart uuid texts session search = true := by
    intro hlike
    unfold foundByPart
    simp only [Bool.or_eq_true]
    exact .inl (.inl (Like.ilike_of_like hlike))
  rw [rowSearch_eq h, summarySearch_eq]
  unfold OnlyByPart
  -- What is left is propositional.
  generalize Like.like session.ipAddress ('%' :: search ++ ['%']) = like at *
  generalize foundById uuid session search = byId at *
  generalize foundByPart uuid texts session search = part at *
  generalize foundInTexts texts d session search = inTexts
  cases like <;> cases byId <;> cases part <;> cases inTexts <;> simp at *

theorem all_truthy_iff (filter column : Option Text) :
    filter.all (column = some ·) = true ↔
      (truthy filter).all (column = some ·) = true ∧
      ¬ (filter = some [] ∧ column ≠ some []) := by
  cases filter with
  | none => simp [truthy]
  | some text =>
    by_cases htext : text = []
    · simp [truthy, htext]
    · simp [truthy, htext]

/-- The rows are the sessions of the summary that are not found by it alone. -/
theorem sessionWhere_iff (h : texts.Lawful) :
    sessionWhere uuid texts d filters session = true ↔
      summaryWhere uuid texts d filters session = true ∧ ¬ OnlyByLocation filters session ∧
        ∀ search ∈ truthy filters.search, ¬ OnlyByPart uuid texts d session search := by
  have hsearch : (truthy filters.search).all (rowSearch uuid texts d session) = true ↔
      (truthy filters.search).all (summarySearch uuid texts d session) = true ∧
        ∀ search ∈ truthy filters.search, ¬ OnlyByPart uuid texts d session search := by
    cases truthy filters.search with
    | none => simp
    | some search => simpa using rowSearch_iff h
  unfold sessionWhere summaryWhere OnlyByLocation
  simp only [Bool.and_eq_true, hsearch, all_truthy_iff filters.countryCode,
    all_truthy_iff filters.region, all_truthy_iff filters.city]
  tauto

/-! ## The pages -/

theorem before_refl (sort : SessionSort) (a : VisitorSession υ) : sort.Before a a := by
  cases sort <;> exact le_rfl

theorem before_trans (sort : SessionSort) (a b c : VisitorSession υ) (hab : sort.Before a b)
    (hbc : sort.Before b c) : sort.Before a c := by
  cases sort <;> exact le_trans hbc hab

theorem before_total (sort : SessionSort) (a b : VisitorSession υ) :
    sort.Before a b ∨ sort.Before b a := by
  cases sort <;> exact le_total _ _

theorem summarise_perm {sessions sessions' : List (VisitorSession υ)}
    (h : sessions.Perm sessions') :
    summarise sessions = summarise sessions' := by
  unfold summarise
  rw [h.length_eq, (h.map _).dedup.length_eq, h.countP_eq, h.countP_eq, (h.map _).sum_eq]

/-- The pages of one answer to each query are replies. -/
theorem replies_of_answers {pages : Nat → List (VisitorSession υ)}
    (h : ∀ i, Paging.Answers (fun a b => filters.sort.Before a b) (matching uuid texts d filters)
      filters.limit (i * filters.limit) (pages i)) :
    Replies uuid texts d filters fun page =>
      ⟨pages (page - 1), (counted uuid texts d filters).length,
        summarise (counted uuid texts d filters)⟩ :=
  ⟨⟨pages 0, h 0, rfl⟩, fun i _ => ⟨pages i, h i, rfl⟩⟩

theorem total_eq {replies : Nat → SessionsPage υ} (h : Replies uuid texts d filters replies) :
    (replies 1).total = (counted uuid texts d filters).length ∧
      (replies 1).summary = summarise (counted uuid texts d filters) := by
  obtain ⟨⟨rows, _, hreply⟩, _⟩ := h
  rw [hreply]
  exact ⟨rfl, rfl⟩

/-- The rows of the pages match the filter of the rows. -/
theorem listed_subset {replies : Nat → SessionsPage υ}
    (h : Replies uuid texts d filters replies) :
    ∀ session ∈ listed filters replies, session ∈ matching uuid texts d filters := by
  intro session hsession
  obtain ⟨i, hi, hsession⟩ := List.mem_flatMap.mp hsession
  obtain ⟨rows, ⟨order, ⟨hperm, _⟩, hrows⟩, hreply⟩ := h.2 i (List.mem_range.mp hi)
  rw [hreply, hrows] at hsession
  exact hperm.mem_iff.mp (List.mem_of_mem_drop (List.mem_of_mem_take hsession))

/-- The two filters agree exactly if none is found by the summary alone. -/
theorem matching_eq_iff (h : texts.Lawful) :
    matching uuid texts d filters = counted uuid texts d filters ↔
      ∀ session ∈ counted uuid texts d filters, ¬ OnlyByLocation filters session ∧
        ∀ search ∈ truthy filters.search, ¬ OnlyByPart uuid texts d session search := by
  constructor
  · intro heq session hsession
    rw [← heq] at hsession
    exact ((sessionWhere_iff h).mp (List.mem_filter.mp hsession).2).2
  · intro hall
    refine List.filter_congr fun session hsession => Bool.eq_iff_iff.mpr ⟨fun hwhere => ?_, ?_⟩
    · exact ((sessionWhere_iff h).mp hwhere).1
    · intro hwhere
      exact (sessionWhere_iff h).mpr
        ⟨hwhere, hall session (List.mem_filter.mpr ⟨hsession, hwhere⟩)⟩

/-- The list and the summary are of the same sessions, in whatever order the database returns
sessions that the sort does not tell apart, exactly if the search and the location filters find no
session for the summary alone and no page ends between two such sessions. -/
theorem sessions_consistent_iff {υ : Type} [LinearOrder υ] (uuid : UuidType υ) (texts : Texts)
    (d : AnalyticsTables υ) (filters : SessionFilters) (h : texts.Lawful) (hkeys : d.ids.Nodup) :
    (∀ replies, Replies uuid texts d filters replies →
      Consistent uuid texts d filters replies) ↔
      (∀ session ∈ counted uuid texts d filters, ¬ OnlyByLocation filters session ∧
        ∀ search ∈ truthy filters.search, ¬ OnlyByPart uuid texts d session search) ∧
      Paging.Separated (fun a b => filters.sort.Before a b) (counted uuid texts d filters)
        filters.limit := by
  have hcounted : (counted uuid texts d filters).Nodup := (List.Nodup.of_map _ hkeys).filter _
  have hcount := Paging.le_pageCount filters.limit_pos (counted uuid texts d filters).length
  rw [← matching_eq_iff h]
  constructor
  · intro hall
    have hsame : matching uuid texts d filters = counted uuid texts d filters := by
      obtain ⟨order, horder⟩ := Paging.exists_sorts (before_trans filters.sort)
        (before_total filters.sort) (matching uuid texts d filters)
      have hanswers : ∀ i, Paging.Answers (fun a b => filters.sort.Before a b)
          (matching uuid texts d filters) filters.limit (i * filters.limit)
          ((order.drop (i * filters.limit)).take filters.limit) := fun i => ⟨order, horder, rfl⟩
      have hreplies := replies_of_answers hanswers
      refine List.filter_congr fun session hsession =>
        Bool.eq_iff_iff.mpr ⟨fun hwhere => ?_, ?_⟩
      · exact ((sessionWhere_iff h).mp hwhere).1
      · intro hwhere
        have hlisted := (hall _ hreplies).1.mem_iff.mpr
          (List.mem_filter.mpr ⟨hsession, hwhere⟩)
        exact (List.mem_filter.mp (listed_subset hreplies _ hlisted)).2
    refine ⟨hsame,
      Paging.separated_of_pages filters.limit_pos hcounted hcount fun pages hpages => ?_⟩
    rw [← hsame] at hpages
    exact (hall _ (replies_of_answers hpages)).1
  · rintro ⟨hsame, hseparated⟩ replies hreplies
    obtain ⟨htotal, hsummary⟩ := total_eq hreplies
    have hlisted : (listed filters replies).Perm (counted uuid texts d filters) := by
      unfold listed
      rw [htotal]
      refine Paging.pages_of_separated (before_trans filters.sort) (before_refl filters.sort)
        filters.limit_pos hcount hseparated fun i hi => ?_
      obtain ⟨rows, hrows, hreply⟩ := hreplies.2 i (by rw [htotal]; exact hi)
      rw [hreply, ← hsame]
      exact hrows
    exact ⟨hlisted, by rw [htotal, hlisted.length_eq], by rw [hsummary, summarise_perm hlisted]⟩

end

/-! ## A few sessions -/

/-- Four ids. -/
def idText (id : Fin 4) : Text :=
  (toString (id.val + 1)).toList ++ "23e4567-e89b-42d3-a456-426614174000".toList

def fewIds : UuidType (Fin 4) where
  text := idText
  parse x := (List.finRange 4).find? fun id => idText id = x.map Char.toLower
  parse_text := by decide
  text_parse x id _ h := by simpa using List.find?_some h

def asciiTexts : Texts where
  lower := Char.toLower
  contains insensitive column x :=
    if insensitive then Like.ilike Char.toLower column ('%' :: x ++ ['%'])
    else Like.like column ('%' :: x ++ ['%'])

theorem asciiTexts_lawful : asciiTexts.Lawful where
  lower_toLower c := Char.toLower_toLower_eq_toLower c
  contains_like _ _ := rfl
  contains_ilike _ _ := rfl

/-- A session of one visitor. -/
def visit (id : Nat) (landingPath : String) (h : id < 4 := by decide) :
    VisitorSession (Fin 4) where
  sessionId := ⟨id, h⟩
  visitorId := ⟨0, by decide⟩
  userId := none
  ipAddress := "203.0.113.10".toList
  firstSeenAt := 0
  lastSeenAt := id
  landingPath := landingPath.toList
  exitPath := "/".toList
  pageViewCount := 2
  eventCount := 2
  durationSeconds := 10
  geo := ⟨none, none, none, none, none, none⟩

def oneSession : AnalyticsTables (Fin 4) where
  sessions := [visit 2 "/products"]
  events := []
  users _ := none

/-- The search for a part of the session's id. -/
def searchFor (search : String) : SessionFilters := { limit := 25, search := some search.toList }

theorem sessions_counted_not_listed :
    ¬ ∀ replies, Replies fewIds asciiTexts oneSession (searchFor "323e") replies →
      Consistent fewIds asciiTexts oneSession (searchFor "323e") replies := by
  intro hall
  have hnone : matching fewIds asciiTexts oneSession (searchFor "323e") = [] := by decide +kernel
  have hanswers : ∀ i, Paging.Answers (fun a b => (searchFor "323e").sort.Before a b)
      (matching fewIds asciiTexts oneSession (searchFor "323e")) 25 (i * 25) [] := by
    intro i
    rw [hnone]
    exact ⟨[], ⟨.nil, .nil⟩, by simp⟩
  obtain ⟨_, htotal, _⟩ := hall _ (replies_of_answers hanswers)
  exact absurd htotal (by decide +kernel)

def fourSessions : AnalyticsTables (Fin 4) where
  sessions := [visit 0 "/products", visit 1 "/about", visit 2 "/products/7", visit 3 "/products"]
  events := []
  users _ := none

/-- Two sessions a page. -/
def twoPages : SessionFilters := { limit := 2, search := some "prod".toList }

theorem counted_fourSessions : counted fewIds asciiTexts fourSessions twoPages =
    [visit 0 "/products", visit 2 "/products/7", visit 3 "/products"] := by
  decide +kernel

/-- The three sessions of a search are on two pages. -/
theorem sessions_consistent_sample :
    (counted fewIds asciiTexts fourSessions twoPages).length = 3 ∧
      ∀ replies, Replies fewIds asciiTexts fourSessions twoPages replies →
        Consistent fewIds asciiTexts fourSessions twoPages replies := by
  refine ⟨by rw [counted_fourSessions]; rfl, ?_⟩
  refine (sessions_consistent_iff fewIds asciiTexts fourSessions twoPages asciiTexts_lawful
    (by decide)).mpr ⟨?_, ?_⟩
  · rw [counted_fourSessions]
    decide +kernel
  · rw [counted_fourSessions]
    refine Paging.separated_of_antisymm (by decide) ?_ fun a ha b hb hab hba => ?_
    · exact List.Nodup.of_map (·.sessionId) (by decide)
    · have hkey : toLex (b.lastSeenAt, b.sessionId) = toLex (a.lastSeenAt, a.sessionId) :=
        le_antisymm hab hba
      have hid : a.sessionId = b.sessionId := (congrArg (fun key => (ofLex key).2) hkey).symm
      simp only [List.mem_cons, List.not_mem_nil, or_false] at ha hb
      rcases ha with rfl | rfl | rfl <;> rcases hb with rfl | rfl | rfl
      all_goals first | rfl | exact absurd hid (by decide)

end MiracleAuction.Visitors
