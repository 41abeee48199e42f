import MiracleAuction.Base.Decimal
import MiracleAuction.Base.ReadCommitted

/-!
# `visitor-analytics.repository.ts`: recording events

The transactions of `record`: each reads the session of its event, creates or updates it, and
inserts the event.
-/
namespace MiracleAuction.Visitors
open Decimal ReadCommitted

/-- `VisitorEventType`. -/
inductive VisitorEventType
  | pageView
  | productView
  | searchSubmitted
  | favoriteToggled
  | authStarted
  | authSucceeded
  | registrationStarted
  | bidStarted
  deriving DecidableEq, Repr

/-- What `record` writes of `GeoData`, of the columns that queries ask for. -/
structure GeoData where
  countryCode : Option Text
  region : Option Text
  city : Option Text
  isAnonymous : Option Bool
  isHosting : Option Bool
  isMobile : Option Bool
  deriving DecidableEq

/-- A row of `visitor_sessions`; times in milliseconds. -/
structure VisitorSession (υ : Type) where
  sessionId : υ
  visitorId : υ
  userId : Option Int
  ipAddress : Text
  firstSeenAt : Int
  lastSeenAt : Int
  landingPath : Text
  exitPath : Text
  pageViewCount : Nat
  eventCount : Nat
  durationSeconds : Nat
  geo : GeoData
  deriving DecidableEq

/-- A row of `visitor_events`. -/
structure VisitorEvent (υ : Type) where
  sessionId : υ
  visitorId : υ
  userId : Option Int
  eventType : VisitorEventType
  path : Text
  deriving DecidableEq

structure VisitorTables (υ : Type) where
  sessions : List (VisitorSession υ)
  events : List (VisitorEvent υ)

/-- A digit of base 16. -/
def isHexDigit (c : Char) : Bool := c.isDigit || 'a' ≤ c && c ≤ 'f' || 'A' ≤ c && c ≤ 'F'

/-- `/^[0-9a-f]{8}-[0-9a-f]{4}-4[0-9a-f]{3}-[89ab][0-9a-f]{3}-[0-9a-f]{12}$/i`. -/
def isUuidV4 (text : Text) : Bool :=
  text.length = 36 && text.zipIdx.all fun (c, i) =>
    if i ∈ [8, 13, 18, 23] then c = '-'
    else if i = 14 then c = '4'
    else if i = 19 then c ∈ ['8', '9', 'a', 'b', 'A', 'B']
    else isHexDigit c

/-- The type `uuid` of PostgreSQL: a value is written in lower case and read in any case. -/
structure UuidType (υ : Type) where
  text : υ → Text
  parse : Text → Option υ
  parse_text : ∀ id, parse (text id) = some id
  text_parse : ∀ x id, isUuidV4 x = true → parse x = some id → text id = x.map Char.toLower

structure RecordVisitorEventInput where
  sessionId : Text
  visitorId : Text
  userId : Option Int
  eventType : VisitorEventType
  path : Text
  ipAddress : Text
  geo : GeoData

/-! ## `record` -/

variable {υ : Type} [DecidableEq υ]

/-- `Math.max(0, Math.round((Date.now() - firstSeenAt) / 1000))`. -/
def secondsSince (now firstSeenAt : Int) : Nat := ((now - firstSeenAt + 500) / 1000).toNat

def pageViews (eventType : VisitorEventType) : Nat := if eventType = .pageView then 1 else 0

/-- The row that an event leaves of its session. -/
def VisitorSession.updated (input : RecordVisitorEventInput) (now firstSeenAt : Int)
    (session : VisitorSession υ) : VisitorSession υ :=
  { session with
    userId := input.userId <|> session.userId
    ipAddress := input.ipAddress
    exitPath := input.path
    geo := input.geo
    lastSeenAt := now
    durationSeconds := secondsSince now firstSeenAt
    eventCount := session.eventCount + 1
    pageViewCount := session.pageViewCount + pageViews input.eventType }

/-- The row of a new session. -/
def VisitorSession.created (input : RecordVisitorEventInput) (sessionId visitorId : υ)
    (now : Int) :
    VisitorSession υ where
  sessionId := sessionId
  visitorId := visitorId
  userId := input.userId
  ipAddress := input.ipAddress
  firstSeenAt := now
  lastSeenAt := now
  landingPath := input.path
  exitPath := input.path
  pageViewCount := pageViews input.eventType
  eventCount := 1
  durationSeconds := 0
  geo := input.geo

/-- What the transaction has done to the session: `firstSeenAt` is what it has read. -/
inductive SessionChange
  | update (firstSeenAt : Int)
  | create
  deriving DecidableEq

/-- The next statement. -/
inductive RecordPhase
  | findUnique
  | write (change : SessionChange)
  | createEvent (change : SessionChange)
  | commit (change : SessionChange)

/-- A transaction, its clock, and what the ids of its input stand for. -/
structure Record (υ : Type) where
  input : RecordVisitorEventInput
  sessionId : υ
  visitorId : υ
  now : Int
  phase : RecordPhase

namespace Record

def event (p : Record υ) : VisitorEvent υ where
  sessionId := p.sessionId
  visitorId := p.visitorId
  userId := p.input.userId
  eventType := p.input.eventType
  path := p.input.path

def change (p : Record υ) (sessions : List (VisitorSession υ)) :
    SessionChange → List (VisitorSession υ)
  | .update firstSeenAt =>
    sessions.map fun session =>
      if session.sessionId = p.sessionId then session.updated p.input p.now firstSeenAt else session
  | .create => sessions ++ [.created p.input p.sessionId p.visitorId p.now]

/-- The tables as the transaction has changed them. -/
def view (p : Record υ) (d : VisitorTables υ) : VisitorTables υ :=
  match p.phase with
  | .findUnique | .write _ => d
  | .createEvent change => { d with sessions := p.change d.sessions change }
  | .commit change => ⟨p.change d.sessions change, d.events ++ [p.event]⟩

/-- The next statement; it fails for an id that is none. The visitor is compared as a text, a second
row of a session violates its key, and without a row there is nothing to update or to refer to. -/
def statement (uuid : UuidType υ) (p : Record υ) (d : VisitorTables υ) : Option (Record υ) :=
  let existing := d.sessions.find? (·.sessionId = p.sessionId)
  match p.phase with
  | .findUnique =>
    if uuid.parse p.input.sessionId ≠ some p.sessionId then none
    else
      match existing with
      | some session =>
        if uuid.text session.visitorId ≠ p.input.visitorId then none
        else some { p with phase := .write (.update session.firstSeenAt) }
      | none => some { p with phase := .write .create }
  | .write (.update firstSeenAt) =>
    existing.map fun _ => { p with phase := .createEvent (.update firstSeenAt) }
  | .write .create =>
    if uuid.parse p.input.visitorId ≠ some p.visitorId ∨ existing.isSome then none
    else some { p with phase := .createEvent .create }
  | .createEvent change =>
    if uuid.parse p.input.visitorId ≠ some p.visitorId ∨ existing.isNone then none
    else some { p with phase := .commit change }
  | .commit _ => none

/-- A session that has been written is locked, and so is the key of a new one. -/
def program (uuid : UuidType υ) : Program (VisitorTables υ) (Record υ) υ where
  view := view
  statement := statement uuid
  done p :=
    match p.phase with
    | .commit _ => true
    | _ => false
  locks p :=
    match p.phase with
    | .findUnique | .write _ => []
    | .createEvent _ | .commit _ => [p.sessionId]

end Record

/-- Each transaction is about to read its session. -/
def startRecording {ι : Type*} (inputs : ι → Record υ) (d : VisitorTables υ) :
    State ι (VisitorTables υ) (Record υ) where
  data := d
  status i := .running { inputs i with phase := .findUnique }

/-! ## The counters -/

namespace VisitorTables

def ids (d : VisitorTables υ) : List υ := d.sessions.map (·.sessionId)

def eventsOf (d : VisitorTables υ) (sessionId : υ) : List (VisitorEvent υ) :=
  d.events.filter (·.sessionId = sessionId)

/-- Each session counts its events and its page views, which are all of its visitor. The first two
conditions are constraints of the tables. -/
structure Counted (d : VisitorTables υ) : Prop where
  keys : d.ids.Nodup
  refers : ∀ event ∈ d.events, event.sessionId ∈ d.ids
  eventCount : ∀ session ∈ d.sessions,
    session.eventCount = (d.eventsOf session.sessionId).length
  pageViewCount : ∀ session ∈ d.sessions,
    session.pageViewCount = (d.eventsOf session.sessionId).countP (·.eventType = .pageView)
  visitor : ∀ session ∈ d.sessions, ∀ event ∈ d.eventsOf session.sessionId,
    event.visitorId = session.visitorId

end VisitorTables

variable {uuid : UuidType υ} {p q : Record υ} {d : VisitorTables υ}
  {sessions : List (VisitorSession υ)} {session : VisitorSession υ} {change : SessionChange}

/-- The table has a session of this id, whose visitor is as it should be. -/
def Existing (sessions : List (VisitorSession υ)) (sessionId : υ)
    (visitor : υ → Prop) : Prop :=
  ∃ session ∈ sessions, session.sessionId = sessionId ∧ visitor session.visitorId

/-- What a transaction has found and no other one may change. -/
def Record.Promise (uuid : UuidType υ) (p : Record υ) (d : VisitorTables υ) : Prop :=
  match p.phase with
  | .findUnique | .write .create => True
  | .write (.update _) | .createEvent (.update _) =>
    Existing d.sessions p.sessionId fun visitorId => uuid.text visitorId = p.input.visitorId
  | .commit (.update _) => Existing d.sessions p.sessionId (· = p.visitorId)
  | .createEvent .create | .commit .create => p.sessionId ∉ d.ids

theorem find_session {sessionId : υ}
    (h : sessions.find? (·.sessionId = sessionId) = some session) :
    session ∈ sessions ∧ session.sessionId = sessionId :=
  ⟨List.mem_of_find?_eq_some h, by simpa using List.find?_some h⟩

theorem find_none {sessionId : υ} (h : d.sessions.find? (·.sessionId = sessionId) = none) :
    sessionId ∉ d.ids := by
  intro hid
  obtain ⟨session, hsession, hid⟩ := List.mem_map.mp hid
  simpa [hid] using List.find?_eq_none.mp h session hsession

/-- A change leaves every session where it was, with its visitor. -/
theorem existing_change {sessionId : υ} {visitor : υ → Prop}
    (h : Existing sessions sessionId visitor) :
    Existing (p.change sessions change) sessionId visitor := by
  obtain ⟨session, hsession, hid, hvisitor⟩ := h
  cases change with
  | update firstSeenAt =>
    refine ⟨_, List.mem_map_of_mem hsession, ?_⟩
    split
    · exact ⟨hid, hvisitor⟩
    · exact ⟨hid, hvisitor⟩
  | create => exact ⟨session, List.mem_append_left _ hsession, hid, hvisitor⟩

/-- The ids of the sessions after a change. -/
theorem ids_change :
    (p.change sessions change).map (·.sessionId) =
      sessions.map (·.sessionId) ++ if change = .create then [p.sessionId] else [] := by
  cases change with
  | update firstSeenAt =>
    have hid : (fun session : VisitorSession υ => session.sessionId) ∘ (fun session =>
        if session.sessionId = p.sessionId then session.updated p.input p.now firstSeenAt
        else session) = (·.sessionId) := by
      funext session
      simp only [Function.comp]
      split <;> rfl
    simp [Record.change, hid]
  | create => simp [Record.change, VisitorSession.created]

theorem promise_statement {p' : Record υ} (h : p.Promise uuid d)
    (hp' : p.statement uuid (p.view d) = some p') : p'.Promise uuid d := by
  obtain ⟨input, sessionId, visitorId, now, phase⟩ := p
  unfold Record.statement at hp'
  cases phase with
  | findUnique =>
    simp only [Record.view] at hp'
    split at hp'
    · cases hp'
    split at hp'
    · rename_i session hfind
      split at hp'
      · cases hp'
      · rename_i hvisitor
        cases hp'
        obtain ⟨hsession, hid⟩ := find_session hfind
        exact ⟨session, hsession, hid, not_not.mp hvisitor⟩
    · cases hp'
      trivial
  | write change =>
    cases change with
    | update firstSeenAt =>
      obtain ⟨_, _, rfl⟩ := Option.map_eq_some_iff.mp hp'
      exact h
    | create =>
      simp only [Record.view] at hp'
      split at hp'
      · cases hp'
      · rename_i hnone
        cases hp'
        exact find_none (by simpa using (not_or.mp hnone).2)
  | createEvent change =>
    simp only at hp'
    split at hp'
    · cases hp'
    · rename_i hvisitor
      cases hp'
      cases change with
      | update firstSeenAt =>
        obtain ⟨session, hsession, hid, htext⟩ := h
        have hparse := not_not.mp (not_or.mp hvisitor).1
        dsimp only at htext hparse
        rw [← htext, uuid.parse_text] at hparse
        exact ⟨session, hsession, hid, Option.some.inj hparse⟩
      | create => exact h
  | commit => cases hp'

/-- Another transaction cannot break the promise. -/
theorem promise_stable (hp : (Record.program uuid).done p = true) (hq : q.Promise uuid d)
    (hapart : (Record.program uuid).Apart p q) : q.Promise uuid (p.view d) := by
  obtain ⟨input, sessionId, visitorId, now, phase⟩ := p
  cases phase with
  | findUnique | write | createEvent => cases hp
  | commit change =>
    have hids : ∀ id, id ∉ d.ids → id ≠ sessionId →
        id ∉ (Record.view ⟨input, sessionId, visitorId, now, .commit change⟩ d).ids := by
      intro id hid hne
      simp only [VisitorTables.ids, Record.view, ids_change, List.mem_append, not_or]
      refine ⟨hid, ?_⟩
      split
      · simpa using hne
      · simp
    have hexisting : ∀ id visitor, Existing d.sessions id visitor →
        Existing (Record.view ⟨input, sessionId, visitorId, now, .commit change⟩ d).sessions id
          visitor := fun _ _ => existing_change
    obtain ⟨input', sessionId', visitorId', now', phase'⟩ := q
    have hne : ∀ change', (phase' = .createEvent change' ∨ phase' = .commit change') →
        sessionId' ≠ sessionId := by
      rintro change' (rfl | rfl) rfl
      · exact hapart sessionId' (List.mem_singleton_self _) (List.mem_singleton_self _)
      · exact hapart sessionId' (List.mem_singleton_self _) (List.mem_singleton_self _)
    cases phase' with
    | findUnique => trivial
    | write change' =>
      cases change' with
      | update => exact hexisting sessionId' (fun id => uuid.text id = input'.visitorId) hq
      | create => trivial
    | createEvent change' =>
      cases change' with
      | update => exact hexisting sessionId' (fun id => uuid.text id = input'.visitorId) hq
      | create => exact hids _ hq (hne _ (.inl rfl))
    | commit change' =>
      cases change' with
      | update => exact hexisting sessionId' (· = visitorId') hq
      | create => exact hids _ hq (hne _ (.inr rfl))

/-- The events of a session after a commit. -/
theorem eventsOf_append {sessionId : υ} :
    VisitorTables.eventsOf ⟨sessions, d.events ++ [p.event]⟩ sessionId =
      d.eventsOf sessionId ++ if p.sessionId = sessionId then [p.event] else [] := by
  unfold VisitorTables.eventsOf
  rw [List.filter_append]
  congr 1
  by_cases h : p.sessionId = sessionId
  · simp [h, Record.event]
  · simp [h, Record.event]

/-- A row of the sessions after an update was there before, with one event less if it is the row of
the event. -/
theorem mem_update {firstSeenAt : Int} (h : session ∈ p.change sessions (.update firstSeenAt)) :
    ∃ old ∈ sessions, session.sessionId = old.sessionId ∧
      session.visitorId = old.visitorId ∧
      session.eventCount = old.eventCount + (if p.sessionId = old.sessionId then 1 else 0) ∧
      session.pageViewCount = old.pageViewCount +
        (if p.sessionId = old.sessionId then pageViews p.input.eventType else 0) := by
  obtain ⟨old, hold, rfl⟩ := List.mem_map.mp h
  refine ⟨old, hold, ?_⟩
  by_cases hid : old.sessionId = p.sessionId
  · simp [hid, VisitorSession.updated]
  · simp [hid, Ne.symm hid]

/-- The page views among the events of a session, after a commit. -/
theorem pageViews_append (sessionId : υ) :
    ((d.eventsOf sessionId) ++ if p.sessionId = sessionId then [p.event] else []).countP
        (·.eventType = .pageView) =
      (d.eventsOf sessionId).countP (·.eventType = .pageView) +
        (if p.sessionId = sessionId then pageViews p.input.eventType else 0) := by
  rw [List.countP_append]
  congr 1
  by_cases hid : p.sessionId = sessionId
  · by_cases htype : p.input.eventType = .pageView
    · simp [hid, pageViews, Record.event, htype]
    · simp [hid, pageViews, Record.event, htype]
  · simp [hid]

theorem counted_update {firstSeenAt : Int} (hd : d.Counted)
    (hp : Existing d.sessions p.sessionId (· = p.visitorId)) :
    VisitorTables.Counted
      ⟨p.change d.sessions (.update firstSeenAt), d.events ++ [p.event]⟩ := by
  obtain ⟨found, hfound, hfoundId, hvisitor⟩ := hp
  have hids : (p.change d.sessions (.update firstSeenAt)).map (·.sessionId) = d.ids := by
    rw [ids_change, if_neg (by simp), List.append_nil]
    rfl
  constructor
  · rw [VisitorTables.ids, hids]
    exact hd.keys
  · intro event hevent
    rw [VisitorTables.ids, hids]
    rcases List.mem_append.mp hevent with hold | hnew
    · exact hd.refers event hold
    · rw [List.mem_singleton.mp hnew]
      exact List.mem_map.mpr ⟨found, hfound, hfoundId⟩
  · intro session hsession
    obtain ⟨old, hold, hid, _, hcount, _⟩ := mem_update hsession
    rw [eventsOf_append, hid, hcount, hd.eventCount old hold, List.length_append]
    congr 1
    by_cases heq : p.sessionId = old.sessionId
    · simp [heq]
    · simp [heq]
  · intro session hsession
    obtain ⟨old, hold, hid, _, _, hcount⟩ := mem_update hsession
    rw [eventsOf_append, hid, hcount, hd.pageViewCount old hold]
    exact (pageViews_append _).symm
  · intro session hsession event hevent
    obtain ⟨old, hold, hid, hsame, _⟩ := mem_update hsession
    rw [eventsOf_append, hid] at hevent
    rw [hsame]
    rcases List.mem_append.mp hevent with hbefore | hnew
    · exact hd.visitor old hold event hbefore
    · split at hnew
      · rename_i heq
        have hfoundOld : found = old :=
          List.inj_on_of_nodup_map hd.keys hfound hold (hfoundId.trans heq)
        rw [List.mem_singleton.mp hnew, ← hfoundOld, hvisitor]
        rfl
      · cases hnew

theorem counted_create (hd : d.Counted) (hp : p.sessionId ∉ d.ids) :
    VisitorTables.Counted ⟨p.change d.sessions .create, d.events ++ [p.event]⟩ := by
  have hids : (p.change d.sessions .create).map (·.sessionId) = d.ids ++ [p.sessionId] := by
    rw [ids_change, if_pos rfl]
    rfl
  have hnone : d.eventsOf p.sessionId = [] := by
    refine List.filter_eq_nil_iff.mpr fun event hevent hid => hp ?_
    rw [← of_decide_eq_true hid]
    exact hd.refers event hevent
  have hother : ∀ session ∈ d.sessions, p.sessionId ≠ session.sessionId := by
    intro session hsession heq
    exact hp (heq ▸ List.mem_map_of_mem hsession)
  have hmem : ∀ session ∈ p.change d.sessions .create, session ∈ d.sessions ∨
      session = .created p.input p.sessionId p.visitorId p.now := by
    intro session hsession
    rcases List.mem_append.mp hsession with hold | hnew
    · exact .inl hold
    · exact .inr (List.mem_singleton.mp hnew)
  constructor
  · rw [VisitorTables.ids, hids]
    exact List.nodup_append.mpr ⟨hd.keys, List.nodup_singleton _, by
      rintro id hid _ hnew rfl
      exact hp (List.mem_singleton.mp hnew ▸ hid)⟩
  · intro event hevent
    rw [VisitorTables.ids, hids]
    rcases List.mem_append.mp hevent with hold | hnew
    · exact List.mem_append_left _ (hd.refers event hold)
    · rw [List.mem_singleton.mp hnew]
      exact List.mem_append_right _ (List.mem_singleton_self _)
  · intro session hsession
    rw [eventsOf_append]
    rcases hmem session hsession with hold | rfl
    · rw [if_neg (hother session hold), List.append_nil]
      exact hd.eventCount session hold
    · simp [VisitorSession.created, hnone]
  · intro session hsession
    rw [eventsOf_append]
    rcases hmem session hsession with hold | rfl
    · rw [if_neg (hother session hold), List.append_nil]
      exact hd.pageViewCount session hold
    · have hcount := pageViews_append (p := p) (d := d) p.sessionId
      rw [hnone] at hcount
      rw [List.countP_nil, Nat.zero_add, if_pos rfl] at hcount
      simpa [VisitorSession.created, hnone] using hcount.symm
  · intro session hsession event hevent
    rw [eventsOf_append] at hevent
    rcases hmem session hsession with hold | rfl
    · rw [if_neg (hother session hold), List.append_nil] at hevent
      exact hd.visitor session hold event hevent
    · obtain rfl : event = p.event := by simpa [VisitorSession.created, hnone] using hevent
      rfl

/-- A commit counts its event. -/
theorem counted_commit (hd : d.Counted) (hp : p.Promise uuid d)
    (hdone : (Record.program uuid).done p = true) : (p.view d).Counted := by
  have hpromise := hp
  unfold Record.Promise at hpromise
  unfold Record.view
  cases hphase : p.phase with
  | findUnique | write | createEvent => simp [Record.program, hphase] at hdone
  | commit change =>
    rw [hphase] at hpromise
    cases change with
    | update firstSeenAt => exact counted_update hd hpromise
    | create => exact counted_create hd hpromise

/-- Whatever the order of the statements, and wherever a transaction fails, each session counts its
events and its page views, which are all of its visitor. -/
theorem sessions_match_events {ι : Type} [DecidableEq ι] {inputs : ι → Record υ}
    {as : List (Move ι)} {t : State ι (VisitorTables υ) (Record υ)} (hd : d.Counted)
    (h : Run (Step (Record.program uuid)) (startRecording inputs d) as t) : t.data.Counted := by
  have hstart : Intact (Record.program uuid) VisitorTables.Counted (Record.Promise uuid)
      (startRecording inputs d) := by
    refine ⟨hd, ?_, ?_⟩
    · intro i p hp
      cases hp
      trivial
    · intro i j p q _ hp _
      cases hp
      exact fun key hkey => absurd hkey List.not_mem_nil
  refine (intact_run ?_ ?_ ?_ h hstart).data
  · exact fun p p' d _ hp hstatement => promise_statement hp hstatement
  · exact fun p d hd hp hdone => counted_commit hd hp hdone
  · exact fun p q d _ _ hq hdone hapart => promise_stable hdone hq hapart

/-- The ids as their own texts. -/
abbrev LowerText := { text : Text // text.map Char.toLower = text }

theorem map_toLower_idem (text : Text) :
    (text.map Char.toLower).map Char.toLower = text.map Char.toLower := by
  simp [Function.comp_def]

def uuidTexts : UuidType LowerText where
  text := Subtype.val
  parse text := some ⟨text.map Char.toLower, map_toLower_idem text⟩
  parse_text id := congrArg some (Subtype.ext id.2)
  text_parse x id _ h := by
    cases h
    rfl

/-- A first event of a session, recorded twice. -/
def firstEvent (pageView : Bool) : Record LowerText where
  input := {
    sessionId := "323e4567-e89b-42d3-a456-426614174000".toList
    visitorId := "123e4567-e89b-42d3-a456-426614174000".toList
    userId := none
    eventType := if pageView then .pageView else .bidStarted
    path := "/products".toList
    ipAddress := "203.0.113.10".toList
    geo := ⟨none, none, none, none, none, none⟩ }
  sessionId := ⟨"323e4567-e89b-42d3-a456-426614174000".toList, by decide⟩
  visitorId := ⟨"123e4567-e89b-42d3-a456-426614174000".toList, by decide⟩
  now := 0
  phase := .findUnique

/-- Both find no session; the one that comes second cannot create it and fails. -/
theorem sessions_match_events_race :
    (Run.final (State.next (Record.program uuidTexts)) (startRecording firstEvent ⟨[], []⟩)
      [.statement true, .statement false, .statement true, .statement true, .commit true,
        .abort false]).data.Counted :=
  sessions_match_events ⟨by simp [VisitorTables.ids], by simp, by simp, by simp, by simp⟩
    (run_final (by decide))

end MiracleAuction.Visitors
