import MiracleAuction.Base.Run
import MiracleAuction.Authority.Keys

/-!
# `auth-session.service.ts`: refresh sessions

A refresh redeems its token with one Redis script and stores the successor with a
later transaction; a logout may come between the two.
-/
namespace MiracleAuction.Accounts

/-! ## Redis -/

inductive SessionState
  | active | revoked
  deriving DecidableEq, Repr

structure RefreshSession where
  userId : Nat
  sessionId : Uuid
  tokenId : Uuid
  authVersion : Nat
  rememberMe : Bool
  deriving DecidableEq, Repr

/-- The keys `auth:session:` and `auth:refresh:`. -/
structure SessionKeys where
  session : Uuid → Option SessionState := fun _ => none
  refresh : Uuid → Option RefreshSession := fun _ => none

inductive ConsumeResult
  | active | reused | revoked
  deriving DecidableEq, Repr

namespace SessionKeys
variable (keys : SessionKeys)

def setSession (sessionId : Uuid) (state : Option SessionState) : SessionKeys :=
  { keys with session := Function.update keys.session sessionId state }

def setRefresh (tokenId : Uuid) (session : Option RefreshSession) : SessionKeys :=
  { keys with refresh := Function.update keys.refresh tokenId session }

@[simp] theorem setSession_refresh (sessionId : Uuid) (state : Option SessionState) :
    (keys.setSession sessionId state).refresh = keys.refresh := rfl

@[simp] theorem setRefresh_session (tokenId : Uuid) (session : Option RefreshSession) :
    (keys.setRefresh tokenId session).session = keys.session := rfl

end SessionKeys

def persistRefreshSession (session : RefreshSession) (keys : SessionKeys) : SessionKeys :=
  (keys.setSession session.sessionId (some .active)).setRefresh session.tokenId (some session)

def consumeRefreshSession (sessionId tokenId : Uuid) (keys : SessionKeys) :
    ConsumeResult × SessionKeys :=
  if keys.session sessionId ≠ some .active then (.revoked, keys)
  else if keys.refresh tokenId ≠ none then (.active, keys.setRefresh tokenId none)
  else (.reused, keys.setSession sessionId (some .revoked))

def revokeRefreshSession (sessionId : Uuid) (tokenId : Option Uuid) (keys : SessionKeys) :
    SessionKeys :=
  let keys :=
    if keys.session sessionId ≠ none then keys.setSession sessionId (some .revoked) else keys
  match tokenId with
  | some tokenId => keys.setRefresh tokenId none
  | none => keys

/-! ## Requests -/

inductive AccountStatus
  | active | inactive
  deriving DecidableEq, Repr

/-- The columns of a user that the handlers read. -/
structure Account where
  userId : Nat
  role : String
  status : AccountStatus
  authVersion : Nat
  deriving DecidableEq, Repr

/-- The payload of a refresh token; `section` is `long` where `rememberMe` is set. -/
structure RefreshToken where
  userId : Nat
  authVersion : Nat
  sid : Uuid
  jti : Uuid
  rememberMe : Bool
  deriving DecidableEq, Repr

def createRefreshSession (account : Account) (rememberMe : Bool) (sessionId tokenId : Uuid) :
    RefreshSession :=
  ⟨account.userId, sessionId, tokenId, account.authVersion, rememberMe⟩

def generateRefreshToken (session : RefreshSession) : RefreshToken :=
  ⟨session.userId, session.authVersion, session.sessionId, session.tokenId, session.rememberMe⟩

/-- A request that waits for its next statement. -/
inductive Request
  | refresh (token : RefreshToken)
  | consume (token : RefreshToken) (account : Account)
  | issue (account : Account) (rememberMe : Bool) (sessionId : Option Uuid)
  | logout (token : RefreshToken)
  deriving DecidableEq, Repr

/-- What happens to a token family: one of its tokens is redeemed, or it is marked
revoked. -/
inductive SessionEvent
  | redeemed (token : RefreshToken)
  | marked (sessionId : Uuid)
  deriving DecidableEq, Repr

/-- Redis, the users, the cookies that were set, the requests in flight, the ids that
have been in use, and the history, latest first. -/
structure SessionWorld where
  keys : SessionKeys := {}
  accounts : Nat → Option Account := fun _ => none
  cookies : List RefreshToken := []
  requests : List Request := []
  ids : List Uuid := []
  history : List SessionEvent := []

/-- The steps of the handlers, one statement each; a key may expire and a request fail
at any time. -/
inductive SessionAction
  | login (userId : Nat) (rememberMe : Bool)
  | refresh (cookie : Nat)
  | logout (cookie : Nat)
  | findAccount (request : Nat)
  | consume (request : Nat)
  | issue (request : Nat) (sessionId tokenId : Uuid)
  | revoke (request : Nat)
  | fail (request : Nat)
  | expireSession (sessionId : Uuid)
  | expireRefresh (tokenId : Uuid)
  | editAccount (userId : Nat) (account : Option Account)
  deriving DecidableEq, Repr

namespace SessionWorld
variable (w : SessionWorld)

def begin (request : Request) : SessionWorld := { w with requests := w.requests ++ [request] }

def proceed (index : Nat) (request : Request) : SessionWorld :=
  { w with requests := w.requests.set index request }

def finish (index : Nat) : SessionWorld := { w with requests := w.requests.eraseIdx index }

/-- The consume script and what the handler does with its result. -/
def consume (index : Nat) (token : RefreshToken) (account : Account) : SessionWorld :=
  match consumeRefreshSession token.sid token.jti w.keys with
  | (.active, keys) =>
    ({ w with keys := keys, history := .redeemed token :: w.history }).proceed index
      (.issue account token.rememberMe (some token.sid))
  | (.reused, keys) =>
    ({ w with keys := keys, history := .marked token.sid :: w.history }).finish index
  | (.revoked, keys) => ({ w with keys := keys }).finish index

/-- `issueSession`. -/
def issue (index : Nat) (session : RefreshSession) : SessionWorld :=
  ({ w with
    keys := persistRefreshSession session w.keys
    cookies := w.cookies ++ [generateRefreshToken session]
    ids := session.sessionId :: session.tokenId :: w.ids }).finish index

/-- The script of a logout. -/
def revoke (index : Nat) (token : RefreshToken) : SessionWorld :=
  ({ w with
    keys := revokeRefreshSession token.sid (some token.jti) w.keys
    history :=
      if w.keys.session token.sid ≠ none then .marked token.sid :: w.history
      else w.history }).finish index

/-- One step; `none` where the action is not possible. -/
def next : SessionAction → Option SessionWorld
  | .login userId rememberMe =>
    match w.accounts userId with
    | some account =>
      if account.status = .inactive then some w else some (w.begin (.issue account rememberMe none))
    | none => some w
  | .refresh cookie => (w.cookies[cookie]?).map fun token => w.begin (.refresh token)
  | .logout cookie => (w.cookies[cookie]?).map fun token => w.begin (.logout token)
  | .findAccount request =>
    match w.requests[request]? with
    | some (.refresh token) =>
      match w.accounts token.userId with
      | some account =>
        if account.status = .inactive ∨ account.authVersion ≠ token.authVersion then
          some (w.finish request)
        else some (w.proceed request (.consume token account))
      | none => some (w.finish request)
    | _ => none
  | .consume request =>
    match w.requests[request]? with
    | some (.consume token account) => some (w.consume request token account)
    | _ => none
  | .issue request sessionId tokenId =>
    match w.requests[request]? with
    | some (.issue account rememberMe sid) =>
      -- `randomUUID` repeats no id
      if tokenId ∈ w.ids ∨ sid = none ∧ sessionId ∈ w.ids then none
      else
        some (w.issue request
          (createRefreshSession account rememberMe (sid.getD sessionId) tokenId))
    | _ => none
  | .revoke request =>
    match w.requests[request]? with
    | some (.logout token) => some (w.revoke request token)
    | _ => none
  | .fail request => some (w.finish request)
  | .expireSession sessionId => some { w with keys := w.keys.setSession sessionId none }
  | .expireRefresh tokenId => some { w with keys := w.keys.setRefresh tokenId none }
  | .editAccount userId account =>
    some { w with accounts := Function.update w.accounts userId account }

end SessionWorld

/-! ## Revocation -/

/-- Every token is redeemed once, and only before its family is marked revoked. -/
def Orderly : List SessionEvent → Prop
  | [] => True
  | .redeemed token :: earlier =>
    (∀ other, .redeemed other ∈ earlier → other.jti ≠ token.jti) ∧
      .marked token.sid ∉ earlier ∧ Orderly earlier
  | .marked _ :: earlier => Orderly earlier

/-- The history is orderly, and no token of a revoked family would be redeemed. -/
def StaysRevoked (w : SessionWorld) : Prop :=
  Orderly w.history ∧ ∀ token ∈ w.cookies, .marked token.sid ∈ w.history →
    (consumeRefreshSession token.sid token.jti w.keys).1 ≠ .active

/-- No refresh stores a successor in a family that has been marked revoked. -/
def SessionWorld.Unrevoked (w : SessionWorld) : SessionAction → Prop
  | .issue request _ _ =>
    match w.requests[request]? with
    | some (.issue _ _ (some sid)) => .marked sid ∉ w.history
    | _ => True
  | _ => True

instance (w : SessionWorld) (a : SessionAction) : Decidable (w.Unrevoked a) := by
  unfold SessionWorld.Unrevoked
  split
  · split <;> infer_instance
  · infer_instance

/-- The invariant of the sessions. -/
structure SessionWorld.Sound (w : SessionWorld) : Prop where
  orderly : Orderly w.history
  revoked : ∀ sid, .marked sid ∈ w.history → w.keys.session sid ≠ some .active
  spent : ∀ token, .redeemed token ∈ w.history → w.keys.refresh token.jti = none
  session : ∀ sid, w.keys.session sid ≠ none → sid ∈ w.ids
  refresh : ∀ jti, w.keys.refresh jti ≠ none → jti ∈ w.ids
  marked : ∀ sid, .marked sid ∈ w.history → sid ∈ w.ids
  redeemed : ∀ token, .redeemed token ∈ w.history → token.jti ∈ w.ids

section
variable {w w' : SessionWorld} {a : SessionAction} {token : RefreshToken}

/-- A token is redeemed while its family is active and its key is there. -/
theorem consume_active_iff {keys : SessionKeys} {sid jti : Uuid} :
    (consumeRefreshSession sid jti keys).1 = .active ↔
      keys.session sid = some .active ∧ keys.refresh jti ≠ none := by
  unfold consumeRefreshSession
  split
  · simp_all
  · split <;> simp_all

namespace SessionWorld.Sound

theorem staysRevoked (h : w.Sound) : StaysRevoked w := by
  refine ⟨h.orderly, fun token _ hmarked hactive => ?_⟩
  exact h.revoked _ hmarked (consume_active_iff.mp hactive).1

/-- The requests, the cookies and the users are free. -/
theorem of_eq (h : w.Sound) (hkeys : w'.keys = w.keys) (hids : w'.ids = w.ids)
    (hhistory : w'.history = w.history) : w'.Sound := by
  obtain ⟨horderly, hrevoked, hspent, hsession, hrefresh, hmarked, hredeemed⟩ := h
  constructor <;> simp_all

/-- Keys may go. -/
theorem expireSession (h : w.Sound) (sid : Uuid) :
    SessionWorld.Sound { w with keys := w.keys.setSession sid none } := by
  refine { h with revoked := fun sid' hmarked => ?_, session := fun sid' hsome => ?_ }
  · by_cases hsid : sid' = sid
    · subst hsid
      simp [SessionKeys.setSession]
    · simpa [SessionKeys.setSession, hsid] using h.revoked sid' hmarked
  · by_cases hsid : sid' = sid
    · subst hsid
      simp [SessionKeys.setSession] at hsome
    · exact h.session sid' (by simpa [SessionKeys.setSession, hsid] using hsome)

theorem expireRefresh (h : w.Sound) (jti : Uuid) :
    SessionWorld.Sound { w with keys := w.keys.setRefresh jti none } := by
  refine { h with spent := fun token hspent => ?_, refresh := fun jti' hsome => ?_ }
  · by_cases hjti : token.jti = jti
    · subst hjti
      simp [SessionKeys.setRefresh]
    · simpa [SessionKeys.setRefresh, hjti] using h.spent token hspent
  · by_cases hjti : jti' = jti
    · subst hjti
      simp [SessionKeys.setRefresh] at hsome
    · exact h.refresh jti' (by simpa [SessionKeys.setRefresh, hjti] using hsome)

/-- A family that exists may be marked revoked. -/
theorem mark (h : w.Sound) {sid : Uuid} (hsome : w.keys.session sid ≠ none) :
    SessionWorld.Sound { w with
      keys := w.keys.setSession sid (some .revoked)
      history := .marked sid :: w.history } := by
  have hold : ∀ sid', .marked sid' ∈ SessionEvent.marked sid :: w.history → sid' ≠ sid →
      .marked sid' ∈ w.history := by
    intro sid' hmem hne
    simpa [hne] using hmem
  refine ⟨h.orderly, fun sid' hmem => ?_, fun token hmem => ?_, fun sid' hsome' => ?_, h.refresh,
    fun sid' hmem => ?_, fun token hmem => ?_⟩
  · by_cases hsid : sid' = sid
    · subst hsid
      simp [SessionKeys.setSession]
    · simpa [SessionKeys.setSession, hsid] using h.revoked sid' (hold sid' hmem hsid)
  · exact h.spent token (by simpa using hmem)
  · by_cases hsid : sid' = sid
    · subst hsid
      exact h.session _ hsome
    · exact h.session sid' (by simpa [SessionKeys.setSession, hsid] using hsome')
  · by_cases hsid : sid' = sid
    · subst hsid
      exact h.session _ hsome
    · exact h.marked sid' (hold sid' hmem hsid)
  · exact h.redeemed token (by simpa using hmem)

/-- A redeemed token is a new one, of a family that is not revoked. -/
theorem redeem (h : w.Sound) (hactive : w.keys.session token.sid = some .active)
    (hsome : w.keys.refresh token.jti ≠ none) :
    SessionWorld.Sound { w with
      keys := w.keys.setRefresh token.jti none
      history := .redeemed token :: w.history } := by
  have hexpired := h.expireRefresh token.jti
  refine ⟨⟨fun other hother heq => ?_, fun hmarked => ?_, h.orderly⟩, fun sid hmem => ?_,
    fun other hmem => ?_, h.session, hexpired.refresh, fun sid hmem => ?_, fun other hmem => ?_⟩
  · exact hsome (heq ▸ h.spent other hother)
  · exact h.revoked _ hmarked hactive
  · exact h.revoked sid (by simpa using hmem)
  · rcases List.mem_cons.mp hmem with heq | hmem
    · cases heq
      simp [SessionKeys.setRefresh]
    · exact hexpired.spent other hmem
  · exact h.marked sid (by simpa using hmem)
  · rcases List.mem_cons.mp hmem with heq | hmem
    · cases heq
      exact h.refresh _ hsome
    · exact h.redeemed other hmem

theorem consume (h : w.Sound) (index : Nat) (token : RefreshToken) (account : Account) :
    (w.consume index token account).Sound := by
  unfold SessionWorld.consume consumeRefreshSession
  by_cases hactive : w.keys.session token.sid = some .active
  · rw [if_neg (not_not.mpr hactive)]
    by_cases hsome : w.keys.refresh token.jti = none
    · rw [if_neg (not_not.mpr hsome)]
      exact (h.mark (by simp [hactive])).of_eq rfl rfl rfl
    · rw [if_pos hsome]
      exact (h.redeem hactive hsome).of_eq rfl rfl rfl
  · rw [if_pos hactive]
    exact h.of_eq rfl rfl rfl

theorem revoke (h : w.Sound) (index : Nat) (token : RefreshToken) :
    (w.revoke index token).Sound := by
  unfold SessionWorld.revoke revokeRefreshSession
  by_cases hsome : w.keys.session token.sid = none
  · rw [if_neg (not_not.mpr hsome), if_neg (not_not.mpr hsome)]
    exact (h.expireRefresh token.jti).of_eq rfl rfl rfl
  · rw [if_pos hsome, if_pos hsome]
    exact ((h.mark hsome).expireRefresh token.jti).of_eq rfl rfl rfl

/-- A new token of a family that has not been marked revoked. -/
theorem issue (h : w.Sound) (index : Nat) {session : RefreshSession}
    (hfresh : session.tokenId ∉ w.ids) (hunmarked : .marked session.sessionId ∉ w.history) :
    (w.issue index session).Sound := by
  refine ⟨h.orderly, fun sid hmem => ?_, fun token hmem => ?_, fun sid hsome => ?_,
    fun jti hsome => ?_, fun sid hmem => ?_, fun token hmem => ?_⟩
  · have hsid : sid ≠ session.sessionId := by
      rintro rfl
      exact hunmarked hmem
    simpa [SessionWorld.issue, SessionWorld.finish, persistRefreshSession, SessionKeys.setSession,
      hsid] using h.revoked sid hmem
  · have hjti : token.jti ≠ session.tokenId := by
      intro heq
      exact hfresh (heq ▸ h.redeemed token hmem)
    simpa [SessionWorld.issue, SessionWorld.finish, persistRefreshSession, SessionKeys.setRefresh,
      hjti] using h.spent token hmem
  · by_cases hsid : sid = session.sessionId
    · simp [SessionWorld.issue, SessionWorld.finish, hsid]
    · have hold := h.session sid (by
        simpa [SessionWorld.issue, SessionWorld.finish, persistRefreshSession,
          SessionKeys.setSession, hsid] using hsome)
      simp [SessionWorld.issue, SessionWorld.finish, hold]
  · by_cases hjti : jti = session.tokenId
    · simp [SessionWorld.issue, SessionWorld.finish, hjti]
    · have hold := h.refresh jti (by
        simpa [SessionWorld.issue, SessionWorld.finish, persistRefreshSession,
          SessionKeys.setRefresh, hjti] using hsome)
      simp [SessionWorld.issue, SessionWorld.finish, hold]
  · exact List.mem_cons_of_mem _ (List.mem_cons_of_mem _ (h.marked sid hmem))
  · exact List.mem_cons_of_mem _ (List.mem_cons_of_mem _ (h.redeemed token hmem))

end SessionWorld.Sound

/-- The new token of a revoked family would be redeemed. -/
theorem not_staysRevoked_issue {index : Nat} {session : RefreshSession}
    (hmarked : .marked session.sessionId ∈ w.history) :
    ¬ StaysRevoked (w.issue index session) := by
  intro h
  refine h.2 (generateRefreshToken session) (by simp [SessionWorld.issue, SessionWorld.finish])
    hmarked (consume_active_iff.mpr ?_)
  simp [SessionWorld.issue, SessionWorld.finish, persistRefreshSession, generateRefreshToken,
    SessionKeys.setSession, SessionKeys.setRefresh]

/-- A step stores the successor of a token, or keeps the invariant. -/
inductive SessionCases (w : SessionWorld) (a : SessionAction) (w' : SessionWorld) : Prop
  | issues {request : Nat} {session : RefreshSession} (hfresh : session.tokenId ∉ w.ids)
      (hok : w.Unrevoked a ↔ .marked session.sessionId ∉ w.history)
      (hw' : w' = w.issue request session)
  | keeps (hok : w.Unrevoked a) (hsound : w'.Sound)

theorem SessionWorld.Sound.cases (h : w.Sound) (hstep : StepOf SessionWorld.next w a w') :
    SessionCases w a w' := by
  unfold StepOf at hstep
  cases a with
  | login userId rememberMe =>
    refine .keeps trivial ?_
    simp only [SessionWorld.next] at hstep
    split at hstep
    · split at hstep
      · cases hstep
        exact h
      · cases hstep
        exact h.of_eq rfl rfl rfl
    · cases hstep
      exact h
  | refresh cookie =>
    obtain ⟨token, _, rfl⟩ := Option.map_eq_some_iff.mp hstep
    exact .keeps trivial (h.of_eq rfl rfl rfl)
  | logout cookie =>
    obtain ⟨token, _, rfl⟩ := Option.map_eq_some_iff.mp hstep
    exact .keeps trivial (h.of_eq rfl rfl rfl)
  | findAccount request =>
    refine .keeps trivial ?_
    simp only [SessionWorld.next] at hstep
    split at hstep
    · split at hstep
      · split at hstep
        · cases hstep
          exact h.of_eq rfl rfl rfl
        · cases hstep
          exact h.of_eq rfl rfl rfl
      · cases hstep
        exact h.of_eq rfl rfl rfl
    · cases hstep
  | consume request =>
    refine .keeps trivial ?_
    simp only [SessionWorld.next] at hstep
    split at hstep
    · cases hstep
      exact h.consume ..
    · cases hstep
  | issue request sessionId tokenId =>
    simp only [SessionWorld.next] at hstep
    split at hstep
    · rename_i account rememberMe sid hrequest
      split at hstep
      · cases hstep
      · rename_i hids
        obtain ⟨hfresh, hnew⟩ := not_or.mp hids
        cases hstep
        refine .issues hfresh ?_ rfl
        cases sid with
        | some sid => simp [SessionWorld.Unrevoked, hrequest, createRefreshSession]
        | none =>
          have hunmarked : .marked sessionId ∉ w.history := by
            intro hmarked
            exact hnew ⟨rfl, h.marked sessionId hmarked⟩
          simp [SessionWorld.Unrevoked, hrequest, createRefreshSession, hunmarked]
    · cases hstep
  | revoke request =>
    refine .keeps trivial ?_
    simp only [SessionWorld.next] at hstep
    split at hstep
    · cases hstep
      exact h.revoke ..
    · cases hstep
  | fail request =>
    cases hstep
    exact .keeps trivial (h.of_eq rfl rfl rfl)
  | expireSession sessionId =>
    cases hstep
    exact .keeps trivial (h.expireSession sessionId)
  | expireRefresh tokenId =>
    cases hstep
    exact .keeps trivial (h.expireRefresh tokenId)
  | editAccount userId account =>
    cases hstep
    exact .keeps trivial (h.of_eq rfl rfl rfl)

theorem SessionWorld.Sound.step (h : w.Sound) (hok : w.Unrevoked a)
    (hstep : StepOf SessionWorld.next w a w') : w'.Sound := by
  cases h.cases hstep with
  | issues hfresh hiff hw' =>
    subst hw'
    exact h.issue _ hfresh (hiff.mp hok)
  | keeps _ hsound => exact hsound

end

/-- In a run of any requests every token is redeemed once and a revoked family stays
revoked, if and only if no refresh stores its successor after its family was marked. -/
theorem staysRevoked_iff {accounts : Nat → Option Account} {w : SessionWorld}
    {as : List SessionAction} (hrun : Run (StepOf SessionWorld.next) { accounts } as w) :
    Run.Always SessionWorld.next StaysRevoked { accounts } as ↔
      Run (Guarded SessionWorld.Unrevoked (StepOf SessionWorld.next)) { accounts } as w := by
  refine Run.always_iff_guarded (fun _ h => SessionWorld.Sound.staysRevoked h)
    (fun s a t hstep hs => ?_) (fun s a t hstep hs hok => hs.step hok hstep) hrun
    ⟨trivial, by simp, by simp, by simp, by simp, by simp, by simp⟩
  constructor
  · intro hstays
    cases hs.cases hstep with
    | issues _ hiff hw' =>
      subst hw'
      exact hiff.mpr fun hmarked => not_staysRevoked_issue hmarked hstays
    | keeps hok _ => exact hok
  · exact fun hok => (hs.step hok hstep).staysRevoked

namespace Sample

def bidder : Nat → Option Account := fun userId =>
  if userId = 2 then some ⟨2, "user", .active, 0⟩ else none

def loggedIn : List SessionAction := [.login 2 false, .issue 0 1 2]

/-- The session is refreshed and revoked; its second token is refused. -/
def refreshed : List SessionAction :=
  loggedIn ++ [.refresh 0, .findAccount 0, .consume 0, .issue 0 0 3, .logout 1, .revoke 0,
    .refresh 1, .findAccount 0, .consume 0]

/-- The logout comes between the redemption and the successor. -/
def overtakenLogout : List SessionAction :=
  loggedIn ++ [.refresh 0, .logout 0, .findAccount 0, .consume 0, .revoke 1, .issue 0 0 3,
    .refresh 1, .findAccount 0, .consume 0]

end Sample

theorem staysRevoked_sample :
    Run.Always SessionWorld.next StaysRevoked { accounts := Sample.bidder } Sample.refreshed :=
  (staysRevoked_iff (Run.to_final (by decide))).mpr (Run.to_final_guarded (by decide))

/-- The token of the successor is redeemed after the logout. -/
theorem staysRevoked_overtaken :
    ¬ ∀ (accounts : Nat → Option Account) (as : List SessionAction)
    (w : SessionWorld), Run (StepOf SessionWorld.next) { accounts } as w → Orderly w.history := by
  intro h
  have horderly := h Sample.bidder Sample.overtakenLogout _ (Run.to_final (by decide))
  have hhistory : (Run.final SessionWorld.next { accounts := Sample.bidder }
      Sample.overtakenLogout).history =
      [.redeemed ⟨2, 0, 1, 3, false⟩, .marked 1, .redeemed ⟨2, 0, 1, 2, false⟩] := by decide
  rw [hhistory] at horderly
  exact horderly.2.1 List.mem_cons_self

end MiracleAuction.Accounts
