import Mathlib
import MiracleAuction.Base.Run

/-!
# `apiRequest`

The requests of a browser tab. They share one session refresh, in whose time the others
wait, and one CSRF token. A step is what runs from one `await` to the next.
-/
namespace MiracleAuction.ApiClient

structure Request where
  path : String
  method : Option String := none
  deriving DecidableEq, Repr

def refreshPath : String := "/accounts/sessions/refresh"

def refreshRequest : Request := ⟨refreshPath, some "POST"⟩

/-- The methods that carry an `X-CSRF-Token`. -/
def Request.isProtected (request : Request) : Bool :=
  decide ((request.method.getD "GET").toUpper ∈ ["POST", "PUT", "PATCH", "DELETE"])

/-- An `ApiClientError`, or another one: of `fetch`, of the body's JSON, of the CSRF token. -/
inductive ClientError
  | api (status : Nat) (message : String)
  | other
  deriving DecidableEq, Repr

inductive Result
  | fulfilled
  | rejected (error : ClientError)
  deriving DecidableEq, Repr

/-- A reply with its body; the message of an error's body, if that is a text. -/
inductive Response
  | success
  | unreadable
  | failure (status : Nat) (message : Option String)
  | network
  deriving DecidableEq, Repr

/-- Where a call is. A call names the call that it awaits. -/
inductive Phase
  /-- In `getCsrfToken`, with the request for a token that it shares, if there is none. -/
  | csrf (request : Option Nat)
  | fetching
  /-- Its result is the result of another call. -/
  | awaiting (child : Nat)
  | queued
  | refreshing (error : ClientError) (child : Nat)
  | repeating (error : ClientError) (child : Nat)
  | settled (result : Result)
  deriving DecidableEq, Repr

structure Call where
  request : Request
  csrfRetried : Bool
  phase : Phase
  deriving DecidableEq, Repr

/-- A request of `getCsrfToken`, before and after its `finally`; without a token it failed. -/
inductive CsrfRequest
  | fetching
  | received (token : Option Nat)
  | settled (token : Option Nat)
  deriving DecidableEq, Repr

def CsrfRequest.isSettled : CsrfRequest → Bool
  | .settled _ => true
  | _ => false

/-- The variables of the module, and every call and token request so far. -/
structure Client where
  isRefreshing : Bool := false
  failedQueue : List (Nat × Request) := []
  csrfToken : Option Nat := none
  csrfRequest : Option Nat := none
  csrfRequests : List CsrfRequest := []
  calls : List Call := []
  deriving DecidableEq, Repr

namespace Client
variable (c : Client)

def setPhase (i : Nat) (phase : Phase) : Client :=
  { c with calls := c.calls.modify i fun call => { call with phase := phase } }

/-- What `apiRequest` does before its first `await`. -/
def start (request : Request) (csrfRetried : Bool) : Client :=
  if request.isProtected then
    match c.csrfToken, c.csrfRequest with
    | some _, _ => { c with calls := c.calls ++ [⟨request, csrfRetried, .csrf none⟩] }
    | none, some shared =>
      { c with calls := c.calls ++ [⟨request, csrfRetried, .csrf (some shared)⟩] }
    | none, none =>
      { c with
        csrfRequest := some c.csrfRequests.length
        csrfRequests := c.csrfRequests ++ [.fetching]
        calls := c.calls ++ [⟨request, csrfRetried, .csrf (some c.csrfRequests.length)⟩] }
  else { c with calls := c.calls ++ [⟨request, csrfRetried, .fetching⟩] }

/-- A call of the queue is made again, or fails. -/
def wake (result : Result) (prom : Nat × Request) : Client :=
  match result with
  | .fulfilled => (c.start prom.2 false).setPhase prom.1 (.awaiting c.calls.length)
  | .rejected error => c.setPhase prom.1 (.settled (.rejected error))

def wakeAll (result : Result) (queue : List (Nat × Request)) : Client :=
  queue.foldl (fun c prom => c.wake result prom) c

def processQueue (result : Result) : Client :=
  { c.wakeAll result c.failedQueue with failedQueue := [] }

def message (status : Nat) (text : Option String) : String :=
  text.getD s!"HTTP error! status: {status}"

/-- The rest of `apiRequest` once the reply is there. -/
def receive (i : Nat) (call : Call) : Response → Client
  | .success => c.setPhase i (.settled .fulfilled)
  | .unreadable => c.setPhase i (.settled (.rejected .other))
  | .network => c.setPhase i (.settled (.rejected .other))
  | .failure status text =>
    if status = 403 ∧ call.csrfRetried = false ∧ text = some "Invalid CSRF token" then
      ({ c with csrfToken := none }.start call.request true).setPhase i (.awaiting c.calls.length)
    else if status = 401 ∧ call.request.path ≠ refreshPath then
      if c.isRefreshing then
        { c.setPhase i .queued with failedQueue := c.failedQueue ++ [(i, call.request)] }
      else
        ({ c with isRefreshing := true }.start refreshRequest false).setPhase i
          (.refreshing (.api status (message status text)) c.calls.length)
    else c.setPhase i (.settled (.rejected (.api status (message status text))))

/-- The `catch` around the refresh and the repeated request. -/
def fail (i : Nat) (error refreshError : ClientError) : Client :=
  ({ c with isRefreshing := false }.processQueue (.rejected refreshError)).setPhase i
    (.settled (.rejected error))

/-- The refresh has succeeded. -/
def repeatRequest (i : Nat) (call : Call) (error : ClientError) : Client :=
  let woken := { c with isRefreshing := false }.processQueue .fulfilled
  (woken.start call.request false).setPhase i (.repeating error woken.calls.length)

/-- The result of a call that has one. -/
def result (i : Nat) : Option Result :=
  match c.calls[i]? with
  | some ⟨_, _, .settled result⟩ => some result
  | _ => none

end Client

/-- A call from outside, a reply, or a continuation. -/
inductive Input
  | request (request : Request)
  | csrfReply (request : Nat) (token : Option Nat)
  | csrfFinally (request : Nat)
  | csrfResume (call : Nat)
  | reply (call : Nat) (response : Response)
  | resume (call : Nat)
  deriving DecidableEq, Repr

/-- A call that waits for a token goes on when it is there, and ends when there is none. -/
def csrfResume (c : Client) (i : Nat) (shared : Option Nat) : Option Client :=
  match shared with
  | none => some (c.setPhase i .fetching)
  | some r =>
    match c.csrfRequests[r]? with
    | some (.settled (some _)) => some (c.setPhase i .fetching)
    | some (.settled none) => some (c.setPhase i (.settled (.rejected .other)))
    | _ => none

/-- A call goes on with the result that it has awaited. -/
def resume (c : Client) (i : Nat) (call : Call) : Option Client :=
  match call.phase with
  | .awaiting child => (c.result child).map fun result => c.setPhase i (.settled result)
  | .refreshing error child => (c.result child).map fun
    | .fulfilled => c.repeatRequest i call error
    | .rejected refreshError => c.fail i error refreshError
  | .repeating error child => (c.result child).map fun
    | .fulfilled => c.setPhase i (.settled .fulfilled)
    | .rejected refreshError => c.fail i error refreshError
  | _ => none

def step (c : Client) : Input → Option Client
  | .request request => some (c.start request false)
  | .csrfReply r token =>
    match c.csrfRequests[r]? with
    | some .fetching =>
      some { c with
        csrfToken := token <|> c.csrfToken
        csrfRequests := c.csrfRequests.set r (.received token) }
    | _ => none
  | .csrfFinally r =>
    match c.csrfRequests[r]? with
    | some (.received token) =>
      some { c with
        csrfRequest := none
        csrfRequests := c.csrfRequests.set r (.settled token) }
    | _ => none
  | .csrfResume i =>
    match c.calls[i]? with
    | some ⟨_, _, .csrf shared⟩ => csrfResume c i shared
    | _ => none
  | .reply i response =>
    match c.calls[i]? with
    | some call => if call.phase = .fetching then some (c.receive i call response) else none
    | none => none
  | .resume i => (c.calls[i]?).bind fun call => resume c i call

def Input.isRequest : Input → Bool
  | .request _ => true
  | _ => false

section
variable {α : Type} {as : List α} {a b : α} {i : Nat}

theorem getElem?_concat_place (h : (as ++ [a])[i]? = some b) :
    as[i]? = some b ∨ (i = as.length ∧ b = a) := by
  rw [List.getElem?_append] at h
  split at h
  · exact .inl h
  · obtain ⟨hi, hb⟩ := List.getElem?_eq_some_iff.mp h
    rw [List.length_singleton] at hi
    exact .inr ⟨by omega, by simpa using hb.symm⟩

theorem getElem?_concat_cases (h : (as ++ [a])[i]? = some b) : as[i]? = some b ∨ b = a := by
  obtain hold | ⟨_, hnew⟩ := getElem?_concat_place h
  · exact .inl hold
  · exact .inr hnew

end

/-! ## The calls -/

/-- The call that another one awaits. -/
def Phase.child : Phase → Option Nat
  | .awaiting child => some child
  | .refreshing _ child => some child
  | .repeating _ child => some child
  | _ => none

def Refreshing (c : Client) (i : Nat) : Prop :=
  ∃ call error child, c.calls[i]? = some call ∧ call.phase = .refreshing error child

/-- The request of the awaited call: the refresh, or the call's own request again. -/
def Phase.childRequest (request : Request) : Phase → Request
  | .refreshing _ _ => refreshRequest
  | _ => request

/-- The shared token request is the one that has not settled. -/
structure TokensShared (c : Client) : Prop where
  shared : ∀ r, c.csrfRequest = some r ↔
    ∃ request, c.csrfRequests[r]? = some request ∧ request.isSettled = false
  known : ∀ (i : Nat) (call : Call) (r : Nat), c.calls[i]? = some call →
    call.phase = .csrf (some r) → r < c.csrfRequests.length

/-- Every call awaits a later one, and exactly the calls of the queue are queued. -/
structure Linked (c : Client) (queue : List (Nat × Request)) : Prop where
  child : ∀ (i : Nat) (call : Call) (j : Nat), c.calls[i]? = some call →
    call.phase.child = some j → i < j ∧ ∃ child, c.calls[j]? = some child ∧
      child.request = call.phase.childRequest call.request
  enqueued : ∀ i request, (i, request) ∈ queue → request.path ≠ refreshPath ∧
    ∃ call, c.calls[i]? = some call ∧ call.phase = .queued ∧ call.request = request
  queued : ∀ (i : Nat) (call : Call), c.calls[i]? = some call → call.phase = .queued →
    (i, call.request) ∈ queue
  nodup : (queue.map Prod.fst).Nodup

/-- The queue has waiting calls only while a call refreshes the session. -/
structure Consistent (c : Client) : Prop where
  tokens : TokensShared c
  linked : Linked c c.failedQueue
  waits : c.isRefreshing = false → c.failedQueue = []
  refreshes : c.isRefreshing = true → ∃ i, Refreshing c i

section
variable {c : Client} {i j : Nat} {call : Call} {phase : Phase} {queue : List (Nat × Request)}
  {request : Request} {csrfRetried : Bool}

theorem setPhase_call (h : c.calls[i]? = some call) :
    (c.setPhase i phase).calls[i]? = some { call with phase := phase } := by
  simp [Client.setPhase, h]

theorem setPhase_other (h : j ≠ i) : (c.setPhase i phase).calls[j]? = c.calls[j]? := by
  simp [Client.setPhase, h.symm]

@[simp] theorem setPhase_isRefreshing : (c.setPhase i phase).isRefreshing = c.isRefreshing := rfl

@[simp] theorem setPhase_failedQueue : (c.setPhase i phase).failedQueue = c.failedQueue := rfl

@[simp] theorem setPhase_csrfRequest : (c.setPhase i phase).csrfRequest = c.csrfRequest := rfl

@[simp] theorem setPhase_csrfRequests : (c.setPhase i phase).csrfRequests = c.csrfRequests := rfl

/-- A call begins in the token's request or in its own. -/
theorem start_calls (c : Client) (request : Request) (csrfRetried : Bool) :
    ∃ phase, (c.start request csrfRetried).calls =
      c.calls ++ [⟨request, csrfRetried, phase⟩] ∧
    (phase = .fetching ∨ ∃ shared, phase = .csrf shared) := by
  unfold Client.start
  split
  · split
    · exact ⟨_, rfl, .inr ⟨_, rfl⟩⟩
    · exact ⟨_, rfl, .inr ⟨_, rfl⟩⟩
    · exact ⟨_, rfl, .inr ⟨_, rfl⟩⟩
  · exact ⟨_, rfl, .inl rfl⟩

@[simp] theorem start_isRefreshing :
    (c.start request csrfRetried).isRefreshing = c.isRefreshing := by
  unfold Client.start
  split
  · split <;> rfl
  · rfl

@[simp] theorem start_failedQueue :
    (c.start request csrfRetried).failedQueue = c.failedQueue := by
  unfold Client.start
  split
  · split <;> rfl
  · rfl

/-- The calls before it keep their place and state. -/
theorem start_old (h : c.calls[i]? = some call) :
    (c.start request csrfRetried).calls[i]? = some call := by
  obtain ⟨phase, hcalls, _⟩ := start_calls c request csrfRetried
  rw [hcalls, List.getElem?_append_left (List.getElem?_eq_some_iff.mp h).1]
  exact h

/-- The new call is the last one. -/
theorem start_new (c : Client) (request : Request) (csrfRetried : Bool) :
    ∃ phase, (c.start request csrfRetried).calls[c.calls.length]? =
      some ⟨request, csrfRetried, phase⟩ ∧
    (phase = .fetching ∨ ∃ shared, phase = .csrf shared) := by
  obtain ⟨phase, hcalls, hphase⟩ := start_calls c request csrfRetried
  exact ⟨phase, by rw [hcalls, List.getElem?_concat_length], hphase⟩

theorem start_cases (h : (c.start request csrfRetried).calls[i]? = some call) :
    c.calls[i]? = some call ∨ (i = c.calls.length ∧ call.request = request ∧
      (call.phase = .fetching ∨ ∃ shared, call.phase = .csrf shared)) := by
  obtain ⟨phase, hcalls, hphase⟩ := start_calls c request csrfRetried
  rw [hcalls] at h
  obtain hold | ⟨hi, rfl⟩ := getElem?_concat_place h
  · exact .inl hold
  · exact .inr ⟨hi, rfl, hphase⟩

end

/-! ## What a step keeps -/

section
variable {c c' : Client} {i j : Nat} {call : Call} {phase : Phase} {queue : List (Nat × Request)}
  {request : Request} {csrfRetried : Bool}

theorem Phase.child_of_begin (h : phase = .fetching ∨ ∃ shared, phase = .csrf shared) :
    phase.child = none ∧ phase ≠ .queued := by
  obtain rfl | ⟨shared, rfl⟩ := h
  · exact ⟨rfl, by simp⟩
  · exact ⟨rfl, by simp⟩

theorem Linked.start (h : Linked c queue) : Linked (c.start request csrfRetried) queue where
  child i call j hi hj := by
    obtain hold | ⟨_, _, hphase⟩ := start_cases hi
    · obtain ⟨hlt, child, hchild, hfits⟩ := h.child i call j hold hj
      exact ⟨hlt, child, start_old hchild, hfits⟩
    · rw [(Phase.child_of_begin hphase).1] at hj
      cases hj
  enqueued i request hmem := by
    obtain ⟨hpath, call, hcall, hqueued, hrequest⟩ := h.enqueued i request hmem
    exact ⟨hpath, call, start_old hcall, hqueued, hrequest⟩
  queued i call hi hqueued := by
    obtain hold | ⟨_, _, hphase⟩ := start_cases hi
    · exact h.queued i call hold hqueued
    · exact absurd hqueued (Phase.child_of_begin hphase).2
  nodup := h.nodup

/-- What the new phase of a call has to meet. -/
def Phase.Continues (phase : Phase) (c : Client) (i : Nat) (request : Request) : Prop :=
  ∀ j, phase.child = some j → i < j ∧ ∃ child, c.calls[j]? = some child ∧
    child.request = phase.childRequest request

theorem setPhase_cases {other : Call} (hcall : c.calls[i]? = some call)
    (h : (c.setPhase i phase).calls[j]? = some other) :
    (j = i ∧ other = { call with phase := phase }) ∨
    (j ≠ i ∧ c.calls[j]? = some other) := by
  by_cases hji : j = i
  · subst hji
    rw [setPhase_call hcall] at h
    exact .inl ⟨rfl, (Option.some.inj h).symm⟩
  · exact .inr ⟨hji, by rwa [setPhase_other hji] at h⟩

/-- A call's request stays. -/
theorem setPhase_request {other : Call} (phase : Phase) (hcall : c.calls[i]? = some call)
    (h : c.calls[j]? = some other) :
    ∃ next, (c.setPhase i phase).calls[j]? = some next ∧ next.request = other.request := by
  by_cases hji : j = i
  · subst hji
    obtain rfl : call = other := Option.some.inj (hcall.symm.trans h)
    exact ⟨_, setPhase_call hcall, rfl⟩
  · exact ⟨other, by rwa [setPhase_other hji], rfl⟩

/-- The awaited calls of the others are as before, and so is that of the new phase. -/
theorem setPhase_children
    (hchild : ∀ (i : Nat) (call : Call) (j : Nat), c.calls[i]? = some call →
      call.phase.child = some j → i < j ∧ ∃ child, c.calls[j]? = some child ∧
        child.request = call.phase.childRequest call.request)
    (hcall : c.calls[i]? = some call) (hphase : phase.Continues c i call.request) :
    ∀ (k : Nat) (other : Call) (j : Nat), (c.setPhase i phase).calls[k]? = some other →
      other.phase.child = some j →
        k < j ∧ ∃ child, (c.setPhase i phase).calls[j]? = some child ∧
        child.request = other.phase.childRequest other.request := by
  intro k other j hk hj
  obtain ⟨rfl, rfl⟩ | ⟨_, hold⟩ := setPhase_cases hcall hk
  · obtain ⟨hlt, child, hget, hfits⟩ := hphase j hj
    obtain ⟨next, hnext, hrequest⟩ := setPhase_request phase hcall hget
    exact ⟨hlt, next, hnext, hrequest.trans hfits⟩
  · obtain ⟨hlt, child, hget, hfits⟩ := hchild k other j hold hj
    obtain ⟨next, hnext, hrequest⟩ := setPhase_request phase hcall hget
    exact ⟨hlt, next, hnext, hrequest.trans hfits⟩

/-- A call that is not queued goes on. -/
theorem Linked.setPhase (h : Linked c queue) (hcall : c.calls[i]? = some call)
    (hold : call.phase ≠ .queued) (hnew : phase ≠ .queued)
    (hphase : phase.Continues c i call.request) : Linked (c.setPhase i phase) queue where
  child := setPhase_children h.child hcall hphase
  enqueued j request hmem := by
    obtain ⟨hpath, other, hother, hqueued, hrequest⟩ := h.enqueued j request hmem
    have hji : j ≠ i := by
      rintro rfl
      exact hold (by rwa [Option.some.inj (hcall.symm.trans hother)])
    exact ⟨hpath, other, by rwa [setPhase_other hji], hqueued, hrequest⟩
  queued j other hj hqueued := by
    obtain ⟨rfl, rfl⟩ | ⟨_, hget⟩ := setPhase_cases hcall hj
    · exact absurd hqueued hnew
    · exact h.queued j other hget hqueued
  nodup := h.nodup

/-- The first call of the queue goes on. -/
theorem Linked.leave (h : Linked c ((i, request) :: queue)) (hnew : phase ≠ .queued)
    (hphase : phase.Continues c i request) : Linked (c.setPhase i phase) queue := by
  obtain ⟨_, call, hcall, hold, rfl⟩ := h.enqueued i request List.mem_cons_self
  have hnodup := List.nodup_cons.mp h.nodup
  refine ⟨setPhase_children h.child hcall hphase, fun j next hmem => ?_,
    fun j other hj hqueued => ?_, hnodup.2⟩
  · obtain ⟨hpath, other, hother, hqueued, hrequest⟩ :=
      h.enqueued j next (List.mem_cons_of_mem _ hmem)
    have hji : j ≠ i := by
      rintro rfl
      exact hnodup.1 (List.mem_map.mpr ⟨_, hmem, rfl⟩)
    exact ⟨hpath, other, by rwa [setPhase_other hji], hqueued, hrequest⟩
  · obtain ⟨rfl, rfl⟩ | ⟨hji, hget⟩ := setPhase_cases hcall hj
    · exact absurd hqueued hnew
    · obtain heq | hmem := List.mem_cons.mp (h.queued j other hget hqueued)
      · exact absurd (Prod.ext_iff.mp heq).1 hji
      · exact hmem

/-- A call enters the queue. -/
theorem Linked.enter (h : Linked c queue) (hcall : c.calls[i]? = some call)
    (hold : call.phase ≠ .queued) (hpath : call.request.path ≠ refreshPath) :
    Linked (c.setPhase i .queued) (queue ++ [(i, call.request)]) := by
  have hnot : i ∉ queue.map Prod.fst := by
    intro hmem
    obtain ⟨⟨j, request⟩, hprom, rfl⟩ := List.mem_map.mp hmem
    obtain ⟨_, other, hother, hqueued, _⟩ := h.enqueued j request hprom
    exact hold (by rwa [Option.some.inj (hcall.symm.trans hother)])
  have hphase : Phase.queued.Continues c i call.request := by
    intro j hj
    cases hj
  refine ⟨setPhase_children h.child hcall hphase, fun j next hmem => ?_,
    fun j other hj hqueued => ?_, ?_⟩
  · obtain hin | hlast := List.mem_append.mp hmem
    · obtain ⟨hpath, other, hother, hqueued, hrequest⟩ := h.enqueued j next hin
      have hji : j ≠ i := by
        rintro rfl
        exact hnot (List.mem_map.mpr ⟨_, hin, rfl⟩)
      exact ⟨hpath, other, by rwa [setPhase_other hji], hqueued, hrequest⟩
    · cases List.mem_singleton.mp hlast
      exact ⟨hpath, _, setPhase_call hcall, rfl, rfl⟩
  · rw [List.mem_append, List.mem_singleton]
    obtain ⟨rfl, rfl⟩ | ⟨_, hget⟩ := setPhase_cases hcall hj
    · exact .inr rfl
    · exact .inl (h.queued j other hget hqueued)
  · rw [List.map_append, List.nodup_append]
    refine ⟨h.nodup, List.nodup_singleton _, ?_⟩
    intro j hj k hk hjk
    cases List.mem_singleton.mp hk
    rw [hjk] at hj
    exact hnot hj

theorem TokensShared.start (h : TokensShared c) :
    TokensShared (c.start request csrfRetried) := by
  have hknown : ∀ (i : Nat) (call : Call) (r : Nat), c.calls[i]? = some call →
      call.phase = .csrf (some r) → r < c.csrfRequests.length := h.known
  unfold Client.start
  split
  · split
    · refine ⟨h.shared, fun i call r hi hphase => ?_⟩
      obtain hold | rfl := getElem?_concat_cases hi
      · exact hknown i call r hold hphase
      · cases hphase
    · rename_i shared _ hshared
      obtain ⟨_, hget, _⟩ := (h.shared shared).mp hshared
      refine ⟨h.shared, fun i call r hi hphase => ?_⟩
      obtain hold | rfl := getElem?_concat_cases hi
      · exact hknown i call r hold hphase
      · cases hphase
        exact (List.getElem?_eq_some_iff.mp hget).1
    · rename_i _ hnone
      refine ⟨fun r => ⟨fun hr => ?_, ?_⟩, fun i call r hi hphase => ?_⟩
      · cases hr
        exact ⟨.fetching, List.getElem?_concat_length, rfl⟩
      · rintro ⟨request, hget, hopen⟩
        obtain hold | ⟨rfl, _⟩ := getElem?_concat_place hget
        · have := (h.shared r).mpr ⟨request, hold, hopen⟩
          rw [hnone] at this
          cases this
        · rfl
      · rw [List.length_append, List.length_singleton]
        obtain hold | rfl := getElem?_concat_cases hi
        · have := hknown i call r hold hphase
          omega
        · cases hphase
          omega
  · refine ⟨h.shared, fun i call r hi hphase => ?_⟩
    obtain hold | rfl := getElem?_concat_cases hi
    · exact hknown i call r hold hphase
    · cases hphase

theorem TokensShared.setPhase (h : TokensShared c) (hcall : c.calls[i]? = some call)
    (hphase : ∀ r, phase ≠ .csrf (some r)) : TokensShared (c.setPhase i phase) := by
  refine ⟨h.shared, fun j other r hj hcsrf => ?_⟩
  obtain ⟨_, rfl⟩ | ⟨_, hold⟩ := setPhase_cases hcall hj
  · exact absurd hcsrf (hphase r)
  · exact h.known j other r hold hcsrf

/-- A queued call does not wait for a token any more, whichever way it goes on. -/
theorem wake_consistent (result : Result) (ht : TokensShared c)
    (hl : Linked c ((i, request) :: queue)) :
    TokensShared (c.wake result (i, request)) ∧ Linked (c.wake result (i, request)) queue := by
  obtain ⟨_, call, hcall, hold, rfl⟩ := hl.enqueued i request List.mem_cons_self
  cases result with
  | fulfilled =>
    refine ⟨ht.start.setPhase (start_old hcall) (by simp), hl.start.leave (by simp) ?_⟩
    intro j hj
    cases hj
    obtain ⟨phase, hnew, _⟩ := start_new c call.request false
    exact ⟨(List.getElem?_eq_some_iff.mp hcall).1, _, hnew, rfl⟩
  | rejected error =>
    refine ⟨ht.setPhase hcall (by simp), hl.leave (by simp) ?_⟩
    intro j hj
    cases hj

theorem wakeAll_consistent (result : Result) (ht : TokensShared c) (hl : Linked c queue) :
    TokensShared (c.wakeAll result queue) ∧ Linked (c.wakeAll result queue) [] := by
  induction queue generalizing c with
  | nil => exact ⟨ht, hl⟩
  | cons prom queue ih =>
    obtain ⟨ht', hl'⟩ := wake_consistent result ht hl
    exact ih ht' hl'

theorem wakeAll_isRefreshing {result : Result} :
    (c.wakeAll result queue).isRefreshing = c.isRefreshing := by
  induction queue generalizing c with
  | nil => rfl
  | cons prom queue ih =>
    refine ih.trans ?_
    cases result with
    | fulfilled => exact start_isRefreshing
    | rejected error => rfl

theorem wakeAll_old {result : Result} (hcall : c.calls[i]? = some call)
    (hnot : ∀ prom ∈ queue, i ≠ prom.1) : (c.wakeAll result queue).calls[i]? = some call := by
  induction queue generalizing c with
  | nil => exact hcall
  | cons prom queue ih =>
    refine ih ?_ fun prom hprom => hnot prom (List.mem_cons_of_mem _ hprom)
    have hne := hnot prom List.mem_cons_self
    cases result with
    | fulfilled => exact (setPhase_other hne).trans (start_old hcall)
    | rejected error => exact (setPhase_other hne).trans hcall

/-- After `processQueue` nothing waits in the queue. -/
theorem processQueue_consistent (result : Result) (ht : TokensShared c)
    (hl : Linked c c.failedQueue) : TokensShared (c.processQueue result) ∧
      Linked (c.processQueue result) [] := by
  obtain ⟨ht, hl⟩ := wakeAll_consistent result ht hl
  exact ⟨⟨ht.shared, ht.known⟩, ⟨hl.child, hl.enqueued, hl.queued, hl.nodup⟩⟩

/-- The calls outside the queue keep their state. -/
theorem processQueue_old (result : Result) (hcall : c.calls[i]? = some call)
    (hl : Linked c c.failedQueue) (hold : call.phase ≠ .queued) :
    (c.processQueue result).calls[i]? = some call := by
  refine wakeAll_old hcall ?_
  rintro prom hprom rfl
  obtain ⟨_, other, hother, hqueued, _⟩ := hl.enqueued prom.1 prom.2 hprom
  exact hold (by rwa [Option.some.inj (hcall.symm.trans hother)])

theorem Refreshing.start (h : Refreshing c i) : Refreshing (c.start request csrfRetried) i := by
  obtain ⟨call, error, child, hcall, hphase⟩ := h
  exact ⟨call, error, child, start_old hcall, hphase⟩

theorem Refreshing.setPhase (h : Refreshing c j) (hcall : c.calls[i]? = some call)
    (hold : ∀ error child, call.phase ≠ .refreshing error child) :
    Refreshing (c.setPhase i phase) j := by
  obtain ⟨other, error, child, hother, hphase⟩ := h
  have hji : j ≠ i := by
    rintro rfl
    obtain rfl : call = other := Option.some.inj (hcall.symm.trans hother)
    exact hold error child hphase
  exact ⟨other, error, child, by rwa [setPhase_other hji], hphase⟩

theorem Consistent.start (h : Consistent c) : Consistent (c.start request csrfRetried) where
  tokens := h.tokens.start
  linked := by
    rw [start_failedQueue]
    exact h.linked.start
  waits hrefreshing := by
    rw [start_isRefreshing] at hrefreshing
    rw [start_failedQueue]
    exact h.waits hrefreshing
  refreshes hrefreshing := by
    rw [start_isRefreshing] at hrefreshing
    obtain ⟨i, hi⟩ := h.refreshes hrefreshing
    exact ⟨i, hi.start⟩

/-- A call goes on that neither waits in the queue nor refreshes the session. -/
theorem Consistent.setPhase (h : Consistent c) (hcall : c.calls[i]? = some call)
    (hqueued : call.phase ≠ .queued)
    (hold : ∀ error child, call.phase ≠ .refreshing error child)
    (hnew : phase ≠ .queued) (hcsrf : ∀ r, phase ≠ .csrf (some r))
    (hphase : phase.Continues c i call.request) : Consistent (c.setPhase i phase) where
  tokens := h.tokens.setPhase hcall hcsrf
  linked := h.linked.setPhase hcall hqueued hnew hphase
  waits := h.waits
  refreshes hrefreshing := by
    obtain ⟨j, hj⟩ := h.refreshes hrefreshing
    exact ⟨j, hj.setPhase hcall hold⟩

/-- Without a refresh in progress the queue has to be empty. -/
theorem Consistent.idle (ht : TokensShared c) (hl : Linked c []) (hq : c.failedQueue = [])
    (hr : c.isRefreshing = false) : Consistent c where
  tokens := ht
  linked := by rwa [hq]
  waits _ := hq
  refreshes hrefreshing := by
    rw [hr] at hrefreshing
    cases hrefreshing

/-- A settled call is an end. -/
theorem settled_continues {result : Result} {request : Request} :
    (Phase.settled result).Continues c i request := by
  intro j hj
  cases hj

theorem Consistent.settle (h : Consistent c) (hcall : c.calls[i]? = some call)
    (hqueued : call.phase ≠ .queued)
    (hold : ∀ error child, call.phase ≠ .refreshing error child)
    {result : Result} : Consistent (c.setPhase i (.settled result)) :=
  h.setPhase hcall hqueued hold (by simp) (by simp) settled_continues

/-- `catch`: the calls of the queue fail with the error, whoever refreshes. -/
theorem Consistent.fail (h : Consistent c) (hcall : c.calls[i]? = some call)
    (hqueued : call.phase ≠ .queued) {error refreshError : ClientError} :
    Consistent (c.fail i error refreshError) := by
  obtain ⟨ht, hl⟩ := processQueue_consistent (c := { c with isRefreshing := false })
    (.rejected refreshError) ⟨h.tokens.shared, h.tokens.known⟩
    ⟨h.linked.child, h.linked.enqueued, h.linked.queued, h.linked.nodup⟩
  have hold := processQueue_old (c := { c with isRefreshing := false })
    (.rejected refreshError) hcall
    ⟨h.linked.child, h.linked.enqueued, h.linked.queued, h.linked.nodup⟩ hqueued
  refine Consistent.idle (ht.setPhase hold (by simp))
    (hl.setPhase hold hqueued (by simp) settled_continues) rfl ?_
  exact wakeAll_isRefreshing

/-- After the refresh the calls of the queue are made again, and the one that refreshed. -/
theorem Consistent.repeatRequest (h : Consistent c) (hcall : c.calls[i]? = some call)
    (hqueued : call.phase ≠ .queued) {error : ClientError} :
    Consistent (c.repeatRequest i call error) := by
  obtain ⟨ht, hl⟩ := processQueue_consistent (c := { c with isRefreshing := false }) .fulfilled
    ⟨h.tokens.shared, h.tokens.known⟩
    ⟨h.linked.child, h.linked.enqueued, h.linked.queued, h.linked.nodup⟩
  have hold := processQueue_old (c := { c with isRefreshing := false }) .fulfilled
    hcall
    ⟨h.linked.child, h.linked.enqueued, h.linked.queued, h.linked.nodup⟩ hqueued
  unfold Client.repeatRequest
  refine Consistent.idle (ht.start.setPhase (start_old hold) (by simp))
    (hl.start.setPhase (start_old hold) hqueued (by simp) ?_) start_failedQueue ?_
  · intro j hj
    cases hj
    obtain ⟨phase, hnew, _⟩ := start_new
      (({ c with isRefreshing := false } : Client).processQueue .fulfilled) call.request false
    exact ⟨(List.getElem?_eq_some_iff.mp hold).1, _, hnew, rfl⟩
  · rw [setPhase_isRefreshing, start_isRefreshing]
    exact wakeAll_isRefreshing

theorem Consistent.receive {response : Response} (h : Consistent c)
    (hcall : c.calls[i]? = some call) (hphase : call.phase = .fetching) :
    Consistent (c.receive i call response) := by
  have hqueued : call.phase ≠ .queued := by simp [hphase]
  have hold : ∀ error child, call.phase ≠ .refreshing error child := by simp [hphase]
  have hlt := (List.getElem?_eq_some_iff.mp hcall).1
  cases response with
  | success => exact h.settle hcall hqueued hold
  | unreadable => exact h.settle hcall hqueued hold
  | network => exact h.settle hcall hqueued hold
  | failure status text =>
    dsimp only [Client.receive]
    split
    · have hcleared : Consistent { c with csrfToken := none } :=
        ⟨⟨h.tokens.shared, h.tokens.known⟩,
          ⟨h.linked.child, h.linked.enqueued, h.linked.queued, h.linked.nodup⟩,
          h.waits, h.refreshes⟩
      refine hcleared.start.setPhase (start_old hcall) hqueued hold (by simp) (by simp) ?_
      intro j hj
      cases hj
      obtain ⟨phase, hnew, _⟩ := start_new { c with csrfToken := none } call.request true
      exact ⟨hlt, _, hnew, rfl⟩
    · split
      · rename_i _ hpath
        split
        · rename_i hrefreshing
          -- The call that refreshes the session is another one.
          obtain ⟨k, hk⟩ := h.refreshes hrefreshing
          have hlinked := h.linked.enter hcall hqueued hpath.2
          have htokens : TokensShared (c.setPhase i .queued) :=
            h.tokens.setPhase hcall (by simp)
          refine ⟨⟨htokens.shared, htokens.known⟩,
            ⟨hlinked.child, hlinked.enqueued, hlinked.queued, hlinked.nodup⟩,
            fun hnot => ?_, fun _ => ⟨k, hk.setPhase hcall hold⟩⟩
          exact absurd hrefreshing (by simpa using hnot)
        · rename_i hrefreshing
          have hbase : TokensShared { c with isRefreshing := true } :=
            ⟨h.tokens.shared, h.tokens.known⟩
          have hlinked : Linked { c with isRefreshing := true } c.failedQueue :=
            ⟨h.linked.child, h.linked.enqueued, h.linked.queued, h.linked.nodup⟩
          obtain ⟨phase, hnew, _⟩ :=
            start_new { c with isRefreshing := true } refreshRequest false
          refine ⟨?_, ?_, fun hnot => ?_,
            fun _ => ⟨i, _, _, _, setPhase_call (start_old hcall), rfl⟩⟩
          · exact hbase.start.setPhase (start_old hcall) (by simp)
          · rw [setPhase_failedQueue, start_failedQueue]
            refine hlinked.start.setPhase (start_old hcall) hqueued (by simp) ?_
            intro j hj
            cases hj
            exact ⟨hlt, _, hnew, rfl⟩
          · rw [setPhase_isRefreshing, start_isRefreshing] at hnot
            cases hnot
      · exact h.settle hcall hqueued hold

/-- What an awaited call leads to. -/
theorem resume_cases (h : resume c i call = some c') :
    (∃ child result, call.phase = .awaiting child ∧ c.result child = some result ∧
      c' = c.setPhase i (.settled result)) ∨
    (∃ error child, call.phase = .refreshing error child ∧ c.result child = some .fulfilled ∧
      c' = c.repeatRequest i call error) ∨
    (∃ error child, call.phase = .repeating error child ∧ c.result child = some .fulfilled ∧
      c' = c.setPhase i (.settled .fulfilled)) ∨
    (∃ error child refreshError, (call.phase = .refreshing error child ∨
      call.phase = .repeating error child) ∧ c.result child = some (.rejected refreshError) ∧
      c' = c.fail i error refreshError) := by
  unfold resume at h
  split at h
  · rename_i child hphase
    obtain ⟨result, hresult, rfl⟩ := Option.map_eq_some_iff.mp h
    exact .inl ⟨child, result, hphase, hresult, rfl⟩
  · rename_i error child hphase
    obtain ⟨result, hresult, rfl⟩ := Option.map_eq_some_iff.mp h
    cases result with
    | fulfilled => exact .inr (.inl ⟨error, child, hphase, hresult, rfl⟩)
    | rejected refreshError =>
      exact .inr (.inr (.inr ⟨error, child, refreshError, .inl hphase, hresult, rfl⟩))
  · rename_i error child hphase
    obtain ⟨result, hresult, rfl⟩ := Option.map_eq_some_iff.mp h
    cases result with
    | fulfilled => exact .inr (.inr (.inl ⟨error, child, hphase, hresult, rfl⟩))
    | rejected refreshError =>
      exact .inr (.inr (.inr ⟨error, child, refreshError, .inr hphase, hresult, rfl⟩))
  · cases h

theorem Consistent.resume (h : Consistent c) (hcall : c.calls[i]? = some call)
    (hstep : resume c i call = some c') : Consistent c' := by
  obtain ⟨child, result, hphase, _, rfl⟩ | ⟨error, child, hphase, _, rfl⟩ |
    ⟨error, child, hphase, _, rfl⟩ | ⟨error, child, refreshError, hphase, _, rfl⟩ :=
    resume_cases hstep
  · exact h.settle hcall (by simp [hphase]) (by simp [hphase])
  · exact h.repeatRequest hcall (by simp [hphase])
  · exact h.settle hcall (by simp [hphase]) (by simp [hphase])
  · refine h.fail hcall ?_
    obtain hphase | hphase := hphase <;> simp [hphase]

theorem Consistent.csrfResume {shared : Option Nat} (h : Consistent c)
    (hcall : c.calls[i]? = some call) (hphase : call.phase = .csrf shared)
    (hstep : csrfResume c i shared = some c') : Consistent c' := by
  have hqueued : call.phase ≠ .queued := by simp [hphase]
  have hold : ∀ error child, call.phase ≠ .refreshing error child := by simp [hphase]
  have hfetch : Consistent (c.setPhase i .fetching) := by
    refine h.setPhase hcall hqueued hold (by simp) (by simp) ?_
    intro j hj
    cases hj
  unfold ApiClient.csrfResume at hstep
  split at hstep
  · cases hstep
    exact hfetch
  · split at hstep
    · cases hstep
      exact hfetch
    · cases hstep
      exact h.settle hcall hqueued hold
    · cases hstep

/-- A token request goes on. -/
theorem TokensShared.set {r : Nat} {before after : CsrfRequest} {shared : Option Nat}
    {token : Option Nat} (h : TokensShared c) (hr : c.csrfRequests[r]? = some before)
    (hbefore : before.isSettled = false)
    (hshared : shared = if after.isSettled then none else c.csrfRequest) :
    TokensShared { c with
      csrfToken := token, csrfRequest := shared, csrfRequests := c.csrfRequests.set r after } := by
  have hcurrent := (h.shared r).mpr ⟨before, hr, hbefore⟩
  have hlt := (List.getElem?_eq_some_iff.mp hr).1
  refine ⟨fun s => ?_, fun j call s hj hphase => ?_⟩
  · dsimp only
    rw [hshared]
    by_cases hs : s = r
    · subst hs
      rw [List.getElem?_set_self hlt]
      cases hafter : after.isSettled <;> simp [hcurrent, hafter]
    · rw [List.getElem?_set_ne (Ne.symm hs), ← h.shared s, hcurrent]
      split <;> simp [Ne.symm hs]
  · rw [List.length_set]
    exact h.known j call s hj hphase

theorem consistent_step {input : Input} (hstep : step c input = some c') (h : Consistent c) :
    Consistent c' := by
  cases input with
  | request request =>
    cases hstep
    exact h.start
  | csrfReply r token =>
    dsimp only [step] at hstep
    split at hstep
    · rename_i hr
      cases hstep
      exact ⟨h.tokens.set hr rfl rfl, ⟨h.linked.child, h.linked.enqueued, h.linked.queued,
        h.linked.nodup⟩, h.waits, h.refreshes⟩
    · cases hstep
  | csrfFinally r =>
    dsimp only [step] at hstep
    split at hstep
    · rename_i token hr
      cases hstep
      exact ⟨h.tokens.set hr rfl rfl, ⟨h.linked.child, h.linked.enqueued, h.linked.queued,
        h.linked.nodup⟩, h.waits, h.refreshes⟩
    · cases hstep
  | csrfResume i =>
    dsimp only [step] at hstep
    split at hstep
    · rename_i request csrfRetried shared hcall
      exact h.csrfResume hcall rfl hstep
    · cases hstep
  | reply i response =>
    dsimp only [step] at hstep
    split at hstep
    · rename_i call hcall
      split at hstep
      · rename_i hphase
        cases hstep
        exact h.receive hcall hphase
      · cases hstep
    · cases hstep
  | resume i =>
    obtain ⟨call, hcall, hstep⟩ := Option.bind_eq_some_iff.mp hstep
    exact h.resume hcall hstep

theorem consistent_start : Consistent {} where
  tokens := ⟨by simp, by simp⟩
  linked := ⟨by simp, by simp, by simp, by simp⟩
  waits _ := rfl
  refreshes := by simp

theorem consistent_run {inputs : List Input} (h : Run (StepOf step) {} inputs c) : Consistent c :=
  h.preserves (fun _ _ _ hstep hs => consistent_step hstep hs) consistent_start

/-! ## No call is stranded -/

/-- Some call or token request can go on. -/
def Live (c : Client) : Prop := ∃ input, input.isRequest = false ∧ (step c input).isSome = true

theorem Live.of_resume (hcall : c.calls[i]? = some call) {child : Nat}
    (hchild : call.phase.child = some child) {result : Result}
    (hresult : c.result child = some result) : Live c := by
  refine ⟨.resume i, rfl, ?_⟩
  rw [step, hcall]
  change (resume c i call).isSome = true
  unfold resume
  cases hphase : call.phase with
  | awaiting j =>
    rw [hphase] at hchild
    cases hchild
    dsimp only
    rw [hresult]
    rfl
  | refreshing error j =>
    rw [hphase] at hchild
    cases hchild
    dsimp only
    rw [hresult]
    rfl
  | repeating error j =>
    rw [hphase] at hchild
    cases hchild
    dsimp only
    rw [hresult]
    rfl
  | _ =>
    rw [hphase] at hchild
    cases hchild

/-- A token request that is not settled goes on by its reply or its `finally`. -/
theorem Live.of_token {r : Nat} {request : CsrfRequest} (hr : c.csrfRequests[r]? = some request)
    (hopen : request.isSettled = false) : Live c := by
  cases request with
  | fetching => exact ⟨.csrfReply r none, rfl, by rw [step, hr]; rfl⟩
  | received token => exact ⟨.csrfFinally r, rfl, by rw [step, hr]; rfl⟩
  | settled token => cases hopen

theorem Live.of_csrf (h : Consistent c) (hcall : c.calls[i]? = some call) {shared : Option Nat}
    (hphase : call.phase = .csrf shared) : Live c := by
  obtain ⟨request, csrfRetried, phase⟩ := call
  obtain rfl : phase = .csrf shared := hphase
  cases shared with
  | none => exact ⟨.csrfResume i, rfl, by rw [step, hcall]; rfl⟩
  | some r =>
    have hlt := h.tokens.known i _ r hcall rfl
    have hget := List.getElem?_eq_getElem hlt
    cases htoken : c.csrfRequests[r] with
    | settled token =>
      rw [htoken] at hget
      refine ⟨.csrfResume i, rfl, ?_⟩
      rw [step, hcall]
      dsimp only
      rw [csrfResume]
      rw [hget]
      cases token <;> rfl
    | fetching => exact Live.of_token (hget.trans (congrArg some htoken)) rfl
    | received token => exact Live.of_token (hget.trans (congrArg some htoken)) rfl

theorem Live.of_fetching (hcall : c.calls[i]? = some call) (hphase : call.phase = .fetching) :
    Live c := ⟨.reply i .success, rfl, by rw [step, hcall]; simp [hphase]⟩

theorem result_of_settled {result : Result} (hcall : c.calls[i]? = some call)
    (hphase : call.phase = .settled result) : c.result i = some result := by
  obtain ⟨request, csrfRetried, phase⟩ := call
  obtain rfl : phase = .settled result := hphase
  rw [Client.result, hcall]

theorem Phase.cases_open (hopen : ∀ result, phase ≠ .settled result) :
    phase = .fetching ∨ (∃ shared, phase = .csrf shared) ∨ phase = .queued ∨
      ∃ child, phase.child = some child := by
  cases phase with
  | csrf shared => exact .inr (.inl ⟨shared, rfl⟩)
  | fetching => exact .inl rfl
  | awaiting child => exact .inr (.inr (.inr ⟨child, rfl⟩))
  | queued => exact .inr (.inr (.inl rfl))
  | refreshing error child => exact .inr (.inr (.inr ⟨child, rfl⟩))
  | repeating error child => exact .inr (.inr (.inr ⟨child, rfl⟩))
  | settled result => exact absurd rfl (hopen result)

/-- A call goes on, or the last call of those that it waits for is queued. The
induction is on the calls that are made after it. -/
theorem live_or_queued (h : Consistent c) (hcall : c.calls[i]? = some call)
    (hopen : ∀ result, call.phase ≠ .settled result) : Live c ∨
      ∃ (j : Nat) (last : Call), c.calls[j]? = some last ∧ last.phase = .queued ∧
        (call.request.path = refreshPath → last.request.path = refreshPath) := by
  induction hn : c.calls.length - i using Nat.strong_induction_on generalizing i call with
  | _ n ih =>
    obtain hphase | ⟨shared, hphase⟩ | hphase | ⟨child, hchild⟩ := Phase.cases_open hopen
    · exact .inl (Live.of_fetching hcall hphase)
    · exact .inl (Live.of_csrf h hcall hphase)
    · exact .inr ⟨i, call, hcall, hphase, id⟩
    · obtain ⟨hlt, next, hnext, hrequest⟩ := h.linked.child i call child hcall hchild
      have hlength := (List.getElem?_eq_some_iff.mp hnext).1
      by_cases hsettled : ∃ result, next.phase = .settled result
      · obtain ⟨result, hresult⟩ := hsettled
        exact .inl (Live.of_resume hcall hchild (result_of_settled hnext hresult))
      · obtain hlive | ⟨j, last, hlast, hqueued, hpath⟩ :=
          ih (c.calls.length - child) (by omega)
          hnext (fun result hresult => hsettled ⟨result, hresult⟩) rfl
        · exact .inl hlive
        · refine .inr ⟨j, last, hlast, hqueued, fun hrefresh => hpath ?_⟩
          rw [hrequest]
          unfold Phase.childRequest
          split
          · rfl
          · exact hrefresh

/-- The session refresh itself never waits in the queue. -/
theorem live_of_refresh (h : Consistent c) (hcall : c.calls[i]? = some call)
    (hopen : ∀ result, call.phase ≠ .settled result) (hpath : call.request.path = refreshPath) :
    Live c := by
  obtain hlive | ⟨j, last, hlast, hqueued, hrefresh⟩ := live_or_queued h hcall hopen
  · exact hlive
  · exact absurd (hrefresh hpath) (h.linked.enqueued j _ (h.linked.queued j last hlast hqueued)).1

theorem live_of_refreshing (h : Consistent c) (hi : Refreshing c i) : Live c := by
  obtain ⟨call, error, child, hcall, hphase⟩ := hi
  have hchild : call.phase.child = some child := by rw [hphase]; rfl
  obtain ⟨_, next, hnext, hrequest⟩ := h.linked.child i call child hcall hchild
  by_cases hsettled : ∃ result, next.phase = .settled result
  · obtain ⟨result, hresult⟩ := hsettled
    exact Live.of_resume hcall hchild (result_of_settled hnext hresult)
  · refine live_of_refresh h hnext (fun result hresult => hsettled ⟨result, hresult⟩) ?_
    rw [hrequest, hphase]
    rfl

/-- A queued call waits for a refresh that goes on. -/
theorem live_of_open (h : Consistent c) (hcall : c.calls[i]? = some call)
    (hopen : ∀ result, call.phase ≠ .settled result) : Live c := by
  obtain hlive | ⟨j, last, hlast, hqueued, _⟩ := live_or_queued h hcall hopen
  · exact hlive
  · have hmem := h.linked.queued j last hlast hqueued
    have hrefreshing : c.isRefreshing = true := by
      by_contra hnot
      rw [h.waits (by simpa using hnot)] at hmem
      cases hmem
    obtain ⟨k, hk⟩ := h.refreshes hrefreshing
    exact live_of_refreshing h hk

/-- Once the network owes no reply and no continuation is left, every call has its
result, and no refresh, queue or token request is left behind. -/
theorem every_call_settles {inputs : List Input} (hrun : Run (StepOf step) {} inputs c)
    (hquiet : ∀ input, input.isRequest = false → step c input = none) :
    c.isRefreshing = false ∧ c.failedQueue = [] ∧ c.csrfRequest = none ∧
      ∀ call ∈ c.calls, ∃ result, call.phase = .settled result := by
  have h := consistent_run hrun
  have hdead : ¬ Live c := by
    rintro ⟨input, hinput, hsome⟩
    rw [hquiet input hinput] at hsome
    cases hsome
  have hrefreshing : c.isRefreshing = false := by
    by_contra hnot
    obtain ⟨i, hi⟩ := h.refreshes (by simpa using hnot)
    exact hdead (live_of_refreshing h hi)
  refine ⟨hrefreshing, h.waits hrefreshing, ?_, fun call hcall => ?_⟩
  · by_contra hnot
    obtain ⟨r, hr⟩ := Option.ne_none_iff_exists'.mp hnot
    obtain ⟨request, hget, hopen⟩ := (h.tokens.shared r).mp hr
    exact hdead (Live.of_token hget hopen)
  · by_contra hnot
    obtain ⟨i, hi⟩ := List.mem_iff_getElem?.mp hcall
    exact hdead (live_of_open h hi fun result hresult => hnot ⟨result, hresult⟩)

theorem quiet_of_settled (hcalls : ∀ call ∈ c.calls, ∃ result, call.phase = .settled result)
    (htokens : ∀ request ∈ c.csrfRequests, request.isSettled = true) (input : Input)
    (hinput : input.isRequest = false) : step c input = none := by
  have hphase : ∀ (i : Nat) (call : Call), c.calls[i]? = some call →
      ∃ result, call.phase = .settled result :=
    fun i call hi => hcalls call (List.mem_iff_getElem?.mpr ⟨i, hi⟩)
  have htoken : ∀ (r : Nat) (request : CsrfRequest), c.csrfRequests[r]? = some request →
      ∃ token, request = .settled token := by
    intro r request hr
    have := htokens request (List.mem_iff_getElem?.mpr ⟨r, hr⟩)
    cases request with
    | settled token => exact ⟨token, rfl⟩
    | fetching => cases this
    | received token => cases this
  cases input with
  | request request => cases hinput
  | csrfReply r token =>
    dsimp only [step]
    split
    · rename_i hr
      obtain ⟨_, heq⟩ := htoken r _ hr
      cases heq
    · rfl
  | csrfFinally r =>
    dsimp only [step]
    split
    · rename_i hr
      obtain ⟨_, heq⟩ := htoken r _ hr
      cases heq
    · rfl
  | csrfResume i =>
    dsimp only [step]
    split
    · rename_i hi
      obtain ⟨_, heq⟩ := hphase i _ hi
      cases heq
    · rfl
  | reply i response =>
    dsimp only [step]
    split
    · rename_i call hi
      obtain ⟨_, heq⟩ := hphase i _ hi
      rw [heq]
      rfl
    · rfl
  | resume i =>
    rw [step]
    cases hi : c.calls[i]? with
    | none => rfl
    | some call =>
      obtain ⟨_, heq⟩ := hphase i _ hi
      rw [Option.bind_some, resume, heq]

namespace Sample

/-- Two requests are refused; one refreshes the session while the other waits. -/
def inputs : List Input :=
  [.request ⟨"/orders", none⟩, .request ⟨"/bids", none⟩, .reply 0 (.failure 401 none),
    .reply 1 (.failure 401 none), .csrfReply 0 (some 7), .csrfFinally 0, .csrfResume 2,
    .reply 2 .success, .resume 0, .reply 3 .success, .reply 4 .success, .resume 1, .resume 0]

end Sample

theorem every_call_settles_sample :
    (Run.final step {} Sample.inputs).isRefreshing = false ∧
      (Run.final step {} Sample.inputs).failedQueue = [] ∧
      (Run.final step {} Sample.inputs).csrfRequest = none ∧
      ∀ call ∈ (Run.final step {} Sample.inputs).calls, ∃ result,
        call.phase = .settled result :=
  every_call_settles (Run.to_final (by decide +kernel)) (quiet_of_settled
    (by
      intro call hcall
      have : (Run.final step {} Sample.inputs).calls.all
          fun call => call.phase = .settled .fulfilled := by decide +kernel
      exact ⟨.fulfilled, by simpa using List.all_eq_true.mp this call hcall⟩)
    (by decide +kernel))

/-! ## One refresh at a time -/

/-- A repeated request fails while another call refreshes the session. Its `catch` resets the
flag that guards that refresh. -/
def overtakes (c : Client) : Input → Bool
  | .resume i =>
    match c.calls[i]? with
    | some ⟨_, _, .repeating _ child⟩ =>
      match c.result child with
      | some (.rejected _) => c.isRefreshing
      | _ => false
    | _ => false
  | _ => false

theorem refreshing_of_start (h : Refreshing (c.start request csrfRetried) i) : Refreshing c i := by
  obtain ⟨call, error, child, hcall, hphase⟩ := h
  obtain hold | ⟨_, _, hbegin⟩ := start_cases hcall
  · exact ⟨call, error, child, hold, hphase⟩
  · rw [hphase] at hbegin
    obtain h | ⟨_, h⟩ := hbegin
    · cases h
    · cases h

theorem refreshing_of_setPhase (h : Refreshing (c.setPhase i phase) j) :
    (j = i ∧ ∃ error child, phase = .refreshing error child) ∨
    (j ≠ i ∧ Refreshing c j) := by
  obtain ⟨call, error, child, hcall, hphase⟩ := h
  by_cases hji : j = i
  · subst hji
    left
    unfold Client.setPhase at hcall
    rw [List.getElem?_modify_eq, Option.map_eq_map, Option.map_eq_some_iff] at hcall
    obtain ⟨_, _, rfl⟩ := hcall
    exact ⟨rfl, error, child, hphase⟩
  · rw [setPhase_other hji] at hcall
    exact .inr ⟨hji, call, error, child, hcall, hphase⟩

/-- A call goes on without a refresh of its own. -/
theorem refreshing_of_setPhase_other (hphase : ∀ error child, phase ≠ .refreshing error child)
    (h : Refreshing (c.setPhase i phase) j) : j ≠ i ∧ Refreshing c j := by
  obtain ⟨_, error, child, heq⟩ | hother := refreshing_of_setPhase h
  · exact absurd heq (hphase error child)
  · exact hother

theorem refreshing_of_wakeAll (result : Result) (queue : List (Nat × Request))
    (h : Refreshing (c.wakeAll result queue) j) :
    Refreshing c j := by
  induction queue generalizing c with
  | nil => exact h
  | cons prom queue ih =>
    have h := ih h
    cases result with
    | fulfilled => exact refreshing_of_start (refreshing_of_setPhase_other (by simp) h).2
    | rejected error => exact (refreshing_of_setPhase_other (by simp) h).2

theorem refreshing_of_processQueue {result : Result}
    (h : Refreshing (({ c with isRefreshing := false } : Client).processQueue result) j) :
    Refreshing c j :=
  refreshing_of_wakeAll (c := { c with isRefreshing := false }) result c.failedQueue h

theorem refreshing_of_fail {error refreshError : ClientError}
    (h : Refreshing (c.fail i error refreshError) j) : j ≠ i ∧ Refreshing c j := by
  obtain ⟨hne, h⟩ := refreshing_of_setPhase_other (by simp) h
  exact ⟨hne, refreshing_of_processQueue h⟩

theorem refreshing_of_repeatRequest {error : ClientError}
    (h : Refreshing (c.repeatRequest i call error) j) : j ≠ i ∧ Refreshing c j := by
  obtain ⟨hne, h⟩ := refreshing_of_setPhase_other (by simp) h
  exact ⟨hne, refreshing_of_processQueue (refreshing_of_start h)⟩

/-- `isRefreshing` marks the one call that refreshes the session. -/
structure SingleFlight (c : Client) : Prop where
  marked : ∀ i, Refreshing c i → c.isRefreshing = true
  unique : ∀ i j, Refreshing c i → Refreshing c j → i = j

/-- No call begins a refresh, and the flag stays. -/
theorem SingleFlight.of_old (h : SingleFlight c) (hflag : c'.isRefreshing = c.isRefreshing)
    (hold : ∀ i, Refreshing c' i → Refreshing c i) : SingleFlight c' where
  marked i hi := hflag.trans (h.marked i (hold i hi))
  unique i j hi hj := h.unique i j (hold i hi) (hold j hj)

theorem SingleFlight.of_none (h : ∀ i, ¬ Refreshing c i) : SingleFlight c where
  marked i hi := absurd hi (h i)
  unique i _ hi := absurd hi (h i)

theorem SingleFlight.setPhase (h : SingleFlight c)
    (hphase : ∀ error child, phase ≠ .refreshing error child) :
    SingleFlight (c.setPhase i phase) :=
  h.of_old rfl fun _ hj => (refreshing_of_setPhase_other hphase hj).2

theorem SingleFlight.receive {response : Response} (h : SingleFlight c) :
    SingleFlight (c.receive i call response) := by
  cases response with
  | success => exact h.setPhase (by simp)
  | unreadable => exact h.setPhase (by simp)
  | network => exact h.setPhase (by simp)
  | failure status text =>
    dsimp only [Client.receive]
    split
    · refine h.of_old start_isRefreshing fun j hj => ?_
      obtain ⟨_, hj⟩ := refreshing_of_setPhase_other (by simp) hj
      exact refreshing_of_start (c := { c with csrfToken := none }) hj
    · split
      · split
        · refine h.of_old rfl fun j hj => ?_
          have hj : Refreshing (c.setPhase i .queued) j := hj
          exact (refreshing_of_setPhase_other (by simp) hj).2
        · rename_i hflag
          have honly : ∀ j, Refreshing (({ c with isRefreshing := true } : Client).start
              refreshRequest false |>.setPhase i (.refreshing
                (.api status (Client.message status text)) c.calls.length)) j → j = i := by
            intro j hj
            obtain ⟨hji, _⟩ | ⟨_, hj⟩ := refreshing_of_setPhase hj
            · exact hji
            · have hj := refreshing_of_start (c := { c with isRefreshing := true }) hj
              exact absurd (h.marked j hj) hflag
          exact ⟨fun _ _ => start_isRefreshing,
            fun j k hj hk => (honly j hj).trans (honly k hk).symm⟩
      · exact h.setPhase (by simp)

theorem SingleFlight.resume (h : SingleFlight c) (hcall : c.calls[i]? = some call)
    (hstep : resume c i call = some c') (hok : overtakes c (.resume i) = false) :
    SingleFlight c' := by
  obtain ⟨child, result, _, _, rfl⟩ | ⟨error, child, hphase, _, rfl⟩ |
    ⟨error, child, _, _, rfl⟩ | ⟨error, child, refreshError, hphase, hresult, rfl⟩ :=
    resume_cases hstep
  · exact h.setPhase (by simp)
  · -- The call that refreshed was the only one.
    refine SingleFlight.of_none fun j hj => ?_
    obtain ⟨hne, hj⟩ := refreshing_of_repeatRequest hj
    exact hne (h.unique j i hj ⟨call, error, child, hcall, hphase⟩)
  · exact h.setPhase (by simp)
  · refine SingleFlight.of_none fun j hj => ?_
    obtain ⟨hne, hj⟩ := refreshing_of_fail hj
    obtain hphase | hphase := hphase
    · exact hne (h.unique j i hj ⟨call, error, child, hcall, hphase⟩)
    · obtain ⟨request, csrfRetried, phase⟩ := call
      obtain rfl : phase = .repeating error child := hphase
      have hflag := h.marked j hj
      rw [overtakes, hcall] at hok
      dsimp only at hok
      rw [hresult] at hok
      rw [hflag] at hok
      cases hok

theorem singleFlight_step {input : Input} (hstep : step c input = some c')
    (hok : overtakes c input = false) (h : SingleFlight c) : SingleFlight c' := by
  cases input with
  | request request =>
    cases hstep
    exact h.of_old start_isRefreshing fun _ hi => refreshing_of_start hi
  | csrfReply r token =>
    dsimp only [step] at hstep
    split at hstep
    · cases hstep
      exact h.of_old rfl fun _ hi => hi
    · cases hstep
  | csrfFinally r =>
    dsimp only [step] at hstep
    split at hstep
    · cases hstep
      exact h.of_old rfl fun _ hi => hi
    · cases hstep
  | csrfResume i =>
    dsimp only [step] at hstep
    split at hstep
    · unfold csrfResume at hstep
      split at hstep
      · cases hstep
        exact h.setPhase (by simp)
      · split at hstep
        · cases hstep
          exact h.setPhase (by simp)
        · cases hstep
          exact h.setPhase (by simp)
        · cases hstep
    · cases hstep
  | reply i response =>
    dsimp only [step] at hstep
    split at hstep
    · split at hstep
      · cases hstep
        exact h.receive
      · cases hstep
    · cases hstep
  | resume i =>
    obtain ⟨call, hcall, hstep⟩ := Option.bind_eq_some_iff.mp hstep
    exact h.resume hcall hstep hok

/-- At most one call refreshes the session, and `isRefreshing` is set exactly during its
refresh, in every run in which no repeated request fails during the refresh of another call. -/
theorem single_refresh {inputs : List Input}
    (hrun : Run (Guarded (fun c input => overtakes c input = false) (StepOf step)) {} inputs c) :
    (∀ i j, Refreshing c i → Refreshing c j → i = j) ∧
      (c.isRefreshing = true ↔ ∃ i, Refreshing c i) := by
  have hsingle : SingleFlight c := hrun.preserves
    (fun _ _ _ hstep hs => singleFlight_step hstep.2 hstep.1 hs)
    (SingleFlight.of_none fun i hi => by
      obtain ⟨call, _, _, hcall, _⟩ := hi
      simp at hcall)
  have hconsistent := consistent_run (hrun.mono fun _ _ _ hstep => hstep.2)
  exact ⟨hsingle.unique, hconsistent.refreshes, fun hsome => by
    obtain ⟨i, hi⟩ := hsome
    exact hsingle.marked i hi⟩

theorem single_refresh_sample :
    (∀ i j, Refreshing (Run.final step {} Sample.inputs) i →
        Refreshing (Run.final step {} Sample.inputs) j → i = j) ∧
      ((Run.final step {} Sample.inputs).isRefreshing = true ↔
        ∃ i, Refreshing (Run.final step {} Sample.inputs) i) :=
  single_refresh (Run.to_final_guarded (by decide +kernel))

end

end MiracleAuction.ApiClient
