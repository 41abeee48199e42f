import MiracleAuction.Base.Run

/-!
# `auth-snapshot.cache.ts`: principals in process memory, Redis and the database

Lookups fill the two caches with what they have read; a change of access refreshes
Redis and tells every instance to evict its own entry.
-/
namespace MiracleAuction.Accounts

/-- A principal; its id is the key under which it is kept. -/
structure AuthPrincipal where
  role : String
  status : String
  authVersion : Nat
  deriving DecidableEq, Repr

structure UserRow where
  role : Option String
  status : String
  authVersion : Nat
  deriving DecidableEq, Repr

/-- The select of `findAuthPrincipalById`. -/
def UserRow.principal (row : UserRow) : AuthPrincipal :=
  ⟨row.role.getD "user", row.status, row.authVersion⟩

/-- `parseSnapshot` takes no empty role or status. -/
def AuthPrincipal.Usable (p : AuthPrincipal) : Prop := p.role ≠ "" ∧ p.status ≠ ""

instance (p : AuthPrincipal) : Decidable p.Usable := by
  unfold AuthPrincipal.Usable; infer_instance

def parseSnapshot (values : Option AuthPrincipal) : Option AuthPrincipal :=
  values.filter (AuthPrincipal.Usable ·)

/-- The script accepts a principal that is not older than the stored one. -/
def Accepts (current : Option AuthPrincipal) (incoming : AuthPrincipal) : Prop :=
  ∀ stored ∈ current, stored.authVersion ≤ incoming.authVersion

instance (current : Option AuthPrincipal) (incoming : AuthPrincipal) :
    Decidable (Accepts current incoming) := by
  unfold Accepts; infer_instance

/-- `WRITE_IF_CURRENT`. -/
def writeIfCurrent (current : Option AuthPrincipal) (incoming : AuthPrincipal) :
    Option AuthPrincipal :=
  if Accepts current incoming then some incoming else current

/-! ## Instances -/

/-- An instance has handled the message about a change that a finished invalidation has
announced; the version is the one that the change wrote. -/
structure Handled where
  instanceId : Nat
  userId : Nat
  version : Nat
  deriving DecidableEq, Repr

/-- A call of `resolveAuthPrincipal`, with what the instance had handled at its start. -/
structure Lookup where
  instanceId : Nat
  userId : Nat
  before : List Handled
  deriving DecidableEq, Repr

inductive LookupPhase
  | redis
  | database
  | found (principal : AuthPrincipal)
  | answer (principal : AuthPrincipal)
  deriving DecidableEq, Repr

def LookupPhase.principal : LookupPhase → Option AuthPrincipal
  | .redis | .database => none
  | .found p | .answer p => some p

structure LookupCall extends Lookup where
  phase : LookupPhase
  deriving DecidableEq, Repr

structure LookupReturn extends Lookup where
  result : Option AuthPrincipal
  deriving DecidableEq, Repr

/-- Where `editUserRoleAndStatus` stands after its transaction. -/
inductive EditPhase
  | find
  | evict (principal : AuthPrincipal)
  | store (principal : AuthPrincipal)
  | publish (principal : AuthPrincipal) (stored : Bool)
  deriving DecidableEq, Repr

/-- An edit, with the version that it has written. -/
structure Edit where
  instanceId : Nat
  userId : Nat
  version : Nat
  phase : EditPhase
  deriving DecidableEq, Repr

/-- A message on its way to an instance; `change` is the version that the edit has
written, if Redis was reachable for it. -/
structure InvalidationMessage where
  instanceId : Nat
  userId : Nat
  authVersion : Nat
  change : Option Nat
  deriving DecidableEq, Repr

structure AuthWorld where
  users : Nat → Option UserRow
  redis : Nat → Option AuthPrincipal := fun _ => none
  memory : Nat → Nat → Option AuthPrincipal := fun _ _ => none
  calls : List LookupCall := []
  edits : List Edit := []
  messages : List InvalidationMessage := []
  handled : List Handled := []
  returns : List LookupReturn := []

inductive AuthAction
  | register (userId : Nat) (row : UserRow)
  | edit (instanceId userId : Nat) (role status : String)
  | find (edit : Nat)
  | evict (edit : Nat)
  | store (edit : Nat) (reachable : Bool)
  | publish (edit : Nat) (reachable : Bool) (subscribers : List Nat)
  | handle (message : Nat)
  | loseMessage (message : Nat)
  | loseEdit (edit : Nat)
  | resolve (instanceId userId : Nat)
  | readRedis (call : Nat) (reachable : Bool)
  | readDatabase (call : Nat)
  | writeRedis (call : Nat) (reachable : Bool)
  | finish (call : Nat)
  | loseCall (call : Nat)
  | expireRedis (userId : Nat)
  | expireMemory (instanceId userId : Nat)
  deriving DecidableEq, Repr

namespace AuthWorld
variable (localTtlMs : ℚ) (w : AuthWorld)

def readAuthSnapshot (userId : Nat) : Option AuthPrincipal := parseSnapshot (w.redis userId)

def writeAuthSnapshot (userId : Nat) (principal : AuthPrincipal) : AuthWorld :=
  { w with
    redis := Function.update w.redis userId (writeIfCurrent (w.redis userId) principal) }

def setMemory (instanceId userId : Nat) (entry : Option AuthPrincipal) : AuthWorld :=
  { w with
    memory := Function.update w.memory instanceId
      (Function.update (w.memory instanceId) userId entry) }

def setCall (index : Nat) (lookup : Lookup) (phase : LookupPhase) : AuthWorld :=
  { w with calls := w.calls.set index ⟨lookup, phase⟩ }

def setEdit (index : Nat) (edit : Edit) : AuthWorld := { w with edits := w.edits.set index edit }

def dropEdit (index : Nat) : AuthWorld := { w with edits := w.edits.eraseIdx index }

def dropCall (index : Nat) : AuthWorld := { w with calls := w.calls.eraseIdx index }

def reply (lookup : Lookup) (result : Option AuthPrincipal) : AuthWorld :=
  { w with returns := w.returns ++ [⟨lookup, result⟩] }

/-- `rememberLocalSnapshot`. -/
def remember (instanceId userId : Nat) (principal : AuthPrincipal) : AuthWorld :=
  if localTtlMs ≤ 0 then w else w.setMemory instanceId userId (some principal)

/-- One step; `none` where the action is not possible. -/
def next : AuthAction → Option AuthWorld
  | .register userId row =>
    if w.users userId = none then some { w with users := Function.update w.users userId (some row) }
    else none
  | .edit instanceId userId role status =>
    match w.users userId with
    | some row =>
      some { w with
        users := Function.update w.users userId (some ⟨some role, status, row.authVersion + 1⟩)
        edits := w.edits ++ [⟨instanceId, userId, row.authVersion + 1, .find⟩] }
    | none => some w
  | .find edit =>
    match w.edits[edit]? with
    | some ⟨instanceId, userId, version, .find⟩ =>
      match w.users userId with
      | some row => some (w.setEdit edit ⟨instanceId, userId, version, .evict row.principal⟩)
      | none => some (w.dropEdit edit)
    | _ => none
  | .evict edit =>
    match w.edits[edit]? with
    | some ⟨instanceId, userId, version, .evict principal⟩ =>
      some ((w.setMemory instanceId userId none).setEdit edit
        ⟨instanceId, userId, version, .store principal⟩)
    | _ => none
  | .store edit reachable =>
    match w.edits[edit]? with
    | some ⟨instanceId, userId, version, .store principal⟩ =>
      let stored := if reachable then w.writeAuthSnapshot userId principal else w
      some (stored.setEdit edit ⟨instanceId, userId, version, .publish principal reachable⟩)
    | _ => none
  | .publish edit reachable subscribers =>
    match w.edits[edit]? with
    | some ⟨_, userId, version, .publish principal stored⟩ =>
      let messages := if reachable then subscribers.map fun instanceId =>
          ⟨instanceId, userId, principal.authVersion, if stored then some version else none⟩
        else []
      some ({ w with messages := w.messages ++ messages }.dropEdit edit)
    | _ => none
  | .handle message =>
    match w.messages[message]? with
    | some ⟨instanceId, userId, _, change⟩ =>
      some { w.setMemory instanceId userId none with
        messages := w.messages.eraseIdx message
        handled := w.handled ++ change.toList.map fun version => ⟨instanceId, userId, version⟩ }
    | none => none
  | .loseMessage message => some { w with messages := w.messages.eraseIdx message }
  | .loseEdit edit => some (w.dropEdit edit)
  | .resolve instanceId userId =>
    match w.memory instanceId userId with
    | some principal => some (w.reply ⟨instanceId, userId, w.handled⟩ (some principal))
    | none =>
      some { w with calls := w.calls ++ [⟨⟨instanceId, userId, w.handled⟩, .redis⟩] }
  | .readRedis call reachable =>
    match w.calls[call]? with
    | some ⟨lookup, .redis⟩ =>
      match if reachable then w.readAuthSnapshot lookup.userId else none with
      | some cached => some (w.setCall call lookup (.answer cached))
      | none => some (w.setCall call lookup .database)
    | _ => none
  | .readDatabase call =>
    match w.calls[call]? with
    | some ⟨lookup, .database⟩ =>
      match w.users lookup.userId with
      | some row => some (w.setCall call lookup (.found row.principal))
      | none => some ((w.dropCall call).reply lookup none)
    | _ => none
  | .writeRedis call reachable =>
    match w.calls[call]? with
    | some ⟨lookup, .found principal⟩ =>
      let stored := if reachable then w.writeAuthSnapshot lookup.userId principal else w
      some (stored.setCall call lookup (.answer principal))
    | _ => none
  | .finish call =>
    match w.calls[call]? with
    | some ⟨lookup, .answer principal⟩ =>
      some (((w.remember localTtlMs lookup.instanceId lookup.userId principal).dropCall call).reply
        lookup (some principal))
    | _ => none
  | .loseCall call => some (w.dropCall call)
  | .expireRedis userId => some { w with redis := Function.update w.redis userId none }
  | .expireMemory instanceId userId => some (w.setMemory instanceId userId none)

end AuthWorld

/-! ## Changes take effect -/

/-- No handled change of the user is newer than the version. -/
def Covers (handled : List Handled) (instanceId userId version : Nat) : Prop :=
  ∀ h ∈ handled, h.instanceId = instanceId → h.userId = userId → h.version ≤ version

instance (handled : List Handled) (instanceId userId version : Nat) :
    Decidable (Covers handled instanceId userId version) := by
  unfold Covers; infer_instance

/-- The call has returned a principal that is as new as what was handled before it. -/
def LookupReturn.Current (r : LookupReturn) : Prop :=
  ∀ h ∈ r.before, h.instanceId = r.instanceId → h.userId = r.userId →
    ∃ p ∈ r.result, h.version ≤ p.authVersion

instance (r : LookupReturn) : Decidable r.Current := by
  unfold LookupReturn.Current; infer_instance

/-- No call has returned an older principal than what was handled before it, and neither
cache holds one for the next call. -/
structure TakesEffect (w : AuthWorld) : Prop where
  returns : ∀ r ∈ w.returns, r.Current
  memory : ∀ instanceId userId, ∀ p ∈ w.memory instanceId userId,
    Covers w.handled instanceId userId p.authVersion
  redis : ∀ userId, ∀ p ∈ w.readAuthSnapshot userId, ∀ h ∈ w.handled,
    h.userId = userId →
    h.version ≤ p.authVersion

namespace AuthWorld

/-- The script refuses the principal, or it is as new as what any instance has handled. -/
def Storable (w : AuthWorld) (userId : Nat) (principal : AuthPrincipal) : Prop :=
  Accepts (w.redis userId) principal → principal.Usable →
    ∀ h ∈ w.handled, h.userId = userId → h.version ≤ principal.authVersion

instance (w : AuthWorld) (userId : Nat) (principal : AuthPrincipal) :
    Decidable (w.Storable userId principal) := by
  unfold Storable; infer_instance

/-- Only current principals enter the caches, and Redis holds no older one when a message
is handled. -/
def Fresh (localTtlMs : ℚ) (w : AuthWorld) : AuthAction → Prop
  | .store edit reachable =>
    match w.edits[edit]? with
    | some ⟨_, userId, _, .store principal⟩ => reachable = true → w.Storable userId principal
    | _ => True
  | .writeRedis call reachable =>
    match w.calls[call]? with
    | some ⟨lookup, .found principal⟩ => reachable = true → w.Storable lookup.userId principal
    | _ => True
  | .finish call =>
    match w.calls[call]? with
    | some ⟨lookup, .answer principal⟩ =>
      0 < localTtlMs → Covers w.handled lookup.instanceId lookup.userId principal.authVersion
    | _ => True
  | .handle message =>
    match w.messages[message]? with
    | some ⟨_, userId, _, change⟩ =>
      ∀ version ∈ change, ∀ p ∈ w.readAuthSnapshot userId, version ≤ p.authVersion
    | none => True
  | _ => True

instance (localTtlMs : ℚ) (w : AuthWorld) (a : AuthAction) :
    Decidable (w.Fresh localTtlMs a) := by
  unfold Fresh
  split
  · split <;> infer_instance
  · split <;> infer_instance
  · split <;> infer_instance
  · split <;> infer_instance
  · infer_instance

/-- The database holds the user with this version or a later one. -/
def Written (w : AuthWorld) (userId version : Nat) : Prop :=
  ∃ row ∈ w.users userId, version ≤ row.authVersion

/-- What calls have read, and what changes have written. -/
structure Ledger (w : AuthWorld) : Prop where
  calls : ∀ c ∈ w.calls, ∀ p ∈ c.phase.principal,
    Covers c.before c.instanceId c.userId p.authVersion
  before : ∀ c ∈ w.calls, ∀ h ∈ c.before, h ∈ w.handled
  handled : ∀ h ∈ w.handled, w.Written h.userId h.version
  messages : ∀ m ∈ w.messages, ∀ version ∈ m.change, w.Written m.userId version
  edits : ∀ e ∈ w.edits, w.Written e.userId e.version

end AuthWorld

section
variable {localTtlMs : ℚ} {w w' : AuthWorld} {a : AuthAction} {lookup : Lookup}
  {phase : LookupPhase} {index instanceId userId : Nat} {principal : AuthPrincipal}

theorem Covers.mono {handled handled' : List Handled} {version : Nat}
    (h : Covers handled instanceId userId version) (hsub : ∀ x ∈ handled', x ∈ handled) :
    Covers handled' instanceId userId version :=
  fun x hx => h x (hsub x hx)

namespace TakesEffect

/-- Only the caches, the returns and the handled messages matter. -/
theorem of_eq (h : TakesEffect w) (hredis : w'.redis = w.redis) (hmemory : w'.memory = w.memory)
    (hhandled : w'.handled = w.handled) (hreturns : w'.returns = w.returns) : TakesEffect w' := by
  refine ⟨?_, ?_, ?_⟩
  · rw [hreturns]
    exact h.returns
  · rw [hmemory, hhandled]
    exact h.memory
  · unfold AuthWorld.readAuthSnapshot
    rw [hredis, hhandled]
    exact h.redis

/-- A new entry of the memory is current. -/
theorem setMemory_iff (h : TakesEffect w) (entry : Option AuthPrincipal) :
    TakesEffect (w.setMemory instanceId userId entry) ↔
      ∀ p ∈ entry, Covers w.handled instanceId userId p.authVersion := by
  constructor
  · intro h' p hp
    exact h'.memory instanceId userId p (by simpa [AuthWorld.setMemory] using hp)
  · intro hentry
    refine ⟨h.returns, fun i u p hp => ?_, h.redis⟩
    by_cases hi : i = instanceId
    · subst hi
      by_cases hu : u = userId
      · subst hu
        exact hentry p (by simpa [AuthWorld.setMemory] using hp)
      · exact h.memory i u p (by simpa [AuthWorld.setMemory, hu] using hp)
    · exact h.memory i u p (by simpa [AuthWorld.setMemory, hi] using hp)

theorem remember_iff (h : TakesEffect w) :
    TakesEffect (w.remember localTtlMs instanceId userId principal) ↔
      (0 < localTtlMs → Covers w.handled instanceId userId principal.authVersion) := by
  unfold AuthWorld.remember
  split
  · rename_i httl
    exact iff_of_true h fun hpos => absurd hpos (not_lt.mpr httl)
  · rename_i httl
    rw [h.setMemory_iff]
    simp [not_le.mp httl]

/-- A principal that the script accepts is current. -/
theorem writeAuthSnapshot_iff (h : TakesEffect w) (userId : Nat) (principal : AuthPrincipal) :
    TakesEffect (w.writeAuthSnapshot userId principal) ↔ w.Storable userId principal := by
  constructor
  · intro h' haccepts husable
    refine h'.redis userId principal ?_
    simp [AuthWorld.readAuthSnapshot, AuthWorld.writeAuthSnapshot, writeIfCurrent, haccepts,
      parseSnapshot, husable]
  · intro hstorable
    refine ⟨h.returns, h.memory, fun u p hp => ?_⟩
    by_cases hu : u = userId
    · subst hu
      by_cases haccepts : Accepts (w.redis u) principal
      · simp only [AuthWorld.readAuthSnapshot, AuthWorld.writeAuthSnapshot, writeIfCurrent,
          Function.update_self, if_pos haccepts, parseSnapshot, Option.mem_def,
          Option.filter_eq_some_iff, Option.some.injEq, decide_eq_true_eq] at hp
        obtain ⟨rfl, husable⟩ := hp
        exact hstorable haccepts husable
      · refine h.redis u p ?_
        simpa [AuthWorld.readAuthSnapshot, AuthWorld.writeAuthSnapshot, writeIfCurrent, haccepts]
          using hp
    · refine h.redis u p ?_
      simpa [AuthWorld.readAuthSnapshot, AuthWorld.writeAuthSnapshot, hu] using hp

theorem reply (h : TakesEffect w) {result : Option AuthPrincipal}
    (hcurrent : LookupReturn.Current ⟨lookup, result⟩) :
    TakesEffect (w.reply lookup result) := by
  refine ⟨fun r hr => ?_, h.memory, h.redis⟩
  rcases List.mem_append.mp hr with hr | hr
  · exact h.returns r hr
  · rw [List.mem_singleton.mp hr]
    exact hcurrent

end TakesEffect

namespace AuthWorld.Ledger

theorem setCall (h : w.Ledger) (hcall : w.calls[index]? = some ⟨lookup, phase⟩)
    {next : LookupPhase}
    (hnext : ∀ p ∈ next.principal,
      Covers lookup.before lookup.instanceId lookup.userId p.authVersion) :
    (w.setCall index lookup next).Ledger := by
  refine { h with calls := fun c hc => ?_, before := fun c hc => ?_ }
  · rcases List.mem_or_eq_of_mem_set hc with hc | rfl
    · exact h.calls c hc
    · exact hnext
  · rcases List.mem_or_eq_of_mem_set hc with hc | rfl
    · exact h.before c hc
    · exact h.before ⟨lookup, phase⟩ (List.mem_of_getElem? hcall)

theorem dropCall (h : w.Ledger) (index : Nat) : (w.dropCall index).Ledger :=
  { h with
    calls := fun c hc => h.calls c (List.mem_of_mem_eraseIdx hc)
    before := fun c hc => h.before c (List.mem_of_mem_eraseIdx hc) }

theorem dropEdit (h : w.Ledger) (index : Nat) : (w.dropEdit index).Ledger :=
  { h with edits := fun e he => h.edits e (List.mem_of_mem_eraseIdx he) }

theorem setEdit (h : w.Ledger) {edit next : Edit} (hedit : w.edits[index]? = some edit)
    (huser : next.userId = edit.userId) (hversion : next.version = edit.version) :
    (w.setEdit index next).Ledger := by
  refine { h with edits := fun e he => ?_ }
  rcases List.mem_or_eq_of_mem_set he with he | rfl
  · exact h.edits e he
  · have hold := h.edits edit (List.mem_of_getElem? hedit)
    rw [huser, hversion]
    exact hold

/-- The caches and the returns are free. -/
theorem of_eq (h : w.Ledger) (husers : w'.users = w.users) (hcalls : w'.calls = w.calls)
    (hedits : w'.edits = w.edits) (hmessages : w'.messages = w.messages)
    (hhandled : w'.handled = w.handled) : w'.Ledger := by
  have hwritten : w'.Written = w.Written := by
    funext u version
    rw [AuthWorld.Written, AuthWorld.Written, husers]
  refine ⟨?_, ?_, ?_, ?_, ?_⟩
  · rw [hcalls]
    exact h.calls
  · rw [hcalls, hhandled]
    exact h.before
  · rw [hhandled, hwritten]
    exact h.handled
  · rw [hmessages, hwritten]
    exact h.messages
  · rw [hedits, hwritten]
    exact h.edits

theorem setMemory (h : w.Ledger) (entry : Option AuthPrincipal) :
    (w.setMemory instanceId userId entry).Ledger :=
  h.of_eq rfl rfl rfl rfl rfl

theorem remember (h : w.Ledger) : (w.remember localTtlMs instanceId userId principal).Ledger := by
  unfold AuthWorld.remember
  split
  · exact h
  · exact h.setMemory _

theorem writeAuthSnapshot (h : w.Ledger) : (w.writeAuthSnapshot userId principal).Ledger :=
  h.of_eq rfl rfl rfl rfl rfl

/-- Versions only grow. -/
theorem update_users (h : w.Ledger) (userId : Nat) (row : UserRow)
    (hrow : ∀ old ∈ w.users userId, old.authVersion ≤ row.authVersion) :
    AuthWorld.Ledger { w with users := Function.update w.users userId (some row) } := by
  have hwritten : ∀ u version, w.Written u version →
      AuthWorld.Written { w with users := Function.update w.users userId (some row) }
        u version := by
    rintro u version ⟨old, hold, hle⟩
    by_cases hu : u = userId
    · subst hu
      exact ⟨row, by simp, hle.trans (hrow old hold)⟩
    · exact ⟨old, by simpa [hu] using hold, hle⟩
  exact ⟨h.calls, h.before, fun x hx => hwritten _ _ (h.handled x hx),
    fun m hm version hversion => hwritten _ _ (h.messages m hm version hversion),
    fun e he => hwritten _ _ (h.edits e he)⟩

/-- A row that is read now is as new as everything that was handled before. -/
theorem covers_row (h : w.Ledger) {row : UserRow} (hrow : w.users userId = some row)
    (instanceId : Nat) : Covers w.handled instanceId userId row.principal.authVersion := by
  rintro x hx - rfl
  obtain ⟨row', hrow', hle⟩ := h.handled x hx
  obtain rfl : row = row' := Option.some.inj (hrow.symm.trans hrow')
  exact hle

end AuthWorld.Ledger

/-- What a call returns covers what was handled before it. -/
theorem LookupReturn.current_of_covers
    (h : Covers lookup.before lookup.instanceId lookup.userId principal.authVersion) :
    LookupReturn.Current ⟨lookup, some principal⟩ :=
  fun x hx hi hu => ⟨principal, rfl, h x hx hi hu⟩

/-- One step keeps the ledger, and no older principal can be returned exactly if only current
ones are kept. -/
theorem TakesEffect.step (h : TakesEffect w) (hl : w.Ledger)
    (hstep : StepOf (AuthWorld.next localTtlMs) w a w') :
    w'.Ledger ∧ (TakesEffect w' ↔ w.Fresh localTtlMs a) := by
  unfold StepOf at hstep
  cases a with
  | register userId row =>
    simp only [AuthWorld.next] at hstep
    split at hstep
    · rename_i hnew
      cases hstep
      exact ⟨hl.update_users userId row (by simp [hnew]),
        iff_of_true (h.of_eq rfl rfl rfl rfl) trivial⟩
    · cases hstep
  | edit instanceId userId role status =>
    simp only [AuthWorld.next] at hstep
    split at hstep
    · rename_i row hrow
      cases hstep
      have hl' := hl.update_users userId ⟨some role, status, row.authVersion + 1⟩
        (by simp [hrow])
      refine ⟨{ hl' with edits := fun e he => ?_ },
        iff_of_true (h.of_eq rfl rfl rfl rfl) trivial⟩
      rcases List.mem_append.mp he with he | he
      · exact hl'.edits e he
      · rw [List.mem_singleton.mp he]
        exact ⟨⟨some role, status, row.authVersion + 1⟩, by simp, le_refl _⟩
    · cases hstep
      exact ⟨hl, iff_of_true h trivial⟩
  | find edit =>
    simp only [AuthWorld.next] at hstep
    split at hstep
    · rename_i hedit
      split at hstep
      · cases hstep
        exact ⟨hl.setEdit hedit rfl rfl, iff_of_true (h.of_eq rfl rfl rfl rfl) trivial⟩
      · cases hstep
        exact ⟨hl.dropEdit edit, iff_of_true (h.of_eq rfl rfl rfl rfl) trivial⟩
    · cases hstep
  | evict edit =>
    simp only [AuthWorld.next] at hstep
    split at hstep
    · rename_i instanceId userId version principal hedit
      cases hstep
      have h' : TakesEffect (w.setMemory instanceId userId none) :=
        (h.setMemory_iff none).mpr (by simp)
      exact ⟨(hl.setMemory none).setEdit hedit rfl rfl,
        iff_of_true (h'.of_eq rfl rfl rfl rfl) trivial⟩
    · cases hstep
  | store edit reachable =>
    simp only [AuthWorld.next] at hstep
    split at hstep
    · rename_i instanceId userId version principal hedit
      cases hstep
      cases reachable with
      | false =>
        exact ⟨hl.setEdit hedit rfl rfl,
          iff_of_true (h.of_eq rfl rfl rfl rfl) (by simp [AuthWorld.Fresh, hedit])⟩
      | true =>
        refine ⟨hl.writeAuthSnapshot.setEdit hedit rfl rfl, ?_⟩
        simp only [AuthWorld.Fresh, hedit, true_imp_iff, ← h.writeAuthSnapshot_iff]
        exact ⟨fun h' => h'.of_eq rfl rfl rfl rfl, fun h' => h'.of_eq rfl rfl rfl rfl⟩
    · cases hstep
  | publish edit reachable subscribers =>
    simp only [AuthWorld.next] at hstep
    split at hstep
    · rename_i instanceId userId version principal stored hedit
      cases hstep
      refine ⟨?_, iff_of_true (h.of_eq rfl rfl rfl rfl) trivial⟩
      refine { hl.dropEdit edit with messages := fun m hm version' hversion => ?_ }
      rcases List.mem_append.mp hm with hm | hm
      · exact hl.messages m hm version' hversion
      · have hold := hl.edits _ (List.mem_of_getElem? hedit)
        cases reachable <;> cases stored <;> simp at hm
        all_goals
          obtain ⟨_, _, rfl⟩ := hm
          simp at hversion
        subst hversion
        exact hold
    · cases hstep
  | handle message =>
    simp only [AuthWorld.next] at hstep
    split at hstep
    · rename_i instanceId userId authVersion change hmessage
      cases hstep
      have h' : TakesEffect (w.setMemory instanceId userId none) :=
        (h.setMemory_iff none).mpr (by simp)
      refine ⟨⟨hl.calls, fun c hc x hx => List.mem_append_left _ (hl.before c hc x hx),
        fun x hx => ?_, fun m hm => hl.messages m (List.mem_of_mem_eraseIdx hm), hl.edits⟩, ?_⟩
      · rcases List.mem_append.mp hx with hx | hx
        · exact hl.handled x hx
        · obtain ⟨version, hversion, rfl⟩ := List.mem_map.mp hx
          exact hl.messages _ (List.mem_of_getElem? hmessage) version (by simpa using hversion)
      · simp only [AuthWorld.Fresh, hmessage]
        constructor
        · intro heffect version hversion p hp
          refine heffect.redis userId p hp ⟨instanceId, userId, version⟩ ?_ rfl
          exact List.mem_append_right _ (List.mem_map_of_mem (by simpa using hversion))
        · intro hfresh
          refine ⟨h.returns, fun i u p hp x hx hi hu => ?_, fun u p hp x hx hu => ?_⟩
          · rcases List.mem_append.mp hx with hx | hx
            · exact h'.memory i u p hp x hx hi hu
            · -- the entry of the message itself is gone
              obtain ⟨version, _, rfl⟩ := List.mem_map.mp hx
              subst hi hu
              simp [AuthWorld.setMemory] at hp
          · rcases List.mem_append.mp hx with hx | hx
            · exact h.redis u p hp x hx hu
            · obtain ⟨version, hversion, rfl⟩ := List.mem_map.mp hx
              subst hu
              exact hfresh version (by simpa using hversion) p hp
    · cases hstep
  | loseMessage message =>
    cases hstep
    exact ⟨{ hl with messages := fun m hm => hl.messages m (List.mem_of_mem_eraseIdx hm) },
      iff_of_true (h.of_eq rfl rfl rfl rfl) trivial⟩
  | loseEdit edit =>
    cases hstep
    exact ⟨hl.dropEdit edit, iff_of_true (h.of_eq rfl rfl rfl rfl) trivial⟩
  | resolve instanceId userId =>
    simp only [AuthWorld.next] at hstep
    split at hstep
    · rename_i principal hentry
      cases hstep
      refine ⟨hl.of_eq rfl rfl rfl rfl rfl, iff_of_true (h.reply ?_) trivial⟩
      exact LookupReturn.current_of_covers (h.memory instanceId userId principal hentry)
    · cases hstep
      refine ⟨{ hl with calls := fun c hc => ?_, before := fun c hc => ?_ },
        iff_of_true (h.of_eq rfl rfl rfl rfl) trivial⟩
      · rcases List.mem_append.mp hc with hc | hc
        · exact hl.calls c hc
        · rw [List.mem_singleton.mp hc]
          simp [LookupPhase.principal]
      · rcases List.mem_append.mp hc with hc | hc
        · exact hl.before c hc
        · rw [List.mem_singleton.mp hc]
          exact fun _ hx => hx
  | readRedis call reachable =>
    simp only [AuthWorld.next] at hstep
    split at hstep
    · rename_i lookup hcall
      split at hstep
      · rename_i cached hcached
        cases hstep
        refine ⟨hl.setCall hcall fun p hp x hx hi hu => ?_,
          iff_of_true (h.of_eq rfl rfl rfl rfl) trivial⟩
        obtain rfl : cached = p := Option.some.inj hp
        have hread : w.readAuthSnapshot lookup.userId = some cached := by
          cases reachable <;> simp_all
        exact h.redis _ _ hread x (hl.before _ (List.mem_of_getElem? hcall) x hx) hu
      · cases hstep
        exact ⟨hl.setCall hcall (by simp [LookupPhase.principal]),
          iff_of_true (h.of_eq rfl rfl rfl rfl) trivial⟩
    · cases hstep
  | readDatabase call =>
    simp only [AuthWorld.next] at hstep
    split at hstep
    · rename_i lookup hcall
      have hbefore := hl.before _ (List.mem_of_getElem? hcall)
      split at hstep
      · rename_i row hrow
        cases hstep
        refine ⟨hl.setCall hcall fun p hp => ?_, iff_of_true (h.of_eq rfl rfl rfl rfl) trivial⟩
        obtain rfl : row.principal = p := Option.some.inj hp
        exact (hl.covers_row hrow _).mono hbefore
      · rename_i hnone
        cases hstep
        have h' : TakesEffect (w.dropCall call) := h.of_eq rfl rfl rfl rfl
        refine ⟨(hl.dropCall call).of_eq rfl rfl rfl rfl rfl, iff_of_true (h'.reply ?_) trivial⟩
        -- a user of a handled change is in the database
        intro x hx _ hu
        obtain ⟨row, hrow, _⟩ := hl.handled x (hbefore x hx)
        rw [hu] at hrow
        simp [hnone] at hrow
    · cases hstep
  | writeRedis call reachable =>
    simp only [AuthWorld.next] at hstep
    split at hstep
    · rename_i lookup principal hcall
      have hread := hl.calls _ (List.mem_of_getElem? hcall)
      cases hstep
      cases reachable with
      | false =>
        exact ⟨hl.setCall hcall hread,
          iff_of_true (h.of_eq rfl rfl rfl rfl) (by simp [AuthWorld.Fresh, hcall])⟩
      | true =>
        refine ⟨hl.writeAuthSnapshot.setCall hcall hread, ?_⟩
        simp only [AuthWorld.Fresh, hcall, true_imp_iff, ← h.writeAuthSnapshot_iff]
        exact ⟨fun h' => h'.of_eq rfl rfl rfl rfl, fun h' => h'.of_eq rfl rfl rfl rfl⟩
    · cases hstep
  | finish call =>
    simp only [AuthWorld.next] at hstep
    split at hstep
    · rename_i lookup principal hcall
      have hread := hl.calls _ (List.mem_of_getElem? hcall) principal rfl
      cases hstep
      refine ⟨(hl.remember.dropCall call).of_eq rfl rfl rfl rfl rfl, ?_⟩
      simp only [AuthWorld.Fresh, hcall, ← h.remember_iff]
      constructor
      · intro h'
        have hmemory := h'.memory
        have hredis := h'.redis
        refine ⟨?_, hmemory, hredis⟩
        unfold AuthWorld.remember
        split <;> exact h.returns
      · intro h'
        have hdrop : TakesEffect (AuthWorld.dropCall _ call) := h'.of_eq rfl rfl rfl rfl
        exact hdrop.reply (LookupReturn.current_of_covers hread)
    · cases hstep
  | loseCall call =>
    cases hstep
    exact ⟨hl.dropCall call, iff_of_true (h.of_eq rfl rfl rfl rfl) trivial⟩
  | expireRedis userId =>
    cases hstep
    refine ⟨hl.of_eq rfl rfl rfl rfl rfl,
      iff_of_true ⟨h.returns, h.memory, fun u p hp => ?_⟩ trivial⟩
    by_cases hu : u = userId
    · subst hu
      simp [AuthWorld.readAuthSnapshot, parseSnapshot] at hp
    · exact h.redis u p (by simpa [AuthWorld.readAuthSnapshot, hu] using hp)
  | expireMemory instanceId userId =>
    cases hstep
    exact ⟨hl.setMemory none, iff_of_true ((h.setMemory_iff none).mpr (by simp)) trivial⟩

end

/-- In a run of lookups and edits on any instances, no call returns an older principal than
what its instance has handled before, and no cache keeps one, if and only if every
principal that enters a cache is current, and Redis holds no older one when a message is
handled. -/
theorem takesEffect_iff {localTtlMs : ℚ} {users : Nat → Option UserRow} {w : AuthWorld}
    {as : List AuthAction} (hrun : Run (StepOf (AuthWorld.next localTtlMs)) { users } as w) :
    Run.Always (AuthWorld.next localTtlMs) TakesEffect { users } as ↔
      Run (Guarded (AuthWorld.Fresh localTtlMs) (StepOf (AuthWorld.next localTtlMs))) { users } as
        w :=
  Run.always_iff_guarded (I := fun w => TakesEffect w ∧ w.Ledger) (fun _ h => h.1)
    (fun _ _ _ hstep h => (h.1.step h.2 hstep).2)
    (fun _ _ _ hstep h hok => ⟨(h.1.step h.2 hstep).2.mpr hok, (h.1.step h.2 hstep).1⟩) hrun
    ⟨⟨by simp, by simp, by simp⟩, ⟨by simp, by simp, by simp, by simp, by simp⟩⟩

namespace Sample

def users : Nat → Option UserRow := fun userId =>
  if userId = 2 then some ⟨none, "active", 0⟩ else none

def lookup : List AuthAction :=
  [.resolve 1 2, .readRedis 0 true, .readDatabase 0, .writeRedis 0 true, .finish 0]

def deactivation : List AuthAction :=
  [.edit 1 2 "user" "inactive", .find 0, .evict 0, .store 0 true, .publish 0 true [1], .handle 0]

/-- A lookup, a change, and another lookup, which Redis answers. -/
def lookedUp : List AuthAction :=
  lookup ++ deactivation ++ [.resolve 1 2, .readRedis 0 true, .finish 0]

/-- The first lookup has read the database before the change, and finishes after it. -/
def overtakenLookup : List AuthAction :=
  [.resolve 1 2, .readRedis 0 true, .readDatabase 0] ++ deactivation ++
    [.writeRedis 0 true, .finish 0, .resolve 1 2]

end Sample

theorem takesEffect_sample :
    Run.Always (AuthWorld.next 2000) TakesEffect { users := Sample.users } Sample.lookedUp :=
  (takesEffect_iff (Run.to_final (by decide))).mpr (Run.to_final_guarded (by decide))

/-- The second lookup returns the active user. -/
theorem takesEffect_overtaken : ¬ ∀ (localTtlMs : ℚ) (users : Nat → Option UserRow)
    (as : List AuthAction) (w : AuthWorld),
    Run (StepOf (AuthWorld.next localTtlMs)) { users } as w → ∀ r ∈ w.returns, r.Current := by
  intro h
  have hreturns := h 2000 Sample.users Sample.overtakenLookup _ (Run.to_final (by decide))
  have hstale : (Run.final (AuthWorld.next 2000) { users := Sample.users }
      Sample.overtakenLookup).returns.any (fun r => ¬ r.Current) = true := by decide
  obtain ⟨r, hr, hold⟩ := List.any_eq_true.mp hstale
  exact (of_decide_eq_true hold) (hreturns r hr)

end MiracleAuction.Accounts
