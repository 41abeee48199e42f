import MiracleAuction.Accounts.PasswordReset

/-!
# `accounts.controller.ts`: accounts and their passwords

One secret signs the access tokens and the tokens in the cookies of three flows, each of which
sends its code through the same row of `otp_codes`. A client may put any token into any cookie.
-/
namespace MiracleAuction.Accounts

/-- What `JWT_SECRET` signs; `exp` in seconds. -/
inductive SignedToken
  | access (exp : Int)
  | registration (otp email password : String) (exp : Int)
  | recovery (otp email : String) (exp : Int)
  | change (otp email newPassword : String) (exp : Int)
  deriving DecidableEq, Repr

namespace SignedToken

def exp : SignedToken → Int
  | access exp | registration _ _ _ exp | recovery _ _ exp | change _ _ _ exp => exp

def email : SignedToken → Option String
  | access _ => none
  | registration _ email _ _ | recovery _ email _ | change _ email _ _ => some email

def otp : SignedToken → Option String
  | access _ => none
  | registration otp _ _ _ | recovery otp _ _ | change otp _ _ _ => some otp

def verify (token : SignedToken) (now : Int) : Bool := now / 1000 < token.exp

/-- The payload as the recovery reads it, where it has a code. -/
def verified (token : SignedToken) : Option VerifiedOtpToken := do
  let otp ← token.otp
  let email ← token.email
  return ⟨otp, email, token.exp⟩

end SignedToken

/-- The tables, the addresses of the users, the tokens that were given out, and what has happened:
the addresses that Google vouched for or a user entered in the profile, the passwords of
registrations, and those that came with the right current password. -/
structure AccountWorld where
  tables : ResetWorld
  emails : Nat → Option String := fun _ => none
  nextId : Nat := 1
  tokens : List SignedToken := []
  google : List String := []
  edited : List String := []
  registrations : List (String × String) := []
  confirmed : List (String × String) := []

/-- The password that an administrator resets to. -/
def newPassword : String := "OnlineAuction123@"

namespace AccountWorld
variable (w : AccountWorld)

/-- A cookie with a token of an earlier response. -/
def cookie (index : Option Nat) : Option SignedToken := index.bind fun n => w.tokens[n]?

/-- `AccountRepository.create`; the email is unique. -/
def create (email : String) (password : Option PasswordHash) : Option AccountWorld :=
  if w.tables.users email ≠ none then none
  else
    some
      { w with
        tables :=
          { w.tables with
            users := Function.update w.tables.users email (some ⟨password, 0⟩) }
        emails := Function.update w.emails w.nextId (some email)
        nextId := w.nextId + 1 }

/-- The code is stored and mailed, and its token set as a cookie. -/
def sendOtp (email otp : String) (token : SignedToken) (now : Int) : AccountWorld :=
  { w with
    tables :=
      { w.tables.createOtp email otp now with mails := w.tables.mails ++ [(email, otp)] }
    tokens := w.tokens ++ [token] }

/-- A request with a code in its body. -/
def submit (otp : String) (now : Int) : AccountWorld :=
  { w with
    tables := { w.tables.deleteExpiredOtps now with submitted := otp :: w.tables.submitted } }

/-- `findFirst`, where what is undefined is no condition. -/
def findOtp (email otp : Option String) : Option OtpCode :=
  w.tables.otpCodes.find? fun row => email.all (row.email = ·) ∧ otp.all (row.otp = ·)

/-! ## Handlers -/

/-- `registerPost`, with the code that it generates. -/
def registerPost (email password otp : String) (now : Int) : Reply × AccountWorld :=
  if w.tables.users email ≠ none then
    (⟨"error", "Email already exists in the system!"⟩, w)
  else
    let w := { w with tables := w.tables.deleteExpiredOtps now }
    if w.tables.findOtpByEmail email ≠ none then
      (⟨"existedOTP", "OTP has been sent and is valid for 5 minutes!"⟩, w)
    else
      (⟨"success", "Please enter the OTP"⟩,
        { w.sendOtp email otp (.registration otp email password (now / 1000 + 300)) now with
          registrations := w.registrations ++ [(email, password)] })

/-- `verifyAccount`. -/
def verifyAccount (cookie : Option SignedToken) (now : Int) : Option Reply × AccountWorld :=
  let w := { w with tables := w.tables.deleteExpiredOtps now }
  match cookie with
  | none => (some ⟨"error", "An error occurred here"⟩, w)
  | some decoded =>
    if !decoded.verify now then (none, w)
    else if w.findOtp decoded.email decoded.otp = none then
      (some ⟨"error", "An error occurred here"⟩, w)
    else (some ⟨"success", "OTP is valid for 5 minutes"⟩, w)

section
variable (bcrypt : String → Nat → String)

/-- `registerVerifyPost`; no reply where it throws: for an expired token, for a token without a
password, and for an email that is taken. -/
def registerVerifyPost (cookie : Option SignedToken) (otp : String) (salt : Nat) (now : Int) :
    Option Reply × AccountWorld :=
  let w := w.submit otp now
  match cookie with
  | none => (some ⟨"error", "An error occurred here"⟩, w)
  | some decoded =>
    if !decoded.verify now then (none, w)
    else if w.findOtp (some (decoded.email.getD "undefined")) (some otp) = none then
      (some ⟨"otp error", "Invalid OTP!"⟩, w)
    else
      match decoded with
      | .registration _ email password _ =>
        match w.create email (some (hashPassword bcrypt password salt)) with
        | none => (none, w)
        | some w =>
          (some ⟨"success", "Congratulations, registered successfully"⟩,
            { w with tables := w.tables.deleteOtp email })
      | _ => (none, w)

/-- `forgotPassword`. -/
def forgotPassword (email otp : String) (now : Int) : Reply × AccountWorld :=
  if w.tables.users email = none then (⟨"error", "Email does not exist"⟩, w)
  else
    let w := { w with tables := w.tables.deleteExpiredOtps now }
    if w.tables.findOtpByEmail email ≠ none then
      (⟨"existedOTP", "OTP has been sent and is valid for 5 minutes!"⟩, w)
    else
      (⟨"success", "Please enter the OTP"⟩,
        w.sendOtp email otp (.recovery otp email (now / 1000 + 300)) now)

/-- `forgotPasswordVerify`. -/
def forgotPasswordVerify (cookie : Option SignedToken) (otp : String) (now : Int) :
    Option Reply × AccountWorld :=
  let w := w.submit otp now
  match cookie with
  | none => (some ⟨"error", "An error occurred here"⟩, w)
  | some decoded =>
    if !decoded.verify now then (none, w)
    else if w.findOtp (some (decoded.email.getD "undefined")) (some otp) = none then
      (some ⟨"otp error", "Invalid OTP!"⟩, w)
    else (some ⟨"success", "Please enter your password again"⟩, w)

/-- `resetPassword`: the token of an access cookie names no email. -/
def resetPassword (cookie : Option SignedToken) (email password : String) (salt : Nat)
    (now : Int) : Option Reply × AccountWorld :=
  match cookie with
  | some (.access exp) =>
    (some (if !(SignedToken.access exp).verify now then
      ⟨"error", "Session expired or invalid verification token."⟩
      else ⟨"error", "Email does not match the verified token."⟩), w)
  | cookie =>
    let result := w.tables.resetPassword bcrypt (cookie.bind (·.verified)) email password salt now
    (result.1, { w with tables := result.2 })

/-- `bcrypt.compare`; an empty text is no hash of anything. -/
def comparePassword (password : String) (hash : Option PasswordHash) : Bool :=
  hash.any fun hash => bcrypt password hash.salt = hash.digest

/-- `changePassword` of an authenticated user. -/
def changePassword (userId : Nat) (currentPassword newPassword otp : String) (now : Int) :
    Reply × AccountWorld :=
  match w.emails userId with
  | none => (⟨"error", "Account does not exist"⟩, w)
  | some email =>
    if !comparePassword bcrypt currentPassword (w.tables.password email) then
      (⟨"error", "Current password is incorrect"⟩, w)
    else if comparePassword bcrypt newPassword (w.tables.password email) then
      (⟨"error", "New password must be different from current password"⟩, w)
    else
      let w := { w with tables := (w.tables.deleteExpiredOtps now).deleteOtp email }
      (⟨"success", "OTP sent to your email"⟩,
        { w.sendOtp email otp (.change otp email newPassword (now / 1000 + 300)) now with
          confirmed := w.confirmed ++ [(email, newPassword)] })

/-- `verifyChangePassword`: all that throws is caught. -/
def verifyChangePassword (cookie : Option SignedToken) (otp : String) (salt : Nat) (now : Int) :
    Reply × AccountWorld :=
  let w := w.submit otp now
  let caught : Reply := ⟨"error", "An error occurred, please try again"⟩
  match cookie with
  | none => (⟨"error", "Session expired"⟩, w)
  | some decoded =>
    if !decoded.verify now then (caught, w)
    else if w.findOtp decoded.email (some otp) = none then (⟨"otp error", "Invalid OTP!"⟩, w)
    else
      match decoded with
      | .change _ email newPassword _ =>
        match w.tables.updatePassword email (hashPassword bcrypt newPassword salt) with
        | none => (caught, w)
        | some tables =>
          (⟨"success", "Password changed successfully"⟩,
            { w with tables := tables.deleteOtp email })
      | _ => (caught, w)

/-- `googleLoginPost`, of an ID token with a verified email: the session of an account without a
password, or a new account. -/
def googleLoginPost (email : String) : AccountWorld :=
  let w := { w with google := email :: w.google }
  (w.create email none).getD w

/-- `editUserProfile`; an empty email is left out, and one that is taken throws. -/
def editUserProfile (userId : Nat) (email : String) : AccountWorld :=
  match w.emails userId with
  | none => w
  | some old =>
    if email = "" ∨ w.tables.users email ≠ none then w
    else
      { w with
        tables :=
          { w.tables with
            users := Function.update (Function.update w.tables.users old none) email
              (w.tables.users old) }
        emails := Function.update w.emails userId (some email)
        edited := email :: w.edited }

/-- `UsersService.resetUserPassword`, of an administrator. -/
def resetUserPassword (userId salt : Nat) : AccountWorld :=
  match (w.emails userId).bind fun email =>
      w.tables.updatePassword email (hashPassword bcrypt newPassword salt) with
  | none => w
  | some tables => { w with tables }

end

end AccountWorld

/-- The requests, each with the token in the cookie that its handler reads. -/
inductive AccountAction
  | login (now : Int)
  | verifyAccount (cookie : Option Nat) (now : Int)
  | registerPost (email password otp : String) (now : Int)
  | registerVerifyPost (cookie : Option Nat) (otp : String) (salt : Nat) (now : Int)
  | forgotPassword (email otp : String) (now : Int)
  | forgotPasswordVerify (cookie : Option Nat) (otp : String) (now : Int)
  | resetPassword (cookie : Option Nat) (email password : String) (salt : Nat) (now : Int)
  | changePassword (userId : Nat) (currentPassword newPassword otp : String) (now : Int)
  | verifyChangePassword (cookie : Option Nat) (otp : String) (salt : Nat) (now : Int)
  | googleLoginPost (email : String)
  | editUserProfile (userId : Nat) (email : String)
  | resetUserPassword (userId salt : Nat)
  deriving DecidableEq, Repr

/-- One request; a session gives out an access token. -/
def AccountWorld.next (bcrypt : String → Nat → String) (w : AccountWorld) :
    AccountAction → AccountWorld
  | .login now => { w with tokens := w.tokens ++ [.access (now / 1000 + 900)] }
  | .verifyAccount cookie now => (w.verifyAccount (w.cookie cookie) now).2
  | .registerPost email password otp now => (w.registerPost email password otp now).2
  | .registerVerifyPost cookie otp salt now =>
    (w.registerVerifyPost bcrypt (w.cookie cookie) otp salt now).2
  | .forgotPassword email otp now => (w.forgotPassword email otp now).2
  | .forgotPasswordVerify cookie otp now =>
    (w.forgotPasswordVerify (w.cookie cookie) otp now).2
  | .resetPassword cookie email password salt now =>
    (w.resetPassword bcrypt (w.cookie cookie) email password salt now).2
  | .changePassword userId currentPassword newPassword otp now =>
    (w.changePassword bcrypt userId currentPassword newPassword otp now).2
  | .verifyChangePassword cookie otp salt now =>
    (w.verifyChangePassword bcrypt (w.cookie cookie) otp salt now).2
  | .googleLoginPost email => w.googleLoginPost email
  | .editUserProfile userId email => w.editUserProfile userId email
  | .resetUserPassword userId salt => w.resetUserPassword bcrypt userId salt

/-! ## What has happened -/

/-- Codes that are stored or in a token were mailed; a token with a password is one of a request
that was checked. -/
structure AccountWorld.Sound (w : AccountWorld) : Prop where
  mailed : ∀ row ∈ w.tables.otpCodes, (row.email, row.otp) ∈ w.tables.mails
  signed : ∀ token ∈ w.tokens, ∀ email otp, token.email = some email →
    token.otp = some otp →
    (email, otp) ∈ w.tables.mails
  registered : ∀ otp email password exp, .registration otp email password exp ∈ w.tokens →
    (email, password) ∈ w.registrations
  changed : ∀ otp email password exp, .change otp email password exp ∈ w.tokens →
    (email, password) ∈ w.confirmed

section
variable {bcrypt : String → Nat → String} {w w' : AccountWorld} {a : AccountAction}
  {email otp password : String} {now : Int} {salt : Nat} {cookie : Option SignedToken}

namespace AccountWorld

/-- A world with fewer rows, and the same mails, tokens and history. -/
structure Shrinks (w w' : AccountWorld) : Prop where
  rows : ∀ row ∈ w'.tables.otpCodes, row ∈ w.tables.otpCodes
  mails : w'.tables.mails = w.tables.mails
  tokens : w'.tokens = w.tokens
  registrations : w'.registrations = w.registrations
  confirmed : w'.confirmed = w.confirmed

theorem Shrinks.refl (w : AccountWorld) : Shrinks w w := ⟨fun _ h => h, rfl, rfl, rfl, rfl⟩

theorem Shrinks.trans {w'' : AccountWorld} (h : Shrinks w w') (h' : Shrinks w' w'') :
    Shrinks w w'' :=
  ⟨fun row hrow => h.rows row (h'.rows row hrow), h'.mails.trans h.mails,
    h'.tokens.trans h.tokens, h'.registrations.trans h.registrations,
    h'.confirmed.trans h.confirmed⟩

theorem Sound.shrinks (h : Sound w) (hshrinks : Shrinks w w') : Sound w' where
  mailed := fun row hrow => by
    rw [hshrinks.mails]
    exact h.mailed row (hshrinks.rows row hrow)
  signed := by
    rw [hshrinks.tokens, hshrinks.mails]
    exact h.signed
  registered := by
    rw [hshrinks.tokens, hshrinks.registrations]
    exact h.registered
  changed := by
    rw [hshrinks.tokens, hshrinks.confirmed]
    exact h.changed

/-- The only handlers that send a code write it down everywhere at once. -/
theorem Sound.sendOtp {token : SignedToken} {registrations confirmed : List (String × String)}
    (h : Sound w) (hemail : token.email = some email) (hotp : token.otp = some otp)
    (hregistration : ∀ otp email password exp, token = .registration otp email password exp →
      (email, password) ∈ registrations)
    (hchange : ∀ otp email password exp, token = .change otp email password exp →
      (email, password) ∈ confirmed) :
    Sound { w.sendOtp email otp token now with
      registrations := w.registrations ++ registrations
      confirmed := w.confirmed ++ confirmed } where
  mailed := fun row hrow => by
    obtain hrow | hrow := List.mem_append.mp hrow
    · exact List.mem_append_left _ (h.mailed row hrow)
    · obtain rfl := List.mem_singleton.mp hrow
      exact List.mem_append_right _ (List.mem_singleton_self _)
  signed := fun token' htoken email' otp' hemail' hotp' => by
    obtain htoken | htoken := List.mem_append.mp htoken
    · exact List.mem_append_left _ (h.signed token' htoken email' otp' hemail' hotp')
    · obtain rfl := List.mem_singleton.mp htoken
      cases hemail.symm.trans hemail'
      cases hotp.symm.trans hotp'
      exact List.mem_append_right _ (List.mem_singleton_self _)
  registered := fun otp email password exp htoken => by
    obtain htoken | htoken := List.mem_append.mp htoken
    · exact List.mem_append_left _ (h.registered otp email password exp htoken)
    · exact List.mem_append_right _
        (hregistration otp email password exp (List.mem_singleton.mp htoken).symm)
  changed := fun otp email password exp htoken => by
    obtain htoken | htoken := List.mem_append.mp htoken
    · exact List.mem_append_left _ (h.changed otp email password exp htoken)
    · exact List.mem_append_right _
        (hchange otp email password exp (List.mem_singleton.mp htoken).symm)

/-- A step that touches no user. -/
structure Quiet (w w' : AccountWorld) : Prop where
  shrinks : Shrinks w w'
  users : w'.tables.users = w.tables.users
  emails : w'.emails = w.emails
  submitted : ∀ otp ∈ w.tables.submitted, otp ∈ w'.tables.submitted
  google : ∀ email ∈ w.google, email ∈ w'.google
  edited : w'.edited = w.edited

theorem Quiet.refl (w : AccountWorld) : Quiet w w :=
  ⟨Shrinks.refl w, rfl, rfl, fun _ h => h, fun _ h => h, rfl⟩

theorem quiet_expired (w : AccountWorld) (now : Int) :
    Quiet w { w with tables := w.tables.deleteExpiredOtps now } :=
  ⟨⟨fun _ hrow => (List.mem_filter.mp hrow).1, rfl, rfl, rfl, rfl⟩, rfl, rfl, fun _ h => h,
    fun _ h => h, rfl⟩

theorem quiet_deleteOtp (w : AccountWorld) (email : String) :
    Quiet w { w with tables := w.tables.deleteOtp email } :=
  ⟨⟨fun _ hrow => (List.mem_filter.mp hrow).1, rfl, rfl, rfl, rfl⟩, rfl, rfl, fun _ h => h,
    fun _ h => h, rfl⟩

theorem quiet_submit (w : AccountWorld) (otp : String) (now : Int) : Quiet w (w.submit otp now) :=
  ⟨⟨fun _ hrow => (List.mem_filter.mp hrow).1, rfl, rfl, rfl, rfl⟩, rfl, rfl,
    fun _ h => List.mem_cons_of_mem _ h, fun _ h => h, rfl⟩

theorem Quiet.trans {w'' : AccountWorld} (h : Quiet w w') (h' : Quiet w' w'') : Quiet w w'' :=
  ⟨h.shrinks.trans h'.shrinks, h'.users.trans h.users, h'.emails.trans h.emails,
    fun otp hotp => h'.submitted otp (h.submitted otp hotp),
    fun email hemail => h'.google email (h.google email hemail), h'.edited.trans h.edited⟩

/-- A code that was mailed to the address was in a request body, or Google has vouched for it. -/
def Verified (w : AccountWorld) (email : String) : Prop :=
  w.tables.Submitted email ∨ email ∈ w.google

/-- What stands behind a request that sets a password. -/
def Grants (w w' : AccountWorld) (email password : String) : AccountAction → Prop
  | .registerVerifyPost _ _ _ _ =>
    (email, password) ∈ w.registrations ∧ w'.tables.Submitted email
  | .verifyChangePassword _ _ _ _ =>
    (email, password) ∈ w.confirmed ∧ w'.tables.Submitted email
  | .resetPassword cookie email' password' _ _ =>
    email' = email ∧ password' = password ∧ ∃ token otp, w.cookie cookie = some token ∧
      token.email = some email ∧ token.otp = some otp ∧ (email, otp) ∈ w.tables.mails
  | .resetUserPassword userId _ => w.emails userId = some email ∧ password = newPassword
  | _ => False

/-- What a request can do. -/
inductive Effect (bcrypt : String → Nat → String) (w : AccountWorld) :
    AccountAction → AccountWorld → Prop
  | quiet {a : AccountAction} {w' : AccountWorld} (h : Quiet w w') : Effect bcrypt w a w'
  | login (now : Int) : Effect bcrypt w (.login now)
      { w with tokens := w.tokens ++ [.access (now / 1000 + 900)] }
  | sends {a : AccountAction} {w₀ w' : AccountWorld} {email otp : String} (token : SignedToken)
      (now : Int) (registrations confirmed : List (String × String)) (h : Quiet w w₀)
      (hemail : token.email = some email) (hotp : token.otp = some otp)
      (hregistration : ∀ otp email password exp, token = .registration otp email password exp →
        (email, password) ∈ registrations)
      (hchange : ∀ otp email password exp, token = .change otp email password exp →
        (email, password) ∈ confirmed)
      (h' : w' =
        { w₀.sendOtp email otp token now with
          registrations := w₀.registrations ++ registrations
          confirmed := w₀.confirmed ++ confirmed }) : Effect bcrypt w a w'
  | creates {a : AccountAction} {w₀ w₁ w' : AccountWorld} {email password : String} {salt : Nat}
      (h : Quiet w w₀)
      (hcreate : w₀.create email (some (hashPassword bcrypt password salt)) = some w₁)
      (hgrants : Grants w w₀ email password a) (hsubmitted : w₀.tables.Submitted email)
      (h' : Quiet w₁ w') : Effect bcrypt w a w'
  | joins {w₀ w₁ : AccountWorld} {email : String} (h : Quiet w w₀)
    (hgoogle : email ∈ w₀.google)
      (hcreate : w₀.create email none = some w₁) : Effect bcrypt w (.googleLoginPost email) w₁
  | sets {a : AccountAction} {w₀ w' : AccountWorld} {tables : ResetWorld}
      {email password : String} {salt : Nat} (h : Quiet w w₀)
      (hupdate : w₀.tables.updatePassword email (hashPassword bcrypt password salt) = some tables)
      (hgrants : Grants w w₀ email password a) (h' : Quiet { w₀ with tables } w') :
      Effect bcrypt w a w'
  | edits {userId : Nat} {email old : String} (hold : w.emails userId = some old)
      (hfree : w.tables.users email = none) :
      Effect bcrypt w (.editUserProfile userId email)
        { w with
          tables :=
            { w.tables with
              users := Function.update (Function.update w.tables.users old none) email
                (w.tables.users old) }
          emails := Function.update w.emails userId (some email)
          edited := email :: w.edited }

theorem findOtp_submitted (h : Sound w)
    (hfound : (w.submit otp now).findOtp (some email) (some otp) ≠ none) :
    (w.submit otp now).tables.Submitted email := by
  obtain ⟨row, hrow⟩ := Option.ne_none_iff_exists'.mp hfound
  have hmatches := List.find?_some hrow
  simp only [Option.all_some, decide_eq_true_eq] at hmatches
  obtain ⟨rfl, rfl⟩ := hmatches
  have hmem := (List.mem_filter.mp (List.mem_of_find?_eq_some hrow)).1
  exact ⟨row.otp, List.mem_cons_self, h.mailed row hmem⟩

theorem cookie_mem {index : Option Nat} {token : SignedToken} (h : w.cookie index = some token) :
    token ∈ w.tokens := by
  obtain ⟨n, -, hn⟩ := Option.bind_eq_some_iff.mp h
  exact List.mem_of_getElem? hn

theorem registerPost_effect : Effect bcrypt w (.registerPost email password otp now)
    (w.registerPost email password otp now).2 := by
  unfold registerPost
  split
  · exact .quiet (Quiet.refl w)
  · dsimp only
    split
    · exact .quiet (quiet_expired w now)
    · refine .sends (.registration otp email password (now / 1000 + 300)) now
        [(email, password)] []
        (quiet_expired w now) rfl rfl (fun _ _ _ _ h => ?_) (fun _ _ _ _ h => ?_) ?_
      · cases h
        exact List.mem_singleton_self _
      · cases h
      · rw [List.append_nil]
        rfl

theorem forgotPassword_effect : Effect bcrypt w (.forgotPassword email otp now)
    (w.forgotPassword email otp now).2 := by
  unfold forgotPassword
  split
  · exact .quiet (Quiet.refl w)
  · dsimp only
    split
    · exact .quiet (quiet_expired w now)
    · refine .sends (.recovery otp email (now / 1000 + 300)) now [] []
        (quiet_expired w now) rfl rfl
        (fun _ _ _ _ h => ?_) (fun _ _ _ _ h => ?_) ?_
      · cases h
      · cases h
      · rw [List.append_nil, List.append_nil]
        rfl

theorem changePassword_effect {userId : Nat} {currentPassword newPassword : String} :
    Effect bcrypt w (.changePassword userId currentPassword newPassword otp now)
      (w.changePassword bcrypt userId currentPassword newPassword otp now).2 := by
  unfold changePassword
  cases w.emails userId with
  | none => exact .quiet (Quiet.refl w)
  | some email =>
    dsimp only
    split
    · exact .quiet (Quiet.refl w)
    · split
      · exact .quiet (Quiet.refl w)
      · refine .sends (.change otp email newPassword (now / 1000 + 300)) now []
          [(email, newPassword)] ((quiet_expired w now).trans (quiet_deleteOtp _ email)) rfl rfl
          (fun _ _ _ _ h => ?_) (fun _ _ _ _ h => ?_) ?_
        · cases h
        · cases h
          exact List.mem_singleton_self _
        · rw [List.append_nil]
          rfl

theorem verifyAccount_quiet : Quiet w (w.verifyAccount cookie now).2 := by
  unfold verifyAccount
  dsimp only
  split
  · exact quiet_expired w now
  · split
    · exact quiet_expired w now
    · split <;> exact quiet_expired w now

theorem forgotPasswordVerify_quiet : Quiet w (w.forgotPasswordVerify cookie otp now).2 := by
  unfold forgotPasswordVerify
  dsimp only
  split
  · exact quiet_submit w otp now
  · split
    · exact quiet_submit w otp now
    · split <;> exact quiet_submit w otp now

theorem registerVerifyPost_effect {index : Option Nat} (h : Sound w) :
    Effect bcrypt w (.registerVerifyPost index otp salt now)
      (w.registerVerifyPost bcrypt (w.cookie index) otp salt now).2 := by
  unfold registerVerifyPost
  dsimp only
  split
  · exact .quiet (quiet_submit w otp now)
  · rename_i decoded hcookie
    split
    · exact .quiet (quiet_submit w otp now)
    · split
      · exact .quiet (quiet_submit w otp now)
      · rename_i hfound
        cases decoded with
        | registration code email password exp =>
          have hsubmitted := findOtp_submitted h hfound
          dsimp only
          split
          · exact .quiet (quiet_submit w otp now)
          · rename_i w₁ hcreate
            exact .creates (quiet_submit w otp now) hcreate
              ⟨h.registered code email password exp (cookie_mem hcookie), hsubmitted⟩ hsubmitted
              (quiet_deleteOtp w₁ email)
        | _ => exact .quiet (quiet_submit w otp now)

theorem verifyChangePassword_effect {index : Option Nat} (h : Sound w) :
    Effect bcrypt w (.verifyChangePassword index otp salt now)
      (w.verifyChangePassword bcrypt (w.cookie index) otp salt now).2 := by
  unfold verifyChangePassword
  dsimp only
  split
  · exact .quiet (quiet_submit w otp now)
  · rename_i decoded hcookie
    split
    · exact .quiet (quiet_submit w otp now)
    · split
      · exact .quiet (quiet_submit w otp now)
      · rename_i hfound
        cases decoded with
        | change code email newPassword exp =>
          dsimp only
          split
          · exact .quiet (quiet_submit w otp now)
          · rename_i tables hupdate
            exact .sets (quiet_submit w otp now) hupdate
              ⟨h.changed code email newPassword exp (cookie_mem hcookie),
                findOtp_submitted h hfound⟩ (quiet_deleteOtp _ email)
        | _ => exact .quiet (quiet_submit w otp now)

theorem resetPassword_effect {index : Option Nat} (h : Sound w) :
    Effect bcrypt w (.resetPassword index email password salt now)
      (w.resetPassword bcrypt (w.cookie index) email password salt now).2 := by
  unfold resetPassword
  split
  · exact .quiet (Quiet.refl w)
  · dsimp only
    unfold ResetWorld.resetPassword
    cases hrefusal : w.tables.resetRefusal ((w.cookie index).bind (·.verified)) email now with
    | some refusal => exact .quiet (Quiet.refl w)
    | none =>
      dsimp only
      split
      · exact .quiet (Quiet.refl w)
      · rename_i tables hupdate
        obtain ⟨verified, hverified, hemail⟩ : ∃ verified,
            (w.cookie index).bind (·.verified) = some verified ∧ verified.email = email := by
          unfold ResetWorld.resetRefusal at hrefusal
          split at hrefusal
          · cases hrefusal
          · rename_i verified hverified
            refine ⟨verified, hverified, ?_⟩
            by_contra hne
            split at hrefusal <;> cases hrefusal
        obtain ⟨token, htoken, hpayload⟩ := Option.bind_eq_some_iff.mp hverified
        obtain ⟨otp, hotp, hpayload⟩ := Option.bind_eq_some_iff.mp hpayload
        obtain ⟨email', hemail', hpayload⟩ := Option.bind_eq_some_iff.mp hpayload
        cases hpayload
        subst hemail
        exact .sets (Quiet.refl w) hupdate ⟨rfl, rfl, token, otp, htoken, hemail', hotp,
          h.signed token (cookie_mem htoken) email' otp hemail' hotp⟩ (quiet_deleteOtp _ email')

theorem googleLoginPost_effect :
    Effect bcrypt w (.googleLoginPost email) (w.googleLoginPost email) := by
  have hquiet : Quiet w { w with google := email :: w.google } :=
    ⟨⟨fun _ h => h, rfl, rfl, rfl, rfl⟩, rfl, rfl, fun _ h => h,
      fun _ h => List.mem_cons_of_mem _ h, rfl⟩
  unfold googleLoginPost
  dsimp only
  cases hcreate : AccountWorld.create { w with google := email :: w.google } email none with
  | none => exact .quiet hquiet
  | some w₁ => exact .joins hquiet List.mem_cons_self hcreate

theorem editUserProfile_effect {userId : Nat} :
    Effect bcrypt w (.editUserProfile userId email) (w.editUserProfile userId email) := by
  unfold editUserProfile
  cases hold : w.emails userId with
  | none => exact .quiet (Quiet.refl w)
  | some old =>
    dsimp only
    split
    · exact .quiet (Quiet.refl w)
    · rename_i hnot
      rw [not_or, not_not] at hnot
      exact .edits hold hnot.2

theorem resetUserPassword_effect {userId : Nat} :
    Effect bcrypt w (.resetUserPassword userId salt) (w.resetUserPassword bcrypt userId salt) := by
  unfold resetUserPassword
  cases hemail : w.emails userId with
  | none => exact .quiet (Quiet.refl w)
  | some email =>
    dsimp only [Option.bind_some]
    split
    · exact .quiet (Quiet.refl w)
    · rename_i tables hupdate
      exact .sets (Quiet.refl w) hupdate ⟨hemail, rfl⟩ (Quiet.refl _)

/-- Each request does one of these things. -/
theorem next_effect (h : Sound w) (a : AccountAction) : Effect bcrypt w a (w.next bcrypt a) := by
  cases a with
  | login now => exact .login now
  | verifyAccount cookie now => exact .quiet verifyAccount_quiet
  | registerPost email password otp now => exact registerPost_effect
  | registerVerifyPost cookie otp salt now => exact registerVerifyPost_effect h
  | forgotPassword email otp now => exact forgotPassword_effect
  | forgotPasswordVerify cookie otp now => exact .quiet forgotPasswordVerify_quiet
  | resetPassword cookie email password salt now => exact resetPassword_effect h
  | changePassword userId currentPassword newPassword otp now => exact changePassword_effect
  | verifyChangePassword cookie otp salt now => exact verifyChangePassword_effect h
  | googleLoginPost email => exact googleLoginPost_effect
  | editUserProfile userId email => exact editUserProfile_effect
  | resetUserPassword userId salt => exact resetUserPassword_effect

/-! ## Runs -/

/-- A step that adds a user. -/
structure Created (email : String) (hash : Option PasswordHash) (w w' : AccountWorld) : Prop where
  shrinks : Shrinks w w'
  free : w.tables.users email = none
  users : w'.tables.users = Function.update w.tables.users email (some ⟨hash, 0⟩)
  submitted : w'.tables.submitted = w.tables.submitted
  google : w'.google = w.google
  edited : w'.edited = w.edited

theorem create_created {hash : Option PasswordHash} (h : w.create email hash = some w') :
    Created email hash w w' := by
  unfold create at h
  split at h
  · cases h
  · rename_i hfree
    cases h
    exact ⟨⟨fun _ h => h, rfl, rfl, rfl, rfl⟩, by simpa using hfree, rfl, rfl, rfl, rfl⟩

section
variable {email' : String} {hash : Option PasswordHash}

theorem Created.users_of_ne (h : Created email' hash w w') (hne : email ≠ email') :
    w'.tables.users email = w.tables.users email := by
  rw [h.users, Function.update_of_ne hne]

theorem Created.stays (h : Created email' hash w w') (hsubmitted : w.tables.Submitted email) :
    w'.tables.Submitted email := by
  obtain ⟨otp, hotp, hmail⟩ := hsubmitted
  exact ⟨otp, h.submitted ▸ hotp, h.shrinks.mails ▸ hmail⟩

theorem Created.verified (h : Created email' hash w w') (hverified : w.Verified email) :
    w'.Verified email :=
  hverified.imp h.stays fun hgoogle => h.google ▸ hgoogle

end

theorem updatePassword_shrinks {hash : PasswordHash} {tables : ResetWorld}
    (h : w.tables.updatePassword email hash = some tables) : Shrinks w { w with tables } := by
  obtain ⟨user, -, rfl⟩ := Option.map_eq_some_iff.mp h
  exact ⟨fun _ h => h, rfl, rfl, rfl, rfl⟩

theorem sound_step (h : Sound w) (hstep : Effect bcrypt w a w') : Sound w' := by
  cases hstep with
  | quiet hquiet => exact h.shrinks hquiet.shrinks
  | login now =>
    exact
      { mailed := h.mailed
        signed := fun token htoken email otp hemail hotp => by
          obtain htoken | htoken := List.mem_append.mp htoken
          · exact h.signed token htoken email otp hemail hotp
          · obtain rfl := List.mem_singleton.mp htoken
            cases hemail
        registered := fun otp email password exp htoken =>
          h.registered otp email password exp (by simpa using htoken)
        changed := fun otp email password exp htoken =>
          h.changed otp email password exp (by simpa using htoken) }
  | sends token now registrations confirmed hquiet hemail hotp hregistration hchange heq =>
    subst heq
    exact (h.shrinks hquiet.shrinks).sendOtp hemail hotp hregistration hchange
  | creates hquiet hcreate _ _ hafter =>
    exact h.shrinks ((hquiet.shrinks.trans (create_created hcreate).shrinks).trans hafter.shrinks)
  | joins hquiet _ hcreate =>
    exact h.shrinks (hquiet.shrinks.trans (create_created hcreate).shrinks)
  | sets hquiet hupdate _ hafter =>
    exact h.shrinks ((hquiet.shrinks.trans (updatePassword_shrinks hupdate)).trans hafter.shrinks)
  | edits => exact ⟨h.mailed, h.signed, h.registered, h.changed⟩

theorem Quiet.stays (h : Quiet w w') (hsubmitted : w.tables.Submitted email) :
    w'.tables.Submitted email := by
  obtain ⟨otp, hotp, hmail⟩ := hsubmitted
  exact ⟨otp, h.submitted otp hotp, h.shrinks.mails ▸ hmail⟩

theorem Quiet.verified (h : Quiet w w') (hverified : w.Verified email) : w'.Verified email :=
  hverified.imp h.stays (h.google email)

theorem Grants.mono {w'' : AccountWorld} (h : Grants w w' email password a)
    (hstays : w'.tables.Submitted email → w''.tables.Submitted email) :
    Grants w w'' email password a := by
  cases a with
  | registerVerifyPost => exact ⟨h.1, hstays h.2⟩
  | verifyChangePassword => exact ⟨h.1, hstays h.2⟩
  | _ => exact h

/-- Whose address was verified stays so. -/
theorem verified_step (hstep : Effect bcrypt w a w') (h : w.Verified email) :
    w'.Verified email := by
  cases hstep with
  | quiet hquiet => exact hquiet.verified h
  | login now => exact h
  | sends token now registrations confirmed hquiet hemail hotp hregistration hchange heq =>
    subst heq
    obtain ⟨otp, hotp, hmail⟩ | hgoogle := hquiet.verified h
    · exact .inl ⟨otp, hotp, List.mem_append_left _ hmail⟩
    · exact .inr hgoogle
  | creates hquiet hcreate _ _ hafter =>
    exact hafter.verified ((create_created hcreate).verified (hquiet.verified h))
  | joins hquiet _ hcreate => exact (create_created hcreate).verified (hquiet.verified h)
  | sets hquiet hupdate _ hafter =>
    obtain ⟨user, -, rfl⟩ := Option.map_eq_some_iff.mp hupdate
    exact hafter.verified (hquiet.verified h)
  | edits => exact h

theorem edited_step (hstep : Effect bcrypt w a w') (h : email ∈ w.edited) :
    email ∈ w'.edited := by
  cases hstep with
  | quiet hquiet => rwa [hquiet.edited]
  | login now => exact h
  | sends token now registrations confirmed hquiet hemail hotp hregistration hchange heq =>
    subst heq
    exact hquiet.edited ▸ h
  | creates hquiet hcreate _ _ hafter =>
    rw [hafter.edited, (create_created hcreate).edited, hquiet.edited]
    exact h
  | joins hquiet _ hcreate =>
    rw [(create_created hcreate).edited, hquiet.edited]
    exact h
  | sets hquiet _ _ hafter =>
    rw [hafter.edited]
    exact hquiet.edited ▸ h
  | edits => exact List.mem_cons_of_mem _ h

/-- No account under an address that nobody has verified or entered in a profile. -/
def Known (users : String → Option User) (w : AccountWorld) : Prop :=
  ∀ email, w.tables.users email ≠ none →
    users email ≠ none ∨ w.Verified email ∨ email ∈ w.edited

theorem known_step {users : String → Option User} (h : Known users w)
    (hstep : Effect bcrypt w a w') : Known users w' := by
  intro email hemail
  have hkept (hbefore : w.tables.users email ≠ none) :
      users email ≠ none ∨ w'.Verified email ∨ email ∈ w'.edited :=
    (h email hbefore).imp_right fun hknown =>
      hknown.imp (verified_step hstep) (edited_step hstep)
  cases hstep with
  | quiet hquiet => exact hkept (hquiet.users ▸ hemail)
  | login now => exact hkept hemail
  | sends token now registrations confirmed hquiet _ _ _ _ heq =>
    subst heq
    exact hkept (hquiet.users ▸ hemail)
  | @creates _ _ w₁ _ email' password salt hquiet hcreate _ hsubmitted hafter =>
    have hcreated := create_created hcreate
    by_cases hsame : email = email'
    · subst hsame
      exact .inr (.inl (hafter.verified (.inl (hcreated.stays hsubmitted))))
    · rw [hafter.users, hcreated.users_of_ne hsame, hquiet.users] at hemail
      exact hkept hemail
  | @joins w₀ w₁ email' hquiet hgoogle hcreate =>
    have hcreated := create_created hcreate
    by_cases hsame : email = email'
    · subst hsame
      exact .inr (.inl (.inr (hcreated.google ▸ hgoogle)))
    · rw [hcreated.users_of_ne hsame, hquiet.users] at hemail
      exact hkept hemail
  | sets hquiet hupdate _ hafter =>
    obtain ⟨user, huser, rfl⟩ := Option.map_eq_some_iff.mp hupdate
    rw [hafter.users] at hemail
    refine hkept fun hnone => hemail ?_
    rw [hquiet.users] at huser
    dsimp only
    rw [Function.update_of_ne ?_, hquiet.users, hnone]
    rintro rfl
    rw [hnone] at huser
    cases huser
  | @edits userId email' old hold hfree =>
    by_cases hsame : email = email'
    · subst hsame
      exact .inr (.inr List.mem_cons_self)
    · refine hkept fun hnone => hemail ?_
      dsimp only
      rw [Function.update_of_ne hsame]
      by_cases hold : email = old
      · subst hold
        rw [Function.update_self]
      · rw [Function.update_of_ne hold, hnone]

/-- The world of a database before the first request. -/
def start (users : String → Option User) (emails : Nat → Option String) (nextId : Nat) :
    AccountWorld :=
  { tables := { users, otpCodes := [] }
    emails
    nextId }

theorem sound_start {users : String → Option User} {emails : Nat → Option String}
    {nextId : Nat} :
    Sound (start users emails nextId) :=
  ⟨by simp [start], by simp [start], by simp [start], by simp [start]⟩

theorem sound_run {users : String → Option User} {emails : Nat → Option String} {nextId : Nat}
    {as : List AccountAction} (h : Run (Does (next bcrypt)) (start users emails nextId) as w) :
    Sound w :=
  h.preserves (fun _ a _ hstep hs => by
    rw [show _ = _ from hstep]
    exact sound_step hs (next_effect hs a)) sound_start

end AccountWorld

end

/-! ## Results -/

section
variable {bcrypt : String → Nat → String} {w w' : AccountWorld} {as : List AccountAction}
  {users : String → Option User} {emails : Nat → Option String} {nextId : Nat}

/-- Whatever the order of the requests, and whatever tokens are put into which cookies, an account
is under an address of the database, one to which a code was mailed that a request then held, one
that Google vouched for, or one that a user entered in the profile. -/
theorem accounts_verified
    (h : Run (Does (AccountWorld.next bcrypt)) (.start users emails nextId) as w) (email : String)
    (haccount : w.tables.users email ≠ none) :
    users email ≠ none ∨ w.tables.Submitted email ∨ email ∈ w.google ∨
      email ∈ w.edited := by
  have hknown : w.Sound ∧ w.Known users :=
    h.preserves (I := fun w => w.Sound ∧ w.Known users) (fun w a w' hstep hs => by
      rw [show w' = _ from hstep]
      have heffect : AccountWorld.Effect bcrypt w a (w.next bcrypt a) :=
        AccountWorld.next_effect hs.1 a
      exact ⟨AccountWorld.sound_step hs.1 heffect, AccountWorld.known_step hs.2 heffect⟩)
      ⟨AccountWorld.sound_start, fun email hemail => .inl hemail⟩
  obtain hbefore | (hsubmitted | hgoogle) | hedited := hknown.2 email haccount
  · exact .inl hbefore
  · exact .inr (.inl hsubmitted)
  · exact .inr (.inr (.inl hgoogle))
  · exact .inr (.inr (.inr hedited))

/-- Who can set a password: besides an administrator, the holder of a code that was mailed to the
account, with the password that the registration or the confirmed change named; and, without that
code, the holder of a token that carries one. -/
theorem password_set_granted {a : AccountAction} {email : String}
    (h : Run (Does (AccountWorld.next bcrypt)) (.start users emails nextId) as w)
    (hstep : Does (AccountWorld.next bcrypt) w a w')
    (hedit : ∀ userId email, a ≠ .editUserProfile userId email)
    (hchanged : w'.tables.password email ≠ w.tables.password email) :
    ∃ password salt, w'.tables.password email = some (hashPassword bcrypt password salt) ∧
      w.Grants w' email password a := by
  have heffect : AccountWorld.Effect bcrypt w a w' := by
    rw [show w' = _ from hstep]
    exact AccountWorld.next_effect (AccountWorld.sound_run h) a
  have hsame (husers : w'.tables.users email = w.tables.users email) : False := by
    refine hchanged ?_
    unfold ResetWorld.password
    rw [husers]
  cases heffect with
  | quiet hquiet => exact (hsame (by rw [hquiet.users])).elim
  | login now => exact (hsame rfl).elim
  | sends token now registrations confirmed hquiet _ _ _ _ heq =>
    subst heq
    exact (hsame (congrFun hquiet.users email)).elim
  | @creates _ w₀ w₁ _ email' password salt hquiet hcreate hgrants _ hafter =>
    have hcreated := AccountWorld.create_created hcreate
    by_cases hemail : email = email'
    · subst hemail
      refine ⟨password, salt, ?_, hgrants.mono fun hheld => hafter.stays (hcreated.stays hheld)⟩
      unfold ResetWorld.password
      rw [hafter.users, hcreated.users, Function.update_self]
      rfl
    · refine (hsame ?_).elim
      rw [hafter.users, hcreated.users_of_ne hemail, hquiet.users]
  | @joins w₀ w₁ email' hquiet _ hcreate =>
    have hcreated := AccountWorld.create_created hcreate
    refine (hchanged ?_).elim
    unfold ResetWorld.password
    rw [← hquiet.users]
    by_cases hemail : email = email'
    · subst hemail
      rw [hcreated.users, Function.update_self, hcreated.free]
      rfl
    · rw [hcreated.users_of_ne hemail]
  | @sets _ w₀ _ tables email' password salt hquiet hupdate hgrants hafter =>
    obtain ⟨user, -, rfl⟩ := Option.map_eq_some_iff.mp hupdate
    by_cases hemail : email = email'
    · subst hemail
      refine ⟨password, salt, ?_, hgrants.mono fun hheld => hafter.stays hheld⟩
      unfold ResetWorld.password
      rw [hafter.users]
      dsimp only
      rw [Function.update_self]
      rfl
    · refine (hsame ?_).elim
      rw [hafter.users]
      dsimp only
      rw [Function.update_of_ne hemail, hquiet.users]
  | edits => exact (hedit _ _ rfl).elim

end

namespace Sample

/-- An account is registered, and its password changed with the code of the second mail. -/
def opened : List AccountAction :=
  [.registerPost "two@example.com" "old password" "123456" 0,
    .registerVerifyPost (some 0) "123456" 1 30000,
    .changePassword 1 "old password" "new password" "654321" 60000]

def confirmation : AccountAction := .verifyChangePassword (some 1) "654321" 2 90000

def world (as : List AccountAction) : AccountWorld :=
  as.foldl (AccountWorld.next fun password _ => password)
    (.start (fun _ => none) (fun _ => none) 1)

theorem run_world (as : List AccountAction) :
    Run (Does (AccountWorld.next fun password _ => password))
      (.start (fun _ => none) (fun _ => none) 1) as (world as) := run_does_iff.mpr rfl

end Sample

theorem accounts_verified_sample :
    (none : Option User) ≠ none ∨
    (Sample.world Sample.opened).tables.Submitted "two@example.com" ∨
      "two@example.com" ∈ (Sample.world Sample.opened).google ∨
        "two@example.com" ∈ (Sample.world Sample.opened).edited :=
  accounts_verified (Sample.run_world Sample.opened) "two@example.com" (by decide)

theorem password_set_granted_sample : ∃ password salt,
    (Sample.world (Sample.opened ++ [Sample.confirmation])).tables.password "two@example.com" =
        some (hashPassword (fun password _ => password) password salt) ∧
      (Sample.world Sample.opened).Grants (Sample.world (Sample.opened ++ [Sample.confirmation]))
        "two@example.com" password Sample.confirmation := by
  refine password_set_granted (Sample.run_world Sample.opened) ?_ ?_ (by decide)
  · exact List.foldl_concat _ _ _ _
  · intro userId email h
    cases h

end MiracleAuction.Accounts
