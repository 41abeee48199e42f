import MiracleAuction.Base.Run

/-!
# `accounts.controller.ts`: password recovery

Three handlers share a cookie and a row of `otp_codes`. The last one compares the row
with the code in the cookie, which the client need not know.
-/
namespace MiracleAuction.Accounts

/-- A row of `otp_codes`; times in milliseconds. -/
structure OtpCode where
  email : String
  otp : String
  otpExpiry : Int
  deriving DecidableEq, Repr

/-- The payload of the cookie `verified_otp_token`; `exp` in seconds. -/
structure VerifiedOtpToken where
  otp : String
  email : String
  exp : Int
  deriving DecidableEq, Repr

/-- A bcrypt text: it starts with the salt. -/
structure PasswordHash where
  salt : Nat
  digest : String
  deriving DecidableEq, Repr

structure User where
  password : Option PasswordHash
  authVersion : Nat
  deriving DecidableEq, Repr

structure Reply where
  code : String
  message : String
  deriving DecidableEq, Repr

/-- The tables, the cookies that were set, the mails with their codes, and the codes that
request bodies have held. -/
structure ResetWorld where
  users : String → Option User
  otpCodes : List OtpCode
  cookies : List VerifiedOtpToken := []
  mails : List (String × String) := []
  submitted : List String := []

namespace ResetWorld
variable (w : ResetWorld)

/-! ## `AccountRepository` -/

def deleteExpiredOtps (now : Int) : ResetWorld :=
  { w with otpCodes := w.otpCodes.filter fun row => ¬ row.otpExpiry + 120000 < now }

def findOtpByEmail (email : String) : Option OtpCode := w.otpCodes.find? (·.email = email)

def findOtp (email otp : String) : Option OtpCode :=
  w.otpCodes.find? fun row => row.email = email ∧ row.otp = otp

def createOtp (email otp : String) (now : Int) : ResetWorld :=
  { w with otpCodes := w.otpCodes ++ [⟨email, otp, now + 120000⟩] }

def deleteOtp (email : String) : ResetWorld :=
  { w with otpCodes := w.otpCodes.filter (·.email ≠ email) }

/-- It throws where there is no such user. -/
def updatePassword (email : String) (password : PasswordHash) : Option ResetWorld :=
  (w.users email).map fun user =>
    { w with
      users := Function.update w.users email (some ⟨some password, user.authVersion + 1⟩) }

end ResetWorld

/-- `jwt.verify`: a token holds until its second of expiry. -/
def VerifiedOtpToken.verify (token : VerifiedOtpToken) (now : Int) : Bool := now / 1000 < token.exp

/-! ## Handlers -/

section
variable (bcrypt : String → Nat → String)

def hashPassword (password : String) (salt : Nat) : PasswordHash := ⟨salt, bcrypt password salt⟩

namespace ResetWorld
variable (w : ResetWorld)

/-- `forgotPassword`, with the code that it generates. -/
def forgotPassword (email otp : String) (now : Int) : Reply × ResetWorld :=
  if w.users email = none then (⟨"error", "Email does not exist"⟩, w)
  else
    let w := w.deleteExpiredOtps now
    if w.findOtpByEmail email ≠ none then
      (⟨"existedOTP", "OTP has been sent and is valid for 5 minutes!"⟩, w)
    else
      (⟨"success", "Please enter the OTP"⟩,
        { w.createOtp email otp now with
          cookies := w.cookies ++ [⟨otp, email, now / 1000 + 300⟩]
          mails := w.mails ++ [(email, otp)] })

/-- `forgotPasswordVerify`; no reply where `jwt.verify` throws. -/
def forgotPasswordVerify (cookie : Option VerifiedOtpToken) (otp : String) (now : Int) :
    Option Reply × ResetWorld :=
  let w := { w.deleteExpiredOtps now with submitted := otp :: w.submitted }
  match cookie with
  | none => (some ⟨"error", "An error occurred here"⟩, w)
  | some decoded =>
    if !decoded.verify now then (none, w)
    else if w.findOtp decoded.email otp = none then (some ⟨"otp error", "Invalid OTP!"⟩, w)
    else (some ⟨"success", "Please enter your password again"⟩, w)

/-- The checks of `resetPassword`. -/
def resetRefusal (cookie : Option VerifiedOtpToken) (email : String) (now : Int) : Option Reply :=
  match cookie with
  | none => some ⟨"error", "Session expired or verification token missing."⟩
  | some decoded =>
    if !decoded.verify now then
      some ⟨"error", "Session expired or invalid verification token."⟩
    else if decoded.email ≠ email then
      some ⟨"error", "Email does not match the verified token."⟩
    else if w.findOtp decoded.email decoded.otp = none then
      some ⟨"error", "Invalid or expired OTP session."⟩
    else none

/-- `resetPassword`; no reply where the update throws. -/
def resetPassword (cookie : Option VerifiedOtpToken) (email password : String) (salt : Nat)
    (now : Int) : Option Reply × ResetWorld :=
  match w.resetRefusal cookie email now with
  | some refusal => (some refusal, w)
  | none =>
    match w.updatePassword email (hashPassword bcrypt password salt) with
    | none => (none, w)
    | some w => (some ⟨"success", "Password reset successfully"⟩, w.deleteOtp email)

def password (email : String) : Option PasswordHash := (w.users email).bind (·.password)

end ResetWorld

/-- The requests, each with the cookie that the client sends. -/
inductive ResetRequest
  | forgotPassword (email otp : String) (now : Int)
  | forgotPasswordVerify (cookie : Option Nat) (otp : String) (now : Int)
  | resetPassword (cookie : Option Nat) (email password : String) (salt : Nat) (now : Int)
  deriving DecidableEq, Repr

namespace ResetWorld
variable (w : ResetWorld)

/-- A cookie of an earlier response. -/
def cookie (index : Option Nat) : Option VerifiedOtpToken := index.bind fun n => w.cookies[n]?

def next : ResetRequest → Option ResetWorld
  | .forgotPassword email otp now => some (w.forgotPassword email otp now).2
  | .forgotPasswordVerify cookie otp now =>
    some (w.forgotPasswordVerify (w.cookie cookie) otp now).2
  | .resetPassword cookie email password salt now =>
    -- `genSalt` does not repeat the salt that is stored
    if (w.password email).map (·.salt) = some salt then none
    else some (w.resetPassword bcrypt (w.cookie cookie) email password salt now).2

end ResetWorld

end

/-! ## Possession of the code -/

/-- A code that was mailed to the address has been in a request body. -/
def ResetWorld.Submitted (w : ResetWorld) (email : String) : Prop :=
  ∃ otp ∈ w.submitted, (email, otp) ∈ w.mails

instance (w : ResetWorld) (email : String) : Decidable (w.Submitted email) := by
  unfold ResetWorld.Submitted; infer_instance

/-- No password has changed without a code. -/
def NeedsCode (initial w : ResetWorld) : Prop :=
  ∀ email, w.password email = initial.password email ∨ w.Submitted email

/-- The cookie was set for this address no more than five minutes ago, and its code is still
stored: no reset has used it, and no later request has purged it. -/
def ResetWorld.LiveCookie (w : ResetWorld) (cookie : Option VerifiedOtpToken) (email : String)
    (now : Int) : Prop :=
  ∃ token ∈ cookie, token.email = email ∧ now / 1000 < token.exp ∧
    ∃ row ∈ w.otpCodes, row.email = email ∧ row.otp = token.otp

instance (w : ResetWorld) (cookie : Option VerifiedOtpToken) (email : String) (now : Int) :
    Decidable (w.LiveCookie cookie email now) := by
  unfold ResetWorld.LiveCookie; infer_instance

/-- A reset of an account with a live cookie comes after a code of the account was submitted. -/
def ResetWorld.Proven (w : ResetWorld) : ResetRequest → Prop
  | .resetPassword cookie email _ _ now =>
    w.users email ≠ none → w.LiveCookie (w.cookie cookie) email now → w.Submitted email
  | _ => True

instance (w : ResetWorld) (a : ResetRequest) : Decidable (w.Proven a) := by
  unfold ResetWorld.Proven
  split <;> infer_instance

section
variable {bcrypt : String → Nat → String} {initial w w' : ResetWorld} {a : ResetRequest}

/-- A step that changes no password and forgets no code. -/
theorem NeedsCode.keeps (h : NeedsCode initial w)
    (hpassword : ∀ email, w'.password email = w.password email)
    (hsubmitted : ∀ otp ∈ w.submitted, otp ∈ w'.submitted)
    (hmails : ∀ mail ∈ w.mails, mail ∈ w'.mails) : NeedsCode initial w' := by
  intro email
  rcases h email with hsame | ⟨otp, hotp, hmail⟩
  · exact .inl ((hpassword email).trans hsame)
  · exact .inr ⟨otp, hsubmitted otp hotp, hmails _ hmail⟩

theorem ResetWorld.forgotPassword_keeps (email otp : String) (now : Int) :
    (w.forgotPassword email otp now).2.users = w.users ∧
      (w.forgotPassword email otp now).2.submitted = w.submitted ∧
      ∀ mail ∈ w.mails, mail ∈ (w.forgotPassword email otp now).2.mails := by
  unfold forgotPassword
  split
  · exact ⟨rfl, rfl, fun _ h => h⟩
  · dsimp only
    split
    · exact ⟨rfl, rfl, fun _ h => h⟩
    · exact ⟨rfl, rfl, fun _ h => List.mem_append_left _ h⟩

theorem ResetWorld.forgotPasswordVerify_eq (cookie : Option VerifiedOtpToken) (otp : String)
    (now : Int) :
    (w.forgotPasswordVerify cookie otp now).2 =
      { w.deleteExpiredOtps now with submitted := otp :: w.submitted } := by
  unfold forgotPasswordVerify
  dsimp only
  split
  · rfl
  · split
    · rfl
    · split <;> rfl

/-- The checks let live cookies pass, and no others. -/
theorem ResetWorld.resetRefusal_eq_none {cookie : Option VerifiedOtpToken} {email : String}
    {now : Int} : w.resetRefusal cookie email now = none ↔ w.LiveCookie cookie email now := by
  unfold resetRefusal LiveCookie
  cases cookie with
  | none => simp
  | some token =>
    simp only [Option.mem_some_iff, exists_eq_left']
    by_cases hexp : token.verify now = true
    · have hlive : now / 1000 < token.exp := by simpa [VerifiedOtpToken.verify] using hexp
      rw [hexp, Bool.not_true, if_neg Bool.false_ne_true]
      by_cases hemail : token.email = email
      · subst hemail
        rw [if_neg (not_not.mpr rfl)]
        by_cases hnone : w.findOtp token.email token.otp = none
        · rw [if_pos hnone]
          refine iff_of_false nofun ?_
          rintro ⟨-, -, row, hrow, hmatch⟩
          exact List.find?_eq_none.mp hnone row hrow (by simpa using hmatch)
        · rw [if_neg hnone]
          obtain ⟨row, hfound⟩ := Option.ne_none_iff_exists'.mp hnone
          have hmatch := List.find?_some hfound
          refine iff_of_true rfl ⟨rfl, hlive, row, List.mem_of_find?_eq_some hfound, ?_⟩
          simpa using hmatch
      · rw [if_pos hemail]
        exact iff_of_false nofun fun hcookie => hemail hcookie.1
    · rw [Bool.eq_false_iff.mpr hexp, Bool.not_false, if_pos rfl]
      refine iff_of_false nofun fun hcookie => hexp ?_
      simpa [VerifiedOtpToken.verify] using hcookie.2.1

/-- A reset is refused, or fails for want of a user, or changes this one password. -/
theorem ResetWorld.resetPassword_cases (cookie : Option VerifiedOtpToken) (email password : String)
    (salt : Nat) (now : Int) :
    (w.resetPassword bcrypt cookie email password salt now).2 = w ∧
        ¬ (w.resetRefusal cookie email now = none ∧ w.users email ≠ none) ∨
      (w.resetRefusal cookie email now = none ∧ w.users email ≠ none) ∧
        ∃ after, (w.resetPassword bcrypt cookie email password salt now).2 = after ∧
          after.password = Function.update w.password email
            (some (hashPassword bcrypt password salt)) ∧
          after.submitted = w.submitted ∧ after.mails = w.mails := by
  unfold resetPassword updatePassword
  cases hrefusal : w.resetRefusal cookie email now with
  | some refusal => exact .inl ⟨rfl, by simp⟩
  | none =>
    cases huser : w.users email with
    | none => exact .inl ⟨rfl, by simp⟩
    | some user =>
      refine .inr ⟨⟨rfl, by simp⟩, _, rfl, ?_, rfl, rfl⟩
      funext email'
      by_cases hemail : email' = email
      · subst hemail
        simp [deleteOtp, ResetWorld.password]
      · simp [deleteOtp, ResetWorld.password, hemail]

/-- One request changes a password without a code exactly if it is a reset with a live cookie
before any code. -/
theorem needsCode_step (h : NeedsCode initial w) (hstep : StepOf (ResetWorld.next bcrypt) w a w') :
    NeedsCode initial w' ↔ w.Proven a := by
  unfold StepOf at hstep
  cases a with
  | forgotPassword email otp now =>
    cases hstep
    obtain ⟨husers, hsubmitted, hmails⟩ := w.forgotPassword_keeps email otp now
    refine iff_of_true (h.keeps (fun _ => ?_) (by simp [hsubmitted]) hmails) trivial
    rw [ResetWorld.password, husers]
    rfl
  | forgotPasswordVerify cookie otp now =>
    cases hstep
    refine iff_of_true ?_ trivial
    rw [ResetWorld.forgotPasswordVerify_eq]
    exact h.keeps (fun _ => rfl) (fun _ => List.mem_cons_of_mem _) fun _ hmail => hmail
  | resetPassword cookie email password salt now =>
    simp only [ResetWorld.next] at hstep
    split at hstep
    · cases hstep
    · rename_i hsalt
      cases hstep
      rcases w.resetPassword_cases (w.cookie cookie) email password salt now with
        ⟨heq, hrefused⟩ | ⟨⟨hallowed, huser⟩, after, heq, hpassword, hsubmitted, hmails⟩
      · rw [heq]
        refine iff_of_true h fun huser hlive => ?_
        exact absurd ⟨ResetWorld.resetRefusal_eq_none.mpr hlive, huser⟩ hrefused
      · rw [heq]
        have hkept : ∀ email', after.Submitted email' ↔ w.Submitted email' := by
          intro email'
          rw [ResetWorld.Submitted, ResetWorld.Submitted, hsubmitted, hmails]
        constructor
        · intro hneeds _ _
          rcases hneeds email with hsame | hcode
          · rcases h email with hold | hcode
            · -- the new text starts with another salt
              rw [hpassword, Function.update_self, ← hold] at hsame
              exact absurd (by rw [← hsame]; rfl) hsalt
            · exact hcode
          · exact (hkept email).mp hcode
        · intro hproven email'
          by_cases hemail : email' = email
          · subst hemail
            have hlive := ResetWorld.resetRefusal_eq_none.mp hallowed
            exact .inr ((hkept _).mpr (hproven huser hlive))
          · rw [hpassword, Function.update_of_ne hemail]
            exact (h email').imp_right (hkept email').mpr

end

/-- In a run of recovery requests no password changes without a mailed code in a request
body, if and only if every reset with a live cookie comes after such a body. -/
theorem needsCode_iff {bcrypt : String → Nat → String} {users : String → Option User}
    {otpCodes : List OtpCode} {w : ResetWorld} {as : List ResetRequest}
    (hrun : Run (StepOf (ResetWorld.next bcrypt)) { users, otpCodes } as w) :
    Run.Always (ResetWorld.next bcrypt) (NeedsCode { users, otpCodes }) { users, otpCodes } as ↔
      Run (Guarded ResetWorld.Proven (StepOf (ResetWorld.next bcrypt))) { users, otpCodes } as w :=
  Run.always_iff_guarded (fun _ h => h) (fun _ _ _ hstep h => needsCode_step h hstep)
    (fun _ _ _ hstep h hok => (needsCode_step h hstep).mpr hok) hrun fun _ => .inl rfl

namespace Sample

def registered : String → Option User := fun email =>
  if email = "two@example.com" then some ⟨some ⟨1, "old"⟩, 0⟩ else none

/-- The code is asked for, entered, and the password reset. -/
def recovery : List ResetRequest :=
  [.forgotPassword "two@example.com" "123456" 0, .forgotPasswordVerify (some 0) "123456" 30000,
    .resetPassword (some 0) "two@example.com" "new password" 2 60000]

/-- The step with the code is left out. -/
def takeover : List ResetRequest :=
  [.forgotPassword "two@example.com" "123456" 0,
    .resetPassword (some 0) "two@example.com" "new password" 2 60000]

end Sample

theorem needsCode_sample :
    Run.Always (ResetWorld.next fun password _ => password)
      (NeedsCode { users := Sample.registered, otpCodes := [] })
      { users := Sample.registered, otpCodes := [] } Sample.recovery :=
  (needsCode_iff (Run.to_final (by decide))).mpr (Run.to_final_guarded (by decide))

/-- The cookie alone resets the password. -/
theorem needsCode_takeover :
    ¬ ∀ (bcrypt : String → Nat → String) (users : String → Option User)
    (otpCodes : List OtpCode) (as : List ResetRequest) (w : ResetWorld),
    Run (StepOf (ResetWorld.next bcrypt)) { users, otpCodes } as w →
    NeedsCode { users, otpCodes } w := by
  intro h
  have hneeds := h (fun password _ => password) Sample.registered [] Sample.takeover _
    (Run.to_final (by decide)) "two@example.com"
  exact absurd hneeds (by decide)

end MiracleAuction.Accounts
