import Kortex.Library.Table
import Kortex.Model.RefreshTokens

/-
This file models `AccountService` and the requests that sign tokens and accept them, with what the
secret has signed and where it went.
-/

namespace Kortex

/-- These are the columns of the table `users` that the flows read and write. -/
structure AccountRow where
  id : Nat
  email : Str
  passwordHash : Option Str
  emailVerified : Bool := false
  deletedAt : Option Instant := none

/-- This is the payload of a JWT with the claims that the code sets. -/
structure Claims where
  sub : Nat
  iat : Int
  exp : Int
  type : Str
  jti : Option Uuid := none
deriving DecidableEq

namespace Claims

/-- This is the payload of `encode_jwt`. -/
def encode (settings : Settings) (now : Instant) (subject : Nat) (ttlSeconds : Int) (type : Str)
    (jti : Option Uuid := none) : Claims :=
  let ttl := if ttlSeconds = 0 then settings.jwtAccessTtlSeconds else ttlSeconds
  { sub := subject, iat := now.tdiv 1000000, exp := (now + ttl * 1000000).tdiv 1000000, type, jti }

/-- This is `decode_jwt`: the signature is good when the secret has signed the payload. -/
def decode (signed : List Claims) (now : Instant) (expected : Str) (token : Claims) : Option Claims :=
  if token ∈ signed ∧ now < token.exp * 1000000 ∧ token.type = expected then some token else none

end Claims

/-- This is a mail with the link of a token. -/
structure Mail where
  recipient : Str
  token : Claims
  sentAt : Instant

namespace AccountService

def resetTtl : Int := 30 * 60

def verifyTtl : Int := 24 * 60 * 60

def inviteTtl : Int := 7 * 24 * 60 * 60

/-- The columns of type CITEXT compare by this text. -/
structure Deployment where
  settings : Settings
  hasher : Hasher
  citext : Str → Str

variable (d : Deployment)

/-- The emails are unique, and so are the ids. -/
abbrev AccountTable := Table (fun a : AccountRow => (a.id, d.citext a.email)) keyed

/-- This is what the requests have done to an account; a session is what a token is accepted for. -/
inductive Act where
  | created (userId : Nat) (passwordHash : Str)
  | registered (userId : Nat)
  | loggedIn (userId : Nat) (passwordHash password : Str)
  | session (userId : Nat) (token : Claims)
  | passwordSet (userId : Nat) (token : Claims) (passwordHash : Str)
  | verified (userId : Nat) (token : Claims)

/-- The state has what the secret has signed, the mails, and the journal of the acts. -/
structure State where
  now : Instant
  accounts : AccountTable d := Table.empty
  denylist : TokenDenylist := fun _ => none
  signed : List Claims := []
  outbox : List Mail := []
  journal : List (Act × Instant) := []

variable {d} (s : State d)

def State.record (act : Act) : State d := { s with journal := s.journal ++ [(act, s.now)] }

def State.sign (token : Claims) : State d := { s with signed := s.signed ++ [token] }

/-- This is `send_email` with the link of a new token. -/
def State.send (recipient : Str) (token : Claims) : State d :=
  { s.sign token with outbox := s.outbox ++ [⟨recipient, token, s.now⟩] }

/-- This is `get_by_email`. -/
def getByEmail (email : Str) : Option AccountRow :=
  s.accounts.rows.find? fun a => d.citext a.email == d.citext email && a.deletedAt.isNone

/-- This is `get_by_id`. -/
def getById (userId : Nat) : Option AccountRow :=
  s.accounts.rows.find? fun a => a.id == userId && a.deletedAt.isNone

/-- This is `create`, where `none` stands for an email that is taken. -/
def create (gap : Nat) (email password : Str) : Option (AccountRow × State d) :=
  let hash := d.hasher.hash password
  let row : AccountRow := { id := nextId AccountRow.id s.accounts.rows gap, email, passwordHash := some hash }
  (s.accounts.insert? row).map fun accounts =>
    (row, { s with accounts := accounts }.record (.created row.id hash))

/-- These are the ids of two tokens. -/
structure Jtis where
  access : Uuid
  refresh : Uuid

/-- This is `issue_tokens`. -/
def issueTokens (userId : Nat) (jtis : Jtis) : State d :=
  let access := Claims.encode d.settings s.now userId d.settings.jwtAccessTtlSeconds "access" jtis.access
  let refresh := Claims.encode d.settings s.now userId d.settings.jwtRefreshTtlSeconds "refresh" jtis.refresh
  (s.sign access).sign refresh

/-- This is `send_verification`. -/
def sendVerification (userId : Nat) (email : Str) : State d :=
  s.send email (.encode d.settings s.now userId verifyTtl "verify")

/-- This is `register` up to the account with its memberships, the mail and the tokens. -/
def register (gap : Nat) (email password : Str) (jtis : Jtis) : State d :=
  match getByEmail s email with
  | some _ => s
  | none =>
      match create s gap email password with
      | none => s
      | some (user, s) => issueTokens ((sendVerification s user.id user.email).record (.registered user.id))
          user.id jtis

/-- This is `invite_member` and the `send_invite` that follows it. -/
def invite (gap : Nat) (email password : Str) : State d :=
  let s' := match getByEmail s email with
    | some _ => some s
    | none => (create s gap email password).map Prod.snd
  match s' with
  | none => s
  | some s =>
      match getByEmail s email with
      | none => s
      | some user => s.send email (.encode d.settings s.now user.id inviteTtl "reset")

/-- This is `login_with_password`. -/
def login (email password : Str) (jtis : Jtis) : State d :=
  match getByEmail s email with
  | none => s
  | some user =>
      match user.passwordHash with
      | none => s
      | some hash =>
          if d.hasher.verify hash password then
            issueTokens (s.record (.loggedIn user.id hash password)) user.id jtis
          else s

/-- This is `_revoke_payload`; without Redis it does nothing. -/
def revokePayload (redis : Bool) (token : Claims) : State d :=
  let ttl := max 1 ((token.exp * 1000000 - s.now).tdiv 1000000)
  if redis then { s with denylist := s.denylist.revoke s.now (token.jti.elim [] Uuid.str) ttl } else s

/-- This is `refresh`. -/
def refresh (redis : Bool) (token : Claims) (jtis : Jtis) : State d :=
  match token.decode s.signed s.now "refresh" with
  | none => s
  | some payload =>
      if redis && s.denylist.isRevoked s.now (payload.jti.elim [] Uuid.str) then s
      else match getById s payload.sub with
        | none => s
        | some user => issueTokens (revokePayload s redis payload) user.id jtis

/-- This is `revoke_refresh`. -/
def revokeRefresh (redis : Bool) (token : Claims) : State d :=
  match token.decode s.signed s.now "refresh" with
  | none => s
  | some payload => revokePayload s redis payload

/-- This is `request_password_reset`. -/
def requestPasswordReset (email : Str) : State d :=
  match getByEmail s email with
  | none => s
  | some user =>
      if user.passwordHash.isNone then s
      else s.send user.email (.encode d.settings s.now user.id resetTtl "reset")

/-- This is an UPDATE of the live row with this id. -/
def change (userId : Nat) (f : AccountRow → AccountRow)
    (keeps : ∀ a, ((f a).id, d.citext (f a).email) = (a.id, d.citext a.email)) : State d :=
  { s with accounts := s.accounts.update (fun a => a.id == userId && a.deletedAt.isNone) f keeps }

def withPassword (hash : Str) (a : AccountRow) : AccountRow := { a with passwordHash := some hash }

theorem withPassword_ident (citext : Str → Str) (hash : Str) (a : AccountRow) :
    ((withPassword hash a).id, citext (withPassword hash a).email) = (a.id, citext a.email) := rfl

def withVerified (a : AccountRow) : AccountRow := { a with emailVerified := true }

theorem withVerified_ident (citext : Str → Str) (a : AccountRow) :
    ((withVerified a).id, citext (withVerified a).email) = (a.id, citext a.email) := rfl

/-- This is `confirm_password_reset`. -/
def confirmPasswordReset (token : Claims) (newPassword : Str) : State d :=
  match token.decode s.signed s.now "reset" with
  | none => s
  | some payload =>
      let hash := d.hasher.hash newPassword
      (change s payload.sub (withPassword hash) (withPassword_ident _ hash)).record
        (.passwordSet payload.sub payload hash)

/-- This is `confirm_verification`. -/
def confirmVerification (token : Claims) : State d :=
  match token.decode s.signed s.now "verify" with
  | none => s
  | some payload =>
      (change s payload.sub withVerified (withVerified_ident _)).record (.verified payload.sub payload)

/-- This is `resend_verification`. -/
def resendVerification (email : Str) : State d :=
  match getByEmail s email with
  | none => s
  | some user => if user.emailVerified then s else sendVerification s user.id user.email

/-- This is `principal_from_jwt` up to the user. -/
def authenticate (token : Claims) : Option AccountRow × State d :=
  match token.decode s.signed s.now "access" with
  | none => (none, s)
  | some payload =>
      match getById s payload.sub with
      | none => (none, s)
      | some user => (some user, s.record (.session user.id payload))

/-- This is `send_my_verification`. -/
def sendMyVerification (token : Claims) : State d :=
  match authenticate s token with
  | (none, s) => s
  | (some user, s) => if user.emailVerified then s else sendVerification s user.id user.email

/-- The tokens of the events come from the clients; the database draws the gaps of the ids. -/
inductive Event where
  | pass (duration : Nat)
  | register (gap : Nat) (email password : Str) (jtis : Jtis)
  | createUser (gap : Nat) (email password : Str)
  | invite (gap : Nat) (email password : Str)
  | login (email password : Str) (jtis : Jtis)
  | refresh (redis : Bool) (token : Claims) (jtis : Jtis)
  | logout (redis : Bool) (token : Claims)
  | requestPasswordReset (email : Str)
  | confirmPasswordReset (token : Claims) (newPassword : Str)
  | resendVerification (email : Str)
  | sendMyVerification (token : Claims)
  | confirmVerification (token : Claims)
  | request (token : Claims)

def step (s : State d) : Event → State d
  | .pass duration => { s with now := s.now + duration }
  | .register gap email password jtis => AccountService.register s gap email password jtis
  | .createUser gap email password => ((create s gap email password).map Prod.snd).getD s
  | .invite gap email password => AccountService.invite s gap email password
  | .login email password jtis => AccountService.login s email password jtis
  | .refresh redis token jtis => AccountService.refresh s redis token jtis
  | .logout redis token => revokeRefresh s redis token
  | .requestPasswordReset email => AccountService.requestPasswordReset s email
  | .confirmPasswordReset token newPassword => AccountService.confirmPasswordReset s token newPassword
  | .resendVerification email => AccountService.resendVerification s email
  | .sendMyVerification token => AccountService.sendMyVerification s token
  | .confirmVerification token => AccountService.confirmVerification s token
  | .request token => (authenticate s token).2

end AccountService
end Kortex
