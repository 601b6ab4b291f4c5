import Kortex.Model.Accounts

/-
This file models the calls of `AuthService` that present one refresh token, with the denylist in
Redis and one await at a time.
-/

namespace Kortex

inductive TokenType where
  | access
  | refresh
deriving DecidableEq

/-- This is the payload of a signed JWT; `exp` is in seconds. -/
structure JwtPayload where
  sub : Nat
  jti : Uuid
  exp : Int
  type : TokenType
deriving DecidableEq

namespace JwtPayload

/-- This is the instant at which the token expires. -/
def expiry (payload : JwtPayload) : Int := payload.exp * 1000000

/-- This is the payload of `encode_jwt`. -/
def encode (settings : Settings) (now : Instant) (subject : Nat) (jti : Uuid) (ttlSeconds : Int)
    (type : TokenType) : JwtPayload :=
  let ttl := if ttlSeconds = 0 then settings.jwtAccessTtlSeconds else ttlSeconds
  { sub := subject, jti := jti, exp := (now + ttl * 1000000).tdiv 1000000, type := type }

/-- This is `decode_jwt` for a token with a good signature. -/
def decode (payload : JwtPayload) (now : Instant) (expected : TokenType) : Option JwtPayload :=
  if payload.expiry ≤ now then none
  else if payload.type = expected then some payload
  else none

end JwtPayload

/-- Redis holds each key until it expires. -/
abbrev TokenDenylist := Str → Option Instant

namespace TokenDenylist

/-- This is `_key`. -/
def key (jti : Str) : Str := "revoked_jti:" ++ jti

def revoke (denylist : TokenDenylist) (now : Instant) (jti : Str) (ttlSeconds : Int) : TokenDenylist :=
  if jti = [] then denylist
  else Function.update denylist (key jti) (some (now + max 1 ttlSeconds * 1000000))

def isRevoked (denylist : TokenDenylist) (now : Instant) (jti : Str) : Bool :=
  jti != [] && (denylist (key jti)).any fun expiry => decide (now < expiry)

end TokenDenylist

namespace AuthService

structure LoginResult where
  userId : Nat
  userPublicId : Uuid
  accessToken : JwtPayload
  refreshToken : JwtPayload
  expiresIn : Int

/-- This is `issue_tokens`, with the ids of the two tokens. -/
def issueTokens (settings : Settings) (now : Instant) (user : User) (accessJti refreshJti : Uuid) :
    LoginResult where
  userId := user.id
  userPublicId := user.publicId
  accessToken := .encode settings now user.id accessJti settings.jwtAccessTtlSeconds .access
  refreshToken := .encode settings now user.id refreshJti settings.jwtRefreshTtlSeconds .refresh
  expiresIn := settings.jwtAccessTtlSeconds

/-- This is the time to live that `_revoke_payload` computes. -/
def revocationTtl (payload : JwtPayload) (now : Instant) : Int :=
  max 1 ((payload.expiry - now).tdiv 1000000)

namespace Rotation

/-- A call of `refresh` or of `revoke_refresh` stands between two of its awaits. -/
inductive Phase where
  | idle
  | presented
  | accepted
  | found (user : User)
  | revoking (user : User) (ttlSeconds : Int)
  | burned (user : User)
  | returned
  | refused
  | leaving
  | signingOut (ttlSeconds : Int)
  | left

structure Issued where
  id : Nat
  result : LoginResult

/-- The calls of `refresh` that started after a sign-out are recorded, and so are those that have
written the revocation. -/
structure State where
  now : Instant
  denylist : TokenDenylist
  store : AccountStore
  phase : Nat → Phase
  issued : List Issued
  signedOut : Bool
  late : List Nat
  revocations : List Nat

/-- `revokePayload` computes the time to live, and `revoke` is the command to Redis. -/
inductive Event where
  | pass (duration : Nat)
  | accounts (store : AccountStore)
  | refresh (id : Nat)
  | checkDenylist (id : Nat)
  | loadUser (id : Nat)
  | revokePayload (id : Nat)
  | revoke (id : Nat)
  | issueTokens (id : Nat) (accessJti refreshJti : Uuid)
  | revokeRefresh (id : Nat)

def State.setPhase (s : State) (id : Nat) (phase : Phase) : State :=
  { s with phase := Function.update s.phase id phase }

variable (settings : Settings) (token : JwtPayload)

def State.isRevoked (s : State) : Bool := s.denylist.isRevoked s.now token.jti.str

/-- The revocation of the token is written. -/
def State.burn (s : State) (id : Nat) (ttlSeconds : Int) : State :=
  { s with
    denylist := s.denylist.revoke s.now token.jti.str ttlSeconds
    revocations := s.revocations ++ [id] }

/-- These are the steps of `refresh` and `revoke_refresh` for the token. -/
def step (s : State) : Event → State
  | .pass duration => { s with now := s.now + duration }
  | .accounts store => { s with store := store }
  | .refresh id =>
      match s.phase id with
      | .idle =>
          let s := if s.signedOut then { s with late := s.late ++ [id] } else s
          match token.decode s.now .refresh with
          | none => s.setPhase id .refused
          | some _ => s.setPhase id .presented
      | _ => s
  | .checkDenylist id =>
      match s.phase id with
      | .presented => s.setPhase id (if s.isRevoked token then .refused else .accepted)
      | _ => s
  | .loadUser id =>
      match s.phase id with
      | .accepted =>
          match userById s.store token.sub with
          | none => s.setPhase id .refused
          | some user => s.setPhase id (.found user)
      | _ => s
  | .revokePayload id =>
      match s.phase id with
      | .found user => s.setPhase id (.revoking user (revocationTtl token s.now))
      | .leaving => s.setPhase id (.signingOut (revocationTtl token s.now))
      | _ => s
  | .revoke id =>
      match s.phase id with
      | .revoking user ttlSeconds => (s.burn token id ttlSeconds).setPhase id (.burned user)
      | .signingOut ttlSeconds =>
          { (s.burn token id ttlSeconds).setPhase id .left with signedOut := true }
      | _ => s
  | .issueTokens id accessJti refreshJti =>
      match s.phase id with
      | .burned user =>
          { s.setPhase id .returned with
            issued := s.issued ++ [⟨id, issueTokens settings s.now user accessJti refreshJti⟩] }
      | _ => s
  | .revokeRefresh id =>
      match s.phase id with
      | .idle =>
          match token.decode s.now .refresh with
          | none => { s.setPhase id .left with signedOut := true }
          | some _ => s.setPhase id .leaving
      | _ => s

def start (now : Instant) (store : AccountStore) : State :=
  ⟨now, fun _ => none, store, fun _ => .idle, [], false, [], []⟩

end Rotation
end AuthService
end Kortex
