import GreenCommunity.Auth.Security
import GreenCommunity.Base.Text

/-!
# The refresh token store

`RefreshTokenStore`: three families of Redis keys.  A token key holds the hash of
an active refresh token, the index set of a user lists the `jti`s of the user's
tokens, and a used marker records that a token was consumed by rotation.
-/

namespace GreenCommunity.Auth

open GreenCommunity.Base
open GreenCommunity.Base.Redis

variable {Tok : Type} (d : Deps Tok)

inductive TokenState where
  | active
  | reused
  | forged
  | unknown
  deriving DecidableEq, Repr

def TokenState.value : TokenState → String
  | .active => "active"
  | .reused => "reused"
  | .forged => "forged"
  | .unknown => "unknown"

/-! ## Keys -/

def tokenKey (userId : Nat) (jti : String) : String := s!"refresh:{userId}:{jti}"

def indexKey (userId : Nat) : String := s!"refresh_index:{userId}"

def usedKey (userId : Nat) (jti : String) : String := s!"refresh_used:{userId}:{jti}"

/-! ## Pipelines -/

def saveCmds (userId : Nat) (jti tokenHash : String) : List Cmd :=
  [.set (tokenKey userId jti) tokenHash (some d.settings.ttlSeconds),
    .sadd (indexKey userId) jti,
    .expire (indexKey userId) d.settings.ttlSeconds false]

def rotateCmds (userId : Nat) (jti : String) (ex : Nat) : List Cmd :=
  [.del [tokenKey userId jti],
    .srem (indexKey userId) jti,
    .set (usedKey userId jti) "1" (some ex)]

def revokeCmds (userId : Nat) (jti : String) : List Cmd :=
  [.del [tokenKey userId jti], .srem (indexKey userId) jti]

def revokeAllCmds (userId : Nat) (jtis : List String) : List Cmd :=
  jtis.map (fun jti => .del [tokenKey userId jti]) ++ [.del [indexKey userId]]

/-! ## Operations -/

def save (userId : Nat) (jti tokenHash : String) : AuthM Unit := do
  let _ ← request (.pipeline (saveCmds d userId jti tokenHash))

def verify (userId : Nat) (jti : String) (token : Tok) : AuthM TokenState := do
  let stored ← request (.redis (.get (tokenKey userId jti)))
  match stored with
  | some stored =>
      if verifyTokenHash d token stored then return .active
      return .forged
  | none =>
      if ← request (.redis (.exists (usedKey userId jti))) then return .reused
      return .unknown

def rotate (userId : Nat) (jti : String) (remainingTtlSeconds : Int) : AuthM Unit := do
  let _ ← request (.pipeline (rotateCmds userId jti (max remainingTtlSeconds 1).toNat))

def revoke (userId : Nat) (jti : String) : AuthM Unit := do
  let _ ← request (.pipeline (revokeCmds userId jti))

def revokeAll (userId : Nat) : AuthM Nat := do
  let jtis ← request (.redis (.smembers (indexKey userId)))
  let _ ← request (.pipeline (revokeAllCmds userId jtis))
  return jtis.length

end GreenCommunity.Auth
