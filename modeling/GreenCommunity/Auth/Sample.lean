import GreenCommunity.Auth.Ops

/-!
# A sample deployment

A token is its own payload and its hash is its `jti`, so that concrete runs can be
written down.  There is one active user.
-/

namespace GreenCommunity.Auth

open GreenCommunity.Base.Redis

def sampleSettings : Settings where
  accessTokenExpireMinutes := 15
  refreshTokenExpireDays := 14
  loginRateLimitMaxAttempts := 5
  loginRateLimitWindowSeconds := 300
  accessTokenExpireMinutes_pos := by decide
  refreshTokenExpireDays_pos := by decide
  loginRateLimitMaxAttempts_pos := by decide
  loginRateLimitWindowSeconds_pos := by decide

def sample : Deps Claims where
  settings := sampleSettings
  jwtEncode c := c
  jwtDecode c := some c
  jwtDecode_encode _ := rfl
  sha256 c := c.jti
  checkpw password passwordHash := some (password == passwordHash)
  sameEmail a b := a == b
  lower s := s

def sampleUser : User :=
  { userId := 1, userEmail := "a@b.c", userPasswordHash := "pw", userIsActive := true }

/-- One user and an empty Redis. -/
def freshState : State :=
  { clock := 0, redis := fun _ => none, users := [sampleUser], uuids := [] }

end GreenCommunity.Auth
