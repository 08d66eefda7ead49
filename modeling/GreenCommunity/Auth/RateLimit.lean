import GreenCommunity.Auth.Ops

/-!
# The fixed-window rate limiter

`common/rate_limit.py`: `INCR` and `EXPIRE NX` in one pipeline, and `TTL` for the
`Retry-After` of a refused attempt.
-/

namespace GreenCommunity.Auth

open GreenCommunity.Base
open GreenCommunity.Base.Redis

structure RateLimitResult where
  allowed : Bool
  current : Int
  retryAfter : Int
  deriving DecidableEq, Repr

def hitCmds (key : String) (windowSeconds : Nat) : List Cmd :=
  [.incr key, .expire key windowSeconds true]

def hit (key : String) (maxAttempts windowSeconds : Nat) : AuthM RateLimitResult := do
  let replies ← request (.pipeline (hitCmds key windowSeconds))
  let current : Int := replies.1
  if current ≤ maxAttempts then
    return { allowed := true, current := current, retryAfter := 0 }
  let ttl ← request (.redis (.ttl key))
  let retryAfter : Int := if ttl > 0 then ttl else windowSeconds
  return { allowed := false, current := current, retryAfter := retryAfter }

theorem hit_bind {α : Type} (key : String) (maxAttempts windowSeconds : Nat)
    (f : RateLimitResult → AuthM α) :
    (hit key maxAttempts windowSeconds >>= f) =
      .call (.pipeline (hitCmds key windowSeconds)) fun r =>
        if r.1 ≤ (maxAttempts : Int) then f ⟨true, r.1, 0⟩
        else .call (.redis (.ttl key)) fun ttl =>
          f ⟨false, r.1, if ttl > 0 then ttl else windowSeconds⟩ := by
  unfold hit
  simp only [Prog.request_bind, Prog.call_bind]
  congr 1
  funext r
  split <;> rfl

def reset (key : String) : AuthM Unit := do
  let _ ← request (.redis (.del [key]))

end GreenCommunity.Auth
