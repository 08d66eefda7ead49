import GreenCommunity.Board.Ops
import GreenCommunity.Common.Pagination

/-!
# The current user

`get_current_user` behind the decoding of the access token, and the list of users.
-/

namespace GreenCommunity.Board

open GreenCommunity.Base
open GreenCommunity.Common
open GreenCommunity.Infrastructure (oneOrNone)

namespace UserRepository

def getById (userId : Int) : BoardM (Option User) := do
  oneOrNone (← perform (.select (.user userId)))

def listPaginated (params : PageParams) : BoardM (List User × Nat) := do
  let total ← perform (.select .countUsers)
  let users ← perform (.select (.pageUsers params.offset params.limit))
  return (users, total)

end UserRepository

/-- `userId` is what the access token says. -/
def getCurrentUser (userId : Int) : BoardM User := do
  match ← UserRepository.getById userId with
  | none => throw (.unauthorized "인증이 필요합니다.")
  | some user =>
      if !user.userIsActive then
        throw (.unauthorized "비활성화된 계정입니다. 다시 로그인해주세요.")
      else
        return user

def UserService.listUsers (params : PageParams) : BoardM (List User × Nat) :=
  UserRepository.listPaginated params

/-- The endpoint `GET /users`. -/
def listUsers (params : PageParams) : BoardM (PageResponse User) := do
  let (users, total) ← UserService.listUsers params
  return .create users total params

end GreenCommunity.Board
