/-!
# Application errors

The exceptions that service code raises: the subclasses of `AppError` with the
message each carries, `RateLimitedError` with its `retry_after`, and the foreign
exceptions that reach callers: Python's `ValueError` and `IndexError`, SQLAlchemy's
`IntegrityError`, `MultipleResultsFound` and `InvalidRequestError`, and `serviceError`
for a call to MySQL, Redis or the storage that did not go through (`OperationalError`,
`DataError`, `ConnectionError`, `ClientError`).
Status codes and stable `code` strings belong to the class, so a constructor
stands for them.
-/

namespace GreenCommunity

inductive AppError where
  | badRequest (message : String)
  | unauthorized (message : String)
  | forbidden (message : String)
  | notFound (message : String)
  | conflict (message : String)
  | rateLimited (message : String) (retryAfter : Int)
  | valueError (message : String)
  | indexError
  | integrityError
  | multipleResultsFound
  | invalidRequestError
  | storageNotConfigured
  | serviceError
  deriving DecidableEq, Repr

end GreenCommunity
