import Pubky.Homeserver.Sql
import Pubky.Lib.Text

/-!
# HTTP headers and errors

`shared/http_error.rs`, and what the handlers look up in the headers of a request.
-/

namespace Pubky.Homeserver

/-- The error answer of a handler. -/
structure HttpError where
  status : ℕ
  detail : Option Text
  retryAfterSecs : Option ℕ
  deriving DecidableEq, Repr

namespace HttpError

def newWithMessage (status : ℕ) (message : Text) : HttpError :=
  ⟨status, some message, none⟩

def notFound : HttpError := newWithMessage 404 "Not Found".toList

def internalServer : HttpError := newWithMessage 500 "Internal server error".toList

def badRequest (message : Text) : HttpError := newWithMessage 400 message

def insufficientStorage : HttpError := newWithMessage 507 "Disk space quota exceeded".toList

def forbiddenWithMessage (message : Text) : HttpError := newWithMessage 403 message

def unauthorized : HttpError := newWithMessage 401 "Unauthorized".toList

def unauthorizedWithMessage (message : Text) : HttpError := newWithMessage 401 message

def conflict (message : Text) : HttpError := newWithMessage 409 message

def locked : HttpError := newWithMessage 423 "Resource is locked".toList

def lockTokenMismatch : HttpError :=
  newWithMessage 412 "The If header does not name the live lock on this path".toList

def tooManyRequests (message : Text) (retryAfterSecs : ℕ) : HttpError :=
  { newWithMessage 429 message with retryAfterSecs := some retryAfterSecs }

/-- Any `sqlx::Error` is answered alike. -/
def ofSql (_ : SqlError) : HttpError := internalServer

end HttpError

/-- The header fields in order, their names in lower case. A value is given as
`HeaderValue::to_str` shows it: `none` if it is not made of visible ASCII characters. -/
structure HeaderMap where
  fields : List (Text × Option Text)
  deriving DecidableEq, Repr

namespace HeaderMap

def getAll (h : HeaderMap) (name : String) : List (Option Text) :=
  (h.fields.filter fun f => f.1 = name.toList).map Prod.snd

/-- `get(name)` followed by `to_str().ok()` -/
def getStr (h : HeaderMap) (name : String) : Option Text :=
  (h.getAll name).head?.join

end HeaderMap

/-- The answer of a handler that succeeds. -/
structure Response where
  status : ℕ
  headers : List (Text × Text)
  body : Text
  deriving DecidableEq, Repr

/-- An answer that consists of its status. -/
def Response.ofStatus (status : ℕ) : Response := ⟨status, [], []⟩

end Pubky.Homeserver
