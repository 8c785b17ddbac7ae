import Typings.Crash
import Typings.Data.Reader

/-! # Requests and replies

The content model is served page by page. A client asks for a page, and gets an answer with a status
and a body, or no answer at all.
-/

namespace Typings

/-- One request: an address, which part of the list is asked for, and how long to wait. -/
structure Request where
  url : String
  skip : Nat
  limit : Data
  timeout : Data

inductive Reply where
  | answered (status : Int) (reason : Option String) (body : String)
  | timedOut
  | failed (text : String)
  | crashed (crash : Crash)
  deriving Repr

namespace Reply

/-- The failure of a request that nothing comes back for. -/
def noResponse : String := "no response"

/-- Whether a status reports success: everything but the errors of client and server. -/
def isSuccess (status : Int) : Bool := !(400 ≤ status && status < 600)

/-- The longest integer that a body may hold, in digits. -/
def digitLimit : Nat := 4300

/-- The text of a body; a byte order mark is skipped where there is something after it. -/
def bodyText (body : String) : String :=
  match body.toList with
  | '\ufeff' :: rest => if 3 < body.utf8ByteSize then String.ofList rest else body
  | _ => body

def bodyData? [LoneSurrogates] (body : String) : Option Data := Data.read? (some digitLimit) (bodyText body)

/-- What a failed answer says went wrong: the message in its body, or the reason beside its status.
-/
def complaint [LoneSurrogates] (reason : Option String) (body : String) : String :=
  match (bodyData? body).bind (Data.get? "message") with
  | some (.text message) => message
  | _ => reason.getD ""

end Reply

/-! ## Sessions -/

/-- A session with the server: the token it presents, and how often it was closed. -/
structure Session where
  token : String
  closed : Nat := 0
  deriving Repr

namespace Session

/-- The headers of every request. The token goes nowhere else. -/
def headers (s : Session) : List (String × String) := [
  ("Authorization", "Bearer " ++ s.token),
  ("Content-Type", "application/vnd.contentful.management.v1+json"),
  ("Accept", "application/json")]

def close (s : Session) : Session := { s with closed := s.closed + 1 }

end Session

/-! ## Headers that cannot be sent -/

/-- Why headers cannot be sent. -/
inductive Refusal where
  | invalid (text : String)
  | crashed (crash : Crash)
  deriving DecidableEq, Repr

def Refusal.reply : Refusal → Reply
  | .invalid text => .failed text
  | .crashed crash => .crashed crash

/-- What decides whether headers can be sent. -/
abbrev HeaderCheck := List (String × String) → Option Refusal

namespace HeaderCheck

/-- Lets all headers pass. -/
def passing : HeaderCheck := fun _ => none

end HeaderCheck

/-- What the requests of a session get. Headers that cannot be sent are refused at the first one. -/
def Session.receives (s : Session) (check : HeaderCheck) (replies : List Reply) : List Reply :=
  match check s.headers with
  | none => replies
  | some refusal => refusal.reply :: replies

end Typings
