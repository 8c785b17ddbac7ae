import Typings.ContentApi.Reply
import Typings.Content.ContentType

/-! # Fetching the content model

All content types of an environment, read page by page. A page tells how many there are in total;
reading goes on where the items read so far end, and stops when they are all read, when a page is
empty or when there is no such number.
-/

namespace Typings

structure Client where
  baseUrl : String := "https://api.contentful.com"
  timeout : Data := .int 30
  pageSize : Data := .int 100

inductive PageFault where
  | timedOut
  | failed (text : String)
  | refused (status : Int) (complaint : String)
  | notData
  | notObject
  | noItems
  | badItem (issues : List Issue)
  | crashed (crash : Crash)
  deriving DecidableEq, Repr

/-- A page: its items as they were sent, their content types, and the total it states. -/
structure Page where
  items : List Data
  contentTypes : List ContentType
  total : Option Int

namespace Page

/-- A total, as data gives it; a boolean counts as one or zero. -/
def totalOf : Data → Option Int
  | .int n => some n
  | .bool b => some (if b then 1 else 0)
  | _ => none

/-- The content types that items describe, up to the first that describes none. -/
def readItems : List Data → Except PageFault (List ContentType)
  | [] => .ok []
  | d :: rest =>
    match ContentType.ofData d with
    | .rejected issues => .error (.badItem issues)
    | .accepted ct => (readItems rest).map (ct :: ·)

def ofObject (d : Data) : Except PageFault Page :=
  match d.get? "items" with
  | some (.list items) => do
    return ⟨items, ← readItems items, (d.get? "total").bind totalOf⟩
  | _ => .error .noItems

def ofBody [LoneSurrogates] (body : String) : Except PageFault Page :=
  match Reply.bodyData? body with
  | none => .error .notData
  | some (.object members) => ofObject (.object members)
  | some _ => .error .notObject

def ofReply [LoneSurrogates] : Reply → Except PageFault Page
  | .timedOut => .error .timedOut
  | .failed text => .error (.failed text)
  | .crashed crash => .error (.crashed crash)
  | .answered status reason body =>
    if Reply.isSuccess status then ofBody body
    else .error (.refused status (Reply.complaint reason body))

/-- Whether the list ends with this page, once it has been read up to `skip`. -/
def isLast (p : Page) (skip : Nat) : Bool :=
  p.items.isEmpty ||
    match p.total with
    | some total => total ≤ skip
    | none => true

end Page

/-- Why fetching failed: the fault of a page, and the address it was asked from. -/
structure FetchFault where
  url : String
  fault : PageFault
  deriving DecidableEq, Repr

def issuesText : String := "<validation>"

def FetchFault.message (f : FetchFault) : String :=
  match f.fault with
  | .timedOut => "Request timed out: GET " ++ f.url
  | .failed text => "Request failed: GET " ++ f.url ++ ": " ++ text
  | .refused status complaint => "GET " ++ f.url ++ " returned HTTP " ++ toString status ++ ": " ++ complaint
  | .notData => "GET " ++ f.url ++ " returned a non-JSON body"
  | .notObject => "GET " ++ f.url ++ " returned an unexpected payload"
  | .noItems => "Unexpected response from " ++ f.url ++ ": missing 'items' list"
  | .badItem _ => "Invalid content type in response from " ++ f.url ++ ": " ++ issuesText
  | .crashed crash => crash.text

/-- A fetch: what it read or why it failed, the requests it made, and the replies it left. -/
structure Fetch where
  result : Except FetchFault (List ContentType)
  requests : List Request
  left : List Reply

namespace Client

def trimSlashes (s : String) : String :=
  String.ofList (s.toList.reverse.dropWhile (· == '/')).reverse

/-- The base address without slashes at its end. -/
def base (c : Client) : String := trimSlashes c.baseUrl

def url (c : Client) (space environment : String) : String :=
  c.base ++ "/spaces/" ++ space ++ "/environments/" ++ environment ++ "/content_types"

/-- Reads on from `skip`, with the content types read before. -/
def readFrom [LoneSurrogates] (c : Client) (url : String) (skip : Nat) (before : List ContentType) : List Reply → Fetch
  | [] => ⟨.error ⟨url, .failed Reply.noResponse⟩, [⟨url, skip, c.pageSize, c.timeout⟩], []⟩
  | reply :: rest =>
    let request : Request := ⟨url, skip, c.pageSize, c.timeout⟩
    match Page.ofReply reply with
    | .error fault => ⟨.error ⟨url, fault⟩, [request], rest⟩
    | .ok page =>
      let all := before ++ page.contentTypes
      let next := skip + page.items.length
      if page.isLast next then ⟨.ok all, [request], rest⟩
      else
        let further := c.readFrom url next all rest
        ⟨further.result, request :: further.requests, further.left⟩

def fetch [LoneSurrogates] (c : Client) (space environment : String) (replies : List Reply) : Fetch :=
  c.readFrom (c.url space environment) 0 [] replies

end Client

end Typings
