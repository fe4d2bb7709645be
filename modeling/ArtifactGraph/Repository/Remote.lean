import ArtifactGraph.Repository.Local
import ArtifactGraph.Text.Digits

/-!
# Remote repositories

A remote repository answers requests for the URLs of its POMs.

* `ofUrl?` accepts the base URL, and `pomUrl` is the URL of a POM, in which every character that is
  not plain is written by its bytes.
* `Reply.outcome` says what an answer means: the POM, a failure that may pass, or one that will
  not.
* `fetch` asks until there is an answer that does not call for another request.
-/

namespace ArtifactGraph

/-! ## URLs -/

/-- A character that stands for itself in a URL. -/
def isPlainInUrl (c : Char) : Bool :=
  c.isAlphanum || c == '-' || c == '_' || c == '.' || c == '~'

/-- A byte as it is written in a URL. -/
def urlByte (b : UInt8) : List Char :=
  ['%', Text.capitalDigit (b.toNat / 16), Text.capitalDigit (b.toNat % 16)]

/-- A text as a part of a URL. -/
def urlEncode (s : String) : String :=
  String.ofList (s.toList.flatMap fun c =>
    if isPlainInUrl c then [c] else (String.utf8EncodeChar c).flatMap urlByte)

/-! ## Repositories -/

/-- A repository on the network. -/
structure RemoteRepository where
  /-- The URL of the repository, without a separator at its end. -/
  base : String
  deriving DecidableEq, Repr

namespace RemoteRepository

/-- The repository that is asked when no other is named. -/
def centralUrl : String := "https://repo.maven.apache.org/maven2"

/-- The beginnings of the URLs that can be asked. -/
def schemes : List String := ["https://", "http://"]

/-- Whether a URL has one of these beginnings. -/
def hasScheme (url : String) : Bool := schemes.any fun s => s.toList.isPrefixOf url.toList

/-- The repository of a URL. The separators at its end are cut off before it is looked at. -/
def ofUrl (url : String) : Except String RemoteRepository :=
  let base := String.ofList (url.toList.reverse.dropWhile (· == '/')).reverse
  if hasScheme base then .ok ⟨base⟩
  else .error ("Repository URL must start with http:// or https://: " ++ base)

/-- The URL of a POM. -/
def pomUrl (r : RemoteRepository) (g : Gav) : Except String String :=
  match g.fault? with
  | some fault => .error fault
  | none =>
    let artifact := urlEncode g.artifactId
    let version := urlEncode g.version
    .ok (Text.joinWith "/"
      ([r.base] ++ g.groupNames.map urlEncode ++
        [artifact, version, Gav.pomName artifact version]))

end RemoteRepository

/-! ## Replies -/

/-- An answer to a request. -/
structure Answer where
  status : Nat
  /-- The length that is announced, in bytes. -/
  announced : Option Nat := none
  /-- The bytes that arrive. -/
  body : ByteArray
  /-- Whether these are all bytes of the body, and not those before it broke off. -/
  complete : Bool := true

/-- What comes of a request. -/
inductive Reply where
  /-- There is no answer. -/
  | silence
  | answer (a : Answer)

/-- Why a request does not give a POM. -/
inductive ReplyFault where
  | silence
  | status (code : Nat)
  | tooLong
  | brokenOff
  /-- The body is no text. -/
  | notText
  deriving DecidableEq, Repr

/-- The names of the status codes that have one. -/
def statusNames : List (Nat × String) :=
  [(100, "Continue"), (101, "Switching Protocols"), (102, "Processing"), (103, "Early Hints"),
    (200, "OK"), (201, "Created"), (202, "Accepted"), (203, "Non Authoritative Information"),
    (204, "No Content"), (205, "Reset Content"), (206, "Partial Content"), (207, "Multi-Status"),
    (208, "Already Reported"), (226, "IM Used"), (300, "Multiple Choices"),
    (301, "Moved Permanently"), (302, "Found"), (303, "See Other"), (304, "Not Modified"),
    (305, "Use Proxy"), (307, "Temporary Redirect"), (308, "Permanent Redirect"),
    (400, "Bad Request"), (401, "Unauthorized"), (402, "Payment Required"), (403, "Forbidden"),
    (404, "Not Found"), (405, "Method Not Allowed"), (406, "Not Acceptable"),
    (407, "Proxy Authentication Required"), (408, "Request Timeout"), (409, "Conflict"),
    (410, "Gone"), (411, "Length Required"), (412, "Precondition Failed"),
    (413, "Payload Too Large"), (414, "URI Too Long"), (415, "Unsupported Media Type"),
    (416, "Range Not Satisfiable"), (417, "Expectation Failed"), (418, "I'm a teapot"),
    (421, "Misdirected Request"), (422, "Unprocessable Entity"), (423, "Locked"),
    (424, "Failed Dependency"), (425, "Too Early"), (426, "Upgrade Required"),
    (428, "Precondition Required"), (429, "Too Many Requests"),
    (431, "Request Header Fields Too Large"), (451, "Unavailable For Legal Reasons"),
    (500, "Internal Server Error"), (501, "Not Implemented"), (502, "Bad Gateway"),
    (503, "Service Unavailable"), (504, "Gateway Timeout"), (505, "HTTP Version Not Supported"),
    (506, "Variant Also Negotiates"), (507, "Insufficient Storage"), (508, "Loop Detected"),
    (510, "Not Extended"), (511, "Network Authentication Required")]

/-- A status code with its name. -/
def statusText (code : Nat) : String :=
  toString code ++ " " ++ (statusNames.lookup code).getD "<unknown status code>"

/-- What is said of a reply, if there is more to say than that it gives no POM. -/
def ReplyFault.reason? : ReplyFault → Option String
  | .status code => some ("repository returned status code " ++ statusText code)
  | .tooLong =>
    some ("POM exceeds the maximum allowed size of " ++ toString pomSizeLimit ++ " bytes")
  | .silence => none
  | .brokenOff => none
  | .notText => none

/-- What a reply means. -/
inductive Outcome where
  | found (content : String)
  /-- Another request may have another reply. -/
  | mayPass (fault : ReplyFault)
  | final (fault : ReplyFault)
  deriving DecidableEq, Repr

/-- What the body of an answer means. A body beyond the limit is not read to its end, so it does not
matter whether it breaks off behind the limit. -/
def Answer.bodyOutcome (a : Answer) : Outcome :=
  if a.body.size > pomSizeLimit then .final .tooLong
  else if !a.complete then .mayPass .brokenOff
  else
    match String.fromUTF8? a.body with
    | some content => .found content
    | none => .final .notText

/-- What an answer means. -/
def Answer.outcome (a : Answer) : Outcome :=
  if 500 ≤ a.status && a.status < 600 then .mayPass (.status a.status)
  else if !(200 ≤ a.status && a.status < 300) then .final (.status a.status)
  else if a.announced.any (· > pomSizeLimit) then .final .tooLong
  else a.bodyOutcome

/-- What a reply means. -/
def Reply.outcome : Reply → Outcome
  | .silence => .mayPass .silence
  | .answer a => a.outcome

/-! ## Requests -/

/-- What can be done with a network. -/
structure Network (m : Type → Type) where
  request : String → m Reply
  /-- Lets some milliseconds pass. -/
  wait : Nat → m Unit

/-- The number of requests that are made for a POM. -/
def attemptLimit : Nat := 3

/-- Why a POM was not fetched. -/
inductive FetchFault where
  /-- The triple has no URL. -/
  | noUrl (reason : String)
  | final (url : String) (fault : ReplyFault)
  /-- None of the requests was of use. -/
  | exhausted (url : String) (fault : ReplyFault)
  deriving DecidableEq, Repr

namespace FetchFault

/-- A statement with its reason. -/
def withReason (statement : String) (fault : ReplyFault) : String :=
  match fault.reason? with
  | none => statement
  | some reason => statement ++ ": " ++ reason

def message : FetchFault → String
  | .noUrl reason => reason
  | .final url fault => withReason ("Failed to fetch " ++ url) fault
  | .exhausted url fault =>
    withReason
      ("Failed to fetch " ++ url ++ " after " ++ toString attemptLimit ++ " attempts") fault

end FetchFault

section

variable {m : Type → Type} [Monad m]

/-- Asks for a URL once, with what to do if another request may have another reply. -/
def Network.attempt (net : Network m) (url : String)
    (otherwise : ReplyFault → m (Except FetchFault String)) : m (Except FetchFault String) := do
  match (← net.request url).outcome with
  | .found content => return .ok content
  | .final fault => return .error (.final url fault)
  | .mayPass fault => otherwise fault

/-- Asks for a URL, and again at most `again` times, each time after a longer wait. -/
def Network.fetch (net : Network m) (url : String) : Nat → m (Except FetchFault String)
  | 0 => net.attempt url fun fault => return .error (.exhausted url fault)
  | again + 1 => net.attempt url fun _ => do
    net.wait (200 * (attemptLimit - (again + 1)))
    net.fetch url again

namespace RemoteRepository

/-- Fetches a POM from the repository. -/
def fetch (r : RemoteRepository) (net : Network m) (g : Gav) :
    m (Except FetchFault PomSource) := do
  match r.pomUrl g with
  | .error reason => return .error (.noUrl reason)
  | .ok url => return (← net.fetch url (attemptLimit - 1)).map (⟨url, ·⟩)

/-- Finds a POM in the repository. -/
def locate (r : RemoteRepository) (net : Network m) : Locate m := fun g =>
  return (← r.fetch net g).mapError fun fault => .refused fault.message

end RemoteRepository

end

end ArtifactGraph
