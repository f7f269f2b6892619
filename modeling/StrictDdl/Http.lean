import StrictDdl.Conversion
import StrictDdl.Http.Encoding
import StrictDdl.Json.Reader

/-! The conversions over HTTP: requests and the answers to them.

Each conversion is a path that takes a JSON object by `POST`; two more paths tell that
the service is there. A body that is no JSON, or not of the shape that the path asks
for, is answered with all that is wrong with it. -/
namespace StrictDdl.Http

/-- The name, version and date under which the service presents itself. -/
def serviceName : String := "DDL Translator"

def version : String := "0.3.0"

def buildDate : String := "2026-10-12"

/-- What is sent with a request. -/
inductive Body where
  | none
  | value (j : Json)
  | text (s : String)

structure Request where
  method : String
  path : String
  body : Body

inductive Response where
  | json (status : Nat) (body : Json)
  /-- A body of the wrong shape. -/
  | invalid (problems : List Problem)
  | text (status : Nat) (body : String)

/-! ### Routes -/

inductive Route where
  | root
  | health
  | toDdl
  | toDocument
  | render
  deriving DecidableEq

namespace Route

def paths : List (String × Route) :=
  [("/", .root), ("/health", .health), ("/api/v1/translate/ddl", .toDdl),
   ("/api/v1/translate/schema", .toDocument), ("/api/v1/render/ddl", .render)]

def method : Route → String
  | .root => "GET"
  | .health => "GET"
  | _ => "POST"

/-- A path without the query behind it. -/
def withoutQuery (path : String) : String :=
  String.ofList (path.toList.takeWhile fun c => c ≠ '?' ∧ c ≠ '#')

/-- A path without slashes at the end. -/
def withoutSlashes (path : String) : String :=
  String.ofList (path.toList.reverse.dropWhile (· = '/')).reverse

/-- The route of a path; slashes at the end make no difference. -/
def find? (path : String) : Option Route :=
  let path := withoutQuery path
  (paths.lookup path).or (paths.lookup (withoutSlashes path))

end Route

/-! ### Bodies -/

def detail (status : Nat) (text : String) : Response :=
  .json status (.obj [("detail", .str text)])

/-- The most arrays and objects that may stand in one another in a body. -/
def bodyDepth : Nat := 960

/-- The value in a body; `null` stands for none. -/
def readBody : Body → Except Response Json
  | .none => .ok .null
  | .value j => .ok j
  | .text s =>
    let unreadable := detail 400 "There was an error parsing the body"
    if s = "" then .ok .null
    else
      match Encoding.decode s with
      | none => .error unreadable
      | some cs =>
        match Json.readWithin bodyDepth cs with
        | .ok j => .ok j
        | .error (.malformed offset) =>
          .error (.invalid [⟨["body", writeNat offset], "json_invalid"⟩])
        | .error _ => .error unreadable

/-- A parse tree: an object or an array. -/
def readTree : Json → Lenient Json
  | .obj ms => .ok (.obj ms)
  | .arr items => .ok (.arr items)
  | _ => .refused [⟨["dict[str,any]"], "dict_type"⟩, ⟨["list[any]"], "list_type"⟩]

def readDocument : Json → Lenient Json
  | .obj ms => .ok (.obj ms)
  | _ => Lenient.refuse "dict_type"

/-- The only field of a body. -/
def readField (key : String) (read : Json → Lenient Json) (body : Json) : Lenient Json :=
  (match body with
    | .null => Lenient.refuse "missing"
    | .obj ms =>
      match Members.find? ms key with
      | some j => (read j).under key
      | none => (Lenient.refuse "missing").under key
    | _ => Lenient.refuse "model_attributes_type").under "body"

/-! ### Answers -/

def internalError : Response := .text 500 "Internal Server Error"

/-- The kind of a fault as answers name it. -/
def faultName : Fault → Option String
  | .structural .. => some "StructuralError"
  | .invalidDocument _ => some "StructuralError"
  | .cyclic _ => some "CyclicReferenceError"
  | .unsupported .. => some "UnsupportedConstructError"
  | .unrenderable .. => some "UnrenderableExpressionError"
  | _ => none

/-- The entity of a fault as answers carry it. -/
def faultEntity : Fault → Json
  | .structural entity _ => entity
  | .invalidDocument _ => .str "document"
  | _ => .null

/-- The answer to a request that ends with a fault: faults of the input are told, any
other is an error of the service. -/
def faulty (f : Fault) : Response :=
  match faultName f, faultEntity f with
  | none, _ => internalError
  | some name, entity =>
    let status := match f with
      | .unsupported .. => 400
      | .unrenderable .. => 400
      | _ => 422
    let answer : Response := .json status (.obj [("detail",
      .obj [("error", .str name), ("detail", .str f.message), ("entity", entity)])])
    match entity with
    | .null => answer
    | .str _ => answer
    | _ => internalError

/-- The answer with the result of a conversion. The members of an output are values
of no particular type. -/
def converted {α : Type} (output : α → Json) (outcome : Read (Converted α)) : Response :=
  match outcome with
  | .ok c =>
    let output := output c.output
    if output.levels > Nesting.limit + 1 then internalError
    else .json 200 (Json.finite (.obj [("output", output),
      ("markers", .arr (c.markers.map Marker.toJson))]))
  | .error f => faulty f

/-- The answer to a request for a conversion; without settings there is no service. -/
def convert (settings? : Option Settings) (field : Lenient Json)
    (answer : Settings → Json → Response) : Response :=
  match settings? with
  | none => detail 500 "Translation service not initialized"
  | some settings =>
    match field with
    | .refused problems => .invalid problems
    | .ok input => answer settings input

def scriptText (s : Ddl.Script) : Json := .str s.text

/-- The answer of a route. -/
def serve (settings? : Option Settings) (r : Route) (body : Body) : Response :=
  let withBody (answer : Json → Response) : Response :=
    match readBody body with
    | .error response => response
    | .ok j => answer j
  match r with
  | .root =>
    .json 200 (.obj [("service", .str serviceName), ("version", .str version),
      ("build_date", .str buildDate), ("status", .str "running"), ("docs", .str "/docs")])
  | .health => .json 200 (.obj [("status", .str "ok"), ("version", .str version)])
  | .toDdl => withBody fun j =>
    convert settings? (readField "ast" readTree j) fun settings tree =>
      converted scriptText (Convert.toDdl settings tree).outcome
  | .toDocument => withBody fun j =>
    convert settings? (readField "ast" readTree j) fun settings tree =>
      converted Document.toJson (Convert.toDocument settings tree).outcome
  | .render => withBody fun j =>
    convert settings? (readField "document" readDocument j) fun settings document =>
      converted scriptText (Convert.render settings document).outcome

/-- A request by `HEAD` is answered without a body. -/
def withoutBody : Response → Response
  | .json status _ => .text status ""
  | .invalid _ => .text 422 ""
  | .text status _ => .text status ""

/-- The answer to a request. -/
def respond (settings? : Option Settings) (request : Request) : Response :=
  let method := LetterCase.upper request.method
  let answer := match Route.find? request.path with
    | none => detail 404 "Not Found"
    | some route =>
      if method = route.method then serve settings? route request.body
      else detail 405 "Method Not Allowed"
  if method = "HEAD" then withoutBody answer else answer

end StrictDdl.Http
