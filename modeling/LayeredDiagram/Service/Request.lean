import LayeredDiagram.Fault
import LayeredDiagram.Number.Reader
import LayeredDiagram.Service.Path

namespace LayeredDiagram.Service

inductive Body where
  | none
  | text (s : String)
  -- Reading it fails.
  | broken (f : Fault)

structure Request where
  method : String := "GET"
  -- Without its query.
  path : String
  headers : List (String × String) := []
  body : Body := .none

namespace Request

-- Methods that are known in any case.
def methods : List String := ["DELETE", "GET", "HEAD", "OPTIONS", "POST", "PUT"]

def canonicalMethod (method : String) : String :=
  if methods.contains method.toUpper then method.toUpper else method

def ofTarget (method target : String) (headers : List (String × String)) (body : Body) : Request :=
  { method := canonicalMethod method, path := Path.ofTarget target, headers, body }

def isHeaderSpace (c : Char) : Bool :=
  c == ' ' || c == '\t' || c == '\n' || c == '\r'

def trimHeader (value : String) : String :=
  String.ofList
    ((value.toList.dropWhile isHeaderSpace).reverse.dropWhile isHeaderSpace).reverse

-- Names compare without case; values given several times are joined.
def header? (r : Request) (name : String) : Option String :=
  match r.headers.filter (·.1.toLower == name.toLower) with
  | [] => Option.none
  | found => some (", ".intercalate (found.map (trimHeader ·.2)))

-- Identifiers that callers may choose for their requests.
def isRequestId (id : String) : Bool :=
  let cs := id.toList
  Text.isIdentifier cs && cs.length ≤ 64

def idOr (r : Request) (generated : String) : String :=
  ((r.header? "X-Request-Id").filter isRequestId).getD generated

def isApi (r : Request) : Bool :=
  r.path == "/api" || "/api/".isPrefixOf r.path

def maxBodyBytes : Nat := 1024 * 1024

def bodyBytes (r : Request) : Nat :=
  match r.body with
  | .text s => (Text.toCharacters s).utf8ByteSize
  | _ => 0

def hasBody (r : Request) : Bool :=
  match r.body with
  | .none => false
  | _ => true

-- A declared length is believed, unless the body comes in chunks.
def isTooLarge (r : Request) : Bool :=
  match r.header? "Content-Length", r.header? "Transfer-Encoding" with
  | some length, Option.none =>
    Float.ofNat maxBodyBytes < Number.leadingInteger length.toList
  | _, _ => maxBodyBytes < r.bodyBytes

end Request

end LayeredDiagram.Service
