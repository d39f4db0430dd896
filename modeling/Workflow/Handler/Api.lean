import Workflow.Json.Reader
import Workflow.Text.Capital
import Workflow.Work

/-!
# Requests

A request for each action. The parameters give the address, the method and what goes with the
request; the response's data are stored under a name. A response that is no JSON document is taken
as text.
-/
namespace Workflow.Api

open Text

structure Request where
  method : String
  address : String
  body : Value
  query : Value
  headers : Value
  timeout : Value

/-- A response; `refused` is the error of a status that is none of success. -/
structure Response where
  status : Value
  text : String := ""
  refused : Option Raised := none

/-- How the host carries out requests. -/
abbrev Transport (μ : Type) := Request → Work μ (Except Raised Response)

/-- The address below which relative ones lie, and how long a request may take; mirrors
`ApiHandler.__init__`. -/
structure Settings where
  base : String := ""
  timeout : Value := .float 10.0

/-- The name under which requests are sent. -/
def agent : String := "workflow-runtime"

/-- The headers of a session with the agent's name added, unless it is there. -/
def sessionHeaders (headers : Fields Value) : Fields Value :=
  if headers.has "User-Agent" then headers else headers.set "User-Agent" (.str agent)

def requestEntry (method url : String) : Log.Entry where
  level := .debug
  source := .api
  message := "API action request"
  extra := [("method", .str method), ("url", .str url)]

/-- The characters without slashes in front. -/
def trimSlashes (cs : List Char) : List Char := cs.dropWhile (· = '/')

/-- The base without slashes behind it. -/
def Settings.root (s : Settings) : String :=
  String.ofList (trimSlashes s.base.toList.reverse).reverse

/-- Does an address name its scheme? -/
def isAbsolute (url : String) : Bool := url.startsWith "http://" || url.startsWith "https://"

/-- The address that a request goes to; mirrors `ApiHandler._url`. -/
def address (s : Settings) (url : String) : String :=
  if s.root = "" ∨ isAbsolute url then url
  else s.root ++ "/" ++ String.ofList (trimSlashes url.toList)

def noAddress : Raised := ⟨"ValueError", "'url' is required"⟩

def method (params : Fields Value) : String :=
  capitals ((params.getD "method").orElse (.str "GET")).plainText

/-- The request that parameters describe; mirrors `ApiHandler._request`. -/
def request (s : Settings) (params : Fields Value) (url : String) : Request where
  method := method params
  address := address s url
  body := params.getD "json"
  query := params.getD "query"
  headers := params.getD "headers"
  timeout := s.timeout

def data (text : String) : Value :=
  if text = "" then .null
  else match Json.read text with
    | .ok v => v
    | .error _ => .str text

def result (params : Fields Value) (r : Response) : Outcome :=
  match r.refused with
  | some e => .error e
  | none =>
    .ok (.obj [(((params.getD "resultKey").orElse (.str "api")).plainText,
      .obj [("success", .bool true), ("status", r.status), ("data", data r.text)])])

variable {μ : Type}

/-- Carries out the request that parameters describe; mirrors `ApiHandler.execute`. -/
def run (s : Settings) (transport : Transport μ) (params : Fields Value) : Work μ Outcome :=
  match params.getD "url" with
  | .str url =>
    if (trim url).isEmpty then .finish (.error noAddress)
    else .log (requestEntry (method params) url) <|
      (transport (request s params url)).map fun r => r.bind (result params)
  | _ => .finish (.error noAddress)

end Workflow.Api
