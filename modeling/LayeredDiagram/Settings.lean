import LayeredDiagram.Log.Report
import LayeredDiagram.Number.Reader
import LayeredDiagram.Schema.Basic

namespace LayeredDiagram

structure Settings where
  environment : String := "development"
  port : Float := 8420
  logLevel : String := "info"
  canvasWidth : Float := 960
  canvasHeight : Float := 640
  defaultKind : String := "process"
  -- Derived from the size of the graph where there is none.
  cap : Option Float := none

namespace Settings

open Schema (numeral listed text withDefault optional)

-- A whole number within bounds, read from the beginning of the text.
def integer (default : String) (least most : Nat) : Schema :=
  numeral (some default) Number.leadingInteger [.whole, .atLeast least, .atMost most]

def environments : List String := ["development", "production", "test"]

-- The environment variables that are read.
def schema : Schema :=
  .object [
    ("PORT", integer "8420" 1 65535),
    ("NODE_ENV", withDefault (listed environments) (.str "development")),
    ("LOG_LEVEL", withDefault (listed (Log.Level.all.map (·.name))) (.str "info")),
    ("FIGURE_CANVAS_WIDTH", integer "960" 1 10000),
    ("FIGURE_CANVAS_HEIGHT", integer "640" 1 10000),
    ("FIGURE_DEFAULT_NODE_TYPE", withDefault (text [.atLeast 1, .atMost 100]) (.str "process")),
    ("LAYOUT_MAX_ITERATIONS",
      optional (numeral none Number.leadingInteger [.whole, .atLeast 1]))]

def ofJson (j : Json) : Settings :=
  { environment := j.text "NODE_ENV"
    port := j.number "PORT"
    logLevel := j.text "LOG_LEVEL"
    canvasWidth := j.number "FIGURE_CANVAS_WIDTH"
    canvasHeight := j.number "FIGURE_CANVAS_HEIGHT"
    defaultKind := j.text "FIGURE_DEFAULT_NODE_TYPE"
    cap := (j.get? "LAYOUT_MAX_ITERATIONS").bind Json.number? }

def issueValue (i : Issue) : Json :=
  .obj [("path", .str i.place), ("message", .str i.message)]

def invalid (issues : List Issue) : Log.Event :=
  { module := "config", level := .error, message := "Invalid configuration"
    fields := [("issues", .json (.arr (issues.map issueValue)))] }

def refusal (issues : List Issue) : Fault :=
  .configuration ("Invalid configuration: " ++
    ", ".intercalate (issues.map fun i => i.place ++ ": " ++ i.message))

-- The variables as they are understood.
def readVariables (env : Json) : Log.Report Json :=
  match schema.validate (some env) with
  | .ok j => pure j
  | .error issues => ⟨[invalid issues], .error (refusal issues)⟩

def load (env : Json) : Log.Report Settings := do
  return ofJson (← readVariables env)

def isProduction (s : Settings) : Bool :=
  s.environment == "production"

def capJson (s : Settings) : Record Json :=
  Json.optional "maxIterations" (s.cap.map .num)

def figureJson (s : Settings) : Json :=
  .obj [("canvasWidth", .num s.canvasWidth), ("canvasHeight", .num s.canvasHeight),
    ("defaultNodeType", .str s.defaultKind)]

def toJson (s : Settings) : Json :=
  .obj [
    ("env", .str s.environment),
    ("isProduction", .bool s.isProduction),
    ("isTest", .bool (s.environment == "test")),
    ("server", .obj [("port", .num s.port)]),
    ("logging", .obj [("level", .str s.logLevel)]),
    ("figure", s.figureJson),
    ("layout", .obj s.capJson)]

-- For diagnostics: a missing cap is named.
def summary (s : Settings) : Json :=
  .obj [
    ("environment", .str s.environment),
    ("server", .obj [("port", .num s.port)]),
    ("logging", .obj [("level", .str s.logLevel)]),
    ("figure", s.figureJson),
    ("layout", .obj [("maxIterations", (s.cap.map Json.num).getD (.str "auto"))])]

end Settings

end LayeredDiagram
