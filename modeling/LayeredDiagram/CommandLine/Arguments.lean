import LayeredDiagram.Json.Writer

namespace LayeredDiagram.CommandLine

inductive Opt where
  | out
  | width
  | height
deriving DecidableEq, Repr

namespace Opt

def all : List Opt := [out, width, height]

def name : Opt → String
  | out => "out"
  | width => "width"
  | height => "height"

def label : Opt → String
  | out => "-o, --out"
  | o => "--" ++ o.name

def ofName? (name : String) : Option Opt :=
  all.find? (·.name == name)

end Opt

inductive ArgumentError where
  | unknown (written : String)
  | missing (o : Opt)
  -- What follows the option looks like an option itself.
  | ambiguous (o : Opt) (written : String)
deriving DecidableEq, Repr

namespace ArgumentError

def message : ArgumentError → String
  | unknown written =>
    "Unknown option '" ++ written ++ "'. To specify a positional argument starting with a '-', " ++
      "place it at the end of the command after '--', as in '-- " ++ Json.quote "" written
  | missing o => "Option '" ++ o.label ++ " <value>' argument missing"
  | ambiguous o written =>
    let remedy :=
      if "--".isPrefixOf written then "'" ++ written ++ "=-XYZ'"
      else "'--" ++ o.name ++ "=-XYZ' or '" ++ written ++ "-XYZ'"
    "Option '" ++ written ++ "' argument is ambiguous.\n" ++
      "Did you forget to specify the option argument for '" ++ written ++ "'?\n" ++
      "To specify an option argument starting with a dash use " ++ remedy ++ "."

end ArgumentError

structure Arguments where
  positionals : List String := []
  out : Option String := none
  width : Option String := none
  height : Option String := none
deriving DecidableEq, Repr

namespace Arguments

def set (a : Arguments) (o : Opt) (value : String) : Arguments :=
  match o with
  | .out => { a with out := some value }
  | .width => { a with width := some value }
  | .height => { a with height := some value }

end Arguments

-- What a single argument is on its own.
inductive Form where
  | positional
  -- An option by the name that it is written with, and a value that is attached to it.
  | option (o : Option Opt) (written : String) (value : Option String)
deriving DecidableEq, Repr

-- A value may be attached to the one short option; every other one is unknown from its first
-- unit on.
def shortForm (c : Char) (attached : List Char) : Form :=
  .option (if c == 'o' then some .out else none) (String.ofList ['-', Text.firstUnit c])
    (if attached.isEmpty then none else some (String.ofList attached))

-- A value follows the first equals sign; a sign that would leave no name belongs to it instead.
def longForm (cs : List Char) : Form :=
  if (cs.drop 1).contains '=' then
    let name := String.ofList (cs.takeWhile (· != '='))
    let value := String.ofList ((cs.dropWhile (· != '=')).drop 1)
    .option (Opt.ofName? name) ("--" ++ name) (some value)
  else
    let name := String.ofList cs
    .option (Opt.ofName? name) ("--" ++ name) none

def Form.of (arg : String) : Form :=
  match arg.toList with
  | '-' :: '-' :: c :: cs => longForm (c :: cs)
  | '-' :: c :: cs => if c == '-' then .positional else shortForm c cs
  | _ => .positional

def looksLikeOption (value : String) : Bool :=
  match value.toList with
  | '-' :: _ :: _ => true
  | _ => false

namespace Arguments

-- Positionals so far stand in reverse.
def read (a : Arguments) : List String → Except ArgumentError Arguments
  | [] => .ok { a with positionals := a.positionals.reverse }
  | arg :: rest =>
    if arg == "--" then .ok { a with positionals := a.positionals.reverse ++ rest }
    else match Form.of arg with
      | .positional => read { a with positionals := arg :: a.positionals } rest
      | .option none written _ => .error (.unknown written)
      | .option (some o) _ (some value) => read (a.set o value) rest
      | .option (some o) written none =>
        match rest with
        | [] => .error (.missing o)
        | value :: rest =>
          if looksLikeOption value then .error (.ambiguous o written)
          else read (a.set o value) rest

-- Options may stand anywhere, `--` ends them, and the last of a repeated option counts. The first
-- argument that is wrong is reported.
def ofArgs (args : List String) : Except ArgumentError Arguments :=
  read {} args

-- The document that the schema of the command line speaks of. Positionals after the first are
-- passed over.
def toJson (a : Arguments) : Json :=
  .obj (Json.optional "spec" (a.positionals.head?.map .str) ++
    Json.optional "out" (a.out.map .str) ++
    Json.optional "width" (a.width.map .str) ++
    Json.optional "height" (a.height.map .str))

end Arguments

end LayeredDiagram.CommandLine
