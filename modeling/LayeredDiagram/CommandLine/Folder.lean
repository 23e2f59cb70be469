import LayeredDiagram.CommandLine.Run

namespace LayeredDiagram.CommandLine

open Log (Event)

-- Where paths begin: so many levels above the folder, or at the root of all folders.
inductive Anchor where
  | above (levels : Nat)
  | root
deriving DecidableEq, Repr

-- A place by the names that lead to it.
structure Place where
  anchor : Anchor := .above 0
  names : List String := []
deriving DecidableEq, Repr

namespace Place

-- One level up. Nothing is above the root.
def up (p : Place) : Place :=
  match p.names, p.anchor with
  | [], .above levels => { anchor := .above (levels + 1) }
  | [], .root => p
  | names, anchor => { anchor, names := names.dropLast }

def walk (p : Place) (name : String) : Place :=
  if name == "" || name == "." then p
  else if name == ".." then p.up
  else { p with names := p.names ++ [name] }

-- Where a path begins that is followed from within the folder.
def start (path : String) : Place :=
  if "/".isPrefixOf path then { anchor := .root } else {}

-- Whatever is written there is gone, and nothing is read.
def sink : Place := { anchor := .root, names := ["dev", "null"] }

end Place

-- Nothing is known outside but the folders above, those at the root, and the sink.
structure Folder where
  files : List (Place × String) := []
  -- By the names that lead to them.
  folders : List (List String) := []

namespace Folder

def rootFolders : List String :=
  ["bin", "dev", "etc", "home", "lib", "opt", "proc", "root", "sbin", "sys", "tmp", "usr", "var"]

def nameLimit : Nat := 255

def pathLimit : Nat := 4095

def names (path : String) : List String :=
  ((Text.mended path).toList.splitOn '/').map String.ofList

def isFolder (d : Folder) (p : Place) : Bool :=
  p.names.isEmpty || match p.anchor with
    | .above 0 => d.folders.any fun f => p.names.isPrefixOf f
    | .above _ => false
    | .root => rootFolders.any fun name => p.names == [name]

def content? (d : Folder) (p : Place) : Option String :=
  if p == .sink then some "" else (d.files.find? (·.1 == p)).map (·.2)

def put (d : Folder) (p : Place) (text : String) : Folder :=
  let text := Text.mended text
  if p == .sink then d
  else if d.files.any (·.1 == p) then
    { d with files := d.files.map fun e => if e.1 == p then (p, text) else e }
  else { d with files := d.files ++ [(p, text)] }

-- One name further on the way to a path, which only leads through folders.
def step (d : Folder) (path : String) (p : Place) (name : String) : Except FileError Place :=
  if d.isFolder p then
    if nameLimit < (Text.toCharacters name).utf8ByteSize then .error (.tooLong path)
    else .ok (p.walk name)
  else if (d.content? p).isSome then .error (.notFolder path)
  else .error (.missing path)

-- Where names lead that are followed from the start of a path.
def locate (d : Folder) (path : String) (names : List String) : Except FileError Place :=
  if path.isEmpty then .error (.missing path)
  else if path.toList.contains '\x00' then .error (.unnameable path)
  else if pathLimit < (Text.toCharacters path).utf8ByteSize then .error (.tooLong path)
  else names.foldlM (d.step path) (.start path)

def place (path : String) : Place :=
  (names path).foldl Place.walk (.start path)

def read (d : Folder) (path : String) : Except FileError String := do
  let p ← d.locate path (names path)
  if d.isFolder p then .error .folder
  else match d.content? p with
    | some text => .ok text
    | none => .error (.missing path)

-- The path without the slashes at its end.
def withoutSlashes (path : String) : String :=
  String.ofList (path.toList.reverse.dropWhile (· == '/')).reverse

-- A path with a slash at its end names a folder, whether there is one or not.
def write (d : Folder) (path text : String) : Except FileError Folder := do
  let p ← d.locate path (names (withoutSlashes path))
  if d.isFolder p || path.toList.getLast? == some '/' then .error (.folderOpened path)
  else .ok (d.put p text)

end Folder

inductive Utterance where
  | stdout (line : String)
  | stderr (line : String)
  | log (e : Event)

-- A place to run the command: a folder in memory, and a transcript of what is said.
structure Desk where
  folder : Folder
  transcript : List Utterance := []

namespace Desk

def hear (u : Utterance) : StateM Desk Unit :=
  modify fun d => { d with transcript := d.transcript ++ [u] }

def write (path text : String) : StateM Desk (Except FileError Unit) := do
  let d ← get
  match d.folder.write path text with
  | .error e => return .error e
  | .ok folder =>
    set { d with folder }
    return .ok ()

def host : Host (StateM Desk) :=
  { read := fun path => return (← get).folder.read path
    write
    stdout := fun line => hear (.stdout line)
    stderr := fun line => hear (.stderr line)
    log := fun e => hear (.log e) }

end Desk

-- One run of the command in a folder: its exit code, what it said, and the folder after it.
def runIn (folder : Folder) (s : Settings) (args : List String) : Nat × Desk :=
  (run Desk.host s args).run { folder }

end LayeredDiagram.CommandLine
