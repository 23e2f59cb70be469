import LayeredDiagram.CommandLine.Run
import LayeredDiagram.Log.Logger
import LayeredDiagram.Log.Timestamp
import Std.Time.DateTime.Timestamp

namespace LayeredDiagram.CommandLine

open Log (Event Journal Level)

def fileError (path : String) : IO.Error → FileError
  | .noFileOrDirectory .. => .missing path
  | .permissionDenied .. => .denied path
  | e => .other (toString e)

def readText (path : String) : IO (Except FileError String) := do
  match ← (IO.FS.readFile (Text.toCharacters path)).toBaseIO with
  | .ok text => return .ok (Text.ofCharacters text)
  | .error (.inappropriateType ..) => return .error .folder
  | .error e => return .error (fileError path e)

def writeText (path text : String) : IO (Except FileError Unit) := do
  let stored := Text.toCharacters text
  match ← (IO.FS.writeFile (Text.toCharacters path) stored).toBaseIO with
  | .ok _ => return .ok ()
  | .error (.inappropriateType ..) => return .error (.folderOpened path)
  | .error e => return .error (fileError path e)

-- Log lines carry the time at which they are written and how long the command has run.
def writeEvent (threshold : Level) (started : Nat) (e : Event) : IO Unit := do
  let now ← Std.Time.Timestamp.now
  let elapsed := (← IO.monoMsNow) - started
  let journal : Journal :=
    { threshold, timestamp := Log.Timestamp.text now.toMillisecondsSinceUnixEpoch.val.toNat
      elapsed := Float.ofNat elapsed }
  for line in journal.lines none [e] do
    match line.channel with
    | .log => IO.println (Text.toCharacters line.text)
    | _ => IO.eprintln (Text.toCharacters line.text)

-- The command on a real machine: files, streams and the clock.
def machine (threshold : Level) (started : Nat) : Host IO :=
  { read := readText
    write := writeText
    stdout := fun line => IO.println (Text.toCharacters line)
    stderr := fun line => IO.eprintln (Text.toCharacters line)
    log := writeEvent threshold started }

def settingNames : List String :=
  ["PORT", "NODE_ENV", "LOG_LEVEL", "FIGURE_CANVAS_WIDTH", "FIGURE_CANVAS_HEIGHT",
    "FIGURE_DEFAULT_NODE_TYPE", "LAYOUT_MAX_ITERATIONS"]

def environment : IO Json := do
  let found ← settingNames.filterMapM fun name => do
    return (← IO.getEnv name).map fun value => (name, Json.str (Text.ofCharacters value))
  return .obj found

end LayeredDiagram.CommandLine

open LayeredDiagram CommandLine in
def main (args : List String) : IO UInt32 := do
  let started ← IO.monoMsNow
  let report := Settings.load (← environment)
  match report.outcome with
  | .error f =>
    report.events.forM (writeEvent .info started)
    IO.eprintln f.message
    return 1
  | .ok settings =>
    let threshold := (Log.Level.ofName? settings.logLevel).getD .info
    let code ← run (machine threshold started) settings (args.map Text.ofCharacters)
    return code.toUInt32
