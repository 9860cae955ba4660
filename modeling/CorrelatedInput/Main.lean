import CorrelatedInput.Terminal.Program
import Std.Time.DateTime.Timestamp
/-!
The program on a real machine: it looks at the files that the command may touch, runs the command on
them, and writes those that have changed.
-/
open CorrelatedInput

def pathOf : Place → String
  | "/" :: names => "/" ++ "/".intercalate names
  | names => "/".intercalate names

/-- What is there at a place, and nothing if that cannot be found out. -/
def probePlace (s : Store) (place : Place) : IO Store := do
  if place.isGiven then return s
  try
    let bytes ← IO.FS.readBinFile (pathOf place)
    return s.putFile place bytes
  catch
    | .inappropriateType _ _ _ =>
      return if (s.found place).isSame .directory then s else s.putDirectory place
    | _ => return s

def placesOf (path : String) : List Place :=
  let p := Path.ofText path
  (List.range (p.steps.length + 1)).map fun n => (p.steps.take n).foldl Place.after p.start

def probe (s : Store) (path : String) : IO Store := (placesOf path).foldlM probePlace s

/-- The files beside the settings that the command will write, given the settings. -/
def outputs (args : List String) (settings : Settings) : List String :=
  let named := match Terminal.Invocation.ofArguments args with
    | .ok (.plan _ (some path)) => [path]
    | _ => []
  settings.logging.file.toList ++ named

/-- Writes what a command has changed at some places, a directory before what is in it. -/
def writeBack (before after : Store) (places : List Place) : IO Unit := do
  for place in places do
    if !(before.found place).isSame (after.found place) then
      match after.found place with
      | .nothing => pure ()
      | .directory => IO.FS.createDirAll (pathOf place)
      | .file bytes => IO.FS.writeBinFile (pathOf place) bytes

def main (args : List String) : IO UInt32 := do
  let home : Settings.Home := ⟨← IO.getEnv "XDG_CONFIG_HOME", ← IO.getEnv "HOME"⟩
  let wall ← Std.Time.Timestamp.now
  let location := Settings.location home
  let known ← probe .empty location
  let paths := location :: outputs args (Settings.load home known)
  let store ← paths.foldlM probe known
  let result := Terminal.run args home wall.toMillisecondsSinceUnixEpoch.toInt.toNat store
  IO.sleep (UInt32.ofNat (min result.elapsed 4294967295))
  try
    writeBack store result.store (paths.flatMap placesOf)
  catch e =>
    IO.eprintln ("Error: " ++ toString e)
    return 1
  match result.ending with
  | .printed text =>
    IO.print text
    return 0
  | .failed message =>
    IO.eprintln ("Error: " ++ message)
    return 1
  | .stopped cause =>
    IO.eprintln cause.message
    return 1
  | .refused .help =>
    IO.print Terminal.usage
    return 0
  | .refused .version =>
    IO.print Terminal.version
    return 0
  | .refused refusal =>
    IO.eprintln ("error: " ++ refusal.message ++ "\n\n" ++ Terminal.usage)
    return 2
