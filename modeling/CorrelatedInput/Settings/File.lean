import CorrelatedInput.Settings.Text
import CorrelatedInput.Storage.Store
/-!
The settings file: where it is, and what holds when it is not there or cannot be read.
-/
namespace CorrelatedInput.Settings

/-- What the environment says about the user's directories. -/
structure Home where
  /-- The directory for settings, if one is named. -/
  configuration : Option String
  home : Option String
deriving DecidableEq, Repr

def location (h : Home) : String :=
  let directory := match h.configuration with
    | some directory => directory
    | none => Path.join (h.home.getD "/tmp") ".config"
  Path.join (Path.join directory "uidrive") "config.json"

/-- The settings in a file that somebody named. -/
def loadFrom (path : String) (s : Store) : Except Failure Settings :=
  if s.contains path then
    match s.readText path with
    | .error fault => .error (.storage fault)
    | .ok text =>
      match Settings.ofText text.toList with
      | .ok settings => .ok settings
      | .error _ => .error (Failure.unreadableSettings path)
  else .error (.fileNotFound path)

/-- The settings in the standard file, or the defaults if it holds none. -/
def load (h : Home) (s : Store) : Settings :=
  if s.contains (location h) then
    match loadFrom (location h) s with
    | .ok settings => settings
    | .error _ => {}
  else {}

def save (settings : Settings) (h : Home) : Access Unit := do
  Access.createParents (location h)
  Access.writeText (location h) settings.toText

end CorrelatedInput.Settings
