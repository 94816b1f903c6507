import Reckoner.Settings.Read
import Reckoner.Settings.Print

/-!
# Settings files

A file is given by its path and its content, which is missing when there is no file. Overlong paths
and files are refused.

The content is a text, and a file whose bytes are not UTF-8 has none. `ofFile` can only be given such a
file as one without content, and calls it unreadable, even if it is too large as well. `persist` does
not cover such files: without content it starts from an empty one.
-/

namespace Reckoner.Settings

def checkPath (path : String) : Except SettingsFault Unit :=
  if greatestPath < path.utf8ByteSize then .error (.pathTooLong path.utf8ByteSize) else .ok ()

/-- The settings in a file. -/
def ofFile (path : String) (content : Option String) : Except SettingsFault Settings := do
  checkPath path
  match content with
  | none => throw .unreadable
  | some text =>
    if greatestFile < text.utf8ByteSize then throw (.fileTooLarge text.utf8ByteSize)
    else read text

/-- The new content of a file that keeps its settings but has these rates. A missing file counts as
empty. -/
def persist (path : String) (content : Option String) (rates : RateSet) :
    Except SettingsFault String := do
  checkPath path
  let s ← if content.isNone then pure standard else ofFile path content
  return (s.withRates rates).text

/-- Where the settings are when no path is given: at `override` unless that is empty, else in the
directory for settings. -/
def defaultPath (override directory : Option String) : Except SettingsFault String :=
  match override.filter (· != "") <|> directory.map (· ++ "/config.json") with
  | some path => .ok path
  | none => .error .noDirectory

end Reckoner.Settings
