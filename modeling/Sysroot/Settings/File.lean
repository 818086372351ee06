import Sysroot.Settings
import Sysroot.Tree.Action

/-!
# Settings files

A settings file holds a JSON object.  Relative paths in it are below the directory that the
file is in, wherever the build is started.
-/

namespace Sysroot.Settings

/-- The text of a settings file.  That the file is not there is an error with a cause; any
other refusal passes. -/
def fileText (p : Path) : Tree.Action String :=
  Tree.Action.onRefusal (Tree.Action.readText p) fun e =>
    if e.reason? = some .noEntry then Tree.Action.fail (.noSettingsFile p.text)
    else throw (.system e)

/-- The settings of a file. -/
def ofFile (p : Path) : Tree.Action Settings := do
  Tree.Action.ofExcept (ofText p.parent (← fileText p))

end Sysroot.Settings
