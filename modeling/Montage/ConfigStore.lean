import Montage.Host

/-!
# The configuration file

Where the configuration is kept.

**Input.** The variables of the host.

**Algorithm.** The file lies in a directory of its own inside the directory for configurations, which
a variable names; else it is a hidden directory of the home.

**Results.** `Config.load` falls back to the standard settings, `Config.save` writes the file.
-/

namespace Montage
namespace Config

/-- The path of the configuration file, from the directory for configurations and the home. -/
def pathIn (directory home : Option String) : Path :=
  let base := match directory with
    | some directory => (⟨directory⟩ : Path)
    | none => (⟨home.getD "/tmp"⟩ : Path).join ".config"
  (base.join "clipweave").join "config.json"

variable {m : Type → Type} [Monad m] [Host m]

/-- The path of the configuration file. -/
def path : m Path := do
  let directory ← Host.lookup? "XDG_CONFIG_HOME"
  let home ← Host.lookup? "HOME"
  pure (pathIn directory home)

/-- The configuration in a file, or the standard settings if it cannot be read. -/
def load (file : Path) : m Config := do
  match ← Host.readText file with
  | .ok text => pure ((ofText? text).getD standard)
  | .error _ => pure standard

/-- Writes the configuration file. -/
def save (c : Config) : ExceptT Failure m Unit := do
  let file ← (path : m Path)
  match file.parent? with
  | some directory => Host.attempt (Host.createDirectories directory)
  | none => pure ()
  Host.attempt (Host.writeText file c.text)

end Config
end Montage
