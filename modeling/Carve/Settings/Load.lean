import Carve.Disk.Basic
import Carve.Settings.Reader
/-!
Where the settings of a project come from: a file in the project, else a file of the user, else
nowhere. The environment has the last word.
-/

namespace Carve.Settings

def fileName : String := "liteworkspace.toml"

def userFile (home : Path) : Path := (home.join ⟨".liteworkspace"⟩).join ⟨"config.toml"⟩

def load (d : Disk) (p : Path) : Except Fault Settings :=
  match d.read p with
  | .ok (.text s) => parse s
  | .ok (.binary _) => .error (.unreadable p.text "stream did not contain valid UTF-8")
  | .error refusal => .error (.unreadable p.text refusal.text)

def loadFor (d : Disk) (project home : Path) (env : String → Option String) :
    Except Fault Settings := do
  let own := project.join ⟨fileName⟩
  let user := userFile home
  let s ←
    if d.isFile own then load d own
    else if d.isFile user then load d user
    else pure {}
  s.override env

end Carve.Settings
