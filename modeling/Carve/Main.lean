import Carve.Command.Run
/-!
The program. It takes a snapshot of the files that a command may look at, has the command carried
out on the snapshot, and then writes what the command has changed. Neither a compiler nor a network
is at hand here.
-/

namespace Carve.Main

def placeOf (path : String) : Place := (Text.parts '/' path).filter (!·.isEmpty)

/-- Files of these names are read; of all others only the names count. -/
def isRead (name : String) : Bool :=
  Path.hasExtension ⟨name⟩ "java" ||
    [".ignore", ".gitignore", "exclude", Settings.fileName, "config.toml"].contains name

def contentOf (path name : String) : IO Content := do
  if !isRead name then return .text ""
  let bytes ← IO.FS.readBinFile path
  match String.fromUTF8? bytes with
  | some s => return .text s
  | none => return .binary bytes.toList

/-- What lies below a directory, down to a depth. -/
partial def below (depth : Nat) (path : String) : IO (List (Place × Disk.Entry)) := do
  let here ← IO.FS.realPath path
  let found ← here.readDir
  let entries ← found.toList.mapM fun item => do
    let place := placeOf item.path.toString
    if ← item.path.isDir then
      let inner ← if depth = 0 then pure [] else below (depth - 1) item.path.toString
      return (place, Disk.Entry.directory) :: inner
    else return [(place, Disk.Entry.file (← contentOf item.path.toString item.fileName))]
  return entries.flatten

/-- A file or a directory, the directories around it and the ignore files in them. -/
def around (path : String) (depth : Nat) : IO (List (Place × Disk.Entry)) := do
  let here ← IO.FS.realPath path
  let place := placeOf here.toString
  let own ←
    if ← here.isDir then below depth here.toString
    else return [(place, .file (← contentOf here.toString (here.fileName.getD "")))]
  let ways := (Place.onTheWay place).filter (!·.isEmpty)
  let marks ← ways.mapM fun way => do
    let named ← (IgnoreLayer.versionMarks ++ [".ignore", ".gitignore"]).mapM fun name => do
      let file := here / (Place.path (way ++ [name])).text
      if ← file.pathExists then
        if ← file.isDir then return [(way ++ [name], Disk.Entry.directory)]
        else return [(way ++ [name], .file (← contentOf file.toString name))]
      else return []
    return named.flatten
  let directories := ways.map fun way => (way, Disk.Entry.directory)
  return own ++ (if ← here.isDir then directories else directories.dropLast) ++ marks.flatten

def aroundIfAny (p : Path) (depth : Nat) : IO (List (Place × Disk.Entry)) :=
  try around p.text depth catch _ => pure []

def snapshot (c : Command) (home : Path) : IO Disk := do
  let here ← IO.FS.realPath "."
  let project ← aroundIfAny c.subject.project 64
  let user ← aroundIfAny (Settings.userFile home) 0
  let ways := c.out?.toList.flatMap fun p => Command.climb (p.components.length + 1) p
  let target ← ways.mapM (aroundIfAny · 0)
  return ⟨placeOf here.toString, project ++ user ++ (← around "." 0) ++ target.flatten⟩

/-- Makes the directories and writes the files that are new or have another content. -/
def writeChanges (before after : Disk) : IO Unit := do
  for (place, entry) in after.entries do
    if before.get? place != some entry then
      let path := (Place.path place).text
      match entry with
      | .directory => IO.FS.createDirAll path
      | .file (.text s) => IO.FS.writeFile path s
      | .file (.binary bytes) => IO.FS.writeBinFile path ⟨bytes.toArray⟩

def perform (args : List String) : IO UInt32 := do
  let wish := Command.parse args
  let home : Path := ⟨(← IO.getEnv "HOME").getD "."⟩
  let names := ["LITEWORKSPACE_API_KEY", "LITEWORKSPACE_API_URL", "LITEWORKSPACE_MODEL",
    "LITEWORKSPACE_PROVIDER"]
  let values ← names.mapM fun name => return (name, ← IO.getEnv name)
  let disk ← match wish with
    | .run c => snapshot c home
    | _ => pure {}
  let surroundings : Command.Surroundings :=
    { variableOf := fun name => (values.lookup name).join
      home
      tools := {}
      network := fun r => .error (.transport ("no network to reach " ++ r.url)) }
  let outcome := Command.carryOut surroundings disk wish
  writeChanges disk outcome.disk
  IO.print outcome.printed
  if wish == .misuse then IO.eprint Command.helpText
  if let some failure := outcome.failure then IO.eprintln ("error: " ++ failure)
  return outcome.exit.toUInt32

end Carve.Main

def main (args : List String) : IO UInt32 := Carve.Main.perform args
