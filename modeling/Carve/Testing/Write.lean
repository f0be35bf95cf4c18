import Carve.Disk.Change
import Carve.Testing.Draft
/-!
Writing a drafted test to its place in a module. A test that is there already is kept unless it may
be replaced.
-/

namespace Carve.Testing.Draft

def writeTo (draft : Draft) (module : Path) (overwrite : Bool) : Edit Failure Path := do
  let target := module.join draft.relativePath
  if (← get).isPresent target && !overwrite then throw (.alreadyExists target)
  Edit.advance .system (·.createAll (target.parent?.getD ⟨"."⟩))
  -- The way that was just made may be what leads to a file.
  if (← get).isPresent target && !overwrite then throw (.alreadyExists target)
  Edit.change .system (·.write target (.text draft.source))
  return target

end Carve.Testing.Draft
