import Carve.Disk.Basic
/-!
Changes of a file system. A change that is refused has changed nothing, except that directories
made on the way to a refusal stay.
-/

namespace Carve

namespace Disk

def put (d : Disk) (p : Place) (e : Entry) : Disk :=
  { d with entries := d.entries.filter (·.1 != p) ++ [(p, e)] }

def clear (d : Disk) (base : Place) : Disk :=
  { d with entries := d.entries.filter fun e => !base.isPrefixOf e.1 }

def relocate (d : Disk) (source target : Place) : Disk :=
  { d with
    entries := d.entries.map fun (p, e) =>
      (if source.isPrefixOf p then target ++ p.drop source.length else p, e) }

theorem lookup_filter (keep : Place → Bool) (p : Place) (es : List (Place × Entry)) :
    (es.filter fun e => keep e.1).lookup p = if keep p then es.lookup p else none := by
  induction es with
  | nil => simp
  | cons e es ih =>
    obtain ⟨q, x⟩ := e
    by_cases hq : p = q
    · subst hq
      by_cases hk : keep p <;> simp [hk, ih]
    · have hb : (p == q) = false := by simp [hq]
      by_cases hk : keep q <;> simp [List.lookup_cons, hk, hb, ih]

theorem get?_put (d : Disk) {p : Place} (hp : p ≠ []) (e : Entry) (q : Place) :
    (d.put p e).get? q = if q = p then some e else d.get? q := by
  cases q with
  | nil => simp [get?, Ne.symm hp]
  | cons n q =>
    show (d.entries.filter (·.1 != p) ++ [(p, e)]).lookup (n :: q) = _
    rw [List.lookup_append, lookup_filter (· != p)]
    by_cases h : n :: q = p
    · simp [h]
    · have hb : (n :: q == p) = false := by simpa using h
      simp [h, hb, List.lookup_cons, get?]

theorem get?_clear (d : Disk) {p : Place} (hp : p ≠ []) (q : Place) :
    (d.clear p).get? q = if p <+: q then none else d.get? q := by
  cases q with
  | nil => simp [get?, List.prefix_nil, hp]
  | cons n q =>
    show (d.entries.filter fun e => !p.isPrefixOf e.1).lookup (n :: q) = _
    rw [lookup_filter fun q => !p.isPrefixOf q]
    by_cases h : p <+: n :: q
    · simp [h, List.isPrefixOf_iff_prefix.2 h]
    · have hb : p.isPrefixOf (n :: q) = false := by
        simpa [← List.isPrefixOf_iff_prefix] using h
      simp [h, hb, get?]

def makeWay (d : Disk) (base : Place) : List (List Char) → Disk × Except Refusal Unit
  | [] => (d, .ok ())
  | s :: rest =>
    if Path.isFiller s then d.makeWay base rest
    else if s = ['.', '.'] then d.makeWay base.dropLast rest
    else
      let next := base ++ [String.ofList s]
      match d.get? next with
      | some .directory => d.makeWay next rest
      | some (.file _) => (d, .error (if rest.any isName then .notDirectory else .occupied))
      | none => (d.put next .directory).makeWay next rest

def createAll (d : Disk) (p : Path) : Disk × Except Refusal Unit :=
  d.makeWay (d.start p) p.segments

def writeAt (d : Disk) (base : Place) (segments : List (List Char)) (content : Content) :
    Except Refusal Disk := do
  let p ← d.spot base segments
  if d.get? p = some .directory then throw .isDirectory
  return d.put p (.file content)

def write (d : Disk) (p : Path) (content : Content) : Except Refusal Disk :=
  if p.text.isEmpty then .error .absent else d.writeAt (d.start p) p.segments content

/-- The segments of a path to a directory, which may end in slashes. -/
def directorySegments (p : Path) : List (List Char) := Text.dropEndWhile List.isEmpty p.segments

/-- Takes away an empty directory, which the path must name by its name. -/
def removeDirectory (d : Disk) (p : Path) : Except Refusal Disk := do
  let segments := directorySegments p
  if segments.getLast? = some ['.'] then throw .invalid
  if segments.getLast? = some ['.', '.'] then throw .notEmpty
  let place ← d.locate p
  match d.get? place with
  | some .directory =>
    if place = [] then throw .busy
    if !(d.names place).isEmpty then throw .notEmpty
    return d.clear place
  | some (.file _) => throw .notDirectory
  | none => throw .absent

def moveTo (d : Disk) (source : Place) (p : Path) : Except Refusal Disk := do
  if p.text.isEmpty then throw .absent
  let target ← match d.spot (d.start p) (directorySegments p) with
    | .ok target => pure target
    | .error .isDirectory => throw .busy
    | .error refusal => throw refusal
  if (d.get? target).isSome then throw .occupied
  return d.relocate source target

end Disk

/-- Work on a file system that may fail half-way and then leaves behind what it did. -/
abbrev Edit (ε α : Type) := ExceptT ε (StateM Disk) α

namespace Edit

variable {ε : Type}

/-- A change that happens as a whole or not at all. -/
def change (wrap : Refusal → ε) (f : Disk → Except Refusal Disk) : Edit ε Unit := do
  match f (← get) with
  | .ok d => set d
  | .error refusal => throw (wrap refusal)

/-- A change that may stop half-way. -/
def advance (wrap : Refusal → ε) (f : Disk → Disk × Except Refusal Unit) : Edit ε Unit := do
  let (d, outcome) := f (← get)
  set d
  match outcome with
  | .ok () => pure ()
  | .error refusal => throw (wrap refusal)

/-- Work after whose failure the disk is put right before the failure goes on. -/
def mending {α : Type} (work : Edit ε α) (mend : Disk → Disk) : Edit ε α :=
  tryCatch work fun e => do
    modify mend
    throw e

end Edit

end Carve
