/-!
# File paths

A path is kept as it is written, cut at its slashes: `a/./b` has the segments `a`, `.` and `b`,
and `/a` starts with an empty segment. Joining never simplifies. Taking the parent or the file name
looks through empty segments and dots, except for a dot in front, which counts.
-/

namespace TemplateEditing

/-- A path, as the segments between its slashes. -/
structure Path where
  segments : List String
deriving DecidableEq, Repr, Inhabited

namespace Path

/-- The pieces of a text between its slashes. -/
def cutAtSlashes : List Char → List (List Char)
  | [] => [[]]
  | c :: rest =>
    if c == '/' then [] :: cutAtSlashes rest
    else
      match cutAtSlashes rest with
      | [] => [[c]]
      | piece :: more => (c :: piece) :: more

/-- The path of a text. -/
def ofString (s : String) : Path := ⟨(cutAtSlashes s.toList).map String.ofList⟩

/-- The path as written. -/
def toString (p : Path) : String := "/".intercalate p.segments

/-- The path of no characters. -/
def empty : Path := ⟨[""]⟩

/-- The path starts at the root of the file system. -/
def isAbsolute (p : Path) : Bool :=
  match p.segments with
  | "" :: _ :: _ => true
  | _ => false

/-- The path `q` seen from `p`. An absolute `q` stands for itself. -/
def join (p q : Path) : Path :=
  if q.isAbsolute then q
  else if p.segments.getLast? = some "" then ⟨p.segments.dropLast ++ q.segments⟩
  else ⟨p.segments ++ q.segments⟩

/-- The file or directory of a name inside a directory. -/
def child (p : Path) (name : String) : Path := p.join (ofString name)

/-- A segment that leads nowhere. -/
def isIdle (segment : String) : Bool := segment == "" || segment == "."

/-- The segments up to the last one that leads somewhere. -/
def trimIdle (segments : List String) : List String :=
  (segments.reverse.dropWhile isIdle).reverse

/-- The path split into its first segment and the segments that lead somewhere, idle ones at the
end dropped. -/
def headAndBody (p : Path) : String × List String :=
  match p.segments with
  | [] => ("", [])
  | first :: rest => (first, trimIdle rest)

/-- The path without its last part. The empty path and the root have none. -/
def parent? (p : Path) : Option Path :=
  match p.headAndBody with
  | (first, []) => if first == "" then none else some empty
  | (first, body) =>
    let above := trimIdle body.dropLast
    if first == "" && above.isEmpty then some ⟨["", ""]⟩ else some ⟨first :: above⟩

/-- The last part of a path, if it is a name. -/
def fileName? (p : Path) : Option String :=
  let last := match p.headAndBody with
    | (first, []) => first
    | (first, body) => body.getLast?.getD first
  if isIdle last || last == ".." then none else some last

/-- A name cut at its last dot, unless that stands in front. -/
def splitExtension (name : List Char) : List Char × Option (List Char) :=
  let back := name.reverse
  let extension := back.takeWhile (· != '.')
  match back.drop extension.length with
  | _ :: stem => if stem.isEmpty then (name, none) else (stem.reverse, some extension.reverse)
  | [] => (name, none)

/-- The file name without the part behind its last dot. A dot in front does not count. -/
def stem? (p : Path) : Option String :=
  p.fileName?.map fun name => String.ofList (splitExtension name.toList).1

/-- The part of the file name behind its last dot. -/
def extension? (p : Path) : Option String :=
  p.fileName?.bind fun name => (splitExtension name.toList).2.map String.ofList

/-- The path with the extension of its file name replaced, or added. -/
def withExtension (p : Path) (extension : String) : Path :=
  match p.stem? with
  | none => p
  | some stem =>
    let name := stem ++ "." ++ extension
    match p.headAndBody with
    | (_, []) => ⟨[name]⟩
    | (first, body) => ⟨first :: (body.dropLast ++ [name])⟩

/-- The path and so many above it. -/
def ancestorsWithin : Nat → Path → List Path
  | 0, p => [p]
  | n + 1, p =>
    match p.parent? with
    | none => [p]
    | some q => p :: ancestorsWithin n q

/-- The path, its parent, the parent's parent and so on. -/
def ancestors (p : Path) : List Path := ancestorsWithin (p.segments.length + 1) p

/-- The parts of a path that lead somewhere; a slash stands for the root. -/
def components (p : Path) : List String :=
  match p.segments with
  | [] => []
  | "" :: rest =>
    if rest.isEmpty then [] else "/" :: rest.filter (!isIdle ·)
  | first :: rest => first :: rest.filter (!isIdle ·)

/-- The components of a path below a directory, if it lies below it. -/
def below? (p dir : Path) : Option (List String) :=
  let base := dir.components
  if base.isPrefixOf p.components then some (p.components.drop base.length) else none

end Path

end TemplateEditing
