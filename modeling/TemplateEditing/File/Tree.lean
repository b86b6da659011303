import TemplateEditing.File.Path

/-!
# File trees

A file tree is a map from places to files and folders. A place is the list of names on the way
from the working directory; places outside of it start with a slash. Paths are looked up name by
name, so every folder on the way has to exist, and `..` leads out of a folder only if that folder
exists. Above the working directory nothing exists, and the slash is its own parent.
-/

namespace TemplateEditing

/-- What is found at a place. -/
inductive FileEntry where
  | file (content : String)
  | folder
deriving DecidableEq, Repr, Inhabited

/-- Why a path leads nowhere, or not to the kind of entry asked for. -/
inductive FileError where
  | missing
  | notAFolder
  | isAFolder
  | badName
deriving DecidableEq, Repr, Inhabited

/-- A place: the names on the way from the working directory. -/
abbrev Place := List String

/-- Where one step of a path leads from a place. -/
def Place.step (place : Place) (segment : String) : Place :=
  if Path.isIdle segment then place
  else if segment = ".." then if place = ["/"] then place else place.dropLast
  else place ++ [segment]

/-- Where a path starts, and its segments on the way from there. The path of no characters leads
nowhere. -/
def Path.route? (p : Path) : Option (Place × List String) :=
  match p.segments with
  | [] => none
  | [""] => none
  | "" :: rest => some (["/"], rest)
  | segments => some ([], segments)

/-- Files and folders by place. -/
structure FileTree where
  entries : List (Place × FileEntry) := []
deriving DecidableEq, Repr, Inhabited

namespace FileTree

/-- The entry at a place. The working directory itself is always there. -/
def get? (tree : FileTree) (place : Place) : Option FileEntry :=
  if place.isEmpty then some .folder else tree.entries.lookup place

/-- Puts an entry at a place, in the stead of one that is there. -/
def put (tree : FileTree) (place : Place) (entry : FileEntry) : FileTree :=
  if (tree.entries.lookup place).isSome then
    ⟨tree.entries.map fun e => if e.1 = place then (place, entry) else e⟩
  else ⟨tree.entries ++ [(place, entry)]⟩

/-- Takes the entry at a place away. -/
def erase (tree : FileTree) (place : Place) : FileTree :=
  ⟨tree.entries.filter fun e => e.1 ≠ place⟩

/-- One step of a path, from a place that has to be a folder. -/
def enter (tree : FileTree) (place : Place) (segment : String) : Except FileError Place :=
  match tree.get? place with
  | none => .error .missing
  | some (.file _) => .error .notAFolder
  | some .folder =>
    if segment = ".." ∧ place = [] then .error .missing else .ok (Place.step place segment)

/-- The place that a path leads to. Something need not be there yet, but all folders on the way
are. -/
def place (tree : FileTree) (p : Path) : Except FileError Place :=
  if p.segments.any (·.toList.contains '\x00') then .error .badName
  else
    match p.route? with
    | none => .error .missing
    | some (start, segments) => segments.foldlM tree.enter start

/-- The entry that a path leads to. -/
def look (tree : FileTree) (p : Path) : Except FileError FileEntry := do
  match tree.get? (← tree.place p) with
  | some entry => .ok entry
  | none => .error .missing

/-- The content of a file. -/
def read (tree : FileTree) (p : Path) : Except FileError String := do
  match ← tree.look p with
  | .file content => .ok content
  | .folder => .error .isAFolder

/-- There is something at a path. -/
def contains (tree : FileTree) (p : Path) : Bool := (tree.look p).isOk

/-- There is a file at a path. -/
def isFile (tree : FileTree) (p : Path) : Bool := (tree.read p).isOk

/-- There is a folder at a path. -/
def isFolder (tree : FileTree) (p : Path) : Bool :=
  match tree.look p with
  | .ok .folder => true
  | _ => false

/-- The names of what lies directly in a place. -/
def namesIn (tree : FileTree) (place : Place) : List String :=
  tree.entries.filterMap fun e =>
    match e.1.reverse with
    | name :: above => if above.reverse = place ∧ name ≠ "/" then some name else none
    | [] => none

/-- Names in their order. -/
def sorted (names : List String) : List String := names.mergeSort fun a b => decide (a ≤ b)

/-- The paths of what lies directly in a folder, by name. -/
def list (tree : FileTree) (p : Path) : Except FileError (List Path) := do
  match ← tree.look p with
  | .file _ => .error .notAFolder
  | .folder =>
    .ok ((sorted (tree.namesIn (← tree.place p))).map p.child)

/-- Writes a file in a folder that exists. -/
def write (tree : FileTree) (p : Path) (content : String) : Except FileError FileTree := do
  let place ← tree.place p
  match tree.get? place with
  | some .folder => .error .isAFolder
  | _ => .ok (tree.put place (.file content))

/-- Gives a file another path, in the stead of a file that is there. -/
def rename (tree : FileTree) (p q : Path) : Except FileError FileTree := do
  let content ← tree.read p
  let source ← tree.place p
  let target ← tree.place q
  match tree.get? target with
  | some .folder => .error .isAFolder
  | _ => .ok ((tree.erase source).put target (.file content))

/-- Takes a file away. -/
def remove (tree : FileTree) (p : Path) : Except FileError FileTree := do
  let _ ← tree.read p
  .ok (tree.erase (← tree.place p))

/-- Makes a folder and all folders on the way to it. -/
def makeFolders (tree : FileTree) (p : Path) : Except FileError FileTree :=
  (p :: p.ancestors).reverse.foldlM (fun tree q =>
    if q = Path.empty || tree.isFolder q then .ok tree
    else do
      let place ← tree.place q
      match tree.get? place with
      | none => .ok (tree.put place .folder)
      | some .folder => .ok tree
      | some (.file _) => .error .notAFolder) tree

/-- Writes a file, making the folders on the way. -/
def writeDeep (tree : FileTree) (p : Path) (content : String) : Except FileError FileTree := do
  let tree ← match p.parent? with
    | some dir => tree.makeFolders dir
    | none => .ok tree
  tree.write p content

end FileTree

end TemplateEditing
