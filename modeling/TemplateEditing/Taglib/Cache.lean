import TemplateEditing.Package
import TemplateEditing.Settings
import TemplateEditing.Taglib.Html
import TemplateEditing.Taglib.Reading

/-!
# The libraries of a project

The library of a project has three layers: HTML, the libraries of installed packages, and those of
the project itself. It is read when it is first asked for and kept until a file is saved on which
libraries may depend. The version of Marko that a project has installed is kept with it.
-/

namespace TemplateEditing

/-- How the libraries of projects are found. -/
structure TaglibOptions where
  settings : TaglibSettings := {}
  /-- The project of folders that lie in none. -/
  projectFolder : Option Path := none
  includeHtml : Bool := true
deriving DecidableEq, Repr, Inhabited

namespace Taglib

/-- The name of the tags folder that every project has. -/
def componentsFolder : String := "components"

/-- The libraries with one of the given names in a folder. -/
def filesIn (tree : FileTree) (names : List String) (folder : Path) : List Path :=
  (names.map folder.child).filter tree.isFile

/-- The libraries of the packages that are installed in a project. -/
def packageFiles (tree : FileTree) (o : TaglibOptions) (root : Path) : List Path :=
  if o.settings.scanPackages then
    (Package.installed tree (root.child Package.installFolder)).flatMap
      (filesIn tree o.settings.fileNames)
  else []

/-- Lays a library over another one, unless it cannot be read to its end. -/
def layFile (tree : FileTree) (lib : Taglib) (file : Path) : Taglib :=
  match Taglib.loadFile {} tree file with
  | (layer, none) => lib.extend layer
  | (_, some _) => lib

/-- The library of a project. -/
def ofProject (tree : FileTree) (o : TaglibOptions) (root : Path) : Except TaglibError Taglib :=
  let base := if o.includeHtml then Taglib.html else {}
  let base := (packageFiles tree o root).foldl (layFile tree) base
  let own := TaglibReading.concat
    (.ofFolder tree (root.child componentsFolder) ::
      (filesIn tree o.settings.fileNames root).map (.ofFile tree))
  match own.error with
  | some e => .error e
  | none => .ok (base.addAll own)

end Taglib

/-- The libraries and versions of projects, as far as they have been asked for. -/
structure TaglibCache where
  options : TaglibOptions := {}
  libraries : List (Path × Taglib) := []
  versions : List (Path × Option Nat) := []
deriving DecidableEq, Repr, Inhabited

/-- Two paths are the same up to segments that lead nowhere. -/
def Path.isSame (p q : Path) : Bool := p.components == q.components

namespace TaglibCache

/-- The project that a folder belongs to. -/
def rootOf (cache : TaglibCache) (tree : FileTree) (folder : Path) : Path :=
  Package.rootOf tree cache.options.projectFolder folder

/-- What is kept for a project. -/
def kept? (root : Path) (entries : List (Path × α)) : Option α :=
  (entries.find? fun (p, _) => p.isSame root).map (·.2)

/-- The entries of other projects. -/
def without (root : Path) (entries : List (Path × α)) : List (Path × α) :=
  entries.filter fun (p, _) => !p.isSame root

/-- The library for the templates in a folder. -/
def lookup (cache : TaglibCache) (tree : FileTree) (folder : Path) :
    Except TaglibError Taglib × TaglibCache :=
  let root := cache.rootOf tree folder
  match kept? root cache.libraries with
  | some lib => (.ok lib, cache)
  | none =>
    match Taglib.ofProject tree cache.options root with
    | .error e => (.error e, cache)
    | .ok lib => (.ok lib, { cache with libraries := (root, lib) :: cache.libraries })

/-- The major version of Marko for the templates in a folder. -/
def markoVersion (cache : TaglibCache) (tree : FileTree) (folder : Path) :
    Option Nat × TaglibCache :=
  let root := cache.rootOf tree folder
  match kept? root cache.versions with
  | some version => (version, cache)
  | none =>
    let version := Package.markoVersion? tree root
    (version, { cache with versions := (root, version) :: cache.versions })

/-- Forgets a project. Says whether its library was kept. -/
def invalidate (cache : TaglibCache) (root : Path) : Bool × TaglibCache :=
  ((kept? root cache.libraries).isSome,
    { cache with
      libraries := without root cache.libraries
      versions := without root cache.versions })

/-- Forgets all projects. -/
def clear (cache : TaglibCache) : TaglibCache := { cache with libraries := [], versions := [] }

/-- Libraries may depend on a file. -/
def watches (cache : TaglibCache) (file : Path) : Bool :=
  file.fileName?.any (cache.options.settings.watchedFiles.contains ·)

/-- A file has been saved: if libraries may depend on it, all projects are forgotten. Says whether
they were. -/
def saved (cache : TaglibCache) (file : Path) : Bool × TaglibCache :=
  if cache.watches file then (true, cache.clear) else (false, cache)

end TaglibCache

end TemplateEditing
