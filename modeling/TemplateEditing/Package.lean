import TemplateEditing.File.Tree
import TemplateEditing.Json.Syntax
import TemplateEditing.Json.Value

/-!
# Packages

A project is a folder with a package file. The package file tells the name and the version of the
package; its other fields are not looked at, and need only be well formed.
-/

namespace TemplateEditing

/-- What a package file tells. -/
structure Package where
  name : Option String := none
  version : Option String := none
deriving DecidableEq, Repr, Inhabited

namespace Package

/-- The name of a package file. -/
def fileName : String := "package.json"

/-- The name of the folder that packages are installed in. -/
def installFolder : String := "node_modules"

/-- A text or null. -/
def textOrNull? : JsonSyntax → Option (Option String)
  | .null => some none
  | .string units => (StringUnit.decode? units).map fun t => some (String.ofList t)
  | _ => none

/-- A field that may stand once at most among the given ones. -/
def uniqueField? (fields : List (Text × JsonSyntax)) (key : String) : Option (Option String) :=
  match fields.filter (·.1 == key.toList) with
  | [] => some none
  | [(_, value)] => textOrNull? value
  | _ => none

/-- A package file holds an object, or a list of the two parts. -/
def ofSyntax? : JsonSyntax → Option Package
  | .object fields => do
    let fields ← fields.mapM fun (key, value) => (StringUnit.decode? key).map (·, value)
    some { name := ← uniqueField? fields "name", version := ← uniqueField? fields "version" }
  | .array [name, version] => do
    some { name := ← textOrNull? name, version := ← textOrNull? version }
  | _ => none

/-- What a package file tells, if it can be read. -/
def read? (tree : FileTree) (file : Path) : Option Package :=
  match tree.read file with
  | .ok s => (JsonSyntax.parse? s.toList).bind ofSyntax?
  | .error _ => none

/-- The nearest folder above a folder, or it itself, that has a package file. -/
def findRoot? (tree : FileTree) (folder : Path) : Option Path :=
  folder.ancestors.find? fun p => tree.isFile (p.child fileName)

/-- The project that a folder belongs to: the one it lies in, else a given one, else the folder
itself. -/
def rootOf (tree : FileTree) (fallback : Option Path) (folder : Path) : Path :=
  ((findRoot? tree folder).or fallback).getD folder

/-- The name of the package in a folder. -/
def nameOf? (tree : FileTree) (root : Path) : Option String :=
  (read? tree (root.child fileName)).bind (·.name)

/-- The largest version number there is. -/
def maxVersion : Nat := Nat.pow 2 32 - 1

/-- The number at the front of a version. -/
def major? (version : String) : Option Nat :=
  let digits := version.toList.takeWhile Char.isDigit
  let n := JsonValue.digitsToNat digits
  if digits.isEmpty ∨ maxVersion < n then none else some n

/-- The folder of an installed package, in the nearest folder above that has it installed. -/
def resolve? (tree : FileTree) (root : Path) (name : String) : Option Path :=
  (root.ancestors.map fun p => (p.child installFolder).child name).find? fun p =>
    tree.isFile (p.child fileName)

/-- The major version of Marko that is installed for a project. -/
def markoVersion? (tree : FileTree) (root : Path) : Option Nat := do
  let folder ← resolve? tree root "marko"
  let package ← read? tree (folder.child fileName)
  major? (← package.version)

/-- The folders in a folder, by name. -/
def foldersIn (tree : FileTree) (folder : Path) : List Path :=
  match tree.list folder with
  | .ok entries => entries.filter tree.isFolder
  | .error _ => []

/-- The folders of the packages that are installed in a folder. A folder whose name starts with an
at sign holds packages; one whose name starts with a dot is none. -/
def installed (tree : FileTree) (folder : Path) : List Path :=
  (foldersIn tree folder).flatMap fun p =>
    match p.fileName?.bind (·.toList.head?) with
    | some '@' => foldersIn tree p
    | some '.' => []
    | _ => [p]

/-- A short name for a tag library: the name of its package and its path there, or else the name of
its folder. -/
def label? (tree : FileTree) (library : Path) : Option String :=
  match library.parent? with
  | none => none
  | some folder =>
    let inPackage : Option String := do
      let root ← findRoot? tree folder
      let name ← nameOf? tree root
      let parts ← library.below? root
      some ("/".intercalate (name :: parts))
    inPackage.or folder.fileName?

end Package

end TemplateEditing
