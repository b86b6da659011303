import TemplateEditing.Link.Click
import TemplateEditing.Link.Landing
import TemplateEditing.Taglib.Cache

/-!
# Where links lead

A tag leads to the file that implements it, an attribute to the library that declares it, a literal
to the file it names, or, as the name of an event handler, into the component, and so do uses of its
state and of the template's data. The component of a template is a file beside it.
-/

namespace TemplateEditing

/-- What a link leads to. -/
inductive LinkKind where
  | eventHandler
  | file
  | declaration
  | tag
  | state
  | data
deriving DecidableEq, Repr, Inhabited

/-- Where a link leads. -/
structure LinkTarget where
  kind : LinkKind
  path : Path
  landing : Landing
deriving DecidableEq, Repr, Inhabited

namespace LinkTarget

/-- The position in the file that the link leads to, if it can be found. -/
def locate (tree : FileTree) (l : LinkTarget) : Except FileError (Option Position) := do
  .ok (l.landing.locate? (← tree.read l.path).toList)

/-- The attribute names an event handler: its name begins with `w-on`, or with `on` if it has an
argument. -/
def isEventAttribute (name : Text) (hasArgument : Bool) : Bool :=
  (hasArgument && "on".toList.isPrefixOf name) || "w-on".toList.isPrefixOf name

/-- Where the function of a name is defined: a parenthesis or a colon follows. -/
def handlerPattern (name : Text) : Text :=
  let name := Regex.escape name
  name ++ "\\s*[(]|".toList ++ name ++ "\\s*[:]".toList

/-- Where the state is first set. -/
def statePattern : Text := "this\\.state\\s*[=]".toList

/-- Where the template's data are made. -/
def dataPattern : Text := "getTemplateData".toList

/-- The file of a template's component: the first of several files beside it that exists, or else
the template. -/
def componentFile (tree : FileTree) (template : Path) (names : List String) : Path :=
  ((template.parent?.bind fun folder => (names.map folder.child).find? tree.isFile)).getD template

/-- A path with a text behind it. -/
def withSuffix (p : Path) (suffix : String) : Path := .ofString (p.toString ++ suffix)

/-- The file that a path stands for: the path itself, or one that is made of it. -/
def asFile? (tree : FileTree) (p : Path) : Option Path :=
  [p, withSuffix p ".js", withSuffix p ".json", p.child "index.js"].find? tree.isFile

/-- The file that a name stands for in a folder. A name that does not say where to look is that of
an installed package. -/
def resolveFrom? (tree : FileTree) (folder : Path) (name : Text) : Option Path :=
  if "./".toList.isPrefixOf name || "../".toList.isPrefixOf name || "/".toList.isPrefixOf name then
    asFile? tree (folder.child (String.ofList name))
  else
    folder.ancestors.findSome? fun above =>
      asFile? tree ((above.child Package.installFolder).child (String.ofList name))

/-- The file that a literal in a template names: seen from the template or else, unless the name
begins with a dot, from the root of the project. -/
def literalFile? (cache : TaglibCache) (tree : FileTree) (template : Path) (value : Text) :
    Option Path :=
  template.parent?.bind fun folder =>
    (resolveFrom? tree folder value).or
      (if value.head? = some '.' then none
        else resolveFrom? tree (cache.rootOf tree folder) ('.' :: '/' :: value))

/-- Where a click in a template leads, given the settings and the folder in which to look for
libraries if the template has none. -/
def ofClick (cache : TaglibCache) (tree : FileTree) (componentFiles : List String)
    (template : Option Path) (fallback : Path) (c : Click) :
    Except TaglibError (Option LinkTarget) × TaglibCache :=
  let folder := (template.bind Path.parent?).getD fallback
  let toComponent (kind : LinkKind) (pattern : Text) : Option LinkTarget :=
    template.map fun t => ⟨kind, componentFile tree t componentFiles, .pattern pattern⟩
  let inLibrary (f : Taglib → Option LinkTarget) :
      Except TaglibError (Option LinkTarget) × TaglibCache :=
    let (lib, cache) := cache.lookup tree folder
    (lib.map f, cache)
  match c.target with
  | .literal value owner =>
    if value.isEmpty then (.ok none, cache)
    else if owner.any fun (name, hasArgument) => isEventAttribute name hasArgument then
      (.ok (toComponent .eventHandler (handlerPattern value)), cache)
    else
      (.ok ((template.bind (literalFile? cache tree · value)).map (⟨.file, ·, .start⟩)), cache)
  | .attributeName tagName name _ =>
    inLibrary fun lib =>
      ((lib.attribute? (String.ofList tagName) (String.ofList name)).bind (·.file)).map
        (⟨.declaration, ·, .declaration tagName name⟩)
  | .tag name _ =>
    inLibrary fun lib =>
      ((lib.tag? (String.ofList name)).bind TagDef.file?).map (⟨.tag, ·, .start⟩)
  | .state => (.ok (toComponent .state statePattern), cache)
  | .data => (.ok (toComponent .data dataPattern), cache)

end LinkTarget

end TemplateEditing
