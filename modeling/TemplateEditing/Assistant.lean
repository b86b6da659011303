import TemplateEditing.Completion.Suggestion
import TemplateEditing.Link.Target
import TemplateEditing.Session

/-!
# The assistant

The assistant answers what may be completed at a position of a document and where a click there
leads. It keeps the libraries of the projects it has been asked about, and forgets them when it
hears that a file was saved on which they may depend.
-/

namespace TemplateEditing

/-- Someone to ask about completions and links. -/
structure Assistant (R : Type) where
  settings : Settings
  cache : TaglibCache
  scorer : Scorer R
  /-- The folder of documents that were never saved. -/
  defaultFolder : Path

namespace Assistant

variable {R : Type} [ScoreNumber R]

/-- An assistant. Folders outside of any project belong to the given one, and documents that were
never saved to that project or else to the working folder. -/
def start (settings : Settings) (projectFolder : Option Path) (scorer : Scorer R) :
    Assistant R where
  settings := settings
  cache := { options := { settings := settings.taglibs, projectFolder := projectFolder } }
  scorer := scorer
  defaultFolder := projectFolder.getD .empty

/-- The folder in which the libraries of a document are looked for. -/
def folderOf (a : Assistant R) (d : Document) : Path :=
  (d.buffer.path.bind Path.parent?).getD a.defaultFolder

/-- The suggestions at a position. The library of the project is only read if it is needed. -/
def suggestions (a : Assistant R) (tree : FileTree) (d : Document) (p : Position) :
    Except TaglibError (List (Suggestion R)) × Assistant R :=
  let c := d.completionContext p
  if !a.settings.completion.enabled || c.kind.isNone then (.ok [], a)
  else
    let answer (lib : Taglib) (version : Option Nat) : List (Suggestion R) :=
      Suggestion.forContext a.scorer tree lib version a.settings.completion.minVersion c
    if c.needsTaglib then
      let folder := a.folderOf d
      match a.cache.lookup tree folder with
      | (.error e, cache) => (.error e, { a with cache := cache })
      | (.ok lib, cache) =>
        let (version, cache) := cache.markoVersion tree folder
        (.ok (answer lib version), { a with cache := cache })
    else (.ok (answer {} none), a)

/-- What a click at a position is on. Only templates have links. -/
def click? (_ : Assistant R) (d : Document) (p : Position) : Option Click :=
  if d.grammar.root = Scope.marko then d.click? p else none

/-- Where a click at a position leads. -/
def follow (a : Assistant R) (tree : FileTree) (d : Document) (p : Position) :
    Except TaglibError (Option (Click × LinkTarget)) × Assistant R :=
  match (if a.settings.links.enabled then a.click? d p else none) with
  | none => (.ok none, a)
  | some c =>
    let (target, cache) := LinkTarget.ofClick a.cache tree a.settings.links.componentFiles
      d.buffer.path (a.folderOf d) c
    (target.map (·.map (c, ·)), { a with cache := cache })

/-- Hears of an event. Says whether the libraries were forgotten. -/
def hear (a : Assistant R) (e : Event) : Bool × Assistant R :=
  match e with
  | .saved p =>
    let (forgotten, cache) := a.cache.saved p
    (forgotten, { a with cache := cache })
  | _ => (false, a)

end Assistant

end TemplateEditing
