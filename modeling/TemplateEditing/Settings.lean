/-!
# Settings

What a user can set, in four groups, each with its usual values.
-/

namespace TemplateEditing

/-- How the pair of tags around the caret is shown and edited. -/
structure TagMatchingSettings where
  enabled : Bool := true
  /-- The style class of the tags shown. -/
  highlightClass : String := "bracket-matcher"
  /-- Renaming a tag renames its partner. -/
  renameTogether : Bool := true
  /-- Characters that may change where tags are; inserting one drops the pair. -/
  structuralChars : String := "<>.#"
deriving DecidableEq, Repr, Inhabited

/-- When completions are offered. -/
structure CompletionSettings where
  enabled : Bool := true
  /-- Renaming a tag asks for completions. -/
  afterRename : Bool := true
  /-- The first major version of Marko that tags and attributes are offered for. -/
  minVersion : Nat := 3
deriving DecidableEq, Repr, Inhabited

/-- How clicks are followed. -/
structure LinkSettings where
  enabled : Bool := true
  /-- Names of the files beside a template that may hold its component. -/
  componentFiles : List String := ["component.js", "widget.js", "index.js"]
deriving DecidableEq, Repr, Inhabited

/-- Where tag libraries are found. -/
structure TaglibSettings where
  fileNames : List String := ["marko.json", "marko-tag.json"]
  /-- Installed packages are searched too. -/
  scanPackages : Bool := true
  /-- Names of the files whose saving makes known libraries out of date. -/
  watchedFiles : List String :=
    ["marko.json", "marko-tag.json", "package.json", "template.marko", "renderer.js"]
deriving DecidableEq, Repr, Inhabited

/-- All settings. -/
structure Settings where
  tagMatching : TagMatchingSettings := {}
  completion : CompletionSettings := {}
  links : LinkSettings := {}
  taglibs : TaglibSettings := {}
deriving DecidableEq, Repr, Inhabited

/-- Inserting the text may change where tags are. -/
def TagMatchingSettings.isStructural (s : TagMatchingSettings) (t : List Char) : Bool :=
  t.any (s.structuralChars.toList.contains ·)

end TemplateEditing
