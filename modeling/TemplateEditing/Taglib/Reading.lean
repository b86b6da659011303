import TemplateEditing.File.Tree
import TemplateEditing.Json.Value
import TemplateEditing.Taglib.Basic

/-!
# Reading tag libraries

A tag library is a JSON object. Its fields define tags, either there or in files of their own, or
name folders with a tag in each of their entries. Reading yields the tags in the order in which they
are found, and stops at the first file that cannot be read; it does not depend on the library that
the tags are added to.
-/

namespace TemplateEditing

/-- Why a tag library cannot be read. -/
inductive TaglibError where
  /-- A file or folder cannot be read. -/
  | unreadable (path : Path)
  /-- A file is not JSON. -/
  | notJson (path : Path)
  /-- A file holds something else than an object. -/
  | notAnObject (path : Path)
deriving DecidableEq, Repr, Inhabited

/-- The text of an error, as far as it does not tell of the system or of JSON. -/
def TaglibError.message? : TaglibError → Option String
  | unreadable _ | notJson _ => none
  | notAnObject p => some ("Taglib " ++ p.toString ++ " must be a JSON object")

/-! ## Definitions -/

/-- The fields of a JSON object. -/
abbrev JsonFields := List (String × JsonValue)

namespace CompletionEntry

/-- A text that may be missing or null. -/
def optionalText? : Option JsonValue → Option (Option String)
  | none | some .null => some none
  | some (.string s) => some (some s)
  | some _ => none

/-- A truth value that may be missing. -/
def optionalFlag? : Option JsonValue → Option Bool
  | none => some false
  | some (.bool b) => some b
  | some _ => none

/-- The entry with the given parts, if each is of its kind. -/
def ofParts? (text snippet displayText description openTagOnly : Option JsonValue) :
    Option CompletionEntry := do
  some
    { text := ← optionalText? text
      snippet := ← optionalText? snippet
      displayText := ← optionalText? displayText
      description := ← optionalText? description
      openTagOnly := ← optionalFlag? openTagOnly }

/-- An entry is an object, or the list of its parts, of which the last ones may be missing. -/
def ofJson? : JsonValue → Option CompletionEntry
  | .object fields =>
    ofParts? (fields.lookup "text") (fields.lookup "snippet") (fields.lookup "displayText")
      (fields.lookup "description") (fields.lookup "openTagOnly")
  | .array items =>
    if 5 < items.length then none
    else ofParts? items[0]? items[1]? items[2]? items[3]? items[4]?
  | _ => none

/-- The entries in a list, or a single one. Those that are not well formed are left out. -/
def listOfJson : Option JsonValue → List CompletionEntry
  | some (.array items) => items.filterMap ofJson?
  | some (.object fields) => (ofJson? (.object fields)).toList
  | _ => []

end CompletionEntry

/-- A value that an attribute may have is a text, or an object with a text and its description. -/
def AllowedValue.ofJson? : JsonValue → Option AllowedValue
  | .string s => some (.plain s)
  | .object fields => do
    let value ← (fields.lookup "value").bind JsonValue.string?
    let description ← CompletionEntry.optionalText? (fields.lookup "description")
    some (.described value description)
  | _ => none

/-- What a file says about an attribute. A text is the kind of its values. -/
def AttributeDef.ofJson (name : String) (value : JsonValue) (file : Path) : AttributeDef :=
  match value with
  | .string valueType => { name := name, valueType := some valueType, file := some file }
  | .object fields =>
    { name := name
      html := JsonValue.flag fields ["html"]
      deprecated := JsonValue.flag fields ["deprecated"]
      valueType := (fields.lookup "type").bind JsonValue.string?
      allowedValues := match fields.lookup "enum" with
        | some (.array values) => values.filterMap AllowedValue.ofJson?
        | _ => []
      completions := CompletionEntry.listOfJson (fields.lookup "autocomplete")
      file := some file }
  | _ => { name := name, file := some file }

/-- The folder that a file is in. -/
def Path.folder (p : Path) : Path := p.parent?.getD .empty

/-- The file that the first field present names, as a text or in an object, seen from a folder. -/
def TagFiles.named? (fields : JsonFields) (keys : List String) (folder : Path) : Option Path :=
  match JsonValue.field? fields keys with
  | some (.string s) => some (folder.child s)
  | some (.object inner) =>
    ((JsonValue.field? inner ["path", "filePath"]).bind JsonValue.string?).map folder.child
  | _ => none

namespace TagDef

/-- A name without the sign of an attribute in front. -/
def attributeName? (key : String) : Option String :=
  match key.toList with
  | '@' :: rest => some (String.ofList rest)
  | _ => none

/-- The attributes that the fields of a tag declare: first those in fields of their own, then those
in the field for attributes. -/
def declaredAttributes (fields : JsonFields) (file : Path) : List AttributeDef :=
  let own := fields.filterMap fun (key, value) =>
    (attributeName? key).map fun name => AttributeDef.ofJson name value file
  let listed := match fields.lookup "attributes" with
    | some (.object inner) => inner.map fun (key, value) =>
      AttributeDef.ofJson ((attributeName? key).getD key) value file
    | _ => []
  own ++ listed

/-- What a file says about a tag. -/
def ofJson (name : String) (fields : JsonFields) (file : Path) : TagDef :=
  let folder := file.folder
  (declaredAttributes fields file).foldl setAttribute
    { name := name
      html := JsonValue.flag fields ["html"]
      deprecated := JsonValue.flag fields ["deprecated"]
      openTagOnly := JsonValue.flag fields ["openTagOnly", "open-tag-only"]
      completions := CompletionEntry.listOfJson (fields.lookup "autocomplete")
      library := some file
      files := {
        renderer := TagFiles.named? fields ["renderer"] folder
        template := TagFiles.named? fields ["template"] folder
        codeGenerator := TagFiles.named? fields
          ["codeGeneratorModulePath", "code-generator", "codeGenerator"] folder
        nodeFactory := TagFiles.named? fields
          ["nodeFactoryPath", "node-factory", "nodeFactory"] folder
        transformer := TagFiles.named? fields ["transformer", "transform"] folder
        definition := some file } }

end TagDef

/-! ## Files -/

/-- Something found while reading a tag library. -/
inductive TaglibItem where
  /-- A file that was read. -/
  | source (path : Path)
  | tag (t : TagDef)
deriving DecidableEq, Repr, Inhabited

/-- What was found, and the error that ended the reading. -/
structure TaglibReading where
  items : List TaglibItem := []
  error : Option TaglibError := none
deriving DecidableEq, Repr, Inhabited

namespace TaglibReading

/-- What several readings find one after the other, up to the first error. -/
def concat : List TaglibReading → TaglibReading
  | [] => {}
  | r :: rest =>
    if r.error.isSome then r
    else
      let next := concat rest
      ⟨r.items ++ next.items, next.error⟩

/-- A single tag. -/
def ofTag (t : TagDef) : TaglibReading := ⟨[.tag t], none⟩

/-- What is found if something that may fail succeeds. -/
def ofExcept (f : α → TaglibReading) : Except TaglibError α → TaglibReading
  | .ok a => f a
  | .error e => ⟨[], some e⟩

/-- The object in a text that was read from a file. -/
def fieldsOf (text : Text) (file : Path) : Except TaglibError JsonFields :=
  match JsonValue.parse? text with
  | none => .error (.notJson file)
  | some (.object fields) => .ok fields
  | some _ => .error (.notAnObject file)

/-- The text of a file. -/
def textOf (tree : FileTree) (file : Path) : Except TaglibError Text :=
  match tree.read file with
  | .ok s => .ok s.toList
  | .error _ => .error (.unreadable file)

/-- A tag whose definition is in a file of its own. -/
def ofTagFile (tree : FileTree) (file : Path) (tag : JsonFields → TagDef) : TaglibReading :=
  ofExcept (fun fields => ⟨[.source file, .tag (tag fields)], none⟩) do
    fieldsOf (← textOf tree file) file

/-- The name of the file that defines the tag of a folder. -/
def tagFileName : String := "marko-tag.json"

/-- The files in a folder whose names say how they implement a tag. -/
def conventionalFiles (tree : FileTree) (folder : Path) : TagFiles :=
  let existing (names : List String) : Option Path := (names.map folder.child).find? tree.isFile
  { renderer := existing ["renderer.js", "index.js"]
    template := existing ["index.marko", "template.marko"] }

/-- The tag of an entry of a tags folder: a folder with a definition or with files that implement
it, or a template. -/
def ofEntry (tree : FileTree) (entry : Path) : TaglibReading :=
  if tree.isFolder entry then
    match entry.fileName? with
    | none => {}
    | some name =>
      let tagFile := entry.child tagFileName
      let files := conventionalFiles tree entry
      if tree.isFile tagFile then
        ofTagFile tree tagFile fun fields =>
          let t := TagDef.ofJson name fields tagFile
          { t with files := t.files.orElse files }
      else if files.first?.isSome then ofTag { name := name, files := files }
      else {}
  else
    match entry.stem? with
    | some name =>
      if entry.extension? = some "marko" then
        ofTag { name := name, files := { template := some entry } }
      else {}
    | none => {}

/-- The tags of a tags folder. One that does not exist has none. -/
def ofFolder (tree : FileTree) (folder : Path) : TaglibReading :=
  match tree.list folder with
  | .ok entries => concat (entries.map (ofEntry tree))
  | .error .missing => {}
  | .error _ => ⟨[], some (.unreadable folder)⟩

/-- A tag that a library defines: by an object, by the name of a file with its definition, or by the
name of a file that implements it. -/
def ofTagValue (tree : FileTree) (name : String) (value : JsonValue) (file : Path) :
    TaglibReading :=
  match value with
  | .object fields => ofTag (TagDef.ofJson name fields file)
  | .string target =>
    let targetFile := file.folder.child target
    if ".json".toList.isSuffixOf target.toList then
      ofTagFile tree targetFile fun fields => TagDef.ofJson name fields targetFile
    else if ".marko".toList.isSuffixOf target.toList then
      ofTag { name := name, library := some file, files := { template := some targetFile } }
    else ofTag { name := name, library := some file, files := { renderer := some targetFile } }
  | _ => {}

/-- The name in a key that defines a tag, which stands in angle brackets. -/
def tagKey? (key : String) : Option String :=
  match key.toList with
  | '<' :: rest => if rest.getLast? = some '>' then some (String.ofList rest.dropLast) else none
  | _ => none

/-- What one field of a library says. -/
def ofField (tree : FileTree) (file : Path) (key : String) (value : JsonValue) : TaglibReading :=
  match tagKey? key with
  | some name => ofTagValue tree name value file
  | none =>
    if key = "tags" then
      match value with
      | .object tags => concat (tags.map fun (name, value) => ofTagValue tree name value file)
      | _ => {}
    else if key = "tags-dir" ∨ key = "tagsDir" then
      concat (value.strings.map fun folder => ofFolder tree (file.folder.child folder))
    else {}

/-- What the text of a library says. -/
def ofText (tree : FileTree) (text : Text) (file : Path) : TaglibReading :=
  ofExcept (fun fields =>
    concat (⟨[.source file], none⟩ :: fields.map fun (key, value) => ofField tree file key value))
    (fieldsOf text file)

/-- What a library says. -/
def ofFile (tree : FileTree) (file : Path) : TaglibReading :=
  ofExcept (ofText tree · file) (textOf tree file)

end TaglibReading

namespace Taglib

/-- Adds what was found. -/
def add (lib : Taglib) : TaglibItem → Taglib
  | .source p => { lib with sources := lib.sources ++ [p] }
  | .tag t => lib.insert t

/-- Adds all that was found. -/
def addAll (lib : Taglib) (r : TaglibReading) : Taglib := r.items.foldl add lib

/-- Adds what the text of a library says. What was found before an error stays. -/
def loadText (lib : Taglib) (tree : FileTree) (text : Text) (file : Path) :
    Taglib × Option TaglibError :=
  let r := TaglibReading.ofText tree text file
  (lib.addAll r, r.error)

/-- Adds what a library says. -/
def loadFile (lib : Taglib) (tree : FileTree) (file : Path) : Taglib × Option TaglibError :=
  let r := TaglibReading.ofFile tree file
  (lib.addAll r, r.error)

/-- Adds the tags of a tags folder. -/
def loadFolder (lib : Taglib) (tree : FileTree) (folder : Path) : Taglib × Option TaglibError :=
  let r := TaglibReading.ofFolder tree folder
  (lib.addAll r, r.error)

end Taglib

end TemplateEditing
