import TemplateEditing.File.Tree
import TemplateEditing.Settings
import TemplateEditing.Toml.Reader
import TemplateEditing.Toml.Writer

/-!
# Settings files

Settings are kept in a TOML document with one table for each group. What a file does not set has its
usual value, and what is not a setting is ignored, but a setting of the wrong kind makes the whole
file unusable.
-/

namespace TemplateEditing

/-- Why settings cannot be read. -/
inductive SettingsError where
  /-- The file cannot be read or written. -/
  | file (e : FileError)
  /-- The file is not TOML, or a setting is of the wrong kind. -/
  | malformed
deriving DecidableEq, Repr, Inhabited

namespace Settings

/-! ## Reading -/

/-- The settings of a group. A list has them in order; a date has none. -/
def groupFields? (names : List String) : Option TomlValue → Option TomlFields
  | none | some (.date _) => some []
  | some (.table _ fields) => some fields
  | some (.array items) => some (names.zip items)
  | some (.tables items) => some (names.zip (items.reverse.map (.table .header)))
  | some _ => none

/-- A truth value. -/
def flag? (fields : TomlFields) (key : String) (usual : Bool) : Option Bool :=
  match fields.lookup key with
  | none => some usual
  | some (.boolean b) => some b
  | some _ => none

/-- A text. -/
def text? (fields : TomlFields) (key : String) (usual : String) : Option String :=
  match fields.lookup key with
  | none => some usual
  | some (.string s) => some s
  | some _ => none

/-- A number that fits into 32 bits. -/
def number? (fields : TomlFields) (key : String) (usual : Nat) : Option Nat :=
  match fields.lookup key with
  | none => some usual
  | some (.integer i) => if 0 ≤ i ∧ i.toNat < Nat.pow 2 32 then some i.toNat else none
  | some _ => none

/-- A list of texts. -/
def texts? (fields : TomlFields) (key : String) (usual : List String) : Option (List String) :=
  match fields.lookup key with
  | none => some usual
  | some (.array items) => items.mapM fun
    | .string s => some s
    | _ => none
  | some _ => none

/-- How pairs of tags are shown. -/
def tagMatching? (v : Option TomlValue) : Option TagMatchingSettings := do
  let usual : TagMatchingSettings := {}
  let f ← groupFields? ["enabled", "highlight_class", "rename_together", "special_chars"] v
  some
    { enabled := ← flag? f "enabled" usual.enabled
      highlightClass := ← text? f "highlight_class" usual.highlightClass
      renameTogether := ← flag? f "rename_together" usual.renameTogether
      structuralChars := ← text? f "special_chars" usual.structuralChars }

/-- When completions are offered. -/
def completion? (v : Option TomlValue) : Option CompletionSettings := do
  let usual : CompletionSettings := {}
  let f ← groupFields? ["enabled", "trigger_after_rename", "min_marko_version"] v
  some
    { enabled := ← flag? f "enabled" usual.enabled
      afterRename := ← flag? f "trigger_after_rename" usual.afterRename
      minVersion := ← number? f "min_marko_version" usual.minVersion }

/-- How clicks are followed. -/
def links? (v : Option TomlValue) : Option LinkSettings := do
  let usual : LinkSettings := {}
  let f ← groupFields? ["enabled", "component_files"] v
  some
    { enabled := ← flag? f "enabled" usual.enabled
      componentFiles := ← texts? f "component_files" usual.componentFiles }

/-- Where tag libraries are found. -/
def taglibs? (v : Option TomlValue) : Option TaglibSettings := do
  let usual : TaglibSettings := {}
  let f ← groupFields? ["file_names", "scan_node_modules", "invalidate_on_save"] v
  some
    { fileNames := ← texts? f "file_names" usual.fileNames
      scanPackages := ← flag? f "scan_node_modules" usual.scanPackages
      watchedFiles := ← texts? f "invalidate_on_save" usual.watchedFiles }

/-- The settings in a document. -/
def ofToml? (fields : TomlFields) : Option Settings := do
  some
    { tagMatching := ← tagMatching? (fields.lookup "tag_matching")
      completion := ← completion? (fields.lookup "autocomplete")
      links := ← links? (fields.lookup "hyperclick")
      taglibs := ← taglibs? (fields.lookup "taglib") }

/-- The settings in a file. -/
def load (tree : FileTree) (file : Path) : Except SettingsError Settings :=
  match tree.read file with
  | .error e => .error (.file e)
  | .ok s =>
    match (Toml.parse? s.toList).bind ofToml? with
    | some settings => .ok settings
    | none => .error .malformed

/-- The file that a user's settings are kept in, below the folder for settings. -/
def userFile (folder : Path) : Path := (folder.child "marko-lens").child "config.toml"

/-- A user's settings, or the usual ones if they cannot be read. -/
def loadUser (tree : FileTree) (folder : Path) : Settings :=
  match load tree (userFile folder) with
  | .ok settings => settings
  | .error _ => {}

/-! ## Writing -/

private def writeTexts (ss : List String) : Text := Toml.writeStrings (ss.map String.toList)

/-- The document that settings are kept in. -/
def write (s : Settings) : Text :=
  open Toml in
  let tables :=
    [writeTable "tag_matching"
      [writeField "enabled" (writeBool s.tagMatching.enabled),
        writeField "highlight_class" (writeString s.tagMatching.highlightClass.toList),
        writeField "rename_together" (writeBool s.tagMatching.renameTogether),
        writeField "special_chars" (writeString s.tagMatching.structuralChars.toList)],
      writeTable "autocomplete"
      [writeField "enabled" (writeBool s.completion.enabled),
        writeField "trigger_after_rename" (writeBool s.completion.afterRename),
        writeField "min_marko_version" (Nat.toDigits 10 s.completion.minVersion)],
      writeTable "hyperclick"
      [writeField "enabled" (writeBool s.links.enabled),
        writeField "component_files" (writeTexts s.links.componentFiles)],
      writeTable "taglib"
      [writeField "file_names" (writeTexts s.taglibs.fileNames),
        writeField "scan_node_modules" (writeBool s.taglibs.scanPackages),
        writeField "invalidate_on_save" (writeTexts s.taglibs.watchedFiles)]]
  ['\n'].intercalate tables

/-- Writes settings to a file, making the folders on the way. -/
def save (s : Settings) (tree : FileTree) (file : Path) : Except SettingsError FileTree :=
  match tree.writeDeep file (String.ofList s.write) with
  | .ok tree => .ok tree
  | .error e => .error (.file e)

end Settings

end TemplateEditing
