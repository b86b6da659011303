import TemplateEditing.Assistant
import TemplateEditing.CommandLine.Arguments
import TemplateEditing.Settings.File

/-!
# Carrying out a command

A command reads the settings, opens the template and answers with a report, or says what went
wrong.
-/

namespace TemplateEditing

/-- A tag that is shown. -/
structure TagReport where
  name : Option Text
  range : Option Range
deriving DecidableEq, Repr, Inhabited

/-- The answer to a command. -/
inductive Report (R : Type) where
  | scopes (chain : ScopeChain)
  | tags (opening closing : Option TagReport) (highlighted : List Range)
  | completions (suggestions : List (Suggestion R))
  /-- What the click is on, where it leads, and the position there if it was found. -/
  | link (found : Option (Click × LinkTarget × Option Position))

/-- Why a command fails. -/
inductive CommandError where
  | settings (file : Path) (e : SettingsError)
  | template (file : Path) (e : FileError)
  | taglib (e : TaglibError)
  /-- The file that a link leads to cannot be read. -/
  | target (file : Path) (e : FileError)
deriving DecidableEq, Repr, Inhabited

/-- What is said about a failure, as far as it does not tell of the system or of JSON. -/
def CommandError.message? : CommandError → Option String
  | settings file _ => some ("Failed to load config " ++ file.toString)
  | template file _ => some ("Failed to open " ++ file.toString)
  | taglib e => e.message?.map ("Taglib error: " ++ ·)
  | target _ _ => none

namespace Invocation

/-- The settings that a command is carried out with. -/
def settingsIn (i : Invocation) (tree : FileTree) (userFolder : Path) :
    Except CommandError Settings :=
  match i.settings with
  | none => .ok (Settings.loadUser tree userFolder)
  | some file => (Settings.load tree file).mapError (.settings file)

private def report (d : Document) (t : LiveTag) : TagReport := ⟨t.name? d, t.range? d⟩

/-- Carries a command out. Without a settings file, a user's settings are looked for in
`userFolder`. -/
def run {R : Type} [ScoreNumber R] (i : Invocation) (tree : FileTree) (userFolder : Path)
    (scorer : Scorer R) : Except CommandError (Report R) := do
  let settings ← i.settingsIn tree userFolder
  let d ← (Document.load tree i.file).mapError (.template i.file)
  let assistant := Assistant.start settings i.project scorer
  match i.command with
  | .scopes => .ok (.scopes (d.scopesAt i.position))
  | .tags =>
    let s := (Session.start d settings).moveCursor i.position
    let pair := s.matcher.pair
    .ok (.tags (pair.map fun p => report s.document p.opening)
      ((pair.bind (·.closing)).map (report s.document)) s.highlighted)
  | .complete => do
    let suggestions ← (assistant.suggestions tree d i.position).1.mapError .taglib
    .ok (.completions suggestions)
  | .follow => do
    match ← (assistant.follow tree d i.position).1.mapError .taglib with
    | none => .ok (.link none)
    | some (c, target) =>
      let landing ← (target.locate tree).mapError (.target target.path)
      .ok (.link (some (c, target, landing)))

end Invocation

end TemplateEditing
