import TemplateEditing.CommandLine.Output

/-!
# The program

Carries out a command line and prints its report. The names of the project's files come on standard
input, one on a row, so that `find . -type f` in front of the program shows it the working
directory. The template and the settings files are read in any case. A file that cannot be read
counts as missing.
-/

namespace TemplateEditing

/-- The names on the rows of a stream. -/
partial def readNames (input : IO.FS.Stream) : IO (List String) := do
  let row ← input.getLine
  if row.isEmpty then return []
  let name := row.toList.filter fun c => c != '\n' && c != '\r'
  return String.ofList name :: (← readNames input)

/-- Adds the file of a name to a tree. -/
def addFile (tree : FileTree) (name : String) : IO FileTree := do
  match ← (IO.FS.readFile name).toBaseIO with
  | .ok content => return (tree.writeDeep (.ofString name) content).toOption.getD tree
  | .error _ => return tree

/-- The folder for a user's settings. -/
def userFolder : IO Path := do
  let own := (← IO.getEnv "XDG_CONFIG_HOME").map Path.ofString
  let home := Path.ofString ((← IO.getEnv "HOME").getD "/")
  return (own.filter Path.isAbsolute).getD (home.child ".config")

/-- How the program is used. -/
def usage : String := "\n".intercalate [
  "Tag matching, completion and navigation for Marko templates",
  "",
  "Usage: marko-lens [OPTIONS] <COMMAND> <FILE> <LINE:COLUMN>",
  "",
  "Commands:",
  "  scopes    Scopes, token and region at a position",
  "  match     The tag pair highlighted with the cursor at a position",
  "  complete  Completion suggestions at a position",
  "  goto      Where clicking a position leads",
  "  help      Print this message or the help of the given subcommand(s)",
  "",
  "Options:",
  "  -c, --config <FILE>  Config file (defaults to the user config directory)",
  "  -p, --project <DIR>  Project directory used when no package.json is found",
  "  -v, --verbose...     Verbose logging",
  "  -h, --help           Print help",
  "  -V, --version        Print version"]

end TemplateEditing

open TemplateEditing

/-- Carries out a command line. -/
def main (arguments : List String) : IO UInt32 := do
  match Invocation.parse arguments with
  | .error reason =>
    match reason with
    | .help => IO.println usage
    | .version => IO.println "marko-lens 0.1.0"
    | _ => IO.eprintln ("error: " ++ reason.message?.getD "invalid arguments" ++ "\n\n" ++ usage)
    return reason.exitCode.toUInt32
  | .ok invocation =>
    let names ← readNames (← IO.getStdin)
    let folder ← userFolder
    let given := invocation.file :: Settings.userFile folder :: invocation.settings.toList
    let start : FileTree := { entries := [(["/"], .folder)] }
    let tree ← (names ++ given.map Path.toString).foldlM addFile start
    match invocation.run tree folder (.similarity Float) with
    | .ok report =>
      IO.println report.text
      return 0
    | .error reason =>
      IO.eprintln ("Error: " ++ reason.message?.getD "a file or a taglib cannot be read")
      return 1
