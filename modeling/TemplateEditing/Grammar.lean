import TemplateEditing.File.Path
import TemplateEditing.Grammar.InRow

/-!
# Grammars

A grammar gives every place of a text its scopes. There are two: Marko templates, and plain text,
which has nothing but its root. Grammars work on rows that end at line feeds; a carriage return
before the line feed is not part of the row.
-/

namespace TemplateEditing

namespace Text

/-- The pieces of a text between its line feeds. -/
def cutAtLineFeeds : Text → List Text
  | [] => [[]]
  | c :: rest =>
    if c == '\n' then [] :: cutAtLineFeeds rest
    else
      match cutAtLineFeeds rest with
      | [] => [[c]]
      | piece :: more => (c :: piece) :: more

/-- A text without a carriage return at its end. -/
def dropReturn (t : Text) : Text := if t.getLast? = some '\r' then t.dropLast else t

/-- The rows that a grammar works on. -/
def grammarRows (t : Text) : List Text := (cutAtLineFeeds t).map dropReturn

end Text

/-- The languages known. -/
inductive Grammar where
  | marko
  | plain
deriving DecidableEq, Repr, Inhabited

namespace Grammar

/-- The root scope. -/
def root : Grammar → String
  | .marko => Scope.marko
  | .plain => Scope.plain

/-- The name shown to people. -/
def title : Grammar → String
  | .marko => "Marko"
  | .plain => "Plain Text"

/-- The extensions of files in this language. -/
def extensions : Grammar → List String
  | .marko => ["marko"]
  | .plain => ["txt"]

/-- All grammars, in the order in which they are tried. -/
def all : List Grammar := [.marko, .plain]

/-- The grammar of a root scope. -/
def ofRoot? (scope : String) : Option Grammar := all.find? (·.root == scope)

/-- The grammar of a file, by its extension. Files of unknown kinds are plain text. -/
def ofPath (p : Path) : Grammar :=
  (all.find? (·.extensions.contains (p.extension?.getD ""))).getD .plain

/-- The scopes of a text. -/
def tokenize (g : Grammar) (t : Text) : ScopeMap :=
  match g with
  | .marko =>
    (Lexer.readRows? { root := Scope.marko } {} t.grammarRows).get (Lexer.isSome_readRows? _ _ _)
  | .plain =>
    t.grammarRows.foldl (fun m row => m.addRow row.length) { root := Scope.plain }

theorem readRows?_eq_some_tokenize (t : Text) :
    Lexer.readRows? { root := Scope.marko } {} t.grammarRows = some (marko.tokenize t) :=
  (Option.some_get _).symm

theorem tokenize_marko (t : Text) :
    marko.tokenize t =
      { root := Scope.marko, rows := (Lexer.rows {} t.grammarRows).map ScopeRow.ofPieces } := by
  simp only [tokenize, Lexer.readRows?_eq, Option.get_some, List.nil_append]

/-- The rows of the scope map are those of the pieces that the lexer cuts the rows into. -/
theorem getElem?_rows_tokenize (t : Text) (row : Nat) :
    (marko.tokenize t).rows[row]? = (Lexer.rows {} t.grammarRows)[row]?.map ScopeRow.ofPieces := by
  rw [tokenize_marko, List.getElem?_map]

theorem root_tokenize_marko (t : Text) : (marko.tokenize t).root = Scope.marko := by
  rw [tokenize_marko]

theorem tokenize_plain (t : Text) :
    plain.tokenize t =
      { root := Scope.plain, rows := t.grammarRows.map fun row => { length := row.length } } := by
  suffices h : ∀ (m : ScopeMap) (rows : List Text),
      rows.foldl (fun m row => m.addRow row.length) m =
        { m with rows := m.rows ++ rows.map fun row => { length := row.length } } by
    exact h { root := Scope.plain } t.grammarRows
  intro m rows
  induction rows generalizing m with
  | nil => rw [List.foldl_nil, List.map_nil, List.append_nil]
  | cons row rows ih =>
    rw [List.foldl_cons, ih, ScopeMap.addRow, List.append_assoc, List.singleton_append,
      List.map_cons]

end Grammar

end TemplateEditing
