import TemplateEditing.Text.Rows

/-!
# Snippets

A snippet is a text with places to fill in, in order: `$1`, `${1}` or, with a label,
`${1:name}`.
-/

namespace TemplateEditing

namespace Snippet

/-- A place to fill in at the front of a text: how many characters it takes, and its label. -/
def place? (t : Text) : Option (Nat × Option Text) :=
  match t with
  | '$' :: '\x7b' :: rest =>
    let number := rest.takeWhile Char.isDigit
    if number.isEmpty then none
    else
      match rest.drop number.length with
      | '\x7d' :: _ => some (number.length + 3, none)
      | ':' :: more =>
        let label := more.takeWhile (· != '\x7d')
        if label.isEmpty || label.length = more.length then none
        else some (number.length + label.length + 4, some label)
      | _ => none
  | '$' :: rest =>
    let number := rest.takeWhile Char.isDigit
    if number.isEmpty then none else some (number.length + 1, none)
  | _ => none

/-- What a snippet looks like in a list, after `skip` characters that belong to a place to fill in:
labels stand in angle brackets, other places are left out. -/
def displayAfter (skip : Nat) : Text → Text
  | [] => []
  | c :: rest =>
    match skip with
    | skip + 1 => displayAfter skip rest
    | 0 =>
      match place? (c :: rest) with
      | some (length, some label) => '<' :: label ++ '>' :: displayAfter (length - 1) rest
      | some (length, none) => displayAfter (length - 1) rest
      | none => c :: displayAfter 0 rest

/-- What a snippet looks like in a list. -/
def display (snippet : String) : String := String.ofList (displayAfter 0 snippet.toList)

end Snippet

end TemplateEditing
