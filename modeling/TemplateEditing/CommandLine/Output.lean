import TemplateEditing.CommandLine.Report
import TemplateEditing.Json.Printer

/-!
# Printed reports

A report is printed as JSON. Kinds are printed as words, positions and ranges as objects, and what
is missing as `null`.
-/

namespace TemplateEditing

open JsonSyntax (record ofOption ofText ofString ofNat)

/-! ## Positions and scopes -/

/-- A position as it is printed. -/
def Position.toJson (p : Position) : JsonSyntax :=
  record [("row", ofNat p.row), ("column", ofNat p.column)]

/-- A range as it is printed. -/
def Range.toJson (r : Range) : JsonSyntax :=
  record [("start", r.start.toJson), ("end", r.stop.toJson)]

/-- The word for a kind of token. -/
def TokenKind.word : TokenKind → String
  | openTagStart => "OPEN_TAG_START"
  | closeTagStart => "CLOSE_TAG_START"
  | openTagEnd => "OPEN_TAG_END"
  | selfClosingEnd => "OPEN_TAG_END_SELF_CLOSE"
  | closeTagEnd => "CLOSE_TAG_END"
  | openTagName => "OPEN_TAG_NAME"
  | closeTagName => "CLOSE_TAG_NAME"
  | attributeName => "ATTR_NAME"

/-- A token as it is printed. -/
def Token.toJson (t : Token) : JsonSyntax :=
  record [("kind", ofString t.kind.word), ("concise", .bool t.concise)]

/-- A region as it is printed. -/
def Region.toJson : Region → JsonSyntax
  | tag concise => record [("tag", record [("concise", .bool concise)])]
  | string => ofString "string"
  | attributeSeparator => ofString "attr_separator"
  | attributeName => ofString "attr_name"

/-! ## Suggestions -/

/-- The word for a kind of suggestion. -/
def SuggestionKind.word : SuggestionKind → String
  | tag => "tag"
  | attributeName => "attribute"
  | value => "value"

/-- A suggestion as it is printed. -/
def Suggestion.toJson (s : Suggestion Float) : JsonSyntax :=
  record [("kind", ofString s.kind.word), ("text", ofOption ofString s.text),
    ("snippet", ofOption ofString s.snippet), ("display_text", ofOption ofString s.displayText),
    ("description", ofOption ofString s.description),
    ("left_label", ofOption ofString s.leftLabel), ("right_label", ofOption ofString s.rightLabel),
    ("sort_text", ofString s.sortText), ("sort_priority", ofNat s.priority),
    ("sort_score", .ofFloat s.score), ("replacement_prefix", ofString s.replaced),
    ("trigger_autocomplete_after_insert", .bool s.continues)]

/-! ## Links -/

/-- What was clicked, as it is printed. -/
def ClickTarget.toJson : ClickTarget → JsonSyntax
  | tag name hasArgument =>
    record [("type", ofString "tag"), ("tag_name", ofText name),
      ("has_argument", .bool hasArgument)]
  | attributeName tagName name hasArgument =>
    record [("type", ofString "attribute"), ("tag_name", ofText tagName),
      ("attribute_name", ofText name), ("has_argument", .bool hasArgument)]
  | literal value owner =>
    record [("type", ofString "literal"), ("value", ofText value),
      ("attribute_name", ofOption (fun o => ofText o.1) owner),
      ("attribute_has_argument", .bool (owner.any (·.2)))]
  | state => record [("type", ofString "state_var")]
  | data => record [("type", ofString "data_var")]

/-- A click as it is printed. -/
def Click.toJson (c : Click) : JsonSyntax :=
  record [("range", c.range.toJson), ("target", c.target.toJson)]

/-- A landing place as it is printed. -/
def Landing.toJson : Landing → JsonSyntax
  | start => record [("type", ofString "start")]
  | pattern source => record [("type", ofString "pattern"), ("pattern", ofText source)]
  | declaration tagName name =>
    record [("type", ofString "attribute"), ("tag_name", ofText tagName),
      ("attribute_name", ofText name)]

/-- The word for what a link leads to. -/
def LinkKind.word : LinkKind → String
  | eventHandler => "event_handler"
  | file => "file"
  | declaration => "attribute"
  | tag => "tag"
  | state => "state"
  | data => "data"

/-- Where a link leads, as it is printed. -/
def LinkTarget.toJson (t : LinkTarget) : JsonSyntax :=
  record [("kind", ofString t.kind.word), ("path", ofString t.path.toString),
    ("landing", t.landing.toJson)]

/-! ## Reports -/

/-- A tag as it is printed. -/
def TagReport.toJson (t : TagReport) : JsonSyntax :=
  record [("name", ofOption ofText t.name), ("range", ofOption Range.toJson t.range)]

namespace Report

/-- A report as it is printed. -/
def toJson : Report Float → JsonSyntax
  | scopes chain =>
    record [("scopes", .array (chain.map ofString)), ("token", ofOption Token.toJson chain.token?),
      ("region", ofOption Region.toJson chain.region?)]
  | tags opening closing highlighted =>
    record [("open", ofOption TagReport.toJson opening),
      ("close", ofOption TagReport.toJson closing),
      ("highlighted", .array (highlighted.map Range.toJson))]
  | completions suggestions => .array (suggestions.map Suggestion.toJson)
  | link none => .null
  | link (some (c, target, landing)) =>
    record [("inspection", c.toJson), ("target", target.toJson),
      ("landing", ofOption Position.toJson landing)]

/-- The text of a report. -/
def text (r : Report Float) : String := String.ofList (r.toJson.print 0)

end Report

end TemplateEditing
