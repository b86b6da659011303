/-!
# Scope names

The names that the Marko grammar gives to the pieces of a template.
-/

namespace TemplateEditing.Scope

/-- Root of Marko templates. -/
def marko : String := "text.marko"
/-- Root of texts without a grammar. -/
def plain : String := "text.plain"

/-- The bracket in front of an open tag. -/
def tagBeginOpen : String := "punctuation.definition.marko-tag.begin.open.html"
/-- The bracket and slash in front of a close tag. -/
def tagBeginClose : String := "punctuation.definition.marko-tag.begin.close.html"
/-- The bracket behind an open tag. -/
def tagEndOpen : String := "punctuation.definition.marko-tag.end.open.html"
/-- The bracket behind a close tag. -/
def tagEndClose : String := "punctuation.definition.marko-tag.end.close.html"
/-- The slash and bracket behind a tag that closes itself. -/
def tagEndSelfClose : String := "punctuation.definition.marko-tag.end.self-close.html"

/-- The name of an open tag. -/
def tagName : String := "entity.name.tag.html"
/-- The name of a close tag. -/
def tagNameClose : String := "entity.name.tag.close.html"
/-- The name of a tag written without brackets. -/
def tagNameConcise : String := "entity.name.tag.concise"

/-- All of an open tag. -/
def metaTagOpen : String := "meta.tag.open.html"
/-- All of a close tag. -/
def metaTagClose : String := "meta.tag.close.html"
/-- All of a tag written without brackets. -/
def metaTagConcise : String := "meta.tag.concise"

/-- The name of an attribute. -/
def attributeName : String := "entity.other.attribute-name.html"
/-- The sign between the name and the value of an attribute. -/
def keyValue : String := "punctuation.separator.key-value.html"

/-- A string in double quotes. -/
def stringDouble : String := "string.quoted.double.html"
/-- A string in single quotes. -/
def stringSingle : String := "string.quoted.single.html"
/-- The quote in front of a string. -/
def stringBegin : String := "punctuation.definition.string.begin.html"
/-- The quote behind a string. -/
def stringEnd : String := "punctuation.definition.string.end.html"

/-- Script code. -/
def sourceScript : String := "source.js"
/-- Style code. -/
def sourceStyle : String := "source.css"
/-- A comment between comment brackets. -/
def commentBlock : String := "comment.block.html"
/-- A comment up to the end of its row. -/
def commentLine : String := "comment.line.double-slash.js"

end TemplateEditing.Scope
