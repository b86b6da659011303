import TemplateEditing.File.Path

/-!
# Definitions of tags

What a tag library says about a tag: how it is completed, which attributes it has, and the files
that implement it. The tag named `*` stands for all tags; its attributes may be used on each of
them.
-/

namespace TemplateEditing

/-- What to offer when a tag or an attribute is completed. -/
structure CompletionEntry where
  text : Option String := none
  snippet : Option String := none
  displayText : Option String := none
  description : Option String := none
  /-- The tag has no content. -/
  openTagOnly : Bool := false
deriving DecidableEq, Repr, Inhabited

/-- A value that an attribute may have. -/
inductive AllowedValue where
  | plain (value : String)
  | described (value : String) (description : Option String)
deriving DecidableEq, Repr, Inhabited

namespace AllowedValue

/-- The value itself. -/
def value : AllowedValue → String
  | plain v | described v _ => v

/-- What is said about the value. -/
def description? : AllowedValue → Option String
  | plain _ => none
  | described _ d => d

end AllowedValue

/-- The name of the tag that stands for all tags. -/
def globalTagName : String := "*"

/-- What is known about an attribute. -/
structure AttributeDef where
  name : String
  html : Bool := false
  deprecated : Bool := false
  /-- The kind of value, such as `string` or `expression`. -/
  valueType : Option String := none
  allowedValues : List AllowedValue := []
  completions : List CompletionEntry := []
  /-- The file it is declared in. -/
  file : Option Path := none
deriving DecidableEq, Repr, Inhabited

/-- The attribute is offered: it is neither deprecated nor private nor a wildcard. -/
def AttributeDef.isOffered (a : AttributeDef) : Bool :=
  !a.deprecated && a.name != globalTagName && a.name.toList.head? != some '_'

/-- The files that implement a tag. -/
structure TagFiles where
  renderer : Option Path := none
  template : Option Path := none
  codeGenerator : Option Path := none
  nodeFactory : Option Path := none
  transformer : Option Path := none
  /-- The file with the tag's definition. -/
  definition : Option Path := none
deriving DecidableEq, Repr, Inhabited

namespace TagFiles

/-- The files, the one that shows best how the tag works first. -/
def toList (f : TagFiles) : List Path :=
  [f.renderer, f.template, f.codeGenerator, f.nodeFactory, f.transformer, f.definition].filterMap id

/-- The file to open for the tag. -/
def first? (f : TagFiles) : Option Path := f.toList.head?

/-- The files of `f`, and those of `g` where `f` has none. -/
def orElse (f g : TagFiles) : TagFiles where
  renderer := f.renderer.or g.renderer
  template := f.template.or g.template
  codeGenerator := f.codeGenerator.or g.codeGenerator
  nodeFactory := f.nodeFactory.or g.nodeFactory
  transformer := f.transformer.or g.transformer
  definition := f.definition.or g.definition

end TagFiles

/-- What is known about a tag. -/
structure TagDef where
  name : String
  html : Bool := false
  deprecated : Bool := false
  /-- The tag has no content. -/
  openTagOnly : Bool := false
  completions : List CompletionEntry := []
  /-- The attributes, in the order in which they were first declared. -/
  attributes : List AttributeDef := []
  /-- The tag library that declares it. -/
  library : Option Path := none
  files : TagFiles := {}
deriving DecidableEq, Repr, Inhabited

namespace TagDef

/-- The tag stands for all tags. -/
def isGlobal (t : TagDef) : Bool := t.name == globalTagName

/-- The tag is offered: it is neither deprecated nor private nor a wildcard. -/
def isOffered (t : TagDef) : Bool :=
  !t.deprecated && !t.name.toList.contains '*' && t.name.toList.head? != some '_'

/-- The attribute of a name. -/
def attribute? (t : TagDef) (name : String) : Option AttributeDef :=
  t.attributes.find? (·.name == name)

/-- Puts an attribute in the stead of the one with its name, or behind all others. -/
def putIn (a : AttributeDef) : List AttributeDef → List AttributeDef
  | [] => [a]
  | b :: rest => if b.name = a.name then a :: rest else b :: putIn a rest

/-- Declares an attribute. -/
def setAttribute (t : TagDef) (a : AttributeDef) : TagDef :=
  { t with attributes := putIn a t.attributes }

/-- The file to open for the tag. -/
def file? (t : TagDef) : Option Path := t.files.first?

/-- A tag with a later definition of it laid over. Flags are those of the later one; other parts
only where the later one has some. -/
def merge (t later : TagDef) : TagDef where
  name := t.name
  html := later.html
  deprecated := later.deprecated
  openTagOnly := later.openTagOnly
  completions := if later.completions.isEmpty then t.completions else later.completions
  attributes := later.attributes.foldl (fun as a => putIn a as) t.attributes
  library := later.library.or t.library
  files := later.files.orElse t.files

end TagDef

end TemplateEditing
