import TemplateEditing.Taglib.Definition

/-!
# Tag libraries

A tag library is a list of tags, in the order of their names, and of the files it was read from.
Libraries are layered: what is added later is laid over what is there.
-/

namespace TemplateEditing

/-- The tags that are known. -/
structure Taglib where
  /-- The tags, by rising name. -/
  tags : List TagDef := []
  /-- The files that were read, in that order. -/
  sources : List Path := []
deriving DecidableEq, Repr, Inhabited

namespace Taglib

/-- Lays a tag over the one with its name, or puts it at its place in the order of names. -/
def insertIn (t : TagDef) : List TagDef → List TagDef
  | [] => [t]
  | u :: rest =>
    if u.name < t.name then u :: insertIn t rest
    else if u.name = t.name then u.merge t :: rest
    else t :: u :: rest

/-- Adds a tag. -/
def insert (lib : Taglib) (t : TagDef) : Taglib := { lib with tags := insertIn t lib.tags }

/-- Lays all tags of another library over this one. -/
def extend (lib other : Taglib) : Taglib :=
  other.tags.foldl insert { lib with sources := lib.sources ++ other.sources }

/-! ## Looking things up -/

/-- The tag of a name. -/
def tag? (lib : Taglib) (name : String) : Option TagDef := lib.tags.find? (·.name == name)

/-- The tag that stands for all tags. -/
def globalTag? (lib : Taglib) : Option TagDef := lib.tag? globalTagName

/-- The attributes that may be used on a tag, each with the tag that declares it: first those of the
tag itself, then those of all tags that it does not declare anew. -/
def attributesOf (lib : Taglib) (tagName : String) : List (AttributeDef × TagDef) :=
  let tag := lib.tag? tagName
  let own := match tag with
    | some t => t.attributes.map (·, t)
    | none => []
  let shared := match lib.globalTag? with
    | some g => (g.attributes.filter fun a => (tag.bind (·.attribute? a.name)).isNone).map (·, g)
    | none => []
  own ++ shared

/-- An attribute as it may be used on a tag. -/
def attribute? (lib : Taglib) (tagName name : String) : Option AttributeDef :=
  ((lib.tag? tagName).bind (·.attribute? name)).or (lib.globalTag?.bind (·.attribute? name))

end Taglib

end TemplateEditing
