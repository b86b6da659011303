import TemplateEditing.Taglib.Basic

/-!
# HTML

The common tags and attributes of HTML, with the values that some attributes may have.
-/

namespace TemplateEditing

namespace Html

/-- Tags with content. -/
def contentTags : List String :=
  ["a", "abbr", "address", "article", "aside", "audio", "b", "blockquote", "body", "button",
    "canvas", "caption", "code", "dd", "details", "div", "dl", "dt", "em", "fieldset",
    "figcaption", "figure", "footer", "form", "h1", "h2", "h3", "h4", "h5", "h6", "head", "header",
    "html", "i", "iframe", "label", "legend", "li", "main", "nav", "noscript", "ol", "optgroup",
    "option", "p", "pre", "section", "select", "small", "span", "strong", "sub", "summary", "sup",
    "table", "tbody", "td", "template", "textarea", "tfoot", "th", "thead", "title", "tr", "u",
    "ul", "video", "script", "style"]

/-- Tags without content. -/
def voidTags : List String :=
  ["area", "base", "br", "col", "embed", "hr", "img", "input", "link", "meta", "param", "source",
    "track", "wbr"]

/-- Attributes of all tags. -/
def globalAttributes : List String :=
  ["accesskey", "class", "contenteditable", "draggable", "hidden", "id", "lang", "role", "style",
    "tabindex", "title", "onclick", "onchange", "oninput", "onsubmit", "onkeydown", "onkeyup",
    "onfocus", "onblur", "onmouseover", "onmouseout"]

/-- Attributes of single tags. -/
def tagAttributes : List (String × List String) :=
  [
    ("a", ["href", "download", "rel", "hreflang"]),
    ("audio", ["src", "autoplay", "controls", "loop", "muted"]),
    ("button", ["disabled", "name", "value", "form"]),
    ("form", ["action", "enctype", "name", "novalidate"]),
    ("iframe", ["src", "name", "width", "height", "allow"]),
    ("img", ["src", "alt", "width", "height", "srcset", "sizes"]),
    ("input", ["name", "value", "placeholder", "checked", "disabled", "readonly", "required",
      "min", "max", "step", "pattern"]),
    ("label", ["for", "form"]),
    ("link", ["href", "media", "type", "sizes"]),
    ("meta", ["name", "content", "charset", "http-equiv"]),
    ("option", ["value", "selected", "disabled", "label"]),
    ("script", ["src", "async", "defer", "type", "integrity"]),
    ("select", ["name", "multiple", "disabled", "required", "size"]),
    ("td", ["colspan", "rowspan", "headers"]),
    ("textarea", ["name", "rows", "cols", "placeholder", "disabled", "readonly", "required"]),
    ("th", ["colspan", "rowspan", "scope"]),
    ("video", ["src", "autoplay", "controls", "loop", "muted", "poster", "width", "height"])]

/-- Attributes whose values are known, with their tags. -/
def valuedAttributes : List (String × String × List String) :=
  [
    (globalTagName, "dir", ["ltr", "rtl", "auto"]),
    ("a", "target", ["_blank", "_self", "_parent", "_top"]),
    ("button", "type", ["button", "submit", "reset"]),
    ("form", "method", ["get", "post", "dialog"]),
    ("form", "target", ["_blank", "_self", "_parent", "_top"]),
    ("input", "type", ["button", "checkbox", "color", "date", "datetime-local", "email", "file",
      "hidden", "image", "month", "number", "password", "radio", "range", "reset", "search",
      "submit", "tel", "text", "time", "url", "week"]),
    ("link", "rel", ["stylesheet", "icon", "preload", "prefetch", "alternate", "canonical"]),
    ("script", "type", ["module", "text/javascript"])]

/-- An attribute of HTML. -/
def attributeDef (name : String) : AttributeDef :=
  { name := name, html := true, valueType := some "string" }

/-- An attribute of HTML whose values are known. -/
def valuedAttributeDef (name : String) (values : List String) : AttributeDef :=
  { attributeDef name with allowedValues := values.map .plain }

/-- What HTML declares on a tag: first its plain attributes, then those with known values. -/
def attributesOf (tag : String) : List AttributeDef :=
  let plain := (tagAttributes.filter (·.1 == tag)).flatMap fun (_, names) => names.map attributeDef
  let valued := (valuedAttributes.filter (·.1 == tag)).map fun (_, name, values) =>
    valuedAttributeDef name values
  plain ++ valued

/-- A tag of HTML. -/
def tagDef (openTagOnly : Bool) (name : String) : TagDef :=
  (attributesOf name).foldl TagDef.setAttribute
    { name := name, html := true, openTagOnly := openTagOnly }

/-- The tag that holds the attributes of all tags. -/
def globalTag : TagDef :=
  (attributesOf globalTagName).foldl TagDef.setAttribute
    { name := globalTagName, html := true, attributes := globalAttributes.map attributeDef }

end Html

/-- The tags of HTML. -/
def Taglib.html : Taglib :=
  (Html.contentTags.map (Html.tagDef false) ++ Html.voidTags.map (Html.tagDef true) ++
    [Html.globalTag]).foldl Taglib.insert {}

end TemplateEditing
