import LintTypes.Document.Record
import LintTypes.Style

/-!
# Options documents

The options of a run: where the declarations go, what is put before the names of rules, and the
style of the declarations. A document names what it changes; everything has a default.
-/

namespace LintTypes

/-- The options of a run. -/
structure Options where
  /-- The folder that everything is written to. -/
  distFolder : String := "dist"
  /-- Put before every rule name in the index. -/
  rulesPrefix : String := ""
  /-- The style of the declarations. -/
  style : Style := {}
deriving DecidableEq, Repr, Inhabited

namespace Options

open Document

/-- The form of the style. -/
def styleForm : Form Style where
  expected := "struct StyleOptions"
  start := {}
  fields := [
    .of "bannerComment" (readText "a string") fun value style =>
      { style with bannerComment := value },
    .of "semi" readBool fun value style => { style with semi := value },
    .of "singleQuote" readBool fun value style => { style with singleQuote := value },
    .of "additionalProperties" readBool fun value style =>
      { style with additionalProperties := value },
    .of "unknownAny" readBool fun value style => { style with unknownAny := value },
    .of "ignoreMinAndMaxItems" readBool fun value style =>
      { style with ignoreMinAndMaxItems := value },
    .of "printWidth" readCount fun value style => { style with printWidth := value }]

/-- The form of the options. -/
def form : Form Options where
  expected := "struct Options"
  start := {}
  fields := [
    .of "distFolder" (readText "path string") fun value options =>
      { options with distFolder := value },
    .of "rulesPrefix" (readText "a string") fun value options =>
      { options with rulesPrefix := value },
    .of "style" (readRecord styleForm) fun value options => { options with style := value }]

/-- The options in a document. -/
def ofText (text : String) : Except Fault Options := Document.ofText (readRecord form) text

/-- The style as it is written in a document. -/
def styleJson (style : Style) : Json := .object [
  ("bannerComment", .string style.bannerComment),
  ("semi", .bool style.semi),
  ("singleQuote", .bool style.singleQuote),
  ("additionalProperties", .bool style.additionalProperties),
  ("unknownAny", .bool style.unknownAny),
  ("ignoreMinAndMaxItems", .bool style.ignoreMinAndMaxItems),
  ("printWidth", .number (.integer style.printWidth))]

/-- The options as they are written in a document. -/
def toJson (options : Options) : Json := .object [
  ("distFolder", .string options.distFolder),
  ("rulesPrefix", .string options.rulesPrefix),
  ("style", styleJson options.style)]

end Options

end LintTypes
