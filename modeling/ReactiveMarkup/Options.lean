import ReactiveMarkup.Error
import ReactiveMarkup.Unicode.Case
import ReactiveMarkup.Pattern.Reader
import ReactiveMarkup.Value.Record

/-!
# Options

What a host can set: the three patterns that find bindings in text and columns in templates, the
attribute that marks commands, the wrapper tags, the namespaces that are never waited for, and free
settings. Every option has a default. Options with a pattern that cannot be read, or that has no
group for the body of a binding, are refused.
-/

namespace ReactiveMarkup

structure Options where
  /-- Finds object bindings; group 1 is the list of alternatives. -/
  objectPattern : String := "\\[##(.*?)##\\]"
  /-- Finds code bindings; group 1 is the expression. -/
  codeBlockPattern : String := "\\\x7b##([\\s\\S]*?)##\\\x7d"
  /-- Finds the columns a template shows; group 1 is the name of the column. -/
  rowPattern : String := "@([A-Za-z_][A-Za-z0-9_]*)"
  /-- The attribute that marks an element as a command and holds its keyword. -/
  commandAttribute : String := "core"
  /-- Tags of wrappers, which are replaced by their children. -/
  passthroughTags : List String := ["basis"]
  /-- Namespaces of sources that are never waited for. -/
  reservedNamespaces : List String := ["cms"]
  /-- Values a scope hands out by name. -/
  settings : Fields := []

/-- The patterns of some options, ready to match. -/
structure BindingPatterns where
  object : Pattern
  code : Pattern
  row : Pattern

namespace BindingPatterns

/-- Whether a text holds a binding of either form. -/
def isBinding (patterns : BindingPatterns) (text : String) : Bool :=
  patterns.object.occurs text || patterns.code.occurs text

/-- A pattern with at least one group. -/
def compile (name text : String) : Except Error Pattern :=
  match Pattern.read text with
  | none => .error (.invalidOptions (.badPattern name))
  | some pattern =>
    if pattern.groups = 0 then .error (.invalidOptions (.noGroup name)) else .ok pattern

end BindingPatterns

namespace Options

/-- The compiled patterns, or what is wrong with the first bad one. -/
def patterns (options : Options) : Except Error BindingPatterns := do
  let object ← BindingPatterns.compile "objectPattern" options.objectPattern
  let code ← BindingPatterns.compile "codeBlockPattern" options.codeBlockPattern
  let row ← BindingPatterns.compile "rowPattern" options.rowPattern
  return ⟨object, code, row⟩

/-- The names of the options in the order of their declaration. -/
def names : List String :=
  ["objectPattern", "codeBlockPattern", "rowPattern", "commandAttribute", "passthroughTags",
    "reservedNamespaces", "settings"]

/-- The options a document holds. -/
def decode (document : Document) : Option Options := do
  let fields ← document.record names
  let default : Options := {}
  return {
    objectPattern := ← Document.field fields "objectPattern" default.objectPattern Document.text?
    codeBlockPattern :=
      ← Document.field fields "codeBlockPattern" default.codeBlockPattern Document.text?
    rowPattern := ← Document.field fields "rowPattern" default.rowPattern Document.text?
    commandAttribute :=
      ← Document.field fields "commandAttribute" default.commandAttribute Document.text?
    passthroughTags :=
      ← Document.field fields "passthroughTags" default.passthroughTags Document.texts?
    reservedNamespaces :=
      ← Document.field fields "reservedNamespaces" default.reservedNamespaces Document.texts?
    settings := ← Document.field fields "settings" default.settings
      (Document.fields? (Document.greatestDepth - 1)) }

/-- Reads options and checks their patterns. -/
def read (text : String) : Except Error Options :=
  match (Document.read text).bind decode with
  | none => .error (.invalidOptions .unreadable)
  | some options => do
    let _ ← options.patterns
    return options

/-- Options from the content of a file; without a file they are the defaults. -/
def load : Option String → Except Error Options
  | none => .ok {}
  | some content => read content

/-- What a host is told when the options at a path cannot be loaded. -/
def loadFailure (path : String) : String := "Failed to load options from " ++ path

/-- Whether the sources of an id's namespace are never waited for. -/
def isReserved (options : Options) (id : String) : Bool :=
  let space := String.ofList (id.toList.takeWhile (· != '.'))
  options.reservedNamespaces.any fun reserved => Unicode.sameName reserved space

def toValue (options : Options) : Value :=
  .object (Fields.ofList [
    ("objectPattern", .string options.objectPattern),
    ("codeBlockPattern", .string options.codeBlockPattern),
    ("rowPattern", .string options.rowPattern),
    ("commandAttribute", .string options.commandAttribute),
    ("passthroughTags", .array (options.passthroughTags.map .string)),
    ("reservedNamespaces", .array (options.reservedNamespaces.map .string)),
    ("settings", .object options.settings)])

end Options

end ReactiveMarkup
