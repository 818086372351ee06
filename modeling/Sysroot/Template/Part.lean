import Sysroot.Template.Fault

/-!
# The parts of a text

A field may step from a text into its named parts.  The parts of a text are its operations,
each under its own name, and its kind.  An operation in turn has a name, a longer name that
says where it belongs, and the text it is an operation of, so that steps can go on.

An operation shows itself by its name and the kind of its holder.  Its text also tells where
the operation is stored, which no reader can rely on: here every operation is stored at one
place.
-/

namespace Sysroot.Template

/-- What kind of thing a field stands for. -/
inductive Kind where
  /-- What every other kind is a case of. -/
  | anything
  | text
  /-- An operation called by its name. -/
  | plain
  /-- An operation that stands behind a sign, such as the length or a comparison. -/
  | special
  | declaredPlain
  | declaredSpecial
  | kind
  | nothing
deriving DecidableEq, Repr

/-- The name of a kind. -/
def Kind.name : Kind → String
  | anything => "object"
  | text => "str"
  | plain => "builtin_function_or_method"
  | special => "method-wrapper"
  | declaredPlain => "method_descriptor"
  | declaredSpecial => "wrapper_descriptor"
  | kind => "type"
  | nothing => "NoneType"

/-- The operations of everything that are called by their names. -/
def commonPlain : List String :=
  ["__dir__", "__format__", "__getstate__", "__init_subclass__", "__new__", "__reduce__",
    "__reduce_ex__", "__sizeof__", "__subclasshook__"]

/-- The operations of everything that stand behind a sign. -/
def commonSpecial : List String :=
  ["__delattr__", "__eq__", "__ge__", "__getattribute__", "__gt__", "__hash__", "__init__",
    "__le__", "__lt__", "__ne__", "__repr__", "__setattr__", "__str__"]

/-- The operations that a kind adds and that are called by their names. -/
def Kind.ownPlain : Kind → List String
  | kind => ["__instancecheck__", "__subclasscheck__", "__subclasses__", "mro"]
  | text => ["__getnewargs__", "capitalize", "casefold", "center", "count", "encode",
      "endswith", "expandtabs", "find", "format", "format_map", "index", "isalnum", "isalpha",
      "isascii", "isdecimal", "isdigit", "isidentifier", "islower", "isnumeric",
      "isprintable", "isspace", "istitle", "isupper", "join", "ljust", "lower", "lstrip",
      "maketrans", "partition", "removeprefix", "removesuffix", "replace", "rfind", "rindex",
      "rjust", "rpartition", "rsplit", "rstrip", "split", "splitlines", "startswith",
      "strip", "swapcase", "title", "translate", "upper", "zfill"]
  | _ => []

/-- The operations that a kind adds and that stand behind a sign. -/
def Kind.ownSpecial : Kind → List String
  | text => ["__add__", "__contains__", "__getitem__", "__iter__", "__len__", "__mod__",
      "__mul__", "__rmod__", "__rmul__"]
  | plain | special => ["__call__"]
  | declaredPlain | declaredSpecial => ["__call__", "__get__"]
  | kind => ["__call__", "__or__", "__ror__"]
  | nothing => ["__bool__"]
  | anything => []

/-- The operations of everything that a kind does in its own way. -/
def Kind.redefines : Kind → List String
  | text => ["__eq__", "__format__", "__ge__", "__getattribute__", "__gt__", "__hash__",
      "__le__", "__lt__", "__ne__", "__new__", "__repr__", "__sizeof__", "__str__"]
  | plain | special => ["__eq__", "__ge__", "__getattribute__", "__gt__", "__hash__",
      "__le__", "__lt__", "__ne__", "__repr__"]
  | declaredPlain | declaredSpecial => ["__getattribute__", "__repr__"]
  | nothing => ["__new__", "__repr__"]
  | kind => ["__delattr__", "__dir__", "__getattribute__", "__init__", "__new__", "__repr__",
      "__setattr__", "__sizeof__"]
  | anything => commonPlain ++ commonSpecial

/-- Whether a name is that of an operation called by its name. -/
def Kind.hasPlain (k : Kind) (name : String) : Bool := name ∈ commonPlain || name ∈ k.ownPlain

/-- Whether a name is that of an operation behind a sign. -/
def Kind.hasSpecial (k : Kind) (name : String) : Bool :=
  name ∈ commonSpecial || name ∈ k.ownSpecial

/-- The kind that an operation comes from. -/
def Kind.origin (k : Kind) (name : String) : Kind :=
  if (name ∈ commonPlain || name ∈ commonSpecial) && name ∉ k.redefines then .anything else k

/-- The operations that belong to a kind and not to the things of that kind. -/
def ofKind : List String := ["__init_subclass__", "__new__", "__subclasshook__", "maketrans"]

/-- What a field can stand for. -/
inductive Part where
  | text (cs : List Char)
  /-- An operation of a thing. -/
  | operation (name : String) (holder : Part)
  /-- An operation of all things of a kind. -/
  | declared (name : String) (k : Kind)
  | kind (k : Kind)
  | nothing

namespace Part

/-- The kind of a thing. -/
def kindOf : Part → Kind
  | text _ => .text
  | operation name holder => if (kindOf holder).hasSpecial name then .special else .plain
  | declared name k => if k.hasSpecial name then .declaredSpecial else .declaredPlain
  | kind _ => .kind
  | nothing => .nothing

/-- The kind that the long name of an operation tells. -/
def home (name : String) : Part → Kind
  | kind k => if name ∈ ofKind then k else Kind.kind.origin name
  | holder => if holder.kindOf.hasSpecial name then holder.kindOf.origin name else holder.kindOf

/-- The words for where an operation is stored. -/
def place : String := "0x7f0000000000"

/-- The text that stands for a thing. -/
def shown : Part → List Char
  | text cs => cs
  | operation name holder =>
      let what := if holder.kindOf.hasSpecial name then "<method-wrapper '" ++ name ++ "' of "
        else "<built-in method " ++ name ++ " of "
      (what ++ holder.kindOf.name ++ " object at " ++ place ++ ">").toList
  | declared name k =>
      let what := if k.hasSpecial name then "<slot wrapper '" else "<method '"
      (what ++ name ++ "' of '" ++ (k.origin name).name ++ "' objects>").toList
  | kind k => ("<class '" ++ k.name ++ "'>").toList
  | nothing => "None".toList

/-- The description of the kind of texts. -/
def description : String :=
  String.intercalate "\n" ["str(object='') -> str",
    "str(bytes_or_buffer[, encoding[, errors]]) -> str", "",
    "Create a new string object from the given object. If encoding or",
    "errors is specified, then the object must expose a data buffer",
    "that will be decoded using the given encoding and error handler.",
    "Otherwise, returns the result of object.__str__() (if defined)",
    "or repr(object).", "encoding defaults to sys.getdefaultencoding().",
    "errors defaults to 'strict'."]

/-- A named part that is neither an operation nor a kind. -/
def detail? : Part → String → Option Part
  | text _, "__doc__" | kind .text, "__doc__" => some (text description.toList)
  | operation name _, "__name__" | declared name _, "__name__" => some (text name.toList)
  | operation name holder, "__qualname__" =>
      some (text ((home name holder).name ++ "." ++ name).toList)
  | operation "maketrans" _, "__self__" => some nothing
  | operation _ holder, "__self__" => some holder
  | operation name holder, "__module__" =>
      if holder.kindOf.hasSpecial name then none else some nothing
  | operation name holder, "__objclass__" =>
      if holder.kindOf.hasSpecial name then some (kind (holder.kindOf.origin name)) else none
  | declared name k, "__qualname__" => some (text ((k.origin name).name ++ "." ++ name).toList)
  | declared name k, "__objclass__" => some (kind (k.origin name))
  | kind k, "__name__" | kind k, "__qualname__" => some (text k.name.toList)
  | kind _, "__module__" => some (text "builtins".toList)
  | kind .anything, "__base__" => some nothing
  | kind _, "__base__" => some (kind .anything)
  | nothing, "__doc__" => some nothing
  | _, _ => none

/-- An operation that belongs to a kind.  Making a thing is the operation of the kind that
says how. -/
def operationOf (k : Kind) (name : String) : Part :=
  operation name (kind (if name = "__new__" then k.origin name else k))

/-- An operation of a thing.  A kind has the operations of its things, which then belong to no
one thing, and those of a kind. -/
def operation? (p : Part) (name : String) : Option Part :=
  match p with
  | kind k =>
      if name ∈ ofKind ∧ k.hasPlain name then some (operationOf k name)
      else if k.hasPlain name || k.hasSpecial name then some (declared name k)
      else if Kind.kind.hasPlain name || Kind.kind.hasSpecial name then some (operation name p)
      else none
  | p =>
      if name ∈ ofKind ∧ p.kindOf.hasPlain name then some (operationOf p.kindOf name)
      else if p.kindOf.hasPlain name || p.kindOf.hasSpecial name then some (operation name p)
      else none

/-- A named part of a thing. -/
def part? (p : Part) (name : String) : Option Part :=
  if name = "__class__" then some (kind p.kindOf)
  else match p.detail? name with
    | some q => some q
    | none => p.operation? name

end Part

end Sysroot.Template
