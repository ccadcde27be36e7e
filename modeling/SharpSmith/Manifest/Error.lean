import SharpSmith.Build.Call
import SharpSmith.Identifier
import SharpSmith.Manifest.WrittenType

/-!
# Errors in manifests

Why a manifest cannot be read, is not valid, or describes declarations that cannot be built, and
where in the manifest that shows.
-/

namespace SharpSmith

/-- What is wrong with a value of a manifest. -/
inductive ManifestProblem where
  | badNamespace (space : String) (fault : Identifier.Fault)
  | badTypeNamespace (type : String) (fault : Identifier.Fault)
  | unknownModifier (word : String)
  | notAccess (word : String)
  | unknownAccessor (text : String)
  | badBaseCall (word owner : String)
  | badType (text : String) (fault : WrittenType.Fault)
  deriving Repr, DecidableEq, Inhabited

/-- The wording of a problem. -/
def ManifestProblem.message : ManifestProblem → String
  | .badNamespace space fault => "invalid namespace '" ++ space ++ "': " ++ fault.reason
  | .badTypeNamespace type fault =>
    "invalid namespace for type '" ++ type ++ "': " ++ fault.reason
  | .unknownModifier word => "unknown modifier '" ++ word ++ "'"
  | .notAccess word =>
    "'" ++ word ++ "' is not an access modifier; expected public, protected, internal or private"
  | .unknownAccessor text =>
    "unknown accessor '" ++ text ++ "'; expected get, set, private set or init"
  | .badBaseCall word owner =>
    "invalid base call '" ++ word ++ "' in a constructor of '" ++ owner ++
      "'; use \"forward\" or a list of arguments"
  | .badType text fault => "invalid type '" ++ text ++ "': " ++ fault.reason

/-- Why a manifest is refused. -/
inductive ManifestError where
  | unreadable (path : String)
  | unparsable
  | invalid (problem : ManifestProblem) (span : Option Span)
  | reservedKeyword (name context : String) (span : Option Span)
  | invalidIdentifier (name context : String) (fault : Identifier.Fault) (span : Option Span)
  | unknownType (name : String) (span : Span)
  | duplicate (name : String) (first second : Span)
  | build (error : Build.BuildError) (span : Option Span)
  deriving Repr, DecidableEq, Inhabited

namespace ManifestError

/-- The label of a place, if there is one. -/
def label (span : Option Span) (text : String) : List (Span × String) :=
  span.toList.map fun s => (s, text)

/-- How an error is shown. -/
def diagnosis : ManifestError → Diagnosis
  | .unreadable path =>
    ⟨"failed to read '" ++ path ++ "'", none,
      some "pass the manifest path with '--config <path>'", []⟩
  | .unparsable => ⟨"failed to parse csgen.toml", some "csgen::manifest::parse_error", none, []⟩
  | .invalid problem span =>
    ⟨problem.message, some "csgen::manifest::validation_error", none,
      label span problem.message⟩
  | .reservedKeyword name context span =>
    ⟨"'" ++ name ++ "' is a reserved C# keyword", some "csgen::manifest::reserved_keyword",
      some ("rename the " ++ context ++ " or escape it as '@" ++ name ++ "'"),
      label span "reserved keyword used here"⟩
  | .invalidIdentifier name context fault span =>
    ⟨"invalid " ++ context ++ " name '" ++ name ++ "'",
      some "csgen::manifest::invalid_identifier",
      some (fault.reason ++
        ". Use only letters, digits and underscores, starting with a letter or underscore."),
      label span "invalid identifier"⟩
  | .unknownType name span =>
    ⟨"unknown type '" ++ name ++ "'", some "csgen::manifest::unknown_type",
      some ("declare it under [types." ++ name ++ "] with its namespace and kind"),
      [(span, "not a built-in, catalog, declared or [types] entry")]⟩
  | .duplicate name first second =>
    ⟨"'" ++ name ++ "' is declared more than once",
      some "csgen::manifest::duplicate_declaration", none,
      [(first, "first declared here"), (second, "declared again here")]⟩
  | .build error span =>
    ⟨error.message, some "csgen::manifest::build_error", none,
      label span "while building this"⟩

end ManifestError

namespace Document

/-- The place of the first occurrence of a text in a document, in double quotes or, if there is
none, as it is. -/
def find? (d : Document) (text : String) : Option Span :=
  if text.isEmpty then none
  else
    let cs := d.text.toList
    let at? (pattern : List Char) : Option Nat :=
      (Text.indexOf? pattern cs).map fun n => Text.byteLength (cs.take n)
    match at? ('"' :: text.toList ++ ['"']) with
    | some offset => some ⟨offset + 1, text.utf8ByteSize⟩
    | none => (at? text.toList).map fun offset => ⟨offset, text.utf8ByteSize⟩

/-- The part of a document that a stretch covers. -/
def slice? (d : Document) (s : Span) : Option (List Char) :=
  (Text.dropBytes? s.offset d.text.toList).bind (Text.takeBytes? s.length)

/-- Whether a text is written in quotes on one line: in quotes, but not in three. -/
def isQuoted (cs : List Char) : Bool :=
  2 ≤ cs.length && !(['"', '"', '"'].isPrefixOf cs) && !(['\'', '\'', '\''].isPrefixOf cs) &&
    ((cs.head? = some '"' && cs.getLast? = some '"') ||
      (cs.head? = some '\'' && cs.getLast? = some '\''))

/-- The place of a value for a label: what stands between the quotes of a text on one line, so
that places in the text are places in the document, and else all that is written. -/
def valueSpan (d : Document) (s : Span) : Span :=
  match d.slice? s with
  | some cs => if isQuoted cs then ⟨s.offset + 1, s.length - 2⟩ else s
  | none => s

end Document

end SharpSmith
