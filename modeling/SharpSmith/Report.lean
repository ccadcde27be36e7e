import SharpSmith.Manifest.Calls

/-!
# Reports

What is told about the source file of a manifest: a summary, and the text itself, as plain text or
as JSON.
-/

namespace SharpSmith

/-- A summary of a source file. -/
structure Summary where
  space : String
  declarations : List (String × DeclarationKind)
  usings : List String
  references : List String
  deriving Repr, DecidableEq, Inhabited

/-- A summary and the text of the source file. -/
structure SourceReport where
  summary : Summary
  source : String
  deriving Repr, DecidableEq, Inhabited

/-- The summary of the source file of the manifest at a path. -/
structure ValidityReport where
  path : String
  summary : Summary
  deriving Repr, DecidableEq, Inhabited

namespace Manifest

/-- Summarizes the source file of a manifest. -/
def summarize (m : Manifest) (p : Build.Project) : Summary where
  space := m.space
  declarations := p.declarations.map fun d => (d.name, d.kind)
  usings := p.file.dependencies.sorted
  references := p.file.references.toList

/-- Writes the source file of a manifest. -/
def generate (m : Manifest) : Except ManifestError SourceReport := do
  let p ← m.project
  let source ← p.file.render.mapError (.build · none)
  return ⟨m.summarize p, source⟩

/-- Builds the source file of the manifest at `path` without writing it. -/
def check (path : String) (m : Manifest) : Except ManifestError ValidityReport := do
  let p ← m.project
  let _ ← p.file.build.mapError (.build · none)
  return ⟨path, m.summarize p⟩

end Manifest

namespace ValidityReport

/-- A heading with items below it. -/
def itemized (heading : String) (items : List String) : List String :=
  (heading ++ ":") :: items.map fun item => "  - " ++ item

/-- The lines of a report. -/
def lines (r : ValidityReport) : List String :=
  let s := r.summary
  let count := s.declarations.length
  ["✓ " ++ r.path ++ " is valid", "",
    "namespace: " ++ (if s.space.isEmpty then "(global)" else s.space)] ++
    itemized (toString count ++ " declaration" ++ (if count = 1 then "" else "s"))
      (s.declarations.map fun d => d.2.keyword ++ " " ++ d.1) ++
    (if s.usings.isEmpty then [] else itemized "usings" s.usings) ++
    itemized "references" s.references

/-- The text of a report. -/
def text (r : ValidityReport) : String :=
  String.join (r.lines.map (· ++ "\n"))

end ValidityReport

/-- The part of JSON that reports are written in. -/
inductive Json where
  | text (value : String)
  | list (items : List Json)
  | object (fields : List (String × Json))
  deriving Repr, Inhabited

namespace Json

/-- A hexadecimal digit. -/
def hexDigit (n : Nat) : Char :=
  "0123456789abcdef".toList.getD n '0'

/-- A character in quotes: quotes, backslashes and control characters are escaped. -/
def escapeChar (c : Char) : List Char :=
  if c = '"' then ['\\', '"']
  else if c = '\\' then ['\\', '\\']
  else if c = '\n' then ['\\', 'n']
  else if c = '\r' then ['\\', 'r']
  else if c = '\t' then ['\\', 't']
  else if c.toNat = 8 then ['\\', 'b']
  else if c.toNat = 12 then ['\\', 'f']
  else if c.toNat < 32 then
    ['\\', 'u', '0', '0', hexDigit (c.toNat / 16), hexDigit (c.toNat % 16)]
  else [c]

/-- A text in quotes. -/
def quote (s : String) : String :=
  "\"" ++ String.ofList (s.toList.flatMap escapeChar) ++ "\""

/-- The start of a line at the given depth. -/
def newline (depth : Nat) : String :=
  "\n" ++ String.ofList (List.replicate (2 * depth) ' ')

/-- Parts between brackets, each on a line of its own; brackets without parts stand together. -/
def bracket (opener closer : String) (depth : Nat) (parts : List String) : String :=
  if parts.isEmpty then opener ++ closer
  else
    opener ++ newline (depth + 1) ++ SharpSmith.Text.join ("," ++ newline (depth + 1)) parts ++
      newline depth ++ closer

mutual

/-- The text of a value at the given depth, two spaces for each level. -/
def pretty (depth : Nat) : Json → String
  | .text value => quote value
  | .list items => bracket "[" "]" depth (prettyItems (depth + 1) items)
  | .object fields => bracket "\x7b" "\x7d" depth (prettyFields (depth + 1) fields)

/-- The texts of items. -/
def prettyItems (depth : Nat) : List Json → List String
  | [] => []
  | v :: vs => pretty depth v :: prettyItems depth vs

/-- The texts of fields. -/
def prettyFields (depth : Nat) : List (String × Json) → List String
  | [] => []
  | (key, v) :: fs => (quote key ++ ": " ++ pretty depth v) :: prettyFields depth fs

end

end Json

namespace SourceReport

/-- The JSON of a report. -/
def json (r : SourceReport) : Json :=
  .object
    [("namespace", .text r.summary.space),
     ("declarations", .list (r.summary.declarations.map fun d =>
       .object [("name", .text d.1), ("kind", .text d.2.keyword)])),
     ("usings", .list (r.summary.usings.map .text)),
     ("references", .list (r.summary.references.map .text)),
     ("source", .text r.source)]

/-- The text of a report as JSON. -/
def jsonText (r : SourceReport) : String :=
  r.json.pretty 0 ++ "\n"

end SourceReport

end SharpSmith
