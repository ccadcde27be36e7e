import SharpSmith.Code
import SharpSmith.Layout

/-!
# The layout of a source file

Each part of a source file has a layout: members stand one blank line apart, a member's
documentation and attributes stand above it, and a record without members is a single line.
-/

namespace SharpSmith.Code

/-- Modifiers as they stand before a declaration. -/
def modifierText (ms : List Modifier) : String :=
  String.join (ms.map fun m => m.keyword ++ " ")

/-- Expressions as arguments. -/
def argumentText (es : List Expression) : String :=
  Text.join ", " (es.map Expression.text)

/-- Parameters in parentheses. -/
def parameterText (ps : List Parameter) : String :=
  "(" ++ Text.join ", " (ps.map fun p => p.type ++ " " ++ p.name) ++ ")"

/-- The line of an attribute. -/
def Attribute.layout (a : Attribute) : Layout :=
  .line ("[" ++ (if a.args.isEmpty then a.name else a.name ++ "(" ++ argumentText a.args ++ ")")
    ++ "]")

/-- What stands above a declaration or member. -/
def leading (doc : Option String) (attributes : List Attribute) : List Layout :=
  doc.toList.map Layout.doc ++ attributes.map Attribute.layout

/-- The statements of a body, a line each. -/
def bodyLayout (body : List Statement) : List Layout :=
  body.map fun s => .line s.text

/-- The layout of a property. -/
def Property.layout (p : Property) : List Layout :=
  leading p.doc p.attributes ++
    [.line (modifierText p.modifiers ++ p.type ++ " " ++ p.name ++ " \x7b " ++
      String.join (p.accessors.map fun a => a.text ++ "; ") ++ "\x7d")]

/-- The layout of a method. -/
def Method.layout (m : Method) : List Layout :=
  let signature := modifierText m.modifiers ++ m.returns ++ " " ++ m.name ++
    parameterText m.parameters
  leading m.doc m.attributes ++
    [match m.body with
     | some body => .block signature (bodyLayout body)
     | none => .line (signature ++ ";")]

/-- The layout of a constructor. -/
def Constructor.layout (c : Constructor) : List Layout :=
  let call :=
    match c.baseArgs with
    | some args => " : base(" ++ argumentText args ++ ")"
    | none => ""
  leading c.doc c.attributes ++
    [.block (modifierText c.modifiers ++ c.name ++ parameterText c.parameters ++ call)
      (bodyLayout c.body)]

/-- The layout of a member. -/
def Member.layout : Member → List Layout
  | .property p => p.layout
  | .constructor c => c.layout
  | .method m => m.layout

namespace Declaration

/-- The line that a declaration starts with. -/
def header (d : Declaration) : String :=
  modifierText d.modifiers ++ d.kind.keyword ++ " " ++ d.name ++
    (d.parameters.map parameterText).getD "" ++
    (if d.bases.isEmpty then "" else " : " ++ Text.join ", " d.bases)

/-- The layout of a declaration without its region. -/
def bare (d : Declaration) : List Layout :=
  leading d.doc d.attributes ++
    [if d.kind == .recordDecl && d.members.isEmpty then .line (d.header ++ ";")
     else .block d.header (Layout.separated (d.members.map Member.layout))]

/-- The layout of a declaration. -/
def layout (d : Declaration) : List Layout :=
  match d.region with
  | some name => [.region name d.bare]
  | none => d.bare

end Declaration

namespace File

/-- The layout of the namespace of a file with its declarations. -/
def body (f : File) : List Layout :=
  let declarations := Layout.separated (f.declarations.map Declaration.layout)
  match f.space, f.style with
  | none, _ => declarations
  | some space, .file => Layout.separated [[.line ("namespace " ++ space ++ ";")], declarations]
  | some space, .block => [.block ("namespace " ++ space) declarations]

/-- The layout of a file. -/
def layout (f : File) : List Layout :=
  Layout.separated [f.usings.map (fun u => .line ("using " ++ u ++ ";")), f.body]

/-- The text of a file. -/
def render (indent : Indent) (f : File) : String :=
  Layout.render indent f.layout

end File

end SharpSmith.Code
