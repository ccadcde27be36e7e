import SharpSmith.Fragment.Statement

/-!
# The parts of a source file

The parts of a C# source file: its usings, its namespace and its declarations with their members.
Types are held as their texts; statements and expressions are fragments that have been read.
-/

namespace SharpSmith

/-- The modifiers of declarations and members. -/
inductive Modifier where
  | publicAccess
  | protectedAccess
  | internalAccess
  | privateAccess
  | staticMember
  | abstractMember
  | sealedMember
  | virtualMember
  | overrideMember
  | asyncMember
  | partialMember
  deriving Repr, DecidableEq, Inhabited

namespace Modifier

/-- All modifiers, in the order in which they are written. -/
def all : List Modifier :=
  [.publicAccess, .protectedAccess, .internalAccess, .privateAccess, .staticMember,
   .abstractMember, .sealedMember, .virtualMember, .overrideMember, .asyncMember, .partialMember]

/-- The keyword of a modifier. -/
def keyword : Modifier → String
  | .publicAccess => "public"
  | .protectedAccess => "protected"
  | .internalAccess => "internal"
  | .privateAccess => "private"
  | .staticMember => "static"
  | .abstractMember => "abstract"
  | .sealedMember => "sealed"
  | .virtualMember => "virtual"
  | .overrideMember => "override"
  | .asyncMember => "async"
  | .partialMember => "partial"

/-- Whether a modifier says who can see a declaration. -/
def isVisibility : Modifier → Bool
  | .publicAccess | .protectedAccess | .internalAccess | .privateAccess => true
  | _ => false

/-- The modifier with the given keyword. -/
def ofKeyword? (word : String) : Option Modifier :=
  all.find? (fun m => m.keyword == word)

end Modifier

/-- A set of modifiers, in the order in which they are written. -/
structure Modifiers where
  toList : List Modifier
  deriving Repr, DecidableEq, Inhabited

namespace Modifiers

/-- No modifiers. -/
def none : Modifiers :=
  ⟨[]⟩

/-- The set with `m`. A visibility takes the place of the one that was there. -/
def insert (m : Modifier) (ms : Modifiers) : Modifiers :=
  ⟨Modifier.all.filter fun x =>
    x == m || (ms.toList.contains x && !(m.isVisibility && x.isVisibility))⟩

/-- The set with only the given visibility, if any. -/
def ofVisibility (visibility : Option Modifier) : Modifiers :=
  match visibility with
  | some m => insert m none
  | Option.none => none

/-- Whether a modifier is in the set. -/
def contains (m : Modifier) (ms : Modifiers) : Bool :=
  ms.toList.contains m

end Modifiers

/-- The accessors of a property. -/
inductive Accessor where
  | get
  | set
  | privateSet
  | init
  deriving Repr, DecidableEq, Inhabited

namespace Accessor

/-- All accessors. -/
def all : List Accessor :=
  [.get, .set, .privateSet, .init]

/-- The text of an accessor. -/
def text : Accessor → String
  | .get => "get"
  | .set => "set"
  | .privateSet => "private set"
  | .init => "init"

/-- The accessor with the given text. -/
def ofText? (text : String) : Option Accessor :=
  all.find? (fun a => a.text == text)

/-- Whether an accessor writes its property. -/
def isSetter (a : Accessor) : Bool :=
  a != .get

end Accessor

/-- The kinds of type declarations. -/
inductive DeclarationKind where
  | classDecl
  | interfaceDecl
  | recordDecl
  deriving Repr, DecidableEq, Inhabited

namespace DeclarationKind

/-- The keyword of a kind of declaration. -/
def keyword : DeclarationKind → String
  | .classDecl => "class"
  | .interfaceDecl => "interface"
  | .recordDecl => "record"

end DeclarationKind

/-- How the namespace of a file is written: for the rest of the file, or around a block. -/
inductive NamespaceStyle where
  | file
  | block
  deriving Repr, DecidableEq, Inhabited

namespace Code

/-- An attribute with its arguments. Each stands in brackets of its own: several in one pair of
brackets are written as one, whose name is the text of the list. -/
structure Attribute where
  name : String
  args : List Expression
  deriving Repr, DecidableEq, Inhabited

/-- A parameter, as its name and the text of its type. -/
structure Parameter where
  name : String
  type : String
  deriving Repr, DecidableEq, Inhabited

/-- A property with accessors only. -/
structure Property where
  doc : Option String
  attributes : List Attribute
  modifiers : List Modifier
  type : String
  name : String
  accessors : List Accessor
  deriving Repr, DecidableEq, Inhabited

/-- A method. Without a body it is a signature. -/
structure Method where
  doc : Option String
  attributes : List Attribute
  modifiers : List Modifier
  returns : String
  name : String
  parameters : List Parameter
  body : Option (List Statement)
  deriving Repr, DecidableEq, Inhabited

/-- A constructor, with the arguments that it passes to the base class, if it calls it. -/
structure Constructor where
  doc : Option String
  attributes : List Attribute
  modifiers : List Modifier
  name : String
  parameters : List Parameter
  baseArgs : Option (List Expression)
  body : List Statement
  deriving Repr, DecidableEq, Inhabited

/-- A member of a type declaration. -/
inductive Member where
  | property (p : Property)
  | constructor (c : Constructor)
  | method (m : Method)
  deriving Repr, DecidableEq, Inhabited

namespace Member

/-- The property that a member is. -/
def property? : Member → Option Property
  | .property p => some p
  | _ => none

/-- The constructor that a member is. -/
def constructor? : Member → Option Constructor
  | .constructor c => some c
  | _ => none

/-- The method that a member is. -/
def method? : Member → Option Method
  | .method m => some m
  | _ => none

end Member

/-- A type declaration. Only records have primary parameters; a declaration with a region is
printed inside it. -/
structure Declaration where
  kind : DeclarationKind
  name : String
  doc : Option String
  attributes : List Attribute
  modifiers : List Modifier
  parameters : Option (List Parameter)
  bases : List String
  members : List Member
  region : Option String
  deriving Repr, DecidableEq, Inhabited

namespace Declaration

/-- The properties of a declaration. -/
def properties (d : Declaration) : List Property :=
  d.members.filterMap Member.property?

/-- The constructors of a declaration. -/
def constructors (d : Declaration) : List Constructor :=
  d.members.filterMap Member.constructor?

/-- The methods of a declaration. -/
def methods (d : Declaration) : List Method :=
  d.members.filterMap Member.method?

end Declaration

/-- A source file. Without a namespace its declarations are global. -/
structure File where
  usings : List String
  space : Option String
  style : NamespaceStyle
  declarations : List Declaration
  deriving Repr, DecidableEq, Inhabited

end Code

end SharpSmith
