import SharpSmith.CommandLine

/-!
# Directories

A directory with files, as the program sees it: paths lead to files through directories, and a file
can be written where its directory exists.
-/

namespace SharpSmith

/-- The files of a directory and of the directories in it, by the names on the way to them. -/
structure Directory where
  files : List (List String × ByteArray)

namespace Directory

/-- The names on a path; a single dot and an empty name lead nowhere else. -/
def names (path : String) : List String :=
  ((Text.fields '/' path.toList).map String.ofList).filter fun n => n != "" && n != "."

/-- Whether a path can only lead to a directory. -/
def endsAtDirectory (path : String) : Bool :=
  match (Text.fields '/' path.toList).getLast? with
  | some last => last.isEmpty || last == ['.'] || last == ['.', '.']
  | none => true

/-- The directory itself, with the given files. -/
def ofFiles (files : List (String × ByteArray)) : Directory :=
  ⟨files.map fun f => (names f.1, f.2)⟩

/-- The bytes of the file at the names on a path. -/
def file? (d : Directory) (place : List String) : Option ByteArray :=
  (d.files.find? (fun f => f.1 == place)).map (·.2)

/-- Whether the names on a path lead to a directory. -/
def isDirectory (d : Directory) (place : List String) : Bool :=
  place.isEmpty || d.files.any fun f => place.isPrefixOf f.1 && f.1 != place

/-- The place that names lead to from the place `here`, through directories only. -/
def walk? (d : Directory) (here : List String) : List String → Option (List String)
  | [] => some here
  | n :: ns =>
    if !d.isDirectory here then none
    else if n == ".." then
      if here.isEmpty then none else d.walk? here.dropLast ns
    else d.walk? (here ++ [n]) ns

/-- The place that a path leads to, if it stays below the directory and can be a file. -/
def locate? (d : Directory) (path : String) : Option (List String) :=
  if path.toList.head? == some '/' || endsAtDirectory path then none
  else d.walk? [] (names path)

/-- The bytes of the file at a path. -/
def read? (d : Directory) (path : String) : Option ByteArray :=
  (d.locate? path).bind d.file?

/-- The directory after a file has been written at a path, if it can be written there. -/
def write? (d : Directory) (path : String) (bytes : ByteArray) : Option Directory :=
  (d.locate? path).bind fun place =>
    if d.isDirectory place || !d.isDirectory place.dropLast then none
    else some ⟨d.files.filter (fun f => f.1 != place) ++ [(place, bytes)]⟩

/-- The files that are new or have other bytes than before. -/
def changes (before after : Directory) : List (String × ByteArray) :=
  (after.files.filter fun f => before.file? f.1 != some f.2).map fun f =>
    (Text.join "/" f.1, f.2)

/-- What running the program in a directory leads to. -/
structure Result where
  code : Nat
  stdout : String
  directory : Directory

/-- Runs the program in a directory. A file that cannot be written makes it fail. -/
def run (d : Directory) (args : List String) : Result :=
  let o := CommandLine.run d.read? args
  match o.write with
  | none => ⟨o.code, o.stdout, d⟩
  | some (path, text) =>
    match d.write? path text.toUTF8 with
    | some d => ⟨o.code, o.stdout, d⟩
    | none => ⟨1, o.stdout, d⟩

end Directory

end SharpSmith
