import SharpSmith.Report

/-!
# The command line

The commands and their options, and what a command does: it reads one manifest, prints, and writes
at most one file.
-/

namespace SharpSmith.CommandLine

/-- What `generate` writes: the source file, or a report as JSON. -/
inductive Format where
  | text
  | json
  deriving Repr, DecidableEq, Inhabited

/-- The format that a word stands for. -/
def Format.ofWord? (word : String) : Option Format :=
  if word == "text" then some .text
  else if word == "json" then some .json
  else none

/-- The shells that completions can be asked for. -/
def shells : List String :=
  ["bash", "elvish", "fish", "powershell", "zsh"]

/-- A command. -/
inductive Command where
  | generate (config : String) (output : Option String) (format : Format)
  | check (config : String)
  | completions (shell : String)
  | help
  | version
  deriving Repr, DecidableEq, Inhabited

/-- The path of the manifest that a command reads. -/
def Command.config? : Command → Option String
  | .generate config _ _ => some config
  | .check config => some config
  | _ => none

/-- The path of the manifest when none is given. -/
def defaultConfig : String :=
  "csgen.toml"

/-- The commands that take options of their own. -/
inductive Subcommand where
  | generate
  | check
  | completions
  deriving Repr, DecidableEq, Inhabited

/-- The subcommand with the given name. -/
def Subcommand.ofName? (name : String) : Option Subcommand :=
  if name == "generate" then some .generate
  else if name == "check" then some .check
  else if name == "completions" then some .completions
  else none

/-- The options that take a value. -/
inductive Setting where
  | config
  | output
  | format
  deriving Repr, DecidableEq, Inhabited

/-- What an option is. -/
inductive Flag where
  | verbose
  | help
  | version
  | setting (s : Setting)
  deriving Repr, DecidableEq, Inhabited

/-- The options that may stand after the name of the program or of a subcommand. -/
def flags : Option Subcommand → List (Option Char × String × Flag)
  | none =>
    [(some 'v', "verbose", .verbose), (some 'h', "help", .help),
     (some 'V', "version", .version)]
  | some .generate =>
    [(some 'c', "config", .setting .config), (some 'o', "output", .setting .output),
     (none, "format", .setting .format), (some 'v', "verbose", .verbose),
     (some 'h', "help", .help)]
  | some .check =>
    [(some 'c', "config", .setting .config), (some 'v', "verbose", .verbose),
     (some 'h', "help", .help)]
  | some .completions => [(some 'v', "verbose", .verbose), (some 'h', "help", .help)]

/-- The option with the given letter. -/
def shortFlag? (sub : Option Subcommand) (c : Char) : Option Flag :=
  ((flags sub).find? (fun f => f.1 == some c)).map (·.2.2)

/-- The option with the given name. -/
def longFlag? (sub : Option Subcommand) (name : String) : Option Flag :=
  ((flags sub).find? (fun f => f.2.1 == name)).map (·.2.2)

/-- What has been read of a command line: the subcommand, its settings, and its further
arguments. -/
structure Progress where
  sub : Option Subcommand
  settings : List (Setting × String)
  positional : List String
  deriving Repr, DecidableEq, Inhabited

/-- How reading goes on after an argument: with the next argument, with a value for a setting, or
not at all, because the command is known. -/
inductive Next where
  | go (p : Progress)
  | await (s : Setting) (p : Progress)
  | stop (c : Command)
  deriving Repr, DecidableEq, Inhabited

/-- Whether a value fits a setting: a path is not empty, and a format is known. -/
def Setting.accepts : Setting → String → Bool
  | .format, value => (Format.ofWord? value).isSome
  | _, value => !value.isEmpty

/-- Sets a setting, which can be set once. -/
def Progress.set? (p : Progress) (s : Setting) (value : String) : Option Progress :=
  if p.settings.any (·.1 == s) || !s.accepts value then none
  else some { p with settings := p.settings ++ [(s, value)] }

/-- Reads the letters of an argument such as `-vc`. The value of a setting may stand in the same
argument, with or without a sign `=`. -/
def readLetters (p : Progress) : List Char → Option Next
  | [] => some (.go p)
  | c :: cs =>
    match shortFlag? p.sub c with
    | none => none
    | some .verbose => readLetters p cs
    | some .help => some (.stop .help)
    | some .version => some (.stop .version)
    | some (.setting s) =>
      match cs with
      | [] => some (.await s p)
      | '=' :: value => (p.set? s (String.ofList value)).map .go
      | value => (p.set? s (String.ofList value)).map .go

/-- Reads an argument such as `--output=Out.cs`, without its two dashes. -/
def readLong (p : Progress) (cs : List Char) : Option Next :=
  let name := cs.takeWhile (· != '=')
  let value : Option String :=
    match cs.drop name.length with
    | _ :: value => some (String.ofList value)
    | [] => none
  match longFlag? p.sub (String.ofList name), value with
  | some (.setting s), some value => (p.set? s value).map .go
  | some (.setting s), none => some (.await s p)
  | some .verbose, none => some (.go p)
  | some .help, none => some (.stop .help)
  | some .version, none => some (.stop .version)
  | _, _ => none

/-- Reads an argument that is no option. -/
def readWord (p : Progress) (word : String) : Option Progress :=
  match p.sub with
  | none => (Subcommand.ofName? word).map fun sub => { p with sub := some sub }
  | some .completions =>
    if p.positional.isEmpty && shells.contains word then some { p with positional := [word] }
    else none
  | some _ => none

/-- The command that has been read when no arguments are left. -/
def Progress.finish (p : Progress) : Option Command :=
  let get? (s : Setting) : Option String := (p.settings.find? (·.1 == s)).map (·.2)
  match p.sub with
  | none => none
  | some .generate =>
    some (.generate ((get? .config).getD defaultConfig) (get? .output)
      (((get? .format).bind Format.ofWord?).getD .text))
  | some .check => some (.check ((get? .config).getD defaultConfig))
  | some .completions => p.positional.head?.map .completions

/-- Whether an argument is an option: a dash and more. -/
def isOption (arg : List Char) : Bool :=
  arg.head? == some '-' && arg.length != 1

/-- Reads the arguments after a lone `--`, none of which is an option or a subcommand. -/
def readTrailing (p : Progress) : List String → Option Command
  | [] => p.finish
  | word :: words => do
    if p.sub.isNone then none
    else readTrailing (← readWord p word) words

/-- Reads the arguments after `help`: subcommands, or nothing. -/
def readHelp (words : List String) : Option Command :=
  match words with
  | [] => some .help
  | [word] => if word == "help" || (Subcommand.ofName? word).isSome then some .help else none
  | _ => none

/-- Reads arguments, the first of which may have to be the value of the setting `awaited`. -/
def readArgs (p : Progress) (awaited : Option Setting) : List String → Option Command
  | [] => if awaited.isSome then none else p.finish
  | word :: words =>
    let cs := word.toList
    match awaited with
    | some s =>
      if isOption cs then none
      else
        match p.set? s word with
        | some p => readArgs p none words
        | none => none
    | none =>
      if word == "--" then readTrailing p words
      else if isOption cs then
        match (if cs[1]? = some '-' then readLong p (cs.drop 2) else readLetters p cs.tail) with
        | some (.go p) => readArgs p none words
        | some (.await s p) => readArgs p (some s) words
        | some (.stop c) => some c
        | none => none
      else if p.sub.isNone && word == "help" then readHelp words
      else
        match readWord p word with
        | some p => readArgs p none words
        | none => none

/-- Reads a command line; none when it is not understood. -/
def parse? (args : List String) : Option Command :=
  readArgs ⟨none, [], []⟩ none args

/-- What a command does: what it prints, the error it reports, the file it writes, and the exit
code when writing succeeds. -/
structure Outcome where
  code : Nat
  stdout : String
  error : Option ManifestError
  write : Option (String × String)
  deriving Repr, DecidableEq, Inhabited

/-- An outcome that only prints. -/
def Outcome.print (text : String) : Outcome :=
  ⟨0, text, none, none⟩

/-- An outcome that reports an error. -/
def Outcome.refuse (e : ManifestError) : Outcome :=
  ⟨1, "", some e, none⟩

/-- The version of the program. -/
def versionText : String :=
  "csgen 0.3.0\n"

/-- How the program is used. -/
def usageText : String :=
  "Usage: csgen [OPTIONS] <COMMAND>\n\n" ++
  "Commands:\n" ++
  "  generate     Generate a C# source file from csgen.toml\n" ++
  "  check        Validate csgen.toml without writing any code\n" ++
  "  completions  Generate shell completions\n" ++
  "  help         Print this message\n"

/-- The manifest in the file at a path, whose bytes `read` gives if the file can be read. -/
def loadFile (read : String → Option ByteArray) (path : String) :
    Except ManifestError Manifest :=
  match (read path).bind String.fromUTF8? with
  | none => .error (.unreadable path)
  | some text => Manifest.load ⟨text, path⟩

/-- The text that `generate` writes. -/
def Format.write : Format → SourceReport → String
  | .text, r => r.source
  | .json, r => r.jsonText

/-- What a command does, given how files are read. -/
def Command.run (read : String → Option ByteArray) : Command → Outcome
  | .help => .print usageText
  | .version => .print versionText
  | .completions _ => .print ""
  | .check config =>
    match loadFile read config >>= Manifest.check config with
    | .ok report => .print report.text
    | .error e => .refuse e
  | .generate config output format =>
    match loadFile read config >>= Manifest.generate with
    | .error e => .refuse e
    | .ok report =>
      match output with
      | none => .print (format.write report)
      | some path => ⟨0, "", none, some (path, format.write report)⟩

/-- The exit code of a command line that is not understood. -/
def usageCode : Nat :=
  2

/-- What the program does with its arguments, given how files are read. -/
def run (read : String → Option ByteArray) (args : List String) : Outcome :=
  match parse? args with
  | some c => c.run read
  | none => ⟨usageCode, "", none, none⟩

end SharpSmith.CommandLine
