import Intercal.Project

namespace Intercal.Command

inductive Verb where
  | run
  | check
  | dump
  deriving DecidableEq

/-- What is asked of a program. `maxDepth`, `seed`, `trace` and `noSystemLibrary` stand above the options. -/
structure Invocation where
  verb : Verb
  file : String
  links : List String := []
  config : Option String := none
  maxDepth : Option Nat := none
  seed : Option Nat := none
  trace : Bool := false
  noSystemLibrary : Bool := false

inductive Topic where
  | overview
  | verb (v : Verb)
  | help

inductive Request where
  | invoke (i : Invocation)
  | version
  | help (topic : Topic)
  | misuse

structure Reading where
  file : Option String := none
  links : List String := []
  config : Option String := none
  maxDepth : Option Nat := none
  seed : Option Nat := none
  trace : Bool := false
  noSystemLibrary : Bool := false

def number? (s : String) : Option Nat := do
  let digits := match s.toList with
    | '+' :: cs => cs
    | cs => cs
  if digits.isEmpty || !digits.all Char.isDigit then none
  else
    let n := Text.digitsValue digits
    if n < 0x10000000000000000 then some n else none

def path? (s : String) : Option String := if s = "" then none else some s

def split? (argument : String) : Option (String × String) :=
  let cs := argument.toList
  if cs.contains '=' then
    some (String.ofList (cs.takeWhile (· != '=')), String.ofList ((cs.dropWhile (· != '=')).drop 1))
  else none

def isOption (argument : String) : Bool :=
  argument.toList.head? == some '-' && argument != "-"

def isShort (letter : Char) (argument : String) : Bool :=
  argument.toList.take 2 == ['-', letter]

def asksHelp (argument : String) : Bool := argument = "--help" || isShort 'h' argument

def asksVersion (argument : String) : Bool := argument = "--version" || isShort 'V' argument

def once? {α : Type} : Option α → Option α → Option (Option α)
  | none, some a => some (some a)
  | _, _ => none

def valued? (verb : Verb) (name value : String) (r : Reading) : Option Reading :=
  match name, verb with
  | "--link", _ => (path? value).map fun p => { r with links := r.links ++ [p] }
  | "--config", _ => (once? r.config (path? value)).map fun config => { r with config }
  | "--max-depth", .run => (once? r.maxDepth (number? value)).map fun maxDepth => { r with maxDepth }
  | "--seed", .run => (once? r.seed (number? value)).map fun seed => { r with seed }
  | _, _ => none

def flag? (verb : Verb) (name : String) (r : Reading) : Option Reading :=
  match name, verb with
  | "--trace", .run => if r.trace then none else some { r with trace := true }
  | "--no-stdlib", .run => if r.noSystemLibrary then none else some { r with noSystemLibrary := true }
  | _, _ => none

def positional? (argument : String) (r : Reading) : Option Reading :=
  (once? r.file (path? argument)).map fun file => { r with file }

def Reading.request (verb : Verb) (r : Reading) : Request :=
  match r.file with
  | none => .misuse
  | some file => .invoke {
      verb, file
      links := r.links
      config := r.config
      maxDepth := r.maxDepth
      seed := r.seed
      trace := r.trace
      noSystemLibrary := r.noSystemLibrary }

/-- Reads the arguments after the verb, up to the first that asks for help or makes no sense. After `--` nothing is an
option. -/
def read (verb : Verb) (r : Reading) : List String → Request
  | [] => r.request verb
  | "--" :: arguments =>
    match arguments.foldlM (fun r a => positional? a r) r with
    | some r => r.request verb
    | none => .misuse
  | argument :: arguments =>
    if !isOption argument then
      match positional? argument r with
      | some r => read verb r arguments
      | none => .misuse
    else if asksHelp argument then .help (.verb verb)
    else match split? argument, flag? verb argument r with
      | some (name, value), _ =>
        match valued? verb name value r with
        | some r => read verb r arguments
        | none => .misuse
      | none, some r => read verb r arguments
      | none, none =>
        match arguments with
        | [] => .misuse
        | value :: rest =>
          if isOption value then .misuse
          else match valued? verb argument value r with
            | some r => read verb r rest
            | none => .misuse

def verb? : String → Option Verb
  | "run" => some .run
  | "check" => some .check
  | "dump" => some .dump
  | _ => none

def topic? : List String → Option Topic
  | [] => some .overview
  | ["help"] => some .help
  | [word] => (verb? word).map .verb
  | _ => none

def parse : List String → Request
  | [] => .misuse
  | "help" :: words =>
    match topic? words with
    | some topic => .help topic
    | none => .misuse
  | word :: arguments =>
    match verb? word with
    | some verb => read verb {} arguments
    | none =>
      if asksVersion word then .version
      else if asksHelp word then .help .overview
      else .misuse

def versionLine : String := "comefrom 0.10.0\n"

def Verb.about : Verb → String
  | .run => "Compile and run a program"
  | .check => "Compile only, and report statements that would fail if reached"
  | .dump => "Print the compiled listing"

def Verb.word : Verb → String
  | .run => "run"
  | .check => "check"
  | .dump => "dump"

def helpAbout : String := "Print this message or the help of the given subcommand(s)"

def columns (rows : List (String × String)) : String :=
  let width := rows.foldl (fun n (name, _) => max n name.length) 0
  String.join (rows.map fun (name, meaning) =>
    "  " ++ name ++ String.ofList (List.replicate (width + 2 - name.length) ' ') ++ meaning ++ "\n")

def Verb.options (v : Verb) : List (String × String) :=
  let common := [
    ("    --link <LIB>", "Link a library (.i) ahead of the system library; repeatable"),
    ("    --config <PATH>", "Config file; defaults to ./comefrom.toml when present")]
  let own := match v with
    | .run => [
      ("    --max-depth <N>", "Deepest the nexting stack may grow"),
      ("    --seed <N>", "Seed for %-chance and random numbers"),
      ("    --trace", "Log every executed statement to stderr"),
      ("    --no-stdlib", "Do not link the system library")]
    | _ => []
  common ++ own ++ [("-h, --help", "Print help")]

def Topic.text : Topic → String
  | .overview =>
    let verbs := [Verb.run, .check, .dump].map fun v => (v.word, v.about)
    "comefrom: an INTERCAL compiler and nexting-stack runtime\n\n" ++
      "Usage: comefrom <COMMAND>\n\n" ++
      "Commands:\n" ++ columns (verbs ++ [("help", helpAbout)]) ++ "\n" ++
      "Options:\n" ++ columns [("-h, --help", "Print help"), ("-V, --version", "Print version")]
  | .verb v =>
    v.about ++ "\n\n" ++
      "Usage: comefrom " ++ v.word ++ " [OPTIONS] <FILE>\n\n" ++
      "Arguments:\n" ++ columns [("<FILE>", "Path to the .i file")] ++ "\n" ++
      "Options:\n" ++ columns v.options
  | .help =>
    helpAbout ++ "\n\n" ++
      "Usage: comefrom help [COMMAND]...\n\n" ++
      "Arguments:\n" ++ columns [("[COMMAND]...", "Print help for the subcommand(s)")]

def summary (c : Chunk) : String :=
  let counts := c.name ++ ": " ++ toString c.size ++ " statements, " ++ toString c.defaults.size ++
    " abstain slots, " ++ toString c.splats ++ " splatted\n"
  let lost := if c.lost.isEmpty then ""
    else "unresolved NEXT targets: " ++ " ".intercalate (c.lost.map Label.writeRaw) ++ "\n"
  counts ++ lost

structure Prepared where
  project : Project
  program : Chunk
  events : List Event

def Invocation.adjust (i : Invocation) (o : Options) : Options :=
  { o with
    maxDepth := i.maxDepth.getD o.maxDepth
    seed := i.seed <|> o.seed
    trace := o.trace || i.trace
    systemLibrary := o.systemLibrary && !i.noSystemLibrary }

variable {m : Type → Type} [Monad m]

def Invocation.prepare (disk : Disk m) (i : Invocation) : m (Except Diagnostic Prepared) := do
  match ← Options.discover disk i.config with
  | .error d => return .error d
  | .ok options =>
    match ← (Project.ofOptions (i.adjust options)).loadLibraries disk i.links with
    | .error d => return .error d
    | .ok (project, loaded) =>
      match ← project.compileFile disk i.file with
      | .error d => return .error d
      | .ok (program, compiled) => return .ok ⟨project, program, loaded ++ compiled⟩

end Intercal.Command
