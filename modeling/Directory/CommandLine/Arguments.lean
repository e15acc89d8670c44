import Directory.Text.Integer

/-!
# Command line arguments

Two commands, `search` and `explain`, with options that stand behind the command. An option takes
its value from behind an equals sign or from the next argument, which then must not look like an
option itself, and may be given once. A version or help request is answered when it is reached.
-/

namespace Directory

/-- The options of the commands. -/
inductive OptionName where
  | fixture
  | filter
  | sizeLimit
  | json
  deriving DecidableEq, Repr

namespace OptionName

/-- The name as it is written behind two dashes. -/
def spelling : OptionName → String
  | fixture => "fixture"
  | filter => "filter"
  | sizeLimit => "size-limit"
  | json => "json"

/-- The option needs a value. -/
def takesValue : OptionName → Bool
  | json => false
  | _ => true

end OptionName

/-- What a request for help is about. -/
inductive HelpTopic where
  /-- The program as a whole. -/
  | program
  /-- The command that searches. -/
  | search
  /-- The command that explains. -/
  | explain
  /-- The command that helps. -/
  | help
  deriving DecidableEq, Repr

/-- What the command line asks for. -/
inductive CommandLine where
  /-- Run a search. -/
  | search (fixture : String) (filter : Option String) (sizeLimit : Option UInt64)
  /-- Explain a search. -/
  | explain (fixture : String) (filter : Option String) (asJson : Bool)
  /-- Tell the version. -/
  | version
  /-- Tell how to use the program. -/
  | help (topic : HelpTopic)
  deriving DecidableEq, Repr

namespace CommandLine

/-- The fixture that is used when none is named. -/
def defaultFixture : String := "./partition.json"

/-- The options of a search. -/
def searchOptions : List OptionName := [.fixture, .filter, .sizeLimit]

/-- The options of an explanation. -/
def explainOptions : List OptionName := [.fixture, .filter, .json]

/-- The options given so far, each with its value; a switch has an empty one. -/
abbrev Given := List (OptionName × String)

/-- The value given for an option. -/
def Given.value? (given : Given) (o : OptionName) : Option String :=
  (given.find? fun g => g.1 == o).map Prod.snd

/-- Note an option, unless it has been given before or its value cannot be right. -/
def Given.add (given : Given) (o : OptionName) (value : String) : Option Given :=
  if (given.value? o).isSome then none
  else if o = .fixture ∧ value = "" then none
  else if o = .sizeLimit ∧
      (Text.readNatural value.toList).all (fun n => decide (UInt64.size ≤ n)) then none
  else some ((o, value) :: given)

/-- The argument begins like an option. A single dash does not. -/
def looksLikeOption (arg : List Char) : Bool :=
  match arg with
  | '-' :: _ :: _ => true
  | _ => false

/-- The name of an option and the value attached to it by an equals sign. -/
def splitOption (arg : List Char) : String × Option String :=
  match arg.dropWhile (· != '=') with
  | _ :: value => (String.ofList (arg.takeWhile (· != '=')), some (String.ofList value))
  | [] => (String.ofList arg, none)

/-- The arguments behind the command: the options given, or a request for help. -/
inductive Parsed where
  | given (options : Given)
  | helpRequest
  deriving Repr

/-- Read the arguments behind the command, which knows these options. -/
def readOptions (known : List OptionName) (given : Given) : List String → Option Parsed
  | [] => some (.given given)
  | arg :: args =>
    match arg.toList with
    | ['-', '-'] => if args = [] then some (.given given) else none
    | '-' :: '-' :: name =>
      let (name, attached) := splitOption name
      if name = "help" ∧ attached = none then some .helpRequest
      else
        match known.find? fun o => o.spelling == name with
        | none => none
        | some o =>
          if o.takesValue then
            match attached, args with
            | some value, args => (given.add o value).bind fun given => readOptions known given args
            | none, value :: args =>
              if looksLikeOption value.toList then none
              else (given.add o value).bind fun given => readOptions known given args
            | none, [] => none
          else if attached.isSome then none
          else (given.add o "").bind fun given => readOptions known given args
    | '-' :: 'h' :: _ => some .helpRequest
    | _ => none

/-- The command with the options given. -/
def readSearch (args : List String) : Option CommandLine :=
  (readOptions searchOptions [] args).map fun
    | .helpRequest => .help .search
    | .given given =>
      .search ((given.value? .fixture).getD defaultFixture) (given.value? .filter)
        ((given.value? .sizeLimit).bind fun n =>
          (Text.readNatural n.toList).map UInt64.ofNat)

/-- The command with the options given. -/
def readExplain (args : List String) : Option CommandLine :=
  (readOptions explainOptions [] args).map fun
    | .helpRequest => .help .explain
    | .given given =>
      .explain ((given.value? .fixture).getD defaultFixture) (given.value? .filter)
        (given.value? .json).isSome

/-- Read the arguments; none if they make no sense. -/
def ofArguments? : List String → Option CommandLine
  | "search" :: args => readSearch args
  | "explain" :: args => readExplain args
  | ["help"] => some (.help .program)
  | ["help", "search"] => some (.help .search)
  | ["help", "explain"] => some (.help .explain)
  | ["help", "help"] => some (.help .help)
  | arg :: _ =>
    match arg.toList with
    | '-' :: '-' :: name =>
      if name = "version".toList then some .version
      else if name = "help".toList then some (.help .program)
      else none
    | '-' :: 'V' :: _ => some .version
    | '-' :: 'h' :: _ => some (.help .program)
    | _ => none
  | [] => none

end CommandLine

end Directory
