/-!
The arguments of the program: options, which may stand in any order, and the command they belong to.
-/

namespace BuildSync

namespace Arguments

inductive OptionKind where
  | flag
  | help
  | version
  /-- One value, given once. -/
  | path
  | text
  /-- A value each time it is given. -/
  | texts
  deriving DecidableEq, Repr

structure OptionRule where
  long : String
  short : Option Char
  kind : OptionKind
  deriving DecidableEq, Repr

abbrev Given := List (String × String)

namespace Given

def value? (given : Given) (long : String) : Option String := given.lookup long

def has (given : Given) (long : String) : Bool := (given.value? long).isSome

def values (given : Given) (long : String) : List String :=
  (given.filter (·.1 == long)).map Prod.snd

def add (given : Given) (rule : OptionRule) (value : String) : Option Given :=
  if rule.kind ≠ .texts ∧ given.has rule.long then none
  else if rule.kind = .path ∧ value = "" then none
  else some (given ++ [(rule.long, value)])

end Given

inductive Step where
  | given (given : Given)
  | awaits (rule : OptionRule) (given : Given)
  | help
  | version
  | misuse

def Step.ofGiven? : Option Given → Step
  | some g => given g
  | none => misuse

def Step.ofLetters (rules : List OptionRule) (given : Given) : List Char → Step
  | [] => .given given
  | c :: rest =>
    match rules.find? (·.short == some c) with
    | none => .misuse
    | some rule =>
      match rule.kind with
      | .help => .help
      | .version => .version
      | .flag =>
        match given.add rule "" with
        | none => .misuse
        | some given => ofLetters rules given rest
      | _ =>
        match rest with
        | [] => .awaits rule given
        | '=' :: value => .ofGiven? (given.add rule (String.ofList value))
        | value => .ofGiven? (given.add rule (String.ofList value))

def Step.ofName (rules : List OptionRule) (given : Given) (word : List Char) : Step :=
  let name := word.takeWhile (· ≠ '=')
  match rules.find? (·.long.toList == name), word.drop name.length with
  | none, _ => .misuse
  | some rule, value =>
    match rule.kind, value with
    | .help, [] => .help
    | .version, [] => .version
    | .flag, [] => .ofGiven? (given.add rule "")
    | .help, _ => .misuse
    | .version, _ => .misuse
    | .flag, _ => .misuse
    | _, [] => .awaits rule given
    | _, _ :: value => .ofGiven? (given.add rule (String.ofList value))

inductive Level where
  | done (given : Given)
  | command (name : String) (arguments : List String) (given : Given)
  | help
  | version
  | misuse

def isOptionLike (word : String) : Bool :=
  word.toList.head? == some '-' && word ≠ "-"

/-- Reads arguments one by one until one of them ends the reading. Behind two dashes no option may
come, and there are no other arguments. -/
def Level.read (rules : List OptionRule) (commands : List String) (given : Given) :
    List String → Level
  | [] => .done given
  | word :: rest =>
    let step : Step :=
      match word.toList with
      | '-' :: '-' :: name => .ofName rules given name
      | '-' :: letters => .ofLetters rules given letters
      | _ => .misuse
    -- Words that are no options come first: what `step` says of them does not count.
    if word = "--" then (if rest.isEmpty then .done given else .misuse)
    else if !isOptionLike word then
      if commands.contains word then .command word rest given else .misuse
    else
      match step with
      | .given given => read rules commands given rest
      | .help => .help
      | .version => .version
      | .misuse => .misuse
      | .awaits rule given =>
        match rest with
        | [] => .misuse
        | value :: rest =>
          if isOptionLike value then .misuse
          else
            match given.add rule value with
            | none => .misuse
            | some given => read rules commands given rest

end Arguments

inductive Output where
  | write
  | dryRun
  | diff
  deriving DecidableEq, Repr

inductive Command where
  | rpms (workspace manifest : String) (output : Output)
  | rpmtree (buildfile name manifest : String) (files : List String) (output : Output)
  deriving DecidableEq, Repr

def Command.output : Command → Output
  | rpms _ _ output => output
  | rpmtree _ _ _ _ output => output

inductive Request where
  | run (command : Command)
  | help
  | version
  | misuse
  deriving DecidableEq, Repr

namespace Request

open Arguments

def helpRule : OptionRule := ⟨"help", some 'h', .help⟩

def verboseRule : OptionRule := ⟨"verbose", some 'v', .flag⟩

def programRules : List OptionRule := [verboseRule, helpRule, ⟨"version", some 'V', .version⟩]

def sharedRules : List OptionRule :=
  [⟨"manifest", some 'm', .path⟩, ⟨"dry-run", none, .flag⟩, ⟨"diff", none, .flag⟩, verboseRule,
    helpRule]

def rpmsRules : List OptionRule := ⟨"workspace", some 'w', .path⟩ :: sharedRules

def rpmtreeRules : List OptionRule :=
  [⟨"buildfile", some 'b', .path⟩, ⟨"name", some 'n', .text⟩, ⟨"file", some 'f', .texts⟩] ++
    sharedRules

def commands : List String := ["rpms", "rpmtree", "help"]

def manifest? (given : Given) (environment : Option String) : Option String :=
  match given.value? "manifest" with
  | some path => some path
  | none => environment.filter (· ≠ "")

def output? (given : Given) : Option Output :=
  match given.has "dry-run", given.has "diff" with
  | true, true => none
  | true, false => some .dryRun
  | false, true => some .diff
  | false, false => some .write

def rpms? (given : Given) (environment : Option String) : Option Command := do
  return .rpms ((given.value? "workspace").getD "WORKSPACE") (← manifest? given environment)
    (← output? given)

def rpmtree? (given : Given) (environment : Option String) : Option Command := do
  return .rpmtree ((given.value? "buildfile").getD "BUILD.bazel") (← given.value? "name")
    (← manifest? given environment) (given.values "file") (← output? given)

def ofLevel (level : Level) (command? : Given → Option Command) : Request :=
  match level with
  | .done given =>
    match command? given with
    | some command => .run command
    | none => .misuse
  | .command .. => .misuse
  | .help => .help
  | .version => .version
  | .misuse => .misuse

def ofTopics : List String → Request
  | [] => .help
  | [topic] => if commands.contains topic then .help else .misuse
  | _ => .misuse

def ofArguments (arguments : List String) (environment : Option String) : Request :=
  match Level.read programRules commands [] arguments with
  | .command "rpms" rest _ => ofLevel (.read rpmsRules [] [] rest) (rpms? · environment)
  | .command "rpmtree" rest _ => ofLevel (.read rpmtreeRules [] [] rest) (rpmtree? · environment)
  | .command _ rest _ => ofTopics rest
  | level => ofLevel level fun _ => none

end Request

end BuildSync
