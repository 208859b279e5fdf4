/-!
# Arguments

A command line names a command, and switches for all commands or for that one.
The switches for all commands may stand in front of the command and behind it.
A switch is written with two dashes and its name, or with one dash and its
letter; letters may be joined. A value follows in the next argument or in the
same one. Behind two dashes alone there are only operands.
-/

namespace Mediation

inductive Switch where
  | verbose
  | logJson
  | config
  | output
  | dataDir
  | json
  | check
  | help
  | version
  deriving DecidableEq, Repr

namespace Switch

def name : Switch → String
  | verbose => "verbose"
  | logJson => "log-json"
  | config => "config"
  | output => "output"
  | dataDir => "data-dir"
  | json => "json"
  | check => "check"
  | help => "help"
  | version => "version"

def letter? : Switch → Option Char
  | verbose => some 'v'
  | output => some 'o'
  | help => some 'h'
  | version => some 'V'
  | _ => none

def takesValue : Switch → Bool
  | config | output | dataDir => true
  | _ => false

/-- Whether the switch may be given more than once. -/
def mayRepeat : Switch → Bool
  | verbose => true
  | _ => false

end Switch

inductive UsageError where
  | unknownSwitch (argument : String)
  | unexpectedValue (s : Switch)
  | missingValue (s : Switch)
  | repeatedSwitch (s : Switch)
  | unknownCommand (name : String)
  | missingCommand
  | unexpectedOperand (operand : String)
  | missingOperand
  deriving DecidableEq, Repr

def UsageError.message : UsageError → String
  | .unknownSwitch argument => "unexpected argument '" ++ argument ++ "' found"
  | .unexpectedValue s => "unexpected value for '--" ++ s.name ++ "' found"
  | .missingValue s => "a value is required for '--" ++ s.name ++ "' but none was supplied"
  | .repeatedSwitch s => "the argument '--" ++ s.name ++ "' cannot be used multiple times"
  | .unknownCommand name => "unrecognized subcommand '" ++ name ++ "'"
  | .missingCommand => "a subcommand is required"
  | .unexpectedOperand operand => "unexpected argument '" ++ operand ++ "' found"
  | .missingOperand => "a required argument was not provided"

/-! ### Switches and operands -/

inductive ArgumentForm where
  | endOfSwitches
  | named (name : String) (value : Option String)
  | letters (cs : List Char)
  | operand (text : String)
  deriving DecidableEq, Repr

/-- The form of an argument; a dash alone is an operand. -/
def ArgumentForm.of (argument : String) : ArgumentForm :=
  match argument.toList with
  | '-' :: '-' :: [] => .endOfSwitches
  | '-' :: '-' :: cs =>
    let name := cs.takeWhile (· ≠ '=')
    match cs.drop name.length with
    | [] => .named (String.ofList name) none
    | _ :: value => .named (String.ofList name) (some (String.ofList value))
  | '-' :: c :: cs => .letters (c :: cs)
  | _ => .operand argument

def isValue (argument : String) : Bool :=
  match ArgumentForm.of argument with
  | .operand text => text ≠ ""
  | _ => false

structure Given where
  switches : List (Switch × String)
  operands : List String
  deriving DecidableEq, Repr

namespace Given

def none : Given := ⟨[], []⟩

def has (g : Given) (s : Switch) : Bool := g.switches.any fun p => p.1 = s

def value? (g : Given) (s : Switch) : Option String :=
  (g.switches.find? fun p => p.1 = s).map Prod.snd

def add (g : Given) (s : Switch) (value : String) : Except UsageError Given :=
  if g.has s && !s.mayRepeat then .error (.repeatedSwitch s)
  else .ok { g with switches := g.switches ++ [(s, value)] }

def addOperand (g : Given) (limit : Nat) (operand : String) : Except UsageError Given :=
  if g.operands.length ≥ limit then .error (.unexpectedOperand operand)
  else if operand = "" then .error .missingOperand
  else .ok { g with operands := g.operands ++ [operand] }

def addOperands (limit : Nat) : Given → List String → Except UsageError Given
  | g, [] => .ok g
  | g, operand :: rest =>
    match g.addOperand limit operand with
    | .error e => .error e
    | .ok g => addOperands limit g rest

end Given

def findSwitch (allowed : List Switch) (name : String) : Except UsageError Switch :=
  match allowed.find? fun s => s.name = name with
  | some s => .ok s
  | none => .error (.unknownSwitch ("--" ++ name))

def findLetter (allowed : List Switch) (c : Char) : Except UsageError Switch :=
  match allowed.find? fun s => s.letter? = some c with
  | some s => .ok s
  | none => .error (.unknownSwitch (String.ofList ['-', c]))

/-- What is given after an argument; its last switch may still lack the value. -/
structure PartlyGiven where
  given : Given
  lacking : Option Switch

/-- Adds the switches of joined letters. What follows the letter of a switch with
a value is that value, with or without an equals sign in front. -/
def addLetters (allowed : List Switch) : Given → List Char → Except UsageError PartlyGiven
  | g, [] => .ok ⟨g, none⟩
  | g, c :: cs =>
    match findLetter allowed c with
    | .error e => .error e
    | .ok s =>
      if s.takesValue then
        match cs with
        | [] => .ok ⟨g, some s⟩
        | '=' :: [] => .error (.missingValue s)
        | '=' :: value => (g.add s (String.ofList value)).map fun g => ⟨g, none⟩
        | value => (g.add s (String.ofList value)).map fun g => ⟨g, none⟩
      else if s = .help ∨ s = .version then (g.add s "").map fun g => ⟨g, none⟩
      else
        match g.add s "" with
        | .error e => .error e
        | .ok g => addLetters allowed g cs

def addNamed (allowed : List Switch) (g : Given) (name : String) (value : Option String) :
    Except UsageError PartlyGiven :=
  match findSwitch allowed name with
  | .error e => .error e
  | .ok s =>
    match s.takesValue, value with
    | true, none => .ok ⟨g, some s⟩
    | true, some v =>
      if v = "" then .error (.missingValue s) else (g.add s v).map fun g => ⟨g, none⟩
    | false, none => (g.add s "").map fun g => ⟨g, none⟩
    | false, some _ => .error (.unexpectedValue s)

inductive Ending where
  | finished
  | asked (s : Switch)
  | command (name : String) (rest : List String)
  deriving DecidableEq, Repr

def Given.asked? (g : Given) : Option Switch :=
  if g.has .help then some .help else if g.has .version then some .version else Option.none

/-- Reads switches and operands from arguments, at most so many operands. Where
no number is given, a command is expected: the first operand is its name and
ends the reading. A request for help or for the version ends it too. -/
def readArguments (allowed : List Switch) (limit : Option Nat) :
    Option Switch → Given → List String → Except UsageError (Given × Ending)
  | some s, _, [] => .error (.missingValue s)
  | some s, g, a :: rest =>
    if isValue a then
      match g.add s a with
      | .error e => .error e
      | .ok g => readArguments allowed limit none g rest
    else .error (.missingValue s)
  | none, g, [] => .ok (g, .finished)
  | none, g, a :: rest =>
    match ArgumentForm.of a with
    | .endOfSwitches => (g.addOperands (limit.getD 0) rest).map fun g => (g, .finished)
    | .operand text =>
      match limit with
      | none => .ok (g, .command text rest)
      | some n =>
        match g.addOperand n text with
        | .error e => .error e
        | .ok g => readArguments allowed limit none g rest
    | .named name value =>
      match addNamed allowed g name value with
      | .error e => .error e
      | .ok p =>
        match p.given.asked? with
        | some s => .ok (p.given, .asked s)
        | none => readArguments allowed limit p.lacking p.given rest
    | .letters cs =>
      match addLetters allowed g cs with
      | .error e => .error e
      | .ok p =>
        match p.given.asked? with
        | some s => .ok (p.given, .asked s)
        | none => readArguments allowed limit p.lacking p.given rest

/-! ### Commands -/

inductive Command where
  | replay (scenario : String) (output : Option String)
  | inspect (dataDir : Option String) (asJson : Bool)
  | config (checkOnly : Bool)
  | help
  | version
  deriving DecidableEq, Repr

structure Invocation where
  configPath : Option String
  command : Command
  deriving DecidableEq, Repr

def commonSwitches : List Switch := [.verbose, .logJson, .config, .help]

inductive CommandName where
  | replay
  | inspect
  | config
  | help
  deriving DecidableEq, Repr

namespace CommandName

def ofString? (s : String) : Option CommandName :=
  if s = "replay" then some replay
  else if s = "inspect" then some inspect
  else if s = "config" then some config
  else if s = "help" then some help
  else none

def switches : CommandName → List Switch
  | replay => [.output]
  | inspect => [.dataDir, .json]
  | config => [.check]
  | help => []

def operandLimit : CommandName → Nat
  | replay => 1
  | inspect | config | help => 0

def command (n : CommandName) (g : Given) : Except UsageError Command :=
  match n, g.operands with
  | replay, [] => .error .missingOperand
  | replay, scenario :: _ => .ok (.replay scenario (g.value? .output))
  | inspect, _ => .ok (.inspect (g.value? .dataDir) (g.has .json))
  | config, _ => .ok (.config (g.has .check))
  | help, _ => .ok .help

def read (n : CommandName) (before : Given) (rest : List String) : Except UsageError Invocation :=
  match readArguments (n.switches ++ commonSwitches) (some n.operandLimit) none .none rest with
  | .error e => .error e
  | .ok (_, .asked _) => .ok ⟨none, .help⟩
  | .ok (g, _) =>
    (n.command g).map fun c => ⟨(g.value? .config).or (before.value? .config), c⟩

end CommandName

/-- Help for a command, or for all when none is named. -/
def readHelp : List String → Except UsageError Invocation
  | [] => .ok ⟨none, .help⟩
  | [name] =>
    match CommandName.ofString? name with
    | some _ => .ok ⟨none, .help⟩
    | none => .error (.unknownCommand name)
  | _ :: operand :: _ => .error (.unexpectedOperand operand)

def Invocation.ofArguments (arguments : List String) : Except UsageError Invocation :=
  match readArguments (commonSwitches ++ [.version]) none none .none arguments with
  | .error e => .error e
  | .ok (_, .finished) => .error .missingCommand
  | .ok (_, .asked .version) => .ok ⟨none, .version⟩
  | .ok (_, .asked _) => .ok ⟨none, .help⟩
  | .ok (g, .command name rest) =>
    match CommandName.ofString? name with
    | none => .error (.unknownCommand name)
    | some .help => readHelp rest
    | some n => n.read g rest

end Mediation
