import StackMachine.Engine.Session
import StackMachine.Native.Object
import StackMachine.Sample

/-!
# The command line

Three commands on the built-in samples: running one, printing the machine code of its methods, and
listing them.  `Invocation.parse` reads the arguments; `Invocation.execute` says what is printed and
which code the process ends with.
-/

namespace StackMachine.CommandLine

/-- How a result is printed. -/
inductive Format where
  | human
  | json
  deriving DecidableEq, Repr

def Format.name : Format → String
  | .human => "human"
  | .json => "json"

def Format.ofName? (name : String) : Option Format :=
  [Format.human, .json].find? fun f => f.name == name

/-- The options of a run. -/
structure RunOptions where
  jit : Option JitMode := none
  jitThreshold : Option Nat := none
  traceJit : Bool := false
  format : Option Format := none
  deriving DecidableEq, Repr

/-- What is to be done. -/
inductive Command where
  | run (sample : String) (options : RunOptions)
  | dump (sample : String) (target : Target)
  | list
  /-- Explains the commands, or one of them. -/
  | help (topic : Option String)
  deriving DecidableEq, Repr

/-- A command with the options that every command takes. -/
structure Invocation where
  config : Option String := none
  logLevel : Option String := none
  command : Command
  deriving DecidableEq, Repr

/-! ### Arguments -/

/-- An argument, sorted by its form. -/
inductive Token where
  | option (name : String) (value : Option String)
  | flags (letters : List Char)
  /-- Two dashes: everything after them is a value. -/
  | separator
  | value (text : String)
  deriving DecidableEq, Repr

/-- Sorts an argument. -/
def Token.ofArg (arg : String) : Token :=
  match arg.toList with
  | ['-', '-'] => .separator
  | '-' :: '-' :: rest =>
    let name := String.ofList (rest.takeWhile (· != '='))
    match rest.dropWhile (· != '=') with
    | '=' :: attached => .option name (some (String.ofList attached))
    | _ => .option name none
  | '-' :: c :: rest => .flags (c :: rest)
  | _ => .value arg

/-- How reading the arguments ends early. -/
inductive Refusal where
  | usage
  | help
  deriving DecidableEq, Repr

/-- What is read for a command: the values of its options and its plain arguments. -/
structure Reading where
  options : List (String × String) := []
  values : List String := []
  deriving DecidableEq, Repr

/-- An option that a command takes: its name, and how a value of it is checked; a switch takes
none. -/
structure OptionSpec where
  name : String
  check : Option (String → Bool)

/-- Records an option, which may be given once. -/
def Reading.record (r : Reading) (name value : String) : Except Refusal Reading :=
  if (r.options.lookup name).isSome then .error .usage
  else .ok { r with options := (name, value) :: r.options }

/-- Takes the value of an option from its own argument or from the next one. -/
def optionValue? (attached : Option String) (rest : List String) : Option (String × List String) :=
  match attached, rest with
  | some value, rest => some (value, rest)
  | none, next :: rest =>
    match Token.ofArg next with
    | .value text => some (text, rest)
    | _ => none
  | none, [] => none

/-- Reads the arguments of a command.  `stop` tells at which plain argument the command ends, and
`room` how many of them it takes; the rest of the arguments is answered from there on. -/
def read (specs : List OptionSpec) (stop : String → Bool) (room : Nat) :
    Nat → Reading → List String → Except Refusal (Reading × List String)
  | 0, _, _ => .error .usage
  | _ + 1, r, [] => .ok (r, [])
  | fuel + 1, r, arg :: rest =>
    match Token.ofArg arg with
    | .separator =>
      if r.values.length + rest.length ≤ room then .ok ({ r with values := r.values ++ rest }, [])
      else .error .usage
    | .flags letters => if letters.head? = some 'h' then .error .help else .error .usage
    | .value text =>
      if stop text then .ok (r, arg :: rest)
      else if r.values.length < room then
        read specs stop room fuel { r with values := r.values ++ [text] } rest
      else .error .usage
    | .option "help" none => .error .help
    | .option name attached =>
      match specs.find? fun s => s.name == name with
      | none => .error .usage
      | some { check := none, .. } =>
        if attached.isSome then .error .usage
        else
          match r.record name "" with
          | .ok r => read specs stop room fuel r rest
          | .error e => .error e
      | some { check := some check, .. } =>
        match optionValue? attached rest with
        | none => .error .usage
        | some (value, rest) =>
          if check value then
            match r.record name value with
            | .ok r => read specs stop room fuel r rest
            | .error e => .error e
          else .error .usage

def globalSpecs : List OptionSpec :=
  [⟨"config", some fun s => !s.isEmpty⟩, ⟨"log-level", some fun _ => true⟩]

def count? (text : String) : Option Nat :=
  (Numeral.integer? 10 text.toList).bind fun w =>
    if 0 ≤ w ∧ w.toInt < 2 ^ 32 then some w.toInt.toNat else none

def runSpecs : List OptionSpec :=
  [⟨"jit", some fun s => (JitMode.ofName? s).isSome⟩,
    ⟨"jit-threshold", some fun s => (count? s).isSome⟩,
    ⟨"trace-jit", none⟩,
    ⟨"format", some fun s => (Format.ofName? s).isSome⟩]

/-- The options of a listing of machine code. -/
def dumpSpecs : List OptionSpec := [⟨"target", some fun s => (Target.ofName? s).isSome⟩]

def commandNames : List String := ["run", "dump", "list", "help"]

namespace Invocation

/-- Puts together what was read before the command and for it.  What is given for the command
wins. -/
def ofReadings (outer inner : Reading) (command : Command) : Invocation :=
  let option (name : String) := (inner.options ++ outer.options).lookup name
  { config := option "config", logLevel := option "log-level", command }

/-- Reads the arguments of a command that takes a number of plain arguments. -/
def readCommand (specs : List OptionSpec) (room : Nat) (args : List String) (topic : String)
    (finish : Reading → Option Command) : Except (Refusal × Option String) (Reading × Command) :=
  match read (globalSpecs ++ specs) (fun _ => false) room (args.length + 1) {} args with
  | .error e => .error (e, some topic)
  | .ok (r, _) =>
    match finish r with
    | some command => .ok (r, command)
    | none => .error (.usage, some topic)

def parseCommand (name : String) (args : List String) :
    Except (Refusal × Option String) (Reading × Command) :=
  match name with
  | "run" =>
    readCommand runSpecs 1 args name fun r =>
      match r.values with
      | [sample] =>
        some (.run sample {
          jit := (r.options.lookup "jit").bind JitMode.ofName?
          jitThreshold := (r.options.lookup "jit-threshold").bind count?
          traceJit := (r.options.lookup "trace-jit").isSome
          format := (r.options.lookup "format").bind Format.ofName? })
      | _ => none
  | "dump" =>
    readCommand dumpSpecs 1 args name fun r =>
      match r.values with
      | [sample] =>
        some (.dump sample (((r.options.lookup "target").bind Target.ofName?).getD .host))
      | _ => none
  | "list" => readCommand [] 0 args name fun _ => some .list
  | _ =>
    match args with
    | [] => .error (.help, none)
    | [topic] => if topic ∈ commandNames then .error (.help, some topic) else .error (.usage, none)
    | _ => .error (.usage, none)

/-- Reads the arguments of the process; `none` when they make no sense. -/
def parse (args : List String) : Option Invocation :=
  let isCommand (name : String) := decide (name ∈ commandNames)
  match read globalSpecs isCommand 0 (args.length + 1) {} args with
  | .error .help => some { command := .help none }
  | .error .usage => none
  | .ok (_, []) => none
  | .ok (outer, name :: rest) =>
    match parseCommand name rest with
    | .ok (inner, command) => some (ofReadings outer inner command)
    | .error (.help, topic) => some { command := .help topic }
    | .error (.usage, _) => none

end Invocation

/-! ### Help -/

/-- Lines of text. -/
def unlines (lines : List String) : String := String.join (lines.map (· ++ "\n"))

/-- The explanation of the commands, or of one of them. -/
def helpText (topic : Option String) : String :=
  match topic with
  | some "run" =>
    unlines ["Run a built-in sample program", "", "Usage: stackjit run [OPTIONS] <SAMPLE>", "",
      "Arguments:", "  <SAMPLE>  ", "", "Options:",
      "      --config <CONFIG>                Runtime configuration file (TOML)",
      "      --jit <JIT>                      JIT compilation mode (off, on, auto) " ++
        "[possible values: off, on, auto]",
      "      --jit-threshold <JIT_THRESHOLD>  JIT compilation threshold (number of calls before JIT)",
      "      --log-level <LOG_LEVEL>          Log filter, overrides the config file and RUST_LOG",
      "      --trace-jit                      Trace JIT compilation events",
      "      --format <FORMAT>                Result format [default: human] " ++
        "[possible values: human, json]",
      "  -h, --help                           Print help"]
  | some "dump" =>
    unlines ["Print the machine code generated for every method of a sample", "",
      "Usage: stackjit dump [OPTIONS] <SAMPLE>", "", "Arguments:", "  <SAMPLE>  ", "", "Options:",
      "      --config <CONFIG>        Runtime configuration file (TOML)",
      "      --target <TARGET>        Code generation target [default: host] " ++
        "[possible values: host, x86_64-sysv, x86_64-win64, aarch64]",
      "      --log-level <LOG_LEVEL>  Log filter, overrides the config file and RUST_LOG",
      "  -h, --help                   Print help"]
  | some "list" =>
    unlines ["List the built-in samples", "", "Usage: stackjit list [OPTIONS]", "", "Options:",
      "      --config <CONFIG>        Runtime configuration file (TOML)",
      "      --log-level <LOG_LEVEL>  Log filter, overrides the config file and RUST_LOG",
      "  -h, --help                   Print help"]
  | some "help" =>
    unlines ["Print this message or the help of the given subcommand(s)", "",
      "Usage: stackjit help [COMMAND]...", "", "Arguments:",
      "  [COMMAND]...  Print help for the subcommand(s)"]
  | _ =>
    unlines ["A stack bytecode VM with a per-method JIT", "",
      "Usage: stackjit [OPTIONS] <COMMAND>", "", "Commands:",
      "  run   Run a built-in sample program",
      "  dump  Print the machine code generated for every method of a sample",
      "  list  List the built-in samples",
      "  help  Print this message or the help of the given subcommand(s)", "", "Options:",
      "      --config <CONFIG>        Runtime configuration file (TOML)",
      "      --log-level <LOG_LEVEL>  Log filter, overrides the config file and RUST_LOG",
      "  -h, --help                   Print help"]

/-! ### Commands -/

/-- What a process prints, and the code it ends with. -/
structure Outcome where
  code : UInt8 := 0
  out : String := ""
  err : String := ""
  deriving DecidableEq, Repr

def failure (message : String) : Outcome := { code := 1, err := "error: " ++ message ++ "\n" }

/-- Ends a process whose arguments make no sense. -/
def usageError : Outcome :=
  { code := 2, err := "error: invalid arguments\n\n" ++ helpText none }

/-- Text filled up with blanks to a width. -/
def padded (width : Nat) (text : String) : String :=
  text ++ String.ofList (List.replicate (width - text.length) ' ')

/-- The samples, one on each line. -/
def sampleList : String := unlines (Sample.all.map fun s => padded 12 s.name ++ " " ++ s.about)

/-- The listing of every method's machine code, or why there is none. -/
def dumpText (program : Program) (target : Target) : String :=
  String.join ((Native.compileAll target program).map fun (method, outcome) =>
    method.qualifiedName program ++ ":\n" ++
      match outcome with
      | .ok object => hexListing object.code.bytes.toList
      | .error e => "  not compiled: " ++ e.message ++ "\n")

/-- The result of a run: the operand stack at the end, or the fault; and what was printed. -/
structure RunResult where
  stack : Except Fault (List Word)
  output : String := ""
  deriving Repr

/-- Runs the entry method of a program. -/
def runProgram (program : Program) (settings : Settings) (world : Surroundings := {}) : RunResult :=
  match State.start program settings world with
  | .error (.refused cause) => { stack := .error { cause } }
  | .error (.broken _) => { stack := .error { cause := .halted } }
  | .ok s =>
    match program.entryMethod? with
    | none => { stack := .error { cause := .invalidMethod 0 0 } }
    | some entry =>
      match Session.run entry [] s with
      | .ok () s => { stack := .ok s.context.stack.toList, output := s.machine.output }
      | .error (.fault f) s => { stack := .error f, output := s.machine.output }
      | .error _ s => { stack := .error { cause := .halted }, output := s.machine.output }

def decimals (words : List Word) : List String := words.map fun w => Numeral.signedDecimal w.toInt

def listText (words : List Word) : String := "[" ++ ", ".intercalate (decimals words) ++ "]"

def jsonString (s : String) : String :=
  let escaped (c : Char) : String :=
    match c with
    | '"' => "\\\""
    | '\\' => "\\\\"
    | '\n' => "\\n"
    | '\r' => "\\r"
    | '\t' => "\\t"
    | '\x08' => "\\b"
    | '\x0c' => "\\f"
    | c =>
      if c.toNat < 0x20 then
        "\\u00" ++ String.ofList [Nat.digitChar (c.toNat / 16), Nat.digitChar (c.toNat % 16)]
      else c.toString
  "\"" ++ String.join (s.toList.map escaped) ++ "\""

/-- A list of words as an indented JSON value. -/
def jsonList (words : List Word) : String :=
  if words.isEmpty then "[]"
  else "[\n" ++ ",\n".intercalate ((decimals words).map ("    " ++ ·)) ++ "\n  ]"

/-- The report of a run as an indented JSON value. -/
def jsonReport (sample : String) (jit : JitMode) (stack : Except Fault (List Word)) : String :=
  let (words, fault, status) :=
    match stack with
    | .ok words => (jsonList words, "null", "null")
    | .error f =>
      ("null", jsonString f.message,
        ((f.cause.status?).map fun w => Numeral.signedDecimal w.toInt).getD "null")
  let fields := [("sample", jsonString sample), ("jit", jsonString jit.name), ("stack", words),
    ("fault", fault), ("status", status)]
  "\x7b\n" ++ ",\n".intercalate
    (fields.map fun (key, value) => "  " ++ jsonString key ++ ": " ++ value) ++ "\n\x7d\n"

/-- Runs a sample and reports the result. -/
def runSample (sample : Sample) (settings : Settings) (format : Format)
    (world : Surroundings := {}) :
    Outcome :=
  let result := runProgram sample.program settings world
  let code : UInt8 :=
    match result.stack, settings.onFault with
    | .error _, .exit => 1
    | _, _ => 0
  match format, result.stack with
  | .json, stack => { code, out := result.output ++ jsonReport sample.name settings.jitMode stack }
  | .human, .ok words => { code, out := result.output ++ listText words ++ "\n" }
  | .human, .error f => { code, out := result.output, err := "error: " ++ f.message ++ "\n" }

def withSample (name : String) (f : Sample → Outcome) : Outcome :=
  match Sample.find? name with
  | some sample => f sample
  | none => failure ("unknown sample '" ++ name ++ "' (try `stackjit list`)")

/-- The settings of a run: the options win over the configuration. -/
def RunOptions.apply (o : RunOptions) (s : Settings) : Settings :=
  { s with
    jitMode := o.jit.getD s.jitMode
    jitThreshold := o.jitThreshold.getD s.jitThreshold
    traceJit := s.traceJit || o.traceJit }

def Command.execute (settings : Settings) (world : Surroundings) : Command → Outcome
  | .run name options =>
    withSample name fun sample =>
      runSample sample (options.apply settings) (options.format.getD .human) world
  | .dump name target => withSample name fun sample => { out := dumpText sample.program target }
  | .list => { out := sampleList }
  | .help topic => { out := helpText topic }

/-- Carries out an invocation, given the text of the configuration file or why there is none. -/
def Invocation.execute (i : Invocation) (config : Except String String)
    (world : Surroundings := {}) :
    Outcome :=
  let settings : Except ConfigError Settings :=
    match i.command, i.config with
    | .help _, _ | _, none => .ok {}
    | _, some path => Settings.ofFile path config
  match settings with
  | .error e => failure e.message
  | .ok settings =>
    i.command.execute { settings with logLevel := i.logLevel.getD settings.logLevel } world

/-- Carries out what arguments ask for, given how a file is read. -/
def run (args : List String) (readFile : String → Except String String)
    (world : Surroundings := {}) : Outcome :=
  match Invocation.parse args with
  | none => usageError
  | some i => i.execute (readFile (i.config.getD "")) world

end StackMachine.CommandLine
