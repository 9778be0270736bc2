import Abacus.Prompt
import Abacus.Settings.Load
import Abacus.Text.Path

/-!
The command line: its arguments, and a whole run of the program as a function of the files and
lines it reads.
-/
namespace Abacus.CommandLine

/-- The options, by their long names. -/
inductive Flag where
  | config | history | verbose | help
deriving DecidableEq, Repr

namespace Flag

def all : List Flag := [config, history, verbose, help]

def long : Flag → String
  | config => "--config"
  | history => "--history"
  | verbose => "--verbose"
  | help => "--help"

def ofShort? : Char → Option Flag
  | 'v' => some verbose
  | 'h' => some help
  | _ => none

def takesValue : Flag → Bool
  | config | history => true
  | _ => false

/-- The option that a long name or the start of exactly one long name stands for. -/
def ofName? (name : String) : Option Flag :=
  match all.find? (·.long == name) with
  | some f => some f
  | none =>
    match all.filter fun f => name.toList.isPrefixOf f.long.toList with
    | [f] => some f
    | _ => none

/-- Whether several options start with the given name. -/
def isAmbiguous (name : String) : Bool :=
  (all.find? (·.long == name)).isNone
    && 1 < (all.filter fun f => name.toList.isPrefixOf f.long.toList).length

end Flag

/-- What the arguments ask for. -/
structure Request where
  file : Option String := none
  config : Option String := none
  history : Option String := none
  verbose : Bool := false
  /-- Whether arguments were met that mean nothing. -/
  surplus : Bool := false

/-- Why the program stops before it does anything. What is wrong with the arguments is not kept. -/
inductive Stop where
  | usage | help
deriving DecidableEq, Repr

/-- Digits, or digits around a point, behind a minus sign. -/
def looksNegative : List Char → Bool
  | '-' :: cs =>
    let fraction := cs.dropWhile Char.isDigit
    match fraction with
    | [] => !cs.isEmpty
    | '.' :: ds => !ds.isEmpty && ds.all Char.isDigit
    | _ => false
  | _ => false

/-- Whether an argument is an option, known or not, and not a plain one. -/
def looksLikeOption (arg : String) : Bool :=
  match arg.toList with
  | '-' :: c :: rest =>
    let cs := '-' :: c :: rest
    let name := String.ofList (cs.takeWhile (· ≠ '='))
    if c = '-' ∧ (Flag.ofName? name).isSome then true
    else if c = '-' ∧ Flag.isAmbiguous name then true
    else if c ≠ '-' ∧ (Flag.ofShort? c).isSome then true
    else !looksNegative cs && !cs.contains ' '
  | _ => false

/-- A plain argument names the script; a second one is one too many. -/
def withFile (r : Request) (arg : String) : Request :=
  if r.file.isSome then { r with surplus := true } else { r with file := some arg }

def withValue (r : Request) (f : Flag) (value : String) : Request :=
  match f with
  | .config => { r with config := some value }
  | .history => { r with history := some value }
  | _ => r

/-- Short options behind one hyphen, none of which takes a value. -/
def shortFlags (r : Request) : List Char → Except Stop Request
  | [] => .ok r
  | c :: cs =>
    match Flag.ofShort? c with
    | some .help => .error .help
    | some _ => shortFlags { r with verbose := true } cs
    | none => .error .usage

/-- Reads the arguments one after the other; behind `--` all of them are plain. -/
def readArguments (r : Request) : List String → Except Stop Request
  | [] => if r.surplus then .error .usage else .ok r
  | arg :: rest =>
    if arg = "--" then readPlain r rest
    else if !looksLikeOption arg then readArguments (withFile r arg) rest
    else
      match arg.toList with
      | '-' :: '-' :: _ =>
        let name := String.ofList (arg.toList.takeWhile (· ≠ '='))
        let value := arg.toList.dropWhile (· ≠ '=')
        match Flag.ofName? name with
        | none =>
          if Flag.isAmbiguous name then .error .usage
          else readArguments { r with surplus := true } rest
        | some f =>
          if f.takesValue then
            match value, rest with
            | _ :: value, rest => readArguments (withValue r f (String.ofList value)) rest
            | [], value :: rest =>
              if value = "--" || looksLikeOption value then .error .usage
              else readArguments (withValue r f value) rest
            | [], [] => .error .usage
          else if !value.isEmpty then .error .usage
          else if f = .help then .error .help
          else readArguments { r with verbose := true } rest
      | _ :: c :: cs =>
        if (Flag.ofShort? c).isNone then readArguments { r with surplus := true } rest
        else
          match shortFlags r (c :: cs) with
          | .error stop => .error stop
          | .ok r => readArguments r rest
      | _ => .error .usage
where
  readPlain (r : Request) : List String → Except Stop Request
    | [] => if r.surplus then .error .usage else .ok r
    | arg :: rest => readPlain (withFile r arg) rest

/-- How the program is called under the given name. -/
def usage (name : String) : String :=
  "usage: " ++ name ++ " [-h] [--config FILE] [--history FILE] [-v] [file]"

/-- A short description of the language. -/
def languageHelp : String := String.intercalate "\n" [
  "fnCalc is a miniature scripting language suitable for calculations. You can",
  "define and call functions, use variables and create branches and loops.",
  "",
  "Variables:",
  "    x = 42",
  "    y = x + 1",
  "",
  "Functions:",
  "    fn power(base, exponent) \x7b",
  "        if exponent == 0 \x7b",
  "            return 1",
  "        \x7d",
  "        return base * power(base, exponent - 1)",
  "    \x7d",
  "    power(2, 8)",
  "",
  "Branches and loops:",
  "    if x > 10 \x7b x = x - 10 \x7d else \x7b x = x + 1 \x7d",
  "    while x < 5 \x7b x = x + 1; print x; if x == 3 \x7b break \x7d \x7d",
  "",
  "Operators:",
  "    + - * / % ^ and or not < > == != =",
  "",
  "Math functions (radians; the d suffix takes or returns degrees):",
  "    sin cos tan asin acos atan  sind cosd tand asind acosd atand",
  "    ln log abs pi"]

/-- What the program says of itself under the given name. -/
def help (name : String) : String := String.intercalate "\n" [
  usage name,
  "",
  "fnCalc scripting calculator",
  "",
  "positional arguments:",
  "  file            Script file to evaluate",
  "",
  "options:",
  "  -h, --help      show this help message and exit",
  "  --config FILE   YAML file with loop_limit, call_limit, display_places",
  "  --history FILE  Prompt history file (default: ~/.fncalc_history)",
  "  -v, --verbose   Enable debug logging",
  "",
  languageHelp]

/-- A named file is absent if its name is empty. -/
def named (path : Option String) : Option String := path.filter (!·.isEmpty)

/-- What a run of the program leaves: its exit code and what it wrote. -/
structure Report where
  code : Nat
  stdout : String := ""
  stderr : String := ""

/-- The events that are reported: warnings, and all of them if asked for. -/
def logText (verbose : Bool) (events : List Event) : String :=
  let shown := events.filter fun e => verbose || e.level == .warning
  String.join (shown.map fun e => e.line ++ "\n")

def errorReport (message : String) : Report := { code := 1, stderr := "Error: " ++ message ++ "\n" }

def missingFile (path : String) : String :=
  "[Errno 2] No such file or directory: " ++ Text.quoted (Text.plainPath path)

/-- The settings that a run uses. -/
def settingsFor (r : Request) (file : String → Option String) : Except SettingsError Settings :=
  match named r.config with
  | none => .ok {}
  | some path => Settings.ofFile (Text.plainPath path) (file path)

/-- A finished run. -/
def finished (verbose : Bool) (printed : Except Defect String) (events : List Event) : Report :=
  let log := logText verbose events
  match printed with
  | .ok text => { code := 0, stdout := text, stderr := log }
  | .error d => { code := 1, stderr := log ++ (errorReport d.message).stderr }

/-- Evaluates a script. -/
def runScript (verbose : Bool) (settings : Settings) (text : String) : Report :=
  let source := String.ofList (Text.plainBreaks text.toList)
  let reply := Session.process { settings := settings } source
  finished verbose (reply.text.map Prompt.answerText) reply.events

/-- Runs the program on what the arguments ask for. -/
def run (r : Request) (file : String → Option String) (lines : List String) : Report :=
  match settingsFor r file with
  | .error e => errorReport e.message
  | .ok settings =>
    match named r.file with
    | none =>
      let t := Prompt.run { settings := settings } lines
      finished r.verbose t.printed t.events
    | some path =>
      match file path with
      | none => errorReport (missingFile path)
      | some text => runScript r.verbose settings text

end Abacus.CommandLine
