import OrderDesk.Address
import OrderDesk.Settings

/-! What the command line offers: which commands there are, what can be set, how mistakes are
reported and what the help shows. -/

namespace OrderDesk.CommandLine

def programName : String := "order-pipeline"

def version : String := "0.1.0"

inductive Setting where
  | couriers
  | timeout
  | logFormat
  | address
  | input
  deriving DecidableEq, Repr

abbrev Environment := List (String × String)

namespace Setting

/-- The name of the option, without its dashes. The input has none: it is known by its place. -/
def option? : Setting → Option String
  | couriers => some "couriers"
  | timeout => some "request-timeout-ms"
  | logFormat => some "log-format"
  | address => some "addr"
  | input => none

def valueName : Setting → String
  | couriers => "COURIERS"
  | timeout => "REQUEST_TIMEOUT_MS"
  | logFormat => "LOG_FORMAT"
  | address => "ADDR"
  | input => "INPUT"

def label (setting : Setting) : String :=
  match setting.option? with
  | some option => s!"--{option} <{setting.valueName}>"
  | none => s!"<{setting.valueName}>"

def envName? : Setting → Option String
  | couriers => some "ORDER_COURIERS"
  | timeout => some "ORDER_REQUEST_TIMEOUT_MS"
  | _ => none

def takesNegative : Setting → Bool
  | couriers | timeout => true
  | _ => false

def summary : Setting → String
  | couriers => "Couriers that can be assigned at once (clamped to 1..=128)"
  | timeout => "Deadline for a whole order in milliseconds; non-positive means the default"
  | logFormat => "Log output format"
  | address => ""
  | input => "Input orders file"

def usual? : Setting → Option String
  | couriers => some "5"
  | timeout => some "2000"
  | logFormat => some "pretty"
  | address => some "0.0.0.0:8080"
  | input => none

def choices : Setting → List String
  | logFormat => ["pretty", "json"]
  | _ => []

def description (environment : Environment) (setting : Setting) : String :=
  let fallback :=
    setting.envName?.map fun name =>
      let value := (environment.lookup name).getD ""
      s!"[env: {name}={value}]"
  let usual := setting.usual?.map fun usual => s!"[default: {usual}]"
  let choices :=
    if setting.choices.isEmpty then none
    else some ("[possible values: " ++ String.intercalate ", " setting.choices ++ "]")
  let summary := if setting.summary.isEmpty then none else some setting.summary
  String.intercalate " " ([summary, fallback, usual, choices].filterMap id)

end Setting

def globals : List Setting := [.couriers, .timeout, .logFormat]

inductive Command where
  | settings
  | program
  | serve
  | run
  | help
  deriving DecidableEq, Repr

namespace Command

def path : Command → String
  | settings | program => programName
  | serve => programName ++ " serve"
  | run => programName ++ " run"
  | help => programName ++ " help"

def options : Command → List Setting
  | settings | program | run => globals
  | serve => .address :: globals
  | help => []

def positional? : Command → Option Setting
  | run => some .input
  | _ => none

def subcommand? : Command → String → Option Command
  | program, "serve" => some serve
  | program, "run" => some run
  | program, "help" => some help
  | _, _ => none

def hasSubcommands (command : Command) : Bool := command == program

def hasVersion (command : Command) : Bool := command == program

def about : Command → String
  | settings | program => "Process-wide settings, read from flags or the environment"
  | serve => "Serve the HTTP API"
  | run => "Process orders from a JSON-lines file and print one response per line"
  | help => "Print this message or the help of the given subcommand(s)"

def usage (command : Command) : String :=
  command.path ++
    match command with
    | settings | serve => " [OPTIONS]"
    | program => " [OPTIONS] <COMMAND>"
    | run => " [OPTIONS] <INPUT>"
    | help => " [COMMAND]..."

def helpText (environment : Environment) (command : Command) : String :=
  let commands :=
    if command.hasSubcommands then
      "\nCommands:\n  serve  " ++ about serve ++ "\n  run    " ++ about run ++ "\n  help   " ++
        about help ++ "\n"
    else ""
  let arguments :=
    match command with
    | run => s!"\nArguments:\n  <INPUT>  {Setting.input.summary}\n"
    | help => "\nArguments:\n  [COMMAND]...  Print help for the subcommand(s)\n"
    | _ => ""
  let option (setting : Setting) : String :=
    s!"      {setting.label}\n          {setting.description environment}\n"
  let options :=
    if command == help then ""
    else
      "\nOptions:\n" ++ String.join (command.options.map option) ++
        "  -h, --help\n          Print help\n" ++
        (if command.hasVersion then "  -V, --version\n          Print version\n" else "")
  command.about ++ "\n\nUsage: " ++ command.usage ++ "\n" ++ commands ++ arguments ++ options

end Command

inductive UsageError where
  /-- A value that cannot be read, and why. -/
  | badValue (value : String) (setting : Setting) (reason : String)
  /-- A value that is not among the choices. -/
  | badChoice (value : String) (setting : Setting)
  | noValue (setting : Setting)
  | repeated (setting : Setting)
  | unexpected (argument : String)
  | unneededValue (value flag : String)
  | unknownCommand (name : String)
  | missingCommand
  | missingArguments (labels : List String)
  deriving DecidableEq, Repr

namespace UsageError

def message : UsageError → String
  | badValue value setting reason => s!"invalid value '{value}' for '{setting.label}': {reason}"
  | badChoice value setting => s!"invalid value '{value}' for '{setting.label}'"
  | noValue setting => s!"a value is required for '{setting.label}' but none was supplied"
  | repeated setting => s!"the argument '{setting.label}' cannot be used multiple times"
  | unexpected argument => s!"unexpected argument '{argument}' found"
  | unneededValue value flag =>
      s!"unexpected value '{value}' for '{flag}' found; no more were expected"
  | unknownCommand name => s!"unrecognized subcommand '{name}'"
  | missingCommand => s!"'{programName}' requires a subcommand but one was not provided"
  | missingArguments _ => "the following required arguments were not provided:"

def text (error : UsageError) : String :=
  let details :=
    match error with
    | missingArguments labels => String.join (labels.map fun label => s!"\n  {label}")
    | badChoice _ setting | noValue setting =>
        if setting.choices.isEmpty then ""
        else "\n  [possible values: " ++ String.intercalate ", " setting.choices ++ "]"
    | _ => ""
  "error: " ++ error.message ++ details ++ "\n\nFor more information, try '--help'.\n"

end UsageError

inductive Stop where
  | help (text : String)
  | version (text : String)
  | nothingAsked (text : String)
  | mistake (error : UsageError)
  deriving DecidableEq, Repr

def Stop.text : Stop → String
  | .help text => text
  | .version text => text
  | .nothingAsked text => text
  | .mistake error => error.text

end OrderDesk.CommandLine
