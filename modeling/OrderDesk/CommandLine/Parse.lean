import OrderDesk.CommandLine.Usage

/-! Reading the command line. Arguments are read from left to right. An option waits for its
value, and a value is judged when the next argument shows that nothing more belongs to it. An
option that is absent takes the value of its variable, and after that its usual value. -/

namespace OrderDesk.CommandLine

inductive Value where
  | integer (value : Int)
  | format (format : LogFormat)
  | address (address : Address)
  | path (path : String)
  deriving DecidableEq, Repr

def readDigits (negative : Bool) (value : Int) : List Char → Except String Int
  | [] => .ok value
  | char :: rest =>
      if '0' ≤ char && char ≤ '9' then
        let digit : Int := char.toNat - 0x30
        let value := if negative then value * 10 - digit else value * 10 + digit
        if value < Int64.minValue.toInt then .error "number too small to fit in target type"
        else if Int64.maxValue.toInt < value then .error "number too large to fit in target type"
        else readDigits negative value rest
      else .error "invalid digit found in string"

def readInteger (text : String) : Except String Int :=
  match text.toList with
  | [] => .error "cannot parse integer from empty string"
  | ['+'] | ['-'] => .error "invalid digit found in string"
  | '+' :: digits => readDigits false 0 digits
  | '-' :: digits => readDigits true 0 digits
  | digits => readDigits false 0 digits

def readValue (setting : Setting) (text : String) : Except UsageError Value :=
  match setting with
  | .couriers | .timeout =>
      match readInteger text with
      | .ok value => .ok (.integer value)
      | .error reason => .error (.badValue text setting reason)
  | .logFormat =>
      if text = "pretty" then .ok (.format .pretty)
      else if text = "json" then .ok (.format .json)
      else if text.isEmpty then .error (.noValue setting)
      else .error (.badChoice text setting)
  | .address =>
      match Address.parse? text with
      | some address => .ok (.address address)
      | none => .error (.badValue text setting "invalid socket address syntax")
  | .input => if text.isEmpty then .error (.noValue setting) else .ok (.path text)

inductive Origin where
  | environment
  | argument
  deriving DecidableEq, Repr

structure Given where
  setting : Setting
  value : Value
  origin : Origin
  deriving DecidableEq, Repr

structure Pending where
  setting : Setting
  text : Option String

/-- How far the arguments of one command have been read. After two dashes alone, the rest are
neither options nor commands. -/
structure Level where
  command : Command
  given : List Given
  pending : Option Pending
  trailing : Bool
  placed : Bool

def Level.start (command : Command) : Level :=
  { command := command, given := [], pending := none, trailing := false, placed := false }

namespace Level

def give (level : Level) (setting : Setting) (text : String) : Except UsageError Level :=
  if level.given.any fun given => given.setting = setting then .error (.repeated setting)
  else do
    let value ← readValue setting text
    return { level with given := level.given ++ [⟨setting, value, .argument⟩] }

def resolve (level : Level) : Except UsageError Level :=
  match level.pending with
  | none => .ok level
  | some ⟨setting, none⟩ => .error (.noValue setting)
  | some ⟨setting, some text⟩ => { level with pending := none }.give setting text

def awaiting? (level : Level) : Option Setting :=
  match level.pending with
  | some ⟨setting, none⟩ => some setting
  | _ => none

def option? (level : Level) (name : String) : Option Setting :=
  level.command.options.find? fun setting => setting.option? = some name

def misfit (level : Level) (argument : String) : UsageError :=
  if !level.command.hasSubcommands then .unexpected argument
  else if level.trailing && (level.command.subcommand? argument).isSome then .unexpected argument
  else .unknownCommand argument

def place (level : Level) (argument : String) : Except UsageError Level :=
  match level.command.positional?, level.placed with
  | some setting, false => do
      let level ← level.resolve
      return { level with pending := some ⟨setting, some argument⟩, placed := true }
  | _, _ => .error (level.misfit argument)

def long (environment : Environment) (level : Level) (name : String) (value : Option String) :
    Except Stop Level := do
  match level.option? name, value with
  | some setting, some text =>
      (level.resolve >>= fun level => level.give setting text).mapError .mistake
  | some setting, none =>
      let level ← level.resolve.mapError .mistake
      return { level with pending := some ⟨setting, none⟩ }
  | none, some text =>
      if name = "help" || (name = "version" && level.command.hasVersion) then
        .error (.mistake (.unneededValue text ("--" ++ name)))
      else .error (.mistake (.unexpected ("--" ++ name)))
  | none, none =>
      if name = "help" then do
        let level ← level.resolve.mapError .mistake
        .error (.help (level.command.helpText environment))
      else if name = "version" && level.command.hasVersion then do
        let _ ← level.resolve.mapError .mistake
        .error (.version s!"{programName} {version}\n")
      else .error (.mistake (.unexpected ("--" ++ name)))

def short (environment : Environment) (level : Level) (letter : Char) : Stop :=
  let settled (stop : Stop) : Stop :=
    match level.resolve with
    | .ok _ => stop
    | .error error => .mistake error
  if letter = 'h' then settled (.help (level.command.helpText environment))
  else if letter = 'V' && level.command.hasVersion then
    settled (.version s!"{programName} {version}\n")
  else .mistake (.unexpected (String.ofList ['-', letter]))

end Level

/-- Digits with at most one point among them, not in front, and at most one exponent letter,
neither in front nor at the end. -/
def looksLikeNumber (first seenPoint seenLetter : Bool) : List Char → Bool
  | [] => true
  | char :: rest =>
      if '0' ≤ char && char ≤ '9' then looksLikeNumber false seenPoint seenLetter rest
      else if char = '.' then
        !seenPoint && !seenLetter && !first && looksLikeNumber false true seenLetter rest
      else if char = 'e' || char = 'E' then
        !seenLetter && !first && !rest.isEmpty && looksLikeNumber false seenPoint true rest
      else false

def splitLong (text : List Char) : String × Option String :=
  let name := text.takeWhile fun char => char != '='
  match text.dropWhile fun char => char != '=' with
  | _ :: value => (String.ofList name, some (String.ofList value))
  | [] => (String.ofList name, none)

def readArgument (environment : Environment) (level : Level) (argument : String) :
    Except Stop Level :=
  let value : Except Stop Level :=
    match level.awaiting? with
    | some setting => .ok { level with pending := some ⟨setting, some argument⟩ }
    | none => (level.place argument).mapError .mistake
  if level.trailing then (level.place argument).mapError .mistake
  else
    match argument.toList with
    | ['-', '-'] => .ok { level with trailing := true }
    | '-' :: '-' :: text =>
        let (name, attached) := splitLong text
        level.long environment name attached
    | '-' :: letter :: letters =>
        if (level.awaiting?.any Setting.takesNegative) &&
            looksLikeNumber true false false (letter :: letters) then value
        else .error (level.short environment letter)
    | _ => value

def fromEnvironment (environment : Environment) : List Setting → List Given → Except UsageError (List Given)
  | [], given => .ok given
  | setting :: settings, given =>
      let known := given.any fun given => given.setting = setting
      match setting.envName?.bind fun name => environment.lookup name with
      | some text =>
          if known then fromEnvironment environment settings given
          else do
            let value ← readValue setting text
            fromEnvironment environment settings (given ++ [⟨setting, value, .environment⟩])
      | none => fromEnvironment environment settings given

def Level.finish (environment : Environment) (level : Level) : Except UsageError (List Given) := do
  let level ← level.resolve
  fromEnvironment environment level.command.options level.given

def readLeaf (environment : Environment) (level : Level) : List String → Except Stop (List Given)
  | [] => do
      let given ← (level.finish environment).mapError .mistake
      match level.command.positional? with
      | some setting =>
          if given.any fun given => given.setting = setting then return given
          else .error (.mistake (.missingArguments [setting.label]))
      | none => return given
  | argument :: arguments => do
      let level ← readArgument environment level argument
      readLeaf environment level arguments

def readHelp (environment : Environment) (command : Command) : List String → Stop
  | [] => .help (command.helpText environment)
  | name :: names =>
      match command.subcommand? name with
      | some command => readHelp environment command names
      | none => .mistake (.unknownCommand name)

def readProgram (environment : Environment) (level : Level) :
    List String → Except Stop (Command × List Given × List Given)
  | [] => do
      let given ← (level.finish environment).mapError .mistake
      if given.isEmpty then .error (.nothingAsked (level.command.helpText environment))
      else .error (.mistake .missingCommand)
  | argument :: arguments =>
      let command :=
        if level.trailing || level.awaiting?.isSome then none
        else level.command.subcommand? argument
      match command with
      | some .help => .error (readHelp environment level.command arguments)
      | some command => do
          let inner ← readLeaf environment (.start command) arguments
          let outer ← (level.finish environment).mapError .mistake
          return (command, outer, inner)
      | none => do
          let level ← readArgument environment level argument
          readProgram environment level arguments

/-! ## Results -/

def lookUp (outer inner : List Given) (setting : Setting) : Option Value :=
  let find (given : List Given) (origin : Origin) : Option Value :=
    (given.find? fun given => given.setting = setting && given.origin = origin).map Given.value
  (find inner .argument).or ((find outer .argument).or
    ((find inner .environment).or (find outer .environment)))

def settings (outer inner : List Given) : Settings :=
  let usual := Settings.usual
  { couriers :=
      match lookUp outer inner .couriers with
      | some (.integer value) => value
      | _ => usual.couriers
    timeoutMillis :=
      match lookUp outer inner .timeout with
      | some (.integer value) => value
      | _ => usual.timeoutMillis
    logFormat :=
      match lookUp outer inner .logFormat with
      | some (.format format) => format
      | _ => usual.logFormat }

def parseSettings (environment : Environment) (arguments : List String) : Except Stop Settings := do
  let given ← readLeaf environment (.start .settings) arguments
  return settings given []

inductive Invocation where
  | serve (settings : Settings) (address : Address)
  | run (settings : Settings) (input : String)
  deriving Repr

def usualAddress : Address := .v4 [0, 0, 0, 0] 8080

def parse (environment : Environment) (arguments : List String) : Except Stop Invocation := do
  let (command, outer, inner) ← readProgram environment (.start .program) arguments
  let settings := settings outer inner
  match command with
  | .serve =>
      match lookUp outer inner .address with
      | some (.address address) => return .serve settings address
      | _ => return .serve settings usualAddress
  | _ =>
      match lookUp outer inner .input with
      | some (.path path) => return .run settings path
      | _ => return .run settings ""

end OrderDesk.CommandLine
