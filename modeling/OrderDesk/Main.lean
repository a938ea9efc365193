import OrderDesk.CommandLine.Program

/-! The program: it reads the command line, the environment and a file of orders, and prints the
replies. -/

namespace OrderDesk

open CommandLine

def readEnvironment : IO Environment := do
  let read (name : String) : IO Environment := do
    match ← IO.getEnv name with
    | some value => return [(name, value)]
    | none => return []
  let names := globals.filterMap Setting.envName?
  return (← names.mapM read).flatten

def readContents (path : String) : IO (Option (List UInt8)) := do
  try
    let bytes ← IO.FS.readBinFile path
    return some bytes.toList
  catch _ => return none

def leave (outcome : Outcome) : IO UInt32 := do
  (← IO.getStdout).putStr outcome.output
  (← IO.getStderr).putStr outcome.errors
  return outcome.exitCode.toUInt32

end OrderDesk

open OrderDesk OrderDesk.CommandLine in
def main (arguments : List String) : IO UInt32 := do
  match parse (← readEnvironment) arguments with
  | .error stop => leave stop.outcome
  | .ok (.run settings input) => leave (runFile settings (← readContents input))
  | .ok (.serve _ address) =>
      let refusal := DeskError.bind address.text "sockets are not available"
      leave { exitCode := 1, output := "", errors := "Error:   × " ++ refusal.message ++ "\n" }
