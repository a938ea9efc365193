import OrderDesk.CommandLine.Parse
import OrderDesk.Desk

/-! What the program prints. Replies go to the standard output; errors of lines and of the
command line go to the standard error. -/

namespace OrderDesk.CommandLine

structure Outcome where
  exitCode : Nat
  output : String
  errors : String
  deriving DecidableEq, Repr

def Stop.outcome (stop : Stop) : Outcome :=
  match stop with
  | .help text => { exitCode := 0, output := text, errors := "" }
  | .version text => { exitCode := 0, output := text, errors := "" }
  | .nothingAsked text => { exitCode := 2, output := "", errors := text }
  | .mistake error => { exitCode := 2, output := "", errors := error.text }

def lineError (error : DeskError) : String :=
  "Error reading order: " ++ error.message ++ "\n"

def noSuchFile : Outcome :=
  { exitCode := 1, output := "", errors := "Error:   × No such file or directory (os error 2)\n" }

def runFile (settings : Settings) (contents : Option (List UInt8)) : Outcome :=
  match contents with
  | none => noSuchFile
  | some bytes =>
      let batch := (Desk.ofSettings settings).runPieces [.bytes bytes]
      { exitCode := 0
        output := batch.output
        errors := String.join (batch.errors.map lineError) }

end OrderDesk.CommandLine
