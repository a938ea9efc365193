import OrderDesk.Desk
import OrderDesk.Shift

/-! The HTTP interface: orders are posted to one path, and another path says that the desk is
there. -/

namespace OrderDesk

open Schedule

namespace Http

structure Request where
  method : String
  target : String
  body : ByteArray

structure Response where
  status : Nat
  allow : Option String
  contentType : Option String
  contentLength : Option Nat
  body : String
  deriving DecidableEq, Repr

def beforeQuery (text : List Char) : List Char :=
  text.takeWhile fun char => char != '?' && char != '#'

def afterScheme? : List Char → Option (List Char)
  | ':' :: '/' :: '/' :: rest => some rest
  | _ :: rest => afterScheme? rest
  | [] => none

/-- The path of a request target, as it stands. A target with a scheme has the path after its
authority, where nothing stands for the root; a bare authority has no path. -/
def path (target : List Char) : List Char :=
  match target with
  | '/' :: _ => beforeQuery target
  | ['*'] => ['*']
  | _ =>
      match afterScheme? target with
      | none => []
      | some rest =>
          match beforeQuery (rest.dropWhile fun char => char != '/' && char != '?' && char != '#') with
          | [] => ['/']
          | path => path

def orderPath : List Char := ['/', 'o', 'r', 'd', 'e', 'r']

def healthPath : List Char := ['/', 'h', 'e', 'a', 'l', 't', 'h']

def bodyLimit : Nat := 2097152

def withBody (status : Nat) (contentType body : String) : Response :=
  { status := status, allow := none, contentType := some contentType
    contentLength := some body.utf8ByteSize, body := body }

def ofAnswer (answer : Answer) : Response :=
  withBody answer.status "application/json" answer.reply.render

def health : Response :=
  withBody 200 "application/json" "\x7b\"status\":\"ok\"\x7d"

def notAllowed (allow : String) : Response :=
  { status := 405, allow := some allow, contentType := none, contentLength := some 0, body := "" }

/-- Nothing is found under a path. Only an answer to a target without a rooted path gives its
length. -/
def notFound (path : List Char) : Response :=
  { status := 404, allow := none, contentType := none
    contentLength := if path.head? = some '/' then none else some 0, body := "" }

def tooLarge : Response :=
  withBody 413 "text/plain; charset=utf-8"
    "Failed to buffer the request body: length limit exceeded"

inductive Progress where
  | answered (response : Response) (time : Nat)
  | handled (progress : Handler.Progress)

def accept (handler : Handler) (state : State) (request : Request) : State × Progress :=
  let now (response : Response) : State × Progress := (state, .answered response state.clock)
  let path := path request.target.toList
  if path = orderPath then
    if request.method = "POST" then
      if bodyLimit < request.body.size then now tooLarge
      else
        let (state, progress) := handler.acceptBody state request.body
        (state, .handled progress)
    else now (notAllowed "POST")
  else if path = healthPath then
    if request.method = "GET" then now health
    else if request.method = "HEAD" then now { health with body := "" }
    else now (notAllowed "GET,HEAD")
  else now (notFound path)

def Progress.response? (state : State) : Progress → Option (Response × Nat)
  | .answered response time => some (response, time)
  | .handled progress => do
      let (answer, time) ← progress.answer? state
      return (ofAnswer answer, time)

end Http

end OrderDesk
