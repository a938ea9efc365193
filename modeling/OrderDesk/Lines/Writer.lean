import OrderDesk.Lines.Error
import OrderDesk.Reply.Text

/-! Replies to a sink of bytes, one to a line. -/

namespace OrderDesk.Lines

/-- A sink that takes `room` more bytes, without bound if there is none, and then fails. -/
structure Sink where
  written : List UInt8
  room : Option Nat
  deriving DecidableEq, Repr

def full : String := "disk full"

def Sink.write (sink : Sink) (bytes : List UInt8) : Sink × Except String Unit :=
  match sink.room with
  | none => ({ sink with written := sink.written ++ bytes }, .ok ())
  | some room =>
      ({ written := sink.written ++ bytes.take room, room := some (room - bytes.length) },
        if bytes.length ≤ room then .ok () else .error full)

def utf8 (text : String) : List UInt8 :=
  text.toUTF8.toList

/-- Writes a reply and a line feed. A sink that fails in the middle of the JSON text makes this a
JSON error. -/
def Sink.writeReply (sink : Sink) (reply : Reply) : Sink × Except DeskError Unit :=
  match sink.write (utf8 reply.render) with
  | (sink, .error message) => (sink, .error (.jsonSink message))
  | (sink, .ok ()) =>
      match sink.write (utf8 "\n") with
      | (sink, .error message) => (sink, .error (.io message))
      | (sink, .ok ()) => (sink, .ok ())

/-- Writes replies in order, each one whatever became of those before it. -/
def Sink.writeReplies (sink : Sink) : List Reply → Sink × List (Except DeskError Unit)
  | [] => (sink, [])
  | reply :: replies =>
      let (sink, result) := sink.writeReply reply
      let (sink, results) := sink.writeReplies replies
      (sink, result :: results)

end OrderDesk.Lines
