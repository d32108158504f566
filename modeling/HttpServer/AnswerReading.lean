import HttpServer.ContentHeaders
import HttpServer.FramingLines

/-!
# What a client reads of an answer

The status, the header lines and the body of an answer are read off its bytes. Of a
serialized response they are its own, when its reason phrase and its headers keep to
one line each.
-/

namespace HttpServer

variable {resp : HttpResponse} {keepAlive : Bool} {now : ℤ} {name : Bytes}

/-! ## The reader -/

structure Answer where
  status : ℕ
  fields : List Bytes
  body : Option Bytes
  deriving DecidableEq

/-- The three digits behind the version. -/
def statusCode (start : Bytes) : Option ℕ := numeral 10 0 ((start.drop 9).take 3)

/-- An answer that is all there is on a connection and is not chunked. -/
def readAnswer (text : Bytes) : Option Answer := do
  let (start, behind) ← takeLine text
  let (fields, _) ← fieldLines (behind.length + 1) behind
  let status ← statusCode start
  some { status := status, fields := fields, body := (receive (fun _ => none) text).map Prod.fst }

/-- The value of the first header of this name. -/
def Answer.value (answer : Answer) (name : Bytes) : Bytes :=
  (fieldValues answer.fields name).headD []

/-! ## The lines of a response -/

end HttpServer
