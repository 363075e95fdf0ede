import MyselfServer.HttpRequest
import MyselfServer.Stream

/-!
# The request parser

`HttpParser` reads a request from the front of a buffer: request line, header
lines, body. Its functions are rounds in the sense of `Stream`: they take the
parser and the readable bytes of the buffer and leave the parser and the
bytes not retrieved. `more`, `done`, `bad` are the source's `kNeedMore`,
`kComplete` and `kBadRequest`; `moved` is the `kNeedMore` that comes with a
new `state_`, which `parse` tells from waiting by looking at `state_`. Counts
of bytes are natural numbers: a sum of lengths of bytes in memory does not
overflow `size_t`.
-/

namespace Myself

open Text Stream

inductive State where
  | kRequestLine
  | kHeaders
  | kBody
  | kGotAll
  | kError
  deriving DecidableEq, Repr

structure HttpParser where
  state : State := .kRequestLine
  maxHeaderBytes : Nat := 8192
  maxBodyBytes : Nat := 2 ^ 20
  contentLength : Nat := 0
  parsedHeaderBytes : Nat := 0
  request : HttpRequest := {}

namespace HttpParser

def fresh (maxHeaderBytes maxBodyBytes : Nat) : HttpParser :=
  { maxHeaderBytes := maxHeaderBytes, maxBodyBytes := maxBodyBytes }

def findCRLF (buf : Bytes) : Option Nat := search CRLF buf

inductive Line where
  | incomplete
  | overlong
  | tooLong (p : HttpParser) (rest : Bytes)
  | got (line : Bytes) (p : HttpParser) (rest : Bytes)

/-- How `parseRequestLine` and `parseHeaders` take the next line: the bytes
not yet ended by CRLF and the bytes of the ended lines are checked against
the same limit. -/
def nextLine (p : HttpParser) (buf : Bytes) : Line :=
  match findCRLF buf with
  | none => if buf.length > p.maxHeaderBytes then .overlong else .incomplete
  | some crlf =>
    let line := buf.take crlf
    let rest := buf.drop (crlf + 2)
    let p := { p with parsedHeaderBytes := p.parsedHeaderBytes + (line.length + 2) }
    if p.parsedHeaderBytes > p.maxHeaderBytes then .tooLong p rest else .got line p rest

def splitRequestLine (line : Bytes) : Option (Bytes × Bytes × Bytes) :=
  match findFrom SP line 0 with
  | none => none
  | some firstSpace =>
    match findFrom SP line (firstSpace + 1) with
    | none => none
    | some secondSpace =>
      some (line.take firstSpace,
        (line.drop (firstSpace + 1)).take (secondSpace - firstSpace - 1),
        trim (line.drop (secondSpace + 1)))

def setRequestLine (p : HttpParser) (method : Method) (target versionText : Bytes) : HttpParser :=
  { p with
    state := .kHeaders
    request :=
      { ({ p.request with method := method }.setPath target) with
        version := versionText
        keepAlive := decide (versionText = bytes "HTTP/1.1") } }

def parseRequestLine (p : HttpParser) (buf : Bytes) : Step HttpParser UInt8 :=
  match nextLine p buf with
  | .overlong => .bad p buf
  | .incomplete => .more p buf
  | .tooLong p rest => .bad p rest
  | .got line p rest =>
    match splitRequestLine line with
    | none => .bad p rest
    | some (methodText, target, versionText) =>
      if methodFromString methodText = .kInvalid then .bad p rest
      else if versionText ≠ bytes "HTTP/1.1" ∧ versionText ≠ bytes "HTTP/1.0" then .bad p rest
      else .moved (p.setRequestLine (methodFromString methodText) target versionText) rest

/-- What a header field does besides being stored; `false` rejects it. -/
def applyField (p : HttpParser) (key value : Bytes) : Bool × HttpParser :=
  let p := { p with request := p.request.addHeader key value }
  let lowerKey := toLower key
  if lowerKey = bytes "content-length" then
    if isDigitString value then (true, { p with contentLength := strtoul value })
    else (false, p)
  else if lowerKey = bytes "connection" then
    let lowerValue := toLower value
    if (search (bytes "close") lowerValue).isSome then
      (true, { p with request := { p.request with keepAlive := false } })
    else if (search (bytes "keep-alive") lowerValue).isSome then
      (true, { p with request := { p.request with keepAlive := true } })
    else (true, p)
  else (true, p)

def headerLine (p : HttpParser) (line : Bytes) : Bool × HttpParser :=
  match findFrom COLON line 0 with
  | none => (false, p)
  | some colon =>
    let key := trim (line.take colon)
    let value := trim (line.drop (colon + 1))
    if key.isEmpty then (false, p) else p.applyField key value

def endOfHead (p : HttpParser) (rest : Bytes) : Step HttpParser UInt8 :=
  if p.contentLength > p.maxBodyBytes then .bad p rest
  else if p.contentLength = 0 then .done { p with state := .kGotAll } rest
  else .moved { p with state := .kBody } rest

def onLine (p : HttpParser) (line rest : Bytes) : Step HttpParser UInt8 :=
  if line.isEmpty then p.endOfHead rest
  else match p.headerLine line with
    | (false, p) => .bad p rest
    | (true, p) => .next p rest

def headerRound (p : HttpParser) (buf : Bytes) : Step HttpParser UInt8 :=
  match nextLine p buf with
  | .overlong => .bad p buf
  | .incomplete => .more p buf
  | .tooLong p rest => .bad p rest
  | .got line p rest => p.onLine line rest

def parseHeaders : HttpParser → Bytes → Step HttpParser UInt8 :=
  run headerRound fun _ buf => buf.length

def parseBody (p : HttpParser) (buf : Bytes) : Step HttpParser UInt8 :=
  if buf.length < p.contentLength then .more p buf
  else
    .done { p with request := { p.request with body := buf.take p.contentLength }, state := .kGotAll }
      (buf.drop p.contentLength)

/-- How `parse` treats the result of the function for one state: a verdict
sets the state and is returned, and the loop goes on when the state moved. -/
def afterState : Step HttpParser UInt8 → Step HttpParser UInt8
  | .bad p rest => .bad { p with state := .kError } rest
  | .done p rest => .done { p with state := .kGotAll } rest
  | .more p rest => .more p rest
  | .moved p rest => .next p rest
  | .next p rest => .next p rest

def parseRound (p : HttpParser) (buf : Bytes) : Step HttpParser UInt8 :=
  match p.state with
  | .kRequestLine => afterState (p.parseRequestLine buf)
  | .kHeaders => afterState (p.parseHeaders buf)
  | .kBody => afterState (p.parseBody buf)
  | .kGotAll => .done p buf
  | .kError => .bad p buf

def rank : State → Nat
  | .kRequestLine => 2
  | .kHeaders => 1
  | .kBody => 0
  | .kGotAll => 0
  | .kError => 0

def parse : HttpParser → Bytes → Step HttpParser UInt8 :=
  run parseRound fun p _ => rank p.state

def reset (p : HttpParser) : HttpParser :=
  { p with state := .kRequestLine, contentLength := 0, parsedHeaderBytes := 0, request := {} }

def takeRequest (p : HttpParser) : HttpRequest × HttpParser := (p.request, p.reset)

def drainRound (x : HttpParser × List HttpRequest) (buf : Bytes) :
    Step (HttpParser × List HttpRequest) UInt8 :=
  match x.1.parse buf with
  | .done p rest => .next (p.takeRequest.2, x.2 ++ [p.takeRequest.1]) rest
  | .more p rest => .more (p, x.2) rest
  | .bad p rest => .bad (p, x.2) rest
  | .moved p rest => .more (p, x.2) rest
  | .next p rest => .more (p, x.2) rest

def drain : HttpParser × List HttpRequest → Bytes → Step (HttpParser × List HttpRequest) UInt8 :=
  run drainRound fun x buf => 2 * buf.length + if x.1.state = .kRequestLine then 0 else 1

inductive Result where
  | kNeedMore
  | kComplete
  | kBadRequest
  deriving DecidableEq, Repr

/-- The requests and the last verdict of a caller that appends the chunks one
at a time to the buffer of a fresh parser, takes the finished requests after
each, and stops for good at the first bad one. -/
def receive (maxHeaderBytes maxBodyBytes : Nat) (chunks : List Bytes) : List HttpRequest × Result :=
  match chunks.foldl (feed Prod.snd drain) (.live (fresh maxHeaderBytes maxBodyBytes, []) []) with
  | .live x _ => (x.2, .kNeedMore)
  | .dead requests => (requests, .kBadRequest)

end HttpParser

end Myself
