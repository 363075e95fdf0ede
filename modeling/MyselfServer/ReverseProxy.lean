import MyselfServer.HttpDate
import MyselfServer.HttpRequest

/-!
# The reverse proxy

`ReverseProxy::forward`: the request it builds, the exchange with the
upstream, and the response it makes of the bytes that come back. What the
calls on the upstream's socket answer is a parameter; the texts are those of
`strerror`. The timeout of the options only decides when a read times out.
-/

namespace Myself

open Text

structure ProxyOptions where
  pathPrefix : Bytes := bytes "/api/gateway"
  targetHost : Bytes := bytes "127.0.0.1"
  targetPort : UInt16 := 8081
  rewritePrefix : Bool := true
  enabled : Bool := true

/-- Any answer to `write` that is not positive has failed. -/
inductive UpstreamWrite where
  | count (n : Nat) (pos : 0 < n)
  | failed (error : Bytes)

inductive UpstreamRead where
  | data (bytes : Bytes)
  | interrupted
  | timedOut
  | failed (error : Bytes)

/-- The network during one exchange. After the last answer in `writes` the
rest is taken at once, after the last one in `reads` the stream has ended. -/
structure Upstream where
  socket : Except Bytes Unit := .ok ()
  resolved : Bool := true
  connect : Except Bytes Unit := .ok ()
  writes : List UpstreamWrite := []
  reads : List UpstreamRead := []

structure ReverseProxy where
  options : ProxyOptions

namespace ReverseProxy

/-! ## The request -/

def rewritePath (proxy : ReverseProxy) (originalPath query : Bytes) : Bytes :=
  let path :=
    if proxy.options.rewritePrefix ∧ proxy.options.pathPrefix ≠ [] ∧
        proxy.options.pathPrefix.isPrefixOf originalPath then
      let rest := originalPath.drop proxy.options.pathPrefix.length
      if rest.head? = some 47 then rest else bytes "/" ++ rest
    else originalPath
  let path := if path.isEmpty then bytes "/" else path
  if query.isEmpty then path else path ++ bytes "?" ++ query

def isCopied (key : Bytes) : Bool :=
  key ≠ bytes "host" && key ≠ bytes "connection" && key ≠ bytes "content-length" &&
    key ≠ bytes "x-forwarded-for"

def clientHost (request : HttpRequest) : Bytes := (request.headers[bytes "host"]?).getD []

def forwardedFor (request : HttpRequest) (clientIp : Bytes) : Bytes :=
  let before := (request.headers[bytes "x-forwarded-for"]?).getD []
  if before.isEmpty then clientIp else before ++ bytes ", " ++ clientIp

def targetAddress (proxy : ReverseProxy) : Bytes :=
  proxy.options.targetHost ++ bytes ":" ++ toText proxy.options.targetPort.toNat

def rawRequest (proxy : ReverseProxy) (request : HttpRequest) (clientIp : Bytes) : Bytes :=
  methodToString request.method ++ bytes " " ++ proxy.rewritePath request.path request.query ++
    bytes " HTTP/1.1" ++ CRLF ++
  bytes "Host: " ++ proxy.targetAddress ++ CRLF ++
  bytes "Connection: close" ++ CRLF ++
  ((request.headers.toList.filter fun header => isCopied header.1).flatMap fun header =>
    header.1 ++ bytes ": " ++ header.2 ++ CRLF) ++
  (if clientIp.isEmpty then []
    else bytes "X-Forwarded-For: " ++ forwardedFor request clientIp ++ CRLF ++
      bytes "X-Real-IP: " ++ clientIp ++ CRLF) ++
  (if (clientHost request).isEmpty then []
    else bytes "X-Forwarded-Host: " ++ clientHost request ++ CRLF) ++
  bytes "X-Forwarded-Proto: http" ++ CRLF ++
  (if request.body.isEmpty then []
    else bytes "Content-Length: " ++ toText request.body.length ++ CRLF) ++
  CRLF ++ request.body

/-! ## The exchange -/

def writeAll : List UpstreamWrite → Nat → Except Bytes Unit
  | _, 0 => .ok ()
  | [], _ + 1 => .ok ()
  | .count n _ :: rest, remaining + 1 => writeAll rest (remaining + 1 - n)
  | .failed error :: _, _ + 1 => .error error

def readAll : List UpstreamRead → Bytes → Except HttpResponse Bytes
  | [], responseRaw => .ok responseRaw
  | .data bytes :: rest, responseRaw =>
    if bytes.length > 0 then readAll rest (responseRaw ++ bytes) else .ok responseRaw
  | .interrupted :: rest, responseRaw => readAll rest responseRaw
  | .timedOut :: _, _ =>
    .error (HttpResponse.gatewayTimeout (bytes "Timeout waiting for upstream response"))
  | .failed error :: _, _ =>
    .error (HttpResponse.badGateway (bytes "Read from upstream failed: " ++ error))

def exchange (proxy : ReverseProxy) (net : Upstream) (request : HttpRequest) (clientIp : Bytes) :
    Except HttpResponse Bytes :=
  match net.socket with
  | .error error => .error (HttpResponse.badGateway (bytes "Failed to create socket: " ++ error))
  | .ok _ =>
    if net.resolved = false then
      .error (HttpResponse.badGateway
        (bytes "Failed to resolve upstream host: " ++ proxy.options.targetHost))
    else match net.connect with
      | .error error =>
        .error (HttpResponse.badGateway
          (bytes "Cannot reach upstream " ++ proxy.targetAddress ++ bytes ": " ++ error))
      | .ok _ =>
        match writeAll net.writes (proxy.rawRequest request clientIp).length with
        | .error error =>
          .error (HttpResponse.badGateway (bytes "Write to upstream failed: " ++ error))
        | .ok _ => readAll net.reads []

/-! ## The response -/

/-- The lines that `std::getline` gives, the first one begun with `current`. -/
def getlines : Bytes → Bytes → List Bytes
  | current, [] => if current.isEmpty then [] else [current]
  | current, c :: rest => if c = LF then current :: getlines [] rest else getlines (current ++ [c]) rest

def parseStatusLine (statusLine : Bytes) : Int × Bytes :=
  match findFrom SP statusLine 0 with
  | none => (200, bytes "OK")
  | some firstSpace =>
    match findFrom SP statusLine (firstSpace + 1) with
    | none => (atoi (statusLine.drop (firstSpace + 1)), bytes "OK")
    | some secondSpace =>
      (atoi ((statusLine.drop (firstSpace + 1)).take (secondSpace - firstSpace - 1)),
        statusLine.drop (secondSpace + 1))

def upstreamField (headerLine : Bytes) : Option (Bytes × Bytes) :=
  match search [COLON] headerLine with
  | none => none
  | some colon =>
    let key := headerLine.take colon
    let val := (headerLine.drop (colon + 1)).dropWhile isBlank
    if key ≠ bytes "Connection" ∧ key ≠ bytes "connection" then some (key, val) else none

def upstreamFields (headerLines : List Bytes) : List (Bytes × Bytes) :=
  headerLines.filterMap fun line => upstreamField (chopCR line)

def parseResponse (proxy : ReverseProxy) (responseRaw : Bytes) : HttpResponse :=
  match search (CRLF ++ CRLF) responseRaw with
  | none =>
    (((({ } : HttpResponse).setStatus 200 (bytes "OK")).setContentType
      (bytes "text/plain; charset=utf-8")).setBody responseRaw).setHeader
        (bytes "X-Proxy-By") (bytes "MyselfWebServer")
  | some headerEnd =>
    match getlines [] (responseRaw.take headerEnd) with
    | [] => HttpResponse.badGateway (bytes "Malformed status line from upstream")
    | statusLine :: headerLines =>
      let (statusCode, statusMsg) := parseStatusLine (chopCR statusLine)
      ((((({ } : HttpResponse).setStatus statusCode statusMsg).withHeaders
        (upstreamFields headerLines)).setBody (responseRaw.drop (headerEnd + 4))).setHeader
          (bytes "X-Proxy-By") (bytes "MyselfWebServer")).setHeader
            (bytes "X-Upstream-Addr") proxy.targetAddress

def forward (proxy : ReverseProxy) (net : Upstream) (request : HttpRequest) (clientIp : Bytes) :
    HttpResponse :=
  if proxy.options.enabled = false then
    HttpResponse.badGateway (bytes "Reverse proxy is disabled")
  else match proxy.exchange net request clientIp with
    | .error response => response
    | .ok responseRaw =>
      if responseRaw.isEmpty then
        HttpResponse.badGateway (bytes "Empty response from upstream")
      else proxy.parseResponse responseRaw

end ReverseProxy

end Myself
