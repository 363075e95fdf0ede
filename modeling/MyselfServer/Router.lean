import Mathlib.Data.Nat.Digits.Defs
import MyselfServer.HttpDate
import MyselfServer.HttpRequest

/-!
# The router

`Router` with its static files. What the file system answers is a parameter:
`stat`, `open` and an input stream, each on a C string, the path up to its
first NUL.
-/

namespace Myself

open Text

structure FileStat where
  isReg : Bool
  st_mtime : Int
  st_size : Nat

/-- The file system while a request is served. `ifstream` gives what can be
read of a file that can be opened. -/
structure Disk where
  stat : Bytes → Option FileStat
  openFile : Bytes → Option Nat
  ifstream : Bytes → Option Bytes

def SLASH : UInt8 := 47

def endsWith (text suffix : Bytes) : Bool := suffix.isSuffixOf text

/-! ## Validators -/

def hexDigit (d : Nat) : UInt8 := UInt8.ofNat (if d < 10 then 48 + d else 87 + d)

def hexText (n : Nat) : Bytes :=
  if n = 0 then bytes "0" else ((Nat.digits 16 n).map hexDigit).reverse

def toUnsigned (n : Int) : Nat := (n % 2 ^ 64).toNat

def makeETag (mtime size : Int) : Bytes :=
  (bytes "\"" ++ hexText (toUnsigned mtime) ++ bytes "-" ++ hexText (toUnsigned size) ++
    bytes "\"").take 63

def etagItem (item : Bytes) : Bytes :=
  let item := trim item
  if item.length > 2 ∧ (bytes "W/").isPrefixOf item then item.drop 2 else item

def etagMatches (headerValue etag : Bytes) : Bool :=
  if trim headerValue = bytes "*" then true
  else (headerValue.splitOn COMMA).any fun item =>
    !(etagItem item).isEmpty && etagItem item = etag

/-- `If-None-Match` comes before `If-Modified-Since`. -/
def isNotModified (request : HttpRequest) (etag : Bytes) (mtime : Int) : Bool :=
  let ifNoneMatch := request.getHeader (bytes "If-None-Match")
  if ifNoneMatch.isEmpty = false then etagMatches ifNoneMatch etag
  else
    let ifModifiedSince := request.getHeader (bytes "If-Modified-Since")
    if ifModifiedSince.isEmpty then false
    else match parseHttpDate ifModifiedSince with
      | none => false
      | some since => decide (mtime ≤ since)

/-! ## Routing -/

structure Router where
  wwwRoot : Bytes := bytes "www"
  zeroCopyThreshold : Nat := 64 * 1024
  handlers : Std.TreeMap Bytes (HttpRequest → HttpResponse) compare := ∅
  prefixHandlers : Std.TreeMap Bytes (HttpRequest → Bytes → HttpResponse) compare := ∅

namespace Router

def setZeroCopyThreshold (r : Router) (bytes : Nat) : Router := { r with zeroCopyThreshold := bytes }

def isPathSafe (path : Bytes) : Bool :=
  path.head? = some SLASH && (search (bytes "..") path).isNone

def contentTypeFor (path : Bytes) : Bytes :=
  let lower := toLower path
  if endsWith lower (bytes ".html") ∨ endsWith lower (bytes ".htm") then
    bytes "text/html; charset=utf-8"
  else if endsWith lower (bytes ".css") then bytes "text/css; charset=utf-8"
  else if endsWith lower (bytes ".js") then bytes "application/javascript; charset=utf-8"
  else if endsWith lower (bytes ".json") then bytes "application/json; charset=utf-8"
  else if endsWith lower (bytes ".png") then bytes "image/png"
  else if endsWith lower (bytes ".jpg") ∨ endsWith lower (bytes ".jpeg") then bytes "image/jpeg"
  else if endsWith lower (bytes ".svg") then bytes "image/svg+xml"
  else if endsWith lower (bytes ".ico") then bytes "image/x-icon"
  else if endsWith lower (bytes ".txt") then bytes "text/plain; charset=utf-8"
  else bytes "application/octet-stream"

/-- The file is not read: its descriptor and length go along with the response. -/
def serveFileBody (disk : Disk) (fullPath path : Bytes) (size : Nat) (etag lastModified : Bytes) :
    HttpResponse :=
  match disk.openFile (cStr fullPath) with
  | none => HttpResponse.notFound
  | some fd =>
    (((((({ } : HttpResponse).setStatus 200 (bytes "OK")).setContentType
      (contentTypeFor path)).setHeader (bytes "Content-Length") (toText size)).setHeader
        (bytes "ETag") etag).setHeader (bytes "Last-Modified") lastModified).setHeader
          (bytes "Cache-Control") (bytes "no-cache") |>.setFileBody ⟨fd, 0, size⟩

/-- A file that is shorter by now is sent as it is; an empty one is not opened. -/
def readBody (disk : Disk) (fullPath : Bytes) (size : Nat) : Option Bytes :=
  if size = 0 then some []
  else (disk.ifstream (cStr fullPath)).map fun content => content.take size

def serveStaticFile (r : Router) (disk : Disk) (path : Bytes) (request : HttpRequest) :
    HttpResponse :=
  let fullPath := r.wwwRoot ++ path
  match disk.stat (cStr fullPath) with
  | none => HttpResponse.notFound
  | some info =>
    if info.isReg = false then HttpResponse.notFound
    else
      let etag := makeETag info.st_mtime info.st_size
      let lastModified := formatHttpDate info.st_mtime
      if isNotModified request etag info.st_mtime then
        (((({ } : HttpResponse).setStatus 304 (bytes "Not Modified")).setHeader
          (bytes "ETag") etag).setHeader (bytes "Last-Modified") lastModified).setHeader
            (bytes "Cache-Control") (bytes "no-cache")
      else if r.zeroCopyThreshold > 0 ∧ info.st_size ≥ r.zeroCopyThreshold then
        serveFileBody disk fullPath path info.st_size etag lastModified
      else match readBody disk fullPath info.st_size with
        | none => HttpResponse.notFound
        | some body =>
          ((((({ } : HttpResponse).setStatus 200 (bytes "OK")).setContentType
            (contentTypeFor path)).setHeader (bytes "ETag") etag).setHeader
              (bytes "Last-Modified") lastModified).setHeader
                (bytes "Cache-Control") (bytes "no-cache") |>.setBody body

def methodNotAllowed : HttpResponse :=
  (((({ closeConnection := true } : HttpResponse).setStatus 405
    (bytes "Method Not Allowed")).setContentType (bytes "text/html; charset=utf-8")).setBody
      (bytes "<html><body><h1>405 Method Not Allowed</h1></body></html>"))

def prefixHandler (r : Router) (path : Bytes) : Option (HttpRequest → Bytes → HttpResponse) :=
  (r.prefixHandlers.toList.find? fun item => item.1.isPrefixOf path).map Prod.snd

def handle (r : Router) (disk : Disk) (request : HttpRequest) (clientIp : Bytes) : HttpResponse :=
  if isPathSafe request.path = false then HttpResponse.badRequest (bytes "Bad Request")
  else match r.handlers[request.path]? with
    | some handler => handler request
    | none =>
      match r.prefixHandler request.path with
      | some handler => handler request clientIp
      | none =>
        if request.method ≠ .kGet ∧ request.method ≠ .kHead then methodNotAllowed
        else
          let path := if request.path = [SLASH] then bytes "/index.html" else request.path
          r.serveStaticFile disk path request

end Router

end Myself
