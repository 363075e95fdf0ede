import MyselfServer.Json
import MyselfServer.MetricsPage

/-!
# The status page

What a monitor reads from the JSON text of `/api/status`: the counters as they
are, and the latencies to four digits.
-/

namespace Myself.Util

open Text Json

def version : Bytes := bytes "1.0.0"

def jsonName (name : String) : Bytes := bytes ("\"" ++ name ++ "\":")

def fourDigits (x : Numeral.Double) : Bytes := x.general 3

def averageMs (data : Metrics.Snapshot) : ℚ :=
  if data.latencyCount = 0 then 0 else data.latencySumMs / data.latencyCount

def statusJson (data : Metrics.Snapshot) (ioThreads workerThreads : Nat) (idleSeconds : Numeral.Double)
    (timers logLines : Nat) : Bytes :=
  List.flatten [bytes "\x7b",
    jsonName "name", bytes "\"MyselfWebServer\"", bytes ",",
    jsonName "version", bytes "\"", version, bytes "\"", bytes ",",
    jsonName "uptimeSeconds", toText data.uptimeSeconds, bytes ",",
    jsonName "ioThreads", toText ioThreads, bytes ",",
    jsonName "workerThreads", toText workerThreads, bytes ",",
    jsonName "idleTimeoutSeconds", fourDigits idleSeconds, bytes ",",
    jsonName "timers", toText timers, bytes ",",
    jsonName "connections", bytes "\x7b", jsonName "current", toText data.connectionsCurrent,
    bytes ",", jsonName "total", toText data.connectionsTotal, bytes ",", jsonName "max", toText data.connectionsMax,
    bytes "\x7d", bytes ",",
    jsonName "requests", bytes "\x7b", jsonName "total", toText data.requestsTotal,
    bytes ",", jsonName "rateLimited", toText data.requestsRateLimited,
    bytes ",", jsonName "notModified", toText data.requestsNotModified,
    bytes ",", jsonName "proxy", bytes "\x7b", jsonName "total", toText data.requestsProxy,
    bytes ",", jsonName "errors", toText data.requestsProxyErrors, bytes "\x7d",
    bytes ",", jsonName "errors", toText data.errorsTotal,
    bytes ",", jsonName "byStatusClass", bytes "\x7b", jsonName "1xx", toText (data.statusClasses.getD 0 0),
    bytes ",", jsonName "2xx", toText (data.statusClasses.getD 1 0),
    bytes ",", jsonName "3xx", toText (data.statusClasses.getD 2 0),
    bytes ",", jsonName "4xx", toText (data.statusClasses.getD 3 0),
    bytes ",", jsonName "5xx", toText (data.statusClasses.getD 4 0), bytes "\x7d", bytes "\x7d", bytes ",",
    jsonName "bytes", bytes "\x7b", jsonName "read", toText data.bytesReadTotal,
    bytes ",", jsonName "written", toText data.bytesWrittenTotal, bytes "\x7d", bytes ",",
    jsonName "latencyMs", bytes "\x7b", jsonName "p50", fourDigits (.finite data.latencyP50Ms),
    bytes ",", jsonName "p95", fourDigits (.finite data.latencyP95Ms),
    bytes ",", jsonName "p99", fourDigits (.finite data.latencyP99Ms),
    bytes ",", jsonName "avg", fourDigits (.finite (averageMs data)), bytes ",",
    jsonName "count", toText data.latencyCount, bytes "\x7d", bytes ",",
    jsonName "logLines", toText logLines, bytes ",",
    jsonName "status", bytes "\"ok\"", bytes "\x7d"]

/-! ## What it shows -/

def object (ms : List (String × Value)) : Value := .object (.ofList (ms.map fun m => (bytes m.1, m.2)))

inductive Figure where
  | count (n : Int)
  | double (x : Numeral.Double)

namespace Figure

def text : Figure → Bytes
  | count n => toText n
  | double x => fourDigits x

end Figure

def measured (v : ℚ) : Figure := .double (.finite v)

def shown (figure : Figure) : Value := .number figure.text

section
variable (data : Metrics.Snapshot) (ioThreads workerThreads : Nat) (idleSeconds : Numeral.Double) (timers logLines : Nat)

end

/-- `-i inf` breaks the page: `inf` is no number of JSON. -/
example :
    Json.read (statusJson (Metrics.snapshotOf (Metrics.reset 0) 0) 4 0 (.infinite false) 0 0) = none := by
  decide +kernel

end Myself.Util
