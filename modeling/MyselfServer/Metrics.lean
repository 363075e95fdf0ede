import MyselfServer.Histogram
import MyselfServer.HttpResponse
import MyselfServer.Numeral

/-!
# The metrics

The counters of `Metrics`, each an atomic of its own, the snapshot that loads
them one by one, and the text made of it. A call is the list of its
`fetch_add`s in their order; `onConnectionOpened`, which also has a loop, and
the threads are in the next module. Latencies are exact, and a counter of
`uint64_t` counts without an end.
-/

namespace Myself.Util

open Text Histogram

namespace Metrics

def kBoundsMs : List ℚ := [1, 2, 5, 10, 20, 50, 100, 200, 500, 1000, 2000, 5000]

def kFiniteBuckets : Nat := 12

def kBucketCount : Nat := kFiniteBuckets + 1

inductive MethodKind where
  | kMethodGet | kMethodHead | kMethodPost | kMethodOther | kMethodCount

def MethodKind.toNat : MethodKind → Nat
  | kMethodGet => 0
  | kMethodHead => 1
  | kMethodPost => 2
  | kMethodOther => 3
  | kMethodCount => 4

inductive Counter where
  | connectionsTotal | connectionsRejected | connectionsMax
  | requestsTotal | requestsRateLimited | requestsNotModified | requestsProxy | requestsProxyErrors
  | errorsTotal | bytesReadTotal | bytesWrittenTotal
  | statusClasses (i : Nat) | methodCounts (i : Nat)
  | latencyBuckets (i : Nat) | latencyCount | latencySumMicros
  deriving DecidableEq

end Metrics

open Metrics

structure Metrics where
  connectionsCurrent : Int
  counter : Counter → Nat
  /-- In nanoseconds, like every time here. -/
  startTime : Int

namespace Metrics

def reset (now : Int) : Metrics := ⟨0, fun _ => 0, now⟩

def fetchAdd (m : Metrics) (c : Counter) (n : Nat) : Metrics :=
  { m with counter := fun d => if d = c then m.counter c + n else m.counter d }

def addAll (m : Metrics) (adds : List (Counter × Nat)) : Metrics :=
  adds.foldl (fun m add => m.fetchAdd add.1 add.2) m

/-! ## The calls -/

def onConnectionRejected : List (Counter × Nat) := [(.connectionsRejected, 1)]

def onRequestRateLimited : List (Counter × Nat) := [(.requestsRateLimited, 1)]

def onRequestNotModified : List (Counter × Nat) := [(.requestsNotModified, 1)]

def onRequestProxied : List (Counter × Nat) := [(.requestsProxy, 1)]

def onRequestProxyError : List (Counter × Nat) := [(.requestsProxyErrors, 1)]

def onRequestStarted (kind : MethodKind) : List (Counter × Nat) :=
  if kind.toNat < MethodKind.kMethodCount.toNat then [(.methodCounts kind.toNat, 1)] else []

def onError : List (Counter × Nat) := [(.errorsTotal, 1)]

def onBytesRead (bytes : Nat) : List (Counter × Nat) := [(.bytesReadTotal, bytes)]

def onBytesWritten (bytes : Nat) : List (Counter × Nat) := [(.bytesWrittenTotal, bytes)]

/-- The loop over the bounds; a latency beyond all of them goes to the last
bucket. -/
def bucketOf (latencyMs : ℚ) : Nat := slot kBoundsMs latencyMs

def onRequestFinished (statusCode : Int) (latencyMs : ℚ) : List (Counter × Nat) :=
  let classIndex := statusCode.tdiv 100 - 1
  let latencyMs := if latencyMs < 0 then 0 else latencyMs
  [(.requestsTotal, 1)] ++
    (if 0 ≤ classIndex ∧ classIndex < 5 then [(.statusClasses classIndex.toNat, 1)] else []) ++
    [(.latencyCount, 1), (.latencySumMicros, (latencyMs * 1000).floor.toNat),
      (.latencyBuckets (bucketOf latencyMs), 1)]

/-! ## The snapshot -/

structure Snapshot where
  connectionsTotal : Nat
  connectionsRejected : Nat
  connectionsCurrent : Int
  connectionsMax : Nat
  requestsTotal : Nat
  requestsRateLimited : Nat
  requestsNotModified : Nat
  requestsProxy : Nat
  requestsProxyErrors : Nat
  errorsTotal : Nat
  bytesReadTotal : Nat
  bytesWrittenTotal : Nat
  statusClasses : List Nat
  methodCounts : List Nat
  latencyBuckets : List Nat
  latencyCount : Nat
  latencySumMs : ℚ
  latencyP50Ms : ℚ
  latencyP95Ms : ℚ
  latencyP99Ms : ℚ
  uptimeSeconds : Nat

def lastBoundMs : ℚ := kBoundsMs.getD (kFiniteBuckets - 1) 0

def lowerMs (i : Nat) : ℚ := if i = 0 then 0 else kBoundsMs.getD (i - 1) 0

def upperMs (i : Nat) : ℚ := if i < kFiniteBuckets then kBoundsMs.getD i 0 else lastBoundMs * 2

def quantileLoop (target : ℚ) : Nat → Nat → List Nat → ℚ
  | _, _, [] => lastBoundMs
  | i, before, n :: rest =>
    if target ≤ (before + n : Nat) then
      if n = 0 then upperMs i
      else lowerMs i + (upperMs i - lowerMs i) * min 1 (max 0 ((target - before) / n))
    else quantileLoop target (i + 1) (before + n) rest

def quantileFromBuckets (buckets : List Nat) (total : Nat) (q : ℚ) : ℚ :=
  if total = 0 ∨ q ≤ 0 then 0
  else
    let q := if q > 1 then 1 else q
    quantileLoop (q * total) 0 0 buckets

def snapshotOf (loaded : Metrics) (now : Int) : Snapshot :=
  let buckets := (List.range kBucketCount).map fun i => loaded.counter (.latencyBuckets i)
  let count := loaded.counter .latencyCount
  { connectionsTotal := loaded.counter .connectionsTotal
    connectionsRejected := loaded.counter .connectionsRejected
    connectionsCurrent := loaded.connectionsCurrent
    connectionsMax := loaded.counter .connectionsMax
    requestsTotal := loaded.counter .requestsTotal
    requestsRateLimited := loaded.counter .requestsRateLimited
    requestsNotModified := loaded.counter .requestsNotModified
    requestsProxy := loaded.counter .requestsProxy
    requestsProxyErrors := loaded.counter .requestsProxyErrors
    errorsTotal := loaded.counter .errorsTotal
    bytesReadTotal := loaded.counter .bytesReadTotal
    bytesWrittenTotal := loaded.counter .bytesWrittenTotal
    statusClasses := (List.range 5).map fun i => loaded.counter (.statusClasses i)
    methodCounts := (List.range MethodKind.kMethodCount.toNat).map fun i => loaded.counter (.methodCounts i)
    latencyBuckets := buckets
    latencyCount := count
    latencySumMs := (loaded.counter .latencySumMicros : ℚ) / 1000
    latencyP50Ms := quantileFromBuckets buckets count (1 / 2)
    latencyP95Ms := quantileFromBuckets buckets count (95 / 100)
    latencyP99Ms := quantileFromBuckets buckets count (99 / 100)
    uptimeSeconds := ((now - loaded.startTime).tdiv 1000000000).toNat }

/-- `snapshot` while no other thread changes a counter. -/
def snapshot (m : Metrics) (now : Int) : Snapshot := snapshotOf m now

/-! ## The text -/

def utf8 (s : String) : Bytes := s.toUTF8.toList

def formatDouble (value : ℚ) : Bytes := Numeral.general 5 value

def familyText (name help kind : String) : Bytes :=
  utf8 ("# HELP " ++ name ++ " " ++ help ++ "\n# TYPE " ++ name ++ " " ++ kind ++ "\n")

def sampleText (name : String) (value : Bytes) : Bytes := bytes name ++ SP :: (value ++ [LF])

def metricText (name help kind : String) (value : Bytes) : Bytes :=
  familyText name help kind ++ sampleText name value

def labelled (name label value : String) : String := name ++ "\x7b" ++ label ++ "=\"" ++ value ++ "\"\x7d"

def kClassNames : List String := ["1xx", "2xx", "3xx", "4xx", "5xx"]

def kMethodNames : List String := ["GET", "HEAD", "POST", "OTHER"]

def labelledTexts (name label : String) (values : List String) (counts : List Nat) : Bytes :=
  (values.zip counts).flatMap fun v => sampleText (labelled name label v.1) (toText v.2)

def bucketLine (le : Bytes) (cumulative : Nat) : Bytes :=
  bytes "myself_request_latency_ms_bucket\x7ble=\"" ++ le ++ bytes "\"\x7d " ++ toText cumulative ++ [LF]

def bucketLines : Nat → List ℚ → List Nat → Bytes
  | cumulative, bound :: bounds, n :: rest =>
    bucketLine (formatDouble bound) (cumulative + n) ++ bucketLines (cumulative + n) bounds rest
  | cumulative, _, counts => bucketLine (bytes "+Inf") (cumulative + counts.headD 0)

def counterTexts (data : Snapshot) (logLines : Nat) : Bytes :=
  metricText "myself_connections_total" "累计接受的连接数" "counter" (toText data.connectionsTotal) ++
  metricText "myself_connections_rejected_total" "超过连接上限被拒绝的连接数" "counter"
    (toText data.connectionsRejected) ++
  metricText "myself_connections_current" "当前在线连接数" "gauge" (toText data.connectionsCurrent) ++
  metricText "myself_connections_max" "在线连接数历史峰值" "gauge" (toText data.connectionsMax) ++
  metricText "myself_requests_total" "累计处理的 HTTP 请求数" "counter" (toText data.requestsTotal) ++
  metricText "myself_requests_rate_limited_total" "超过限流阈值被拦截的 HTTP 请求数" "counter"
    (toText data.requestsRateLimited) ++
  metricText "myself_requests_not_modified_total" "条件请求命中返回 304 的次数（省下的整包传输）" "counter"
    (toText data.requestsNotModified) ++
  metricText "myself_requests_proxy_total" "反向代理转发请求总数" "counter" (toText data.requestsProxy) ++
  metricText "myself_requests_proxy_errors_total" "反向代理转发失败总数" "counter"
    (toText data.requestsProxyErrors) ++
  familyText "myself_requests_by_status" "按状态码类别统计的请求数" "counter" ++
  labelledTexts "myself_requests_by_status" "class" kClassNames data.statusClasses ++
  familyText "myself_requests_by_method" "按 HTTP 方法统计的请求数" "counter" ++
  labelledTexts "myself_requests_by_method" "method" kMethodNames data.methodCounts ++
  metricText "myself_errors_total" "累计错误数（socket 错误与非法请求）" "counter" (toText data.errorsTotal) ++
  metricText "myself_bytes_read_total" "累计读取字节数" "counter" (toText data.bytesReadTotal) ++
  metricText "myself_bytes_written_total" "累计写入字节数" "counter" (toText data.bytesWrittenTotal) ++
  metricText "myself_log_lines_total" "累计日志行数" "counter" (toText logLines) ++
  metricText "myself_uptime_seconds" "进程运行时长" "gauge" (toText data.uptimeSeconds)

def quantileTexts (data : Snapshot) : Bytes :=
  familyText "myself_request_latency_ms_quantile" "由固定桶插值估算的分位延迟" "gauge" ++
  sampleText (labelled "myself_request_latency_ms_quantile" "quantile" "0.5") (formatDouble data.latencyP50Ms) ++
  sampleText (labelled "myself_request_latency_ms_quantile" "quantile" "0.95") (formatDouble data.latencyP95Ms) ++
  sampleText (labelled "myself_request_latency_ms_quantile" "quantile" "0.99") (formatDouble data.latencyP99Ms)

def renderSnapshot (data : Snapshot) (logLines : Nat) : Bytes :=
  counterTexts data logLines ++
  familyText "myself_request_latency_ms" "请求处理延迟直方图（毫秒）" "histogram" ++
  bucketLines 0 kBoundsMs data.latencyBuckets ++
  sampleText "myself_request_latency_ms_sum" (formatDouble data.latencySumMs) ++
  sampleText "myself_request_latency_ms_count" (toText data.latencyCount) ++
  quantileTexts data

def renderPrometheus (m : Metrics) (now : Int) (logLines : Nat) : Bytes :=
  renderSnapshot (m.snapshot now) logLines

end Metrics

end Myself.Util
