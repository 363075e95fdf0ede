import MyselfServer.GatewayPrefix
import MyselfServer.MetricsUse
import MyselfServer.UpstreamStatus

/-!
# The lives of requests

Every request of the server on its way from `requestStarted` to
`requestFinished`, on its loop thread and, when it is given away, on a worker.
Between two steps of a request the other threads do theirs, and so does the
metrics machine with each access of a call. What the connection does with the
written response is not seen here, but that it calls `onError` and the like.
-/

namespace Myself.Router

open Text

def registerHandler (r : Router) (path : Bytes) (handler : HttpRequest → HttpResponse) : Router :=
  { r with handlers := r.handlers.insert path handler }

end Myself.Router

namespace Myself.Util

open Text Machine

/-! ## The routes -/

structure Service where
  wwwRoot : Bytes
  zeroCopyThreshold : Nat
  workerThreads : Nat
  proxy : ReverseProxy

/-- What a request meets in the router: the file system, the two texts made of
the metrics, and the network of the proxy. -/
structure Surroundings where
  disk : Disk
  statusJson : Bytes
  prometheus : Bytes
  net : Upstream

def report (contentType : String) (body : Bytes) : HttpResponse :=
  ((({ } : HttpResponse).setStatus 200 (bytes "OK")).setContentType (bytes contentType)).setBody body

namespace Service

def localRouter (service : Service) (around : Surroundings) : Router :=
  (((({ wwwRoot := service.wwwRoot } : Router).setZeroCopyThreshold service.zeroCopyThreshold).registerHandler
    (bytes "/api/status") fun _ => report "application/json; charset=utf-8" around.statusJson).registerHandler
      (bytes "/metrics") fun _ => report "text/plain; version=0.0.4; charset=utf-8" around.prometheus)

def router (service : Service) (around : Surroundings) : Router :=
  if service.proxy.options.enabled then
    (service.localRouter around).registerPrefixHandler service.proxy.options.pathPrefix
      fun request clientIp => service.proxy.forward around.net request clientIp
  else service.localRouter around

def isProxyReq (service : Service) (request : HttpRequest) : Bool :=
  service.proxy.options.enabled && service.proxy.options.pathPrefix.isPrefixOf request.path

def offload (service : Service) (request : HttpRequest) : Bool :=
  decide (0 < service.workerThreads) &&
    (service.isProxyReq request || !(bytes "/api/").isPrefixOf request.path)

/-- The callback of one connection makes the same choice. -/
theorem offload_site {service : Service} {site : Site}
    (hsite : (site.workerThreads, site.proxyEnabled, site.proxyPrefix) =
      (service.workerThreads, service.proxy.options.enabled, service.proxy.options.pathPrefix))
    (request : HttpRequest) : site.offload request = service.offload request := by
  simp only [Prod.mk.injEq] at hsite
  simp only [Site.offload, Site.isProxyReq, offload, isProxyReq, hsite]

end Service

/-! ## One request -/

/-- Where a request is: behind `requestStarted`, in the queue of the workers,
in `Router::handle` or in the handler of the proxy, with its response back
from it, posted to the loop, at the beginning of `respond`, behind the count
of the `304`s, behind `requestFinished`. -/
inductive Stage where
  | deciding
  | submitted
  | handling (worker : Option Nat)
  | forwarding (worker : Option Nat)
  | handled (worker : Option Nat) (response : HttpResponse)
  | posted (response : HttpResponse)
  | responding (response : HttpResponse)
  | answering (response : HttpResponse)
  | finished (statusCode : Int) (latencyMs : ℚ)

/-- `upstream` is what the proxy met, for a request that it has forwarded. -/
structure Life where
  loop : Nat
  request : HttpRequest
  clientIp : Bytes
  stage : Stage := .deciding
  upstream : Option Upstream := none

inductive LifeEvent where
  | acquire (acquired : Bool)
  | take (worker : Nat)
  | handle (around : Surroundings)
  | forward (net : Upstream)
  | leave
  | runFunctor
  | countNotModified
  | finish (latencyMs : ℚ)

def countedKind : Myself.MethodKind → Metrics.MethodKind
  | .kMethodGet => .kMethodGet
  | .kMethodHead => .kMethodHead
  | .kMethodPost => .kMethodPost
  | .kMethodOther => .kMethodOther

def kindOf (request : HttpRequest) : Metrics.MethodKind := countedKind (methodKindOf request.method)

namespace Life

def thread (life : Life) : Option Nat :=
  match life.stage with
  | .deciding | .responding _ | .answering _ => some life.loop
  | .handling worker | .forwarding worker | .handled worker _ => some (worker.getD life.loop)
  | .submitted | .posted _ | .finished .. => none

def goTo (life : Life) (stage : Stage) : Life := { life with stage := stage }

def step (service : Service) (life : Life) : LifeEvent → Option (Life × Option Call)
  | .acquire acquired =>
    match life.stage with
    | .deciding =>
      if Site.isManagement life.request = false ∧ acquired = false then
        some (life.goTo (.responding (HttpResponse.tooManyRequests 1)), some .onRequestRateLimited)
      else if service.offload life.request then some (life.goTo .submitted, none)
      else some (life.goTo (.handling none), none)
    | _ => none
  | .take worker =>
    match life.stage with
    | .submitted => some (life.goTo (.handling (some worker)), none)
    | _ => none
  | .handle around =>
    match life.stage with
    | .handling worker =>
      match (service.router around).calledPrefix life.request with
      | some _ => some (life.goTo (.forwarding worker), some .onRequestProxied)
      | none =>
        some (life.goTo (.handled worker ((service.router around).handle around.disk life.request life.clientIp)), none)
    | _ => none
  | .forward net =>
    match life.stage with
    | .forwarding worker =>
      let response := service.proxy.forward net life.request life.clientIp
      some ({ life.goTo (.handled worker response) with upstream := some net },
        if response.statusCode ≥ 500 then some .onRequestProxyError else none)
    | _ => none
  | .leave =>
    match life.stage with
    | .handled (some _) response => some (life.goTo (.posted response), none)
    | .handled none response => some (life.goTo (.responding response), none)
    | _ => none
  | .runFunctor =>
    match life.stage with
    | .posted response => some (life.goTo (.responding response), none)
    | _ => none
  | .countNotModified =>
    match life.stage with
    | .responding response =>
      let response := response.setCloseConnection (!life.request.keepAlive)
      some (life.goTo (.answering response), if response.statusCode = 304 then some .onRequestNotModified else none)
    | _ => none
  | .finish latencyMs =>
    match life.stage with
    | .answering response =>
      some (life.goTo (.finished response.statusCode latencyMs),
        some (.onRequestFinished response.statusCode latencyMs))
    | _ => none

end Life

/-! ## The server -/

structure Requests where
  metrics : MetricsUse
  lives : List Life := []

inductive RequestsEvent where
  | take (loop : Nat) (request : HttpRequest) (clientIp : Bytes)
  | life (i : Nat) (e : LifeEvent)
  | metrics (e : MetricsEvent)

def Call.ofRequest : Call → Bool
  | .onRequestStarted _ | .onRequestFinished .. | .onRequestRateLimited | .onRequestNotModified
  | .onRequestProxied | .onRequestProxyError => true
  | _ => false

namespace MetricsUse

def free (s : MetricsUse) (t : Nat) : Bool :=
  match s.callers[t]? with
  | some .idle => true
  | _ => false

def goOn (s : MetricsUse) (t : Nat) : Option Call → Option MetricsUse
  | some call => s.step (.enter t call)
  | none => if s.free t then some s else none

end MetricsUse

def MetricsEvent.others : MetricsEvent → Bool
  | .enter _ call => !call.ofRequest
  | _ => true

namespace Requests

def start (threads : Nat) (now : Int) : Requests := { metrics := MetricsUse.start threads now }

def busy (s : Requests) (t : Nat) : Bool := s.lives.any fun life => life.thread = some t

/-- The thread that lets the request go on: the one that is busy with it, or
one that is not busy and takes it up. -/
def threadFor (s : Requests) (life life' : Life) : Option Nat :=
  match life.thread with
  | some t => some t
  | none => life'.thread.filter fun t => !s.busy t

def step (service : Service) (s : Requests) : RequestsEvent → Option Requests
  | .take loop request clientIp =>
    if s.busy loop then none
    else match s.metrics.step (.enter loop (.onRequestStarted (kindOf request))) with
      | none => none
      | some metrics => some ⟨metrics, s.lives ++ [{ loop := loop, request := request, clientIp := clientIp }]⟩
  | .life i e =>
    match s.lives[i]? with
    | none => none
    | some life =>
      match life.step service e with
      | none => none
      | some (life', call) =>
        match s.threadFor life life' with
        | none => none
        | some t =>
          match s.metrics.goOn t call with
          | none => none
          | some metrics => some ⟨metrics, s.lives.set i life'⟩
  | .metrics e =>
    if e.others then
      match s.metrics.step e with
      | none => none
      | some metrics => some { s with metrics := metrics }
    else none

end Requests

/-! ## The statuses -/

def Classed (statusCode : Int) : Prop := 100 ≤ statusCode ∧ statusCode < 600

instance (statusCode : Int) : Decidable (Classed statusCode) := inferInstanceAs (Decidable (_ ∧ _))

def FromUpstream (proxy : ReverseProxy) (net : Upstream) (request : HttpRequest) (clientIp : Bytes)
    (statusCode : Int) : Prop :=
  proxy.options.enabled = true ∧ ∃ raw headEnd word, proxy.exchange net request clientIp = .ok raw ∧
    search (CRLF ++ CRLF) raw = some headEnd ∧
    ((ReverseProxy.firstLine (raw.take headEnd)).splitOn SP)[1]? = some word ∧ statusCode = atoi word

variable {service : Service} {around : Surroundings} {request : HttpRequest} {clientIp : Bytes}

theorem forward_status (proxy : ReverseProxy) (net : Upstream) (request : HttpRequest) (clientIp : Bytes) :
    Classed (proxy.forward net request clientIp).statusCode ∨
      FromUpstream proxy net request clientIp (proxy.forward net request clientIp).statusCode := by
  have hgateway : ∀ reason, Classed (HttpResponse.badGateway reason).statusCode := fun _ => by
    change Classed 502
    decide
  have htimeout : ∀ reason, Classed (HttpResponse.gatewayTimeout reason).statusCode := fun _ => by
    change Classed 504
    decide
  by_cases hon : proxy.options.enabled = true
  · cases hraw : proxy.exchange net request clientIp with
    | error response =>
      have hforward : proxy.forward net request clientIp = response := by
        simp [ReverseProxy.forward, hon, hraw]
      rw [hforward]
      have hown : Classed response.statusCode :=
        ReverseProxy.exchange_error (P := fun r => Classed r.statusCode) proxy hgateway htimeout hraw
      exact .inl hown
    | ok raw =>
      by_cases hempty : raw = []
      · have hforward : proxy.forward net request clientIp =
            HttpResponse.badGateway (bytes "Empty response from upstream") := by
          simp [ReverseProxy.forward, hon, hraw, hempty]
        rw [hforward]
        exact .inl (hgateway _)
      · rw [ReverseProxy.forward_parsed hon hraw hempty]
        cases hend : search (CRLF ++ CRLF) raw with
        | none =>
          rw [ReverseProxy.parseResponse_headless hend]
          exact .inl (by decide)
        | some headEnd =>
          by_cases hpos : 0 < headEnd
          · rw [ReverseProxy.parseResponse_status hend hpos]
            cases hword : ((ReverseProxy.firstLine (raw.take headEnd)).splitOn SP)[1]? with
            | none => exact .inl (by decide)
            | some word => exact .inr ⟨hon, raw, headEnd, word, hraw, hend, hword, rfl⟩
          · obtain rfl : headEnd = 0 := by omega
            rw [ReverseProxy.parseResponse_blank hend]
            exact .inl (by decide)
  · have hforward : proxy.forward net request clientIp =
        HttpResponse.badGateway (bytes "Reverse proxy is disabled") := by
      simp [ReverseProxy.forward, hon]
    rw [hforward]
    exact .inl (hgateway _)

namespace Service

theorem router_handlers (service : Service) (around : Surroundings) :
    (service.router around).handlers = (service.localRouter around).handlers := by
  unfold router
  split <;> rfl

theorem handler_status {path : Bytes} {handler : HttpRequest → HttpResponse}
    (h : (service.router around).handlers[path]? = some handler) (request : HttpRequest) :
    (handler request).statusCode = 200 := by
  rw [router_handlers] at h
  simp only [localRouter, Router.registerHandler, Router.setZeroCopyThreshold, Std.TreeMap.getElem?_insert] at h
  split at h
  · cases h
    rfl
  · split at h
    · cases h
      rfl
    · rw [Std.TreeMap.getElem?_emptyc] at h
      cases h

/-- Where the router calls a prefix handler, `handle` and `forward` are the
two steps of one call. -/
theorem handle_forward {p : Bytes} (h : (service.router around).calledPrefix request = some p) :
    (service.router around).handle around.disk request clientIp = service.proxy.forward around.net request clientIp := by
  obtain ⟨handler, hprefix, hhandle⟩ := Router.handle_called h
  rw [hhandle]
  unfold router at hprefix
  split at hprefix
  · simp only [Router.registerPrefixHandler, localRouter, Router.registerHandler, Router.setZeroCopyThreshold,
      Std.TreeMap.getElem?_insert] at hprefix
    split at hprefix
    · cases hprefix
      rfl
    · rw [Std.TreeMap.getElem?_emptyc] at hprefix
      cases hprefix
  · simp only [localRouter, Router.registerHandler, Router.setZeroCopyThreshold, Std.TreeMap.getElem?_emptyc] at hprefix
    cases hprefix

theorem static_status (r : Router) (disk : Disk) (path : Bytes) (request : HttpRequest) :
    Classed (r.serveStaticFile disk path request).statusCode := by
  have hmissing : Classed HttpResponse.notFound.statusCode := by decide
  have hserved : Classed 200 := by decide
  simp only [Router.serveStaticFile]
  split
  · exact hmissing
  · split
    · exact hmissing
    · split
      · have hsame : Classed 304 := by decide
        exact hsame
      · split
        · unfold Router.serveFileBody
          split
          · exact hmissing
          · exact hserved
        · split
          · exact hmissing
          · exact hserved

theorem handle_status (h : (service.router around).calledPrefix request = none) :
    Classed ((service.router around).handle around.disk request clientIp).statusCode := by
  rw [Router.handle_uncalled h]
  unfold Router.handle
  split
  · decide
  · split
    · rename_i handler hhandler
      rw [handler_status hhandler]
      decide
    · split
      · rename_i handler hprefix
        have hempty : Router.prefixHandler { service.router around with prefixHandlers := ∅ } request.path = none := by
          simp [Router.prefixHandler]
        cases hempty.symm.trans hprefix
      · split
        · decide
        · exact static_status ..

end Service

def Call.counts : Call → Bool
  | .onRequestStarted _ | .onRequestFinished .. => true
  | _ => false

namespace Life

variable {life life' : Life} {e : LifeEvent} {call : Option Call}

def status (life : Life) : Option Int :=
  match life.stage with
  | .handled _ response | .posted response | .responding response | .answering response => some response.statusCode
  | .finished statusCode _ => some statusCode
  | _ => none

def ended (life : Life) : Option (Int × ℚ) :=
  match life.stage with
  | .finished statusCode latencyMs => some (statusCode, latencyMs)
  | _ => none

/-- A status that is of no class is that of the upstream. -/
def Sourced (service : Service) (life : Life) : Prop :=
  ∀ statusCode, life.status = some statusCode → Classed statusCode ∨
    ∃ net, life.upstream = some net ∧ FromUpstream service.proxy net life.request life.clientIp statusCode

theorem sourced_unanswered (hstatus : life.status = none) : life.Sourced service := by
  intro statusCode hcode
  cases hstatus.symm.trans hcode

theorem sourced_classed {statusCode : Int} (hstatus : life.status = some statusCode) (h : Classed statusCode) :
    life.Sourced service := by
  intro code hcode
  obtain rfl : statusCode = code := Option.some.inj (hstatus.symm.trans hcode)
  exact .inl h

/-- The response goes on as it is. -/
theorem sourced_goTo {stage : Stage} (hstatus : (life.goTo stage).status = life.status) (h : life.Sourced service) :
    (life.goTo stage).Sourced service :=
  fun statusCode hcode => h statusCode (hstatus ▸ hcode)

theorem ended_of_stage {stage : Stage} (h : life.stage = stage) (hends : (life.goTo stage).ended = none) :
    life.ended = none := by
  subst h
  exact hends

inductive Goes (service : Service) (life : Life) : Life → Option Call → Prop where
  | on {life' : Life} {call : Option Call} (hrequest : life'.request = life.request) (hopen : life.ended = none)
      (hnext : life'.ended = none) (hcall : ∀ c ∈ call, c.counts = false)
      (hsourced : life.Sourced service → life'.Sourced service) : Goes service life life' call
  | finishes {response : HttpResponse} {latencyMs : ℚ} (hstage : life.stage = .answering response) :
      Goes service life (life.goTo (.finished response.statusCode latencyMs))
        (some (.onRequestFinished response.statusCode latencyMs))

theorem step_goes (hs : life.step service e = some (life', call)) : Goes service life life' call := by
  have hnone : ∀ c ∈ (none : Option Call), c.counts = false := fun c hc => by cases hc
  cases e with
  | acquire acquired =>
    simp only [step] at hs
    split at hs
    · rename_i hstage
      have hopen := ended_of_stage hstage rfl
      split at hs
      · cases hs
        have htoo : Classed (429 : Int) := by decide
        refine .on rfl hopen rfl (fun c hc => ?_) fun _ => sourced_classed rfl htoo
        cases hc
        rfl
      · split at hs
        · cases hs
          exact .on rfl hopen rfl hnone fun _ => sourced_unanswered rfl
        · cases hs
          exact .on rfl hopen rfl hnone fun _ => sourced_unanswered rfl
    · cases hs
  | take worker =>
    simp only [step] at hs
    split at hs
    · rename_i hstage
      cases hs
      exact .on rfl (ended_of_stage hstage rfl) rfl hnone fun _ => sourced_unanswered rfl
    · cases hs
  | handle around =>
    simp only [step] at hs
    split at hs
    · rename_i hstage
      have hopen := ended_of_stage hstage rfl
      split at hs
      · cases hs
        refine .on rfl hopen rfl (fun c hc => ?_) fun _ => sourced_unanswered rfl
        cases hc
        rfl
      · rename_i hcalled
        cases hs
        exact .on rfl hopen rfl hnone fun _ => sourced_classed rfl (Service.handle_status hcalled)
    · cases hs
  | forward net =>
    simp only [step] at hs
    split at hs
    · rename_i hstage
      cases hs
      refine .on rfl (ended_of_stage hstage rfl) rfl (fun c hc => ?_) fun _ statusCode hcode => ?_
      · split at hc
        · cases hc
          rfl
        · cases hc
      · cases hcode
        rcases forward_status service.proxy net life.request life.clientIp with hclass | hupstream
        · exact .inl hclass
        · exact .inr ⟨net, rfl, hupstream⟩
    · cases hs
  | leave =>
    simp only [step] at hs
    split at hs
    · rename_i hstage
      cases hs
      exact .on rfl (ended_of_stage hstage rfl) rfl hnone (sourced_goTo (by simp [status, goTo, hstage]))
    · rename_i hstage
      cases hs
      exact .on rfl (ended_of_stage hstage rfl) rfl hnone (sourced_goTo (by simp [status, goTo, hstage]))
    · cases hs
  | runFunctor =>
    simp only [step] at hs
    split at hs
    · rename_i hstage
      cases hs
      exact .on rfl (ended_of_stage hstage rfl) rfl hnone (sourced_goTo (by simp [status, goTo, hstage]))
    · cases hs
  | countNotModified =>
    simp only [step] at hs
    split at hs
    · rename_i hstage
      cases hs
      refine .on rfl (ended_of_stage hstage rfl) rfl (fun c hc => ?_)
        (sourced_goTo (by simp [status, goTo, hstage, HttpResponse.setCloseConnection]))
      split at hc
      · cases hc
        rfl
      · cases hc
    · cases hs
  | finish latencyMs =>
    simp only [step] at hs
    split at hs
    · rename_i hstage
      cases hs
      exact .finishes hstage
    · cases hs

theorem Goes.sourced (h : Goes service life life' call) (hold : life.Sourced service) : life'.Sourced service := by
  cases h with
  | on _ _ _ _ hsourced => exact hsourced hold
  | finishes hstage => exact sourced_goTo (by simp [status, goTo, hstage]) hold

end Life

end Myself.Util
