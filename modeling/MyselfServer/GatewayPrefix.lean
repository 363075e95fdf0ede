import MyselfServer.ProxyRequest
import MyselfServer.ProxyResponse
import MyselfServer.Router
import MyselfServer.Session

/-!
# The prefix of the gateway

The three tests of a prefix: `Router::handle` looks for the prefix handler,
`main` decides which requests go to the workers, and the proxy cuts the prefix
off. None of them asks what stands behind the prefix.
-/

namespace Myself

open Text

namespace Router

def registerPrefixHandler (r : Router) (pathPrefix : Bytes) (handler : HttpRequest → Bytes → HttpResponse) : Router :=
  { r with prefixHandlers := r.prefixHandlers.insert pathPrefix handler }

def calledPrefix (r : Router) (request : HttpRequest) : Option Bytes :=
  if isPathSafe request.path = false then none
  else match r.handlers[request.path]? with
    | some _ => none
    | none => (r.prefixHandlers.toList.find? fun item => item.1.isPrefixOf request.path).map Prod.fst

variable {r : Router} {request : HttpRequest} {p : Bytes}

theorem calledPrefix_cases (h : r.calledPrefix request = some p) : isPathSafe request.path = true ∧
    r.handlers[request.path]? = none ∧ ∃ handler,
      r.prefixHandlers.toList.find? (fun item => item.1.isPrefixOf request.path) = some (p, handler) := by
  simp only [calledPrefix] at h
  split at h
  · cases h
  · rename_i hsafe
    split at h
    · cases h
    · rename_i hnone
      obtain ⟨⟨q, handler⟩, hfind, hq⟩ := Option.map_eq_some_iff.mp h
      obtain rfl : q = p := hq
      exact ⟨by simpa using hsafe, hnone, handler, hfind⟩

theorem handle_called (h : r.calledPrefix request = some p) : ∃ handler, r.prefixHandlers[p]? = some handler ∧
    ∀ disk clientIp, r.handle disk request clientIp = handler request clientIp := by
  obtain ⟨hsafe, hnone, handler, hfind⟩ := calledPrefix_cases h
  refine ⟨handler, ?_, fun disk clientIp => ?_⟩
  · exact Std.TreeMap.mem_toList_iff_getElem?_eq_some.mp (List.mem_of_find?_eq_some hfind)
  · simp [handle, hsafe, hnone, prefixHandler, hfind]

/-- Where no prefix is called, there might as well be none. -/
theorem handle_uncalled (h : r.calledPrefix request = none) (disk : Disk) (clientIp : Bytes) :
    r.handle disk request clientIp = { r with prefixHandlers := ∅ }.handle disk request clientIp := by
  simp only [calledPrefix] at h
  simp only [handle]
  split
  · rfl
  · rename_i hsafe
    rw [if_neg hsafe] at h
    split
    · rfl
    · rename_i hnone
      simp only [hnone, Option.map_eq_none_iff] at h
      have hempty : prefixHandler { r with prefixHandlers := ∅ } request.path = none := by
        simp [prefixHandler]
      have hsame : r.prefixHandler request.path = none := by
        simp [prefixHandler, h]
      rw [hempty, hsame]
      rfl

end Router

/-- The path is the prefix itself, or goes on behind it with a slash. -/
def BelowPrefix (p path : Bytes) : Prop := path = p ∨ ∃ rest, path = p ++ SLASH :: rest

def behindPrefix (p path query : Bytes) : Bytes :=
  (if path.drop p.length = [] then [SLASH] else path.drop p.length) ++
    if query = [] then [] else QUESTION :: query

namespace ReverseProxy

variable {proxy : ReverseProxy} {path : Bytes}

theorem rewritePath_below (hrewrite : proxy.options.rewritePrefix = true)
    (h : BelowPrefix proxy.options.pathPrefix path) (query : Bytes) :
    proxy.rewritePath path query = behindPrefix proxy.options.pathPrefix path query := by
  rw [rewritePath_split]
  simp only [behindPrefix]
  congr 1
  by_cases hnil : proxy.options.pathPrefix = []
  · simp only [rewritePath, hnil, ne_eq, not_true, false_and, and_false, if_false, List.isEmpty_nil, if_true,
      List.length_nil, List.drop_zero, List.isEmpty_iff]
    rfl
  · rcases h with rfl | ⟨rest, rfl⟩
    · simp [rewritePath, hrewrite, hnil, bytes, SLASH]
    · simp [rewritePath, hrewrite, hnil, SLASH]

/-- The prefix takes whole segments in all three places just where the path
does not go on behind it with another byte than a slash. -/
theorem gateway_segments (site : Site) (hsite : site.proxyPrefix = proxy.options.pathPrefix)
    (henabled : site.proxyEnabled = true) (hrewrite : proxy.options.rewritePrefix = true) (r : Router)
    (request : HttpRequest) :
    ((r.calledPrefix request = some proxy.options.pathPrefix →
        BelowPrefix proxy.options.pathPrefix request.path) ∧
      (site.isProxyReq request = true → BelowPrefix proxy.options.pathPrefix request.path) ∧
      (BelowPrefix proxy.options.pathPrefix request.path → ∀ query, proxy.rewritePath request.path query =
        behindPrefix proxy.options.pathPrefix request.path query)) ↔
      ¬ ∃ c rest, request.path = proxy.options.pathPrefix ++ c :: rest ∧ c ≠ SLASH := by
  have hbelow : (¬ ∃ c rest, request.path = proxy.options.pathPrefix ++ c :: rest ∧ c ≠ SLASH) →
      proxy.options.pathPrefix <+: request.path → BelowPrefix proxy.options.pathPrefix request.path := by
    rintro hno ⟨rest, hpath⟩
    cases rest with
    | nil => exact Or.inl (by rw [← hpath, List.append_nil])
    | cons c rest =>
      by_cases hc : c = SLASH
      · subst hc
        exact Or.inr ⟨rest, hpath.symm⟩
      · exact absurd ⟨c, rest, hpath.symm, hc⟩ hno
  constructor
  · rintro ⟨-, hproxied, -⟩ ⟨c, rest, hpath, hc⟩
    have hreq : site.isProxyReq request = true := by
      simp [Site.isProxyReq, henabled, hsite, hpath]
    rcases hproxied hreq with hsame | ⟨rest', hslash⟩
    · rw [hsame] at hpath
      simp at hpath
    · rw [hslash] at hpath
      have hcons := List.append_cancel_left hpath
      exact hc (List.cons.inj hcons).1.symm
  · intro hno
    refine ⟨fun hcalled => hbelow hno ?_, fun hreq => hbelow hno ?_, fun h query => rewritePath_below hrewrite h query⟩
    · obtain ⟨-, -, handler, hfind⟩ := Router.calledPrefix_cases hcalled
      have hstarts := List.find?_some hfind
      exact List.isPrefixOf_iff_prefix.mp hstarts
    · simp only [Site.isProxyReq, Bool.and_eq_true, hsite] at hreq
      exact List.isPrefixOf_iff_prefix.mp hreq.2

def localSite : Site where
  workerThreads := 4
  proxyEnabled := true
  proxyPrefix := localProxy.options.pathPrefix
  acquire := fun _ => true
  handle := fun _ _ => {}
  date := fun _ => []

def gatewayRouter : Router := ({ } : Router).registerPrefixHandler localProxy.options.pathPrefix fun _ _ => {}

def getPath (path : Bytes) : HttpRequest := { method := .kGet, path := path, keepAlive := true }

theorem gateway_segments_health : localProxy.rewritePath (bytes "/api/gateway/health") (bytes "a=1") =
    bytes "/health?a=1" := by
  have hno : ¬ ∃ c rest, (getPath (bytes "/api/gateway/health")).path = localProxy.options.pathPrefix ++ c :: rest ∧
      c ≠ SLASH := by
    rintro ⟨c, rest, hpath, hc⟩
    have hpath : bytes "/api/gateway" ++ SLASH :: bytes "health" = bytes "/api/gateway" ++ c :: rest := hpath
    exact hc (List.cons.inj (List.append_cancel_left hpath)).1.symm
  have hbehind := ((gateway_segments localSite rfl rfl rfl gatewayRouter
    (getPath (bytes "/api/gateway/health"))).mpr hno).2.2 (.inr ⟨bytes "health", by decide +kernel⟩) (bytes "a=1")
  exact hbehind.trans (by decide +kernel)

/-- A path that only begins like the prefix. -/
theorem gateway_begins : gatewayRouter.calledPrefix (getPath (bytes "/api/gatewayx")) = some (bytes "/api/gateway") ∧
    localSite.isProxyReq (getPath (bytes "/api/gatewayx")) = true ∧
    ¬ BelowPrefix (bytes "/api/gateway") (bytes "/api/gatewayx") ∧
    localProxy.rewritePath (bytes "/api/gatewayx") [] = bytes "/x" := by
  refine ⟨by decide +kernel, by decide +kernel, ?_, by decide +kernel⟩
  rintro (hsame | ⟨rest, hslash⟩)
  · exact absurd hsame (by decide +kernel)
  · have hslash : bytes "/api/gateway" ++ [120] = bytes "/api/gateway" ++ SLASH :: rest := hslash
    exact absurd (List.cons.inj (List.append_cancel_left hslash)).1 (by decide)

end ReverseProxy

end Myself
