import MyselfServer.Descriptors
import MyselfServer.ReverseProxy

/-!
# The calls of an exchange

`ReverseProxy::forward` with the calls it makes on the upstream's socket.
`forward_calls` says that they do what `forward` says, send the request once
and in order, read only when all of it is sent, and leave no descriptor open.
-/

namespace Myself

open Text

/-- A call with its descriptor. A `write` is given `data`, of which it takes
the first `taken` bytes. -/
inductive UpstreamCall where
  | socket (fd : Nat)
  | setsockopt (fd : Nat)
  | connect (fd : Nat)
  | write (fd : Nat) (data : Bytes) (taken : Nat)
  | read (fd : Nat)
  | close (fd : Nat)
  deriving DecidableEq

namespace UpstreamCall

def action : UpstreamCall → Descriptors.Action
  | socket fd => .opens fd
  | setsockopt fd => .uses fd
  | connect fd => .uses fd
  | write fd _ _ => .uses fd
  | read fd => .uses fd
  | close fd => .closes fd

def sent : UpstreamCall → Bytes
  | write _ data taken => data.take taken
  | _ => []

def isRead : UpstreamCall → Bool
  | read _ => true
  | _ => false

end UpstreamCall

namespace ReverseProxy

def writeCalls (fd : Nat) (rawRequest : Bytes) : List UpstreamWrite → Nat → Except Bytes Unit × List UpstreamCall
  | [], totalSent =>
    if totalSent < rawRequest.length then
      (.ok (), [.write fd (rawRequest.drop totalSent) (rawRequest.length - totalSent)])
    else (.ok (), [])
  | .count n _ :: rest, totalSent =>
    if totalSent < rawRequest.length then
      let (result, calls) := writeCalls fd rawRequest rest (totalSent + min n (rawRequest.length - totalSent))
      (result, .write fd (rawRequest.drop totalSent) (min n (rawRequest.length - totalSent)) :: calls)
    else (.ok (), [])
  | .failed error :: _, totalSent =>
    if totalSent < rawRequest.length then
      (.error error, [.write fd (rawRequest.drop totalSent) 0, .close fd])
    else (.ok (), [])

def readCalls (fd : Nat) : List UpstreamRead → Bytes → Except HttpResponse Bytes × List UpstreamCall
  | [], responseRaw => (.ok responseRaw, [.read fd, .close fd])
  | .data bytes :: rest, responseRaw =>
    if bytes.length > 0 then
      let (result, calls) := readCalls fd rest (responseRaw ++ bytes)
      (result, .read fd :: calls)
    else (.ok responseRaw, [.read fd, .close fd])
  | .interrupted :: rest, responseRaw =>
    let (result, calls) := readCalls fd rest responseRaw
    (result, .read fd :: calls)
  | .timedOut :: _, _ =>
    (.error (HttpResponse.gatewayTimeout (bytes "Timeout waiting for upstream response")), [.read fd, .close fd])
  | .failed error :: _, _ =>
    (.error (HttpResponse.badGateway (bytes "Read from upstream failed: " ++ error)), [.read fd, .close fd])

def transferCalls (fd : Nat) (net : Upstream) (rawRequest : Bytes) : Except HttpResponse Bytes × List UpstreamCall :=
  match writeCalls fd rawRequest net.writes 0 with
  | (.error error, calls) => (.error (HttpResponse.badGateway (bytes "Write to upstream failed: " ++ error)), calls)
  | (.ok _, calls) =>
    let (result, reads) := readCalls fd net.reads []
    (result, calls ++ reads)

def exchangeCalls (proxy : ReverseProxy) (net : Upstream) (fd : Nat) (request : HttpRequest) (clientIp : Bytes) :
    Except HttpResponse Bytes × List UpstreamCall :=
  match net.socket with
  | .error error => (.error (HttpResponse.badGateway (bytes "Failed to create socket: " ++ error)), [])
  | .ok _ =>
    let begun := [.socket fd, .setsockopt fd, .setsockopt fd]
    if net.resolved = false then
      (.error (HttpResponse.badGateway
        (bytes "Failed to resolve upstream host: " ++ proxy.options.targetHost)), begun ++ [.close fd])
    else match net.connect with
      | .error error =>
        (.error (HttpResponse.badGateway
          (bytes "Cannot reach upstream " ++ proxy.targetAddress ++ bytes ": " ++ error)),
          begun ++ [.connect fd, .close fd])
      | .ok _ =>
        let (result, calls) := transferCalls fd net (proxy.rawRequest request clientIp)
        (result, begun ++ .connect fd :: calls)

def forwardCalls (proxy : ReverseProxy) (net : Upstream) (fd : Nat) (request : HttpRequest) (clientIp : Bytes) :
    HttpResponse × List UpstreamCall :=
  if proxy.options.enabled = false then
    (HttpResponse.badGateway (bytes "Reverse proxy is disabled"), [])
  else match proxy.exchangeCalls net fd request clientIp with
    | (.error response, calls) => (response, calls)
    | (.ok responseRaw, calls) =>
      if responseRaw.isEmpty then (HttpResponse.badGateway (bytes "Empty response from upstream"), calls)
      else (proxy.parseResponse responseRaw, calls)

/-! ## The calls do what `forward` says -/

section
variable {proxy : ReverseProxy} {net : Upstream} {fd : Nat} {request : HttpRequest} {clientIp rawRequest : Bytes}

theorem writeCalls_result (answers : List UpstreamWrite) (totalSent : Nat) :
    (writeCalls fd rawRequest answers totalSent).1 = writeAll answers (rawRequest.length - totalSent) := by
  induction answers generalizing totalSent with
  | nil =>
    unfold writeCalls
    by_cases h : totalSent < rawRequest.length
    · rw [if_pos h]
      cases rawRequest.length - totalSent <;> rfl
    · rw [if_neg h, Nat.sub_eq_zero_of_le (Nat.le_of_not_lt h)]
      rfl
  | cons answer rest ih =>
    by_cases h : totalSent < rawRequest.length
    · obtain ⟨remaining, hremaining⟩ := Nat.exists_eq_succ_of_ne_zero (Nat.sub_ne_zero_of_lt h)
      cases answer with
      | count n pos =>
        unfold writeCalls
        simp only [if_pos h, ih, hremaining, Nat.succ_eq_add_one, writeAll]
        congr 1
        omega
      | failed error =>
        unfold writeCalls
        simp only [if_pos h, hremaining, Nat.succ_eq_add_one, writeAll]
    · have hzero := Nat.sub_eq_zero_of_le (Nat.le_of_not_lt h)
      cases answer with
      | count n pos =>
        unfold writeCalls
        simp only [if_neg h, hzero, writeAll]
      | failed error =>
        unfold writeCalls
        simp only [if_neg h, hzero, writeAll]

theorem readCalls_result (answers : List UpstreamRead) (responseRaw : Bytes) :
    (readCalls fd answers responseRaw).1 = readAll answers responseRaw := by
  induction answers generalizing responseRaw with
  | nil => rfl
  | cons answer rest ih =>
    cases answer with
    | data bytes =>
      unfold readCalls readAll
      by_cases h : bytes.length > 0
      · simp only [if_pos h, ih]
      · simp only [if_neg h]
    | interrupted =>
      unfold readCalls readAll
      simp only [ih]
    | timedOut => rfl
    | failed error => rfl

theorem exchangeCalls_result :
    (proxy.exchangeCalls net fd request clientIp).1 = proxy.exchange net request clientIp := by
  unfold exchangeCalls exchange
  cases net.socket with
  | error error => rfl
  | ok _ =>
    by_cases hresolved : net.resolved = false
    · simp only [if_pos hresolved]
    · simp only [if_neg hresolved]
      cases net.connect with
      | error error => rfl
      | ok _ =>
        have hwrites := @writeCalls_result fd (proxy.rawRequest request clientIp) net.writes 0
        rw [Nat.sub_zero] at hwrites
        unfold transferCalls
        rw [← hwrites]
        cases hw : writeCalls fd (proxy.rawRequest request clientIp) net.writes 0 with
        | mk result calls =>
          cases result with
          | error error => rfl
          | ok _ => exact readCalls_result net.reads []

theorem forwardCalls_result :
    (proxy.forwardCalls net fd request clientIp).1 = proxy.forward net request clientIp := by
  unfold forwardCalls forward
  by_cases henabled : proxy.options.enabled = false
  · rw [if_pos henabled, if_pos henabled]
  · rw [if_neg henabled, if_neg henabled, ← @exchangeCalls_result proxy net fd]
    cases hx : proxy.exchangeCalls net fd request clientIp with
    | mk result calls =>
      cases result with
      | error response => rfl
      | ok responseRaw =>
        by_cases hempty : responseRaw.isEmpty = true
        · simp only [if_pos hempty]
        · simp only [if_neg hempty]

/-! ## What the calls do -/

def Uses (fd : Nat) (calls : List UpstreamCall) : Prop := ∀ c ∈ calls, c.action = .uses fd

def Closes (fd : Nat) (calls : List UpstreamCall) : Prop := ∃ used, Uses fd used ∧ calls = used ++ [.close fd]

/-- The request is sent from its front, and all of it before anything is read. -/
structure Sends (rawRequest : Bytes) (calls : List UpstreamCall) : Prop where
  sent : calls.flatMap UpstreamCall.sent <+: rawRequest
  read : ∀ before c behind, calls = before ++ c :: behind → c.isRead = true →
    before.flatMap UpstreamCall.sent = rawRequest

variable {calls calls' used : List UpstreamCall} {c : UpstreamCall}

theorem Uses.cons (hc : c.action = .uses fd) (h : Uses fd calls) : Uses fd (c :: calls) :=
  List.forall_mem_cons.mpr ⟨hc, h⟩

theorem Closes.cons (hc : c.action = .uses fd) (h : Closes fd calls) : Closes fd (c :: calls) := by
  obtain ⟨used, hused, rfl⟩ := h
  exact ⟨c :: used, Uses.cons hc hused, rfl⟩

theorem Closes.append (hu : Uses fd used) (h : Closes fd calls) : Closes fd (used ++ calls) := by
  obtain ⟨used', hused, rfl⟩ := h
  refine ⟨used ++ used', ?_, by rw [List.append_assoc]⟩
  intro c hc
  rcases List.mem_append.mp hc with hc | hc
  · exact hu c hc
  · exact hused c hc

theorem closes_only (fd : Nat) : Closes fd [.close fd] := ⟨[], fun _ hc => absurd hc List.not_mem_nil, rfl⟩

structure Written (fd : Nat) (data : Bytes) (result : Except Bytes Unit) (calls : List UpstreamCall) : Prop where
  unread : ∀ c ∈ calls, c.isRead = false
  sent : calls.flatMap UpstreamCall.sent <+: data
  whole : result.isOk = true → calls.flatMap UpstreamCall.sent = data ∧ Uses fd calls
  failed : result.isOk = false → Closes fd calls

theorem written_nothing {totalSent : Nat} (h : ¬ totalSent < rawRequest.length) :
    Written fd (rawRequest.drop totalSent) (.ok ()) [] := by
  rw [List.drop_eq_nil_iff.mpr (Nat.le_of_not_lt h)]
  exact ⟨fun _ hc => absurd hc List.not_mem_nil, List.prefix_rfl,
    fun _ => ⟨rfl, fun _ hc => absurd hc List.not_mem_nil⟩, fun hf => by cases hf⟩

theorem writeCalls_written (answers : List UpstreamWrite) (totalSent : Nat) :
    Written fd (rawRequest.drop totalSent) (writeCalls fd rawRequest answers totalSent).1
      (writeCalls fd rawRequest answers totalSent).2 := by
  induction answers generalizing totalSent with
  | nil =>
    unfold writeCalls
    by_cases h : totalSent < rawRequest.length
    · rw [if_pos h]
      have hall : (rawRequest.drop totalSent).take (rawRequest.length - totalSent) = rawRequest.drop totalSent := by
        rw [← List.length_drop, List.take_length]
      refine ⟨?_, ?_, fun _ => ⟨?_, ?_⟩, fun hf => by cases hf⟩
      · intro c hc
        rw [List.mem_singleton.mp hc]
        rfl
      · simp [UpstreamCall.sent, hall]
      · simp [UpstreamCall.sent, hall]
      · intro c hc
        rw [List.mem_singleton.mp hc]
        rfl
    · rw [if_neg h]
      exact written_nothing h
  | cons answer rest ih =>
    cases answer with
    | count n pos =>
      unfold writeCalls
      by_cases h : totalSent < rawRequest.length
      · simp only [if_pos h]
        obtain ⟨hunread, hsent, hwhole, hfailed⟩ := ih (totalSent + min n (rawRequest.length - totalSent))
        have hsplit : (rawRequest.drop totalSent).take (min n (rawRequest.length - totalSent)) ++
            rawRequest.drop (totalSent + min n (rawRequest.length - totalSent)) = rawRequest.drop totalSent := by
          rw [← List.drop_drop, List.take_append_drop]
        refine ⟨?_, ?_, ?_, ?_⟩
        · exact List.forall_mem_cons.mpr ⟨rfl, hunread⟩
        · have hmore := (List.prefix_append_right_inj
            ((rawRequest.drop totalSent).take (min n (rawRequest.length - totalSent)))).mpr hsent
          rw [hsplit] at hmore
          exact hmore
        · intro hok
          obtain ⟨hdata, huses⟩ := hwhole hok
          rw [List.flatMap_cons, hdata]
          exact ⟨hsplit, Uses.cons rfl huses⟩
        · intro hf
          exact Closes.cons rfl (hfailed hf)
      · simp only [if_neg h]
        exact written_nothing h
    | failed error =>
      unfold writeCalls
      by_cases h : totalSent < rawRequest.length
      · rw [if_pos h]
        refine ⟨?_, ?_, fun hok => (by cases hok), fun _ => Closes.cons rfl (closes_only fd)⟩
        · simp [UpstreamCall.isRead]
        · simp [UpstreamCall.sent]
      · rw [if_neg h]
        exact written_nothing h

theorem readCalls_closes (answers : List UpstreamRead) (responseRaw : Bytes) :
    Closes fd (readCalls fd answers responseRaw).2 ∧
      (readCalls fd answers responseRaw).2.flatMap UpstreamCall.sent = [] := by
  have hlast : Closes fd [.read fd, .close fd] := Closes.cons rfl (closes_only fd)
  induction answers generalizing responseRaw with
  | nil => exact ⟨hlast, rfl⟩
  | cons answer rest ih =>
    cases answer with
    | data bytes =>
      unfold readCalls
      by_cases h : bytes.length > 0
      · simp only [if_pos h]
        obtain ⟨hcloses, hsent⟩ := ih (responseRaw ++ bytes)
        exact ⟨Closes.cons rfl hcloses, hsent⟩
      · simp only [if_neg h]
        exact ⟨hlast, rfl⟩
    | interrupted =>
      unfold readCalls
      obtain ⟨hcloses, hsent⟩ := ih responseRaw
      exact ⟨Closes.cons rfl hcloses, hsent⟩
    | timedOut => exact ⟨hlast, rfl⟩
    | failed error => exact ⟨hlast, rfl⟩

theorem sends_unread (h : ∀ c ∈ calls, c.isRead = false) (hs : calls.flatMap UpstreamCall.sent <+: rawRequest) :
    Sends rawRequest calls := by
  refine ⟨hs, ?_⟩
  rintro before c behind rfl hread
  have hno := h c (List.mem_append_right _ (List.mem_cons_self ..))
  rw [hno] at hread
  cases hread

/-- Calls that send nothing may follow. -/
theorem sends_append (h : ∀ c ∈ calls, c.isRead = false) (hs : calls.flatMap UpstreamCall.sent = rawRequest)
    (hs' : calls'.flatMap UpstreamCall.sent = []) : Sends rawRequest (calls ++ calls') := by
  refine ⟨?_, ?_⟩
  · rw [List.flatMap_append, hs, hs', List.append_nil]
  · intro before c behind heq hread
    rcases List.append_eq_append_iff.mp heq with ⟨more, rfl, hmore⟩ | ⟨more, rfl, hmore⟩
    · rw [hmore] at hs'
      rw [List.flatMap_append] at hs'
      rw [List.flatMap_append, hs, (List.append_eq_nil_iff.mp hs').1, List.append_nil]
    · cases more with
      | nil =>
        rw [List.append_nil] at hs
        exact hs
      | cons c' more =>
        have hsame : c' = c := (List.cons.inj hmore).1.symm
        have hno := h c' (List.mem_append_right _ (List.mem_cons_self ..))
        rw [hsame, hread] at hno
        cases hno

theorem transferCalls_closes (net : Upstream) (rawRequest : Bytes) :
    Closes fd (transferCalls fd net rawRequest).2 ∧ Sends rawRequest (transferCalls fd net rawRequest).2 := by
  have hwritten := @writeCalls_written fd rawRequest net.writes 0
  rw [List.drop_zero] at hwritten
  obtain ⟨hcloses, hsent⟩ := @readCalls_closes fd net.reads []
  unfold transferCalls
  cases hw : writeCalls fd rawRequest net.writes 0 with
  | mk result calls =>
    rw [hw] at hwritten
    cases result with
    | error error => exact ⟨hwritten.failed rfl, sends_unread hwritten.unread hwritten.sent⟩
    | ok _ =>
      obtain ⟨hwhole, huses⟩ := hwritten.whole rfl
      exact ⟨Closes.append huses hcloses, sends_append hwritten.unread hwhole hsent⟩

/-- Calls before the transfer. -/
theorem Sends.behind (h : Sends rawRequest calls) (hread : ∀ c ∈ used, c.isRead = false)
    (hsent : used.flatMap UpstreamCall.sent = []) : Sends rawRequest (used ++ calls) := by
  refine ⟨?_, ?_⟩
  · rw [List.flatMap_append, hsent, List.nil_append]
    exact h.sent
  · intro before c behind heq hc
    rcases List.append_eq_append_iff.mp heq with ⟨more, rfl, hmore⟩ | ⟨more, rfl, hmore⟩
    · rw [List.flatMap_append, hsent, List.nil_append]
      exact h.read more c behind hmore hc
    · cases more with
      | nil =>
        rw [List.append_nil] at hsent
        rw [hsent]
        exact h.read [] c behind hmore.symm hc
      | cons c' more =>
        have hsame : c' = c := (List.cons.inj hmore).1.symm
        have hno := hread c' (List.mem_append_right _ (List.mem_cons_self ..))
        rw [hsame, hc] at hno
        cases hno

/-- The calls of an exchange: none, or those on the socket it opens. -/
structure Exchanges (fd : Nat) (rawRequest : Bytes) (calls : List UpstreamCall) : Prop where
  owned : calls = [] ∨ ∃ tail, Closes fd tail ∧ calls = .socket fd :: tail
  sends : Sends rawRequest calls

theorem exchanges_none (fd : Nat) (rawRequest : Bytes) : Exchanges fd rawRequest [] :=
  ⟨.inl rfl, sends_unread (fun _ hc => absurd hc List.not_mem_nil) (List.nil_prefix)⟩

theorem exchanges_behind (hcloses : Closes fd calls) (hsends : Sends rawRequest calls) :
    Exchanges fd rawRequest ([.socket fd, .setsockopt fd, .setsockopt fd] ++ calls) := by
  refine ⟨.inr ⟨_, Closes.cons rfl (Closes.cons rfl hcloses), rfl⟩, hsends.behind ?_ rfl⟩
  simp [UpstreamCall.isRead]

theorem exchangeCalls_exchanges :
    Exchanges fd (proxy.rawRequest request clientIp) (proxy.exchangeCalls net fd request clientIp).2 := by
  unfold exchangeCalls
  cases net.socket with
  | error error => exact exchanges_none _ _
  | ok _ =>
    by_cases hresolved : net.resolved = false
    · simp only [if_pos hresolved]
      exact exchanges_behind (closes_only fd) (sends_unread (by simp [UpstreamCall.isRead]) List.nil_prefix)
    · simp only [if_neg hresolved]
      cases net.connect with
      | error error =>
        exact exchanges_behind (Closes.cons rfl (closes_only fd))
          (sends_unread (by simp [UpstreamCall.isRead]) List.nil_prefix)
      | ok _ =>
        obtain ⟨hcloses, hsends⟩ := @transferCalls_closes fd net (proxy.rawRequest request clientIp)
        have hconnect : ∀ c ∈ [UpstreamCall.connect fd], c.isRead = false := by simp [UpstreamCall.isRead]
        exact exchanges_behind (Closes.cons rfl hcloses) (hsends.behind hconnect rfl)

theorem forwardCalls_exchanges :
    Exchanges fd (proxy.rawRequest request clientIp) (proxy.forwardCalls net fd request clientIp).2 := by
  unfold forwardCalls
  by_cases henabled : proxy.options.enabled = false
  · rw [if_pos henabled]
    exact exchanges_none _ _
  · rw [if_neg henabled]
    have h := @exchangeCalls_exchanges proxy net fd request clientIp
    cases hx : proxy.exchangeCalls net fd request clientIp with
    | mk result calls =>
      rw [hx] at h
      cases result with
      | error response => exact h
      | ok responseRaw =>
        by_cases hempty : responseRaw.isEmpty = true
        · simp only [if_pos hempty]
          exact h
        · simp only [if_neg hempty]
          exact h

theorem Exchanges.run (h : Exchanges fd rawRequest calls) {table : List Nat} (hfd : fd ∉ table) :
    Machine.run Descriptors.step table (calls.map UpstreamCall.action) = some table := by
  rcases h.owned with rfl | ⟨tail, ⟨used, hused, rfl⟩, rfl⟩
  · rfl
  · rw [List.map_cons, List.map_append]
    apply Descriptors.run_owned hfd
    intro c hc
    obtain ⟨call, hcall, rfl⟩ := List.mem_map.mp hc
    exact hused call hcall

/-- **An exchange with the upstream**, whatever the kernel answers: its response
is that of `forward`, every call is on its own socket, which is closed in the
end, and nothing is read before the request is sent. -/
theorem forward_calls (proxy : ReverseProxy) (net : Upstream) (request : HttpRequest) (clientIp : Bytes)
    {fd : Nat} {table : List Nat} (hfd : fd ∉ table) :
    (proxy.forwardCalls net fd request clientIp).1 = proxy.forward net request clientIp ∧
      Machine.run Descriptors.step table ((proxy.forwardCalls net fd request clientIp).2.map UpstreamCall.action) =
        some table ∧
      Sends (proxy.rawRequest request clientIp) (proxy.forwardCalls net fd request clientIp).2 :=
  ⟨forwardCalls_result, forwardCalls_exchanges.run hfd, forwardCalls_exchanges.sends⟩

/-- A request that goes out in two writes, and a response that is interrupted. -/
theorem forward_calls_short :
    let net : Upstream := {
      writes := [.count 4 (by decide)]
      reads := [.interrupted, .data (bytes "HTTP/1.1 200 OK\r\n\r\n")] }
    let proxy : ReverseProxy := ⟨{ }⟩
    let request : HttpRequest := { method := .kGet, path := bytes "/api/gateway/x", keepAlive := true }
    5 ∉ [0, 1, 2] ∧ (proxy.forwardCalls net 5 request []).1 = proxy.forward net request [] ∧
      Machine.run Descriptors.step [0, 1, 2] ((proxy.forwardCalls net 5 request []).2.map UpstreamCall.action) =
        some [0, 1, 2] ∧
      Sends (proxy.rawRequest request []) (proxy.forwardCalls net 5 request []).2 :=
  ⟨by decide, forward_calls _ _ _ _ (by decide)⟩

end

end ReverseProxy

end Myself
