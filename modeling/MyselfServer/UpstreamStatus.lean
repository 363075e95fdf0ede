import MyselfServer.LastModified
import MyselfServer.ProxyResponse

/-!
# The status of the upstream

The status that a stream of the upstream ends up with, interim responses in
front of it, against the one that `forward` gives the client.
-/

namespace Myself

open Text

namespace ReverseProxy

/-! ## Status lines -/

def isVersion (s : Bytes) : Bool :=
  (bytes "HTTP/").isPrefixOf s &&
    match s.drop 5 with
    | [major, 46, minor] => isDigit major && isDigit minor
    | _ => false

def statusOf (line : Bytes) : Option Nat :=
  match line.splitOn SP with
  | version :: code :: _ =>
    if isVersion version ∧ code.length = 3 ∧ isDigitString code ∧ 13 ∉ line ∧ LF ∉ line then some (decimal code)
    else none
  | _ => none

def isInterim (code : Nat) : Bool := code / 100 == 1

def headLine (head : Bytes) : Bytes := ((Head.cutLine .crlf head).map Prod.fst).getD head

def finalStatus : Nat → Bytes → Option Nat
  | 0, _ => none
  | n + 1, raw =>
    match search (CRLF ++ CRLF) raw with
    | none => none
    | some headEnd =>
      match statusOf (headLine (raw.take headEnd)) with
      | none => none
      | some code => if isInterim code then finalStatus n (raw.drop (headEnd + 4)) else some code

theorem finalStatus_not_interim {n : Nat} {raw : Bytes} {code : Nat} (h : finalStatus n raw = some code) :
    isInterim code = false := by
  induction n generalizing raw with
  | zero => cases h
  | succ n ih =>
    simp only [finalStatus] at h
    split at h
    · cases h
    · split at h
      · cases h
      · split at h
        · exact ih h
        · rename_i hcode
          cases h
          simpa using hcode

theorem statusOf_cases {line : Bytes} {code : Nat} (h : statusOf line = some code) :
    ∃ version word rest, line.splitOn SP = version :: word :: rest ∧ isDigitString word = true ∧
      word.length = 3 ∧ decimal word = code ∧ 13 ∉ line ∧ LF ∉ line := by
  unfold statusOf at h
  split at h
  · rename_i version word rest hsplit
    split at h
    · rename_i hall
      cases h
      exact ⟨version, word, rest, hsplit, hall.2.2.1, hall.2.1, rfl, hall.2.2.2⟩
    · cases h
  · cases h

/-! ## What `forward` reads of a status line -/

theorem findFrom_append {a : Bytes} {c : UInt8} (ha : c ∉ a) (b : Bytes) :
    findFrom c (a ++ c :: b) 0 = some a.length := by
  simp [findFrom, search_one ha]

theorem parseStatusLine_one {a : Bytes} (ha : SP ∉ a) : parseStatusLine a = (200, bytes "OK") := by
  have hnone : findFrom SP a 0 = none := by simp [findFrom, search_one_eq_none.mpr ha]
  simp only [parseStatusLine, hnone]

theorem parseStatusLine_two {a b : Bytes} (ha : SP ∉ a) (hb : SP ∉ b) :
    parseStatusLine (a ++ SP :: b) = (atoi b, bytes "OK") := by
  have hdrop : (a ++ SP :: b).drop (a.length + 1) = b := by
    rw [← List.drop_drop, List.drop_left, List.drop_one, List.tail_cons]
  have hnone : findFrom SP (a ++ SP :: b) (a.length + 1) = none := by
    rw [findFrom, hdrop, search_one_eq_none.mpr hb]
    rfl
  simp only [parseStatusLine, findFrom_append ha, hnone, hdrop]

theorem parseStatusLine_three {a b : Bytes} (ha : SP ∉ a) (hb : SP ∉ b) (rest : Bytes) :
    parseStatusLine (a ++ SP :: (b ++ SP :: rest)) = (atoi b, rest) := by
  have hdrop : (a ++ SP :: (b ++ SP :: rest)).drop (a.length + 1) = b ++ SP :: rest := by
    rw [← List.drop_drop, List.drop_left, List.drop_one, List.tail_cons]
  have hsecond : findFrom SP (a ++ SP :: (b ++ SP :: rest)) (a.length + 1) = some (b.length + (a.length + 1)) := by
    rw [findFrom, hdrop, search_one hb]
    rfl
  have hword : (b ++ SP :: rest).take (b.length + (a.length + 1) - a.length - 1) = b := by
    have hlen : b.length + (a.length + 1) - a.length - 1 = b.length := by omega
    rw [hlen, List.take_left]
  have hrest : (a ++ SP :: (b ++ SP :: rest)).drop (b.length + (a.length + 1) + 1) = rest := by
    have hlen : b.length + (a.length + 1) + 1 = a.length + 1 + (b.length + 1) := by omega
    rw [hlen, ← List.drop_drop, hdrop, ← List.drop_drop, List.drop_left, List.drop_one, List.tail_cons]
  simp only [parseStatusLine, findFrom_append ha, hsecond, hdrop, hword, hrest]

theorem parseStatusLine_code (line : Bytes) :
    (parseStatusLine line).1 = (((line.splitOn SP)[1]?).map atoi).getD 200 := by
  by_cases ha : SP ∈ line
  · obtain ⟨a, rest, rfl, hfirst⟩ := List.eq_append_cons_of_mem ha
    rw [List.splitOn_append_cons_self_of_not_mem hfirst]
    by_cases hb : SP ∈ rest
    · obtain ⟨b, rest, rfl, hsecond⟩ := List.eq_append_cons_of_mem hb
      rw [List.splitOn_append_cons_self_of_not_mem hsecond, parseStatusLine_three hfirst hsecond]
      rfl
    · rw [List.splitOn_eq_singleton hb, parseStatusLine_two hfirst hb]
      rfl
  · rw [List.splitOn_eq_singleton ha, parseStatusLine_one ha]
    rfl

/-! ## The head of a stream -/

theorem getlines_head {s : Bytes} : ∀ {current : Bytes}, current ++ s ≠ [] →
    (getlines current s).head? = some (current ++ s.takeWhile (· ≠ LF)) := by
  induction s with
  | nil =>
    intro current h
    have hcurrent : current.isEmpty = false := by simpa using h
    simp [getlines, hcurrent]
  | cons c s ih =>
    intro current _
    by_cases hc : c = LF
    · simp [getlines, hc]
    · rw [getlines, if_neg hc, ih (by simp), List.takeWhile_cons_of_pos (by simpa using hc), List.append_assoc,
        List.singleton_append]

def firstLine (head : Bytes) : Bytes := chopCR (head.takeWhile (· ≠ LF))

theorem headLine_split (head : Bytes) : headLine head = head ∨ ∃ rest, head = headLine head ++ (CRLF ++ rest) := by
  cases hcut : search CRLF head with
  | none => exact .inl (by simp [headLine, Head.cutLine, hcut])
  | some k =>
    obtain ⟨rest, hsplit, -⟩ := search_split hcut
    have hline : headLine head = head.take k := by simp [headLine, Head.cutLine, hcut]
    exact .inr ⟨rest, by rw [hline]; exact hsplit⟩

/-- Both readings of the first line agree where it has no stray line end. -/
theorem firstLine_eq {head : Bytes} (hcr : 13 ∉ headLine head) (hlf : LF ∉ headLine head) :
    firstLine head = headLine head := by
  have hall : ∀ c ∈ headLine head, decide (c ≠ LF) = true :=
    fun c hc => decide_eq_true fun heq => hlf (heq ▸ hc)
  have hplain : chopCR (headLine head) = headLine head :=
    if_neg fun hlast => hcr (List.mem_of_getLast? hlast)
  rcases headLine_split head with heq | ⟨rest, heq⟩
  · have htake : head.takeWhile (· ≠ LF) = headLine head := by
      conv_lhs => rw [← heq]
      exact List.takeWhile_eq_self_iff.mpr hall
    rw [firstLine, htake, hplain]
  · have htake : head.takeWhile (· ≠ LF) = headLine head ++ [13] := by
      conv_lhs => rw [heq]
      rw [List.takeWhile_append_of_pos hall]
      rfl
    rw [firstLine, htake, chopCR, if_pos List.getLast?_concat, List.dropLast_concat]

theorem getlines_firstLine {head : Bytes} (h : head ≠ []) :
    ∃ lines, getlines [] head = head.takeWhile (· ≠ LF) :: lines := by
  have hfirst : (getlines [] head).head? = some ([] ++ head.takeWhile (· ≠ LF)) := getlines_head h
  obtain ⟨lines, hlines⟩ := List.head?_eq_some_iff.mp hfirst
  exact ⟨lines, hlines⟩

/-! ## What the client is told -/

variable {proxy : ReverseProxy} {raw : Bytes}

/-- What the fields leave of a response. -/
theorem passedOn_same (proxy : ReverseProxy) (statusLine : Bytes) (fields : List (Bytes × Bytes)) (body : Bytes) :
    (proxy.passedOn statusLine fields body).statusCode = (parseStatusLine (chopCR statusLine)).1 ∧
      (proxy.passedOn statusLine fields body).statusMessage = (parseStatusLine (chopCR statusLine)).2 ∧
      (proxy.passedOn statusLine fields body).body = body := by
  obtain ⟨headers, hsame⟩ := HttpResponse.withHeaders_same fields
    (({ } : HttpResponse).setStatus (parseStatusLine (chopCR statusLine)).1 (parseStatusLine (chopCR statusLine)).2)
  rw [passedOn, hsame]
  exact ⟨rfl, rfl, rfl⟩

theorem parseResponse_passedOn {headEnd : Nat} {statusLine : Bytes} {headerLines : List Bytes}
    (h : search (CRLF ++ CRLF) raw = some headEnd)
    (hlines : getlines [] (raw.take headEnd) = statusLine :: headerLines) :
    proxy.parseResponse raw =
      proxy.passedOn statusLine (upstreamFields headerLines) (raw.drop (headEnd + 4)) := by
  simp only [parseResponse, h, hlines]
  rfl

theorem parseResponse_headless (h : search (CRLF ++ CRLF) raw = none) :
    (proxy.parseResponse raw).statusCode = 200 := by
  simp only [parseResponse, h]
  rfl

theorem parseResponse_blank (h : search (CRLF ++ CRLF) raw = some 0) :
    (proxy.parseResponse raw).statusCode = 502 := by
  simp only [parseResponse, h]
  rfl

theorem parseResponse_status {headEnd : Nat} (h : search (CRLF ++ CRLF) raw = some headEnd) (hpos : 0 < headEnd) :
    (proxy.parseResponse raw).statusCode =
      ((((firstLine (raw.take headEnd)).splitOn SP)[1]?).map atoi).getD 200 := by
  have hne : raw.take headEnd ≠ [] := by
    have hlen := search_length h
    intro hnil
    have := congrArg List.length hnil
    rw [List.length_take, List.length_nil] at this
    omega
  obtain ⟨lines, hlines⟩ := getlines_firstLine hne
  rw [← parseStatusLine_code, parseResponse_passedOn h hlines]
  exact (passedOn_same ..).1

/-- The streams with a status that reaches the client, or with none where the
client is told so. -/
inductive Reported (raw : Bytes) : Prop where
  | empty : raw = [] → Reported raw
  | blank : CRLF ++ CRLF <+: raw → Reported raw
  | final {headEnd code : Nat} : search (CRLF ++ CRLF) raw = some headEnd →
      statusOf (headLine (raw.take headEnd)) = some code → isInterim code = false → Reported raw
  | badGateway {headEnd : Nat} {word : Bytes} : search (CRLF ++ CRLF) raw = some headEnd →
      ((firstLine (raw.take headEnd)).splitOn SP)[1]? = some word → atoi word = 502 → Reported raw

theorem final_code {line : Bytes} {code : Nat} (h : statusOf line = some code) :
    (((line.splitOn SP)[1]?).map atoi).getD 200 = code := by
  obtain ⟨version, word, rest, hsplit, hdigits, hlen, hvalue, -⟩ := statusOf_cases h
  have hsmall : decimal word < 10 ^ word.length := decimal_lt hdigits
  rw [hlen, hvalue] at hsmall
  have hnum : Numeral word code := ⟨hdigits, hvalue, by omega⟩
  rw [hsplit]
  exact hnum.atoi

theorem search_blank (h : CRLF ++ CRLF <+: raw) : search (CRLF ++ CRLF) raw = some 0 := by
  cases raw with
  | nil => cases List.eq_nil_of_prefix_nil h
  | cons c raw => exact search_cons_pos h

theorem finalStatus_headless (h : search (CRLF ++ CRLF) raw = none) : finalStatus raw.length raw = none := by
  cases raw with
  | nil => rfl
  | cons c raw => simp only [List.length_cons, finalStatus, h]

theorem finalStatus_malformed {headEnd : Nat} (h : search (CRLF ++ CRLF) raw = some headEnd)
    (hline : statusOf (headLine (raw.take headEnd)) = none) : finalStatus raw.length raw = none := by
  cases raw with
  | nil => rfl
  | cons c raw => simp only [List.length_cons, finalStatus, h, hline]

theorem finalStatus_final {headEnd code : Nat} (h : search (CRLF ++ CRLF) raw = some headEnd)
    (hline : statusOf (headLine (raw.take headEnd)) = some code) (hfinal : isInterim code = false) :
    finalStatus raw.length raw = some code := by
  cases raw with
  | nil => cases h
  | cons c raw => simp only [List.length_cons, finalStatus, h, hline, hfinal, Bool.false_eq_true, if_false]

/-- A head with a status line: only interim codes are wrong. -/
theorem reported_of_code {headEnd code : Nat} (h : search (CRLF ++ CRLF) raw = some headEnd)
    (hline : statusOf (headLine (raw.take headEnd)) = some code) :
    (code : Int) = ((finalStatus raw.length raw).getD 502 : Nat) ↔ isInterim code = false := by
  constructor
  · intro heq
    have hcode : code = (finalStatus raw.length raw).getD 502 := by exact_mod_cast heq
    cases hfinal : finalStatus raw.length raw with
    | none =>
      rw [hcode, hfinal]
      rfl
    | some final =>
      rw [hcode, hfinal]
      exact finalStatus_not_interim hfinal
  · intro hfinal
    rw [finalStatus_final h hline hfinal, Option.getD_some]

theorem forward_parsed {net : Upstream} {request : HttpRequest} {clientIp : Bytes}
    (hon : proxy.options.enabled = true) (hraw : proxy.exchange net request clientIp = .ok raw) (hne : raw ≠ []) :
    proxy.forward net request clientIp = proxy.parseResponse raw := by
  have hsome : raw.isEmpty = false := by simpa using hne
  simp only [forward, hon, hraw, hsome, Bool.true_eq_false, Bool.false_eq_true, if_false]

/-- **When the status of the upstream reaches the client.** -/
theorem status_reported {net : Upstream} {request : HttpRequest} {clientIp : Bytes}
    (hon : proxy.options.enabled = true) (hraw : proxy.exchange net request clientIp = .ok raw) :
    (proxy.forward net request clientIp).statusCode = ((finalStatus raw.length raw).getD 502 : Nat) ↔
      Reported raw := by
  by_cases hempty : raw = []
  · subst hempty
    have hforward : (proxy.forward net request clientIp).statusCode = 502 := by
      simp only [forward, hon, hraw, Bool.true_eq_false, if_false]
      rfl
    rw [hforward]
    exact iff_of_true rfl (.empty rfl)
  rw [forward_parsed hon hraw hempty]
  cases hend : search (CRLF ++ CRLF) raw with
  | none =>
    rw [parseResponse_headless hend, finalStatus_headless hend]
    refine iff_of_false (by decide) fun hreported => ?_
    cases hreported with
    | empty heq => exact hempty heq
    | blank hblank => cases hend.symm.trans (search_blank hblank)
    | final h => cases hend.symm.trans h
    | badGateway h => cases hend.symm.trans h
  | some headEnd =>
    by_cases hpos : headEnd = 0
    · subst hpos
      rw [parseResponse_blank hend, finalStatus_malformed hend (by rw [List.take_zero]; decide)]
      obtain ⟨rest, hsplit, -⟩ := search_split hend
      exact iff_of_true rfl (.blank ⟨rest, hsplit.symm⟩)
    · have hblank : ¬ CRLF ++ CRLF <+: raw := fun h =>
        hpos (Option.some.inj (hend.symm.trans (search_blank h)))
      rw [parseResponse_status hend (by omega)]
      cases hline : statusOf (headLine (raw.take headEnd)) with
      | some code =>
        obtain ⟨-, -, -, -, -, -, -, hcr, hlf⟩ := statusOf_cases hline
        have hcode := final_code hline
        rw [firstLine_eq hcr hlf, hcode, reported_of_code hend hline]
        constructor
        · exact fun hfinal => .final hend hline hfinal
        · intro hreported
          cases hreported with
          | empty heq => exact absurd heq hempty
          | blank h => exact absurd h hblank
          | final h hline' hfinal =>
            cases hend.symm.trans h
            cases hline.symm.trans hline'
            exact hfinal
          | badGateway h hword h502 =>
            cases hend.symm.trans h
            rw [firstLine_eq hcr hlf] at hword
            rw [hword, Option.map_some, Option.getD_some, h502] at hcode
            have hnat : code = 502 := by exact_mod_cast hcode.symm
            rw [hnat]
            rfl
      | none =>
        rw [finalStatus_malformed hend hline]
        constructor
        · intro hstatus
          cases hword : ((firstLine (raw.take headEnd)).splitOn SP)[1]? with
          | none =>
            rw [hword] at hstatus
            exact absurd hstatus (by decide)
          | some word =>
            rw [hword] at hstatus
            exact .badGateway hend hword hstatus
        · intro hreported
          cases hreported with
          | empty heq => exact absurd heq hempty
          | blank h => exact absurd h hblank
          | final h hline' =>
            cases hend.symm.trans h
            cases hline.symm.trans hline'
          | badGateway h hword h502 =>
            cases hend.symm.trans h
            rw [hword, Option.map_some, Option.getD_some, h502]
            rfl

/-- An interim response may not stand in front; a plain one is passed on. -/
theorem status_reported_notFound :
    (localProxy.forward (answering (bytes "HTTP/1.1 404 Not Found\r\nX: y\r\n\r\nno")) getRequest []).statusCode =
      ((finalStatus (bytes "HTTP/1.1 404 Not Found\r\nX: y\r\n\r\nno").length
        (bytes "HTTP/1.1 404 Not Found\r\nX: y\r\n\r\nno")).getD 502 : Nat) := by
  refine (status_reported rfl rfl).mpr ?_
  exact .final (by decide +kernel : _ = some 28) (by decide +kernel : _ = some 404) rfl

def truncatedError : Bytes := bytes "HTTP/1.1 500 Internal Server Error\r\nContent-Le"

/-- A head that was cut off is answered with `200`. -/
theorem status_invented :
    localProxy.exchange (answering truncatedError) getRequest [] = .ok truncatedError ∧
      finalStatus truncatedError.length truncatedError = none ∧
      (localProxy.forward (answering truncatedError) getRequest []).statusCode = 200 ∧
      ¬ ((localProxy.forward (answering truncatedError) getRequest []).statusCode =
        ((finalStatus truncatedError.length truncatedError).getD 502 : Nat)) := by
  have hstatus : (localProxy.forward (answering truncatedError) getRequest []).statusCode = 200 := by
    have hparsed : localProxy.forward (answering truncatedError) getRequest [] =
        localProxy.parseResponse truncatedError := forward_parsed rfl rfl (by decide)
    rw [hparsed]
    exact parseResponse_headless (by decide +kernel)
  have hfinal : finalStatus truncatedError.length truncatedError = none :=
    finalStatus_headless (by decide +kernel)
  refine ⟨rfl, hfinal, hstatus, ?_⟩
  rw [hstatus, hfinal]
  decide

end ReverseProxy

end Myself
