import MyselfServer.AcceptedRequest
import MyselfServer.Head

/-!
# What a parser takes from its input

The requests of a connection stand behind one another in its input.
`Reads chunks ms rest` says that the messages `ms` were taken off the input in
this order and that `rest` is left; every input has such a reading. A head at
the place where a request starts is either refused, or it is the head of a
message within the limits.
-/

namespace Myself

open Text Stream

namespace Message

def wire (m : Message) : Bytes := m.head ++ m.body

def wires (ms : List Message) : Bytes := ms.flatMap wire

theorem wires_cons (m : Message) (ms : List Message) (rest : Bytes) :
    wires (m :: ms) ++ rest = m.head ++ (m.body ++ (wires ms ++ rest)) := by
  simp [wires, wire]

theorem wires_append (ms ms' : List Message) : wires (ms ++ ms') = wires ms ++ wires ms' :=
  List.flatMap_append

structure ValidHead (maxHeaderBytes maxBodyBytes : Nat) (m : Message) : Prop where
  method : m.method ≠ .kInvalid
  line : ¬ CRLF <:+: m.requestLine
  target : SP ∉ m.target
  version : trim m.versionText = bytes "HTTP/1.1" ∨ trim m.versionText = bytes "HTTP/1.0"
  fields : ∀ f ∈ m.fields, ValidField f
  digits : ∀ v ∈ contentLengths m.fields, isDigitString v = true
  headLimit : m.head.length ≤ maxHeaderBytes
  bodyLimit : bodyLength m.fields ≤ maxBodyBytes

section
variable {maxHeaderBytes maxBodyBytes : Nat} {m : Message}

theorem Valid.validHead (h : m.Valid maxHeaderBytes maxBodyBytes) :
    m.ValidHead maxHeaderBytes maxBodyBytes :=
  ⟨h.method, h.line, h.target, h.version, h.fields, h.digits, h.headLimit, h.bodyLimit⟩

theorem ValidHead.valid (h : m.ValidHead maxHeaderBytes maxBodyBytes) {body : Bytes}
    (hbody : body.length = bodyLength m.fields) :
    Valid maxHeaderBytes maxBodyBytes { m with body := body } :=
  ⟨h.method, h.line, h.target, h.version, h.fields, h.digits, h.headLimit, h.bodyLimit, hbody⟩

end

end Message

structure RawHead where
  first : Bytes
  lines : List Bytes
  firstLine : ¬ CRLF <:+: first
  fieldLines : ∀ l ∈ lines, ¬ CRLF <:+: l ∧ l ≠ []

namespace RawHead

def text (h : RawHead) : Bytes := h.first ++ (CRLF ++ (joinLines h.lines ++ CRLF))

def fields (h : RawHead) : List (Bytes × Bytes) := h.lines.map Head.field

end RawHead

namespace HttpParser

open Message

section
variable {maxHeaderBytes maxBodyBytes : Nat}

/-! ## Messages that were finished -/

theorem drain_wire (hB : maxBodyBytes < ULONG_MAX) {m : Message}
    (hm : m.Valid maxHeaderBytes maxBodyBytes) (taken : List HttpRequest) (rest : Bytes) :
    ∃ r, Stores m r ∧ drain (fresh maxHeaderBytes maxBodyBytes, taken) (m.head ++ (m.body ++ rest)) =
      drain (fresh maxHeaderBytes maxBodyBytes, taken ++ [r]) rest := by
  have hlen : m.body.length ≤ ULONG_MAX := by
    have := hm.bodyLimit
    rw [hm.body]
    omega
  obtain ⟨p, hp, hrequest, hreset⟩ := parse_valid hm hlen rest
  refine ⟨p.request, hrequest ▸ stores_afterFields maxHeaderBytes maxBodyBytes m, ?_⟩
  exact run_next drainRound_decreases (by simp only [drainRound, hp, takeRequest, hreset])

theorem drain_wires (hB : maxBodyBytes < ULONG_MAX) {ms : List Message}
    (hms : ∀ m ∈ ms, m.Valid maxHeaderBytes maxBodyBytes) (taken : List HttpRequest) (rest : Bytes) :
    ∃ rs, List.Forall₂ Stores ms rs ∧
      drain (fresh maxHeaderBytes maxBodyBytes, taken) (wires ms ++ rest) =
        drain (fresh maxHeaderBytes maxBodyBytes, taken ++ rs) rest := by
  induction ms generalizing taken with
  | nil => exact ⟨[], .nil, by rw [List.append_nil]; rfl⟩
  | cons m ms ih =>
    rw [List.forall_mem_cons] at hms
    obtain ⟨r, hr, hone⟩ := drain_wire hB hms.1 taken (wires ms ++ rest)
    obtain ⟨rs, hrs, hall⟩ := ih hms.2 (taken ++ [r])
    refine ⟨r :: rs, .cons hr hrs, ?_⟩
    rw [wires_cons, hone, hall, List.append_assoc, List.singleton_append]

/-- What is in front of the place where the parser is not done. -/
theorem exists_wires (hB : maxBodyBytes < ULONG_MAX) (s : Bytes) :
    ∃ ms rest, s = wires ms ++ rest ∧ (∀ m ∈ ms, m.Valid maxHeaderBytes maxBodyBytes) ∧
      ∀ p r, parse (fresh maxHeaderBytes maxBodyBytes) rest ≠ .done p r := by
  induction hn : s.length using Nat.strong_induction_on generalizing s with | h n ih =>
  by_cases hdone : ∃ p r, parse (fresh maxHeaderBytes maxBodyBytes) s = .done p r
  · obtain ⟨p, r, hp⟩ := hdone
    obtain ⟨m, rest, hm, rfl⟩ := message_of_parse hB hp
    have hlt : rest.length < n := by
      have hhead := head_length m
      simp only [List.length_append] at hn
      omega
    obtain ⟨ms, rest', rfl, hms, hstop⟩ := ih _ hlt rest rfl
    exact ⟨m :: ms, rest', (wires_cons ..).symm, List.forall_mem_cons.mpr ⟨hm, hms⟩, hstop⟩
  · exact ⟨[], s, rfl, by simp, fun p r hp => hdone ⟨p, r, hp⟩⟩

theorem receive_of_more {chunks : List Bytes} {x : HttpParser × List HttpRequest} {rest : Bytes}
    (h : drain (fresh maxHeaderBytes maxBodyBytes, []) chunks.flatten = .more x rest) :
    receive maxHeaderBytes maxBodyBytes chunks = (x.2, .kNeedMore) := by
  rw [receive_eq_receive_flatten]
  simp only [receive, List.foldl_cons, List.foldl_nil, feed, List.nil_append, h]

theorem receive_of_bad {chunks : List Bytes} {x : HttpParser × List HttpRequest} {rest : Bytes}
    (h : drain (fresh maxHeaderBytes maxBodyBytes, []) chunks.flatten = .bad x rest) :
    receive maxHeaderBytes maxBodyBytes chunks = (x.2, .kBadRequest) := by
  rw [receive_eq_receive_flatten]
  simp only [receive, List.foldl_cons, List.foldl_nil, feed, List.nil_append, h]

theorem drain_of_more {p q : HttpParser} {taken : List HttpRequest} {buf rest : Bytes}
    (h : parse p buf = .more q rest) : drain (p, taken) buf = .more (q, taken) rest :=
  run_more drainRound_decreases (by simp only [drainRound, h])

theorem drain_of_bad {p q : HttpParser} {taken : List HttpRequest} {buf rest : Bytes}
    (h : parse p buf = .bad q rest) : drain (p, taken) buf = .bad (q, taken) rest :=
  run_bad drainRound_decreases (by simp only [drainRound, h])

structure Reads (maxHeaderBytes maxBodyBytes : Nat) (chunks : List Bytes) (ms : List Message)
    (rest : Bytes) : Prop where
  input : chunks.flatten = wires ms ++ rest
  valid : ∀ m ∈ ms, m.Valid maxHeaderBytes maxBodyBytes
  requests : List.Forall₂ Stores ms (receive maxHeaderBytes maxBodyBytes chunks).1

/-- **Every input is read.** Valid messages in front of it are all finished. -/
theorem exists_reads (hB : maxBodyBytes < ULONG_MAX) {chunks : List Bytes} {ms : List Message}
    {rest : Bytes} (hin : chunks.flatten = wires ms ++ rest)
    (hms : ∀ m ∈ ms, m.Valid maxHeaderBytes maxBodyBytes) :
    ∃ ms' rest', Reads maxHeaderBytes maxBodyBytes chunks (ms ++ ms') rest' := by
  obtain ⟨ms', rest', rfl, hms', hstop⟩ := exists_wires hB rest
  have hin' : chunks.flatten = wires (ms ++ ms') ++ rest' := by
    rw [hin, wires_append, List.append_assoc]
  have hall : ∀ m ∈ ms ++ ms', m.Valid maxHeaderBytes maxBodyBytes := by
    intro m hm
    rcases List.mem_append.mp hm with hm | hm
    · exact hms m hm
    · exact hms' m hm
  obtain ⟨rs, hrs, hdrain⟩ := drain_wires hB hall [] rest'
  rw [← hin', List.nil_append] at hdrain
  refine ⟨ms', rest', hin', hall, ?_⟩
  rcases parse_cases (fresh maxHeaderBytes maxBodyBytes) rest' with ⟨q, r, hp⟩ | ⟨q, r, hp⟩ | ⟨q, r, hp⟩
  · rw [receive_of_more (hdrain.trans (drain_of_more hp))]
    exact hrs
  · exact absurd hp (hstop q r)
  · rw [receive_of_bad (hdrain.trans (drain_of_bad hp))]
    exact hrs

theorem exists_reading (hB : maxBodyBytes < ULONG_MAX) (chunks : List Bytes) :
    ∃ ms rest, Reads maxHeaderBytes maxBodyBytes chunks ms rest := by
  have hin : chunks.flatten = wires [] ++ chunks.flatten := rfl
  obtain ⟨ms, rest, h⟩ := exists_reads hB hin fun m hm => absurd hm List.not_mem_nil
  exact ⟨ms, rest, h⟩

/-- The verdict is the one on what is behind the finished messages. -/
theorem receive_bad (hB : maxBodyBytes < ULONG_MAX) {chunks : List Bytes} {ms : List Message}
    {rest r : Bytes} {q : HttpParser} (hin : chunks.flatten = wires ms ++ rest)
    (hms : ∀ m ∈ ms, m.Valid maxHeaderBytes maxBodyBytes)
    (h : parse (fresh maxHeaderBytes maxBodyBytes) rest = .bad q r) :
    (receive maxHeaderBytes maxBodyBytes chunks).2 = .kBadRequest := by
  obtain ⟨rs, -, hdrain⟩ := drain_wires hB hms [] rest
  rw [← hin, drain_of_bad h] at hdrain
  rw [receive_of_bad hdrain]

theorem receive_more (hB : maxBodyBytes < ULONG_MAX) {chunks : List Bytes} {ms : List Message}
    {rest r : Bytes} {q : HttpParser} (hin : chunks.flatten = wires ms ++ rest)
    (hms : ∀ m ∈ ms, m.Valid maxHeaderBytes maxBodyBytes)
    (h : parse (fresh maxHeaderBytes maxBodyBytes) rest = .more q r) :
    (receive maxHeaderBytes maxBodyBytes chunks).2 = .kNeedMore := by
  obtain ⟨rs, -, hdrain⟩ := drain_wires hB hms [] rest
  rw [← hin, drain_of_more h] at hdrain
  rw [receive_of_more hdrain]

/-! ## Heads -/

theorem nextLine_line {line : Bytes} (hl : ¬ CRLF <:+: line) (p : HttpParser) (rest : Bytes) :
    (∃ q r, nextLine p (line ++ (CRLF ++ rest)) = .tooLong q r) ∨
      p.parsedHeaderBytes + (line.length + 2) ≤ p.maxHeaderBytes ∧
        nextLine p (line ++ (CRLF ++ rest)) = .got line (p.counted line.length) rest := by
  by_cases hlim : p.parsedHeaderBytes + (line.length + 2) ≤ p.maxHeaderBytes
  · exact Or.inr ⟨hlim, nextLine_of_line hl hlim⟩
  · have hk : findCRLF (line ++ (CRLF ++ rest)) = some line.length :=
      search_pair (by decide) (isLine_iff.mpr hl) rest
    have htake : (line ++ (CRLF ++ rest)).take line.length = line := List.take_left
    refine Or.inl ⟨p.counted line.length, (line ++ (CRLF ++ rest)).drop (line.length + 2), ?_⟩
    simp only [nextLine, hk, htake, if_pos (Nat.lt_of_not_le hlim)]
    rfl

/-- The lines of a head are fields within the limits, or the head is refused. -/
theorem parseHeaders_lines {ls : List Bytes} (hls : ∀ l ∈ ls, ¬ CRLF <:+: l ∧ l ≠ [])
    (p : HttpParser) (rest : Bytes) :
    (∃ q r, parseHeaders p (joinLines ls ++ (CRLF ++ rest)) = .bad q r) ∨
      ∃ fields, ls = fields.map fieldLine ∧ (∀ f ∈ fields, ValidField f) ∧
        (∀ v ∈ contentLengths fields, isDigitString v = true) ∧
        p.parsedHeaderBytes + ((fieldBytes fields).length + 2) ≤ p.maxHeaderBytes := by
  unfold parseHeaders
  induction ls generalizing p with
  | nil =>
    have hnil : ¬ CRLF <:+: ([] : Bytes) := by decide
    rcases nextLine_line hnil p rest with ⟨q, r, hl⟩ | ⟨hlim, -⟩
    · exact Or.inl ⟨q, r, run_bad headerRound_decreases (by simp only [headerRound, joinLines,
        List.flatMap_nil, hl])⟩
    · exact Or.inr ⟨[], rfl, by simp, by simp [contentLengths], hlim⟩
  | cons line ls ih =>
    rw [List.forall_mem_cons] at hls
    have hbuf : joinLines (line :: ls) ++ (CRLF ++ rest) =
        line ++ (CRLF ++ (joinLines ls ++ (CRLF ++ rest))) := by
      simp [joinLines]
    rw [hbuf]
    rcases nextLine_line hls.1.1 p (joinLines ls ++ (CRLF ++ rest)) with ⟨q, r, hl⟩ | ⟨hlim, hl⟩
    · exact Or.inl ⟨q, r, run_bad headerRound_decreases (by simp only [headerRound, hl])⟩
    · have hne : line.isEmpty = false := by simpa using hls.1.2
      cases hh : (p.counted line.length).headerLine line with
      | mk ok q =>
        cases ok with
        | false =>
          refine Or.inl ⟨q, joinLines ls ++ (CRLF ++ rest), run_bad headerRound_decreases ?_⟩
          rw [headerRound_got hl, onLine, if_neg (by simpa using hls.1.2), hh]
        | true =>
          have hnext : headerRound p (line ++ (CRLF ++ (joinLines ls ++ (CRLF ++ rest)))) =
              .next q (joinLines ls ++ (CRLF ++ rest)) := by
            rw [headerRound_got hl, onLine, if_neg (by simpa using hls.1.2), hh]
          rw [run_next headerRound_decreases hnext]
          obtain ⟨f, rfl, hc, hn, happ⟩ := headerLine_true hh
          have hdf := (applyField_ok (p.counted (fieldLine f).length) (trim f.1) (trim f.2)).mp
            (by rw [happ])
          have hq : q = afterField p f := by rw [afterField, happ]
          subst hq
          refine (ih hls.2 (afterField p f)).imp id ?_
          rintro ⟨fields, rfl, hv, hd, hsum⟩
          rw [(afterField_counted p f).1, (afterField_counted p f).2] at hsum
          refine ⟨f :: fields, rfl, List.forall_mem_cons.mpr ⟨⟨hls.1.1, hc, hn⟩, hv⟩, ?_, ?_⟩
          · intro v hm
            rw [contentLengths_cons] at hm
            split at hm
            · rename_i hk
              rcases List.mem_cons.mp hm with rfl | hm
              · exact hdf hk
              · exact hd v hm
            · exact hd v hm
          · rw [fieldBytes_length_cons]
            omega

theorem joinLines_map_fieldLine (fields : List (Bytes × Bytes)) :
    joinLines (fields.map fieldLine) = fieldBytes fields := List.flatMap_map ..

theorem parse_headers_bad {p q : HttpParser} {buf r : Bytes} (hs : p.state = .kHeaders)
    (h : parseHeaders p buf = .bad q r) : ∃ q, parse p buf = .bad q r :=
  ⟨_, run_bad parseRound_decreases (by simp only [parseRound, hs, h]; rfl)⟩

theorem parse_line_bad {q : HttpParser} {buf r : Bytes}
    (h : (fresh maxHeaderBytes maxBodyBytes).parseRequestLine buf = .bad q r) :
    ∃ q, parse (fresh maxHeaderBytes maxBodyBytes) buf = .bad q r :=
  ⟨_, run_bad parseRound_decreases (by simp only [parseRound, fresh] at h ⊢; rw [h]; rfl)⟩

theorem requestLine_cases (h : RawHead) (rest : Bytes) :
    (∃ q r, parse (fresh maxHeaderBytes maxBodyBytes) (h.first ++ (CRLF ++ rest)) = .bad q r) ∨
      ∃ m : Message, h.first = m.requestLine ∧ m.method ≠ .kInvalid ∧ SP ∉ m.target ∧
        (trim m.versionText = bytes "HTTP/1.1" ∨ trim m.versionText = bytes "HTTP/1.0") ∧
        m.requestLine.length + 2 ≤ maxHeaderBytes := by
  rcases nextLine_line h.firstLine (fresh maxHeaderBytes maxBodyBytes) rest with ⟨q, r, hl⟩ | ⟨-, hl⟩
  · have hbad : (fresh maxHeaderBytes maxBodyBytes).parseRequestLine (h.first ++ (CRLF ++ rest)) =
        .bad q r := by
      simp only [parseRequestLine, hl]
    obtain ⟨q', hq⟩ := parse_line_bad hbad
    exact Or.inl ⟨q', r, hq⟩
  · rcases parseRequestLine_cases (fresh maxHeaderBytes maxBodyBytes) (h.first ++ (CRLF ++ rest)) with
      ⟨q, r, hc⟩ | hc | ⟨q, r, hc, -, -⟩
    · obtain ⟨q', hq⟩ := parse_line_bad hc
      exact Or.inl ⟨q', r, hq⟩
    · simp only [parseRequestLine, hl] at hc
      split at hc
      · cases hc
      · split at hc
        · cases hc
        · split at hc <;> cases hc
    · obtain ⟨method, target, versionText, hs, hm, hcr, ht, hv, hlim⟩ := parseRequestLine_moved hc
      have hcut := congrArg (Head.cutLine .crlf) hs
      rw [Head.cutLine_whole (e := .crlf) h.firstLine, Head.cutLine_whole (e := .crlf) hcr] at hcut
      have hfirst := congrArg Prod.fst (Option.some.inj hcut)
      refine Or.inr ⟨⟨method, target, versionText, [], []⟩, hfirst, hm, ht, hv, ?_⟩
      simpa [fresh] using hlim

/-- A head is refused, or it is the head of a message within the limits. -/
theorem rawHead_cases (hB : maxBodyBytes < ULONG_MAX) (h : RawHead) (rest : Bytes) :
    (∃ q r, parse (fresh maxHeaderBytes maxBodyBytes) (h.text ++ rest) = .bad q r) ∨
      ∃ m : Message, m.ValidHead maxHeaderBytes maxBodyBytes ∧ h.first = m.requestLine ∧
        h.lines = m.fields.map fieldLine := by
  have hbuf : h.text ++ rest = h.first ++ (CRLF ++ (joinLines h.lines ++ (CRLF ++ rest))) := by
    simp only [RawHead.text, List.append_assoc]
  rw [hbuf]
  rcases requestLine_cases h (joinLines h.lines ++ (CRLF ++ rest)) with hbad | ⟨m, hfirst, hm, ht, hv, hlim⟩
  · exact Or.inl hbad
  · have hcr : ¬ CRLF <:+: m.requestLine := hfirst ▸ h.firstLine
    have hline := parseRequestLine_of (p := fresh maxHeaderBytes maxBodyBytes) hm hcr ht hv
      (by simp only [fresh]; omega) (joinLines h.lines ++ (CRLF ++ rest))
    obtain ⟨hstate, hparsed, hmaxh, hmaxb, hcl, -, -⟩ :=
      (fresh maxHeaderBytes maxBodyBytes).afterRequestLine_same m
    rw [hfirst, parse_of_moved rfl hline]
    generalize (fresh maxHeaderBytes maxBodyBytes).afterRequestLine m = q at *
    rcases parseHeaders_lines h.fieldLines q rest with ⟨q', r, hbad⟩ | ⟨fields, hlines, hvalid, hd, hsum⟩
    · obtain ⟨q'', hq⟩ := parse_headers_bad hstate hbad
      exact Or.inl ⟨q'', r, hq⟩
    · have hend := parseHeaders_fields rest fields q hvalid hd hsum
      have hfields : joinLines h.lines = fieldBytes fields := by
        rw [hlines, joinLines_map_fieldLine]
      rw [hfields]
      by_cases hlimit : bodyLength fields ≤ maxBodyBytes
      · refine Or.inr ⟨{ m with fields := fields }, ⟨hm, hcr, ht, hv, hvalid, hd, ?_, hlimit⟩, rfl, hlines⟩
        rw [head_length]
        simp only [hparsed, hmaxh, fresh] at hsum
        simp only [Message.requestLine] at hsum ⊢
        omega
      · have hbad : parseHeaders q (fieldBytes fields ++ (CRLF ++ rest)) =
            .bad ((afterFields q fields).counted 0) rest := by
          rw [hend, endOfHead, if_pos]
          simp only [counted, contentLength_eq hd hcl, (afterFields_same fields q).2.2.1, hmaxb, fresh]
          omega
        obtain ⟨q', hq⟩ := parse_headers_bad hstate hbad
        exact Or.inl ⟨q', rest, hq⟩

/-- Behind a head within the limits the parser waits for the body. -/
theorem parse_validHead_more (hB : maxBodyBytes < ULONG_MAX) {m : Message}
    (hm : m.ValidHead maxHeaderBytes maxBodyBytes) {rest : Bytes}
    (hlen : rest.length < bodyLength m.fields) :
    ∃ q, parse (fresh maxHeaderBytes maxBodyBytes) (m.head ++ rest) = .more q rest := by
  have hlimit := hm.headLimit
  rw [head_length] at hlimit
  have hline := parseRequestLine_of (p := fresh maxHeaderBytes maxBodyBytes) hm.method hm.line
    hm.target hm.version (by simp only [fresh]; omega) (fieldBytes m.fields ++ (CRLF ++ rest))
  obtain ⟨hstate, hparsed, hmaxh, hmaxb, hcl, -, -⟩ :=
    (fresh maxHeaderBytes maxBodyBytes).afterRequestLine_same m
  have hbuf : m.head ++ rest = m.requestLine ++ (CRLF ++ (fieldBytes m.fields ++ (CRLF ++ rest))) := by
    simp only [Message.head, List.append_assoc]
  rw [hbuf, parse_of_moved rfl hline]
  generalize (fresh maxHeaderBytes maxBodyBytes).afterRequestLine m = q at *
  have hend := parseHeaders_fields rest m.fields q hm.fields hm.digits
    (by rw [hparsed, hmaxh]; simp only [fresh]; omega)
  have hlimB := hm.bodyLimit
  have hcontent : ((afterFields q m.fields).counted 0).contentLength = bodyLength m.fields := by
    have := contentLength_eq (p := q) hm.digits hcl
    simp only [counted]
    omega
  have hmax : ((afterFields q m.fields).counted 0).maxBodyBytes = maxBodyBytes :=
    (afterFields_same m.fields q).2.2.1.trans hmaxb
  generalize (afterFields q m.fields).counted 0 = p at *
  have hmore : p.endOfHead rest = .moved { p with state := .kBody } rest := by
    rw [endOfHead, if_neg (by omega), if_neg (by omega)]
  have hmoved : parse q (fieldBytes m.fields ++ (CRLF ++ rest)) = parse { p with state := .kBody } rest := by
    refine run_next parseRound_decreases ?_
    simp only [parseRound, hstate, hend, hmore]
    rfl
  refine ⟨{ p with state := .kBody }, ?_⟩
  rw [hmoved]
  refine run_more parseRound_decreases ?_
  simp only [parseRound, parseBody, hcontent, if_pos hlen]
  rfl

end

end HttpParser

end Myself
