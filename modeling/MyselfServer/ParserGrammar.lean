import MyselfServer.ParserChunks

/-!
# The grammar the parser accepts

`Message` is a request as its sender writes it: a request line, header
fields, a body. `parse_iff_message` says that a fresh parser finishes exactly
on the strings that start with a valid message, takes that message off the
buffer, and stores what the message says.
-/

namespace Myself

open Text Stream

/-- A request as it stands on the wire. The field names and values are the
bytes before and after the first colon of their lines. -/
structure Message where
  method : Method
  target : Bytes
  versionText : Bytes
  fields : List (Bytes × Bytes)
  body : Bytes

namespace Message

def requestLine (m : Message) : Bytes :=
  methodToString m.method ++ SP :: (m.target ++ SP :: m.versionText)

def fieldLine (f : Bytes × Bytes) : Bytes := f.1 ++ COLON :: f.2

def fieldBytes (fields : List (Bytes × Bytes)) : Bytes :=
  fields.flatMap fun f => fieldLine f ++ CRLF

def head (m : Message) : Bytes :=
  m.requestLine ++ (CRLF ++ (fieldBytes m.fields ++ CRLF))

def isContentLength (f : Bytes × Bytes) : Bool := toLower (trim f.1) = bytes "content-length"

def contentLengths (fields : List (Bytes × Bytes)) : List Bytes :=
  (fields.filter isContentLength).map fun f => trim f.2

def bodyLength (fields : List (Bytes × Bytes)) : Nat :=
  ((contentLengths fields).getLast?.map decimal).getD 0

def lookup (fields : List (Bytes × Bytes)) (key : Bytes) : Bytes :=
  ((fields.filter fun f => toLower (trim f.1) = toLower key).getLast?.map fun f => trim f.2).getD []

def targetPath (m : Message) : Bytes := m.target.takeWhile (· ≠ QUESTION)

def targetQuery (m : Message) : Bytes := (m.target.dropWhile (· ≠ QUESTION)).drop 1

structure ValidField (f : Bytes × Bytes) : Prop where
  line : ¬ CRLF <:+: fieldLine f
  colon : COLON ∉ f.1
  name : trim f.1 ≠ []

structure Valid (maxHeaderBytes maxBodyBytes : Nat) (m : Message) : Prop where
  method : m.method ≠ .kInvalid
  line : ¬ CRLF <:+: m.requestLine
  target : SP ∉ m.target
  version : trim m.versionText = bytes "HTTP/1.1" ∨ trim m.versionText = bytes "HTTP/1.0"
  fields : ∀ f ∈ m.fields, ValidField f
  digits : ∀ v ∈ contentLengths m.fields, isDigitString v = true
  headLimit : m.head.length ≤ maxHeaderBytes
  bodyLimit : bodyLength m.fields ≤ maxBodyBytes
  body : m.body.length = bodyLength m.fields

end Message

namespace HttpParser

open Message

/-! ## Lines -/

theorem isLine_iff {line : Bytes} : search CRLF line = none ↔ ¬ CRLF <:+: line :=
  search_eq_none_iff (by simp [CRLF])

theorem nextLine_of_line {p : HttpParser} {line rest : Bytes} (hl : ¬ CRLF <:+: line)
    (hlim : p.parsedHeaderBytes + (line.length + 2) ≤ p.maxHeaderBytes) :
    nextLine p (line ++ (CRLF ++ rest)) =
      .got line { p with parsedHeaderBytes := p.parsedHeaderBytes + (line.length + 2) } rest := by
  have hk : findCRLF (line ++ (CRLF ++ rest)) = some line.length :=
    search_pair (by decide) (isLine_iff.mpr hl) rest
  have htake : (line ++ (CRLF ++ rest)).take line.length = line := List.take_left
  have hdrop : (line ++ (CRLF ++ rest)).drop (line.length + 2) = rest :=
    List.drop_length_add_append 2
  simp only [nextLine, hk, htake, hdrop, if_neg (Nat.not_lt.mpr hlim)]

theorem splitRequestLine_of {a t : Bytes} (ha : SP ∉ a) (ht : SP ∉ t) (v : Bytes) :
    splitRequestLine (a ++ SP :: (t ++ SP :: v)) = some (a, t, trim v) := by
  have hd : (a ++ SP :: (t ++ SP :: v)).drop (a.length + 1) = t ++ SP :: v :=
    List.drop_length_add_append 1
  have h1 : findFrom SP (a ++ SP :: (t ++ SP :: v)) 0 = some a.length := by
    simp [findFrom, search_one ha]
  have h2 : findFrom SP (a ++ SP :: (t ++ SP :: v)) (a.length + 1) =
      some (t.length + (a.length + 1)) := by
    simp only [findFrom, hd, search_one ht, Option.map_some]
  have hn : t.length + (a.length + 1) - a.length - 1 = t.length := by omega
  have hv : (a ++ SP :: (t ++ SP :: v)).drop (t.length + (a.length + 1) + 1) = v := by
    rw [show t.length + (a.length + 1) + 1 = a.length + 1 + (t.length + 1) by omega,
      ← List.drop_drop, hd]
    exact List.drop_length_add_append 1
  simp only [splitRequestLine, h1, h2, hn, hd, hv, List.take_left]

theorem splitRequestLine_some {line a t v : Bytes} (h : splitRequestLine line = some (a, t, v)) :
    ∃ w, line = a ++ SP :: (t ++ SP :: w) ∧ SP ∉ a ∧ SP ∉ t ∧ trim w = v := by
  unfold splitRequestLine at h
  split at h
  · cases h
  · rename_i k hk
    obtain ⟨a', b, rfl, ha, rfl⟩ := search_one_iff.mp (by simpa [findFrom] using hk)
    have hd : (a' ++ SP :: b).drop (a'.length + 1) = b := List.drop_length_add_append 1
    split at h
    · cases h
    · rename_i j hj
      simp only [findFrom, hd] at hj
      obtain ⟨j', hj', rfl⟩ := Option.map_eq_some_iff.mp hj
      obtain ⟨t', w, rfl, ht, rfl⟩ := search_one_iff.mp hj'
      have hs := splitRequestLine_of ha ht w
      have hk' : findFrom SP (a' ++ SP :: (t' ++ SP :: w)) 0 = some a'.length := hk
      have hj'' : findFrom SP (a' ++ SP :: (t' ++ SP :: w)) (a'.length + 1) =
          some (t'.length + (a'.length + 1)) := by
        simp only [findFrom, hd, hj', Option.map_some]
      simp only [splitRequestLine, hk', hj''] at hs
      rw [h] at hs
      simp only [Option.some.injEq, Prod.mk.injEq] at hs
      obtain ⟨rfl, rfl, rfl⟩ := hs
      exact ⟨w, rfl, ha, ht, rfl⟩

theorem methodFromString_toString {m : Method} (h : m ≠ .kInvalid) :
    methodFromString (methodToString m) = m := by
  cases m
  · exact absurd rfl h
  · decide
  · decide
  · decide

theorem methodToString_fromString {text : Bytes} (h : methodFromString text ≠ .kInvalid) :
    methodToString (methodFromString text) = text := by
  unfold methodFromString at h ⊢
  split
  · rename_i ht; exact ht.symm
  · rename_i h1
    split
    · rename_i ht; exact ht.symm
    · rename_i h2
      split
      · rename_i ht; exact ht.symm
      · rename_i h3
        rw [if_neg h1, if_neg h2, if_neg h3] at h
        exact absurd rfl h

theorem SP_notMem_method (m : Method) : SP ∉ methodToString m := by
  cases m <;> decide

theorem headerLine_of {f : Bytes × Bytes} (hc : COLON ∉ f.1) (hn : trim f.1 ≠ []) (p : HttpParser) :
    p.headerLine (fieldLine f) = p.applyField (trim f.1) (trim f.2) := by
  have hk : findFrom COLON (fieldLine f) 0 = some f.1.length := by
    simp [findFrom, fieldLine, search_one hc]
  have hd : (fieldLine f).drop (f.1.length + 1) = f.2 := List.drop_length_add_append 1
  have ht : (fieldLine f).take f.1.length = f.1 := List.take_left
  have hne : (trim f.1).isEmpty = false := by simpa using hn
  simp only [headerLine, hk, hd, ht, hne, Bool.false_eq_true, if_false]

theorem headerLine_true {p p' : HttpParser} {line : Bytes} (h : p.headerLine line = (true, p')) :
    ∃ f, line = fieldLine f ∧ COLON ∉ f.1 ∧ trim f.1 ≠ [] ∧
      p.applyField (trim f.1) (trim f.2) = (true, p') := by
  have h' := h
  unfold headerLine at h
  split at h
  · cases h
  · rename_i k hk
    obtain ⟨a, b, rfl, ha, rfl⟩ := search_one_iff.mp (by simpa [findFrom] using hk)
    have ht : (a ++ COLON :: b).take a.length = a := List.take_left
    dsimp only at h
    rw [ht] at h
    split at h
    · cases h
    · rename_i hn
      have hn' : trim a ≠ [] := by simpa using hn
      refine ⟨(a, b), rfl, ha, hn', ?_⟩
      rw [← h', ← headerLine_of (f := (a, b)) ha hn']
      rfl

/-! ## Fields -/

/-- A field is rejected only for a Content-Length that is no number. -/
theorem applyField_ok (p : HttpParser) (key value : Bytes) :
    (p.applyField key value).1 = true ↔
      (toLower key = bytes "content-length" → isDigitString value = true) := by
  unfold applyField
  dsimp only
  split
  · rename_i hk
    split
    · rename_i hv; simp [hv]
    · rename_i hv; simp [hk, hv]
  · rename_i hk
    split
    · split
      · simp [hk]
      · split <;> simp [hk]
    · simp [hk]

theorem applyField_eq (p : HttpParser) (key value : Bytes) :
    ∃ keepAlive, (p.applyField key value).2 =
      { p with
        contentLength :=
          if toLower key = bytes "content-length" ∧ isDigitString value = true then strtoul value
          else p.contentLength
        request := { p.request.addHeader key value with keepAlive := keepAlive } } := by
  unfold applyField
  dsimp only
  split
  · rename_i hk
    split
    · rename_i hv; exact ⟨_, by simp [hk, hv]; rfl⟩
    · rename_i hv; exact ⟨_, by simp [hv]; rfl⟩
  · rename_i hk
    split
    · split
      · exact ⟨false, by simp [hk]⟩
      · split
        · exact ⟨true, by simp [hk]⟩
        · exact ⟨_, by simp [hk]; rfl⟩
    · exact ⟨_, by simp [hk]; rfl⟩

def counted (p : HttpParser) (n : Nat) : HttpParser :=
  { p with parsedHeaderBytes := p.parsedHeaderBytes + (n + 2) }

def afterField (p : HttpParser) (f : Bytes × Bytes) : HttpParser :=
  ((p.counted (fieldLine f).length).applyField (trim f.1) (trim f.2)).2

def afterFields (p : HttpParser) (fields : List (Bytes × Bytes)) : HttpParser :=
  fields.foldl afterField p

theorem afterField_counted (p : HttpParser) (f : Bytes × Bytes) :
    (afterField p f).parsedHeaderBytes = p.parsedHeaderBytes + ((fieldLine f).length + 2) ∧
      (afterField p f).maxHeaderBytes = p.maxHeaderBytes := by
  obtain ⟨ka, hf⟩ := applyField_eq (p.counted (fieldLine f).length) (trim f.1) (trim f.2)
  rw [afterField, hf]
  exact ⟨rfl, rfl⟩

theorem fieldBytes_cons (f : Bytes × Bytes) (fields : List (Bytes × Bytes)) :
    fieldBytes (f :: fields) = fieldLine f ++ (CRLF ++ fieldBytes fields) := by
  simp [fieldBytes]

theorem fieldBytes_length_cons (f : Bytes × Bytes) (fields : List (Bytes × Bytes)) :
    (fieldBytes (f :: fields)).length = (fieldLine f).length + 2 + (fieldBytes fields).length := by
  rw [fieldBytes_cons]
  simp only [List.length_append, CRLF, List.length_cons, List.length_nil]
  omega

theorem afterFields_same (fields : List (Bytes × Bytes)) (p : HttpParser) :
    (afterFields p fields).state = p.state ∧
      (afterFields p fields).maxHeaderBytes = p.maxHeaderBytes ∧
      (afterFields p fields).maxBodyBytes = p.maxBodyBytes ∧
      (afterFields p fields).request.method = p.request.method ∧
      (afterFields p fields).request.path = p.request.path ∧
      (afterFields p fields).request.query = p.request.query ∧
      (afterFields p fields).request.version = p.request.version ∧
      (afterFields p fields).request.body = p.request.body := by
  induction fields generalizing p with
  | nil => exact ⟨rfl, rfl, rfl, rfl, rfl, rfl, rfl, rfl⟩
  | cons f fields ih =>
    obtain ⟨ka, hf⟩ := applyField_eq (p.counted (fieldLine f).length) (trim f.1) (trim f.2)
    have hstep : afterFields p (f :: fields) = afterFields (afterField p f) fields := rfl
    rw [hstep]
    have := ih (afterField p f)
    rw [afterField, hf] at this
    rw [afterField, hf]
    exact this

theorem contentLengths_cons (f : Bytes × Bytes) (fields : List (Bytes × Bytes)) :
    contentLengths (f :: fields) =
      if toLower (trim f.1) = bytes "content-length" then trim f.2 :: contentLengths fields
      else contentLengths fields := by
  by_cases hf : toLower (trim f.1) = bytes "content-length" <;>
    simp [contentLengths, isContentLength, hf]

theorem afterFields_contentLength (fields : List (Bytes × Bytes)) (p : HttpParser)
    (hd : ∀ v ∈ contentLengths fields, isDigitString v = true) :
    (afterFields p fields).contentLength =
      ((contentLengths fields).getLast?.map strtoul).getD p.contentLength := by
  induction fields generalizing p with
  | nil => rfl
  | cons f fields ih =>
    obtain ⟨ka, hf⟩ := applyField_eq (p.counted (fieldLine f).length) (trim f.1) (trim f.2)
    have hstep : afterFields p (f :: fields) = afterFields (afterField p f) fields := rfl
    rw [contentLengths_cons] at hd ⊢
    by_cases hk : toLower (trim f.1) = bytes "content-length"
    · rw [if_pos hk] at hd ⊢
      have hv : isDigitString (trim f.2) = true := hd _ (List.mem_cons_self ..)
      rw [hstep, ih _ (fun v hv => hd v (List.mem_cons_of_mem _ hv)), afterField, hf,
        List.getLast?_cons]
      cases (contentLengths fields).getLast? <;> simp [hk, hv]
    · rw [if_neg hk] at hd ⊢
      rw [hstep, ih _ hd, afterField, hf]
      simp [hk, counted]

theorem afterFields_getHeader (fields : List (Bytes × Bytes)) (p : HttpParser) (key : Bytes) :
    (afterFields p fields).request.getHeader key =
      ((fields.filter fun f => toLower (trim f.1) = toLower key).getLast?.map
        fun f => trim f.2).getD (p.request.getHeader key) := by
  induction fields generalizing p with
  | nil => rfl
  | cons f fields ih =>
    obtain ⟨ka, hf⟩ := applyField_eq (p.counted (fieldLine f).length) (trim f.1) (trim f.2)
    have hstep : afterFields p (f :: fields) = afterFields (afterField p f) fields := rfl
    have hone : (afterField p f).request.getHeader key =
        if toLower (trim f.1) = toLower key then trim f.2 else p.request.getHeader key := by
      rw [afterField, hf]
      have := p.request.getHeader_addHeader (trim f.1) (trim f.2) key
      rw [trim_trim, trim_trim] at this
      exact this
    rw [hstep, ih, hone]
    by_cases hk : toLower (trim f.1) = toLower key
    · rw [List.filter_cons_of_pos (by simpa using hk), List.getLast?_cons, if_pos hk]
      cases (fields.filter fun f => toLower (trim f.1) = toLower key).getLast? <;> rfl
    · rw [List.filter_cons_of_neg (by simpa using hk), if_neg hk]

theorem afterFields_hasHeader (fields : List (Bytes × Bytes)) (p : HttpParser) (key : Bytes) :
    (afterFields p fields).request.hasHeader key =
      (fields.any (fun f => toLower (trim f.1) = toLower key) || p.request.hasHeader key) := by
  induction fields generalizing p with
  | nil => simp [afterFields]
  | cons f fields ih =>
    obtain ⟨ka, hf⟩ := applyField_eq (p.counted (fieldLine f).length) (trim f.1) (trim f.2)
    have hstep : afterFields p (f :: fields) = afterFields (afterField p f) fields := rfl
    have hone : (afterField p f).request.hasHeader key =
        (decide (toLower (trim f.1) = toLower key) || p.request.hasHeader key) := by
      rw [afterField, hf]
      have := p.request.hasHeader_addHeader (trim f.1) (trim f.2) key
      rw [trim_trim] at this
      exact this
    rw [hstep, ih, hone, List.any_cons, ← Bool.or_assoc, Bool.or_comm (List.any _ _)]

/-! ## The head -/

theorem onLine_field {p : HttpParser} {f : Bytes × Bytes} (hf : ValidField f)
    (hd : toLower (trim f.1) = bytes "content-length" → isDigitString (trim f.2) = true)
    (rest : Bytes) :
    p.onLine (fieldLine f) rest = .next (p.applyField (trim f.1) (trim f.2)).2 rest := by
  have hne : (fieldLine f).isEmpty = false := by simp [fieldLine]
  have hline := headerLine_of hf.colon hf.name p
  have hok := (applyField_ok p (trim f.1) (trim f.2)).mpr hd
  simp only [onLine, hne, hline, Bool.false_eq_true, if_false]
  split
  · rename_i q hq
    rw [hq] at hok
    cases hok
  · rename_i q hq
    rw [hq]

theorem endOfHead_not_next (p : HttpParser) (rest : Bytes) (p' : HttpParser) (r : Bytes) :
    p.endOfHead rest ≠ .next p' r := by
  unfold endOfHead
  split
  · exact fun h => nomatch h
  · split <;> exact fun h => nomatch h

theorem parseHeaders_fields (rest : Bytes) (fields : List (Bytes × Bytes)) (p : HttpParser)
    (hv : ∀ f ∈ fields, ValidField f) (hd : ∀ v ∈ contentLengths fields, isDigitString v = true)
    (hlim : p.parsedHeaderBytes + ((fieldBytes fields).length + 2) ≤ p.maxHeaderBytes) :
    parseHeaders p (fieldBytes fields ++ (CRLF ++ rest)) =
      ((afterFields p fields).counted 0).endOfHead rest := by
  unfold parseHeaders
  induction fields generalizing p with
  | nil =>
    have hl : nextLine p (CRLF ++ rest) = .got [] (p.counted 0) rest :=
      nextLine_of_line (by decide) hlim
    have hr : headerRound p (CRLF ++ rest) = (p.counted 0).endOfHead rest := headerRound_got hl
    exact (run_stop headerRound_decreases (hr ▸ endOfHead_not_next _ _)).trans hr
  | cons f fields ih =>
    rw [fieldBytes_length_cons] at hlim
    have hf : ValidField f := hv f (List.mem_cons_self ..)
    have hdf : toLower (trim f.1) = bytes "content-length" → isDigitString (trim f.2) = true := by
      intro hk
      rw [contentLengths_cons, if_pos hk] at hd
      exact hd _ (List.mem_cons_self ..)
    have hds : ∀ v ∈ contentLengths fields, isDigitString v = true := by
      intro v hm
      refine hd v ?_
      rw [contentLengths_cons]
      split
      · exact List.mem_cons_of_mem _ hm
      · exact hm
    have hl : nextLine p (fieldLine f ++ (CRLF ++ (fieldBytes fields ++ (CRLF ++ rest)))) =
        .got (fieldLine f) (p.counted (fieldLine f).length) (fieldBytes fields ++ (CRLF ++ rest)) :=
      nextLine_of_line hf.line (by omega)
    have hr : headerRound p (fieldBytes (f :: fields) ++ (CRLF ++ rest)) =
        .next (afterField p f) (fieldBytes fields ++ (CRLF ++ rest)) := by
      rw [fieldBytes_cons, List.append_assoc, List.append_assoc, headerRound_got hl,
        onLine_field hf hdf]
      rfl
    rw [run_next headerRound_decreases hr]
    refine ih (afterField p f) (fun g hg => hv g (List.mem_cons_of_mem _ hg)) hds ?_
    rw [(afterField_counted p f).1, (afterField_counted p f).2]
    omega

/-- When the head is at its end, valid header lines were read. -/
theorem parseHeaders_ended {p : HttpParser} {buf : Bytes}
    (h : (∃ q r, parseHeaders p buf = .done q r) ∨ ∃ q r, parseHeaders p buf = .moved q r) :
    ∃ fields rest, buf = fieldBytes fields ++ (CRLF ++ rest) ∧ (∀ f ∈ fields, ValidField f) ∧
      (∀ v ∈ contentLengths fields, isDigitString v = true) ∧
      p.parsedHeaderBytes + ((fieldBytes fields).length + 2) ≤ p.maxHeaderBytes := by
  unfold parseHeaders at h
  induction p, buf using run_induction headerRound_decreases with | h p buf ih =>
  rw [run_eq headerRound_decreases] at h
  cases hl : nextLine p buf with
  | incomplete =>
    have hf : headerRound p buf = .more p buf := by simp only [headerRound, hl]
    rw [hf] at h
    rcases h with ⟨_, _, h⟩ | ⟨_, _, h⟩ <;> cases h
  | overlong =>
    obtain ⟨p', r, hf⟩ := headerRound_long (Or.inl hl)
    rw [hf] at h
    rcases h with ⟨_, _, h⟩ | ⟨_, _, h⟩ <;> cases h
  | tooLong q s =>
    obtain ⟨p', r, hf⟩ := headerRound_long (Or.inr ⟨q, s, hl⟩)
    rw [hf] at h
    rcases h with ⟨_, _, h⟩ | ⟨_, _, h⟩ <;> cases h
  | got line q s =>
    obtain ⟨hbuf, hline, hq, hlim⟩ := nextLine_got hl
    subst hq
    by_cases hempty : line = []
    · subst hempty
      exact ⟨[], s, hbuf, by simp, by simp [contentLengths], hlim⟩
    · have hne : line.isEmpty = false := by simpa using hempty
      cases hh : (p.counted line.length).headerLine line with
      | mk ok q' =>
        have hf : headerRound p buf = if ok = true then .next q' s else .bad q' s := by
          rw [headerRound_got hl, onLine, if_neg (by simpa using hempty)]
          have : HttpParser.headerLine { p with
            parsedHeaderBytes := p.parsedHeaderBytes + (line.length + 2) } line = (ok, q') := hh
          rw [this]
          cases ok <;> rfl
        cases ok with
        | false =>
          rw [hf] at h
          rcases h with ⟨_, _, h⟩ | ⟨_, _, h⟩ <;> cases h
        | true =>
          rw [if_pos rfl] at hf
          rw [hf] at h
          obtain ⟨fields, rest, rfl, hv, hd, hsum⟩ := ih q' s hf h
          obtain ⟨f, rfl, hc, hn, happ⟩ := headerLine_true hh
          have hdf := (applyField_ok (p.counted (fieldLine f).length) (trim f.1) (trim f.2)).mp
            (by rw [happ])
          have hq' : q' = afterField p f := by rw [afterField, happ]
          subst hq'
          refine ⟨f :: fields, rest, ?_, ?_, ?_, ?_⟩
          · rw [hbuf, fieldBytes_cons]; simp
          · intro g hg
            rcases List.mem_cons.mp hg with rfl | hg
            · exact ⟨isLine_iff.mp hline, hc, hn⟩
            · exact hv g hg
          · intro v hm
            rw [contentLengths_cons] at hm
            split at hm
            · rename_i hk
              rcases List.mem_cons.mp hm with rfl | hm
              · exact hdf hk
              · exact hd v hm
            · exact hd v hm
          · rw [(afterField_counted p f).1, (afterField_counted p f).2] at hsum
            rw [fieldBytes_length_cons]
            omega

/-! ## The loop over the states -/

theorem parse_of_moved {p q : HttpParser} {buf r : Bytes} (hs : p.state = .kRequestLine)
    (h : p.parseRequestLine buf = .moved q r) : parse p buf = parse q r :=
  run_next parseRound_decreases (by simp only [parseRound, hs, h]; rfl)

theorem parse_body {p : HttpParser} {buf : Bytes} (hs : p.state = .kBody)
    (hlen : p.contentLength ≤ buf.length) :
    parse p buf = .done { p with
      request := { p.request with body := buf.take p.contentLength }, state := .kGotAll }
      (buf.drop p.contentLength) := by
  refine run_done parseRound_decreases ?_
  simp only [parseRound, hs, parseBody, if_neg (Nat.not_lt.mpr hlen)]
  rfl

theorem parse_endOfHead {p q : HttpParser} {buf rest : Bytes} (hs : p.state = .kHeaders)
    (h : parseHeaders p buf = q.endOfHead rest) (hbody : q.request.body = [])
    (hlim : q.contentLength ≤ q.maxBodyBytes) (hlen : q.contentLength ≤ rest.length) :
    parse p buf = .done { q with
      request := { q.request with body := rest.take q.contentLength }, state := .kGotAll }
      (rest.drop q.contentLength) := by
  have hround : parseRound p buf = afterState (q.endOfHead rest) := by
    simp only [parseRound, hs, h]
  rw [endOfHead, if_neg (Nat.not_lt.mpr hlim)] at hround
  by_cases hz : q.contentLength = 0
  · rw [if_pos hz] at hround
    have htake : rest.take q.contentLength = q.request.body := by rw [hz, hbody, List.take_zero]
    have hdrop : rest.drop q.contentLength = rest := by rw [hz, List.drop_zero]
    rw [htake, hdrop]
    exact run_done parseRound_decreases hround
  · rw [if_neg hz] at hround
    have hmoved : parse p buf = parse { q with state := .kBody } rest :=
      run_next parseRound_decreases hround
    rw [hmoved, parse_body (p := { q with state := .kBody }) rfl hlen]

theorem parse_done_endOfHead {p q p' : HttpParser} {buf rest r : Bytes} (hs : p.state = .kHeaders)
    (h : parseHeaders p buf = q.endOfHead rest) (hdone : parse p buf = .done p' r) :
    q.contentLength ≤ q.maxBodyBytes ∧ q.contentLength ≤ rest.length := by
  have hround : parseRound p buf = afterState (q.endOfHead rest) := by
    simp only [parseRound, hs, h]
  unfold endOfHead at hround
  by_cases hlim : q.contentLength > q.maxBodyBytes
  · rw [if_pos hlim] at hround
    have hbad : parse p buf = .bad { q with state := .kError } rest :=
      run_bad parseRound_decreases hround
    rw [hbad] at hdone
    cases hdone
  · rw [if_neg hlim] at hround
    refine ⟨by omega, ?_⟩
    by_cases hz : q.contentLength = 0
    · omega
    · rw [if_neg hz] at hround
      have hmoved : parse p buf = parse { q with state := .kBody } rest :=
        run_next parseRound_decreases hround
      by_contra hlen
      have hmore : parse { q with state := .kBody } rest = .more { q with state := .kBody } rest := by
        refine run_more parseRound_decreases ?_
        simp only [parseRound, parseBody, if_pos (Nat.lt_of_not_le hlen)]
        rfl
      rw [hmoved, hmore] at hdone
      cases hdone

theorem parseHeaders_of_done {p p' : HttpParser} {buf r : Bytes} (hs : p.state = .kHeaders)
    (h : parse p buf = .done p' r) :
    (∃ q r, parseHeaders p buf = .done q r) ∨ ∃ q r, parseHeaders p buf = .moved q r := by
  have hround : parseRound p buf = afterState (p.parseHeaders buf) := by simp only [parseRound, hs]
  cases hp : p.parseHeaders buf with
  | done q s => exact Or.inl ⟨q, s, rfl⟩
  | moved q s => exact Or.inr ⟨q, s, rfl⟩
  | next q s => exact absurd hp (run_not_next headerRound_decreases _ _ _ _)
  | more q s =>
    rw [hp] at hround
    have hmore : parse p buf = .more q s := run_more parseRound_decreases hround
    rw [hmore] at h
    cases h
  | bad q s =>
    rw [hp] at hround
    have hbad : parse p buf = .bad { q with state := .kError } s :=
      run_bad parseRound_decreases hround
    rw [hbad] at h
    cases h

/-! ## The grammar -/

def afterRequestLine (p : HttpParser) (m : Message) : HttpParser :=
  (p.counted m.requestLine.length).setRequestLine m.method m.target (trim m.versionText)

theorem afterRequestLine_same (p : HttpParser) (m : Message) :
    (p.afterRequestLine m).state = .kHeaders ∧
      (p.afterRequestLine m).parsedHeaderBytes = p.parsedHeaderBytes + (m.requestLine.length + 2) ∧
      (p.afterRequestLine m).maxHeaderBytes = p.maxHeaderBytes ∧
      (p.afterRequestLine m).maxBodyBytes = p.maxBodyBytes ∧
      (p.afterRequestLine m).contentLength = p.contentLength ∧
      (p.afterRequestLine m).request.body = p.request.body ∧
      (p.afterRequestLine m).request.headers = p.request.headers := by
  obtain ⟨path, query, hp⟩ :=
    HttpRequest.setPath_eq { p.request with method := m.method } m.target
  simp only [afterRequestLine, setRequestLine, counted, hp, and_self]

theorem parseRequestLine_of {p : HttpParser} {m : Message} (hm : m.method ≠ .kInvalid)
    (hl : ¬ CRLF <:+: m.requestLine) (ht : SP ∉ m.target)
    (hv : trim m.versionText = bytes "HTTP/1.1" ∨ trim m.versionText = bytes "HTTP/1.0")
    (hlim : p.parsedHeaderBytes + (m.requestLine.length + 2) ≤ p.maxHeaderBytes) (rest : Bytes) :
    p.parseRequestLine (m.requestLine ++ (CRLF ++ rest)) = .moved (p.afterRequestLine m) rest := by
  have hsplit : splitRequestLine m.requestLine =
      some (methodToString m.method, m.target, trim m.versionText) :=
    splitRequestLine_of (SP_notMem_method m.method) ht m.versionText
  have hmethod := methodFromString_toString hm
  have hversion : ¬ (trim m.versionText ≠ bytes "HTTP/1.1" ∧
      trim m.versionText ≠ bytes "HTTP/1.0") := by
    rintro ⟨h1, h0⟩
    rcases hv with h | h
    · exact h1 h
    · exact h0 h
  simp only [parseRequestLine, nextLine_of_line hl hlim, hsplit, hmethod, if_neg hm,
    if_neg hversion]
  rfl

theorem parseRequestLine_moved {p q : HttpParser} {buf r : Bytes}
    (h : p.parseRequestLine buf = .moved q r) :
    ∃ method target versionText, let m : Message := ⟨method, target, versionText, [], []⟩
      buf = m.requestLine ++ (CRLF ++ r) ∧ method ≠ .kInvalid ∧ ¬ CRLF <:+: m.requestLine ∧
        SP ∉ target ∧ (trim versionText = bytes "HTTP/1.1" ∨ trim versionText = bytes "HTTP/1.0") ∧
        p.parsedHeaderBytes + (m.requestLine.length + 2) ≤ p.maxHeaderBytes := by
  unfold parseRequestLine at h
  cases hl : nextLine p buf with
  | incomplete => simp only [hl] at h; cases h
  | overlong => simp only [hl] at h; cases h
  | tooLong _ _ => simp only [hl] at h; cases h
  | got line p' rest =>
    obtain ⟨hbuf, hline, rfl, hlim⟩ := nextLine_got hl
    simp only [hl] at h
    split at h
    · cases h
    · rename_i methodText target versionText hs
      split at h
      · cases h
      · rename_i hm
        split at h
        · cases h
        · rename_i hv
          cases h
          obtain ⟨w, rfl, -, ht, rfl⟩ := splitRequestLine_some hs
          refine ⟨methodFromString methodText, target, w, ?_⟩
          dsimp only [Message.requestLine]
          rw [methodToString_fromString hm]
          refine ⟨hbuf, hm, isLine_iff.mp hline, ht, ?_, hlim⟩
          by_contra hno
          exact hv (not_or.mp hno)

theorem head_length (m : Message) :
    m.head.length = m.requestLine.length + 2 + ((fieldBytes m.fields).length + 2) := by
  simp only [Message.head, List.length_append, CRLF, List.length_cons, List.length_nil]
  omega

/-- The body length of a head, as the parser computed it: below its largest
value `strtoul` gives the number itself. -/
theorem contentLength_eq {fields : List (Bytes × Bytes)} {p : HttpParser}
    (hd : ∀ v ∈ contentLengths fields, isDigitString v = true) (h0 : p.contentLength = 0) :
    (afterFields p fields).contentLength = min (bodyLength fields) ULONG_MAX := by
  rw [afterFields_contentLength fields p hd, bodyLength]
  cases hlast : (contentLengths fields).getLast? with
  | none => simp [h0]
  | some v =>
    have hv : isDigitString v = true := hd v (List.mem_of_getLast? hlast)
    simp only [Option.map_some, Option.getD_some, strtoul_of_digits hv]

structure Stores (m : Message) (r : HttpRequest) : Prop where
  method : r.method = m.method
  path : r.path = if m.targetPath = [] then bytes "/" else m.targetPath
  query : r.query = m.targetQuery
  version : r.version = trim m.versionText
  body : r.body = m.body
  header : ∀ key, r.getHeader key = lookup m.fields key
  hasHeader : ∀ key, r.hasHeader key = m.fields.any fun f => toLower (trim f.1) = toLower key

theorem setPath_target (r : HttpRequest) (m : Message) :
    (r.setPath m.target).path = (if m.targetPath = [] then bytes "/" else m.targetPath) ∧
      (r.setPath m.target).query = m.targetQuery := by
  unfold targetPath targetQuery
  have hcut : ∀ path : Bytes, QUESTION ∉ path → ∀ c ∈ path, decide (c ≠ QUESTION) = true :=
    fun path hp c hc => decide_eq_true fun heq => hp (heq ▸ hc)
  by_cases hq : QUESTION ∈ m.target
  · obtain ⟨path, query, ht, hp⟩ := List.eq_append_cons_of_mem hq
    rw [ht, HttpRequest.setPath_query hp, List.takeWhile_append_of_pos (hcut path hp),
      List.dropWhile_append_of_pos (hcut path hp)]
    simp
  · rw [HttpRequest.setPath_path hq, List.takeWhile_eq_self_iff.mpr (hcut _ hq),
      List.dropWhile_eq_nil_iff.mpr (hcut _ hq)]
    exact ⟨rfl, rfl⟩

/-- A fresh parser finishes a valid message and takes it off the buffer; when the
request is taken too, it is fresh again. -/
theorem parse_valid {maxHeaderBytes maxBodyBytes : Nat} {m : Message}
    (hm : m.Valid maxHeaderBytes maxBodyBytes) (hB : m.body.length ≤ ULONG_MAX) (rest : Bytes) :
    ∃ p, parse (fresh maxHeaderBytes maxBodyBytes) (m.head ++ (m.body ++ rest)) = .done p rest ∧
      p.request = { (afterFields ((fresh maxHeaderBytes maxBodyBytes).afterRequestLine m)
        m.fields).request with body := m.body } ∧
      p.reset = fresh maxHeaderBytes maxBodyBytes := by
  have hlimit := hm.headLimit
  rw [head_length] at hlimit
  have hline := parseRequestLine_of (p := fresh maxHeaderBytes maxBodyBytes) hm.method hm.line
    hm.target hm.version (by simp only [fresh]; omega)
    (fieldBytes m.fields ++ (CRLF ++ (m.body ++ rest)))
  obtain ⟨hstate, hparsed, hmaxh, hmaxb, hcl, hbody, -⟩ :=
    (fresh maxHeaderBytes maxBodyBytes).afterRequestLine_same m
  generalize hq : (fresh maxHeaderBytes maxBodyBytes).afterRequestLine m = q at *
  have hfields := parseHeaders_fields (m.body ++ rest) m.fields q hm.fields hm.digits
    (by rw [hparsed, hmaxh]; simp only [fresh]; omega)
  obtain ⟨-, hmaxh', hmaxb', -, -, -, -, hbody'⟩ := afterFields_same m.fields q
  have hlen : (afterFields q m.fields).contentLength = m.body.length := by
    rw [contentLength_eq hm.digits hcl, ← hm.body]
    exact Nat.min_eq_left hB
  have hdone := parse_endOfHead hstate hfields (hbody'.trans hbody)
    (by
      have := hm.bodyLimit
      simp only [counted, hlen, hmaxb', hmaxb, fresh, hm.body]
      exact this)
    (by simp [counted, hlen])
  have htake : (m.body ++ rest).take (afterFields q m.fields).contentLength = m.body := by
    rw [hlen, List.take_left]
  have hdrop : (m.body ++ rest).drop (afterFields q m.fields).contentLength = rest := by
    rw [hlen, List.drop_left]
  have hbuf : m.head ++ (m.body ++ rest) =
      m.requestLine ++ (CRLF ++ (fieldBytes m.fields ++ (CRLF ++ (m.body ++ rest)))) := by
    simp only [Message.head, List.append_assoc]
  simp only [counted, htake, hdrop] at hdone
  refine ⟨_, by rw [hbuf, parse_of_moved rfl hline, hdone], rfl, ?_⟩
  simp only [reset, hmaxh', hmaxh, hmaxb', hmaxb, fresh]

theorem stores_afterFields (maxHeaderBytes maxBodyBytes : Nat) (m : Message) :
    Stores m { (afterFields ((fresh maxHeaderBytes maxBodyBytes).afterRequestLine m)
      m.fields).request with body := m.body } := by
  obtain ⟨-, -, -, -, -, -, hheaders⟩ := (fresh maxHeaderBytes maxBodyBytes).afterRequestLine_same m
  generalize hq : (fresh maxHeaderBytes maxBodyBytes).afterRequestLine m = q at *
  obtain ⟨-, -, -, hmethod', hpath', hquery', hversion', -⟩ := afterFields_same m.fields q
  have hset := setPath_target { (fresh maxHeaderBytes maxBodyBytes).request with method := m.method } m
  obtain ⟨path, query, hp⟩ := HttpRequest.setPath_eq
    { (fresh maxHeaderBytes maxBodyBytes).request with method := m.method } m.target
  have hline : q.request.method = m.method ∧ q.request.path = path ∧ q.request.query = query ∧
      q.request.version = trim m.versionText := by
    simp only [← hq, afterRequestLine, setRequestLine, counted, hp, and_self]
  rw [hp] at hset
  exact {
    method := hmethod'.trans hline.1
    path := hpath'.trans (hline.2.1.trans hset.1)
    query := hquery'.trans (hline.2.2.1.trans hset.2)
    version := hversion'.trans hline.2.2.2
    body := rfl
    header := fun key => by
      have hget := afterFields_getHeader m.fields q key
      have hempty : q.request.getHeader key = [] := by
        simp only [HttpRequest.getHeader, hheaders]
        rfl
      rw [hempty] at hget
      exact hget
    hasHeader := fun key => by
      have hhas := afterFields_hasHeader m.fields q key
      have hempty : q.request.hasHeader key = false := by
        simp only [HttpRequest.hasHeader, hheaders]
        rfl
      rw [hempty, Bool.or_false] at hhas
      exact hhas }

/-- A fresh parser finishes a valid message, takes it off the buffer and
stores what it says. -/
theorem parse_message {maxHeaderBytes maxBodyBytes : Nat} (hB : maxBodyBytes < ULONG_MAX)
    {m : Message} (hm : m.Valid maxHeaderBytes maxBodyBytes) (rest : Bytes) :
    ∃ p, parse (fresh maxHeaderBytes maxBodyBytes) (m.head ++ (m.body ++ rest)) = .done p rest ∧
      Stores m p.request := by
  have hlen : m.body.length ≤ ULONG_MAX := by
    have := hm.bodyLimit
    rw [hm.body]
    omega
  obtain ⟨p, hp, hrequest, -⟩ := parse_valid hm hlen rest
  exact ⟨p, hp, hrequest ▸ stores_afterFields maxHeaderBytes maxBodyBytes m⟩

/-- What a fresh parser finishes starts with a valid message. -/
theorem message_of_parse {maxHeaderBytes maxBodyBytes : Nat} (hB : maxBodyBytes < ULONG_MAX)
    {s : Bytes} {p : HttpParser} {r : Bytes}
    (h : parse (fresh maxHeaderBytes maxBodyBytes) s = .done p r) :
    ∃ (m : Message) (rest : Bytes), m.Valid maxHeaderBytes maxBodyBytes ∧
      s = m.head ++ (m.body ++ rest) := by
  cases hl : (fresh maxHeaderBytes maxBodyBytes).parseRequestLine s with
  | next q t =>
    rcases parseRequestLine_cases (fresh maxHeaderBytes maxBodyBytes) s with
      ⟨_, _, hc⟩ | hc | ⟨_, _, hc, -, -⟩ <;> rw [hl] at hc <;> cases hc
  | done q t =>
    rcases parseRequestLine_cases (fresh maxHeaderBytes maxBodyBytes) s with
      ⟨_, _, hc⟩ | hc | ⟨_, _, hc, -, -⟩ <;> rw [hl] at hc <;> cases hc
  | more q t =>
    have hmore : parse (fresh maxHeaderBytes maxBodyBytes) s = .more q t :=
      run_more parseRound_decreases (by simp only [parseRound, fresh] at hl ⊢; rw [hl]; rfl)
    rw [hmore] at h
    cases h
  | bad q t =>
    have hbad : parse (fresh maxHeaderBytes maxBodyBytes) s = .bad { q with state := .kError } t :=
      run_bad parseRound_decreases (by simp only [parseRound, fresh] at hl ⊢; rw [hl]; rfl)
    rw [hbad] at h
    cases h
  | moved q t =>
    rw [parse_of_moved rfl hl] at h
    obtain ⟨method, target, versionText, hs, hm, hcr, ht, hv, hlim⟩ := parseRequestLine_moved hl
    -- the request line is the same for every message that starts with it
    have hline := parseRequestLine_of hm hcr ht hv hlim t
    rw [← hs, hl] at hline
    obtain ⟨hstate, hparsed, hmaxh, hmaxb, hcl, hbody, -⟩ :=
      (fresh maxHeaderBytes maxBodyBytes).afterRequestLine_same ⟨method, target, versionText, [], []⟩
    cases hline
    obtain ⟨fields, rest, rfl, hfields, hd, hlim'⟩ :=
      parseHeaders_ended (parseHeaders_of_done hstate h)
    have hend := parseHeaders_fields rest fields _ hfields hd hlim'
    obtain ⟨hB', hlen⟩ := parse_done_endOfHead hstate hend h
    simp only [counted, contentLength_eq hd hcl, (afterFields_same fields _).2.2.1, hmaxb] at hB' hlen
    rw [hparsed, hmaxh] at hlim'
    simp only [fresh] at hB' hlim'
    have hbl : min (bodyLength fields) ULONG_MAX = bodyLength fields := by omega
    rw [hbl] at hB' hlen
    refine ⟨⟨method, target, versionText, fields, rest.take (bodyLength fields)⟩,
      rest.drop (bodyLength fields), ?_, ?_⟩
    · exact {
        method := hm
        line := hcr
        target := ht
        version := hv
        fields := hfields
        digits := hd
        headLimit := by
          rw [head_length]
          simp only [Message.requestLine] at hlim' ⊢
          omega
        bodyLimit := hB'
        body := by simp only [List.length_take]; omega }
    · rw [hs]
      simp only [Message.head, Message.requestLine, List.append_assoc, List.take_append_drop]

/-- **The parser accepts its grammar.** A fresh parser finishes exactly on
the strings that start with a valid message; it leaves what is behind that
message in the buffer and stores what the message says. -/
theorem parse_iff_message (maxHeaderBytes maxBodyBytes : Nat) (hB : maxBodyBytes < ULONG_MAX)
    (s : Bytes) :
    ((∃ p rest, parse (fresh maxHeaderBytes maxBodyBytes) s = .done p rest) ↔
      ∃ (m : Message) (rest : Bytes), m.Valid maxHeaderBytes maxBodyBytes ∧
        s = m.head ++ (m.body ++ rest)) ∧
    ∀ (m : Message) (rest : Bytes), m.Valid maxHeaderBytes maxBodyBytes →
      s = m.head ++ (m.body ++ rest) →
        ∃ p, parse (fresh maxHeaderBytes maxBodyBytes) s = .done p rest ∧ Stores m p.request := by
  refine ⟨⟨?_, ?_⟩, ?_⟩
  · rintro ⟨p, rest, h⟩
    exact message_of_parse hB h
  · rintro ⟨m, rest, hm, rfl⟩
    obtain ⟨p, hp, -⟩ := parse_message hB hm rest
    exact ⟨p, rest, hp⟩
  · rintro m rest hm rfl
    exact parse_message hB hm rest

theorem parse_iff_message_host :
    ∃ p, parse (fresh 8192 (2 ^ 20)) (bytes "GET /a?b HTTP/1.1\r\nHost: x\r\n\r\nGET") =
        .done p (bytes "GET") ∧ p.request.getHeader (bytes "HOST") = bytes "x" := by
  have hfield : ValidField (bytes "Host", bytes " x") := ⟨by decide, by decide, by decide⟩
  obtain ⟨p, hp, hs⟩ := (parse_iff_message 8192 (2 ^ 20) (by decide) _).2
    ⟨.kGet, bytes "/a?b", bytes "HTTP/1.1", [(bytes "Host", bytes " x")], []⟩ (bytes "GET")
    { method := by decide
      line := by decide
      target := by decide
      version := by decide
      fields := by simpa using hfield
      digits := by decide
      headLimit := by decide
      bodyLimit := by decide
      body := by decide }
    rfl
  exact ⟨p, hp, (hs.header _).trans (by decide)⟩

/-- The path is not always what stands before the first `?`: when nothing
does, it is read as `/`. -/
theorem path_ne_targetPath :
    ∃ (m : Message) (p : HttpParser), m.Valid 8192 (2 ^ 20) ∧
      m.head = bytes "GET ?q HTTP/1.1\r\n\r\n" ∧
      parse (fresh 8192 (2 ^ 20)) (bytes "GET ?q HTTP/1.1\r\n\r\n") = .done p [] ∧
      p.request.path ≠ m.targetPath := by
  have hm : (⟨.kGet, bytes "?q", bytes "HTTP/1.1", [], []⟩ : Message).Valid 8192 (2 ^ 20) :=
    { method := by decide
      line := by decide
      target := by decide
      version := by decide
      fields := by simp
      digits := by decide
      headLimit := by decide
      bodyLimit := by decide
      body := by decide }
  obtain ⟨p, hp, hs⟩ := parse_message (by decide) hm []
  exact ⟨_, p, hm, rfl, hp, by rw [hs.path]; decide⟩

end HttpParser

end Myself
