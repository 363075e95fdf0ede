import MyselfServer.ParserGrammar

/-!
# What the requests of the parser look like

Every request a parser has finished has a method, a target that fits on its
line and headers whose names are trimmed, in lower case and without a colon,
however its bytes were cut and whatever requests came before it.
-/

namespace Myself

open Text Stream

structure Stored (key value : Bytes) : Prop where
  name : key ≠ []
  colon : COLON ∉ key
  lowered : toLower key = key
  trimmedName : trim key = key
  trimmed : trim value = value
  nameLine : ¬ CRLF <:+: key
  line : ¬ CRLF <:+: value

namespace HttpRequest

def StoredHeaders (r : HttpRequest) : Prop :=
  ∀ key value, r.headers[key]? = some value → Stored key value

structure Targeted (r : HttpRequest) : Prop where
  method : r.method ≠ .kInvalid
  path : r.path ≠ []
  pathSP : SP ∉ r.path
  querySP : SP ∉ r.query
  question : QUESTION ∉ r.path
  pathLine : ¬ CRLF <:+: r.path
  queryLine : ¬ CRLF <:+: r.query

structure Accepted (r : HttpRequest) : Prop extends Targeted r where
  headers : r.StoredHeaders

theorem storedHeaders_nil {r : HttpRequest} (h : r.headers = ∅) : r.StoredHeaders := by
  intro key value hget
  rw [h, Std.TreeMap.getElem?_emptyc] at hget
  cases hget

theorem StoredHeaders.addHeader {r : HttpRequest} (h : r.StoredHeaders) {key value : Bytes}
    (hcolon : COLON ∉ key) (hname : trim key ≠ []) (hkey : ¬ CRLF <:+: key)
    (hvalue : ¬ CRLF <:+: value) : (r.addHeader key value).StoredHeaders := by
  intro k v hget
  simp only [HttpRequest.addHeader, Std.TreeMap.getElem?_insert,
    Std.LawfulEqCmp.compare_eq_iff_eq] at hget
  split at hget
  · rename_i hk
    subst hk
    cases hget
    exact {
      name := fun hnil => hname (List.map_eq_nil_iff.mp hnil)
      colon := fun hin => hcolon ((trim_part key).subset ((mem_toLower (by decide)).mp hin))
      lowered := toLower_toLower _
      trimmedName := by rw [trim_toLower, trim_trim]
      trimmed := trim_trim _
      nameLine := noCRLF_toLower (noCRLF_of_part (trim_part key) hkey)
      line := noCRLF_of_part (trim_part value) hvalue }
  · exact h k v hget

theorem targeted_setPath {r : HttpRequest} {target : Bytes} (hm : r.method ≠ .kInvalid)
    (hsp : SP ∉ target) (hline : ¬ CRLF <:+: target) : (r.setPath target).Targeted := by
  have hslash : bytes "/" ≠ [] ∧ SP ∉ bytes "/" ∧ QUESTION ∉ bytes "/" ∧ ¬ CRLF <:+: bytes "/" := by
    decide
  have hempty : SP ∉ ([] : Bytes) ∧ ¬ CRLF <:+: ([] : Bytes) := by decide
  by_cases hq : QUESTION ∈ target
  · obtain ⟨path, query, rfl, hp⟩ := List.eq_append_cons_of_mem hq
    have hpath : path <:+: path ++ QUESTION :: query := (List.prefix_append _ _).isInfix
    have hquery : query <:+: path ++ QUESTION :: query :=
      ((List.suffix_cons _ _).trans (List.suffix_append _ _)).isInfix
    rw [setPath_query hp]
    by_cases hnil : path = []
    · simp only [if_pos hnil]
      exact ⟨hm, hslash.1, hslash.2.1, fun h => hsp (hquery.subset h), hslash.2.2.1, hslash.2.2.2,
        noCRLF_of_part hquery hline⟩
    · simp only [if_neg hnil]
      exact ⟨hm, hnil, fun h => hsp (hpath.subset h), fun h => hsp (hquery.subset h), hp,
        noCRLF_of_part hpath hline, noCRLF_of_part hquery hline⟩
  · rw [setPath_path hq]
    by_cases hnil : target = []
    · simp only [if_pos hnil]
      exact ⟨hm, hslash.1, hslash.2.1, hempty.1, hslash.2.2.1, hslash.2.2.2, hempty.2⟩
    · simp only [if_neg hnil]
      exact ⟨hm, hnil, hsp, hempty.1, hq, hline, hempty.2⟩

theorem Targeted.congr {r r' : HttpRequest} (h : r.Targeted) (hm : r'.method = r.method)
    (hp : r'.path = r.path) (hq : r'.query = r.query) : r'.Targeted :=
  ⟨hm ▸ h.method, hp ▸ h.path, hp ▸ h.pathSP, hq ▸ h.querySP, hp ▸ h.question, hp ▸ h.pathLine,
    hq ▸ h.queryLine⟩

end HttpRequest

namespace HttpParser

/-! ## The head -/

theorem headerLine_accepted {p : HttpParser} {line : Bytes} (h : p.request.Accepted)
    (hline : ¬ CRLF <:+: line) : (p.headerLine line).2.request.Accepted := by
  unfold headerLine
  split
  · exact h
  · rename_i k hk
    obtain ⟨a, b, rfl, ha, rfl⟩ := search_one_iff.mp (by simpa [findFrom] using hk)
    have hta : (a ++ COLON :: b).take a.length = a := List.take_left
    have htb : (a ++ COLON :: b).drop (a.length + 1) = b := List.drop_length_add_append 1
    have hia : trim a <:+: a ++ COLON :: b :=
      (trim_part a).trans (List.prefix_append _ _).isInfix
    have hib : trim b <:+: a ++ COLON :: b :=
      (trim_part b).trans ((List.suffix_cons _ _).trans (List.suffix_append _ _)).isInfix
    dsimp only
    rw [hta, htb]
    split
    · exact h
    · rename_i hne
      have hname : trim (trim a) ≠ [] := by simpa [trim_trim] using hne
      have hadd := h.headers.addHeader (fun hin => ha ((trim_part a).subset hin)) hname
        (noCRLF_of_part hia hline) (noCRLF_of_part hib hline)
      obtain ⟨keepAlive, heq⟩ := applyField_eq p (trim a) (trim b)
      rw [heq]
      exact { h.toTargeted.congr rfl rfl rfl with headers := hadd }

theorem endOfHead_request (p : HttpParser) (rest : Bytes) :
    (p.endOfHead rest).state.request = p.request := by
  unfold endOfHead
  split
  · rfl
  · split <;> rfl

theorem onLine_accepted {p : HttpParser} {line : Bytes} (h : p.request.Accepted)
    (hline : ¬ CRLF <:+: line) (rest : Bytes) : (p.onLine line rest).state.request.Accepted := by
  unfold onLine
  split
  · rw [endOfHead_request]
    exact h
  · have hl := headerLine_accepted h hline
    split
    · rename_i q hq
      rw [hq] at hl
      exact hl
    · rename_i q hq
      rw [hq] at hl
      exact hl

theorem nextLine_tooLong {p q : HttpParser} {buf rest : Bytes}
    (h : nextLine p buf = .tooLong q rest) : q.request = p.request := by
  unfold nextLine at h
  split at h
  · split at h <;> cases h
  · dsimp only at h
    split at h
    · cases h
      rfl
    · cases h

theorem headerRound_accepted (p : HttpParser) (buf : Bytes) (h : p.request.Accepted) :
    (headerRound p buf).state.request.Accepted := by
  cases hl : nextLine p buf with
  | incomplete => simpa only [headerRound, hl, Step.state] using h
  | overlong => simpa only [headerRound, hl, Step.state] using h
  | tooLong q rest => simpa only [headerRound, hl, Step.state, nextLine_tooLong hl] using h
  | got line q rest =>
    obtain ⟨-, hline, hq, -⟩ := nextLine_got hl
    have hrequest : q.request.Accepted := by simpa only [hq] using h
    rw [headerRound_got hl]
    exact onLine_accepted hrequest (isLine_iff.mp hline) rest

theorem parseHeaders_accepted {p : HttpParser} (h : p.request.Accepted) (buf : Bytes) :
    (parseHeaders p buf).state.request.Accepted :=
  run_inv (I := fun p => p.request.Accepted) headerRound_decreases headerRound_accepted p buf h

/-! ## The states of the parser -/

/-- What holds of a parser at any time: behind the request line the request
has its method and its target. -/
structure Wellformed (p : HttpParser) : Prop where
  headers : p.request.StoredHeaders
  targeted : p.state = .kHeaders ∨ p.state = .kBody ∨ p.state = .kGotAll → p.request.Targeted

theorem Wellformed.of_accepted {p : HttpParser} (h : p.request.Accepted) : p.Wellformed :=
  ⟨h.headers, fun _ => h.toTargeted⟩

theorem Wellformed.of_early {p : HttpParser} (h : p.request.StoredHeaders)
    (hs : p.state = .kRequestLine ∨ p.state = .kError) : p.Wellformed := by
  refine ⟨h, fun hlate => ?_⟩
  rcases hs with hs | hs <;> simp [hs] at hlate

theorem afterState_request (o : Step HttpParser UInt8) :
    (afterState o).state.request = o.state.request := by
  cases o <;> rfl

theorem parseRequestLine_wellformed {p : HttpParser} (h : p.Wellformed) (buf : Bytes) :
    (afterState (p.parseRequestLine buf)).state.Wellformed := by
  cases hl : nextLine p buf with
  | incomplete =>
    simp only [parseRequestLine, hl]
    exact h
  | overlong => simpa only [parseRequestLine, hl] using .of_early h.headers (.inr rfl)
  | tooLong q rest =>
    have hq : q.request.StoredHeaders := by simpa only [nextLine_tooLong hl] using h.headers
    simpa only [parseRequestLine, hl] using .of_early hq (.inr rfl)
  | got line q rest =>
    obtain ⟨-, hline, hq, -⟩ := nextLine_got hl
    have hheaders : q.request.StoredHeaders := by simpa only [hq] using h.headers
    simp only [parseRequestLine, hl]
    split
    · exact .of_early hheaders (.inr rfl)
    · rename_i methodText target versionText hsplit
      split
      · exact .of_early hheaders (.inr rfl)
      · rename_i hmethod
        split
        · exact .of_early hheaders (.inr rfl)
        · obtain ⟨w, rfl, -, ht, -⟩ := splitRequestLine_some hsplit
          have hin : target <:+: methodText ++ SP :: (target ++ SP :: w) :=
            (List.prefix_append target _).isInfix.trans
              ((List.suffix_cons _ _).trans (List.suffix_append _ _)).isInfix
          have htarget := HttpRequest.targeted_setPath
            (r := { q.request with method := methodFromString methodText }) hmethod ht
            (noCRLF_of_part hin (isLine_iff.mp hline))
          obtain ⟨path, query, hset⟩ := HttpRequest.setPath_eq
            { q.request with method := methodFromString methodText } target
          refine Wellformed.of_accepted
            { htarget.congr rfl rfl rfl with headers := ?_ }
          simp only [setRequestLine, hset]
          exact hheaders

theorem parseRound_wellformed (p : HttpParser) (buf : Bytes) (h : p.Wellformed) :
    (parseRound p buf).state.Wellformed := by
  unfold parseRound
  split
  · exact parseRequestLine_wellformed h buf
  · rename_i hs
    have hp : p.request.Accepted := { h.targeted (.inl hs) with headers := h.headers }
    refine .of_accepted ?_
    rw [afterState_request]
    exact parseHeaders_accepted hp buf
  · rename_i hs
    have hp : p.request.Accepted := { h.targeted (.inr (.inl hs)) with headers := h.headers }
    refine .of_accepted ?_
    rw [afterState_request]
    unfold parseBody
    split
    · exact hp
    · exact { hp.toTargeted.congr rfl rfl rfl with headers := hp.headers }
  · exact h
  · exact h

theorem parse_wellformed {p : HttpParser} (h : p.Wellformed) (buf : Bytes) :
    (parse p buf).state.Wellformed :=
  run_inv parseRound_decreases parseRound_wellformed p buf h

theorem parseRound_done_state {p q : HttpParser} {buf rest : Bytes}
    (h : parseRound p buf = .done q rest) : q.state = .kGotAll := by
  have hafter : ∀ o : Step HttpParser UInt8, afterState o = .done q rest → q.state = .kGotAll := by
    intro o ho
    cases o <;> cases ho
    rfl
  unfold parseRound at h
  split at h
  · exact hafter _ h
  · exact hafter _ h
  · exact hafter _ h
  · rename_i hs
    cases h
    exact hs
  · cases h

theorem parse_done_accepted {p q : HttpParser} {buf rest : Bytes} (h : p.Wellformed)
    (hdone : parse p buf = .done q rest) : q.request.Accepted := by
  obtain ⟨p₁, b₁, hround⟩ := run_done_of parseRound_decreases hdone
  have hq := parse_wellformed h buf
  rw [hdone] at hq
  exact { hq.targeted (.inr (.inr (parseRound_done_state hround))) with headers := hq.headers }

/-! ## The requests taken -/

theorem drainRound_accepted (x : HttpParser × List HttpRequest) (buf : Bytes)
    (h : x.1.Wellformed ∧ ∀ r ∈ x.2, r.Accepted) :
    (drainRound x buf).state.1.Wellformed ∧ ∀ r ∈ (drainRound x buf).state.2, r.Accepted := by
  have hp := parse_wellformed h.1 buf
  unfold drainRound
  cases hparse : parse x.1 buf with
  | done q rest =>
    have hreset : q.reset.Wellformed :=
      .of_early (HttpRequest.storedHeaders_nil rfl) (.inl rfl)
    refine ⟨hreset, fun r hr => ?_⟩
    rcases List.mem_append.mp hr with hr | hr
    · exact h.2 r hr
    · rw [List.mem_singleton.mp hr]
      exact parse_done_accepted h.1 hparse
  | more _ _ => rw [hparse] at hp; exact ⟨hp, h.2⟩
  | bad _ _ => rw [hparse] at hp; exact ⟨hp, h.2⟩
  | moved _ _ => rw [hparse] at hp; exact ⟨hp, h.2⟩
  | next _ _ => rw [hparse] at hp; exact ⟨hp, h.2⟩

theorem drain_accepted (x : HttpParser × List HttpRequest) (buf : Bytes)
    (h : x.1.Wellformed ∧ ∀ r ∈ x.2, r.Accepted) :
    (drain x buf).state.1.Wellformed ∧ ∀ r ∈ (drain x buf).state.2, r.Accepted :=
  run_inv drainRound_decreases drainRound_accepted x buf h

/-- **Every request of a parser is wellformed.** -/
theorem receive_accepted {maxHeaderBytes maxBodyBytes : Nat} {chunks : List Bytes} {r : HttpRequest}
    (h : r ∈ (receive maxHeaderBytes maxBodyBytes chunks).1) : r.Accepted := by
  have hfresh : (fresh maxHeaderBytes maxBodyBytes).Wellformed :=
    .of_early (HttpRequest.storedHeaders_nil rfl) (.inl rfl)
  have hall : ((chunks.foldl (feed Prod.snd drain)
      (.live (fresh maxHeaderBytes maxBodyBytes, []) [])).Holds
        (fun x => x.1.Wellformed ∧ ∀ r ∈ x.2, r.Accepted) fun requests => ∀ r ∈ requests, r.Accepted) :=
    feedAll_inv drain_accepted (fun _ hx => hx.2) chunks _
      ⟨hfresh, fun r hr => absurd hr List.not_mem_nil⟩
  unfold receive at h
  split at h
  · rename_i hfeed
    rw [hfeed] at hall
    exact hall.2 r h
  · rename_i hfeed
    rw [hfeed] at hall
    exact hall r h

end HttpParser

end Myself
