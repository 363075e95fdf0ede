import MyselfServer.Machine
import MyselfServer.ParserChunks

/-!
# What an unfinished request holds

A parser with its buffer, which grows by chunks of any size. `Unfinished`
counts the bytes of the request that have left the buffer; they are the ones
`parsedHeaderBytes_` counts. The limit of the head is checked twice, on a
line that has no end yet and on the lines that have one.
-/

namespace Myself

open Text Stream

namespace HttpParser

/-- What a parser in the middle of a request has taken, of `total` bytes. -/
structure Unfinished (total : Nat) (p : HttpParser) (buf : Bytes) : Prop where
  counted : p.parsedHeaderBytes + buf.length = total
  head : p.parsedHeaderBytes ≤ p.maxHeaderBytes
  body : p.state = .kBody → p.contentLength ≤ p.maxBodyBytes

def Limits (maxHeaderBytes maxBodyBytes : Nat) (p : HttpParser) : Prop :=
  p.maxHeaderBytes = maxHeaderBytes ∧ p.maxBodyBytes = maxBodyBytes

section
variable {maxHeaderBytes maxBodyBytes total : Nat} {p q : HttpParser} {buf rest : Bytes}

theorem headerLine_counts (p : HttpParser) (line : Bytes) :
    (p.headerLine line).2.parsedHeaderBytes = p.parsedHeaderBytes ∧
      (p.headerLine line).2.maxHeaderBytes = p.maxHeaderBytes ∧
      (p.headerLine line).2.maxBodyBytes = p.maxBodyBytes := by
  unfold headerLine
  split
  · exact ⟨rfl, rfl, rfl⟩
  · dsimp only
    split
    · exact ⟨rfl, rfl, rfl⟩
    · unfold applyField
      dsimp only
      split
      · split <;> exact ⟨rfl, rfl, rfl⟩
      · split
        · split
          · exact ⟨rfl, rfl, rfl⟩
          · split <;> exact ⟨rfl, rfl, rfl⟩
        · exact ⟨rfl, rfl, rfl⟩

/-! ## The limits stay -/

theorem limits_nextLine (h : Limits maxHeaderBytes maxBodyBytes p) :
    (∀ line, nextLine p buf = .got line q rest → Limits maxHeaderBytes maxBodyBytes q) ∧
      (nextLine p buf = .tooLong q rest → Limits maxHeaderBytes maxBodyBytes q) := by
  constructor
  · intro line hl
    obtain ⟨-, -, rfl, -⟩ := nextLine_got hl
    exact h
  · intro hl
    unfold nextLine at hl
    split at hl
    · split at hl <;> cases hl
    · dsimp only at hl
      split at hl
      · cases hl
        exact h
      · cases hl

theorem limits_headerRound (p : HttpParser) (buf : Bytes) (h : Limits maxHeaderBytes maxBodyBytes p) :
    Limits maxHeaderBytes maxBodyBytes (headerRound p buf).state := by
  unfold headerRound
  cases hl : nextLine p buf with
  | incomplete => exact h
  | overlong => exact h
  | tooLong q rest => exact (limits_nextLine h).2 hl
  | got line q rest =>
    have hq := (limits_nextLine h).1 line hl
    obtain ⟨-, hmax, hbody⟩ := headerLine_counts q line
    have hline : Limits maxHeaderBytes maxBodyBytes (q.headerLine line).2 :=
      ⟨hmax.trans hq.1, hbody.trans hq.2⟩
    simp only [onLine]
    split
    · unfold endOfHead
      split
      · exact hq
      · split <;> exact hq
    · split
      · rename_i heq
        rw [heq] at hline
        exact hline
      · rename_i heq
        rw [heq] at hline
        exact hline

theorem limits_parseRequestLine (h : Limits maxHeaderBytes maxBodyBytes p) :
    Limits maxHeaderBytes maxBodyBytes (p.parseRequestLine buf).state := by
  unfold parseRequestLine
  cases hl : nextLine p buf with
  | incomplete => exact h
  | overlong => exact h
  | tooLong q rest => exact (limits_nextLine h).2 hl
  | got line q rest =>
    have hq := (limits_nextLine h).1 line hl
    dsimp only
    split
    · exact hq
    · split
      · exact hq
      · split <;> exact hq

theorem limits_parse (p : HttpParser) (buf : Bytes) (h : Limits maxHeaderBytes maxBodyBytes p) :
    Limits maxHeaderBytes maxBodyBytes (parse p buf).state := by
  have hafter : ∀ o : Step HttpParser UInt8, Limits maxHeaderBytes maxBodyBytes o.state →
      Limits maxHeaderBytes maxBodyBytes (afterState o).state := by
    intro o ho
    cases o <;> exact ho
  refine run_inv parseRound_decreases (fun p buf h => ?_) p buf h
  unfold parseRound
  split
  · exact hafter _ (limits_parseRequestLine h)
  · exact hafter _ (run_inv headerRound_decreases limits_headerRound p buf h)
  · refine hafter _ ?_
    unfold parseBody
    split <;> exact h
  · exact h
  · exact h

/-! ## Bytes taken and bytes unread -/

theorem unfinished_nextLine (h : Unfinished total p buf) {line : Bytes}
    (hl : nextLine p buf = .got line q rest) :
    q.parsedHeaderBytes + rest.length = total ∧ q.parsedHeaderBytes ≤ q.maxHeaderBytes := by
  obtain ⟨hbuf, -, rfl, hlim⟩ := nextLine_got hl
  have hlen := congrArg List.length hbuf
  have hcounted := h.counted
  simp only [List.length_append, CRLF, List.length_cons, List.length_nil] at hlen
  refine ⟨?_, hlim⟩
  dsimp only
  omega

theorem incomplete_length (h : nextLine p buf = .incomplete) : buf.length ≤ p.maxHeaderBytes := by
  unfold nextLine at h
  split at h
  · split at h
    · cases h
    · rename_i hlim
      exact Nat.not_lt.mp hlim
  · dsimp only at h
    split at h <;> cases h

/-- What a pass over the header lines leaves when it does not reject them. -/
theorem unfinished_headerRound (hs : p.state = .kHeaders) (h : Unfinished total p buf) :
    (∀ q rest, headerRound p buf = .next q rest → q.state = .kHeaders ∧ Unfinished total q rest) ∧
      (∀ q rest, headerRound p buf = .moved q rest → q.state = .kBody ∧ Unfinished total q rest) ∧
      (∀ q rest, headerRound p buf = .more q rest →
        q = p ∧ rest = buf ∧ buf.length ≤ p.maxHeaderBytes) := by
  cases hl : nextLine p buf with
  | incomplete =>
    have hlen := incomplete_length hl
    simp only [headerRound, hl]
    refine ⟨(fun _ _ he => by cases he), (fun _ _ he => by cases he), ?_⟩
    intro q rest he
    cases he
    exact ⟨rfl, rfl, hlen⟩
  | overlong =>
    simp only [headerRound, hl]
    exact ⟨(fun _ _ he => by cases he), (fun _ _ he => by cases he), fun _ _ he => by cases he⟩
  | tooLong q rest =>
    simp only [headerRound, hl]
    exact ⟨(fun _ _ he => by cases he), (fun _ _ he => by cases he), fun _ _ he => by cases he⟩
  | got line q rest =>
    obtain ⟨hcounted, hhead⟩ := unfinished_nextLine h hl
    have hqs : q.state = .kHeaders := by
      obtain ⟨-, -, rfl, -⟩ := nextLine_got hl
      exact hs
    rw [headerRound_got hl]
    simp only [onLine]
    split
    · -- the blank line
      unfold endOfHead
      split
      · exact ⟨(fun _ _ he => by cases he), (fun _ _ he => by cases he), fun _ _ he => by cases he⟩
      · rename_i hbody
        split
        · exact ⟨(fun _ _ he => by cases he), (fun _ _ he => by cases he), fun _ _ he => by cases he⟩
        · refine ⟨(fun _ _ he => by cases he), ?_, fun _ _ he => by cases he⟩
          intro q' rest' he
          cases he
          exact ⟨rfl, hcounted, hhead, fun _ => Nat.not_lt.mp hbody⟩
    · have hstate := headerLine_state q line
      obtain ⟨hparsed, hmax, -⟩ := headerLine_counts q line
      split
      · exact ⟨(fun _ _ he => by cases he), (fun _ _ he => by cases he), fun _ _ he => by cases he⟩
      · rename_i q₁ heq
        rw [heq] at hstate hparsed hmax
        dsimp only at hstate hparsed hmax
        refine ⟨?_, (fun _ _ he => by cases he), fun _ _ he => by cases he⟩
        intro q' rest' he
        cases he
        refine ⟨hstate.trans hqs, ?_, ?_, fun hb => ?_⟩
        · rw [hparsed]
          exact hcounted
        · rw [hparsed, hmax]
          exact hhead
        · rw [hstate, hqs] at hb
          cases hb

theorem unfinished_parseHeaders (hs : p.state = .kHeaders) (h : Unfinished total p buf) :
    (∀ q rest, parseHeaders p buf = .moved q rest → q.state = .kBody ∧ Unfinished total q rest) ∧
      (∀ q rest, parseHeaders p buf = .more q rest →
        q.state = .kHeaders ∧ Unfinished total q rest ∧ rest.length ≤ q.maxHeaderBytes) := by
  obtain ⟨p₁, b₁, ⟨hs₁, h₁⟩, hrun⟩ := run_last headerRound_decreases
    (I := fun p buf => p.state = .kHeaders ∧ Unfinished total p buf)
    (fun p buf q rest hi hf => (unfinished_headerRound hi.1 hi.2).1 q rest hf) p buf ⟨hs, h⟩
  obtain ⟨-, hmoved, hmore⟩ := unfinished_headerRound hs₁ h₁
  unfold parseHeaders
  rw [hrun]
  refine ⟨hmoved, ?_⟩
  intro q rest hq
  obtain ⟨rfl, rfl, hlen⟩ := hmore q rest hq
  exact ⟨hs₁, h₁, hlen⟩

def Going (total : Nat) (p : HttpParser) (buf : Bytes) : Prop :=
  p.state = .kGotAll ∨ p.state = .kError ∨ Unfinished total p buf

structure Unread (p : HttpParser) (rest : Bytes) : Prop where
  head : p.state ≠ .kBody → rest.length ≤ p.maxHeaderBytes
  body : p.state = .kBody → rest.length < p.contentLength ∧ p.contentLength ≤ p.maxBodyBytes

theorem going_parseRound (h : Going total p buf) :
    (∀ q rest, parseRound p buf = .next q rest → Going total q rest) ∧
      (∀ q rest, parseRound p buf = .more q rest → Unfinished total q rest ∧ q.Unread rest) := by
  rcases h with hs | hs | h
  · simp only [parseRound, hs]
    exact ⟨(fun _ _ he => by cases he), fun _ _ he => by cases he⟩
  · simp only [parseRound, hs]
    exact ⟨(fun _ _ he => by cases he), fun _ _ he => by cases he⟩
  cases hs : p.state with
  | kRequestLine =>
    simp only [parseRound, hs, afterState_eq_next, afterState_eq_more]
    unfold parseRequestLine
    cases hl : nextLine p buf with
    | incomplete =>
      refine ⟨?_, ?_⟩
      · rintro q rest (he | he) <;> cases he
      · intro q rest he
        cases he
        exact ⟨h, fun _ => incomplete_length hl, fun hb => absurd (hs.symm.trans hb) (by decide)⟩
    | overlong =>
      refine ⟨?_, fun _ _ he => by cases he⟩
      rintro q rest (he | he) <;> cases he
    | tooLong q rest =>
      refine ⟨?_, fun _ _ he => by cases he⟩
      rintro q rest (he | he) <;> cases he
    | got line q rest =>
      obtain ⟨hcounted, hhead⟩ := unfinished_nextLine h hl
      dsimp only
      split
      · refine ⟨?_, fun _ _ he => by cases he⟩
        rintro q rest (he | he) <;> cases he
      · split
        · refine ⟨?_, fun _ _ he => by cases he⟩
          rintro q rest (he | he) <;> cases he
        · split
          · refine ⟨?_, fun _ _ he => by cases he⟩
            rintro q rest (he | he) <;> cases he
          · refine ⟨?_, fun _ _ he => by cases he⟩
            rintro q' rest' (he | he)
            · cases he
              exact .inr (.inr ⟨hcounted, hhead, fun hb => by cases hb⟩)
            · cases he
  | kHeaders =>
    obtain ⟨hmoved, hmore⟩ := unfinished_parseHeaders hs h
    simp only [parseRound, hs, afterState_eq_next, afterState_eq_more]
    refine ⟨?_, ?_⟩
    · rintro q rest (he | he)
      · exact .inr (.inr (hmoved q rest he).2)
      · exact absurd he (run_not_next headerRound_decreases _ _ _ _)
    · intro q rest he
      obtain ⟨hqs, hq, hlen⟩ := hmore q rest he
      exact ⟨hq, fun _ => hlen, fun hb => absurd (hqs.symm.trans hb) (by decide)⟩
  | kBody =>
    simp only [parseRound, hs, afterState_eq_next, afterState_eq_more]
    unfold parseBody
    split
    · rename_i hlen
      refine ⟨?_, ?_⟩
      · rintro q rest (he | he) <;> cases he
      · intro q rest he
        cases he
        exact ⟨h, fun hb => absurd hs hb, fun _ => ⟨hlen, h.body hs⟩⟩
    · refine ⟨?_, fun _ _ he => by cases he⟩
      rintro q rest (he | he) <;> cases he
  | kGotAll =>
    simp only [parseRound, hs]
    exact ⟨(fun _ _ he => by cases he), fun _ _ he => by cases he⟩
  | kError =>
    simp only [parseRound, hs]
    exact ⟨(fun _ _ he => by cases he), fun _ _ he => by cases he⟩

theorem unfinished_parse (h : Going total p buf) (hmore : parse p buf = .more q rest) :
    Unfinished total q rest ∧ q.Unread rest := by
  obtain ⟨p₁, b₁, h₁, hrun⟩ := run_last parseRound_decreases
    (fun p buf q rest hi hf => (going_parseRound hi).1 q rest hf) p buf h
  exact (going_parseRound h₁).2 q rest (hrun.symm.trans hmore)

end

/-! ## A parser and the buffer of its caller -/

def verdict : Step HttpParser UInt8 → Result
  | .done _ _ => .kComplete
  | .bad _ _ => .kBadRequest
  | .more _ _ => .kNeedMore
  | .moved _ _ => .kNeedMore
  | .next _ _ => .kNeedMore

theorem parseRound_state (p : HttpParser) (buf : Bytes) :
    (∀ q rest, parseRound p buf = .done q rest → q.state = .kGotAll) ∧
      (∀ q rest, parseRound p buf = .bad q rest → q.state = .kError) := by
  have hafter : ∀ o : Step HttpParser UInt8,
      (∀ q rest, afterState o = .done q rest → q.state = .kGotAll) ∧
        (∀ q rest, afterState o = .bad q rest → q.state = .kError) := by
    intro o
    cases o <;> constructor <;> intro q rest he <;> cases he <;> rfl
  unfold parseRound
  cases hs : p.state with
  | kRequestLine => exact hafter _
  | kHeaders => exact hafter _
  | kBody => exact hafter _
  | kGotAll =>
    refine ⟨?_, fun _ _ he => by cases he⟩
    intro q rest he
    cases he
    exact hs
  | kError =>
    refine ⟨(fun _ _ he => by cases he), ?_⟩
    intro q rest he
    cases he
    exact hs

theorem parse_state (p : HttpParser) (buf : Bytes) :
    (∀ q rest, parse p buf = .done q rest → q.state = .kGotAll) ∧
      (∀ q rest, parse p buf = .bad q rest → q.state = .kError) := by
  obtain ⟨p₁, b₁, -, hrun⟩ := run_last parseRound_decreases (I := fun _ _ => True)
    (fun _ _ _ _ _ _ => trivial) p buf trivial
  have hstate := parseRound_state p₁ b₁
  rw [← hrun] at hstate
  exact hstate

theorem parseRound_more_state {p q : HttpParser} {buf rest : Bytes}
    (h : parseRound p buf = .more q rest) : q.state ≠ .kError := by
  unfold parseRound at h
  cases hs : p.state with
  | kRequestLine =>
    simp only [hs, afterState_eq_more] at h
    rcases parseRequestLine_cases p buf with ⟨_, _, hc⟩ | hc | ⟨_, _, hc, -, -⟩ <;> rw [hc] at h <;>
      cases h
    rw [hs]
    decide
  | kHeaders =>
    simp only [hs, afterState_eq_more] at h
    rw [parseHeaders_more_state hs h]
    decide
  | kBody =>
    simp only [hs, afterState_eq_more] at h
    rcases parseBody_cases p buf with hc | ⟨_, hc⟩ <;> rw [hc] at h <;> cases h
    rw [hs]
    decide
  | kGotAll =>
    simp only [hs] at h
    cases h
  | kError =>
    simp only [hs] at h
    cases h

theorem parse_more_state {p q : HttpParser} {buf rest : Bytes} (h : parse p buf = .more q rest) :
    q.state ≠ .kError := by
  obtain ⟨p₁, b₁, -, hrun⟩ := run_last parseRound_decreases (I := fun _ _ => True)
    (fun _ _ _ _ _ _ => trivial) p buf trivial
  exact parseRound_more_state (hrun.symm.trans h)

end HttpParser

/-- A parser with the buffer it reads, the bytes of the current request that
were taken off the buffer, and what the last call returned if it was `parse`. -/
structure ParserUse where
  parser : HttpParser
  buffer : Bytes := []
  consumed : Nat := 0
  returned : Option HttpParser.Result := none

namespace ParserUse

open Text HttpParser Machine

inductive Event where
  | append (chunk : Bytes)
  | parse
  | takeRequest
  | reset

def step (s : ParserUse) : Event → Option ParserUse
  | .append chunk => some { s with buffer := s.buffer ++ chunk, returned := none }
  | .parse =>
    let result := s.parser.parse s.buffer
    some
      { parser := result.state
        buffer := result.rest
        consumed := s.consumed + (s.buffer.length - result.rest.length)
        returned := some (verdict result) }
  | .takeRequest =>
    some { s with parser := s.parser.takeRequest.2, consumed := 0, returned := none }
  | .reset => some { s with parser := s.parser.reset, consumed := 0, returned := none }

def start (maxHeaderBytes maxBodyBytes : Nat) : ParserUse :=
  { parser := fresh maxHeaderBytes maxBodyBytes }

/-- What a client that never completes its request can make the server keep. -/
structure Bounded (maxHeaderBytes maxBodyBytes : Nat) (s : ParserUse) : Prop where
  unread : s.buffer.length ≤ max maxHeaderBytes maxBodyBytes
  head : s.consumed ≤ maxHeaderBytes
  body : s.parser.state = .kBody →
    s.buffer.length < s.parser.contentLength ∧ s.parser.contentLength ≤ maxBodyBytes
  pinned : s.consumed + s.buffer.length ≤ 2 * maxHeaderBytes + maxBodyBytes

structure Inv (maxHeaderBytes maxBodyBytes : Nat) (s : ParserUse) : Prop where
  limits : Limits maxHeaderBytes maxBodyBytes s.parser
  going : Going (s.consumed + s.buffer.length) s.parser s.buffer
  bounded : s.returned = some .kNeedMore → s.Bounded maxHeaderBytes maxBodyBytes

section
variable {maxHeaderBytes maxBodyBytes : Nat} {s s' : ParserUse}

theorem going_reset (p : HttpParser) (buf : Bytes) : Going (0 + buf.length) p.reset buf :=
  .inr (.inr ⟨rfl, Nat.zero_le _, fun hb => by cases hb⟩)

theorem inv_start : (start maxHeaderBytes maxBodyBytes).Inv maxHeaderBytes maxBodyBytes :=
  ⟨⟨rfl, rfl⟩, going_reset (fresh maxHeaderBytes maxBodyBytes) [], fun hr => by cases hr⟩

theorem Inv.append (h : s.Inv maxHeaderBytes maxBodyBytes) (chunk : Bytes) :
    Going (s.consumed + (s.buffer ++ chunk).length) s.parser (s.buffer ++ chunk) := by
  rcases h.going with hs | hs | hu
  · exact .inl hs
  · exact .inr (.inl hs)
  · refine .inr (.inr ⟨?_, hu.head, hu.body⟩)
    have hcounted := hu.counted
    rw [List.length_append]
    omega

/-- `parse` has rejected the input, or has a request, or keeps within the bounds. -/
theorem Inv.parse (h : s.Inv maxHeaderBytes maxBodyBytes) (hs : s.step .parse = some s') :
    s'.Inv maxHeaderBytes maxBodyBytes := by
  cases hs
  have hlimits := limits_parse s.parser s.buffer h.limits
  have hshrinks := parse_shrinks s.parser s.buffer
  have htotal : s.consumed + (s.buffer.length - (s.parser.parse s.buffer).rest.length) +
      (s.parser.parse s.buffer).rest.length = s.consumed + s.buffer.length := by
    omega
  rcases parse_cases s.parser s.buffer with ⟨q, rest, hp⟩ | ⟨q, rest, hp⟩ | ⟨q, rest, hp⟩
  · obtain ⟨hunfinished, hunread⟩ := unfinished_parse h.going hp
    rw [hp] at hlimits htotal hshrinks
    simp only [hp]
    simp only [Step.state, Step.rest] at hlimits htotal hshrinks ⊢
    obtain ⟨hmax, hbody⟩ := hlimits
    refine ⟨⟨hmax, hbody⟩, .inr (.inr (htotal ▸ hunfinished)), fun _ => ?_⟩
    have hcounted := hunfinished.counted
    have hhead := hunfinished.head
    have hfew : rest.length ≤ max maxHeaderBytes maxBodyBytes := by
      by_cases hk : q.state = .kBody
      · obtain ⟨hlt, hle⟩ := hunread.body hk
        omega
      · have hle := hunread.head hk
        omega
    refine ⟨hfew, ?_, ?_, ?_⟩
    · dsimp only
      omega
    · intro hk
      obtain ⟨hlt, hle⟩ := hunread.body hk
      exact ⟨hlt, hbody ▸ hle⟩
    · dsimp only
      omega
  · rw [hp] at hlimits
    simp only [hp]
    exact ⟨hlimits, .inl ((parse_state _ _).1 q rest hp), fun hr => by cases hr⟩
  · rw [hp] at hlimits
    simp only [hp]
    exact ⟨hlimits, .inr (.inl ((parse_state _ _).2 q rest hp)), fun hr => by cases hr⟩

theorem inv_step {e : Event} (h : s.Inv maxHeaderBytes maxBodyBytes) (hs : s.step e = some s') :
    s'.Inv maxHeaderBytes maxBodyBytes := by
  cases e with
  | append chunk =>
    cases hs
    exact ⟨h.limits, h.append chunk, fun hr => by cases hr⟩
  | parse => exact h.parse hs
  | takeRequest =>
    cases hs
    exact ⟨h.limits, going_reset s.parser s.buffer, fun hr => by cases hr⟩
  | reset =>
    cases hs
    exact ⟨h.limits, going_reset s.parser s.buffer, fun hr => by cases hr⟩

/-- **A client that does not complete its request pins no more than twice the
limit of the head and the limit of the body.** -/
theorem needMore_bounded (h : Reached step Any (start maxHeaderBytes maxBodyBytes) s)
    (hmore : s.returned = some .kNeedMore) : s.Bounded maxHeaderBytes maxBodyBytes := by
  have hinv : s.Inv maxHeaderBytes maxBodyBytes :=
    h.invariant inv_start fun _ _ _ hi _ hs => inv_step hi hs
  exact hinv.bounded hmore

end

/-- A body of five bytes, of which two have come. -/
theorem needMore_bounded_body : ∃ s : ParserUse, s.returned = some .kNeedMore ∧ s.parser.state = .kBody ∧
    s.consumed = 38 ∧ s.buffer = bytes "ab" ∧ s.Bounded 40 10 := by
  have hend : (run step (start 40 10) [.append (bytes "POST / HTTP/1.1\r\nContent-"), .parse,
      .append (bytes "Length: 5\r\n\r\nab"), .parse]).map
        (fun s => (s.returned, s.parser.state, s.consumed, s.buffer)) =
      some (some .kNeedMore, .kBody, 38, bytes "ab") := by
    decide +kernel
  obtain ⟨s, hs, heq⟩ := Option.map_eq_some_iff.mp hend
  obtain ⟨hreturned, hrest⟩ := Prod.mk.inj heq
  obtain ⟨hstate, hrest⟩ := Prod.mk.inj hrest
  obtain ⟨hconsumed, hbuffer⟩ := Prod.mk.inj hrest
  exact ⟨s, hreturned, hstate, hconsumed, hbuffer,
    needMore_bounded (Reached.of_run_any hs) hreturned⟩

end ParserUse

end Myself
