import MyselfServer.HttpParser

/-!
# The parser does not see how its input was cut

Each function of the parser does on a longer buffer what it did on the
shorter one. The two header limits fit together: a line found too long
before its CRLF arrived is too long when it is complete.
-/

namespace Myself

open Text Stream

namespace HttpParser

/-! ## Lines -/

/-- What a taken line is: the bytes up to the first CRLF, counted. -/
theorem nextLine_got {p p' : HttpParser} {buf line rest : Bytes}
    (h : nextLine p buf = .got line p' rest) :
    buf = line ++ (CRLF ++ rest) ∧ search CRLF line = none ∧
      p' = { p with parsedHeaderBytes := p.parsedHeaderBytes + (line.length + 2) } ∧
      p'.parsedHeaderBytes ≤ p'.maxHeaderBytes := by
  unfold nextLine at h
  split at h
  · split at h <;> cases h
  · rename_i crlf hk
    dsimp only at h
    split at h
    · cases h
    · rename_i hlim
      cases h
      obtain ⟨b, hb, hd⟩ := search_split hk
      refine ⟨?_, search_take (by simp [CRLF]) hk, rfl, by simpa using hlim⟩
      rw [show buf.drop (crlf + 2) = b from hd.symm, ← hb]

theorem nextLine_length {p p' : HttpParser} {buf line rest : Bytes}
    (h : nextLine p buf = .got line p' rest) : rest.length + 2 ≤ buf.length := by
  have := congrArg List.length (nextLine_got h).1
  simp only [List.length_append, CRLF, List.length_cons, List.length_nil] at this
  omega

theorem nextLine_of_some {p : HttpParser} {buf c : Bytes} {k : Nat} (h : findCRLF buf = some k) :
    nextLine p (buf ++ c) =
      let line := buf.take k
      let rest := buf.drop (k + 2)
      let p := { p with parsedHeaderBytes := p.parsedHeaderBytes + (line.length + 2) }
      if p.parsedHeaderBytes > p.maxHeaderBytes then .tooLong p (rest ++ c)
      else .got line p (rest ++ c) := by
  have hlen : k + 2 ≤ buf.length := search_length h
  have happ : findCRLF (buf ++ c) = some k := search_append c h
  simp only [nextLine, happ]
  rw [List.take_append_of_le_length (by omega), List.drop_append_of_le_length hlen]

theorem nextLine_append_got {p p' : HttpParser} {buf line rest : Bytes} (c : Bytes)
    (h : nextLine p buf = .got line p' rest) :
    nextLine p (buf ++ c) = .got line p' (rest ++ c) := by
  cases hk : findCRLF buf with
  | none => simp only [nextLine, hk] at h; split at h <;> cases h
  | some k =>
    rw [nextLine_of_some hk]
    simp only [nextLine, hk] at h ⊢
    split at h
    · cases h
    · rename_i hlim
      cases h
      rw [if_neg hlim]

/-- A line that is too long stays so, whether or not its CRLF has come. -/
theorem nextLine_append_bad {p : HttpParser} {buf : Bytes} (c : Bytes)
    (h : nextLine p buf = .overlong ∨ ∃ p' rest, nextLine p buf = .tooLong p' rest) :
    nextLine p (buf ++ c) = .overlong ∨ ∃ p' rest, nextLine p (buf ++ c) = .tooLong p' rest := by
  cases hk : findCRLF buf with
  | some k =>
    rw [nextLine_of_some hk]
    simp only [nextLine, hk] at h ⊢
    split at h
    · rename_i hlim
      exact Or.inr ⟨_, _, if_pos hlim⟩
    · rcases h with h | ⟨_, _, h⟩ <;> cases h
  | none =>
    have hlong : buf.length > p.maxHeaderBytes := by
      simp only [nextLine, hk] at h
      split at h
      · assumption
      · rcases h with h | ⟨_, _, h⟩ <;> cases h
    cases hk' : findCRLF (buf ++ c) with
    | none =>
      left
      simp only [nextLine, hk']
      rw [if_pos (by simp only [List.length_append]; omega)]
    | some k' =>
      right
      -- the CRLF that came ends behind the bytes that were already too many
      have hend : buf.length < k' + 2 := search_append_of_none hk hk'
      have hlen : k' + 2 ≤ (buf ++ c).length := search_length hk'
      have hlim : p.parsedHeaderBytes + (((buf ++ c).take k').length + 2) > p.maxHeaderBytes := by
        simp only [List.length_take]
        omega
      simp only [nextLine, hk', if_pos hlim]
      exact ⟨_, _, rfl⟩

/-! ## The functions of the parser -/

theorem endOfHead_append (p : HttpParser) (rest c : Bytes) :
    p.endOfHead (rest ++ c) = (p.endOfHead rest).append c := by
  unfold endOfHead
  split
  · rfl
  · split <;> rfl

theorem onLine_append (p : HttpParser) (line rest c : Bytes) :
    p.onLine line (rest ++ c) = (p.onLine line rest).append c := by
  unfold onLine
  split
  · exact endOfHead_append p rest c
  · split <;> rfl

theorem onLine_rest (p : HttpParser) (line rest : Bytes) :
    (∀ p' r, p.onLine line rest ≠ .more p' r) ∧ (p.onLine line rest).rest = rest := by
  unfold onLine endOfHead
  split
  · split
    · exact ⟨(fun _ _ h => nomatch h), rfl⟩
    · split <;> exact ⟨(fun _ _ h => nomatch h), rfl⟩
  · split <;> exact ⟨(fun _ _ h => nomatch h), rfl⟩

theorem headerLine_state (p : HttpParser) (line : Bytes) :
    (p.headerLine line).2.state = p.state := by
  unfold headerLine
  split
  · rfl
  · dsimp only
    split
    · rfl
    · unfold applyField
      dsimp only
      split
      · split <;> rfl
      · split
        · split
          · rfl
          · split <;> rfl
        · rfl

theorem headerRound_got {p p' : HttpParser} {buf line rest : Bytes}
    (h : nextLine p buf = .got line p' rest) : headerRound p buf = p'.onLine line rest := by
  simp only [headerRound, h]

theorem headerRound_long {p : HttpParser} {buf : Bytes}
    (h : nextLine p buf = .overlong ∨ ∃ p' rest, nextLine p buf = .tooLong p' rest) :
    ∃ p' rest, headerRound p buf = .bad p' rest := by
  rcases h with h | ⟨p', rest, h⟩
  · exact ⟨p, buf, by simp only [headerRound, h]⟩
  · exact ⟨p', rest, by simp only [headerRound, h]⟩

theorem headerRound_shrinks (p : HttpParser) (buf : Bytes) :
    (headerRound p buf).rest.length ≤ buf.length := by
  cases hl : nextLine p buf with
  | incomplete => simp only [headerRound, hl, Step.rest]; exact Nat.le_refl _
  | overlong => simp only [headerRound, hl, Step.rest]; exact Nat.le_refl _
  | tooLong p' rest =>
    simp only [headerRound, hl, Step.rest]
    unfold nextLine at hl
    split at hl
    · split at hl <;> cases hl
    · dsimp only at hl
      split at hl
      · cases hl; simp
      · cases hl
  | got line p' rest =>
    rw [headerRound_got hl, (onLine_rest p' line rest).2]
    have := nextLine_length hl
    omega

theorem headerRound_decreases : Decreases headerRound fun _ buf => buf.length := by
  intro p buf p' r h
  cases hl : nextLine p buf with
  | incomplete => simp only [headerRound, hl] at h; cases h
  | overlong => simp only [headerRound, hl] at h; cases h
  | tooLong _ _ => simp only [headerRound, hl] at h; cases h
  | got line p₁ rest =>
    have hr := (onLine_rest p₁ line rest).2
    have := nextLine_length hl
    rw [headerRound_got hl] at h
    rw [h] at hr
    simp only [Step.rest] at hr
    simp only [hr]
    omega

theorem headerRound_resumable : Resumable (fun _ => ()) headerRound := by
  refine .of_resumes fun p buf c => ?_
  cases hl : nextLine p buf with
  | incomplete => exact .more p buf (by simp only [headerRound, hl]) rfl
  | overlong =>
    obtain ⟨q, s, hq⟩ := headerRound_long (Or.inl hl)
    obtain ⟨q', s', hq'⟩ := headerRound_long (nextLine_append_bad c (Or.inl hl))
    exact .bad q q' s s' hq hq' rfl
  | tooLong p' rest =>
    obtain ⟨q, s, hq⟩ := headerRound_long (Or.inr ⟨p', rest, hl⟩)
    obtain ⟨q', s', hq'⟩ := headerRound_long (nextLine_append_bad c (Or.inr ⟨p', rest, hl⟩))
    exact .bad q q' s s' hq hq' rfl
  | got line p' rest =>
    refine .same ?_ ?_
    · rw [headerRound_got hl]; exact (onLine_rest p' line rest).1
    · rw [headerRound_got hl, headerRound_got (nextLine_append_got c hl), onLine_append]

theorem parseHeaders_resumable : Resumable (fun _ => ()) parseHeaders :=
  run_resumable headerRound_decreases headerRound_resumable

theorem parseHeaders_shrinks (p : HttpParser) (buf : Bytes) :
    (parseHeaders p buf).rest.length ≤ buf.length :=
  run_shrinks headerRound_decreases headerRound_shrinks p buf

theorem parseHeaders_more_state {p p' : HttpParser} {buf r : Bytes} (hs : p.state = .kHeaders)
    (h : parseHeaders p buf = .more p' r) : p'.state = .kHeaders := by
  refine run_more_inv headerRound_decreases (I := fun p => p.state = .kHeaders) ?_ ?_ hs h
  · intro p buf p' r hs h
    cases hl : nextLine p buf with
    | incomplete => simp only [headerRound, hl] at h; cases h
    | overlong => simp only [headerRound, hl] at h; cases h
    | tooLong _ _ => simp only [headerRound, hl] at h; cases h
    | got line p₁ rest =>
      obtain ⟨-, -, hp₁, -⟩ := nextLine_got hl
      rw [headerRound_got hl] at h
      simp only [onLine] at h
      split at h
      · unfold endOfHead at h
        split at h
        · cases h
        · split at h <;> cases h
      · split at h
        · cases h
        · rename_i hh
          cases h
          have hst := headerLine_state p₁ line
          rw [hh, hp₁] at hst
          exact hst.trans hs
  · intro p buf p' r hs h
    cases hl : nextLine p buf with
    | incomplete => simp only [headerRound, hl] at h; cases h; exact hs
    | overlong => simp only [headerRound, hl] at h; cases h
    | tooLong _ _ => simp only [headerRound, hl] at h; cases h
    | got line p₁ rest =>
      rw [headerRound_got hl] at h
      exact absurd h ((onLine_rest p₁ line rest).1 p' r)

theorem parseRequestLine_shrinks (p : HttpParser) (buf : Bytes) :
    (p.parseRequestLine buf).rest.length ≤ buf.length := by
  unfold parseRequestLine
  cases hl : nextLine p buf with
  | incomplete => exact Nat.le_refl _
  | overlong => exact Nat.le_refl _
  | tooLong p' rest =>
    have := headerRound_shrinks p buf
    simpa only [headerRound, hl] using this
  | got line p' rest =>
    have hlen : rest.length ≤ buf.length := by have := nextLine_length hl; omega
    dsimp only
    split
    · exact hlen
    · split
      · exact hlen
      · split <;> exact hlen

/-- What `parseRequestLine` can return: it rejects, it waits with nothing
changed, or it moves on to the headers. -/
theorem parseRequestLine_cases (p : HttpParser) (buf : Bytes) :
    (∃ q s, p.parseRequestLine buf = .bad q s) ∨ p.parseRequestLine buf = .more p buf ∨
      ∃ q s, p.parseRequestLine buf = .moved q s ∧ s.length < buf.length ∧ q.state = .kHeaders := by
  unfold parseRequestLine
  cases hl : nextLine p buf with
  | incomplete => exact Or.inr (Or.inl rfl)
  | overlong => exact Or.inl ⟨p, buf, rfl⟩
  | tooLong q s => exact Or.inl ⟨q, s, rfl⟩
  | got line q s =>
    have hlen := nextLine_length hl
    dsimp only
    split
    · exact Or.inl ⟨q, s, rfl⟩
    · split
      · exact Or.inl ⟨q, s, rfl⟩
      · split
        · exact Or.inl ⟨q, s, rfl⟩
        · exact Or.inr (Or.inr ⟨_, s, rfl, by omega, rfl⟩)

theorem parseRequestLine_resumes (p : HttpParser) (buf c : Bytes) :
    Resumes (fun _ => ()) parseRequestLine p buf c := by
  cases hl : nextLine p buf with
  | incomplete => exact .more p buf (by simp only [parseRequestLine, hl]) rfl
  | overlong =>
    rcases nextLine_append_bad c (Or.inl hl) with h | ⟨q, s, h⟩
    · exact .bad p p buf (buf ++ c) (by simp only [parseRequestLine, hl])
        (by simp only [parseRequestLine, h]) rfl
    · exact .bad p q buf s (by simp only [parseRequestLine, hl])
        (by simp only [parseRequestLine, h]) rfl
  | tooLong p' rest =>
    rcases nextLine_append_bad c (Or.inr ⟨p', rest, hl⟩) with h | ⟨q, s, h⟩
    · exact .bad p' p rest (buf ++ c) (by simp only [parseRequestLine, hl])
        (by simp only [parseRequestLine, h]) rfl
    · exact .bad p' q rest s (by simp only [parseRequestLine, hl])
        (by simp only [parseRequestLine, h]) rfl
  | got line p' rest =>
    refine .same ?_ ?_
    · intro q s h
      simp only [parseRequestLine, hl] at h
      split at h
      · cases h
      · split at h
        · cases h
        · split at h <;> cases h
    · simp only [parseRequestLine, hl, nextLine_append_got c hl]
      split
      · rfl
      · split
        · rfl
        · split <;> rfl

theorem parseBody_resumes (p : HttpParser) (buf c : Bytes) :
    Resumes (fun _ => ()) parseBody p buf c := by
  by_cases hlen : buf.length < p.contentLength
  · exact .more p buf (by simp only [parseBody, if_pos hlen]) rfl
  · have hle : p.contentLength ≤ buf.length := Nat.le_of_not_lt hlen
    have hlen' : ¬ (buf ++ c).length < p.contentLength := by
      simp only [List.length_append]
      omega
    refine .same ?_ ?_
    · intro q s h
      simp only [parseBody, if_neg hlen] at h
      cases h
    · simp only [parseBody, if_neg hlen, if_neg hlen', Step.append]
      rw [List.take_append_of_le_length hle, List.drop_append_of_le_length hle]

theorem parseBody_cases (p : HttpParser) (buf : Bytes) :
    p.parseBody buf = .more p buf ∨
      ∃ q, p.parseBody buf = .done q (buf.drop p.contentLength) := by
  unfold parseBody
  split
  · exact Or.inl rfl
  · exact Or.inr ⟨_, rfl⟩

theorem parseHeaders_moved_state {p p' : HttpParser} {buf r : Bytes}
    (h : parseHeaders p buf = .moved p' r) : p'.state = .kBody := by
  unfold parseHeaders at h
  induction p, buf using run_induction headerRound_decreases with | h p buf ih =>
  rw [run_eq headerRound_decreases] at h
  cases hf : headerRound p buf with
  | next q s => rw [hf] at h; exact ih q s hf h
  | more _ _ => rw [hf] at h; cases h
  | done _ _ => rw [hf] at h; cases h
  | bad _ _ => rw [hf] at h; cases h
  | moved q s =>
    rw [hf] at h
    cases h
    cases hl : nextLine p buf with
    | incomplete => simp only [headerRound, hl] at hf; cases hf
    | overlong => simp only [headerRound, hl] at hf; cases hf
    | tooLong _ _ => simp only [headerRound, hl] at hf; cases hf
    | got line q rest =>
      rw [headerRound_got hl] at hf
      simp only [onLine] at hf
      split at hf
      · unfold endOfHead at hf
        split at hf
        · cases hf
        · split at hf <;> cases hf
          rfl
      · split at hf <;> cases hf

/-! ## The loop over the states -/

theorem afterState_append (o : Step HttpParser UInt8) (c : Bytes) :
    afterState (o.append c) = (afterState o).append c := by
  cases o <;> rfl

theorem afterState_rest (o : Step HttpParser UInt8) : (afterState o).rest = o.rest := by
  cases o <;> rfl

theorem afterState_eq_next {o : Step HttpParser UInt8} {p : HttpParser} {r : Bytes} :
    afterState o = .next p r ↔ o = .moved p r ∨ o = .next p r := by
  cases o <;> simp [afterState]

theorem afterState_eq_more {o : Step HttpParser UInt8} {p : HttpParser} {r : Bytes} :
    afterState o = .more p r ↔ o = .more p r := by
  cases o <;> simp [afterState]

theorem afterState_ne_moved {o : Step HttpParser UInt8} {p : HttpParser} {r : Bytes} :
    afterState o ≠ .moved p r := by
  cases o <;> simp [afterState]

theorem parseRound_decreases : Decreases parseRound fun p _ => rank p.state := by
  intro p buf p' r h
  unfold parseRound at h
  cases hs : p.state with
  | kRequestLine =>
    simp only [hs, afterState_eq_next] at h
    rcases parseRequestLine_cases p buf with ⟨_, _, hc⟩ | hc | ⟨q, s, hc, -, hq⟩ <;> rw [hc] at h
    · rcases h with h | h <;> cases h
    · rcases h with h | h <;> cases h
    · rcases h with h | h <;> cases h
      simp only [hs, hq, rank]
      omega
  | kHeaders =>
    simp only [hs, afterState_eq_next] at h
    rcases h with h | h
    · simp only [hs, parseHeaders_moved_state h, rank]
      omega
    · exact absurd h (run_not_next headerRound_decreases _ _ _ _)
  | kBody =>
    simp only [hs, afterState_eq_next] at h
    rcases parseBody_cases p buf with hc | ⟨_, hc⟩ <;> rw [hc] at h <;>
      rcases h with h | h <;> cases h
  | kGotAll => simp only [hs] at h; cases h
  | kError => simp only [hs] at h; cases h

/-- When the function for one state can be resumed and waits in that state,
the round of the loop can be resumed. -/
theorem afterState_resumes {g : HttpParser → Bytes → Step HttpParser UInt8} {st : State}
    (hst : ∀ p buf, p.state = st → parseRound p buf = afterState (g p buf))
    {p : HttpParser} (hp : p.state = st) {buf c : Bytes} (hg : Resumes (fun _ => ()) g p buf c)
    (hmore : ∀ q s, g p buf = .more q s → q.state = st) :
    Resumes (fun _ => ()) parseRound p buf c := by
  rcases hg with ⟨hm, h⟩ | ⟨q, q', s, s', hf, h, -⟩ | ⟨q, s, hf, h⟩
  · refine .same ?_ ?_
    · intro q s hq
      rw [hst p buf hp, afterState_eq_more] at hq
      exact hm q s hq
    · rw [hst p _ hp, hst p _ hp, h, afterState_append]
  · exact .bad _ _ s s' (by rw [hst p _ hp, hf]; rfl) (by rw [hst p _ hp, h]; rfl) rfl
  · exact .more q s (by rw [hst p _ hp, hf]; rfl)
      (by rw [hst p _ hp, hst q _ (hmore q s hf), h])

theorem parseRound_resumable : Resumable (fun _ => ()) parseRound := by
  refine .of_resumes fun p buf c => ?_
  cases hs : p.state with
  | kRequestLine =>
    refine afterState_resumes (fun p buf h => by simp only [parseRound, h]) hs
      (parseRequestLine_resumes p buf c) fun q s h => ?_
    rcases parseRequestLine_cases p buf with ⟨_, _, hc⟩ | hc | ⟨_, _, hc, -, -⟩ <;>
      rw [hc] at h <;> cases h
    exact hs
  | kHeaders =>
    exact afterState_resumes (fun p buf h => by simp only [parseRound, h]) hs
      (parseHeaders_resumable.resumes p buf c) fun q s h => parseHeaders_more_state hs h
  | kBody =>
    refine afterState_resumes (fun p buf h => by simp only [parseRound, h]) hs
      (parseBody_resumes p buf c) fun q s h => ?_
    rcases parseBody_cases p buf with hc | ⟨_, hc⟩ <;> rw [hc] at h <;> cases h
    exact hs
  | kGotAll =>
    refine .same ?_ ?_
    · intro q s h; simp only [parseRound, hs] at h; cases h
    · simp only [parseRound, hs, Step.append]
  | kError =>
    exact .bad p p buf (buf ++ c) (by simp only [parseRound, hs]) (by simp only [parseRound, hs]) rfl

/-- **More bytes behind what the parser has seen change nothing of what it did.** -/
theorem parse_resumable : Resumable (fun _ => ()) parse :=
  run_resumable parseRound_decreases parseRound_resumable

theorem parseRound_shrinks (p : HttpParser) (buf : Bytes) :
    (parseRound p buf).rest.length ≤ buf.length := by
  unfold parseRound
  cases p.state with
  | kRequestLine => simp only [afterState_rest]; exact parseRequestLine_shrinks p buf
  | kHeaders => simp only [afterState_rest]; exact parseHeaders_shrinks p buf
  | kBody =>
    simp only [afterState_rest]
    rcases parseBody_cases p buf with hc | ⟨_, hc⟩ <;> rw [hc] <;> simp [Step.rest]
  | kGotAll => exact Nat.le_refl _
  | kError => exact Nat.le_refl _

theorem parse_shrinks (p : HttpParser) (buf : Bytes) : (parse p buf).rest.length ≤ buf.length :=
  run_shrinks parseRound_decreases parseRound_shrinks p buf

theorem parse_done_length {p p' : HttpParser} {buf r : Bytes} (hs : p.state = .kRequestLine)
    (h : parse p buf = .done p' r) : r.length < buf.length := by
  have hround : parseRound p buf = afterState (p.parseRequestLine buf) := by
    simp only [parseRound, hs]
  unfold parse at h
  rcases parseRequestLine_cases p buf with ⟨q, s, hc⟩ | hc | ⟨q, s, hc, hlen, -⟩
  · rw [run_bad parseRound_decreases (by rw [hround, hc]; rfl)] at h; cases h
  · rw [run_more parseRound_decreases (by rw [hround, hc]; rfl)] at h; cases h
  · rw [run_next parseRound_decreases (by rw [hround, hc]; rfl)] at h
    have := parse_shrinks q s
    rw [parse, h] at this
    exact Nat.lt_of_le_of_lt this hlen

/-! ## Taking the requests -/

theorem parse_not_moved (p : HttpParser) (buf : Bytes) (q : HttpParser) (r : Bytes) :
    parse p buf ≠ .moved q r := by
  unfold parse
  induction p, buf using run_induction parseRound_decreases with | h p buf ih =>
  intro h
  rw [run_eq parseRound_decreases] at h
  cases hf : parseRound p buf with
  | next p₁ r₁ => rw [hf] at h; exact ih p₁ r₁ hf h
  | more _ _ => rw [hf] at h; cases h
  | done _ _ => rw [hf] at h; cases h
  | bad _ _ => rw [hf] at h; cases h
  | moved p₁ r₁ =>
    unfold parseRound at hf
    cases hs : p.state <;> simp only [hs] at hf
    · exact afterState_ne_moved hf
    · exact afterState_ne_moved hf
    · exact afterState_ne_moved hf
    · cases hf
    · cases hf

theorem parse_cases (p : HttpParser) (buf : Bytes) :
    (∃ q r, parse p buf = .more q r) ∨ (∃ q r, parse p buf = .done q r) ∨
      ∃ q r, parse p buf = .bad q r := by
  cases h : parse p buf with
  | next q r => exact absurd h (run_not_next parseRound_decreases _ _ _ _)
  | moved q r => exact absurd h (parse_not_moved _ _ _ _)
  | more q r => exact Or.inl ⟨q, r, rfl⟩
  | done q r => exact Or.inr (Or.inl ⟨q, r, rfl⟩)
  | bad q r => exact Or.inr (Or.inr ⟨q, r, rfl⟩)

theorem parse_done_unread {p q : HttpParser} {buf r : Bytes} (h : parse p buf = .done q r) :
    2 * r.length < 2 * buf.length + if p.state = .kRequestLine then 0 else 1 := by
  have hle := parse_shrinks p buf
  rw [h, Step.rest] at hle
  by_cases hs : p.state = .kRequestLine
  · have := parse_done_length hs h
    rw [if_pos hs]
    omega
  · rw [if_neg hs]
    omega

theorem drainRound_decreases :
    Decreases drainRound fun x buf => 2 * buf.length + if x.1.state = .kRequestLine then 0 else 1 := by
  intro x buf x' r h
  unfold drainRound at h
  rcases parse_cases x.1 buf with ⟨q, s, hp⟩ | ⟨q, s, hp⟩ | ⟨q, s, hp⟩ <;> rw [hp] at h <;> cases h
  simp only [takeRequest, reset, if_true]
  exact parse_done_unread hp

theorem drainRound_resumable : Resumable Prod.snd drainRound := by
  refine .of_resumes fun x buf c => ?_
  rcases parse_cases x.1 buf with ⟨q, s, hp⟩ | ⟨q, s, hp⟩ | ⟨q, s, hp⟩
  · refine .more (q, x.2) s (by simp only [drainRound, hp]) ?_
    simp only [drainRound, parse_resumable.more c hp]
  · refine .same ?_ ?_
    · intro y r h; simp only [drainRound, hp] at h; cases h
    · simp only [drainRound, hp, parse_resumable.done c hp, Step.append]
  · obtain ⟨q', s', hp', -⟩ := parse_resumable.bad c hp
    exact .bad (q, x.2) (q', x.2) s s' (by simp only [drainRound, hp])
      (by simp only [drainRound, hp']) rfl

theorem drain_resumable : Resumable Prod.snd drain :=
  run_resumable drainRound_decreases drainRound_resumable

theorem drain_waits : Waits drain := by
  intro x buf
  unfold drain
  induction x, buf using run_induction drainRound_decreases with | h x buf ih =>
  rw [run_eq drainRound_decreases]
  rcases parse_cases x.1 buf with ⟨q, s, hp⟩ | ⟨q, s, hp⟩ | ⟨q, s, hp⟩
  · simp only [drainRound, hp]
    exact Or.inl ⟨_, _, rfl⟩
  · have hf : drainRound x buf = .next (q.takeRequest.2, x.2 ++ [q.takeRequest.1]) s := by
      simp only [drainRound, hp]
    rw [hf]
    exact ih _ _ hf
  · simp only [drainRound, hp]
    exact Or.inr ⟨_, _, rfl⟩

theorem drain_fresh_nil (maxHeaderBytes maxBodyBytes : Nat) :
    drain (fresh maxHeaderBytes maxBodyBytes, []) [] =
      .more (fresh maxHeaderBytes maxBodyBytes, []) [] := by
  have hp : parse (fresh maxHeaderBytes maxBodyBytes) [] = .more (fresh maxHeaderBytes maxBodyBytes) [] :=
    run_more parseRound_decreases rfl
  exact run_more drainRound_decreases (by simp only [drainRound, hp])

/-- **Chunking invariance.** The requests a caller takes and the verdict it
ends with do not depend on how the bytes were cut into chunks. -/
theorem receive_eq_receive_flatten (maxHeaderBytes maxBodyBytes : Nat) (chunks : List Bytes) :
    receive maxHeaderBytes maxBodyBytes chunks =
      receive maxHeaderBytes maxBodyBytes [chunks.flatten] := by
  cases chunks with
  | nil =>
    simp only [receive, List.foldl_nil, List.flatten_nil, List.foldl_cons, feed, List.append_nil,
      drain_fresh_nil]
  | cons c cs =>
    simp only [receive]
    rw [feedAll_eq drain_resumable drain_waits]
    rfl

end HttpParser

end Myself
