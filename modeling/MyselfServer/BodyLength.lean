import MyselfServer.ParserReads

/-!
# The length of a body

Each Content-Length field overwrites the length before it, and only the last
one is looked at when the head ends. Heads whose fields disagree are accepted,
and the body is as long as the last of them says.
-/

namespace Myself

open Text Stream

def SameNumber (vs : List Bytes) : Prop := ∃ n, ∀ v ∈ vs, isDigitString v = true ∧ decimal v = n

namespace HttpParser

open Message

section
variable {maxHeaderBytes maxBodyBytes : Nat}

/-- No doubt about the bodies: in every head that was finished all Content-Length
fields denote the number of bytes of the body, and a head where they do not
denote one number is refused. -/
structure Unambiguous (maxHeaderBytes maxBodyBytes : Nat) (chunks : List Bytes) : Prop where
  finished : ∀ ms rest, Reads maxHeaderBytes maxBodyBytes chunks ms rest → ∀ m ∈ ms,
    ∀ v ∈ contentLengths m.fields, isDigitString v = true ∧ decimal v = m.body.length
  refused : ∀ ms (h : RawHead) rest, chunks.flatten = wires ms ++ (h.text ++ rest) →
    (∀ m ∈ ms, m.Valid maxHeaderBytes maxBodyBytes) → ¬ SameNumber (contentLengths h.fields) →
      (receive maxHeaderBytes maxBodyBytes chunks).2 = .kBadRequest

/-- No head within the limits, where a request starts, has fields that disagree. -/
def LengthsAgree (maxHeaderBytes maxBodyBytes : Nat) (chunks : List Bytes) : Prop :=
  ∀ ms (m : Message) rest, chunks.flatten = wires ms ++ (m.head ++ rest) →
    (∀ m' ∈ ms, m'.Valid maxHeaderBytes maxBodyBytes) → m.ValidHead maxHeaderBytes maxBodyBytes →
      SameNumber (contentLengths m.fields)

theorem contentLengths_fields {h : RawHead} {fields : List (Bytes × Bytes)}
    (hv : ∀ f ∈ fields, ValidField f) (hl : h.lines = fields.map fieldLine) :
    contentLengths h.fields = contentLengths fields := by
  have hf : h.fields = fields.map fun f => (f.1, trim f.2) := by
    rw [RawHead.fields, hl, List.map_map]
    apply List.map_congr_left
    intro f hf
    exact Head.field_append (hv f hf).colon f.2
  rw [hf, contentLengths, contentLengths, List.filter_map, List.map_map]
  apply List.map_congr_left
  intro f _
  exact trim_trim f.2

def rawHead (m : Message) (h : m.ValidHead maxHeaderBytes maxBodyBytes) : RawHead where
  first := m.requestLine
  lines := m.fields.map fieldLine
  firstLine := h.line
  fieldLines := by
    intro l hl
    obtain ⟨f, hf, rfl⟩ := List.mem_map.mp hl
    exact ⟨(h.fields f hf).line, by simp [fieldLine]⟩

theorem rawHead_text (m : Message) (h : m.ValidHead maxHeaderBytes maxBodyBytes) :
    (rawHead m h).text = m.head := by
  rw [RawHead.text, rawHead, joinLines_map_fieldLine]
  rfl

/-- Where the values denote one number, the last of them decides as any other. -/
theorem bodyLength_of_same {fields : List (Bytes × Bytes)} (h : SameNumber (contentLengths fields))
    {v : Bytes} (hv : v ∈ contentLengths fields) :
    isDigitString v = true ∧ decimal v = bodyLength fields := by
  obtain ⟨n, hn⟩ := h
  obtain ⟨w, hw⟩ : ∃ w, (contentLengths fields).getLast? = some w := by
    cases hlast : (contentLengths fields).getLast? with
    | none => rw [List.getLast?_eq_none_iff.mp hlast] at hv; cases hv
    | some w => exact ⟨w, rfl⟩
  have hlast : bodyLength fields = decimal w := by rw [bodyLength, hw]; rfl
  rw [hlast, (hn v hv).2, (hn w (List.mem_of_getLast? hw)).2]
  exact ⟨(hn v hv).1, rfl⟩

theorem Unambiguous.lengthsAgree (hB : maxBodyBytes < ULONG_MAX) {chunks : List Bytes}
    (h : Unambiguous maxHeaderBytes maxBodyBytes chunks) :
    LengthsAgree maxHeaderBytes maxBodyBytes chunks := by
  intro ms m rest hin hms hm
  by_cases hlen : bodyLength m.fields ≤ rest.length
  · -- the message is finished: its fields denote the length of its body
    have hbody : (rest.take (bodyLength m.fields)).length = bodyLength m.fields := by
      rw [List.length_take]
      omega
    have hvalid := hm.valid hbody
    have hin' : chunks.flatten =
        wires (ms ++ [{ m with body := rest.take (bodyLength m.fields) }]) ++
          rest.drop (bodyLength m.fields) := by
      rw [hin, wires_append, List.append_assoc]
      congr 1
      simp [wires, wire, Message.head, Message.requestLine]
    have hall : ∀ m' ∈ ms ++ [{ m with body := rest.take (bodyLength m.fields) }],
        m'.Valid maxHeaderBytes maxBodyBytes := by
      rw [List.forall_mem_append, List.forall_mem_singleton]
      exact ⟨hms, hvalid⟩
    obtain ⟨ms', rest', hreads⟩ := exists_reads hB hin' hall
    exact ⟨_, h.finished _ _ hreads { m with body := rest.take (bodyLength m.fields) } (by simp)⟩
  · -- the parser waits for more of the body
    by_contra hno
    obtain ⟨q, hmore⟩ := parse_validHead_more hB hm (Nat.lt_of_not_le hlen)
    have hneed := receive_more hB hin hms hmore
    have hbad := h.refused ms (rawHead m hm) rest (by rw [rawHead_text, hin]) hms
      (by rwa [contentLengths_fields hm.fields rfl])
    rw [hneed] at hbad
    cases hbad

theorem LengthsAgree.unambiguous (hB : maxBodyBytes < ULONG_MAX) {chunks : List Bytes}
    (h : LengthsAgree maxHeaderBytes maxBodyBytes chunks) :
    Unambiguous maxHeaderBytes maxBodyBytes chunks := by
  constructor
  · intro ms rest hreads m hm v hv
    have hvalid := hreads.valid m hm
    obtain ⟨before, after, rfl⟩ := List.append_of_mem hm
    have hin : chunks.flatten = wires before ++ (m.head ++ (m.body ++ (wires after ++ rest))) := by
      rw [hreads.input, wires_append, List.append_assoc, wires_cons]
    have hsame := h before m _ hin (fun m' hm' => hreads.valid m' (List.mem_append_left _ hm'))
      hvalid.validHead
    rw [hvalid.body]
    exact bodyLength_of_same hsame hv
  · intro ms head rest hin hms hno
    rcases rawHead_cases hB head rest with ⟨q, r, hbad⟩ | ⟨m, hm, hfirst, hlines⟩
    · exact receive_bad hB hin hms hbad
    · have htext : head.text = m.head := by
        rw [RawHead.text, hfirst, hlines, joinLines_map_fieldLine]
        rfl
      rw [contentLengths_fields hm.fields hlines] at hno
      rw [htext] at hin
      exact absurd (h ms m rest hin hms hm) hno

/-- **The length of a body is in no doubt exactly where no head disagrees with
itself.** Every input has a reading, the one `Unambiguous` is about. -/
theorem lengths_unambiguous (hB : maxBodyBytes < ULONG_MAX) (chunks : List Bytes) :
    (∃ ms rest, Reads maxHeaderBytes maxBodyBytes chunks ms rest) ∧
      (Unambiguous maxHeaderBytes maxBodyBytes chunks ↔ LengthsAgree maxHeaderBytes maxBodyBytes chunks) :=
  ⟨exists_reading hB chunks, fun h => h.lengthsAgree hB, fun h => h.unambiguous hB⟩

end

def twoLengths : Bytes :=
  bytes "POST / HTTP/1.1\r\nContent-Length: 5\r\nContent-Length: 3\r\n\r\nhello"

theorem lengths_unambiguous_two :
    (∃ ms rest, Reads 8192 (2 ^ 20) [twoLengths] ms rest) ∧
      (Unambiguous 8192 (2 ^ 20) [twoLengths] ↔ LengthsAgree 8192 (2 ^ 20) [twoLengths]) :=
  lengths_unambiguous (by decide) [twoLengths]

/-- The body is cut after three bytes; the other two are left to be read as the
next request. -/
theorem last_length_wins :
    ((receive 8192 (2 ^ 20) [twoLengths]).1.map fun r => r.body) = [bytes "hel"] ∧
      (receive 8192 (2 ^ 20) [twoLengths]).2 = .kNeedMore ∧
      ¬ Unambiguous 8192 (2 ^ 20) [twoLengths] := by
  have hfields : ∀ f ∈ [(bytes "Content-Length", bytes " 5"), (bytes "Content-Length", bytes " 3")],
      ValidField f := by
    rw [List.forall_mem_cons, List.forall_mem_singleton]
    exact ⟨⟨by decide, by decide, by decide⟩, ⟨by decide, by decide, by decide⟩⟩
  let m : Message := ⟨.kPost, bytes "/", bytes "HTTP/1.1",
    [(bytes "Content-Length", bytes " 5"), (bytes "Content-Length", bytes " 3")], bytes "hel"⟩
  have hm : m.Valid 8192 (2 ^ 20) :=
    { method := by decide
      line := by decide
      target := by decide
      version := by decide
      fields := hfields
      digits := by decide
      headLimit := by decide
      bodyLimit := by decide
      body := by decide }
  have hin : [twoLengths].flatten = wires [m] ++ bytes "lo" := by decide
  refine ⟨by decide +kernel, by decide +kernel, fun h => ?_⟩
  obtain ⟨ms, rest, hreads⟩ := exists_reads (by decide) hin (List.forall_mem_singleton.mpr hm)
  have hlen := h.finished _ _ hreads _ (List.mem_cons_self ..) (bytes "5") (by decide)
  exact absurd hlen.2 (by decide)

end HttpParser

end Myself
