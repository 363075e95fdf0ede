import MyselfServer.ParserReads

/-!
# Control bytes in requests

Lines end at the two bytes of CRLF only, and nothing else looks at the bytes of
a target, a name or a value: a lone CR or LF, or a NUL, is stored with them.
Only a value that a later field of the same name overwrites is gone.
-/

namespace Myself

open Text Stream

def isControl (c : UInt8) : Bool := c == 13 || c == 10 || c == 0

def NoControl (s : Bytes) : Prop := ∀ c ∈ s, isControl c = false

instance (s : Bytes) : Decidable (NoControl s) :=
  List.decidableBAll (fun c => isControl c = false) s

theorem noControl_append {s t : Bytes} : NoControl (s ++ t) ↔ NoControl s ∧ NoControl t := List.forall_mem_append

theorem isControl_lt {c : UInt8} (h : isControl c = true) : c < 65 := by
  simp only [isControl, Bool.or_eq_true, beq_iff_eq] at h
  rcases h with (rfl | rfl) | rfl <;> decide

theorem noControl_toLower {s : Bytes} : NoControl (toLower s) ↔ NoControl s := by
  have hmem : ∀ c, isControl c = true → (c ∈ toLower s ↔ c ∈ s) := fun c hc => mem_toLower (isControl_lt hc)
  constructor
  · intro h c hc
    by_contra hcontrol
    rw [Bool.not_eq_false] at hcontrol
    rw [h c ((hmem c hcontrol).mpr hc)] at hcontrol
    cases hcontrol
  · intro h c hc
    by_contra hcontrol
    rw [Bool.not_eq_false] at hcontrol
    rw [h c ((hmem c hcontrol).mp hc)] at hcontrol
    cases hcontrol

structure HttpRequest.Clean (r : HttpRequest) : Prop where
  path : NoControl r.path
  query : NoControl r.query
  headers : ∀ key value, r.headers[key]? = some value → NoControl key ∧ NoControl value

namespace Message

/-- What is kept of a message has no control byte: its target, the names of its
fields, and of each name the value of the last field. -/
structure Clean (m : Message) : Prop where
  target : NoControl m.target
  names : ∀ f ∈ m.fields, NoControl (trim f.1)
  values : ∀ f ∈ m.fields, NoControl (lookup m.fields (trim f.1))

theorem noControl_target (m : Message) :
    NoControl m.target ↔ NoControl m.targetPath ∧ NoControl m.targetQuery := by
  have hquery : NoControl (m.target.dropWhile (· ≠ QUESTION)) ↔ NoControl m.targetQuery := by
    unfold targetQuery
    cases hd : m.target.dropWhile (· ≠ QUESTION) with
    | nil => rfl
    | cons c rest =>
      have hc : c = QUESTION := by
        have hhead := List.head?_dropWhile_not (fun c => decide (c ≠ QUESTION)) m.target
        rw [hd] at hhead
        simpa using hhead
      subst hc
      exact List.forall_mem_cons.trans (and_iff_right (by decide))
  rw [← hquery, targetPath, ← noControl_append, List.takeWhile_append_dropWhile]

end Message

namespace HttpParser

open Message

theorem lookup_congr {fields : List (Bytes × Bytes)} {key key' : Bytes} (h : toLower key = toLower key') :
    lookup fields key = lookup fields key' := by
  rw [lookup, lookup, h]

theorem Stores.clean_iff {m : Message} {r : HttpRequest} (h : Stores m r) (ha : r.StoredHeaders) :
    r.Clean ↔ m.Clean := by
  have hslash : NoControl (bytes "/") := by decide
  have hpath : NoControl r.path ↔ NoControl m.targetPath := by
    rw [h.path]
    split
    · rename_i hnil
      rw [hnil]
      exact iff_of_true hslash (by decide)
    · rfl
  have hquery : NoControl r.query ↔ NoControl m.targetQuery := by rw [h.query]
  have htarget : NoControl m.target ↔ NoControl r.path ∧ NoControl r.query := by
    rw [m.noControl_target, hpath, hquery]
  constructor
  · intro hr
    have hstored : ∀ f ∈ m.fields, NoControl (trim f.1) ∧ NoControl (lookup m.fields (trim f.1)) := by
      intro f hf
      have hhas : r.hasHeader (trim f.1) = true := by
        rw [h.hasHeader, List.any_eq_true]
        exact ⟨f, hf, by simp⟩
      obtain ⟨value, hvalue⟩ := Option.isSome_iff_exists.mp
        ((Std.TreeMap.isSome_getElem?_eq_contains ..).trans hhas)
      have hget : lookup m.fields (trim f.1) = value := by
        rw [← h.header, HttpRequest.getHeader, hvalue]
        rfl
      obtain ⟨hname, hval⟩ := hr.headers _ _ hvalue
      exact ⟨noControl_toLower.mp hname, hget ▸ hval⟩
    exact ⟨htarget.mpr ⟨hr.path, hr.query⟩, fun f hf => (hstored f hf).1, fun f hf => (hstored f hf).2⟩
  · intro hm
    obtain ⟨hp, hq⟩ := htarget.mp hm.target
    refine ⟨hp, hq, fun key value hget => ?_⟩
    have hlow : toLower key = key := (ha key value hget).lowered
    have hhas : r.hasHeader key = true := by
      rw [HttpRequest.hasHeader, hlow, ← Std.TreeMap.isSome_getElem?_eq_contains, hget]
      rfl
    rw [h.hasHeader, List.any_eq_true] at hhas
    obtain ⟨f, hf, hname⟩ := hhas
    have hname' : toLower (trim f.1) = toLower key := of_decide_eq_true hname
    have hvalue : lookup m.fields (trim f.1) = value := by
      rw [lookup_congr hname', ← h.header, HttpRequest.getHeader, hlow, hget]
      rfl
    refine ⟨?_, hvalue ▸ hm.values f hf⟩
    rw [← hlow, ← hname', noControl_toLower]
    exact hm.names f hf

/-- **Control bytes survive exactly where the input has them.** -/
theorem control_bytes_survive {maxHeaderBytes maxBodyBytes : Nat} (hB : maxBodyBytes < ULONG_MAX)
    (chunks : List Bytes) :
    (∀ r ∈ (receive maxHeaderBytes maxBodyBytes chunks).1, r.Clean) ↔
      ∀ ms rest, chunks.flatten = wires ms ++ rest →
        (∀ m ∈ ms, m.Valid maxHeaderBytes maxBodyBytes) → ∀ m ∈ ms, m.Clean := by
  have hpair : ∀ {ms : List Message} {rs : List HttpRequest}, List.Forall₂ Stores ms rs →
      (∀ r ∈ rs, r.StoredHeaders) → ((∀ r ∈ rs, r.Clean) ↔ ∀ m ∈ ms, m.Clean) := by
    intro ms rs hall hheaders
    induction hall with
    | nil => simp
    | cons hone _ ih =>
      rw [List.forall_mem_cons] at hheaders
      rw [List.forall_mem_cons, List.forall_mem_cons, hone.clean_iff hheaders.1, ih hheaders.2]
  have hstored : ∀ r ∈ (receive maxHeaderBytes maxBodyBytes chunks).1, r.StoredHeaders :=
    fun r hr => (receive_accepted hr).headers
  constructor
  · intro hclean ms rest hin hms m hm
    obtain ⟨ms', rest', hreads⟩ := exists_reads hB hin hms
    exact (hpair hreads.requests hstored).mp hclean m (List.mem_append_left _ hm)
  · intro hclean
    obtain ⟨ms, rest, hreads⟩ : ∃ ms rest, Reads maxHeaderBytes maxBodyBytes chunks ms rest :=
      exists_reading hB chunks
    exact (hpair hreads.requests hstored).mpr (hclean ms rest hreads.input hreads.valid)

def loneLF : Bytes := bytes "GET /a\nb HTTP/1.1\r\nX-Tag: 1\nX-Real-IP: 10.0.0.1\r\n\r\n"

theorem control_bytes_survive_lone :
    (∀ r ∈ (receive 8192 (2 ^ 20) [loneLF]).1, r.Clean) ↔
      ∀ ms rest, [loneLF].flatten = wires ms ++ rest →
        (∀ m ∈ ms, m.Valid 8192 (2 ^ 20)) → ∀ m ∈ ms, m.Clean :=
  control_bytes_survive (by decide) [loneLF]

theorem lone_line_feed :
    ((receive 8192 (2 ^ 20) [loneLF]).1.map fun r => (r.path, r.getHeader (bytes "x-tag"))) =
        [(bytes "/a\nb", bytes "1\nX-Real-IP: 10.0.0.1")] ∧
      ¬ ∀ r ∈ (receive 8192 (2 ^ 20) [loneLF]).1, r.Clean := by
  have hone : ((receive 8192 (2 ^ 20) [loneLF]).1.map fun r => (r.path, r.getHeader (bytes "x-tag"))) =
      [(bytes "/a\nb", bytes "1\nX-Real-IP: 10.0.0.1")] := by decide +kernel
  refine ⟨hone, fun h => ?_⟩
  obtain ⟨r, hr, hpair⟩ := List.mem_map.mp (hone ▸ List.mem_singleton_self _)
  have hpath : r.path = bytes "/a\nb" := congrArg Prod.fst hpair
  have hclean := (h r hr).path
  rw [hpath] at hclean
  exact absurd hclean (by decide)

end HttpParser

end Myself
