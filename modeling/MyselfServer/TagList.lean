import MyselfServer.Text

/-!
# Lists of entity tags

The field value that names entity tags: `*`, or elements between commas, each
with blanks around a quoted tag or around nothing at all. A quoted text may
contain commas, so the value is not cut at its commas into its elements:
`Element.quoted_part` says which quoted texts are found in the pieces anyway.
-/

namespace TagList

open Text

def SEP : UInt8 := 44

def DQUOTE : UInt8 := 34

def isTagByte (c : UInt8) : Bool := c == 0x21 || (0x23 ≤ c && c ≤ 0x7E) || 0x80 ≤ c

structure Tag where
  weak : Bool
  inner : Bytes
  legal : ∀ c ∈ inner, isTagByte c = true

def quoted (inner : Bytes) : Bytes := DQUOTE :: (inner ++ [DQUOTE])

def WEAK : Bytes := bytes "W/"

def Tag.quoted (t : Tag) : Bytes := TagList.quoted t.inner

def Tag.text (t : Tag) : Bytes := (if t.weak then WEAK else []) ++ t.quoted

structure Element where
  before : Bytes
  tag : Option Tag
  after : Bytes
  blank : ∀ c ∈ before ++ after, isBlank c = true

def Element.text (e : Element) : Bytes := e.before ++ (e.tag.elim [] Tag.text ++ e.after)

inductive Value where
  | any
  | tags (elements : List Element)

def Value.text : Value → Bytes
  | any => bytes "*"
  | tags elements => [SEP].intercalate (elements.map Element.text)

/-- Weak comparison: the marks do not count. -/
def Value.Names (etag : Bytes) : Value → Prop
  | any => True
  | tags elements => ∃ e ∈ elements, ∃ t, e.tag = some t ∧ t.quoted = etag

/-! ## Bytes of a tag -/

theorem isTagByte_plain {c : UInt8} (h : isTagByte c = true) : c ≠ DQUOTE ∧ isBlank c = false := by
  constructor
  · rintro rfl
    cases h
  · by_contra hb
    simp only [Bool.not_eq_false, isBlank, Bool.or_eq_true, beq_iff_eq] at hb
    rcases hb with rfl | rfl <;> cases h

theorem Tag.noQuote (t : Tag) : DQUOTE ∉ t.inner := fun hin => (isTagByte_plain (t.legal _ hin)).1 rfl

theorem Element.noQuote (e : Element) {c : UInt8} (h : c ∈ e.before ++ e.after) : c ≠ DQUOTE ∧ c ≠ SEP := by
  constructor <;> rintro rfl <;> exact absurd (e.blank _ h) (by decide)

theorem Element.noComma (e : Element) {t : Tag} (htag : e.tag = some t) (h : SEP ∉ t.inner) :
    SEP ∉ e.text := by
  intro hin
  have hmark : SEP ∉ if t.weak then WEAK else [] := by
    split <;> decide
  rw [Element.text, htag, List.mem_append, List.mem_append, Option.elim, Tag.text, List.mem_append,
    Tag.quoted, TagList.quoted, List.mem_cons, List.mem_append, List.mem_singleton] at hin
  rcases hin with hin | (hin | hin | hin | hin) | hin
  · exact (e.noQuote (List.mem_append_left _ hin)).2 rfl
  · exact hmark hin
  · cases hin
  · exact h hin
  · cases hin
  · exact (e.noQuote (List.mem_append_right _ hin)).2 rfl

/-- A text with two quotes has one quoted part. -/
theorem quoted_unique {front inner behind front' inner' behind' : Bytes}
    (h : front ++ (quoted inner ++ behind) = front' ++ (quoted inner' ++ behind'))
    (hfront : DQUOTE ∉ front) (hinner : DQUOTE ∉ inner) (hbehind : DQUOTE ∉ behind)
    (hinner' : DQUOTE ∉ inner') : inner = inner' := by
  have hcut : ∀ {a b c d : Bytes}, DQUOTE ∉ a → DQUOTE ∉ c → a ++ DQUOTE :: b = c ++ DQUOTE :: d →
      a = c ∧ b = d := by
    intro a b c d ha hc heq
    have hlen : a.length = c.length := by
      have hs := congrArg (search [DQUOTE]) heq
      rw [search_one ha, search_one hc] at hs
      exact Option.some.inj hs
    obtain ⟨rfl, htail⟩ := List.append_inj heq hlen
    exact ⟨rfl, (List.cons.inj htail).2⟩
  have hcount := congrArg (List.count DQUOTE) h
  simp only [quoted, List.count_append, List.count_cons, List.count_nil, beq_self_eq_true, if_true,
    List.count_eq_zero_of_not_mem hfront, List.count_eq_zero_of_not_mem hinner,
    List.count_eq_zero_of_not_mem hbehind, List.count_eq_zero_of_not_mem hinner'] at hcount
  have hfront' : DQUOTE ∉ front' := List.count_eq_zero.mp (by omega)
  simp only [quoted, List.cons_append, List.append_assoc, List.nil_append] at h
  obtain ⟨-, htail⟩ := hcut hfront hfront' h
  exact (hcut hinner hinner' htail).1

/-! ## Cutting at every comma -/

theorem splitOn_intercalate_flatMap {ls : List Bytes} (h : ls ≠ []) :
    ([SEP].intercalate ls).splitOn SEP = ls.flatMap fun l => l.splitOn SEP := by
  induction ls with
  | nil => exact absurd rfl h
  | cons l ls ih =>
    cases ls with
    | nil => simp
    | cons m ls =>
      rw [List.intercalate_cons_cons, List.append_assoc, List.singleton_append,
        List.splitOn_append_cons_self, ih (by simp)]
      exact List.flatMap_cons.symm

/-- A quoted text without a comma is a part of some piece exactly if it is quoted
in that element: a piece of a tag that is cut has one quote at most. -/
theorem Element.quoted_part (e : Element) {piece inner : Bytes} (hpiece : piece ∈ e.text.splitOn SEP)
    (hpart : quoted inner <:+: piece) (hinner : DQUOTE ∉ inner) :
    ∃ t, e.tag = some t ∧ t.inner = inner := by
  obtain ⟨front', behind', heq⟩ := hpart.trans (infix_of_mem_splitOn hpiece)
  have hplain : DQUOTE ∉ e.before ∧ DQUOTE ∉ e.after :=
    ⟨fun hin => (e.noQuote (List.mem_append_left _ hin)).1 rfl,
      fun hin => (e.noQuote (List.mem_append_right _ hin)).1 rfl⟩
  cases htag : e.tag with
  | none =>
    have hin : DQUOTE ∈ e.text := by
      rw [← heq]
      simp [quoted]
    simp [Element.text, htag, hplain] at hin
  | some t =>
    refine ⟨t, rfl, ?_⟩
    have hfront : DQUOTE ∉ e.before ++ if t.weak then WEAK else [] := by
      rw [List.mem_append, not_or]
      refine ⟨hplain.1, ?_⟩
      split <;> decide
    have htext : (e.before ++ if t.weak then WEAK else []) ++ (quoted t.inner ++ e.after) =
        front' ++ (quoted inner ++ behind') := by
      simp only [Element.text, htag, Option.elim, Tag.text, Tag.quoted, List.append_assoc] at heq
      simp only [List.append_assoc, heq]
    exact quoted_unique htext hfront t.noQuote hplain.2 hinner

/-! ## Trimming an element -/

theorem trim_wrap {before s after : Bytes} (hb : ∀ c ∈ before, isBlank c = true)
    (ha : ∀ c ∈ after, isBlank c = true) (hs : trim s = s) (hne : s ≠ []) :
    trim (before ++ (s ++ after)) = s := by
  have hdrop : (before ++ (s ++ after)).dropWhile isBlank = s ++ after := by
    rw [List.dropWhile_append_of_pos hb]
    cases s with
    | nil => exact absurd rfl hne
    | cons c s => rw [List.cons_append, List.dropWhile_cons_of_neg (by simp [head_of_trim hs c rfl])]
  have hafter : after.reverse.dropWhile isBlank = [] := by
    simpa using ha
  have hwhole : s.dropWhile isBlank = s := by
    cases s with
    | nil => rfl
    | cons c s => rw [List.dropWhile_cons_of_neg (by simp [head_of_trim hs c rfl])]
  rw [trim, hwhole] at hs
  rw [trim, hdrop, List.rdropWhile, List.reverse_append, List.dropWhile_append, hafter]
  exact hs

theorem trim_blank {s : Bytes} (h : ∀ c ∈ s, isBlank c = true) : trim s = [] := by
  have hdrop : s.dropWhile isBlank = [] := by simpa using h
  rw [trim, hdrop]
  rfl

theorem Tag.text_ne_nil (t : Tag) : t.text ≠ [] := by
  simp [Tag.text, Tag.quoted, TagList.quoted]

theorem Tag.trim_text (t : Tag) : trim t.text = t.text := by
  apply trim_of_ends
  · intro c hc
    cases hw : t.weak
    · simp only [Tag.text, hw, Tag.quoted, TagList.quoted] at hc
      cases hc
      decide
    · simp only [Tag.text, hw] at hc
      cases hc
      decide
  · intro c hc
    have htext : t.text = (if t.weak then WEAK else []) ++ DQUOTE :: t.inner ++ [DQUOTE] := by
      simp [Tag.text, Tag.quoted, TagList.quoted]
    rw [htext, List.getLast?_concat] at hc
    cases hc
    decide

theorem Element.trim_text (e : Element) : trim e.text = e.tag.elim [] Tag.text := by
  have hbefore : ∀ c ∈ e.before, isBlank c = true := fun c hc => e.blank c (List.mem_append_left _ hc)
  have hafter : ∀ c ∈ e.after, isBlank c = true := fun c hc => e.blank c (List.mem_append_right _ hc)
  unfold Element.text
  cases e.tag with
  | none => exact trim_blank (by simpa using e.blank)
  | some t => exact trim_wrap hbefore hafter t.trim_text t.text_ne_nil

theorem mem_trim {s : Bytes} {c : UInt8} (hc : c ∈ s) (hb : isBlank c = false) : c ∈ trim s := by
  have hdrop : ∀ u : Bytes, c ∈ u → c ∈ u.dropWhile isBlank := by
    intro u hu
    rw [← List.takeWhile_append_dropWhile (p := isBlank) (l := u), List.mem_append] at hu
    rcases hu with hu | hu
    · rw [List.mem_takeWhile_imp hu] at hb
      cases hb
    · exact hu
  have hback := hdrop _ (List.mem_reverse.mpr (hdrop s hc))
  exact List.mem_reverse.mpr hback

theorem mem_intercalate {ls : List Bytes} {c : UInt8} (hc : c ≠ SEP) :
    c ∈ [SEP].intercalate ls ↔ ∃ l ∈ ls, c ∈ l := by
  induction ls with
  | nil => simp
  | cons l ls ih =>
    cases ls with
    | nil => simp
    | cons m ls =>
      rw [List.intercalate_cons_cons, List.append_assoc, List.mem_append, List.singleton_append,
        List.mem_cons, ih]
      simp [hc]

/-- A list of tags is never taken for `*`: where the star stands in a tag, there
are quotes too. -/
theorem Value.trim_tags (elements : List Element) : trim (Value.tags elements).text ≠ bytes "*" := by
  intro h
  have hstar : (42 : UInt8) ∈ (Value.tags elements).text := by
    have hin : (42 : UInt8) ∈ trim (Value.tags elements).text := by
      rw [h]
      decide
    exact (trim_part _).subset hin
  obtain ⟨l, hl, hin⟩ := (mem_intercalate (by decide)).mp hstar
  obtain ⟨e, he, rfl⟩ := List.mem_map.mp hl
  have hmid := mem_trim hin (by decide)
  rw [e.trim_text] at hmid
  cases htag : e.tag with
  | none =>
    rw [htag] at hmid
    cases hmid
  | some t =>
    have hquote : DQUOTE ∈ e.text := by
      simp [Element.text, htag, Tag.text, Tag.quoted, quoted]
    have htext : DQUOTE ∈ (Value.tags elements).text :=
      (mem_intercalate (by decide)).mpr ⟨_, List.mem_map_of_mem he, hquote⟩
    have htrim := mem_trim htext (by decide)
    rw [h] at htrim
    exact absurd htrim (by decide)

end TagList
