import MyselfServer.Text

/-!
# Messages and their heads

A message in the text format of internet messages: a first line, fields,
an empty line and the bytes behind it. `read` is how a receiver takes one
apart, line by line, where lines end at CRLF only or at any LF. `read_write`
says that it gets back what was written, the values without the blanks around
them; `read_write_lines` and `read_write_cut` what it makes of texts with ends
of lines in them.
-/

namespace Head

open Text

structure Msg where
  first : Bytes
  fields : List (Bytes × Bytes)
  body : Bytes
  deriving DecidableEq

/-- How a reader ends lines: at CRLF only, or at any LF, without a CR in front of it. -/
inductive Ending where
  | crlf
  | lf
  deriving DecidableEq

def cutLine : Ending → Bytes → Option (Bytes × Bytes)
  | .crlf, raw => (search CRLF raw).map fun k => (raw.take k, raw.drop (k + 2))
  | .lf, raw => (search [LF] raw).map fun k => (chopCR (raw.take k), raw.drop (k + 1))

/-- The lines up to the first empty one, at most `n`, and what is behind it. -/
def lines (e : Ending) : Nat → Bytes → Option (List Bytes × Bytes)
  | 0, _ => none
  | n + 1, raw =>
    match cutLine e raw with
    | none => none
    | some (line, rest) =>
      if line = [] then some ([], rest)
      else (lines e n rest).map fun p => (line :: p.1, p.2)

def field (line : Bytes) : Bytes × Bytes :=
  match search [COLON] line with
  | none => (line, [])
  | some k => (line.take k, trim (line.drop (k + 1)))

def read (e : Ending) (raw : Bytes) : Option Msg :=
  match cutLine e raw with
  | none => none
  | some (first, rest) => (lines e rest.length rest).map fun p => ⟨first, p.1.map field, p.2⟩

def fieldLine (f : Bytes × Bytes) : Bytes := f.1 ++ COLON :: SP :: f.2

def fieldLines (fields : List (Bytes × Bytes)) : Bytes := fields.flatMap fun f => fieldLine f ++ CRLF

def write (m : Msg) : Bytes := m.first ++ (CRLF ++ (fieldLines m.fields ++ (CRLF ++ m.body)))

def valuesOf (fields : List (Bytes × Bytes)) (name : Bytes) : List Bytes :=
  (fields.filter fun f => toLower f.1 = toLower name).map Prod.snd

structure Plain (f : Bytes × Bytes) : Prop where
  line : ¬ CRLF <:+: fieldLine f
  colon : COLON ∉ f.1

/-! ## The lines of a text -/

def Whole : Ending → Bytes → Prop
  | .crlf, text => ¬ CRLF <:+: text
  | .lf, text => LF ∉ text

def chopAll : List Bytes → List Bytes
  | [] => []
  | [line] => [line]
  | line :: next :: rest => chopCR line :: chopAll (next :: rest)

def split : Ending → Bytes → List Bytes
  | .crlf, text => splitCRLF text
  | .lf, text => chopAll (text.splitOn LF)

def firstLine (e : Ending) (text : Bytes) : Bytes := (split e text).headD []

def behind (e : Ending) (text : Bytes) : List Bytes := (split e text).tail

section
variable {e : Ending} {text : Bytes}

theorem whole_of_noLF (h : LF ∉ text) : Whole e text := by
  cases e with
  | crlf => exact noCRLF h
  | lf => exact h

theorem chopAll_cons (line : Bytes) {rest : List Bytes} (h : rest ≠ []) :
    chopAll (line :: rest) = chopCR line :: chopAll rest := by
  obtain ⟨next, rest, rfl⟩ := List.exists_cons_of_ne_nil h
  rfl

theorem chopAll_part : ∀ (ls : List Bytes), ∀ l ∈ chopAll ls, ∃ line ∈ ls, l <:+: line
  | [], l, hl => absurd hl List.not_mem_nil
  | [line], l, hl => ⟨line, List.mem_singleton.mpr rfl, List.mem_singleton.mp hl ▸ List.infix_refl _⟩
  | line :: next :: rest, l, hl => by
    rcases List.mem_cons.mp hl with rfl | hl
    · exact ⟨line, List.mem_cons_self .., chopCR_part line⟩
    · obtain ⟨line', hmem, hpart⟩ := chopAll_part (next :: rest) l hl
      exact ⟨line', List.mem_cons_of_mem _ hmem, hpart⟩

theorem split_whole (h : Whole e text) : split e text = [text] := by
  cases e with
  | crlf => exact splitCRLF_of_noCRLF h
  | lf =>
    show chopAll (text.splitOn LF) = [text]
    rw [List.splitOn_eq_singleton h]
    rfl

theorem whole_of_mem_split : ∀ l ∈ split e text, Whole e l := by
  intro l hl
  cases e with
  | crlf => exact noCRLF_of_mem_splitCRLF text l hl
  | lf =>
    obtain ⟨line, hline, hpart⟩ := chopAll_part _ l hl
    exact fun hin => notMem_of_mem_splitOn hline (hpart.subset hin)

theorem split_lf {a : Bytes} (ha : LF ∉ a) (b : Bytes) :
    split .lf (a ++ LF :: b) = chopCR a :: split .lf b := by
  have hpieces : (a ++ LF :: b).splitOn LF = a :: b.splitOn LF := by
    rw [List.splitOn_append_cons_self, List.splitOn_eq_singleton ha]
    rfl
  show chopAll ((a ++ LF :: b).splitOn LF) = _
  rw [hpieces, chopAll_cons _ (List.splitOn_ne_nil LF b)]
  rfl

theorem split_ne_nil (e : Ending) (text : Bytes) : split e text ≠ [] := by
  cases e with
  | crlf => exact splitCRLF_ne_nil text
  | lf =>
    by_cases hin : LF ∈ text
    · obtain ⟨a, b, rfl, ha⟩ := List.eq_append_cons_of_mem hin
      rw [split_lf ha]
      exact List.cons_ne_nil _ _
    · rw [split_whole (e := .lf) hin]
      exact List.cons_ne_nil _ _

/-- What stands in front of a text, up to a byte that is no end of a line, is
part of its first line. -/
theorem split_sep {a : Bytes} {c : UInt8} (ha : Whole e a) (h13 : c ≠ 13) (h10 : c ≠ 10) (b : Bytes) :
    split e (a ++ c :: b) = (split e b).modifyHead (a ++ c :: ·) := by
  cases e with
  | crlf => exact splitCRLF_sep ha h13 h10 b
  | lf =>
    have hfront : ∀ p : Bytes, LF ∉ p → LF ∉ a ++ c :: p := by
      intro p hp hin
      rcases List.mem_append.mp hin with hin | hin
      · exact ha hin
      · rcases List.mem_cons.mp hin with heq | hin
        · exact h10 heq.symm
        · exact hp hin
    by_cases hin : LF ∈ b
    · obtain ⟨p, b', rfl, hp⟩ := List.eq_append_cons_of_mem hin
      have hsplit : a ++ c :: (p ++ LF :: b') = (a ++ c :: p) ++ LF :: b' := by simp
      rw [hsplit, split_lf (hfront p hp), split_lf hp, List.modifyHead_cons, chopCR_sep a h13]
    · rw [split_whole (e := .lf) hin, split_whole (e := .lf) (hfront b hin), List.modifyHead_cons]

theorem cutLine_whole (h : Whole e text) (rest : Bytes) :
    cutLine e (text ++ (CRLF ++ rest)) = some (text, rest) := by
  cases e with
  | crlf =>
    have hk : search CRLF (text ++ (CRLF ++ rest)) = some text.length :=
      search_pair (by decide) ((search_eq_none_iff (by simp)).mpr h) rest
    have hdrop : (text ++ (CRLF ++ rest)).drop (text.length + 2) = rest :=
      List.drop_length_add_append 2
    simp only [cutLine, hk, Option.map_some, List.take_left, hdrop]
  | lf =>
    have hline : LF ∉ text ++ [13] := by
      intro hin
      rcases List.mem_append.mp hin with hin | hin
      · exact h hin
      · exact absurd hin (by decide)
    have hsplit : text ++ (CRLF ++ rest) = (text ++ [13]) ++ LF :: rest := by simp [CRLF, LF]
    have hdrop : ((text ++ [13]) ++ LF :: rest).drop ((text ++ [13]).length + 1) = rest :=
      List.drop_length_add_append 1
    simp only [hsplit, cutLine, search_one hline rest, Option.map_some, List.take_left, hdrop, chopCR_concat, if_true]

/-- The first line of a written text ends with the text, or in it. -/
theorem cutLine_split {l : Bytes} {ls : List Bytes} (h : split e text = l :: ls) (rest : Bytes) :
    ls = [] ∧ cutLine e (text ++ (CRLF ++ rest)) = some (l, rest) ∨
      ∃ text', split e text' = ls ∧ cutLine e (text ++ (CRLF ++ rest)) = some (l, text' ++ (CRLF ++ rest)) := by
  have hl : Whole e l := by
    apply whole_of_mem_split l
    rw [h]
    exact List.mem_cons_self ..
  cases e with
  | crlf =>
    by_cases hls : ls = []
    · subst hls
      have hjoin : l ++ CRLF = text ++ CRLF := by
        have hjoin := joinLines_splitCRLF text
        rw [show splitCRLF text = [l] from h] at hjoin
        simpa [joinLines] using hjoin
      rw [List.append_cancel_right hjoin] at hl ⊢
      exact Or.inl ⟨rfl, cutLine_whole hl rest⟩
    · obtain ⟨text', rfl, htext⟩ := splitCRLF_cons h hls
      refine Or.inr ⟨text', htext, ?_⟩
      rw [List.append_assoc, List.append_assoc]
      exact cutLine_whole hl _
  | lf =>
    by_cases hin : LF ∈ text
    · obtain ⟨a, text', rfl, ha⟩ := List.eq_append_cons_of_mem hin
      rw [split_lf ha] at h
      cases h
      refine Or.inr ⟨text', rfl, ?_⟩
      have hsplit : a ++ LF :: text' ++ (CRLF ++ rest) = a ++ LF :: (text' ++ (CRLF ++ rest)) := by simp
      have hdrop : (a ++ LF :: (text' ++ (CRLF ++ rest))).drop (a.length + 1) = text' ++ (CRLF ++ rest) :=
        List.drop_length_add_append 1
      simp only [hsplit, cutLine, search_one ha, Option.map_some, List.take_left, hdrop]
    · rw [split_whole (e := .lf) hin] at h
      cases h
      exact Or.inl ⟨rfl, cutLine_whole (e := .lf) hin rest⟩

theorem length_split_le : (split e text).length ≤ text.length + 1 := by
  cases e with
  | crlf =>
    show (splitCRLF text).length ≤ text.length + 1
    fun_induction splitCRLF text with
    | case1 => simp
    | case2 c => simp
    | case3 c d rest h ih =>
      simp only [List.length_cons]
      omega
    | case4 c d rest h ih =>
      simp only [List.length_modifyHead, List.length_cons] at ih ⊢
      omega
  | lf =>
    induction h : text.length using Nat.strong_induction_on generalizing text with
    | _ n ih =>
      by_cases hin : LF ∈ text
      · obtain ⟨a, b, rfl, ha⟩ := List.eq_append_cons_of_mem hin
        have hlen := h
        simp only [List.length_append, List.length_cons] at hlen
        have hb : (split .lf b).length ≤ b.length + 1 := ih b.length (by omega) rfl
        rw [split_lf ha, List.length_cons]
        omega
      · rw [split_whole (e := .lf) hin]
        simp

theorem split_eq_cons (e : Ending) (text : Bytes) : split e text = firstLine e text :: behind e text := by
  obtain ⟨l, ls, hl⟩ := List.exists_cons_of_ne_nil (split_ne_nil e text)
  simp only [firstLine, behind, hl, List.headD_cons, List.tail_cons]

theorem behind_whole (h : Whole e text) : behind e text = [] := by
  rw [behind, split_whole h]
  rfl

theorem firstLine_whole (h : Whole e text) : firstLine e text = text := by
  rw [firstLine, split_whole h]
  rfl

/-! ## Reading what was written -/

def linesOf (e : Ending) (fields : List (Bytes × Bytes)) : List Bytes :=
  fields.flatMap fun f => split e (fieldLine f)

def headLines (e : Ending) (m : Msg) : List Bytes := behind e m.first ++ linesOf e m.fields

/-- The lines of a written text, and then those behind it. -/
theorem lines_split (h : [] ∉ split e text) (rest : Bytes) (n : Nat) :
    lines e (n + (split e text).length) (text ++ (CRLF ++ rest)) =
      (lines e n rest).map fun p => (split e text ++ p.1, p.2) := by
  generalize hls : split e text = ls at h
  induction ls generalizing text with
  | nil => exact absurd hls (split_ne_nil e text)
  | cons l ls ih =>
    have hne : l ≠ [] := fun heq => h (heq ▸ List.mem_cons_self ..)
    have hrest : [] ∉ ls := fun hin => h (List.mem_cons_of_mem _ hin)
    rcases cutLine_split hls rest with ⟨rfl, hcut⟩ | ⟨text', htext, hcut⟩
    · simp only [List.length_singleton, lines, hcut, if_neg hne, List.singleton_append]
    · simp only [List.length_cons, ← Nat.add_assoc, lines, hcut, if_neg hne, ih htext hrest, Option.map_map]
      rfl

/-- A text with an empty line in it ends the head. -/
theorem lines_cut (h : [] ∈ split e text) (rest : Bytes) (n : Nat) :
    ∃ ls tail, lines e (n + (split e text).length) (text ++ (CRLF ++ rest)) = some (ls, tail ++ rest) := by
  generalize hls : split e text = ls at h
  induction ls generalizing text with
  | nil => exact absurd hls (split_ne_nil e text)
  | cons l ls ih =>
    have hcut := cutLine_split hls rest
    by_cases hnil : l = []
    · rcases hcut with ⟨-, hcut⟩ | ⟨text', -, hcut⟩
      · exact ⟨[], [], by simp only [List.length_cons, ← Nat.add_assoc, lines, hcut, if_pos hnil, List.nil_append]⟩
      · exact ⟨[], text' ++ CRLF, by
          simp only [List.length_cons, ← Nat.add_assoc, lines, hcut, if_pos hnil, List.append_assoc]⟩
    · have hin : [] ∈ ls := (List.mem_cons.mp h).resolve_left fun heq => hnil heq.symm
      rcases hcut with ⟨rfl, -⟩ | ⟨text', htext, hcut⟩
      · exact absurd hin List.not_mem_nil
      · obtain ⟨ls', tail, hlines⟩ := ih htext hin
        exact ⟨l :: ls', tail, by
          simp only [List.length_cons, ← Nat.add_assoc, lines, hcut, if_neg hnil, hlines, Option.map_some]⟩

theorem lines_nil (body : Bytes) (n : Nat) : lines e (n + 1) (CRLF ++ body) = some ([], body) := by
  have hcut : cutLine e ([] ++ (CRLF ++ body)) = some ([], body) := cutLine_whole (whole_of_noLF List.not_mem_nil) body
  simp only [List.nil_append] at hcut
  simp only [lines, hcut, if_true]

theorem joinLines_cons (text : Bytes) (texts : List Bytes) (rest : Bytes) :
    joinLines (text :: texts) ++ rest = text ++ (CRLF ++ (joinLines texts ++ rest)) := by
  simp only [joinLines, List.flatMap_cons, List.append_assoc]

theorem lines_joinLines {texts : List Bytes} (h : [] ∉ texts.flatMap (split e)) (body : Bytes) :
    ∀ n, (texts.flatMap (split e)).length < n →
      lines e n (joinLines texts ++ (CRLF ++ body)) = some (texts.flatMap (split e), body) := by
  induction texts with
  | nil =>
    intro n hn
    obtain ⟨n, rfl⟩ := Nat.exists_eq_add_of_lt hn
    exact lines_nil body _
  | cons text texts ih =>
    intro n hn
    rw [List.flatMap_cons, List.mem_append, not_or] at h
    rw [List.flatMap_cons, List.length_append] at hn
    have hfuel : n = (n - (split e text).length) + (split e text).length := by omega
    rw [joinLines_cons, hfuel, lines_split h.1, ih h.2 _ (by omega)]
    rfl

/-- An empty line in a text ends the head before its time. -/
theorem lines_joinLines_cut {texts : List Bytes} (h : [] ∈ texts.flatMap (split e)) (body : Bytes) :
    ∀ n, (texts.flatMap (split e)).length ≤ n →
      ∃ ls tail, lines e n (joinLines texts ++ (CRLF ++ body)) = some (ls, tail ++ (CRLF ++ body)) := by
  induction texts with
  | nil => exact absurd h List.not_mem_nil
  | cons text texts ih =>
    intro n hn
    rw [List.flatMap_cons, List.length_append] at hn
    have hfuel : n = (n - (split e text).length) + (split e text).length := by omega
    rw [joinLines_cons, hfuel]
    by_cases htext : [] ∈ split e text
    · obtain ⟨ls, tail, hlines⟩ := lines_cut htext (joinLines texts ++ (CRLF ++ body)) (n - (split e text).length)
      exact ⟨ls, tail ++ joinLines texts, by rw [hlines, List.append_assoc]⟩
    · have hin : [] ∈ texts.flatMap (split e) := by
        rw [List.flatMap_cons, List.mem_append] at h
        exact h.resolve_left htext
      obtain ⟨ls, tail, hlines⟩ := ih hin (n - (split e text).length) (by omega)
      exact ⟨split e text ++ ls, tail, by rw [lines_split htext, hlines]; rfl⟩

theorem length_lines_le (texts : List Bytes) : (texts.flatMap (split e)).length ≤ (joinLines texts).length := by
  induction texts with
  | nil => simp
  | cons text texts ih =>
    have hsplit : (split e text).length ≤ text.length + 1 := length_split_le
    simp only [joinLines, List.flatMap_cons, List.length_append, CRLF, List.length_cons] at ih ⊢
    omega

/-- Behind the first line stand the texts that the other lines are made of. -/
theorem cutLine_write (e : Ending) (m : Msg) : ∃ texts, texts.flatMap (split e) = headLines e m ∧
    cutLine e (write m) = some (firstLine e m.first, joinLines texts ++ (CRLF ++ m.body)) := by
  have hfields : fieldLines m.fields = joinLines (m.fields.map fieldLine) := by
    simp only [fieldLines, joinLines, List.flatMap_map]
  have hlines : (m.fields.map fieldLine).flatMap (split e) = linesOf e m.fields := by
    simp only [linesOf, List.flatMap_map]
  rcases cutLine_split (split_eq_cons e m.first) (joinLines (m.fields.map fieldLine) ++ (CRLF ++ m.body)) with
    ⟨hls, hcut⟩ | ⟨text, htext, hcut⟩
  · exact ⟨_, by rw [hlines, headLines, hls, List.nil_append], by rw [write, hfields, hcut]⟩
  · refine ⟨text :: m.fields.map fieldLine, ?_, ?_⟩
    · rw [List.flatMap_cons, hlines, htext, headLines]
    · rw [write, hfields, hcut, joinLines_cons]

/-- What is read of a written text without empty lines: its lines, and the body. -/
theorem read_write_lines {m : Msg} (h : [] ∉ headLines e m) :
    read e (write m) = some ⟨firstLine e m.first, (headLines e m).map field, m.body⟩ := by
  obtain ⟨texts, htexts, hcut⟩ := cutLine_write e m
  have hlen := length_lines_le (e := e) texts
  have hlines := lines_joinLines (htexts ▸ h) m.body (joinLines texts ++ (CRLF ++ m.body)).length
    (by simp only [List.length_append, CRLF, List.length_cons]; omega)
  simp only [read, hcut, hlines, Option.map_some, htexts]

theorem read_write_cut {m : Msg} (h : [] ∈ headLines e m) :
    ∃ m', read e (write m) = some m' ∧ m.body.length < m'.body.length := by
  obtain ⟨texts, htexts, hcut⟩ := cutLine_write e m
  have hlen := length_lines_le (e := e) texts
  obtain ⟨ls, tail, hlines⟩ := lines_joinLines_cut (htexts ▸ h) m.body (joinLines texts ++ (CRLF ++ m.body)).length
    (by simp only [List.length_append]; omega)
  refine ⟨⟨firstLine e m.first, ls.map field, tail ++ (CRLF ++ m.body)⟩, ?_, ?_⟩
  · simp only [read, hcut, hlines, Option.map_some]
  · simp only [List.length_append, CRLF, List.length_cons]
    omega

theorem field_append {k : Bytes} (h : COLON ∉ k) (v : Bytes) :
    field (k ++ COLON :: v) = (k, trim v) := by
  have hk : search [COLON] (k ++ COLON :: v) = some k.length := search_one h v
  have hdrop : (k ++ COLON :: v).drop (k.length + 1) = v := List.drop_length_add_append 1
  have htake : (k ++ COLON :: v).take k.length = k := List.take_left
  simp only [field, hk, htake, hdrop]

theorem field_fieldLine {f : Bytes × Bytes} (h : COLON ∉ f.1) :
    field (fieldLine f) = (f.1, trim f.2) := by
  rw [fieldLine, field_append h, trim_SP]

theorem map_field_fieldLine {fields : List (Bytes × Bytes)} (h : ∀ f ∈ fields, COLON ∉ f.1) :
    (fields.map fieldLine).map field = fields.map fun f => (f.1, trim f.2) := by
  rw [List.map_map]
  apply List.map_congr_left
  intro f hf
  exact field_fieldLine (h f hf)

theorem fieldLine_ne_nil (f : Bytes × Bytes) : fieldLine f ≠ [] := by
  simp [fieldLine]

theorem linesOf_plain {fields : List (Bytes × Bytes)} (h : ∀ f ∈ fields, Plain f) :
    linesOf .crlf fields = fields.map fieldLine := by
  induction fields with
  | nil => rfl
  | cons f fields ih =>
    rw [List.forall_mem_cons] at h
    have hf : linesOf .crlf (f :: fields) = split .crlf (fieldLine f) ++ linesOf .crlf fields := rfl
    rw [hf, split_whole (e := .crlf) h.1.line, ih h.2]
    rfl

/-- **What was written is read.** -/
theorem read_write {m : Msg} (hfirst : ¬ CRLF <:+: m.first) (h : ∀ f ∈ m.fields, Plain f) :
    read .crlf (write m) = some { m with fields := m.fields.map fun f => (f.1, trim f.2) } := by
  have hlines : headLines .crlf m = m.fields.map fieldLine := by
    rw [headLines, behind_whole (e := .crlf) hfirst, linesOf_plain h]
    rfl
  have hne : [] ∉ headLines .crlf m := by
    rw [hlines]
    intro hin
    obtain ⟨f, -, hf⟩ := List.mem_map.mp hin
    exact fieldLine_ne_nil f hf
  rw [read_write_lines hne, hlines, firstLine_whole (e := .crlf) hfirst,
    map_field_fieldLine fun f hf => (h f hf).colon]

/-- A field under a name on one line: its own line, and those its value has behind the first. -/
theorem split_fieldLine {f : Bytes × Bytes} (h : Whole e f.1) :
    split e (fieldLine f) = fieldLine (f.1, firstLine e f.2) :: behind e f.2 := by
  have hname : Whole e (f.1 ++ [COLON]) := by
    cases e with
    | crlf => exact noCRLF_append h (by decide)
    | lf =>
      intro hin
      rcases List.mem_append.mp hin with hin | hin
      · exact h hin
      · exact absurd hin (by decide)
  have hline : fieldLine f = (f.1 ++ [COLON]) ++ SP :: f.2 := by simp [fieldLine]
  rw [hline, split_sep hname (by decide) (by decide), split_eq_cons, List.modifyHead_cons]
  simp [fieldLine]

/-! ## The values of a name -/

def valuesIn (ls : List Bytes) (name : Bytes) : List Bytes := valuesOf (ls.map field) name

theorem valuesOf_append (fields fields' : List (Bytes × Bytes)) (name : Bytes) :
    valuesOf (fields ++ fields') name = valuesOf fields name ++ valuesOf fields' name := by
  simp only [valuesOf, List.filter_append, List.map_append]

theorem valuesOf_eq_nil {fields : List (Bytes × Bytes)} {name : Bytes} :
    valuesOf fields name = [] ↔ ∀ f ∈ fields, toLower f.1 ≠ toLower name := by
  simp [valuesOf, List.filter_eq_nil_iff]

theorem valuesOf_singleton (k v name : Bytes) :
    valuesOf [(k, v)] name = if toLower k = toLower name then [v] else [] := by
  simp only [valuesOf, List.filter_cons, List.filter_nil, decide_eq_true_eq]
  split <;> rfl

/-- Reading a written value drops blanks only. -/
theorem valuesOf_trimmed (fields : List (Bytes × Bytes)) (name : Bytes) :
    valuesOf (fields.map fun f => (f.1, trim f.2)) name = (valuesOf fields name).map trim := by
  simp only [valuesOf, List.filter_map, List.map_map]
  rfl

theorem valuesIn_append (ls ls' : List Bytes) (name : Bytes) :
    valuesIn (ls ++ ls') name = valuesIn ls name ++ valuesIn ls' name := by
  rw [valuesIn, List.map_append, valuesOf_append]
  rfl

theorem valuesIn_eq_nil {ls : List Bytes} {name : Bytes} :
    valuesIn ls name = [] ↔ ∀ l ∈ ls, toLower (field l).1 ≠ toLower name := by
  simp [valuesIn, valuesOf_eq_nil]

theorem valuesIn_perm {ls ls' : List Bytes} (h : ls.Perm ls') (name : Bytes) :
    (valuesIn ls name).Perm (valuesIn ls' name) :=
  ((h.map field).filter _).map _

theorem valuesIn_plain {fields : List (Bytes × Bytes)} (h : ∀ f ∈ fields, Plain f) (name : Bytes) :
    valuesIn (linesOf .crlf fields) name = (valuesOf fields name).map trim := by
  rw [valuesIn, linesOf_plain h, map_field_fieldLine fun f hf => (h f hf).colon, valuesOf_trimmed]

/-- The lines of fields: those with their names, and what their values have
behind the first line. -/
theorem linesOf_perm {fields : List (Bytes × Bytes)} (h : ∀ f ∈ fields, Whole e f.1) :
    (linesOf e fields).Perm
      ((fields.flatMap fun f => behind e f.2) ++ fields.map fun f => fieldLine (f.1, firstLine e f.2)) := by
  induction fields with
  | nil => exact .refl _
  | cons f fields ih =>
    rw [List.forall_mem_cons] at h
    have hf : linesOf e (f :: fields) =
        fieldLine (f.1, firstLine e f.2) :: (behind e f.2 ++ linesOf e fields) := by
      rw [← List.cons_append, ← split_fieldLine h.1]
      rfl
    rw [hf, List.flatMap_cons, List.map_cons, List.append_assoc]
    refine .trans (.cons _ (.append_left _ (ih h.2))) ?_
    rw [← List.append_assoc, ← List.append_assoc]
    exact List.perm_middle.symm

theorem valuesIn_named {fields : List (Bytes × Bytes)} (h : ∀ f ∈ fields, COLON ∉ f.1) (name : Bytes) :
    valuesIn (fields.map fun f => fieldLine (f.1, firstLine e f.2)) name =
      (valuesOf fields name).map fun v => trim (firstLine e v) := by
  have hfields : (fields.map fun f => fieldLine (f.1, firstLine e f.2)).map field =
      fields.map fun f => (f.1, trim (firstLine e f.2)) := by
    rw [List.map_map]
    apply List.map_congr_left
    intro f hf
    exact field_fieldLine (f := (f.1, firstLine e f.2)) (h f hf)
  simp only [valuesIn, hfields, valuesOf, List.filter_map, List.map_map]
  rfl

end

end Head
