import MyselfServer.Head

/-!
# Messages one behind the other

A receiver of a stream of messages has, for each one it waits for, a rule that
tells the length of its body from its head. `readSome` takes apart what is
complete. It never takes back what it has read (`readSome_prefix`), and it
reads what was written, whatever comes behind it (`readSome_writeAll`).
-/

namespace Head

open Text

abbrev Rule := Bytes → List (Bytes × Bytes) → Option Nat

def next (rule : Rule) (raw : Bytes) : Option (Msg × Bytes) :=
  match read .crlf raw with
  | none => none
  | some m =>
    match rule m.first m.fields with
    | none => none
    | some n =>
      if n ≤ m.body.length then some ({ m with body := m.body.take n }, m.body.drop n) else none

def readSome : List Rule → Bytes → List Msg
  | [], _ => []
  | rule :: rules, raw =>
    match next rule raw with
    | none => []
    | some (m, rest) => m :: readSome rules rest

def Msg.trimmed (m : Msg) : Msg := { m with fields := m.fields.map fun f => (f.1, trim f.2) }

structure Fits (rule : Rule) (m : Msg) : Prop where
  first : ¬ CRLF <:+: m.first
  fields : ∀ f ∈ m.fields, Plain f
  length : rule m.first m.trimmed.fields = some m.body.length

variable {raw raw' line rest more : Bytes} {ls : List Bytes} {m : Msg} {rule : Rule} {rules : List Rule}

/-! ## More bytes arrive -/

theorem cutLine_more (h : cutLine .crlf raw = some (line, rest)) (more : Bytes) :
    cutLine .crlf (raw ++ more) = some (line, rest ++ more) := by
  simp only [cutLine] at h ⊢
  obtain ⟨k, hk, heq⟩ := Option.map_eq_some_iff.mp h
  have hlen : k + 2 ≤ raw.length := search_length hk
  simp only [Prod.mk.injEq] at heq
  rw [search_append more hk, Option.map_some, List.take_append_of_le_length (by omega),
    List.drop_append_of_le_length hlen, heq.1, heq.2]

theorem lines_more : ∀ {n n' : Nat} {raw : Bytes} {ls : List Bytes}, lines .crlf n raw = some (ls, rest) → n ≤ n' →
    lines .crlf n' (raw ++ more) = some (ls, rest ++ more)
  | 0, _, _, _, h, _ => by simp [lines] at h
  | n + 1, 0, _, _, _, hn => absurd hn (Nat.not_succ_le_zero n)
  | n + 1, n' + 1, raw, ls, h, hn => by
    unfold lines at h ⊢
    cases hcut : cutLine .crlf raw with
    | none =>
      rw [hcut] at h
      cases h
    | some p =>
      rw [hcut] at h
      rw [cutLine_more hcut more]
      by_cases hline : p.1 = []
      · simp only [if_pos hline, Option.some.injEq, Prod.mk.injEq] at h ⊢
        exact ⟨h.1, by rw [h.2]⟩
      · simp only [if_neg hline] at h ⊢
        obtain ⟨q, hq, heq⟩ := Option.map_eq_some_iff.mp h
        simp only [Prod.mk.injEq] at heq
        have hrest : lines .crlf n p.2 = some (q.1, rest) := by rw [hq, ← heq.2]
        rw [lines_more hrest (Nat.le_of_succ_le_succ hn), Option.map_some, heq.1]

theorem read_more (h : read .crlf raw = some m) (more : Bytes) :
    read .crlf (raw ++ more) = some { m with body := m.body ++ more } := by
  unfold read at h ⊢
  cases hcut : cutLine .crlf raw with
  | none =>
    rw [hcut] at h
    cases h
  | some p =>
    rw [hcut] at h
    rw [cutLine_more hcut more]
    obtain ⟨q, hq, rfl⟩ := Option.map_eq_some_iff.mp h
    have hlen : p.2.length ≤ (p.2 ++ more).length := by
      rw [List.length_append]
      omega
    have hlines := @lines_more q.2 more _ _ _ _ hq hlen
    simp only [hlines, Option.map_some]

theorem next_more (h : next rule raw = some (m, rest)) (more : Bytes) :
    next rule (raw ++ more) = some (m, rest ++ more) := by
  unfold next at h ⊢
  cases hread : read .crlf raw with
  | none =>
    rw [hread] at h
    cases h
  | some m' =>
    rw [hread] at h
    rw [read_more hread more]
    cases hrule : rule m'.first m'.fields with
    | none =>
      simp only [hrule] at h
      cases h
    | some n =>
      simp only [hrule] at h ⊢
      by_cases hn : n ≤ m'.body.length
      · have hn' : n ≤ (m'.body ++ more).length := by
          rw [List.length_append]
          omega
        rw [if_pos hn, Option.some.injEq, Prod.mk.injEq] at h
        rw [if_pos hn', List.take_append_of_le_length hn, List.drop_append_of_le_length hn, ← h.1, ← h.2]
      · rw [if_neg hn] at h
        cases h

/-- **What was read stays.** -/
theorem readSome_prefix (h : raw <+: raw') : readSome rules raw <+: readSome rules raw' := by
  induction rules generalizing raw raw' with
  | nil => exact List.prefix_rfl
  | cons rule rules ih =>
    obtain ⟨more, rfl⟩ := h
    unfold readSome
    cases hnext : next rule raw with
    | none => exact List.nil_prefix
    | some p =>
      rw [next_more hnext more, List.prefix_cons_inj]
      exact ih (List.prefix_append _ _)

/-! ## What was written -/

theorem next_write (h : Fits rule m) (behind : Bytes) :
    next rule (write m ++ behind) = some (m.trimmed, behind) := by
  have hwrite : write m ++ behind = write { m with body := m.body ++ behind } := by
    simp only [write, List.append_assoc]
  have hread := read_write (m := { m with body := m.body ++ behind }) h.first h.fields
  have hlen : m.body.length ≤ (m.body ++ behind).length := by
    rw [List.length_append]
    omega
  have hrule := h.length
  unfold Msg.trimmed at hrule ⊢
  unfold next
  rw [hwrite, hread]
  simp only [hrule, if_pos hlen, List.take_left, List.drop_left]

/-- **What was written is read**, whatever comes behind it. -/
theorem readSome_writeAll {ms : List Msg} (h : List.Forall₂ Fits rules ms) (behind : Bytes) :
    readSome rules (ms.flatMap write ++ behind) = ms.map Msg.trimmed := by
  induction h with
  | nil => rfl
  | cons hfits _ ih =>
    unfold readSome
    rw [List.flatMap_cons, List.append_assoc, next_write hfits, List.map_cons]
    simp only [ih]

/-- A front of what was written gives the first messages. -/
theorem readSome_front {ms : List Msg} (h : List.Forall₂ Fits rules ms) (behind : Bytes)
    (hfront : raw <+: ms.flatMap write ++ behind) : readSome rules raw <+: ms.map Msg.trimmed := by
  rw [← readSome_writeAll h behind]
  exact readSome_prefix hfront

end Head
