import MyselfServer.Numeral

/-!
# JSON texts

Objects, strings and numbers, written one after another without blanks.
`read_write` says that a reader of the grammar gets back the value that was
written, and that it takes nothing of what stands behind it.
-/

namespace Json

open Text Numeral

mutual
inductive Value where
  | number (text : Bytes)
  | string (text : Bytes)
  | object (members : Members)

inductive Members where
  | nil
  | cons (name : Bytes) (value : Value) (rest : Members)
end

def Members.ofList : List (Bytes × Value) → Members
  | [] => .nil
  | m :: ms => .cons m.1 m.2 (.ofList ms)

def Members.names : Members → List Bytes
  | .nil => []
  | .cons name _ rest => name :: rest.names

mutual
def Value.numbers : Value → List Bytes → List (List Bytes × Bytes)
  | .number text, path => [(path, text)]
  | .string _, _ => []
  | .object members, path => members.numbers path

def Members.numbers : Members → List Bytes → List (List Bytes × Bytes)
  | .nil, _ => []
  | .cons name value rest, path => value.numbers (path ++ [name]) ++ rest.numbers path
end

/-! ## Writing -/

def quoted (text : Bytes) : Bytes := QUOTE :: (text ++ [QUOTE])

mutual
def Value.write : Value → Bytes
  | .number text => text
  | .string text => quoted text
  | .object members => OPEN :: members.write []

/-- The members and the bracket behind them, with `between` in front of the first. -/
def Members.write : Members → Bytes → Bytes
  | .nil, _ => [CLOSE]
  | .cons name value rest, between => between ++ (quoted name ++ COLON :: (value.write ++ rest.write [COMMA]))
end

/-! ## Reading -/

def isPlain (c : UInt8) : Bool := c ≠ QUOTE && c ≠ 92 && 32 ≤ c

def isInteger (s : Bytes) : Bool := isDigitString s && (s.length = 1 || s.head? ≠ some 48)

def isPower (s : Bytes) : Bool := s = [] || (exponentOf s).isSome

def isUnsigned (s : Bytes) : Bool :=
  let rest := s.dropWhile isDigit
  if rest.head? = some DOT then
    isInteger (s.takeWhile isDigit) && isDigitString (rest.tail.takeWhile isDigit) &&
      isPower (rest.tail.dropWhile isDigit)
  else isInteger (s.takeWhile isDigit) && isPower rest

def isNumber (s : Bytes) : Bool := if s.head? = some 45 then isUnsigned s.tail else isUnsigned s

def readQuoted (s : Bytes) : Option (Bytes × Bytes) :=
  if s.head? = some QUOTE then
    let rest := s.tail.dropWhile isPlain
    if rest.head? = some QUOTE then some (s.tail.takeWhile isPlain, rest.tail) else none
  else none

mutual
def readValue : Nat → Bytes → Option (Value × Bytes)
  | 0, _ => none
  | n + 1, s =>
    if s.head? = some QUOTE then (readQuoted s).map fun p => (.string p.1, p.2)
    else if s.head? = some OPEN then (readMembers n true s.tail).map fun p => (.object p.1, p.2)
    else if isNumber (s.takeWhile isMark) then some (.number (s.takeWhile isMark), s.dropWhile isMark)
    else none

/-- The members behind a bracket, or behind the first of them. An object with
a name twice is refused. -/
def readMembers : Nat → Bool → Bytes → Option (Members × Bytes)
  | 0, _, _ => none
  | n + 1, first, s =>
    if s.head? = some CLOSE then some (.nil, s.tail)
    else if first = false ∧ s.head? ≠ some COMMA then none
    else
      (readQuoted (if first then s else s.tail)).bind fun p =>
        if p.2.head? = some COLON then
          (readValue n p.2.tail).bind fun q =>
            (readMembers n false q.2).bind fun r =>
              if r.1.names.contains p.1 then none else some (.cons p.1 q.1 r.1, r.2)
        else none
end

def read (s : Bytes) : Option Value :=
  (readValue s.length s).bind fun p => if p.2 = [] then some p.1 else none

/-! ## Strings -/

mutual
def Value.Plain : Value → Prop
  | .number text => isNumber text = true ∧ ∀ c ∈ text, isMark c = true
  | .string text => ∀ c ∈ text, isPlain c = true
  | .object members => members.Plain

def Members.Plain : Members → Prop
  | .nil => True
  | .cons name value rest => (∀ c ∈ name, isPlain c = true) ∧ name ∉ rest.names ∧ value.Plain ∧ rest.Plain
end

mutual
def Value.size : Value → Nat
  | .object members => members.size + 1
  | _ => 1

def Members.size : Members → Nat
  | .nil => 1
  | .cons _ value rest => value.size + rest.size + 1
end

theorem readQuoted_quoted {text : Bytes} (h : ∀ c ∈ text, isPlain c = true) (rest : Bytes) :
    readQuoted (quoted text ++ rest) = some (text, rest) := by
  have hquote : isPlain QUOTE = false := by decide
  have hsplit : quoted text ++ rest = QUOTE :: (text ++ QUOTE :: rest) := by simp [quoted]
  have htake : (text ++ QUOTE :: rest).takeWhile isPlain = text := by
    rw [List.takeWhile_append_of_pos h]
    simp [hquote]
  have hdrop : (text ++ QUOTE :: rest).dropWhile isPlain = QUOTE :: rest := by
    rw [List.dropWhile_append_of_pos h]
    simp [hquote]
  rw [hsplit]
  unfold readQuoted
  simp only [List.head?_cons, if_true, List.tail_cons, htake, hdrop]

/-! ## Numbers -/

theorem number_head {text : Bytes} (h : isNumber text = true) : ∃ c rest, text = c :: rest := by
  cases text with
  | nil => cases h
  | cons c rest => exact ⟨c, rest, rfl⟩

theorem behind_member (ms : Members) (rest : Bytes) {c : UInt8} (h : (ms.write [COMMA] ++ rest).head? = some c) :
    isMark c = false := by
  cases ms with
  | nil =>
    cases h
    decide
  | cons name value ms =>
    cases h
    decide

mutual
theorem readValue_write : ∀ (v : Value) (n : Nat) (rest : Bytes), v.Plain → v.size ≤ n →
    (∀ c, rest.head? = some c → isMark c = false) → readValue n (v.write ++ rest) = some (v, rest)
  | v, 0, _, _, hn, _ => by
    cases v <;> simp [Value.size] at hn
  | .number text, n + 1, rest, h, _, hrest => by
    obtain ⟨c, t, htext⟩ := number_head h.1
    have hmark : isMark c = true := h.2 c (by rw [htext]; exact List.mem_cons_self ..)
    have hhead : (text ++ rest).head? = some c := by rw [htext]; rfl
    have hquote : ¬ c = QUOTE := fun heq => absurd (heq ▸ hmark) (by decide)
    have hopen : ¬ c = OPEN := fun heq => absurd (heq ▸ hmark) (by decide)
    have hstop : rest.takeWhile isMark = [] ∧ rest.dropWhile isMark = rest := by
      cases rest with
      | nil => exact ⟨rfl, rfl⟩
      | cons d rest => simp [hrest d rfl]
    show readValue (n + 1) (text ++ rest) = _
    unfold readValue
    rw [hhead, List.takeWhile_append_of_pos h.2, List.dropWhile_append_of_pos h.2, hstop.1, hstop.2, List.append_nil]
    simp only [Option.some.injEq, hquote, hopen, if_false, h.1, if_true]
  | .string text, n + 1, rest, h, _, _ => by
    have hhead : (quoted text ++ rest).head? = some QUOTE := rfl
    show readValue (n + 1) (quoted text ++ rest) = _
    unfold readValue
    rw [hhead, if_pos rfl, readQuoted_quoted h]
    rfl
  | .object members, n + 1, rest, h, hn, _ => by
    have hmembers := readMembers_write members n true rest h (Nat.le_of_succ_le_succ hn)
    have hhead : ((OPEN :: members.write []) ++ rest).head? = some OPEN := rfl
    have hopen : ¬ some OPEN = some QUOTE := by decide
    show readValue (n + 1) ((OPEN :: members.write []) ++ rest) = _
    unfold readValue
    rw [hhead, if_neg hopen, if_pos rfl]
    show (readMembers n true (members.write [] ++ rest)).map _ = _
    simp only [if_true] at hmembers
    rw [hmembers]
    rfl

theorem readMembers_write : ∀ (ms : Members) (n : Nat) (first : Bool) (rest : Bytes), ms.Plain → ms.size ≤ n →
    readMembers n first (ms.write (if first = true then [] else [COMMA]) ++ rest) = some (ms, rest)
  | ms, 0, _, _, _, hn => by
    cases ms <;> simp [Members.size] at hn
  | .nil, n + 1, first, rest, _, _ => by
    show readMembers (n + 1) first (CLOSE :: rest) = _
    unfold readMembers
    rfl
  | .cons name value ms, n + 1, first, rest, h, hn => by
    obtain ⟨hname, hfresh, hvalue, hms⟩ := h
    simp only [Members.size] at hn
    have hread := readValue_write value n (ms.write [COMMA] ++ rest) hvalue (by omega)
      fun c hc => behind_member ms rest hc
    have hrest := readMembers_write ms n false rest hms (by omega)
    simp only [Bool.false_eq_true, if_false] at hrest
    have hquoted := readQuoted_quoted hname (COLON :: (value.write ++ (ms.write [COMMA] ++ rest)))
    have hmember : ∀ between, Members.write (.cons name value ms) between ++ rest =
        between ++ (quoted name ++ COLON :: (value.write ++ (ms.write [COMMA] ++ rest))) := by
      intro between
      simp [Members.write]
    have hclose : ¬ some QUOTE = some CLOSE := by decide
    have hclose' : ¬ some COMMA = some CLOSE := by decide
    have hnames : ms.names.contains name = false := by simpa using hfresh
    rw [hmember]
    unfold readMembers
    cases first with
    | true =>
      have hhead : (quoted name ++ COLON :: (value.write ++ (ms.write [COMMA] ++ rest))).head? = some QUOTE := rfl
      simp only [if_true, List.nil_append, hhead, hclose, if_false, Bool.true_eq_false, false_and, hquoted,
        Option.bind_some, List.head?_cons, List.tail_cons, hread, hrest, hnames, Bool.false_eq_true]
    | false =>
      simp only [Bool.false_eq_true, if_false, List.cons_append, List.nil_append, List.head?_cons, hclose', ne_eq,
        not_true_eq_false, and_false, List.tail_cons, hquoted, Option.bind_some, if_true, hread, hrest, hnames]
end

mutual
theorem size_le_length : ∀ v : Value, v.Plain → v.size ≤ v.write.length
  | .number text, h => by
    obtain ⟨c, t, htext⟩ := number_head h.1
    simp [Value.size, Value.write, htext]
  | .string text, _ => by simp [Value.size, Value.write, quoted]
  | .object members, h => by
    have hmembers := members_size members [] h
    simp only [Value.size, Value.write, List.length_cons]
    omega

theorem members_size : ∀ (ms : Members) (between : Bytes), ms.Plain → ms.size ≤ (ms.write between).length
  | .nil, _, _ => by simp [Members.size, Members.write]
  | .cons name value ms, between, h => by
    have hvalue := size_le_length value h.2.2.1
    have hms := members_size ms [COMMA] h.2.2.2
    simp only [Members.size, Members.write, List.length_append, List.length_cons, quoted]
    omega
end

/-- **What is written is read again.** -/
theorem read_write {v : Value} (h : v.Plain) : read v.write = some v := by
  have hread := readValue_write v v.write.length [] h (size_le_length v h) fun c hc => by cases hc
  rw [List.append_nil] at hread
  unfold read
  rw [hread]
  rfl

end Json
