import MyselfServer.Text

/-!
# Names of files

A name is resolved component by component, by its text alone: empty
components and `.` stay where they are, `..` goes to the parent. A relative
name can climb above the place it starts from; `ups` counts how far.
`StaysBelow` says that a name leads through another one and never out of it.
-/

namespace PathName

open Text

def SEP : UInt8 := 47

def HERE : Bytes := bytes "."

def UP : Bytes := bytes ".."

structure Place where
  ups : Nat := 0
  names : List Bytes := []
  deriving DecidableEq

def components (name : Bytes) : List Bytes := name.splitOn SEP

def isAbsolute (name : Bytes) : Bool := name.head? == some SEP

/-- The root is its own parent. -/
def enter (absolute : Bool) (p : Place) (c : Bytes) : Place :=
  if c = [] ∨ c = HERE then p
  else if c = UP then
    match p.names with
    | [] => if absolute then p else { p with ups := p.ups + 1 }
    | _ :: names => { p with names := names }
  else { p with names := c :: p.names }

def walk (absolute : Bool) (p : Place) (cs : List Bytes) : Place := cs.foldl (enter absolute) p

def resolve (name : Bytes) : Place := walk (isAbsolute name) {} (components name)

/-- The second place is the first one, or lies below it. -/
structure Below (p q : Place) : Prop where
  ups : q.ups = p.ups
  names : p.names <:+ q.names

/-- The name goes to the place of `root` first, and at none of its further
components it is above it. -/
def StaysBelow (root name : Bytes) : Prop :=
  ∃ further, components name = components root ++ further ∧
    ∀ before, before <+: further →
      Below (resolve root) (walk (isAbsolute name) {} (components root ++ before))

theorem Below.refl (p : Place) : Below p p := ⟨rfl, List.suffix_refl _⟩

theorem Below.trans {p q r : Place} (h : Below p q) (h' : Below q r) : Below p r :=
  ⟨h'.ups.trans h.ups, h.names.trans h'.names⟩

theorem below_enter {absolute : Bool} {p : Place} {c : Bytes} (h : c ≠ UP) :
    Below p (enter absolute p c) := by
  unfold enter
  split
  · exact Below.refl p
  · exact ⟨rfl, List.suffix_cons _ _⟩

/-- Without `..` a walk only goes down. -/
theorem below_walk {absolute : Bool} {cs : List Bytes} (h : UP ∉ cs) (p : Place) :
    Below p (walk absolute p cs) := by
  induction cs generalizing p with
  | nil => exact Below.refl p
  | cons c cs ih =>
    rw [List.mem_cons, not_or] at h
    exact (below_enter (Ne.symm h.1)).trans (ih h.2 _)

theorem walk_append (absolute : Bool) (p : Place) (cs cs' : List Bytes) :
    walk absolute p (cs ++ cs') = walk absolute (walk absolute p cs) cs' := List.foldl_append

theorem components_append (a b : Bytes) : components (a ++ SEP :: b) = components a ++ components b :=
  List.splitOn_append_cons_self a b

theorem infix_of_mem_components {name c : Bytes} (h : c ∈ components name) : c <:+: name :=
  infix_of_mem_splitOn h

/-- Where a name starts from does not change when something is put behind it. -/
theorem walk_root (root path : Bytes) :
    walk (isAbsolute (root ++ SEP :: path)) {} (components root) = resolve root := by
  cases root with
  | nil => rfl
  | cons c root => rfl

/-- What is put behind a name does not lead out of it without `..`. -/
theorem staysBelow_append (root : Bytes) {path : Bytes} (h : ¬ UP <:+: path) :
    StaysBelow root (root ++ SEP :: path) := by
  refine ⟨components path, components_append root path, ?_⟩
  intro before hbefore
  rw [walk_append, walk_root]
  apply below_walk
  intro hin
  exact h (infix_of_mem_components (hbefore.subset hin))

theorem StaysBelow.below {root name : Bytes} (h : StaysBelow root name) :
    Below (resolve root) (resolve name) := by
  obtain ⟨further, hname, hbelow⟩ := h
  have hall := hbelow further (List.prefix_refl _)
  rw [← hname] at hall
  exact hall

end PathName
