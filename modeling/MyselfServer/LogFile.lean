import MyselfServer.HttpDate
import MyselfServer.Machine

/-!
# Log files

`LogFile` appends to a file and rolls to another one by size and by day. The
clock, the time zone and the answers of `fopen` and `fwrite` are given. Two
rolls in one second open one name, and the file of that name goes on growing.
-/

namespace Myself

open Text Machine

def kRollPerSeconds : Int := 24 * 60 * 60

/-- What a log file is made with, the process, and `localtime_r`. The interval
is `flushIntervalSeconds_` as a `time_t`. -/
structure LogFileOptions where
  baseName : Bytes
  rollSize : Nat
  flushInterval : Int
  checkEveryN : Int
  pid : Nat
  localTime : Int → Tm

namespace LogFileOptions

def timeText (tm : Tm) : Bytes :=
  toText (tm.tm_year + 1900) ++ twoDigits (tm.tm_mon + 1) ++ twoDigits tm.tm_mday ++ bytes "-" ++
    twoDigits tm.tm_hour ++ twoDigits tm.tm_min ++ twoDigits tm.tm_sec

def makeFileName (o : LogFileOptions) (now : Int) : Bytes :=
  o.baseName ++ bytes "." ++ timeText (o.localTime now) ++ bytes "." ++ toText o.pid ++ bytes ".log"

end LogFileOptions

structure Roll where
  now : Int
  opens : Bool
  deriving DecidableEq

structure LogWrite where
  name : Bytes
  size : Nat
  written : Nat
  deriving DecidableEq

/-- `writes` and `opened` are the history of the files. -/
structure LogFile where
  options : LogFileOptions
  count : Int := 0
  writtenBytes : Nat := 0
  lastFlush : Int := 0
  lastRoll : Int := 0
  file : Option Bytes := none
  writes : List LogWrite := []
  opened : List Bytes := []

namespace LogFile

def rollFileLocked (s : LogFile) (r : Roll) : LogFile :=
  if r.opens then
    let name := s.options.makeFileName r.now
    { s with
      file := some name
      writtenBytes := 0
      count := 0
      lastRoll := r.now
      lastFlush := r.now
      opened := s.opened ++ [name] }
  else { s with file := none }

def fwrite (s : LogFile) (name : Bytes) (size written : Nat) : LogFile :=
  { s with
    writtenBytes := s.writtenBytes + written
    count := s.count + 1
    writes := s.writes ++ [⟨name, size, written⟩] }

def rollLast (s : LogFile) : List Roll → Option LogFile
  | [r] => some (s.rollFileLocked r)
  | _ => none

def noRoll (s : LogFile) : List Roll → Option LogFile
  | [] => some s
  | _ => none

def check (s : LogFile) (rolls : List Roll) (now : Int) : Option LogFile :=
  if s.writtenBytes > s.options.rollSize then s.rollLast rolls
  else if s.count ≥ s.options.checkEveryN then
    let flushed := { s with
      count := 0
      lastFlush := if now - s.lastFlush ≥ s.options.flushInterval then now else s.lastFlush }
    if now - s.lastRoll ≥ kRollPerSeconds then flushed.rollLast rolls else flushed.noRoll rolls
  else s.noRoll rolls

def write (s : LogFile) (size written : Nat) (rolls : List Roll) (now : Int) : Option LogFile :=
  match s.file with
  | none => s.noRoll rolls
  | some name => if written ≤ size then (s.fwrite name size written).check rolls now else none

def append (s : LogFile) (size written : Nat) (rolls : List Roll) (now : Int) : Option LogFile :=
  match s.file, rolls with
  | some _, rolls => s.write size written rolls now
  | none, [] => none
  | none, r :: rolls => (s.rollFileLocked r).write size written rolls now

inductive Event where
  | append (size written : Nat) (rolls : List Roll) (now : Int)
  | rollFile (r : Roll)
  | flush
  deriving DecidableEq

def Event.rolls : Event → List Roll
  | append _ _ rolls _ => rolls
  | rollFile r => [r]
  | flush => []

def step (s : LogFile) : Event → Option LogFile
  | .append size written rolls now => s.append size written rolls now
  | .rollFile r => some (s.rollFileLocked r)
  | .flush => some s

def start (o : LogFileOptions) (r : Roll) : LogFile := rollFileLocked { options := o } r

def bytesUnder (s : LogFile) (name : Bytes) : Nat :=
  ((s.writes.filter fun w => w.name = name).map LogWrite.written).sum

def lastAppend (s : LogFile) (name : Bytes) : Nat :=
  ((s.writes.filter fun w => w.name = name).getLast?.map LogWrite.size).getD 0

def Limited (s : LogFile) : Prop :=
  ∀ name, s.bytesUnder name ≤ s.options.rollSize + s.lastAppend name

def FreshRolls (s : LogFile) (rolls : List Roll) : Prop :=
  (s.opened ++ (rolls.filter Roll.opens).map fun r => s.options.makeFileName r.now).Nodup

def FreshNames (s : LogFile) (e : Event) : Prop := s.FreshRolls e.rolls

section
variable {s s' : LogFile} {name : Bytes} {r : Roll} {rolls : List Roll}

theorem bytesUnder_fwrite (s : LogFile) (name : Bytes) (size written : Nat) (other : Bytes) :
    (s.fwrite name size written).bytesUnder other =
      s.bytesUnder other + if name = other then written else 0 := by
  rw [bytesUnder, bytesUnder, fwrite, List.filter_append, List.map_append, List.sum_append]
  by_cases h : name = other <;> simp [h]

theorem lastAppend_fwrite (s : LogFile) (name : Bytes) (size written : Nat) (other : Bytes) :
    (s.fwrite name size written).lastAppend other =
      if name = other then size else s.lastAppend other := by
  rw [lastAppend, lastAppend, fwrite, List.filter_append]
  by_cases h : name = other <;> simp [h]

/-- The file that is open has a name that was opened, and the counter counts
its bytes. -/
structure Kept (s : LogFile) : Prop where
  named : ∀ w ∈ s.writes, w.name ∈ s.opened
  current : ∀ name, s.file = some name → name ∈ s.opened ∧ s.bytesUnder name = s.writtenBytes
  limited : s.Limited

structure Inv (s : LogFile) : Prop where
  kept : s.Kept
  small : s.file ≠ none → s.writtenBytes ≤ s.options.rollSize

theorem Kept.unwritten (h : s.Kept) (hname : name ∉ s.opened) : s.bytesUnder name = 0 := by
  have hnone : s.writes.filter (fun w => w.name = name) = [] := by
    rw [List.filter_eq_nil_iff]
    intro w hw heq
    rw [decide_eq_true_eq] at heq
    exact hname (heq ▸ h.named w hw)
  rw [bytesUnder, hnone]
  rfl

theorem Kept.roll (h : s.Kept) (hfresh : r.opens = true → s.options.makeFileName r.now ∉ s.opened) :
    (s.rollFileLocked r).Inv := by
  unfold rollFileLocked
  by_cases hopens : r.opens = true
  · rw [if_pos hopens]
    refine ⟨⟨?_, ?_, h.limited⟩, fun _ => Nat.zero_le _⟩
    · intro w hw
      exact List.mem_append_left _ (h.named w hw)
    · intro name hname
      cases hname
      exact ⟨List.mem_append_right _ (List.mem_singleton_self _), h.unwritten (hfresh hopens)⟩
  · rw [if_neg hopens]
    exact ⟨⟨h.named, (fun _ hname => by cases hname), h.limited⟩, fun hfile => absurd rfl hfile⟩

theorem FreshRolls.roll (h : s.FreshRolls (r :: rolls)) :
    (r.opens = true → s.options.makeFileName r.now ∉ s.opened) ∧
      (s.rollFileLocked r).FreshRolls rolls := by
  unfold FreshRolls at h
  unfold rollFileLocked
  by_cases hopens : r.opens = true
  · rw [List.filter_cons_of_pos hopens, List.map_cons, List.append_cons] at h
    rw [if_pos hopens]
    refine ⟨fun _ hmem => ?_, h⟩
    have hfront := (List.nodup_append.mp h).1
    exact (List.nodup_append.mp hfront).2.2 _ hmem _ (List.mem_singleton_self _) rfl
  · rw [List.filter_cons_of_neg hopens] at h
    rw [if_neg hopens]
    exact ⟨fun hyes => absurd hyes hopens, h⟩

theorem Kept.rollLast (h : s.Kept) (hfresh : s.FreshRolls rolls) (hs : s.rollLast rolls = some s') :
    s'.Inv := by
  unfold LogFile.rollLast at hs
  split at hs
  · cases hs
    exact h.roll hfresh.roll.1
  · cases hs

theorem noRoll_eq (hs : s.noRoll rolls = some s') : s' = s := by
  unfold noRoll at hs
  split at hs
  · exact (Option.some.inj hs).symm
  · cases hs

/-- An append goes past the limit by no more than its own size. -/
theorem Inv.fwrite (h : s.Inv) (hfile : s.file = some name) {size written : Nat} (hle : written ≤ size) :
    (s.fwrite name size written).Kept := by
  obtain ⟨hopened, hbytes⟩ := h.kept.current name hfile
  have hsmall := h.small (by rw [hfile]; exact Option.some_ne_none name)
  refine ⟨?_, ?_, ?_⟩
  · intro w hw
    rcases List.mem_append.mp hw with hw | hw
    · exact h.kept.named w hw
    · rw [List.mem_singleton.mp hw]
      exact hopened
  · intro other hother
    obtain rfl : name = other := Option.some.inj (hfile.symm.trans hother)
    refine ⟨hopened, ?_⟩
    rw [bytesUnder_fwrite, if_pos rfl, hbytes]
    rfl
  · intro other
    rw [bytesUnder_fwrite, lastAppend_fwrite]
    by_cases hother : name = other
    · subst hother
      rw [if_pos rfl, if_pos rfl, hbytes]
      exact Nat.add_le_add hsmall hle
    · rw [if_neg hother, if_neg hother]
      exact h.kept.limited other

theorem Kept.check (h : s.Kept) (hfresh : s.FreshRolls rolls) {now : Int}
    (hs : s.check rolls now = some s') : s'.Inv := by
  unfold LogFile.check at hs
  split at hs
  · exact h.rollLast hfresh hs
  · rename_i hsmall
    split at hs
    · dsimp only at hs
      split at hs
      · refine Kept.rollLast ?_ ?_ hs
        · exact ⟨h.named, h.current, h.limited⟩
        · exact hfresh
      · rw [noRoll_eq hs]
        exact ⟨⟨h.named, h.current, h.limited⟩, fun _ => Nat.le_of_not_lt hsmall⟩
    · rw [noRoll_eq hs]
      exact ⟨h, fun _ => Nat.le_of_not_lt hsmall⟩

theorem Inv.write (h : s.Inv) (hfresh : s.FreshRolls rolls) {size written : Nat} {now : Int}
    (hs : s.write size written rolls now = some s') : s'.Inv := by
  unfold LogFile.write at hs
  split at hs
  · rw [noRoll_eq hs]
    exact h
  · rename_i name hfile
    split at hs
    · rename_i hle
      exact (h.fwrite hfile hle).check hfresh hs
    · cases hs

theorem Inv.append (h : s.Inv) (hfresh : s.FreshRolls rolls) {size written : Nat} {now : Int}
    (hs : s.append size written rolls now = some s') : s'.Inv := by
  unfold LogFile.append at hs
  split at hs
  · exact h.write hfresh hs
  · cases hs
  · obtain ⟨hone, hrest⟩ := hfresh.roll
    exact (h.kept.roll hone).write hrest hs

theorem inv_step {e : Event} (h : s.Inv) (hfresh : s.FreshNames e) (hs : s.step e = some s') : s'.Inv := by
  cases e with
  | append size written rolls now => exact h.append hfresh hs
  | rollFile r =>
    cases hs
    exact h.kept.roll (FreshRolls.roll hfresh).1
  | flush =>
    cases hs
    exact h

theorem inv_start (o : LogFileOptions) (r : Roll) : (start o r).Inv := by
  have hkept : Kept { options := o } :=
    ⟨fun _ hw => absurd hw List.not_mem_nil, (fun _ hname => by cases hname), fun _ => Nat.zero_le _⟩
  exact hkept.roll fun _ => List.not_mem_nil

/-- **No file outgrows its limit by more than its last append**, as long as no
roll opens a name a second time. -/
theorem files_limited {o : LogFileOptions} (h : Reached step FreshNames (start o r) s) : s.Limited :=
  (h.invariant (inv_start o r) fun _ _ _ hi hc hs => inv_step hi hc hs).kept.limited

end

instance (s : LogFile) (e : Event) : Decidable (s.FreshNames e) :=
  inferInstanceAs (Decidable (List.Nodup _))

def smallFiles : LogFileOptions where
  baseName := bytes "server"
  rollSize := 10
  flushInterval := 3
  checkEveryN := 1024
  pid := 12345
  localTime := utcTm

def appendAt (now : Int) : Event := .append 20 20 [⟨now, true⟩] now

theorem files_limited_seconds : ∃ s : LogFile, s.opened.length = 3 ∧ s.Limited := by
  have hrun : (runIf step FreshNames (start smallFiles ⟨1790000000, true⟩)
      [appendAt 1790000001, appendAt 1790000002]).map (fun s => s.opened.length) = some 3 := by
    decide +kernel
  obtain ⟨s, hs, hlen⟩ := Option.map_eq_some_iff.mp hrun
  exact ⟨s, hlen, files_limited (Reached.of_runIf hs)⟩

/-- Three appends in one second all go to one file. -/
theorem one_second_one_file : ∃ s, run step (start smallFiles ⟨1790000000, true⟩)
      [appendAt 1790000000, appendAt 1790000000, appendAt 1790000000] = some s ∧
    s.bytesUnder (bytes "server.20260921-141320.12345.log") = 60 ∧ ¬ s.Limited := by
  have hend : (run step (start smallFiles ⟨1790000000, true⟩)
      [appendAt 1790000000, appendAt 1790000000, appendAt 1790000000]).map
        (fun s => (s.options.rollSize, s.bytesUnder (bytes "server.20260921-141320.12345.log"),
          s.lastAppend (bytes "server.20260921-141320.12345.log"))) = some (10, 60, 20) := by
    decide +kernel
  obtain ⟨s, hs, hsizes⟩ := Option.map_eq_some_iff.mp hend
  obtain ⟨hroll, hsizes⟩ := Prod.mk.inj hsizes
  obtain ⟨hbytes, hlast⟩ := Prod.mk.inj hsizes
  refine ⟨s, hs, hbytes, fun hlimited => ?_⟩
  have hle := hlimited (bytes "server.20260921-141320.12345.log")
  rw [hroll, hbytes, hlast] at hle
  exact absurd hle (by decide)

end LogFile

end Myself
