import MyselfServer.AsyncLogging
import MyselfServer.LogFile
import MyselfServer.Packing

/-!
# From the records to the files

The log as a whole: `AsyncLogging` in front of a `LogFile` that writes through
a `FILE`, whose buffer reaches the file when it is flushed or closed.
`records_in_files` says that the files hold every record once, in order and
whole, and `files_hold_handed` what a crash between two rounds leaves there.
-/

namespace Myself

open Text Machine Packing

/-! ## The files -/

def openName (names : List Bytes) (name : Bytes) : List Bytes := if name ∈ names then names else names ++ [name]

/-- A log file and the files that were made, in this order. What was passed to
`fwrite` is in `pending` until it reaches the file that is open. -/
structure LogStore where
  log : LogFile
  files : List (Bytes × Bytes) := []
  pending : Bytes := []

structure Told where
  lost : Nat := 0
  rolls : List Roll := []
  now : Int := 0

namespace LogStore

def names (s : LogStore) : List Bytes := s.files.map Prod.fst

def openFile (files : List (Bytes × Bytes)) (name : Bytes) : List (Bytes × Bytes) :=
  if name ∈ files.map Prod.fst then files else files ++ [(name, [])]

def extend (name data : Bytes) (f : Bytes × Bytes) : Bytes × Bytes := if f.1 = name then (f.1, f.2 ++ data) else f

def flush (s : LogStore) : LogStore :=
  match s.log.file with
  | none => s
  | some name => { s with files := s.files.map (extend name s.pending), pending := [] }

def rollFileLocked (s : LogStore) (r : Roll) : LogStore :=
  { s.flush with
    log := s.log.rollFileLocked r
    files := if r.opens then openFile s.flush.files (s.log.options.makeFileName r.now) else s.flush.files }

def fwrite (s : LogStore) (name data : Bytes) (lost : Nat) : LogStore :=
  { s with
    log := s.log.fwrite name data.length (data.length - lost)
    pending := s.pending ++ data.take (data.length - lost) }

def rollLast (s : LogStore) : List Roll → Option LogStore
  | [r] => some (s.rollFileLocked r)
  | _ => none

def noRoll (s : LogStore) : List Roll → Option LogStore
  | [] => some s
  | _ => none

def flushDue (s : LogStore) (now : Int) : LogStore :=
  let due := now - s.log.lastFlush ≥ s.log.options.flushInterval
  { if due then s.flush else s with
    log := { s.log with count := 0, lastFlush := if due then now else s.log.lastFlush } }

def check (s : LogStore) (rolls : List Roll) (now : Int) : Option LogStore :=
  if s.log.writtenBytes > s.log.options.rollSize then s.rollLast rolls
  else if s.log.count ≥ s.log.options.checkEveryN then
    if now - s.log.lastRoll ≥ kRollPerSeconds then (s.flushDue now).rollLast rolls
    else (s.flushDue now).noRoll rolls
  else s.noRoll rolls

def write (s : LogStore) (data : Bytes) (lost : Nat) (rolls : List Roll) (now : Int) : Option LogStore :=
  match s.log.file with
  | none => s.noRoll rolls
  | some name => (s.fwrite name data lost).check rolls now

def append (s : LogStore) (data : Bytes) (told : Told) : Option LogStore :=
  match s.log.file, told.rolls with
  | some _, rolls => s.write data told.lost rolls told.now
  | none, [] => none
  | none, r :: rolls => (s.rollFileLocked r).write data told.lost rolls told.now

def appendAll (s : LogStore) : List Bytes → List Told → Option LogStore
  | [], [] => some s
  | data :: datas, told :: tolds => (s.append data told).bind fun s' => s'.appendAll datas tolds
  | _, _ => none

def start (o : LogFileOptions) (r : Roll) : LogStore := rollFileLocked { log := { options := o } } r

theorem rollLast_log (s : LogStore) (rolls : List Roll) : (s.rollLast rolls).map log = s.log.rollLast rolls := by
  cases rolls with
  | nil => rfl
  | cons r rolls =>
    cases rolls with
    | nil => rfl
    | cons r' rolls => rfl

theorem noRoll_log (s : LogStore) (rolls : List Roll) : (s.noRoll rolls).map log = s.log.noRoll rolls := by
  cases rolls with
  | nil => rfl
  | cons r rolls => rfl

theorem check_log (s : LogStore) (rolls : List Roll) (now : Int) :
    (s.check rolls now).map log = s.log.check rolls now := by
  unfold check LogFile.check
  by_cases hsize : s.log.writtenBytes > s.log.options.rollSize
  · rw [if_pos hsize, if_pos hsize, rollLast_log]
  rw [if_neg hsize, if_neg hsize]
  by_cases hcount : s.log.count ≥ s.log.options.checkEveryN
  · rw [if_pos hcount, if_pos hcount]
    by_cases hday : now - s.log.lastRoll ≥ kRollPerSeconds
    · simp only [if_pos hday, rollLast_log]
      rfl
    · simp only [if_neg hday, noRoll_log]
      rfl
  · rw [if_neg hcount, if_neg hcount, noRoll_log]

theorem write_log (s : LogStore) (data : Bytes) (lost : Nat) (rolls : List Roll) (now : Int) :
    (s.write data lost rolls now).map log = s.log.write data.length (data.length - lost) rolls now := by
  unfold write LogFile.write
  cases s.log.file with
  | none => exact noRoll_log s rolls
  | some name =>
    simp only [if_pos (Nat.sub_le data.length lost)]
    exact check_log _ rolls now

/-- **The log of the store** is the log file, told what `fwrite` takes. -/
theorem append_log (s : LogStore) (data : Bytes) (told : Told) :
    (s.append data told).map log = s.log.append data.length (data.length - told.lost) told.rolls told.now := by
  unfold append LogFile.append
  cases s.log.file with
  | some name => exact write_log s data told.lost told.rolls told.now
  | none =>
    cases told.rolls with
    | nil => rfl
    | cons r rolls => exact write_log _ data told.lost rolls told.now

end LogStore

/-! ## The pipeline -/

/-- `pieces` are the calls of `LogFile::append`, by what they pass. -/
structure LogPipeline where
  front : AsyncLogging := { }
  store : LogStore
  pieces : List Bytes := []

inductive PipelineEvent where
  | front (e : LogEvent)
  | write (told : Told)
  | drain (tolds : List Told)

def LogEvent.appends : LogEvent → Bool
  | .write => true
  | .drain => true
  | _ => false

namespace LogPipeline

def writeBuffer (s : LogPipeline) (k : Nat) (told : Told) : Option LogPipeline :=
  match s.front.buffersToWrite[k]? with
  | none => some { s with front := s.front.writeBuffer k, store := s.store.flush }
  | some none => some { s with front := s.front.writeBuffer k }
  | some (some b) =>
    (s.store.append b.data told).map fun store =>
      { front := s.front.writeBuffer k, store := store, pieces := s.pieces ++ [b.data] }

def remaining (s : LogPipeline) : List Bytes :=
  (s.front.buffers ++ [s.front.current]).filterMap fun p => p.map FixedBuffer.data

def step (s : LogPipeline) : PipelineEvent → Option LogPipeline
  | .front e => if e.appends then none else (s.front.step e).map fun front => { s with front := front }
  | .write told =>
    match s.front.thread with
    | .writing k => s.writeBuffer k told
    | _ => none
  | .drain tolds =>
    if s.front.thread = .draining then
      (s.store.appendAll s.remaining tolds).map fun store =>
        { front := s.front.drain, store := store.flush, pieces := s.pieces ++ s.remaining }
    else none

def start (o : LogFileOptions) (r : Roll) : LogPipeline := { store := LogStore.start o r }

end LogPipeline

/-! ## What is assumed of the file system -/

/-- A name that was left is not opened again. -/
def Onward : List Bytes → List Bytes → Prop
  | _, [] => True
  | names, name :: more => name ∉ names.dropLast ∧ Onward (openName names name) more

/-- `fwrite` takes everything and `fopen` opens the file, under the name of the
last one or a new one. -/
def Takes (s : LogStore) (lost : Nat) (rolls : List Roll) : Prop :=
  lost = 0 ∧ (∀ r ∈ rolls, r.opens = true) ∧
    Onward s.names (rolls.map fun r => s.log.options.makeFileName r.now)

def TakesAll (s : LogStore) (tolds : List Told) : Prop :=
  (∀ told ∈ tolds, told.lost = 0) ∧ (∀ r ∈ tolds.flatMap Told.rolls, r.opens = true) ∧
    Onward s.names ((tolds.flatMap Told.rolls).map fun r => s.log.options.makeFileName r.now)

def LogPipeline.Stored (s : LogPipeline) : PipelineEvent → Prop
  | .front e => AsyncLogging.Logging s.front e
  | .write told => Takes s.store told.lost told.rolls
  | .drain tolds => TakesAll s.store tolds

/-! ## The files hold the pieces -/

namespace LogStore

section
variable {s s' : LogStore} {pieces : List Bytes} {rolls : List Roll} {now : Int}

/-- The open file is the last one, and the pieces are whole in the files when
what is pending gets there. -/
def Filed (pieces : List Bytes) (s : LogStore) : Prop :=
  ∃ fs name text, s.files = fs ++ [(name, text)] ∧ s.log.file = some name ∧ s.names.Nodup ∧
    Packs pieces (fs.map Prod.snd ++ [text ++ s.pending])

theorem extend_last {fs : List (Bytes × Bytes)} {name text : Bytes} (data : Bytes)
    (h : ((fs ++ [(name, text)]).map Prod.fst).Nodup) :
    (fs ++ [(name, text)]).map (extend name data) = fs ++ [(name, text ++ data)] := by
  have hfs : fs.map (extend name data) = fs := by
    rw [← List.map_id fs, List.map_map]
    apply List.map_congr_left
    intro f hf
    show extend name data f = f
    have hne : f.1 ≠ name := by
      intro heq
      rw [List.map_append, List.map_singleton, List.nodup_append] at h
      exact h.2.2 f.1 (List.mem_map_of_mem hf) name (List.mem_singleton_self _) heq
    unfold extend
    rw [if_neg hne]
  rw [List.map_append, hfs, List.map_singleton]
  simp [extend]

theorem names_extend (files : List (Bytes × Bytes)) (name data : Bytes) :
    (files.map (extend name data)).map Prod.fst = files.map Prod.fst := by
  rw [List.map_map]
  apply List.map_congr_left
  intro f _
  unfold Function.comp extend
  by_cases h : f.1 = name
  · rw [if_pos h]
  · rw [if_neg h]

/-- A flush leaves nothing pending. -/
theorem Filed.flush (h : s.Filed pieces) : s.flush.Filed pieces ∧ s.flush.pending = [] ∧ s.flush.log = s.log ∧
    s.flush.names = s.names := by
  obtain ⟨fs, name, text, hfiles, hfile, hnodup, hpacks⟩ := h
  have hnames : s.flush.names = s.names := by
    unfold LogStore.flush
    simp only [hfile]
    exact names_extend _ _ _
  unfold names at hnodup
  rw [hfiles] at hnodup
  have hext := extend_last s.pending hnodup
  unfold LogStore.flush at hnames ⊢
  simp only [hfile] at hnames ⊢
  refine ⟨⟨fs, name, text ++ s.pending, ?_, hfile, ?_, ?_⟩, trivial, trivial, hnames⟩
  · simp only [hfiles, hext]
  · rw [hnames]
    unfold names
    rw [hfiles]
    exact hnodup
  · rw [List.append_nil]
    exact hpacks

theorem openFile_names (files : List (Bytes × Bytes)) (name : Bytes) :
    (openFile files name).map Prod.fst = openName (files.map Prod.fst) name := by
  unfold openFile openName
  by_cases h : name ∈ files.map Prod.fst
  · rw [if_pos h, if_pos h]
  · rw [if_neg h, if_neg h, List.map_append, List.map_singleton]

/-- A roll to the last name goes on with its file, one to a new name begins one. -/
theorem Filed.roll (h : s.Filed pieces) {r : Roll} (hopens : r.opens = true)
    (hname : s.log.options.makeFileName r.now ∉ s.names.dropLast) :
    (s.rollFileLocked r).Filed pieces ∧
      (s.rollFileLocked r).names = openName s.names (s.log.options.makeFileName r.now) := by
  obtain ⟨⟨fs, name, text, hfiles, hfile, hnodup, hpacks⟩, hpending, hlog, hnames⟩ := h.flush
  have hlogfile : (s.log.rollFileLocked r).file = some (s.log.options.makeFileName r.now) := by
    unfold LogFile.rollFileLocked
    rw [if_pos hopens]
  have hopened : (s.rollFileLocked r).names = openName s.names (s.log.options.makeFileName r.now) := by
    rw [← hnames]
    unfold rollFileLocked names
    simp only [if_pos hopens, openFile_names]
  rw [hpending, List.append_nil] at hpacks
  refine ⟨?_, hopened⟩
  by_cases hin : s.log.options.makeFileName r.now ∈ s.flush.names
  · have hlast : s.log.options.makeFileName r.now = name := by
      rw [← hnames] at hname
      unfold names at hin hname
      rw [hfiles, List.map_append, List.map_singleton] at hin hname
      rw [List.dropLast_concat] at hname
      rcases List.mem_append.mp hin with hin | hin
      · exact absurd hin hname
      · exact List.mem_singleton.mp hin
    refine ⟨fs, name, text, ?_, ?_, ?_, ?_⟩
    · unfold rollFileLocked openFile
      simp only [if_pos hopens]
      unfold names at hin
      rw [if_pos hin, hfiles]
    · unfold rollFileLocked
      rw [← hlast]
      exact hlogfile
    · rw [hopened, ← hnames]
      unfold openName
      rw [if_pos hin]
      exact hnodup
    · have hsame : (s.rollFileLocked r).pending = [] := hpending
      rw [hsame, List.append_nil]
      exact hpacks
  · refine ⟨fs ++ [(name, text)], s.log.options.makeFileName r.now, [], ?_, ?_, ?_, ?_⟩
    · unfold rollFileLocked openFile
      simp only [if_pos hopens]
      unfold names at hin
      rw [if_neg hin, hfiles]
    · exact hlogfile
    · rw [hopened, ← hnames]
      unfold openName
      rw [if_neg hin]
      rw [List.nodup_append]
      refine ⟨hnodup, List.nodup_cons.mpr ⟨List.not_mem_nil, List.nodup_nil⟩, ?_⟩
      intro a ha b hb heq
      rw [List.mem_singleton.mp hb] at heq
      exact hin (heq ▸ ha)
    · have hsame : (s.rollFileLocked r).pending = [] := hpending
      rw [hsame, List.append_nil, List.map_append, List.map_singleton]
      exact hpacks.empty

/-- A piece goes to the file that is open. -/
theorem Filed.fwrite (h : s.Filed pieces) (name data : Bytes) :
    (s.fwrite name data 0).Filed (pieces ++ [data]) := by
  obtain ⟨fs, last, text, hfiles, hfile, hnodup, hpacks⟩ := h
  refine ⟨fs, last, text, hfiles, hfile, hnodup, ?_⟩
  have hmore : (s.fwrite name data 0).pending = s.pending ++ data := by
    unfold LogStore.fwrite
    simp only [Nat.sub_zero, List.take_length]
  have hfill := hpacks.fill data
  rw [List.append_assoc] at hfill
  exact hmore ▸ hfill

structure Rolled (pieces : List Bytes) (rolls : List Roll) (s s' : LogStore) : Prop where
  filed : s'.Filed pieces
  names : s'.names = (rolls.map fun r => s.log.options.makeFileName r.now).foldl openName s.names
  options : s'.log.options = s.log.options

structure Rolls (s : LogStore) (rolls : List Roll) : Prop where
  opens : ∀ r ∈ rolls, r.opens = true
  onward : Onward s.names (rolls.map fun r => s.log.options.makeFileName r.now)

theorem rollFileLocked_options (s : LogStore) (r : Roll) :
    (s.rollFileLocked r).log.options = s.log.options := by
  unfold rollFileLocked LogFile.rollFileLocked
  by_cases h : r.opens = true <;> simp [h]

theorem Filed.rollLast (h : s.Filed pieces) (hr : s.Rolls rolls) (hs : s.rollLast rolls = some s') :
    Rolled pieces rolls s s' := by
  unfold LogStore.rollLast at hs
  split at hs
  · rename_i r
    cases hs
    obtain ⟨hfiled, hnames⟩ := h.roll (hr.opens r (List.mem_singleton_self _)) hr.onward.1
    exact ⟨hfiled, hnames, rollFileLocked_options s r⟩
  · cases hs

theorem Filed.noRoll (h : s.Filed pieces) (hs : s.noRoll rolls = some s') : Rolled pieces rolls s s' := by
  unfold LogStore.noRoll at hs
  split at hs
  · cases hs
    exact ⟨h, rfl, rfl⟩
  · cases hs

theorem Filed.flushDue (h : s.Filed pieces) (now : Int) :
    (s.flushDue now).Filed pieces ∧ (s.flushDue now).names = s.names ∧
      (s.flushDue now).log.options = s.log.options := by
  obtain ⟨hflush, -, hlog, hnames⟩ := h.flush
  unfold LogStore.flushDue
  by_cases hdue : now - s.log.lastFlush ≥ s.log.options.flushInterval
  · simp only [if_pos hdue]
    obtain ⟨fs, name, text, hfiles, hfile, hnodup, hpacks⟩ := hflush
    exact ⟨⟨fs, name, text, hfiles, hlog ▸ hfile, hnodup, hpacks⟩, hnames, trivial⟩
  · simp only [if_neg hdue]
    exact ⟨h, rfl, trivial⟩

theorem Filed.check (h : s.Filed pieces) (hr : s.Rolls rolls) (hs : s.check rolls now = some s') :
    Rolled pieces rolls s s' := by
  obtain ⟨hfiled, hnames, hoptions⟩ := h.flushDue now
  have hdue : (s.flushDue now).Rolls rolls := ⟨hr.opens, by rw [hnames, hoptions]; exact hr.onward⟩
  unfold LogStore.check at hs
  split at hs
  · exact h.rollLast hr hs
  · split at hs
    · have hrolled : Rolled pieces rolls (s.flushDue now) s' := by
        split at hs
        · exact hfiled.rollLast hdue hs
        · exact hfiled.noRoll hs
      refine ⟨hrolled.filed, ?_, hrolled.options.trans hoptions⟩
      rw [hrolled.names, hnames, hoptions]
    · exact h.noRoll hs

/-- **An append** puts its piece into one file, whole. -/
theorem Filed.append (h : s.Filed pieces) {data : Bytes} {told : Told} (hlost : told.lost = 0)
    (hr : s.Rolls told.rolls) (hs : s.append data told = some s') :
    Rolled (pieces ++ [data]) told.rolls s s' := by
  obtain ⟨fs, name, text, hfiles, hfile, hnodup, hpacks⟩ := h
  have hfiled : s.Filed pieces := ⟨fs, name, text, hfiles, hfile, hnodup, hpacks⟩
  unfold LogStore.append LogStore.write at hs
  simp only [hfile, hlost] at hs
  have hrolled := (hfiled.fwrite name data).check ⟨hr.opens, hr.onward⟩ hs
  exact ⟨hrolled.filed, hrolled.names, hrolled.options⟩

theorem onward_append {names more later : List Bytes} (h : Onward names (more ++ later)) :
    Onward names more ∧ Onward (more.foldl openName names) later := by
  induction more generalizing names with
  | nil => exact ⟨trivial, h⟩
  | cons name more ih =>
    obtain ⟨hname, hrest⟩ := h
    obtain ⟨hmore, hlater⟩ := ih hrest
    exact ⟨⟨hname, hmore⟩, hlater⟩

theorem Filed.appendAll (h : s.Filed pieces) {datas : List Bytes} {tolds : List Told} (hk : TakesAll s tolds)
    (hs : s.appendAll datas tolds = some s') : s'.Filed (pieces ++ datas) := by
  induction datas generalizing s pieces tolds with
  | nil =>
    cases tolds with
    | nil =>
      cases hs
      rw [List.append_nil]
      exact h
    | cons told tolds => cases hs
  | cons data datas ih =>
    cases tolds with
    | nil => cases hs
    | cons told tolds =>
      unfold LogStore.appendAll at hs
      obtain ⟨s₁, hone, hrest⟩ := Option.bind_eq_some_iff.mp hs
      obtain ⟨hlost, hopens, honward⟩ := hk
      rw [List.flatMap_cons] at hopens honward
      rw [List.map_append] at honward
      obtain ⟨hfront, hlater⟩ := onward_append honward
      have hrolled := h.append (hlost told (List.mem_cons_self ..))
        ⟨fun r hr => hopens r (List.mem_append_left _ hr), hfront⟩ hone
      rw [List.append_cons]
      refine ih hrolled.filed ⟨fun t ht => hlost t (List.mem_cons_of_mem _ ht), ?_, ?_⟩ hrest
      · intro r hr
        exact hopens r (List.mem_append_right _ hr)
      · rw [hrolled.names, hrolled.options]
        exact hlater

theorem filed_start (o : LogFileOptions) {r : Roll} (hopens : r.opens = true) : (start o r).Filed [] := by
  refine ⟨[], o.makeFileName r.now, [], ?_, ?_, ?_, ?_⟩
  · unfold start rollFileLocked
    simp only [if_pos hopens]
    rfl
  · unfold start rollFileLocked LogFile.rollFileLocked
    simp only [if_pos hopens]
  · unfold start rollFileLocked names
    simp only [if_pos hopens]
    exact List.nodup_cons.mpr ⟨List.not_mem_nil, List.nodup_nil⟩
  · exact Packs.nil.empty

end

end LogStore

/-! ## The records are whole in the pieces -/

namespace AsyncLogging

def owedPieces (s : AsyncLogging) : List Bytes := (s.unwritten ++ (s.buffers ++ [s.current])).map content

section
variable {s s' : AsyncLogging} {pieces : List Bytes}

theorem owedPieces_current {b : Buffer} (hb : s.current = some b) :
    s.owedPieces = (s.unwritten ++ s.buffers).map content ++ [b.data] := by
  unfold owedPieces
  rw [hb, ← List.append_assoc, List.map_append]
  rfl

theorem packs_append (hinv : Inv s) (h : Packs s.appended (pieces ++ s.owedPieces)) {data : Bytes}
    (hopen : s.thread ≠ .finished) (hlen : data.length < Buffer.new.avail) :
    Packs (s.append data).appended (pieces ++ (s.append data).owedPieces) := by
  obtain ⟨b, hb⟩ := Option.isSome_iff_exists.mp (hinv.current hopen)
  rw [owedPieces_current hb, ← List.append_assoc] at h
  unfold AsyncLogging.append
  simp only [hb]
  by_cases havail : b.avail > data.length
  · simp only [if_pos havail]
    have hdata := FixedBuffer.data_append havail
    have hfill := h.fill data
    rw [List.append_assoc] at hfill
    unfold owedPieces
    unfold unwritten at hfill ⊢
    simp only [List.map_append, List.map_singleton, List.append_assoc, content_some, hdata] at hfill ⊢
    exact hfill
  · simp only [if_neg havail]
    have hdata : (s.takeNext.append data).data = data := data_append_empty (data_takeNext hinv.next) hlen
    have hmore := h.concat data
    unfold takeNext at hdata
    unfold owedPieces takeNext
    unfold unwritten at hmore ⊢
    simp only [List.map_append, List.map_singleton, List.append_assoc, content_some, hdata] at hmore ⊢
    exact hmore

theorem packs_flush (hinv : Inv s) (h : Packs s.appended (pieces ++ s.owedPieces)) (hopen : s.thread ≠ .finished) :
    Packs s.flush.appended (pieces ++ s.flush.owedPieces) := by
  obtain ⟨b, hb⟩ := Option.isSome_iff_exists.mp (hinv.current hopen)
  unfold AsyncLogging.flush
  simp only [hb]
  by_cases hlen : b.length > 0
  · simp only [if_pos hlen]
    rw [owedPieces_current hb, ← List.append_assoc] at h
    have hmore := h.empty
    unfold owedPieces
    unfold unwritten at hmore ⊢
    simp only [List.map_append, List.map_singleton, List.append_assoc, content_some,
      FixedBuffer.data_reset] at hmore ⊢
    exact hmore
  · rw [if_neg hlen]
    exact h

theorem packs_swapBuffers (hinv : Inv s) (h : Packs s.appended (pieces ++ s.owedPieces))
    (hidle : s.thread.idle = true) : Packs s.swapBuffers.appended (pieces ++ s.swapBuffers.owedPieces) := by
  have hempty := hinv.drained hidle
  have hcurrent : (s.newBuffer1.getD .new).data = [] := data_getD hinv.newBuffer1
  have hmore := h.empty
  unfold owedPieces at hmore ⊢
  rw [unwritten_idle hidle] at hmore
  unfold swapBuffers unwritten
  simp only [hempty, List.drop_zero, List.nil_append, List.map_append, List.map_singleton, content_some, hcurrent,
    List.append_assoc] at hmore ⊢
  exact hmore

theorem owedPieces_idle {t : LogThread} (hfrom : s.thread.idle = true) (hto : t.idle = true) :
    ({ s with thread := t } : AsyncLogging).owedPieces = s.owedPieces := by
  have hsame := unwritten_idle hfrom
  have hmoved : ({ s with thread := t } : AsyncLogging).unwritten = [] := unwritten_idle hto
  unfold owedPieces
  rw [hsame, hmoved]

/-- A step that passes nothing on keeps the records whole. -/
theorem packs_step (hinv : Inv s) (h : Packs s.appended (pieces ++ s.owedPieces)) {e : LogEvent} (hc : Logging s e)
    (he : e.appends = false) (hs : step s e = some s') : Packs s'.appended (pieces ++ s'.owedPieces) := by
  cases e with
  | start =>
    have habsent : s.thread = .absent := hc
    have hsame := owedPieces_idle (t := .testing) (s := s) (by rw [habsent]; rfl) rfl
    simp only [step] at hs
    split at hs
    · cases hs
    split at hs
    · cases hs
      exact h
    · cases hs
      rw [← hsame] at h
      exact h
  | stop =>
    simp only [step] at hs
    split at hs
    · cases hs
    split at hs
    · cases hs
      exact h
    · cases hs
      exact h
  | join =>
    simp only [step] at hs
    split at hs
    · cases hs
      exact h
    · cases hs
  | append data =>
    cases hs
    exact packs_append hinv h hc.1 hc.2
  | flush =>
    cases hs
    exact packs_flush hinv h hc
  | test =>
    simp only [step] at hs
    split at hs
    · rename_i ht
      have hidle : s.thread.idle = true := by rw [ht]; rfl
      cases hs
      rw [owedPieces_idle hidle (by split <;> rfl)]
      exact h
    · cases hs
  | lock =>
    simp only [step] at hs
    split at hs
    · rename_i ht
      have hidle : s.thread.idle = true := by rw [ht]; rfl
      split at hs
      · cases hs
        rw [owedPieces_idle hidle rfl]
        exact h
      · cases hs
        exact packs_swapBuffers hinv h hidle
    · cases hs
  | wake timedOut =>
    simp only [step] at hs
    split at hs
    · rename_i ht
      have hidle : s.thread.idle = true := by rw [ht]; rfl
      split at hs
      · cases hs
        exact h
      · cases hs
        exact packs_swapBuffers hinv h hidle
    · cases hs
  | write => cases he
  | drain => cases he

/-- The buffer that is passed on is the oldest one. -/
theorem owedPieces_write {k : Nat} {b : Buffer} (hk : s.thread = .writing k)
    (hget : s.buffersToWrite[k]? = some (some b)) :
    s.owedPieces = b.data :: (s.writeBuffer k).owedPieces := by
  obtain ⟨hlt, hb⟩ := List.getElem?_eq_some_iff.mp hget
  have hdrop : s.buffersToWrite.drop k = some b :: s.buffersToWrite.drop (k + 1) := by
    rw [List.drop_eq_getElem_cons hlt, hb]
  unfold writeBuffer owedPieces unwritten
  simp only [hk, hget, hdrop, List.cons_append, List.map_cons, content_some]

/-- The end of a round passes nothing on. -/
theorem owedPieces_recycle {k : Nat} (hk : s.thread = .writing k) (hget : s.buffersToWrite[k]? = none) :
    (s.writeBuffer k).owedPieces = s.owedPieces := by
  have hdrop : s.buffersToWrite.drop k = [] := List.drop_eq_nil_iff.mpr (List.getElem?_eq_none_iff.mp hget)
  unfold writeBuffer owedPieces unwritten
  simp only [hk, hget, hdrop, recycle]

theorem owedPieces_drain (hinv : Inv s) (hd : s.thread = .draining) :
    s.owedPieces = (s.buffers ++ [s.current]).filterMap (fun p => p.map FixedBuffer.data) ∧
      s.drain.owedPieces = [[]] := by
  have hopen : s.thread ≠ .finished := by
    rw [hd]
    exact LogThread.noConfusion
  have hall : ∀ p ∈ s.buffers ++ [s.current], p.map FixedBuffer.data = some (content p) := by
    intro p hp
    have hsome : p.isSome = true := by
      rcases List.mem_append.mp hp with hp | hp
      · exact hinv.buffers p hp
      · rw [List.mem_singleton.mp hp]
        exact hinv.current hopen
    obtain ⟨b, rfl⟩ := Option.isSome_iff_exists.mp hsome
    rfl
  constructor
  · unfold owedPieces unwritten
    simp only [hd, List.nil_append]
    rw [List.filterMap_congr hall]
    exact (congrFun List.filterMap_eq_map _).symm
  · rfl

end

end AsyncLogging

/-! ## The pipeline keeps the records whole -/

namespace LogPipeline

/-- The records are whole in the pieces, the pieces in the files, and between
two rounds nothing is pending. -/
structure Sound (s : LogPipeline) : Prop where
  front : AsyncLogging.Inv s.front
  records : Packs s.front.appended (s.pieces ++ s.front.owedPieces)
  handed : s.front.handed = s.pieces.flatten
  files : s.store.Filed s.pieces
  flushed : (∀ k, s.front.thread ≠ .writing k) → s.store.pending = []

section
variable {s s' : LogPipeline} {o : LogFileOptions} {r : Roll}

/-- A step that passes nothing on leaves what was passed on, and a round goes on. -/
theorem step_same {a a' : AsyncLogging} {e : LogEvent} (hc : AsyncLogging.Logging a e) (he : e.appends = false)
    (hs : a.step e = some a') :
    a'.handed = a.handed ∧ ∀ k, a.thread = .writing k → a'.thread = .writing k := by
  cases e with
  | start =>
    have habsent : a.thread = .absent := hc
    simp only [AsyncLogging.step] at hs
    split at hs
    · cases hs
    split at hs
    · cases hs
      exact ⟨rfl, fun k hk => hk⟩
    · cases hs
      refine ⟨rfl, fun k hk => ?_⟩
      rw [habsent] at hk
      cases hk
  | stop =>
    simp only [AsyncLogging.step] at hs
    split at hs
    · cases hs
    split at hs
    · cases hs
      exact ⟨rfl, fun k hk => hk⟩
    · cases hs
      exact ⟨rfl, fun k hk => hk⟩
  | join =>
    simp only [AsyncLogging.step] at hs
    split at hs
    · cases hs
      exact ⟨rfl, fun k hk => hk⟩
    · cases hs
  | append data =>
    cases hs
    unfold AsyncLogging.append
    dsimp only
    split
    · exact ⟨rfl, fun k hk => hk⟩
    · split
      · exact ⟨rfl, fun k hk => hk⟩
      · exact ⟨rfl, fun k hk => hk⟩
  | flush =>
    cases hs
    unfold AsyncLogging.flush
    split
    · exact ⟨rfl, fun k hk => hk⟩
    · split
      · exact ⟨rfl, fun k hk => hk⟩
      · exact ⟨rfl, fun k hk => hk⟩
  | test =>
    simp only [AsyncLogging.step] at hs
    split at hs
    · rename_i ht
      cases hs
      refine ⟨rfl, fun k hk => ?_⟩
      rw [ht] at hk
      cases hk
    · cases hs
  | lock =>
    simp only [AsyncLogging.step] at hs
    split at hs
    · rename_i ht
      have hno : ∀ k, a.thread ≠ .writing k := fun k hk => by rw [ht] at hk; cases hk
      split at hs
      · cases hs
        exact ⟨rfl, fun k hk => absurd hk (hno k)⟩
      · cases hs
        exact ⟨rfl, fun k hk => absurd hk (hno k)⟩
    · cases hs
  | wake timedOut =>
    simp only [AsyncLogging.step] at hs
    split at hs
    · rename_i ht
      have hno : ∀ k, a.thread ≠ .writing k := fun k hk => by rw [ht] at hk; cases hk
      split at hs
      · cases hs
        exact ⟨rfl, fun k hk => absurd hk (hno k)⟩
      · cases hs
        exact ⟨rfl, fun k hk => absurd hk (hno k)⟩
    · cases hs
  | write => cases he
  | drain => cases he

theorem front_step {e : LogEvent} (h : s.Sound) (hc : AsyncLogging.Logging s.front e) (he : e.appends = false)
    {front : AsyncLogging} (hs : s.front.step e = some front) : Sound { s with front := front } := by
  obtain ⟨hhanded, hwriting⟩ := step_same hc he hs
  refine ⟨AsyncLogging.inv_step h.front hc hs, AsyncLogging.packs_step h.front h.records hc he hs,
    hhanded.trans h.handed, h.files, fun hno => h.flushed fun k hk => hno k (hwriting k hk)⟩

theorem write_step {k : Nat} {told : Told} (h : s.Sound) (hk : s.front.thread = .writing k)
    (hc : Takes s.store told.lost told.rolls) (hs : s.writeBuffer k told = some s') : s'.Sound := by
  have hinv := h.front.writeBuffer hk
  unfold writeBuffer at hs
  cases hget : s.front.buffersToWrite[k]? with
  | none =>
    simp only [hget, Option.some.injEq] at hs
    subst hs
    obtain ⟨hfiled, hpending, -, -⟩ := h.files.flush
    refine ⟨hinv, ?_, ?_, hfiled, fun _ => hpending⟩
    · have hsame : (s.front.writeBuffer k).appended = s.front.appended := by
        unfold AsyncLogging.writeBuffer
        simp only [hget]
        rfl
      rw [AsyncLogging.owedPieces_recycle hk hget, hsame]
      exact h.records
    · have hsame : (s.front.writeBuffer k).handed = s.front.handed := by
        unfold AsyncLogging.writeBuffer
        simp only [hget]
        rfl
      exact hsame.trans h.handed
  | some p =>
    obtain ⟨b, rfl⟩ := Option.isSome_iff_exists.mp (h.front.toWrite p (List.mem_of_getElem? hget))
    simp only [hget] at hs
    obtain ⟨store, hstore, rfl⟩ := Option.map_eq_some_iff.mp hs
    obtain ⟨hlost, hopens, honward⟩ := hc
    have hrolled := h.files.append hlost ⟨hopens, honward⟩ hstore
    have hfront : s.front.writeBuffer k =
        { s.front with handed := s.front.handed ++ b.data, thread := .writing (k + 1) } := by
      unfold AsyncLogging.writeBuffer
      simp only [hget]
    refine ⟨hinv, ?_, ?_, hrolled.filed, fun hno => ?_⟩
    · have hrecords := h.records
      rw [AsyncLogging.owedPieces_write hk hget] at hrecords
      have hsame : (s.front.writeBuffer k).appended = s.front.appended := by rw [hfront]
      simp only [hsame, List.append_assoc]
      exact hrecords
    · rw [hfront, List.flatten_concat, ← h.handed]
    · rw [hfront] at hno
      exact absurd rfl (hno (k + 1))

theorem drain_step {tolds : List Told} {store : LogStore} (h : s.Sound) (hd : s.front.thread = .draining)
    (hc : TakesAll s.store tolds) (hs : s.store.appendAll s.remaining tolds = some store) :
    Sound { front := s.front.drain, store := store.flush, pieces := s.pieces ++ s.remaining } := by
  obtain ⟨howed, hdrained⟩ := AsyncLogging.owedPieces_drain h.front hd
  have hremaining : s.remaining = s.front.owedPieces := howed.symm
  obtain ⟨hfiled, hpending, -, -⟩ := (h.files.appendAll hc hs).flush
  refine ⟨h.front.drain hd, ?_, ?_, hfiled, fun _ => hpending⟩
  · rw [hdrained, hremaining]
    exact h.records.empty
  · have hunwritten : s.front.unwritten = [] := AsyncLogging.unwritten_idle (by rw [hd]; rfl)
    have hflat : s.front.owedPieces.flatten = (s.front.buffers ++ [s.front.current]).flatMap AsyncLogging.content := by
      unfold AsyncLogging.owedPieces
      rw [hunwritten, List.nil_append, List.flatMap_def]
    rw [hremaining, List.flatten_append, hflat, ← h.handed]
    rfl

theorem sound_step {e : PipelineEvent} (h : s.Sound) (hc : s.Stored e) (hs : s.step e = some s') : s'.Sound := by
  cases e with
  | front e =>
    unfold step at hs
    by_cases he : e.appends = true
    · simp only [if_pos he] at hs
      cases hs
    · simp only [if_neg he] at hs
      obtain ⟨front, hfront, rfl⟩ := Option.map_eq_some_iff.mp hs
      exact front_step h hc (Bool.eq_false_iff.mpr he) hfront
  | write told =>
    unfold step at hs
    dsimp only at hs
    split at hs
    · rename_i k hk
      exact write_step h hk hc hs
    · cases hs
  | drain tolds =>
    unfold step at hs
    by_cases hd : s.front.thread = .draining
    · simp only [if_pos hd] at hs
      obtain ⟨store, hstore, rfl⟩ := Option.map_eq_some_iff.mp hs
      exact drain_step h hd hc hstore
    · simp only [if_neg hd] at hs
      cases hs

theorem sound_start (o : LogFileOptions) (hopens : r.opens = true) : (start o r).Sound :=
  ⟨AsyncLogging.inv_init, Packs.nil.empty, rfl, LogStore.filed_start o hopens, fun _ => rfl⟩

/-- **The files hold the records, each of them whole in one file**: between two
rounds the first of them, and all of them when the log has stopped. -/
theorem records_in_files (hopens : r.opens = true) (h : Reached step Stored (start o r) s)
    (hround : ∀ k, s.front.thread ≠ .writing k) :
    ∃ saved, saved <+: s.front.appended ∧ saved.flatten = s.front.handed ∧
      Packs saved (s.store.files.map Prod.snd) ∧ (s.front.stopped = true → saved = s.front.appended) := by
  have hsound : s.Sound := h.invariant (sound_start o hopens) fun _ _ _ hi hc hs => sound_step hi hc hs
  have hfiles : Packs s.pieces (s.store.files.map Prod.snd) := by
    obtain ⟨fs, name, text, hfiles, -, -, hpacks⟩ := hsound.files
    rw [hsound.flushed hround, List.append_nil] at hpacks
    rw [hfiles, List.map_append]
    exact hpacks
  by_cases hstopped : s.front.stopped = true
  · have hfinished := hsound.front.running hstopped
    obtain ⟨hbuffers, hcurrent⟩ := hsound.front.finished hfinished
    have howed : s.front.owedPieces = [[]] := by
      unfold AsyncLogging.owedPieces AsyncLogging.unwritten
      simp only [hfinished, hbuffers, hcurrent]
      rfl
    have hrecords := hsound.records
    rw [howed] at hrecords
    obtain ⟨fs, name, text, hlist, -, -, hpacks⟩ := hsound.files
    rw [hsound.flushed hround, List.append_nil] at hpacks
    have hfill := hpacks.fill []
    rw [List.append_nil] at hfill
    refine ⟨s.front.appended, List.prefix_rfl, ?_, ?_, fun _ => rfl⟩
    · have hflat := hrecords.flatten
      rw [List.flatten_append, List.flatten_singleton, List.append_nil] at hflat
      rw [← hflat, hsound.handed]
    · rw [hlist, List.map_append]
      exact hrecords.trans hfill
  · obtain ⟨saved, behind, heq, hsaved, -⟩ := hsound.records.split
    refine ⟨saved, ⟨behind, heq.symm⟩, ?_, hsaved.trans hfiles, fun hs => absurd hs hstopped⟩
    rw [← hsaved.flatten, hsound.handed]

end

instance : (names more : List Bytes) → Decidable (Onward names more)
  | _, [] => .isTrue trivial
  | names, name :: more =>
    have : Decidable (Onward (openName names name) more) := instDecidableOnward (openName names name) more
    inferInstanceAs (Decidable (name ∉ names.dropLast ∧ Onward (openName names name) more))

instance (s : LogPipeline) (e : PipelineEvent) : Decidable (s.Stored e) :=
  match e with
  | .front e => inferInstanceAs (Decidable (AsyncLogging.Logging s.front e))
  | .write _ => inferInstanceAs (Decidable (_ ∧ _ ∧ _))
  | .drain _ => inferInstanceAs (Decidable (_ ∧ _ ∧ _))

/-- Three records, the second of which fills the first file. -/
theorem records_in_files_two :
    ∃ s, Reached step Stored (start LogFile.smallFiles ⟨1790000000, true⟩) s ∧
      s.front.appended = [bytes "one\n", bytes "a longer one\n", bytes "two\n"] ∧
      s.store.files.map Prod.snd = [bytes "one\na longer one\n", bytes "two\n"] ∧
      ∃ saved, saved <+: s.front.appended ∧ saved.flatten = s.front.handed ∧
        Packs saved (s.store.files.map Prod.snd) ∧ (s.front.stopped = true → saved = s.front.appended) := by
  have hrun : (runIf step Stored (start LogFile.smallFiles ⟨1790000000, true⟩)
      [.front (.append (bytes "one\n")), .front .start, .front .flush, .front (.append (bytes "a longer one\n")),
        .front .test, .front .lock, .write { }, .write { rolls := [⟨1790000001, true⟩] }, .write { },
        .front (.append (bytes "two\n")), .front .stop, .front .test, .drain [{ }], .front .join]).map
          (fun s => (s.front.appended, s.store.files.map Prod.snd, s.front.thread)) =
        some ([bytes "one\n", bytes "a longer one\n", bytes "two\n"],
          [bytes "one\na longer one\n", bytes "two\n"], .finished) := by
    decide +kernel
  obtain ⟨s, hs, hend⟩ := Option.map_eq_some_iff.mp hrun
  obtain ⟨happended, hend⟩ := Prod.mk.inj hend
  obtain ⟨hfiles, hthread⟩ := Prod.mk.inj hend
  have hreached := Reached.of_runIf hs
  refine ⟨s, hreached, happended, hfiles, records_in_files rfl hreached ?_⟩
  intro k hk
  rw [hthread] at hk
  cases hk

end LogPipeline

end Myself
