import MyselfServer.LogStream
import MyselfServer.Machine

/-!
# The asynchronous log

`AsyncLogging` as a machine: the sections under the mutex, the steps of
`threadFunc` between them, and `start` and `stop` of the owner. Buffers go
round between `current_`, `next_`, `buffers_`, the background thread's
`buffersToWrite` and its two spare buffers; a pointer that was moved from is
null. What `LogFile::append` was given is kept in `handed`, and the records
in the order in which their `append` took the mutex in `appended`.
-/

namespace Myself

open Text

abbrev Buffer := FixedBuffer kLargeBuffer

namespace Buffer

def new : Buffer := ⟨[], by decide⟩

end Buffer

abbrev BufferPtr := Option Buffer

/-- Where the background thread is. In `writing k` it is about to hand over
the buffer number `k` of `buffersToWrite`. -/
inductive LogThread where
  | absent
  | testing
  | locking
  | waiting
  | writing (k : Nat)
  | draining
  | finished
  | crashed
  deriving DecidableEq

def LogThread.idle : LogThread → Bool
  | .absent => true
  | .testing => true
  | .locking => true
  | .waiting => true
  | .draining => true
  | _ => false

structure AsyncLogging where
  running : Bool := false
  current : BufferPtr := some .new
  next : BufferPtr := some .new
  buffers : List BufferPtr := []
  thread : LogThread := .absent
  newBuffer1 : BufferPtr := none
  newBuffer2 : BufferPtr := none
  buffersToWrite : List BufferPtr := []
  joining : Bool := false
  stopped : Bool := false
  crashed : Bool := false
  handed : Bytes := []
  appended : List Bytes := []

/-- `test` to `drain` are steps of the background thread. -/
inductive LogEvent where
  | start
  | stop
  | join
  | append (data : Bytes)
  | flush
  | test
  | lock
  | wake (timedOut : Bool)
  | write
  | drain

namespace AsyncLogging

/-- `next_` if it is there, else a new buffer; `next_` is null afterwards. -/
def takeNext (s : AsyncLogging) : Buffer := s.next.getD .new

def append (s : AsyncLogging) (data : Bytes) : AsyncLogging :=
  let s := { s with appended := s.appended ++ [data] }
  match s.current with
  | none => { s with crashed := true }
  | some current =>
    if current.avail > data.length then { s with current := some (current.append data) }
    else
      { s with
        buffers := s.buffers ++ [some current]
        current := some (s.takeNext.append data)
        next := none }

def flush (s : AsyncLogging) : AsyncLogging :=
  match s.current with
  | none => { s with current := some s.takeNext.reset, next := none }
  | some current =>
    if current.length > 0 then
      { s with
        buffers := s.buffers ++ [some current]
        current := some s.takeNext.reset
        next := none }
    else s

/-- The rest of the section at the top of the loop, once there is no more to wait for. -/
def swapBuffers (s : AsyncLogging) : AsyncLogging :=
  { s with
    buffers := s.buffersToWrite
    buffersToWrite := s.buffers ++ [s.current]
    current := some (s.newBuffer1.getD .new)
    newBuffer1 := none
    next := if s.next = none then s.newBuffer2 else s.next
    newBuffer2 := if s.next = none then none else s.newBuffer2
    thread := .writing 0 }

def recycleOne (newBuffer : BufferPtr) (buffersToWrite : List BufferPtr) :
    BufferPtr × List BufferPtr :=
  match newBuffer with
  | some b => (some b, buffersToWrite)
  | none =>
    match buffersToWrite.getLast? with
    | none => (none, buffersToWrite)
    | some b => (b.map FixedBuffer.reset, buffersToWrite.dropLast)

def recycle (s : AsyncLogging) : AsyncLogging :=
  let (newBuffer1, rest) := recycleOne s.newBuffer1 (s.buffersToWrite.take 2)
  let (newBuffer2, _) := recycleOne s.newBuffer2 rest
  { s with
    newBuffer1 := some (newBuffer1.getD .new)
    newBuffer2 := some (newBuffer2.getD .new)
    buffersToWrite := []
    thread := .testing }

def writeBuffer (s : AsyncLogging) (k : Nat) : AsyncLogging :=
  match s.buffersToWrite[k]? with
  | none => s.recycle
  | some none => { s with thread := .crashed, crashed := true }
  | some (some b) => { s with handed := s.handed ++ b.data, thread := .writing (k + 1) }

def content (p : BufferPtr) : Bytes := (p.map FixedBuffer.data).getD []

def drain (s : AsyncLogging) : AsyncLogging :=
  { s with
    handed := s.handed ++ (s.buffers ++ [s.current]).flatMap content
    buffers := []
    current := none
    thread := .finished }

def step (s : AsyncLogging) : LogEvent → Option AsyncLogging
  | .start =>
    if s.joining then none
    else if s.running then some s
    else some { s with
      running := true
      stopped := false
      newBuffer1 := some .new
      newBuffer2 := some .new
      buffersToWrite := []
      thread := .testing }
  | .stop =>
    if s.joining then none
    else if s.running then some { s with running := false, joining := true }
    else some s
  | .join =>
    if s.joining ∧ s.thread = .finished then some { s with joining := false, stopped := true }
    else none
  | .append data => some (s.append data)
  | .flush => some s.flush
  | .test =>
    if s.thread = .testing then
      some { s with thread := if s.running then .locking else .draining }
    else none
  | .lock =>
    if s.thread = .locking then
      if s.buffers = [] ∧ s.running then some { s with thread := .waiting }
      else some s.swapBuffers
    else none
  | .wake timedOut =>
    if s.thread = .waiting then
      if s.buffers = [] ∧ s.running ∧ timedOut = false then some s else some s.swapBuffers
    else none
  | .write =>
    match s.thread with
    | .writing k => some (s.writeBuffer k)
    | _ => none
  | .drain => if s.thread = .draining then some s.drain else none

/-! ## Records -/

/-- One start; every record fits an empty buffer and takes the mutex before
the final section of the background thread. -/
def Logging (s : AsyncLogging) : LogEvent → Prop
  | .start => s.thread = .absent
  | .append data => s.thread ≠ .finished ∧ data.length < Buffer.new.avail
  | .flush => s.thread ≠ .finished
  | _ => True

def unwritten (s : AsyncLogging) : List BufferPtr :=
  match s.thread with
  | .writing k => s.buffersToWrite.drop k
  | _ => []

/-- What was appended and not yet handed over, oldest first. -/
def owed (s : AsyncLogging) : Bytes :=
  s.unwritten.flatMap content ++ (s.buffers.flatMap content ++ content s.current)

structure Inv (s : AsyncLogging) : Prop where
  conserved : s.handed ++ s.owed = s.appended.flatten
  current : s.thread ≠ .finished → s.current.isSome = true
  buffers : ∀ p ∈ s.buffers, p.isSome = true
  toWrite : ∀ p ∈ s.buffersToWrite, p.isSome = true
  drained : s.thread.idle = true → s.buffersToWrite = []
  next : content s.next = []
  newBuffer1 : content s.newBuffer1 = []
  newBuffer2 : content s.newBuffer2 = []
  running : s.stopped = true → s.thread = .finished
  finished : s.thread = .finished → s.buffers = [] ∧ s.current = none
  crashed : s.crashed = false ∧ s.thread ≠ .crashed

theorem LogThread.idle_open {t : LogThread} (h : t.idle = true) : t ≠ .finished ∧ t ≠ .crashed := by
  cases t <;> simp [LogThread.idle] at h ⊢

theorem unwritten_idle {s : AsyncLogging} (h : s.thread.idle = true) : s.unwritten = [] := by
  unfold unwritten
  split
  · rename_i k hk
    rw [hk] at h
    cases h
  · rfl

@[simp]
theorem content_some (b : Buffer) : content (some b) = b.data := rfl

@[simp]
theorem content_none : content none = [] := rfl

theorem data_getD {p : BufferPtr} (h : content p = []) : (p.getD .new).data = [] := by
  cases p with
  | none => rfl
  | some b => exact h

theorem data_takeNext {s : AsyncLogging} (h : content s.next = []) : s.takeNext.data = [] :=
  data_getD h

/-- A record that fits an empty buffer is not dropped. -/
theorem data_append_empty {b : Buffer} {data : Bytes} (hb : b.data = [])
    (hlen : data.length < Buffer.new.avail) : (b.append data).data = data := by
  have havail : b.avail > data.length := by
    simp only [FixedBuffer.avail, FixedBuffer.length, hb]
    exact hlen
  rw [FixedBuffer.data_append havail, hb, List.nil_append]

theorem inv_init : Inv {} where
  conserved := rfl
  current _ := rfl
  buffers _ h := absurd h List.not_mem_nil
  toWrite _ h := absurd h List.not_mem_nil
  drained _ := rfl
  next := rfl
  newBuffer1 := rfl
  newBuffer2 := rfl
  running h := absurd h Bool.false_ne_true
  finished h := by cases h
  crashed := by decide

theorem mem_concat_some {ps : List BufferPtr} {b : Buffer} (h : ∀ p ∈ ps, p.isSome = true) :
    ∀ p ∈ ps ++ [some b], p.isSome = true := by
  intro p hp
  rcases List.mem_append.mp hp with hp | hp
  · exact h p hp
  · rw [List.mem_singleton.mp hp]
    rfl

theorem Inv.append {s : AsyncLogging} (h : Inv s) {data : Bytes} (hopen : s.thread ≠ .finished)
    (hlen : data.length < Buffer.new.avail) : Inv (s.append data) := by
  obtain ⟨b, hb⟩ := Option.isSome_iff_exists.mp (h.current hopen)
  have hconserved := h.conserved
  simp only [owed, hb, content_some] at hconserved
  simp only [AsyncLogging.append, hb]
  split
  · rename_i havail
    refine { h with
      conserved := ?_, current := fun _ => rfl, finished := fun hf => absurd hf hopen }
    simp only [owed, unwritten, content_some, FixedBuffer.data_append havail, List.flatten_concat,
      ← List.append_assoc] at hconserved ⊢
    rw [hconserved]
  · refine { h with
      conserved := ?_, current := fun _ => rfl, buffers := mem_concat_some h.buffers, next := rfl
      finished := fun hf => absurd hf hopen }
    have hdata : (s.takeNext.append data).data = data :=
      data_append_empty (data_takeNext h.next) hlen
    simp only [owed, unwritten, takeNext, content_some, List.flatMap_append,
      List.flatMap_singleton, List.flatten_concat, ← List.append_assoc] at hconserved hdata ⊢
    rw [hdata, hconserved]

theorem Inv.flush {s : AsyncLogging} (h : Inv s) (hopen : s.thread ≠ .finished) : Inv s.flush := by
  obtain ⟨b, hb⟩ := Option.isSome_iff_exists.mp (h.current hopen)
  have hconserved := h.conserved
  simp only [owed, hb, content_some] at hconserved
  simp only [AsyncLogging.flush, hb]
  split
  · refine { h with
      conserved := ?_, current := fun _ => rfl, buffers := mem_concat_some h.buffers, next := rfl
      finished := fun hf => absurd hf hopen }
    simp only [owed, unwritten, content_some, FixedBuffer.data_reset, List.flatMap_append,
      List.flatMap_singleton, List.append_nil] at hconserved ⊢
    exact hconserved
  · exact h

/-- The section at the top of the loop takes over everything there is. -/
theorem Inv.swapBuffers {s : AsyncLogging} (h : Inv s) (hidle : s.thread.idle = true) :
    Inv s.swapBuffers := by
  have hopen := (LogThread.idle_open hidle).1
  obtain ⟨b, hb⟩ := Option.isSome_iff_exists.mp (h.current hopen)
  have hempty := h.drained hidle
  have hstopped : s.stopped = false := by
    by_contra hs
    exact hopen (h.running (by simpa using hs))
  have hconserved := h.conserved
  simp only [owed, unwritten_idle hidle, hb, List.flatMap_nil, List.nil_append] at hconserved
  refine
    { conserved := ?_
      current := fun _ => rfl
      buffers := by simp only [AsyncLogging.swapBuffers]; exact h.toWrite
      toWrite := by
        simp only [AsyncLogging.swapBuffers, hb]
        exact mem_concat_some h.buffers
      drained := fun hw => absurd hw Bool.false_ne_true
      next := ?_
      newBuffer1 := rfl
      newBuffer2 := ?_
      running := fun hs => absurd (hstopped.symm.trans hs) Bool.false_ne_true
      finished := fun hf => by cases hf
      crashed := ⟨h.crashed.1, by simp [AsyncLogging.swapBuffers]⟩ }
  · simp only [owed, unwritten, AsyncLogging.swapBuffers, hempty, hb, List.drop_zero,
      List.flatMap_append, List.flatMap_singleton, List.flatMap_nil, content_some,
      data_getD h.newBuffer1, List.append_nil]
    exact hconserved
  · simp only [AsyncLogging.swapBuffers]
    split
    · exact h.newBuffer2
    · exact h.next
  · simp only [AsyncLogging.swapBuffers]
    split
    · rfl
    · exact h.newBuffer2

theorem content_getD {p : BufferPtr} (h : content p = []) : content (some (p.getD .new)) = [] :=
  data_getD h

theorem content_recycleOne {p : BufferPtr} {ps : List BufferPtr} (h : content p = []) :
    content (recycleOne p ps).1 = [] := by
  unfold recycleOne
  cases p with
  | some b => exact h
  | none =>
    cases hlast : ps.getLast? with
    | none => rfl
    | some q =>
      cases q with
      | none => rfl
      | some b => rfl

theorem Inv.recycle {s : AsyncLogging} (h : Inv s) (hunwritten : s.unwritten = [])
    (hopen : s.thread ≠ .finished) : Inv s.recycle where
  conserved := by
    have hconserved := h.conserved
    simp only [owed, hunwritten] at hconserved
    exact hconserved
  current _ := h.current hopen
  buffers := h.buffers
  toWrite _ hp := absurd hp List.not_mem_nil
  drained _ := rfl
  next := h.next
  newBuffer1 := content_getD (content_recycleOne h.newBuffer1)
  newBuffer2 := content_getD (content_recycleOne h.newBuffer2)
  running hs := absurd (h.running hs) hopen
  finished hf := by cases hf
  crashed := ⟨h.crashed.1, by simp [AsyncLogging.recycle]⟩

theorem Inv.writeBuffer {s : AsyncLogging} (h : Inv s) {k : Nat} (hk : s.thread = .writing k) :
    Inv (s.writeBuffer k) := by
  have hopen : s.thread ≠ .finished := by
    rw [hk]
    simp
  have hunwritten : s.unwritten = s.buffersToWrite.drop k := by simp only [unwritten, hk]
  unfold AsyncLogging.writeBuffer
  cases hget : s.buffersToWrite[k]? with
  | none =>
    refine h.recycle ?_ hopen
    rw [hunwritten, List.drop_eq_nil_iff]
    exact List.getElem?_eq_none_iff.mp hget
  | some p =>
    obtain ⟨b, rfl⟩ := Option.isSome_iff_exists.mp (h.toWrite p (List.mem_of_getElem? hget))
    obtain ⟨hlt, hb⟩ := List.getElem?_eq_some_iff.mp hget
    have hdrop : s.buffersToWrite.drop k = some b :: s.buffersToWrite.drop (k + 1) := by
      rw [List.drop_eq_getElem_cons hlt, hb]
    have hconserved := h.conserved
    simp only [owed, hunwritten, hdrop, List.flatMap_cons, content_some] at hconserved
    refine { h with
      conserved := ?_
      current := fun _ => h.current hopen
      drained := fun hw => absurd hw Bool.false_ne_true
      running := fun hs => absurd (h.running hs) hopen
      finished := fun hf => by cases hf
      crashed := ⟨h.crashed.1, by simp⟩ }
    simp only [owed, unwritten, List.append_assoc] at hconserved ⊢
    exact hconserved

theorem Inv.drain {s : AsyncLogging} (h : Inv s) (hd : s.thread = .draining) : Inv s.drain where
  conserved := by
    have hconserved := h.conserved
    simp only [owed, unwritten, hd, List.flatMap_nil, List.nil_append] at hconserved
    simp only [owed, unwritten, AsyncLogging.drain, List.flatMap_append, List.flatMap_singleton,
      List.flatMap_nil, content_none, List.append_nil]
    exact hconserved
  current hne := absurd rfl hne
  buffers _ hp := absurd hp List.not_mem_nil
  toWrite := h.toWrite
  drained hi := absurd hi Bool.false_ne_true
  next := h.next
  newBuffer1 := h.newBuffer1
  newBuffer2 := h.newBuffer2
  running _ := rfl
  finished _ := ⟨rfl, rfl⟩
  crashed := ⟨h.crashed.1, by simp [AsyncLogging.drain]⟩

/-- Between two sections nothing but the place of the thread changes. -/
theorem Inv.moveTo {s : AsyncLogging} (h : Inv s) {t : LogThread} (hfrom : s.thread.idle = true)
    (hto : t.idle = true) : Inv { s with thread := t } := by
  have hopen := (LogThread.idle_open hfrom).1
  refine { h with
    conserved := ?_
    current := fun _ => h.current hopen
    drained := fun _ => h.drained hfrom
    running := fun hs => absurd (h.running hs) hopen
    finished := fun hf => absurd hf (LogThread.idle_open hto).1
    crashed := ⟨h.crashed.1, (LogThread.idle_open hto).2⟩ }
  have hconserved := h.conserved
  simp only [owed, unwritten_idle hfrom] at hconserved
  simp only [owed, unwritten_idle (s := { s with thread := t }) hto]
  exact hconserved

theorem inv_step {s s' : AsyncLogging} {e : LogEvent} (h : Inv s) (hc : Logging s e)
    (hs : step s e = some s') : Inv s' := by
  cases e with
  | start =>
    have habsent : s.thread = .absent := hc
    simp only [step] at hs
    split at hs
    · cases hs
    split at hs
    · cases hs
      exact h
    · cases hs
      have hmoved : Inv { s with thread := .testing } :=
        h.moveTo (by rw [habsent]; rfl) rfl
      exact { hmoved with
        toWrite := fun _ hp => absurd hp List.not_mem_nil
        drained := fun _ => rfl
        newBuffer1 := rfl
        newBuffer2 := rfl
        running := fun hs => absurd hs Bool.false_ne_true
        finished := fun hf => by cases hf }
  | stop =>
    simp only [step] at hs
    split at hs
    · cases hs
    split at hs
    · cases hs
      exact { h with }
    · cases hs
      exact h
  | join =>
    simp only [step] at hs
    split at hs
    · rename_i hj
      cases hs
      exact { h with running := fun _ => hj.2 }
    · cases hs
  | append data =>
    cases hs
    exact h.append hc.1 hc.2
  | flush =>
    cases hs
    exact h.flush hc
  | test =>
    simp only [step] at hs
    split at hs
    · rename_i ht
      cases hs
      apply h.moveTo
      · rw [ht]
        rfl
      · split <;> rfl
    · cases hs
  | lock =>
    simp only [step] at hs
    split at hs
    · rename_i ht
      split at hs
      · cases hs
        exact h.moveTo (by rw [ht]; rfl) rfl
      · cases hs
        exact h.swapBuffers (by rw [ht]; rfl)
    · cases hs
  | wake timedOut =>
    simp only [step] at hs
    split at hs
    · rename_i ht
      split at hs
      · cases hs
        exact h
      · cases hs
        exact h.swapBuffers (by rw [ht]; rfl)
    · cases hs
  | write =>
    simp only [step] at hs
    split at hs
    · rename_i k hk
      cases hs
      exact h.writeBuffer hk
    · cases hs
  | drain =>
    simp only [step] at hs
    split at hs
    · rename_i hd
      cases hs
      exact h.drain hd
    · cases hs

/-- **Every record is handed over once and in order.** -/
theorem handed_eq_appended {s : AsyncLogging} (h : Machine.Reached step Logging {} s)
    (hstopped : s.stopped = true) : s.handed = s.appended.flatten := by
  have hinv : Inv s := h.invariant inv_init fun _ _ _ hi hc hs => inv_step hi hc hs
  have hfinished := hinv.running hstopped
  obtain ⟨hbuffers, hcurrent⟩ := hinv.finished hfinished
  have hconserved := hinv.conserved
  simp only [owed, unwritten, hfinished, hbuffers, hcurrent, List.flatMap_nil, content_none,
    List.append_nil] at hconserved
  exact hconserved

instance (s : AsyncLogging) (e : LogEvent) : Decidable (Logging s e) :=
  match e with
  | .start => inferInstanceAs (Decidable (_ = _))
  | .append _ => inferInstanceAs (Decidable (_ ∧ _))
  | .flush => inferInstanceAs (Decidable (_ ≠ _))
  | .stop | .join | .test | .lock | .wake _ | .write | .drain => inferInstanceAs (Decidable True)

theorem handed_eq_appended_three :
    ∃ s, Machine.Reached step Logging {} s ∧ s.appended = [bytes "a", bytes "b", bytes "c"] ∧
      s.handed = s.appended.flatten := by
  have hrun : Machine.runIf step Logging {} [.append (bytes "a"), .start, .append (bytes "b"),
      .flush, .test, .lock, .write, .append (bytes "c"), .write, .stop, .write, .test, .drain,
      .join] = some _ := rfl
  have h := Machine.Reached.of_runIf hrun
  exact ⟨_, h, rfl, handed_eq_appended h rfl⟩

end AsyncLogging

end Myself
