import MyselfServer.WriteOrder

/-!
# Files that end early

A file whose length was announced may have become shorter when its bytes are
fetched. `handed_over` says, for every kernel, what is handed to it for each
call: all of the range of a file, or a front of it where a `sendfile` found
the end of the file or a `pread` gave nothing; and what comes later comes
behind that. Every call has its own part of the `sendfile`s on the socket and
of the kernel's answers to `pread`.
-/

namespace Myself

open Text Prog

inductive Move where
  | call (call : Call)
  | close

/-- The bytes that a move hands over, with the `sendfile`s made for it (how much
they asked for, and the answer) and the answers to its `pread`s. -/
structure Piece where
  move : Move
  bytes : Bytes
  calls : List (Nat × Option Nat)
  answers : List Answer

/-- `sendfile`s for the rest of a file, of which they hand over `k` bytes. -/
inductive Transferred (length : Nat) : List (Nat × Option Nat) → Nat → Prop where
  | start : Transferred length [] 0
  | count {calls : List (Nat × Option Nat)} {k n : Nat} : Transferred length calls k → 0 < n → n ≤ length - k →
    Transferred length (calls ++ [(length - k, some n)]) (k + n)
  | none {calls : List (Nat × Option Nat)} {k : Nat} : Transferred length calls k →
    Transferred length (calls ++ [(length - k, none)]) k

inductive Copied (length : Nat) : List Answer → Nat → Prop where
  | start : Copied length [] 0
  | count {answers : List Answer} {k n : Nat} : Copied length answers k → 0 < n →
    Copied length (answers ++ [.count n]) (k + min n (length - k))
  | interrupted {answers : List Answer} {k : Nat} : Copied length answers k →
    Copied length (answers ++ [.interrupted]) k

/-- What a move hands over. -/
inductive Handed (files : Nat → Bytes) : Piece → Prop where
  | send (data : Bytes) : Handed files ⟨.call (.send data), data, [], []⟩
  | whole (file : FileBody) {calls : List (Nat × Option Nat)} {k : Nat} : (file.bytes files).length = file.length →
    Transferred file.length calls k →
    Handed files ⟨.call (.sendFile file), file.bytes files, calls, []⟩
  /-- The last `sendfile` asked for just the missing bytes and found the end of the file. -/
  | ended (file : FileBody) {calls : List (Nat × Option Nat)} {k : Nat} : Transferred file.length calls k →
    k < file.length →
    Handed files ⟨.call (.sendFile file), (file.bytes files).take k, calls ++ [(file.length - k, some 0)], []⟩
  | copied (file : FileBody) {answers : List Answer} : (file.bytes files).length = file.length →
    Copied file.length answers file.length →
    Handed files ⟨.call (.sendFile file), file.bytes files, [], answers⟩
  /-- The last `pread` of the copy gave no bytes. -/
  | cut (file : FileBody) {answers : List Answer} {k : Nat} {a : Answer} : Copied file.length answers k →
    k < file.length → ¬ a.Reads →
    Handed files ⟨.call (.sendFile file), (file.bytes files).take k, [], answers ++ [a]⟩
  | shutdownWrite : Handed files ⟨.call .shutdownWrite, [], [], []⟩
  | writeEvent : Handed files ⟨.call .writeEvent, [], [], []⟩
  | close : Handed files ⟨.close, [], [], []⟩

def flat (pieces : List Piece) : Bytes := pieces.flatMap Piece.bytes

theorem flat_append (pieces pieces' : List Piece) : flat (pieces ++ pieces') = flat pieces ++ flat pieces' :=
  List.flatMap_append

def transfers (trace : List Syscall) : List (Nat × Option Nat) :=
  trace.filterMap fun
    | .sendfile _ asked ret => some (asked, ret)
    | _ => none

theorem transfers_append (trace trace' : List Syscall) :
    transfers (trace ++ trace') = transfers trace ++ transfers trace' := List.filterMap_append

theorem transfers_log (trace : List Syscall) {call : Syscall} (h : transfers [call] = []) :
    transfers (trace ++ [call]) = transfers trace := by
  rw [transfers_append, h, List.append_nil]

section
variable {σ : Type}

/-- A file is on its way: `k` bytes of it are handed over. -/
structure OnTheWay (files : Nat → Bytes) (pieces : List Piece) (file : FileBody)
    (w : World σ) (before : List Piece) (calls : List (Nat × Option Nat)) (after : List Piece) (k : Nat) : Prop where
  pieces : pieces = before ++ ⟨.call (.sendFile file), file.bytes files, calls, []⟩ :: after
  calls : Transferred file.length calls k
  later : after.flatMap Piece.calls = []
  length : (file.bytes files).length = file.length
  remaining : k + w.conn.fileRemaining = file.length
  offset : w.conn.fileOffset = file.offset + k
  pre : w.conn.preFileBytes ≤ w.conn.output.length
  first : 0 < w.conn.preFileBytes → k = 0
  front : w.wire ++ w.conn.output.take w.conn.preFileBytes =
    flat before ++ (file.bytes files).take k
  behind : w.conn.output.drop w.conn.preFileBytes = flat after

structure Ledger (files : Nat → Bytes) (pieces : List Piece) (w : World σ) : Prop where
  disk : w.files = files
  handed : ∀ p ∈ pieces, Handed files p
  calls : pieces.flatMap Piece.calls = transfers w.trace
  closed : w.conn.closed = true → w.wire <+: flat pieces
  idle : w.conn.closed = false → w.conn.pendingFile = none →
    w.conn.preFileBytes = 0 ∧ w.wire ++ w.conn.output = flat pieces
  busy : w.conn.closed = false → ∀ file, w.conn.pendingFile = some file →
    ∃ before calls after k, OnTheWay files pieces file w before calls after k

/-- What was handed over, or is to be, is accounted for, and so are the answers
to `pread` that are gone. -/
def Accounted (files : Nat → Bytes) (preads : List Answer) (moves : List Move) (w : World σ) : Prop :=
  ∃ pieces : List Piece, pieces.map Piece.move = moves ∧ Ledger files pieces w ∧
    pieces.flatMap Piece.answers ++ w.preads = preads

/-- The same where the connection waits for the kernel, maybe in the middle of a copy. -/
def Halted (files : Nat → Bytes) (preads : List Answer) (moves : List Move) (w : World σ) : Prop :=
  ∃ pieces : List Piece, pieces.map Piece.move = moves ∧ Ledger files pieces w ∧
    pieces.flatMap Piece.answers <+: preads

variable {files : Nat → Bytes} {preads : List Answer} {pieces : List Piece}
  {moves : List Move} {w w' : World σ}

theorem Accounted.halted (h : Accounted files preads moves w) : Halted files preads moves w := by
  obtain ⟨pieces, hmoves, hl, hanswers⟩ := h
  exact ⟨pieces, hmoves, hl, hanswers ▸ List.prefix_append _ _⟩

structure Untouched (w w' : World σ) : Prop where
  closed : w'.conn.closed = w.conn.closed
  output : w'.conn.output = w.conn.output
  pendingFile : w'.conn.pendingFile = w.conn.pendingFile
  fileOffset : w'.conn.fileOffset = w.conn.fileOffset
  fileRemaining : w'.conn.fileRemaining = w.conn.fileRemaining
  preFileBytes : w'.conn.preFileBytes = w.conn.preFileBytes
  wire : w'.wire = w.wire
  files : w'.files = w.files
  calls : transfers w'.trace = transfers w.trace

theorem OnTheWay.untouched {file : FileBody} {before after : List Piece} {calls : List (Nat × Option Nat)} {k : Nat}
    (h : OnTheWay files pieces file w before calls after k) (hu : Untouched w w') :
    OnTheWay files pieces file w' before calls after k where
  pieces := h.pieces
  calls := h.calls
  later := h.later
  length := h.length
  remaining := by
    rw [hu.fileRemaining]
    exact h.remaining
  offset := by
    rw [hu.fileOffset]
    exact h.offset
  pre := by
    rw [hu.preFileBytes, hu.output]
    exact h.pre
  first := by
    rw [hu.preFileBytes]
    exact h.first
  front := by
    rw [hu.wire, hu.output, hu.preFileBytes]
    exact h.front
  behind := by
    rw [hu.output, hu.preFileBytes]
    exact h.behind

theorem Ledger.untouched (h : Ledger files pieces w) (hu : Untouched w w') :
    Ledger files pieces w' where
  disk := hu.files.trans h.disk
  handed := h.handed
  calls := h.calls.trans hu.calls.symm
  closed := by
    rw [hu.closed, hu.wire]
    exact h.closed
  idle := by
    rw [hu.closed, hu.pendingFile, hu.preFileBytes, hu.wire, hu.output]
    exact h.idle
  busy := by
    rw [hu.closed, hu.pendingFile]
    intro hopen file hfile
    obtain ⟨before, calls, after, k, hway⟩ := h.busy hopen file hfile
    exact ⟨before, calls, after, k, hway.untouched hu⟩

theorem Accounted.untouched (h : Accounted files preads moves w) (hu : Untouched w w')
    (hpreads : w'.preads = w.preads) : Accounted files preads moves w' := by
  obtain ⟨pieces, hmoves, hl, hanswers⟩ := h
  exact ⟨pieces, hmoves, hl.untouched hu, hpreads ▸ hanswers⟩

theorem Halted.untouched (h : Halted files preads moves w) (hu : Untouched w w') : Halted files preads moves w' := by
  obtain ⟨pieces, hmoves, hl, hpart⟩ := h
  exact ⟨pieces, hmoves, hl.untouched hu, hpart⟩

theorem Ledger.wire_prefix (h : Ledger files pieces w) : w.wire <+: flat pieces := by
  cases hclosed : w.conn.closed with
  | true => exact h.closed hclosed
  | false =>
    cases hfile : w.conn.pendingFile with
    | none =>
      rw [← (h.idle hclosed hfile).2]
      exact List.prefix_append _ _
    | some file =>
      obtain ⟨before, calls, after, k, hway⟩ := h.busy hclosed file hfile
      have hfront : w.wire <+: flat before ++ (file.bytes files).take k := by
        rw [← hway.front]
        exact List.prefix_append _ _
      refine hfront.trans ?_
      rw [hway.pieces, flat_append]
      have hcons : flat (⟨.call (.sendFile file), file.bytes files, calls, []⟩ :: after) =
          file.bytes files ++ flat after := rfl
      rw [hcons, List.prefix_append_right_inj]
      exact (List.take_prefix _ _).trans (List.prefix_append _ _)

theorem Ledger.of_closed (h : Ledger files pieces w) (hclosed : w'.conn.closed = true)
    (hwire : w'.wire = w.wire) (hfiles : w'.files = w.files)
    (hcalls : transfers w'.trace = transfers w.trace) : Ledger files pieces w' where
  disk := hfiles.trans h.disk
  handed := h.handed
  calls := h.calls.trans hcalls.symm
  closed _ := by
    rw [hwire]
    exact h.wire_prefix
  idle hopen := absurd (hclosed.symm.trans hopen) Bool.true_eq_false.mp
  busy hopen := absurd (hclosed.symm.trans hopen) Bool.true_eq_false.mp

/-- A piece of the output buffer up to the file is handed over. -/
theorem Ledger.written (h : Ledger files pieces w) {n : Nat}
    (hn : n ≤ w.conn.preFileBytes ∨ w.conn.preFileBytes = 0 ∧ w.conn.pendingFile = none)
    (hconn : w'.conn = TcpConnection.written n w.conn)
    (hwire : w'.wire = w.wire ++ w.conn.output.take n) (hfiles : w'.files = w.files)
    (hcalls : transfers w'.trace = transfers w.trace)
    (hopen : w.conn.closed = false) : Ledger files pieces w' where
  disk := hfiles.trans h.disk
  handed := h.handed
  calls := h.calls.trans hcalls.symm
  closed hclosed := by
    rw [hconn] at hclosed
    exact absurd (hopen.symm.trans hclosed) Bool.false_ne_true
  idle _ hfile := by
    rw [hconn] at hfile ⊢
    obtain ⟨hpre, hbytes⟩ := h.idle hopen hfile
    refine ⟨by simp [TcpConnection.written, hpre], ?_⟩
    simp only [TcpConnection.written, hwire, List.append_assoc, List.take_append_drop]
    exact hbytes
  busy _ file hfile := by
    rw [hconn] at hfile
    obtain ⟨before, calls, after, k, hway⟩ := h.busy hopen file hfile
    have hn : n ≤ w.conn.preFileBytes := by
      rcases hn with hn | ⟨-, hnone⟩
      · exact hn
      · exact absurd (hfile.symm.trans hnone) (Option.some_ne_none _)
    have hmin : w.conn.preFileBytes - min w.conn.preFileBytes n = w.conn.preFileBytes - n := by omega
    have htake : w.conn.output.take w.conn.preFileBytes =
        w.conn.output.take n ++ (w.conn.output.drop n).take (w.conn.preFileBytes - n) := by
      rw [← List.take_add, Nat.add_sub_cancel' hn]
    refine ⟨before, calls, after, k, hway.pieces, hway.calls, hway.later, hway.length, ?_, ?_, ?_, ?_, ?_, ?_⟩
    · rw [hconn]
      exact hway.remaining
    · rw [hconn]
      exact hway.offset
    · have := hway.pre
      rw [hconn]
      simp only [TcpConnection.written, hmin, List.length_drop]
      omega
    · intro hpos
      rw [hconn] at hpos
      simp only [TcpConnection.written, hmin] at hpos
      exact hway.first (by omega)
    · rw [hconn, hwire]
      simp only [TcpConnection.written, hmin]
      rw [List.append_assoc, ← htake]
      exact hway.front
    · rw [hconn]
      simp only [TcpConnection.written, hmin]
      rw [List.drop_drop, Nat.add_sub_cancel' hn]
      exact hway.behind

/-- New bytes come last; `k` of them go past the empty output buffer. -/
theorem Ledger.snoc (h : Ledger files pieces w) (hopen : w.conn.closed = false) {p : Piece}
    (hpiece : Handed files p) (hcalls : p.calls = []) {k : Nat}
    (hk : k = 0 ∨ w.conn.output = [] ∧ w.conn.pendingFile = none) :
    Ledger files (pieces ++ [p]) { w with
      wire := w.wire ++ p.bytes.take k
      conn := { w.conn with output := w.conn.output ++ p.bytes.drop k } } where
  disk := h.disk
  handed q hq := by
    rcases List.mem_append.mp hq with hq | hq
    · exact h.handed q hq
    · rw [List.mem_singleton.mp hq]
      exact hpiece
  calls := by
    rw [List.flatMap_append, h.calls, List.flatMap_singleton, hcalls, List.append_nil]
  closed hclosed := absurd (hopen.symm.trans hclosed) Bool.false_ne_true
  idle _ hfile := by
    obtain ⟨hpre, hbytes⟩ := h.idle hopen hfile
    refine ⟨hpre, ?_⟩
    have hone : flat [p] = p.bytes := by simp [flat]
    rw [flat_append, hone, ← hbytes]
    rcases hk with rfl | ⟨hout, -⟩
    · simp
    · simp [hout]
  busy _ file hfile := by
    rcases hk with rfl | ⟨-, hnone⟩
    · obtain ⟨before, calls, after, k, hway⟩ := h.busy hopen file hfile
      have hone : flat [p] = p.bytes := by simp [flat]
      refine ⟨before, calls, after ++ [p], k, by rw [hway.pieces]; simp, hway.calls, ?_, hway.length,
        hway.remaining, hway.offset, ?_, hway.first, ?_, ?_⟩
      · rw [List.flatMap_append, hway.later, List.flatMap_singleton, hcalls]
        rfl
      · have := hway.pre
        simp only [List.length_append]
        omega
      · simp only [List.take_zero, List.append_nil]
        rw [List.take_append_of_le_length hway.pre]
        exact hway.front
      · simp only [List.drop_zero]
        rw [List.drop_append_of_le_length hway.pre, hway.behind, flat_append, hone]
    · exact absurd (hfile.symm.trans hnone) (Option.some_ne_none _)

/-- What comes after the close is not handed over. -/
theorem Ledger.snoc_closed (h : Ledger files pieces w) (hclosed : w.conn.closed = true) {p : Piece}
    (hpiece : Handed files p) (hcalls : p.calls = []) : Ledger files (pieces ++ [p]) w where
  disk := h.disk
  handed q hq := by
    rcases List.mem_append.mp hq with hq | hq
    · exact h.handed q hq
    · rw [List.mem_singleton.mp hq]
      exact hpiece
  calls := by
    rw [List.flatMap_append, h.calls, List.flatMap_singleton, hcalls, List.append_nil]
  closed _ := by
    rw [flat_append]
    exact h.wire_prefix.trans (List.prefix_append _ _)
  idle hopen := absurd (hclosed.symm.trans hopen) Bool.true_eq_false.mp
  busy hopen := absurd (hclosed.symm.trans hopen) Bool.true_eq_false.mp

theorem Ledger.snoc_nil (h : Ledger files pieces w) {p : Piece} (hpiece : Handed files p) (hcalls : p.calls = [])
    (hbytes : p.bytes = []) : Ledger files (pieces ++ [p]) w := by
  cases hclosed : w.conn.closed with
  | true => exact h.snoc_closed hclosed hpiece hcalls
  | false =>
    have hsnoc := h.snoc hclosed hpiece hcalls (k := 0) (Or.inl rfl)
    simpa only [hbytes, List.take_nil, List.drop_nil, List.append_nil] using hsnoc

theorem Accounted.snoc_closed (h : Accounted files preads moves w) (hclosed : w.conn.closed = true)
    {p : Piece} (hpiece : Handed files p) (hcalls : p.calls = []) (hanswers : p.answers = []) :
    Accounted files preads (moves ++ [p.move]) w := by
  obtain ⟨pieces, hmoves, hl, hsum⟩ := h
  refine ⟨pieces ++ [p], by rw [List.map_append, hmoves]; rfl, hl.snoc_closed hclosed hpiece hcalls, ?_⟩
  rw [List.flatMap_append, List.flatMap_singleton, hanswers, List.append_nil, hsum]

theorem Accounted.snoc_nil (h : Accounted files preads moves w) {p : Piece} (hpiece : Handed files p)
    (hcalls : p.calls = []) (hanswers : p.answers = []) (hbytes : p.bytes = []) :
    Accounted files preads (moves ++ [p.move]) w := by
  obtain ⟨pieces, hmoves, hl, hsum⟩ := h
  refine ⟨pieces ++ [p], by rw [List.map_append, hmoves]; rfl, hl.snoc_nil hpiece hcalls hbytes, ?_⟩
  rw [List.flatMap_append, List.flatMap_singleton, hanswers, List.append_nil, hsum]

theorem FileBody.take_bytes (files : Nat → Bytes) {file : FileBody} {k n : Nat} (h : k + n ≤ file.length) :
    (file.bytes files).take (k + n) =
      (file.bytes files).take k ++ ((files file.fd).drop (file.offset + k)).take n := by
  have hk : min (k + n) file.length = k + n := Nat.min_eq_left h
  have hk' : min k file.length = k := Nat.min_eq_left (by omega)
  rw [FileBody.bytes, List.take_take, List.take_take, hk, hk', List.take_add, List.drop_drop]

section
variable {file : FileBody} {before after : List Piece} {calls : List (Nat × Option Nat)} {k n : Nat}

/-- A file of which more is handed over, or not: the calls for it are its own. -/
theorem Ledger.transferred (h : Ledger files pieces w) (hway : OnTheWay files pieces file w before calls after k)
    {p : Piece} (hpiece : Handed files p) {call : Nat × Option Nat} (hp : p.calls = calls ++ [call])
    (hcalls : transfers w'.trace = transfers w.trace ++ [call]) :
    (∀ q ∈ before ++ p :: after, Handed files q) ∧
      (before ++ p :: after).flatMap Piece.calls = transfers w'.trace := by
  have hall := h.handed
  have hsum := h.calls
  rw [hway.pieces] at hall hsum
  rw [List.flatMap_append, List.flatMap_cons, hway.later, List.append_nil] at hsum
  refine ⟨fun q hq => ?_, ?_⟩
  · rcases List.mem_append.mp hq with hq | hq
    · exact hall q (List.mem_append_left _ hq)
    · rcases List.mem_cons.mp hq with rfl | hq
      · exact hpiece
      · exact hall q (List.mem_append_right _ (List.mem_cons_of_mem _ hq))
  · rw [List.flatMap_append, List.flatMap_cons, hway.later, hp, List.append_nil, hcalls, ← hsum, List.append_assoc]

/-- A `sendfile` that hands nothing over. -/
theorem Ledger.attempted (h : Ledger files pieces w) (hway : OnTheWay files pieces file w before calls after k)
    (hopen : w.conn.closed = false) (hfile : w.conn.pendingFile = some file) (hconn : w'.conn = w.conn)
    (hwire : w'.wire = w.wire) (hfiles : w'.files = w.files)
    (hcalls : transfers w'.trace = transfers w.trace ++ [(w.conn.fileRemaining, none)]) :
    Ledger files (before ++ ⟨.call (.sendFile file), file.bytes files,
      calls ++ [(w.conn.fileRemaining, none)], []⟩ :: after) w' := by
  have hmissing : w.conn.fileRemaining = file.length - k := by
    have := hway.remaining
    omega
  have hmade : Transferred file.length (calls ++ [(w.conn.fileRemaining, none)]) k := by
    rw [hmissing]
    exact .none hway.calls
  obtain ⟨hhanded, hsum⟩ := h.transferred hway (.whole file hway.length hmade) rfl hcalls
  exact {
    disk := hfiles.trans h.disk
    handed := hhanded
    calls := hsum
    closed := fun hclosed => by
      rw [hconn] at hclosed
      exact absurd (hopen.symm.trans hclosed) Bool.false_ne_true
    idle := fun _ hnone => by
      rw [hconn] at hnone
      exact absurd (hfile.symm.trans hnone) (Option.some_ne_none _)
    busy := fun _ file' hfile' => by
      rw [hconn] at hfile'
      cases Option.some.inj (hfile.symm.trans hfile')
      refine ⟨before, _, after, k, rfl, hmade, hway.later, hway.length, ?_, ?_, ?_, ?_, ?_, ?_⟩
      · rw [hconn]
        exact hway.remaining
      · rw [hconn]
        exact hway.offset
      · rw [hconn]
        exact hway.pre
      · rw [hconn]
        exact hway.first
      · rw [hconn, hwire]
        exact hway.front
      · rw [hconn]
        exact hway.behind }

/-- A `sendfile` that hands over the next `n` bytes. -/
theorem Ledger.sent (h : Ledger files pieces w) (hway : OnTheWay files pieces file w before calls after k)
    (hopen : w.conn.closed = false) (hfile : w.conn.pendingFile = some file) (hpre : w.conn.preFileBytes = 0)
    (hpos : 0 < n) (hn : n ≤ w.conn.fileRemaining) (hconn : w'.conn = TcpConnection.fileSent n w.conn)
    (hwire : w'.wire = w.wire ++ ((files file.fd).drop w.conn.fileOffset).take n) (hfiles : w'.files = w.files)
    (hcalls : transfers w'.trace = transfers w.trace ++ [(w.conn.fileRemaining, some n)]) :
    Ledger files (before ++ ⟨.call (.sendFile file), file.bytes files,
      calls ++ [(w.conn.fileRemaining, some n)], []⟩ :: after) w' := by
  have hremaining := hway.remaining
  have hmissing : w.conn.fileRemaining = file.length - k := by omega
  have hmade : Transferred file.length (calls ++ [(w.conn.fileRemaining, some n)]) (k + n) := by
    rw [hmissing]
    exact .count hway.calls hpos (hmissing ▸ hn)
  obtain ⟨hhanded, hsum⟩ := h.transferred hway (.whole file hway.length hmade) rfl hcalls
  exact {
    disk := hfiles.trans h.disk
    handed := hhanded
    calls := hsum
    closed := fun hclosed => by
      rw [hconn] at hclosed
      exact absurd (hopen.symm.trans hclosed) Bool.false_ne_true
    idle := fun _ hnone => by
      rw [hconn] at hnone
      exact absurd (hfile.symm.trans hnone) (Option.some_ne_none _)
    busy := fun _ file' hfile' => by
      rw [hconn] at hfile'
      cases Option.some.inj (hfile.symm.trans hfile')
      refine ⟨before, _, after, k + n, rfl, hmade, hway.later, hway.length, ?_, ?_, ?_, ?_, ?_, ?_⟩
      · rw [hconn]
        simp only [TcpConnection.fileSent]
        omega
      · rw [hconn]
        simp only [TcpConnection.fileSent, hway.offset, Nat.add_assoc]
      · rw [hconn]
        exact hway.pre
      · intro hpos
        rw [hconn] at hpos
        exact absurd hpos (by simp [TcpConnection.fileSent, hpre])
      · have hfront := hway.front
        have hlen : k + n ≤ file.length := by omega
        rw [hconn, hwire, FileBody.take_bytes _ hlen]
        simp only [TcpConnection.fileSent]
        rw [hpre, List.take_zero, List.append_nil] at hfront ⊢
        rw [hfront, hway.offset, List.append_assoc]
      · rw [hconn]
        exact hway.behind }

/-- The file is done with after `k` bytes of it. -/
theorem Ledger.fileDone {calls' : List (Nat × Option Nat)}
    (hway : OnTheWay files pieces file w before calls after k) (hpre : w.conn.preFileBytes = 0)
    (hopen : w.conn.closed = false) (hfiles : w.files = files)
    (hhanded : ∀ p ∈ before ++ ⟨.call (.sendFile file), (file.bytes files).take k, calls', []⟩ :: after,
      Handed files p)
    (hcalls : (before ++ ⟨.call (.sendFile file), (file.bytes files).take k, calls', []⟩ :: after).flatMap
      Piece.calls = transfers w.trace) :
    Ledger files (before ++ ⟨.call (.sendFile file), (file.bytes files).take k, calls', []⟩ :: after)
      (TcpConnection.fileDone w) where
  disk := hfiles
  handed := hhanded
  calls := hcalls
  closed hclosed := absurd (hopen.symm.trans hclosed) Bool.false_ne_true
  idle _ _ := by
    have hfront := hway.front
    have hbehind := hway.behind
    rw [hpre, List.take_zero, List.append_nil] at hfront
    rw [hpre, List.drop_zero] at hbehind
    refine ⟨hpre, ?_⟩
    simp only [TcpConnection.fileDone]
    rw [hfront, hbehind, flat_append, List.append_assoc]
    rfl
  busy _ _ hfile := absurd hfile.symm (Option.some_ne_none _)

end

/-! ## Calls -/

namespace TcpConnection

theorem write_any (data : Bytes) :
    wp (write data)
      (fun a w' => w'.conn = w.conn ∧ w'.files = w.files ∧ w'.preads = w.preads ∧
        transfers w'.trace = transfers w.trace ∧
        match a with
        | .count k => k ≤ data.length ∧ w'.wire = w.wire ++ data.take k
        | _ => w'.wire = w.wire)
      (fun w' => w' = w) w := by
  unfold wp write
  cases hfd : w.conn.socket.fd with
  | none => exact ⟨rfl, rfl, rfl, transfers_log _ rfl, rfl⟩
  | some fd =>
    cases hw : w.writes with
    | nil => rfl
    | cons a rest =>
      cases a with
      | count n => exact ⟨rfl, rfl, rfl, transfers_log _ rfl, Nat.min_le_right _ _, rfl⟩
      | again => exact ⟨rfl, rfl, rfl, transfers_log _ rfl, rfl⟩
      | interrupted => exact ⟨rfl, rfl, rfl, transfers_log _ rfl, rfl⟩
      | failed errno => exact ⟨rfl, rfl, rfl, transfers_log _ rfl, rfl⟩

theorem sendfile_any (file : FileBody) :
    wp (sendfile file)
      (fun a w' => w'.files = w.files ∧ w'.preads = w.preads ∧
        match a with
        | .count k => k ≤ w.conn.fileRemaining ∧
            w'.conn = { w.conn with fileOffset := w.conn.fileOffset + k } ∧
            w'.wire = w.wire ++ ((w.files file.fd).drop w.conn.fileOffset).take k ∧
            transfers w'.trace = transfers w.trace ++ [(w.conn.fileRemaining, some k)]
        | _ => w'.conn = w.conn ∧ w'.wire = w.wire ∧
            transfers w'.trace = transfers w.trace ++ [(w.conn.fileRemaining, none)])
      (fun w' => w' = w) w := by
  unfold wp sendfile
  cases hfd : w.conn.socket.fd with
  | none => exact ⟨rfl, rfl, rfl, rfl, transfers_append _ [_]⟩
  | some fd =>
    cases hw : w.sendfiles with
    | nil => rfl
    | cons a rest =>
      cases a with
      | count n =>
        refine ⟨rfl, rfl, ?_, rfl, ?_, transfers_append _ [_]⟩
        · simp only [List.length_take]
          omega
        · simp only [World.log, List.length_take]
          congr 1
          rw [List.take_eq_take_iff]
          simp
      | again => exact ⟨rfl, rfl, rfl, rfl, transfers_append _ [_]⟩
      | interrupted => exact ⟨rfl, rfl, rfl, rfl, transfers_append _ [_]⟩
      | failed errno => exact ⟨rfl, rfl, rfl, rfl, transfers_append _ [_]⟩

theorem pread_any (file : FileBody) (total : Nat) :
    wp (pread file total)
      (fun a w' => Untouched w w' ∧ w'.conn = w.conn ∧ ∃ answer, w.preads = answer :: w'.preads ∧
        match a with
        | .data bytes => ∃ n, answer = .count n ∧ bytes =
            ((w.files file.fd).drop (file.offset + total)).take (min n (file.length - total))
        | .interrupted => answer = .interrupted
        | _ => ¬ answer.Reads)
      (fun w' => w' = w) w := by
  unfold wp pread
  cases hp : w.preads with
  | nil => rfl
  | cons a rest =>
    have hu : Untouched w { w with preads := rest } := ⟨rfl, rfl, rfl, rfl, rfl, rfl, rfl, rfl, rfl⟩
    cases a with
    | count n => exact ⟨hu, rfl, _, rfl, n, rfl, rfl⟩
    | again => exact ⟨hu, rfl, _, rfl, id⟩
    | interrupted => exact ⟨hu, rfl, _, rfl, rfl⟩
    | failed errno => exact ⟨hu, rfl, _, rfl, id⟩

section
variable {closeCallback : Prog (World σ) Unit}
  (hcb : Keeps (fun w : World σ => (w.conn, w.wire, w.files, w.preads, w.trace)) closeCallback)
include hcb

/-- Closing leaves what was handed over, and the answers that are left. -/
theorem handleClose_ledger (hl : Ledger files pieces w) :
    wp (handleClose closeCallback)
      (fun _ w' => (Ledger files pieces w' ∧ w'.preads = w.preads) ∧ w'.conn.closed = true)
      (fun w' => Ledger files pieces w' ∧ w'.preads = w.preads) w := by
  simp only [handleClose, wp_bind, wp_world, wp_ite, wp_update]
  split
  · rename_i hclosed
    exact ⟨⟨hl, rfl⟩, hclosed⟩
  obtain ⟨timers, idleTimer, hcancel⟩ :=
    cancelIdleTimer_same { w with conn := { w.conn with closed := true } }
  rw [hcancel]
  have key : ∀ w₁ w' : World σ, (w'.conn, w'.wire, w'.files, w'.preads, w'.trace) =
      (w₁.conn, w₁.wire, w₁.files, w₁.preads, w₁.trace) → w₁.conn.closed = true →
      w₁.wire = w.wire → w₁.files = w.files → w₁.preads = w.preads →
      transfers w₁.trace = transfers w.trace →
      (Ledger files pieces w' ∧ w'.preads = w.preads) ∧ w'.conn.closed = true := by
    intro w₁ w' hsame hclosed hwire hfiles hpreads hcalls
    simp only [Prod.mk.injEq] at hsame
    obtain ⟨h1, h2, h3, h4, h5⟩ := hsame
    have hclosed' : w'.conn.closed = true := by rw [h1, hclosed]
    exact ⟨⟨hl.of_closed hclosed' (h2.trans hwire) (h3.trans hfiles) (by rw [h5, hcalls]), h4.trans hpreads⟩,
      hclosed'⟩
  exact wp_mono hcb.wp (fun _ w' h => key _ w' h rfl rfl rfl rfl (transfers_log _ rfl))
    (fun w' h => (key _ w' h rfl rfl rfl rfl (transfers_log _ rfl)).1)

theorem fail_ledger (hl : Ledger files pieces w) :
    wp (do
      update World.addErrors
      handleClose closeCallback)
      (fun _ w' => (Ledger files pieces w' ∧ w'.preads = w.preads) ∧ w'.conn.closed = true)
      (fun w' => Ledger files pieces w' ∧ w'.preads = w.preads) w := by
  rw [wp_bind, wp_update]
  exact handleClose_ledger hcb (w := w.addErrors) (hl.untouched ⟨rfl, rfl, rfl, rfl, rfl, rfl, rfl, rfl, rfl⟩)

theorem handleClose_accounted (h : Accounted files preads moves w) :
    wp (handleClose closeCallback)
      (fun _ w' => Accounted files preads moves w' ∧ w'.conn.closed = true)
      (Accounted files preads moves) w := by
  obtain ⟨pieces, hmoves, hl, hsum⟩ := h
  exact wp_mono (handleClose_ledger hcb hl)
    (fun _ _ hi => ⟨⟨pieces, hmoves, hi.1.1, by rw [hi.1.2, hsum]⟩, hi.2⟩)
    (fun _ hi => ⟨pieces, hmoves, hi.1, by rw [hi.2, hsum]⟩)

theorem fail_accounted (h : Accounted files preads moves w) :
    wp (do
      update World.addErrors
      handleClose closeCallback)
      (fun _ w' => Accounted files preads moves w' ∧ w'.conn.closed = true)
      (Accounted files preads moves) w := by
  rw [wp_bind, wp_update]
  exact handleClose_accounted hcb (w := w.addErrors)
    (h.untouched ⟨rfl, rfl, rfl, rfl, rfl, rfl, rfl, rfl, rfl⟩ rfl)

/-! ## A write event -/

def MidAccounted (files : Nat → Bytes) (preads : List Answer) (moves : List Move) (w : World σ) :
    Prop := Accounted files preads moves w ∧ w.conn.closed = false

omit hcb in
theorem MidAccounted.pre (h : MidAccounted files preads moves w) :
    w.conn.preFileBytes ≤ w.conn.output.length := by
  obtain ⟨⟨pieces, -, hl, -⟩, hopen⟩ := h
  cases hfile : w.conn.pendingFile with
  | none =>
    rw [(hl.idle hopen hfile).1]
    exact Nat.zero_le _
  | some file =>
    obtain ⟨before, calls, after, k, hway⟩ := hl.busy hopen file hfile
    exact hway.pre

theorem flushRound_accounted (h : MidAccounted files preads moves w) {limit : Nat}
    (hlen : limit ≤ w.conn.output.length)
    (hfront : limit ≤ w.conn.preFileBytes ∨ w.conn.preFileBytes = 0 ∧ w.conn.pendingFile = none) :
    wp (flushRound closeCallback limit)
      (fun r w' => r.elim
        (fun limit' => ∃ n ≤ limit, limit' = limit - n ∧ w'.conn = written n w.conn ∧
          MidAccounted files preads moves w')
        (fun ok => if ok then w' = w ∧ limit = 0 else Accounted files preads moves w'))
      (Accounted files preads moves) w := by
  obtain ⟨⟨pieces, hmoves, hl, hsum⟩, hopen⟩ := h
  simp only [flushRound, wp_bind, wp_world, wp_ite]
  split
  · have hmin : min limit w.conn.output.length = limit := Nat.min_eq_left hlen
    rw [hmin]
    refine wp_mono (write_any _) ?_ ?_
    · rintro a w' ⟨hconn, hfiles, hpreads, hcalls, ha⟩
      have hsame : w'.wire = w.wire → Accounted files preads moves w' := by
        intro hwire
        refine ⟨pieces, hmoves, hl.untouched ?_, by rw [hpreads, hsum]⟩
        exact ⟨by rw [hconn], by rw [hconn], by rw [hconn], by rw [hconn], by rw [hconn],
          by rw [hconn], hwire, hfiles, hcalls⟩
      have hopen' : w'.conn.closed = false := by rw [hconn, hopen]
      cases a with
      | count k =>
        obtain ⟨hk, hwire⟩ := ha
        have hkl : k ≤ limit := by
          simp only [List.length_take] at hk
          omega
        rw [List.take_take, Nat.min_eq_left hkl] at hwire
        simp only [wp_ite, wp_bind, wp_update, wp_pure]
        split
        · refine ⟨k, hkl, rfl, ?_, ⟨pieces, hmoves, ?_, by rw [← hsum, ← hpreads]; rfl⟩, ?_⟩
          · simp only [World.addBytesWritten, written, hconn]
          · refine hl.written (hfront.imp_left fun h => hkl.trans h) ?_ hwire hfiles hcalls hopen
            simp only [World.addBytesWritten, written, hconn]
          · simp only [World.addBytesWritten, hconn, hopen]
        · rename_i hk0
          have hk0 : k = 0 := Nat.eq_zero_of_not_pos hk0
          rw [hk0, List.take_zero, List.append_nil] at hwire
          exact wp_mono (fail_accounted hcb (hsame hwire)) (fun _ _ hi => hi.1) (fun _ hi => hi)
      | again => exact hsame ha
      | interrupted =>
        refine ⟨0, Nat.zero_le _, rfl, ?_, hsame ha, hopen'⟩
        rw [hconn]
        simp [written]
      | failed errno =>
        simp only [wp_bind, wp_update, wp_pure]
        exact wp_mono (fail_accounted hcb (hsame ha)) (fun _ _ hi => hi.1) (fun _ hi => hi)
    · rintro w' rfl
      exact ⟨pieces, hmoves, hl, hsum⟩
  · rename_i hpos
    exact ⟨rfl, by omega⟩

theorem fileRound_accounted {file : FileBody} (h : MidAccounted files preads moves w)
    (hpre : w.conn.preFileBytes = 0) (hfile : w.conn.pendingFile = some file) :
    wp (fileRound closeCallback file ())
      (fun r w' => r.elim
        (fun _ => MidAccounted files preads moves w' ∧ w'.conn.preFileBytes = 0 ∧
          w'.conn.pendingFile = some file)
        (fun ok => if ok then MidAccounted files preads moves (fileDone w') ∧
            w'.conn.preFileBytes = 0
          else Accounted files preads moves w'))
      (Accounted files preads moves) w := by
  obtain ⟨⟨pieces, hmoves, hl, hsum⟩, hopen⟩ := h
  obtain ⟨before, calls, after, k, hway⟩ := hl.busy hopen file hfile
  have hremaining := hway.remaining
  -- the piece of the file may be replaced by what is known of it now
  have hreplaced : ∀ (p : Piece) (w' : World σ), p.move = .call (.sendFile file) → p.answers = [] →
      w'.preads = w.preads → Ledger files (before ++ p :: after) w' → Accounted files preads moves w' := by
    intro p w' hmove hanswers hpreads hl'
    refine ⟨_, ?_, hl', ?_⟩
    · rw [← hmoves, hway.pieces]
      simp [hmove]
    · rw [← hsum, hway.pieces]
      simp [hanswers, hpreads]
  simp only [fileRound, wp_bind, wp_world, wp_ite]
  split
  · rename_i hpos
    refine wp_mono (sendfile_any file) ?_ ?_
    · rintro a w' ⟨hfiles, hpreads, ha⟩
      have hsame : w'.conn = w.conn ∧ w'.wire = w.wire ∧
          transfers w'.trace = transfers w.trace ++ [(w.conn.fileRemaining, none)] →
          Accounted files preads moves w' := by
        rintro ⟨hconn, hwire, hcalls⟩
        exact hreplaced _ w' rfl rfl hpreads (hl.attempted hway hopen hfile hconn hwire hfiles hcalls)
      cases a with
      | count n =>
        obtain ⟨hn, hconn, hwire, hcalls⟩ := ha
        rw [hl.disk] at hwire
        simp only [wp_ite, wp_bind, wp_update, wp_pure]
        split
        · rename_i hn0
          have hconn' : { w'.conn with fileRemaining := w'.conn.fileRemaining - n } =
              fileSent n w.conn := by
            rw [hconn]
            rfl
          simp only [World.addBytesWritten, hconn', Sum.elim_inl]
          refine ⟨⟨hreplaced ⟨.call (.sendFile file), file.bytes files,
            calls ++ [(w.conn.fileRemaining, some n)], []⟩ _ rfl rfl hpreads ?_, hopen⟩, hpre, hfile⟩
          exact hl.sent hway hopen hfile hpre hn0 hn rfl hwire hfiles hcalls
        · rename_i hn0
          have hn0 : n = 0 := Nat.eq_zero_of_not_pos hn0
          subst hn0
          rw [List.take_zero, List.append_nil] at hwire
          have hpre' : w'.conn.preFileBytes = 0 := by rw [hconn, hpre]
          have hopen' : w'.conn.closed = false := by rw [hconn, hopen]
          have hway' : OnTheWay files pieces file w' before calls after k := by
            refine ⟨hway.pieces, hway.calls, hway.later, hway.length, ?_, ?_, ?_, ?_, ?_, ?_⟩
            · rw [hconn]
              exact hway.remaining
            · rw [hconn]
              exact hway.offset
            · rw [hconn]
              exact hway.pre
            · rw [hconn]
              exact hway.first
            · rw [hconn, hwire]
              exact hway.front
            · rw [hconn]
              exact hway.behind
          -- the file ended with `fileRemaining` bytes missing
          have hmissing : w.conn.fileRemaining = file.length - k := by omega
          rw [hmissing] at hcalls
          have hlt : k < file.length := by omega
          obtain ⟨hhanded, hall⟩ := hl.transferred hway (.ended file hway.calls hlt) rfl hcalls
          have hdone := Ledger.fileDone hway' hpre' hopen' (hfiles.trans hl.disk) hhanded hall
          exact ⟨⟨hreplaced _ _ rfl rfl hpreads hdone, hopen'⟩, hpre'⟩
      | again => exact hsame ha
      | interrupted =>
        exact ⟨⟨hsame ha, by rw [ha.1, hopen]⟩, by rw [ha.1, hpre], by rw [ha.1, hfile]⟩
      | failed errno =>
        simp only [wp_bind, wp_update, wp_pure]
        exact wp_mono (fail_accounted hcb (hsame ha)) (fun _ _ hi => hi.1) (fun _ hi => hi)
    · rintro w' rfl
      exact ⟨pieces, hmoves, hl, hsum⟩
  · rename_i hpos
    have hk : k = file.length := by omega
    have hwhole : (file.bytes files).take k = file.bytes files := by
      rw [hk, ← hway.length, List.take_length]
    have hpieces : pieces = before ++ ⟨.call (.sendFile file), (file.bytes files).take k, calls, []⟩ :: after := by
      rw [hwhole]
      exact hway.pieces
    have hdone := Ledger.fileDone hway hpre hopen hl.disk (hpieces ▸ hl.handed) (hpieces ▸ hl.calls)
    exact ⟨⟨hreplaced _ _ rfl rfl rfl hdone, hopen⟩, hpre⟩

omit hcb in
theorem writeDone_accounted (h : Accounted files preads moves w) {E : World σ → Prop} :
    wp writeDone (fun _ w' => Accounted files preads moves w') E w := by
  simp only [writeDone, wp_bind, wp_update, wp_world, wp_ite]
  split
  · exact h.untouched ⟨rfl, rfl, rfl, rfl, rfl, rfl, rfl, rfl, transfers_log _ rfl⟩ rfl
  · exact h.untouched ⟨rfl, rfl, rfl, rfl, rfl, rfl, rfl, rfl, rfl⟩ rfl

theorem accountedRules : WriteRules closeCallback (MidAccounted files preads moves)
    (Accounted files preads moves) where
  pre h := h.pre
  flush h hlen hfront := flushRound_accounted hcb h hlen hfront
  file h hpre hfile := fileRound_accounted hcb h hpre hfile
  done h _ := writeDone_accounted h.1

theorem handleWrite_accounted (h : Accounted files preads moves w) :
    wp (handleWrite closeCallback) (fun _ w' => Accounted files preads moves w')
      (Accounted files preads moves) w := by
  by_cases hclosed : w.conn.closed = true
  · simp only [handleWrite, wp_bind, wp_world, wp_ite]
    rw [if_pos hclosed]
    exact h
  · have hopen : w.conn.closed = false := by simpa using hclosed
    exact (accountedRules hcb).handleWrite ⟨h, hopen⟩ hopen

/-! ## The calls -/

omit hcb in
theorem queueOutput_any (data : Bytes) {E : World σ → Prop} :
    wp (queueOutput data) (fun _ w' => Untouched
      { w with conn := { w.conn with output := w.conn.output ++ data } } w' ∧ w'.preads = w.preads) E w := by
  unfold queueOutput
  split
  · exact ⟨⟨rfl, rfl, rfl, rfl, rfl, rfl, rfl, rfl, rfl⟩, rfl⟩
  · rename_i hlen
    have hdata : data = [] := List.length_eq_zero_iff.mp (Nat.eq_zero_of_not_pos hlen)
    rw [wp_pure, hdata, List.append_nil]
    exact ⟨⟨rfl, rfl, rfl, rfl, rfl, rfl, rfl, rfl, rfl⟩, rfl⟩

/-- The bytes of a piece whose `pread`s are over. -/
theorem sendInLoop_accounted (hl : Ledger files pieces w) (hopen : w.conn.closed = false)
    (hdirect : w.conn.channel.isWriting = false → w.conn.pendingFile = none) {p : Piece}
    (hpiece : Handed files p) (hcalls : p.calls = [])
    (hsum : pieces.flatMap Piece.answers ++ (p.answers ++ w.preads) = preads) :
    wp (sendInLoop closeCallback p.bytes)
      (fun _ w' => Accounted files preads (pieces.map Piece.move ++ [p.move]) w')
      (Halted files preads (pieces.map Piece.move)) w := by
  have hmoves : (pieces ++ [p]).map Piece.move = pieces.map Piece.move ++ [p.move] := List.map_append
  have hsum' : ∀ w' : World σ, w'.preads = w.preads →
      (pieces ++ [p]).flatMap Piece.answers ++ w'.preads = preads := by
    intro w' hpreads
    rw [List.flatMap_append, List.flatMap_singleton, hpreads, List.append_assoc, hsum]
  have hpart : pieces.flatMap Piece.answers <+: preads := hsum ▸ List.prefix_append _ _
  simp only [sendInLoop, wp_bind, wp_world, wp_ite]
  split
  · rename_i hempty
    have hout : w.conn.output = [] := by simpa using hempty.2
    refine wp_mono (write_any p.bytes) ?_ ?_
    · rintro a w₁ ⟨hconn, hfiles, hpreads, htrace, ha⟩
      have hu : w₁.wire = w.wire → Untouched w w₁ := fun hwire =>
        ⟨by rw [hconn], by rw [hconn], by rw [hconn], by rw [hconn], by rw [hconn],
          by rw [hconn], hwire, hfiles, htrace⟩
      have hqueue : ∀ w₂ : World σ, w₂.conn = w.conn → w₂.files = w.files → w₂.preads = w.preads →
          transfers w₂.trace = transfers w.trace → ∀ k, w₂.wire = w.wire ++ p.bytes.take k →
          wp (queueOutput (p.bytes.drop k))
            (fun _ w' => Accounted files preads (pieces.map Piece.move ++ [p.move]) w')
            (Halted files preads (pieces.map Piece.move)) w₂ := by
        intro w₂ hconn₂ hfiles₂ hpreads₂ htrace₂ k hwire₂
        refine wp_mono (queueOutput_any (p.bytes.drop k) (E := fun _ => False)) ?_
          (fun _ hf => hf.elim)
        rintro _ w₃ ⟨h₃, hpreads₃⟩
        refine ⟨_, hmoves, (hl.snoc hopen hpiece hcalls (k := k)
          (Or.inr ⟨hout, hdirect hempty.1⟩)).untouched ?_, hsum' w₃ (hpreads₃.trans hpreads₂)⟩
        exact ⟨h₃.closed.trans (by rw [hconn₂]), h₃.output.trans (by rw [hconn₂]),
          h₃.pendingFile.trans (by rw [hconn₂]), h₃.fileOffset.trans (by rw [hconn₂]),
          h₃.fileRemaining.trans (by rw [hconn₂]), h₃.preFileBytes.trans (by rw [hconn₂]),
          h₃.wire.trans hwire₂, h₃.files.trans hfiles₂, h₃.calls.trans htrace₂⟩
      cases a with
      | count k =>
        simp only [wp_bind, wp_update]
        exact hqueue (w₁.addBytesWritten k) hconn hfiles hpreads htrace k ha.2
      | again => exact hqueue w₁ hconn hfiles hpreads htrace 0 (by simpa using ha)
      | interrupted => exact hqueue w₁ hconn hfiles hpreads htrace 0 (by simpa using ha)
      | failed errno =>
        refine wp_mono (fail_ledger hcb (hl.untouched (hu ha))) ?_ ?_
        · rintro _ w' ⟨⟨hl', hpreads'⟩, hclosed⟩
          exact ⟨_, hmoves, hl'.snoc_closed hclosed hpiece hcalls, hsum' w' (hpreads'.trans hpreads)⟩
        · rintro w' ⟨hl', -⟩
          exact ⟨pieces, rfl, hl', hpart⟩
    · rintro w' rfl
      exact ⟨pieces, rfl, hl, hpart⟩
  · refine wp_mono (queueOutput_any p.bytes (E := fun _ => False)) ?_ (fun _ hf => hf.elim)
    rintro _ w₁ ⟨h₁, hpreads⟩
    refine ⟨_, hmoves, (hl.snoc hopen hpiece hcalls (k := 0) (Or.inl rfl)).untouched ?_, hsum' w₁ hpreads⟩
    simpa only [List.take_zero, List.append_nil, List.drop_zero] using h₁

theorem send_accounted (h : Accounted files preads moves w)
    (hdirect : w.conn.closed = false → w.conn.channel.isWriting = false →
      w.conn.pendingFile = none) (data : Bytes) :
    wp (send closeCallback data)
      (fun _ w' => Accounted files preads (moves ++ [.call (.send data)]) w')
      (Halted files preads moves) w := by
  simp only [send, wp_bind, wp_world, wp_ite]
  split
  · rename_i hclosed
    exact h.snoc_closed hclosed (.send data) rfl rfl
  · rename_i hclosed
    have hopen : w.conn.closed = false := by simpa using hclosed
    obtain ⟨pieces, rfl, hl, hsum⟩ := h
    exact sendInLoop_accounted hcb hl hopen (hdirect hopen) (.send data) rfl hsum

omit hcb in
/-- The copy of a file is a front of it, and the whole of it unless a `pread` gave nothing. -/
theorem copyFile_accounted (hl : Ledger files pieces w) {file : FileBody} (hin : file.Inside files) :
    wp (copyFile file)
      (fun data w' => Ledger files pieces w' ∧ w'.conn = w.conn ∧ ∃ answers, w.preads = answers ++ w'.preads ∧
        Handed files ⟨.call (.sendFile file), data, [], answers⟩)
      (Ledger files pieces) w := by
  have hbytes := FileBody.length_bytes hin
  have hin : file.offset + file.length ≤ (files file.fd).length := hin
  refine wp_loop (copyRound_decreases file)
    (I := fun data w' => Ledger files pieces w' ∧ w'.conn = w.conn ∧ ∃ answers, w.preads = answers ++ w'.preads ∧
      Copied file.length answers data.length ∧ data = (file.bytes files).take data.length ∧
        data.length ≤ file.length) ?_ [] w
    ⟨hl, rfl, [], rfl, .start, rfl, Nat.zero_le _⟩
  rintro data w₁ ⟨h₁, hconn, answers, hpreads, hcopied, hdata, hle⟩
  simp only [copyRound, wp_ite]
  split
  · rename_i hlen
    rw [wp_bind]
    refine wp_mono (pread_any file data.length) ?_ ?_
    · rintro a w₂ ⟨hu, hconn₂, answer, ha, hread⟩
      have h₂ := h₁.untouched hu
      have hconn : w₂.conn = w.conn := hconn₂.trans hconn
      have hpreads : w.preads = (answers ++ [answer]) ++ w₂.preads := by
        rw [hpreads, ha, List.append_assoc]
        rfl
      have hshort : ¬ answer.Reads →
          Handed files ⟨.call (.sendFile file), data, [], answers ++ [answer]⟩ := by
        intro hnot
        have hcut : Handed files ⟨.call (.sendFile file), (file.bytes files).take data.length, [],
          answers ++ [answer]⟩ := .cut file hcopied hlen hnot
        rwa [← hdata] at hcut
      cases a with
      | data bytes =>
        obtain ⟨n, rfl, rfl⟩ := hread
        have hlen' : (((files file.fd).drop (file.offset + data.length)).take
            (min n (file.length - data.length))).length = min n (file.length - data.length) := by
          rw [List.length_take, List.length_drop]
          omega
        simp only [wp_ite, wp_pure, h₁.disk]
        split
        · rename_i hpos
          have hn : 0 < n := by
            rw [hlen'] at hpos
            omega
          refine ⟨h₂, hconn, _, hpreads, ?_, ?_, ?_⟩
          · rw [List.length_append, hlen']
            exact .count hcopied hn
          · -- the piece that was read follows what is there
            have hn : data.length + min n (file.length - data.length) ≤ file.length := by omega
            have hpiece := FileBody.take_bytes files hn
            rw [← hdata] at hpiece
            rw [List.length_append, hlen', hpiece]
          · simp only [List.length_append, List.length_take]
            omega
        · rename_i hempty
          refine ⟨h₂, hconn, _, hpreads, hshort ?_⟩
          have hn : n = 0 := by
            rw [hlen'] at hempty
            omega
          rw [hn]
          exact Nat.lt_irrefl 0
      | again => exact ⟨h₂, hconn, _, hpreads, hshort hread⟩
      | interrupted =>
        cases hread
        exact ⟨h₂, hconn, _, hpreads, .interrupted hcopied, hdata, hle⟩
      | failed errno => exact ⟨h₂, hconn, _, hpreads, hshort hread⟩
    · rintro w' rfl
      exact h₁
  · rename_i hlen
    have hall : data.length = file.length := by omega
    have hwhole : data = file.bytes files := by
      rw [hdata, hall, ← hbytes, List.take_length]
    rw [hall] at hcopied
    have hpiece : Handed files ⟨.call (.sendFile file), file.bytes files, [], answers⟩ := .copied file hbytes hcopied
    exact ⟨h₁, hconn, answers, hpreads, hwhole ▸ hpiece⟩

theorem sendFile_accounted (h : Accounted files preads moves w)
    (hdirect : w.conn.closed = false → w.conn.channel.isWriting = false →
      w.conn.pendingFile = none) {file : FileBody} (hin : file.Inside files) :
    wp (sendFile closeCallback file)
      (fun _ w' => Accounted files preads (moves ++ [.call (.sendFile file)]) w')
      (fun w' => Halted files preads moves w' ∨
        Halted files preads (moves ++ [.call (.sendFile file)]) w') w := by
  have hbytes := FileBody.length_bytes hin
  simp only [sendFile, wp_bind, wp_world, wp_ite]
  split
  · rename_i hskip
    rcases hskip with hclosed | hlen
    · exact h.snoc_closed hclosed (.whole file hbytes .start) rfl rfl
    · have hnil : file.bytes files = [] := List.length_eq_zero_iff.mp (hbytes.trans hlen)
      exact h.snoc_nil (.whole file hbytes .start) rfl rfl hnil
  rename_i hskip
  have hopen : w.conn.closed = false := by simpa using fun hclosed => hskip (Or.inl hclosed)
  obtain ⟨pieces, rfl, hl, hsum⟩ := h
  split
  · refine wp_mono (copyFile_accounted hl hin) ?_
      (fun _ hi => Or.inl ⟨pieces, rfl, hi, hsum ▸ List.prefix_append _ _⟩)
    rintro data w₁ ⟨h₁, hconn, answers, hpreads, hpiece⟩
    refine wp_mono (sendInLoop_accounted hcb h₁ ?_ ?_ hpiece rfl ?_) (fun _ _ hi => hi)
      (fun _ hi => Or.inl hi)
    · rw [hconn, hopen]
    · rw [hconn]
      exact hdirect hopen
    · rw [← hpreads, hsum]
  · rename_i hfile
    have hfile : w.conn.pendingFile = none := by simpa using hfile
    obtain ⟨-, hsent⟩ := hl.idle hopen hfile
    simp only [wp_update, enableWriting]
    refine wp_mono (handleWrite_accounted hcb ?_) (fun _ _ hi => hi) (fun _ hi => Or.inr hi.halted)
    refine ⟨pieces ++ [⟨.call (.sendFile file), file.bytes files, [], []⟩], ?_, ?_, ?_⟩
    · rw [List.map_append]
      rfl
    · exact {
        disk := hl.disk
        handed := fun p hp => by
          rcases List.mem_append.mp hp with hp | hp
          · exact hl.handed p hp
          · rw [List.mem_singleton.mp hp]
            exact .whole file hbytes .start
        calls := by
          rw [List.flatMap_append, List.flatMap_singleton, List.append_nil]
          exact hl.calls
        closed := fun hclosed => absurd (hopen.symm.trans hclosed) Bool.false_ne_true
        idle := fun _ hnone => absurd hnone (Option.some_ne_none _)
        busy := fun _ file' hfile' => by
          cases hfile'
          refine ⟨pieces, [], [], 0, rfl, .start, rfl, hbytes, Nat.zero_add _, rfl, le_rfl, fun _ => rfl, ?_, ?_⟩
          · show w.wire ++ w.conn.output.take w.conn.output.length = flat pieces ++ _
            rw [List.take_length, hsent, List.take_zero, List.append_nil]
          · exact List.drop_length }
    · rw [List.flatMap_append, List.flatMap_singleton, List.append_nil]
      exact hsum

omit hcb in
theorem shutdownWrite_accounted (h : Accounted files preads moves w) {E : World σ → Prop} :
    wp shutdownWrite (fun _ w' => Accounted files preads moves w') E w := by
  simp only [shutdownWrite, shutdownSocket, wp_bind, wp_world, wp_ite, wp_update, wp_pure]
  split
  · exact h
  · split
    · exact h.untouched ⟨rfl, rfl, rfl, rfl, rfl, rfl, rfl, rfl, transfers_log _ rfl⟩ rfl
    · exact h.untouched ⟨rfl, rfl, rfl, rfl, rfl, rfl, rfl, rfl, rfl⟩ rfl

end

end TcpConnection

theorem start_accounted (hw : Fresh w) {E : World σ → Prop} :
    wp TcpConnection.start (fun _ w' => Accounted w.files w.preads [] w') E w := by
  obtain ⟨self, connfd, hconn⟩ := hw.conn
  simp only [TcpConnection.start, wp_bind, wp_update]
  refine ⟨[], rfl, ⟨rfl, fun _ h => absurd h List.not_mem_nil, ?_, ?_, ?_, ?_⟩, rfl⟩
  · simp [World.withChannel, hw.trace, transfers]
  · intro _
    simp [World.withChannel, hw.wire]
  · intro _ _
    simp [World.withChannel, hconn, hw.wire, flat]
  · intro _ file hfile
    simp [World.withChannel, hconn] at hfile

/-! ## Runs -/

namespace Move

def perform (closeCallback : Prog (World σ) Unit) : Move → Prog (World σ) Unit
  | .call c => Call.perform closeCallback c
  | .close => TcpConnection.handleClose closeCallback

def performAll (closeCallback : Prog (World σ) Unit) : List Move → Prog (World σ) Unit
  | [] => pure ()
  | m :: moves => do
    m.perform closeCallback
    performAll closeCallback moves

def Live (files : Nat → Bytes) (w : World σ) : Prop := ∃ sent, Inv False files sent w

/-- An open connection that waits for no writing has no file on its way. -/
theorem Live.direct (h : Live files w) (hopen : w.conn.closed = false)
    (hwriting : w.conn.channel.isWriting = false) : w.conn.pendingFile = none := by
  obtain ⟨sent, h | h⟩ := h
  · exact absurd (hopen.symm.trans h.isClosed) Bool.false_ne_true
  · exact (h.empty (Channel.isWriting_false hwriting)).2

variable {closeCallback : Prog (World σ) Unit}
  (hcb : Keeps (fun w : World σ => (w.conn, w.wire, w.files, w.preads, w.trace)) closeCallback)
include hcb

theorem perform_live (m : Move) (h : Live files w) :
    wp (m.perform closeCallback) (fun _ w' => Live files w') (fun _ => True) w := by
  have hcb' : ¬ False → Keeps (fun w : World σ => (w.conn, w.files, w.trace)) closeCallback := by
    intro _ w
    have hsame := hcb w
    simp only [Prod.mk.injEq] at hsame ⊢
    exact ⟨hsame.1, hsame.2.2.1, hsame.2.2.2.2⟩
  obtain ⟨sent, h⟩ := h
  cases m with
  | call c =>
    exact wp_mono (c.perform_spec hcb' h fun hc => hc.elim) (fun _ _ hi => ⟨_, hi⟩)
      (fun _ _ => trivial)
  | close =>
    simp only [perform]
    rcases h with h | h
    · simp only [TcpConnection.handleClose, wp_bind, wp_world, wp_ite]
      rw [if_pos h.isClosed]
      exact ⟨sent, Or.inl h⟩
    · exact wp_mono (TcpConnection.close_spec hcb' h.toMid.shape.isOpen h.toMid.env
        not_false) (fun _ _ hi => ⟨sent, hi⟩) (fun _ _ => trivial)

theorem perform_accounted (m : Move) (hlive : Live files w) (h : Accounted files preads moves w)
    (hin : ∀ file, m = .call (.sendFile file) → file.Inside files) :
    wp (m.perform closeCallback) (fun _ w' => Accounted files preads (moves ++ [m]) w')
      (fun w' => Halted files preads moves w' ∨ Halted files preads (moves ++ [m]) w') w := by
  cases m with
  | close =>
    exact wp_mono (TcpConnection.handleClose_accounted hcb h) (fun _ _ hi => hi.1.snoc_nil .close rfl rfl rfl)
      (fun _ hi => Or.inl hi.halted)
  | call c =>
    cases c with
    | send data =>
      exact wp_mono (TcpConnection.send_accounted hcb h hlive.direct data) (fun _ _ hi => hi)
        (fun _ hi => Or.inl hi)
    | sendFile file => exact TcpConnection.sendFile_accounted hcb h hlive.direct (hin file rfl)
    | shutdownWrite =>
      exact wp_mono (TcpConnection.shutdownWrite_accounted h (E := fun _ => False))
        (fun _ _ hi => hi.snoc_nil .shutdownWrite rfl rfl rfl) (fun _ hf => hf.elim)
    | writeEvent =>
      exact wp_mono (TcpConnection.handleWrite_accounted hcb h)
        (fun _ _ hi => hi.snoc_nil .writeEvent rfl rfl rfl) (fun _ hi => Or.inl hi.halted)

theorem performAll_accounted (later : List Move)
    (hin : ∀ file, .call (.sendFile file) ∈ later → file.Inside files) :
    ∀ (moves : List Move) (w : World σ), Live files w → Accounted files preads moves w →
      wp (performAll closeCallback later)
        (fun _ w' => Accounted files preads (moves ++ later) w')
        (fun w' => ∃ before m after, later = before ++ m :: after ∧
          (Halted files preads (moves ++ before) w' ∨
            Halted files preads (moves ++ (before ++ [m])) w')) w := by
  induction later with
  | nil =>
    intro moves w _ h
    simpa only [performAll, wp_pure, List.append_nil] using h
  | cons m later ih =>
    intro moves w hlive h
    simp only [performAll, wp_bind]
    have hmove := wp_and (perform_live hcb m hlive)
      (perform_accounted hcb m hlive h fun file heq => hin file (heq ▸ List.mem_cons_self ..))
    refine wp_mono hmove ?_ ?_
    · rintro _ w₁ ⟨hlive₁, h₁⟩
      refine wp_mono (ih (fun file hm => hin file (List.mem_cons_of_mem _ hm)) _ w₁ hlive₁ h₁)
        ?_ ?_
      · intro _ w₂ h₂
        rw [List.append_assoc] at h₂
        exact h₂
      · rintro w₂ ⟨before, m', after, rfl, h₂⟩
        refine ⟨m :: before, m', after, rfl, ?_⟩
        simp only [List.append_assoc, List.singleton_append] at h₂
        exact h₂
    · rintro w₁ ⟨-, h₁⟩
      refine ⟨[], m, later, rfl, ?_⟩
      simpa only [List.append_nil, List.nil_append] using h₁

end Move

/-- What every move hands over, one behind the other: the kernel has a front
of it, and as long as the connection is open it holds the rest. Every `sendfile`
belongs to one move, and so does each of these answers to `pread`. -/
def Delivered (files : Nat → Bytes) (answers : List Answer) (moves : List Move) (w : World σ) : Prop :=
  ∃ pieces : List Piece, pieces.map Piece.move = moves ∧ (∀ p ∈ pieces, Handed files p) ∧
    pieces.flatMap Piece.calls = transfers w.trace ∧ pieces.flatMap Piece.answers = answers ∧
      w.wire <+: flat pieces ∧ (w.conn.closed = false → w.wire ++ unsent files w.conn = flat pieces)

theorem Ledger.delivered (hl : Ledger files pieces w) :
    Delivered files (pieces.flatMap Piece.answers) (pieces.map Piece.move) w := by
  refine ⟨pieces, rfl, hl.handed, hl.calls, rfl, hl.wire_prefix, fun hopen => ?_⟩
  cases hfile : w.conn.pendingFile with
  | none =>
    obtain ⟨hpre, hbytes⟩ := hl.idle hopen hfile
    simp only [unsent, hfile, hpre, List.take_zero, List.drop_zero, List.nil_append]
    exact hbytes
  | some file =>
    obtain ⟨before, calls, after, k, hway⟩ := hl.busy hopen file hfile
    have hrest := FileBody.take_bytes files (Nat.le_of_eq hway.remaining)
    rw [hway.remaining, ← hway.length, List.take_length, ← hway.offset] at hrest
    have hcons : flat (⟨.call (.sendFile file), file.bytes files, calls, []⟩ :: after) =
        file.bytes files ++ flat after := rfl
    simp only [unsent, hfile]
    rw [hway.pieces, flat_append, hcons, ← List.append_assoc, hway.front, hway.behind]
    conv_rhs => rw [hrest]
    simp only [List.append_assoc]

theorem Accounted.delivered (h : Accounted files preads moves w) :
    ∃ answers, preads = answers ++ w.preads ∧ Delivered files answers moves w := by
  obtain ⟨pieces, rfl, hl, hsum⟩ := h
  exact ⟨_, hsum.symm, hl.delivered⟩

theorem Halted.delivered (h : Halted files preads moves w) :
    ∃ answers, answers <+: preads ∧ Delivered files answers moves w := by
  obtain ⟨pieces, rfl, hl, hpart⟩ := h
  exact ⟨_, hpart, hl.delivered⟩

/-- **What is handed over when files end early.** -/
theorem handed_over {closeCallback : Prog (World σ) Unit}
    (hcb : Keeps (fun w : World σ => (w.conn, w.wire, w.files, w.preads, w.trace)) closeCallback)
    (hw : Fresh w) (moves : List Move)
    (hin : ∀ file, .call (.sendFile file) ∈ moves → file.Inside w.files) :
    wp (do
        TcpConnection.start
        Move.performAll closeCallback moves)
      (fun _ w' => ∃ answers, w.preads = answers ++ w'.preads ∧ Delivered w.files answers moves w')
      (fun w' => ∃ before m after, moves = before ++ m :: after ∧ ∃ answers, answers <+: w.preads ∧
        (Delivered w.files answers before w' ∨ Delivered w.files answers (before ++ [m]) w')) w := by
  have he : Env False w.files w := by
    refine ⟨fun hc => hc.elim, fun hc => hc.elim, fun hc => hc.elim, rfl, ?_⟩
    rw [hw.trace]
    exact ⟨fun _ _ hm => absurd hm List.not_mem_nil, fun before _ _ _ heq => by simp at heq⟩
  rw [wp_bind]
  refine wp_mono (wp_and (start_spec hw he (E := fun _ => False))
    (start_accounted hw (E := fun _ => False))) ?_ (fun _ hf => hf.1.elim)
  rintro _ w₁ ⟨hlive, h₁⟩
  refine wp_mono (Move.performAll_accounted hcb moves hin [] w₁ ⟨[], Or.inr hlive⟩ h₁) ?_ ?_
  · intro _ w₂ h₂
    exact h₂.delivered
  · rintro w₂ ⟨before, m, after, heq, h₂⟩
    refine ⟨before, m, after, heq, ?_⟩
    rcases h₂ with h₂ | h₂
    · obtain ⟨answers, hpart, hd⟩ := h₂.delivered
      exact ⟨answers, hpart, Or.inl hd⟩
    · obtain ⟨answers, hpart, hd⟩ := h₂.delivered
      exact ⟨answers, hpart, Or.inr hd⟩

end

def endingMoves : List Move := [.call (.sendFile ⟨3, 0, 10⟩), .call (.send (bytes "NEXT"))]

@[irreducible] def endingWorld : World Unit :=
  TcpConnection.accepted 7 [.count 100] [.count 4, .count 0] [] (fun _ => bytes "0123456789") ()

theorem endingWorld_fresh : Fresh endingWorld := by
  rw [endingWorld]
  exact TcpConnection.accepted_fresh ..

/-- Four of the ten bytes are handed over, and the next answer goes behind them. -/
theorem handed_over_ending :
    wp (do
        TcpConnection.start
        Move.performAll (pure ()) endingMoves)
      (fun _ w' => ∃ answers, endingWorld.preads = answers ++ w'.preads ∧
        Delivered endingWorld.files answers endingMoves w')
      (fun w' => ∃ before m after, endingMoves = before ++ m :: after ∧ ∃ answers, answers <+: endingWorld.preads ∧
        (Delivered endingWorld.files answers before w' ∨
          Delivered endingWorld.files answers (before ++ [m]) w')) endingWorld := by
  refine handed_over (fun _ => rfl) endingWorld_fresh endingMoves ?_
  intro file hfile
  simp only [endingMoves, List.mem_cons, Move.call.injEq, Call.sendFile.injEq, reduceCtorEq,
    List.not_mem_nil, or_false] at hfile
  rw [hfile, endingWorld]
  show 0 + 10 ≤ (bytes "0123456789").length
  decide

/-- The file ends after four bytes: the connection stays open, and the answer
behind it is read as the rest of the file. -/
theorem announced_length_missed :
    wp (do
        TcpConnection.start
        Move.performAll (pure ()) endingMoves)
      (fun _ w' => w'.wire = bytes "0123NEXT" ∧ w'.conn.closed = false ∧
        w'.conn.pendingFile = none)
      (fun _ => False) endingWorld := by
  rw [endingWorld]
  decide +kernel

end Myself
