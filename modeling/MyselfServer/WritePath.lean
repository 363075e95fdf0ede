import MyselfServer.TcpConnection

/-!
# The write path

What a connection still has to send is described by its output buffer and
its pending file. `Rest` is what holds of an open connection between its
functions and wherever one of them waits in a call: `EPOLLOUT` is registered
exactly while something is unsent, and what the kernel has taken followed by
what is unsent is what was sent. The second half needs a kernel that takes
some bytes of every write (`c` below); the first half holds for every kernel.
-/

namespace Myself

open Text Prog

/-- What is still to be sent: the bytes before the file, the rest of the
file, the bytes behind it. -/
def unsent (files : Nat → Bytes) (conn : TcpConnection) : Bytes :=
  conn.output.take conn.preFileBytes ++
    ((match conn.pendingFile with
      | none => []
      | some file => ((files file.fd).drop conn.fileOffset).take conn.fileRemaining) ++
    conn.output.drop conn.preFileBytes)

def FileBody.bytes (files : Nat → Bytes) (file : FileBody) : Bytes :=
  ((files file.fd).drop file.offset).take file.length

def Answer.Progress : Answer → Prop
  | .count n => 0 < n
  | .again => True
  | .interrupted => True
  | .failed _ => False

/-- A pread inside a file that gives some bytes, or is to be tried again. -/
def Answer.Reads : Answer → Prop
  | .count n => 0 < n
  | .again => False
  | .interrupted => True
  | .failed _ => False

/-- What the calls on the socket keep to: a half-close comes when nothing is
left to send, and after the end of the stream was read the socket is closed
at once, with something left exactly when `EPOLLOUT` was registered. -/
structure TraceOk (trace : List Syscall) : Prop where
  shutdown : ∀ fd left, .shutdown fd left ∈ trace → left = false
  eof : ∀ before fd armed after, trace = before ++ .read fd (some 0) armed :: after →
    ∃ rest, after = .close fd armed :: rest

theorem TraceOk.append {trace : List Syscall} (h : TraceOk trace) {call : Syscall}
    (hs : ∀ fd left, call = .shutdown fd left → left = false)
    (hr : ∀ fd armed, call ≠ .read fd (some 0) armed) : TraceOk (trace ++ [call]) where
  shutdown fd left hm := by
    rcases List.mem_append.mp hm with hm | hm
    · exact h.shutdown fd left hm
    · exact hs fd left (List.mem_singleton.mp hm).symm
  eof before fd armed after heq := by
    rcases List.eq_nil_or_concat after with rfl | ⟨after, last, rfl⟩
    · have := (List.append_inj' heq rfl).2
      simp only [List.cons.injEq, and_true] at this
      exact absurd this (hr fd armed)
    · rw [List.concat_eq_append, ← List.cons_append, ← List.append_assoc] at heq
      obtain ⟨rest, hrest⟩ := h.eof before fd armed after (List.append_inj' heq rfl).1
      exact ⟨rest ++ [last], by rw [List.concat_eq_append, hrest]; rfl⟩

section
variable {σ : Type}

structure Shape (w : World σ) : Prop where
  isOpen : w.conn.closed = false
  socket : w.conn.socket.fd.isSome = true
  attached : w.conn.channel.Attached w.reactor
  armed : w.left = true → w.conn.channel.hasOut = true
  pre : w.conn.preFileBytes ≤ w.conn.output.length
  noFile : w.conn.pendingFile = none → w.conn.preFileBytes = 0

structure Env (c : Prop) (files : Nat → Bytes) (w : World σ) : Prop where
  writes : c → ∀ a ∈ w.writes, a.Progress
  sendfiles : c → ∀ a ∈ w.sendfiles, a.Progress
  preads : c → ∀ a ∈ w.preads, a.Reads
  files : w.files = files
  trace : TraceOk w.trace

structure Sent (c : Prop) (files : Nat → Bytes) (sent : Bytes) (w : World σ) : Prop where
  range : c → ∀ file, w.conn.pendingFile = some file →
    w.conn.fileOffset + w.conn.fileRemaining ≤ (files file.fd).length
  bytes : c → w.wire ++ unsent files w.conn = sent

structure Mid (c : Prop) (files : Nat → Bytes) (sent : Bytes) (w : World σ) : Prop where
  shape : Shape w
  env : Env c files w
  sent : Sent c files sent w

structure Rest (c : Prop) (files : Nat → Bytes) (sent : Bytes) (w : World σ) : Prop
    extends Mid c files sent w where
  drained : w.conn.channel.hasOut = true → w.left = true

structure Closed (c : Prop) (files : Nat → Bytes) (w : World σ) : Prop where
  env : Env c files w
  isClosed : w.conn.closed = true
  socket : w.conn.socket.fd = none
  failing : ¬ c

def Inv (c : Prop) (files : Nat → Bytes) (sent : Bytes) (w : World σ) : Prop :=
  Closed c files w ∨ Rest c files sent w

variable {c : Prop} {files : Nat → Bytes} {sent : Bytes} {w : World σ}

theorem Sent.of_eq {sent' : Bytes} (h : Sent c files sent w) (heq : c → sent = sent') :
    Sent c files sent' w :=
  ⟨h.range, fun hc => (h.bytes hc).trans (heq hc)⟩

theorem Inv.env (h : Inv c files sent w) : Env c files w := by
  rcases h with h | h
  · exact h.env
  · exact h.toMid.env

theorem Mid.rest (h : Mid c files sent w) (hl : w.left = true) : Rest c files sent w :=
  ⟨h, fun _ => hl⟩

theorem left_eq_false : w.left = false ↔ w.conn.output = [] ∧ w.conn.pendingFile = none := by
  simp [World.left]

/-- A connection whose channel waits for no writing has nothing to send. -/
theorem Rest.empty (h : Rest c files sent w) (he : w.conn.channel.hasOut = false) :
    w.conn.output = [] ∧ w.conn.pendingFile = none := by
  rw [← left_eq_false]
  by_contra hl
  have := h.toMid.shape.armed (by simpa using hl)
  rw [he] at this
  cases this

theorem unsent_nil {conn : TcpConnection} (ho : conn.output = []) (hf : conn.pendingFile = none) :
    unsent files conn = [] := by
  simp [unsent, ho, hf]

theorem Shape.of_conn {w' : World σ} (h : Shape w) (hc : w'.conn = w.conn)
    (hr : w'.reactor = w.reactor) : Shape w' where
  isOpen := by rw [hc]; exact h.isOpen
  socket := by rw [hc]; exact h.socket
  attached := by rw [hc, hr]; exact h.attached
  armed := by simp only [World.left, hc]; exact h.armed
  pre := by rw [hc]; exact h.pre
  noFile := by rw [hc]; exact h.noFile

theorem Sent.of_conn {w' : World σ} (h : Sent c files sent w) (hc : w'.conn = w.conn)
    (hw : c → w'.wire = w.wire) : Sent c files sent w' where
  range := by rw [hc]; exact h.range
  bytes := by
    intro hcc
    rw [hc, hw hcc]
    exact h.bytes hcc

theorem Mid.of_conn {w' : World σ} (h : Mid c files sent w) (hc : w'.conn = w.conn)
    (hr : w'.reactor = w.reactor) (he : Env c files w') (hw : c → w'.wire = w.wire) :
    Mid c files sent w' :=
  ⟨h.shape.of_conn hc hr, he, h.sent.of_conn hc hw⟩

theorem Shape.armed_eq (h : Shape w) : w.armed = w.conn.channel.hasOut := by
  simp only [World.armed, h.attached.interest]
  exact Channel.and_EPOLLOUT _

/-! ## Calls -/

theorem Env.log (h : Env c files w) {call : Syscall}
    (hs : ∀ fd left, call = .shutdown fd left → left = false)
    (hr : ∀ fd armed, call ≠ .read fd (some 0) armed) : Env c files (w.log call) :=
  ⟨h.writes, h.sendfiles, h.preads, h.files, h.trace.append hs hr⟩

namespace TcpConnection

theorem write_spec (hs : Shape w) (he : Env c files w) (data : Bytes) :
    wp (write data)
      (fun a w' => w'.conn = w.conn ∧ w'.reactor = w.reactor ∧ Env c files w' ∧
        match a with
        | .count k => k ≤ data.length ∧ (c → 0 < data.length → 0 < k) ∧
            w'.wire = w.wire ++ data.take k
        | .failed _ => ¬ c ∧ w'.wire = w.wire
        | _ => w'.wire = w.wire)
      (fun w' => w' = w) w := by
  obtain ⟨fd, hfd⟩ := Option.isSome_iff_exists.mp hs.socket
  unfold wp write
  simp only [hfd]
  cases hw : w.writes with
  | nil => rfl
  | cons a rest =>
    have hprogress : c → ∀ b ∈ a :: rest, b.Progress := hw ▸ he.writes
    have hrest : c → ∀ b ∈ rest, b.Progress :=
      fun hc b hb => hprogress hc b (List.mem_cons_of_mem _ hb)
    have henv : ∀ wire ret, Env c files
        ({ w with writes := rest, wire := wire }.log (.write (some fd) data.length ret)) := by
      intro wire ret
      have h : Env c files { w with writes := rest, wire := wire } :=
        ⟨hrest, he.sendfiles, he.preads, he.files, he.trace⟩
      exact h.log (fun _ _ h => nomatch h) (fun _ _ h => nomatch h)
    cases a with
    | count n =>
      refine ⟨rfl, rfl, henv _ _, by simp, ?_, rfl⟩
      intro hc hlen
      have hn : 0 < n := hprogress hc _ (List.mem_cons_self ..)
      omega
    | again => exact ⟨rfl, rfl, henv _ _, rfl⟩
    | interrupted => exact ⟨rfl, rfl, henv _ _, rfl⟩
    | failed errno =>
      exact ⟨rfl, rfl, henv _ _, fun hc => hprogress hc _ (List.mem_cons_self ..), rfl⟩

/-- `sendfile` sends from the file's offset and moves it. -/
theorem sendfile_spec (hs : Shape w) (he : Env c files w) (file : FileBody) :
    wp (sendfile file)
      (fun a w' => w'.reactor = w.reactor ∧ Env c files w' ∧
        match a with
        | .count k => ∃ n, k = (((files file.fd).drop w.conn.fileOffset).take
              (min n w.conn.fileRemaining)).length ∧ (c → 0 < n) ∧
            w'.conn = { w.conn with fileOffset := w.conn.fileOffset + k } ∧
            w'.wire = w.wire ++ ((files file.fd).drop w.conn.fileOffset).take k
        | .failed _ => ¬ c ∧ w'.conn = w.conn ∧ w'.wire = w.wire
        | _ => w'.conn = w.conn ∧ w'.wire = w.wire)
      (fun w' => w' = w) w := by
  obtain ⟨fd, hfd⟩ := Option.isSome_iff_exists.mp hs.socket
  unfold wp sendfile
  simp only [hfd]
  cases hw : w.sendfiles with
  | nil => rfl
  | cons a rest =>
    have hprogress : c → ∀ b ∈ a :: rest, b.Progress := hw ▸ he.sendfiles
    have hrest : c → ∀ b ∈ rest, b.Progress :=
      fun hc b hb => hprogress hc b (List.mem_cons_of_mem _ hb)
    have henv : ∀ wire conn ret, Env c files
        ({ w with sendfiles := rest, wire := wire, conn := conn }.log
          (.sendfile (some fd) w.conn.fileRemaining ret)) := by
      intro wire conn ret
      have h : Env c files { w with sendfiles := rest, wire := wire, conn := conn } :=
        ⟨he.writes, hrest, he.preads, he.files, he.trace⟩
      exact h.log (fun _ _ h => nomatch h) (fun _ _ h => nomatch h)
    cases a with
    | count n =>
      refine ⟨rfl, henv _ _ _, n, by rw [he.files], ?_, rfl, ?_⟩
      · exact fun hc => hprogress hc _ (List.mem_cons_self ..)
      · simp only [World.log, he.files, List.length_take]
        congr 1
        rw [List.take_eq_take_iff]
        simp
    | again => exact ⟨rfl, henv _ _ _, rfl, rfl⟩
    | interrupted => exact ⟨rfl, henv _ _ _, rfl, rfl⟩
    | failed errno =>
      exact ⟨rfl, henv _ _ _, fun hc => hprogress hc _ (List.mem_cons_self ..), rfl, rfl⟩

/-! ## Closing -/

theorem cancelIdleTimer_same (w : World σ) :
    ∃ timers idleTimer, w.cancelIdleTimer =
      { w with timers := timers, conn := { w.conn with idleTimer := idleTimer } } := by
  unfold World.cancelIdleTimer
  split
  · exact ⟨_, _, rfl⟩
  · exact ⟨_, _, rfl⟩

section
variable {closeCallback : Prog (World σ) Unit}
  (hcb : ¬ c → Keeps (fun w : World σ => (w.conn, w.files, w.trace)) closeCallback)
include hcb

theorem handleClose_closes (hopen : w.conn.closed = false) (hf : w.files = files) (hc : ¬ c)
    (ht : TraceOk (w.trace ++ [.close w.conn.socket.fd w.left])) :
    wp (handleClose closeCallback) (fun _ w' => Inv c files sent w') (Inv c files sent) w := by
  obtain ⟨timers, idleTimer, hcancel⟩ :=
    cancelIdleTimer_same { w with conn := { w.conn with closed := true } }
  simp only [handleClose, wp_bind, wp_world, wp_ite, wp_update]
  rw [if_neg (by rw [hopen]; exact Bool.false_ne_true), hcancel]
  have key : ∀ w₁ w' : World σ, (w'.conn, w'.files, w'.trace) = (w₁.conn, w₁.files, w₁.trace) →
      w₁.conn.closed = true → w₁.conn.socket.fd = none → w₁.files = w.files →
      w₁.trace = w.trace ++ [.close w.conn.socket.fd w.left] → Inv c files sent w' := by
    intro w₁ w' hsame hclosed hsocket hfiles htrace
    simp only [Prod.mk.injEq] at hsame
    obtain ⟨h1, h2, h3⟩ := hsame
    refine Or.inl ⟨⟨fun h => absurd h hc, fun h => absurd h hc, fun h => absurd h hc, ?_, ?_⟩,
      ?_, ?_, hc⟩
    · rw [h2, hfiles, hf]
    · rw [h3, htrace]
      exact ht
    · rw [h1, hclosed]
    · rw [h1, hsocket]
  exact wp_mono (hcb hc).wp (fun _ w' h => key _ w' h rfl rfl rfl rfl)
    (fun w' h => key _ w' h rfl rfl rfl rfl)

theorem close_spec (hopen : w.conn.closed = false) (he : Env c files w) (hc : ¬ c) :
    wp (handleClose closeCallback) (fun _ w' => Inv c files sent w') (Inv c files sent) w :=
  handleClose_closes hcb hopen he.files hc
    (he.trace.append (fun _ _ h => nomatch h) (fun _ _ h => nomatch h))

theorem fail_spec (hopen : w.conn.closed = false) (he : Env c files w) (hc : ¬ c) :
    wp (do
      update World.addErrors
      handleClose closeCallback) (fun _ w' => Inv c files sent w') (Inv c files sent) w := by
  rw [wp_bind, wp_update]
  exact close_spec hcb (w := w.addErrors) hopen
    ⟨he.writes, he.sendfiles, he.preads, he.files, he.trace⟩ hc

/-! ## Sending -/

omit hcb in
theorem unsent_append {conn : TcpConnection} (hpre : conn.preFileBytes ≤ conn.output.length)
    (data : Bytes) :
    unsent files { conn with output := conn.output ++ data } = unsent files conn ++ data := by
  simp only [unsent]
  rw [List.take_append_of_le_length hpre, List.drop_append_of_le_length hpre]
  simp only [List.append_assoc]

omit hcb in
theorem withChannel_enableWriting (h : w.conn.channel.Attached w.reactor) :
    (w.withChannel Channel.enableWriting).conn.channel.Attached
        (w.withChannel Channel.enableWriting).reactor ∧
      (w.withChannel Channel.enableWriting).conn.channel.hasOut = true :=
  ⟨h.enableWriting, (Channel.or_kWriteEvent _).1⟩

omit hcb in
theorem queueOutput_spec (h : Rest c files sent w) (data : Bytes) {E : World σ → Prop} :
    wp (queueOutput data) (fun _ w' => Rest c files (sent ++ data) w') E w := by
  unfold queueOutput
  split
  · rename_i hlen
    simp only [wp_bind, wp_update, enableWriting]
    have hs := h.toMid.shape
    have hdata : data ≠ [] := by
      intro h0
      rw [h0] at hlen
      exact Nat.lt_irrefl _ hlen
    obtain ⟨hatt, hev⟩ := withChannel_enableWriting
      (w := { w with conn := { w.conn with output := w.conn.output ++ data } }) hs.attached
    have hout : ({ w with conn := { w.conn with output := w.conn.output ++ data } }.withChannel
        Channel.enableWriting).left = true := by
      simp [World.left, World.withChannel, hdata]
    refine ⟨⟨⟨hs.isOpen, hs.socket, hatt, fun _ => hev, ?_, hs.noFile⟩, ?_, ?_⟩, fun _ => hout⟩
    · have := hs.pre
      simp only [World.withChannel, List.length_append]
      omega
    · have he := h.toMid.env
      exact ⟨he.writes, he.sendfiles, he.preads, he.files, he.trace⟩
    · refine ⟨h.toMid.sent.range, ?_⟩
      intro hc
      have hbytes := h.toMid.sent.bytes hc
      have hunsent : unsent files { w.conn with output := w.conn.output ++ data } =
          unsent files w.conn ++ data := unsent_append hs.pre data
      simp only [World.withChannel]
      rw [← hbytes, List.append_assoc]
      exact congrArg (w.wire ++ ·) hunsent
  · rename_i hlen
    have hdata : data = [] := List.length_eq_zero_iff.mp (by omega)
    rw [wp_pure, hdata, List.append_nil]
    exact h

theorem sendInLoop_spec (h : Rest c files sent w) (data : Bytes) :
    wp (sendInLoop closeCallback data) (fun _ w' => Inv c files (sent ++ data) w')
      (Inv c files sent) w := by
  have hqueue : ∀ {sent' : Bytes} {w' : World σ} {rest : Bytes}, Rest c files sent' w' →
      (c → sent' ++ rest = sent ++ data) →
      wp (queueOutput rest) (fun _ w'' => Inv c files (sent ++ data) w'') (Inv c files sent) w' := by
    intro sent' w' rest h' heq
    refine wp_mono (queueOutput_spec h' rest (E := fun _ => False)) ?_ (fun _ hf => hf.elim)
    intro _ w'' hr
    exact Or.inr { hr with sent := hr.toMid.sent.of_eq heq }
  simp only [sendInLoop, wp_bind, wp_world, wp_ite]
  split
  · rename_i hdirect
    have hs := h.toMid.shape
    have hev := Channel.isWriting_false hdirect.1
    obtain ⟨hout, hfile⟩ := h.empty hev
    have hunsent : unsent files w.conn = [] := unsent_nil hout hfile
    refine wp_mono (write_spec hs h.toMid.env data) ?_ ?_
    · rintro a w' ⟨hconn, hreactor, henv, ha⟩
      -- the connection is as before, and the kernel has a part of the data
      have hrest : ∀ sent', (c → w'.wire = sent') → Rest c files sent' w' := by
        intro sent' hwire
        refine ⟨⟨hs.of_conn hconn hreactor, henv, ?_, ?_⟩, ?_⟩
        · rw [hconn]; exact h.toMid.sent.range
        · intro hc
          rw [hconn, hunsent, List.append_nil, hwire hc]
        · simp only [World.left, hconn]; exact h.drained
      have hwas : c → w.wire = sent := by
        intro hc
        have := h.toMid.sent.bytes hc
        rw [hunsent, List.append_nil] at this
        exact this
      cases a with
      | count k =>
        obtain ⟨-, -, hwire⟩ := ha
        simp only [wp_bind, wp_update]
        have hr := hrest (sent ++ data.take k) (fun hc => by rw [hwire, hwas hc])
        have hr' : Rest c files (sent ++ data.take k) (w'.addBytesWritten k) :=
          ⟨hr.toMid.of_conn rfl rfl
            ⟨henv.writes, henv.sendfiles, henv.preads, henv.files, henv.trace⟩ (fun _ => rfl),
            hr.drained⟩
        exact hqueue hr' (fun _ => by rw [List.append_assoc, List.take_append_drop])
      | again => exact hqueue (hrest sent fun hc => ha.trans (hwas hc)) (fun _ => rfl)
      | interrupted => exact hqueue (hrest sent fun hc => ha.trans (hwas hc)) (fun _ => rfl)
      | failed errno =>
        obtain ⟨hc, -⟩ := ha
        have hfail : wp (do
            update World.addErrors
            handleClose closeCallback) (fun _ w'' => Inv c files (sent ++ data) w'')
            (Inv c files (sent ++ data)) w' :=
          fail_spec hcb (by rw [hconn]; exact hs.isOpen) henv hc
        refine wp_mono hfail (fun _ _ hi => hi) ?_
        · rintro w'' (hi | hi)
          · exact Or.inl hi
          · exact Or.inr { hi with sent := hi.toMid.sent.of_eq fun h => absurd h hc }
    · rintro w' rfl
      exact Or.inr h
  · exact hqueue h (fun _ => rfl)

theorem send_spec (h : Inv c files sent w) (data : Bytes) :
    wp (send closeCallback data) (fun _ w' => Inv c files (sent ++ data) w')
      (Inv c files sent) w := by
  simp only [send, wp_bind, wp_world, wp_ite]
  rcases h with h | h
  · rw [if_pos h.isClosed, wp_pure]
    exact Or.inl h
  · rw [if_neg (by rw [h.toMid.shape.isOpen]; exact Bool.false_ne_true)]
    exact sendInLoop_spec hcb h data

end

end TcpConnection

end

end Myself
