import MyselfServer.HandleWrite

/-!
# The order of what is sent

`send`, `sendFile` and `shutdownWrite` keep the invariant of the write path,
and so does any sequence of them with write events in between
(`write_order`).
-/

namespace Myself

open Text Prog

section
variable {σ : Type} {c : Prop} {files : Nat → Bytes} {sent : Bytes} {w : World σ}

def FileBody.Inside (files : Nat → Bytes) (file : FileBody) : Prop :=
  file.offset + file.length ≤ (files file.fd).length

theorem FileBody.length_bytes {file : FileBody} (h : file.Inside files) :
    (file.bytes files).length = file.length := by
  have h : file.offset + file.length ≤ (files file.fd).length := h
  rw [FileBody.bytes, List.length_take, List.length_drop]
  omega

namespace TcpConnection

/-! ## A file behind another one -/

theorem pread_spec (h : Rest c files sent w) (file : FileBody) (total : Nat) :
    wp (pread file total)
      (fun a w' => Rest c files sent w' ∧
        match a with
        | .data bytes => ∃ n, (c → 0 < n) ∧ bytes =
            ((files file.fd).drop (file.offset + total)).take (min n (file.length - total))
        | .interrupted => True
        | _ => ¬ c)
      (fun w' => w' = w) w := by
  have he := h.toMid.env
  unfold wp pread
  cases hw : w.preads with
  | nil => rfl
  | cons a rest =>
    have hreads : c → ∀ b ∈ a :: rest, b.Reads := hw ▸ he.preads
    have hfirst : c → a.Reads := fun hc => hreads hc a (List.mem_cons_self ..)
    have hrest : Rest c files sent { w with preads := rest } := by
      have henv : Env c files { w with preads := rest } :=
        ⟨he.writes, he.sendfiles, fun hc b hb => hreads hc b (List.mem_cons_of_mem _ hb),
          he.files, he.trace⟩
      exact ⟨h.toMid.of_conn rfl rfl henv fun _ => rfl, h.drained⟩
    cases a with
    | count n => exact ⟨hrest, n, hfirst, by rw [he.files]⟩
    | again => exact ⟨hrest, hfirst⟩
    | interrupted => exact ⟨hrest, trivial⟩
    | failed errno => exact ⟨hrest, hfirst⟩

theorem pread_shorter (file : FileBody) (total : Nat) :
    wp (pread file total) (fun _ (w' : World σ) => w'.preads.length < w.preads.length)
      (fun _ => True) w := by
  unfold wp pread
  cases hw : w.preads with
  | nil => trivial
  | cons a rest => cases a <;> exact Nat.lt_succ_self _

theorem copyRound_decreases (file : FileBody) :
    Decreases (fun w : World σ => w.preads.length) (copyRound file) := by
  apply Decreases.of_wp
  intro data w
  simp only [copyRound, wp_ite]
  split
  · rw [wp_bind]
    refine wp_mono (pread_shorter file data.length) ?_ (fun _ _ => trivial)
    intro a w' hw
    cases a with
    | data bytes =>
      simp only [wp_ite, wp_pure]
      split
      · exact fun _ _ => hw
      · exact fun _ h => absurd h Sum.inr_ne_inl
    | again => exact fun _ h => absurd h Sum.inr_ne_inl
    | interrupted => exact fun _ _ => hw
    | failed errno => exact fun _ h => absurd h Sum.inr_ne_inl
  · exact fun _ h => absurd h Sum.inr_ne_inl

theorem copyFile_spec (h : Rest c files sent w) {file : FileBody} (hin : c → file.Inside files) :
    wp (copyFile file) (fun data w' => Rest c files sent w' ∧ (c → data = file.bytes files))
      (Inv c files sent) w := by
  refine wp_loop (copyRound_decreases file)
    (I := fun data w' => Rest c files sent w' ∧ (c → data <+: file.bytes files)) ?_ [] w
    ⟨h, fun _ => List.nil_prefix⟩
  rintro data w₁ ⟨h₁, hdata⟩
  simp only [copyRound, wp_ite]
  split
  · rename_i hlen
    simp only [wp_bind]
    refine wp_mono (pread_spec h₁ file data.length) ?_ ?_
    · rintro a w₂ ⟨h₂, ha⟩
      cases a with
      | data bytes =>
        obtain ⟨n, hn, rfl⟩ := ha
        simp only [wp_ite, wp_pure]
        split
        · refine ⟨h₂, ?_⟩
          intro hc
          -- the piece that was read follows what is there
          have htake := List.prefix_iff_eq_take.mp (hdata hc)
          have hpiece : data ++ ((files file.fd).drop (file.offset + data.length)).take
              (min n (file.length - data.length)) =
                (file.bytes files).take (data.length + min n (file.length - data.length)) := by
            rw [List.take_add, ← htake]
            congr 1
            rw [FileBody.bytes, List.drop_take, List.drop_drop, List.take_take]
            congr 1
            omega
          rw [hpiece]
          exact List.take_prefix _ _
        · rename_i hempty
          refine ⟨h₂, ?_⟩
          intro hc
          have hin : file.offset + file.length ≤ (files file.fd).length := hin hc
          have hn := hn hc
          simp only [List.length_take, List.length_drop] at hempty
          omega
      | again => exact ⟨h₂, fun hc => absurd hc ha⟩
      | interrupted => exact ⟨h₂, hdata⟩
      | failed errno => exact ⟨h₂, fun hc => absurd hc ha⟩
    · rintro w' rfl
      exact Or.inr h₁
  · rename_i hlen
    refine ⟨h₁, ?_⟩
    intro hc
    apply (hdata hc).eq_of_length_le
    rw [FileBody.length_bytes (hin hc)]
    omega

theorem unsent_pendFile {conn : TcpConnection} (hfile : conn.pendingFile = none)
    (file : FileBody) :
    unsent files { conn with
      preFileBytes := conn.output.length
      pendingFile := some file
      fileOffset := file.offset
      fileRemaining := file.length } = unsent files conn ++ file.bytes files := by
  simp only [unsent, hfile, List.take_length, List.drop_length, List.append_nil, List.nil_append,
    List.take_append_drop, FileBody.bytes]

section
variable {closeCallback : Prog (World σ) Unit}
  (hcb : ¬ c → Keeps (fun w : World σ => (w.conn, w.files, w.trace)) closeCallback)

/-! ## The calls -/

include hcb in
theorem sendFile_spec (h : Inv c files sent w) {file : FileBody} (hin : c → file.Inside files) :
    wp (sendFile closeCallback file) (fun _ w' => Inv c files (sent ++ file.bytes files) w')
      (fun w' => Inv c files sent w' ∨ Inv c files (sent ++ file.bytes files) w') w := by
  simp only [sendFile, wp_bind, wp_world, wp_ite]
  split
  · rename_i hskip
    rcases h with h | h
    · exact Or.inl h
    · have hlen : file.length = 0 := by
        rcases hskip with hclosed | hlen
        · rw [h.toMid.shape.isOpen] at hclosed
          cases hclosed
        · exact hlen
      have hbytes : file.bytes files = [] := by rw [FileBody.bytes, hlen, List.take_zero]
      rw [wp_pure, hbytes, List.append_nil]
      exact Or.inr h
  rename_i hskip
  rcases h with h | h
  · exact absurd (Or.inl h.isClosed) hskip
  split
  · refine wp_mono (copyFile_spec h hin) ?_ (fun _ hi => Or.inl hi)
    rintro data w₁ ⟨h₁, hdata⟩
    have heq : c → sent ++ data = sent ++ file.bytes files := fun hc => by rw [hdata hc]
    refine wp_mono (sendInLoop_spec hcb h₁ data) ?_ (fun _ hi => Or.inl hi)
    rintro _ w₂ (h₂ | h₂)
    · exact Or.inl h₂
    · exact Or.inr { h₂ with sent := h₂.toMid.sent.of_eq heq }
  · rename_i hfile
    have hfile : w.conn.pendingFile = none := by simpa using hfile
    simp only [wp_update, enableWriting]
    refine wp_mono (handleWrite_spec hcb (Or.inr ?_))
      (fun _ _ hi => hi) (fun _ hi => Or.inr hi)
    have hs := h.toMid.shape
    have he := h.toMid.env
    obtain ⟨hatt, hev⟩ := withChannel_enableWriting (w := { w with conn := { w.conn with
        preFileBytes := w.conn.output.length
        pendingFile := some file
        fileOffset := file.offset
        fileRemaining := file.length } }) hs.attached
    refine ⟨⟨⟨hs.isOpen, hs.socket, hatt, fun _ => hev, le_rfl, fun hn => absurd hn (Option.some_ne_none _)⟩,
      ⟨he.writes, he.sendfiles, he.preads, he.files, he.trace⟩, ?_, ?_⟩, fun _ => ?_⟩
    · intro hc file' hfile'
      cases hfile'
      exact hin hc
    · intro hc
      have hbytes := h.toMid.sent.bytes hc
      have hunsent : unsent files _ = unsent files w.conn ++ file.bytes files :=
        unsent_pendFile hfile file
      rw [← hbytes, List.append_assoc]
      exact congrArg (w.wire ++ ·) hunsent
    · simp [World.left, World.withChannel]

theorem shutdownWrite_spec (h : Inv c files sent w) {E : World σ → Prop} :
    wp shutdownWrite (fun _ w' => Inv c files sent w') E w := by
  simp only [shutdownWrite, wp_bind, wp_world, wp_ite]
  split
  · exact h
  rename_i hopen
  rcases h with h | h
  · exact absurd h.isClosed hopen
  split
  · rename_i hdone
    have hleft : w.left = false := left_eq_false.mpr ⟨by simpa using hdone.2.1,
      by simpa using hdone.2.2⟩
    exact wp_mono (shutdownSocket_spec h hleft (E := fun _ => False)) (fun _ _ hr => Or.inr hr)
      (fun _ hf => hf.elim)
  · have hs := h.toMid.shape
    have he := h.toMid.env
    exact Or.inr ⟨⟨⟨hs.isOpen, hs.socket, hs.attached, hs.armed, hs.pre, hs.noFile⟩,
      ⟨he.writes, he.sendfiles, he.preads, he.files, he.trace⟩, h.toMid.sent.range,
      h.toMid.sent.bytes⟩, h.drained⟩

end

end TcpConnection

/-! ## A new connection -/

structure Fresh (w : World σ) : Prop where
  conn : ∃ self connfd, w.conn = { socket := ⟨some connfd⟩, channel := { self := self, fd := connfd } }
  channels : w.reactor.channels[w.conn.channel.fd]? = none
  interest : w.reactor.interest[w.conn.channel.fd]? = none
  wire : w.wire = []
  trace : w.trace = []

theorem start_spec (hw : Fresh w) (he : Env c files w) {E : World σ → Prop} :
    wp TcpConnection.start (fun _ w' => Rest c files [] w') E w := by
  obtain ⟨self, connfd, hconn⟩ := hw.conn
  have hchannels := hw.channels
  have hinterest := hw.interest
  simp only [TcpConnection.start, wp_bind, wp_update]
  rw [hconn] at hchannels hinterest
  have hatt := Channel.attached_enableReading (r := w.reactor)
    (c := { self := self, fd := connfd }) rfl hchannels hinterest
  have hatt' := hatt.updateChannel rfl hatt.active hatt.reading
  have hchannel : w.conn.channel = { self := self, fd := connfd } := by rw [hconn]
  have hev : (w.withChannel Channel.enableReading).conn.channel.hasOut = false := by
    simp only [World.withChannel, hchannel]
    exact (Channel.or_kReadEvent 0).2
  refine ⟨⟨⟨?_, ?_, ?_, ?_, ?_, ?_⟩, ⟨he.writes, he.sendfiles, he.preads, he.files, he.trace⟩,
    ?_, ?_⟩, ?_⟩
  · simp only [World.withChannel, hconn]
  · simp only [World.withChannel, hconn, Option.isSome_some]
  · simp only [World.withChannel, hchannel]
    exact hatt'
  · intro hleft
    simp [World.left, World.withChannel, hconn] at hleft
  · simp only [World.withChannel, hconn, List.length_nil, le_refl]
  · intro _
    simp only [World.withChannel, hconn]
  · intro _ file hfile
    simp [World.withChannel, hconn] at hfile
  · intro _
    simp [World.withChannel, hconn, hw.wire, unsent]
  · intro h
    exact absurd (hev.symm.trans h) Bool.false_ne_true

/-! ## Runs -/

inductive Call where
  | send (data : Bytes)
  | sendFile (file : FileBody)
  | shutdownWrite
  | writeEvent

namespace Call

def bytes (files : Nat → Bytes) : Call → Bytes
  | .send data => data
  | .sendFile file => file.bytes files
  | .shutdownWrite => []
  | .writeEvent => []

def perform (closeCallback : Prog (World σ) Unit) : Call → Prog (World σ) Unit
  | .send data => TcpConnection.send closeCallback data
  | .sendFile file => TcpConnection.sendFile closeCallback file
  | .shutdownWrite => TcpConnection.shutdownWrite
  | .writeEvent => TcpConnection.handleWrite closeCallback

def performAll (closeCallback : Prog (World σ) Unit) : List Call → Prog (World σ) Unit
  | [] => pure ()
  | call :: calls => do
    call.perform closeCallback
    performAll closeCallback calls

variable {closeCallback : Prog (World σ) Unit}
  (hcb : ¬ c → Keeps (fun w : World σ => (w.conn, w.files, w.trace)) closeCallback)
include hcb

theorem perform_spec (call : Call) (h : Inv c files sent w)
    (hin : c → ∀ file, call = .sendFile file → file.Inside files) :
    wp (call.perform closeCallback) (fun _ w' => Inv c files (sent ++ call.bytes files) w')
      (fun w' => Inv c files sent w' ∨ Inv c files (sent ++ call.bytes files) w') w := by
  cases call with
  | send data =>
    exact wp_mono (TcpConnection.send_spec hcb h data) (fun _ _ hi => hi) (fun _ hi => Or.inl hi)
  | sendFile file => exact TcpConnection.sendFile_spec hcb h fun hc => hin hc file rfl
  | shutdownWrite =>
    simp only [bytes, List.append_nil]
    exact TcpConnection.shutdownWrite_spec h
  | writeEvent =>
    simp only [bytes, List.append_nil]
    exact wp_mono (TcpConnection.handleWrite_spec hcb h) (fun _ _ hi => hi)
      (fun _ hi => Or.inl hi)

theorem performAll_spec (calls : List Call)
    (hin : c → ∀ file, .sendFile file ∈ calls → file.Inside files) :
    ∀ (sent : Bytes) (w : World σ), Inv c files sent w →
      wp (performAll closeCallback calls)
        (fun _ w' => Inv c files (sent ++ calls.flatMap (bytes files)) w')
        (fun w' => ∃ before call after, calls = before ++ call :: after ∧
          (Inv c files (sent ++ before.flatMap (bytes files)) w' ∨
            Inv c files (sent ++ (before ++ [call]).flatMap (bytes files)) w')) w := by
  induction calls with
  | nil =>
    intro sent w h
    simpa only [performAll, wp_pure, List.flatMap_nil, List.append_nil] using h
  | cons call calls ih =>
    intro sent w h
    simp only [performAll, wp_bind]
    have hcall := perform_spec hcb call h fun hc file heq =>
      hin hc file (heq ▸ List.mem_cons_self ..)
    refine wp_mono hcall ?_ ?_
    · intro _ w₁ h₁
      refine wp_mono (ih (fun hc file hm => hin hc file (List.mem_cons_of_mem _ hm)) _ w₁ h₁) ?_ ?_
      · intro _ w₂ h₂
        rw [List.flatMap_cons, ← List.append_assoc]
        exact h₂
      · rintro w₂ ⟨before, call', after, rfl, h₂⟩
        refine ⟨call :: before, call', after, rfl, ?_⟩
        simp only [List.cons_append, List.flatMap_cons, ← List.append_assoc] at h₂ ⊢
        exact h₂
    · intro w₁ h₁
      refine ⟨[], call, calls, rfl, ?_⟩
      simpa only [List.flatMap_nil, List.append_nil, List.nil_append, List.flatMap_singleton]
        using h₁

end Call

/-- The kernel has the front of what was sent and the connection describes the
rest; `EPOLLOUT` is registered while there is a rest; and the socket was
half-closed with nothing left only. -/
structure Described (files : Nat → Bytes) (sent : Bytes) (w : World σ) : Prop where
  bytes : w.wire ++ unsent files w.conn = sent
  armed : unsent files w.conn ≠ [] → w.armed = true
  shutdown : ∀ fd left, .shutdown fd left ∈ w.trace → left = false

theorem Inv.described (h : Inv True files sent w) : Described files sent w := by
  rcases h with h | h
  · exact absurd trivial h.failing
  have hm := h.toMid
  refine ⟨hm.sent.bytes trivial, ?_, hm.env.trace.shutdown⟩
  intro hunsent
  rw [hm.shape.armed_eq]
  apply hm.shape.armed
  by_contra hleft
  obtain ⟨ho, hf⟩ := left_eq_false.mp (by simpa using hleft)
  exact hunsent (unsent_nil ho hf)

/-- **Nothing is lost, doubled or reordered on the way out.** The kernel takes
some bytes of every write or asks for it to be tried again; it may leave any
call unanswered, which is where the run waits. A `send` that waits in its own
write has not been queued yet. -/
theorem write_order (closeCallback : Prog (World σ) Unit) (hw : Fresh w)
    (hwrites : ∀ a ∈ w.writes, a.Progress) (hsendfiles : ∀ a ∈ w.sendfiles, a.Progress)
    (hpreads : ∀ a ∈ w.preads, a.Reads) (calls : List Call)
    (hin : ∀ file, .sendFile file ∈ calls → file.Inside w.files) :
    wp (do
        TcpConnection.start
        Call.performAll closeCallback calls)
      (fun _ w' => Described w.files (calls.flatMap (Call.bytes w.files)) w')
      (fun w' => ∃ before call after, calls = before ++ call :: after ∧
        (Described w.files (before.flatMap (Call.bytes w.files)) w' ∨
          Described w.files ((before ++ [call]).flatMap (Call.bytes w.files)) w')) w := by
  have he : Env True w.files w := by
    refine ⟨fun _ => hwrites, fun _ => hsendfiles, fun _ => hpreads, rfl, ?_⟩
    rw [hw.trace]
    exact ⟨(fun _ _ hm => nomatch hm), fun before _ _ _ heq => by simp at heq⟩
  rw [wp_bind]
  refine wp_mono (start_spec hw he (E := fun _ => False)) ?_ (fun _ hf => hf.elim)
  intro _ w₁ h₁
  refine wp_mono (Call.performAll_spec (c := True) (fun hc => absurd trivial hc) calls
    (fun _ => hin) [] w₁ (Or.inr h₁)) ?_ ?_
  · intro _ w₂ h₂
    exact h₂.described
  · rintro w₂ ⟨before, call, after, heq, h₂⟩
    exact ⟨before, call, after, heq, h₂.imp Inv.described Inv.described⟩

def TcpConnection.accepted (connfd : Nat) (writes sendfiles preads : List Answer)
    (files : Nat → Bytes) (app : σ) : World σ where
  conn := { socket := ⟨some connfd⟩, channel := { self := 0, fd := connfd } }
  timers := { self := 0 }
  writes := writes
  sendfiles := sendfiles
  preads := preads
  files := files
  app := app

theorem TcpConnection.accepted_fresh (connfd : Nat) (writes sendfiles preads : List Answer)
    (files : Nat → Bytes) (app : σ) :
    Fresh (TcpConnection.accepted connfd writes sendfiles preads files app) :=
  ⟨⟨0, connfd, rfl⟩, by simp [TcpConnection.accepted], by simp [TcpConnection.accepted], rfl, rfl⟩

def shortCalls : List Call :=
  [.send (bytes "ab"), .sendFile ⟨3, 1, 3⟩, .shutdownWrite, .writeEvent]

@[irreducible] def shortWorld : World Unit :=
  TcpConnection.accepted 7 [.count 1, .interrupted, .count 1] [.count 2, .again, .count 1] []
    (fun _ => bytes "hello") ()

theorem write_order_short :
    shortCalls.flatMap (Call.bytes shortWorld.files) = bytes "abell" ∧
    wp (do
        TcpConnection.start
        Call.performAll (pure ()) shortCalls)
      (fun _ w' =>
        Described shortWorld.files (shortCalls.flatMap (Call.bytes shortWorld.files)) w')
      (fun w' => ∃ before call after, shortCalls = before ++ call :: after ∧
        (Described shortWorld.files (before.flatMap (Call.bytes shortWorld.files)) w' ∨
          Described shortWorld.files ((before ++ [call]).flatMap (Call.bytes shortWorld.files)) w'))
      shortWorld := by
  have hfresh : Fresh shortWorld := by
    rw [shortWorld]
    exact TcpConnection.accepted_fresh ..
  constructor
  · rw [shortWorld]
    decide
  · refine write_order (pure ()) hfresh ?_ ?_ ?_ shortCalls ?_
    · simp [shortWorld, TcpConnection.accepted, Answer.Progress]
    · simp [shortWorld, TcpConnection.accepted, Answer.Progress]
    · simp [shortWorld, TcpConnection.accepted]
    · intro file hfile
      simp only [shortCalls, List.mem_cons, Call.sendFile.injEq, reduceCtorEq, List.not_mem_nil,
        or_false, false_or] at hfile
      rw [hfile, shortWorld]
      show 1 + 3 ≤ (bytes "hello").length
      decide

end

end Myself
