import MyselfServer.WritePath

/-!
# handleWrite

A write event writes the bytes before the pending file, the file, and the
bytes behind it. Each phase keeps `Mid` up to its end, where its part is
empty; wherever a phase stops short the connection is at rest or closed.
-/

namespace Myself

open Text Prog

section
variable {σ : Type} {c : Prop} {files : Nat → Bytes} {sent : Bytes} {w : World σ}

namespace TcpConnection

/-! ## The rounds end -/

/-- A call that was answered has used up its answer. -/
theorem write_shorter (data : Bytes) :
    wp (write data) (fun a (w' : World σ) =>
      (∃ errno, a = .failed errno) ∨ w'.writes.length < w.writes.length) (fun _ => True) w := by
  unfold wp write
  cases hfd : w.conn.socket.fd with
  | none => exact Or.inl ⟨_, rfl⟩
  | some fd =>
    cases hw : w.writes with
    | nil => trivial
    | cons a rest =>
      cases a with
      | count n => exact Or.inr (Nat.lt_succ_self _)
      | again => exact Or.inr (Nat.lt_succ_self _)
      | interrupted => exact Or.inr (Nat.lt_succ_self _)
      | failed errno => exact Or.inl ⟨_, rfl⟩

theorem flushRound_decreases {closeCallback : Prog (World σ) Unit} :
    Decreases (fun w : World σ => w.writes.length) (flushRound closeCallback) := by
  apply Decreases.of_wp
  intro limit w
  simp only [flushRound, wp_bind, wp_world, wp_ite]
  split
  · refine wp_mono (write_shorter (w := w) _) ?_ (fun _ _ => trivial)
    intro a w' hw
    cases a with
    | count n =>
      rcases hw with ⟨_, h⟩ | hw
      · cases h
      · simp only [wp_ite, wp_bind, wp_update, wp_pure]
        split
        · exact fun _ _ => hw
        · exact wp_of_forall (fun _ _ _ h => absurd h Sum.inr_ne_inl) (fun _ => trivial)
    | again => exact fun _ h => absurd h Sum.inr_ne_inl
    | interrupted =>
      rcases hw with ⟨_, h⟩ | hw
      · cases h
      · exact fun _ _ => hw
    | failed errno =>
      simp only [wp_bind, wp_update, wp_pure]
      exact wp_of_forall (fun _ _ _ h => absurd h Sum.inr_ne_inl) (fun _ => trivial)
  · exact fun _ h => absurd h Sum.inr_ne_inl

theorem sendfile_shorter (file : FileBody) :
    wp (sendfile file) (fun a (w' : World σ) =>
      (∃ errno, a = .failed errno) ∨ w'.sendfiles.length < w.sendfiles.length)
      (fun _ => True) w := by
  unfold wp sendfile
  cases hfd : w.conn.socket.fd with
  | none => exact Or.inl ⟨_, rfl⟩
  | some fd =>
    cases hw : w.sendfiles with
    | nil => trivial
    | cons a rest =>
      cases a with
      | count n => exact Or.inr (Nat.lt_succ_self _)
      | again => exact Or.inr (Nat.lt_succ_self _)
      | interrupted => exact Or.inr (Nat.lt_succ_self _)
      | failed errno => exact Or.inl ⟨_, rfl⟩

theorem fileRound_decreases {closeCallback : Prog (World σ) Unit} (file : FileBody) :
    Decreases (fun w : World σ => w.sendfiles.length) (fileRound closeCallback file) := by
  apply Decreases.of_wp
  intro _ w
  simp only [fileRound, wp_bind, wp_world, wp_ite]
  split
  · refine wp_mono (sendfile_shorter (w := w) file) ?_ (fun _ _ => trivial)
    intro a w' hw
    cases a with
    | count n =>
      rcases hw with ⟨_, h⟩ | hw
      · cases h
      · simp only [wp_ite, wp_bind, wp_update, wp_pure]
        split
        · exact fun _ _ => hw
        · exact fun _ h => absurd h Sum.inr_ne_inl
    | again => exact fun _ h => absurd h Sum.inr_ne_inl
    | interrupted =>
      rcases hw with ⟨_, h⟩ | hw
      · cases h
      · exact fun _ _ => hw
    | failed errno =>
      simp only [wp_bind, wp_update, wp_pure]
      exact wp_of_forall (fun _ _ _ h => absurd h Sum.inr_ne_inl) (fun _ => trivial)
  · exact fun _ h => absurd h Sum.inr_ne_inl

def written (n : Nat) (conn : TcpConnection) : TcpConnection :=
  { conn with
    output := conn.output.drop n
    preFileBytes := conn.preFileBytes - min conn.preFileBytes n }

/-! ## The rule -/

def fileDone (w : World σ) : World σ :=
  { w with conn := { w.conn with pendingFile := none, fileRemaining := 0 } }

/-- What the rounds of `handleWrite` keep: `M` in its middle, `I` where it stops. -/
structure WriteRules (closeCallback : Prog (World σ) Unit) (M I : World σ → Prop) : Prop where
  pre : ∀ {w}, M w → w.conn.preFileBytes ≤ w.conn.output.length
  flush : ∀ {w} {limit : Nat}, M w → limit ≤ w.conn.output.length →
    (limit ≤ w.conn.preFileBytes ∨ w.conn.preFileBytes = 0 ∧ w.conn.pendingFile = none) →
    wp (flushRound closeCallback limit)
      (fun r w' => r.elim
        (fun limit' => ∃ n ≤ limit, limit' = limit - n ∧ w'.conn = written n w.conn ∧ M w')
        (fun ok => if ok then w' = w ∧ limit = 0 else I w')) I w
  file : ∀ {w} {file}, M w → w.conn.preFileBytes = 0 → w.conn.pendingFile = some file →
    wp (fileRound closeCallback file ())
      (fun r w' => r.elim
        (fun _ => M w' ∧ w'.conn.preFileBytes = 0 ∧ w'.conn.pendingFile = some file)
        (fun ok => if ok then M (fileDone w') ∧ w'.conn.preFileBytes = 0 else I w')) I w
  done : ∀ {w}, M w → w.left = false → wp writeDone (fun _ w' => I w') I w

section
variable {closeCallback : Prog (World σ) Unit} {M I : World σ → Prop}
  (rules : WriteRules closeCallback M I)
include rules

/-- Up to the pending file. -/
theorem WriteRules.flushOutput_before (h : M w) :
    wp (flushOutput closeCallback w.conn.preFileBytes)
      (fun ok w' => if ok then M w' ∧ w'.conn.preFileBytes = 0 else I w') I w := by
  refine wp_loop flushRound_decreases
    (I := fun limit w' => M w' ∧ limit = w'.conn.preFileBytes) ?_ _ w ⟨h, rfl⟩
  rintro limit w₁ ⟨h₁, rfl⟩
  refine wp_mono (rules.flush h₁ (rules.pre h₁) (Or.inl le_rfl)) ?_ (fun _ hi => hi)
  intro r w₂ hr
  cases r with
  | inl limit' =>
    obtain ⟨n, hn, rfl, hconn, h₂⟩ := hr
    refine ⟨h₂, ?_⟩
    rw [hconn]
    simp only [written]
    omega
  | inr ok =>
    cases ok with
    | true =>
      obtain ⟨rfl, h0⟩ := hr
      exact ⟨h₁, h0⟩
    | false => exact hr

/-- Up to the end. -/
theorem WriteRules.flushOutput_behind (h : M w) (hpre : w.conn.preFileBytes = 0)
    (hfile : w.conn.pendingFile = none) :
    wp (flushOutput closeCallback w.conn.output.length)
      (fun ok w' => if ok then M w' ∧ w'.left = false else I w') I w := by
  refine wp_loop flushRound_decreases
    (I := fun limit w' => M w' ∧ limit = w'.conn.output.length ∧
      w'.conn.preFileBytes = 0 ∧ w'.conn.pendingFile = none) ?_ _ w ⟨h, rfl, hpre, hfile⟩
  rintro limit w₁ ⟨h₁, rfl, hpre₁, hfile₁⟩
  refine wp_mono (rules.flush h₁ le_rfl (Or.inr ⟨hpre₁, hfile₁⟩)) ?_ (fun _ hi => hi)
  intro r w₂ hr
  cases r with
  | inl limit' =>
    obtain ⟨n, hn, rfl, hconn, h₂⟩ := hr
    refine ⟨h₂, ?_, ?_, ?_⟩
    · rw [hconn, written, List.length_drop]
    · rw [hconn, written, hpre₁]
      exact Nat.zero_sub _
    · rw [hconn]
      exact hfile₁
  | inr ok =>
    cases ok with
    | true =>
      obtain ⟨rfl, h0⟩ := hr
      exact ⟨h₁, left_eq_false.mpr ⟨List.length_eq_zero_iff.mp h0, hfile₁⟩⟩
    | false => exact hr

theorem WriteRules.writeBeforeFile (h : M w) :
    wp (writeBeforeFile closeCallback)
      (fun ok w' => if ok then M w' ∧ w'.conn.preFileBytes = 0 else I w') I w := by
  simp only [TcpConnection.writeBeforeFile, wp_bind, wp_world, wp_ite]
  split
  · refine wp_mono (rules.flushOutput_before h) ?_ (fun _ hi => hi)
    intro ok w₁ h₁
    cases ok with
    | true =>
      obtain ⟨h₁, hpre⟩ := h₁
      simp only [if_true, wp_update, wp_pure]
      have hsame : { w₁ with conn := { w₁.conn with preFileBytes := 0 } } = w₁ := by rw [← hpre]
      rw [hsame]
      exact ⟨h₁, trivial⟩
    | false => exact h₁
  · rename_i hpre
    exact ⟨h, Nat.eq_zero_of_not_pos hpre⟩

theorem WriteRules.sendPendingFile {file : FileBody} (h : M w) (hpre : w.conn.preFileBytes = 0)
    (hfile : w.conn.pendingFile = some file) :
    wp (sendPendingFile closeCallback file)
      (fun ok w' => if ok then M w' ∧ w'.conn.preFileBytes = 0 ∧ w'.conn.pendingFile = none
        else I w') I w := by
  simp only [TcpConnection.sendPendingFile, wp_bind]
  refine wp_mono (wp_loop (fileRound_decreases file)
    (I := fun _ w' => M w' ∧ w'.conn.preFileBytes = 0 ∧ w'.conn.pendingFile = some file)
    (Q := fun ok w' => if ok then M (fileDone w') ∧ w'.conn.preFileBytes = 0 else I w')
    (fun _ w₁ h₁ => rules.file h₁.1 h₁.2.1 h₁.2.2) () w ⟨h, hpre, hfile⟩) ?_ (fun _ hi => hi)
  intro ok w₁ h₁
  cases ok with
  | false => exact h₁
  | true => exact ⟨h₁.1, h₁.2, rfl⟩

theorem WriteRules.writeFile (h : M w) (hpre : w.conn.preFileBytes = 0) :
    wp (writeFile closeCallback)
      (fun ok w' => if ok then M w' ∧ w'.conn.preFileBytes = 0 ∧ w'.conn.pendingFile = none
        else I w') I w := by
  simp only [TcpConnection.writeFile, wp_bind, wp_world]
  cases hfile : w.conn.pendingFile with
  | none => exact ⟨h, hpre, hfile⟩
  | some file => exact rules.sendPendingFile h hpre hfile

theorem WriteRules.writeBehindFile (h : M w) (hpre : w.conn.preFileBytes = 0)
    (hfile : w.conn.pendingFile = none) :
    wp (writeBehindFile closeCallback)
      (fun ok w' => if ok then M w' ∧ w'.left = false else I w') I w := by
  simp only [TcpConnection.writeBehindFile, wp_bind, wp_world, wp_ite]
  split
  · exact rules.flushOutput_behind h hpre hfile
  · rename_i hlen
    have hout : w.conn.output = [] := List.length_eq_zero_iff.mp (Nat.eq_zero_of_not_pos hlen)
    exact ⟨h, left_eq_false.mpr ⟨hout, hfile⟩⟩

/-- A write event goes through the three phases. -/
theorem WriteRules.handleWrite (h : M w) (hopen : w.conn.closed = false) :
    wp (handleWrite closeCallback) (fun _ w' => I w') I w := by
  simp only [TcpConnection.handleWrite, wp_bind, wp_world, wp_ite]
  rw [if_neg (by rw [hopen]; exact Bool.false_ne_true)]
  refine wp_mono (rules.writeBeforeFile h) ?_ (fun _ hi => hi)
  intro ok w₁ h₁
  cases ok with
  | false => exact h₁
  | true =>
    obtain ⟨h₁, hpre₁⟩ := h₁
    simp only [if_true]
    refine wp_mono (rules.writeFile h₁ hpre₁) ?_ (fun _ hi => hi)
    intro ok w₂ h₂
    cases ok with
    | false => exact h₂
    | true =>
      obtain ⟨h₂, hpre₂, hfile₂⟩ := h₂
      simp only [if_true]
      refine wp_mono (rules.writeBehindFile h₂ hpre₂ hfile₂) ?_ (fun _ hi => hi)
      intro ok w₃ h₃
      cases ok with
      | false => exact h₃
      | true => exact rules.done h₃.1 h₃.2

end

section
variable {closeCallback : Prog (World σ) Unit}
  (hcb : ¬ c → Keeps (fun w : World σ => (w.conn, w.files, w.trace)) closeCallback)
include hcb

/-! ## The output buffer -/

omit hcb in
/-- The front of the output buffer is what is sent next, up to the pending file. -/
theorem unsent_written {conn : TcpConnection} {n : Nat}
    (hfront : n ≤ conn.preFileBytes ∨ conn.preFileBytes = 0 ∧ conn.pendingFile = none) :
    unsent files conn = conn.output.take n ++ unsent files (written n conn) := by
  rcases hfront with hpre | ⟨hpre, hfile⟩
  · have hmin : conn.preFileBytes - min conn.preFileBytes n = conn.preFileBytes - n := by omega
    have htake : conn.output.take conn.preFileBytes =
        conn.output.take n ++ (conn.output.drop n).take (conn.preFileBytes - n) := by
      rw [← List.take_add]
      congr 1
      omega
    have hdrop : (conn.output.drop n).drop (conn.preFileBytes - n) =
        conn.output.drop conn.preFileBytes := by
      rw [List.drop_drop]
      congr 1
      omega
    simp only [unsent, written, hmin, hdrop]
    rw [htake, List.append_assoc]
  · simp [unsent, written, hpre, hfile]

theorem flushRound_spec (h : Mid c files sent w) {limit : Nat}
    (hlen : limit ≤ w.conn.output.length)
    (hfront : limit ≤ w.conn.preFileBytes ∨ w.conn.preFileBytes = 0 ∧ w.conn.pendingFile = none) :
    wp (flushRound closeCallback limit)
      (fun r w' => r.elim
        (fun limit' => ∃ n ≤ limit, limit' = limit - n ∧ w'.conn = written n w.conn ∧
          Mid c files sent w')
        (fun ok => if ok then w' = w ∧ limit = 0 else Inv c files sent w'))
      (Inv c files sent) w := by
  have hs := h.shape
  simp only [flushRound, wp_bind, wp_world, wp_ite]
  split
  · rename_i hpos
    have hleft : w.left = true := by
      by_contra hl
      have := (left_eq_false.mp (by simpa using hl)).1
      rw [this] at hpos
      exact Nat.lt_irrefl _ hpos.2
    have hmin : min limit w.conn.output.length = limit := by omega
    rw [hmin]
    refine wp_mono (write_spec hs h.env _) ?_ ?_
    · rintro a w' ⟨hconn, hreactor, henv, ha⟩
      have hmid : w'.wire = w.wire → Mid c files sent w' := fun hwire =>
        h.of_conn hconn hreactor henv fun _ => hwire
      have hleft' : w'.left = true := by
        simp only [World.left, hconn]
        exact hleft
      have hopen : w'.conn.closed = false := by rw [hconn]; exact hs.isOpen
      cases a with
      | count k =>
        obtain ⟨hk, hkpos, hwire⟩ := ha
        have hkl : k ≤ limit := by
          simp only [List.length_take] at hk
          omega
        simp only [wp_ite, wp_bind, wp_update, wp_pure]
        split
        · refine ⟨k, hkl, rfl, ?_, ?_⟩
          · simp only [World.addBytesWritten, written, hconn]
          · have hunsent : unsent files w.conn =
                w.conn.output.take k ++ unsent files (written k w.conn) :=
              unsent_written (hfront.imp_left fun h => by omega)
            have hbytes : c → w'.wire ++ unsent files (written k w.conn) = sent := by
              intro hc
              rw [hwire, List.append_assoc, List.take_take, show min k limit = k by omega,
                ← hunsent]
              exact h.sent.bytes hc
            refine ⟨⟨hopen, ?_, ?_, ?_, ?_, ?_⟩, ⟨henv.writes, henv.sendfiles, henv.preads,
              henv.files, henv.trace⟩, ?_, ?_⟩
            · simp only [World.addBytesWritten, hconn]; exact hs.socket
            · simp only [World.addBytesWritten, hconn, hreactor]; exact hs.attached
            · intro _
              simp only [World.addBytesWritten, hconn]
              exact hs.armed hleft
            · simp only [World.addBytesWritten, hconn, List.length_drop]
              have := hs.pre
              omega
            · simp only [World.addBytesWritten, hconn]
              intro hfile
              rw [hs.noFile hfile]
              exact Nat.zero_sub _
            · simp only [World.addBytesWritten, hconn]; exact h.sent.range
            · simp only [World.addBytesWritten, hconn]; exact hbytes
        · rename_i hk0
          have hnc : ¬ c := fun hc => hk0 (hkpos hc (by simp; omega))
          have hclose : wp (handleClose closeCallback) (fun _ w'' => Inv c files sent w'')
              (Inv c files sent) w'.addErrors :=
            close_spec hcb hopen
              ⟨henv.writes, henv.sendfiles, henv.preads, henv.files, henv.trace⟩ hnc
          refine wp_mono hclose ?_ ?_
          · exact fun _ _ hi => hi
          · exact fun _ hi => hi
      | again => exact Or.inr ((hmid ha).rest hleft')
      | interrupted =>
        refine ⟨0, Nat.zero_le _, rfl, ?_, hmid ha⟩
        rw [hconn]
        simp [written]
      | failed errno =>
        obtain ⟨hnc, -⟩ := ha
        simp only [wp_bind, wp_update, wp_pure]
        exact close_spec hcb (w := w'.addErrors) hopen
          ⟨henv.writes, henv.sendfiles, henv.preads, henv.files, henv.trace⟩ hnc
    · rintro w' rfl
      exact Or.inr (h.rest hleft)
  · rename_i hpos
    exact ⟨rfl, by omega⟩

/-! ## The pending file -/

structure InFile (c : Prop) (files : Nat → Bytes) (sent : Bytes) (file : FileBody)
    (w : World σ) : Prop extends Mid c files sent w where
  before : w.conn.preFileBytes = 0
  pending : w.conn.pendingFile = some file

def fileSent (k : Nat) (conn : TcpConnection) : TcpConnection :=
  { conn with
    fileOffset := conn.fileOffset + k
    fileRemaining := conn.fileRemaining - k }

omit hcb in
theorem unsent_fileSent {conn : TcpConnection} {file : FileBody} {k : Nat}
    (hpre : conn.preFileBytes = 0) (hfile : conn.pendingFile = some file)
    (hk : k ≤ conn.fileRemaining) :
    unsent files conn =
      ((files file.fd).drop conn.fileOffset).take k ++ unsent files (fileSent k conn) := by
  have htake : ((files file.fd).drop conn.fileOffset).take conn.fileRemaining =
      ((files file.fd).drop conn.fileOffset).take k ++
        ((files file.fd).drop (conn.fileOffset + k)).take (conn.fileRemaining - k) := by
    rw [← List.drop_drop, ← List.take_add]
    congr 1
    omega
  simp only [unsent, fileSent, hpre, hfile, List.take_zero, List.drop_zero, List.nil_append]
  rw [htake, List.append_assoc]

theorem fileRound_spec {file : FileBody} (h : InFile c files sent file w) :
    wp (fileRound closeCallback file ())
      (fun r w' => r.elim (fun _ => InFile c files sent file w')
        (fun ok => if ok then Mid c files sent (fileDone w') ∧ w'.conn.preFileBytes = 0
          else Inv c files sent w'))
      (Inv c files sent) w := by
  have hm := h.toMid
  have hs := hm.shape
  have hleft : w.left = true := by simp [World.left, h.pending]
  simp only [fileRound, wp_bind, wp_world, wp_ite]
  split
  · rename_i hpos
    refine wp_mono (sendfile_spec hs hm.env file) ?_ ?_
    · rintro a w' ⟨hreactor, henv, ha⟩
      cases a with
      | count k =>
        obtain ⟨n, hk, hn, hconn, hwire⟩ := ha
        have hkr : k ≤ w.conn.fileRemaining := by
          rw [hk, List.length_take]
          omega
        have hshape : ∀ remaining, Shape ({ w' with
            conn := { w'.conn with fileRemaining := remaining } } : World σ) := by
          intro remaining
          rw [hconn]
          exact ⟨hs.isOpen, hs.socket, hreactor ▸ hs.attached, fun _ => hs.armed hleft, hs.pre,
            hs.noFile⟩
        simp only [wp_ite, wp_bind, wp_update, wp_pure]
        split
        · have hconn' : { w'.conn with fileRemaining := w'.conn.fileRemaining - k } =
              fileSent k w.conn := by
            rw [hconn]
            rfl
          have hs' := hshape (w'.conn.fileRemaining - k)
          rw [hconn'] at hs'
          simp only [World.addBytesWritten, hconn', Sum.elim_inl]
          refine ⟨⟨⟨hs'.isOpen, hs'.socket, hs'.attached, hs'.armed, hs'.pre, hs'.noFile⟩,
            ⟨henv.writes, henv.sendfiles, henv.preads, henv.files, henv.trace⟩, ?_, ?_⟩,
            h.before, h.pending⟩
          · intro hc file' hfile'
            have := hm.sent.range hc file' hfile'
            simp only [fileSent]
            omega
          · intro hc
            have hunsent : unsent files w.conn = ((files file.fd).drop w.conn.fileOffset).take k ++
                unsent files (fileSent k w.conn) := unsent_fileSent h.before h.pending hkr
            show w'.wire ++ unsent files (fileSent k w.conn) = sent
            rw [hwire, List.append_assoc, ← hunsent]
            exact hm.sent.bytes hc
        · rename_i hk0
          have hnc : ¬ c := by
            intro hc
            have hrange := hm.sent.range hc file h.pending
            have hn := hn hc
            have : 0 < k := by
              rw [hk, List.length_take, List.length_drop]
              omega
            exact hk0 this
          have hbefore : w'.conn.preFileBytes = 0 := by
            rw [hconn]
            exact h.before
          have hs' := hshape 0
          exact ⟨⟨⟨hs'.isOpen, hs'.socket, hs'.attached, fun _ => hs'.armed (by
            simp only [World.left, hconn]
            exact hleft), hs'.pre, fun _ => hbefore⟩,
            ⟨henv.writes, henv.sendfiles, henv.preads, henv.files, henv.trace⟩,
            fun hc => absurd hc hnc, fun hc => absurd hc hnc⟩, hbefore⟩
      | again =>
        obtain ⟨hconn, hwire⟩ := ha
        exact Or.inr ((hm.of_conn hconn hreactor henv fun _ => hwire).rest (by
          simp only [World.left, hconn]
          exact hleft))
      | interrupted =>
        obtain ⟨hconn, hwire⟩ := ha
        refine ⟨hm.of_conn hconn hreactor henv fun _ => hwire, ?_, ?_⟩
        · rw [hconn]
          exact h.before
        · rw [hconn]
          exact h.pending
      | failed errno =>
        obtain ⟨hnc, hconn, -⟩ := ha
        simp only [wp_bind, wp_update, wp_pure]
        exact close_spec hcb (w := w'.addErrors) (by simp only [World.addErrors, hconn, hs.isOpen])
          ⟨henv.writes, henv.sendfiles, henv.preads, henv.files, henv.trace⟩ hnc
    · rintro w' rfl
      exact Or.inr (hm.rest hleft)
  · rename_i hpos
    have hrem : w.conn.fileRemaining = 0 := Nat.eq_zero_of_not_pos hpos
    refine ⟨⟨⟨hs.isOpen, hs.socket, hs.attached, fun _ => hs.armed hleft, hs.pre,
      fun _ => h.before⟩, ⟨hm.env.writes, hm.env.sendfiles, hm.env.preads, hm.env.files,
      hm.env.trace⟩, fun _ _ hf => absurd hf.symm (Option.some_ne_none _), ?_⟩, h.before⟩
    intro hc
    have hunsent : unsent files (fileDone w).conn = unsent files w.conn := by
      simp [fileDone, unsent, h.before, h.pending, hrem]
    show w.wire ++ unsent files (fileDone w).conn = sent
    rw [hunsent]
    exact hm.sent.bytes hc

/-! ## The whole -/

omit hcb in
theorem shutdownSocket_spec (h : Rest c files sent w) (hl : w.left = false) {E : World σ → Prop} :
    wp shutdownSocket (fun _ w' => Rest c files sent w') E w := by
  simp only [shutdownSocket, wp_update]
  have henv : Env c files (w.log (.shutdown w.conn.socket.fd w.left)) := by
    apply h.toMid.env.log
    · intro fd left hcall
      cases hcall
      exact hl
    · intro _ _ h
      cases h
  exact ⟨h.toMid.of_conn rfl rfl henv fun _ => rfl, h.drained⟩

omit hcb in
/-- Everything is written: the channel waits for no more writing, and the
half-close that was put off is done now. -/
theorem writeDone_spec (h : Mid c files sent w) (hl : w.left = false) {E : World σ → Prop} :
    wp writeDone (fun _ w' => Rest c files sent w') E w := by
  have hs := h.shape
  have hrest : Rest c files sent (w.withChannel Channel.disableWriting) := by
    refine ⟨⟨⟨hs.isOpen, hs.socket, hs.attached.disableWriting, ?_, hs.pre, hs.noFile⟩,
      ⟨h.env.writes, h.env.sendfiles, h.env.preads, h.env.files, h.env.trace⟩,
      h.sent.range, h.sent.bytes⟩, ?_⟩
    · intro hleft
      exact absurd (hl.symm.trans hleft) Bool.false_ne_true
    · intro hev
      have : (w.withChannel Channel.disableWriting).conn.channel.hasOut = false :=
        (Channel.and_not_kWriteEvent _).1
      rw [this] at hev
      cases hev
  simp only [writeDone, wp_bind, wp_update, wp_world, wp_ite]
  split
  · exact shutdownSocket_spec hrest hl
  · exact hrest

theorem writeRules : WriteRules closeCallback (Mid c files sent) (Inv c files sent) where
  pre h := h.shape.pre
  flush h hlen hfront := flushRound_spec hcb h hlen hfront
  file h hpre hfile := by
    refine wp_mono (fileRound_spec hcb ⟨h, hpre, hfile⟩) ?_ (fun _ hi => hi)
    intro r w' hr
    cases r with
    | inl _ => exact ⟨hr.toMid, hr.before, hr.pending⟩
    | inr ok => exact hr
  done h hl := wp_mono (writeDone_spec h hl (E := fun _ => False)) (fun _ _ hr => Or.inr hr)
    (fun _ hf => hf.elim)

/-- **A write event keeps the invariant**, whatever the kernel takes. -/
theorem handleWrite_spec (h : Inv c files sent w) :
    wp (handleWrite closeCallback) (fun _ w' => Inv c files sent w') (Inv c files sent) w := by
  rcases h with h | h
  · simp only [handleWrite, wp_bind, wp_world, wp_ite]
    rw [if_pos h.isClosed]
    exact Or.inl h
  · exact (writeRules hcb).handleWrite h.toMid h.toMid.shape.isOpen

end

end TcpConnection

end

end Myself
