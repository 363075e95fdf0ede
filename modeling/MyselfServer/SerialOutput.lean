import MyselfServer.HalfClose
import MyselfServer.SerialSession

/-!
# What a session hands over

The calls that the answers of a session make, and the bytes that they hand to
the kernel: with the answers come the order of the writes and the account of
what was handed over (`output_along`). Where no file ends early the client is
sent whole answers (`Output.text`).
-/

namespace Myself

open Text Prog

variable {site : Site} {files : Nat → Bytes} {as : List Answered} {w w' : World Session} {moves : List Move}

def Paid (files : Nat → Bytes) (moves : List Move) (w : World Session) : Prop :=
  ∃ taken, (∀ a ∈ taken, a.Reads) ∧ Accounted files taken moves w

structure Output (files : Nat → Bytes) (moves : List Move)
    (w : World Session) : Prop where
  sound : Sound files w
  paid : Paid files moves w

def Handing (files : Nat → Bytes) (moves : List Move) (w : World Session) : Prop :=
  ∃ made, made <+: moves ∧ ∃ taken, (∀ a ∈ taken, a.Reads) ∧ Halted files taken made w

theorem Paid.handing (h : Paid files moves w) {all : List Move}
    (hfront : moves <+: all) : Handing files all w := by
  obtain ⟨taken, htaken, h⟩ := h
  exact ⟨moves, hfront, taken, htaken, h.halted⟩

theorem Untouched.of_same (hs : (w'.conn, w'.files, w'.wire, w'.trace) = (w.conn, w.files, w.wire, w.trace)) :
    Untouched w w' := by
  simp only [Prod.mk.injEq] at hs
  obtain ⟨hconn, hfiles, hwire, htrace⟩ := hs
  exact ⟨by rw [hconn], by rw [hconn], by rw [hconn], by rw [hconn], by rw [hconn], by rw [hconn], hwire, hfiles,
    by rw [htrace]⟩

theorem Paid.untouched (h : Paid files moves w) (hu : Untouched w w') (hpreads : w'.preads = w.preads) :
    Paid files moves w' := by
  obtain ⟨taken, htaken, h⟩ := h
  exact ⟨taken, htaken, h.untouched hu hpreads⟩

theorem Paid.same (h : Paid files moves w)
    (hs : (w'.conn, w'.files, w'.wire, w'.preads, w'.trace) =
      (w.conn, w.files, w.wire, w.preads, w.trace)) : Paid files moves w' := by
  simp only [Prod.mk.injEq] at hs
  obtain ⟨hconn, hfiles, hwire, hpreads, htrace⟩ := hs
  refine h.untouched (Untouched.of_same ?_) hpreads
  rw [hconn, hfiles, hwire, htrace]

theorem Handing.more (h : Handing files moves w) {later : List Move} :
    Handing files (moves ++ later) w := by
  obtain ⟨made, hmade, h⟩ := h
  exact ⟨made, hmade.trans (List.prefix_append _ _), h⟩

theorem Handing.same (h : Handing files moves w)
    (hs : (w'.conn, w'.files, w'.wire, w'.trace) = (w.conn, w.files, w.wire, w.trace)) :
    Handing files moves w' := by
  obtain ⟨made, hmade, taken, htaken, h⟩ := h
  exact ⟨made, hmade, taken, htaken, h.untouched (Untouched.of_same hs)⟩

theorem Output.same (h : Output files moves w)
    (hs : (w'.conn, w'.files, w'.wire, w'.preads, w'.trace) =
      (w.conn, w.files, w.wire, w.preads, w.trace)) (hreactor : w'.reactor = w.reactor) :
    Output files moves w' := by
  refine ⟨?_, h.paid.same hs⟩
  simp only [Prod.mk.injEq] at hs
  exact h.sound.of_eq hs.1 hreactor hs.2.1 hs.2.2.2.2

namespace Session

theorem closeCallback_keeps_wire :
    Keeps (fun w : World Session => (w.conn, w.wire, w.files, w.preads, w.trace)) closeCallback :=
  Keeps.update fun _ => rfl

theorem Output.live (h : Output files moves w) : Move.Live files w := ⟨[], h.sound⟩

theorem send_output (h : Output files moves w) (data : Bytes) :
    wp (TcpConnection.send closeCallback data)
      (fun _ w' => Output files (moves ++ [.call (.send data)]) w')
      (Handing files moves) w := by
  obtain ⟨taken, htaken, haccounted⟩ := h.paid
  have hsend := TcpConnection.send_accounted closeCallback_keeps_wire haccounted (Output.live h).direct data
  exact wp_mono (wp_and (send_sound data w h.sound) hsend) (fun _ _ hi => ⟨hi.1, taken, htaken, hi.2⟩)
    (fun _ hi => ⟨moves, List.prefix_rfl, taken, htaken, hi.2⟩)

theorem sendFile_output (h : Output files moves w) {file : FileBody} (hin : file.Inside files) :
    wp (TcpConnection.sendFile closeCallback file)
      (fun _ w' => Output files (moves ++ [.call (.sendFile file)]) w')
      (Handing files (moves ++ [.call (.sendFile file)])) w := by
  obtain ⟨taken, htaken, haccounted⟩ := h.paid
  have hfile := TcpConnection.sendFile_accounted closeCallback_keeps_wire haccounted (Output.live h).direct hin
  refine wp_mono (wp_and (sendFile_sound file w h.sound) hfile) (fun _ _ hi => ⟨hi.1, taken, htaken, hi.2⟩) ?_
  rintro w' ⟨-, hi | hi⟩
  · exact ⟨moves, List.prefix_append _ _, taken, htaken, hi⟩
  · exact ⟨_, List.prefix_rfl, taken, htaken, hi⟩

theorem shutdownWrite_output (h : Output files moves w) {E : World Session → Prop} :
    wp TcpConnection.shutdownWrite (fun _ w' => Output files moves w') E w := by
  have hsound : wp TcpConnection.shutdownWrite (fun _ w' => Sound files w') E w :=
    TcpConnection.shutdownWrite_spec h.sound
  obtain ⟨taken, htaken, haccounted⟩ := h.paid
  have hshut := TcpConnection.shutdownWrite_accounted (E := E) haccounted
  exact wp_mono (wp_and hsound hshut) (fun _ _ hi => ⟨hi.1, taken, htaken, hi.2⟩) (fun _ hi => hi.1)

theorem sendResponse_output (h : Output files moves w) (index : Option Nat) (final : Bool)
    (response : HttpResponse) (includeBody : Bool) :
    wp (sendResponse site index final response includeBody)
      (fun _ w' => Output files (moves ++
        [.call (.send (response.serialize (site.date w.app.sent.length) includeBody))]) w')
      (Handing files moves) w := by
  unfold sendResponse
  rw [wp_bind, wp_world, wp_bind, wp_update]
  have h₁ : Output files moves (w.mapApp fun s => s.sending index final) := h.same rfl rfl
  exact send_output h₁ _

theorem sendFileBody_output (h : Output files moves w) (headOnly : Bool)
    {fileBody : Option FileBody} (hin : ∀ file, fileBody = some file → file.Inside files) :
    wp (sendFileBody headOnly fileBody)
      (fun _ w' => Output files (moves ++ Answered.fileMoves headOnly fileBody) w')
      (Handing files (moves ++ Answered.fileMoves headOnly fileBody)) w := by
  have hnone : Output files (moves ++ []) w := by
    rw [List.append_nil]
    exact h
  cases headOnly with
  | true => exact hnone
  | false =>
    cases fileBody with
    | none => exact hnone
    | some file => exact sendFile_output h (hin file rfl)

/-- A reply is passed to the connection. -/
theorem respond_output (site : Site) (h : Output files moves w) {reply : Reply}
    (hin : ∀ file, reply.response.fileBody = some file → file.Inside files) :
    wp (respond site reply)
      (fun _ w' => Output files
        (moves ++ (Answered.reply reply).moves site w.app.sent.length) w')
      (Handing files (moves ++ (Answered.reply reply).moves site w.app.sent.length)) w := by
  have hcount : wp (countNotModified (reply.response.setCloseConnection
      (!reply.request.keepAlive)).statusCode) (fun _ w' => Output files moves w' ∧ w'.app = w.app)
      (fun _ => False) w := by
    unfold countNotModified
    split
    · exact ⟨h.same rfl rfl, rfl⟩
    · exact ⟨h, rfl⟩
  unfold respond
  rw [wp_bind]
  refine wp_mono hcount ?_ (fun _ hf => hf.elim)
  rintro _ w₁ ⟨h₁, happ⟩
  rw [wp_bind]
  refine wp_mono (sendResponse_output h₁ _ _ _ _) ?_ ?_
  · intro _ w₂ h₂
    rw [happ] at h₂
    rw [wp_bind]
    refine wp_mono (sendFileBody_output h₂ (decide (reply.request.method = .kHead)) hin) ?_ ?_
    · intro _ w₃ h₃
      rw [List.append_assoc] at h₃
      have h₄ : Output files (moves ++ (Answered.reply reply).moves site w.app.sent.length)
          (w₃.requestFinished (reply.response.setCloseConnection (!reply.request.keepAlive)).statusCode) :=
        h₃.same rfl rfl
      rw [wp_bind, wp_update]
      unfold endUnless
      split
      · exact h₄
      · exact shutdownWrite_output h₄
    · intro w₃ h₃
      rw [List.append_assoc] at h₃
      exact h₃
  · exact fun w₂ h₂ => h₂.more

theorem answerBadRequest_output (site : Site) (h : Output files moves w) :
    wp (answerBadRequest site)
      (fun _ w' => Output files (moves ++ Answered.malformed.moves site w.app.sent.length) w')
      (Handing files (moves ++ Answered.malformed.moves site w.app.sent.length)) w := by
  unfold answerBadRequest
  rw [wp_bind, wp_update, wp_bind]
  have h₁ : Output files moves (w.mapApp fun s => s.note (.malformed s.ended)) := h.same rfl rfl
  refine wp_mono (sendResponse_output h₁ none true _ true) ?_ ?_
  · intro _ w₂ h₂
    rw [wp_bind, wp_update]
    have h₃ : Output files (moves ++ Answered.malformed.moves site w.app.sent.length)
        w₂.addErrors := h₂.same rfl rfl
    exact shutdownWrite_output h₃
  · exact fun w₂ h₂ => h₂.more

end Session

/-- The files that the router answers with have the bytes it announces. -/
def Site.Whole (site : Site) (files : Nat → Bytes) : Prop :=
  ∀ k request file, (site.handle k request).fileBody = some file → file.Inside files

theorem Reply.Chosen.inside {r : Reply} (h : r.Chosen site) (hwhole : site.Whole files) :
    ∀ file, r.response.fileBody = some file → file.Inside files := by
  intro file hfile
  rcases h with h | ⟨k, h⟩
  · rw [h] at hfile
    cases hfile
  · rw [h] at hfile
    exact hwhole k r.request file hfile

/-- The bytes of the answers are handed over in their order. -/
def Answered.Sent (site : Site) (files : Nat → Bytes) (as : List Answered) (w : World Session) : Prop :=
  Output files (movesFrom site 0 as) w

def Answered.Leaving (site : Site) (files : Nat → Bytes) (as : List Answered) (w : World Session) : Prop :=
  Handing files (movesFrom site 0 as) w

theorem output_along (hwhole : site.Whole files) :
    Along site (Answered.Sent site files) (Answered.Leaving site files) := by
  refine ⟨?_, ?_, ?_⟩
  · intro as w app metrics input h
    refine ⟨h.sound.same ⟨⟨_, _, _, rfl⟩, rfl, rfl⟩ h.sound.trace, ?_⟩
    exact h.paid.untouched ⟨rfl, rfl, rfl, rfl, rfl, rfl, rfl, rfl, rfl⟩ rfl
  · intro as w reply h hchosen hlen
    unfold Answered.Sent Answered.Leaving
    rw [Answered.movesFrom_concat, Nat.zero_add, ← hlen]
    exact Session.respond_output site h (hchosen.inside hwhole)
  · intro as w h hlen
    unfold Answered.Sent Answered.Leaving
    rw [Answered.movesFrom_concat, Nat.zero_add, ← hlen]
    exact Session.answerBadRequest_output site h

/-! ## Whole answers -/

theorem mem_transfers {trace : List Syscall} {asked : Nat} {ret : Option Nat} (h : (asked, ret) ∈ transfers trace) :
    ∃ fd, .sendfile fd asked ret ∈ trace := by
  obtain ⟨call, hcall, heq⟩ := List.mem_filterMap.mp h
  cases call with
  | sendfile fd asked' ret' =>
    simp only [Option.some.injEq, Prod.mk.injEq] at heq
    obtain ⟨rfl, rfl⟩ := heq
    exact ⟨fd, hcall⟩
  | _ => cases heq

/-- Where the file does not end early, all of its bytes are handed over. -/
theorem Handed.all {p : Piece} (h : Handed files p) (hanswers : ∀ a ∈ p.answers, a.Reads)
    (hcalls : ∀ call ∈ p.calls, call.2 ≠ some 0) : p.bytes = p.move.bytes files := by
  cases h with
  | send => rfl
  | whole => rfl
  | ended => exact absurd rfl (hcalls _ (List.mem_append_right _ List.mem_cons_self))
  | copied => rfl
  | cut _ _ _ hnot => exact absurd (hanswers _ (List.mem_append_right _ List.mem_cons_self)) hnot
  | shutdownWrite => rfl
  | writeEvent => rfl
  | close => rfl

theorem Delivered.all {answers : List Answer} (h : Delivered files answers moves w)
    (hanswers : ∀ a ∈ answers, a.Reads) (htrace : ∀ fd asked, .sendfile fd asked (some 0) ∉ w.trace) :
    w.wire <+: moves.flatMap (Move.bytes files) ∧
      (w.conn.closed = false → w.wire ++ unsent files w.conn = moves.flatMap (Move.bytes files)) := by
  obtain ⟨pieces, hmoves, hhanded, hcalls, rfl, hfront, hrest⟩ := h
  have hflat : flat pieces = moves.flatMap (Move.bytes files) := by
    rw [← hmoves, List.flatMap_map, flat, List.flatMap_def, List.flatMap_def]
    congr 1
    apply List.map_congr_left
    intro p hp
    apply (hhanded p hp).all
    · exact fun a ha => hanswers a (List.mem_flatMap.mpr ⟨p, hp, ha⟩)
    · rintro ⟨asked, ret⟩ hcall rfl
      have hall : (asked, some 0) ∈ transfers w.trace := hcalls ▸ List.mem_flatMap.mpr ⟨p, hp, hcall⟩
      obtain ⟨fd, hm⟩ := mem_transfers hall
      exact htrace fd asked hm
  rw [← hflat]
  exact ⟨hfront, hrest⟩

theorem Paid.all (h : Paid files moves w) (htrace : ∀ fd asked, .sendfile fd asked (some 0) ∉ w.trace) :
    w.wire <+: moves.flatMap (Move.bytes files) ∧
      (w.conn.closed = false → w.wire ++ unsent files w.conn = moves.flatMap (Move.bytes files)) := by
  obtain ⟨taken, htaken, h⟩ := h
  obtain ⟨answers, heq, hdelivered⟩ := h.delivered
  refine hdelivered.all (fun a ha => htaken a ?_) htrace
  rw [heq]
  exact List.mem_append_left _ ha

theorem Handing.all (h : Handing files moves w) (htrace : ∀ fd asked, .sendfile fd asked (some 0) ∉ w.trace) :
    w.wire <+: moves.flatMap (Move.bytes files) := by
  obtain ⟨made, ⟨later, rfl⟩, taken, htaken, h⟩ := h
  obtain ⟨answers, hpart, hdelivered⟩ := h.delivered
  have hall := hdelivered.all (fun a ha => htaken a (hpart.subset ha)) htrace
  rw [List.flatMap_append]
  exact hall.1.trans (List.prefix_append _ _)

end Myself
