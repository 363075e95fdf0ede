import MyselfServer.SessionFlow

/-!
# What a connection has read

The reads of a connection bring its input in pieces. `Books` lists what an
invariant over the pieces has to survive to hold in every run
(`Books.reached`): in one form between two callbacks, and in a weaker one
where the loop thread is in a call.
-/

namespace Myself

open Text Prog

def piecesOf (reads : List ReadAnswer) : List Bytes :=
  reads.filterMap fun
    | .data bytes => some bytes
    | _ => none

theorem piecesOf_append (reads reads' : List ReadAnswer) :
    piecesOf (reads ++ reads') = piecesOf reads ++ piecesOf reads' := List.filterMap_append

def SiteEvent.answers : SiteEvent → Answers
  | .ready _ answers => answers
  | .runFunctor answers => answers
  | .idleTimeout => {}
  | .forceClose => {}
  | .takeFunctors => {}
  | .worker _ => {}

structure Receiving where
  serving : Serving
  pieces : List Bytes := []

variable {site : Site} {I J : List Bytes → World Session → Prop} {reads : List ReadAnswer} {pieces : List Bytes}
  {w w' : World Session}

/-- The answers in front of those that are left were used. -/
def Since (reads : List ReadAnswer) (pieces : List Bytes) (I : List Bytes → World Session → Prop)
    (w : World Session) : Prop :=
  ∃ used, reads = used ++ w.reads ∧ I (pieces ++ piecesOf used) w

theorem Since.start (h : I pieces w) : Since w.reads pieces I w := by
  have hnil : pieces ++ piecesOf [] = pieces := List.append_nil _
  exact ⟨[], rfl, by rw [hnil]; exact h⟩

/-- What does not read has used no answers. -/
theorem Since.keep {p : Prog (World Session) Unit} (hkeeps : Keeps World.reading p)
    (hp : ∀ pieces w, I pieces w → wp p (fun _ w' => I pieces w') (J pieces) w) (h : Since reads pieces I w) :
    wp p (fun _ w' => Since reads pieces I w') (Since reads pieces J) w := by
  obtain ⟨used, heq, hi⟩ := h
  refine wp_mono (wp_and hkeeps.wp (hp _ _ hi)) ?_ ?_
  · rintro _ w' ⟨hreading, hi'⟩
    have hreads : w'.reads = w.reads := congrArg Prod.fst hreading
    exact ⟨used, by rw [hreads]; exact heq, hi'⟩
  · rintro w' ⟨hreading, hj⟩
    have hreads : w'.reads = w.reads := congrArg Prod.fst hreading
    exact ⟨used, by rw [hreads]; exact heq, hj⟩

/-- What an invariant over the pieces has to survive, `C` being what the
kernel and the workers are taken to do. -/
structure Books (site : Site) (C : Answers → Prop) (I J : List Bytes → World Session → Prop) : Prop where
  stuck : ∀ {pieces w}, I pieces w → J pieces w
  give : ∀ {pieces w answers}, C answers → I pieces w → I pieces (answers.give w)
  callback : ∀ {reads pieces w} cb, Since reads pieces I w →
    wp (TcpConnection.callback Session.closeCallback (Session.messageCallback site) cb)
      (fun _ w' => Since reads pieces I w') (Since reads pieces J) w
  swap : ∀ {pieces w}, I pieces w → I pieces (w.mapApp Session.swapFunctors)
  functor : ∀ {pieces w reply functors answers}, C answers → I pieces w → w.app.functors = reply :: functors →
    wp (Session.respond site reply) (fun _ w' => I pieces w') (J pieces)
      (answers.give (w.mapApp fun app => { app with functors := functors }))
  worker : ∀ {pieces w} move, I pieces w → I pieces (w.mapApp fun app => app.workerMove site move)
  workerStuck : ∀ {pieces w} move, J pieces w → J pieces (w.mapApp fun app => app.workerMove site move)

namespace Receiving

def received (s : Receiving) : Bytes := s.pieces.flatten

def readBy (e : SiteEvent) (s : Serving) : List Bytes :=
  piecesOf (e.answers.reads.take (e.answers.reads.length - s.world.reads.length))

def step (site : Site) (s : Receiving) (e : SiteEvent) : Option Receiving :=
  (s.serving.step site e).map fun serving => ⟨serving, s.pieces ++ readBy e serving⟩

/-- The invariant holds between two callbacks, and its weak form always. -/
structure Fits (I J : List Bytes → World Session → Prop) (s : Receiving) : Prop where
  stuck : J s.pieces s.serving.world
  settled : s.serving.waiting = false → I s.pieces s.serving.world

variable {s s' s₀ : Receiving} {C : Answers → Prop}

theorem readBy_none {e : SiteEvent} (h : e.answers.reads = []) (serving : Serving) : readBy e serving = [] := by
  rw [readBy, h, List.take_nil]
  rfl

theorem run_world (p : Prog (World Session) Unit) (w : World Session) : (Serving.run p w).world = (p w).world := by
  unfold Serving.run
  cases p w with
  | returned _ _ => rfl
  | waits _ => rfl

theorem fits_of_wp {p : Prog (World Session) Unit} (hstuck : ∀ {pieces w}, I pieces w → J pieces w)
    (h : wp p (fun _ w' => Since reads pieces I w') (Since reads pieces J) w) :
    Fits I J ⟨Serving.run p w,
      pieces ++ piecesOf (reads.take (reads.length - (Serving.run p w).world.reads.length))⟩ := by
  have hused : ∀ used left : List ReadAnswer,
      (used ++ left).take ((used ++ left).length - left.length) = used := by
    intro used left
    rw [List.length_append, Nat.add_sub_cancel, List.take_left]
  unfold wp at h
  unfold Serving.run
  cases hp : p w with
  | returned u w' =>
    rw [hp] at h
    obtain ⟨used, hreads, hi⟩ := h
    refine ⟨?_, fun _ => ?_⟩
    · rw [hreads, hused]
      exact hstuck hi
    · rw [hreads, hused]
      exact hi
  | waits w' =>
    rw [hp] at h
    obtain ⟨used, hreads, hj⟩ := h
    refine ⟨?_, fun hw => Bool.noConfusion hw⟩
    rw [hreads, hused]
    exact hj

/-- The connection is closed, from the loop. -/
theorem fits_close (hb : Books site C I J) {p : Prog (World Session) Unit} (hkeeps : Keeps World.reading p)
    (hp : wp p (fun _ w' => Since w.reads pieces I w') (Since w.reads pieces J) w) :
    Fits I J ⟨Serving.run p w, pieces⟩ := by
  have hfits := fits_of_wp (fun hi => hb.stuck hi) hp
  have hreads : (Serving.run p w).world.reads = w.reads := by
    rw [run_world]
    exact congrArg Prod.fst (hkeeps w)
  have hnil : pieces ++ piecesOf [] = pieces := List.append_nil _
  rw [hreads, Nat.sub_self, List.take_zero, hnil] at hfits
  exact hfits

end Receiving

namespace Books

variable {C : Answers → Prop}

theorem event (hb : Books site C I J) (h : Since reads pieces I w) (revents : Mask) :
    wp (TcpConnection.dispatch Session.closeCallback (Session.messageCallback site) revents)
      (fun _ w' => Since reads pieces I w') (Since reads pieces J) w := by
  have hcallbacks : ∀ cbs w, Since reads pieces I w →
      wp (TcpConnection.callbacks Session.closeCallback (Session.messageCallback site) cbs)
        (fun _ w' => Since reads pieces I w') (Since reads pieces J) w := by
    intro cbs
    induction cbs with
    | nil => exact fun w hw => hw
    | cons cb cbs ih =>
      intro w hw
      unfold TcpConnection.callbacks
      rw [wp_bind]
      exact wp_mono (hb.callback cb hw) (fun _ w' hw' => ih w' hw') (fun _ hi => hi)
  unfold TcpConnection.dispatch
  rw [wp_bind, wp_world]
  split
  · exact hcallbacks _ w h
  · exact h

variable {s s' s₀ : Receiving}

/-- **Every step keeps the books.** -/
theorem step (hb : Books site C I J) (h : s.Fits I J) {e : SiteEvent} (hc : C e.answers)
    (hs : Receiving.step site s e = some s') : s'.Fits I J := by
  obtain ⟨serving, hserving, rfl⟩ := Option.map_eq_some_iff.mp hs
  have hloop : s.serving.atLoop = true → I s.pieces s.serving.world := by
    intro hat
    unfold Serving.atLoop at hat
    rw [Bool.and_eq_true, Bool.not_eq_true'] at hat
    exact h.settled hat.1
  have hkeeps := TcpConnection.handleClose_keeps Session.closeCallback_keeps
  have hclose : ∀ {w : World Session}, I s.pieces w →
      wp (TcpConnection.handleClose Session.closeCallback) (fun _ w' => Since w.reads s.pieces I w')
        (Since w.reads s.pieces J) w := fun hi => hb.callback .close (Since.start hi)
  cases e with
  | ready revents answers =>
    simp only [Serving.step] at hserving
    split at hserving
    · rename_i hat
      cases hserving
      exact Receiving.fits_of_wp (fun hi => hb.stuck hi) (hb.event (Since.start (hb.give hc (hloop hat))) revents)
    · cases hserving
  | idleTimeout =>
    simp only [Serving.step] at hserving
    split at hserving
    · rename_i hat
      cases hserving
      rw [Receiving.readBy_none rfl, List.append_nil]
      refine Receiving.fits_close hb ?_ ?_
      · exact Keeps.bind Keeps.world fun _ => Keeps.ite (Keeps.pure _) hkeeps
      · unfold TcpConnection.handleIdleTimeout
        rw [wp_bind, wp_world]
        split
        · exact Since.start (hloop hat)
        · exact hclose (hloop hat)
    · cases hserving
  | forceClose =>
    simp only [Serving.step] at hserving
    split at hserving
    · rename_i hat
      cases hserving
      rw [Receiving.readBy_none rfl, List.append_nil]
      exact Receiving.fits_close hb hkeeps (hclose (hloop hat))
    · cases hserving
  | takeFunctors =>
    simp only [Serving.step] at hserving
    split at hserving
    · rename_i hat
      cases hserving
      rw [Receiving.readBy_none rfl, List.append_nil]
      have hi := hb.swap (hloop hat)
      exact ⟨hb.stuck hi, fun _ => hi⟩
    · cases hserving
  | runFunctor answers =>
    simp only [Serving.step] at hserving
    split at hserving
    · cases hserving
    rename_i reply functors hfunctors
    by_cases hwaiting : s.serving.waiting = true
    · rw [if_pos hwaiting] at hserving
      cases hserving
    · rw [if_neg hwaiting] at hserving
      cases hserving
      have hopen : s.serving.waiting = false := by simpa using hwaiting
      have hreading := Session.respond_reading site reply
        (answers.give (s.serving.world.mapApp fun app => { app with functors := functors }))
      apply Receiving.fits_of_wp (fun hi => hb.stuck hi)
      have hnil : s.pieces ++ piecesOf [] = s.pieces := List.append_nil _
      refine wp_mono (wp_and hreading (hb.functor hc (h.settled hopen) hfunctors)) ?_ ?_
      · rintro _ w' ⟨hread, hi⟩
        exact ⟨[], (congrArg Prod.fst hread).symm, by rw [hnil]; exact hi⟩
      · rintro w' ⟨hread, hj⟩
        exact ⟨[], (congrArg Prod.fst hread).symm, by rw [hnil]; exact hj⟩
  | worker move =>
    cases hserving
    rw [Receiving.readBy_none rfl, List.append_nil]
    exact ⟨hb.workerStuck move h.stuck, fun hw => hb.worker move (h.settled hw)⟩

theorem reached (hb : Books site C I J) (h₀ : s₀.Fits I J)
    (h : Machine.Reached (Receiving.step site) (fun _ e => C e.answers) s₀ s) : s.Fits I J :=
  Machine.Reached.invariant h₀ (fun _ _ _ hi hc hs => hb.step hi hc hs) h

end Books

end Myself
