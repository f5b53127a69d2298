import Mathlib.Data.List.Sort
import Patchbay.Proofs.Agenda
import Patchbay.Proofs.Clock
import Patchbay.Proofs.Frame
import Patchbay.Proofs.Loading

/-
When scheduled actions run.

A place in the story of a run is a number, so an action that was scheduled can be named by the
place where that was: this is its ticket.  A frame calls a ticket up if it is the first
frame since the ticket was issued whose time is not before the ticket's.  What is proved is
that the actions that a frame takes out of the agenda are those of the tickets that it calls up,
earliest first and those of one time in the order of their numbers.

That each action runs once, and that none runs in the frame in which it was scheduled, is not
proved apart.  It is how calling up is defined: the first frame is one frame, and the number
of a ticket that is issued within a frame is greater than the place where the frame began.

The invariant is that the agenda holds the tickets that wait, the issued ones that no frame has
called up.  It speaks of the whole story so far, and each happening at its end keeps it.
-/

namespace Patchbay

/-! ### Places in a story -/

section Places

variable {κ : Type} {story told : List (Happening κ)} {place : Nat} {due : Float}
  {t : Ticket Action} {happening : Happening κ}

/-- The time of the frame that begins in an engine. -/
def Engine.nextTime (e : Engine κ) : Float :=
  e.settings.frameTime (e.frame + 1)

/-- At this place of a story a frame begins whose time is not before `due`. -/
def Reaches (story : List (Happening κ)) (place : Nat) (due : Float) : Prop :=
  ∃ b, story[place]? = some (.began b) ∧ due ≤ b.nextTime

/-- A ticket that was issued, and that no frame since has reached. -/
structure Waits (story : List (Happening κ)) (t : Ticket Action) : Prop where
  issued : story[t.number]? = some (.scheduled t.due t.action)
  unreached : ∀ place, t.number < place → ¬Reaches story place t.due

/-- The frame that begins at this place is the first one since the ticket was issued that reaches
it. -/
structure CallsUp (story : List (Happening κ)) (place : Nat) (t : Ticket Action) : Prop where
  issued : story[t.number]? = some (.scheduled t.due t.action)
  later : t.number < place
  reached : Reaches story place t.due
  first : ∀ earlier, t.number < earlier → earlier < place → ¬Reaches story earlier t.due

theorem Reaches.lt (h : Reaches story place due) : place < story.length := by
  obtain ⟨b, hBegan, -⟩ := h
  exact (List.getElem?_eq_some_iff.mp hBegan).1

theorem reaches_append (h : place < story.length) :
    Reaches (story ++ told) place due ↔ Reaches story place due := by
  rw [Reaches, Reaches, List.getElem?_append_left h]

theorem reaches_end :
    Reaches (story ++ [happening]) story.length due ↔
      ∃ b, happening = .began b ∧ due ≤ b.nextTime := by
  simp [Reaches]

/-- What is told later does not change what a frame calls up. -/
theorem callsUp_append (h : place < story.length) :
    CallsUp (story ++ told) place t ↔ CallsUp story place t := by
  constructor
  · rintro ⟨hIssued, hLater, hReached, hFirst⟩
    rw [List.getElem?_append_left (hLater.trans h)] at hIssued
    refine ⟨hIssued, hLater, (reaches_append h).mp hReached, fun earlier hAfter hBefore hReaches => ?_⟩
    exact hFirst earlier hAfter hBefore ((reaches_append (hBefore.trans h)).mpr hReaches)
  · rintro ⟨hIssued, hLater, hReached, hFirst⟩
    refine ⟨?_, hLater, (reaches_append h).mpr hReached, fun earlier hAfter hBefore hReaches => ?_⟩
    · rw [List.getElem?_append_left (hLater.trans h)]
      exact hIssued
    · exact hFirst earlier hAfter hBefore ((reaches_append (hBefore.trans h)).mp hReaches)

/-- A frame that begins now calls up what has waited and is due. -/
theorem callsUp_end {b : Engine κ} :
    CallsUp (story ++ [.began b]) story.length t ↔ Waits story t ∧ t.due ≤ b.nextTime := by
  constructor
  · rintro ⟨hIssued, hLater, hReached, hFirst⟩
    rw [List.getElem?_append_left hLater] at hIssued
    obtain ⟨b', hSame, hDue⟩ := reaches_end.mp hReached
    obtain rfl := Happening.began.inj hSame
    refine ⟨⟨hIssued, fun earlier hAfter hReaches => ?_⟩, hDue⟩
    exact hFirst earlier hAfter hReaches.lt ((reaches_append hReaches.lt).mpr hReaches)
  · rintro ⟨⟨hIssued, hUnreached⟩, hDue⟩
    have hLater : t.number < story.length := (List.getElem?_eq_some_iff.mp hIssued).1
    refine ⟨?_, hLater, reaches_end.mpr ⟨b, rfl, hDue⟩, fun earlier hAfter hBefore hReaches => ?_⟩
    · rw [List.getElem?_append_left hLater]
      exact hIssued
    · exact hUnreached earlier hAfter ((reaches_append hBefore).mp hReaches)

/-- Who waits after one more happening: who has waited or has just been issued a ticket, unless
a frame began that reaches it. -/
theorem waits_end : Waits (story ++ [happening]) t ↔
    (Waits story t ∨ t.number = story.length ∧ happening = .scheduled t.due t.action) ∧
      ∀ b, happening = .began b → ¬t.due ≤ b.nextTime := by
  constructor
  · rintro ⟨hIssued, hUnreached⟩
    rcases Nat.lt_or_ge t.number story.length with hLt | hGe
    · rw [List.getElem?_append_left hLt] at hIssued
      refine ⟨.inl ⟨hIssued, fun place hAfter hReaches => ?_⟩, fun b hBegan hDue => ?_⟩
      · exact hUnreached place hAfter ((reaches_append hReaches.lt).mpr hReaches)
      · exact hUnreached _ hLt (reaches_end.mpr ⟨b, hBegan, hDue⟩)
    · rw [List.getElem?_append_right hGe, List.getElem?_singleton] at hIssued
      split at hIssued
      · rename_i hNumber
        have hScheduled := Option.some.inj hIssued
        exact ⟨.inr ⟨by omega, hScheduled⟩, fun b hBegan => by simp [hBegan] at hScheduled⟩
      · simp at hIssued
  · rintro ⟨hWaits | ⟨hNumber, hScheduled⟩, hNotDue⟩
    · have hLt := (List.getElem?_eq_some_iff.mp hWaits.issued).1
      refine ⟨?_, fun place hAfter hReaches => ?_⟩
      · rw [List.getElem?_append_left hLt]
        exact hWaits.issued
      · rcases Nat.lt_or_ge place story.length with hBefore | hGe
        · exact hWaits.unreached place hAfter ((reaches_append hBefore).mp hReaches)
        · have hPlace := hReaches.lt
          rw [List.length_append, List.length_singleton] at hPlace
          obtain rfl : place = story.length := by omega
          obtain ⟨b, hBegan, hDue⟩ := reaches_end.mp hReaches
          exact hNotDue b hBegan hDue
    · refine ⟨?_, fun place hAfter hReaches => ?_⟩
      · rw [hNumber, List.getElem?_append_right (Nat.le_refl _), Nat.sub_self, hScheduled]
        rfl
      · have hPlace := hReaches.lt
        rw [List.length_append, List.length_singleton] at hPlace
        omega

/-- A ticket that some frame reaches is called up by one frame. -/
theorem existsUnique_callsUp {t : Ticket Action}
    (hIssued : story[t.number]? = some (.scheduled t.due t.action))
    (hReached : ∃ place, t.number < place ∧ Reaches story place t.due) :
    ∃! place, CallsUp story place t := by
  classical
  obtain ⟨hLater, hReaches⟩ := Nat.find_spec hReached
  refine ⟨Nat.find hReached, ⟨hIssued, hLater, hReaches, fun earlier hAfter hBefore hEarlier => ?_⟩,
    fun place h => ?_⟩
  · exact Nat.find_min hReached hBefore ⟨hAfter, hEarlier⟩
  · rcases Nat.lt_trichotomy place (Nat.find hReached) with hLt | hSame | hGt
    · exact absurd ⟨h.later, h.reached⟩ (Nat.find_min hReached hLt)
    · exact hSame
    · exact absurd hReaches (h.first _ hLater hGt)

end Places

/-! ### What the agenda holds -/

/-- A queue that has handed out more tickets holds the same. -/
theorem Agenda.Holds.issue {α : Type} {g : Agenda α} {q : Queue α} (h : g.Holds q) {n : Nat}
    (hn : q.issued ≤ n) : g.Holds { q with issued := n } :=
  ⟨h.toAscending, h.slotActions, h.covered, h.numbered,
    fun t ht => Nat.lt_of_lt_of_le (h.issued t ht) hn⟩

/-- The actions that a frame runs are those of the tickets that it calls up, in order. -/
def RunsCalledUp {κ : Type} (story : List (Happening κ)) (place : Nat) (b : Engine κ) : Prop :=
  ∃ order : List (Ticket Action), b.beginFrame.1 = order.map Ticket.action ∧
    order.Pairwise Ticket.Before ∧ ∀ t, t ∈ order ↔ CallsUp story place t

/-- No action of a story is scheduled for a time that is not a number. -/
def Timed {κ : Type} (story : List (Happening κ)) : Prop :=
  ∀ due action, .scheduled due action ∈ story → due.isNaN = false

theorem Timed.left {κ : Type} {story told : List (Happening κ)} (h : Timed (story ++ told)) :
    Timed story :=
  fun due action hMem => h due action (List.mem_append_left _ hMem)

theorem Timed.right {κ : Type} {story told : List (Happening κ)} (h : Timed (story ++ told)) :
    Timed told :=
  fun due action hMem => h due action (List.mem_append_right _ hMem)

/-- The agenda holds the tickets that wait, and every frame has run what it called up. -/
structure Kept {κ : Type} (story : List (Happening κ)) (g : Agenda Action) : Prop where
  waiting : ∃ q : Queue Action, g.Holds q ∧ q.issued = story.length ∧
    ∀ t, t ∈ q.pending ↔ Waits story t
  frames : ∀ place b, story[place]? = some (.began b) → RunsCalledUp story place b

namespace Kept

variable {κ : Type} {story told : List (Happening κ)} {g : Agenda Action}

theorem start : Kept ([] : List (Happening κ)) .empty := by
  refine ⟨⟨.empty, Agenda.holds_empty, rfl, fun t => ?_⟩, fun place b hBegan => by simp at hBegan⟩
  refine ⟨fun ht => by simp [Queue.empty] at ht, fun hWaits => ?_⟩
  have hIssued := hWaits.issued
  simp at hIssued

/-- One more happening. -/
theorem snoc (h : Kept story g) {happening : Happening κ} {g' : Agenda Action}
    (hWaiting : ∃ q : Queue Action, g'.Holds q ∧ q.issued = story.length + 1 ∧
      ∀ t, t ∈ q.pending ↔ Waits (story ++ [happening]) t)
    (hFrame : ∀ b, happening = .began b → RunsCalledUp (story ++ [happening]) story.length b) :
    Kept (story ++ [happening]) g' := by
  refine ⟨?_, fun place b hBegan => ?_⟩
  · rwa [List.length_append, List.length_singleton]
  · rcases Nat.lt_or_ge place story.length with hLt | hGe
    · rw [List.getElem?_append_left hLt] at hBegan
      obtain ⟨order, hBatch, hOrder, hCalled⟩ := h.frames place b hBegan
      refine ⟨order, hBatch, hOrder, fun t => ?_⟩
      rw [hCalled, callsUp_append hLt]
    · have hPlace := (List.getElem?_eq_some_iff.mp hBegan).1
      rw [List.length_append, List.length_singleton] at hPlace
      obtain rfl : place = story.length := by omega
      rw [List.getElem?_append_right (Nat.le_refl _), Nat.sub_self] at hBegan
      exact hFrame b (by simpa using hBegan)

theorem called (h : Kept story g) (call : Call) : Kept (story ++ [.called call]) g := by
  obtain ⟨q, hHolds, hIssued, hPending⟩ := h.waiting
  refine h.snoc ⟨{ q with issued := story.length + 1 }, hHolds.issue (by omega), rfl, fun t => ?_⟩
    (fun b hBegan => by simp at hBegan)
  rw [waits_end]
  simp [hPending]

theorem schedule (h : Kept story g) {due : Float} (hDue : due.isNaN = false) (action : Action) :
    Kept (story ++ [.scheduled due action]) (g.schedule due action) := by
  obtain ⟨q, hHolds, hIssued, hPending⟩ := h.waiting
  refine h.snoc ⟨q.schedule due action, hHolds.schedule hDue action, ?_, fun t => ?_⟩
    (fun b hBegan => by simp at hBegan)
  · rw [Queue.schedule, hIssued]
  · have hNew : t = ⟨story.length, due, action⟩ ↔
        t.number = story.length ∧ (.scheduled due action : Happening κ) = .scheduled t.due t.action := by
      obtain ⟨number, due', action'⟩ := t
      simp only [Ticket.mk.injEq, Happening.scheduled.injEq]
      rw [eq_comm (a := due), eq_comm (a := action)]
    rw [waits_end, Queue.schedule, List.mem_append, List.mem_singleton, hPending, hIssued, hNew]
    simp

theorem beginFrame {b : Engine κ} (h : Kept story b.agenda) :
    Kept (story ++ [.began b]) b.beginFrame.2.agenda := by
  obtain ⟨q, hHolds, hIssued, hPending⟩ := h.waiting
  obtain ⟨order, hStep, hBatch, hRest⟩ := hHolds.takeDue b.nextTime
  cases hStep with
  | takeDue hAll hOrder =>
      refine h.snoc ⟨{ q.leave b.nextTime with issued := story.length + 1 },
        hRest.issue (hIssued ▸ Nat.le_succ _), rfl, fun t => ?_⟩ (fun b' hSame => ?_)
      · rw [waits_end, Queue.leave, List.mem_filter, hPending]
        simp
      · obtain rfl := Happening.began.inj hSame
        refine ⟨order, hBatch, hOrder, fun t => ?_⟩
        rw [callsUp_end, hAll.mem_iff, Queue.dueAt, List.mem_filter, hPending, decide_eq_true_eq]

end Kept

namespace Engine

variable {κ : Type} [CustomKind κ] {e e' : Engine κ} {story told : List (Happening κ)}

theorem Beat.kept (hBeat : Beat e told e') (hTimed : Timed told) (h : Kept story e.agenda) :
    Kept (story ++ told) e'.agenda := by
  cases hBeat with
  | calm hCalm =>
      rw [List.append_nil, hCalm.work.agenda]
      exact h
  | call node arrival m hNode =>
      have hSame : (e.handle node arrival m).2.agenda = e.agenda :=
        (touches_handle e node arrival m).keeps (p := fun e' => e'.agenda = e.agenda)
          (fun _ _ hTouch hBefore => (Work.touch hTouch).agenda.trans hBefore) rfl
      rw [hSame]
      exact h.called _
  | schedule due action => exact h.schedule (hTimed due action (List.mem_singleton_self _)) action
  | beginFrame => exact h.beginFrame

theorem Tale.kept (hTale : Tale e told e') (hTimed : Timed told) (h : Kept story e.agenda) :
    Kept (story ++ told) e'.agenda := by
  induction hTale with
  | nil => rwa [List.append_nil]
  | snoc _ hBeat ih =>
      rw [← List.append_assoc]
      exact hBeat.kept hTimed.right (ih hTimed.left)

/-! ### While boxes are set up -/

omit [CustomKind κ] in
theorem kept_foldl {α : Type} {f : Engine κ → α → Engine κ}
    {tell : Engine κ → α → List (Happening κ)}
    (hStep : ∀ story e a, Timed (tell e a) → Kept story e.agenda →
      Kept (story ++ tell e a) (f e a).agenda) (l : List α) :
    ∀ story e, Timed (foldStory f tell l e) → Kept story e.agenda →
      Kept (story ++ foldStory f tell l e) (l.foldl f e).agenda := by
  induction l with
  | nil => intro story e _ h; rwa [foldStory, List.append_nil]
  | cons a l ih =>
      intro story e hTimed h
      rw [foldStory] at hTimed ⊢
      rw [← List.append_assoc]
      exact ih _ _ hTimed.right (hStep story e a hTimed.left h)

omit [CustomKind κ] in
theorem kept_grant (node : Nat) (story : List (Happening κ)) (e : Engine κ) (r : Request)
    (hTimed : Timed (requestStory r : List (Happening κ))) (h : Kept story e.agenda) :
    Kept (story ++ requestStory r) (grant node e r).agenda := by
  cases r with
  | schedule due action => exact h.schedule (hTimed due action (List.mem_singleton_self _)) action
  | constant inlet value => exact (List.append_nil story).symm ▸ h
  | listen name => exact (List.append_nil story).symm ▸ h
  | record entry => exact (List.append_nil story).symm ▸ h

theorem kept_initNode (story : List (Happening κ)) (e : Engine κ) (node : Nat)
    (hTimed : Timed (e.initStory node)) (h : Kept story e.agenda) :
    Kept (story ++ e.initStory node) (e.initNode node).agenda := by
  unfold initStory at hTimed ⊢
  unfold initNode
  cases hNode : e.graph.nodes[node]? with
  | none => rwa [List.append_nil]
  | some n =>
      simp only [hNode] at hTimed ⊢
      rw [← foldStory_const (grant node) requestStory _ (e.onGraph fun g => g.modifyNode node fun k =>
        { k with object := (n.object.init (e.initScope node n)).1 })] at hTimed ⊢
      exact kept_foldl (kept_grant node) _ _ _ hTimed h

theorem kept_load {source : String} (hLoad : e.load source = (.ok (), e'))
    (hTimed : Timed (e.loadStory source)) (h : Kept story e.agenda) :
    Kept (story ++ e.loadStory source) e'.agenda := by
  obtain ⟨resolved, entry, -, hSetup, rfl⟩ := load_ok hLoad
  rw [loadStory_eq hSetup] at hTimed ⊢
  refine kept_foldl kept_initNode _ _ (e.resolvedBy source resolved) hTimed ?_
  exact (unmoved_build e (Patch.read source)).agenda.symm ▸ h

/-! ### Frames keep time -/

/-- Every action that a story schedules consists of passive commands. -/
def Tame (story : List (Happening κ)) : Prop :=
  ∀ due action, .scheduled due action ∈ story → ∀ c ∈ action, c.isPassive = true

omit [CustomKind κ] in
theorem runsPassive_of_tame {place : Nat} {b : Engine κ} (h : RunsCalledUp story place b)
    (hTame : Tame story) : b.RunsPassive := by
  obtain ⟨order, hBatch, -, hCalled⟩ := h
  intro action hAction
  rw [hBatch] at hAction
  obtain ⟨t, ht, rfl⟩ := List.mem_map.mp hAction
  exact hTame _ _ (List.mem_of_getElem? ((hCalled t).mp ht).issued)

/-- The actions of a frame touch neither the output nor what the boxes have put out. -/
theorem untouched_of_passive {b : Engine κ} {actions : List Action}
    (h : ∀ action ∈ actions, ∀ c ∈ action, c.isPassive = true) :
    (actions.foldl (fun e action => runAction action e) b.beginFrame.2).output = b.output ∧
      ∀ n, (actions.foldl (fun e action => runAction action e) b.beginFrame.2).printAt n =
        b.printAt n := by
  refine foldl_runAction_keeps
    (p := fun e : Engine κ => e.output = b.output ∧ ∀ n, e.printAt n = b.printAt n)
    ?_ ?_ actions b.beginFrame.2 h ⟨rfl, fun _ => rfl⟩
  · rintro e e' hTouch ⟨hOutput, hPrints⟩
    refine ⟨Eq.trans ?_ hOutput, fun n => (hTouch.printAt n).trans (hPrints n)⟩
    cases hTouch <;> rfl
  · exact fun _ _ _ he => he

/-- How the frame that begins at a place of a story goes. -/
structure InTime (story : List (Happening κ)) (place : Nat) (b : Engine κ) : Prop where
  calledUp : RunsCalledUp story place b
  told : b.frameStory <+: story.drop place
  /-- The actions run, one after the other, and then the output is computed from silence. -/
  result : b.render =
    (b.beginFrame.1.foldl (fun e action => runAction action e) b.beginFrame.2).finishFrame
  /-- However many actions have run, the last frame is still there, output and boxes. -/
  untouched : ∀ run, run <+: b.beginFrame.1 →
    (run.foldl (fun e action => runAction action e) b.beginFrame.2).output = b.output ∧
      ∀ n, (run.foldl (fun e action => runAction action e) b.beginFrame.2).printAt n = b.printAt n

/-! ### Loadbangs -/

/-- The frame at this place is the first one from another place on. -/
def FirstFrom (story : List (Happening κ)) (start place : Nat) : Prop :=
  start ≤ place ∧ ∀ earlier, start ≤ earlier → earlier < place →
    ∀ b, story[earlier]? ≠ some (.began b)

omit [CustomKind κ] in
theorem exists_firstFrom {start place : Nat} {b : Engine κ} (hFrom : start ≤ place)
    (hBegan : story[place]? = some (.began b)) :
    ∃ first b', first ≤ place ∧ FirstFrom story start first ∧ story[first]? = some (.began b') := by
  classical
  have hSome : ∃ first, start ≤ first ∧ ∃ b', story[first]? = some (.began b') :=
    ⟨place, hFrom, b, hBegan⟩
  obtain ⟨hStart, b', hBegan'⟩ := Nat.find_spec hSome
  refine ⟨Nat.find hSome, b', Nat.find_min' hSome ⟨hFrom, b, hBegan⟩, ⟨hStart, ?_⟩, hBegan'⟩
  exact fun earlier hEarlier hLess b'' h => Nat.find_min hSome hLess ⟨hEarlier, b'', h⟩

/-- The tickets of bangs that were scheduled one after the other. -/
def bangTickets (start : Nat) (nodes : List Nat) : List (Ticket Action) :=
  nodes.mapIdx fun k i => ⟨start + k, 0, [.emit i 0 .bang]⟩

/-- How the bangs that were scheduled from a place on are rung. -/
structure RungOnce (story : List (Happening κ)) (start : Nat) (nodes : List Nat) : Prop where
  ascending : nodes.Pairwise (· < ·)
  issued : ∀ t ∈ bangTickets start nodes, story[t.number]? = some (.scheduled t.due t.action)
  /-- The first frame calls them up, and no other. -/
  first : ∀ place b, story[place]? = some (.began b) → ∀ t ∈ bangTickets start nodes,
    (CallsUp story place t ↔ FirstFrom story start place)
  /-- There they run in order. -/
  inOrder : ∀ place b, story[place]? = some (.began b) → FirstFrom story start place →
    (nodes.map fun i => [Command.emit i 0 .bang]).Sublist b.beginFrame.1

theorem pairwise_bangTickets (start : Nat) (nodes : List Nat) :
    (bangTickets start nodes).Pairwise Ticket.Before := by
  refine List.pairwise_iff_getElem.mpr fun i j hi hj hLt => ?_
  have hZero : ((0 : Float) == 0) = true := by decide +kernel
  simp only [bangTickets, List.getElem_mapIdx]
  exact .inr ⟨hZero, Nat.add_lt_add_left hLt start⟩

theorem action_bangTickets (start : Nat) (nodes : List Nat) :
    (bangTickets start nodes).map Ticket.action = nodes.map fun i => [Command.emit i 0 .bang] := by
  apply List.ext_getElem?
  intro k
  simp [bangTickets, Function.comp_def]

omit [CustomKind κ] in
/-- Bangs for the first instant, in a story whose next frame is not before that. -/
theorem rungOnce_of_issued {start : Nat} {nodes : List Nat}
    (hAscending : nodes.Pairwise (· < ·))
    (hIssued : ∀ t ∈ bangTickets start nodes,
      story[t.number]? = some (.scheduled t.due t.action))
    (hStill : ∀ place, start ≤ place → place < start + nodes.length →
      ∀ b, story[place]? ≠ some (.began b))
    (hClock : ∀ place b, FirstFrom story start place → story[place]? = some (.began b) →
      0 ≤ b.nextTime)
    (hFrames : ∀ place b, story[place]? = some (.began b) → RunsCalledUp story place b) :
    RungOnce story start nodes := by
  have hTicket : ∀ t ∈ bangTickets start nodes,
      start ≤ t.number ∧ t.number < start + nodes.length ∧ t.due = 0 := by
    intro t ht
    obtain ⟨k, hk, rfl⟩ := List.mem_mapIdx.mp ht
    exact ⟨Nat.le_add_right _ _, Nat.add_lt_add_left hk _, rfl⟩
  have hFirst : ∀ place b, story[place]? = some (.began b) → ∀ t ∈ bangTickets start nodes,
      (CallsUp story place t ↔ FirstFrom story start place) := by
    intro place b hBegan t ht
    obtain ⟨hStart, hEnd, hDue⟩ := hTicket t ht
    -- No frame begins while the bangs are issued, so from then on is from the ticket on.
    constructor
    · rintro ⟨-, hLater, -, hBefore⟩
      refine ⟨hStart.trans (Nat.le_of_lt hLater), fun earlier hFrom hLess b' hBegan' => ?_⟩
      obtain ⟨first, b'', hLe, hFirstFrom, hBegan''⟩ := exists_firstFrom hFrom hBegan'
      rcases Nat.lt_or_ge first (start + nodes.length) with hLt | hGe
      · exact hStill first hFirstFrom.1 hLt b'' hBegan''
      · refine hBefore first (Nat.lt_of_lt_of_le hEnd hGe) (Nat.lt_of_le_of_lt hLe hLess)
          ⟨b'', hBegan'', ?_⟩
        rw [hDue]
        exact hClock first b'' hFirstFrom hBegan''
    · rintro ⟨hFrom, hNone⟩
      have hLater : t.number < place := Nat.lt_of_not_le fun hLe =>
        hStill place hFrom (Nat.lt_of_le_of_lt hLe hEnd) b hBegan
      refine ⟨hIssued t ht, hLater, ⟨b, hBegan, ?_⟩, fun earlier hAfter hLess hReaches => ?_⟩
      · rw [hDue]
        exact hClock place b ⟨hFrom, hNone⟩ hBegan
      · obtain ⟨b', hBegan', -⟩ := hReaches
        exact hNone earlier (hStart.trans (Nat.le_of_lt hAfter)) hLess b' hBegan'
  refine ⟨hAscending, hIssued, hFirst, fun place b hBegan hFirstFrom => ?_⟩
  obtain ⟨order, hBatch, hOrder, hCalled⟩ := hFrames place b hBegan
  have hPairwise := pairwise_bangTickets start nodes
  have hSub : (bangTickets start nodes).Subperm order :=
    List.subperm_of_subset (Agenda.nodup_of_before hPairwise) fun t ht =>
      (hCalled t).mpr ((hFirst place b hBegan t ht).mpr hFirstFrom)
  have : Std.Antisymm (Ticket.Before (α := Action)) :=
    ⟨fun _ _ hBefore hAfter => absurd hAfter hBefore.asymm⟩
  rw [hBatch, ← action_bangTickets start]
  exact (List.sublist_of_subperm_of_pairwise hSub hPairwise hOrder).map _

/-- The first frame after a load follows the frame that the load has left. -/
theorem steady_of_firstFrom {before loading after : List (Happening κ)} {place : Nat} {b : Engine κ}
    (hAfter : Tale e after e') (hLoading : Still loading)
    (hFirst : FirstFrom (before ++ (loading ++ after)) before.length place)
    (hBegan : (before ++ (loading ++ after))[place]? = some (.began b)) :
    e.Steady b ∧ b.frame = e.frame := by
  obtain ⟨k, rfl⟩ := Nat.exists_eq_add_of_le hFirst.1
  rw [List.getElem?_append_right (Nat.le_add_right _ _), Nat.add_sub_cancel_left] at hBegan
  have hLoaded : loading.length ≤ k := by
    refine Nat.le_of_not_lt fun hLt => ?_
    rw [List.getElem?_append_left hLt] at hBegan
    exact hLoading b (List.mem_of_getElem? hBegan)
  obtain ⟨n, rfl⟩ := Nat.exists_eq_add_of_le hLoaded
  rw [List.getElem?_append_right (Nat.le_add_right _ _), Nat.add_sub_cancel_left] at hBegan
  have hTale : Tale e (after.take n) b := hAfter.of_began hBegan
  have hStill : Still (after.take n) := by
    intro b' hMem
    obtain ⟨m, hm⟩ := List.mem_iff_getElem?.mp hMem
    have hLt : m < n := (List.getElem?_eq_some_iff.mp hm).1.trans_le (List.length_take_le _ _)
    rw [List.getElem?_take_of_lt hLt] at hm
    refine hFirst.2 (before.length + (loading.length + m)) (Nat.le_add_right _ _) (by omega) b' ?_
    rw [List.getElem?_append_right (Nat.le_add_right _ _), Nat.add_sub_cancel_left,
      List.getElem?_append_right (Nat.le_add_right _ _), Nat.add_sub_cancel_left]
    exact hm
  exact ⟨hTale.steady, hTale.frame_eq hStill⟩

/-- The loadbangs of a patch ring once. -/
theorem rungOnce_load {before after : List (Happening κ)} {e₀ e₁ : Engine κ} {source : String}
    (hLive : e₀.Live) (hLoad : e₀.load source = (.ok (), e₁)) (hAfter : Tale e₁ after e)
    (hRate : e₀.settings.sampleRate ≠ 0) (hWord : e₀.settings.sampleRate < twoTo 64)
    (hCount : e₁.frame + 1 < twoTo 64)
    (hFrames : ∀ place b, (before ++ (e₀.loadStory source ++ after))[place]? = some (.began b) →
      RunsCalledUp (before ++ (e₀.loadStory source ++ after)) place b) :
    RungOnce (before ++ (e₀.loadStory source ++ after)) before.length e₁.graph.loadbangs := by
  have hStory := loadStory_builtin hLive.sound.registry (hLive.empty_of_load hLoad) hLoad
  have hStill := still_loadStory e₀ source
  have hPlace : ∀ k, k < e₁.graph.loadbangs.length →
      (before ++ (e₀.loadStory source ++ after))[before.length + k]? =
        (e₀.loadStory source)[k]? := by
    intro k hk
    rw [List.getElem?_append_right (Nat.le_add_right _ _), Nat.add_sub_cancel_left,
      List.getElem?_append_left]
    rwa [hStory, List.length_map]
  refine rungOnce_of_issued e₁.graph.pairwise_loadbangs (fun t ht => ?_)
    (fun place hFrom hLess b hBegan => ?_) (fun place b hFirstFrom hBegan => ?_) hFrames
  · obtain ⟨k, hk, rfl⟩ := List.mem_mapIdx.mp ht
    rw [hPlace k hk, hStory, List.getElem?_map, List.getElem?_eq_getElem hk]
    rfl
  · obtain ⟨k, rfl⟩ := Nat.exists_eq_add_of_le hFrom
    rw [hPlace k (Nat.lt_of_add_lt_add_left hLess)] at hBegan
    exact hStill b (List.mem_of_getElem? hBegan)
  · obtain ⟨hSteady, hFrame⟩ := steady_of_firstFrom hAfter hStill hFirstFrom hBegan
    have hSettings : b.settings = e₀.settings := hSteady.settings.trans (settings_load hLoad)
    rw [nextTime, hSettings, hFrame]
    exact e₀.settings.zero_le_frameTime hRate hWord (Nat.succ_pos _) hCount

/--
**Every action runs in the first frame that reaches its time, and in no other.**  The actions
that a frame runs are those of the tickets that it calls up, earliest first and those of one
time in the order in which they were scheduled; they run before the output is computed.  In
particular every `loadbang` of a built-in patch rings in the first frame after the load,
in the order of the boxes, and never again.
-/
theorem actions_run_in_time {settings : Settings} {registry : Registry κ}
    {before after story : List (Happening κ)} {e₀ e₁ e : Engine κ} {source : String}
    (hBefore : Run (.new settings registry) before e₀) (hLoad : e₀.load source = (.ok (), e₁))
    (hAfter : Run e₁ after e) (hStory : story = before ++ (e₀.loadStory source ++ after))
    (hTimed : Timed story) (hTame : Tame story) :
    (∀ place b, story[place]? = some (.began b) → InTime story place b) ∧
      (∀ t : Ticket Action, story[t.number]? = some (.scheduled t.due t.action) →
        (∃ place, t.number < place ∧ Reaches story place t.due) →
          ∃! place, CallsUp story place t) ∧
      (registry = .builtin → settings.sampleRate ≠ 0 → settings.sampleRate < twoTo 64 →
        e₁.frame + 1 < twoTo 64 → RungOnce story before.length e₁.graph.loadbangs) := by
  subst hStory
  have hKept : Kept (before ++ (e₀.loadStory source ++ after)) e.agenda := by
    have hStart : Kept before e₀.agenda := hBefore.tale.kept hTimed.left .start
    have hLoaded := kept_load hLoad hTimed.right.left hStart
    rw [← List.append_assoc]
    exact hAfter.tale.kept hTimed.right.right hLoaded
  have hPassive : ∀ b, .began b ∈ before ++ (e₀.loadStory source ++ after) → b.RunsPassive := by
    intro b hBegan
    obtain ⟨place, hPlace⟩ := List.mem_iff_getElem?.mp hBegan
    exact runsPassive_of_tame (hKept.frames place b hPlace) hTame
  have hTold : ToldInFull (before ++ (e₀.loadStory source ++ after)) := by
    refine (hBefore.toldInFull fun b hb => hPassive b (List.mem_append_left _ hb)).append
      ((toldInFull_of_still (still_loadStory e₀ source)).append ?_)
    exact hAfter.toldInFull fun b hb =>
      hPassive b (List.mem_append_right _ (List.mem_append_right _ hb))
  refine ⟨fun place b hBegan => ?_, fun t => existsUnique_callsUp, ?_⟩
  · refine ⟨hKept.frames place b hBegan, hTold place b hBegan, render_eq b, fun run hRun => ?_⟩
    exact untouched_of_passive fun action hAction =>
      hPassive b (List.mem_of_getElem? hBegan) action (hRun.subset hAction)
  · rintro rfl hRate hWord hCount
    have hSettings : e₀.settings = settings := hBefore.tale.steady.settings
    exact rungOnce_load (hBefore.tale.live (.new settings)) hLoad hAfter.tale
      (hSettings ▸ hRate) (hSettings ▸ hWord) hCount hKept.frames

/-- Whether a happening schedules nothing. -/
def schedulesNone : Happening Empty → Bool
  | .scheduled _ _ => false
  | _ => true

theorem actions_run_in_time_chime :
    ∃ story, InTime story 1 chime ∧ [[Command.emit 1 0 .bang]].Sublist chime.beginFrame.1 := by
  have hLoad := load_chime
  have hChime : chime.frame = 0 ∧ chime.graph.loadbangs = [1] ∧
      (chime.story (.render 1)).all schedulesNone = true := by
    decide +kernel
  -- From here on only the load and these facts matter, and not what the engine looks like.
  generalize chime = e at hLoad hChime ⊢
  obtain ⟨hFrame, hBangs, hQuiet⟩ := hChime
  have hLoading : (Engine.new .standard .builtin : Engine Empty).loadStory chimePatch =
      [.scheduled 0 [.emit 1 0 .bang]] := by
    rw [loadStory_builtin (e := Engine.new .standard .builtin) rfl rfl hLoad, hBangs]
    rfl
  have hStart : Run (Engine.new .standard .builtin : Engine Empty) [] (.new .standard .builtin) :=
    .start
  have hRun := actions_run_in_time hStart hLoad (.perform .start (.render 1)) rfl
  rw [hLoading, hBangs, List.nil_append, List.singleton_append, List.nil_append] at hRun
  have hAction : ∀ due action, .scheduled due action ∈
      .scheduled 0 [.emit 1 0 .bang] :: e.story (.render 1) →
        due = 0 ∧ action = [.emit 1 0 .bang] := by
    intro due action h
    rcases List.mem_cons.mp h with hSame | hLater
    · exact Happening.scheduled.inj hSame
    · have hNone := List.all_eq_true.mp hQuiet _ hLater
      simp [schedulesNone] at hNone
  obtain ⟨hInTime, -, hRung⟩ := hRun
    (fun due action h => (hAction due action h).1 ▸ by decide +kernel)
    (fun due action h => (hAction due action h).2 ▸ by decide)
  have hOnce := hRung rfl (by decide) (by decide) (hFrame ▸ by decide)
  have hBegan : (.scheduled 0 [.emit 1 0 .bang] :: e.story (.render 1))[1]? =
      some (.began e) := by
    simp [story, commandStory, commandFrames, nextFrames, frameStory, frameStoryWith]
  refine ⟨_, hInTime 1 e hBegan, hOnce.inOrder 1 e hBegan ⟨Nat.zero_le _, ?_⟩⟩
  intro earlier _ hLess b
  obtain rfl : earlier = 0 := by omega
  simp

end Engine

end Patchbay
