import Patchbay.Proofs.Change

/-
How deeply actions may set off one another is never felt.

Running an action recurses with a depth, because an action may render a frame in which
further actions are due.  The depth that is given is the number of actions that wait,
those inside others included.  That number never grows while a frame is rendered:
beginning a frame takes the due actions out, and performing them puts back at most
what they hold.  An action that runs is itself out of the count, so a frame that it
renders has strictly fewer actions left to set off.

Hence the depth covers every frame that can come up inside, and rendering is the plain
recursion that it stands for: `render_eq` has no depth in it.
-/

namespace Patchbay

/-! ### What waits -/

namespace Agenda

variable {α : Type}

/-- Scheduling adds the action and loses none. -/
theorem schedule_perm (g : Agenda α) (due : Float) (action : α) :
    (g.schedule due action).actions.Perm (action :: g.actions) := by
  unfold schedule
  simp only
  generalize partitionPoint (fun s => decide (s.due < due)) g.slots = place
  have hFresh : (Agenda.mk (g.slots.take place ++ ⟨due, [action]⟩ ::
      g.slots.drop place)).actions.Perm (action :: g.actions) := by
    have hSplit : g.actions = (g.slots.take place).flatMap Slot.actions ++
        (g.slots.drop place).flatMap Slot.actions := by
      rw [← List.flatMap_append, List.take_append_drop, actions]
    rw [hSplit]
    simp [actions]
  split
  · rename_i slot hSlot
    split
    · obtain ⟨hLt, rfl⟩ := List.getElem?_eq_some_iff.mp hSlot
      have hSplit : g.actions = (g.slots.take place).flatMap Slot.actions ++
          (g.slots[place].actions ++ (g.slots.drop (place + 1)).flatMap Slot.actions) := by
        conv_lhs => rw [actions, ← List.take_append_drop place g.slots]
        rw [List.flatMap_append, List.drop_eq_getElem_cons hLt, List.flatMap_cons]
      rw [hSplit, actions, List.set_eq_take_append_cons_drop, if_pos hLt]
      simp only [List.flatMap_append, List.flatMap_cons, List.append_assoc, List.cons_append,
        List.nil_append]
      rw [← List.append_assoc, ← List.append_assoc _ _ (List.flatMap _ _)]
      exact List.perm_middle
    · exact hFresh
  · exact hFresh

/-- Taking out what is due splits what waits. -/
theorem takeDue_actions (g : Agenda α) (now : Float) :
    (g.takeDue now).1 ++ (g.takeDue now).2.actions = g.actions := by
  simp only [takeDue, actions]
  rw [← List.flatMap_append, List.take_append_drop]

end Agenda

@[simp] theorem actionsWithin_append (cs ds : List Command) :
    actionsWithin (cs ++ ds) = actionsWithin cs + actionsWithin ds := by
  induction cs with
  | nil => simp [actionsWithin]
  | cons c cs ih =>
      rw [List.cons_append, actionsWithin, actionsWithin, ih]
      omega

/-- How many actions there are in a list, those inside other actions included. -/
def actionTotal (actions : List Action) : Nat :=
  actions.length + actionsWithin actions.flatten

@[simp] theorem actionTotal_nil : actionTotal [] = 0 := rfl

@[simp] theorem actionTotal_cons (action : Action) (actions : List Action) :
    actionTotal (action :: actions) = actionsWithin action + 1 + actionTotal actions := by
  simp only [actionTotal, List.length_cons, List.flatten_cons, actionsWithin_append]
  omega

@[simp] theorem actionTotal_append (actions others : List Action) :
    actionTotal (actions ++ others) = actionTotal actions + actionTotal others := by
  simp only [actionTotal, List.length_append, List.flatten_append, actionsWithin_append]
  omega

theorem actionTotal_perm {actions others : List Action} (h : actions.Perm others) :
    actionTotal actions = actionTotal others := by
  induction h with
  | nil => rfl
  | cons action _ ih => rw [actionTotal_cons, actionTotal_cons, ih]
  | swap action other actions =>
      simp only [actionTotal_cons]
      omega
  | trans _ _ ih₁ ih₂ => exact ih₁.trans ih₂

namespace Engine

variable {κ : Type}

theorem waitingActions_eq (e : Engine κ) : e.waitingActions = actionTotal e.agenda.actions := rfl

theorem waitingActions_schedule (e : Engine κ) (due : Float) (commands : Action) :
    (e.schedule due commands).waitingActions =
      e.waitingActions + (Command.schedule due commands).actionCount := by
  rw [waitingActions_eq, waitingActions_eq, Command.actionCount, schedule,
    actionTotal_perm (e.agenda.schedule_perm due commands), actionTotal_cons]
  omega

/-- Beginning a frame takes the due actions out of the count. -/
theorem waitingActions_beginFrame (e : Engine κ) :
    actionTotal e.beginFrame.1 + e.beginFrame.2.waitingActions = e.waitingActions := by
  have hSplit := e.agenda.takeDue_actions (e.settings.frameTime (e.frame + 1))
  rw [waitingActions_eq e, ← hSplit, actionTotal_append]
  rfl

variable [CustomKind κ]

/-- Nothing is put on the agenda within a frame unless an action asks for it. -/
theorem Work.agenda {e e' : Engine κ} (h : Work e e') : e'.agenda = e.agenda := by
  cases h with
  | touch h => cases h <;> rfl
  | process node =>
      unfold processNode
      split <;> rfl
  | silence => rfl
  | endFrame => rfl

theorem Work.waitingActions {e e' : Engine κ} (h : Work e e') :
    e'.waitingActions = e.waitingActions := by
  rw [waitingActions_eq, waitingActions_eq, h.agenda]

/-! ### The count never grows -/

section Growth

variable {render : Engine κ → Engine κ} {run : Action → Engine κ → Engine κ}

omit [CustomKind κ] in
theorem waitingActions_of_chain {e e' : Engine κ}
    (h : Chain (fun e e' : Engine κ => e'.waitingActions ≤ e.waitingActions) e e') :
    e'.waitingActions ≤ e.waitingActions :=
  h.keeps (p := fun e' : Engine κ => e'.waitingActions ≤ e.waitingActions)
    (fun _ _ hStep h => Nat.le_trans hStep h) (Nat.le_refl _)

/-- A command adds what it holds, if frames add nothing. -/
theorem waitingActions_performLogged (hRender : ∀ e, (render e).waitingActions ≤ e.waitingActions)
    (e : Engine κ) (c : Command) :
    (performLogged render e c).waitingActions ≤ e.waitingActions + c.actionCount := by
  by_cases hSchedule : ∃ due commands, c = .schedule due commands
  · obtain ⟨due, commands, rfl⟩ := hSchedule
    exact Nat.le_of_eq (waitingActions_schedule e due commands)
  · have hChain : Chain (fun e e' : Engine κ => e'.waitingActions ≤ e.waitingActions) e
        (performLogged render e c) :=
      performLogged_chain (fun _ _ hWork => Nat.le_of_eq hWork.waitingActions)
        (fun e => .single (hRender e)) c e fun due commands hEq => absurd ⟨due, commands, hEq⟩ hSchedule
    have hLe := waitingActions_of_chain hChain
    omega

theorem waitingActions_foldl_performLogged
    (hRender : ∀ e, (render e).waitingActions ≤ e.waitingActions) (commands : List Command) :
    ∀ e : Engine κ, (commands.foldl (performLogged render) e).waitingActions ≤
      e.waitingActions + actionsWithin commands := by
  induction commands with
  | nil => intro e; exact Nat.le_refl _
  | cons c commands ih =>
      intro e
      have hHead := waitingActions_performLogged hRender e c
      have hTail := ih (performLogged render e c)
      rw [List.foldl_cons, actionsWithin]
      omega

omit [CustomKind κ] in
theorem waitingActions_foldl_run
    (hRun : ∀ action e, (run action e).waitingActions ≤ e.waitingActions + actionsWithin action)
    (actions : List Action) :
    ∀ e : Engine κ, (actions.foldl (fun e action => run action e) e).waitingActions ≤
      e.waitingActions + actionTotal actions := by
  induction actions with
  | nil => intro e; exact Nat.le_refl _
  | cons action actions ih =>
      intro e
      have hHead := hRun action e
      have hTail := ih (run action e)
      rw [List.foldl_cons, actionTotal_cons]
      omega

/-- A frame adds nothing, if what runs in it adds what it holds. -/
theorem waitingActions_renderWith
    (hRun : ∀ action e, (run action e).waitingActions ≤ e.waitingActions + actionsWithin action)
    (e : Engine κ) : (renderWith run e).waitingActions ≤ e.waitingActions := by
  have hBegin := waitingActions_beginFrame e
  have hFold := waitingActions_foldl_run hRun e.beginFrame.1 e.beginFrame.2
  have hFinish := (works_finishFrame
      (e.beginFrame.1.foldl (fun e action => run action e) e.beginFrame.2)).keeps
    (p := fun e' : Engine κ => e'.waitingActions ≤ e.waitingActions)
    (fun _ _ hWork h => Nat.le_trans (Nat.le_of_eq hWork.waitingActions) h) (by omega)
  exact hFinish

theorem waitingActions_runWithin (depth : Nat) : ∀ (action : Action) (e : Engine κ),
    (runWithin depth action e).waitingActions ≤ e.waitingActions + actionsWithin action := by
  induction depth with
  | zero => intro action e; exact Nat.le_add_right _ _
  | succ depth ih =>
      intro action e
      exact waitingActions_foldl_performLogged (waitingActions_renderWith ih) action e

theorem waitingActions_render (e : Engine κ) : e.render.waitingActions ≤ e.waitingActions :=
  waitingActions_renderWith (waitingActions_runWithin _) e

end Growth

/-! ### Two ways of rendering that agree where they are used -/

section Agreement

variable {p : Engine κ → Prop} {render render' : Engine κ → Engine κ}

omit [CustomKind κ] in
theorem renderMany_congr (hSame : ∀ e, p e → render e = render' e)
    (hRender : ∀ e, p e → p (render e)) (n : Nat) :
    ∀ e, p e → renderMany render n e = renderMany render' n e := by
  induction n with
  | zero => intro e _; rfl
  | succ n ih =>
      intro e he
      rw [renderMany, renderMany, ← hSame e he, ih (render e) (hRender e he)]

omit [CustomKind κ] in
theorem repeat_congr (hSame : ∀ e, p e → render e = render' e)
    (hRender : ∀ e, p e → p (render e)) (n : Nat) {e : Engine κ} (he : p e) :
    Nat.repeat render n e = Nat.repeat render' n e ∧ p (Nat.repeat render n e) := by
  induction n with
  | zero => exact ⟨rfl, he⟩
  | succ n ih =>
      obtain ⟨hEq, hKept⟩ := ih
      exact ⟨by rw [Nat.repeat, Nat.repeat, ← hEq, hSame _ hKept], hRender _ hKept⟩

theorem driveRound_congr (hSame : ∀ e, p e → render e = render' e)
    (hRender : ∀ e, p e → p (render e)) (hTouch : ∀ e e', Touch e e' → p e → p e')
    {e : Engine κ} (he : p e) :
    driveRound render e = driveRound render' e ∧ p (driveRound render e).2 := by
  refine ⟨?_, ?_⟩
  · unfold driveRound
    rw [hSame e he]
  · unfold driveRound
    split
    · exact (touches_leave (render e) _ _).keeps hTouch (hRender e he)
    · exact (touches_leave e _ _).keeps hTouch he

theorem driveWithin_congr (hSame : ∀ e, p e → render e = render' e)
    (hRender : ∀ e, p e → p (render e)) (hTouch : ∀ e e', Touch e e' → p e → p e')
    (cap budget : Nat) : ∀ (frames : Nat) (e : Engine κ), p e →
      driveWithin render cap budget frames e = driveWithin render' cap budget frames e := by
  induction budget with
  | zero => intro frames e _; rw [driveWithin_zero, driveWithin_zero]
  | succ budget ih =>
      intro frames e he
      obtain ⟨hEq, hKept⟩ :=
        driveRound_congr hSame hRender hTouch ((touches_askSink e).keeps hTouch he)
      rw [driveWithin_succ, driveWithin_succ, ← hEq, ih _ _ hKept]

theorem performWith_congr (hSame : ∀ e, p e → render e = render' e)
    (hRender : ∀ e, p e → p (render e)) (hTouch : ∀ e e', Touch e e' → p e → p e')
    (c : Command) {e : Engine κ} (he : p e) :
    performWith render c e = performWith render' c e := by
  have hWrite : ∀ e, p e → writeWith render e = writeWith render' e := by
    intro e he
    unfold writeWith
    rw [driveWithin_congr hSame hRender hTouch _ _ _ e he]
  cases c with
  | render n => rw [performWith, performWith, renderMany_congr hSame hRender n e he]
  | skip n => rw [performWith, performWith, (repeat_congr hSame hRender n he).1]
  | play =>
      have hStarted : p ({ e with state := .running }.log [.info "Starting audio."]) :=
        (touches_drive e _ _ _ _).keeps hTouch he
      rw [performWith, performWith, playWith, playWith, hWrite _ hStarted]
  | write => rw [performWith, performWith, hWrite e he]
  | _ => rfl

end Agreement

/-- Ways of rendering that agree on up to `n` waiting actions run commands alike, if no more than
`n` come up. -/
theorem foldl_performLogged_congr {render render' : Engine κ → Engine κ} {n : Nat}
    (hSame : ∀ e, e.waitingActions ≤ n → render e = render' e)
    (hRender : ∀ e, (render e).waitingActions ≤ e.waitingActions) (commands : List Command) :
    ∀ e : Engine κ, e.waitingActions + actionsWithin commands ≤ n →
      commands.foldl (performLogged render) e = commands.foldl (performLogged render') e := by
  induction commands with
  | nil => intro e _; rfl
  | cons c commands ih =>
      intro e hBound
      rw [actionsWithin] at hBound
      have hHead := waitingActions_performLogged hRender e c
      have hEq : performLogged render e c = performLogged render' e c := by
        unfold performLogged
        rw [performWith_congr (p := fun e => e.waitingActions ≤ n) hSame
          (fun e he => Nat.le_trans (hRender e) he)
          (fun e e' hTouch he => (Work.touch hTouch).waitingActions ▸ he) c (by omega)]
      rw [List.foldl_cons, List.foldl_cons, ← hEq]
      exact ih _ (by omega)

/-- What runs in a frame starts from fewer waiting actions than the frame did. -/
theorem renderWith_congr {run run' : Action → Engine κ → Engine κ} {n : Nat}
    (hSame : ∀ action e, e.waitingActions + actionsWithin action < n →
      run action e = run' action e)
    (hRun : ∀ action e, (run action e).waitingActions ≤ e.waitingActions + actionsWithin action)
    {e : Engine κ} (hBound : e.waitingActions ≤ n) : renderWith run e = renderWith run' e := by
  have hFold : ∀ (actions : List Action) (e : Engine κ),
      e.waitingActions + actionTotal actions ≤ n →
      actions.foldl (fun e action => run action e) e =
        actions.foldl (fun e action => run' action e) e := by
    intro actions
    induction actions with
    | nil => intro e _; rfl
    | cons action actions ih =>
        intro e hBound
        rw [actionTotal_cons] at hBound
        have hHead := hRun action e
        rw [List.foldl_cons, List.foldl_cons, ← hSame action e (by omega)]
        exact ih _ (by omega)
  have hBegin := waitingActions_beginFrame e
  unfold renderWith
  simp only
  rw [hFold e.beginFrame.1 e.beginFrame.2 (by omega)]

/-! ### The depth does not show -/

theorem renderWith_runWithin_eq (depth : Nat) : ∀ (depth' : Nat) (e : Engine κ),
    e.waitingActions ≤ depth → e.waitingActions ≤ depth' →
      renderWith (runWithin depth) e = renderWith (runWithin depth') e := by
  induction depth with
  | zero =>
      intro depth' e h _
      exact renderWith_congr (fun _ _ hLess => absurd hLess (Nat.not_lt_zero _))
        (waitingActions_runWithin 0) h
  | succ depth ih =>
      intro depth' e h h'
      refine renderWith_congr ?_ (waitingActions_runWithin _) (Nat.le_refl _)
      intro action e₁ hLess
      cases depth' with
      | zero => omega
      | succ depth' =>
          refine foldl_performLogged_congr (n := e.waitingActions - 1) ?_
            (waitingActions_renderWith (waitingActions_runWithin depth)) action e₁ (by omega)
          intro e₂ hBound
          exact ih depth' e₂ (by omega) (by omega)

/-- Run the commands of an action, which may render frames of their own. -/
def runAction (action : Action) (e : Engine κ) : Engine κ :=
  action.foldl (performLogged render) e

/-- **Rendering a frame runs every due action in full**, whatever depth of nesting that takes. -/
theorem render_eq (e : Engine κ) : e.render = renderWith runAction e := by
  unfold render
  refine renderWith_congr ?_ (waitingActions_runWithin _) (Nat.le_refl _)
  intro action e₁ hLess
  obtain ⟨depth, hDepth⟩ : ∃ depth, e.waitingActions = depth + 1 := ⟨e.waitingActions - 1, by omega⟩
  rw [hDepth, runWithin]
  refine foldl_performLogged_congr (n := depth) ?_
    (waitingActions_renderWith (waitingActions_runWithin depth)) action e₁ (by omega)
  intro e₂ hBound
  exact renderWith_runWithin_eq depth _ e₂ hBound (Nat.le_refl _)

end Engine

end Patchbay
