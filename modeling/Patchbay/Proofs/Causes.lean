import Patchbay.Proofs.Delivery
import Patchbay.Proofs.Firing
import Patchbay.Proofs.Lasting

/-
Right comes before left, with everything that comes of it.

The boxes `trigger`, `unpack` and `swap` answer one message with several, from the last outlet
to the first.  What somebody who draws a patch counts on is more than that order: all that
comes of the message on the right has happened when anything comes of the one on the left.
The cascades may run through the same boxes, also through the one that they started from,
so what comes of which message cannot be told from the calls alone.

A `Marked` delivery keeps books of that.  Every step that waits and every call that was made
has a mark, and what takes the place of a step has the mark of that step.  With the marks
erased it is the loop, turn by turn.  The one thing to prove about it is that marks that
stand in an order on the calls and the stack behind them stay in that order, because a turn
puts a row of equal marks where one of them stood.  This knows nothing of the graph, of
depth or of boxes.  A box that fans out starts with marks in falling order.
-/

namespace Patchbay

/-- A row of equals in the place of one of them leaves a list in order. -/
theorem pairwise_replicate_append {α : Type} {R : α → α → Prop} {l r : List α} {a : α}
    (hSelf : R a a) (h : (l ++ a :: r).Pairwise R) (n : Nat) :
    (l ++ (List.replicate n a ++ r)).Pairwise R := by
  obtain ⟨hl, hHead, hAcross⟩ := List.pairwise_append.mp h
  obtain ⟨ha, hr⟩ := List.pairwise_cons.mp hHead
  have hRow : (List.replicate n a).Pairwise R := List.pairwise_replicate.mpr (.inr hSelf)
  refine List.pairwise_append.mpr ⟨hl, List.pairwise_append.mpr ⟨hRow, hr, ?_⟩, ?_⟩
  · intro b hb c hc
    rw [List.eq_of_mem_replicate hb]
    exact ha c hc
  · intro b hb c hc
    rcases List.mem_append.mp hc with hc | hc
    · rw [List.eq_of_mem_replicate hc]
      exact hAcross b hb a List.mem_cons_self
    · exact hAcross b hb c (List.mem_cons_of_mem a hc)

namespace Engine

variable {κ : Type} [CustomKind κ]

/-! ### Marked deliveries -/

/-- A delivery under way in which every step that is still to be made and every call that was
made has a mark. -/
structure Marked (κ ι : Type) where
  engine : Engine κ
  stack : List (ι × Pending)
  calls : List (ι × Call)

namespace Marked

variable {ι : Type}

/-- The delivery without the marks. -/
def plain (d : Marked κ ι) : Pass κ :=
  ⟨d.engine, d.stack.map Prod.snd, d.calls.map Prod.snd⟩

/-- All marks, those of the calls first. -/
def marks (d : Marked κ ι) : List ι :=
  d.calls.map Prod.fst ++ d.stack.map Prod.fst

/-- One turn of the loop.  What comes of a step has its mark: the steps that take its place, and
the call if it is one. -/
def next (d : Marked κ ι) : Marked κ ι :=
  match d.stack with
  | [] => d
  | (i, p) :: rest =>
    ⟨(d.engine.deliverStep p).2, (d.engine.deliverStep p).1.map (i, ·) ++ rest,
      d.calls ++ (Pass.callsOf d.engine p).map (i, ·)⟩

/-- Without the marks it is a turn of the loop. -/
theorem plain_next (d : Marked κ ι) : d.next.plain = d.plain.next := by
  obtain ⟨e, stack, calls⟩ := d
  cases stack with
  | nil => rfl
  | cons top rest => simp [next, plain, Pass.next, Function.comp_def]

theorem plain_iterate (n : Nat) (d : Marked κ ι) :
    (next^[n] d).plain = Pass.next^[n] d.plain := by
  induction n generalizing d with
  | zero => rfl
  | succ n ih => rw [Function.iterate_succ_apply, ih, plain_next, Function.iterate_succ_apply]

/-- **A turn keeps the marks in order.** -/
theorem pairwise_marks_next {R : ι → ι → Prop} (hRefl : ∀ i, R i i) {d : Marked κ ι}
    (h : d.marks.Pairwise R) : d.next.marks.Pairwise R := by
  obtain ⟨e, stack, calls⟩ := d
  cases stack with
  | nil => exact h
  | cons top rest =>
      obtain ⟨i, p⟩ := top
      have hMarks : (next ⟨e, (i, p) :: rest, calls⟩).marks = calls.map Prod.fst ++
          (List.replicate ((Pass.callsOf e p).length + (e.deliverStep p).1.length) i ++
            rest.map Prod.fst) := by
        rw [← List.replicate_append_replicate]
        simp [next, marks, Function.comp_def, - List.replicate_append_replicate]
      rw [hMarks]
      exact pairwise_replicate_append (hRefl i) h _

theorem pairwise_marks_iterate {R : ι → ι → Prop} (hRefl : ∀ i, R i i) (n : Nat)
    {d : Marked κ ι} (h : d.marks.Pairwise R) : (next^[n] d).marks.Pairwise R := by
  induction n generalizing d with
  | zero => exact h
  | succ n ih =>
      rw [Function.iterate_succ_apply]
      exact ih (pairwise_marks_next hRefl h)

/-- A delivery comes to an end, marked or not. -/
theorem exists_iterate_stack_eq_nil (d : Marked κ ι) : ∃ n, (next^[n] d).stack = [] := by
  obtain ⟨n, hn⟩ := passes_all (d.stack.map Prod.snd) (fun p _ => passes p.rank p rfl)
    ⟨d.engine, d.calls.map Prod.snd⟩ []
  refine ⟨n, ?_⟩
  have hPlain := congrArg Pass.stack (plain_iterate n d)
  rw [List.append_nil] at hn
  have hEmpty : ((next^[n] d).stack.map Prod.snd) = [] := hPlain.trans (congrArg Pass.stack hn)
  exact List.map_eq_nil_iff.mp hEmpty

/-- A marked delivery that has come to its end leaves what delivering the steps leaves. -/
theorem engine_eq_deliver {d : Marked κ ι} {start : Pass κ} {n : Nat}
    (hPlain : d.plain = Pass.next^[n] start) (hEmpty : d.stack = []) :
    d.engine = start.engine.deliver start.stack := by
  have hDeliver := Pass.deliver_iterate n start
  rw [← hPlain] at hDeliver
  simpa [plain, hEmpty, deliver] using hDeliver

end Marked

end Engine

/-! ### Boxes that fan out -/

/-- Messages for outlets by number, as they are sent. -/
def outletsOf (outs : List (Nat × Message)) : List Emission :=
  outs.map fun (k, m) => .outlet k m

/-- What is sent goes through outlets, each at most once, from the right to the left. -/
def Falls (emissions : List Emission) (outs : List (Nat × Message)) : Prop :=
  emissions = outletsOf outs ∧ (outs.map Prod.fst).Pairwise (· > ·)

theorem falls_nil : Falls [] [] := ⟨rfl, .nil⟩

/-- Things that send through the outlets of their numbers or not at all send through some of
these outlets, in their order. -/
theorem exists_outletsOf_map {α : Type} {f : α × Nat → Reaction}
    (hOwn : ∀ p x, (f p).emission? = some x → ∃ m, x = .outlet p.2 m) (ps : List (α × Nat)) :
    ∃ outs, sent (ps.map f) = outletsOf outs ∧
      (outs.map Prod.fst).Sublist (ps.map Prod.snd) := by
  induction ps with
  | nil => exact ⟨[], rfl, .slnil⟩
  | cons p ps ih =>
      obtain ⟨outs, hOuts, hSub⟩ := ih
      cases hSent : (f p).emission? with
      | none =>
          refine ⟨outs, ?_, hSub.cons _⟩
          rw [List.map_cons, sent, List.filterMap_cons_none hSent]
          exact hOuts
      | some x =>
          obtain ⟨m, rfl⟩ := hOwn p x hSent
          refine ⟨(p.2, m) :: outs, ?_, hSub.cons_cons _⟩
          rw [List.map_cons, sent, List.filterMap_cons_some hSent]
          exact congrArg _ hOuts

/-- Places that are gone through from the last to the first, each of which sends through its own
outlet or not at all. -/
theorem exists_falls_of_zipIdx {α : Type} (l : List α) {f : α × Nat → Reaction}
    (hOwn : ∀ p x, (f p).emission? = some x → ∃ m, x = .outlet p.2 m) :
    ∃ outs, Falls (sent (l.zipIdx.reverse.map f)) outs := by
  obtain ⟨outs, hOuts, hSub⟩ := exists_outletsOf_map hOwn l.zipIdx.reverse
  have hFalling : (l.zipIdx.reverse.map Prod.snd).Pairwise (· > ·) := by
    rw [List.map_reverse, List.zipIdx_map_snd, List.pairwise_reverse]
    exact List.pairwise_lt_range'
  exact ⟨outs, hOuts, hFalling.sublist hSub⟩

section Kinds

variable (scope : MessageScope) (m : Message)

theorem Trigger.falls (s : Trigger) :
    ∃ outs, Falls (sent (s.onMessage scope (.inlet 0) m).2) outs := by
  refine exists_falls_of_zipIdx s.conversions fun p x hx => ?_
  simp only [Trigger.fireOutlet] at hx
  split at hx
  · exact ⟨_, (Option.some.inj hx).symm⟩
  · exact nomatch hx

theorem Unpack.falls (s : Unpack) :
    ∃ outs, Falls (sent (s.onMessage scope (.inlet 0) m).2) outs := by
  refine exists_falls_of_zipIdx (s.slots.zip m.elements) fun p x hx => ?_
  simp only [Unpack.fireOutlet] at hx
  split at hx
  · exact ⟨_, (Option.some.inj hx).symm⟩
  · exact ⟨_, (Option.some.inj hx).symm⟩
  · exact nomatch hx

theorem Swap.falls (s : Swap) :
    ∃ outs, Falls (sent (s.onMessage scope (.inlet 0) m).2) outs := by
  have hBoth : ∀ s : Swap, ∃ outs, Falls (sent s.result.2) outs := fun s =>
    ⟨[(1, .number s.left), (0, .number s.right)], rfl, by simp⟩
  simp only [Swap.onMessage]
  split
  · exact hBoth _
  · split
    · exact hBoth s
    · exact ⟨[], falls_nil⟩

end Kinds

namespace Object

variable {κ : Type}

/-- The boxes that answer one message through several outlets. -/
def fansOut : Object κ → Bool
  | .trigger _ | .unpack _ | .swap _ => true
  | _ => false

/-- **A box that fans out sends from the right to the left.** -/
theorem falls_onMessage [CustomKind κ] (scope : MessageScope) (m : Message) {o : Object κ}
    (h : o.fansOut = true) : ∃ outs, Falls (sent (o.onMessage scope (.inlet 0) m).2) outs := by
  cases o with
  | trigger s => exact s.falls scope m
  | unpack s => exact s.falls scope m
  | swap s => exact s.falls scope m
  | _ => exact nomatch h

end Object

namespace Engine

variable {κ : Type} [CustomKind κ] {e : Engine κ}

/-- What the box that a message reaches sends. -/
theorem fst_handle {node : Nat} {n : Node κ} (hNode : e.graph.nodes[node]? = some n)
    (arrival : Arrival) (m : Message) : (e.handle node arrival m).1 =
      sent (n.object.onMessage (e.messageScope node n.kind) arrival m).2 := by
  unfold handle
  rw [hNode]
  cases arrival <;> rfl

/-! ### Fanning out -/

/-- Of two marks, not the one of a left outlet before the one of a right outlet.  What comes of
neither has no mark, and may stand anywhere. -/
def RightFirst (a b : Option Nat) : Prop :=
  ∀ j i, a = some j → b = some i → i ≤ j

theorem rightFirst_self (a : Option Nat) : RightFirst a a := by
  rintro j i hj hi
  exact (Option.some.inj (hi.symm.trans hj)).le

/-- A delivery in which a box has just been called at its first inlet.  What it sent is marked
with the outlets; its own call, the calls before and the steps behind have no mark. -/
def fanned (e : Engine κ) (node : Nat) (m : Message) (depth : Nat) (outs : List (Nat × Message))
    (rest : List Pending) (calls : List Call) : Marked κ (Option Nat) :=
  ⟨(e.handle node (.inlet 0) m).2,
    outs.map (fun (k, out) => (some k, .outlet node k out (depth + 1))) ++ rest.map (none, ·),
    (calls ++ e.callsAt node (.inlet 0) m).map (none, ·)⟩

/-- Without the marks, it is what the loop has come to. -/
theorem plain_fanned {node depth : Nat} {m : Message} {outs : List (Nat × Message)}
    (hSends : (e.handle node (.inlet 0) m).1 = outletsOf outs) (hDepth : depth < maxDepth)
    (rest : List Pending) (calls : List Call) :
    (e.fanned node m depth outs rest calls).plain =
      Pass.next ⟨e, .inlet node (.inlet 0) m depth :: rest, calls⟩ := by
  simp [fanned, Marked.plain, Pass.next, deliverStep, Pass.callsOf, hDepth, hSends, outletsOf,
    Function.comp_def, Pending.ofEmission]

/-- Its marks fall. -/
theorem pairwise_marks_fanned {node depth : Nat} {m : Message} {outs : List (Nat × Message)}
    (hFalls : (outs.map Prod.fst).Pairwise (· > ·)) (rest : List Pending) (calls : List Call) :
    (e.fanned node m depth outs rest calls).marks.Pairwise RightFirst := by
  have hMarks : (e.fanned node m depth outs rest calls).marks =
      List.replicate (calls ++ e.callsAt node (.inlet 0) m).length none ++
        ((outs.map Prod.fst).map some ++ List.replicate rest.length none) := by
    simp [fanned, Marked.marks, Function.comp_def]
  have hNone : ∀ n, (List.replicate n (none : Option Nat)).Pairwise RightFirst :=
    fun n => List.pairwise_replicate.mpr (.inr (rightFirst_self none))
  have hBefore : ∀ n, ∀ a ∈ List.replicate n (none : Option Nat), ∀ b, RightFirst a b := by
    rintro n a ha b j i rfl
    exact nomatch List.eq_of_mem_replicate ha
  have hBehind : ∀ n, ∀ b ∈ List.replicate n (none : Option Nat), ∀ a, RightFirst a b := by
    rintro n b hb a j i - rfl
    exact nomatch List.eq_of_mem_replicate hb
  rw [hMarks]
  refine List.pairwise_append.mpr ⟨hNone _, List.pairwise_append.mpr ⟨?_, hNone _, ?_⟩, ?_⟩
  · refine List.pairwise_map.mpr (hFalls.imp fun hLess j i hj hi => ?_)
    rw [← Option.some.inj hj, ← Option.some.inj hi]
    exact hLess.le
  · exact fun a _ b hb => hBehind _ b hb a
  · exact fun a ha b _ => hBefore _ a ha b

/-- A box has sent through outlets what it had to say about a message at its first inlet, and the
delivery goes on. -/
structure FansOut (e : Engine κ) (node : Nat) (m : Message) (depth : Nat) (rest : List Pending)
    (calls : List Call) (outs : List (Nat × Message)) : Prop where
  /-- It has sent at most one message through each outlet, from the right to the left. -/
  falls : Falls (e.handle node (.inlet 0) m).1 outs
  /-- The marked delivery is the loop at any time. -/
  loop : ∀ n, (Marked.next^[n] (e.fanned node m depth outs rest calls)).plain =
    Pass.next^[n + 1] ⟨e, .inlet node (.inlet 0) m depth :: rest, calls⟩
  /-- Of two calls that come of what it sent, the one on the right has been made first. -/
  ordered : ∀ n, (Marked.next^[n] (e.fanned node m depth outs rest calls)).calls.Pairwise
    fun call later => RightFirst call.1 later.1
  /-- It comes to an end, with the engine that delivering the message leaves. -/
  ends : ∃ n, (Marked.next^[n] (e.fanned node m depth outs rest calls)).stack = [] ∧
    (Marked.next^[n] (e.fanned node m depth outs rest calls)).engine =
      e.deliver (.inlet node (.inlet 0) m depth :: rest)

/--
**All that comes of a message on the right is done before anything comes of one on the left.**
Take any engine with any graph and a `trigger`, `unpack` or `swap` in it, in any state, and let
any message reach its first inlet in the course of any delivery, with any steps waiting behind
it.  The box sends through its outlets from the right to the left, through each at most once.
Mark these messages with their outlets, and let what comes of a marked step have its mark.  At
any time, no call that comes of the message of an outlet has been made before one that comes of
the message of an outlet further right, whichever boxes are called; and the delivery ends, with
the engine that `deliver` gives.
-/
theorem right_before_left (e : Engine κ) {node : Nat} {n : Node κ}
    (hNode : e.graph.nodes[node]? = some n) (hFans : n.object.fansOut = true) (m : Message)
    {depth : Nat} (hDepth : depth < maxDepth) (rest : List Pending) (calls : List Call) :
    ∃ outs, e.FansOut node m depth rest calls outs := by
  obtain ⟨outs, hFalls⟩ := Object.falls_onMessage (e.messageScope node n.kind) m hFans
  rw [← fst_handle hNode] at hFalls
  have hLoop : ∀ k, (Marked.next^[k] (e.fanned node m depth outs rest calls)).plain =
      Pass.next^[k + 1] ⟨e, .inlet node (.inlet 0) m depth :: rest, calls⟩ := fun k => by
    rw [Marked.plain_iterate, plain_fanned hFalls.1 hDepth, Function.iterate_succ_apply]
  refine ⟨outs, hFalls, hLoop, fun k => ?_, ?_⟩
  · have hStart : (e.fanned node m depth outs rest calls).marks.Pairwise RightFirst :=
      pairwise_marks_fanned hFalls.2 rest calls
    have hMarks := Marked.pairwise_marks_iterate rightFirst_self k hStart
    exact List.pairwise_map.mp (List.pairwise_append.mp hMarks).1
  · obtain ⟨k, hEmpty⟩ := Marked.exists_iterate_stack_eq_nil (e.fanned node m depth outs rest calls)
    exact ⟨k, hEmpty, Marked.engine_eq_deliver (hLoop k) hEmpty⟩

/-- A `trigger` whose left outlet leads back to itself, with a number box on the right. -/
def feedbackPatch : String :=
  "#X obj 0 0 trigger b f;\n#X obj 0 0 float;\n#X connect 0 0 0 0;\n#X connect 0 1 1 0;\n"

def feedback : Engine Empty :=
  loadedFrom .standard .builtin feedbackPatch

theorem right_before_left_feedback :
    feedback.graph.messageTarget? 0 0 = some (0, 0) ∧
      feedback.graph.messageTarget? 0 1 = some (1, 0) ∧
      ∃ n, feedback.graph.nodes[0]? = some n ∧ n.object.fansOut = true ∧ 0 < maxDepth ∧
        ∃ outs, feedback.FansOut 0 (.number 1) 0 [] [] outs := by
  have hThere : (feedback.graph.nodes[0]?.any fun n => n.object.fansOut) = true := by
    decide +kernel
  obtain ⟨n, hNode, hFans⟩ := Option.any_eq_true _ _ |>.mp hThere
  exact ⟨by decide +kernel, by decide +kernel, n, hNode, hFans, by decide,
    right_before_left feedback hNode hFans (.number 1) (by decide) [] []⟩

end Engine

end Patchbay
