import Mathlib.Logic.Function.Iterate
import Patchbay.Engine.Delivery

/-
Delivery is depth-first.

`deliver` works through a stack on which steps of many depths wait at once: the
siblings of a message, the siblings of the message that set it off, and so on down to
the first one.  Somebody who draws a patch thinks of something simpler.  A message
goes somewhere, all that comes of it happens, and only then is the next one looked
at.  `cascade` says that by recursion and knows no stack.

The two agree on everything that can be told from outside: the engine at the end, with
the states of the boxes, the constants of the inlets and the journal, and also which
message hooks were called, in which order.  The journal does not show the calls, so
`Pass.next` spells out one turn of the loop together with the calls made so far, and
agreement is stated about its repetition.

The induction is on the rank of a step, over any stack below it.  That a whole list of
siblings is worked off before what lies below is `passes_all`, and it is the only
place where the order of the stack matters.
-/

namespace Patchbay

/-- A message hook being called: of which box, and with what. -/
structure Call where
  node : Nat
  arrival : Arrival
  message : Message

namespace Engine

variable {κ : Type} [CustomKind κ]

/-- The call that a message at a box brings about.  A number without a box brings about none. -/
def callsAt (e : Engine κ) (node : Nat) (arrival : Arrival) (m : Message) : List Call :=
  if node < e.graph.size then [⟨node, arrival, m⟩] else []

/-! ### The reference -/

/-- What has come of a message: the engine afterwards, and the calls on the way. -/
structure Outcome (κ : Type) where
  engine : Engine κ
  calls : List Call

/-- One thing after the other. -/
def Outcome.andThen (o : Outcome κ) (f : Engine κ → Outcome κ) : Outcome κ :=
  ⟨(f o.engine).engine, o.calls ++ (f o.engine).calls⟩

/-- All that comes of a step, by recursion: a wire leads to one inlet, a name to its listeners in
order, and an inlet to whatever its box sends, each with all that comes of it. -/
def cascade (e : Engine κ) : Pending → Outcome κ
  | .outlet node outlet m depth =>
    match e.graph.messageTarget? node outlet with
    | some (target, inlet) => e.cascade (.inlet target (.inlet inlet) m depth)
    | none =>
      ⟨e.log [.record .trace s!"dropped {m.text}"
        [("node", .count node), ("outlet", .count outlet)]], []⟩
  | .receiver name m depth =>
    (e.listeners name).foldl
      (fun o node => o.andThen fun e => e.cascade (.inlet node .external m depth))
      ⟨e.log [.record .debug s!"send {m.text}"
        [("receiver", .text name), ("listeners", .count (e.listeners name).length)]], []⟩
  | .inlet node arrival m depth =>
    if depth < maxDepth then
      (e.handle node arrival m).1.foldl
        (fun o sent => o.andThen fun e => e.cascade (.ofEmission node (depth + 1) sent))
        ⟨(e.handle node arrival m).2, e.callsAt node arrival m⟩
    else ⟨e.log [.record .error "stack overflow" [("node", .count node)]], []⟩
termination_by p => p.rank
decreasing_by
  · simp [Pending.rank]
  · simp [Pending.rank]
  · rw [Pending.rank_ofEmission]
    simp only [Pending.rank]
    omega

/-- A row of steps, each with all that comes of it. -/
def cascades (o : Outcome κ) (steps : List Pending) : Outcome κ :=
  steps.foldl (fun o p => o.andThen fun e => e.cascade p) o

@[simp] theorem cascades_nil (o : Outcome κ) : cascades o [] = o := rfl

@[simp] theorem cascades_cons (o : Outcome κ) (p : Pending) (steps : List Pending) :
    cascades o (p :: steps) = cascades (o.andThen fun e => e.cascade p) steps := rfl

/-! ### The loop -/

/-- A delivery under way: the engine, the steps still to be made, and the calls made so far. -/
structure Pass (κ : Type) where
  engine : Engine κ
  stack : List Pending
  calls : List Call

namespace Pass

/-- A delivery that begins with one step. -/
def start (e : Engine κ) (p : Pending) : Pass κ := ⟨e, [p], []⟩

/-- A delivery that is over. -/
def done (o : Outcome κ) : Pass κ := ⟨o.engine, [], o.calls⟩

/-- The calls of one turn of the loop. -/
def callsOf (e : Engine κ) : Pending → List Call
  | .inlet node arrival m depth => if depth < maxDepth then e.callsAt node arrival m else []
  | _ => []

/-- One turn of the loop: the first step is replaced by the steps that it leads to.  Once the stack
is empty nothing happens any more. -/
def next (d : Pass κ) : Pass κ :=
  match d.stack with
  | [] => d
  | p :: rest =>
    ⟨(d.engine.deliverStep p).2, (d.engine.deliverStep p).1 ++ rest,
      d.calls ++ callsOf d.engine p⟩

/-- A turn does not change what the loop comes to. -/
theorem deliver_next (d : Pass κ) :
    d.next.engine.deliver d.next.stack = d.engine.deliver d.stack := by
  unfold next
  split
  · rfl
  · next p rest hStack => rw [hStack, deliver]

theorem deliver_iterate (n : Nat) (d : Pass κ) :
    (next^[n] d).engine.deliver (next^[n] d).stack = d.engine.deliver d.stack := by
  induction n generalizing d with
  | zero => rfl
  | succ n ih => rw [Function.iterate_succ_apply, ih, deliver_next]

end Pass

/-! ### They agree -/

/-- The reference, one step at a time: what a step leads to, each with all that comes of it. -/
theorem cascade_eq (e : Engine κ) (p : Pending) :
    e.cascade p = cascades ⟨(e.deliverStep p).2, Pass.callsOf e p⟩ (e.deliverStep p).1 := by
  cases p with
  | outlet node outlet m depth =>
      rw [cascade]
      cases hTarget : e.graph.messageTarget? node outlet with
      | none => simp [deliverStep, hTarget, Pass.callsOf]
      | some slot => simp [deliverStep, hTarget, Pass.callsOf, Outcome.andThen]
  | receiver name m depth =>
      rw [cascade]
      simp [deliverStep, Pass.callsOf, cascades, List.foldl_map]
  | inlet node arrival m depth =>
      rw [cascade]
      by_cases hDepth : depth < maxDepth
      · simp [deliverStep, hDepth, Pass.callsOf, cascades, List.foldl_map]
      · simp [deliverStep, hDepth, Pass.callsOf]

/-- Calls made earlier only stand in front. -/
theorem cascades_append_calls (steps : List Pending) :
    ∀ (e : Engine κ) (earlier calls : List Call),
      cascades ⟨e, earlier ++ calls⟩ steps =
        ⟨(cascades ⟨e, calls⟩ steps).engine, earlier ++ (cascades ⟨e, calls⟩ steps).calls⟩ := by
  induction steps with
  | nil => intro e earlier calls; rfl
  | cons p steps ih =>
      intro e earlier calls
      simp only [cascades_cons, Outcome.andThen, List.append_assoc]
      exact ih _ _ _

/-- The loop gets from one step on top of any stack to all that comes of it, with that stack left
over. -/
def Passes (κ : Type) [CustomKind κ] (p : Pending) : Prop :=
  ∀ (e : Engine κ) (rest : List Pending) (calls : List Call), ∃ n,
    Pass.next^[n] ⟨e, p :: rest, calls⟩ =
      ⟨(e.cascade p).engine, rest, calls ++ (e.cascade p).calls⟩

/-- A row of steps on top of a stack is worked off, in order, before the stack below is touched. -/
theorem passes_all (steps : List Pending) (hEach : ∀ p ∈ steps, Passes κ p) :
    ∀ (o : Outcome κ) (rest : List Pending), ∃ n,
      Pass.next^[n] ⟨o.engine, steps ++ rest, o.calls⟩ =
        ⟨(cascades o steps).engine, rest, (cascades o steps).calls⟩ := by
  induction steps with
  | nil => intro o rest; exact ⟨0, rfl⟩
  | cons p steps ih =>
      intro o rest
      obtain ⟨n, hFirst⟩ := hEach p (by simp) o.engine (steps ++ rest) o.calls
      obtain ⟨k, hOthers⟩ :=
        ih (fun q hq => hEach q (by simp [hq])) (o.andThen fun e => e.cascade p) rest
      refine ⟨k + n, ?_⟩
      rw [List.cons_append, Function.iterate_add_apply, hFirst, cascades_cons]
      exact hOthers

theorem passes (n : Nat) : ∀ p : Pending, p.rank = n → Passes κ p := by
  induction n using Nat.strongRecOn with
  | ind n ih =>
      intro p hRank e rest calls
      have hLess : ∀ q ∈ (e.deliverStep p).1, Passes κ q := fun q hq =>
        ih q.rank (hRank ▸ rank_deliverStep e p q hq) q rfl
      obtain ⟨k, hk⟩ :=
        passes_all _ hLess ⟨(e.deliverStep p).2, calls ++ Pass.callsOf e p⟩ rest
      refine ⟨k + 1, ?_⟩
      rw [Function.iterate_succ_apply]
      -- The first turn replaces the step; the others are those of the row it leads to.
      show Pass.next^[k] ⟨(e.deliverStep p).2, (e.deliverStep p).1 ++ rest,
        calls ++ Pass.callsOf e p⟩ = _
      rw [hk, cascades_append_calls, ← cascade_eq]

/-- The loop ends, and with it the delivery of one step, where the reference does. -/
def Settles (e : Engine κ) (p : Pending) (final : Engine κ) : Prop :=
  (∃ n, Pass.next^[n] (.start e p) = .done (e.cascade p)) ∧ final = (e.cascade p).engine

theorem settles_deliver (e : Engine κ) (p : Pending) : e.Settles p (e.deliver [p]) := by
  obtain ⟨n, hn⟩ := passes p.rank p rfl e [] []
  refine ⟨⟨n, hn⟩, ?_⟩
  have hLoop := Pass.deliver_iterate n (.start e p)
  rw [Pass.start, hn, deliver] at hLoop
  exact hLoop.symm

/--
**Delivery is depth-first.**  Sending to a name and sending along a wire end after
finitely many turns of the loop, on any graph and whatever the boxes send.  They leave
the engine that the recursion leaves, and have called the message hooks that it calls,
in its order.
-/
theorem send_emit_depth_first (e : Engine κ) :
    (∀ name m, e.Settles (.receiver name m 0) (e.send name m)) ∧
      ∀ node outlet m, e.Settles (.outlet node outlet m 0) (e.emit node outlet m) :=
  ⟨fun _ _ => settles_deliver e _, fun _ _ _ => settles_deliver e _⟩

end Engine

end Patchbay
