import Patchbay.Engine.Basic

/-
Delivering messages.

A message that leaves a box goes where the wire leads, and what the box there sends in
turn is delivered before the next message of the first box: delivery is depth-first.
Pending steps wait on a stack, and where a step leads is looked up only when its turn
comes.  A message that has passed through too many boxes is dropped with a complaint,
so loops of message wires come to an end.

That the stack empties needs more than a count, since a box may send any number of
messages.  Every step is replaced by finitely many steps of smaller rank, where the
rank falls with the depth; `Unfolds` is that relation on stacks, and it is
well-founded by induction on the rank of the first step.
-/

namespace Patchbay

/-- A step of a delivery that is still to be made, and through how many boxes it came. -/
inductive Pending where
  | outlet (node outlet : Nat) (message : Message) (depth : Nat)
  | receiver (name : String) (message : Message) (depth : Nat)
  | inlet (node : Nat) (arrival : Arrival) (message : Message) (depth : Nat)

/-- Through how many boxes a message may pass. -/
def maxDepth : Nat := 1000

namespace Pending

/-- How far a step is from the depth limit. -/
def rank : Pending → Nat
  | .outlet _ _ _ depth => 2 * (maxDepth - depth) + 1
  | .receiver _ _ depth => 2 * (maxDepth - depth) + 1
  | .inlet _ _ _ depth => 2 * (maxDepth - depth)

/-- What a box sends becomes a pending step. -/
def ofEmission (node depth : Nat) : Emission → Pending
  | .outlet index m => .outlet node index m depth
  | .receiver name m => .receiver name m depth

theorem rank_ofEmission (node depth : Nat) (x : Emission) :
    (ofEmission node depth x).rank = 2 * (maxDepth - depth) + 1 := by
  cases x <;> rfl

/-- One stack comes from another by replacing its first step by steps of smaller rank. -/
def Unfolds (after before : List Pending) : Prop :=
  ∃ p rest next, before = p :: rest ∧ after = next ++ rest ∧ ∀ q ∈ next, q.rank < p.rank

private theorem acc_nil : Acc Unfolds [] :=
  Acc.intro _ fun _ ⟨_, _, _, h, _⟩ => nomatch h

/-- Steps that are accessible on top of any accessible stack stay so together. -/
private theorem acc_append {rest : List Pending} (hRest : Acc Unfolds rest) :
    ∀ next : List Pending, (∀ q ∈ next, ∀ s, Acc Unfolds s → Acc Unfolds (q :: s)) →
      Acc Unfolds (next ++ rest)
  | [], _ => hRest
  | q :: next, h =>
    h q (by simp) _ (acc_append hRest next fun r hr => h r (by simp [hr]))

private theorem acc_cons (n : Nat) :
    ∀ p : Pending, p.rank = n → ∀ rest, Acc Unfolds rest → Acc Unfolds (p :: rest) := by
  induction n using Nat.strongRecOn with
  | ind n ih =>
    intro p hp rest hRest
    refine Acc.intro _ fun after ⟨q, tail, next, hBefore, hAfter, hLess⟩ => ?_
    injection hBefore with hq hTail
    subst hq hTail hAfter
    exact acc_append hRest next fun r hr s hs => ih r.rank (hp ▸ hLess r hr) r rfl s hs

/-- Unfolding steps of a stack comes to an end. -/
theorem unfolds_wf : WellFounded Unfolds :=
  ⟨fun stack => by
    induction stack with
    | nil => exact acc_nil
    | cons p rest ih => exact acc_cons p.rank p rfl rest ih⟩

end Pending

namespace Engine

variable {κ : Type} [CustomKind κ]

/-- What a box sees of the engine when a message arrives. -/
def messageScope (e : Engine κ) (node : Nat) (kind : String) : MessageScope :=
  { node, kind, frame := e.frame, rendering := e.rendering, settings := e.settings,
    tables := e.tables }

/-- Let a box handle a message.  The inlet's observers see it first; what the box sends is the
answer. -/
def handle (e : Engine κ) (node : Nat) (arrival : Arrival) (m : Message) :
    List Emission × Engine κ :=
  match e.graph.nodes[node]? with
  | none => ([], e)
  | some n =>
    let e := match arrival with
      | .inlet inlet => e.onGraph fun g => g.observe node inlet m
      | .external => e
    let (object, reactions) := n.object.onMessage (e.messageScope node n.kind) arrival m
    let e := e.onGraph fun g => g.modifyNode node fun n => { n with object }
    (reactions.filterMap Reaction.emission?, e.log (reactions.filterMap Reaction.entry?))

/-- Make one pending step.  The answer is the steps that take its place. -/
def deliverStep (e : Engine κ) : Pending → List Pending × Engine κ
  | .outlet node outlet m depth =>
    match e.graph.messageTarget? node outlet with
    | some (target, inlet) => ([.inlet target (.inlet inlet) m depth], e)
    | none =>
      ([], e.log [.record .trace s!"dropped {m.text}"
        [("node", .count node), ("outlet", .count outlet)]])
  | .receiver name m depth =>
    let listeners := e.listeners name
    (listeners.map fun node => .inlet node .external m depth,
      e.log [.record .debug s!"send {m.text}"
        [("receiver", .text name), ("listeners", .count listeners.length)]])
  | .inlet node arrival m depth =>
    if depth < maxDepth then
      let (sent, e) := e.handle node arrival m
      (sent.map (Pending.ofEmission node (depth + 1)), e)
    else ([], e.log [.record .error "stack overflow" [("node", .count node)]])

/-- The steps that take the place of a step have a smaller rank. -/
theorem rank_deliverStep (e : Engine κ) (p : Pending) :
    ∀ q ∈ (e.deliverStep p).1, q.rank < p.rank := by
  intro q hq
  cases p with
  | outlet node outlet m depth =>
    simp only [deliverStep] at hq
    split at hq <;> simp_all [Pending.rank]
  | receiver name m depth =>
    simp only [deliverStep, List.mem_map] at hq
    obtain ⟨node, -, rfl⟩ := hq
    simp [Pending.rank]
  | inlet node arrival m depth =>
    simp only [deliverStep] at hq
    split at hq
    · next hDepth =>
      obtain ⟨x, -, rfl⟩ := List.mem_map.mp hq
      rw [Pending.rank_ofEmission]
      simp only [Pending.rank]
      omega
    · simp at hq

/-- Make all steps of a stack, the first one and everything it leads to before the next. -/
def deliver (e : Engine κ) : List Pending → Engine κ
  | [] => e
  | p :: rest =>
    let done := e.deliverStep p
    done.2.deliver (done.1 ++ rest)
termination_by stack => WellFounded.wrap Pending.unfolds_wf stack
decreasing_by
  exact ⟨p, rest, _, rfl, rfl, rank_deliverStep e p⟩

/-- Send a message to everyone who listens on a name. -/
def send (e : Engine κ) (name : String) (m : Message) : Engine κ :=
  e.deliver [.receiver name m 0]

/-- Send a message along the wire that leaves an outlet. -/
def emit (e : Engine κ) (node outlet : Nat) (m : Message) : Engine κ :=
  e.deliver [.outlet node outlet m 0]

end Engine

end Patchbay
