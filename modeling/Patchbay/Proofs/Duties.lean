import Patchbay.Proofs.Builtin

/-
What a box asks of the engine while it is set up.

Setting up, a box may ask for anything that a `Request` says.  The built-in kinds ask for
little.  An oscillator or a signal operator gives its first argument to one of its inlets,
if that is a number; a `loadbang` puts a bang on the agenda; and what the others ask for,
to listen on a name or to note something, moves neither an inlet nor the agenda.  Which of
these a box does is its `Duty`, and it shows in the kind as it is written.
-/

namespace Patchbay

/-- What a box does to its inlets or to the agenda while it is set up. -/
inductive Duty where
  | nothing
  /-- Give the first argument, if it is a number, to an inlet. -/
  | seed (inlet : Nat)
  /-- Schedule a bang for the first frame. -/
  | bang
  deriving DecidableEq

/-- The duty of boxes that are written as a kind. -/
def Duty.ofKind (kind : String) : Duty :=
  if kind = "osc~" ∨ kind = "phasor~" then .seed 0
  else if kind = "+~" ∨ kind = "-~" ∨ kind = "*~" ∨ kind = "/~" then .seed 1
  else if kind = "loadbang" then .bang
  else .nothing

/-- What a duty asks for. -/
def Duty.requests (scope : InitScope) : Duty → List Request
  | .nothing => []
  | .seed inlet => seedInlet scope inlet
  | .bang => bangAtStart scope

/-- Whether a request is about an inlet or about the agenda. -/
def Request.weighs : Request → Bool
  | .constant .. => true
  | .schedule .. => true
  | .listen _ => false
  | .record _ => false

namespace Object

variable {κ : Type}

def duty : Object κ → Duty
  | .osc _ => .seed 0
  | .phasor _ => .seed 0
  | .signalBinop _ => .seed 1
  | .loadbang => .bang
  | _ => .nothing

variable [CustomKind κ]

theorem filter_seedInlet (scope : InitScope) (inlet : Nat) :
    (seedInlet scope inlet).filter Request.weighs = seedInlet scope inlet := by
  unfold seedInlet
  split <;> rfl

/-- A built-in object asks for what its duty is, and for nothing else that weighs. -/
theorem filter_init (scope : InitScope) {o : Object κ} (h : o.isBuiltin = true) :
    (o.init scope).2.filter Request.weighs = o.duty.requests scope := by
  cases o with
  | custom k => simp [isBuiltin] at h
  | osc s => exact filter_seedInlet scope 0
  | phasor s => exact filter_seedInlet scope 0
  | signalBinop s => exact filter_seedInlet scope 1
  | tableReader s =>
      change (s.init scope).2.filter _ = []
      unfold TableReader.init
      split
      · rfl
      · split <;> rfl
  | receive s =>
      change (s.init scope).2.filter _ = []
      unfold Receive.init
      split <;> rfl
  | _ => rfl

/-- Adjusting the slots changes no duty. -/
theorem duty_preinit (args : List String) (layout : Layout) {o : Object κ}
    (h : o.isBuiltin = true) : (o.preinit args layout).1.duty = o.duty := by
  cases o with
  | custom k => simp [isBuiltin] at h
  | _ => rfl

end Object

namespace Registry

variable {κ : Type}

/-- What the boxes of a declaration do is what its name says. -/
def Dutiful (d : KindDecl κ) : Prop :=
  ∀ args, (d.make args).1.duty = .ofKind d.name

theorem dutiful_builtinKinds : ∀ d ∈ (builtinKinds : List (KindDecl κ)), Dutiful d := by
  simp only [builtinKinds, structuralKinds, signalKinds, controlKinds, SignalOp.all, Operator.all,
    List.map_cons, List.map_nil, List.forall_mem_append, List.forall_mem_cons, List.not_mem_nil,
    false_implies, implies_true, and_true]
  and_intros
  all_goals exact fun _ => rfl

/-- Aliases lead from and to kinds without duties. -/
theorem ofKind_of_alias : ∀ pair ∈ builtinAliases, Duty.ofKind pair.1 = Duty.ofKind pair.2 := by
  decide

/-- Every kind with a duty is declared. -/
theorem exists_of_duty {kind : String} (h : Duty.ofKind kind ≠ .nothing) :
    ∃ d ∈ (builtinKinds : List (KindDecl κ)), d.name = kind := by
  have hNames : kind ∈ (builtinKinds : List (KindDecl κ)).map KindDecl.name := by
    unfold Duty.ofKind at h
    split at h
    · rename_i hKind
      rcases hKind with rfl | rfl <;> simp [builtinKinds, signalKinds]
    · split at h
      · rename_i hKind
        rcases hKind with rfl | rfl | rfl | rfl <;> simp [builtinKinds, signalKinds, SignalOp.all]
      · split at h
        · rename_i hKind
          subst hKind
          simp [builtinKinds, controlKinds]
        · exact absurd rfl h
  exact List.mem_map.mp hNames

/-- **What a box does while it is set up shows in the kind that is written.** -/
theorem duty_resolve (kind : String) (args : List String) :
    (((builtin : Registry κ).resolve kind).1.make args).1.duty = .ofKind kind := by
  refine make_resolve (p := Object.duty) dutiful_builtinKinds ofKind_of_alias (fun kind h => ?_)
    kind args
  obtain ⟨d, hd, hName⟩ := exists_of_duty (κ := κ) h
  exact ⟨d, hd, .inl hName⟩

end Registry

end Patchbay
