import Patchbay.Proofs.Builtin

/-
What registering a kind makes of the names that lead to kinds.

A registry is put together by two operations, which may come in any order and repeat: a kind is
registered under its own name, and an alias lets a name lead to the kind of another.  Aliases
are looked up first.  So a kind is found under the names that lead to its own, and its own name
is not among them if an alias leads it elsewhere: such a kind has been registered and cannot be
had, and whoever asks for it gets another one, or the placeholder.

`leadsTo` is the name under which a name is looked up, and `get?_register` says everything that
registering does in terms of it.  The runs of the module are over the edits that a registry has
seen: `leadsTo_after` reads off them where a name leads, and `KeptByName`, that a kind stands
under no name but its own, is what tells the new kind from the one that is found in its place.
-/

namespace Patchbay

namespace Registry

variable {κ : Type}

/-- The name under which a name is looked up. -/
def leadsTo (r : Registry κ) (name : String) : String :=
  (r.aliases.get? name).getD name

theorem get?_eq_kinds (r : Registry κ) (name : String) :
    r.get? name = r.kinds.get? (r.leadsTo name) := rfl

@[simp] theorem leadsTo_register (r : Registry κ) (d : KindDecl κ) (name : String) :
    (r.register d).leadsTo name = r.leadsTo name := rfl

/-- A kind is found under the names that lead to its own. -/
theorem get?_register (r : Registry κ) (d : KindDecl κ) (name : String) :
    (r.register d).get? name = if r.leadsTo name = d.name then some d else r.get? name := by
  rw [get?_eq_kinds, leadsTo_register, register, ByName.get?_insert, get?_eq_kinds]

/-- What a name stands for is told by the kind that is found. -/
theorem resolve_of_get? {r : Registry κ} {d : KindDecl κ} {name : String}
    (h : r.get? name = some d) : r.resolve name = (d, []) := by
  rw [resolve, h]

theorem resolve_congr {r r' : Registry κ} {name : String} (h : r.get? name = r'.get? name) :
    r.resolve name = r'.resolve name := by
  rw [resolve, resolve, h]

/-- A name that leads elsewhere, and is not an alias of the kind, keeps its meaning. -/
theorem get?_register_of_ne {r : Registry κ} {d : KindDecl κ} {name : String}
    (h : r.leadsTo name ≠ d.name) : (r.register d).get? name = r.get? name := by
  rw [get?_register, if_neg h]

/-! ### Edits -/

/-- One operation that puts a registry together. -/
inductive Edit (κ : Type) where
  | register (d : KindDecl κ)
  | addAlias (name target : String)

/-- Carry out an edit. -/
def edit (r : Registry κ) : Edit κ → Registry κ
  | .register d => r.register d
  | .addAlias name target => r.addAlias name target

/-- Carry out edits one after the other. -/
def after (r : Registry κ) (edits : List (Edit κ)) : Registry κ :=
  edits.foldl edit r

/-- The target that an edit gives to a name. -/
def Edit.target? (name : String) : Edit κ → Option String
  | .register _ => none
  | .addAlias other target => if name = other then some target else none

/-- The last target that was given to a name. -/
def lastTarget? (edits : List (Edit κ)) (name : String) : Option String :=
  edits.reverse.findSome? (Edit.target? name)

theorem aliases_edit (r : Registry κ) (e : Edit κ) (name : String) :
    (r.edit e).aliases.get? name = (e.target? name).or (r.aliases.get? name) := by
  cases e with
  | register d => rfl
  | addAlias other target =>
      rw [edit, addAlias, ByName.get?_insert, Edit.target?]
      split <;> rfl

/-- An alias is what it was last made, or else what it was at the start. -/
theorem aliases_after (edits : List (Edit κ)) : ∀ (r : Registry κ) (name : String),
    (r.after edits).aliases.get? name = (lastTarget? edits name).or (r.aliases.get? name) := by
  induction edits with
  | nil => intro r name; rfl
  | cons e edits ih =>
      intro r name
      have hLast : lastTarget? (e :: edits) name =
          (lastTarget? edits name).or (e.target? name) := by
        simp [lastTarget?, List.findSome?_append]
      rw [after, List.foldl_cons, ← after, ih, aliases_edit, hLast, Option.or_assoc]

theorem leadsTo_after (r : Registry κ) (edits : List (Edit κ)) (name : String) :
    (r.after edits).leadsTo name =
      ((lastTarget? edits name).or (r.aliases.get? name)).getD name := by
  rw [leadsTo, aliases_after]

/-- Every kind stands under its own name. -/
def KeptByName (r : Registry κ) : Prop :=
  ∀ name d, r.kinds.get? name = some d → d.name = name

theorem keptByName_empty : (empty : Registry κ).KeptByName := by
  intro name d h
  simp [empty] at h

theorem keptByName_builtin : (builtin : Registry κ).KeptByName :=
  fun _ _ h => (mem_builtinKinds h).2

theorem KeptByName.edit {r : Registry κ} (h : r.KeptByName) (e : Edit κ) :
    (r.edit e).KeptByName := by
  cases e with
  | register d =>
      intro name d' hKind
      rw [Registry.edit, register, ByName.get?_insert] at hKind
      split at hKind
      · next hName =>
          obtain rfl := Option.some.inj hKind
          exact hName.symm
      · exact h name d' hKind
  | addAlias other target => exact h

theorem KeptByName.after {r : Registry κ} (h : r.KeptByName) (edits : List (Edit κ)) :
    (r.after edits).KeptByName :=
  List.foldlRecOn edits Registry.edit h fun _ hKept e _ => hKept.edit e

/-- The new kind is found under its name exactly if the name leads to itself. -/
theorem KeptByName.get?_register_self {r : Registry κ} (h : r.KeptByName) (d : KindDecl κ) :
    (r.register d).get? d.name = some d ↔ r.leadsTo d.name = d.name := by
  rw [get?_register]
  constructor
  · intro hGet
    by_contra hElsewhere
    rw [if_neg hElsewhere] at hGet
    exact hElsewhere (h _ d hGet).symm
  · intro hSelf
    rw [if_pos hSelf]

/-! ### Availability -/

/--
**A kind is available under the names that lead to its own.**  Whatever kinds and aliases were
entered before, into an empty registry or into the built-in one, registering a kind makes it the
meaning of its own name exactly if no alias leads that name elsewhere; otherwise its name keeps
the meaning it had.  The aliases of the kind get the new meaning too, and every other name keeps
its own.  Where a name leads is what it was last made an alias of, and itself if it never was.
-/
theorem register_available {start : Registry κ} (hStart : start = empty ∨ start = builtin)
    (edits : List (Edit κ)) (d : KindDecl κ) :
    (∀ name, (start.after edits).leadsTo name =
      ((lastTarget? edits name).or (start.aliases.get? name)).getD name) ∧
    (((start.after edits).register d).get? d.name = some d ↔
      (start.after edits).leadsTo d.name = d.name) ∧
    ((start.after edits).leadsTo d.name = d.name →
      ((start.after edits).register d).resolve d.name = (d, [])) ∧
    ((start.after edits).leadsTo d.name ≠ d.name →
      ((start.after edits).register d).get? d.name = (start.after edits).get? d.name ∧
      ((start.after edits).register d).resolve d.name = (start.after edits).resolve d.name) ∧
    (∀ name, (start.after edits).aliases.get? name = some d.name →
      ((start.after edits).register d).get? name = some d ∧
      ((start.after edits).register d).resolve name = (d, [])) ∧
    ∀ name, name ≠ d.name → (start.after edits).aliases.get? name ≠ some d.name →
      ((start.after edits).register d).get? name = (start.after edits).get? name ∧
      ((start.after edits).register d).resolve name = (start.after edits).resolve name := by
  have hKept : (start.after edits).KeptByName := by
    rcases hStart with rfl | rfl
    · exact keptByName_empty.after edits
    · exact keptByName_builtin.after edits
  refine ⟨leadsTo_after start edits, hKept.get?_register_self d, fun hSelf => ?_,
    fun hElsewhere => ?_, fun name hAlias => ?_, fun name hName hAlias => ?_⟩
  · exact resolve_of_get? ((hKept.get?_register_self d).mpr hSelf)
  · have hGet := get?_register_of_ne hElsewhere
    exact ⟨hGet, resolve_congr hGet⟩
  · have hLeads : (start.after edits).leadsTo name = d.name := by rw [leadsTo, hAlias]; rfl
    have hGet : ((start.after edits).register d).get? name = some d := by
      rw [get?_register, if_pos hLeads]
    exact ⟨hGet, resolve_of_get? hGet⟩
  · have hLeads : (start.after edits).leadsTo name ≠ d.name := by
      rw [leadsTo]
      cases hOld : (start.after edits).aliases.get? name with
      | none => exact hName
      | some target => exact fun hTarget => hAlias (hOld.trans (congrArg some hTarget))
    have hGet := get?_register_of_ne hLeads
    exact ⟨hGet, resolve_congr hGet⟩

/-- A kind of somebody's own, named like a built-in alias. -/
def ownFloat : KindDecl Empty :=
  (KindDecl.new "f" fun _ => .null).describe "custom"

/-- An alias that was given to the name of a kind can be led back to it. -/
theorem register_available_ledBack :
    (((builtin : Registry Empty).after [.addAlias "f" "f"]).register ownFloat).get? "f" =
        some ownFloat ∧
      ((builtin : Registry Empty).register ownFloat).get? "f" =
        (builtin : Registry Empty).get? "f" := by
  obtain ⟨hLeads, hSelf, -⟩ :=
    register_available (.inr rfl) [.addAlias "f" "f"] ownFloat
  obtain ⟨-, -, -, hElsewhere, -⟩ := register_available (.inr rfl) [] ownFloat
  exact ⟨hSelf.mpr (hLeads "f"), (hElsewhere (by decide +kernel)).1⟩

/-! ### Names that are taken -/

/-- What cannot be had beside the built-in kinds is a kind with the name of a built-in alias. -/
theorem register_builtin_iff (d : KindDecl κ) :
    ((builtin : Registry κ).register d).get? d.name = some d ↔
      d.name ∉ builtinAliases.map Prod.fst := by
  rw [keptByName_builtin.get?_register_self, leadsTo]
  constructor
  · intro hSelf hTaken
    have hElsewhere : ∀ name ∈ builtinAliases.map Prod.fst,
        (builtinTargets.get? name).getD name ≠ name := by decide
    rw [aliases_builtin_eq] at hSelf
    exact hElsewhere d.name hTaken hSelf
  · intro hFree
    cases hAlias : (builtin : Registry κ).aliases.get? d.name with
    | none => rfl
    | some target => exact absurd (List.mem_map_of_mem (mem_builtinAliases hAlias)) hFree

/-- Asked for a kind that was just registered, a registry may give another one. -/
theorem not_available_ownFloat : ¬∀ (edits : List (Edit Empty)) (d : KindDecl Empty),
    (((builtin : Registry Empty).after edits).register d).get? d.name = some d := by
  intro hAll
  exact (register_builtin_iff ownFloat).mp (hAll [] ownFloat) (by decide)

end Registry

end Patchbay
