import Patchbay.Proofs.Evolution

/-
The kinds that a patch may use without further ado.

A name leads to at most one declaration, either directly or by one alias.  Among the
built-in declarations one is special: that of `dac~`.  It is the only one whose boxes
frames are pulled from and whose objects add to the output, it has no outlets, and no
alias leads to it.  So whether a box is an output shows in the kind that is written.
-/

namespace Patchbay

namespace Registry

variable {κ : Type}

/-- What a declaration says about boxes that are written as a kind. -/
structure Suits (d : KindDecl κ) (kind : String) : Prop where
  builtin : ∀ args, (d.make args).1.isBuiltin = true
  output : ∀ args, (d.make args).1.isOutput = d.endpoint
  endpoint : d.endpoint = true ↔ kind = "dac~"
  outlets : d.endpoint = true → d.outlets = []

@[simp] theorem name_structuralKind (name description : String) (object : Object κ) :
    (structuralKind name description object).name = name := rfl

@[simp] theorem name_signalKind (name : String) (inlets : Nat) (signalInlets : List Nat)
    (description : String) (object : Object κ) :
    (signalKind name inlets signalInlets description object).name = name := rfl

@[simp] theorem name_controlKind (name : String) (inlets outlets : Nat) (description : String)
    (make : List String → Object κ) :
    (controlKind name inlets outlets description make).name = name := rfl

@[simp] theorem name_withComplaints (d : KindDecl κ) (make : List String → Object κ × List Entry) :
    (withComplaints d make).name = d.name := rfl

/-- A declaration that is not that of `dac~`. -/
theorem suits_of_ne {d : KindDecl κ} (hName : d.name ≠ "dac~") (hEndpoint : d.endpoint = false)
    (hMake : ∀ args, (d.make args).1.isBuiltin = true ∧ (d.make args).1.isOutput = false) :
    Suits d d.name := by
  refine ⟨fun args => (hMake args).1, fun args => ?_, ?_, ?_⟩
  · rw [(hMake args).2, hEndpoint]
  · simp [hEndpoint, hName]
  · simp [hEndpoint]

theorem suits_structuralKinds : ∀ d ∈ (structuralKinds : List (KindDecl κ)), Suits d d.name := by
  simp only [structuralKinds, List.forall_mem_cons, List.not_mem_nil, false_implies, implies_true,
    and_true]
  and_intros
  all_goals exact suits_of_ne (by simp) rfl fun _ => ⟨rfl, rfl⟩

theorem suits_signalKinds : ∀ d ∈ (signalKinds : List (KindDecl κ)), Suits d d.name := by
  simp only [signalKinds, SignalOp.all, List.map_cons, List.map_nil, List.forall_mem_append,
    List.forall_mem_cons, List.not_mem_nil, false_implies, implies_true, and_true]
  and_intros
  all_goals exact suits_of_ne (by simp) rfl fun _ => ⟨rfl, rfl⟩

theorem suits_controlKinds : ∀ d ∈ (controlKinds : List (KindDecl κ)), Suits d d.name := by
  simp only [controlKinds, Operator.all, List.map_cons, List.map_nil, List.forall_mem_append,
    List.forall_mem_cons, List.not_mem_nil, false_implies, implies_true, and_true]
  and_intros
  all_goals exact suits_of_ne (by simp) rfl fun _ => ⟨rfl, rfl⟩

theorem suits_outputKind : Suits (outputKind : KindDecl κ) "dac~" :=
  ⟨fun _ => rfl, fun _ => rfl, ⟨fun _ => rfl, fun _ => rfl⟩, fun _ => rfl⟩

theorem suits_builtinKinds : ∀ d ∈ (builtinKinds : List (KindDecl κ)), Suits d d.name := by
  intro d hd
  simp only [builtinKinds, List.mem_append, List.mem_singleton] at hd
  rcases hd with ((hd | hd) | hd) | rfl
  · exact suits_structuralKinds d hd
  · exact suits_signalKinds d hd
  · exact suits_controlKinds d hd
  · exact suits_outputKind

/-! ### Looking up -/

theorem kinds_foldl_register (ds : List (KindDecl κ)) : ∀ (r : Registry κ) {name : String}
    {d : KindDecl κ}, (ds.foldl register r).kinds.get? name = some d →
      (d ∈ ds ∧ d.name = name) ∨ r.kinds.get? name = some d := by
  induction ds with
  | nil => intro r name d h; exact .inr h
  | cons a ds ih =>
      intro r name d h
      rcases ih (r.register a) h with ⟨hMem, hName⟩ | hOld
      · exact .inl ⟨List.mem_cons_of_mem _ hMem, hName⟩
      · rw [register, ByName.get?_insert] at hOld
        split at hOld
        · rename_i hName
          obtain rfl := Option.some.inj hOld
          exact .inl ⟨List.mem_cons_self, hName.symm⟩
        · exact .inr hOld

theorem aliases_foldl_register (ds : List (KindDecl κ)) : ∀ r : Registry κ,
    (ds.foldl register r).aliases = r.aliases := by
  induction ds with
  | nil => intro r; rfl
  | cons a ds ih => intro r; exact ih (r.register a)

theorem kinds_foldl_addAlias (pairs : List (String × String)) : ∀ r : Registry κ,
    (pairs.foldl (fun r (name, target) => r.addAlias name target) r).kinds = r.kinds := by
  induction pairs with
  | nil => intro r; rfl
  | cons pair pairs ih => intro r; exact ih (r.addAlias pair.1 pair.2)

theorem aliases_foldl_addAlias (pairs : List (String × String)) : ∀ (r : Registry κ)
    {name target : String},
    (pairs.foldl (fun r (name, target) => r.addAlias name target) r).aliases.get? name =
      some target → (name, target) ∈ pairs ∨ r.aliases.get? name = some target := by
  induction pairs with
  | nil => intro r name target h; exact .inr h
  | cons pair pairs ih =>
      intro r name target h
      rcases ih (r.addAlias pair.1 pair.2) h with hMem | hOld
      · exact .inl (List.mem_cons_of_mem _ hMem)
      · rw [addAlias, ByName.get?_insert] at hOld
        split at hOld
        · rename_i hName
          obtain rfl := Option.some.inj hOld
          subst hName
          exact .inl List.mem_cons_self
        · exact .inr hOld

/-- The aliases of the built-in kinds are those that are declared. -/
theorem mem_builtinAliases {name target : String}
    (h : (builtin : Registry κ).aliases.get? name = some target) :
    (name, target) ∈ builtinAliases := by
  have hNone : (builtinKinds.foldl register (empty : Registry κ)).aliases.get? name = none := by
    rw [aliases_foldl_register]
    rfl
  rw [builtin] at h
  rcases aliases_foldl_addAlias builtinAliases (builtinKinds.foldl register empty) h with
    hMem | hOld
  · exact hMem
  · rw [hNone] at hOld
    simp at hOld

theorem kinds_register_self (r : Registry κ) (d : KindDecl κ) :
    (r.register d).kinds.get? d.name = some d :=
  ByName.get?_insert_self _ _ _

theorem mem_builtinKinds {name : String} {d : KindDecl κ}
    (h : (builtin : Registry κ).kinds.get? name = some d) : d ∈ builtinKinds ∧ d.name = name := by
  rw [builtin, kinds_foldl_addAlias] at h
  rcases kinds_foldl_register builtinKinds empty h with hMem | hOld
  · exact hMem
  · simp [empty] at hOld

/-- A declaration is not lost when others are added. -/
theorem isSome_foldl_register (ds : List (KindDecl κ)) : ∀ (r : Registry κ) {name : String},
    ((∃ d ∈ ds, d.name = name) ∨ (r.kinds.get? name).isSome = true) →
      ((ds.foldl register r).kinds.get? name).isSome = true := by
  induction ds with
  | nil =>
      intro r name h
      simpa using h
  | cons a ds ih =>
      intro r name h
      refine ih (r.register a) ?_
      by_cases hName : name = a.name
      · subst hName
        exact .inr (by rw [kinds_register_self]; rfl)
      · rw [register, ByName.get?_insert, if_neg hName]
        rcases h with ⟨d, hd, hd'⟩ | hOld
        · rcases List.mem_cons.mp hd with rfl | hd
          · exact absurd hd'.symm hName
          · exact .inl ⟨d, hd, hd'⟩
        · exact .inr hOld

theorem isSome_builtinKinds {d : KindDecl κ} (hd : d ∈ builtinKinds) :
    ((builtin : Registry κ).kinds.get? d.name).isSome = true := by
  rw [builtin, kinds_foldl_addAlias]
  exact isSome_foldl_register builtinKinds empty (.inl ⟨d, hd, rfl⟩)

/-- The built-in aliases by name. -/
def builtinTargets : ByName String :=
  builtinAliases.foldl (fun targets pair => targets.insert pair.1 pair.2) .empty

theorem aliases_builtin_eq : (builtin : Registry κ).aliases = builtinTargets := rfl

theorem get?_builtinTargets : ∀ pair ∈ builtinAliases,
    builtinTargets.get? pair.1 = some pair.2 := by
  decide

/-- Every alias leads to a kind. -/
theorem exists_of_alias {pair : String × String} (h : pair ∈ builtinAliases) :
    ∃ d ∈ (builtinKinds : List (KindDecl κ)), d.name = pair.2 := by
  have hNames : ∀ pair ∈ builtinAliases,
      pair.2 ∈ (builtinKinds : List (KindDecl κ)).map KindDecl.name := by
    simp [builtinAliases, builtinKinds, controlKinds]
  exact List.mem_map.mp (hNames pair h)

/-- A built-in kind is looked up by its name or by an alias of it. -/
def Finds (kind : String) (d : KindDecl κ) : Prop :=
  d.name = kind ∨ (kind, d.name) ∈ builtinAliases

/-- **A name finds a kind, or it leads nowhere.** -/
theorem resolve_builtin_cases (kind : String) :
    (∃ d ∈ (builtinKinds : List (KindDecl κ)), Finds kind d ∧
      ((builtin : Registry κ).resolve kind).1 = d) ∨
    ((∀ d ∈ (builtinKinds : List (KindDecl κ)), ¬Finds kind d) ∧
      ((builtin : Registry κ).resolve kind).1 = fallback) := by
  unfold resolve
  cases hGet : (builtin : Registry κ).get? kind with
  | some d =>
      refine .inl ⟨d, ?_⟩
      cases hAlias : (builtin : Registry κ).aliases.get? kind with
      | none =>
          rw [get?, hAlias] at hGet
          obtain ⟨hMem, hName⟩ := mem_builtinKinds hGet
          exact ⟨hMem, .inl hName, rfl⟩
      | some target =>
          rw [get?, hAlias] at hGet
          obtain ⟨hMem, hName⟩ := mem_builtinKinds hGet
          rw [Option.getD_some] at hName
          exact ⟨hMem, .inr (hName ▸ mem_builtinAliases hAlias), rfl⟩
  | none =>
      have hNoAlias : (builtin : Registry κ).aliases.get? kind = none := by
        cases hAlias : (builtin : Registry κ).aliases.get? kind with
        | none => rfl
        | some target =>
            obtain ⟨d, hd, hName⟩ := exists_of_alias (κ := κ) (mem_builtinAliases hAlias)
            have hThere := isSome_builtinKinds hd
            rw [get?, hAlias, Option.getD_some] at hGet
            rw [hName, hGet] at hThere
            exact absurd hThere Bool.false_ne_true
      refine .inr ⟨fun d hd hFinds => ?_, rfl⟩
      rcases hFinds with rfl | hPair
      · have hThere := isSome_builtinKinds hd
        rw [get?, hNoAlias, Option.getD_none] at hGet
        rw [hGet] at hThere
        exact absurd hThere Bool.false_ne_true
      · rw [aliases_builtin_eq, get?_builtinTargets _ hPair] at hNoAlias
        exact absurd hNoAlias (Option.some_ne_none _)

/-- What holds of every built-in kind and of the placeholder, holds of what any name leads to. -/
theorem resolve_keeps {p : KindDecl κ → Prop} (hKinds : ∀ d ∈ builtinKinds, p d)
    (hFallback : p fallback) (kind : String) : p ((builtin : Registry κ).resolve kind).1 := by
  rcases resolve_builtin_cases (κ := κ) kind with ⟨d, hd, -, hResolve⟩ | ⟨-, hResolve⟩
  · exact hResolve ▸ hKinds d hd
  · exact hResolve ▸ hFallback

/-- What holds of the objects of every kind by its name, holds by the name that is written, if it
holds across aliases and a placeholder is no different from what nothing leads to. -/
theorem make_resolve {α : Type} {p : Object κ → α} {q : String → α}
    (hKinds : ∀ d ∈ (builtinKinds : List (KindDecl κ)), ∀ args, p (d.make args).1 = q d.name)
    (hAliases : ∀ pair ∈ builtinAliases, q pair.1 = q pair.2)
    (hOther : ∀ kind, q kind ≠ p .null → ∃ d ∈ (builtinKinds : List (KindDecl κ)), Finds kind d)
    (kind : String) (args : List String) :
    p (((builtin : Registry κ).resolve kind).1.make args).1 = q kind := by
  rcases resolve_builtin_cases (κ := κ) kind with ⟨d, hd, hFinds, hResolve⟩ | ⟨hNone, hResolve⟩
  · rw [hResolve, hKinds d hd]
    rcases hFinds with rfl | hPair
    · rfl
    · exact (hAliases _ hPair).symm
  · rw [hResolve]
    by_contra hOdd
    obtain ⟨d, hd, hFinds⟩ := hOther kind fun hSame => hOdd hSame.symm
    exact hNone d hd hFinds

/-- Whatever kind is written, what it leads to suits it. -/
theorem suits_resolve (kind : String) : Suits ((builtin : Registry κ).resolve kind).1 kind := by
  have hOutput : ∀ pair ∈ builtinAliases, pair.1 ≠ "dac~" ∧ pair.2 ≠ "dac~" := by decide
  rcases resolve_builtin_cases (κ := κ) kind with ⟨d, hd, hFinds, hResolve⟩ | ⟨hNone, hResolve⟩
  · have hSuits := suits_builtinKinds d hd
    have hSame : d.name = "dac~" ↔ kind = "dac~" := by
      rcases hFinds with rfl | hPair
      · exact Iff.rfl
      · obtain ⟨hKind, hName⟩ := hOutput _ hPair
        exact iff_of_false hName hKind
    rw [hResolve]
    exact ⟨hSuits.builtin, hSuits.output, hSuits.endpoint.trans hSame, hSuits.outlets⟩
  · rw [hResolve]
    refine ⟨fun _ => rfl, fun _ => rfl, ⟨fun h => Bool.noConfusion h, fun hKind => ?_⟩,
      fun _ => rfl⟩
    have hThere : (outputKind : KindDecl κ) ∈ builtinKinds := by simp [builtinKinds]
    exact absurd (.inl hKind.symm) (hNone outputKind hThere)

end Registry

end Patchbay
