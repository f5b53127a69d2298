import Mathlib.Logic.Function.Basic
import Patchbay.Proofs.Lasting
import Patchbay.Proofs.Reading

/-
What becomes of the tables of a patch.

`tabulate` reads the tables off the statements of a patch and nothing else: an array puts
zeros under a name and opens it, a restore closes it, and data overwrites what it fits
into.  `Tabulates` says that the tables of an engine are these, that each is as long as
its last array says, and that there is one under every name that has had an array.

Reading keeps this statement by statement, together with the open table, which is always
there.  Nothing else that an engine does touches a table: setting up boxes asks for
other things, and so does everything that comes after.
-/

namespace Patchbay

/-! ### The tables that statements make -/

/-- The samples under each name, and the name that is open for data. -/
structure Shelf where
  samples : String → Option (List Float32)
  opened : Option String

/-- Samples with others in their places from `start` on. -/
def overwrite (samples : List Float32) (start : Nat) (values : List Float32) : List Float32 :=
  samples.mapIdx fun i old => if start ≤ i then (values[i - start]?).getD old else old

namespace Shelf

def bare : Shelf := ⟨fun _ => none, none⟩

/-- Write data under a name, if all of it fits. -/
def fill (s : Shelf) (name : String) (start : Nat) (values : List Float32) : Shelf :=
  match s.samples name with
  | none => s
  | some samples =>
    if start + values.length ≤ samples.length then
      { s with samples := Function.update s.samples name (some (overwrite samples start values)) }
    else s

/-- What a directive makes of the tables. -/
def apply (s : Shelf) : Directive → Shelf
  | .array name size _ =>
    ⟨Function.update s.samples name (some (List.replicate size 0)), some name⟩
  | .restore => { s with opened := none }
  | .fill start values =>
    match s.opened with
    | none => s
    | some name => s.fill name start values
  | _ => s

end Shelf

def tabulate (statements : List Statement) : Shelf :=
  statements.foldl (fun shelf s => shelf.apply s.directive) .bare

theorem tabulate_concat (statements : List Statement) (s : Statement) :
    tabulate (statements ++ [s]) = (tabulate statements).apply s.directive := by
  rw [tabulate, List.foldl_append]
  rfl

/-- The size that a directive declares for a name. -/
def Directive.declares? (name : String) : Directive → Option Nat
  | .array other size _ => if other = name then some size else none
  | _ => none

/-- The size that the last array of a name declares. -/
def lastSize? (statements : List Statement) (name : String) : Option Nat :=
  (statements.filterMap fun s => s.directive.declares? name).getLast?

theorem lastSize?_concat (statements : List Statement) (s : Statement) (name : String) :
    lastSize? (statements ++ [s]) name =
      (s.directive.declares? name).or (lastSize? statements name) := by
  rw [lastSize?, List.filterMap_append, List.getLast?_append, lastSize?]
  cases hDeclares : s.directive.declares? name <;> simp [hDeclares]

/-- What has been declared stays declared. -/
theorem isSome_lastSize?_append {statements : List Statement} {name : String}
    (h : (lastSize? statements name).isSome) (later : List Statement) :
    (lastSize? (statements ++ later) name).isSome := by
  rw [lastSize?, List.filterMap_append, List.getLast?_append, Option.isSome_or]
  exact Bool.or_eq_true_iff.mpr (.inr h)

/-! ### Tables that are as the statements say -/

/-- The tables of an engine are those that some statements make. -/
structure Tabulates (tables : Tables) (statements : List Statement) : Prop where
  samples : ∀ name, (tables.get? name).map (·.samples.toList) = (tabulate statements).samples name
  names : ∀ name t, tables.get? name = some t → t.name = name
  /-- There is a table where there has been an array, of the size that the last one says. -/
  sizes : ∀ name, (tables.get? name).map Table.size = lastSize? statements name

theorem overwrite_eq {samples : List Float32} {start : Nat} {values : List Float32}
    (hFits : start + values.length ≤ samples.length) :
    overwrite samples start values =
      samples.take start ++ (values ++ samples.drop (start + values.length)) := by
  refine List.ext_getElem? fun i => ?_
  have hTake : (samples.take start).length = start := by
    rw [List.length_take]
    omega
  rw [overwrite, List.getElem?_mapIdx]
  rcases Nat.lt_or_ge i start with hBefore | hFrom
  · rw [List.getElem?_append_left (hTake.symm ▸ hBefore), List.getElem?_take_of_lt hBefore]
    simp [Nat.not_le_of_lt hBefore]
  · rw [List.getElem?_append_right (hTake.symm ▸ hFrom), hTake]
    rcases Nat.lt_or_ge (i - start) values.length with hWithin | hAfter
    · have hInside : i < samples.length := by omega
      rw [List.getElem?_append_left hWithin]
      simp [hInside, hWithin, show start ≤ i from hFrom]
    · have hPlace : start + values.length + (i - start - values.length) = i := by omega
      rw [List.getElem?_append_right hAfter, List.getElem?_drop, hPlace]
      simp [List.getElem?_eq_none hAfter]

theorem toList_write {t t' : Table} {start : Nat} {values : List Float32}
    (h : t.write start values = .ok t') : start + values.length ≤ t.size ∧ t'.name = t.name ∧
      t'.samples.toList = overwrite t.samples.toList start values := by
  unfold Table.write at h
  split at h
  · rename_i hFits
    obtain rfl := Except.ok.inj h
    refine ⟨hFits, rfl, ?_⟩
    have hAll : t.samples.toList.take t.size = t.samples.toList :=
      List.take_of_length_le (Nat.le_of_eq Array.length_toList)
    rw [overwrite_eq hFits]
    simp only [Array.toList_append, Array.toList_extract, List.extract_eq_take_drop,
      List.append_assoc, ← List.drop_take, hAll]
    simp
  · simp at h

theorem write_eq_error {t : Table} {start : Nat} {values : List Float32} {fault : Error}
    (h : t.write start values = .error fault) : t.size < start + values.length ∧
      ∃ name size index, fault = .tableIndex name size index := by
  unfold Table.write at h
  split at h
  · simp at h
  · rename_i hShort
    exact ⟨Nat.lt_of_not_le hShort, _, _, _, (Except.error.inj h).symm⟩

theorem tabulates_empty : Tabulates .empty [] :=
  ⟨fun _ => rfl, fun _ _ h => by simp at h, fun _ => rfl⟩

namespace Tabulates

variable {tables : Tables} {statements : List Statement} {s : Statement}

/-- A directive that is not about tables. -/
theorem same (h : Tabulates tables statements)
    (hApply : ∀ shelf : Shelf, (shelf.apply s.directive).samples = shelf.samples)
    (hDeclares : ∀ name, s.directive.declares? name = none) :
    Tabulates tables (statements ++ [s]) := by
  refine ⟨fun name => ?_, h.names, fun name => ?_⟩
  · rw [h.samples, tabulate_concat, hApply]
  · rw [h.sizes, lastSize?_concat, hDeclares, Option.none_or]

theorem array (h : Tabulates tables statements) {name : String} {size : Nat} {args : List String}
    (hArray : s.directive = .array name size args) :
    Tabulates (tables.insert name (Table.zeroed name size)) (statements ++ [s]) := by
  refine ⟨fun other => ?_, fun other t ht => ?_, fun other => ?_⟩
  · rw [ByName.get?_insert, tabulate_concat, hArray]
    simp only [Shelf.apply, Function.update_apply]
    split
    · simp [Table.zeroed]
    · exact h.samples other
  · rw [ByName.get?_insert] at ht
    split at ht
    · rename_i hSame
      obtain rfl := Option.some.inj ht
      exact hSame.symm
    · exact h.names other t ht
  · rw [ByName.get?_insert, lastSize?_concat, hArray, Directive.declares?]
    split
    · rename_i hSame
      rw [if_pos hSame.symm]
      simp
    · rename_i hOther
      rw [if_neg fun hSame => hOther hSame.symm, Option.none_or]
      exact h.sizes other

/-- The samples under the name of a table. -/
theorem samples_of_get? (h : Tabulates tables statements) {name : String} {t : Table}
    (ht : tables.get? name = some t) : (tabulate statements).samples name = some t.samples.toList := by
  rw [← h.samples, ht]
  rfl

/-- Data that fits into the open table. -/
theorem fill (h : Tabulates tables statements) {name : String} {start : Nat}
    {values : List Float32} {t t' : Table} (hFill : s.directive = .fill start values)
    (hOpened : (tabulate statements).opened = some name) (ht : tables.get? name = some t)
    (hWrite : t.write start values = .ok t') :
    Tabulates (tables.insert name t') (statements ++ [s]) := by
  obtain ⟨hFits, hName, hSamples⟩ := toList_write hWrite
  have hShelf : (tabulate (statements ++ [s])).samples = Function.update
      (tabulate statements).samples name (some (overwrite t.samples.toList start values)) := by
    rw [tabulate_concat, hFill, Shelf.apply, hOpened]
    simp only [Shelf.fill, h.samples_of_get? ht]
    exact congrArg Shelf.samples (if_pos hFits)
  refine ⟨fun other => ?_, fun other u hu => ?_, fun other => ?_⟩
  · rw [ByName.get?_insert, hShelf, Function.update_apply]
    split
    · rw [← hSamples]
      rfl
    · exact h.samples other
  · rw [ByName.get?_insert] at hu
    split at hu
    · rename_i hSame
      obtain rfl := Option.some.inj hu
      exact (hName.trans (h.names name t ht)).trans hSame.symm
    · exact h.names other u hu
  · have hDeclares : s.directive.declares? other = none := by rw [hFill]; rfl
    rw [ByName.get?_insert, lastSize?_concat, hDeclares, Option.none_or]
    split
    · rename_i hSame
      rw [← h.sizes, hSame, ht]
      exact congrArg some (Table.size_write hWrite)
    · exact h.sizes other

/-- Data that nothing takes. -/
theorem fill_refused (h : Tabulates tables statements) {start : Nat} {values : List Float32}
    (hFill : s.directive = .fill start values)
    (hRefused : ∀ name t, (tabulate statements).opened = some name → tables.get? name = some t →
      t.size < start + values.length) : Tabulates tables (statements ++ [s]) := by
  have hShelf : tabulate (statements ++ [s]) = tabulate statements := by
    rw [tabulate_concat, hFill, Shelf.apply]
    split
    · rfl
    · rename_i name hOpened
      have hSamples := h.samples name
      cases ht : tables.get? name with
      | none =>
          rw [ht] at hSamples
          simp only [Shelf.fill, ← hSamples, Option.map_none]
      | some t =>
          simp only [Shelf.fill, h.samples_of_get? ht]
          exact if_neg (Nat.not_le_of_lt (hRefused name t hOpened ht))
  refine ⟨fun name => ?_, h.names, fun name => ?_⟩
  · rw [h.samples, hShelf]
  · have hDeclares : s.directive.declares? name = none := by rw [hFill]; rfl
    rw [h.sizes, lastSize?_concat, hDeclares, Option.none_or]

end Tabulates

/-! ### While a patch is read -/

namespace Engine

variable {κ : Type} [CustomKind κ] {e e' : Engine κ}

/-- What has been built has the tables that the statements so far make, and the open one among
them. -/
structure Shelved (statements : List Statement) (b : Build κ) : Prop where
  tables : Tabulates b.engine.tables statements
  opened : b.openTable = (tabulate statements).opened
  /-- The open table is there. -/
  found : ∀ name, b.openTable = some name → (b.engine.tables.get? name).isSome

omit [CustomKind κ] in
theorem tables_connect (e : Engine κ) (line source outlet sink inlet : Nat) :
    (e.connect line source outlet sink inlet).tables = e.tables := by
  unfold connect
  split <;> rfl

omit [CustomKind κ] in
/-- A directive that leaves the tables and what is open as they are. -/
theorem Shelved.same {statements : List Statement} {b b' : Build κ} (h : Shelved statements b)
    {s : Statement} (hTables : b'.engine.tables = b.engine.tables)
    (hOpen : b'.openTable = b.openTable) (hApply : ∀ shelf : Shelf, shelf.apply s.directive = shelf)
    (hDeclares : ∀ name, s.directive.declares? name = none) : Shelved (statements ++ [s]) b' := by
  refine ⟨hTables ▸ h.tables.same (fun shelf => by rw [hApply]) hDeclares, ?_, fun name hName => ?_⟩
  · rw [hOpen, h.opened, tabulate_concat, hApply]
  · rw [hTables]
    exact h.found name (hOpen ▸ hName)

omit [CustomKind κ] in
theorem Shelved.note {statements : List Statement} {b : Build κ} (h : Shelved statements b)
    (entries : List Entry) : Shelved statements { b with engine := b.engine.log entries } :=
  ⟨h.tables, h.opened, h.found⟩

omit [CustomKind κ] in
/-- Data for an open table that is there goes into it, or does not fit, or nothing is open. -/
theorem fillTable_cases (e : Engine κ) (line : Nat) {openTable : Option String} (start : Nat)
    (values : List Float32)
    (hFound : ∀ name, openTable = some name → (e.tables.get? name).isSome) :
    (∃ name t t', openTable = some name ∧ e.tables.get? name = some t ∧
      t.write start values = .ok t' ∧
        e.fillTable line openTable start values = .ok (e.tables.insert name t')) ∨
    (∃ fault, e.fillTable line openTable start values = .error fault ∧
      (∀ name t, openTable = some name → e.tables.get? name = some t →
        t.size < start + values.length) ∧
      ∀ line' name, fault ≠ .malformed line' (.noSuchTable name)) := by
  unfold fillTable
  cases openTable with
  | none => exact .inr ⟨_, rfl, fun _ _ hName _ => (nomatch hName), fun _ _ h => by cases h⟩
  | some name =>
      obtain ⟨t, ht⟩ := Option.isSome_iff_exists.mp (hFound name rfl)
      simp only [Tables.write, ht, Option.map_some]
      cases hWrite : t.write start values with
      | ok t' => exact .inl ⟨name, t, t', rfl, ht, hWrite, rfl⟩
      | error fault =>
          refine .inr ⟨fault, rfl, fun other u hOther hu => ?_, fun line' other hFault => ?_⟩
          · obtain rfl := Option.some.inj hOther
            obtain rfl := Option.some.inj (ht.symm.trans hu)
            exact (write_eq_error hWrite).1
          · obtain ⟨name, size, index, rfl⟩ := (write_eq_error hWrite).2
            simp at hFault

/-- Data goes where the statements say, or is refused and noted. -/
theorem Shelved.fill {statements : List Statement} {b : Build κ} (h : Shelved statements b)
    {s : Statement} {start : Nat} {values : List Float32} (hFill : s.directive = .fill start values) :
    Shelved (statements ++ [s]) (Engine.apply b s) := by
  have hOpened : b.openTable = (tabulate (statements ++ [s])).opened := by
    rw [h.opened, tabulate_concat, hFill]
    simp only [Shelf.apply, Shelf.fill]
    split
    · rfl
    · split
      · rfl
      · split <;> rfl
  rw [Engine.apply, hFill]
  rcases fillTable_cases b.engine s.line start values h.found with
    ⟨name, t, t', hOpen, ht, hWrite, hResult⟩ | ⟨fault, hResult, hShort, -⟩
  · simp only [hResult]
    refine ⟨h.tables.fill hFill (h.opened ▸ hOpen) ht hWrite, hOpened, fun other hOther => ?_⟩
    obtain rfl := Option.some.inj (hOpen.symm.trans hOther)
    exact Option.isSome_iff_exists.mpr ⟨t', ByName.get?_insert_self _ _ _⟩
  · simp only [hResult]
    refine ⟨h.tables.fill_refused hFill fun name t hName ht => ?_, hOpened, h.found⟩
    exact hShort name t (h.opened.trans hName) ht

theorem Shelved.apply {statements : List Statement} {b : Build κ} (h : Shelved statements b)
    (s : Statement) : Shelved (statements ++ [s]) (Engine.apply b s) := by
  cases hDirective : s.directive with
  | fill start values => exact h.fill hDirective
  | array name size args =>
      rw [Engine.apply, hDirective]
      refine ⟨h.tables.array hDirective, ?_, fun other hOther => ?_⟩
      · rw [tabulate_concat, hDirective]
        rfl
      · obtain rfl := Option.some.inj hOther
        exact Option.isSome_iff_exists.mpr ⟨_, ByName.get?_insert_self _ _ _⟩
  | restore =>
      rw [Engine.apply, hDirective]
      refine ⟨h.tables.same (fun _ => ?_) fun _ => ?_, ?_, fun other hOther => ?_⟩
      · rw [hDirective]; rfl
      · rw [hDirective]; rfl
      · rw [tabulate_concat, hDirective]; rfl
      · cases hOther
  | connect source outlet sink inlet =>
      rw [Engine.apply, hDirective]
      exact h.same (tables_connect ..) rfl (by simp [hDirective, Shelf.apply])
        (by simp [hDirective, Directive.declares?])
  | _ =>
      rw [Engine.apply, hDirective]
      exact h.same rfl rfl (by simp [hDirective, Shelf.apply])
        (by simp [hDirective, Directive.declares?])

/-- **While a patch is read, the tables are those of the statements so far.** -/
theorem shelved_reading (hTables : e.tables = .empty) (read : List (Except Error Statement)) :
    Shelved (legible read) (e.reading read) :=
  reading_keeps (p := Shelved) ⟨hTables ▸ tabulates_empty, rfl, fun _ h => by cases h⟩
    (fun _ _ entries h => h.note entries) read fun _ _ s _ h => h.apply s

/-! ### For good -/

/-- No statement of a patch declares a table that is too long. -/
theorem size_le_of_declares {source : String} {s : Statement} (hs : .ok s ∈ Patch.read source)
    {name : String} {size : Nat} (hDeclares : s.directive.declares? name = some size) :
    size ≤ maxTableSize := by
  cases hDirective : s.directive with
  | array other declared args =>
      rw [hDirective, Directive.declares?] at hDeclares
      split at hDeclares
      · obtain rfl := Option.some.inj hDeclares
        exact Patch.size_le_of_mem_read hs hDirective
      · simp at hDeclares
  | _ => simp [hDirective, Directive.declares?] at hDeclares

/-- What holds of the tables once some directives of a patch have been carried out. -/
structure Midway (e : Engine κ) (done : List (Except Error Statement)) : Prop where
  shelved : Shelved (legible done) (e.reading done)
  short : ∀ name t, (e.reading done).engine.tables.get? name = some t → t.size ≤ maxTableSize
  /-- Data never misses the table that is open. -/
  present : ∀ line start values line' name,
    (e.reading done).engine.fillTable line (e.reading done).openTable start values ≠
      .error (.malformed line' (.noSuchTable name))
  /-- Every table is still there after more of them. -/
  kept : ∀ more name, ((e.reading done).engine.tables.get? name).isSome →
    ((e.reading (done ++ more)).engine.tables.get? name).isSome

theorem midway_reading (hTables : e.tables = .empty) {source : String}
    {done rest : List (Except Error Statement)} (hRead : Patch.read source = done ++ rest) :
    e.Midway done := by
  have hShelved := shelved_reading hTables done
  refine ⟨hShelved, fun name t ht => ?_, fun line start values line' name hFault => ?_,
    fun more name hSome => ?_⟩
  · have hSize := hShelved.tables.sizes name
    rw [ht] at hSize
    obtain ⟨s, hs, hDeclares⟩ := List.mem_filterMap.mp (List.mem_of_getLast? hSize.symm)
    have hStatement : .ok s ∈ Patch.read source := by
      rw [hRead]
      exact List.mem_append_left _ (mem_legible.mp hs)
    exact size_le_of_declares hStatement hDeclares
  · rcases fillTable_cases (e.reading done).engine line start values hShelved.found with
      ⟨other, t, t', -, -, -, hResult⟩ | ⟨fault, hResult, -, hOther⟩
    · simp [hResult] at hFault
    · exact hOther line' name (Except.error.inj (hResult.symm.trans hFault))
  · have hLater := shelved_reading hTables (done ++ more)
    rw [← Option.isSome_map (f := Table.size), hShelved.tables.sizes] at hSome
    rw [← Option.isSome_map (f := Table.size), hLater.tables.sizes, legible_append]
    exact isSome_lastSize?_append hSome _

/--
**The tables of a patch are those that its statements make.**  Whatever the kinds are, and
whatever is done after a load, the tables are what the statements that could be read make one
after the other, each as long as its last array says.  They were so after every directive, the
table that was open was always there, and no table went away again.  Nothing after the load
changes a table, and a second patch is refused.
-/
theorem tables_follow_statements {settings : Settings} {registry : Registry κ}
    {before after : List (Happening κ)} {e₀ e₁ e : Engine κ} {source : String}
    (hBefore : Run (.new settings registry) before e₀)
    (hLoad : e₀.load source = (.ok (), e₁)) (hAfter : Run e₁ after e) :
    Tabulates e.tables (legible (Patch.read source)) ∧
      (∀ name t, e.tables.get? name = some t → t.size ≤ maxTableSize) ∧
      e.tables = e₁.tables ∧ (∀ again, e.load again = (.error .alreadyLoaded, e)) ∧
      (e₀.reading (Patch.read source)).engine.tables = e.tables ∧
      ∀ done rest, Patch.read source = done ++ rest → e₀.Midway done := by
  have hTables : e₀.tables = .empty := (empty_of_run hBefore).2.1
  have hLast : e.tables = (e₀.reading (Patch.read source)).engine.tables :=
    hAfter.lasts.tables.trans (lasts_load hLoad).tables
  have hMidway : ∀ done rest, Patch.read source = done ++ rest → e₀.Midway done :=
    fun done rest hRead => midway_reading hTables hRead
  have hWhole := hMidway (Patch.read source) [] (List.append_nil _).symm
  refine ⟨?_, fun name t ht => ?_, hAfter.lasts.tables, load_again hLoad hAfter, hLast.symm,
    hMidway⟩
  · rw [hLast]
    exact hWhole.shelved.tables
  · exact hWhole.short name t (hLast ▸ ht)

/-- A table whose second half is written twice, with data that does not fit and data that comes
when it is closed. -/
def tablePatch : String :=
  "#X array t 4 float 0;\n#A 1 0.5 0.25 2;\n#A 3 1 2;\n#A 2 4;\n#X restore;\n#A 0 9;\n"

theorem tables_follow_statements_rewritten : ∃ loaded : Engine Empty,
    (Engine.new .standard .builtin : Engine Empty).load tablePatch = (.ok (), loaded) ∧
      ((loaded.perform (.render 1)).2.tables.get? "t").map (·.samples.toList) =
        some [0, 0.5, 4, 2] := by
  have hForward : ∀ w ∈ ((Engine.new .standard .builtin : Engine Empty).build
      (Patch.read tablePatch)).graph.wires, w.rate = .signal → w.source < w.sink := by
    decide +kernel
  have hSamples : (tabulate (legible (Patch.read tablePatch))).samples "t" =
      some [0, 0.5, 4, 2] := by
    decide +kernel
  obtain ⟨loaded, hLoad⟩ := loads_of_forward (by decide +kernel) hForward
  have hTables := tables_follow_statements .start hLoad (.perform .start (.render 1))
  exact ⟨loaded, hLoad, (hTables.1.samples "t").trans hSamples⟩

end Engine

end Patchbay
