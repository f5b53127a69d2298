import Mathlib.Data.List.Induction
import Patchbay.Engine.Load
import Patchbay.Proofs.Cycle

/-
Reading a patch, one directive after the other.

Building folds over everything that was read, faults included.  A fault is only noted, so
what the build has come to at any point depends on the statements that could be read up
to there.  `reading_keeps` is the induction that this allows: it has a case for a note
and a case for a statement, and the statements that it goes through are those of the
patch.

Loading does the same, but not beyond a directive at which the program stops.  `getsThrough`
says whether there is none.  If so, loading finishes what building has come to, and otherwise it
ends with what was built up to the first such directive.
-/

namespace Patchbay

/-- The statements among what was read. -/
def legible (read : List (Except Error Statement)) : List Statement :=
  read.filterMap Except.toOption

theorem legible_append (done rest : List (Except Error Statement)) :
    legible (done ++ rest) = legible done ++ legible rest :=
  List.filterMap_append

theorem mem_legible {read : List (Except Error Statement)} {s : Statement} :
    s ∈ legible read ↔ .ok s ∈ read := by
  rw [legible, List.mem_filterMap]
  constructor
  · rintro ⟨r, hr, hSome⟩
    cases r with
    | error fault => simp [Except.toOption] at hSome
    | ok s' =>
        obtain rfl := Option.some.inj hSome
        exact hr
  · exact fun hs => ⟨.ok s, hs, rfl⟩

/-- The table that is open after a directive, given the one that was open before it. -/
def Directive.opens (openTable : Option String) : Directive → Option String
  | .array name _ _ => some name
  | .restore => none
  | _ => openTable

namespace Engine

variable {κ : Type} [CustomKind κ] {e : Engine κ}

theorem openTable_apply (b : Build κ) (s : Statement) :
    (apply b s).openTable = s.directive.opens b.openTable := by
  obtain ⟨line, d⟩ := s
  cases d with
  | fill start values =>
      rw [apply]
      simp only
      split <;> rfl
  | _ => rfl

omit [CustomKind κ] in
/-- Carrying out a connection changes the graph in place, and may leave something in the journal. -/
theorem exists_connect_eq (e : Engine κ) (line source outlet sink inlet : Nat) :
    ∃ journal, e.connect line source outlet sink inlet =
      { e with graph := (e.graph.connectInPlace source outlet sink inlet).2, journal } := by
  rw [connect, Graph.connectInPlace_eq]
  cases e.graph.connect source outlet sink inlet with
  | ok made => exact ⟨_, rfl⟩
  | error fault => cases fault <;> exact ⟨_, rfl⟩

omit [CustomKind κ] in
/-- A wire that is refused leaves a warning. -/
theorem connect_of_refused {source outlet sink inlet : Nat} {fault : WireFault}
    (hRefused : e.graph.connect source outlet sink inlet = .error fault)
    (hNot : fault ≠ .overflow) (line : Nat) : e.connect line source outlet sink inlet =
      e.log [.warn (Error.malformed line (.refusedWire source outlet sink inlet fault)).message] := by
  rw [connect, hRefused]
  cases fault with
  | overflow => exact absurd rfl hNot
  | _ => rfl

/-- What has been built once some directives have been read. -/
def reading (e : Engine κ) (read : List (Except Error Statement)) : Build κ :=
  read.foldl applyResult ⟨{ e with loaded := true }, none⟩

theorem reading_concat (e : Engine κ) (read : List (Except Error Statement))
    (r : Except Error Statement) : e.reading (read ++ [r]) = applyResult (e.reading read) r := by
  rw [reading, List.foldl_append]
  rfl

/-- What every statement makes of it, and no note matters to, holds of all that is built. -/
theorem reading_keeps {p : List Statement → Build κ → Prop}
    (hStart : p [] ⟨{ e with loaded := true }, none⟩)
    (hNote : ∀ done (b : Build κ) entries, p done b → p done { b with engine := b.engine.log entries })
    (read : List (Except Error Statement))
    (hStep : ∀ done (b : Build κ) s, .ok s ∈ read → p done b → p (done ++ [s]) (apply b s)) :
    p (legible read) (e.reading read) := by
  induction read using List.reverseRecOn with
  | nil => exact hStart
  | append_singleton read r ih =>
      have hBefore := ih fun done b s hs => hStep done b s (List.mem_append_left _ hs)
      rw [reading_concat, legible_append]
      cases r with
      | error fault =>
          rw [show legible [(.error fault : Except Error Statement)] = [] from rfl, List.append_nil]
          exact hNote _ _ _ hBefore
      | ok s => exact hStep _ _ s (List.mem_append_right _ (List.mem_singleton_self _)) hBefore

/-! ### As far as the program gets -/

/-- Whether the program gets through what has been read without stopping. -/
def getsThrough (e : Engine κ) (read : List (Except Error Statement)) : Bool :=
  (carryOut ⟨{ e with loaded := true }, none⟩ read).1

theorem carryOut_append {b : Build κ} {done : List (Except Error Statement)}
    (h : (carryOut b done).1 = true) (rest : List (Except Error Statement)) :
    carryOut b (done ++ rest) = carryOut (done.foldl applyResult b) rest := by
  induction done generalizing b with
  | nil => rfl
  | cons r done ih =>
      cases hStops : stopsAt b r with
      | true => simp [carryOut, hStops] at h
      | false =>
          have hRest : (carryOut (applyResult b r) done).1 = true := by
            simpa [carryOut, hStops] using h
          simpa [carryOut, hStops] using ih hRest

theorem carryOut_of_through {b : Build κ} {read : List (Except Error Statement)}
    (h : (carryOut b read).1 = true) : carryOut b read = (true, read.foldl applyResult b) := by
  simpa [carryOut] using carryOut_append h []

/-- The first directive at which the program stops. -/
theorem exists_stop {b : Build κ} {read : List (Except Error Statement)}
    (h : (carryOut b read).1 = false) : ∃ done r rest, read = done ++ r :: rest ∧
      (carryOut b done).1 = true ∧ stopsAt (done.foldl applyResult b) r = true := by
  induction read generalizing b with
  | nil => simp [carryOut] at h
  | cons r read ih =>
      cases hStops : stopsAt b r with
      | true => exact ⟨[], r, read, rfl, rfl, hStops⟩
      | false =>
          have hRest : (carryOut (applyResult b r) read).1 = false := by
            simpa [carryOut, hStops] using h
          obtain ⟨done, r', rest, rfl, hThrough, hLater⟩ := ih hRest
          exact ⟨r :: done, r', rest, rfl, by simpa [carryOut, hStops] using hThrough, hLater⟩

/-- A program that gets through stops nowhere on its way. -/
theorem stopsAt_of_getsThrough {done rest : List (Except Error Statement)}
    {r : Except Error Statement} (h : e.getsThrough (done ++ r :: rest) = true) :
    e.getsThrough done = true ∧ stopsAt (e.reading done) r = false := by
  cases hThrough : e.getsThrough done with
  | true =>
      refine ⟨rfl, Bool.eq_false_iff.mpr fun hStops => ?_⟩
      rw [getsThrough, carryOut_append hThrough, ← reading, carryOut, if_pos hStops] at h
      cases h
  | false =>
      obtain ⟨before, r', later, rfl, hDone, hStops⟩ := exists_stop hThrough
      rw [getsThrough, List.append_assoc, carryOut_append hDone, List.cons_append, carryOut,
        if_pos hStops] at h
      cases h

theorem getsThrough_concat (e : Engine κ) (read : List (Except Error Statement))
    (r : Except Error Statement) :
    e.getsThrough (read ++ [r]) = (e.getsThrough read && !stopsAt (e.reading read) r) := by
  cases hThrough : e.getsThrough read with
  | true =>
      rw [getsThrough, carryOut_append hThrough]
      change (carryOut (e.reading read) [r]).1 = (true && !stopsAt (e.reading read) r)
      cases hStops : stopsAt (e.reading read) r <;> simp [carryOut, hStops]
  | false =>
      obtain ⟨done, r', rest, rfl, hDone, hStops⟩ := exists_stop hThrough
      rw [getsThrough, List.append_assoc, carryOut_append hDone]
      simp [carryOut, hStops]

omit [CustomKind κ] in
/-- The program stops at connections only, and only where they overflow. -/
theorem stopsAt_iff {b : Build κ} {r : Except Error Statement} : stopsAt b r = true ↔
    ∃ s source outlet sink inlet, r = .ok s ∧ s.directive = .connect source outlet sink inlet ∧
      b.engine.graph.overflows source outlet sink inlet = true := by
  constructor
  · intro hStops
    unfold stopsAt at hStops
    split at hStops
    · exact ⟨_, _, _, _, _, rfl, rfl, hStops⟩
    · cases hStops
  · rintro ⟨⟨line, _⟩, source, outlet, sink, inlet, rfl, rfl, hOverflows⟩
    exact hOverflows

/-- A program that stops has been asked for the last inlet of all. -/
theorem exists_last_inlet {read : List (Except Error Statement)} (h : e.getsThrough read = false) :
    ∃ s ∈ legible read, ∃ source outlet sink inlet,
      s.directive = .connect source outlet sink inlet ∧ twoTo 64 ≤ inlet + 1 := by
  obtain ⟨done, r, rest, rfl, -, hStops⟩ := exists_stop h
  obtain ⟨s, source, outlet, sink, inlet, rfl, hDirective, hOverflows⟩ := stopsAt_iff.mp hStops
  obtain ⟨-, hReach⟩ := Graph.overflows_iff.mp hOverflows
  obtain ⟨-, -, -, -, hBeyond⟩ := Graph.reachInlet_eq_overflow_iff.mp hReach
  exact ⟨s, mem_legible.mpr (by simp), source, outlet, sink, inlet, hDirective, hBeyond⟩

/-- What a load is refused for in the end is a cycle. -/
theorem finish_ne_overflow (e : Engine κ) : e.finish.1 ≠ .error .overflow := by
  unfold finish
  rcases e.graph.setupInPlace_eq with ⟨n, -, hSetup⟩ | ⟨-, resolved, -, hSetup⟩ <;> simp [hSetup]

/-- **Loading finishes what has been built, or ends where the program stops.** -/
theorem loadRead_cases (hUnloaded : e.loaded = false) (read : List (Except Error Statement)) :
    (e.getsThrough read = true ∧ e.loadRead read = (e.build read).finish) ∨
      e.getsThrough read = false ∧ ∃ done r rest, read = done ++ r :: rest ∧
        e.getsThrough done = true ∧ stopsAt (e.reading done) r = true ∧
          e.loadRead read = (.error .overflow, (e.reading done).engine) := by
  rw [loadRead, if_neg (by simp [hUnloaded])]
  cases hThrough : e.getsThrough read with
  | true => exact .inl ⟨rfl, congrArg conclude (carryOut_of_through hThrough)⟩
  | false =>
      obtain ⟨done, r, rest, rfl, hDone, hStops⟩ := exists_stop hThrough
      refine .inr ⟨rfl, done, r, rest, rfl, hDone, hStops, ?_⟩
      rw [carryOut_append hDone, carryOut, if_pos hStops]
      rfl

theorem loadRead_of_through (hUnloaded : e.loaded = false) {read : List (Except Error Statement)}
    (h : e.getsThrough read = true) : e.loadRead read = (e.build read).finish := by
  rcases loadRead_cases hUnloaded read with ⟨-, hFinish⟩ | ⟨hNot, -⟩
  · exact hFinish
  · simp [h] at hNot

theorem loadRead_of_stopped (hUnloaded : e.loaded = false) {read : List (Except Error Statement)}
    (h : e.getsThrough read = false) : (e.loadRead read).1 = .error .overflow := by
  rcases loadRead_cases hUnloaded read with ⟨hThrough, -⟩ | ⟨-, _, _, _, -, -, -, hStopped⟩
  · simp [h] at hThrough
  · rw [hStopped]

end Engine

/-! ### Arrays that could be read -/

namespace Patch

theorem bind_eq_ok {ε α β : Type} {x : Except ε α} {f : α → Except ε β} {b : β} :
    x >>= f = .ok b ↔ ∃ a, x = .ok a ∧ f a = .ok b := by
  cases x with
  | error fault => simp [bind, Except.bind]
  | ok a => simp [bind, Except.bind]

/-- An array that is too long cannot be read. -/
theorem size_le_of_readDirective {line : Nat} {tokens : List String} {name : String} {size : Nat}
    {args : List String} (h : readDirective line tokens = .ok (.array name size args)) :
    size ≤ maxTableSize := by
  unfold readDirective at h
  split at h
  case h_4 =>
    obtain ⟨n, -, h⟩ := bind_eq_ok.mp h
    split at h
    · simp at h
    · rename_i hLe
      simp only [pure, Except.pure, Except.ok.injEq, Directive.array.injEq] at h
      exact h.2.1 ▸ Nat.le_of_not_lt hLe
  case h_1 =>
    obtain ⟨position, -, h⟩ := bind_eq_ok.mp h
    split at h <;> simp [pure, Except.pure] at h
  all_goals simp [bind_eq_ok, pure, Except.pure] at h

/-- Every statement of a patch was read from some words. -/
theorem exists_readDirective {source : String} {s : Statement} (hs : .ok s ∈ read source) :
    ∃ line tokens, readDirective line tokens = .ok s.directive := by
  obtain ⟨d, -, hRead⟩ := List.mem_map.mp hs
  refine ⟨d.1, (words d.2).map String.ofList, ?_⟩
  cases hDirective : readDirective d.1 ((words d.2).map String.ofList) with
  | error fault => simp [readStatement, hDirective, Except.map] at hRead
  | ok directive =>
      obtain rfl : (⟨d.1, directive⟩ : Statement) = s := by
        simpa [readStatement, hDirective, Except.map] using hRead
      rfl

theorem size_le_of_mem_read {source : String} {s : Statement} (hs : .ok s ∈ read source)
    {name : String} {size : Nat} {args : List String} (hArray : s.directive = .array name size args) :
    size ≤ maxTableSize := by
  obtain ⟨line, tokens, hDirective⟩ := exists_readDirective hs
  exact size_le_of_readDirective (hArray ▸ hDirective)

end Patch

end Patchbay
