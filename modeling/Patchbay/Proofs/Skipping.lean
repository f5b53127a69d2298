import Patchbay.Proofs.Connect
import Patchbay.Proofs.Cycle
import Patchbay.Proofs.Reading

/-
Directives that are skipped.

A directive that cannot be read or carried out is noted in the journal, and that is all that it
does: the journal is written and never read, so the rest of the load goes as if the directive were
not there.  Two things are needed for this.  `skips` says that each way of being refused leaves
the build as it was but for a warning; what is refused depends on the build at that place, so
`Trimmed` goes along with it.  `BlindAt` says of an operation that it writes what it writes and does
what it does whatever the journal holds; everything that a load consists of is blind.

`Thins` compares the journals: the one of the shorter list is the other one without some warnings,
one for each directive that was left out.
-/

namespace Patchbay

/-! ### Journals -/

/-- Whether an event is a record of a warning or an error. -/
def Event.isWarning {κ : Type} : Event κ → Bool
  | .entry (.record level _ _) => level.shows .warn
  | _ => false

/-- The second journal is the first one without that many warnings. -/
structure Thins {κ : Type} (count : Nat) (full thin : Array (Event κ)) : Prop where
  order : thin.toList.Sublist full.toList
  others : thin.toList.filter (fun x => !x.isWarning) = full.toList.filter fun x => !x.isWarning
  count : full.size = thin.size + count

namespace Thins

variable {κ : Type} {count : Nat} {full thin : Array (Event κ)}

theorem refl (journal : Array (Event κ)) : Thins 0 journal journal :=
  ⟨.refl _, rfl, rfl⟩

/-- Writing the same at the end of both. -/
theorem append (h : Thins count full thin) (written : Array (Event κ)) :
    Thins count (full ++ written) (thin ++ written) := by
  refine ⟨?_, ?_, ?_⟩
  · rw [Array.toList_append, Array.toList_append]
    exact h.order.append_right _
  · rw [Array.toList_append, Array.toList_append, List.filter_append, List.filter_append, h.others]
  · rw [Array.size_append, Array.size_append, h.count]
    omega

/-- Writing one warning more at the end of the first. -/
theorem warn (h : Thins count full thin) {x : Event κ} (hWarning : x.isWarning = true) :
    Thins (count + 1) (full ++ #[x]) thin := by
  refine ⟨?_, ?_, ?_⟩
  · rw [Array.toList_append]
    exact h.order.trans (List.sublist_append_left _ _)
  · rw [Array.toList_append, List.filter_append, h.others]
    simp [hWarning]
  · rw [Array.size_append, h.count]
    simp
    omega

end Thins

namespace Engine

variable {κ : Type} {e : Engine κ}

/-- The same engine with another journal. -/
def withJournal (e : Engine κ) (journal : Array (Event κ)) : Engine κ :=
  { e with journal }

/-- Whatever the journal holds, the operation does the same here and writes the same. -/
def BlindAt (f : Engine κ → Engine κ) (e : Engine κ) : Prop :=
  ∃ written, ∀ journal, f (e.withJournal journal) = (f e).withJournal (journal ++ written)

theorem blindAt_id (e : Engine κ) : BlindAt (fun e => e) e := ⟨#[], fun journal => by simp⟩

theorem BlindAt.comp {f g : Engine κ → Engine κ} (hg : BlindAt g (f e)) (hf : BlindAt f e) :
    BlindAt (fun e => g (f e)) e := by
  obtain ⟨written, hFirst⟩ := hf
  obtain ⟨more, hSecond⟩ := hg
  refine ⟨written ++ more, fun journal => ?_⟩
  show g (f (e.withJournal journal)) = _
  rw [hFirst, hSecond, Array.append_assoc]

/-- A fold is blind if each of its steps is. -/
theorem blindAt_foldl {α : Type} {f : Engine κ → α → Engine κ}
    (h : ∀ e a, BlindAt (fun e => f e a) e) (l : List α) :
    ∀ e : Engine κ, BlindAt (fun e => l.foldl f e) e := by
  induction l with
  | nil => exact blindAt_id
  | cons a l ih =>
      intro e
      exact BlindAt.comp (g := fun e => l.foldl f e) (f := fun e => f e a) (ih _) (h e a)

theorem blindAt_log (e : Engine κ) (entries : List Entry) : BlindAt (fun e => e.log entries) e :=
  ⟨_, fun _ => rfl⟩

/-- An operation that writes nothing. -/
theorem blindAt_of_silent {f : Engine κ → Engine κ}
    (h : ∀ journal, f (e.withJournal journal) = (f e).withJournal journal) : BlindAt f e :=
  ⟨#[], fun journal => by rw [h, Array.append_empty]⟩

/-- What a blind operation writes goes to the end of the journal. -/
theorem BlindAt.thins {f : Engine κ → Engine κ} (h : BlindAt f e) {count : Nat}
    {journal : Array (Event κ)} (hThins : Thins count e.journal journal) :
    ∃ journal', f (e.withJournal journal) = (f e).withJournal journal' ∧
      Thins count (f e).journal journal' := by
  obtain ⟨written, hWrites⟩ := h
  refine ⟨journal ++ written, hWrites journal, ?_⟩
  have hSelf : f e = (f e).withJournal (e.journal ++ written) := hWrites e.journal
  have hJournal : (f e).journal = e.journal ++ written := congrArg Engine.journal hSelf
  rw [hJournal]
  exact hThins.append written

/-! ### What a load consists of -/

variable [CustomKind κ]

theorem blindAt_createNode (e : Engine κ) (kind : String) (position : Position)
    (args : List String) : BlindAt (fun e => e.createNode kind position args) e :=
  let resolved := e.registry.resolve (writtenKind kind)
  let entries := resolved.2 ++ (resolved.1.make args).2 ++
    [.trace s!"added {writtenKind kind} at index {e.graph.size}"]
  ⟨(entries.map Event.entry).toArray, fun _ => rfl⟩

omit [CustomKind κ] in
theorem blindAt_connect (e : Engine κ) (line source outlet sink inlet : Nat) :
    BlindAt (fun e => e.connect line source outlet sink inlet) e := by
  have hGraph : ∀ journal, (e.withJournal journal).graph = e.graph := fun _ => rfl
  unfold BlindAt connect
  simp only [hGraph]
  cases e.graph.connect source outlet sink inlet with
  | ok made => exact ⟨_, fun _ => rfl⟩
  | error fault =>
      cases fault with
      | overflow => exact blindAt_id e
      | _ => exact ⟨_, fun _ => rfl⟩

omit [CustomKind κ] in
theorem blindAt_grant (node : Nat) (e : Engine κ) (r : Request) :
    BlindAt (fun e => grant node e r) e := by
  cases r with
  | record entry => exact blindAt_log e [entry]
  | constant inlet value => exact blindAt_of_silent fun _ => rfl
  | listen name => exact blindAt_of_silent fun _ => rfl
  | schedule due commands => exact blindAt_of_silent fun _ => rfl

theorem blindAt_initNode (e : Engine κ) (node : Nat) : BlindAt (fun e => e.initNode node) e := by
  unfold initNode
  cases hNode : e.graph.nodes[node]? with
  | none =>
      refine blindAt_of_silent fun journal => ?_
      have hThere : (e.withJournal journal).graph.nodes[node]? = none := hNode
      simp only [hNode, hThere]
  | some n =>
      have hGrants := BlindAt.comp
        (f := fun e => e.onGraph fun g => g.modifyNode node fun k =>
          { k with object := (n.object.init (e.initScope node n)).1 })
        (blindAt_foldl (blindAt_grant node) (n.object.init (e.initScope node n)).2 _)
        (blindAt_of_silent (e := e) fun _ => rfl)
      obtain ⟨written, hWrites⟩ := hGrants
      refine ⟨written, fun journal => ?_⟩
      have hThere : (e.withJournal journal).graph.nodes[node]? = some n := hNode
      simp only [hNode, hThere]
      exact hWrites journal

theorem blindAt_initNodes (e : Engine κ) : BlindAt initNodes e :=
  blindAt_foldl blindAt_initNode (List.range e.graph.size) e

theorem blindAt_applyResult (b : Build κ) (r : Except Error Statement) :
    BlindAt (fun e => (applyResult ⟨e, b.openTable⟩ r).engine) b.engine := by
  cases r with
  | error fault => exact blindAt_log _ _
  | ok s =>
      obtain ⟨line, d⟩ := s
      cases d with
      | object position kind args => exact blindAt_createNode b.engine kind position args
      | message position text => exact blindAt_createNode b.engine "msg" position text
      | comment position text => exact blindAt_createNode b.engine "text" position text
      | connect source outlet sink inlet =>
          exact blindAt_connect b.engine line source outlet sink inlet
      | restore => exact blindAt_id b.engine
      | ignored => exact blindAt_id b.engine
      | array name size args =>
          let made := Tables.create b.engine.tables name size
          have hMade : BlindAt (fun e => { e with tables := made.1 }.log made.2) b.engine :=
            ⟨_, fun _ => rfl⟩
          exact (blindAt_createNode _ "table" ⟨0, 0⟩ (name :: toString size :: args)).comp hMade
      | fill start values =>
          simp only [BlindAt, applyResult, apply]
          have hFill : ∀ journal, (b.engine.withJournal journal).fillTable line b.openTable start
              values = b.engine.fillTable line b.openTable start values := fun _ => rfl
          simp only [hFill]
          cases b.engine.fillTable line b.openTable start values with
          | ok tables => exact blindAt_of_silent (f := fun e => { e with tables }) fun _ => rfl
          | error fault => exact blindAt_log _ _

/-! ### Directives that are left out -/

/-- A directive that cannot be read, or a connection or data that is refused there. -/
def Skipped (b : Build κ) : Except Error Statement → Prop
  | .error _ => True
  | .ok ⟨_, .connect source outlet sink inlet⟩ =>
    ∃ fault, fault ≠ .overflow ∧
      (b.engine.graph.connectInPlace source outlet sink inlet).1 = .error fault
  | .ok ⟨line, .fill start values⟩ =>
    ∃ fault, b.engine.fillTable line b.openTable start values = .error fault
  | _ => False

/-- What is read by the second list is what is read by the first one, without some directives that
are skipped where they stand. -/
inductive Trimmed : Build κ → List (Except Error Statement) → List (Except Error Statement) → Prop
  | nil (b : Build κ) : Trimmed b [] []
  | keep {b : Build κ} {r : Except Error Statement} {read read' : List (Except Error Statement)}
      (h : Trimmed (applyResult b r) read read') : Trimmed b (r :: read) (r :: read')
  | drop {b : Build κ} {r : Except Error Statement} {read read' : List (Except Error Statement)}
      (hSkipped : Skipped b r) (h : Trimmed (applyResult b r) read read') :
      Trimmed b (r :: read) read'

/-- **A directive that is skipped leaves a warning and nothing else.** -/
theorem Skipped.applyResult_eq {b : Build κ} {r : Except Error Statement} (h : Skipped b r) :
    ∃ x : Event κ, x.isWarning = true ∧
      applyResult b r = ⟨b.engine.withJournal (b.engine.journal ++ #[x]), b.openTable⟩ := by
  unfold Skipped at h
  split at h
  · rename_i fault
    exact ⟨.entry (.warn fault.message), rfl, rfl⟩
  · rename_i line source outlet sink inlet
    obtain ⟨fault, hNot, hFault⟩ := h
    refine ⟨.entry (.warn (Error.malformed line
      (.refusedWire source outlet sink inlet fault)).message), rfl, ?_⟩
    have hRefused : b.engine.graph.connect source outlet sink inlet = .error fault := by
      rw [Graph.connectInPlace_eq] at hFault
      cases hConnect : b.engine.graph.connect source outlet sink inlet with
      | ok made => simp [hConnect] at hFault
      | error other => simpa [hConnect] using hFault
    simp only [applyResult, apply, connect_of_refused hRefused hNot]
    rfl
  · obtain ⟨fault, hFault⟩ := h
    refine ⟨.entry (.error fault.message), rfl, ?_⟩
    simp only [applyResult, apply, hFault]
    rfl
  · exact h.elim

/-- A directive that is kept does the same with the shorter journal. -/
theorem applyResult_thins (b : Build κ) (r : Except Error Statement) {count : Nat}
    {journal : Array (Event κ)} (h : Thins count b.engine.journal journal) :
    ∃ journal', applyResult ⟨b.engine.withJournal journal, b.openTable⟩ r =
        ⟨(applyResult b r).engine.withJournal journal', (applyResult b r).openTable⟩ ∧
      Thins count (applyResult b r).engine.journal journal' := by
  obtain ⟨journal', hEngine, hThins⟩ := (blindAt_applyResult b r).thins h
  have hOpen : (applyResult ⟨b.engine.withJournal journal, b.openTable⟩ r).openTable =
      (applyResult b r).openTable := by
    cases r with
    | error fault => rfl
    | ok s => rw [applyResult, applyResult, openTable_apply, openTable_apply]
  refine ⟨journal', ?_, hThins⟩
  rw [← hOpen]
  exact congrArg (Build.mk · _) hEngine

omit [CustomKind κ] in
/-- The program does not stop at what is skipped. -/
theorem Skipped.not_stops {b : Build κ} {r : Except Error Statement} (h : Skipped b r) :
    stopsAt b r = false := by
  unfold Skipped at h
  split at h
  · rfl
  · obtain ⟨fault, hNot, hFault⟩ := h
    rw [Graph.connectInPlace_eq] at hFault
    rw [stopsAt, Graph.overflows]
    split
    · rename_i hOverflow
      simp only [hOverflow, Except.error.injEq] at hFault
      exact absurd hFault.symm hNot
    · rfl
  · rfl
  · exact h.elim

omit [CustomKind κ] in
/-- Where the program stops is no matter of what has been written. -/
theorem stopsAt_withJournal (b : Build κ) (journal : Array (Event κ)) (r : Except Error Statement) :
    stopsAt ⟨b.engine.withJournal journal, b.openTable⟩ r = stopsAt b r := by
  unfold stopsAt
  split <;> rfl

theorem Trimmed.length_le {b : Build κ} {read read' : List (Except Error Statement)}
    (h : Trimmed b read read') : read'.length ≤ read.length := by
  induction h with
  | nil b => exact Nat.le_refl _
  | keep _ ih => exact Nat.succ_le_succ ih
  | drop _ _ ih => exact Nat.le_succ_of_le ih

/-- **Leaving out what is skipped leaves out its warnings**, as far as the program gets. -/
theorem Trimmed.carried {b : Build κ} {read read' : List (Except Error Statement)}
    (h : Trimmed b read read') : ∀ {count : Nat} {journal : Array (Event κ)},
      Thins count b.engine.journal journal → ∃ dropped journal',
        read'.length + dropped ≤ read.length ∧
        ((carryOut b read).1 = true → read.length = read'.length + dropped) ∧
        carryOut ⟨b.engine.withJournal journal, b.openTable⟩ read' =
          ((carryOut b read).1, ⟨(carryOut b read).2.engine.withJournal journal',
            (carryOut b read).2.openTable⟩) ∧
        Thins (count + dropped) (carryOut b read).2.engine.journal journal' := by
  induction h with
  | nil b => exact fun {_ journal} hThins => ⟨0, journal, Nat.le_refl _, fun _ => rfl, rfl, hThins⟩
  | @keep b r read read' h ih =>
      intro count journal hThins
      simp only [carryOut, stopsAt_withJournal]
      cases hStops : stopsAt b r with
      | true => exact ⟨0, journal, by simpa using h.length_le, by simp, rfl, hThins⟩
      | false =>
          obtain ⟨next, hNext, hThins⟩ := applyResult_thins b r hThins
          obtain ⟨dropped, journal', hLe, hLength, hCarried, hThins⟩ := ih hThins
          rw [hNext]
          refine ⟨dropped, journal', ?_, fun hThrough => ?_, hCarried, hThins⟩
          · simp only [List.length_cons]
            omega
          · simp only [List.length_cons, hLength hThrough]
            omega
  | @drop b r read read' hSkipped _ ih =>
      intro count journal hThins
      obtain ⟨x, hWarning, hEq⟩ := hSkipped.applyResult_eq
      rw [hEq] at ih
      obtain ⟨dropped, journal', hLe, hLength, hCarried, hThins⟩ := ih (hThins.warn hWarning)
      simp only [carryOut, hSkipped.not_stops, hEq]
      refine ⟨dropped + 1, journal', ?_, fun hThrough => ?_, hCarried, ?_⟩
      · simp only [List.length_cons]
        omega
      · simp only [List.length_cons, hLength hThrough]
        omega
      · rw [Nat.add_comm dropped, ← Nat.add_assoc]
        exact hThins

/-! ### Loading what has been read -/

theorem load_eq_loadRead (e : Engine κ) (source : String) :
    e.load source = e.loadRead (Patch.read source) :=
  rfl

/-- Finishing does not depend on what has been written. -/
theorem finish_thins {count : Nat} {journal : Array (Event κ)}
    (h : Thins count e.journal journal) : ∃ journal',
      (e.withJournal journal).finish = (e.finish.1, e.finish.2.withJournal journal') ∧
        Thins count e.finish.2.journal journal' := by
  have hGraph : (e.withJournal journal).graph = e.graph := rfl
  unfold finish
  rw [hGraph]
  rcases e.graph.setupInPlace with ⟨result, graph⟩
  cases result with
  | error fault => exact ⟨journal, rfl, h⟩
  | ok _ =>
      have hLog : BlindAt (fun e => e.log [e.loadedEntry]) { e with graph }.initNodes :=
        ⟨#[.entry { e with graph }.initNodes.loadedEntry], fun _ => rfl⟩
      have hBlind := hLog.comp (blindAt_initNodes { e with graph })
      obtain ⟨journal', hEq, hThins⟩ := hBlind.thins h
      exact ⟨journal', congrArg (Prod.mk _) hEq, hThins⟩

/-- Neither does what a load comes to. -/
theorem conclude_thins (carried : Bool × Build κ) {count : Nat} {journal : Array (Event κ)}
    (h : Thins count carried.2.engine.journal journal) : ∃ journal',
      conclude (carried.1, ⟨carried.2.engine.withJournal journal, carried.2.openTable⟩) =
          ((conclude carried).1, (conclude carried).2.withJournal journal') ∧
        Thins count (conclude carried).2.journal journal' := by
  obtain ⟨through, b⟩ := carried
  cases through with
  | false => exact ⟨journal, rfl, h⟩
  | true => exact finish_thins h

/--
**Directives that are skipped might as well not be there.**  Leaving out of a list of directives
some that cannot be read, or that are refused where they stand, leaves the outcome of a load as it
is: it succeeds just as before or is refused for the same node, and the engine is the same one
but for its journal, which lacks one warning for each of them and nothing else.  If the program
stops on the way, it does so as before, and only the warnings up to there are missing.
-/
theorem skipped_leave_warnings (e : Engine κ) (hUnloaded : e.loaded = false)
    {read read' : List (Except Error Statement)}
    (h : Trimmed ⟨{ e with loaded := true }, none⟩ read read') :
    (e.loadRead read').1 = (e.loadRead read).1 ∧
      (∃ count journal, (e.loadRead read').2 = (e.loadRead read).2.withJournal journal ∧
        Thins count (e.loadRead read).2.journal journal ∧ read'.length + count ≤ read.length ∧
        ((e.loadRead read).1 ≠ .error .overflow → count = read.length - read'.length)) ∧
      ∀ source, e.load source = e.loadRead (Patch.read source) := by
  obtain ⟨dropped, journal, hLe, hLength, hCarried, hThins⟩ := h.carried (.refl e.journal)
  rw [Nat.zero_add] at hThins
  obtain ⟨journal', hConclude, hThins⟩ := conclude_thins _ hThins
  have hLoad : ∀ read, e.loadRead read = conclude (carryOut ⟨{ e with loaded := true }, none⟩
      read) := fun read => by
    rw [loadRead, if_neg (by simp [hUnloaded])]
  have hLoad' : e.loadRead read' = _ :=
    (hLoad read').trans ((congrArg conclude hCarried).trans hConclude)
  rw [← hLoad] at hThins
  refine ⟨by rw [hLoad', hLoad], ⟨dropped, journal', by rw [hLoad', hLoad], hThins, hLe, fun hNot => ?_⟩,
    e.load_eq_loadRead⟩
  rcases loadRead_cases hUnloaded read with ⟨hThrough, -⟩ | ⟨-, _, _, _, -, -, -, hStopped⟩
  · have hCount := hLength hThrough
    omega
  · exact absurd (congrArg Prod.fst hStopped) hNot

/-- A directive that cannot be read, a connection to a node that is not there yet, and data for no
table, between two boxes that are connected. -/
def withSkipped : List (Except Error Statement) :=
  [.ok ⟨1, .object ⟨0, 0⟩ "f" []⟩, .error (.malformed 2 .fillIncomplete),
    .ok ⟨3, .connect 0 0 1 0⟩, .ok ⟨4, .fill 0 [1]⟩, .ok ⟨5, .object ⟨0, 0⟩ "print" []⟩,
    .ok ⟨6, .connect 0 0 1 0⟩]

/-- The same boxes, and the connection where both are there. -/
def withoutSkipped : List (Except Error Statement) :=
  [.ok ⟨1, .object ⟨0, 0⟩ "f" []⟩, .ok ⟨5, .object ⟨0, 0⟩ "print" []⟩, .ok ⟨6, .connect 0 0 1 0⟩]

theorem skipped_leave_warnings_three :
    let e : Engine Empty := .new .standard .builtin
    Trimmed ⟨{ e with loaded := true }, none⟩ withSkipped withoutSkipped ∧
      ∃ journal, (e.loadRead withoutSkipped).2 = (e.loadRead withSkipped).2.withJournal journal ∧
        Thins 3 (e.loadRead withSkipped).2.journal journal := by
  intro e
  have hTrimmed : Trimmed ⟨{ e with loaded := true }, none⟩ withSkipped withoutSkipped :=
    .keep <| .drop trivial <| .drop ⟨.noNode 1, by simp, rfl⟩ <| .drop ⟨_, rfl⟩ <| .keep <|
      .keep <| .nil _
  have hOutcome : (e.loadRead withSkipped).1 ≠ .error .overflow := by
    have hThrough : e.getsThrough withSkipped = true := by decide +kernel
    rw [loadRead_of_through rfl hThrough]
    exact finish_ne_overflow _
  obtain ⟨-, ⟨count, journal, hSame, hThins, -, hCount⟩, -⟩ := skipped_leave_warnings e rfl hTrimmed
  rw [hCount hOutcome] at hThins
  exact ⟨hTrimmed, journal, hSame, hThins⟩

end Engine

end Patchbay
