import Mathlib.Data.List.Basic
import Patchbay.Patch.Reader

/-
Where the directives of a text stand.

Cutting a text is one walk with a character of look-behind and one of look-ahead.  What
the walk finds can be said without walking: a directive is the span from an opening `#`
to the first terminator after it, the next one opens at the first `#` after that, and
whatever lies between is nobody's.  `Spans` says this by places in the text.  It
determines the spans, and the walk finds them.

From the spans alone it follows that a text whose last directive is closed, and which
ends a line, may be cut apart from what comes after it: no terminator of it looks beyond
its end, and the newline shields the rest from its last backslash.
-/

namespace Patchbay.Source

/-! ### Places in a text -/

/-- A directive may begin here. -/
def Opening (text : List Char) (i : Nat) : Prop :=
  text[i]? = some '#'

/-- A semicolon that no backslash comes right before, at the end of a line or of the text. -/
def Terminator (text : List Char) (i : Nat) : Prop :=
  text[i]? = some ';' ∧ (i = 0 ∨ text[i - 1]? ≠ some '\\') ∧
    (text[i + 1]? = none ∨ text[i + 1]? = some '\n' ∨ text[i + 1]? = some '\r')

/-- The first place from `start` on where something holds. -/
structure First (p : Nat → Prop) (start i : Nat) : Prop where
  le : start ≤ i
  here : p i
  notBefore : ∀ j < i, start ≤ j → ¬p j

instance (text : List Char) (i : Nat) : Decidable (Opening text i) :=
  inferInstanceAs (Decidable (text[i]? = some '#'))

instance (text : List Char) (i : Nat) : Decidable (Terminator text i) :=
  inferInstanceAs (Decidable (_ ∧ _ ∧ _))

instance (p : Nat → Prop) [DecidablePred p] (start i : Nat) : Decidable (First p start i) :=
  decidable_of_iff (start ≤ i ∧ p i ∧ ∀ j < i, start ≤ j → ¬p j)
    ⟨fun ⟨hLe, hHere, hBefore⟩ => ⟨hLe, hHere, hBefore⟩,
      fun h => ⟨h.le, h.here, h.notBefore⟩⟩

/-- The spans of the directives of a text from a place on, each from its `#` to before its
terminator. -/
inductive Spans (text : List Char) : Nat → List (Nat × Nat) → Prop
  /-- Nothing opens any more, or what opens never ends. -/
  | done {start : Nat}
      (h : ∀ first, First (Opening text) start first → ∀ stop ≥ first, ¬Terminator text stop) :
      Spans text start []
  | cons {start first stop : Nat} {spans : List (Nat × Nat)}
      (hFirst : First (Opening text) start first) (hStop : First (Terminator text) first stop)
      (hRest : Spans text (stop + 1) spans) : Spans text start ((first, stop) :: spans)

/-- What a span of a text comes to: the line that it begins on, and the characters in it. -/
def cite (text : List Char) (span : Nat × Nat) : Nat × List Char :=
  (1 + (text.take span.1).count '\n', (text.drop span.1).take (span.2 - span.1))

/-- Where the text after some spans begins. -/
def afterSpans (start : Nat) : List (Nat × Nat) → Nat
  | [] => start
  | span :: spans => afterSpans (span.2 + 1) spans

/-- Nothing opens after the last directive that ends. -/
def Closed (text : List Char) : Prop :=
  ∀ spans, Spans text 0 spans → ∀ i ≥ afterSpans 0 spans, ¬Opening text i

variable {text : List Char}

/-! ### The spans of a text are determined -/

namespace First

variable {p : Nat → Prop} {start i : Nat}

theorem unique {j : Nat} (h : First p start i) (h' : First p start j) : i = j := by
  rcases Nat.lt_trichotomy i j with hLt | rfl | hGt
  · exact absurd h.here (h'.notBefore i hLt h.le)
  · rfl
  · exact absurd h'.here (h.notBefore j hGt h'.le)

/-- A search may begin earlier, as long as nothing is found there. -/
theorem earlier {start' : Nat} (h : First p start i) (hLe : start' ≤ start)
    (hNone : ∀ j < start, start' ≤ j → ¬p j) : First p start' i := by
  refine ⟨Nat.le_trans hLe h.le, h.here, fun j hj hFrom => ?_⟩
  rcases Nat.lt_or_ge j start with hBefore | hAfter
  · exact hNone j hBefore hFrom
  · exact h.notBefore j hj hAfter

/-- A search may begin later, as long as it does not miss what is found. -/
theorem later {start' : Nat} (h : First p start i) (hLe : start ≤ start')
    (hFound : start' ≤ i) : First p start' i :=
  ⟨hFound, h.here, fun j hj hFrom => h.notBefore j hj (Nat.le_trans hLe hFrom)⟩

end First

theorem Spans.unique {start : Nat} {spans spans' : List (Nat × Nat)} (h : Spans text start spans)
    (h' : Spans text start spans') : spans = spans' := by
  induction h generalizing spans' with
  | done hNone =>
      cases h' with
      | done => rfl
      | cons hFirst hStop _ => exact absurd hStop.here (hNone _ hFirst _ hStop.le)
  | cons hFirst hStop _ ih =>
      cases h' with
      | done hNone => exact absurd hStop.here (hNone _ hFirst _ hStop.le)
      | cons hFirst' hStop' hRest' =>
          obtain rfl := hFirst.unique hFirst'
          obtain rfl := hStop.unique hStop'
          rw [ih hRest']

/-- What opens nothing may be skipped. -/
theorem Spans.skip {start start' : Nat} {spans : List (Nat × Nat)} (h : Spans text start' spans)
    (hLe : start ≤ start') (hNone : ∀ i < start', start ≤ i → ¬Opening text i) :
    Spans text start spans := by
  cases h with
  | done hNever =>
      refine .done fun first hFirst => hNever first (hFirst.later hLe ?_)
      exact Nat.le_of_not_lt fun hLt => hNone first hLt hFirst.le hFirst.here
  | cons hFirst hStop hRest => exact .cons (hFirst.earlier hLe hNone) hStop hRest

/-! ### The walk -/

section Walk

variable {before rest : List Char} {c : Char}

/-- What the walk knows of the characters behind it is the last of them. -/
theorem terminator_iff : Terminator (before ++ c :: rest) before.length ↔
    c = ';' ∧ before.getLast?.getD '\x00' ≠ '\\' ∧ atLineEnd rest = true := by
  have hHere : (before ++ c :: rest)[before.length]? = some c := by simp
  have hNext : (before ++ c :: rest)[before.length + 1]? = rest.head? := by
    rw [List.getElem?_append_right (Nat.le_add_right _ 1), Nat.add_sub_cancel_left,
      List.getElem?_cons_succ, List.head?_eq_getElem?]
  have hBehind : (before.length = 0 ∨ (before ++ c :: rest)[before.length - 1]? ≠ some '\\') ↔
      before.getLast?.getD '\x00' ≠ '\\' := by
    rcases List.eq_nil_or_concat before with rfl | ⟨front, last, rfl⟩
    · simp
    · simp
  rw [Terminator, hHere, hNext, hBehind, Option.some.injEq]
  cases rest with
  | nil => simp [atLineEnd]
  | cons d rest => simp [atLineEnd]

theorem opening_iff : Opening (before ++ c :: rest) before.length ↔ c = '#' := by
  simp [Opening]

theorem nextLine_eq : nextLine (1 + before.count '\n') c = 1 + (before ++ [c]).count '\n' := by
  by_cases hc : c = '\n' <;> simp [nextLine, hc, Nat.add_assoc]

/-- The spans of a text in the middle of a directive that began at `first`. -/
inductive OpenSpans (text : List Char) (first start : Nat) : List (Nat × Nat) → Prop
  | never (h : ∀ stop ≥ start, ¬Terminator text stop) : OpenSpans text first start []
  | ends {stop : Nat} {spans : List (Nat × Nat)} (hStop : First (Terminator text) start stop)
      (hRest : Spans text (stop + 1) spans) : OpenSpans text first start ((first, stop) :: spans)

theorem OpenSpans.step {first start : Nat} {spans : List (Nat × Nat)}
    (h : OpenSpans text first (start + 1) spans) (hHere : ¬Terminator text start) :
    OpenSpans text first start spans := by
  have hOnly : ∀ j < start + 1, start ≤ j → ¬Terminator text j := by
    intro j hj hFrom
    rwa [Nat.le_antisymm (Nat.le_of_lt_succ hj) hFrom]
  cases h with
  | never hNever =>
      refine .never fun stop hStop => ?_
      rcases Nat.lt_or_ge stop (start + 1) with hLt | hGe
      · exact hOnly stop hLt hStop
      · exact hNever stop hGe
  | ends hStop hRest => exact .ends (hStop.earlier (Nat.le_succ _) hOnly) hRest

theorem OpenSpans.spans {start : Nat} {spans : List (Nat × Nat)}
    (h : OpenSpans text start (start + 1) spans) (hOpening : Opening text start) :
    Spans text start spans := by
  have hSelf : First (Opening text) start start :=
    ⟨Nat.le_refl _, hOpening, fun j hj hFrom => absurd hj (Nat.not_lt_of_le hFrom)⟩
  have hNot : ¬Terminator text start := fun hTerminator => by
    have hBoth := hOpening.symm.trans hTerminator.1
    simp at hBoth
  cases h.step hNot with
  | never hNever => exact .done fun first hFirst => hSelf.unique hFirst ▸ hNever
  | ends hStop hRest => exact .cons hSelf hStop hRest

/-- **The walk finds the spans.**  Behind it lie `before` and, if a directive is open, the part
of it that has been read. -/
theorem directivesFrom_spans (rest : List Char) : ∀ before : List Char,
    (∃ spans, Spans (before ++ rest) before.length spans ∧
      directivesFrom (before.getLast?.getD '\x00') (1 + before.count '\n') none rest =
        spans.map (cite (before ++ rest))) ∧
    ∀ first ≤ before.length, ∃ spans, OpenSpans (before ++ rest) first before.length spans ∧
      directivesFrom (before.getLast?.getD '\x00') (1 + before.count '\n')
          (some ⟨1 + (before.take first).count '\n', (before.drop first).reverse⟩) rest =
        spans.map (cite (before ++ rest)) := by
  induction rest with
  | nil =>
      intro before
      have hNone : ∀ i ≥ before.length, (before ++ [])[i]? = none := fun i hi => by simpa using hi
      refine ⟨⟨[], .done fun first hFirst => ?_, rfl⟩, fun first _ => ⟨[], .never ?_, rfl⟩⟩
      · have hHere := hFirst.here
        rw [Opening, hNone first hFirst.le] at hHere
        simp at hHere
      · rintro stop hStop ⟨hHere, -⟩
        rw [hNone stop hStop] at hHere
        simp at hHere
  | cons c rest ih =>
      intro before
      obtain ⟨⟨spans, hSpans, hFound⟩, hOpen⟩ := ih (before ++ [c])
      have hText : before ++ [c] ++ rest = before ++ c :: rest := by simp
      have hLength : (before ++ [c]).length = before.length + 1 := by simp
      simp only [hText, hLength, List.getLast?_concat, Option.getD_some, ← nextLine_eq]
        at hSpans hFound hOpen
      refine ⟨?_, fun first hFirst => ?_⟩
      · by_cases hc : c = '#'
        · obtain ⟨spans, hSpans, hFound⟩ := hOpen before.length (Nat.le_succ _)
          refine ⟨spans, hSpans.spans (opening_iff.mpr hc), ?_⟩
          rw [directivesFrom, if_pos hc, ← hFound]
          simp
        · refine ⟨spans, hSpans.skip (Nat.le_succ _) fun i hi hFrom => ?_, ?_⟩
          · rw [Nat.le_antisymm (Nat.le_of_lt_succ hi) hFrom, opening_iff]
            exact hc
          · rw [directivesFrom, if_neg hc, hFound]
      · rw [directivesFrom]
        split
        · rename_i hEnd
          have hStop := terminator_iff.mpr hEnd
          refine ⟨(first, before.length) :: spans, .ends ⟨Nat.le_refl _, hStop, ?_⟩ hSpans, ?_⟩
          · exact fun j hj hFrom => absurd hj (Nat.not_lt_of_le hFrom)
          · rw [List.map_cons, hFound, cite, List.reverse_reverse,
              List.take_append_of_le_length hFirst, List.drop_append_of_le_length hFirst,
              List.take_left' (List.length_drop ..)]
        · rename_i hEnd
          obtain ⟨spans, hSpans, hFound⟩ := hOpen first (Nat.le_succ_of_le hFirst)
          refine ⟨spans, hSpans.step (mt terminator_iff.mp hEnd), ?_⟩
          rw [← hFound, List.take_append_of_le_length hFirst, List.drop_append_of_le_length hFirst,
            List.reverse_append]
          rfl

end Walk

/-- The directives of a text are those that its spans cite. -/
theorem directives_spans (text : List Char) :
    ∃ spans, Spans text 0 spans ∧ directives text = spans.map (cite text) :=
  (directivesFrom_spans text []).1

theorem directives_eq {spans : List (Nat × Nat)} (h : Spans text 0 spans) :
    directives text = spans.map (cite text) := by
  obtain ⟨spans', h', hFound⟩ := directives_spans text
  rw [hFound, h'.unique h]

/-- A text of one directive, after which nothing opens. -/
theorem closed_of_single {first stop : Nat} (hFirst : First (Opening text) 0 first)
    (hStop : First (Terminator text) first stop)
    (hRest : ∀ i < text.length, stop < i → ¬Opening text i) :
    Spans text 0 [(first, stop)] ∧ Closed text := by
  have hNone : ∀ i ≥ stop + 1, ¬Opening text i := fun i hi hOpening =>
    hRest i (List.getElem?_eq_some_iff.mp hOpening).1 hi hOpening
  have hSpans : Spans text 0 [(first, stop)] :=
    .cons hFirst hStop (.done fun i hi => absurd hi.here (hNone i hi.le))
  exact ⟨hSpans, fun spans h => hSpans.unique h ▸ hNone⟩

/-! ### Texts one after the other -/

section Append

variable {first second : List Char} {start i : Nat}

theorem Opening.lt (h : Opening text i) : i < text.length :=
  (List.getElem?_eq_some_iff.mp h).1

theorem Terminator.lt (h : Terminator text i) : i < text.length :=
  (List.getElem?_eq_some_iff.mp h.1).1

theorem opening_append_left (hi : i < first.length) :
    Opening (first ++ second) i ↔ Opening first i := by
  rw [Opening, Opening, List.getElem?_append_left hi]

theorem opening_append_right :
    Opening (first ++ second) (first.length + i) ↔ Opening second i := by
  rw [Opening, Opening, List.getElem?_append_right (Nat.le_add_right _ _),
    Nat.add_sub_cancel_left]

/-- A text that ends a line has no terminator for its last character, so none of its
terminators looks beyond it. -/
theorem terminator_append_left (hLine : first.getLast? = some '\n') (hi : i < first.length) :
    Terminator (first ++ second) i ↔ Terminator first i := by
  have hHere : (first ++ second)[i]? = first[i]? := List.getElem?_append_left hi
  have hBehind : (first ++ second)[i - 1]? = first[i - 1]? :=
    List.getElem?_append_left (Nat.lt_of_le_of_lt (Nat.sub_le _ _) hi)
  rw [Terminator, Terminator, hHere, hBehind]
  rcases Nat.lt_or_ge (i + 1) first.length with hNext | hLast
  · rw [List.getElem?_append_left hNext]
  · have hEnd : i = first.length - 1 := by omega
    rw [List.getLast?_eq_getElem?, ← hEnd] at hLine
    simp [hLine]

/-- Behind the newline there is no backslash. -/
theorem terminator_append_right (hLine : first.getLast? = some '\n') :
    Terminator (first ++ second) (first.length + i) ↔ Terminator second i := by
  have hAt : ∀ k, (first ++ second)[first.length + k]? = second[k]? := fun k => by
    rw [List.getElem?_append_right (Nat.le_add_right _ _), Nat.add_sub_cancel_left]
  have hBehind : (first.length + i = 0 ∨ (first ++ second)[first.length + i - 1]? ≠ some '\\') ↔
      (i = 0 ∨ second[i - 1]? ≠ some '\\') := by
    cases i with
    | zero =>
        have hLt : first.length - 1 < first.length := by
          rw [List.getLast?_eq_getElem?] at hLine
          exact (List.getElem?_eq_some_iff.mp hLine).1
        rw [List.getLast?_eq_getElem?] at hLine
        rw [Nat.add_zero, List.getElem?_append_left hLt, hLine]
        simp
    | succ k =>
        rw [← Nat.add_assoc, Nat.add_sub_cancel, Nat.add_sub_cancel, hAt]
        simp
  rw [Terminator, Terminator, hBehind, hAt, Nat.add_assoc, hAt]

theorem First.append_left {p q : Nat → Prop} {bound : Nat} (h : First p start i)
    (hi : i < bound) (hSame : ∀ j < bound, q j ↔ p j) : First q start i :=
  ⟨h.le, (hSame i hi).mpr h.here, fun j hj hFrom hq =>
    h.notBefore j hj hFrom ((hSame j (Nat.lt_trans hj hi)).mp hq)⟩

theorem First.append_right {p q : Nat → Prop} {shift : Nat} (h : First p start i)
    (hSame : ∀ j, q (shift + j) ↔ p j) : First q (shift + start) (shift + i) := by
  refine ⟨Nat.add_le_add_left h.le _, (hSame i).mpr h.here, fun j hj hFrom hq => ?_⟩
  obtain ⟨k, rfl⟩ := Nat.exists_eq_add_of_le (Nat.le_trans (Nat.le_add_right _ _) hFrom)
  exact h.notBefore k (by omega) (by omega) ((hSame k).mp hq)

/-- A span of a text, where other text comes first. -/
def moved (shift : Nat) (span : Nat × Nat) : Nat × Nat :=
  (shift + span.1, shift + span.2)

theorem Spans.append_right (hLine : first.getLast? = some '\n') {spans : List (Nat × Nat)}
    (h : Spans second start spans) :
    Spans (first ++ second) (first.length + start) (spans.map (moved first.length)) := by
  induction h with
  | @done start hNever =>
      refine .done fun i hFirst stop hStop hTerminator => ?_
      obtain ⟨k, rfl⟩ := Nat.exists_eq_add_of_le (Nat.le_trans (Nat.le_add_right _ _) hFirst.le)
      obtain ⟨m, rfl⟩ := Nat.exists_eq_add_of_le (Nat.le_trans (Nat.le_add_right _ _) hStop)
      refine hNever k ⟨by have := hFirst.le; omega, opening_append_right.mp hFirst.here, ?_⟩ m
        (by omega) ((terminator_append_right hLine).mp hTerminator)
      exact fun j hj hFrom hOpening => hFirst.notBefore (first.length + j) (by omega) (by omega)
        (opening_append_right.mpr hOpening)
  | cons hFirst hStop _ ih =>
      exact .cons (hFirst.append_right fun _ => opening_append_right)
        (hStop.append_right fun _ => terminator_append_right hLine) ih

/-- The spans of a closed text, and after them those of the text that follows. -/
theorem Spans.append (hLine : first.getLast? = some '\n') {spans later : List (Nat × Nat)}
    (h : Spans first start spans) (hStart : start ≤ first.length)
    (hClosed : ∀ i ≥ afterSpans start spans, ¬Opening first i) (hLater : Spans second 0 later) :
    Spans (first ++ second) start (spans ++ later.map (moved first.length)) := by
  induction h with
  | @done start hNever =>
      refine (hLater.append_right hLine).skip hStart fun i hi hFrom => ?_
      rw [opening_append_left hi]
      exact hClosed i hFrom
  | cons hFirst hStop _ ih =>
      have hLt := hStop.here.lt
      exact .cons (hFirst.append_left hFirst.here.lt fun _ => opening_append_left)
        (hStop.append_left hLt fun _ => terminator_append_left hLine) (ih hLt hClosed)

/-! ### What the spans cite -/

theorem Spans.within {spans : List (Nat × Nat)} (h : Spans text start spans) :
    ∀ span ∈ spans, span.1 ≤ span.2 ∧ span.2 < text.length := by
  induction h with
  | done => simp
  | cons _ hStop _ ih => exact List.forall_mem_cons.mpr ⟨⟨hStop.le, hStop.here.lt⟩, ih⟩

theorem cite_append_left {span : Nat × Nat} (hSpan : span.1 ≤ span.2 ∧ span.2 < first.length) :
    cite (first ++ second) span = cite first span := by
  obtain ⟨hLe, hLt⟩ := hSpan
  have hFrom : span.1 ≤ first.length := Nat.le_of_lt (Nat.lt_of_le_of_lt hLe hLt)
  have hFits : span.2 - span.1 ≤ (first.drop span.1).length := by
    rw [List.length_drop]
    omega
  rw [cite, cite, List.take_append_of_le_length hFrom, List.drop_append_of_le_length hFrom,
    List.take_append_of_le_length hFits]

/-- A directive that stands further down. -/
def lowered {α : Type} (lines : Nat) (directive : Nat × α) : Nat × α :=
  (directive.1 + lines, directive.2)

theorem cite_append_right (span : Nat × Nat) :
    cite (first ++ second) (moved first.length span) =
      lowered (first.count '\n') (cite second span) := by
  have hLength : first.length + span.2 - (first.length + span.1) = span.2 - span.1 := by omega
  rw [cite, moved, lowered, cite, List.take_length_add_append, List.drop_length_add_append,
    hLength, List.count_append, Nat.add_right_comm, Nat.add_assoc]

/-- **A closed text that ends a line is cut apart from what follows it.** -/
theorem directives_append (hClosed : Closed first) (hLine : first.getLast? = some '\n') :
    directives (first ++ second) =
      directives first ++ (directives second).map (lowered (first.count '\n')) := by
  obtain ⟨spans, hSpans, hFirst⟩ := directives_spans first
  obtain ⟨later, hLater, hSecond⟩ := directives_spans second
  have hBoth := hSpans.append hLine (Nat.zero_le _) (hClosed spans hSpans) hLater
  have hLeft : spans.map (cite (first ++ second)) = spans.map (cite first) :=
    List.map_congr_left fun span hSpan => cite_append_left (hSpans.within span hSpan)
  have hRight : (later.map (moved first.length)).map (cite (first ++ second)) =
      (later.map (cite second)).map (lowered (first.count '\n')) := by
    rw [List.map_map, List.map_map]
    exact List.map_congr_left fun span _ => cite_append_right span
  rw [directives_eq hBoth, hFirst, hSecond, List.map_append, hLeft, hRight]

end Append

end Patchbay.Source

namespace Patchbay.Patch

open Source

/-- What a span of a source says: a line, and a text. -/
def excerpt (source : String) (span : Nat × Nat) : Nat × String :=
  ((cite source.toList span).1, String.ofList (cite source.toList span).2)

theorem split_eq (source : String) : split source =
    (directives source.toList).map fun d => (d.1, String.ofList d.2) := rfl

/--
**The directives of a source are its spans, and nothing else.**  Each span begins at the first
`#` after the terminator of the one before it and runs to the first terminator after that `#`;
its line counts the newlines before it.  Where the last directive of a source is closed and
the source ends a line, whatever is appended is split as if it stood alone, and stands so
many lines further down.
-/
theorem split_by_spans (source : String) :
    (∀ found : List (Nat × String), split source = found ↔
      ∃ spans, Spans source.toList 0 spans ∧ found = spans.map (excerpt source)) ∧
    ∀ rest : String, Closed source.toList → source.toList.getLast? = some '\n' →
      split (source ++ rest) =
        split source ++ (split rest).map (lowered (source.toList.count '\n')) := by
  have hSplit : ∀ spans, Spans source.toList 0 spans →
      split source = spans.map (excerpt source) := by
    intro spans hSpans
    rw [split_eq, directives_eq hSpans, List.map_map]
    rfl
  refine ⟨fun found => ⟨?_, ?_⟩, fun rest hClosed hLine => ?_⟩
  · rintro rfl
    obtain ⟨spans, hSpans, -⟩ := directives_spans source.toList
    exact ⟨spans, hSpans, hSplit spans hSpans⟩
  · rintro ⟨spans, hSpans, rfl⟩
    exact hSplit spans hSpans
  · rw [split_eq, String.toList_append, directives_append hClosed hLine, List.map_append,
      List.map_map, split_eq, split_eq, List.map_map]
    rfl

/-- An escaped semicolon and a doubled one, in a directive that a line of its own follows. -/
theorem split_by_spans_escaped :
    let source := "é #N \\;\n;;\r\n"
    Closed source.toList ∧ source.toList.getLast? = some '\n' ∧
      split (source ++ "#A 0;") = [(1, "#N \\;\n;"), (3, "#A 0")] := by
  intro source
  have hText : source.toList =
      ['é', ' ', '#', 'N', ' ', '\\', ';', '\n', ';', ';', '\r', '\n'] := by
    decide +kernel
  obtain ⟨hSpans, hClosed⟩ : Spans source.toList 0 [(2, 9)] ∧ Closed source.toList := by
    rw [hText]
    exact closed_of_single (by decide) (by decide) (by decide)
  have hLine : source.toList.getLast? = some '\n' := by
    rw [hText]
    rfl
  obtain ⟨hSplit, hAppend⟩ := split_by_spans source
  refine ⟨hClosed, hLine, ?_⟩
  rw [hAppend "#A 0;" hClosed hLine, (hSplit _).mpr ⟨_, hSpans, rfl⟩]
  decide +kernel

end Patchbay.Patch
