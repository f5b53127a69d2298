import Mathlib
import Patchbay.Proofs.Coordinates
import Patchbay.Proofs.Splitting

/-
Directives that are written and read again.

A directive is written on a line of its own: its words with single spaces between them, a
semicolon and a newline.  Each such line is closed, so the lines of a text are cut apart one
by one; joined words are cut into the same words; and each shape of words is read as the
directive that it was written for.

What is asked of a directive is only that it can be written at all.  Its texts are words,
no backslash escapes the semicolon, and its coordinates are not larger than single precision
is exact.  Semicolons, hashes and backslashes may stand anywhere else.
-/

namespace Patchbay

/-! ### Writing -/

/-- The words that a directive is written with. -/
def Directive.words : Directive → List String
  | .object position kind args =>
    "#X" :: "obj" :: toString position.x :: toString position.y ::
      if kind = "" then args else kind :: args
  | .message position text => "#X" :: "msg" :: toString position.x :: toString position.y :: text
  | .comment position text => "#X" :: "text" :: toString position.x :: toString position.y :: text
  | .array name size args => "#X" :: "array" :: name :: toString size :: args
  | .restore => ["#X", "restore"]
  | .connect source outlet sink inlet =>
    ["#X", "connect", toString source, toString outlet, toString sink, toString inlet]
  | .fill start values => "#A" :: toString start :: values.map Single.text
  | .ignored => []

/-- A directive as it stands in a patch. -/
def Directive.line (d : Directive) : String :=
  joinWords d.words ++ ";\n"

/-- Directives, each on a line of its own. -/
def Patch.printed : List Directive → String
  | [] => ""
  | d :: ds => d.line ++ printed ds

/-- Text that can be a word of a patch. -/
def IsWord (s : String) : Prop :=
  Solid s.toList

/-- A position that single precision holds. -/
def Position.Small (p : Position) : Prop :=
  p.x.natAbs ≤ 2 ^ 24 ∧ p.y.natAbs ≤ 2 ^ 24

/-- What the parts of a directive have to be like for it to be written. -/
def Directive.Sayable : Directive → Prop
  | .object position kind args =>
    position.Small ∧ (kind = "" ∧ args = [] ∨ IsWord kind) ∧ ∀ a ∈ args, IsWord a
  | .message position text => position.Small ∧ ∀ w ∈ text, IsWord w
  | .comment position text => position.Small ∧ ∀ w ∈ text, IsWord w
  | .array name size args => IsWord name ∧ size ≤ maxTableSize ∧ ∀ a ∈ args, IsWord a
  | .restore => True
  | .connect source outlet sink inlet => source < Patch.indexLimit ∧ outlet < Patch.indexLimit ∧
      sink < Patch.indexLimit ∧ inlet < Patch.indexLimit
  | .fill start values => start < Patch.indexLimit ∧ ∀ x ∈ values, Single.isFinite x = true
  | .ignored => False

/-- A directive that can be written: no backslash escapes the semicolon after it. -/
structure Directive.Writable (d : Directive) : Prop where
  sayable : d.Sayable
  unescaped : ∀ w ∈ d.words.getLast?, w.toList.getLast? ≠ some '\\'

instance : DecidablePred IsWord :=
  fun s => inferInstanceAs (Decidable (Solid s.toList))

instance (p : Position) : Decidable p.Small :=
  inferInstanceAs (Decidable (_ ∧ _))

instance : DecidablePred Directive.Sayable
  | .object .. => inferInstanceAs (Decidable (_ ∧ _ ∧ _))
  | .message .. => inferInstanceAs (Decidable (_ ∧ _))
  | .comment .. => inferInstanceAs (Decidable (_ ∧ _))
  | .array .. => inferInstanceAs (Decidable (_ ∧ _ ∧ _))
  | .restore => inferInstanceAs (Decidable True)
  | .connect .. => inferInstanceAs (Decidable (_ ∧ _ ∧ _ ∧ _))
  | .fill .. => inferInstanceAs (Decidable (_ ∧ _))
  | .ignored => inferInstanceAs (Decidable False)

instance (d : Directive) : Decidable d.Writable :=
  decidable_of_iff (d.Sayable ∧ ∀ w ∈ d.words.getLast?, w.toList.getLast? ≠ some '\\')
    ⟨fun h => ⟨h.1, h.2⟩, fun h => ⟨h.sayable, h.unescaped⟩⟩

/-! ### Words -/

theorem isWord_toString (n : Nat) : IsWord (toString n) := by
  rw [IsWord, toList_toString]
  exact solid_of_numeric Nat.toDigits_ne_nil (allDigits_toDigits n).numeric

theorem isWord_toString_int (x : Int) : IsWord (toString x) := by
  have hNumeric := (allDigits_toDigits x.natAbs).numeric
  rw [IsWord, toList_toString_int]
  split
  · exact solid_of_numeric (List.cons_ne_nil _ _) (List.forall_mem_cons.mpr ⟨rfl, hNumeric⟩)
  · exact solid_of_numeric Nat.toDigits_ne_nil hNumeric

namespace Directive

variable {d : Directive}

/-- What is written for a directive begins with a hash. -/
theorem Sayable.first_word (h : d.Sayable) :
    ∃ first rest, d.words = first :: rest ∧ first.toList.head? = some '#' := by
  cases d with
  | ignored => exact h.elim
  | _ => exact ⟨_, _, rfl, by decide +kernel⟩

/-- What is written for a directive is made of words. -/
theorem Sayable.isWord (h : d.Sayable) : ∀ w ∈ d.words, IsWord w := by
  have hFixed : ∀ w ∈ ["#X", "obj", "msg", "text", "array", "restore", "connect", "#A"],
      IsWord w := by
    decide +kernel
  simp only [List.forall_mem_cons] at hFixed
  obtain ⟨hX, hObject, hMessage, hComment, hArray, hRestore, hConnect, hA, -⟩ := hFixed
  cases d with
  | object position kind args =>
      obtain ⟨-, hKind, hArgs⟩ := h
      simp only [words, List.forall_mem_cons]
      refine ⟨hX, hObject, isWord_toString_int _, isWord_toString_int _, ?_⟩
      split
      · exact hArgs
      · rename_i hNot
        exact List.forall_mem_cons.mpr ⟨hKind.resolve_left fun hEmpty => hNot hEmpty.1, hArgs⟩
  | message position text =>
      simp only [words, List.forall_mem_cons]
      exact ⟨hX, hMessage, isWord_toString_int _, isWord_toString_int _, h.2⟩
  | comment position text =>
      simp only [words, List.forall_mem_cons]
      exact ⟨hX, hComment, isWord_toString_int _, isWord_toString_int _, h.2⟩
  | array name size args =>
      simp only [words, List.forall_mem_cons]
      exact ⟨hX, hArray, h.1, isWord_toString _, h.2.2⟩
  | restore =>
      simp only [words, List.forall_mem_cons]
      exact ⟨hX, hRestore, by simp⟩
  | connect source outlet sink inlet =>
      simp only [words, List.forall_mem_cons]
      exact ⟨hX, hConnect, isWord_toString _, isWord_toString _, isWord_toString _,
        isWord_toString _, by simp⟩
  | fill start values =>
      simp only [words, List.forall_mem_cons, List.forall_mem_map]
      exact ⟨hA, isWord_toString _, fun x hx => Single.solid_text (h.2 x hx)⟩
  | ignored => exact h.elim

end Directive

/-! ### Reading the words -/

namespace Patch

theorem position_written (line : Nat) (first second : String) (rest : List String) {p : Position}
    (h : p.Small) : position line (first :: second :: toString p.x :: toString p.y :: rest) =
      .ok p := by
  simp only [position, coordinate_toString line h.1, coordinate_toString line h.2]
  rfl

theorem mapM_tableValue (line : Nat) {values : List Float32}
    (h : ∀ x ∈ values, Single.isFinite x = true) :
    (values.map Single.text).mapM (tableValue line) = .ok values := by
  induction values with
  | nil => rfl
  | cons x values ih =>
      obtain ⟨hx, hValues⟩ := List.forall_mem_cons.mp h
      rw [List.map_cons, List.mapM_cons, tableValue_text line hx, ih hValues]
      rfl

/-- **The words that a directive is written with are read as that directive.** -/
theorem readDirective_words (line : Nat) {d : Directive} (h : d.Sayable) :
    readDirective line d.words = .ok d := by
  cases d with
  | object p kind args =>
      obtain ⟨hSmall, ⟨rfl, rfl⟩ | hKind, -⟩ := h
      · simp only [Directive.words, if_true, readDirective, position_written line _ _ _ hSmall]
        rfl
      · have hNe : kind ≠ "" := fun hEmpty => hKind.ne_nil (hEmpty ▸ rfl)
        simp only [Directive.words, if_neg hNe, readDirective, position_written line _ _ _ hSmall]
        rfl
  | message p text =>
      simp only [Directive.words, readDirective, position_written line _ _ _ h.1]
      rfl
  | comment p text =>
      simp only [Directive.words, readDirective, position_written line _ _ _ h.1]
      rfl
  | array name size args =>
      obtain ⟨-, hSize, -⟩ := h
      have hIndex : size < indexLimit := lt_of_le_of_lt hSize (by decide)
      simp only [Directive.words, readDirective, index_toString line hIndex]
      exact if_neg (Nat.not_lt_of_le hSize)
  | restore => rfl
  | connect source outlet sink inlet =>
      obtain ⟨hSource, hOutlet, hSink, hInlet⟩ := h
      simp only [Directive.words, readDirective, index_toString line hSource,
        index_toString line hOutlet, index_toString line hSink, index_toString line hInlet]
      rfl
  | fill start values =>
      simp only [Directive.words, readDirective, index_toString line h.1, mapM_tableValue line h.2]
      rfl
  | ignored => exact h.elim

end Patch

/-! ### Lines -/

namespace Source

variable {body : List Char}

/-- A line with one directive on it is closed and is cut as that directive. -/
theorem directives_terminated (hHead : body.head? = some '#') (hBreaks : ∀ c ∈ body, c ≠ '\n' ∧ c ≠ '\r')
    (hLast : body.getLast? ≠ some '\\') :
    Closed (body ++ [';', '\n']) ∧ directives (body ++ [';', '\n']) = [(1, body)] := by
  have hPos : 0 < body.length := by
    cases body with
    | nil => simp at hHead
    | cons c body => exact Nat.succ_pos _
  have hAt : ∀ i < body.length, (body ++ [';', '\n'])[i]? = body[i]? :=
    fun i hi => List.getElem?_append_left hi
  have hSemicolon : (body ++ [';', '\n'])[body.length]? = some ';' := by simp
  have hNewline : (body ++ [';', '\n'])[body.length + 1]? = some '\n' := by simp
  have hFirst : First (Opening (body ++ [';', '\n'])) 0 0 := by
    refine ⟨Nat.le_refl 0, ?_, fun j hj => absurd hj (Nat.not_lt_zero j)⟩
    rw [Opening, hAt 0 hPos, ← List.head?_eq_getElem?, hHead]
  have hStop : First (Terminator (body ++ [';', '\n'])) 0 body.length := by
    refine ⟨Nat.zero_le _, ⟨hSemicolon, .inr ?_, .inr (.inl hNewline)⟩, fun j hj _ hEarly => ?_⟩
    · rw [hAt _ (Nat.sub_lt hPos Nat.one_pos), ← List.getLast?_eq_getElem?]
      exact hLast
    · -- What comes after an earlier semicolon is in the body, or is the last semicolon.
      have hNext : ∃ c, (body ++ [';', '\n'])[j + 1]? = some c ∧ c ≠ '\n' ∧ c ≠ '\r' := by
        rcases Nat.lt_or_eq_of_le (Nat.succ_le_of_lt hj) with hInside | hEnd
        · refine ⟨body[j + 1], ?_, hBreaks _ (List.getElem_mem hInside)⟩
          rw [hAt _ hInside, List.getElem?_eq_getElem hInside]
        · have hHere : j + 1 = body.length := hEnd
          exact ⟨';', by rw [hHere, hSemicolon], by decide⟩
      obtain ⟨c, hc, hNotNewline, hNotReturn⟩ := hNext
      obtain ⟨-, -, hAfter⟩ := hEarly
      simp [hc, hNotNewline, hNotReturn] at hAfter
  have hRest : ∀ i < (body ++ [';', '\n']).length, body.length < i →
      ¬Opening (body ++ [';', '\n']) i := by
    intro i hi hBeyond hOpening
    obtain rfl : i = body.length + 1 := by
      rw [List.length_append] at hi
      simp only [List.length_cons, List.length_nil] at hi
      omega
    rw [Opening, hNewline] at hOpening
    simp at hOpening
  obtain ⟨hSpans, hClosed⟩ := closed_of_single hFirst hStop hRest
  refine ⟨hClosed, ?_⟩
  rw [directives_eq hSpans]
  simp [cite]

/-- Lines with one directive each, before another text. -/
theorem directives_line_append (hHead : body.head? = some '#')
    (hBreaks : ∀ c ∈ body, c ≠ '\n' ∧ c ≠ '\r') (hLast : body.getLast? ≠ some '\\')
    (rest : List Char) : directives (body ++ [';', '\n'] ++ rest) =
      (1, body) :: (directives rest).map (lowered 1) := by
  obtain ⟨hClosed, hOne⟩ := directives_terminated hHead hBreaks hLast
  have hLines : (body ++ [';', '\n']).count '\n' = 1 := by
    rw [List.count_append, List.count_eq_zero.mpr fun hMem => (hBreaks _ hMem).1 rfl]
    rfl
  rw [directives_append hClosed (by simp), hOne, hLines]
  rfl

end Source

/-! ### Patches -/

namespace Directive

variable {d : Directive}

/-- The text of a directive, without the semicolon. -/
def body (d : Directive) : List Char :=
  unwords (d.words.map String.toList)

theorem toList_line (d : Directive) : d.line.toList = d.body ++ [';', '\n'] := by
  rw [line, String.toList_append, joinWords, String.toList_ofList]
  rfl

theorem Writable.solid (h : d.Writable) : ∀ w ∈ d.words.map String.toList, Solid w :=
  List.forall_mem_map.mpr h.sayable.isWord

theorem Writable.head?_body (h : d.Writable) : d.body.head? = some '#' := by
  obtain ⟨first, rest, hWords, hHead⟩ := h.sayable.first_word
  have hFirst : first.toList ≠ [] := (h.sayable.isWord first (hWords ▸ List.mem_cons_self)).ne_nil
  rw [body, hWords, List.map_cons, head?_unwords hFirst, hHead]

theorem Writable.getLast?_body (h : d.Writable) : d.body.getLast? ≠ some '\\' := by
  have hLast := h.unescaped
  rw [body, unwords, getLast?_joinWith _ fun w hw => (h.solid w hw).ne_nil, List.getLast?_map]
  cases hWord : d.words.getLast? with
  | none => simp
  | some w => exact hLast w hWord

theorem Writable.unbroken (h : d.Writable) : ∀ c ∈ d.body, c ≠ '\n' ∧ c ≠ '\r' := by
  intro c hc
  rcases mem_unwords hc with rfl | ⟨w, hw, hcw⟩
  · decide
  · have hUnblank := (h.solid w hw).unblank c hcw
    constructor
    · rintro rfl
      exact absurd hUnblank (by decide)
    · rintro rfl
      exact absurd hUnblank (by decide)

theorem Writable.readStatement_body (h : d.Writable) (line : Nat) :
    Patch.readStatement line d.body = .ok ⟨line, d⟩ := by
  have hWords : (Patchbay.words d.body).map String.ofList = d.words := by
    rw [body, words_unwords h.solid, List.map_map]
    simp
  rw [Patch.readStatement, hWords, Patch.readDirective_words line h.sayable]
  rfl

end Directive

namespace Patch

/-- Where the directives of a printed patch stand. -/
theorem directives_printed {ds : List Directive} (h : ∀ d ∈ ds, d.Writable) :
    Source.directives (printed ds).toList = ds.mapIdx fun i d => (i + 1, d.body) := by
  induction ds with
  | nil => rfl
  | cons d ds ih =>
      obtain ⟨hd, hds⟩ := List.forall_mem_cons.mp h
      rw [printed, String.toList_append, Directive.toList_line,
        Source.directives_line_append hd.head?_body hd.unbroken hd.getLast?_body, ih hds,
        List.mapIdx_cons]
      refine congrArg₂ List.cons rfl (List.ext_getElem? fun i => ?_)
      simp only [List.getElem?_map, List.getElem?_mapIdx, Option.map_map]
      rfl

/--
**What is printed of directives is read as those directives.**  A list of directives that can
be written is printed one to a line; reading the whole gives each of them back, without a
fault, on the line where it stands.
-/
theorem read_printed (ds : List Directive) (h : ∀ d ∈ ds, d.Writable) :
    read (printed ds) = ds.mapIdx fun i d => .ok ⟨i + 1, d⟩ := by
  have hRead : read (printed ds) =
      (Source.directives (printed ds).toList).map fun d => readStatement d.1 d.2 := rfl
  rw [hRead, directives_printed h]
  refine List.ext_getElem? fun i => ?_
  simp only [List.getElem?_map, List.getElem?_mapIdx, Option.map_map]
  cases hd : ds[i]? with
  | none => rfl
  | some d =>
      exact congrArg some ((h d (List.mem_of_getElem? hd)).readStatement_body (i + 1))

/-- A patch whose words hold hashes, semicolons and backslashes. -/
def awkwardPatch : List Directive :=
  [.object ⟨30, -40⟩ "osc~" ["44#0", "a;b", "c\\d"], .object ⟨0, 0⟩ "" [],
    .message ⟨16777216, 1⟩ ["\\;", ";#X"], .comment ⟨-16777216, 0⟩ ["#"],
    .array "t;1" 16777216 ["float"], .fill 3 [Float32.ofBits 0x3fc00000, Float32.ofBits 0x80000001],
    .restore, .connect 0 1 2 18446744073709551615]

theorem read_printed_awkward : (∀ d ∈ awkwardPatch, d.Writable) ∧
    read (printed awkwardPatch) = awkwardPatch.mapIdx fun i d => .ok ⟨i + 1, d⟩ := by
  have hWritable : ∀ d ∈ awkwardPatch, d.Writable := by decide +kernel
  exact ⟨hWritable, read_printed awkwardPatch hWritable⟩

end Patch

end Patchbay
