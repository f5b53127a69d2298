import Mathlib.Data.List.Basic
import Patchbay.Text.Blank

/-
Words and the text that they are joined to.

A word is what no blank is in and what is not empty.  Joining words by single spaces and
cutting the text again gives the same words, whatever other characters they hold.  A cut
loses nothing but the elements that it is made at, so the words of a text are what is not
blank in it.
-/

namespace Patchbay

/-- Text that can be a word. -/
structure Solid (w : List Char) : Prop where
  ne_nil : w ≠ []
  unblank : ∀ c ∈ w, isBlank c = false

theorem solid_iff {w : List Char} :
    Solid w ↔ (w.isEmpty = false ∧ w.any isBlank = false) := by
  simp only [List.isEmpty_eq_false_iff, List.any_eq_false, Bool.not_eq_true]
  exact ⟨fun h => ⟨h.ne_nil, h.unblank⟩, fun h => ⟨h.1, h.2⟩⟩

-- Not by the characters in general: there are a million of them to try.
instance (w : List Char) : Decidable (Solid w) :=
  decidable_of_iff _ solid_iff.symm

theorem isBlank_space : isBlank ' ' = true := by decide

/-! ### Cutting -/

section Cut

variable {α : Type} {p : α → Bool}

/-- Cutting is splitting at every element that satisfies `p`. -/
theorem cut_eq_splitOnP (p : α → Bool) (l : List α) : cut p l = l.splitOnP p := by
  induction l with
  | nil => rfl
  | cons a l ih =>
      rw [List.splitOnP_cons_eq_if_modifyHead, ← ih, cut]
      refine if_congr Iff.rfl rfl ?_
      cases h : cut p l with
      | nil => exact absurd h (cut_ne_nil p l)
      | cons piece pieces => rfl

theorem cut_cons (p : α → Bool) (a : α) (l : List α) :
    cut p (a :: l) = if p a then [] :: cut p l else (cut p l).modifyHead (a :: ·) := by
  rw [cut_eq_splitOnP, List.splitOnP_cons_eq_if_modifyHead, cut_eq_splitOnP]

theorem cut_eq_singleton {l : List α} (h : ∀ a ∈ l, p a = false) : cut p l = [l] := by
  rw [cut_eq_splitOnP, List.splitOnP_eq_singleton h]

/-- The first cut. -/
theorem cut_append_cons {l rest : List α} {a : α} (h : ∀ b ∈ l, p b = false) (ha : p a = true) :
    cut p (l ++ a :: rest) = l :: cut p rest := by
  rw [cut_eq_splitOnP, List.splitOnP_append_cons _ _ ha, List.splitOnP_eq_singleton h,
    cut_eq_splitOnP]
  rfl

/-- Nothing is lost but what was cut at. -/
theorem flatten_cut (p : α → Bool) (l : List α) : (cut p l).flatten = l.filter fun a => !p a := by
  induction l with
  | nil => rfl
  | cons a l ih =>
      rw [cut_cons, List.filter_cons, ← ih]
      cases p a with
      | true => rfl
      | false =>
          obtain ⟨piece, pieces, h⟩ := List.exists_cons_of_ne_nil (cut_ne_nil p l)
          rw [h]
          rfl

/-- The first piece begins as the list does, unless the list is cut right there. -/
theorem head?_of_cut {l piece : List α} {pieces : List (List α)} (h : cut p l = piece :: pieces) :
    piece.head? = l.head?.filter fun a => !p a := by
  cases l with
  | nil =>
      obtain ⟨rfl, -⟩ := List.cons.inj (h.symm.trans rfl)
      rfl
  | cons a l =>
      obtain ⟨first, more, hRest⟩ := List.exists_cons_of_ne_nil (cut_ne_nil p l)
      rw [cut_cons, hRest] at h
      cases ha : p a with
      | true =>
          rw [if_pos ha] at h
          obtain ⟨rfl, -⟩ := List.cons.inj h
          simp [Option.filter, ha]
      | false =>
          rw [if_neg (by simp [ha])] at h
          obtain ⟨rfl, -⟩ := List.cons.inj h
          simp [Option.filter, ha]

/-- A piece holds what the list holds and was not cut at. -/
theorem mem_of_mem_cut {l piece : List α} {a : α} (h : piece ∈ cut p l) (ha : a ∈ piece) :
    a ∈ l ∧ p a = false := by
  have hFlat : a ∈ (cut p l).flatten := List.mem_flatten.mpr ⟨piece, h, ha⟩
  rw [flatten_cut, List.mem_filter] at hFlat
  simpa using hFlat

end Cut

/-! ### Joining -/

theorem joinWith_eq_intercalate (separator : List Char) (ws : List (List Char)) :
    joinWith separator ws = separator.intercalate ws := by
  induction ws with
  | nil => rfl
  | cons w ws ih =>
      cases ws with
      | nil => exact List.intercalate_singleton.symm
      | cons v ws =>
          rw [List.intercalate_cons_cons]
          exact congrArg (w ++ separator ++ ·) ih

theorem joinWith_ne_nil (separator : List Char) {w : List Char} (hw : w ≠ [])
    (ws : List (List Char)) : joinWith separator (w :: ws) ≠ [] := by
  cases ws with
  | nil => exact hw
  | cons v ws =>
      intro hNil
      exact hw (List.append_eq_nil_iff.mp (List.append_eq_nil_iff.mp hNil).1).1

/-- Joined texts end as the last of them does. -/
theorem getLast?_joinWith (separator : List Char) {ws : List (List Char)}
    (h : ∀ w ∈ ws, w ≠ []) :
    (joinWith separator ws).getLast? = ws.getLast?.bind List.getLast? := by
  induction ws with
  | nil => rfl
  | cons w ws ih =>
      obtain ⟨-, hRest⟩ := List.forall_mem_cons.mp h
      cases ws with
      | nil => rfl
      | cons v ws =>
          have hSome := joinWith_ne_nil separator (hRest v List.mem_cons_self) ws
          rw [List.getLast?_cons_cons, ← ih hRest]
          exact List.getLast?_append_of_ne_nil _ hSome

theorem unwords_cons_cons (w v : List Char) (ws : List (List Char)) :
    unwords (w :: v :: ws) = w ++ ' ' :: unwords (v :: ws) := by
  simp [unwords, joinWith]

/-- Every character of joined texts stands in the separator or in one of them. -/
theorem mem_joinWith {separator : List Char} {ws : List (List Char)} {c : Char}
    (h : c ∈ joinWith separator ws) : c ∈ separator ∨ ∃ w ∈ ws, c ∈ w := by
  induction ws with
  | nil => exact absurd h List.not_mem_nil
  | cons w ws ih =>
      cases ws with
      | nil => exact .inr ⟨w, List.mem_cons_self, h⟩
      | cons v ws =>
          rcases List.mem_append.mp h with h | h
          · rcases List.mem_append.mp h with h | h
            · exact .inr ⟨w, List.mem_cons_self, h⟩
            · exact .inl h
          · rcases ih h with hSeparator | ⟨u, hu, hc⟩
            · exact .inl hSeparator
            · exact .inr ⟨u, List.mem_cons_of_mem _ hu, hc⟩

/-- Every character of joined words is a space or stands in one of them. -/
theorem mem_unwords {ws : List (List Char)} {c : Char} (h : c ∈ unwords ws) :
    c = ' ' ∨ ∃ w ∈ ws, c ∈ w :=
  (mem_joinWith h).imp_left List.mem_singleton.mp

/-- Joined words begin as the first of them does. -/
theorem head?_unwords {w : List Char} (hw : w ≠ []) (ws : List (List Char)) :
    (unwords (w :: ws)).head? = w.head? := by
  cases ws with
  | nil => rfl
  | cons v ws => rw [unwords_cons_cons, List.head?_append_of_ne_nil w hw]

/-- **Words come back from the text that they are joined to.** -/
theorem words_unwords {ws : List (List Char)} (h : ∀ w ∈ ws, Solid w) :
    words (unwords ws) = ws := by
  have hCut : ws ≠ [] → cut isBlank (unwords ws) = ws := by
    induction ws with
    | nil => exact fun hNil => absurd rfl hNil
    | cons w ws ih =>
        obtain ⟨hw, hws⟩ := List.forall_mem_cons.mp h
        intro _
        cases ws with
        | nil => exact cut_eq_singleton hw.unblank
        | cons v ws =>
            rw [unwords_cons_cons, cut_append_cons hw.unblank isBlank_space,
              ih hws (List.cons_ne_nil _ _)]
  cases ws with
  | nil => rfl
  | cons w ws =>
      rw [words, hCut (List.cons_ne_nil _ _), List.filter_eq_self]
      exact fun v hv => by simpa using (h v hv).ne_nil

/-! ### The words of a text -/

theorem mem_of_mem_words {text w : List Char} {c : Char} (h : w ∈ words text) (hc : c ∈ w) :
    c ∈ text :=
  (mem_of_mem_cut (List.mem_of_mem_filter h) hc).1

theorem solid_of_mem_words {text w : List Char} (h : w ∈ words text) : Solid w :=
  ⟨List.isEmpty_eq_false_iff.mp (isEmpty_of_mem_words h),
    fun _ hc => (mem_of_mem_cut (List.mem_of_mem_filter h) hc).2⟩

/-- A blank before a text changes none of its words. -/
theorem words_cons_blank {c : Char} (h : isBlank c = true) (text : List Char) :
    words (c :: text) = words text := by
  rw [words, cut_cons, if_pos h]
  rfl

/-- The words hold what is not blank, in its order. -/
theorem flatten_words (text : List Char) :
    (words text).flatten = text.filter fun c => !isBlank c := by
  rw [words, List.flatten_filter_not_isEmpty, flatten_cut]

theorem filter_unwords_words (text : List Char) :
    (unwords (words text)).filter (fun c => !isBlank c) = text.filter fun c => !isBlank c := by
  rw [← flatten_words, words_unwords fun _ => solid_of_mem_words, flatten_words]

end Patchbay
