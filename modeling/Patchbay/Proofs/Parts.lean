import Mathlib.Data.List.Basic
import Patchbay.Proofs.Escapes

/-
Box text that is written and read again.

Messages are written with a semicolon and a space between each two, and their parts with a
comma and a space.  Reading that text gives the messages back exactly if they are `Tidy`:
each has a part, and a part is words with single spaces between them, without a delimiter,
and does not end in a backslash.

Cutting at the delimiters alone gives back whatever has parts of that form, backslashes at
their ends or not.  So what is asked of the backslashes is all that is left to show.  The
tokenizer drops none from the pieces of a tidy text, since none of them ends in one.  The
other way round, a part that ends in one has a delimiter or nothing behind it, and then a
backslash is missing in what remains of the text.

What the tokenizer finds in a text always has parts of that form.  Where the text has no
backslash, neither have they, and they are tidy.
-/

namespace Patchbay.BoxText

/-- Words with single spaces between them, and no delimiter. -/
structure Composed (part : List Char) : Prop where
  worded : ∃ ws, ws ≠ [] ∧ (∀ w ∈ ws, Solid w) ∧ part = unwords ws
  undelimited : ∀ c ∈ part, isDelimiter c = false

/-- Text that can be a part of a message. -/
structure IsPart (part : List Char) : Prop extends Composed part where
  unescaped : part.getLast? ≠ some '\\'

/-- Each message has a part, and each part is of a certain form. -/
def AllParts (form : List Char → Prop) (ms : List (List (List Char))) : Prop :=
  ∀ ps ∈ ms, ps ≠ [] ∧ ∀ p ∈ ps, form p

def asChars (ms : List (List String)) : List (List (List Char)) :=
  ms.map fun ps => ps.map String.toList

/-- Messages that box text can hold. -/
def Tidy (ms : List (List String)) : Prop :=
  AllParts IsPart (asChars ms)

/-- Messages with a semicolon between each two, and their parts with a comma. -/
def written (ms : List (List String)) : String :=
  "; ".intercalate (ms.map fun ps => ", ".intercalate ps)

/-- The characters of what is written. -/
def joined (ms : List (List (List Char))) : List Char :=
  joinWith [';', ' '] (ms.map (joinWith [',', ' ']))

theorem toList_written (ms : List (List String)) : (written ms).toList = joined (asChars ms) := by
  rw [written, joined, asChars, String.toList_intercalate, joinWith_eq_intercalate, List.map_map,
    List.map_map]
  refine congrArg (List.intercalate [';', ' ']) (List.map_congr_left fun ps _ => ?_)
  rw [Function.comp_apply, Function.comp_apply, String.toList_intercalate, joinWith_eq_intercalate]
  rfl

theorem tokenize_eq_iff {text : String} {ms : List (List String)} :
    tokenize text = ms ↔ messages text.toList = asChars ms := by
  have hStrings : asStrings (asChars ms) = ms := by simp [asStrings, asChars, Function.comp_def]
  have hChars : asChars (tokenize text) = messages text.toList := by
    simp [tokenize, asChars, Function.comp_def]
  constructor
  · rintro rfl
    exact hChars.symm
  · intro h
    rw [← hStrings, ← h]
    rfl

/-! ### Cutting what is joined -/

section Joined

variable {d : Char} {ps : List (List Char)}

/-- Every piece but the first begins with the space behind the delimiter. -/
theorem cut_joinWith (hd : d ≠ ' ') {p : List Char} (h : ∀ q ∈ p :: ps, ∀ c ∈ q, (c == d) = false) :
    cut (· == d) (joinWith [d, ' '] (p :: ps)) = p :: ps.map (' ' :: ·) := by
  induction ps generalizing p with
  | nil => exact cut_eq_singleton (h p List.mem_cons_self)
  | cons q ps ih =>
      obtain ⟨hp, hRest⟩ := List.forall_mem_cons.mp h
      have hSpace : (' ' == d) = false := beq_false_of_ne hd.symm
      change cut (· == d) (p ++ [d, ' '] ++ joinWith [d, ' '] (q :: ps)) = _
      rw [List.append_assoc, List.cons_append, cut_append_cons hp (beq_self_eq_true d),
        List.singleton_append, cut_cons, hSpace, ih hRest]
      rfl

/-- What does not look at a space in front reads the pieces as they were joined. -/
theorem map_cut_joinWith {β : Type} {f : List Char → β} (hd : d ≠ ' ') (hNe : ps ≠ [])
    (hFree : ∀ p ∈ ps, ∀ c ∈ p, (c == d) = false) (hSpace : ∀ p ∈ ps, f (' ' :: p) = f p) :
    (cut (· == d) (joinWith [d, ' '] ps)).map f = ps.map f := by
  cases ps with
  | nil => exact absurd rfl hNe
  | cons p ps =>
      rw [cut_joinWith hd hFree, List.map_cons, List.map_map, List.map_cons]
      exact congrArg _ (List.map_congr_left fun q hq => hSpace q (List.mem_cons_of_mem _ hq))

/-- What stands behind a text that is joined with others. -/
theorem suffix_joinWith (separator : List Char) {p : List Char} (hp : p ∈ ps) :
    ∃ rest, p ++ rest <:+ joinWith separator ps ∧ (rest = [] ∨ separator <+: rest) := by
  induction ps with
  | nil => simp at hp
  | cons q ps ih =>
      cases ps with
      | nil =>
          obtain rfl := List.mem_singleton.mp hp
          exact ⟨[], ⟨[], List.append_nil _⟩, .inl rfl⟩
      | cons r ps =>
          have hJoin : joinWith separator (q :: r :: ps) =
              q ++ (separator ++ joinWith separator (r :: ps)) := List.append_assoc ..
          rcases List.mem_cons.mp hp with rfl | hp
          · exact ⟨_, ⟨[], hJoin.symm⟩, .inr (List.prefix_append _ _)⟩
          · obtain ⟨rest, hSuffix, hRest⟩ := ih hp
            refine ⟨rest, hSuffix.trans ?_, hRest⟩
            rw [hJoin]
            exact (List.suffix_append _ _).trans (List.suffix_append _ _)

end Joined

/-! ### Parts -/

variable {ms : List (List (List Char))}

theorem Composed.ne_nil {p : List Char} (h : Composed p) : p ≠ [] := by
  obtain ⟨ws, hNe, hSolid, rfl⟩ := h.worded
  obtain ⟨w, ws, rfl⟩ := List.exists_cons_of_ne_nil hNe
  exact joinWith_ne_nil [' '] (hSolid w List.mem_cons_self).ne_nil ws

theorem Composed.unwords_words {p : List Char} (h : Composed p) : unwords (words p) = p := by
  obtain ⟨ws, -, hSolid, rfl⟩ := h.worded
  rw [words_unwords hSolid]

theorem Composed.free {p : List Char} (h : Composed p) {c : Char} (hc : c ∈ p) :
    (c == ';') = false ∧ (c == ',') = false := by
  simpa [isDelimiter] using h.undelimited c hc

/-- The parts of a message, each trimmed before its words are looked at. -/
def partsTrimmed (trim : List Char → List Char) (message : List Char) : List (List Char) :=
  ((cut (· == ',') message).map fun p => unwords (words (trim p))).filter fun p => !p.isEmpty

/-- The messages of a text, each trimmed before its parts are looked at. -/
def messagesTrimmed (trim : List Char → List Char) (text : List Char) : List (List (List Char)) :=
  ((cut (· == ';') text).map fun m => partsTrimmed trim (trim m)).filter fun ps => !ps.isEmpty

theorem messages_eq_trimmed (text : List Char) :
    messages text = messagesTrimmed dropEscape text := by
  have hParts : parts = partsTrimmed dropEscape := by
    funext message
    rw [parts, pieces, List.map_map]
    rfl
  rw [messages, pieces, List.map_map, hParts]
  rfl

section Trimmed

variable {trim : List Char → List Char}

theorem partsTrimmed_cons_space (hSpace : ∀ p, trim (' ' :: p) = ' ' :: trim p)
    (message : List Char) : partsTrimmed trim (' ' :: message) = partsTrimmed trim message := by
  obtain ⟨p, ps, hCut⟩ := List.exists_cons_of_ne_nil (cut_ne_nil (· == ',') message)
  have hComma : (' ' == ',') = false := by decide
  rw [partsTrimmed, partsTrimmed, cut_cons, hComma, hCut]
  change List.filter _ (unwords (words (trim (' ' :: p))) :: _) = _
  rw [hSpace, words_cons_blank isBlank_space]
  rfl

/-- Parts that are joined are cut apart again. -/
theorem partsTrimmed_joinWith {ps : List (List Char)}
    (hSpace : ∀ p, trim (' ' :: p) = ' ' :: trim p) (hNe : ps ≠ [])
    (h : ∀ p ∈ ps, Composed p ∧ trim p = p) : partsTrimmed trim (joinWith [',', ' '] ps) = ps := by
  have hWords : ∀ p ∈ ps, unwords (words (trim p)) = p := fun p hp => by
    rw [(h p hp).2, (h p hp).1.unwords_words]
  rw [partsTrimmed, map_cut_joinWith (by decide) hNe
    (fun p hp c hc => ((h p hp).1.free hc).2)
    (fun p _ => by rw [hSpace, words_cons_blank isBlank_space]),
    (List.map_congr_left hWords).trans (List.map_id' ps), List.filter_eq_self]
  exact fun p hp => by simpa using (h p hp).1.ne_nil

/-- **Messages that are joined are cut apart again**, if there is nothing to trim. -/
theorem messagesTrimmed_joined (hNil : trim [] = []) (hSpace : ∀ p, trim (' ' :: p) = ' ' :: trim p)
    (h : AllParts (fun p => Composed p ∧ trim p = p) ms)
    (hTrim : ∀ ps ∈ ms, trim (joinWith [',', ' '] ps) = joinWith [',', ' '] ps) :
    messagesTrimmed trim (joined ms) = ms := by
  by_cases hMs : ms = []
  · subst hMs
    simp [messagesTrimmed, joined, joinWith, cut, hNil, partsTrimmed, words, unwords]
  have hNe : ms.map (joinWith [',', ' ']) ≠ [] := by simpa using hMs
  have hFree : ∀ m ∈ ms.map (joinWith [',', ' ']), ∀ c ∈ m, (c == ';') = false := by
    refine List.forall_mem_map.mpr fun ps hps c hc => ?_
    rcases mem_joinWith hc with hSeparator | ⟨p, hp, hcp⟩
    · rcases List.mem_pair.mp hSeparator with rfl | rfl <;> rfl
    · exact (((h ps hps).2 p hp).1.free hcp).1
  have hParts : ∀ ps ∈ ms, ((fun m => partsTrimmed trim (trim m)) ∘ joinWith [',', ' ']) ps = ps :=
    fun ps hps => by
      rw [Function.comp_apply, hTrim ps hps,
        partsTrimmed_joinWith hSpace (h ps hps).1 (h ps hps).2]
  rw [messagesTrimmed, joined, map_cut_joinWith (by decide) hNe hFree
    (fun m _ => by rw [hSpace, partsTrimmed_cons_space hSpace]), List.map_map,
    (List.map_congr_left hParts).trans (List.map_id' ms), List.filter_eq_self]
  exact fun ps hps => by simpa using (h ps hps).1

end Trimmed

/-- Cutting at the delimiters gives back what is joined, whatever its backslashes. -/
theorem messagesBetween_joined (h : AllParts Composed ms) : messagesBetween (joined ms) = ms := by
  change messagesTrimmed id (joined ms) = ms
  exact messagesTrimmed_joined rfl (fun _ => rfl)
    (fun ps hps => ⟨(h ps hps).1, fun p hp => ⟨(h ps hps).2 p hp, rfl⟩⟩) fun _ _ => rfl

theorem dropEscape_cons_space (p : List Char) : dropEscape (' ' :: p) = ' ' :: dropEscape p := by
  cases p with
  | nil => rfl
  | cons c p =>
      rw [dropEscape, dropEscape, List.getLast?_cons_cons]
      split <;> rfl

/-- The tokenizer gives back what is joined, if no part ends in a backslash. -/
theorem messages_joined (h : AllParts IsPart ms) : messages (joined ms) = ms := by
  rw [messages_eq_trimmed]
  refine messagesTrimmed_joined rfl dropEscape_cons_space (fun ps hps => ⟨(h ps hps).1, fun p hp =>
    ⟨((h ps hps).2 p hp).toComposed, if_neg ((h ps hps).2 p hp).unescaped⟩⟩) fun ps hps => ?_
  obtain ⟨-, hParts⟩ := h ps hps
  refine if_neg fun hLast => ?_
  rw [getLast?_joinWith _ fun p hp => (hParts p hp).toComposed.ne_nil] at hLast
  obtain ⟨p, hp, hBackslash⟩ := Option.bind_eq_some_iff.mp hLast
  exact (hParts p (List.mem_of_getLast? hp)).unescaped hBackslash

/-! ### The parts that are found -/

/-- A part that is found is words, and its characters but for the spaces are those of the text. -/
theorem composed_of_mem {text : List Char} {ps : List (List Char)} {p : List Char}
    (hps : ps ∈ messagesBetween text) (hp : p ∈ ps) : Composed p ∧ ∀ c ∈ p, c = ' ' ∨ c ∈ text := by
  obtain ⟨m, hm, rfl⟩ := List.mem_map.mp (List.mem_of_mem_filter hps)
  obtain ⟨hPart, hSome⟩ := List.mem_filter.mp hp
  obtain ⟨q, hq, rfl⟩ := List.mem_map.mp hPart
  have hChars : ∀ c ∈ unwords (words q), c = ' ' ∨ c ∈ text ∧ isDelimiter c = false := by
    intro c hc
    refine (mem_unwords hc).imp_right fun ⟨w, hw, hcw⟩ => ?_
    obtain ⟨hMessage, hComma⟩ := mem_of_mem_cut hq (mem_of_mem_words hw hcw)
    obtain ⟨hText, hSemicolon⟩ := mem_of_mem_cut hm hMessage
    exact ⟨hText, by rw [isDelimiter, hSemicolon, hComma]; rfl⟩
  refine ⟨⟨⟨words q, fun hNil => ?_, fun _ => solid_of_mem_words, rfl⟩, fun c hc => ?_⟩,
    fun c hc => (hChars c hc).imp_right And.left⟩
  · rw [hNil] at hSome
    exact absurd hSome Bool.false_ne_true
  · rcases hChars c hc with rfl | hFree
    · decide
    · exact hFree.2

theorem allParts_messagesBetween (text : List Char) : AllParts Composed (messagesBetween text) :=
  fun _ hps => ⟨by simpa using (List.mem_filter.mp hps).2, fun _ hp => (composed_of_mem hps hp).1⟩

/-- **What is found in a text without backslashes is tidy.** -/
theorem allParts_messages {text : List Char} (h : '\\' ∉ text) :
    AllParts IsPart (messages text) := by
  rw [messages_eq]
  refine fun ps hps => ⟨(allParts_messagesBetween _ ps hps).1, fun p hp => ?_⟩
  obtain ⟨hComposed, hChars⟩ := composed_of_mem hps hp
  refine ⟨hComposed, fun hLast => ?_⟩
  rcases hChars '\\' (List.mem_of_getLast? hLast) with hSpace | hText
  · exact absurd hSpace (by decide)
  · exact h ((remaining_sublist text).subset hText)

/-! ### Backslashes at the ends of parts -/

/-- A backslash with a delimiter or nothing behind it is missing in what remains. -/
theorem count_remaining_lt_of_suffix {text rest : List Char} (h : '\\' :: rest <:+ text)
    (hRest : rest.head?.all isDelimiter = true) :
    (remaining text).count '\\' < text.count '\\' := by
  induction text with
  | nil => simp at h
  | cons c text ih =>
      rw [remaining_cons]
      rcases List.suffix_cons_iff.mp h with hHere | hBelow
      · obtain ⟨rfl, rfl⟩ := List.cons.inj hHere
        have hDropped : rest.head?.any isDelimiter = true ∨ SlipsBefore rest := by
          cases rest with
          | nil => exact .inr (.inl rfl)
          | cons d rest => exact .inl hRest
        rw [if_pos ⟨rfl, hDropped⟩, List.count_cons_self]
        exact Nat.lt_succ_of_le ((remaining_sublist rest).count_le _)
      · have hLess := ih hBelow
        split
        · exact Nat.lt_of_lt_of_le hLess List.count_le_count_cons
        · rw [List.count_cons, List.count_cons]
          exact Nat.add_lt_add_right hLess _

/-- Behind a part of what is joined stands a delimiter or nothing. -/
theorem suffix_joined {ps : List (List Char)} {p : List Char} (hps : ps ∈ ms) (hp : p ∈ ps) :
    ∃ rest, p ++ rest <:+ joined ms ∧ rest.head?.all isDelimiter = true := by
  obtain ⟨behind, hPart, hComma⟩ := suffix_joinWith [',', ' '] hp
  obtain ⟨beyond, hMessage, hSemicolon⟩ :=
    suffix_joinWith [';', ' '] (List.mem_map_of_mem (f := joinWith [',', ' ']) hps)
  obtain ⟨front, hFront⟩ := hPart
  refine ⟨behind ++ beyond, List.IsSuffix.trans ⟨front, ?_⟩ hMessage, ?_⟩
  · rw [← hFront, List.append_assoc, List.append_assoc]
  · rcases hComma with rfl | ⟨more, rfl⟩
    · rcases hSemicolon with rfl | ⟨more, rfl⟩
      · rfl
      · rfl
    · rfl

/-- **What is joined is found again exactly if it is tidy.** -/
theorem messages_joined_iff : messages (joined ms) = ms ↔ AllParts IsPart ms := by
  refine ⟨fun h => ?_, messages_joined⟩
  rw [messages_eq] at h
  have hComposed : AllParts Composed ms := h ▸ allParts_messagesBetween _
  have hCount : (remaining (joined ms)).count '\\' = (joined ms).count '\\' := by
    rw [← count_messagesBetween (remaining _), h, ← count_messagesBetween (joined ms),
      messagesBetween_joined hComposed]
  refine fun ps hps => ⟨(hComposed ps hps).1, fun p hp => ⟨(hComposed ps hps).2 p hp, ?_⟩⟩
  intro hLast
  obtain ⟨rest, hSuffix, hRest⟩ := suffix_joined hps hp
  obtain ⟨front, rfl⟩ := List.getLast?_eq_some_iff.mp hLast
  have hBackslash : '\\' :: rest <:+ joined ms := by
    refine List.IsSuffix.trans ⟨front, ?_⟩ hSuffix
    rw [List.append_assoc, List.singleton_append]
  exact Nat.ne_of_lt (count_remaining_lt_of_suffix hBackslash hRest) hCount

/--
**What is written of messages is read as those messages, exactly if they are tidy.**  And what
is read of a text without backslashes is tidy, so writing that and reading it again changes
nothing.
-/
theorem tokenize_written :
    (∀ ms, tokenize (written ms) = ms ↔ Tidy ms) ∧
      ∀ text : String, '\\' ∉ text.toList →
        Tidy (tokenize text) ∧ tokenize (written (tokenize text)) = tokenize text := by
  have hIff : ∀ ms, tokenize (written ms) = ms ↔ Tidy ms := fun ms => by
    rw [tokenize_eq_iff, toList_written, messages_joined_iff, Tidy]
  refine ⟨hIff, fun text h => ?_⟩
  have hTidy : Tidy (tokenize text) := by
    rw [Tidy, ← tokenize_eq_iff.mp rfl]
    exact allParts_messages h
  exact ⟨hTidy, (hIff _).mpr hTidy⟩

/-- A text with empty parts and messages in it, and blanks of several kinds. -/
def untidyText : String := ";bang ,, 1\u3000 2\n;; ,; hello $1 ,;"

theorem tokenize_written_untidyText : '\\' ∉ untidyText.toList ∧ Tidy (tokenize untidyText) ∧
    tokenize (written (tokenize untidyText)) = tokenize untidyText := by
  have h : '\\' ∉ untidyText.toList := by decide +kernel
  exact ⟨h, tokenize_written.2 _ h⟩

example : tokenize untidyText = [["bang", "1 2"], ["hello $1"]] := by decide +kernel

end Patchbay.BoxText
