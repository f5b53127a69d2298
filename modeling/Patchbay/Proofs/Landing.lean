import Patchbay.Proofs.Tabulation

/-
Where table data lands.

Data is written after the array that it is for, so a reader of a patch takes it for data of the
nearest array before it, up to a restore.  Building does not look back: an array that can be read
opens its table, a restore closes what is open, and data goes to what is open.  The two agree as
long as the nearest array can be read.  One that cannot opens nothing, and closes nothing either,
so the table of an earlier array that was not closed stays open for what comes next.

All of this is said of the words of the directives as they stand in the text.  `Nearest` is the
reader's array and `Standing` the table that is open; `standing_concat_iff` follows the latter
through one directive more, and the build keeps to it.
-/

namespace Patchbay

namespace Patch

/-! ### What the words say -/

/-- What a directive has to do with tables, by the words that it starts with. -/
inductive Topic where
  | array
  | restore
  | data
  | other
  deriving DecidableEq

def topic : List String → Topic
  | "#X" :: "array" :: _ => .array
  | "#X" :: "restore" :: _ => .restore
  | "#A" :: _ => .data
  | _ => .other

/-- The name in the words of an array, if its length is there, is a number and is not too large. -/
def arrayName? : List String → Option String
  | "#X" :: "array" :: name :: size :: _ =>
    if (readIndex? size).any (· ≤ maxTableSize) then some name else none
  | _ => none

/-- The words of a directive that has been cut out of a text. -/
def tokens (d : Nat × List Char) : List String :=
  (words d.2).map String.ofList

/-- Read some directives of a text. -/
def readAll (ds : List (Nat × List Char)) : List (Except Error Statement) :=
  ds.map fun d => readStatement d.1 d.2

theorem readAll_concat (ds : List (Nat × List Char)) (d : Nat × List Char) :
    readAll (ds ++ [d]) = readAll ds ++ [readStatement d.1 d.2] := by
  simp [readAll]

end Patch

/-- What a directive has to do with tables. -/
def Directive.topic : Directive → Patch.Topic
  | .array .. => .array
  | .restore => .restore
  | .fill .. => .data
  | _ => .other

/-- Only arrays and restores matter to which table is open. -/
theorem Directive.opens_eq_self {d : Directive} (hArray : d.topic ≠ .array)
    (hRestore : d.topic ≠ .restore) (openTable : Option String) : d.opens openTable = openTable := by
  cases d with
  | array => exact absurd rfl hArray
  | restore => exact absurd rfl hRestore
  | _ => rfl

namespace Patch

/-- What can be read from some words. -/
inductive Reads (ws : List String) : Except Error Directive → Prop
  | array {name : String} {size : Nat} {args : List String} (hTopic : topic ws = .array)
      (hName : arrayName? ws = some name) : Reads ws (.ok (.array name size args))
  | noArray {fault : Error} (hTopic : topic ws = .array) (hName : arrayName? ws = none) :
      Reads ws (.error fault)
  | restore (hTopic : topic ws = .restore) : Reads ws (.ok .restore)
  | data {start : Nat} {values : List Float32} (hTopic : topic ws = .data) :
      Reads ws (.ok (.fill start values))
  | noData {fault : Error} (hTopic : topic ws = .data) : Reads ws (.error fault)
  | other {result : Except Error Directive} (hTopic : topic ws = .other)
      (hOther : ∀ d, result = .ok d → d.topic = .other) : Reads ws result

theorem topic_cases (ws : List String) : (∃ rest, ws = "#X" :: "array" :: rest) ∨
    (∃ rest, ws = "#X" :: "restore" :: rest) ∨ (∃ rest, ws = "#A" :: rest) ∨
      topic ws = .other := by
  unfold topic
  split <;> simp

theorem arrayName?_eq_none {ws : List String} (h : topic ws ≠ .array) : arrayName? ws = none := by
  unfold arrayName?
  split
  · exact absurd rfl h
  · rfl

theorem reads_readDirective (line : Nat) (ws : List String) : Reads ws (readDirective line ws) := by
  unfold readDirective
  split
  case h_1 =>
    refine .other rfl fun d hd => ?_
    obtain ⟨at', -, hd⟩ := bind_eq_ok.mp hd
    split at hd <;> cases hd <;> rfl
  case h_2 =>
    refine .other rfl fun d hd => ?_
    obtain ⟨at', -, hd⟩ := bind_eq_ok.mp hd
    cases hd
    rfl
  case h_3 =>
    refine .other rfl fun d hd => ?_
    obtain ⟨at', -, hd⟩ := bind_eq_ok.mp hd
    cases hd
    rfl
  case h_4 name size args =>
    unfold index
    cases hSize : readIndex? size with
    | none => exact .noArray rfl (by simp [arrayName?, hSize])
    | some n =>
        by_cases hLong : maxTableSize < n
        · simp only [bind, Except.bind, if_pos hLong]
          exact .noArray rfl (by simp [arrayName?, hSize, hLong])
        · simp only [bind, Except.bind, if_neg hLong]
          exact .array rfl (by simp [arrayName?, hSize, Nat.le_of_not_lt hLong])
  case h_5 tail hShort =>
    refine .noArray rfl ?_
    unfold arrayName?
    split
    · rename_i name size args hWords
      simp only [List.cons.injEq, true_and] at hWords
      exact (hShort name size args hWords).elim
    · rfl
  case h_6 => exact .restore rfl
  case h_7 =>
    refine .other rfl fun d hd => ?_
    obtain ⟨_, -, hd⟩ := bind_eq_ok.mp hd
    obtain ⟨_, -, hd⟩ := bind_eq_ok.mp hd
    obtain ⟨_, -, hd⟩ := bind_eq_ok.mp hd
    obtain ⟨_, -, hd⟩ := bind_eq_ok.mp hd
    cases hd
    rfl
  case h_8 => exact .other rfl fun d hd => by cases hd
  case h_9 start values =>
    cases values.mapM (tableValue line) with
    | error fault => exact .noData rfl
    | ok numbers =>
        cases index line start with
        | error fault => exact .noData rfl
        | ok n => exact .data rfl
  case h_10 => exact .noData rfl
  case h_11 _ _ _ _ hArray hRestore _ _ hData hNoData =>
    refine .other ?_ fun d hd => by cases hd; rfl
    rcases topic_cases ws with ⟨rest, rfl⟩ | ⟨rest, rfl⟩ | ⟨rest, rfl⟩ | hTopic
    · exact (hArray rest rfl).elim
    · exact (hRestore rest rfl).elim
    · cases rest with
      | nil => exact (hNoData rfl).elim
      | cons start values => exact (hData start values rfl).elim
    · exact hTopic

/-- What starts like data is data, or cannot be read. -/
theorem Reads.fill_of_data {ws : List String} {result : Except Error Directive}
    (h : Reads ws result) (hData : topic ws = .data) :
    (∃ fault, result = .error fault) ∨ ∃ start values, result = .ok (.fill start values) := by
  cases h with
  | noArray hTopic hName => exact .inl ⟨_, rfl⟩
  | noData hTopic => exact .inl ⟨_, rfl⟩
  | data hTopic => exact .inr ⟨_, _, rfl⟩
  | array hTopic hName | restore hTopic | other hTopic hOther =>
      rw [hData] at hTopic
      cases hTopic

/-! ### The array that data is for, and the one that it goes to -/

/-- The nearest array before some place of a text, if nothing is closed after it. -/
def Nearest (before : List (Nat × List Char)) (a : Nat × List Char) : Prop :=
  ∃ earlier between, before = earlier ++ a :: between ∧ topic (tokens a) = .array ∧
    ∀ d ∈ between, topic (tokens d) ≠ .array ∧ topic (tokens d) ≠ .restore

/-- The name of the last array before some place of a text that can be made, if nothing is closed
after it. -/
def Standing (before : List (Nat × List Char)) (name : String) : Prop :=
  ∃ earlier a between, before = earlier ++ a :: between ∧ arrayName? (tokens a) = some name ∧
    ∀ d ∈ between, arrayName? (tokens d) = none ∧ topic (tokens d) ≠ .restore

theorem not_standing_nil (name : String) : ¬Standing [] name := by
  rintro ⟨earlier, a, between, hSplit, -⟩
  simp at hSplit

/-- What one directive more makes of what stands. -/
theorem standing_concat_iff {before : List (Nat × List Char)} {d : Nat × List Char}
    {name : String} : Standing (before ++ [d]) name ↔ arrayName? (tokens d) = some name ∨
      arrayName? (tokens d) = none ∧ topic (tokens d) ≠ .restore ∧ Standing before name := by
  constructor
  · rintro ⟨earlier, a, between, hSplit, hName, hBetween⟩
    rcases List.eq_nil_or_concat between with rfl | ⟨between, last, rfl⟩
    · obtain ⟨-, hLast⟩ := List.append_inj' hSplit rfl
      obtain rfl := List.singleton_inj.mp hLast
      exact .inl hName
    · rw [List.concat_eq_append, ← List.cons_append, ← List.append_assoc] at hSplit
      obtain ⟨rfl, hLast⟩ := List.append_inj' hSplit rfl
      obtain rfl := List.singleton_inj.mp hLast
      obtain ⟨hNone, hOpen⟩ := hBetween d (by simp)
      exact .inr ⟨hNone, hOpen, earlier, a, between, rfl, hName,
        fun x hx => hBetween x (by simp [hx])⟩
  · rintro (hName | ⟨hNone, hOpen, earlier, a, between, rfl, hName, hBetween⟩)
    · exact ⟨before, d, [], rfl, hName, by simp⟩
    · refine ⟨earlier, a, between ++ [d], by simp, hName, fun x hx => ?_⟩
      rcases List.mem_append.mp hx with hx | hx
      · exact hBetween x hx
      · obtain rfl := List.mem_singleton.mp hx
        exact ⟨hNone, hOpen⟩

/-- One name stands at most. -/
theorem Standing.unique {before : List (Nat × List Char)} {name other : String}
    (h : Standing before name) (hOther : Standing before other) : other = name := by
  induction before using List.reverseRecOn with
  | nil => exact absurd h (not_standing_nil name)
  | append_singleton before d ih =>
      rw [standing_concat_iff] at h hOther
      rcases h with h | ⟨hNone, -, h⟩
      · rcases hOther with hOther | ⟨hNone, -⟩
        · exact Option.some.inj (hOther.symm.trans h)
        · rw [h] at hNone
          cases hNone
      · rcases hOther with hOther | ⟨-, -, hOther⟩
        · rw [hOther] at hNone
          cases hNone
        · exact ih h hOther

/-- A nearest array that can be made is what stands. -/
theorem Nearest.standing {before : List (Nat × List Char)} {a : Nat × List Char}
    (h : Nearest before a) {name : String} (hName : arrayName? (tokens a) = some name) :
    Standing before name := by
  obtain ⟨earlier, between, hSplit, -, hBetween⟩ := h
  exact ⟨earlier, a, between, hSplit, hName,
    fun d hd => ⟨arrayName?_eq_none (hBetween d hd).1, (hBetween d hd).2⟩⟩

end Patch

/-! ### While a patch is read -/

namespace Engine

open Patch

variable {κ : Type} [CustomKind κ] {e : Engine κ}

/-- One directive more opens its own table, closes what is open, or leaves it. -/
theorem openTable_applyResult (b : Build κ) (d : Nat × List Char) {name : String} :
    (applyResult b (readStatement d.1 d.2)).openTable = some name ↔
      arrayName? (tokens d) = some name ∨
        arrayName? (tokens d) = none ∧ topic (tokens d) ≠ .restore ∧ b.openTable = some name := by
  rw [readStatement, ← tokens]
  have hReads := reads_readDirective d.1 (tokens d)
  generalize readDirective d.1 (tokens d) = result at hReads ⊢
  have hNone : topic (tokens d) ≠ .array → arrayName? (tokens d) = none := arrayName?_eq_none
  cases hReads with
  | array hTopic hName => simp [Except.map, applyResult, openTable_apply, Directive.opens, hName]
  | noArray hTopic hName => simp [Except.map, applyResult, hTopic, hName]
  | restore hTopic =>
      simp [Except.map, applyResult, openTable_apply, Directive.opens, hTopic, hNone]
  | data hTopic => simp [Except.map, applyResult, openTable_apply, Directive.opens, hTopic, hNone]
  | noData hTopic => simp [Except.map, applyResult, hTopic, hNone]
  | other hTopic hOther =>
      cases result with
      | error fault => simp [Except.map, applyResult, hTopic, hNone]
      | ok directive =>
          have hSame : directive.opens b.openTable = b.openTable :=
            Directive.opens_eq_self (by simp [hOther directive rfl])
              (by simp [hOther directive rfl]) _
          simp [Except.map, applyResult, openTable_apply, hSame, hTopic, hNone]

/-- **What is open while a patch is read is what stands in its text.** -/
theorem openTable_reading (e : Engine κ) (before : List (Nat × List Char)) {name : String} :
    (e.reading (readAll before)).openTable = some name ↔ Standing before name := by
  induction before using List.reverseRecOn with
  | nil => exact iff_of_false (fun h => by cases h) (not_standing_nil name)
  | append_singleton before d ih =>
      rw [readAll_concat, reading_concat, openTable_applyResult, standing_concat_iff, ih]

omit [CustomKind κ] in
/-- Data is taken exactly by an open table that is there, if it fits. -/
theorem fillTable_eq_ok {line : Nat} {openTable : Option String} {start : Nat}
    {values : List Float32} {tables : Tables}
    (h : e.fillTable line openTable start values = .ok tables) :
    ∃ name t t', openTable = some name ∧ e.tables.get? name = some t ∧
      t.write start values = .ok t' ∧ tables = e.tables.insert name t' := by
  unfold fillTable at h
  cases openTable with
  | none => cases h
  | some name =>
      cases ht : e.tables.get? name with
      | none => simp [Tables.write, ht] at h
      | some t =>
          cases hWrite : t.write start values with
          | error fault => simp [Tables.write, ht, hWrite, Except.map] at h
          | ok t' =>
              simp only [Tables.write, ht, hWrite, Except.map, Option.map_some,
                Except.ok.injEq] at h
              exact ⟨name, t, t', rfl, ht, hWrite, h.symm⟩

/-- Data leaves the tables as they are, or goes to the one that is open. -/
theorem tables_applyResult_data (b : Build κ) {d : Nat × List Char}
    (hData : topic (tokens d) = .data) :
    (applyResult b (readStatement d.1 d.2)).engine.tables = b.engine.tables ∨
      ∃ name t', b.openTable = some name ∧
        (applyResult b (readStatement d.1 d.2)).engine.tables = b.engine.tables.insert name t' := by
  rw [readStatement, ← tokens]
  rcases (reads_readDirective d.1 (tokens d)).fill_of_data hData with
    ⟨fault, hRead⟩ | ⟨start, values, hRead⟩
  · rw [hRead]
    exact .inl rfl
  · rw [hRead]
    simp only [Except.map, applyResult, apply]
    split
    · rename_i tables hFill
      obtain ⟨name, t, t', hOpen, -, -, rfl⟩ := fillTable_eq_ok hFill
      exact .inr ⟨name, t', hOpen, rfl⟩
    · exact .inl rfl

/-- Data that can be read overwrites the samples of the table that is open, if it fits. -/
theorem samples_applyResult_data (b : Build κ) {d : Nat × List Char} {name : String} {t : Table}
    {start : Nat} {values : List Float32} (hOpen : b.openTable = some name)
    (ht : b.engine.tables.get? name = some t)
    (hRead : readDirective d.1 (tokens d) = .ok (.fill start values)) :
    ((applyResult b (readStatement d.1 d.2)).engine.tables.get? name).map (·.samples.toList) =
      some (if start + values.length ≤ t.size then overwrite t.samples.toList start values
        else t.samples.toList) := by
  rw [readStatement, ← tokens, hRead]
  simp only [Except.map, applyResult, apply, fillTable, hOpen, Tables.write, ht, Option.map_some]
  cases hWrite : t.write start values with
  | error fault =>
      rw [if_neg (Nat.not_le_of_lt (write_eq_error hWrite).1)]
      exact congrArg (Option.map (·.samples.toList)) ht
  | ok t' =>
      obtain ⟨hFits, -, hSamples⟩ := toList_write hWrite
      rw [if_pos hFits]
      simp only
      rw [ByName.get?_insert_self, Option.map_some, hSamples]

/-- The tables once some directives of a text have been carried out. -/
def tablesAfter (e : Engine κ) (ds : List (Nat × List Char)) : Tables :=
  (e.reading (readAll ds)).engine.tables

theorem tablesAfter_concat (e : Engine κ) (before : List (Nat × List Char))
    (d : Nat × List Char) : e.tablesAfter (before ++ [d]) =
      (applyResult (e.reading (readAll before)) (readStatement d.1 d.2)).engine.tables := by
  rw [tablesAfter, readAll_concat, reading_concat]

/-- Data leaves the tables as they are, or goes to the one that stands in the text. -/
theorem tablesAfter_data (e : Engine κ) (before : List (Nat × List Char)) {d : Nat × List Char}
    (hData : topic (tokens d) = .data) : e.tablesAfter (before ++ [d]) = e.tablesAfter before ∨
      ∃ name t', Standing before name ∧
        e.tablesAfter (before ++ [d]) = (e.tablesAfter before).insert name t' := by
  simp only [tablesAfter_concat, ← openTable_reading e before]
  exact tables_applyResult_data _ hData

/-- Data changes no other table than that one. -/
theorem standing_of_changed (e : Engine κ) (before : List (Nat × List Char))
    {d : Nat × List Char} (hData : topic (tokens d) = .data) {name : String}
    (hChanged : (e.tablesAfter (before ++ [d])).get? name ≠ (e.tablesAfter before).get? name) :
    Standing before name := by
  rcases tablesAfter_data e before hData with hSame | ⟨other, t', hStanding, hInsert⟩
  · exact absurd (by rw [hSame]) hChanged
  · rw [hInsert, ByName.get?_insert] at hChanged
    split at hChanged
    · rename_i hName
      exact hName ▸ hStanding
    · exact absurd rfl hChanged

/-- What a directive of data does to the tables. -/
structure Lands (e : Engine κ) (before : List (Nat × List Char)) (d : Nat × List Char) : Prop where
  /-- No table changes but the one that stands open. -/
  standing : ∀ name, (e.tablesAfter (before ++ [d])).get? name ≠ (e.tablesAfter before).get? name →
    Standing before name
  /-- If the nearest array could be made, no table changes but that one. -/
  nearest : ∀ a name, Nearest before a → arrayName? (tokens a) = some name → ∀ other, other ≠ name →
    (e.tablesAfter (before ++ [d])).get? other = (e.tablesAfter before).get? other
  /-- If it could not, nothing changes unless an earlier one stands open. -/
  unmade : ∀ a, Nearest before a → arrayName? (tokens a) = none → (∀ name, ¬Standing before name) →
    e.tablesAfter (before ++ [d]) = e.tablesAfter before
  unread : ∀ fault, readDirective d.1 (tokens d) = .error fault →
    e.tablesAfter (before ++ [d]) = e.tablesAfter before
  /-- What stands open is there, and takes the data if it fits. -/
  taken : ∀ name, Standing before name → ∃ t, (e.tablesAfter before).get? name = some t ∧
    ∀ start values, readDirective d.1 (tokens d) = .ok (.fill start values) →
      ((e.tablesAfter (before ++ [d])).get? name).map (·.samples.toList) =
        some (if start + values.length ≤ t.size then overwrite t.samples.toList start values
          else t.samples.toList)

/--
**Data lands in the table that stands open.**  Wherever a directive of data stands in a text, it
changes no table but the one whose array is the last before it that could be made, with no
restore in between.  If the nearest array could be made, that is the one.  If it could not, the
data still goes to an earlier one that stands open, and nowhere if there is none.
-/
theorem data_lands {settings : Settings} {registry : Registry κ} {history : List (Happening κ)}
    {e : Engine κ} (hHistory : Run (.new settings registry) history e) {text : String}
    {before later : List (Nat × List Char)} {d : Nat × List Char}
    (hText : Source.directives text.toList = before ++ d :: later)
    (hData : topic (tokens d) = .data) :
    Patch.read text = readAll (before ++ [d]) ++ readAll later ∧ e.Lands before d := by
  have hChanged : ∀ {name}, (e.tablesAfter (before ++ [d])).get? name ≠
      (e.tablesAfter before).get? name → Standing before name := standing_of_changed e before hData
  refine ⟨?_, fun _ => hChanged, fun a name hNearest hName other hOther => ?_,
    fun a _ _ hNone => ?_, fun fault hFault => ?_, fun name hStanding => ?_⟩
  · rw [Patch.read, hText]
    simp [readAll]
  · by_contra hNot
    exact hOther ((hNearest.standing hName).unique (hChanged hNot))
  · rcases tablesAfter_data e before hData with hSame | ⟨name, t', hStanding, -⟩
    · exact hSame
    · exact absurd hStanding (hNone name)
  · rw [tablesAfter_concat, readStatement, ← tokens, hFault]
    rfl
  · have hOpen := (openTable_reading e before).mpr hStanding
    have hShelved := shelved_reading (empty_of_run hHistory).2.1 (readAll before)
    obtain ⟨t, ht⟩ := Option.isSome_iff_exists.mp (hShelved.found name hOpen)
    refine ⟨t, ht, fun start values hRead => ?_⟩
    rw [tablesAfter_concat]
    exact samples_applyResult_data _ hOpen ht hRead

/-- Two arrays, one after the other, and data. -/
def twoArrays : List (Nat × List Char) :=
  [(1, "#X array a 2 float 0".toList), (2, "#X array b 2 float 0".toList)]

theorem data_lands_twoArrays :
    let e : Engine Empty := .new .standard .builtin
    let data : Nat × List Char := (3, "#A 0 7 8".toList)
    Source.directives "#X array a 2 float 0;\n#X array b 2 float 0;\n#A 0 7 8;\n".toList =
        twoArrays ++ data :: [] ∧
      topic (tokens data) = .data ∧
      Nearest twoArrays (2, "#X array b 2 float 0".toList) ∧
      (e.tablesAfter (twoArrays ++ [data])).get? "a" = (e.tablesAfter twoArrays).get? "a" ∧
      ((e.tablesAfter twoArrays).get? "b").isSome := by
  intro e data
  have hText : Source.directives
      "#X array a 2 float 0;\n#X array b 2 float 0;\n#A 0 7 8;\n".toList =
        twoArrays ++ data :: [] := by
    decide +kernel
  have hData : topic (tokens data) = .data := by decide +kernel
  have hTopic : topic (tokens (2, "#X array b 2 float 0".toList)) = .array := by decide +kernel
  have hName : arrayName? (tokens (2, "#X array b 2 float 0".toList)) = some "b" := by
    decide +kernel
  have hNearest : Nearest twoArrays (2, "#X array b 2 float 0".toList) :=
    ⟨[_], [], rfl, hTopic, fun d hd => by cases hd⟩
  obtain ⟨-, hLands⟩ := data_lands (e := e) .start hText hData
  obtain ⟨t, ht, -⟩ := hLands.taken "b" (hNearest.standing hName)
  exact ⟨hText, hData, hNearest, hLands.nearest _ "b" hNearest hName "a" (by decide),
    Option.isSome_iff_exists.mpr ⟨t, ht⟩⟩

/-- An array that is not closed, data for it, and an array that is too long. -/
def leftOpen : List (Nat × List Char) :=
  [(1, "#X array a 2 float 0".toList), (2, "#A 0 1 2".toList),
    (3, "#X array b 16777217 float 0".toList)]

/-- The data that follows overwrites what is in the other table. -/
theorem data_lands_leftOpen :
    let e : Engine Empty := .new .standard .builtin
    let data : Nat × List Char := (4, "#A 0 7 8".toList)
    Source.directives ("#X array a 2 float 0;\n#A 0 1 2;\n#X array b 16777217 float 0;\n" ++
        "#A 0 7 8;\n#X restore;\n").toList =
        leftOpen ++ data :: [(5, "#X restore".toList)] ∧
      topic (tokens data) = .data ∧
      Nearest leftOpen (3, "#X array b 16777217 float 0".toList) ∧
      arrayName? (tokens (3, "#X array b 16777217 float 0".toList)) = none ∧
      ((e.tablesAfter leftOpen).get? "a").map (·.samples.toList) = some [1, 2] ∧
      ((e.tablesAfter (leftOpen ++ [data])).get? "a").map (·.samples.toList) = some [7, 8] := by
  intro e data
  have hTopic : topic (tokens (3, "#X array b 16777217 float 0".toList)) = .array := by
    decide +kernel
  have hNearest : Nearest leftOpen (3, "#X array b 16777217 float 0".toList) :=
    ⟨[_, _], [], rfl, hTopic, fun d hd => by cases hd⟩
  exact ⟨by decide +kernel, by decide +kernel, hNearest, by decide +kernel, by decide +kernel,
    by decide +kernel⟩

end Engine

end Patchbay
