import Patchbay.Proofs.Nearest
import Patchbay.Proofs.Tabulation

/-
Reading tables.

An index is a number of any size or none at all, and it is made a slot in single precision: it is
rounded, held between zero and the last slot, and turned into a count.  Nothing checks that count
against the table.  It is within the table because tables are short.  The last slot is a number
that single precision holds, so the upper bound is that slot and none after it, and what comes
out between the bounds is a whole number that is counted as it is.

`NearestSlot` says on the rationals which slot an index is for.  There is one for every index,
and `slotOf` finds it as long as the last slot is held.
-/

namespace Patchbay

namespace Table

/-- The slot nearest to an index, of those up to the last one. -/
inductive NearestSlot (last : Nat) (index : Float32) : Nat → Prop
  | missing (hNaN : index.isNaN = true) : NearestSlot last index 0
  | below (hValue : Single.value index = .infinite true) : NearestSlot last index 0
  | above (hValue : Single.value index = .infinite false) : NearestSlot last index last
  | finite {negative : Bool} {significand : Nat} {scale : Int}
      (hValue : Single.value index = .finite negative significand scale) {slot : Nat}
      (hSlot : (slot : ℤ) =
        max 0 (min (last : ℤ) (roundAway (withSign negative (significand * 2 ^ scale))))) :
      NearestSlot last index slot

variable {last slot : Nat} {index : Float32}

theorem exists_nearestSlot (last : Nat) (index : Float32) : ∃ slot, NearestSlot last index slot := by
  cases hValue : Single.value index with
  | nan => exact ⟨0, .missing (Single.extent_eq_none_iff.mp (congrArg BinaryValue.extent hValue))⟩
  | infinite negative =>
      cases negative with
      | true => exact ⟨0, .below hValue⟩
      | false => exact ⟨last, .above hValue⟩
  | finite negative significand scale =>
      exact ⟨_, .finite hValue (Int.toNat_of_nonneg (le_max_left _ _))⟩

theorem NearestSlot.le (h : NearestSlot last index slot) : slot ≤ last := by
  cases h with
  | missing | below => exact Nat.zero_le last
  | above => exact Nat.le_refl last
  | finite hValue hSlot => omega

/-- What an index within a table reads is no farther from it than half a slot. -/
theorem NearestSlot.near (h : NearestSlot last index slot) {q : ℚ}
    (hStands : (Single.value index).extent = some (q : WithBotTop ℚ)) (hLow : 0 ≤ q)
    (hHigh : q ≤ last) :
    |q - slot| ≤ 1 / 2 ∧ (|q - slot| = 1 / 2 → |q| < |(slot : ℚ)|) := by
  have hSlot : (slot : ℤ) = max 0 (min (last : ℤ) (roundAway q)) := by
    obtain ⟨negative, significand, scale, hFinite, rfl⟩ := Single.finite_of_extent hStands
    cases h with
    | missing hNaN =>
        rw [Single.isNaN_of_extent hStands] at hNaN
        cases hNaN
    | below hValue | above hValue => cases hFinite.symm.trans hValue
    | finite hValue hSlot =>
        obtain ⟨rfl, rfl, rfl⟩ := BinaryValue.finite.inj (hFinite.symm.trans hValue)
        exact hSlot
  have hInside : 0 ≤ roundAway q ∧ roundAway q ≤ last := by
    rw [roundAway, if_neg (not_lt.mpr hLow), round_eq]
    refine ⟨Int.floor_nonneg.mpr (by linarith), Int.lt_add_one_iff.mp (Int.floor_lt.mpr ?_)⟩
    push_cast
    linarith
  have hSame : (slot : ℚ) = roundAway q := by
    rw [min_eq_right hInside.2, max_eq_right hInside.1] at hSlot
    exact_mod_cast hSlot
  rw [hSame]
  exact roundAway_nearest q

/-- **What comes out between the bounds is the slot, exactly.** -/
theorem NearestSlot.extent_clamp (h : NearestSlot last index slot) (hLast : Single.Held last)
    (hNumber : index.isNaN = false) :
    (Single.value (Single.clamp (Single.round index) 0 (Single.ofInt last))).extent =
      some ((slot : ℚ) : WithBotTop ℚ) := by
  have hOrder : ((0 : ℚ) : WithBotTop ℚ) ≤ ((last : ℚ) : WithBotTop ℚ) :=
    WithBotTop.coe_le_coe.mpr (Nat.cast_nonneg last)
  have hClamp : ∀ {p : WithBotTop ℚ}, (Single.value (Single.round index)).extent = some p →
      (Single.value (Single.clamp (Single.round index) 0 (Single.ofInt last))).extent =
        some (max ((0 : ℚ) : WithBotTop ℚ) (min ((last : ℚ) : WithBotTop ℚ) p)) :=
    fun hp => Single.extent_clamp hp Single.extent_zero (Single.extent_ofInt hLast) hOrder
  cases h with
  | missing hNaN =>
      rw [hNumber] at hNaN
      cases hNaN
  | below hValue =>
      have hRound := Single.round_of_infinite hValue
      rw [hClamp (hRound.symm ▸ congrArg BinaryValue.extent hValue), min_bot_right]
      simp
  | above hValue =>
      have hRound := Single.round_of_infinite hValue
      rw [hClamp (hRound.symm ▸ congrArg BinaryValue.extent hValue), min_top_right,
        max_eq_right hOrder]
  | finite hValue hSlot =>
      rw [hClamp (Single.extent_round (congrArg BinaryValue.extent hValue)),
        ← WithBotTop.coe_monotone.map_min, ← WithBotTop.coe_monotone.map_max]
      have hCast : (slot : ℚ) = ((slot : ℤ) : ℚ) := (Int.cast_natCast slot).symm
      rw [hCast, hSlot]
      push_cast
      rfl

/-- **An index reads the slot that is nearest to it**, if the last slot is held. -/
theorem NearestSlot.slotOf_eq (h : NearestSlot last index slot) (hLast : last ≤ maxTableSize) :
    slotOf (last + 1) index = slot := by
  rw [slotOf, Nat.add_sub_cancel]
  have hSlot : slot < twoTo 64 := (h.le.trans hLast).trans_lt (by decide)
  have hCount : index.isNaN = false →
      Single.toCount (Single.clamp (Single.round index) 0 (Single.ofInt last)) = slot :=
    fun hNumber =>
      Single.toCount_of_extent hSlot (h.extent_clamp (Single.held_of_le hLast) hNumber)
  cases h with
  | missing hNaN =>
      rw [Single.round_of_isNaN hNaN, Single.clamp_of_isNaN hNaN, Single.toCount_of_isNaN hNaN]
  | below hValue | above hValue | finite hValue =>
      exact hCount (Single.isNaN_of_extent (congrArg BinaryValue.extent hValue))

theorem nearestSlot_slotOf (hLast : last ≤ maxTableSize) (index : Float32) :
    NearestSlot last index (slotOf (last + 1) index) := by
  obtain ⟨slot, h⟩ := exists_nearestSlot last index
  exact h.slotOf_eq hLast ▸ h

/-- Short tables are read within their bounds. -/
theorem slotOf_lt {t : Table} (hSize : t.size ≤ maxTableSize) (hSome : 0 < t.size)
    (index : Float32) : slotOf t.size index < t.size := by
  obtain ⟨last, hLast⟩ := Nat.exists_eq_add_one_of_ne_zero hSome.ne'
  rw [hLast]
  exact Nat.lt_succ_of_le (nearestSlot_slotOf (by omega) index).le

theorem getElem?_slotOf {t : Table} (hSize : t.size ≤ maxTableSize) (hSome : 0 < t.size)
    (index : Float32) : t.samples[slotOf t.size index]? = some (t.read index) := by
  have hLess : slotOf t.size index < t.samples.size := slotOf_lt hSize hSome index
  have hFilled : t.isEmpty = false :=
    Bool.eq_false_iff.mpr fun hEmpty => hSome.ne' (Array.isEmpty_iff_size_eq_zero.mp hEmpty)
  rw [read, hFilled, if_neg Bool.false_ne_true, Array.getD_eq_getD_getElem?,
    Array.getElem?_eq_getElem hLess, Option.getD_some]

/--
**Tables are read at the nearest slot.**  A table that is no longer than a patch may declare reads as
zero if it is empty.  Otherwise every index reads the sample at the slot that is nearest to it, and
there is such a sample.  The bounds are in order, the upper one is the last slot exactly, and an
index that is a number is the slot exactly before it is counted.
-/
theorem read_nearest {t : Table} (hSize : t.size ≤ maxTableSize) (index : Float32) :
    (t.size = 0 → t.read index = 0) ∧
    ∀ last, t.size = last + 1 →
      NearestSlot last index (slotOf t.size index) ∧
      slotOf t.size index < t.size ∧
      t.samples[slotOf t.size index]? = some (t.read index) ∧
      (0 : Float32) ≤ Single.ofInt last ∧
      (Single.value (Single.ofInt last)).extent = some ((last : ℚ) : WithBotTop ℚ) ∧
      (index.isNaN = false →
        (Single.value (Single.clamp (Single.round index) 0 (Single.ofInt last))).extent =
          some ((slotOf t.size index : ℚ) : WithBotTop ℚ)) := by
  refine ⟨fun hEmpty => ?_, fun last hLast => ?_⟩
  · have hNone : t.isEmpty = true := Array.isEmpty_iff_size_eq_zero.mpr hEmpty
    rw [read, if_pos hNone]
  · have hShort : last ≤ maxTableSize := by omega
    have hHeld : Single.Held last := Single.held_of_le hShort
    have hNearest : NearestSlot last index (slotOf t.size index) :=
      hLast ▸ nearestSlot_slotOf hShort index
    refine ⟨hNearest, slotOf_lt hSize (by omega) index, getElem?_slotOf hSize (by omega) index, ?_,
      Single.extent_ofInt hHeld, hNearest.extent_clamp hHeld⟩
    rw [Single.le_iff Single.extent_zero (Single.extent_ofInt hHeld), WithBotTop.coe_le_coe]
    exact Nat.cast_nonneg last

/-- A half is read at the slot farther from zero. -/
theorem read_nearest_half :
    let t : Table := ⟨"t", #[1, 2, 4]⟩
    t.size ≤ maxTableSize ∧ slotOf t.size 1.5 = 2 ∧ t.samples[2]? = some (t.read 1.5) ∧
      NearestSlot 2 1.5 2 := by
  intro t
  have hSize : t.size ≤ maxTableSize := by decide
  have hSlot : slotOf t.size 1.5 = 2 := by decide +kernel
  obtain ⟨-, hRead⟩ := read_nearest hSize 1.5
  obtain ⟨hNearest, -, hSample, -⟩ := hRead 2 rfl
  rw [hSlot] at hNearest hSample
  exact ⟨hSize, hSlot, hSample, hNearest⟩

/-- Four slots more, and the last index would be rounded up to one that is not there. -/
example : slotOf (maxTableSize + 4) (Single.ofInt (maxTableSize + 3)) = maxTableSize + 4 := by
  decide +kernel

end Table

/-- **No table of a loaded patch is read out of its bounds**, whatever is done after the load. -/
theorem Engine.slotOf_lt {κ : Type} [CustomKind κ] {settings : Settings} {registry : Registry κ}
    {before after : List (Happening κ)} {e₀ e₁ e : Engine κ} {source : String}
    (hBefore : Run (.new settings registry) before e₀)
    (hLoad : e₀.load source = (.ok (), e₁)) (hAfter : Run e₁ after e) {name : String} {t : Table}
    (ht : e.tables.get? name = some t) (hSome : 0 < t.size) (index : Float32) :
    Table.slotOf t.size index < t.size := by
  have hTables : e₀.tables = .empty := (empty_of_run hBefore).2.1
  have hLast : e.tables = (e₀.reading (Patch.read source)).engine.tables :=
    hAfter.lasts.tables.trans (lasts_load hLoad).tables
  have hMidway := midway_reading hTables (List.append_nil (Patch.read source)).symm
  exact Table.slotOf_lt (hMidway.short name t (hLast ▸ ht)) hSome index

end Patchbay
