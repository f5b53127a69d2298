/-
Values kept under names.

Tables, receivers, kinds and aliases are all looked up by name.  Entries stay in the
order in which their names were first used; putting a value under a name that is in
use replaces the value in place.  What a collection holds is told by `get?`, and the
two lemmas on `insert` say everything about it.
-/

namespace Patchbay

/-- Values under distinct names, in the order in which the names came. -/
structure ByName (α : Type) where
  entries : List (String × α)

namespace ByName

variable {α : Type}

def empty : ByName α := ⟨[]⟩

instance : Inhabited (ByName α) := ⟨empty⟩

/-- Replace the value under a name, or add the name at the end. -/
def insertInto (name : String) (a : α) : List (String × α) → List (String × α)
  | [] => [(name, a)]
  | (other, b) :: rest =>
    if other = name then (name, a) :: rest else (other, b) :: insertInto name a rest

def insert (c : ByName α) (name : String) (a : α) : ByName α :=
  ⟨insertInto name a c.entries⟩

/-- The value under a name. -/
def lookupIn (name : String) : List (String × α) → Option α
  | [] => none
  | (other, b) :: rest => if other = name then some b else lookupIn name rest

def get? (c : ByName α) (name : String) : Option α :=
  lookupIn name c.entries

def contains (c : ByName α) (name : String) : Bool :=
  (c.get? name).isSome

def names (c : ByName α) : List String :=
  c.entries.map Prod.fst

def values (c : ByName α) : List α :=
  c.entries.map Prod.snd

def size (c : ByName α) : Nat :=
  c.entries.length

def isEmpty (c : ByName α) : Bool :=
  c.entries.isEmpty

@[simp] theorem get?_empty (name : String) : (empty : ByName α).get? name = none := rfl

@[simp] theorem get?_insert_self (c : ByName α) (name : String) (a : α) :
    (c.insert name a).get? name = some a := by
  obtain ⟨l⟩ := c
  simp only [get?, insert]
  induction l with
  | nil => simp [insertInto, lookupIn]
  | cons entry rest ih =>
    obtain ⟨other, b⟩ := entry
    by_cases h : other = name <;> simp [insertInto, lookupIn, h, ih]

theorem get?_insert_of_ne (c : ByName α) {name other : String} (a : α) (h : other ≠ name) :
    (c.insert name a).get? other = c.get? other := by
  obtain ⟨l⟩ := c
  simp only [get?, insert]
  induction l with
  | nil => simp [insertInto, lookupIn, Ne.symm h]
  | cons entry rest ih =>
    obtain ⟨third, b⟩ := entry
    by_cases h₁ : third = name
    · subst h₁
      simp [insertInto, lookupIn, Ne.symm h]
    · by_cases h₂ : third = other
      · subst h₂
        simp [insertInto, lookupIn, h]
      · simp [insertInto, lookupIn, h₁, h₂, ih]

/-- Looking up after an insertion. -/
theorem get?_insert (c : ByName α) (name other : String) (a : α) :
    (c.insert name a).get? other = if other = name then some a else c.get? other := by
  split
  · next h => rw [h, get?_insert_self]
  · next h => exact get?_insert_of_ne c a h

end ByName

end Patchbay
