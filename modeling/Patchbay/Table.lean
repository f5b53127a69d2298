import Patchbay.Number.Single
import Patchbay.Names
import Patchbay.Error
import Patchbay.Journal

/-
Named tables of samples.

The size of a table is fixed when it is made.  A write that does not fit as a whole
changes nothing.  A read takes any number as its index: it is rounded to the nearest
slot and held within the table.
-/

namespace Patchbay

structure Table where
  name : String
  samples : Array Float32

namespace Table

/-- A table of zeros. -/
def zeroed (name : String) (size : Nat) : Table :=
  ⟨name, Array.replicate size 0⟩

def size (t : Table) : Nat :=
  t.samples.size

def isEmpty (t : Table) : Bool :=
  t.samples.isEmpty

/-- The slot that an index reads.  It is found in single precision: the index is rounded, held
between the first slot and the last, and only then made a count. -/
def slotOf (size : Nat) (index : Float32) : Nat :=
  Single.toCount (Single.clamp (Single.round index) 0 (Single.ofInt (size - 1 : Nat)))

/-- Read at an index.  An empty table reads as zero. -/
def read (t : Table) (index : Float32) : Float32 :=
  if t.isEmpty then 0 else t.samples.getD (slotOf t.size index) 0

/-- Largest index that an error can show. -/
def highestIndex : Nat := twoTo 64 - 1

/-- Overwrite the slots from `start` on, all of them or none. -/
def write (t : Table) (start : Nat) (values : List Float32) : Except Error Table :=
  if start + values.length ≤ t.size then
    .ok { t with
      samples := t.samples.extract 0 start ++ values.toArray ++
        t.samples.extract (start + values.length) t.size }
  else
    .error (.tableIndex t.name t.size (min highestIndex (start + (values.length - 1))))

@[simp] theorem size_zeroed (name : String) (size : Nat) : (zeroed name size).size = size := by
  simp [zeroed, Table.size]

/-- A write keeps the size of the table. -/
theorem size_write {t t' : Table} {start : Nat} {values : List Float32}
    (h : t.write start values = .ok t') : t'.size = t.size := by
  simp only [write] at h
  split at h
  · next hFits =>
    simp only [Except.ok.injEq] at h
    subst h
    simp only [Table.size] at hFits ⊢
    simp
    omega
  · exact nomatch h

end Table

/-- All tables of a patch. -/
abbrev Tables := ByName Table

namespace Tables

/-- Make a table of zeros, in the place of one with the same name if there is one. -/
def create (ts : Tables) (name : String) (size : Nat) : Tables × List Entry :=
  (ts.insert name (Table.zeroed name size),
    if ts.contains name then [.warn s!"table '{name}' defined twice, keeping the last one"] else [])

/-- Write into a table, if it exists. -/
def write (ts : Tables) (name : String) (start : Nat) (values : List Float32) :
    Option (Except Error Tables) :=
  (ts.get? name).map fun t => (t.write start values).map (ts.insert name ·)

end Tables

end Patchbay
