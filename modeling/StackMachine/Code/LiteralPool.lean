/-!
# Literal pools

Constants that do not fit an instruction are kept in a pool beside the code.  A constant is pooled
once; the pool has a fixed capacity.
-/

namespace StackMachine

/-- The constants pooled so far, in order. -/
structure LiteralPool where
  capacity : Nat
  entries : List UInt64 := []
  deriving DecidableEq, Repr

namespace LiteralPool

/-- The index of a constant, pooling it if it is new; none when the pool is full. -/
def place? (p : LiteralPool) (bits : UInt64) : Option (Nat × LiteralPool) :=
  match p.entries.findIdx? (· == bits) with
  | some index => some (index, p)
  | none =>
    if p.entries.length < p.capacity then
      some (p.entries.length, { p with entries := p.entries ++ [bits] })
    else none

/-- The whole pool, unused entries as zero. -/
def contents (p : LiteralPool) : List UInt64 :=
  p.entries ++ List.replicate (p.capacity - p.entries.length) 0

/-- A pooled constant stands at the index it was given. -/
theorem getElem?_of_place? {p q : LiteralPool} {bits : UInt64} {index : Nat}
    (h : p.place? bits = some (index, q)) : q.entries[index]? = some bits := by
  unfold place? at h
  split at h
  · rename_i found
    cases h
    obtain ⟨hlt, heq, -⟩ := List.findIdx?_eq_some_iff_getElem.1 found
    rw [List.getElem?_eq_getElem hlt]
    simpa using heq
  · split at h
    · cases h
      simp
    · cases h

end LiteralPool

end StackMachine
