import StackMachine.Proofs.ByteMemory

/-!
# Straight code

What code without branches does to a processor is said by the registers that it may change and by
the words that it writes to memory, one after another (`Writes`).  `Straight` adds that the code is
executed.  Both are closed under sequence, so the effect of a long code is put together from the
effects of its parts; code that is repeated for each element of a list is one of them
(`Straight.exists_each`).
-/

namespace StackMachine.Native

variable {I R F S α : Type} {runs : List I → S → S → Prop} {regs : S → R → Word}
  {floats : S → F → Word} {memory : S → ByteMemory} {spared spared' : List R}
  {writes writes' : List (Word × Word)} {code code' : List I} {s t u : S}

/-- One state leads to another by writes to some registers, to the flags and to words in memory. -/
structure Writes (regs : S → R → Word) (floats : S → F → Word) (memory : S → ByteMemory)
    (spared : List R) (writes : List (Word × Word)) (s t : S) : Prop where
  regs : ∀ r, r ∉ spared → regs t r = regs s r
  floats : floats t = floats s
  memory : memory t = (memory s).writeAll writes

namespace Writes

lemma refl (spared : List R) (s : S) : Writes regs floats memory spared [] s s :=
  ⟨fun _ _ => rfl, rfl, rfl⟩

lemma trans (first : Writes regs floats memory spared writes s t)
    (second : Writes regs floats memory spared writes' t u) :
    Writes regs floats memory spared (writes ++ writes') s u where
  regs r other := (second.regs r other).trans (first.regs r other)
  floats := second.floats.trans first.floats
  memory := by rw [second.memory, first.memory, ByteMemory.writeAll_append]

lemma mono (written : Writes regs floats memory spared writes s t) (sub : spared ⊆ spared') :
    Writes regs floats memory spared' writes s t :=
  ⟨fun r other => written.regs r fun mem => other (sub mem), written.floats, written.memory⟩

end Writes

/-- Code is executed in parts. -/
class Sequential (runs : List I → S → S → Prop) : Prop where
  nil : ∀ s, runs [] s s
  append : ∀ {code code' : List I} {s t u}, runs code s t → runs code' t u →
    runs (code ++ code') s u

/-- Code takes one state to another by such writes. -/
structure Straight (runs : List I → S → S → Prop) (regs : S → R → Word) (floats : S → F → Word)
    (memory : S → ByteMemory) (code : List I) (spared : List R) (writes : List (Word × Word))
    (s t : S) : Prop extends Writes regs floats memory spared writes s t where
  run : runs code s t

namespace Straight

variable [sequential : Sequential runs]

lemma nil (spared : List R) (s : S) : Straight runs regs floats memory [] spared [] s s :=
  ⟨.refl spared s, sequential.nil s⟩

lemma append (first : Straight runs regs floats memory code spared writes s t)
    (second : Straight runs regs floats memory code' spared writes' t u) :
    Straight runs regs floats memory (code ++ code') spared (writes ++ writes') s u :=
  ⟨first.trans second.toWrites, sequential.append first.run second.run⟩

omit sequential in
lemma mono (straight : Straight runs regs floats memory code spared writes s t)
    (sub : spared ⊆ spared') :
    Straight runs regs floats memory code spared' writes s t :=
  ⟨straight.toWrites.mono sub, straight.run⟩

/-- Instructions that leave memory alone. -/
lemma exists_quiet {code : List I}
    (each : ∀ i ∈ code, ∀ s, ∃ t, Straight runs regs floats memory [i] spared [] s t) (s : S) :
    ∃ t, Straight runs regs floats memory code spared [] s t := by
  induction code generalizing s with
  | nil => exact ⟨s, .nil spared s⟩
  | cons i rest ih =>
    obtain ⟨here, later⟩ := List.forall_mem_cons.1 each
    obtain ⟨t, first⟩ := here s
    obtain ⟨u, second⟩ := ih later t
    exact ⟨u, first.append second⟩

/-- Code for each element of a list, from states that the code for others has led to. -/
lemma exists_each {items : List α} {code : α → List I} {writes : α → List (Word × Word)}
    (each : ∀ a ∈ items, ∀ {before t}, before ⊆ items.flatMap writes →
      Writes regs floats memory spared before s t →
      ∃ u, Straight runs regs floats memory (code a) spared (writes a) t u) :
    ∃ t, Straight runs regs floats memory (items.flatMap code) spared (items.flatMap writes) s
      t := by
  suffices later : ∀ rest ⊆ items, ∀ {before t}, before ⊆ items.flatMap writes →
      Writes regs floats memory spared before s t →
      ∃ u, Straight runs regs floats memory (rest.flatMap code) spared (rest.flatMap writes)
        t u from
    later items (List.Subset.refl _) (List.nil_subset _) (.refl spared s)
  intro rest
  induction rest with
  | nil => exact fun _ _ t _ _ => ⟨t, .nil spared t⟩
  | cons a rest ih =>
    intro sub before t inItems written
    obtain ⟨here, inRest⟩ := List.cons_subset.1 sub
    obtain ⟨u, first⟩ := each a here inItems written
    have next : before ++ writes a ⊆ items.flatMap writes :=
      List.append_subset.2 ⟨inItems, fun p mem => List.mem_flatMap.2 ⟨a, here, mem⟩⟩
    obtain ⟨v, second⟩ := ih inRest next (written.trans first.toWrites)
    exact ⟨v, first.append second⟩

end Straight

end StackMachine.Native
