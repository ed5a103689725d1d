import StackMachine.Native.Backend
import StackMachine.Proofs.Native.Straight

/-!
# Instructions in a row

Nothing here depends on the target.  Instructions are executed one after another (`execAll`), by any
function that executes one of them and may stop.  Bytes are somewhere in the code (`Stand`), and
those of instructions in a row follow one another (`Stand.append`).
-/

namespace StackMachine.Native

section Execution

variable {S I : Type} {M : Type → Type} [Monad M] [LawfulMonad M] {exec : S → I → M S} {s t : S}
  {i : I}

/-- Executes instructions in a row. -/
def execAll (exec : S → I → M S) (s : S) (code : List I) : M S := code.foldlM exec s

lemma execAll_cons (run : exec s i = pure t) (rest : List I) :
    execAll exec s (i :: rest) = execAll exec t rest := by
  rw [execAll, List.foldlM_cons, run, pure_bind, execAll]

lemma execAll_singleton (exec : S → I → M S) (s : S) (i : I) : execAll exec s [i] = exec s i := by
  rw [execAll, List.foldlM_cons]
  exact bind_pure _

lemma execAll_append_of_eq {first : List I} (run : execAll exec s first = pure t)
    (second : List I) :
    execAll exec s (first ++ second) = execAll exec t second := by
  rw [execAll, List.foldlM_append, ← execAll, run, pure_bind, execAll]

end Execution

/-! ### Bytes -/

/-- Bytes are in the code, from an offset on. -/
def Stand (code : List UInt8) (offset : Nat) (bytes : List UInt8) :
    Prop := bytes <+: code.drop offset

/-- Bytes in a row stand one after another. -/
lemma Stand.append {code a b : List UInt8} {offset : Nat} :
    Stand code offset (a ++ b) ↔ Stand code offset a ∧ Stand code (offset + a.length) b := by
  unfold Stand
  constructor
  · rintro ⟨rest, h⟩
    refine ⟨⟨b ++ rest, by rw [← h, List.append_assoc]⟩, rest, ?_⟩
    rw [← List.drop_drop, ← h, List.append_assoc, List.drop_left]
  · rintro ⟨⟨rest, h⟩, rest', h'⟩
    rw [← List.drop_drop, ← h, List.drop_left] at h'
    exact ⟨rest', by rw [List.append_assoc, h', h]⟩

end StackMachine.Native
