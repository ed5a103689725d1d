import Mathlib.Data.List.Nodup
import Mathlib.Data.List.Perm.Basic
import StackMachine.Code.RegisterPool

/-!
# Registers on loan

A pool is used by asking it for registers and by giving outstanding leases back, each once
(`Lending.run`).  Whatever is done, no register is lost or lent twice (`Lending.Conserves`), the
auxiliary registers wait until the primary ones are gone, and the pool is marked as failed just when
it was asked for a register and had none (`conserves_registers`).
-/

namespace StackMachine.RegisterPool

variable {ρ : Type}

/-- A pool with the outstanding leases. -/
structure Lending (ρ : Type) where
  pool : RegisterPool ρ
  leases : List (Lease ρ) := []

namespace Lending

/-- The registers of the outstanding leases, stand-ins apart. -/
def held (l : Lending ρ) : List ρ := (l.leases.filter fun lease => !lease.isFallback).map Lease.reg

lemma held_cons (pool : RegisterPool ρ) (lease : Lease ρ) (leases : List (Lease ρ)) :
    held ⟨pool, lease :: leases⟩ = if lease.isFallback then held ⟨pool, leases⟩
      else lease.reg :: held ⟨pool, leases⟩ := by
  cases standIn : lease.isFallback <;> simp [held, standIn]

/-- Every register of a pool is in one place, and the free ones are in the list they came from. -/
structure Conserves (primary aux : List ρ) (l : Lending ρ) : Prop where
  primaryOrder : l.pool.primaryOrder = primary
  auxOrder : l.pool.auxOrder = aux
  all : (l.pool.primary ++ l.pool.aux ++ l.pool.live).Perm (primary ++ aux)
  primary : l.pool.primary ⊆ primary
  aux : l.pool.aux ⊆ aux
  live : l.pool.live.Perm l.held

section conserves

variable {primary aux : List ρ} {l : Lending ρ} (h : Conserves primary aux l)
include h

/-- A register that is handed out is on loan. -/
lemma Conserves.acquire :
    Conserves primary aux ⟨l.pool.acquire.2, l.pool.acquire.1 :: l.leases⟩ := by
  obtain ⟨primaryOrder, auxOrder, all, first, second, live⟩ := h
  have lent (reg : ρ) : (l.pool.live ++ [reg]).Perm (reg :: l.held) :=
    (List.perm_append_singleton reg _).trans (live.cons reg)
  unfold RegisterPool.acquire
  split
  · next reg rest free =>
    rw [free] at all first
    refine ⟨primaryOrder, auxOrder, .trans ?_ all, fun r mem => first (.tail _ mem), second,
      lent reg⟩
    rw [← List.append_assoc]
    exact List.perm_append_singleton reg _
  · next reg rest _ free =>
    rw [free] at all second
    refine ⟨primaryOrder, auxOrder, .trans ?_ all, first, fun r mem => second (.tail _ mem),
      lent reg⟩
    rw [← List.append_assoc]
    exact (List.perm_append_singleton reg _).trans (List.perm_middle.symm.append_right _)
  · exact ⟨primaryOrder, auxOrder, all, first, second, live⟩

variable (distinct : (primary ++ aux).Nodup)
include distinct

lemma Conserves.nodup_held : l.held.Nodup :=
  h.live.nodup_iff.1 (List.nodup_append.1 (h.all.nodup_iff.2 distinct)).2.1

/-- Nothing is free just when everything is on loan. -/
lemma Conserves.isFallback_acquire_iff :
    l.pool.acquire.1.isFallback = true ↔ ∀ reg ∈ primary ++ aux, reg ∈ l.held := by
  rw [isFallback_acquire, Bool.and_eq_true, List.isEmpty_iff, List.isEmpty_iff]
  constructor
  · rintro ⟨noPrimary, noAux⟩ reg mem
    have lent := h.all.mem_iff.2 mem
    rw [noPrimary, noAux] at lent
    exact h.live.mem_iff.1 lent
  · intro lent
    obtain ⟨-, -, apart⟩ := List.nodup_append.1 (h.all.nodup_iff.2 distinct)
    rw [← List.append_eq_nil_iff, List.eq_nil_iff_forall_not_mem]
    intro reg free
    have mem := h.all.subset (List.mem_append_left _ free)
    exact apart reg free reg (h.live.mem_iff.2 (lent reg mem)) rfl

/-- An auxiliary register is lent only when no primary one is free. -/
lemma Conserves.aux_acquire (second : l.pool.acquire.1.reg ∈ aux) :
    ∀ reg ∈ primary, reg ∈ l.held := by
  intro reg mem
  obtain ⟨-, -, apart⟩ := List.nodup_append.1 distinct
  cases free : l.pool.primary with
  | nil =>
    have lent := h.all.mem_iff.2 (List.mem_append_left _ mem)
    rw [free, List.nil_append, List.mem_append] at lent
    exact h.live.mem_iff.1 (lent.resolve_left fun other => apart reg mem reg (h.aux other) rfl)
  | cons first rest =>
    rw [RegisterPool.acquire, free] at second
    exact absurd rfl (apart first (h.primary (free ▸ .head _)) first second)

lemma Conserves.release [DecidableEq ρ] {place : Nat} {lease : Lease ρ}
    (found : l.leases[place]? = some lease) :
    Conserves primary aux ⟨l.pool.release lease, l.leases.eraseIdx place⟩ := by
  obtain ⟨inRange, rfl⟩ := List.getElem?_eq_some_iff.1 found
  set lease := l.leases[place]
  have outstanding : l.held.Perm (held ⟨l.pool, lease :: l.leases.eraseIdx place⟩) :=
    ((List.getElem_cons_eraseIdx_perm inRange).symm.filter _).map _
  rw [held_cons] at outstanding
  cases standIn : lease.isFallback with
  | true =>
    rw [standIn, if_pos rfl] at outstanding
    rw [RegisterPool.release, if_pos standIn]
    exact ⟨h.primaryOrder, h.auxOrder, h.all, h.primary, h.aux, h.live.trans outstanding⟩
  | false =>
    rw [standIn, if_neg Bool.false_ne_true] at outstanding
    have live := h.live.trans outstanding
    obtain ⟨fresh, -⟩ := List.nodup_cons.1 (outstanding.nodup_iff.1 (h.nodup_held distinct))
    have kept := (live.filter (· ≠ lease.reg)).trans <| by
      rw [List.filter_cons_of_neg (by simp), List.filter_eq_self.2]
      intro reg mem
      simpa using ne_of_mem_of_not_mem mem fresh
    have all : (lease.reg :: (l.pool.primary ++ l.pool.aux ++
        l.pool.live.filter (· ≠ lease.reg))).Perm (primary ++ aux) :=
      (List.perm_middle.symm.trans ((live.trans (kept.symm.cons _)).symm.append_left _)).trans h.all
    -- the register goes back to the list it came from
    rw [RegisterPool.release, if_neg (by simp [standIn])]
    dsimp only
    split_ifs with first second
    · rw [h.primaryOrder] at first
      exact ⟨h.primaryOrder, h.auxOrder, all, List.cons_subset.2 ⟨first, h.primary⟩, h.aux, kept⟩
    · rw [h.auxOrder] at second
      exact ⟨h.primaryOrder, h.auxOrder, (List.perm_middle.append_right _).trans all, h.primary,
        List.cons_subset.2 ⟨second, h.aux⟩, kept⟩
    · rw [h.primaryOrder] at first
      rw [h.auxOrder] at second
      exact absurd (all.subset (.head _)) (by simp [first, second])

end conserves

/-! ### Using a pool -/

/-- A use of a pool: a register is asked for, or one of the outstanding leases is given back. -/
inductive Move where
  | acquire
  | release (place : Nat)

variable [DecidableEq ρ]

/-- Uses the pool.  A lease that is given back is outstanding no longer. -/
def move (l : Lending ρ) : Move → Lending ρ
  | .acquire => ⟨l.pool.acquire.2, l.pool.acquire.1 :: l.leases⟩
  | .release place =>
    match l.leases[place]? with
    | some lease => ⟨l.pool.release lease, l.leases.eraseIdx place⟩
    | none => l

/-- Uses the pool again and again. -/
def run (l : Lending ρ) (moves : List Move) : Lending ρ := moves.foldl move l

lemma Conserves.move {primary aux : List ρ} {l : Lending ρ} (h : Conserves primary aux l)
    (distinct : (primary ++ aux).Nodup) (use : Move) : Conserves primary aux (l.move use) := by
  cases use with
  | acquire => exact h.acquire
  | release place =>
    rw [Lending.move]
    cases found : l.leases[place]? with
    | some lease => exact h.release distinct found
    | none => exact h

lemma Conserves.run {primary aux : List ρ} {l : Lending ρ} (h : Conserves primary aux l)
    (distinct : (primary ++ aux).Nodup) (moves : List Move) :
    Conserves primary aux (l.run moves) := by
  induction moves generalizing l with
  | nil => exact h
  | cons use rest ih => exact ih (h.move distinct use)

/-- A pool fails for good when a register is wanted and none is free. -/
lemma failed_move (l : Lending ρ) (use : Move) : (l.move use).pool.failed = true ↔
    l.pool.failed = true ∨ use = .acquire ∧ l.pool.acquire.1.isFallback = true := by
  cases use with
  | acquire =>
    rw [move]
    unfold RegisterPool.acquire
    split <;> simp
  | release place =>
    rw [move]
    cases l.leases[place]? with
    | some lease =>
      unfold RegisterPool.release
      dsimp only
      split_ifs <;> simp
    | none => simp

lemma failed_run (l : Lending ρ) (moves : List Move) : (l.run moves).pool.failed = true ↔
    l.pool.failed = true ∨
    ∃ before after, moves = before ++ .acquire :: after ∧ (l.run before).pool.acquire.1.isFallback =
      true := by
  induction moves generalizing l with
  | nil => simp [run]
  | cons use rest ih =>
    rw [run, List.foldl_cons, ← run, ih, failed_move, or_assoc]
    refine or_congr_right ⟨?_, ?_⟩
    · rintro (⟨rfl, exhausted⟩ | ⟨before, after, rfl, exhausted⟩)
      · exact ⟨[], rest, rfl, exhausted⟩
      · exact ⟨use :: before, after, rfl, exhausted⟩
    · rintro ⟨before, after, split, exhausted⟩
      cases before with
      | nil =>
        obtain ⟨rfl, -⟩ := List.cons.inj split
        exact .inl ⟨rfl, exhausted⟩
      | cons first before =>
        obtain ⟨rfl, tail⟩ := List.cons.inj split
        exact .inr ⟨before, after, tail, exhausted⟩

end Lending

/-- **Pools conserve registers.**  Whatever leases are taken and given back, each pooled register is
free, in the list it came from, or on loan; those on loan are the registers of the outstanding
leases, stand-ins apart, and differ from each other; an auxiliary register is lent only when all
primary ones are on loan; and the pool has failed just when a register was asked for while all were
on loan. -/
theorem conserves_registers [DecidableEq ρ] (primary aux : List ρ) (fallback : ρ)
    (distinct : (primary ++ aux).Nodup) (moves : List Lending.Move) :
    let start : Lending ρ := ⟨new primary aux fallback, []⟩
    let l := start.run moves
    (l.pool.primary ++ l.pool.aux ++ l.pool.live).Perm (primary ++ aux) ∧
      l.pool.primary ⊆ primary ∧ l.pool.aux ⊆ aux ∧
      l.pool.live.Perm l.held ∧ l.held.Nodup ∧
      (l.pool.acquire.1.reg ∈ aux → ∀ reg ∈ primary, reg ∈ l.held) ∧
      (l.pool.failed = true ↔ ∃ before after, moves = before ++ .acquire :: after ∧
        ∀ reg ∈ primary ++ aux, reg ∈ (start.run before).held) := by
  intro start l
  have fresh : start.Conserves primary aux :=
    ⟨rfl, rfl, .of_eq (List.append_nil _), List.Subset.refl _, List.Subset.refl _, .refl _⟩
  have conserves (moves : List Lending.Move) := fresh.run distinct moves
  obtain ⟨-, -, all, first, second, live⟩ := conserves moves
  refine ⟨all, first, second, live, (conserves moves).nodup_held distinct,
    (conserves moves).aux_acquire distinct, ?_⟩
  simp only [l, Lending.failed_run, (conserves _).isFallback_acquire_iff distinct]
  exact or_iff_right Bool.false_ne_true

/-- Two primary registers and an auxiliary one are lent, the second is given back and lent again,
and then nothing is left. -/
theorem conserves_registers_three :
    ([1, 2] ++ [7]).Nodup ∧
      (Lending.run ⟨new [1, 2] [7] 0, []⟩
        [.acquire, .acquire, .acquire, .release 1, .acquire, .acquire]).pool.failed = true := by
  obtain ⟨-, -, -, -, -, -, failed⟩ := conserves_registers [1, 2] [7] 0 (by decide)
    [.acquire, .acquire, .acquire, .release 1, .acquire, .acquire]
  exact ⟨by decide,
    failed.2 ⟨[.acquire, .acquire, .acquire, .release 1, .acquire], [], rfl, by decide⟩⟩

end StackMachine.RegisterPool
