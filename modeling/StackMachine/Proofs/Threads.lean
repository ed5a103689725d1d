import Mathlib.Data.List.Nodup
import StackMachine.Thread

/-!
# Outcomes of threads

Requests to a registry are answered one after another (`Registry.serveAll`).  The requests with
their replies tell which threads have been spawned and not been joined since (`Unjoined`); these are
just the threads that the registry holds (`Accounts`).  So each outcome is reported once, whether
its thread is joined alone or with all others (`reports_outcomes_once`).
-/

namespace StackMachine.Registry

/-- A request to a registry.  It is known how the work of a thread ends. -/
inductive Request where
  | spawn (outcome : Outcome)
  | join (id : Word)
  | joinAll
  | newMutex

/-- An answer: the number of a new thread or mutex, or what has been joined. -/
inductive Reply where
  | number (id : Word)
  | joined (report : Except Cause Unit)

def serve (r : Registry Outcome) : Request → Reply × Registry Outcome
  | .spawn outcome => (.number (r.spawn outcome).1, (r.spawn outcome).2)
  | .join id => (.joined (r.join id).1, (r.join id).2)
  | .joinAll => (.joined r.joinAll.1, r.joinAll.2)
  | .newMutex => (.number r.newMutex.1, r.newMutex.2)

/-- Serves requests in turn, and keeps them with their replies. -/
def serveAll (r : Registry Outcome) : List Request → List (Request × Reply) × Registry Outcome
  | [] => ([], r)
  | request :: rest =>
    let served := serveAll (r.serve request).2 rest
    ((request, (r.serve request).1) :: served.1, served.2)

/-- The numbers that were given, to threads and to mutexes. -/
def numbers (history : List (Request × Reply)) : List Word :=
  history.filterMap fun entry =>
    match entry.2 with
    | .number id => some id
    | .joined _ => none

/-- A thread was spawned, and neither it nor every thread has been joined since. -/
def Unjoined (history : List (Request × Reply)) (id : Word) (outcome : Outcome) : Prop :=
  ∃ before after, history = before ++ (.spawn outcome, .number id) :: after ∧
    ∀ entry ∈ after, entry.1 ≠ .join id ∧ entry.1 ≠ .joinAll

variable {r : Registry Outcome} {id : Word} {outcome : Outcome} {history : List (Request × Reply)}
  {entry : Request × Reply}

lemma Unjoined.mem_numbers (unjoined : Unjoined history id outcome) : id ∈ numbers history := by
  obtain ⟨before, after, rfl, -⟩ := unjoined
  simp [numbers]

lemma unjoined_concat : Unjoined (history ++ [entry]) id outcome ↔
    Unjoined history id outcome ∧ entry.1 ≠ .join id ∧ entry.1 ≠ .joinAll ∨
      entry = (.spawn outcome, .number id) := by
  constructor
  · rintro ⟨before, after, split, since⟩
    rcases List.eq_nil_or_concat' after with rfl | ⟨after, last, rfl⟩
    · exact .inr (List.cons.inj (List.append_inj' split rfl).2).1
    · rw [← List.cons_append, ← List.append_assoc] at split
      obtain ⟨rfl, same⟩ := List.append_inj' split rfl
      obtain rfl : entry = last := (List.cons.inj same).1
      exact .inl ⟨⟨before, after, rfl, fun e mem => since e (List.mem_append_left _ mem)⟩,
        since _ (by simp)⟩
  · rintro (⟨⟨before, after, rfl, since⟩, other⟩ | rfl)
    · refine ⟨before, after ++ [entry], by simp, fun e mem => ?_⟩
      rcases List.mem_append.1 mem with earlier | last
      · exact since e earlier
      · rwa [List.mem_singleton.1 last]
    · exact ⟨history, [], rfl, List.forall_mem_nil _⟩

/-! ### Joining -/

lemma report_eq_error_iff : (∃ cause, outcome.report id = .error cause) ↔ outcome ≠ .finished := by
  cases outcome <;> simp [Outcome.report]

lemma threads_join (r : Registry Outcome) (id : Word) :
    (r.join id).2.threads = r.threads.filter fun entry => entry.1 ≠ id := by
  have removed : (r.remove id).threads = r.threads.filter fun entry => entry.1 ≠ id :=
    List.filter_congr fun entry _ => by rw [Bool.eq_iff_iff]; simp
  unfold join
  cases held : r.work? id with
  | some outcome => exact removed
  | none =>
    refine (List.filter_eq_self.2 fun entry mem => ?_).symm
    simpa using (bne_iff_ne.1 (List.lookup_eq_none_iff.1 held entry mem)).symm

lemma next_join (r : Registry Outcome) (id : Word) : (r.join id).2.next = r.next := by
  unfold join
  split <;> rfl

section distinct

variable (distinct : (r.threads.map Prod.fst).Nodup)
include distinct

lemma work?_eq_some_iff : r.work? id = some outcome ↔ (id, outcome) ∈ r.threads := by
  constructor
  · intro found
    obtain ⟨front, back, split, -⟩ := List.lookup_eq_some_iff.1 found
    rw [split]
    simp
  · intro mem
    obtain ⟨front, back, split⟩ := List.append_of_mem mem
    refine List.lookup_eq_some_iff.2 ⟨front, back, split, fun p inFront => ?_⟩
    rw [split, List.map_append, List.nodup_append] at distinct
    simpa using Ne.symm (distinct.2.2 p.1 (List.mem_map_of_mem inFront) id (by simp))

lemma error_join_iff :
    (∃ cause, (r.join id).1 = .error cause) ↔ ∃ outcome, (id, outcome) ∈ r.threads ∧
    outcome ≠ .finished := by
  simp only [← work?_eq_some_iff distinct, join]
  cases r.work? id with
  | some outcome => simp [report_eq_error_iff]
  | none => simp

/-- Threads are joined in turn, also after a failure. -/
lemma joinEach_spec (ids : List Word) :
    (r.joinEach ids).2.threads = r.threads.filter (fun entry => entry.1 ∉ ids) ∧
    (r.joinEach ids).2.next = r.next ∧
      ((∃ cause, (r.joinEach ids).1 = .error cause) ↔
        ∃ id ∈ ids, ∃ outcome, (id, outcome) ∈ r.threads ∧ outcome ≠ .finished) := by
  induction ids generalizing r with
  | nil => simp [joinEach]
  | cons id rest ih =>
    have left := threads_join r id
    obtain ⟨threads, next, fails⟩ := ih (r := (r.join id).2)
      (left ▸ distinct.sublist (List.filter_sublist.map Prod.fst))
    have either : (∃ cause, (r.joinEach (id :: rest)).1 = .error cause) ↔
        (∃ cause, (r.join id).1 = .error cause) ∨ ∃ cause, ((r.join id).2.joinEach rest).1 =
          .error cause := by
      rw [joinEach]
      dsimp only
      cases (r.join id).1 <;> simp
    refine ⟨?_, next.trans (next_join r id), ?_⟩
    · rw [joinEach, threads, left, List.filter_filter]
      exact List.filter_congr fun entry _ => by simp [Bool.and_comm]
    · -- the first of the threads may be listed again, but has been joined then
      rw [either, error_join_iff distinct, fails, left]
      simp only [List.mem_filter, decide_eq_true_iff, List.mem_cons]
      grind

end distinct

/-! ### Histories -/

/-- The registry after a history: it holds the threads that have not been joined, and its next
number is above those that have been given. -/
structure Accounts (history : List (Request × Reply)) (r : Registry Outcome) : Prop where
  next : r.next.toInt = (numbers history).length + 1
  increasing : (0 :: numbers history ++ [r.next]).Pairwise (· < ·)
  threads : ∀ id outcome, (id, outcome) ∈ r.threads ↔ Unjoined history id outcome
  distinct : (r.threads.map Prod.fst).Nodup

namespace Accounts

variable (accounts : Accounts history r)
include accounts

lemma draw (fits : (numbers history).length + 2 < 2 ^ 63) :
    (r.next + 1).toInt = (numbers history).length + 2 ∧
    (0 :: numbers history ++ [r.next] ++ [r.next + 1]).Pairwise (· < ·) := by
  have next := accounts.next
  have more : (r.next + 1).toInt = (numbers history).length + 2 := by
    rw [Int64.toInt_add, next]
    exact Int.bmod_eq_of_le (by simp; omega) (by simp; omega)
  refine ⟨more, List.pairwise_append.2 ⟨accounts.increasing, List.pairwise_singleton _ _,
    fun id old _ last => ?_⟩⟩
  have above : r.next < r.next + 1 := by
    rw [Int64.lt_iff_toInt_lt]
    omega
  rw [List.mem_singleton.1 last]
  rcases List.mem_append.1 old with earlier | here
  · exact Int64.lt_trans ((List.pairwise_append.1 accounts.increasing).2.2 id earlier _ (.head _))
      above
  · rwa [List.mem_singleton.1 here]

lemma serve (request : Request)
    (fits : (numbers (history ++ [(request, (r.serve request).1)])).length + 1 < 2 ^ 63) :
    Accounts (history ++ [(request, (r.serve request).1)]) (r.serve request).2 := by
  have numbered (request : Request) (id : Word) :
      numbers (history ++ [(request, .number id)]) = numbers history ++ [id] := by simp [numbers]
  have same (request : Request) (report : Except Cause Unit) :
      numbers (history ++ [(request, .joined report)]) = numbers history := by simp [numbers]
  have fewer (keep : Word × Outcome → Bool) : ((r.threads.filter keep).map Prod.fst).Nodup :=
    accounts.distinct.sublist (List.filter_sublist.map _)
  cases request with
  | spawn outcome =>
    simp only [Registry.serve, spawn, numbered, List.length_append] at fits ⊢
    obtain ⟨next, increasing⟩ := accounts.draw fits
    refine ⟨?_, ?_, fun id other => ?_, ?_⟩
    · rw [next, numbered, List.length_append]
      rfl
    · rwa [numbered]
    · simp [unjoined_concat, accounts.threads, eq_comm, and_comm]
    · rw [List.map_append, List.nodup_append]
      refine ⟨accounts.distinct, List.nodup_singleton _, fun id held _ new => ?_⟩
      obtain ⟨⟨_, other⟩, mem, rfl⟩ := List.mem_map.1 held
      rw [List.mem_singleton.1 new]
      have given := ((accounts.threads _ other).1 mem).mem_numbers
      exact Int64.ne_of_lt ((List.pairwise_append.1 accounts.increasing).2.2 _ (.tail _ given) _
        (.head _))
  | newMutex =>
    simp only [Registry.serve, newMutex, numbered, List.length_append] at fits ⊢
    obtain ⟨next, increasing⟩ := accounts.draw fits
    refine ⟨?_, ?_, fun id other => ?_, accounts.distinct⟩
    · rw [next, numbered, List.length_append]
      rfl
    · rwa [numbered]
    · simp [unjoined_concat, accounts.threads]
  | join joined =>
    simp only [Registry.serve]
    refine ⟨?_, ?_, fun id other => ?_, threads_join r joined ▸ fewer _⟩
    · rw [same, next_join, accounts.next]
    · rw [same, next_join]
      exact accounts.increasing
    · simp only [threads_join, List.mem_filter, unjoined_concat, accounts.threads]
      grind
  | joinAll =>
    obtain ⟨threads, next, -⟩ := joinEach_spec accounts.distinct (r.threads.map Prod.fst)
    simp only [Registry.serve, joinAll]
    refine ⟨?_, ?_, fun id other => ?_, threads ▸ fewer _⟩
    · rw [same, next, accounts.next]
    · rw [same, next]
      exact accounts.increasing
    · simp only [threads, List.mem_filter, unjoined_concat, List.mem_map]
      grind

end Accounts

/-- The accounts are right after any requests. -/
lemma accounts_serveAll (requests : List Request)
    (fits : (numbers (serveAll {} requests).1).length + 1 < 2 ^ 63) :
    Accounts (serveAll {} requests).1 (serveAll {} requests).2 := by
  suffices run : ∀ (history : List (Request × Reply)) (r : Registry Outcome), Accounts history r →
      (numbers (history ++ (r.serveAll requests).1)).length + 1 < 2 ^ 63 →
      Accounts (history ++ (r.serveAll requests).1) (r.serveAll requests).2 from
    run [] {} ⟨rfl, by decide, by simp [Unjoined], List.nodup_nil⟩ fits
  clear fits
  induction requests with
  | nil =>
    intro history r accounts _
    rwa [serveAll, List.append_nil]
  | cons request rest ih =>
    intro history r accounts fits
    rw [serveAll] at fits ⊢
    dsimp only at fits ⊢
    rw [← List.singleton_append, ← List.append_assoc] at fits ⊢
    refine ih _ _ (accounts.serve request ?_) fits
    rw [numbers, List.filterMap_append, List.length_append] at fits
    exact Nat.lt_of_le_of_lt (Nat.add_le_add_right (Nat.le_add_right _ _) 1) fits

/-- **Outcomes are reported once.**  After any requests, while numbers do not run out: the numbers
given are positive and increase; joining a thread fails just when the thread has not been joined and
has failed or panicked, and changes nothing unless it has not been joined; joining all leaves no
thread, and fails just when some thread that has not been joined has failed or panicked. -/
theorem reports_outcomes_once (requests : List Request)
    (fits : (numbers (serveAll {} requests).1).length + 1 < 2 ^ 63) :
    let (history, r) := serveAll {} requests
    (0 :: numbers history).Pairwise (· < ·) ∧
      (∀ id outcome, (id, outcome) ∈ r.threads ↔ Unjoined history id outcome) ∧
      (∀ id, ((∃ cause, (r.join id).1 = .error cause) ↔
          ∃ outcome, Unjoined history id outcome ∧ outcome ≠ .finished) ∧
        (r.join id).2.threads = r.threads.filter (fun entry => entry.1 ≠ id) ∧
        ((∀ outcome, ¬Unjoined history id outcome) → r.join id = (.ok (), r))) ∧
      r.joinAll.2.live = 0 ∧
      ((∃ cause, r.joinAll.1 = .error cause) ↔
        ∃ id outcome, Unjoined history id outcome ∧ outcome ≠ .finished) := by
  have accounts := accounts_serveAll requests fits
  generalize serveAll {} requests = served at accounts
  obtain ⟨history, r⟩ := served
  dsimp only at accounts ⊢
  obtain ⟨threads, -, fails⟩ := joinEach_spec accounts.distinct (r.threads.map Prod.fst)
  refine ⟨(List.pairwise_append.1 accounts.increasing).1, accounts.threads,
    fun id => ⟨?_, threads_join r id, ?_⟩, ?_, ?_⟩
  · simp only [error_join_iff accounts.distinct, accounts.threads]
  · intro joined
    rw [join]
    cases held : r.work? id with
    | some outcome =>
      exact absurd ((accounts.threads _ _).1 ((work?_eq_some_iff accounts.distinct).1 held))
        (joined _)
    | none => rfl
  · rw [live, joinAll, threads, List.length_eq_zero_iff, List.filter_eq_nil_iff]
    intro entry mem
    simpa using ⟨entry.2, mem⟩
  · rw [joinAll, fails]
    simp only [accounts.threads, List.mem_map, Prod.exists]
    grind

/-- A mutex and three threads, two of which fail: one is joined alone, twice, and the other with
all. -/
def threeThreads : List Request :=
  [.newMutex, .spawn .finished, .spawn .panicked, .spawn (.failed ⟨.stackUnderflow, []⟩), .join 4,
    .join 4]

/-- The second of the failures is still to be reported, and the first is not reported again. -/
theorem reports_outcomes_once_three :
    (numbers (serveAll {} threeThreads).1).length + 1 < 2 ^ 63 ∧
      (∃ cause, (serveAll {} threeThreads).2.joinAll.1 = .error cause) ∧
      (serveAll {} threeThreads).2.join 4 = (.ok (), (serveAll {} threeThreads).2) := by
  obtain ⟨-, held, join, -, joinAll⟩ := reports_outcomes_once threeThreads (by decide)
  have threads : (serveAll {} threeThreads).2.threads = [(2, .finished), (3, .panicked)] := by
    decide
  refine ⟨by decide, joinAll.2 ⟨3, .panicked, (held _ _).1 (by decide), by decide⟩, (join 4).2.2 ?_⟩
  intro outcome unjoined
  have mem : (4, outcome) ∈ (serveAll {} threeThreads).2.threads := (held _ _).2 unjoined
  rw [threads] at mem
  simp at mem

end StackMachine.Registry
