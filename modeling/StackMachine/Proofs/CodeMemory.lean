import Mathlib.Algebra.Order.BigOperators.Group.List
import Mathlib.Algebra.Order.Ring.Nat
import Mathlib.Data.List.Pairwise
import StackMachine.Code.Pages

/-!
# Installed code in memory

Slabs are mapped by the system, which gives page aligned regions that are not in use (`Mapper`).
`CodeMemory` is the code pages with the regions of their slabs, the bytes of memory, and the bodies
installed so far with their addresses.

Installing a body adds a region if no slab has room, and then writes to pages that no other body
has: so bodies stay at their addresses with their bytes (`CodeMemory.installed_stays`).
-/

namespace StackMachine

/-! ### Regions -/

/-- Some bytes in a row. -/
structure Region where
  base : Nat
  size : Nat
  deriving DecidableEq, Repr

namespace Region

variable {r r' s s' : Region}

/-- One region ends before the other begins. -/
def Apart (r r' : Region) : Prop := r.base + r.size ≤ r'.base ∨ r'.base + r'.size ≤ r.base

/-- A region is part of another. -/
def Within (r r' : Region) : Prop := r'.base ≤ r.base ∧ r.base + r.size ≤ r'.base + r'.size

lemma Apart.symm (apart : r.Apart r') : r'.Apart r := Or.symm apart

lemma Apart.of_within (apart : s.Apart s') (first : r.Within s) (second : r'.Within s') :
    r.Apart r' := by
  unfold Apart Within at *
  omega

end Region

/-- What the system maps, by what it has mapped: page aligned regions that are apart from all
others. -/
structure Mapper (page : PageSize) where
  base : List Region → Nat → Nat
  aligned : ∀ regions size, page.bytes ∣ base regions size
  fresh : ∀ regions size, ∀ r : Region, r ∈ regions → r.Apart ⟨base regions size, size⟩

/-- Regions are mapped one after the other. -/
def Mapper.upward (page : PageSize) : Mapper page where
  base regions _ := page.span ((regions.map fun r => r.base + r.size).sum)
  aligned _ _ := page.dvd_span _
  fresh regions size r mem := by
    have below : r.base + r.size ≤ (regions.map fun r => r.base + r.size).sum :=
      List.single_le_sum (fun _ _ => Nat.zero_le _) _ (List.mem_map_of_mem mem)
    exact .inl (below.trans (page.le_span _))

/-! ### Pages -/

/-- What holds of every slab. -/
structure Slab.Sound (page : PageSize) (s : Slab) : Prop where
  used_le : s.used ≤ s.size
  used_dvd : page.bytes ∣ s.used
  size_dvd : page.bytes ∣ s.size

/-- A slab that is added for a span. -/
def Slab.fresh (page : PageSize) (span : Nat) : Slab where
  size := max span (slabPages * page.bytes)

namespace CodePages

variable {p : CodePages} {body : Array UInt8} {span k : Nat} {slab : Slab}

lemma slabs_grow (p : CodePages) (span : Nat) :
    (p.grow span).slabs.toList = p.slabs.toList ++ [Slab.fresh p.page span] := Array.toList_push

lemma getElem?_grow (p : CodePages) (span : Nat) :
    (p.grow span).slabs.toList[p.slabs.size]? = some (Slab.fresh p.page span) := by
  rw [slabs_grow, ← Array.length_toList, List.getElem?_concat_length]

lemma slabs_placeAt (p : CodePages) (k : Nat) (body : Array UInt8) :
    (p.placeAt k body).slabs.toList = p.slabs.toList.modify k fun s => s.place p.page body :=
  Array.toList_modify ..

lemma getElem?_placeAt (here : p.slabs.toList[k]? = some slab) (j : Nat) :
    (p.placeAt k body).slabs.toList[j]? = if k = j then some (slab.place p.page body)
      else p.slabs.toList[j]? := by
  rw [slabs_placeAt, List.getElem?_modify]
  split
  · next same =>
    rw [← same, here]
    rfl
  · exact id_map _

lemma sizes_placeAt (p : CodePages) (k : Nat) (body : Array UInt8) :
    (p.placeAt k body).slabs.toList.map Slab.size = p.slabs.toList.map Slab.size := by
  refine List.ext_getElem? fun j => ?_
  rw [slabs_placeAt, List.getElem?_map, List.getElem?_map, List.getElem?_modify]
  split
  · cases p.slabs.toList[j]? <;> rfl
  · rw [id_map']

lemma bytesUsed_eq (p : CodePages) : p.bytesUsed = (p.slabs.toList.map Slab.used).sum := by
  rw [bytesUsed, ← Array.foldl_toList, List.sum_eq_foldl, List.foldl_map]

lemma bytesUsed_grow (p : CodePages) (span : Nat) : (p.grow span).bytesUsed = p.bytesUsed := by
  rw [bytesUsed_eq, bytesUsed_eq, slabs_grow, List.map_append, List.sum_append]
  rfl

lemma bytesUsed_placeAt (here : p.slabs.toList[k]? = some slab) :
    (p.placeAt k body).bytesUsed = p.bytesUsed + p.page.span body.size := by
  rw [bytesUsed_eq, bytesUsed_eq, slabs_placeAt]
  generalize p.slabs.toList = slabs at here
  induction slabs generalizing k with
  | nil => simp at here
  | cons first rest ih =>
    cases k with
    | zero =>
      have more : (first.place p.page body).used = first.used + p.page.span body.size := rfl
      rw [List.modify_zero_cons, List.map_cons, List.map_cons, List.sum_cons, List.sum_cons, more]
      omega
    | succ k =>
      have others := ih here
      rw [List.modify_succ_cons, List.map_cons, List.map_cons, List.sum_cons, List.sum_cons, others]
      omega

/-- A body is placed into the first slab with room, or into a new slab if there is none. -/
lemma install_cases (filled : body.isEmpty = false) :
    (∃ k slab, p.slabs.toList[k]? = some slab ∧ slab.hasRoom (p.page.span body.size) = true ∧
      p.install body = .ok (⟨k, slab.used⟩, p.placeAt k body)) ∨
    ((∀ slab ∈ p.slabs, slab.hasRoom (p.page.span body.size) = false) ∧
      p.install body = .ok (⟨p.slabs.size, 0⟩, (p.grow (p.page.span body.size)).placeAt p.slabs.size
        body)) := by
  unfold install
  rw [if_neg (by simp [filled])]
  cases found : p.slabs.findIdx? fun s => s.hasRoom (p.page.span body.size) with
  | some k =>
    obtain ⟨lt, room, -⟩ := Array.findIdx?_eq_some_iff_getElem.1 found
    refine .inl ⟨k, p.slabs[k], ?_, room, ?_⟩
    · rw [Array.getElem?_toList, Array.getElem?_eq_getElem lt]
    · dsimp only
      rw [found]
      simp only [Array.getElem?_eq_getElem lt, Option.map_some, Option.getD_some]
  | none =>
    refine .inr ⟨fun slab mem => ?_, ?_⟩
    · exact Bool.eq_false_iff.2
        fun room => by simpa [room] using Array.findIdx?_eq_none_iff.1 found slab mem
    · dsimp only
      rw [found]
      simp only [grow, Array.getElem?_push_size, Option.map_some, Option.getD_some]

end CodePages

/-! ### Memory -/

/-- A body at its address. -/
structure Resident where
  address : Nat
  body : Array UInt8
  deriving DecidableEq, Repr

/-- The whole pages of a body. -/
def Resident.region (page : PageSize) (r : Resident) : Region := ⟨r.address, page.span r.body.size⟩

/-- The code pages, with the regions of their slabs, the bytes of memory, and the bodies installed
so far. -/
structure CodeMemory where
  pages : CodePages := {}
  regions : List Region := []
  bytes : Nat → UInt8
  residents : List Resident := []

namespace CodeMemory

variable {page : PageSize} {r new : Resident} {i : Nat}

/-- The bytes of memory with a body copied to an address. -/
def copied (bytes : Nat → UInt8) (r : Resident) : Nat → UInt8 := fun a =>
  if r.address ≤ a then (r.body[a - r.address]?).getD (bytes a) else bytes a

/-- Maps the slab that has been added, if one has. -/
def mapped (s : CodeMemory) (system : Mapper page) (pages : CodePages) : List Region :=
  match pages.slabs[s.regions.length]? with
  | some slab => s.regions ++ [⟨system.base s.regions slab.size, slab.size⟩]
  | none => s.regions

/-- Installs a body and answers its address. -/
def install (s : CodeMemory) (system : Mapper page) (body : Array UInt8) :
    Except PageError Nat × CodeMemory :=
  match s.pages.install body with
  | .error e => (.error e, s)
  | .ok (place, pages) =>
    let regions := s.mapped system pages
    let resident := ⟨((regions[place.slab]?).map Region.base).getD 0 + place.offset, body⟩
    (.ok resident.address,
      { pages, regions, bytes := copied s.bytes resident, residents := s.residents ++ [resident] })

/-- Installs bodies one after the other. -/
def installAll (s : CodeMemory) (system : Mapper page) (bodies : List (Array UInt8)) : CodeMemory :=
  bodies.foldl (fun s body => (s.install system body).2) s

/-- The body is where it is said to be: on pages of a slab that are in use. -/
def Holds (page : PageSize) (s : CodeMemory) (r : Resident) : Prop :=
  ∃ (k : Nat) (region : Region) (slab : Slab) (offset : Nat), s.regions[k]? = some region ∧
    s.pages.slabs.toList[k]? = some slab ∧
    r.address = region.base + offset ∧ page.bytes ∣ offset ∧
    offset + page.span r.body.size ≤ slab.used ∧
    ⟨offset, r.body⟩ ∈ slab.placed

/-- What holds after any bodies have been installed. -/
structure Sound (page : PageSize) (s : CodeMemory) : Prop where
  same : s.pages.page = page
  sizes : s.regions.map Region.size = s.pages.slabs.toList.map Slab.size
  aligned : ∀ r ∈ s.regions, page.bytes ∣ r.base
  apart : s.regions.Pairwise Region.Apart
  slabs : ∀ slab ∈ s.pages.slabs.toList, slab.Sound page
  holds : ∀ r ∈ s.residents, s.Holds page r
  disjoint : s.residents.Pairwise fun r r' => (r.region page).Apart (r'.region page)
  bytes : ∀ r ∈ s.residents, ∀ i (lt : i < r.body.size), s.bytes (r.address + i) = r.body[i]

variable {s : CodeMemory} {system : Mapper page} {body : Array UInt8} {k : Nat} {region : Region}
  {slab : Slab}

/-! ### A slab more, a body more -/

/-- A slab is added and mapped. -/
def grown (s : CodeMemory) (system : Mapper page) (span : Nat) : CodeMemory :=
  let size := (Slab.fresh s.pages.page span).size
  { s with
    pages := s.pages.grow span, regions := s.regions ++ [⟨system.base s.regions size, size⟩] }

/-- A body is placed into a slab and copied. -/
def placed (s : CodeMemory) (k : Nat) (r : Resident) : CodeMemory :=
  { s with
    pages := s.pages.placeAt k r.body, bytes := copied s.bytes r, residents := s.residents ++ [r] }

/-- A body stays where it is when another is placed. -/
lemma Holds.placed (here : s.pages.slabs.toList[k]? = some slab) (held : s.Holds page r) :
    (s.placed k new).Holds page r := by
  obtain ⟨j, region, slab', offset, mapped, here', start, whole, below, mem⟩ := held
  by_cases same : k = j
  · subst same
    obtain rfl := Option.some.inj (here.symm.trans here')
    refine ⟨k, region, slab.place s.pages.page new.body, offset, mapped, ?_, start, whole, ?_, ?_⟩
    · rw [CodeMemory.placed, CodePages.getElem?_placeAt here, if_pos rfl]
    · exact below.trans (Nat.le_add_right _ _)
    · exact Array.mem_push_of_mem _ mem
  · refine ⟨j, region, slab', offset, mapped, ?_, start, whole, below, mem⟩
    rw [CodeMemory.placed, CodePages.getElem?_placeAt here, if_neg same, here']

lemma copied_self (bytes : Nat → UInt8) (r : Resident) (lt : i < r.body.size) :
    copied bytes r (r.address + i) = r.body[i] := by
  rw [copied, if_pos (Nat.le_add_right _ _), Nat.add_sub_cancel_left, Array.getElem?_eq_getElem lt]
  rfl

/-- A copy leaves the pages of other bodies alone. -/
lemma copied_of_apart (bytes : Nat → UInt8) (apart : (r.region page).Apart (new.region page))
    (lt : i < r.body.size) : copied bytes new (r.address + i) = bytes (r.address + i) := by
  have fits := page.le_span r.body.size
  have fits' := page.le_span new.body.size
  unfold copied
  split
  · next after =>
    have beyond : new.body.size ≤ r.address + i - new.address := by
      simp only [Region.Apart, Resident.region] at apart
      omega
    rw [Array.getElem?_eq_none beyond]
    rfl
  · rfl

lemma install_of_isEmpty (s : CodeMemory) (system : Mapper page) (empty : body.isEmpty = true) :
    s.install system body = (.error (.invalidSize 0), s) := by
  have refused : s.pages.install body = .error (.invalidSize 0) := if_pos empty
  rw [install, refused]

lemma sound_blank (page : PageSize) (bytes : Nat → UInt8) :
    Sound page { pages := { page }, bytes } :=
  ⟨rfl, rfl, nofun, .nil, nofun, nofun, .nil, nofun⟩

/-! ### What is added -/

/-- What some bodies add: they are installed, except the empty ones, and their spans are in use. -/
structure Gains (page : PageSize) (s : CodeMemory) (bodies : List (Array UInt8)) (t : CodeMemory) :
    Prop where
  regions : s.regions <+: t.regions
  residents : ∃ more, t.residents = s.residents ++ more ∧
    more.map Resident.body = bodies.filter fun body => !body.isEmpty
  used : t.pages.bytesUsed = s.pages.bytesUsed + (bodies.map fun body => page.span body.size).sum

lemma Gains.trans {t u : CodeMemory} {bodies bodies' : List (Array UInt8)}
    (first : s.Gains page bodies t) (second : t.Gains page bodies' u) :
    s.Gains page (bodies ++ bodies') u := by
  obtain ⟨regions, ⟨more, residents, named⟩, used⟩ := first
  obtain ⟨regions', ⟨more', residents', named'⟩, used'⟩ := second
  refine ⟨regions.trans regions', ⟨more ++ more', ?_, ?_⟩, ?_⟩
  · rw [residents', residents, List.append_assoc]
  · rw [List.map_append, named, named', List.filter_append]
  · rw [used', used, List.map_append, List.sum_append, Nat.add_assoc]

/-! ### Installing -/

namespace Sound

variable (sound : s.Sound page) (system)
include sound

lemma exists_region (here : s.pages.slabs.toList[k]? = some slab) :
    ∃ region, s.regions[k]? = some region ∧ region.size = slab.size := by
  have size : (s.regions.map Region.size)[k]? = some slab.size := by
    rw [sound.sizes, List.getElem?_map, here]
    rfl
  rw [List.getElem?_map] at size
  exact Option.map_eq_some_iff.1 size

lemma length_regions : s.regions.length = s.pages.slabs.size := by
  simpa using congrArg List.length sound.sizes

/-- A new slab is mapped apart from the others. -/
lemma grown {span : Nat} (whole : page.bytes ∣ span) : (s.grown system span).Sound page := by
  obtain rfl := sound.same
  have wholeSize : s.pages.page.bytes ∣ max span (slabPages * s.pages.page.bytes) := by
    rcases max_choice span (slabPages * s.pages.page.bytes) with same | same
    · rwa [same]
    · rw [same]
      exact Nat.dvd_mul_left _ _
  constructor
  · rfl
  · unfold CodeMemory.grown
    rw [CodePages.slabs_grow, List.map_append, List.map_append, sound.sizes]
    rfl
  · intro r mem
    rcases List.mem_append.1 mem with old | new
    · exact sound.aligned r old
    · rw [List.mem_singleton.1 new]
      exact system.aligned _ _
  · refine List.pairwise_append.2 ⟨sound.apart, List.pairwise_singleton _ _,
      fun r mem r' mem' => ?_⟩
    rw [List.mem_singleton.1 mem']
    exact system.fresh _ _ r mem
  · unfold CodeMemory.grown
    rw [CodePages.slabs_grow]
    intro slab mem
    rcases List.mem_append.1 mem with old | new
    · exact sound.slabs slab old
    · rw [List.mem_singleton.1 new]
      exact ⟨Nat.zero_le _, Nat.dvd_zero _, wholeSize⟩
  · intro r mem
    obtain ⟨k, region, slab, offset, mapped, here, rest⟩ := sound.holds r mem
    refine ⟨k, region, slab, offset, ?_, ?_, rest⟩
    · exact (List.getElem?_append_left (List.getElem?_eq_some_iff.1 mapped).1).trans mapped
    · unfold CodeMemory.grown
      rw [CodePages.slabs_grow]
      exact (List.getElem?_append_left (List.getElem?_eq_some_iff.1 here).1).trans here
  · exact sound.disjoint
  · exact sound.bytes

/-- A body that is held lies within the region of its slab, at the beginning of a page. -/
lemma within (held : s.Holds page r) :
    page.bytes ∣ r.address ∧ ∃ region ∈ s.regions, (r.region page).Within region := by
  obtain ⟨k, region, slab, offset, mapped, here, start, whole, below, -⟩ := held
  obtain ⟨region', mapped', size⟩ := sound.exists_region here
  obtain rfl : region' = region := Option.some.inj (mapped'.symm.trans mapped)
  have mem := List.mem_of_getElem? mapped
  have used := (sound.slabs slab (List.mem_of_getElem? here)).used_le
  refine ⟨start ▸ (Nat.dvd_add (sound.aligned _ mem) whole), region', mem, ?_⟩
  simp only [Region.Within, Resident.region]
  omega

section

variable (mapped : s.regions[k]? = some region) (here : s.pages.slabs.toList[k]? = some slab)
include mapped here

/-- The pages after those in use are no other body's. -/
lemma apart_of_holds (room : slab.used + page.span body.size ≤ slab.size) (held : s.Holds page r) :
    (r.region page).Apart ⟨region.base + slab.used, page.span body.size⟩ := by
  obtain ⟨j, region', slab', offset, mapped', here', start, whole, below, -⟩ := held
  by_cases same : j = k
  · -- in the same slab a body ends where the pages in use do
    subst same
    obtain rfl := Option.some.inj (mapped.symm.trans mapped')
    obtain rfl := Option.some.inj (here.symm.trans here')
    simp only [Region.Apart, Resident.region]
    omega
  · -- the regions of different slabs are apart
    have regions : region'.Apart region := by
      obtain ⟨lt, rfl⟩ := List.getElem?_eq_some_iff.1 mapped
      obtain ⟨lt', rfl⟩ := List.getElem?_eq_some_iff.1 mapped'
      rcases Nat.lt_or_gt_of_ne same with before | after
      · exact List.pairwise_iff_getElem.1 sound.apart j k lt' lt before
      · exact (List.pairwise_iff_getElem.1 sound.apart k j lt lt' after).symm
    obtain ⟨_, mapped₁, size⟩ := sound.exists_region here
    obtain rfl := Option.some.inj (mapped.symm.trans mapped₁)
    obtain ⟨_, mapped₂, size'⟩ := sound.exists_region here'
    obtain rfl := Option.some.inj (mapped'.symm.trans mapped₂)
    have used := (sound.slabs slab' (List.mem_of_getElem? here')).used_le
    refine regions.of_within ?_ ?_
    · simp only [Region.Within, Resident.region]
      omega
    · simp only [Region.Within]
      omega

lemma placed (room : slab.hasRoom (page.span body.size) = true) :
    (s.placed k ⟨region.base + slab.used, body⟩).Sound page := by
  obtain rfl := sound.same
  have fits : slab.used + s.pages.page.span body.size ≤ slab.size := of_decide_eq_true room
  have kept := sound.slabs slab (List.mem_of_getElem? here)
  have apart (r : Resident) (mem : r ∈ s.residents) :
      (r.region s.pages.page).Apart
        (Resident.region s.pages.page ⟨region.base + slab.used, body⟩) :=
    sound.apart_of_holds mapped here fits (sound.holds r mem)
  have held (r : Resident) (mem : r ∈ s.residents) :
      (s.placed k ⟨region.base + slab.used, body⟩).Holds s.pages.page r :=
      (sound.holds r mem).placed here
  have new : (s.placed k ⟨region.base + slab.used, body⟩).pages.slabs.toList[k]? =
    some (slab.place s.pages.page body) := by
    rw [CodeMemory.placed, CodePages.getElem?_placeAt here, if_pos rfl]
  constructor
  · rfl
  · exact sound.sizes.trans (CodePages.sizes_placeAt ..).symm
  · exact sound.aligned
  · exact sound.apart
  · intro slab' mem
    obtain ⟨j, there⟩ := List.mem_iff_getElem?.1 mem
    rw [CodeMemory.placed, CodePages.getElem?_placeAt here] at there
    split at there
    · cases there
      exact ⟨fits, Nat.dvd_add kept.used_dvd (s.pages.page.dvd_span _), kept.size_dvd⟩
    · exact sound.slabs slab' (List.mem_of_getElem? there)
  · intro r mem
    rcases List.mem_append.1 mem with old | last
    · exact held r old
    · rw [List.mem_singleton.1 last]
      exact ⟨k, region, slab.place s.pages.page body, slab.used, mapped, new, rfl, kept.used_dvd,
        le_rfl, Array.mem_push_self⟩
  · refine List.pairwise_append.2 ⟨sound.disjoint, List.pairwise_singleton _ _,
      fun r mem r' mem' => ?_⟩
    rw [List.mem_singleton.1 mem']
    exact apart r mem
  · intro r mem i lt
    rcases List.mem_append.1 mem with old | last
    · exact (copied_of_apart s.bytes (apart r old) lt).trans (sound.bytes r old i lt)
    · cases List.mem_singleton.1 last
      exact copied_self s.bytes _ lt

end

/-- A body is placed into a slab with room, which is a new one if there was none. -/
lemma install_cases (filled : body.isEmpty = false) :
    ∃ u k region slab, ((u = s ∧ ∃ slab ∈ s.pages.slabs, slab.hasRoom (page.span body.size) =
      true) ∨
        (u = s.grown system (page.span body.size) ∧ ∀ slab ∈ s.pages.slabs,
          slab.hasRoom (page.span body.size) = false)) ∧
      u.regions[k]? = some region ∧ u.pages.slabs.toList[k]? = some slab ∧
      slab.hasRoom (page.span body.size) = true ∧
      s.install system body =
        (.ok (region.base + slab.used), u.placed k ⟨region.base + slab.used, body⟩) := by
  obtain rfl := sound.same
  have length := sound.length_regions
  rcases CodePages.install_cases (p := s.pages) filled with
    ⟨k, slab, here, room, installs⟩ | ⟨none, installs⟩
  · obtain ⟨region, mapped, -⟩ := sound.exists_region here
    have same : s.mapped system (s.pages.placeAt k body) = s.regions := by
      have size : (s.pages.placeAt k body).slabs.size = s.pages.slabs.size := Array.size_modify
      rw [CodeMemory.mapped, Array.getElem?_eq_none (by omega)]
    have mem : slab ∈ s.pages.slabs := Array.mem_toList_iff.1 (List.mem_of_getElem? here)
    refine ⟨s, k, region, slab, .inl ⟨rfl, slab, mem, room⟩, mapped, here, room, ?_⟩
    rw [install, installs]
    dsimp only
    rw [same, mapped]
    rfl
  · have here := s.pages.getElem?_grow (s.pages.page.span body.size)
    have more : s.mapped system
        ((s.pages.grow (s.pages.page.span body.size)).placeAt s.pages.slabs.size body) =
          (s.grown system (s.pages.page.span body.size)).regions := by
      rw [CodeMemory.mapped, length, ← Array.getElem?_toList, CodePages.getElem?_placeAt here,
        if_pos rfl]
      rfl
    obtain ⟨region, mapped, -⟩ :=
      (sound.grown system (s.pages.page.dvd_span body.size)).exists_region here
    refine ⟨_, _, region, _, .inr ⟨rfl, none⟩, mapped, here, ?_, ?_⟩
    · exact decide_eq_true ((Nat.zero_add _).trans_le (le_max_left _ _))
    · rw [install, installs]
      dsimp only
      rw [more, mapped]
      rfl

/-- Installing keeps everything in order. -/
lemma install (body : Array UInt8) : (s.install system body).2.Sound page := by
  cases filled : body.isEmpty with
  | true => rwa [install_of_isEmpty s system filled]
  | false =>
    obtain ⟨u, k, region, slab, ready, mapped, here, room, installs⟩ :=
      sound.install_cases system filled
    have ready : u.Sound page := by
      rcases ready with ⟨rfl, -⟩ | ⟨rfl, -⟩
      · exact sound
      · exact sound.grown system (page.dvd_span _)
    rw [installs]
    exact ready.placed mapped here room

/-- Everything is in order after any bodies. -/
lemma installAll (bodies : List (Array UInt8)) : (s.installAll system bodies).Sound page := by
  induction bodies generalizing s with
  | nil => exact sound
  | cons body bodies ih => exact ih (sound.install system body)

lemma gains_install (body : Array UInt8) : s.Gains page [body] (s.install system body).2 := by
  cases filled : body.isEmpty with
  | true =>
    have zero : page.span body.size = 0 := by
      rw [Array.isEmpty_iff_size_eq_zero.1 filled, PageSize.span, Nat.zero_add, Nat.div_eq_of_lt,
        Nat.zero_mul]
      exact Nat.sub_lt page.pos Nat.one_pos
    rw [install_of_isEmpty s system filled]
    refine ⟨List.prefix_rfl, ⟨[], by simp, by simp [filled]⟩, by simp [zero]⟩
  | false =>
    obtain ⟨u, k, region, slab, ready, mapped, here, room, installs⟩ :=
      sound.install_cases system filled
    have ready : s.regions <+: u.regions ∧ u.residents = s.residents ∧
      u.pages.bytesUsed = s.pages.bytesUsed ∧
        u.pages.page = page := by
      rcases ready with ⟨rfl, -⟩ | ⟨rfl, -⟩
      · exact ⟨List.prefix_rfl, rfl, rfl, sound.same⟩
      · exact ⟨List.prefix_append _ _, rfl, CodePages.bytesUsed_grow _ _, sound.same⟩
    obtain ⟨regions, residents, used, same⟩ := ready
    rw [installs]
    refine ⟨regions, ⟨[⟨region.base + slab.used, body⟩], ?_, by simp [filled]⟩, ?_⟩
    · rw [CodeMemory.placed, residents]
    · rw [CodeMemory.placed, CodePages.bytesUsed_placeAt here, used, same, List.map_singleton,
        List.sum_singleton]

lemma gains_installAll (bodies : List (Array UInt8)) :
    s.Gains page bodies (s.installAll system bodies) := by
  induction bodies generalizing s with
  | nil => exact ⟨List.prefix_rfl, ⟨[], (List.append_nil _).symm, rfl⟩, rfl⟩
  | cons body bodies ih =>
    exact (sound.gains_install system body).trans (ih (sound.install system body))

end Sound

/-! ### All installs -/

/-- Memory after some bodies have been installed, whatever it held before. -/
def after (system : Mapper page) (bytes : Nat → UInt8) (bodies : List (Array UInt8)) : CodeMemory :=
  CodeMemory.installAll { pages := { page }, bytes } system bodies

lemma after_append (system : Mapper page) (bytes : Nat → UInt8)
    (bodies later : List (Array UInt8)) :
    after system bytes (bodies ++ later) = (after system bytes bodies).installAll system later :=
  List.foldl_append ..

/-- Whatever bodies have been installed, however large pages are and wherever the system has mapped
the slabs: the bodies that are not empty are all there, each at the beginning of a page, within the
region of one slab, apart from the pages of all others and with its bytes, and they stay there, as
the regions do.  Slabs are whole pages, and so is what is in use of them; in total these are the
spans of the bodies.  An empty body is refused and changes nothing; any other is installed, and a
slab of at least sixteen pages is added for it just if no slab has room. -/
theorem installed_stays (page : PageSize) (system : Mapper page) (bytes : Nat → UInt8)
    (bodies : List (Array UInt8)) :
    let s := after system bytes bodies
    (s.residents.map Resident.body = bodies.filter fun body => !body.isEmpty) ∧
    (∀ r ∈ s.residents, page.bytes ∣ r.address ∧
      (∃ region ∈ s.regions, (r.region page).Within region) ∧
      ∀ i (lt : i < r.body.size), s.bytes (r.address + i) = r.body[i]) ∧
    s.residents.Pairwise (fun r r' => (r.region page).Apart (r'.region page)) ∧
    (∀ later, s.residents <+: (after system bytes (bodies ++ later)).residents ∧
      s.regions <+: (after system bytes (bodies ++ later)).regions) ∧
    s.regions.map Region.size = s.pages.slabs.toList.map Slab.size ∧
    (∀ slab ∈ s.pages.slabs, slab.used ≤ slab.size ∧ page.bytes ∣ slab.used ∧
      page.bytes ∣ slab.size) ∧
    s.pages.bytesUsed = (bodies.map fun body => page.span body.size).sum ∧
    (∀ body, body.isEmpty = true → s.install system body = (.error (.invalidSize 0), s)) ∧
    ∀ body, body.isEmpty = false →
      ∃ address t, s.install system body = (.ok address, t) ∧
      t = after system bytes (bodies ++ [body]) ∧
        t.residents = s.residents ++ [⟨address, body⟩] ∧
        ((∃ slab ∈ s.pages.slabs, slab.used + page.span body.size ≤ slab.size) →
          t.regions = s.regions) ∧
        ((∀ slab ∈ s.pages.slabs, slab.size < slab.used + page.span body.size) →
          ∃ region, t.regions = s.regions ++ [region] ∧ 16 * page.bytes ≤ region.size) := by
  intro s
  have sound : s.Sound page := (sound_blank page bytes).installAll system bodies
  obtain ⟨-, ⟨more, residents, named⟩, used⟩ :=
    (sound_blank page bytes).gains_installAll system bodies
  have all : more = s.residents := residents.symm
  refine ⟨all ▸ named, fun r mem => ?_, sound.disjoint, fun later => ?_, sound.sizes,
    fun slab mem => ?_, ?_, fun body empty => install_of_isEmpty s system empty,
      fun body filled => ?_⟩
  · obtain ⟨aligned, within⟩ := sound.within (sound.holds r mem)
    exact ⟨aligned, within, sound.bytes r mem⟩
  · obtain ⟨regions, ⟨added, kept, -⟩, -⟩ := sound.gains_installAll system later
    rw [after_append]
    exact ⟨⟨added, kept.symm⟩, regions⟩
  · obtain ⟨below, inUse, whole⟩ := sound.slabs slab (Array.mem_toList_iff.2 mem)
    exact ⟨below, inUse, whole⟩
  · exact used.trans (Nat.zero_add _)
  · obtain ⟨u, k, region, slab, ready, mapped, here, room, installs⟩ :=
      sound.install_cases system filled
    refine ⟨_, _, installs, ?_, ?_, ?_, ?_⟩
    · rw [after_append]
      exact (congrArg Prod.snd installs).symm
    · rcases ready with ⟨rfl, -⟩ | ⟨rfl, -⟩ <;> rfl
    · rintro ⟨slab', mem, fits⟩
      rcases ready with ⟨rfl, -⟩ | ⟨-, none⟩
      · rfl
      · exact absurd fits (of_decide_eq_false (none slab' mem))
    · intro full
      rcases ready with ⟨-, slab', mem, fits⟩ | ⟨rfl, -⟩
      · exact absurd (of_decide_eq_true fits) (Nat.not_le.2 (full slab' mem))
      · refine ⟨_, rfl, le_trans (Nat.le_of_eq ?_) (le_max_right _ _)⟩
        rw [sound.same]
        rfl

/-- Two bodies of one page each, with an empty one between them: the second follows the first in its
slab, and its last byte is read back. -/
theorem installed_stays_two :
    (after (.upward .usual) (fun _ => 0) [#[0xC3], #[], #[0xC3, 0x90]]).residents =
      [⟨0, #[0xC3]⟩, ⟨4096, #[0xC3, 0x90]⟩] ∧
      (after (.upward .usual) (fun _ => 0) [#[0xC3], #[], #[0xC3, 0x90]]).bytes (4096 + 1) = 0x90 ∧
      (after (.upward .usual) (fun _ => 0) [#[0xC3], #[], #[0xC3, 0x90]]).pages.bytesUsed =
        8192 := by
  have residents : (after (.upward .usual) (fun _ => 0) [#[0xC3], #[], #[0xC3, 0x90]]).residents =
      [⟨0, #[0xC3]⟩, ⟨4096, #[0xC3, 0x90]⟩] := by decide +kernel
  obtain ⟨-, holds, -, -, -, -, used, -⟩ := installed_stays .usual (.upward .usual) (fun _ => 0)
    [#[0xC3], #[], #[0xC3, 0x90]]
  obtain ⟨-, -, bytes⟩ := holds ⟨4096, #[0xC3, 0x90]⟩ (residents ▸ by decide)
  exact ⟨residents, bytes 1 (by decide), used⟩

end CodeMemory

end StackMachine
