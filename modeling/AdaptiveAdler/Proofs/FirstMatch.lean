import AdaptiveAdler.Selection.Candidate
import Mathlib.Data.List.Find

/-! The first candidate whose requirement is met.

A choice by requirement looks for one position in a list: that of the first candidate whose
requirement the set meets (`FirstMet`). There is at most one such position, and the candidate
there is the one selected (`select_eq_some_iff`). A wider set meets all that a narrower one meets,
so with it the search ends no later; and a set is only asked for what some candidate requires.
Nothing is supposed of the candidates: names may be repeated and requirements may be empty
(`selection_is_first_match`). -/
namespace AdaptiveAdler

section Meets
variable {α : Type} {caps : Caps} {c : Candidate α}

/-- A set meets the requirement of a candidate if it holds every capability in it. -/
def Caps.Meets (caps : Caps) (c : Candidate α) : Prop := ∀ i, i ∈ c.requires → i ∈ caps

theorem Caps.meets_iff : caps.Meets c ↔ caps.has c.requires = true := Caps.has_iff.symm

theorem Caps.Meets.mono {wider : Caps} (h : caps.Meets c) (hwider : ∀ i, i ∈ caps → i ∈ wider) :
    wider.Meets c :=
  fun i hi => hwider i (h i hi)

end Meets

/-- `c` is the first candidate whose requirement a set meets, and stands at `position`. -/
structure FirstMet {α : Type} (caps : Caps) (candidates : List (Candidate α)) (position : Nat)
    (c : Candidate α) : Prop where
  listed : candidates[position]? = some c
  met : caps.Meets c
  earlier : ∀ i d, i < position → candidates[i]? = some d → ¬ caps.Meets d

/-- Everything that some candidate of a list requires. -/
def requirements {α : Type} (candidates : List (Candidate α)) : Caps :=
  candidates.foldr (fun c rest => c.requires ∪ rest) .empty

variable {α : Type} {caps : Caps} {candidates : List (Candidate α)} {i : Nat} {c : Candidate α}

/-! ### Positions -/

theorem FirstMet.le {j : Nat} {d : Candidate α} (h : FirstMet caps candidates i c)
    (hlisted : candidates[j]? = some d) (hmet : caps.Meets d) : i ≤ j :=
  Nat.le_of_not_lt fun hlt => h.earlier j d hlt hlisted hmet

theorem FirstMet.unique {j : Nat} {d : Candidate α} (h : FirstMet caps candidates i c)
    (other : FirstMet caps candidates j d) : i = j ∧ c = d := by
  have hposition : i = j :=
    Nat.le_antisymm (h.le other.listed other.met) (other.le h.listed h.met)
  have hlisted := h.listed
  rw [hposition, other.listed] at hlisted
  exact ⟨hposition, (Option.some.inj hlisted).symm⟩

/-- Candidates further down the list do not matter. -/
theorem FirstMet.append (h : FirstMet caps candidates i c) (more : List (Candidate α)) :
    FirstMet caps (candidates ++ more) i c := by
  obtain ⟨hlt, -⟩ := List.getElem?_eq_some_iff.mp h.listed
  refine ⟨?_, h.met, fun j d hj hd => ?_⟩
  · rw [List.getElem?_append_left hlt]
    exact h.listed
  · rw [List.getElem?_append_left (hj.trans hlt)] at hd
    exact h.earlier j d hj hd

/-- The search ends at the first candidate whose requirement is met. -/
theorem find?_eq_some_iff_firstMet :
    (candidates.find? fun c => caps.has c.requires) = some c ↔
      ∃ i, FirstMet caps candidates i c := by
  rw [List.find?_eq_some_iff_getElem]
  constructor
  · rintro ⟨hmet, i, hi, hlisted, hearlier⟩
    refine ⟨i, List.getElem?_eq_some_iff.mpr ⟨hi, hlisted⟩, Caps.meets_iff.mpr hmet, ?_⟩
    intro j d hj hd hmeets
    obtain ⟨hlt, hat⟩ := List.getElem?_eq_some_iff.mp hd
    have hpassed := hearlier j hj
    rw [hat, Caps.meets_iff.mp hmeets] at hpassed
    exact absurd hpassed (by decide)
  · rintro ⟨i, h⟩
    obtain ⟨hi, hlisted⟩ := List.getElem?_eq_some_iff.mp h.listed
    refine ⟨Caps.meets_iff.mp h.met, i, hi, hlisted, fun j hj => ?_⟩
    have hpassed := h.earlier j _ hj (List.getElem?_eq_getElem (hj.trans hi))
    rw [Caps.meets_iff, Bool.not_eq_true] at hpassed
    rw [hpassed]
    rfl

/-! ### Selection -/

theorem select_eq_some_iff {s : Selected α} :
    select caps candidates = some s ↔ ∃ i c, FirstMet caps candidates i c ∧ c.selected = s := by
  simp only [select, Option.map_eq_some_iff, find?_eq_some_iff_firstMet]
  exact ⟨fun ⟨c, ⟨i, h⟩, hs⟩ => ⟨i, c, h, hs⟩, fun ⟨i, c, h, hs⟩ => ⟨c, ⟨i, h⟩, hs⟩⟩

theorem FirstMet.select_eq (h : FirstMet caps candidates i c) :
    select caps candidates = some c.selected :=
  select_eq_some_iff.mpr ⟨i, c, h, rfl⟩

theorem select_eq_none_iff :
    select caps candidates = none ↔ ∀ c ∈ candidates, ¬ caps.Meets c := by
  simp only [select, Option.map_eq_none_iff, List.find?_eq_none, Caps.meets_iff]

/-- With more capabilities the search ends no later. -/
theorem FirstMet.exists_le {wider : Caps} (h : FirstMet caps candidates i c)
    (hwider : ∀ i, i ∈ caps → i ∈ wider) : ∃ j d, j ≤ i ∧ FirstMet wider candidates j d := by
  have hmet := h.met.mono hwider
  have hfound : (candidates.find? fun c => wider.has c.requires).isSome = true :=
    List.find?_isSome.mpr ⟨c, List.mem_of_getElem? h.listed, Caps.meets_iff.mp hmet⟩
  obtain ⟨d, hd⟩ := Option.isSome_iff_exists.mp hfound
  obtain ⟨j, hj⟩ := find?_eq_some_iff_firstMet.mp hd
  exact ⟨j, d, hj.le h.listed hmet, hj⟩

/-! ### What a set is asked for -/

theorem mem_requirements {k : Nat} :
    k ∈ requirements candidates ↔ ∃ c ∈ candidates, k ∈ c.requires := by
  induction candidates with
  | nil => exact iff_of_false Caps.not_mem_empty fun ⟨c, hc, _⟩ => List.not_mem_nil hc
  | cons c rest ih =>
    simp only [List.mem_cons, exists_eq_or_imp, ← ih]
    exact Caps.mem_union

/-- What no candidate requires does not matter. -/
theorem meets_inter_requirements (h : c ∈ candidates) :
    (caps ∩ requirements candidates).Meets c ↔ caps.Meets c := by
  refine forall₂_congr fun k hk => ?_
  rw [Caps.mem_inter]
  exact and_iff_left (mem_requirements.mpr ⟨c, h, hk⟩)

theorem select_inter_requirements :
    select (caps ∩ requirements candidates) candidates = select caps candidates := by
  rw [select, select, List.find?_congr fun c hc => ?_]
  rw [Bool.eq_iff_iff, ← Caps.meets_iff, ← Caps.meets_iff, meets_inter_requirements hc]

/-- **Selection takes the first match, and is monotone**, for every set and every list of
candidates. A candidate is selected if its requirement is the first to be met, there is at most
one such position, and nothing is selected only if no requirement is met. A wider set selects at
the same position or an earlier one; candidates added at the end change no choice; and two sets
that hold the same of what is required select the same. -/
theorem selection_is_first_match (caps : Caps) (candidates : List (Candidate α)) :
    (∀ s, select caps candidates = some s ↔
        ∃ i c, FirstMet caps candidates i c ∧ c.selected = s) ∧
      (∀ i j c d, FirstMet caps candidates i c → FirstMet caps candidates j d → i = j ∧ c = d) ∧
      (select caps candidates = none ↔ ∀ c ∈ candidates, ¬ caps.Meets c) ∧
      (∀ wider : Caps, (∀ k, k ∈ caps → k ∈ wider) → ∀ i c, FirstMet caps candidates i c →
        ∃ j d, j ≤ i ∧ FirstMet wider candidates j d ∧
          select wider candidates = some d.selected) ∧
      (∀ more s, select caps candidates = some s → select caps (candidates ++ more) = some s) ∧
      ∀ other : Caps, caps ∩ requirements candidates = other ∩ requirements candidates →
        select caps candidates = select other candidates := by
  refine ⟨fun s => select_eq_some_iff, fun i j c d h other => h.unique other, select_eq_none_iff,
    fun wider hwider i c h => ?_, fun more s h => ?_, fun other h => ?_⟩
  · obtain ⟨j, d, hle, hd⟩ := h.exists_le hwider
    exact ⟨j, d, hle, hd, hd.select_eq⟩
  · obtain ⟨i, c, hc, rfl⟩ := select_eq_some_iff.mp h
    exact (hc.append more).select_eq
  · rw [← select_inter_requirements, h, select_inter_requirements]

/-- Four candidates, of which two share a name and a requirement and the last requires nothing.
Half of the first requirement does not help; with all of it the choice moves to the front; and
capabilities that nothing requires, here the baseline, make no difference. -/
theorem selection_with_repeated_names :
    let candidates : List (Candidate Nat) := [⟨"wide", .avx512bwReady, 1⟩, ⟨"mid", .avx2Ready, 2⟩,
      ⟨"mid", .avx2Ready, 3⟩, ⟨"any", .empty, 4⟩]
    let caps : Caps := .avx2Ready ∪ .avx512f
    let wider : Caps := caps ∪ .avx512bw
    (∀ k, k ∈ caps → k ∈ wider) ∧
      FirstMet caps candidates 1 ⟨"mid", .avx2Ready, 2⟩ ∧
      select caps candidates = some ⟨"mid", 2⟩ ∧
      (∃ j d, j ≤ 1 ∧ FirstMet wider candidates j d ∧
        select wider candidates = some d.selected) ∧
      select caps (candidates ++ [⟨"late", .avx2Ready, 5⟩]) = some ⟨"mid", 2⟩ ∧
      caps ∩ requirements candidates = (caps ∪ .sse2) ∩ requirements candidates ∧
      select caps candidates = select (caps ∪ .sse2) candidates := by
  intro candidates caps wider
  have hwider : ∀ k, k ∈ caps → k ∈ wider := fun k hk => Caps.mem_union.mpr (.inl hk)
  have hsame : caps ∩ requirements candidates = (caps ∪ .sse2) ∩ requirements candidates := by
    decide
  have hwide : ¬ caps.Meets (⟨"wide", .avx512bwReady, 1⟩ : Candidate Nat) := by
    rw [Caps.meets_iff]
    decide
  have hfirst : FirstMet caps candidates 1 ⟨"mid", .avx2Ready, 2⟩ := by
    refine ⟨rfl, Caps.meets_iff.mpr (by decide), fun i d hi hd => ?_⟩
    rw [Nat.lt_one_iff.mp hi] at hd
    rwa [← Option.some.inj hd]
  obtain ⟨hselect, -, -, hmono, happend, hrelevant⟩ := selection_is_first_match caps candidates
  have hmid : select caps candidates = some ⟨"mid", 2⟩ := (hselect _).mpr ⟨1, _, hfirst, rfl⟩
  exact ⟨hwider, hfirst, hmid, hmono wider hwider 1 _ hfirst, happend _ _ hmid, hsame,
    hrelevant _ hsame⟩

end AdaptiveAdler
