import SentinelVisor.Chain
import Mathlib.Data.List.Sort

/-!
# Candidate gap heights

`findEpochGaps` (gap/find.go) takes the completion store's distinct heights, newest first,
and lists the heights no report covers: those strictly between two neighbouring reports,
then those from `0` up to the oldest report, sorted ascending for the chain lookups that
follow. `maybeGaps` is the list both loops build before the sort, as one recursion
(`findEpochGaps_cons`).

`findEpochGaps_spec` is its specification: on strictly decreasing non-negative heights the
result is strictly increasing and holds exactly the non-negative heights below some report
that no report covers. The proof characterises the members of `maybeGaps`
(`mem_maybeGaps`), shows no height is listed twice (`nodup_maybeGaps`), and concludes by
uniqueness of a sorted permutation that the result is the complement of the reports in the
loop's own range (`findEpochGaps_eq_filter`).
-/

namespace SentinelVisor

/-- A row of the completion store (`visor.ProcessingReport`), with the columns the gap
auditor reads. -/
structure ProcessingReport where
  height : Int
  task : String
  status : String
  deriving DecidableEq, Repr

/-- `for gap := lo; gap < hi; gap++`: the integers from `lo` up to `hi`, `hi` excluded. -/
def epochRange (lo hi : Int) : List Int :=
  (List.range (hi - lo).toNat).map fun n : Nat => lo + (n : Int)

/-- The first loop of `findEpochGaps`: the heights strictly between each report and the
one before it, `prev` being the report before `prs`. -/
def gapsBetween (prev : ProcessingReport) : List ProcessingReport → List Int
  | [] => []
  | cur :: prs => epochRange (cur.height + 1) prev.height ++ gapsBetween cur prs

/-- `findEpochGaps`. `sort.Slice` is modelled by insertion sort: a list of integers has
one sorted permutation, so every correct sort returns it. -/
def findEpochGaps : List ProcessingReport → List Int
  | [] => []
  | first :: rest =>
    let maybeGap := gapsBetween first rest ++
      epochRange 0 ((first :: rest).getLast (List.cons_ne_nil first rest)).height
    maybeGap.insertionSort (· ≤ ·)

/-- Both loops of `findEpochGaps` as one recursion: the gaps below `prev`. -/
def maybeGaps (prev : ProcessingReport) : List ProcessingReport → List Int
  | [] => epochRange 0 prev.height
  | cur :: prs => epochRange (cur.height + 1) prev.height ++ maybeGaps cur prs

/-- The largest recorded height, `0` when there is none. -/
def maxHeight (prs : List ProcessingReport) : Int :=
  (prs.map (·.height)).foldr max 0

@[simp] theorem mem_epochRange {lo hi h : Int} : h ∈ epochRange lo hi ↔ lo ≤ h ∧ h < hi := by
  simp only [epochRange, List.mem_map, List.mem_range]
  constructor
  · rintro ⟨n, hn, rfl⟩
    omega
  · rintro ⟨h1, h2⟩
    exact ⟨(h - lo).toNat, by omega, by omega⟩

theorem epochRange_sorted (lo hi : Int) : (epochRange lo hi).Sorted (· < ·) :=
  List.pairwise_map.2 ((List.pairwise_lt_range _).imp fun h => by omega)

theorem gapsBetween_append_epochRange (prev : ProcessingReport) :
    ∀ prs : List ProcessingReport, gapsBetween prev prs ++
      epochRange 0 ((prev :: prs).getLast (List.cons_ne_nil prev prs)).height =
        maybeGaps prev prs
  | [] => rfl
  | cur :: prs => by
    simp only [gapsBetween, maybeGaps, List.append_assoc,
      List.getLast_cons (List.cons_ne_nil cur prs),
      gapsBetween_append_epochRange cur prs]

theorem findEpochGaps_cons (first : ProcessingReport) (rest : List ProcessingReport) :
    findEpochGaps (first :: rest) = (maybeGaps first rest).insertionSort (· ≤ ·) := by
  rw [findEpochGaps, gapsBetween_append_epochRange]

section Descending

/-- The reports' heights strictly decrease: the `DistinctOn(height)`, `Order(height desc)`
query's rows. -/
def HeightsDesc (prs : List ProcessingReport) : Prop :=
  (prs.map (·.height)).Sorted (· > ·)

instance (prs : List ProcessingReport) : Decidable (HeightsDesc prs) :=
  inferInstanceAs (Decidable ((prs.map ProcessingReport.height).Sorted (· > ·)))

theorem HeightsDesc.tail {p : ProcessingReport} {prs : List ProcessingReport}
    (h : HeightsDesc (p :: prs)) : HeightsDesc prs :=
  List.Sorted.of_cons (r := (· > ·)) h

theorem HeightsDesc.lt_head {p q : ProcessingReport} {prs : List ProcessingReport}
    (h : HeightsDesc (p :: prs)) (hq : q ∈ prs) : q.height < p.height :=
  (List.sorted_cons.1 h).1 q.height (List.mem_map_of_mem _ hq)

/-- A candidate below `prev` is a non-negative height below it that no later report has. -/
theorem mem_maybeGaps : ∀ (prev : ProcessingReport) (prs : List ProcessingReport),
    HeightsDesc (prev :: prs) → (∀ p ∈ prs, 0 ≤ p.height) → ∀ h,
      h ∈ maybeGaps prev prs ↔ 0 ≤ h ∧ h < prev.height ∧ h ∉ prs.map (·.height)
  | prev, [], _, _, h => by simp [maybeGaps]
  | prev, cur :: prs, hs, hn, h => by
    have hcur := hs.lt_head (List.mem_cons_self cur prs)
    have hrest : ∀ p ∈ prs, p.height < cur.height := fun p hp => hs.tail.lt_head hp
    have hcur0 := hn cur (List.mem_cons_self cur prs)
    have ih := mem_maybeGaps cur prs hs.tail (fun p hp => hn p (List.mem_cons_of_mem cur hp)) h
    simp only [maybeGaps, List.mem_append, mem_epochRange, ih, List.map_cons, List.mem_cons,
      not_or, List.mem_map]
    constructor
    · rintro (⟨h1, h2⟩ | ⟨h1, h2, h3⟩)
      · refine ⟨by omega, h2, by omega, ?_⟩
        rintro ⟨p, hp, rfl⟩
        have := hrest p hp
        omega
      · exact ⟨h1, by omega, by omega, h3⟩
    · rintro ⟨h1, h2, h3, h4⟩
      rcases lt_or_gt_of_ne h3 with hlt | hgt
      · exact Or.inr ⟨h1, hlt, h4⟩
      · exact Or.inl ⟨by omega, h2⟩

/-- A candidate below `prev` is below it and no later report has it, whatever the signs of
the heights. -/
theorem lt_of_mem_maybeGaps : ∀ {prev : ProcessingReport} {prs : List ProcessingReport},
    HeightsDesc (prev :: prs) → ∀ {h}, h ∈ maybeGaps prev prs →
      h < prev.height ∧ h ∉ prs.map (·.height)
  | prev, [], _, h, hh => by simp_all [maybeGaps]
  | prev, cur :: prs, hs, h, hh => by
    have hcur := hs.lt_head (List.mem_cons_self cur prs)
    simp only [maybeGaps, List.mem_append, mem_epochRange] at hh
    simp only [List.map_cons, List.mem_cons, not_or, List.mem_map, not_exists, not_and]
    rcases hh with ⟨h1, h2⟩ | hh
    · refine ⟨h2, by omega, fun p hp hph => ?_⟩
      have := hs.tail.lt_head hp
      omega
    · obtain ⟨h1, h2⟩ := lt_of_mem_maybeGaps hs.tail hh
      exact ⟨by omega, by omega, fun p hp hph => h2 (hph ▸ List.mem_map_of_mem _ hp)⟩

/-- No candidate is a recorded height. -/
theorem not_mem_of_mem_findEpochGaps {prs : List ProcessingReport} (hs : HeightsDesc prs)
    {h : Int} (hh : h ∈ findEpochGaps prs) : h ∉ prs.map (·.height) := by
  cases prs with
  | nil => simp [findEpochGaps] at hh
  | cons first rest =>
    rw [findEpochGaps_cons, (List.perm_insertionSort _ _).mem_iff] at hh
    obtain ⟨h1, h2⟩ := lt_of_mem_maybeGaps hs hh
    simp only [List.map_cons, List.mem_cons, not_or]
    exact ⟨by omega, h2⟩

theorem nodup_maybeGaps : ∀ (prev : ProcessingReport) (prs : List ProcessingReport),
    HeightsDesc (prev :: prs) → (∀ p ∈ prs, 0 ≤ p.height) → (maybeGaps prev prs).Nodup
  | prev, [], _, _ => (epochRange_sorted 0 _).nodup
  | prev, cur :: prs, hs, hn => by
    have hn' : ∀ p ∈ prs, 0 ≤ p.height := fun p hp => hn p (List.mem_cons_of_mem cur hp)
    rw [maybeGaps, List.nodup_append]
    refine ⟨(epochRange_sorted _ _).nodup, nodup_maybeGaps cur prs hs.tail hn', ?_⟩
    intro h h1 h2
    have := (mem_maybeGaps cur prs hs.tail hn' h).1 h2
    rw [mem_epochRange] at h1
    omega

theorem maxHeight_cons {first : ProcessingReport} {rest : List ProcessingReport}
    (hs : HeightsDesc (first :: rest)) (h0 : 0 ≤ first.height) :
    maxHeight (first :: rest) = first.height := by
  have hle : ∀ l : List Int, (∀ x ∈ l, x < first.height) → l.foldr max 0 ≤ first.height := by
    intro l
    induction l with
    | nil => simpa using h0
    | cons x l ih =>
      intro hl
      exact max_le (hl x (List.mem_cons_self x l)).le
        (ih fun y hy => hl y (List.mem_cons_of_mem x hy))
  have := hle (rest.map (·.height)) fun x hx => by
    obtain ⟨p, hp, rfl⟩ := List.mem_map.1 hx
    exact hs.lt_head hp
  simp only [maxHeight, List.map_cons, List.foldr_cons]
  exact max_eq_left this

/-- On strictly decreasing non-negative heights, the loops and the sort give the recorded
heights' complement in `epochRange 0 (maxHeight prs)`, in its order. -/
theorem findEpochGaps_eq_filter (prs : List ProcessingReport) (hdesc : HeightsDesc prs)
    (hnonneg : ∀ p ∈ prs, 0 ≤ p.height) :
    findEpochGaps prs = (epochRange 0 (maxHeight prs)).filter (· ∉ prs.map (·.height)) := by
  cases prs with
  | nil => rfl
  | cons first rest =>
    have hn : ∀ p ∈ rest, 0 ≤ p.height := fun p hp => hnonneg p (List.mem_cons_of_mem first hp)
    have hmem := mem_maybeGaps first rest hdesc hn
    rw [findEpochGaps_cons, maxHeight_cons hdesc (hnonneg first (List.mem_cons_self first rest))]
    have hperm : List.Perm ((maybeGaps first rest).insertionSort (· ≤ ·))
        ((epochRange 0 first.height).filter (· ∉ (first :: rest).map (·.height))) := by
      refine (List.perm_insertionSort _ _).trans ((List.perm_ext_iff_of_nodup
        (nodup_maybeGaps first rest hdesc hn) ((epochRange_sorted _ _).nodup.filter _)).2 ?_)
      intro h
      simp only [hmem, List.mem_filter, mem_epochRange, List.map_cons, List.mem_cons,
        decide_eq_true_eq, not_or]
      constructor
      · rintro ⟨h1, h2, h3⟩
        exact ⟨⟨h1, h2⟩, by omega, h3⟩
      · rintro ⟨⟨h1, h2⟩, -, h3⟩
        exact ⟨h1, h2, h3⟩
    exact List.eq_of_perm_of_sorted hperm (List.sorted_insertionSort _ _)
      (((epochRange_sorted _ _).filter _).imp le_of_lt)

/-- Below the largest of strictly decreasing non-negative heights is below one of them. -/
theorem lt_maxHeight_iff {prs : List ProcessingReport} (hdesc : HeightsDesc prs)
    (hnonneg : ∀ p ∈ prs, 0 ≤ p.height) {h : Int} (h0 : 0 ≤ h) :
    h < maxHeight prs ↔ ∃ p ∈ prs, h < p.height := by
  cases prs with
  | nil => simp [maxHeight, h0]
  | cons first rest =>
    rw [maxHeight_cons hdesc (hnonneg first (List.mem_cons_self first rest))]
    refine ⟨fun hlt => ⟨first, List.mem_cons_self first rest, hlt⟩, ?_⟩
    rintro ⟨p, hp, hlt⟩
    rcases List.mem_cons.1 hp with rfl | hp
    · exact hlt
    · exact hlt.trans (hdesc.lt_head hp)

/-- `findEpochGaps` on strictly decreasing non-negative heights is strictly increasing and
holds exactly the non-negative integers below some report's height that no report has:
every missing height below the newest report, once each, in ascending order. -/
theorem findEpochGaps_spec (prs : List ProcessingReport) (hdesc : HeightsDesc prs)
    (hnonneg : ∀ p ∈ prs, 0 ≤ p.height) :
    (findEpochGaps prs).Sorted (· < ·) ∧
      ∀ h, h ∈ findEpochGaps prs ↔
        0 ≤ h ∧ (∃ p ∈ prs, h < p.height) ∧ h ∉ prs.map (·.height) := by
  rw [findEpochGaps_eq_filter prs hdesc hnonneg]
  refine ⟨(epochRange_sorted _ _).filter _, fun h => ?_⟩
  simp only [List.mem_filter, mem_epochRange, decide_eq_true_eq]
  constructor
  · rintro ⟨⟨h0, hlt⟩, hrec⟩
    exact ⟨h0, (lt_maxHeight_iff hdesc hnonneg h0).1 hlt, hrec⟩
  · rintro ⟨h0, hex, hrec⟩
    exact ⟨⟨h0, (lt_maxHeight_iff hdesc hnonneg h0).2 hex⟩, hrec⟩

/-- The scenario of the spec: heights 10, 8, 5 give the candidates 0–4, 6, 7 and 9. -/
theorem findEpochGaps_scenario :
    let prs : List ProcessingReport := [⟨10, "", ""⟩, ⟨8, "", ""⟩, ⟨5, "", ""⟩]
    (HeightsDesc prs ∧ ∀ p ∈ prs, 0 ≤ p.height) ∧ findEpochGaps prs = [0, 1, 2, 3, 4, 6, 7, 9] ∧
      (findEpochGaps prs).Sorted (· < ·) ∧
      ∀ h, h ∈ findEpochGaps prs ↔
        0 ≤ h ∧ (∃ p ∈ prs, h < p.height) ∧ h ∉ prs.map (·.height) :=
  ⟨⟨by decide, by decide⟩, by decide, findEpochGaps_spec _ (by decide) (by decide)⟩

end Descending

end SentinelVisor
