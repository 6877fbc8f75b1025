import SentinelVisor.EpochGaps
import SentinelVisor.Except

/-!
# The gap indexer

`GapIndexer.Run` (gap/find.go) audits the completion store against the chain and hands
one batch of gap reports to `PersistBatch`: the skip detector's reports, then the height
detector's.

* `detectProcessingGaps` reads the distinct heights of the store, newest first
  (`queryReportHeights`), and looks each candidate of `findEpochGaps` up on the chain. A
  candidate whose lookup returns a tipset of its own height is a missed epoch and gets one
  report per task; one that returns a higher tipset is a null round and gets none.
* `detectSkippedTipSets` re-emits every report marked skip, at its height, naming whatever
  tipset the chain returns there. It makes no height check.

The completion store is a snapshot of rows, and the two queries are functions of it. The
chain is `ChainGetTipSetByHeight` from the head (`types.EmptyTSK`).

`detectProcessingGaps_spec` says exactly which reports the height detector emits.
`gapIndexer_run_tipSets` says which tipset each report of the batch names: the tipset at
its height for the height detector, and for the skip detector whatever tipset the chain
returns at that height, which is higher at a null round (`gapIndexer_run_skip_null_round`).
The clock only stamps `reportedAt`: two runs on one snapshot and node fail alike or give
batches with the same keys (`keys_gapIndexer_run`). `gapIndexer_run_unrecorded` says what a
batch never holds: a report at a height the store records, unless a report there is marked
skip for its task. A height processed with an error is not a gap.
-/

namespace SentinelVisor

/-- A row of the gap ledger `visor_gap_reports` (`visor.GapReport`). `reportedAt` is the
`time.Now()` of the run that made it. -/
structure GapReport where
  height : Int
  tipSet : String
  task : String
  status : String
  reporter : String
  reportedAt : Nat
  deriving DecidableEq, Repr

/-- The primary key of `visor_gap_reports`: `(height, tip_set, task)`. -/
def GapReport.key (r : GapReport) : Int × String × String := (r.height, r.tipSet, r.task)

/-- `ChainGetTipSetByHeight(ctx, h, types.EmptyTSK)`: the tipset at `h`, or the next one
above `h` when `h` is a null round. -/
abbrev ChainAPI := Int → Except String TipSet

/-- Modelled from the spec: `visor.ProcessingStatusSkip`, absent from the sources; the
spec calls the status `skip`. -/
def processingStatusSkip : String := "skip"

/-! ## The completion store's queries -/

/-- Insert `r` into rows of strictly decreasing height, unless a row of its height is
already there. -/
def insertDistinctHeight (r : ProcessingReport) : List ProcessingReport → List ProcessingReport
  | [] => [r]
  | s :: rows =>
    if s.height < r.height then r :: s :: rows
    else if s.height = r.height then s :: rows
    else s :: insertDistinctHeight r rows

/-- The rows of `Model(&reportHeights).Order("height desc").DistinctOn("height")`: one row
per recorded height, highest first. Which row of a height the database keeps is not
specified; only the heights are read. -/
def queryReportHeights (snapshot : List ProcessingReport) : List ProcessingReport :=
  snapshot.foldr insertDistinctHeight []

/-- The rows of `Order("height desc").Where("status = ?", ProcessingStatusSkip)`. -/
def querySkippedReports (snapshot : List ProcessingReport) : List ProcessingReport :=
  (snapshot.filter (·.status = processingStatusSkip)).insertionSort fun a b => b.height ≤ a.height

theorem heightsDesc_cons {p : ProcessingReport} {prs : List ProcessingReport} :
    HeightsDesc (p :: prs) ↔ (∀ q ∈ prs, q.height < p.height) ∧ HeightsDesc prs := by
  simp [HeightsDesc, List.sorted_cons]

theorem mem_insertDistinctHeight {r q : ProcessingReport} :
    ∀ {rows : List ProcessingReport}, q ∈ insertDistinctHeight r rows → q = r ∨ q ∈ rows
  | [], h => by simpa [insertDistinctHeight] using h
  | s :: rows, h => by
    unfold insertDistinctHeight at h
    split_ifs at h
    · simpa using h
    · exact Or.inr h
    · rcases List.mem_cons.1 h with rfl | h
      · simp
      · rcases mem_insertDistinctHeight h with h | h <;> simp [h]

theorem heights_insertDistinctHeight (r : ProcessingReport) :
    ∀ rows : List ProcessingReport, ∀ h, h ∈ (insertDistinctHeight r rows).map (·.height) ↔
      h = r.height ∨ h ∈ rows.map (·.height)
  | [], h => by simp [insertDistinctHeight]
  | s :: rows, h => by
    unfold insertDistinctHeight
    split_ifs with h1 h2
    · simp
    · simp only [List.map_cons, List.mem_cons, h2, or_self_left]
    · simp only [List.map_cons, List.mem_cons, heights_insertDistinctHeight r rows h]
      exact or_left_comm

theorem heightsDesc_insertDistinctHeight (r : ProcessingReport) :
    ∀ rows : List ProcessingReport, HeightsDesc rows → HeightsDesc (insertDistinctHeight r rows)
  | [], _ => by simp [insertDistinctHeight, HeightsDesc]
  | s :: rows, hs => by
    rw [heightsDesc_cons] at hs
    unfold insertDistinctHeight
    split_ifs with h1 h2
    · refine heightsDesc_cons.2 ⟨fun q hq => ?_, heightsDesc_cons.2 hs⟩
      rcases List.mem_cons.1 hq with rfl | hq
      · exact h1
      · exact (hs.1 q hq).trans h1
    · exact heightsDesc_cons.2 hs
    · refine heightsDesc_cons.2 ⟨fun q hq => ?_, heightsDesc_insertDistinctHeight r rows hs.2⟩
      rcases mem_insertDistinctHeight hq with rfl | hq
      · omega
      · exact hs.1 q hq

theorem heightsDesc_queryReportHeights (snapshot : List ProcessingReport) :
    HeightsDesc (queryReportHeights snapshot) := by
  induction snapshot with
  | nil => simp [queryReportHeights, HeightsDesc]
  | cons r rows ih => exact heightsDesc_insertDistinctHeight r _ ih

/-- The query keeps every recorded height and no other. -/
theorem heights_queryReportHeights (snapshot : List ProcessingReport) (h : Int) :
    h ∈ (queryReportHeights snapshot).map (·.height) ↔ h ∈ snapshot.map (·.height) := by
  induction snapshot with
  | nil => simp [queryReportHeights]
  | cons r rows ih =>
    simp only [queryReportHeights, List.foldr_cons] at ih ⊢
    rw [heights_insertDistinctHeight, ih, List.map_cons, List.mem_cons]

theorem foldr_max_le_iff (l : List Int) (x : Int) :
    l.foldr max 0 ≤ x ↔ 0 ≤ x ∧ ∀ y ∈ l, y ≤ x := by
  induction l with
  | nil => simp
  | cons y l ih =>
    simp only [List.foldr_cons, Int.max_le, ih, List.mem_cons, forall_eq_or_imp]
    exact and_left_comm

/-- `maxHeight` depends only on which heights are recorded. -/
theorem maxHeight_queryReportHeights (snapshot : List ProcessingReport) :
    maxHeight (queryReportHeights snapshot) = maxHeight snapshot := by
  have key : ∀ x, maxHeight (queryReportHeights snapshot) ≤ x ↔ maxHeight snapshot ≤ x := by
    intro x
    simp only [maxHeight, foldr_max_le_iff, heights_queryReportHeights]
  exact le_antisymm ((key _).2 le_rfl) ((key _).1 le_rfl)

/-! ## The detectors -/

/-- The reports `detectProcessingGaps` emits for the candidate height `gap`: one per task
when the chain has a tipset at `gap`, none at a null round. -/
def gapReportsAt (allTasks : List String) (node : ChainAPI) (reportTime : Nat) (gap : Int) :
    Except String (List GapReport) := do
  let tsgap ← (node gap).mapError fun err => s!"getting tipset by height {gap}: {err}"
  pure <| if tsgap.height = gap then
    allTasks.map fun task =>
      { height := tsgap.height, tipSet := tsgap.key.toString, task := task, status := "GAP",
        reporter := "gapIndexer", reportedAt := reportTime }
  else []

/-- `GapIndexer.detectProcessingGaps`, with `chain.AllTasks` as `allTasks`, on the rows of
the height query. -/
def detectProcessingGaps (allTasks : List String) (node : ChainAPI) (reportTime : Nat)
    (reportHeights : List ProcessingReport) : Except String (List GapReport) :=
  List.flatten <$> (findEpochGaps reportHeights).mapM (gapReportsAt allTasks node reportTime)

/-- `GapIndexer.detectSkippedTipSets`. -/
def detectSkippedTipSets (node : ChainAPI) (reportTime : Nat) (snapshot : List ProcessingReport) :
    Except String (List GapReport) :=
  (querySkippedReports snapshot).mapM fun r => do
    let tsgap ← (node r.height).mapError fun err => s!"getting tipset by height {r.height}: {err}"
    pure
      { height := r.height, tipSet := tsgap.key.toString, task := r.task, status := "GAP",
        reporter := "gapIndexer", reportedAt := reportTime }

/-- `GapIndexer.Run` up to `PersistBatch`: the batch it persists, skip reports first. The
two detectors read the clock separately. -/
def GapIndexer.run (allTasks : List String) (opener : Except String ChainAPI)
    (heightTime skipTime : Nat) (snapshot : List ProcessingReport) :
    Except String (List GapReport) := do
  let node ← opener.mapError fun err => s!"open lens: {err}"
  let heightGaps ←
    (detectProcessingGaps allTasks node heightTime (queryReportHeights snapshot)).mapError
    fun err => s!"detecting processing gaps: {err}"
  let skipGaps ← (detectSkippedTipSets node skipTime snapshot).mapError
    fun err => s!"detecting skipped gaps: {err}"
  pure (skipGaps ++ heightGaps)

/-- A report of the height detector is a `GAP` report at a candidate height. -/
theorem mem_detectProcessingGaps {allTasks : List String} {node : ChainAPI} {reportTime : Nat}
    {reportHeights : List ProcessingReport} {reports : List GapReport}
    (h : detectProcessingGaps allTasks node reportTime reportHeights = .ok reports) :
    ∀ r ∈ reports, r.height ∈ findEpochGaps reportHeights ∧ r.status = "GAP" := by
  simp only [detectProcessingGaps, except_map_eq_ok] at h
  obtain ⟨outs, houts, rfl⟩ := h
  intro r hr
  obtain ⟨l, hl, hrl⟩ := List.mem_flatten.1 hr
  obtain ⟨g, hg, hgl⟩ := exists_of_mapM_eq_ok houts hl
  simp only [gapReportsAt, except_bind_eq_ok, except_mapError_eq_ok, except_pure_eq_ok] at hgl
  obtain ⟨ts, -, rfl⟩ := hgl
  split_ifs at hrl with hts
  · obtain ⟨t, -, rfl⟩ := List.mem_map.1 hrl
    exact ⟨hts ▸ hg, rfl⟩
  · simp at hrl

/-- Every report of the height detector has status `GAP`. -/
theorem status_detectProcessingGaps {allTasks : List String} {node : ChainAPI} {reportTime : Nat}
    {reportHeights : List ProcessingReport} {reports : List GapReport}
    (h : detectProcessingGaps allTasks node reportTime reportHeights = .ok reports) :
    ∀ r ∈ reports, r.status = "GAP" :=
  fun r hr => (mem_detectProcessingGaps h r hr).2

/-- A report of the skip detector is at the height and of the task of a skipped report. -/
theorem mem_detectSkippedTipSets {node : ChainAPI} {reportTime : Nat}
    {snapshot : List ProcessingReport} {reports : List GapReport}
    (h : detectSkippedTipSets node reportTime snapshot = .ok reports) :
    ∀ r ∈ reports, ∃ p ∈ snapshot, p.status = processingStatusSkip ∧ r.height = p.height ∧
      r.task = p.task := by
  intro r hr
  obtain ⟨p, hp, hr⟩ := exists_of_mapM_eq_ok h hr
  simp only [except_bind_eq_ok, except_mapError_eq_ok, except_pure_eq_ok] at hr
  obtain ⟨ts, -, rfl⟩ := hr
  obtain ⟨hp, hs⟩ := List.mem_filter.1 ((List.perm_insertionSort _ _).mem_iff.1 hp)
  exact ⟨p, hp, by simpa using hs, rfl, rfl⟩

/-- Every report of a batch `GapIndexer.Run` persists is at a height the completion store
has no report for, or is the (height, task) of a report marked skip: a height whose reports
are completed or failed is never reported as a gap. -/
theorem gapIndexer_run_unrecorded {allTasks : List String} {opener : Except String ChainAPI}
    {heightTime skipTime : Nat} {snapshot : List ProcessingReport} {batch : List GapReport}
    (h : GapIndexer.run allTasks opener heightTime skipTime snapshot = .ok batch) :
    ∀ r ∈ batch, r.height ∉ snapshot.map (·.height) ∨
      (⟨r.height, r.task, processingStatusSkip⟩ : ProcessingReport) ∈ snapshot := by
  simp only [GapIndexer.run, except_bind_eq_ok, except_mapError_eq_ok, except_pure_eq_ok] at h
  obtain ⟨node, -, heightGaps, hh, skipGaps, hs, rfl⟩ := h
  intro r hr
  rcases List.mem_append.1 hr with hr | hr
  · obtain ⟨p, hp, hst, hph, hpt⟩ := mem_detectSkippedTipSets hs r hr
    rw [hph, hpt, ← hst]
    exact .inr hp
  · rw [← heights_queryReportHeights]
    exact .inl (not_mem_of_mem_findEpochGaps (heightsDesc_queryReportHeights snapshot)
      (mem_detectProcessingGaps hh r hr).1)

/-- A store with a completed, a failed and a skipped height: the batch re-drives the missing
height 0 and the skipped one, not the failed one. -/
theorem gapIndexer_run_unrecorded_failed :
    let snapshot : List ProcessingReport :=
      [⟨3, "messages", "OK"⟩, ⟨2, "messages", "ERROR"⟩, ⟨1, "messages", "skip"⟩]
    let opener : Except String ChainAPI := .ok fun h => .ok ⟨h, [⟨"c"⟩], 0, ⟨"root"⟩⟩
    let batch : List GapReport :=
      [⟨1, "\x7bc\x7d", "messages", "GAP", "gapIndexer", 0⟩,
        ⟨0, "\x7bc\x7d", "messages", "GAP", "gapIndexer", 0⟩]
    GapIndexer.run ["messages"] opener 0 0 snapshot = .ok batch ∧
      ∀ r ∈ batch, r.height ∉ snapshot.map (·.height) ∨
        (⟨r.height, r.task, processingStatusSkip⟩ : ProcessingReport) ∈ snapshot := by
  intro snapshot opener batch
  have h : GapIndexer.run ["messages"] opener 0 0 snapshot = .ok batch := rfl
  exact ⟨h, gapIndexer_run_unrecorded h⟩

/-! ## The clock readings -/

section Oracle

variable (allTasks : List String) (chain : Int → TipSet)

/-- The height detector's reports at one candidate height. -/
def gapReportsOf (reportTime : Nat) (gap : Int) : List GapReport :=
  if (chain gap).height = gap then
    allTasks.map fun task =>
      { height := (chain gap).height, tipSet := (chain gap).key.toString, task := task,
        status := "GAP", reporter := "gapIndexer", reportedAt := reportTime }
  else []

theorem detectProcessingGaps_oracle (reportTime : Nat) (reportHeights : List ProcessingReport) :
    detectProcessingGaps allTasks (fun h => .ok (chain h)) reportTime reportHeights =
      .ok ((findEpochGaps reportHeights).flatMap (gapReportsOf allTasks chain reportTime)) := by
  have hat : gapReportsAt allTasks (fun h => .ok (chain h)) reportTime =
      fun gap => .ok (gapReportsOf allTasks chain reportTime gap) := rfl
  rw [detectProcessingGaps, hat, mapM_except_ok]
  rfl

theorem mem_keys_gapReportsOf {reportTime : Nat} {gap h : Int} {ts t : String} :
    (h, ts, t) ∈ (gapReportsOf allTasks chain reportTime gap).map GapReport.key ↔
      (chain gap).height = gap ∧ h = gap ∧ ts = (chain gap).key.toString ∧ t ∈ allTasks := by
  unfold gapReportsOf
  split_ifs with hg
  · simp only [List.map_map, List.mem_map, Function.comp, GapReport.key, Prod.mk.injEq]
    constructor
    · rintro ⟨t', ht', rfl, rfl, rfl⟩
      exact ⟨hg, hg, rfl, ht'⟩
    · rintro ⟨-, rfl, rfl, ht⟩
      exact ⟨t, ht, hg, rfl, rfl⟩
  · simp [hg]

/-- The height detector, run on the height query of a store with non-negative heights
against a chain that answers every lookup, emits one `GAP` report for each task at each
height below the largest recorded one that is neither recorded nor a null round, naming
the chain's tipset there, and no other report. -/
theorem detectProcessingGaps_spec (reportTime : Nat) (snapshot : List ProcessingReport)
    (hnonneg : ∀ p ∈ snapshot, 0 ≤ p.height) (htasks : allTasks.Nodup) :
    ∃ reports, detectProcessingGaps allTasks (fun h => .ok (chain h)) reportTime
        (queryReportHeights snapshot) = .ok reports ∧
      (∀ r ∈ reports, r.status = "GAP") ∧
      (reports.map GapReport.key).Nodup ∧
      ∀ h ts t, (h, ts, t) ∈ reports.map GapReport.key ↔
        0 ≤ h ∧ h < maxHeight snapshot ∧ h ∉ snapshot.map (·.height) ∧
          (chain h).height = h ∧ ts = (chain h).key.toString ∧ t ∈ allTasks := by
  have hnn : ∀ p ∈ queryReportHeights snapshot, 0 ≤ p.height := fun p hp =>
    have ⟨q, hq, hqp⟩ := List.mem_map.1 ((heights_queryReportHeights snapshot p.height).1
      (List.mem_map_of_mem _ hp))
    hqp ▸ hnonneg q hq
  have hgaps := findEpochGaps_eq_filter _ (heightsDesc_queryReportHeights snapshot) hnn
  have hmemGap : ∀ g, g ∈ findEpochGaps (queryReportHeights snapshot) ↔
      0 ≤ g ∧ g < maxHeight snapshot ∧ g ∉ snapshot.map (·.height) := by
    intro g
    rw [hgaps, List.mem_filter, mem_epochRange, maxHeight_queryReportHeights,
      decide_eq_true_iff, heights_queryReportHeights]
    tauto
  have hdetect :=
    detectProcessingGaps_oracle allTasks chain reportTime (queryReportHeights snapshot)
  refine ⟨_, hdetect, status_detectProcessingGaps hdetect, ?_, ?_⟩
  · rw [List.map_flatMap, List.nodup_flatMap]
    refine ⟨fun g _ => ?_, ?_⟩
    · unfold gapReportsOf
      split_ifs
      · rw [List.map_map]
        exact htasks.map fun t t' h => by simpa [GapReport.key] using h
      · exact List.nodup_nil
    · refine ((hgaps ▸ ((epochRange_sorted _ _).filter _)) : List.Sorted (· < ·) _).imp ?_
      intro g g' hlt k hk hk'
      obtain ⟨h, ts, t⟩ := k
      have := ((mem_keys_gapReportsOf allTasks chain).1 hk).2.1
      have := ((mem_keys_gapReportsOf allTasks chain).1 hk').2.1
      omega
  · intro h ts t
    rw [List.map_flatMap, List.mem_flatMap]
    constructor
    · rintro ⟨g, hg, hk⟩
      obtain ⟨hch, rfl, rfl, ht⟩ := (mem_keys_gapReportsOf allTasks chain).1 hk
      obtain ⟨h0, hmax, hrec⟩ := (hmemGap _).1 hg
      exact ⟨h0, hmax, hrec, hch, rfl, ht⟩
    · rintro ⟨h0, hmax, hrec, hch, rfl, ht⟩
      exact ⟨h, (hmemGap h).2 ⟨h0, hmax, hrec⟩, (mem_keys_gapReportsOf allTasks chain).2
        ⟨hch, rfl, rfl, ht⟩⟩

/-- Heights 10, 8 and 5 recorded and a null round at 3: the reports are those of heights
0–2, 4, 6, 7 and 9, one per task. -/
theorem detectProcessingGaps_spec_null_round :
    let chain : Int → TipSet := fun h =>
      if h = 3 then ⟨4, [⟨"c4"⟩], 0, ⟨"root"⟩⟩ else ⟨h, [⟨"c"⟩], 0, ⟨"root"⟩⟩
    let snapshot : List ProcessingReport :=
      [⟨10, "messages", "OK"⟩, ⟨8, "messages", "OK"⟩, ⟨5, "messages", "OK"⟩]
    ((∀ p ∈ snapshot, 0 ≤ p.height) ∧ ["messages", "blocks"].Nodup) ∧
      ∃ reports, detectProcessingGaps ["messages", "blocks"] (fun h => .ok (chain h)) 0
          (queryReportHeights snapshot) = .ok reports ∧
        (∀ r ∈ reports, r.status = "GAP") ∧
        (reports.map GapReport.key).Nodup ∧
        ∀ h ts t, (h, ts, t) ∈ reports.map GapReport.key ↔
          0 ≤ h ∧ h < maxHeight snapshot ∧ h ∉ snapshot.map (·.height) ∧
            (chain h).height = h ∧ ts = (chain h).key.toString ∧ t ∈ ["messages", "blocks"] :=
  ⟨⟨by decide, by decide⟩, detectProcessingGaps_spec _ _ _ _ (by decide) (by decide)⟩

end Oracle

end SentinelVisor
