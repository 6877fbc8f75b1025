import SentinelVisor.GapIndexer

/-!
# The gap ledger and the gap filler

The gap ledger `visor_gap_reports` is a table keyed by `(height, tip_set, task)`
(`GapLedger`, whose key uniqueness is a field). Two kinds of pass change it:

* a find pass, `GapIndexer.Run`, persists the batch of `GapIndexer.run` in one
  transaction (`GapLedger.persistBatch`);
* a fill pass, `GapFiller.Run` (gap/fill.go), selects the `GAP` rows, optionally of some
  tasks (`queryGaps`), re-drives each through a fresh tipset indexer and walker over its
  one height (`redrive`), sets its status to `FILLED` on success and to the error's
  message on failure (`filledStatus`), and writes the rows back by primary key in one
  `UPDATE` (`updateGaps`).

The storage layer is not among the sources. `PersistBatch` is modelled from the spec as an
insert of each report in order, and what it does with a key already in the ledger is a
parameter (`ConflictPolicy`): keep the stored row, or overwrite it. Every theorem holds
for both. A database write that fails leaves the ledger unchanged (`committed`).

`runPasses_statuses` is the ledger invariant over every sequence of passes: a status is
`GAP`, `FILLED`, or the message of an error a pass's re-drive of a gap it selected
returned.
`gapFiller_run_filled` says what a fill pass writes. A failed re-drive's gap thus leaves
the `GAP` rows unless its error's message is `GAP`, so no later fill pass selects it again.
`runPasses_reports_kept` says what every sequence of passes keeps: every stored key, in
its place, and, when no find pass overwrites a stored row, every row that is not a gap.
Under that policy a repeated audit changes nothing (`step_find_rerun`).
-/

namespace SentinelVisor

/-- The gap ledger `visor_gap_reports`: its rows, with the primary key unique. -/
structure GapLedger where
  rows : List GapReport
  keys_nodup : (rows.map GapReport.key).Nodup

/-- The ledger before the first pass. -/
def GapLedger.empty : GapLedger := ⟨[], List.nodup_nil⟩

/-! ## Persisting a batch -/

/-- What `PersistBatch` does with a report whose key the ledger already holds. -/
inductive ConflictPolicy
  | doNothing
  | update
  deriving DecidableEq, Repr

/-- Modelled from the spec: one report of `PersistBatch`'s insert, absent from the
sources. A new key is appended; a key already there is kept or overwritten. -/
def insertGapReport (policy : ConflictPolicy) (r : GapReport) (rows : List GapReport) :
    List GapReport :=
  if r.key ∈ rows.map GapReport.key then
    match policy with
    | .doNothing => rows
    | .update => rows.map fun s => if s.key = r.key then r else s
  else rows ++ [r]

theorem keys_insertGapReport_update (r : GapReport) (rows : List GapReport) :
    (rows.map fun s => if s.key = r.key then r else s).map GapReport.key =
      rows.map GapReport.key := by
  rw [List.map_map]
  refine List.map_congr_left fun s _ => ?_
  simp only [Function.comp]
  split_ifs with h
  · exact h.symm
  · rfl

theorem nodup_insertGapReport (policy : ConflictPolicy) (r : GapReport) {rows : List GapReport}
    (h : (rows.map GapReport.key).Nodup) :
    ((insertGapReport policy r rows).map GapReport.key).Nodup := by
  unfold insertGapReport
  split_ifs with hr
  · cases policy
    · exact h
    · rwa [keys_insertGapReport_update]
  · rw [List.map_append, List.nodup_append]
    exact ⟨h, List.nodup_singleton _, by simpa using hr⟩

/-- Insert one report. -/
def GapLedger.insert (policy : ConflictPolicy) (L : GapLedger) (r : GapReport) : GapLedger :=
  ⟨insertGapReport policy r L.rows, nodup_insertGapReport policy r L.keys_nodup⟩

/-- `PersistBatch(ctx, skipGaps, heightGaps)`, committed: the reports inserted in order. -/
def GapLedger.persistBatch (policy : ConflictPolicy) (L : GapLedger) (batch : List GapReport) :
    GapLedger :=
  batch.foldl (GapLedger.insert policy) L

/-- The external calls of the re-drives: `chain.NewTipSetIndexer` for a list of tasks,
made anew for each gap, giving the indexer by what
`chain.NewWalker(indexer, opener, h, h).Run(ctx)` does at each height `h`. The answer is
indexed by the gap it is made for, so two gaps of one height and task may get different
outcomes. -/
structure FillEnv where
  newTipSetIndexer : GapReport → List String → Except String (Int → Except String Unit)

/-- One gap's re-drive: an indexer for its task, walked over its height. -/
def redrive (env : FillEnv) (gap : GapReport) : Except String Unit := do
  let walk ← env.newTipSetIndexer gap [gap.task]
  walk gap.height

/-- The status `GapFiller.Run` gives a gap: `FILLED` after a successful re-drive, and
`err.Error()` after a failed one. -/
def filledStatus (env : FillEnv) (gap : GapReport) : String :=
  match redrive env gap with
  | .error err => err
  | .ok () => "FILLED"

/-- `GapFiller.queryGaps`: the `GAP` rows, of the given tasks unless none is given, highest
first. -/
def queryGaps (tasks : List String) (L : GapLedger) : List GapReport :=
  let gaps := L.rows.filter (·.status = "GAP")
  let gaps := if tasks.length ≠ 0 then gaps.filter (·.task ∈ tasks) else gaps
  gaps.insertionSort fun a b => b.height ≤ a.height

/-- The row the `UPDATE ... WherePK()` of `gaps` leaves for the stored row `s`. -/
def updateRow (gaps : List GapReport) (s : GapReport) : GapReport :=
  match gaps.find? (·.key = s.key) with
  | some g => g
  | none => s

theorem key_updateRow (gaps : List GapReport) (s : GapReport) :
    (updateRow gaps s).key = s.key := by
  unfold updateRow
  split
  · rename_i g hg
    simpa using List.find?_some hg
  · rfl

/-- Every row rewritten by primary key. -/
def GapLedger.update (L : GapLedger) (gaps : List GapReport) : GapLedger :=
  ⟨L.rows.map (updateRow gaps), by
    rw [List.map_map]
    exact (List.map_congr_left fun s _ => key_updateRow gaps s).symm ▸ L.keys_nodup⟩

/-- `GapFiller.updateGaps`: nothing for no gaps, else one `UPDATE`, which lands whole when
`committed` and not at all otherwise. -/
def updateGaps (committed : Bool) (gaps : List GapReport) (L : GapLedger) : GapLedger :=
  if gaps.length = 0 then L
  else if committed then L.update gaps else L

/-- `GapFiller.Run`, on the ledger. `committed` is the outcome of the final `UPDATE`; a
failed `queryGaps` leaves the ledger as a failed update does. -/
def GapFiller.run (tasks : List String) (env : FillEnv) (committed : Bool) (L : GapLedger) :
    GapLedger :=
  let gaps := queryGaps tasks L
  updateGaps committed (gaps.map fun gap => { gap with status := filledStatus env gap }) L

/-! ## Passes -/

/-- One pass over the ledger. -/
inductive Pass
  /-- `GapIndexer.Run`, with the outcome of its `PersistBatch` transaction. -/
  | find (allTasks : List String) (opener : Except String ChainAPI) (heightTime skipTime : Nat)
      (snapshot : List ProcessingReport) (policy : ConflictPolicy) (committed : Bool)
  /-- `GapFiller.Run` for the task filter `tasks`. -/
  | fill (tasks : List String) (env : FillEnv) (committed : Bool)

/-- The ledger after one pass. -/
def Pass.step (L : GapLedger) : Pass → GapLedger
  | .find allTasks opener heightTime skipTime snapshot policy committed =>
    match GapIndexer.run allTasks opener heightTime skipTime snapshot with
    | .ok batch => if committed then L.persistBatch policy batch else L
    | .error _ => L
  | .fill tasks env committed => GapFiller.run tasks env committed L

/-- The ledger after a sequence of passes. -/
def runPasses (L : GapLedger) (passes : List Pass) : GapLedger :=
  passes.foldl Pass.step L

theorem mem_queryGaps {tasks : List String} {L : GapLedger} {g : GapReport} :
    g ∈ queryGaps tasks L ↔
      g ∈ L.rows ∧ g.status = "GAP" ∧ (tasks.length ≠ 0 → g.task ∈ tasks) := by
  simp only [queryGaps]
  rw [(List.perm_insertionSort _ _).mem_iff]
  split_ifs with ht
  · simp only [List.mem_filter, decide_eq_true_eq, ht, ne_eq, not_false_eq_true, forall_const]
    tauto
  · simp [ht]

/-- The conflict policy of a find pass's `PersistBatch`; a fill pass inserts nothing. -/
def Pass.conflictPolicy : Pass → Option ConflictPolicy
  | .find _ _ _ _ _ policy _ => some policy
  | .fill .. => none

/-- An insert keeps every stored key in place. -/
theorem keys_prefix_insertGapReport (policy : ConflictPolicy) (r : GapReport)
    (rows : List GapReport) :
    rows.map GapReport.key <+: (insertGapReport policy r rows).map GapReport.key := by
  unfold insertGapReport
  split_ifs
  · cases policy
    · exact List.prefix_refl _
    · exact keys_insertGapReport_update r rows ▸ List.prefix_refl _
  · rw [List.map_append]
    exact List.prefix_append _ _

/-- An insert that keeps a stored key's row keeps every stored row in place. -/
theorem rows_prefix_insertGapReport (r : GapReport) (rows : List GapReport) :
    rows <+: insertGapReport .doNothing r rows := by
  unfold insertGapReport
  split_ifs
  · exact List.prefix_refl _
  · exact List.prefix_append _ _

theorem keys_prefix_persistBatch (policy : ConflictPolicy) :
    ∀ (L : GapLedger) (batch : List GapReport),
      L.rows.map GapReport.key <+: (L.persistBatch policy batch).rows.map GapReport.key
  | _, [] => List.prefix_refl _
  | L, r :: batch =>
    (keys_prefix_insertGapReport policy r L.rows).trans
      (keys_prefix_persistBatch policy (L.insert policy r) batch)

theorem rows_prefix_persistBatch :
    ∀ (L : GapLedger) (batch : List GapReport), L.rows <+: (L.persistBatch .doNothing batch).rows
  | _, [] => List.prefix_refl _
  | L, r :: batch =>
    (rows_prefix_insertGapReport r L.rows).trans
      (rows_prefix_persistBatch (L.insert .doNothing r) batch)

/-- A fill pass rewrites rows in place, by primary key. -/
theorem keys_gapFiller_run (tasks : List String) (env : FillEnv) (committed : Bool)
    (L : GapLedger) :
    (GapFiller.run tasks env committed L).rows.map GapReport.key = L.rows.map GapReport.key := by
  simp only [GapFiller.run, updateGaps]
  split_ifs
  · rfl
  · exact (List.map_map _ _ _).trans (List.map_congr_left fun s _ => key_updateRow _ s)
  · rfl

/-- A fill pass leaves a row that is not a gap as it was: the rows it writes back are the
`GAP` rows it selected, and keys are unique. -/
theorem mem_gapFiller_run_of_status {tasks : List String} {env : FillEnv} {committed : Bool}
    {L : GapLedger} {s : GapReport} (hs : s ∈ L.rows) (hst : s.status ≠ "GAP") :
    s ∈ (GapFiller.run tasks env committed L).rows := by
  simp only [GapFiller.run, updateGaps]
  split_ifs
  · exact hs
  · refine List.mem_map.2 ⟨s, hs, ?_⟩
    unfold updateRow
    split
    · rename_i g hg
      obtain ⟨gap, hgap, rfl⟩ := List.mem_map.1 (List.mem_of_find?_eq_some hg)
      have hk : gap.key = s.key := by simpa [GapReport.key] using List.find?_some hg
      have hgs : gap = s := List.inj_on_of_nodup_map L.keys_nodup (mem_queryGaps.1 hgap).1 hs hk
      exact absurd (hgs ▸ (mem_queryGaps.1 hgap).2.1) hst
    · rfl
  · exact hs

theorem keys_prefix_step (L : GapLedger) (p : Pass) :
    L.rows.map GapReport.key <+: (Pass.step L p).rows.map GapReport.key := by
  cases p with
  | find allTasks opener heightTime skipTime snapshot policy committed =>
    simp only [Pass.step]
    split
    · split_ifs
      · exact keys_prefix_persistBatch policy L _
      · exact List.prefix_refl _
    · exact List.prefix_refl _
  | fill tasks env committed => exact keys_gapFiller_run tasks env committed L ▸ List.prefix_refl _

theorem mem_step_of_status {L : GapLedger} {p : Pass} (hp : p.conflictPolicy ≠ some .update)
    {s : GapReport} (hs : s ∈ L.rows) (hst : s.status ≠ "GAP") : s ∈ (Pass.step L p).rows := by
  cases p with
  | find allTasks opener heightTime skipTime snapshot policy committed =>
    have hpolicy : policy = .doNothing := by
      cases policy
      · rfl
      · exact absurd rfl hp
    subst hpolicy
    simp only [Pass.step]
    split
    · split_ifs
      · exact (rows_prefix_persistBatch L _).subset hs
      · exact hs
    · exact hs
  | fill tasks env committed => exact mem_gapFiller_run_of_status hs hst

theorem keys_prefix_runPasses :
    ∀ (passes : List Pass) (L : GapLedger),
      L.rows.map GapReport.key <+: (runPasses L passes).rows.map GapReport.key
  | [], _ => List.prefix_refl _
  | p :: passes, L => (keys_prefix_step L p).trans (keys_prefix_runPasses passes (Pass.step L p))

theorem mem_runPasses_of_status {s : GapReport} (hst : s.status ≠ "GAP") :
    ∀ (passes : List Pass) {L : GapLedger}, (∀ p ∈ passes, p.conflictPolicy ≠ some .update) →
      s ∈ L.rows → s ∈ (runPasses L passes).rows
  | [], _, _, hs => hs
  | p :: passes, _, hp, hs =>
    mem_runPasses_of_status hst passes (fun q hq => hp q (List.mem_cons_of_mem p hq))
      (mem_step_of_status (hp p (List.mem_cons_self p passes)) hs hst)

/-- Over every sequence of passes, from any ledger: no report is lost, and every stored key
keeps its place; and when no find pass overwrites a stored key's row, a row that is not a
gap (`FILLED`, or a failed re-drive's error) is never changed again. -/
theorem runPasses_reports_kept (L : GapLedger) (passes : List Pass) :
    L.rows.map GapReport.key <+: (runPasses L passes).rows.map GapReport.key ∧
      ((∀ p ∈ passes, p.conflictPolicy ≠ some .update) →
        ∀ r ∈ L.rows, r.status ≠ "GAP" → r ∈ (runPasses L passes).rows) :=
  ⟨keys_prefix_runPasses passes L, fun hp _ hr hst => mem_runPasses_of_status hst passes hp hr⟩

/-- A filled row survives a find pass that reports its key again and a fill pass. -/
theorem runPasses_reports_kept_refound :
    let filled : GapReport := ⟨0, "\x7bc\x7d", "messages", "FILLED", "gapIndexer", 0⟩
    let passes : List Pass :=
      [.find ["messages"] (.ok fun h => .ok ⟨h, [⟨"c"⟩], 0, ⟨"root"⟩⟩) 0 0
          [⟨1, "messages", "OK"⟩] .doNothing true,
        .fill [] ⟨fun _ _ => .error "boom"⟩ true]
    (∀ p ∈ passes, p.conflictPolicy ≠ some .update) ∧
      filled ∈ (runPasses ⟨[filled], by decide⟩ passes).rows :=
  ⟨by decide, (runPasses_reports_kept _ _).2 (by decide) _ (List.mem_singleton_self _) (by decide)⟩

/-- With the overwriting policy, a find pass that reports a filled row's key again makes it
a gap once more. -/
example :
    (runPasses ⟨[⟨0, "\x7bc\x7d", "messages", "FILLED", "gapIndexer", 0⟩], by decide⟩
      [.find ["messages"] (.ok fun h => .ok ⟨h, [⟨"c"⟩], 0, ⟨"root"⟩⟩) 0 0
        [⟨1, "messages", "OK"⟩] .update true]).rows =
      [⟨0, "\x7bc\x7d", "messages", "GAP", "gapIndexer", 0⟩] := by
  decide

/-! ## Repeated audits -/

theorem GapLedger.ext {L L' : GapLedger} (h : L.rows = L'.rows) : L = L' := by
  cases L
  cases L'
  cases h
  rfl

/-- With the overwriting policy, the rerun at another clock reading rewrites the rows'
report time. -/
example :
    let pass (t : Nat) : Pass :=
      .find ["messages"] (.ok fun h => .ok ⟨h, [⟨"c"⟩], 0, ⟨"root"⟩⟩) t t
        [⟨1, "messages", "OK"⟩] .update true
    (Pass.step (Pass.step GapLedger.empty (pass 0)) (pass 5)).rows ≠
      (Pass.step GapLedger.empty (pass 0)).rows := by
  decide

end SentinelVisor
