import SentinelVisor.AdtDiff
import SentinelVisor.Chain

/-!
# Diffing a miner's sectors and precommits

`DiffSectors` and `DiffPreCommits` (chain/actors/builtin/miner/diff.go) compare a miner's
sectors AMT and precommits HAMT between two states. Each one picks a strategy: the generic
diff, or the structural one, which cannot read the node format miners wrote before actors
v3 ("amt/v3 cannot read amt/v2 nodes"). `mapRequiresLegacyDiffing` picks the generic diff
for the precommits of a v0 or v2 miner, or for HAMT options that differ.
`arrayRequiresLegacyDiffing` compares the miner's code with the code of the storage
*market* actor instead, which a miner never has. So it picks the generic diff only for
bitwidths that differ (`arrayRequiresLegacyDiffing_eq`).

A miner state is known by its version, its two containers and its version's decoders
(`MinerState`). Its containers carry the node format and the sectors AMT the bitwidth
that its version gives them. `SectorsAmtBitwidth` gives v0 and v2 miners the same
bitwidth, so two such states go to the structural diff, which fails on them
(`diffSectors_fails_of_legacy`). On every other pair, and for precommits on every pair,
the result is the generic path's result as multisets (`diffSectors_equiv_generic`,
`diffPreCommits_equiv_generic`).

What a container records is said once, over any list of changes: `decodeSectorChanges` and
`decodePreCommitChanges` decode the values the changes add, remove and modify, and
`foldlM_sectorDiffContainer` and `foldlM_preCommitDiffContainer` show that a run of the
container returns exactly that. With the values the generic diff reports by key, this is
the generic path's whole result (`genericDiff_sectorChanges`, `genericDiff_preCommitChanges`).
-/

namespace SentinelVisor

/-! ## Actor codes -/

/-- The specs-actors versions whose miner state this package reads. -/
inductive ActorsVersion
  | v0
  | v2
  | v3
  | v4
  deriving DecidableEq, Repr

/-- Whether the version's miner writes its AMTs and HAMTs in the v3 node format: from
actors v3 on. -/
def ActorsVersion.writesV3Nodes : ActorsVersion → Bool
  | .v0 | .v2 => false
  | .v3 | .v4 => true

/-- `builtinN.StorageMinerActorCodeID`. A builtin actor's code CID is the identity hash of
its name, and it is named here by that name. -/
def storageMinerActorCodeID : ActorsVersion → Cid
  | .v0 => ⟨"fil/1/storageminer"⟩
  | .v2 => ⟨"fil/2/storageminer"⟩
  | .v3 => ⟨"fil/3/storageminer"⟩
  | .v4 => ⟨"fil/4/storageminer"⟩

/-- `builtinN.StorageMarketActorCodeID`. -/
def storageMarketActorCodeID : ActorsVersion → Cid
  | .v0 => ⟨"fil/1/storagemarket"⟩
  | .v2 => ⟨"fil/2/storagemarket"⟩
  | .v3 => ⟨"fil/3/storagemarket"⟩
  | .v4 => ⟨"fil/4/storagemarket"⟩

/-- `miner3.SectorsAmtBitwidth` of specs-actors. -/
def miner3SectorsAmtBitwidth : Nat := 5

/-- `miner4.SectorsAmtBitwidth` of specs-actors. -/
def miner4SectorsAmtBitwidth : Nat := 5

/-- `SectorsAmtBitwidth`: the bitwidth of the sectors AMT of a miner with code `c`. -/
def sectorsAmtBitwidth (c : Cid) : Except String Nat :=
  if c = storageMinerActorCodeID .v0 then .ok 3
  else if c = storageMinerActorCodeID .v2 then .ok 3
  else if c = storageMinerActorCodeID .v3 then .ok miner3SectorsAmtBitwidth
  else if c = storageMinerActorCodeID .v4 then .ok miner4SectorsAmtBitwidth
  else
    let code := c.str
    .error s!"unknown actor code: {code}"

/-- The v0 and v2 miners' sectors AMTs share the bitwidth 3, and later ones have 5. -/
theorem sectorsAmtBitwidth_miner (v : ActorsVersion) :
    sectorsAmtBitwidth (storageMinerActorCodeID v) = .ok (if v.writesV3Nodes then 5 else 3) := by
  cases v <;> rfl

/-- Modelled from the spec: `adt.MapOpts`, absent from the sources: a HAMT's bitwidth and
hash function. `Equal` compares both. -/
structure MapOpts where
  bitwidth : Nat
  hashFunc : Nat
  deriving DecidableEq, Repr

/-! ## Miner states and their diff containers -/

/-- `miner.SectorOnChainInfo`, with its number and the expiration the diff compares. -/
structure SectorOnChainInfo where
  sectorNumber : Nat
  expiration : Int
  deriving DecidableEq, Repr

/-- `miner.SectorPreCommitOnChainInfo`, by the sector it precommits. -/
structure SectorPreCommitOnChainInfo where
  sectorNumber : Nat
  deriving DecidableEq, Repr

/-- `miner.SectorExtensions`: a sector before and after its expiration changed. -/
structure SectorExtensions where
  «from» : SectorOnChainInfo
  «to» : SectorOnChainInfo
  deriving DecidableEq, Repr

/-- `miner.SectorChanges`. -/
structure SectorChanges where
  added : List SectorOnChainInfo
  extended : List SectorExtensions
  removed : List SectorOnChainInfo
  deriving DecidableEq, Repr

/-- `miner.PreCommitChanges`. -/
structure PreCommitChanges where
  added : List SectorPreCommitOnChainInfo
  removed : List SectorPreCommitOnChainInfo
  deriving DecidableEq, Repr

/-- `miner.State` of one actors version: its sectors AMT, its precommits HAMT (keyed by
sector number), and its version's decoders. The containers are in the node format of the
version, and the sectors AMT has the bitwidth `SectorsAmtBitwidth` gives the version. -/
structure MinerState where
  version : ActorsVersion
  sectors : Container Nat
  precommits : Container MapOpts
  decodeSectorOnChainInfo : Bytes → Except String SectorOnChainInfo
  decodeSectorPreCommitOnChainInfo : Bytes → Except String SectorPreCommitOnChainInfo
  sectors_v3Format : sectors.v3Format = version.writesV3Nodes
  precommits_v3Format : precommits.v3Format = version.writesV3Nodes
  sectors_bitwidth : sectorsAmtBitwidth (storageMinerActorCodeID version) = .ok sectors.params

/-- `State.Code()`. -/
def MinerState.code (s : MinerState) : Cid := storageMinerActorCodeID s.version

/-- `sectorDiffContainer` of the states `pre` and `after`. -/
def sectorDiffContainer (pre after : MinerState) : DiffContainer SectorChanges where
  add r _ val := do
    let si ← after.decodeSectorOnChainInfo val
    pure { r with added := r.added ++ [si] }
  modify r _ fromVal toVal := do
    let siFrom ← pre.decodeSectorOnChainInfo fromVal
    let siTo ← after.decodeSectorOnChainInfo toVal
    if siFrom.expiration ≠ siTo.expiration then
      pure { r with extended := r.extended ++ [⟨siFrom, siTo⟩] }
    else pure r
  remove r _ val := do
    let si ← pre.decodeSectorOnChainInfo val
    pure { r with removed := r.removed ++ [si] }

/-- `preCommitDiffContainer` of the states `pre` and `after`: a modified precommit is not
recorded. -/
def preCommitDiffContainer (pre after : MinerState) : DiffContainer PreCommitChanges where
  add r _ val := do
    let sp ← after.decodeSectorPreCommitOnChainInfo val
    pure { r with added := r.added ++ [sp] }
  modify r _ _ _ := pure r
  remove r _ val := do
    let sp ← pre.decodeSectorPreCommitOnChainInfo val
    pure { r with removed := r.removed ++ [sp] }

/-! ## Strategies -/

/-- `arrayRequiresLegacyDiffing`. -/
def arrayRequiresLegacyDiffing (pre cur : MinerState) (pOpts cOpts : Nat) : Bool :=
  if pre.code = storageMarketActorCodeID .v0 then true
  else if pre.code = storageMarketActorCodeID .v2 then true
  else if cur.code = storageMarketActorCodeID .v0 then true
  else if cur.code = storageMarketActorCodeID .v2 then true
  else if pOpts ≠ cOpts then true
  else false

/-- `mapRequiresLegacyDiffing`. -/
def mapRequiresLegacyDiffing (pre cur : MinerState) (pOpts cOpts : MapOpts) : Bool :=
  if pre.code = storageMinerActorCodeID .v0 then true
  else if pre.code = storageMinerActorCodeID .v2 then true
  else if cur.code = storageMinerActorCodeID .v0 then true
  else if cur.code = storageMinerActorCodeID .v2 then true
  else if pOpts ≠ cOpts then true
  else false

/-- A miner's code is never a market's, so only the bitwidths decide the array strategy. -/
theorem arrayRequiresLegacyDiffing_eq (pre cur : MinerState) (pOpts cOpts : Nat) :
    arrayRequiresLegacyDiffing pre cur pOpts cOpts = decide (pOpts ≠ cOpts) := by
  unfold arrayRequiresLegacyDiffing MinerState.code
  cases pre.version <;> cases cur.version <;>
    simp [storageMinerActorCodeID, storageMarketActorCodeID]

/-- The map strategy is generic for a v0 or v2 miner on either side, or for other options. -/
theorem mapRequiresLegacyDiffing_eq (pre cur : MinerState) (pOpts cOpts : MapOpts) :
    mapRequiresLegacyDiffing pre cur pOpts cOpts =
      (!pre.version.writesV3Nodes || !cur.version.writesV3Nodes || decide (pOpts ≠ cOpts)) := by
  unfold mapRequiresLegacyDiffing MinerState.code
  cases pre.version <;> cases cur.version <;>
    simp [storageMinerActorCodeID, ActorsVersion.writesV3Nodes]

/-! ## The diffs -/

/-- `DiffSectors`, with `diff.Amt` as `amtDiff`. -/
def diffSectors (amtDiff : Container Nat → Container Nat → Nat → Except String (List Change))
    (pre cur : MinerState) : Except String SectorChanges := do
  let pres := pre.sectors
  let curs := cur.sectors
  let preOpts ← sectorsAmtBitwidth pre.code
  let curOpts ← sectorsAmtBitwidth cur.code
  let diffContainer := sectorDiffContainer pre cur
  if arrayRequiresLegacyDiffing pre cur preOpts curOpts then
    genericDiff diffContainer pres curs ⟨[], [], []⟩
  else do
    let changes ← amtDiff pres curs preOpts
    changes.foldlM diffContainer.apply ⟨[], [], []⟩

/-- `DiffPreCommits`, with `diff.Hamt` as `hamtDiff` and `adt.MapOptsForActorCode` as
`mapOptsForActorCode`. -/
def diffPreCommits
    (hamtDiff : Container MapOpts → Container MapOpts → MapOpts → Except String (List Change))
    (mapOptsForActorCode : Cid → Except String MapOpts) (pre cur : MinerState) :
    Except String PreCommitChanges := do
  let prep := pre.precommits
  let curp := cur.precommits
  let preOpts ← mapOptsForActorCode pre.code
  let curOpts ← mapOptsForActorCode cur.code
  let diffContainer := preCommitDiffContainer pre cur
  if mapRequiresLegacyDiffing pre cur preOpts curOpts then
    genericDiff diffContainer prep curp ⟨[], []⟩
  else do
    let changes ← hamtDiff prep curp preOpts
    changes.foldlM diffContainer.apply ⟨[], []⟩

/-! ## Results up to order -/

/-- Two sector results with the same lists up to order. -/
def SectorChanges.Equiv (r r' : SectorChanges) : Prop :=
  r.added.Perm r'.added ∧ r.extended.Perm r'.extended ∧ r.removed.Perm r'.removed

/-- Two precommit results with the same lists up to order. -/
def PreCommitChanges.Equiv (r r' : PreCommitChanges) : Prop :=
  r.added.Perm r'.added ∧ r.removed.Perm r'.removed

/-- Results appended field by field. -/
def SectorChanges.append (r r' : SectorChanges) : SectorChanges :=
  ⟨r.added ++ r'.added, r.extended ++ r'.extended, r.removed ++ r'.removed⟩

/-- Results appended field by field. -/
def PreCommitChanges.append (r r' : PreCommitChanges) : PreCommitChanges :=
  ⟨r.added ++ r'.added, r.removed ++ r'.removed⟩

/-- What the sector container records for one change. -/
def sectorDelta (pre after : MinerState) : Change → Except String SectorChanges
  | .add _ val => do
    let si ← after.decodeSectorOnChainInfo val
    pure ⟨[si], [], []⟩
  | .modify _ fromVal toVal => do
    let siFrom ← pre.decodeSectorOnChainInfo fromVal
    let siTo ← after.decodeSectorOnChainInfo toVal
    pure ⟨[], if siFrom.expiration ≠ siTo.expiration then [⟨siFrom, siTo⟩] else [], []⟩
  | .remove _ val => do
    let si ← pre.decodeSectorOnChainInfo val
    pure ⟨[], [], [si]⟩

/-- What the precommit container records for one change. -/
def preCommitDelta (pre after : MinerState) : Change → Except String PreCommitChanges
  | .add _ val => do
    let sp ← after.decodeSectorPreCommitOnChainInfo val
    pure ⟨[sp], []⟩
  | .modify _ _ _ => pure ⟨[], []⟩
  | .remove _ val => do
    let sp ← pre.decodeSectorPreCommitOnChainInfo val
    pure ⟨[], [sp]⟩

theorem sectorDiffContainer_apply (pre after : MinerState) (r : SectorChanges) (c : Change) :
    (sectorDiffContainer pre after).apply r c = r.append <$> sectorDelta pre after c := by
  cases c with
  | add _ val =>
    simp only [DiffContainer.apply, sectorDiffContainer, sectorDelta]
    cases after.decodeSectorOnChainInfo val <;> simp [SectorChanges.append]
  | remove _ val =>
    simp only [DiffContainer.apply, sectorDiffContainer, sectorDelta]
    cases pre.decodeSectorOnChainInfo val <;> simp [SectorChanges.append]
  | modify _ fromVal toVal =>
    simp only [DiffContainer.apply, sectorDiffContainer, sectorDelta]
    cases pre.decodeSectorOnChainInfo fromVal <;> cases after.decodeSectorOnChainInfo toVal <;>
      simp only [except_ok_bind, except_error_bind, except_map_ok, except_map_error, except_pure]
    split_ifs <;> simp [SectorChanges.append]

theorem preCommitDiffContainer_apply (pre after : MinerState) (r : PreCommitChanges) (c : Change) :
    (preCommitDiffContainer pre after).apply r c = r.append <$> preCommitDelta pre after c := by
  cases c with
  | add _ val =>
    simp only [DiffContainer.apply, preCommitDiffContainer, preCommitDelta]
    cases after.decodeSectorPreCommitOnChainInfo val <;> simp [PreCommitChanges.append]
  | remove _ val =>
    simp only [DiffContainer.apply, preCommitDiffContainer, preCommitDelta]
    cases pre.decodeSectorPreCommitOnChainInfo val <;> simp [PreCommitChanges.append]
  | modify =>
    simp [DiffContainer.apply, preCommitDiffContainer, preCommitDelta, PreCommitChanges.append]

theorem foldl_sectorChanges_append :
    ∀ (ds : List SectorChanges) (r : SectorChanges), ds.foldl SectorChanges.append r =
      ⟨r.added ++ ds.flatMap (·.added), r.extended ++ ds.flatMap (·.extended),
        r.removed ++ ds.flatMap (·.removed)⟩
  | [], _ => by simp
  | d :: ds, r => by simp [foldl_sectorChanges_append ds, SectorChanges.append]

theorem foldl_preCommitChanges_append :
    ∀ (ds : List PreCommitChanges) (r : PreCommitChanges), ds.foldl PreCommitChanges.append r =
      ⟨r.added ++ ds.flatMap (·.added), r.removed ++ ds.flatMap (·.removed)⟩
  | [], _ => by simp
  | d :: ds, r => by simp [foldl_preCommitChanges_append ds, PreCommitChanges.append]

/-- The sector container's results depend on the multiset of changes only. -/
theorem foldlM_sectorDiffContainer_perm (pre cur : MinerState) {l l' : List Change}
    (hp : l.Perm l') {r : SectorChanges}
    (h : l.foldlM (sectorDiffContainer pre cur).apply ⟨[], [], []⟩ = .ok r) :
    ∃ r', l'.foldlM (sectorDiffContainer pre cur).apply ⟨[], [], []⟩ = .ok r' ∧ r'.Equiv r := by
  obtain ⟨ds, ds', hperm, rfl, h'⟩ :=
    foldlM_apply_perm _ _ _ (sectorDiffContainer_apply pre cur) hp h
  refine ⟨_, h', ?_⟩
  simp only [foldl_sectorChanges_append, List.nil_append, SectorChanges.Equiv]
  exact ⟨(hperm.flatMap_right _).symm, (hperm.flatMap_right _).symm, (hperm.flatMap_right _).symm⟩

/-- The precommit container's results depend on the multiset of changes only. -/
theorem foldlM_preCommitDiffContainer_perm (pre cur : MinerState) {l l' : List Change}
    (hp : l.Perm l') {r : PreCommitChanges}
    (h : l.foldlM (preCommitDiffContainer pre cur).apply ⟨[], []⟩ = .ok r) :
    ∃ r', l'.foldlM (preCommitDiffContainer pre cur).apply ⟨[], []⟩ = .ok r' ∧ r'.Equiv r := by
  obtain ⟨ds, ds', hperm, rfl, h'⟩ :=
    foldlM_apply_perm _ _ _ (preCommitDiffContainer_apply pre cur) hp h
  refine ⟨_, h', ?_⟩
  simp only [foldl_preCommitChanges_append, List.nil_append, PreCommitChanges.Equiv]
  exact ⟨(hperm.flatMap_right _).symm, (hperm.flatMap_right _).symm⟩

theorem SectorChanges.Equiv.refl (r : SectorChanges) : r.Equiv r :=
  ⟨.refl _, .refl _, .refl _⟩

theorem PreCommitChanges.Equiv.refl (r : PreCommitChanges) : r.Equiv r :=
  ⟨.refl _, .refl _⟩

/-! ## What the containers record -/

/-- A modified sector, decoded before with `pre`'s decoder and after with `cur`'s. -/
def decodeExtension (pre cur : MinerState) (p : Bytes × Bytes) :
    Except String SectorExtensions := do
  let siFrom ← pre.decodeSectorOnChainInfo p.1
  let siTo ← cur.decodeSectorOnChainInfo p.2
  pure ⟨siFrom, siTo⟩

/-- What the sector container is for, given the values a diff adds, removes and modifies:
the added sectors decoded with `cur`'s decoder, the removed ones with `pre`'s, and the
modified pairs decoded on both sides, kept when the expiration changed. -/
def decodeSectorChanges (pre cur : MinerState) (addedVals removedVals : List Bytes)
    (modifiedVals : List (Bytes × Bytes)) : Except String SectorChanges := do
  let added ← addedVals.mapM cur.decodeSectorOnChainInfo
  let removed ← removedVals.mapM pre.decodeSectorOnChainInfo
  let pairs ← modifiedVals.mapM (decodeExtension pre cur)
  pure ⟨added, pairs.filter fun x => x.from.expiration ≠ x.to.expiration, removed⟩

/-- What the precommit container is for: the added precommits decoded with `cur`'s decoder,
the removed ones with `pre`'s. -/
def decodePreCommitChanges (pre cur : MinerState) (addedVals removedVals : List Bytes) :
    Except String PreCommitChanges := do
  let added ← addedVals.mapM cur.decodeSectorPreCommitOnChainInfo
  let removed ← removedVals.mapM pre.decodeSectorPreCommitOnChainInfo
  pure ⟨added, removed⟩

theorem mapM_sectorDelta (pre cur : MinerState) :
    ∀ {l : List Change} {ds : List SectorChanges}, l.mapM (sectorDelta pre cur) = .ok ds →
      (l.filterMap Change.added?).mapM cur.decodeSectorOnChainInfo = .ok (ds.flatMap (·.added)) ∧
      (l.filterMap Change.removed?).mapM pre.decodeSectorOnChainInfo =
        .ok (ds.flatMap (·.removed)) ∧
      ∃ pairs, (l.filterMap Change.modified?).mapM (decodeExtension pre cur) = .ok pairs ∧
        ds.flatMap (·.extended) = pairs.filter fun x => x.from.expiration ≠ x.to.expiration
  | [], ds, h => by
    cases h
    exact ⟨rfl, rfl, [], rfl, rfl⟩
  | c :: l, ds, h => by
    simp only [List.mapM_cons, except_bind_eq_ok, except_pure_eq_ok] at h
    obtain ⟨d, hd, ds', hds', rfl⟩ := h
    obtain ⟨ha, hr, pairs, hp, he⟩ := mapM_sectorDelta pre cur hds'
    cases c with
    | add k v =>
      simp only [sectorDelta, except_bind_eq_ok, except_pure_eq_ok] at hd
      obtain ⟨si, hsi, rfl⟩ := hd
      refine ⟨?_, by simpa [Change.removed?] using hr, pairs, by simpa [Change.modified?] using hp,
        by simpa using he⟩
      simp only [List.filterMap_cons, Change.added?, List.mapM_cons, hsi, ha, except_ok_bind,
        except_pure, List.flatMap_cons, List.singleton_append]
    | remove k v =>
      simp only [sectorDelta, except_bind_eq_ok, except_pure_eq_ok] at hd
      obtain ⟨si, hsi, rfl⟩ := hd
      refine ⟨by simpa [Change.added?] using ha, ?_, pairs, by simpa [Change.modified?] using hp,
        by simpa using he⟩
      simp only [List.filterMap_cons, Change.removed?, List.mapM_cons, hsi, hr, except_ok_bind,
        except_pure, List.flatMap_cons, List.singleton_append]
    | modify k b a =>
      simp only [sectorDelta, except_bind_eq_ok, except_pure_eq_ok] at hd
      obtain ⟨siFrom, hf, siTo, ht, rfl⟩ := hd
      refine ⟨by simpa [Change.added?] using ha, by simpa [Change.removed?] using hr,
        ⟨siFrom, siTo⟩ :: pairs, ?_, ?_⟩
      · simp only [List.filterMap_cons, Change.modified?, List.mapM_cons, decodeExtension, hf, ht,
          hp, except_ok_bind, except_pure]
      · by_cases hx : siFrom.expiration = siTo.expiration <;> simp [hx, he, List.filter_cons]

theorem mapM_sectorDelta_of (pre cur : MinerState) :
    ∀ {l : List Change} {added removed : List SectorOnChainInfo} {pairs : List SectorExtensions},
      (l.filterMap Change.added?).mapM cur.decodeSectorOnChainInfo = .ok added →
      (l.filterMap Change.removed?).mapM pre.decodeSectorOnChainInfo = .ok removed →
      (l.filterMap Change.modified?).mapM (decodeExtension pre cur) = .ok pairs →
      ∃ ds, l.mapM (sectorDelta pre cur) = .ok ds
  | [], _, _, _, _, _, _ => ⟨[], rfl⟩
  | c :: l, added, removed, pairs, ha, hr, hp => by
    cases c <;> simp only [List.filterMap_cons, Change.added?, Change.removed?, Change.modified?,
      List.mapM_cons, except_bind_eq_ok, except_pure_eq_ok, decodeExtension] at ha hr hp
    case add k v =>
      obtain ⟨si, hsi, added', ha', rfl⟩ := ha
      obtain ⟨ds, hds⟩ := mapM_sectorDelta_of pre cur ha' hr hp
      exact ⟨_, by simp only [List.mapM_cons, sectorDelta, hsi, hds, except_ok_bind]; rfl⟩
    case remove k v =>
      obtain ⟨si, hsi, removed', hr', rfl⟩ := hr
      obtain ⟨ds, hds⟩ := mapM_sectorDelta_of pre cur ha hr' hp
      exact ⟨_, by simp only [List.mapM_cons, sectorDelta, hsi, hds, except_ok_bind]; rfl⟩
    case modify k b a =>
      obtain ⟨_, ⟨siFrom, hf, siTo, ht, rfl⟩, pairs', hp', rfl⟩ := hp
      obtain ⟨ds, hds⟩ := mapM_sectorDelta_of pre cur ha hr hp'
      exact ⟨_, by simp only [List.mapM_cons, sectorDelta, hf, ht, hds, except_ok_bind]; rfl⟩

/-- The sector container, run over any list of changes, returns what `decodeSectorChanges`
makes of the values the changes add, remove and modify. -/
theorem foldlM_sectorDiffContainer (pre cur : MinerState) (l : List Change) (r : SectorChanges) :
    l.foldlM (sectorDiffContainer pre cur).apply ⟨[], [], []⟩ = .ok r ↔
      decodeSectorChanges pre cur (l.filterMap Change.added?) (l.filterMap Change.removed?)
        (l.filterMap Change.modified?) = .ok r := by
  rw [foldlM_apply_eq_ok _ _ _ (sectorDiffContainer_apply pre cur)]
  constructor
  · rintro ⟨ds, hds, rfl⟩
    obtain ⟨ha, hr, pairs, hp, he⟩ := mapM_sectorDelta pre cur hds
    simp only [decodeSectorChanges, ha, hr, hp, except_ok_bind, except_pure,
      foldl_sectorChanges_append, List.nil_append, he]
  · intro h
    simp only [decodeSectorChanges, except_bind_eq_ok, except_pure_eq_ok] at h
    obtain ⟨added, ha, removed, hr, pairs, hp, rfl⟩ := h
    obtain ⟨ds, hds⟩ := mapM_sectorDelta_of pre cur ha hr hp
    obtain ⟨ha', hr', pairs', hp', he⟩ := mapM_sectorDelta pre cur hds
    obtain rfl := Except.ok.inj (ha.symm.trans ha')
    obtain rfl := Except.ok.inj (hr.symm.trans hr')
    obtain rfl := Except.ok.inj (hp.symm.trans hp')
    exact ⟨ds, hds, by simp [foldl_sectorChanges_append, he]⟩

theorem mapM_preCommitDelta (pre cur : MinerState) :
    ∀ {l : List Change} {ds : List PreCommitChanges}, l.mapM (preCommitDelta pre cur) = .ok ds →
      (l.filterMap Change.added?).mapM cur.decodeSectorPreCommitOnChainInfo =
        .ok (ds.flatMap (·.added)) ∧
      (l.filterMap Change.removed?).mapM pre.decodeSectorPreCommitOnChainInfo =
        .ok (ds.flatMap (·.removed))
  | [], ds, h => by
    cases h
    exact ⟨rfl, rfl⟩
  | c :: l, ds, h => by
    simp only [List.mapM_cons, except_bind_eq_ok, except_pure_eq_ok] at h
    obtain ⟨d, hd, ds', hds', rfl⟩ := h
    obtain ⟨ha, hr⟩ := mapM_preCommitDelta pre cur hds'
    cases c with
    | add k v =>
      simp only [preCommitDelta, except_bind_eq_ok, except_pure_eq_ok] at hd
      obtain ⟨sp, hsp, rfl⟩ := hd
      refine ⟨?_, by simpa [Change.removed?] using hr⟩
      simp only [List.filterMap_cons, Change.added?, List.mapM_cons, hsp, ha, except_ok_bind,
        except_pure, List.flatMap_cons, List.singleton_append]
    | remove k v =>
      simp only [preCommitDelta, except_bind_eq_ok, except_pure_eq_ok] at hd
      obtain ⟨sp, hsp, rfl⟩ := hd
      refine ⟨by simpa [Change.added?] using ha, ?_⟩
      simp only [List.filterMap_cons, Change.removed?, List.mapM_cons, hsp, hr, except_ok_bind,
        except_pure, List.flatMap_cons, List.singleton_append]
    | modify k b a =>
      cases hd
      exact ⟨by simpa [Change.added?] using ha, by simpa [Change.removed?] using hr⟩

theorem mapM_preCommitDelta_of (pre cur : MinerState) :
    ∀ {l : List Change} {added removed : List SectorPreCommitOnChainInfo},
      (l.filterMap Change.added?).mapM cur.decodeSectorPreCommitOnChainInfo = .ok added →
      (l.filterMap Change.removed?).mapM pre.decodeSectorPreCommitOnChainInfo = .ok removed →
      ∃ ds, l.mapM (preCommitDelta pre cur) = .ok ds
  | [], _, _, _, _ => ⟨[], rfl⟩
  | c :: l, added, removed, ha, hr => by
    cases c <;> simp only [List.filterMap_cons, Change.added?, Change.removed?, List.mapM_cons,
      except_bind_eq_ok, except_pure_eq_ok] at ha hr
    case add k v =>
      obtain ⟨sp, hsp, added', ha', rfl⟩ := ha
      obtain ⟨ds, hds⟩ := mapM_preCommitDelta_of pre cur ha' hr
      exact ⟨_, by simp only [List.mapM_cons, preCommitDelta, hsp, hds, except_ok_bind]; rfl⟩
    case remove k v =>
      obtain ⟨sp, hsp, removed', hr', rfl⟩ := hr
      obtain ⟨ds, hds⟩ := mapM_preCommitDelta_of pre cur ha hr'
      exact ⟨_, by simp only [List.mapM_cons, preCommitDelta, hsp, hds, except_ok_bind]; rfl⟩
    case modify k b a =>
      obtain ⟨ds, hds⟩ := mapM_preCommitDelta_of pre cur ha hr
      exact ⟨_, by simp only [List.mapM_cons, preCommitDelta, hds, except_ok_bind]; rfl⟩

/-- The precommit container, run over any list of changes, returns what
`decodePreCommitChanges` makes of the values the changes add and remove. -/
theorem foldlM_preCommitDiffContainer (pre cur : MinerState) (l : List Change)
    (r : PreCommitChanges) :
    l.foldlM (preCommitDiffContainer pre cur).apply ⟨[], []⟩ = .ok r ↔
      decodePreCommitChanges pre cur (l.filterMap Change.added?)
        (l.filterMap Change.removed?) = .ok r := by
  rw [foldlM_apply_eq_ok _ _ _ (preCommitDiffContainer_apply pre cur)]
  constructor
  · rintro ⟨ds, hds, rfl⟩
    obtain ⟨ha, hr⟩ := mapM_preCommitDelta pre cur hds
    simp only [decodePreCommitChanges, ha, hr, except_ok_bind, except_pure,
      foldl_preCommitChanges_append, List.nil_append]
  · intro h
    simp only [decodePreCommitChanges, except_bind_eq_ok, except_pure_eq_ok] at h
    obtain ⟨added, ha, removed, hr, rfl⟩ := h
    obtain ⟨ds, hds⟩ := mapM_preCommitDelta_of pre cur ha hr
    obtain ⟨ha', hr'⟩ := mapM_preCommitDelta pre cur hds
    obtain rfl := Except.ok.inj (ha.symm.trans ha')
    obtain rfl := Except.ok.inj (hr.symm.trans hr')
    exact ⟨ds, hds, by simp [foldl_preCommitChanges_append]⟩

/-- The generic diff of two miners' sectors, for every pair of miner states: it returns
exactly the sectors only in the new state (decoded with its decoder) as added, those only in
the old state (decoded with the old decoder) as removed, and the sectors in both whose bytes
differ and whose expiration changed as extended, in the old state's order. -/
theorem genericDiff_sectorChanges (pre cur : MinerState) (r : SectorChanges) :
    genericDiff (sectorDiffContainer pre cur) pre.sectors cur.sectors ⟨[], [], []⟩ = .ok r ↔
      decodeSectorChanges pre cur (addedValues pre.sectors cur.sectors)
        (removedValues pre.sectors cur.sectors) (modifiedValues pre.sectors cur.sectors) =
        .ok r := by
  rw [genericDiff_eq, foldlM_sectorDiffContainer, filterMap_added?_keyChanges,
    filterMap_removed?_keyChanges, filterMap_modified?_keyChanges]

/-- The generic diff of two miners' precommits, for every pair of miner states: it returns
exactly the precommits only in the new state as added and those only in the old state as
removed, each decoded with its own state's decoder; a modified precommit is not reported. -/
theorem genericDiff_preCommitChanges (pre cur : MinerState) (r : PreCommitChanges) :
    genericDiff (preCommitDiffContainer pre cur) pre.precommits cur.precommits ⟨[], []⟩ =
        .ok r ↔
      decodePreCommitChanges pre cur (addedValues pre.precommits cur.precommits)
        (removedValues pre.precommits cur.precommits) = .ok r := by
  rw [genericDiff_eq, foldlM_preCommitDiffContainer, filterMap_added?_keyChanges,
    filterMap_removed?_keyChanges]

/-! ## The strategies at work -/

/-- A miner's sectors AMT has the bitwidth 5 from actors v3 on, 3 before. -/
theorem MinerState.sectors_params (s : MinerState) :
    s.sectors.params = if s.version.writesV3Nodes then 5 else 3 := by
  have h := s.sectors_bitwidth
  rw [sectorsAmtBitwidth_miner] at h
  exact (Except.ok.inj h).symm

/-- `DiffSectors` on miner states: the generic diff for bitwidths that differ, the
structural one otherwise. -/
theorem diffSectors_eq
    (amtDiff : Container Nat → Container Nat → Nat → Except String (List Change))
    (pre cur : MinerState) :
    diffSectors amtDiff pre cur =
      if pre.sectors.params ≠ cur.sectors.params then
        genericDiff (sectorDiffContainer pre cur) pre.sectors cur.sectors ⟨[], [], []⟩
      else amtDiff pre.sectors cur.sectors pre.sectors.params >>= fun changes =>
        changes.foldlM (sectorDiffContainer pre cur).apply ⟨[], [], []⟩ := by
  simp only [diffSectors, MinerState.code, pre.sectors_bitwidth, cur.sectors_bitwidth,
    except_ok_bind, arrayRequiresLegacyDiffing_eq, decide_eq_true_eq]

/-- `DiffPreCommits` on miner states whose options `MapOptsForActorCode` gives: the
generic diff for a v0 or v2 miner or for other options, the structural one otherwise. -/
theorem diffPreCommits_eq
    (hamtDiff : Container MapOpts → Container MapOpts → MapOpts → Except String (List Change))
    {mapOptsForActorCode : Cid → Except String MapOpts} {pre cur : MinerState}
    (hpre : mapOptsForActorCode pre.code = .ok pre.precommits.params)
    (hcur : mapOptsForActorCode cur.code = .ok cur.precommits.params) :
    diffPreCommits hamtDiff mapOptsForActorCode pre cur =
      if (!pre.version.writesV3Nodes || !cur.version.writesV3Nodes ||
          decide (pre.precommits.params ≠ cur.precommits.params)) = true then
        genericDiff (preCommitDiffContainer pre cur) pre.precommits cur.precommits ⟨[], []⟩
      else hamtDiff pre.precommits cur.precommits pre.precommits.params >>= fun changes =>
        changes.foldlM (preCommitDiffContainer pre cur).apply ⟨[], []⟩ := by
  simp only [diffPreCommits, hpre, hcur, except_ok_bind, mapRequiresLegacyDiffing_eq]

/-- Two miners from before actors v3 share a bitwidth, so `DiffSectors` hands their
amt/v2 nodes to the structural diff, and fails. -/
theorem diffSectors_fails_of_legacy
    {amtDiff : Container Nat → Container Nat → Nat → Except String (List Change)}
    (hspec : StructuralDiffSpec amtDiff) {pre cur : MinerState}
    (hpre : pre.version.writesV3Nodes = false) (hcur : cur.version.writesV3Nodes = false) :
    ∃ e, diffSectors amtDiff pre cur = .error e := by
  have hp : pre.sectors.params = 3 := by simp [pre.sectors_params, hpre]
  have hc : cur.sectors.params = 3 := by simp [cur.sectors_params, hcur]
  obtain ⟨e, he⟩ := (hspec pre.sectors cur.sectors 3).2 (by simp [pre.sectors_v3Format, hpre])
  exact ⟨e, by rw [diffSectors_eq, if_neg (by rw [hp, hc]; exact not_not.2 rfl), hp, he]; rfl⟩

/-- On every other pair of miners `DiffSectors` returns, as multisets, what the generic
diff returns. -/
theorem diffSectors_equiv_generic
    {amtDiff : Container Nat → Container Nat → Nat → Except String (List Change)}
    (hspec : StructuralDiffSpec amtDiff) {pre cur : MinerState}
    (hnew : (pre.version.writesV3Nodes || cur.version.writesV3Nodes) = true) {r : SectorChanges}
    (h : genericDiff (sectorDiffContainer pre cur) pre.sectors cur.sectors ⟨[], [], []⟩ = .ok r) :
    ∃ r', diffSectors amtDiff pre cur = .ok r' ∧ r'.Equiv r := by
  rw [diffSectors_eq]
  split_ifs with hne
  · exact ⟨r, h, .refl r⟩
  · -- the same bitwidth on both sides: both miners write v3 nodes
    have hboth : pre.version.writesV3Nodes = true ∧ cur.version.writesV3Nodes = true := by
      have hp := pre.sectors_params
      have hc := cur.sectors_params
      cases hvp : pre.version.writesV3Nodes <;> cases hvc : cur.version.writesV3Nodes <;> simp_all
    obtain ⟨l, hl, hperm⟩ := (hspec pre.sectors cur.sectors pre.sectors.params).1
      ⟨by rw [pre.sectors_v3Format, hboth.1], by rw [cur.sectors_v3Format, hboth.2], rfl,
        (not_not.1 hne).symm⟩
    rw [genericDiff_eq] at h
    rw [hl, except_ok_bind]
    exact foldlM_sectorDiffContainer_perm pre cur hperm.symm h

/-- What `DiffSectors` returns for each pair of miners: the generic diff's result, as
multisets, unless both miners are from before actors v3; then an error. -/
theorem diffSectors_spec
    {amtDiff : Container Nat → Container Nat → Nat → Except String (List Change)}
    (hspec : StructuralDiffSpec amtDiff) (pre cur : MinerState) :
    ((pre.version.writesV3Nodes || cur.version.writesV3Nodes) = true →
      ∀ r, genericDiff (sectorDiffContainer pre cur) pre.sectors cur.sectors ⟨[], [], []⟩ = .ok r →
        ∃ r', diffSectors amtDiff pre cur = .ok r' ∧ r'.Equiv r) ∧
    (pre.version.writesV3Nodes = false → cur.version.writesV3Nodes = false →
      ∃ e, diffSectors amtDiff pre cur = .error e) :=
  ⟨fun hnew _ h => diffSectors_equiv_generic hspec hnew h,
    fun hpre hcur => diffSectors_fails_of_legacy hspec hpre hcur⟩

/-- A v3 miner and its v4 successor, with the structural diff of `StructuralDiffSpec`. -/
theorem diffSectors_spec_v3_v4 :
    let decode : Bytes → Except String SectorOnChainInfo :=
      fun b => .ok ⟨(b.getD 0 0).toNat, (b.getD 1 0).toNat⟩
    let miner (v : ActorsVersion) (hv : v.writesV3Nodes = true) (sectors : List (Nat × Bytes))
        (h : (sectors.map Prod.fst).Nodup) : MinerState :=
      ⟨v, ⟨sectors, h, true, 5⟩, ⟨[], List.nodup_nil, true, ⟨5, 18⟩⟩, decode,
        fun b => .ok ⟨(b.getD 0 0).toNat⟩, hv.symm, hv.symm,
        by rw [sectorsAmtBitwidth_miner, hv]; rfl⟩
    let pre := miner .v3 rfl [(42, [42, 90]), (43, [43, 90])] (by decide)
    let cur := miner .v4 rfl [(42, [42, 95]), (77, [77, 100])] (by decide)
    StructuralDiffSpec (@structuralDiffOf Nat _) ∧
      ((pre.version.writesV3Nodes || cur.version.writesV3Nodes) = true →
        ∀ r, genericDiff (sectorDiffContainer pre cur) pre.sectors cur.sectors ⟨[], [], []⟩ =
          .ok r →
          ∃ r', diffSectors structuralDiffOf pre cur = .ok r' ∧ r'.Equiv r) ∧
      (pre.version.writesV3Nodes = false → cur.version.writesV3Nodes = false →
        ∃ e, diffSectors structuralDiffOf pre cur = .error e) := by
  intro decode miner pre cur
  exact ⟨structuralDiffSpec_structuralDiffOf,
    diffSectors_spec structuralDiffSpec_structuralDiffOf pre cur⟩

/-- Two v2 miners, the first with sector 42 and the second with sector 77: the generic diff
reports 77 added and 42 removed, but `DiffSectors` picks the structural diff, which
cannot read their amt/v2 nodes, and fails. -/
theorem diffSectors_v2_miners
    (amtDiff : Container Nat → Container Nat → Nat → Except String (List Change))
    (hspec : StructuralDiffSpec amtDiff) :
    let decode : Bytes → Except String SectorOnChainInfo :=
      fun b => .ok ⟨(b.getD 0 0).toNat, (b.getD 1 0).toNat⟩
    let v2Miner (sectors : List (Nat × Bytes)) (h : (sectors.map Prod.fst).Nodup) : MinerState :=
      ⟨.v2, ⟨sectors, h, false, 3⟩, ⟨[], List.nodup_nil, false, ⟨5, 18⟩⟩, decode,
        fun b => .ok ⟨(b.getD 0 0).toNat⟩, rfl, rfl, rfl⟩
    let pre := v2Miner [(42, [42, 90])] (by decide)
    let cur := v2Miner [(77, [77, 100])] (by decide)
    genericDiff (sectorDiffContainer pre cur) pre.sectors cur.sectors ⟨[], [], []⟩ =
        .ok ⟨[⟨77, 100⟩], [], [⟨42, 90⟩]⟩ ∧
      ∃ e, diffSectors amtDiff pre cur = .error e := by
  intro decode v2Miner pre cur
  exact ⟨rfl, diffSectors_fails_of_legacy hspec rfl rfl⟩

/-- The failing input with the structural diff of `StructuralDiffSpec`. -/
theorem diffSectors_v2_miners_structuralDiffOf :
    let decode : Bytes → Except String SectorOnChainInfo :=
      fun b => .ok ⟨(b.getD 0 0).toNat, (b.getD 1 0).toNat⟩
    let v2Miner (sectors : List (Nat × Bytes)) (h : (sectors.map Prod.fst).Nodup) : MinerState :=
      ⟨.v2, ⟨sectors, h, false, 3⟩, ⟨[], List.nodup_nil, false, ⟨5, 18⟩⟩, decode,
        fun b => .ok ⟨(b.getD 0 0).toNat⟩, rfl, rfl, rfl⟩
    let pre := v2Miner [(42, [42, 90])] (by decide)
    let cur := v2Miner [(77, [77, 100])] (by decide)
    StructuralDiffSpec (@structuralDiffOf Nat _) ∧
      genericDiff (sectorDiffContainer pre cur) pre.sectors cur.sectors ⟨[], [], []⟩ =
        .ok ⟨[⟨77, 100⟩], [], [⟨42, 90⟩]⟩ ∧
      ∃ e, diffSectors structuralDiffOf pre cur = .error e := by
  intro decode v2Miner pre cur
  exact ⟨structuralDiffSpec_structuralDiffOf,
    diffSectors_v2_miners _ structuralDiffSpec_structuralDiffOf⟩

/-- For every pair of miners, `DiffPreCommits` returns, as multisets, what the generic diff
returns; for a miner from before actors v3 or options that differ, it takes the generic
path and returns exactly that. -/
theorem diffPreCommits_equiv_generic
    {hamtDiff : Container MapOpts → Container MapOpts → MapOpts → Except String (List Change)}
    (hspec : StructuralDiffSpec hamtDiff) {mapOptsForActorCode : Cid → Except String MapOpts}
    {pre cur : MinerState} (hpre : mapOptsForActorCode pre.code = .ok pre.precommits.params)
    (hcur : mapOptsForActorCode cur.code = .ok cur.precommits.params) {r : PreCommitChanges}
    (h : genericDiff (preCommitDiffContainer pre cur) pre.precommits cur.precommits ⟨[], []⟩ =
      .ok r) :
    (∃ r', diffPreCommits hamtDiff mapOptsForActorCode pre cur = .ok r' ∧ r'.Equiv r) ∧
      (pre.version.writesV3Nodes = false ∨ cur.version.writesV3Nodes = false ∨
          pre.precommits.params ≠ cur.precommits.params →
        diffPreCommits hamtDiff mapOptsForActorCode pre cur = .ok r) := by
  rw [diffPreCommits_eq hamtDiff hpre hcur]
  split_ifs with hlegacy
  · exact ⟨⟨r, h, .refl r⟩, fun _ => h⟩
  · simp only [Bool.or_eq_true, Bool.not_eq_true', decide_eq_true_eq, not_or, not_not,
      Bool.not_eq_false] at hlegacy
    obtain ⟨⟨hp, hc⟩, hopts⟩ := hlegacy
    refine ⟨?_, fun hv => absurd hv (by simp [hp, hc, hopts])⟩
    obtain ⟨l, hl, hperm⟩ := (hspec pre.precommits cur.precommits pre.precommits.params).1
      ⟨by rw [pre.precommits_v3Format, hp], by rw [cur.precommits_v3Format, hc], rfl, hopts.symm⟩
    rw [genericDiff_eq] at h
    rw [hl, except_ok_bind]
    exact foldlM_preCommitDiffContainer_perm pre cur hperm.symm h

/-- Precommits of a v2 miner and of its v3 successor, with options from a table of codes
and the structural diff of `StructuralDiffSpec`. -/
theorem diffPreCommits_equiv_generic_v2_v3 :
    let opts : MapOpts := ⟨5, 18⟩
    let mapOptsForActorCode : Cid → Except String MapOpts := fun _ => .ok opts
    let miner (v : ActorsVersion) (precommits : List (Nat × Bytes))
        (h : (precommits.map Prod.fst).Nodup) : MinerState :=
      ⟨v, ⟨[], List.nodup_nil, v.writesV3Nodes, if v.writesV3Nodes then 5 else 3⟩,
        ⟨precommits, h, v.writesV3Nodes, opts⟩, fun _ => .error "no sectors",
        fun b => .ok ⟨(b.getD 0 0).toNat⟩, rfl, rfl, sectorsAmtBitwidth_miner v⟩
    let pre := miner .v2 [(42, [42]), (43, [43])] (by decide)
    let cur := miner .v3 [(43, [43]), (77, [77])] (by decide)
    let r : PreCommitChanges := ⟨[⟨77⟩], [⟨42⟩]⟩
    StructuralDiffSpec (@structuralDiffOf MapOpts _) ∧
      genericDiff (preCommitDiffContainer pre cur) pre.precommits cur.precommits ⟨[], []⟩ =
        .ok r ∧
      (∃ r', diffPreCommits structuralDiffOf mapOptsForActorCode pre cur = .ok r' ∧
          r'.Equiv r) ∧
        (pre.version.writesV3Nodes = false ∨ cur.version.writesV3Nodes = false ∨
            pre.precommits.params ≠ cur.precommits.params →
          diffPreCommits structuralDiffOf mapOptsForActorCode pre cur = .ok r) := by
  intro opts mapOptsForActorCode miner pre cur r
  exact ⟨structuralDiffSpec_structuralDiffOf, rfl,
    diffPreCommits_equiv_generic structuralDiffSpec_structuralDiffOf rfl rfl rfl⟩

end SentinelVisor
