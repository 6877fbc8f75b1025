import SentinelVisor.Except
import Mathlib.Data.List.Nodup

/-!
# Diffing actor-state containers

An actor's state keeps its collections in AMTs (arrays) and HAMTs (maps). A diff of two
versions of a container reports its key-level changes to a diff container: an added, a
removed, or a modified value. There are two strategies. The generic one (`diff.GenericArray`,
`diff.GenericMap`) reads both containers entry by entry. The structural one (`diff.Amt`,
`diff.Hamt`) walks the two trees together, and it can read only nodes in the v3 format.

A container is known by its entries, with the node format and the parameters it was written
with (`Container`). The generic diff is not in the sources. It is modelled from the spec as
lotus's `DiffAdtArray`: removals and modifications in the old container's order, then
additions in the new one's. `genericDiff_eq` shows that it hands the container exactly
`keyChanges`, whose added, removed and modified values are those of the keys only in the
new container, only in the old one, and in both with other bytes (`addedValues`,
`removedValues`, `modifiedValues`). The structural diff is a parameter.
`StructuralDiffSpec` says what the miner diff assumes of it: it returns `keyChanges` in
some order, or fails on a container it cannot read.

A diff container appends, for each change, what it decodes from that change.
`foldlM_apply_eq_ok` gives the closed form of a run of such a container over a list of
changes, and `foldlM_apply_perm` that a permutation of the changes permutes the appended
parts.
-/

namespace SentinelVisor

/-- The raw bytes of a container value (`cbg.Deferred`). -/
abbrev Bytes := List UInt8

/-- An AMT or a HAMT of an actor's state: its entries by key in iteration order, whether it
was written in the v3 node format, and its parameters (an AMT's bitwidth, a HAMT's
options). A key appears once. -/
structure Container (π : Type) where
  entries : List (Nat × Bytes)
  keys_nodup : (entries.map Prod.fst).Nodup
  v3Format : Bool
  params : π

namespace Container

variable {π : Type}

/-- The value at a key (`Get`). -/
def get (c : Container π) (k : Nat) : Option Bytes :=
  (c.entries.find? fun e => e.1 = k).map Prod.snd

theorem get_eq_some_of_mem {c : Container π} {e : Nat × Bytes} (h : e ∈ c.entries) :
    c.get e.1 = some e.2 := by
  unfold get
  cases hf : c.entries.find? (fun x => x.1 = e.1) with
  | none => exact absurd (List.find?_eq_none.1 hf e h) (by simp)
  | some e' =>
    have hk : e'.1 = e.1 := by simpa using List.find?_some hf
    rw [List.inj_on_of_nodup_map c.keys_nodup (List.mem_of_find?_eq_some hf) h hk]
    rfl

theorem get_eq_none_iff {c : Container π} {k : Nat} :
    c.get k = none ↔ k ∉ c.entries.map Prod.fst := by
  simp only [get, Option.map_eq_none', List.find?_eq_none, decide_eq_true_eq, List.mem_map,
    not_exists, not_and]

end Container

/-- A key-level change, as `amt.Change` and `hamt.Change` carry it: a value added at a key,
removed from it, or modified from `before` to `after`. -/
inductive Change
  | add (key : Nat) (after : Bytes)
  | remove (key : Nat) (before : Bytes)
  | modify (key : Nat) (before after : Bytes)
  deriving DecidableEq, Repr

/-- The callbacks a diff makes on its diff container, threading the container's results. -/
structure DiffContainer (σ : Type) where
  add : σ → Nat → Bytes → Except String σ
  modify : σ → Nat → Bytes → Bytes → Except String σ
  remove : σ → Nat → Bytes → Except String σ

/-- The `switch change.Type` that hands a structural diff's change to the container. -/
def DiffContainer.apply {σ : Type} (d : DiffContainer σ) (s : σ) : Change → Except String σ
  | .add k v => d.add s k v
  | .remove k v => d.remove s k v
  | .modify k b a => d.modify s k b a

section Diff

variable {π σ : Type}

/-- The change an entry of the old container makes: removed, modified, or none. -/
def preChange (cur : Container π) (e : Nat × Bytes) : Option Change :=
  match cur.get e.1 with
  | none => some (.remove e.1 e.2)
  | some v => if e.2 = v then none else some (.modify e.1 e.2 v)

/-- The change an entry of the new container makes: added, or none. -/
def addChange (pre : Container π) (e : Nat × Bytes) : Option Change :=
  if pre.get e.1 = none then some (.add e.1 e.2) else none

/-- The key-level changes from `pre` to `cur`: removals and modifications in `pre`'s
order, then additions in `cur`'s. -/
def keyChanges (pre cur : Container π) : List Change :=
  pre.entries.filterMap (preChange cur) ++ cur.entries.filterMap (addChange pre)

/-- The values at the keys only in `cur`, in `cur`'s order. -/
def addedValues (pre cur : Container π) : List Bytes :=
  (cur.entries.filter fun e => pre.get e.1 = none).map Prod.snd

/-- The values at the keys only in `pre`, in `pre`'s order. -/
def removedValues (pre cur : Container π) : List Bytes :=
  (pre.entries.filter fun e => cur.get e.1 = none).map Prod.snd

/-- The values before and after at the keys in both whose bytes differ, in `pre`'s order. -/
def modifiedValues (pre cur : Container π) : List (Bytes × Bytes) :=
  pre.entries.filterMap fun e => (cur.get e.1).bind fun v => if e.2 = v then none else some (e.2, v)

/-- The value a change adds. -/
def Change.added? : Change → Option Bytes
  | .add _ v => some v
  | _ => none

/-- The value a change removes. -/
def Change.removed? : Change → Option Bytes
  | .remove _ v => some v
  | _ => none

/-- The values before and after a modifying change. -/
def Change.modified? : Change → Option (Bytes × Bytes)
  | .modify _ b a => some (b, a)
  | _ => none

/-- The values `keyChanges` adds are those of the keys only in `cur`. -/
theorem filterMap_added?_keyChanges (pre cur : Container π) :
    (keyChanges pre cur).filterMap Change.added? = addedValues pre cur := by
  have hpre : pre.entries.filterMap (fun e => (preChange cur e).bind Change.added?) = [] :=
    List.filterMap_eq_nil_iff.2 fun e _ => by unfold preChange; split <;> [rfl; split_ifs <;> rfl]
  simp only [keyChanges, addedValues, List.filterMap_append, List.filterMap_filterMap, hpre,
    List.nil_append]
  induction cur.entries with
  | nil => rfl
  | cons e es ih =>
    rw [List.filterMap_cons, ih, List.filter_cons]
    by_cases h : pre.get e.1 = none <;> simp [addChange, h, Change.added?]

/-- The values `keyChanges` removes are those of the keys only in `pre`. -/
theorem filterMap_removed?_keyChanges (pre cur : Container π) :
    (keyChanges pre cur).filterMap Change.removed? = removedValues pre cur := by
  have hcur : cur.entries.filterMap (fun e => (addChange pre e).bind Change.removed?) = [] :=
    List.filterMap_eq_nil_iff.2 fun e _ => by unfold addChange; split_ifs <;> rfl
  simp only [keyChanges, removedValues, List.filterMap_append, List.filterMap_filterMap, hcur,
    List.append_nil]
  induction pre.entries with
  | nil => rfl
  | cons e es ih =>
    rw [List.filterMap_cons, ih, List.filter_cons]
    rcases h : cur.get e.1 with _ | v
    · simp [preChange, h, Change.removed?]
    · by_cases hv : e.2 = v <;> simp [preChange, h, hv, Change.removed?]

/-- The values `keyChanges` modifies are those of the keys in both, with other bytes. -/
theorem filterMap_modified?_keyChanges (pre cur : Container π) :
    (keyChanges pre cur).filterMap Change.modified? = modifiedValues pre cur := by
  have hcur : cur.entries.filterMap (fun e => (addChange pre e).bind Change.modified?) = [] :=
    List.filterMap_eq_nil_iff.2 fun e _ => by unfold addChange; split_ifs <;> rfl
  simp only [keyChanges, modifiedValues, List.filterMap_append, List.filterMap_filterMap, hcur,
    List.append_nil]
  congr 1
  funext e
  unfold preChange
  cases cur.get e.1 with
  | none => rfl
  | some v =>
    simp only [Option.some_bind]
    split_ifs <;> rfl

/-- The body of the generic diff's loop over the old container: a removal, or a
modification, and the key remembered as not new. -/
def genericPreStep (d : DiffContainer σ) (cur : Container π) (acc : σ × List Nat)
    (e : Nat × Bytes) : Except String (σ × List Nat) :=
  match cur.get e.1 with
  | none => do
    let s ← d.remove acc.1 e.1 e.2
    pure (s, acc.2)
  | some curVal => do
    let s ← if e.2 ≠ curVal then d.modify acc.1 e.1 e.2 curVal else pure acc.1
    pure (s, acc.2 ++ [e.1])

/-- Modelled from the spec: `diff.GenericArray` and `diff.GenericMap`, absent from the
sources, as lotus's `DiffAdtArray`. Each old entry is looked up in the new container and
reported removed or, with other bytes, modified. Then each new entry whose key the first
loop did not see is reported added. -/
def genericDiff (d : DiffContainer σ) (pre cur : Container π) (s : σ) : Except String σ := do
  let (s, notNew) ← pre.entries.foldlM (genericPreStep d cur) (s, [])
  cur.entries.foldlM (fun s e => if e.1 ∈ notNew then pure s else d.add s e.1 e.2) s

/-- The first loop hands the container the old entries' changes, and remembers the keys
present in both containers. -/
theorem foldlM_genericPreStep (d : DiffContainer σ) (cur : Container π) :
    ∀ (es : List (Nat × Bytes)) (s : σ) (ks : List Nat),
      es.foldlM (genericPreStep d cur) (s, ks) =
        (fun s' => (s', ks ++ (es.filter fun e => cur.get e.1 ≠ none).map Prod.fst)) <$>
          (es.filterMap (preChange cur)).foldlM d.apply s
  | [], s, ks => by simp [pure, Except.pure, Functor.map, Except.map]
  | e :: es, s, ks => by
    rw [List.foldlM_cons, genericPreStep, List.filterMap_cons, preChange]
    rcases hget : cur.get e.1 with _ | v
    · simp only [List.filter_cons, hget, ne_eq, not_true_eq_false, decide_False,
        List.foldlM_cons, DiffContainer.apply]
      cases d.remove s e.1 e.2 with
      | error err => rfl
      | ok s₁ => exact foldlM_genericPreStep d cur es s₁ ks
    · by_cases hv : e.2 = v
      · simp only [hv, ne_eq, not_true_eq_false, if_false, if_true, List.filter_cons, hget,
          reduceCtorEq, not_false_eq_true, decide_True, List.map_cons]
        simpa using foldlM_genericPreStep d cur es s (ks ++ [e.1])
      · simp only [hv, ne_eq, not_false_eq_true, if_true, if_false, List.filter_cons, hget,
          reduceCtorEq, decide_True, List.foldlM_cons, DiffContainer.apply, List.map_cons]
        cases d.modify s e.1 e.2 v with
        | error err => rfl
        | ok s₁ => simpa using foldlM_genericPreStep d cur es s₁ (ks ++ [e.1])

/-- The second loop hands the container the additions, given that the remembered keys are
those of the new entries also in the old container. -/
theorem foldlM_genericAdd (d : DiffContainer σ) (pre : Container π) (notNew : List Nat) :
    ∀ (es : List (Nat × Bytes)), (∀ e ∈ es, e.1 ∈ notNew ↔ pre.get e.1 ≠ none) →
      ∀ s : σ, es.foldlM (fun s e => if e.1 ∈ notNew then pure s else d.add s e.1 e.2) s =
        (es.filterMap (addChange pre)).foldlM d.apply s
  | [], _, _ => rfl
  | e :: es, hmem, s => by
    have ih := foldlM_genericAdd d pre notNew es fun e' he' => hmem e' (List.mem_cons_of_mem e he')
    rw [List.foldlM_cons, List.filterMap_cons, addChange]
    by_cases hk : e.1 ∈ notNew
    · have hpre : pre.get e.1 ≠ none := (hmem e (List.mem_cons_self e es)).1 hk
      simp only [hk, if_true, hpre, if_false]
      exact ih s
    · have hpre : pre.get e.1 = none :=
        not_not.1 fun h => hk ((hmem e (List.mem_cons_self e es)).2 h)
      simp only [hk, if_false, hpre, if_true, List.foldlM_cons, DiffContainer.apply]
      cases d.add s e.1 e.2 with
      | error err => rfl
      | ok s₁ => exact ih s₁

/-- The generic diff hands the container exactly `keyChanges`, in order. -/
theorem genericDiff_eq (d : DiffContainer σ) (pre cur : Container π) (s : σ) :
    genericDiff d pre cur s = (keyChanges pre cur).foldlM d.apply s := by
  rw [genericDiff, foldlM_genericPreStep, keyChanges, List.foldlM_append]
  cases (pre.entries.filterMap (preChange cur)).foldlM d.apply s with
  | error err => rfl
  | ok s₁ =>
    refine foldlM_genericAdd d pre _ cur.entries (fun e he => ?_) s₁
    have hcur : cur.get e.1 = some e.2 := Container.get_eq_some_of_mem he
    simp only [List.nil_append, List.mem_map, List.mem_filter, ne_eq, decide_eq_true_eq,
      Container.get_eq_none_iff, not_not]
    constructor
    · rintro ⟨e', ⟨he', -⟩, hk⟩
      exact ⟨e', he', hk⟩
    · rintro ⟨e', he', hk⟩
      exact ⟨e', ⟨he', ⟨e, he, hk.symm⟩⟩, hk⟩

/-- The assumption on a structural diff (`diff.Amt`, `diff.Hamt`) given the parameters `p`:
when both containers are in the v3 node format and written with `p`, it returns the
key-level changes in some order; otherwise it fails, since it cannot read older nodes. -/
def StructuralDiffSpec (structural : Container π → Container π → π → Except String (List Change)) :
    Prop :=
  ∀ pre cur p,
    (pre.v3Format ∧ cur.v3Format ∧ pre.params = p ∧ cur.params = p →
      ∃ l, structural pre cur p = .ok l ∧ l.Perm (keyChanges pre cur)) ∧
    (¬(pre.v3Format ∧ cur.v3Format ∧ pre.params = p ∧ cur.params = p) →
      ∃ e, structural pre cur p = .error e)

/-- A structural diff that meets `StructuralDiffSpec`: the key-level changes when it can
read both containers with `p`, an error otherwise. -/
def structuralDiffOf [DecidableEq π] (pre cur : Container π) (p : π) :
    Except String (List Change) :=
  if pre.v3Format ∧ cur.v3Format ∧ pre.params = p ∧ cur.params = p then .ok (keyChanges pre cur)
  else .error "cannot read nodes of an older format"

theorem structuralDiffSpec_structuralDiffOf [DecidableEq π] :
    StructuralDiffSpec (@structuralDiffOf π _) :=
  fun _ _ _ => ⟨fun h => ⟨_, if_pos h, .refl _⟩, fun h => ⟨_, if_neg h⟩⟩

end Diff

/-! ## Containers that append what they decode -/

section Append

variable {σ δ : Type}

/-- A container whose callbacks append to the results `app s` of what `delta` decodes from
the change succeeds over a list of changes exactly when every change decodes, with the
decoded parts appended in order. -/
theorem foldlM_apply_eq_ok (d : DiffContainer σ) (delta : Change → Except String δ)
    (app : σ → δ → σ) (hd : ∀ s c, d.apply s c = app s <$> delta c) :
    ∀ (l : List Change) (s s' : σ),
      l.foldlM d.apply s = .ok s' ↔ ∃ ds, l.mapM delta = .ok ds ∧ s' = ds.foldl app s
  | [], s, s' => by
    simp only [List.foldlM_nil, List.mapM_nil, except_pure_eq_ok]
    constructor
    · rintro rfl
      exact ⟨[], rfl, rfl⟩
    · rintro ⟨_, rfl, rfl⟩
      rfl
  | c :: l, s, s' => by
    simp only [List.foldlM_cons, List.mapM_cons, except_bind_eq_ok, except_pure_eq_ok, hd,
      except_map_eq_ok, foldlM_apply_eq_ok d delta app hd l]
    constructor
    · rintro ⟨_, ⟨x, hx, rfl⟩, ds, hds, rfl⟩
      exact ⟨x :: ds, ⟨x, hx, ds, hds, rfl⟩, rfl⟩
    · rintro ⟨_, ⟨x, hx, ds, hds, rfl⟩, rfl⟩
      exact ⟨_, ⟨x, hx, rfl⟩, ds, hds, rfl⟩

/-- Such a container, run over a permutation of the changes, appends a permutation of the
same decoded parts. -/
theorem foldlM_apply_perm (d : DiffContainer σ) (delta : Change → Except String δ)
    (app : σ → δ → σ) (hd : ∀ s c, d.apply s c = app s <$> delta c) {l l' : List Change}
    (hp : l.Perm l') {s r : σ} (h : l.foldlM d.apply s = .ok r) :
    ∃ ds ds' : List δ, ds.Perm ds' ∧ r = ds.foldl app s ∧
      l'.foldlM d.apply s = .ok (ds'.foldl app s) := by
  obtain ⟨ds, hds, rfl⟩ := (foldlM_apply_eq_ok d delta app hd l s r).1 h
  obtain ⟨ds', hds', hperm⟩ := mapM_perm hp hds
  exact ⟨ds, ds', hperm, rfl, (foldlM_apply_eq_ok d delta app hd l' s _).2 ⟨ds', hds', rfl⟩⟩

end Append

end SentinelVisor
