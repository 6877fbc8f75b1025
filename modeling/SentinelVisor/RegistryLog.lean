import SentinelVisor.VerifiedRegistry
import Mathlib.Logic.Function.Basic

/-!
# The verified-registry tables as a change log

`verified_registry_verifiers` and `verified_registry_verified_clients` get a row for each
address whose DataCap an extraction reports, and the two event tables an `ADDED` or
`REMOVED` event for each address that joined or left (the schema of the migration in
`part_001`). Read one extraction after another, they are a log of the registry: a
`REMOVED` event drops its address and a row sets its address's DataCap
(`RegistryOutput.replay`). `Registry.view` is a registry as such a log describes it.

`replay_expectedOutput` says what replaying what the extractor should report does, from
any view. One extraction replayed on the registry the context diffs from gives the current
one (`replay_baseline`). `replay_extract_iff` is the step for
`VerifiedRegistryExtractor.Extract`: replayed on the previous registry, each of its two
outputs gives the current registry exactly when the context has a previous state or no
address left the registry. Without a previous state at height 1, the extractor reports the
whole registry and no `REMOVED` event, so an address the parent tipset held and this one
dropped stays in the log. `replayAll_consecutive` is the run: a chain of extractions, each
diffing from the state the one before it saw as current, replays to the last registry.
-/

namespace SentinelVisor

/-! ## Registries by their addresses -/

/-- A registry as the tables describe it: the DataCap of each address string, or none. -/
def Registry.view (r : Registry) (a : String) : Option Int :=
  (r.entries.find? fun e => e.1.str = a).map Prod.snd

theorem Registry.view_str (r : Registry) (x : Address) : r.view x.str = r.lookup x := by
  simp only [Registry.view, Registry.lookup, Address.str_injective.eq_iff]

theorem Registry.lookup_of_mem {r : Registry} {e : Address × Int} (he : e ∈ r.entries) :
    r.lookup e.1 = some e.2 := by
  cases hf : r.entries.find? (fun e' => e'.1 = e.1) with
  | none => simpa using List.find?_eq_none.1 hf e he
  | some e' =>
    have hk : e'.1 = e.1 := by simpa using List.find?_some hf
    rw [Registry.lookup, hf, List.inj_on_of_nodup_map r.keys_nodup
      (List.mem_of_find?_eq_some hf) he hk]
    rfl

theorem Registry.mem_of_lookup {r : Registry} {x : Address} {d : Int}
    (h : r.lookup x = some d) : (x, d) ∈ r.entries := by
  obtain ⟨e, he, rfl⟩ := Option.map_eq_some'.1 h
  have hk : e.1 = x := by simpa using List.find?_some he
  exact hk ▸ List.mem_of_find?_eq_some he

/-! ## Replaying the tables -/

/-- A `REMOVED` event drops its address; an `ADDED` event alone changes nothing, the row
beside it sets the DataCap. -/
def applyEvent (v : String → Option Int) (ev : RegistryEvent) : String → Option Int :=
  if ev.event = verifregRemoved then Function.update v ev.address none else v

/-- A row sets its address's DataCap. -/
def applyRow (v : String → Option Int) (row : RegistryRow) : String → Option Int :=
  Function.update v row.address (some row.dataCap)

/-- One extraction's events, then its rows, replayed on `v`. -/
def RegistryOutput.replay (o : RegistryOutput) (v : String → Option Int) :
    String → Option Int :=
  o.rows.foldl applyRow (o.events.foldl applyEvent v)

/-- Extractions replayed in order. -/
def replayAll (v : String → Option Int) (outs : List RegistryOutput) : String → Option Int :=
  outs.foldl (fun v o => o.replay v) v

/-- An address is dropped by the events exactly when one of them removes it. -/
theorem foldl_applyEvent_apply (a : String) :
    ∀ (events : List RegistryEvent) (v : String → Option Int),
      events.foldl applyEvent v a =
        if events.any fun ev => ev.event = verifregRemoved ∧ ev.address = a then none else v a
  | [], _ => rfl
  | ev :: events, v => by
    rw [List.foldl_cons, foldl_applyEvent_apply a events, List.any_cons]
    by_cases hr : ev.event = verifregRemoved
    · by_cases ha : ev.address = a
      · subst ha
        simp [applyEvent, hr]
      · simp [applyEvent, hr, ha, Function.update_noteq (Ne.symm ha)]
    · simp [applyEvent, hr]

/-- Rows that name another address leave it alone. -/
theorem foldl_applyRow_of_forall_ne {a : String} :
    ∀ {rows : List RegistryRow} {v : String → Option Int}, (∀ row ∈ rows, row.address ≠ a) →
      rows.foldl applyRow v a = v a
  | [], _, _ => rfl
  | row :: rows, v, h => by
    rw [List.foldl_cons, foldl_applyRow_of_forall_ne fun r hr => h r (List.mem_cons_of_mem _ hr)]
    exact Function.update_noteq (h row (List.mem_cons_self _ _)).symm _ _

/-- Among rows with distinct addresses, a row's DataCap is what its address ends with. -/
theorem foldl_applyRow_of_mem {row : RegistryRow} :
    ∀ {rows : List RegistryRow} {v : String → Option Int}, (rows.map (·.address)).Nodup →
      row ∈ rows → rows.foldl applyRow v row.address = some row.dataCap
  | r :: rows, v, hnd, hrow => by
    rw [List.map_cons, List.nodup_cons] at hnd
    rw [List.foldl_cons]
    rcases List.mem_cons.1 hrow with rfl | hrow
    · rw [foldl_applyRow_of_forall_ne fun r' hr' he => hnd.1 (by rw [← he]; exact List.mem_map_of_mem _ hr')]
      exact Function.update_same _ _ _
    · exact foldl_applyRow_of_mem hnd.2 hrow

/-- An address no row names ends dropped if an event removes it, and as it was otherwise. -/
theorem replay_of_forall_ne {o : RegistryOutput} {v : String → Option Int} {a : String}
    (h : ∀ row ∈ o.rows, row.address ≠ a) :
    o.replay v a =
      if ∃ ev ∈ o.events, ev.event = verifregRemoved ∧ ev.address = a then none else v a := by
  rw [RegistryOutput.replay, foldl_applyRow_of_forall_ne h, foldl_applyEvent_apply]
  simp only [List.any_eq_true, decide_eq_true_eq]

/-! ## What the extractor's output replays to -/

section Expected

variable {height : Int} {stateRoot : String} {base cur : Registry} {o : RegistryOutput}

theorem rows_nodup_expectedOutput :
    ((expectedOutput height stateRoot base cur).rows.map (·.address)).Nodup := by
  simpa [expectedOutput, List.map_map, Function.comp_def, registryRow] using
    Registry.nodup_filter_str cur _

/-- The expected rows name `x` exactly when `cur` holds it with a DataCap `base` lacks. -/
theorem exists_row_expectedOutput {x : Address} :
    (∃ row ∈ (expectedOutput height stateRoot base cur).rows, row.address = x.str) ↔
      ∃ d, cur.lookup x = some d ∧ base.lookup x ≠ some d := by
  simp only [expectedOutput, List.mem_map, List.mem_filter, decide_eq_true_eq]
  constructor
  · rintro ⟨_, ⟨e, ⟨he, hb⟩, rfl⟩, hx⟩
    obtain rfl : e.1 = x := Address.str_injective hx
    exact ⟨e.2, Registry.lookup_of_mem he, hb⟩
  · rintro ⟨d, hc, hb⟩
    exact ⟨_, ⟨(x, d), ⟨Registry.mem_of_lookup hc, hb⟩, rfl⟩, rfl⟩

/-- The expected events remove `x` exactly when `base` holds it and `cur` does not. -/
theorem exists_removed_expectedOutput {x : Address} :
    (∃ ev ∈ (expectedOutput height stateRoot base cur).events,
        ev.event = verifregRemoved ∧ ev.address = x.str) ↔
      base.lookup x ≠ none ∧ cur.lookup x = none := by
  simp only [expectedOutput, List.mem_append, List.mem_map, List.mem_filter, decide_eq_true_eq]
  constructor
  · rintro ⟨_, (⟨e, -, rfl⟩ | ⟨e, ⟨he, hc⟩, rfl⟩), hr, hx⟩
    · simp [registryEvent, verifregAdded, verifregRemoved] at hr
    · obtain rfl : e.1 = x := Address.str_injective hx
      exact ⟨by simp [Registry.lookup_of_mem he], hc⟩
  · rintro ⟨hb, hc⟩
    obtain ⟨d, hd⟩ := Option.ne_none_iff_exists'.1 hb
    exact ⟨_, .inr ⟨(x, d), ⟨Registry.mem_of_lookup hd, hc⟩, rfl⟩, rfl, rfl⟩

variable (hrows : o.rows.Perm (expectedOutput height stateRoot base cur).rows)
  (hevents : o.events.Perm (expectedOutput height stateRoot base cur).events)
include hrows hevents

/-- What replaying an output that reports `expectedOutput` does to an address, from any
view: an address of `cur` whose DataCap `base` lacks gets it, an address only in `base`
is dropped, and every other address keeps what `v` says. -/
theorem replay_expectedOutput (v : String → Option Int) (x : Address) :
    o.replay v x.str =
      match cur.lookup x with
      | some d => if base.lookup x = some d then v x.str else some d
      | none => if base.lookup x = none then v x.str else none := by
  have hrow : (∃ row ∈ o.rows, row.address = x.str) ↔
      ∃ d, cur.lookup x = some d ∧ base.lookup x ≠ some d := by
    simp only [hrows.mem_iff]
    exact exists_row_expectedOutput
  have hrem : (∃ ev ∈ o.events, ev.event = verifregRemoved ∧ ev.address = x.str) ↔
      base.lookup x ≠ none ∧ cur.lookup x = none := by
    simp only [hevents.mem_iff]
    exact exists_removed_expectedOutput
  have hnone : (∀ row ∈ o.rows, row.address ≠ x.str) ↔
      ∀ d, cur.lookup x = some d → base.lookup x = some d := by
    simpa [not_exists, not_and, not_not] using not_congr hrow
  cases hc : cur.lookup x with
  | none =>
    rw [replay_of_forall_ne (hnone.2 fun d h => absurd h (by simp [hc]))]
    by_cases hb : base.lookup x = none <;> simp [hrem, hb, hc]
  | some d =>
    dsimp only
    by_cases hb : base.lookup x = some d
    · rw [replay_of_forall_ne (hnone.2 fun d' h => by rw [hc] at h; cases h; exact hb)]
      simp [hrem, hb, hc]
    · have hmem : registryRow height stateRoot (x, d) ∈ o.rows :=
        hrows.mem_iff.2 (List.mem_map_of_mem _ (List.mem_filter.2
          ⟨Registry.mem_of_lookup hc, by simpa using hb⟩))
      rw [if_neg hb]
      exact foldl_applyRow_of_mem ((hrows.map _).nodup_iff.2 rows_nodup_expectedOutput) hmem

/-- Replayed on the registry it diffs from, an output reporting `expectedOutput` gives the
current registry. -/
theorem replay_baseline : o.replay base.view = cur.view := by
  funext s
  show o.replay base.view (Address.mk s).str = cur.view (Address.mk s).str
  rw [replay_expectedOutput hrows hevents, Registry.view_str, Registry.view_str]
  cases hc : cur.lookup ⟨s⟩ <;> split_ifs <;> simp_all

end Expected

/-! ## One extraction -/

/-- Every address of `prev` is still in `cur`. -/
def Registry.KeepsAddresses (prev cur : Registry) : Prop :=
  ∀ e ∈ prev.entries, cur.lookup e.1 ≠ none

instance (prev cur : Registry) : Decidable (prev.KeepsAddresses cur) :=
  inferInstanceAs (Decidable (∀ e ∈ prev.entries, _))

theorem Registry.keepsAddresses_refl (r : Registry) : r.KeepsAddresses r :=
  fun e he => by simp [Registry.lookup_of_mem he]

/-- One extraction, replayed on the previous registry, gives the current one exactly when
the context has a previous state or no address left: without a previous state the
extractor reports the whole current registry and no removal. -/
theorem replay_extractRegistry_iff (registry : VerifRegState → Registry)
    (diff : VerifRegState → VerifRegState → Except String VerifierChanges) (msg : String)
    (ec : VerifiedRegistryExtractionContext)
    (hdiff : ∀ changes, diff ec.prevState ec.currState = .ok changes →
      ClassifiesChanges (registry ec.prevState) (registry ec.currState) changes)
    {out : RegistryOutput} (h : extractRegistry registry diff msg ec = .ok out) :
    out.replay (registry ec.prevState).view = (registry ec.currState).view ↔
      ec.hasPreviousState = true ∨
        (registry ec.prevState).KeepsAddresses (registry ec.currState) := by
  obtain ⟨hrows, hevents⟩ := extractRegistry_spec registry diff msg ec hdiff h
  unfold VerifiedRegistryExtractionContext.baseline at hrows hevents
  cases hp : ec.hasPreviousState
  · simp only [hp, Bool.false_eq_true, if_false, false_or] at hrows hevents ⊢
    constructor
    · intro heq e he hnone
      have hx := congrFun heq e.1.str
      rw [replay_expectedOutput hrows hevents, Registry.view_str, Registry.view_str, hnone,
        Registry.lookup_empty, if_pos rfl, Registry.lookup_of_mem he] at hx
      cases hx
    · intro hkeeps
      funext s
      show out.replay _ (Address.mk s).str = (registry ec.currState).view (Address.mk s).str
      rw [replay_expectedOutput hrows hevents, Registry.view_str, Registry.view_str,
        Registry.lookup_empty]
      cases hc : (registry ec.currState).lookup ⟨s⟩ with
      | none =>
        cases hb : (registry ec.prevState).lookup ⟨s⟩ with
        | none => rfl
        | some d => exact absurd hc (hkeeps _ (Registry.mem_of_lookup hb))
      | some d => simp
  · simp only [hp, if_true, true_or, iff_true] at hrows hevents ⊢
    exact replay_baseline hrows hevents

/-! ## The extractor's log -/

/-- For a context `NewVerifiedRegistryExtractorContext` built, having a previous state is
being off height 1, up to registries that lose no address. -/
theorem hasPreviousState_or_keeps_iff {a : ActorInfo} {node : VerifRegNode}
    {ec : VerifiedRegistryExtractionContext}
    (hec : newVerifiedRegistryExtractorContext a node = .ok ec) (registry : VerifRegState → Registry) :
    (ec.hasPreviousState = true ∨ (registry ec.prevState).KeepsAddresses (registry ec.currState)) ↔
      a.tipSet.height ≠ 1 ∨ (registry ec.prevState).KeepsAddresses (registry ec.currState) := by
  obtain ⟨hts, hsame⟩ := newVerifiedRegistryExtractorContext_eq_ok hec
  cases hs : ec.sameState
  · simp [VerifiedRegistryExtractionContext.hasPreviousState, hs, hts]
  · simp [hsame hs, Registry.keepsAddresses_refl]

/-- The step of a run: off height 1, one registry's output replays exactly. -/
theorem replay_extractRegistry_of_height (registry : VerifRegState → Registry)
    (diff : VerifRegState → VerifRegState → Except String VerifierChanges) (msg : String)
    {a : ActorInfo} {node : VerifRegNode} {ec : VerifiedRegistryExtractionContext}
    (hec : newVerifiedRegistryExtractorContext a node = .ok ec)
    (hdiff : ∀ changes, diff ec.prevState ec.currState = .ok changes →
      ClassifiesChanges (registry ec.prevState) (registry ec.currState) changes)
    {out : RegistryOutput} (h : extractRegistry registry diff msg ec = .ok out)
    (hheight : a.tipSet.height ≠ 1) :
    out.replay (registry ec.prevState).view = (registry ec.currState).view :=
  (replay_extractRegistry_iff registry diff msg ec hdiff h).2
    ((hasPreviousState_or_keeps_iff hec registry).2 (.inl hheight))

/-- Every `Extract` that succeeds, with diffs that classify changes correctly, reports for
each registry a log step that, replayed on the previous registry, gives the current one, at
every height but 1. At height 1 it does so exactly when no address left the registry. -/
theorem replay_extract_iff
    (diffVerifiers diffVerifiedClients :
      VerifRegState → VerifRegState → Except String VerifierChanges)
    (a : ActorInfo) (node : VerifRegNode)
    (hv : ∀ ec, newVerifiedRegistryExtractorContext a node = .ok ec → ∀ changes,
      diffVerifiers ec.prevState ec.currState = .ok changes →
        ClassifiesChanges ec.prevState.verifiers ec.currState.verifiers changes)
    (hc : ∀ ec, newVerifiedRegistryExtractorContext a node = .ok ec → ∀ changes,
      diffVerifiedClients ec.prevState ec.currState = .ok changes →
        ClassifiesChanges ec.prevState.verifiedClients ec.currState.verifiedClients changes)
    {verifiers clients : RegistryOutput}
    (h : VerifiedRegistryExtractor.extract diffVerifiers diffVerifiedClients a node =
      .ok (verifiers, clients)) :
    ∃ ec, newVerifiedRegistryExtractorContext a node = .ok ec ∧
      (verifiers.replay ec.prevState.verifiers.view = ec.currState.verifiers.view ↔
        a.tipSet.height ≠ 1 ∨ ec.prevState.verifiers.KeepsAddresses ec.currState.verifiers) ∧
      (clients.replay ec.prevState.verifiedClients.view = ec.currState.verifiedClients.view ↔
        a.tipSet.height ≠ 1 ∨
          ec.prevState.verifiedClients.KeepsAddresses ec.currState.verifiedClients) := by
  obtain ⟨ec, hec, h₁, h₂⟩ := extract_eq_ok.1 h
  refine ⟨ec, hec, ?_, ?_⟩
  · rw [replay_extractRegistry_iff (·.verifiers) diffVerifiers _ ec (hv ec hec) h₁]
    exact hasPreviousState_or_keeps_iff hec (·.verifiers)
  · rw [replay_extractRegistry_iff (·.verifiedClients) diffVerifiedClients _ ec (hc ec hec)
      ((extractVerifiedClients_eq _ ec).symm.trans h₂)]
    exact hasPreviousState_or_keeps_iff hec (·.verifiedClients)

/-- The changes a correct diff returns, in the registries' order: a reference for the actor
library's `DiffVerifiers` and `DiffVerifiedClients`. -/
def registryChanges (prev cur : Registry) : VerifierChanges :=
  ⟨cur.entries.filter fun e => prev.lookup e.1 = none,
    cur.entries.filterMap fun e =>
      (prev.lookup e.1).bind fun d => if d = e.2 then none else some ((e.1, d), e),
    prev.entries.filter fun e => cur.lookup e.1 = none⟩

theorem classifiesChanges_registryChanges (prev cur : Registry) :
    ClassifiesChanges prev cur (registryChanges prev cur) :=
  ⟨.refl _, .refl _, .refl _⟩

/-- A verifier of the genesis state gone at height 1: the extractor reports the remaining
one as added and no removal, so the log keeps the gone verifier. -/
theorem replay_extract_iff_height_one :
    let genesis : VerifRegState := ⟨⟨[(⟨"f01"⟩, 10), (⟨"f02"⟩, 5)], by decide⟩, .empty⟩
    let child : VerifRegState := ⟨⟨[(⟨"f01"⟩, 10)], by decide⟩, .empty⟩
    let a : ActorInfo := ⟨⟨⟨"code"⟩, ⟨"head1"⟩⟩, ⟨"f06"⟩, 1, ⟨1, [⟨"b1"⟩], 100, ⟨"root1"⟩⟩,
      ⟨0, [⟨"b0"⟩], 100, ⟨"root0"⟩⟩⟩
    let node : VerifRegNode :=
      ⟨fun act => .ok (if act.head = ⟨"head1"⟩ then child else genesis),
        fun _ _ => .ok ⟨⟨"code"⟩, ⟨"head0"⟩⟩⟩
    let diffVerifiers : VerifRegState → VerifRegState → Except String VerifierChanges :=
      fun p c => .ok (registryChanges p.verifiers c.verifiers)
    let diffVerifiedClients : VerifRegState → VerifRegState → Except String VerifierChanges :=
      fun p c => .ok (registryChanges p.verifiedClients c.verifiedClients)
    let verifiers : RegistryOutput := ⟨[⟨1, "root1", "f01", 10⟩], [⟨1, "root1", "f01", "ADDED"⟩]⟩
    VerifiedRegistryExtractor.extract diffVerifiers diffVerifiedClients a node =
        .ok (verifiers, ⟨[], []⟩) ∧
      ¬genesis.verifiers.KeepsAddresses child.verifiers ∧
      ∃ ec, newVerifiedRegistryExtractorContext a node = .ok ec ∧
        (verifiers.replay ec.prevState.verifiers.view = ec.currState.verifiers.view ↔
          a.tipSet.height ≠ 1 ∨ ec.prevState.verifiers.KeepsAddresses ec.currState.verifiers) ∧
        ((⟨[], []⟩ : RegistryOutput).replay ec.prevState.verifiedClients.view =
            ec.currState.verifiedClients.view ↔
          a.tipSet.height ≠ 1 ∨
            ec.prevState.verifiedClients.KeepsAddresses ec.currState.verifiedClients) := by
  intro genesis child a node diffVerifiers diffVerifiedClients verifiers
  have hv : ∀ ec, newVerifiedRegistryExtractorContext a node = .ok ec → ∀ changes,
      diffVerifiers ec.prevState ec.currState = .ok changes →
        ClassifiesChanges ec.prevState.verifiers ec.currState.verifiers changes :=
    fun ec _ changes h => by cases h; exact classifiesChanges_registryChanges _ _
  have hc : ∀ ec, newVerifiedRegistryExtractorContext a node = .ok ec → ∀ changes,
      diffVerifiedClients ec.prevState ec.currState = .ok changes →
        ClassifiesChanges ec.prevState.verifiedClients ec.currState.verifiedClients changes :=
    fun ec _ changes h => by cases h; exact classifiesChanges_registryChanges _ _
  exact ⟨rfl, by decide, replay_extract_iff diffVerifiers diffVerifiedClients a node hv hc rfl⟩

/-! ## Runs of extractions -/

/-- Each context diffs from the state the one before it saw as current: the first from `s`,
and the last sees `s'`. -/
def Consecutive : VerifRegState → List VerifiedRegistryExtractionContext → VerifRegState → Prop
  | s, [], s' => s = s'
  | s, ec :: ecs, s' => ec.prevState = s ∧ Consecutive ec.currState ecs s'

/-- Over every run of `Extract` calls whose contexts follow one another, off height 1 and
with diffs that classify changes correctly, the verifier and client tables replay, from the
registries of the state the first context diffs from, to those of the last current state. -/
theorem replayAll_consecutive
    (diffVerifiers diffVerifiedClients :
      VerifRegState → VerifRegState → Except String VerifierChanges) :
    ∀ {steps : List (ActorInfo × VerifRegNode)} {ecs : List VerifiedRegistryExtractionContext}
      {outs : List (RegistryOutput × RegistryOutput)} {s s' : VerifRegState},
      List.Forall₂ (fun st ec => newVerifiedRegistryExtractorContext st.1 st.2 = .ok ec)
        steps ecs →
      List.Forall₂ (fun st o =>
        VerifiedRegistryExtractor.extract diffVerifiers diffVerifiedClients st.1 st.2 = .ok o)
        steps outs →
      Consecutive s ecs s' →
      (∀ ec ∈ ecs, (∀ changes, diffVerifiers ec.prevState ec.currState = .ok changes →
          ClassifiesChanges ec.prevState.verifiers ec.currState.verifiers changes) ∧
        ∀ changes, diffVerifiedClients ec.prevState ec.currState = .ok changes →
          ClassifiesChanges ec.prevState.verifiedClients ec.currState.verifiedClients changes) →
      (∀ st ∈ steps, st.1.tipSet.height ≠ 1) →
      replayAll s.verifiers.view (outs.map Prod.fst) = s'.verifiers.view ∧
        replayAll s.verifiedClients.view (outs.map Prod.snd) = s'.verifiedClients.view := by
  intro steps ecs outs s s' hctx
  induction hctx generalizing outs s with
  | nil =>
    rintro ⟨⟩ (rfl : s = s') - -
    exact ⟨rfl, rfl⟩
  | @cons st ec steps ecs hec _ ih =>
    rintro (_ | ⟨ho, houts⟩) ⟨rfl, hchain⟩ hdiff hheight
    obtain ⟨ec', hec', h₁, h₂⟩ := extract_eq_ok.1 ho
    obtain rfl : ec = ec' := Except.ok.inj (hec.symm.trans hec')
    obtain ⟨hv, hc⟩ := hdiff ec (List.mem_cons_self _ _)
    have hh := hheight st (List.mem_cons_self _ _)
    have ih := ih houts hchain (fun e he => hdiff e (List.mem_cons_of_mem _ he))
      (fun t ht => hheight t (List.mem_cons_of_mem _ ht))
    simp only [List.map_cons, replayAll, List.foldl_cons] at ih ⊢
    rw [replay_extractRegistry_of_height (·.verifiers) diffVerifiers _ hec hv h₁ hh,
      replay_extractRegistry_of_height (·.verifiedClients) diffVerifiedClients _ hec hc
        ((extractVerifiedClients_eq _ ec).symm.trans h₂) hh]
    exact ih

/-- Genesis, then epoch 2, where a verifier is added, one removed, one changed, and the one
verified client removed. -/
theorem replayAll_consecutive_two_epochs :
    let genesis : VerifRegState :=
      ⟨⟨[(⟨"f01"⟩, 10), (⟨"f02"⟩, 5)], by decide⟩, ⟨[(⟨"f09"⟩, 1)], by decide⟩⟩
    let epoch2 : VerifRegState := ⟨⟨[(⟨"f01"⟩, 12), (⟨"f03"⟩, 7)], by decide⟩, .empty⟩
    let ts0 : TipSet := ⟨0, [⟨"b0"⟩], 100, ⟨"root0"⟩⟩
    let ts2 : TipSet := ⟨2, [⟨"b2"⟩], 100, ⟨"root2"⟩⟩
    let node : VerifRegNode :=
      ⟨fun act => .ok (if act.head = ⟨"head2"⟩ then epoch2 else genesis),
        fun _ _ => .ok ⟨⟨"code"⟩, ⟨"head0"⟩⟩⟩
    let steps : List (ActorInfo × VerifRegNode) :=
      [(⟨⟨⟨"code"⟩, ⟨"head0"⟩⟩, ⟨"f06"⟩, 0, ts0, ts0⟩, node),
        (⟨⟨⟨"code"⟩, ⟨"head2"⟩⟩, ⟨"f06"⟩, 2, ts2, ts0⟩, node)]
    let ecs : List VerifiedRegistryExtractionContext :=
      [⟨genesis, genesis, ts0, ts0, true⟩, ⟨genesis, epoch2, ts0, ts2, false⟩]
    let outs : List (RegistryOutput × RegistryOutput) :=
      [(⟨[⟨0, "root0", "f01", 10⟩, ⟨0, "root0", "f02", 5⟩],
          [⟨0, "root0", "f01", "ADDED"⟩, ⟨0, "root0", "f02", "ADDED"⟩]⟩,
        ⟨[⟨0, "root0", "f09", 1⟩], [⟨0, "root0", "f09", "ADDED"⟩]⟩),
       (⟨[⟨2, "root2", "f03", 7⟩, ⟨2, "root2", "f01", 12⟩],
          [⟨2, "root2", "f03", "ADDED"⟩, ⟨2, "root2", "f02", "REMOVED"⟩]⟩,
        ⟨[], [⟨2, "root2", "f09", "REMOVED"⟩]⟩)]
    let diffVerifiers : VerifRegState → VerifRegState → Except String VerifierChanges :=
      fun p c => .ok (registryChanges p.verifiers c.verifiers)
    let diffVerifiedClients : VerifRegState → VerifRegState → Except String VerifierChanges :=
      fun p c => .ok (registryChanges p.verifiedClients c.verifiedClients)
    List.Forall₂ (fun st ec => newVerifiedRegistryExtractorContext st.1 st.2 = .ok ec)
        steps ecs ∧
      List.Forall₂ (fun st o =>
        VerifiedRegistryExtractor.extract diffVerifiers diffVerifiedClients st.1 st.2 = .ok o)
        steps outs ∧
      Consecutive genesis ecs epoch2 ∧
      (∀ ec ∈ ecs, (∀ changes, diffVerifiers ec.prevState ec.currState = .ok changes →
          ClassifiesChanges ec.prevState.verifiers ec.currState.verifiers changes) ∧
        ∀ changes, diffVerifiedClients ec.prevState ec.currState = .ok changes →
          ClassifiesChanges ec.prevState.verifiedClients ec.currState.verifiedClients changes) ∧
      (∀ st ∈ steps, st.1.tipSet.height ≠ 1) ∧
      replayAll genesis.verifiers.view (outs.map Prod.fst) = epoch2.verifiers.view ∧
        replayAll genesis.verifiedClients.view (outs.map Prod.snd) =
          epoch2.verifiedClients.view := by
  intro genesis epoch2 ts0 ts2 node steps ecs outs diffVerifiers diffVerifiedClients
  have hctx : List.Forall₂ (fun st ec => newVerifiedRegistryExtractorContext st.1 st.2 = .ok ec)
      steps ecs := .cons rfl (.cons rfl .nil)
  have houts : List.Forall₂ (fun st o =>
      VerifiedRegistryExtractor.extract diffVerifiers diffVerifiedClients st.1 st.2 = .ok o)
      steps outs := .cons rfl (.cons rfl .nil)
  have hchain : Consecutive genesis ecs epoch2 := ⟨rfl, rfl, rfl⟩
  have hdiff : ∀ ec ∈ ecs, (∀ changes, diffVerifiers ec.prevState ec.currState = .ok changes →
        ClassifiesChanges ec.prevState.verifiers ec.currState.verifiers changes) ∧
      ∀ changes, diffVerifiedClients ec.prevState ec.currState = .ok changes →
        ClassifiesChanges ec.prevState.verifiedClients ec.currState.verifiedClients changes :=
    fun _ _ => ⟨fun _ h => by cases h; exact classifiesChanges_registryChanges _ _,
      fun _ h => by cases h; exact classifiesChanges_registryChanges _ _⟩
  have hheight : ∀ st ∈ steps, st.1.tipSet.height ≠ 1 := by decide
  exact ⟨hctx, houts, hchain, hdiff, hheight,
    replayAll_consecutive diffVerifiers diffVerifiedClients hctx houts hchain hdiff hheight⟩

end SentinelVisor
