import SentinelVisor.MessageProcessor
import Mathlib.Data.List.Nodup
import Mathlib.Data.List.Infix

/-!
# The messages table and the tipset transaction

`processTipSet` (gap/find.go) persists a tipset's rows in one transaction: the
`MessageTaskResult`, its message rows before its other rows as
`MessageTaskResult.PersistWithTx` writes them, then the processing messages. A message row
is written by `Message.PersistWithTx` (model/messages/message.go), an insert with
`OnConflict("do nothing")` into `messages`, whose primary key is the CID: a row whose CID
is already stored is dropped and the stored row stays (`MessageTable.insert`).
`Messages.PersistWithTx` inserts the rows in order and returns the first error.

The writers of the other tables are not among the sources. They are fields of `TxEnv`, over
a state `σ` of those tables, next to what the database answers to each message insert and
to the transaction's begin and commit. `RunInTransaction` lands every write of its body or
none (`runInTransaction`).

`persistMessages_eq_ok` says what a run of message inserts does: it succeeds when every
insert does, and is then the inserts of `MessageTable.insert` in order. Those keep every
stored row where it was, add only rows they were given, leave a row for each CID they were
given, and change nothing when every CID is already stored. A transaction either lands
them or leaves the database as it was (`messages_tipSetTransaction`), so over every
sequence of tipset transactions the table only grows and each committed transaction's
messages keep their rows (`runTipSetWrites_messages`). When every transaction commits and
rows of one CID are equal, the table ends with exactly the stored and the written rows, in
whatever order the transactions ran (`runTipSetWrites_perm`). `processTipSet_messages` ties this
to the message processor: once a tipset is processed, every message of each of its blocks
has a row, the rows stored before are unchanged, and a retry of the tipset writes no
message row.

A batch runs its items on one database, each item on the database the items before it
leave (`batchDb`, `batchEnvs`). `processItem` is split at its transaction
(`processItem_eq`), so what an item leaves is the transaction of the rows it extracted
(`dbAfterItem`). `processBatch_messages` is the batch's guarantee: every item that
`processBatch` marks complete with an empty message has, at the end of the batch, a row for
every message of each block of its tipset. The rows are persisted only after all three
loops of `processTipSet` have run, so an item whose lease expires in one of them writes
nothing and is marked with an error (`processItem_expired`).
-/

namespace SentinelVisor

/-- The `messages` table: its rows, with the primary key `cid` unique. -/
structure MessageTable where
  rows : List MessageModel
  cids_nodup : (rows.map (·.cid)).Nodup

namespace MessageTable

/-- The table before the first tipset. -/
def empty : MessageTable := ⟨[], List.nodup_nil⟩

/-- The primary keys the table holds. -/
def cids (t : MessageTable) : List String := t.rows.map (·.cid)

/-- One row inserted with `ON CONFLICT DO NOTHING`: a new CID is appended, and a CID already
stored leaves the table as it is. -/
def insert (t : MessageTable) (m : MessageModel) : MessageTable :=
  if h : m.cid ∈ t.cids then t
  else ⟨t.rows ++ [m], by
    rw [List.map_append, List.nodup_append]
    exact ⟨t.cids_nodup, List.nodup_singleton _, by simpa [cids] using h⟩⟩

theorem insert_of_mem {t : MessageTable} {m : MessageModel} (h : m.cid ∈ t.cids) :
    t.insert m = t :=
  dif_pos h

theorem rows_insert_of_not_mem {t : MessageTable} {m : MessageModel} (h : m.cid ∉ t.cids) :
    (t.insert m).rows = t.rows ++ [m] := by
  rw [insert, dif_neg h]

theorem rows_prefix_insert (t : MessageTable) (m : MessageModel) :
    t.rows <+: (t.insert m).rows := by
  by_cases h : m.cid ∈ t.cids
  · rw [insert_of_mem h]
  · rw [rows_insert_of_not_mem h]
    exact List.prefix_append _ _

theorem cid_mem_insert (t : MessageTable) (m : MessageModel) : m.cid ∈ (t.insert m).cids := by
  by_cases h : m.cid ∈ t.cids
  · rwa [insert_of_mem h]
  · simp [cids, rows_insert_of_not_mem h]

theorem mem_insert {t : MessageTable} {m r : MessageModel} (h : r ∈ (t.insert m).rows) :
    r ∈ t.rows ∨ r = m := by
  by_cases hm : m.cid ∈ t.cids
  · rw [insert_of_mem hm] at h
    exact .inl h
  · simpa [rows_insert_of_not_mem hm] using h

/-! ## Inserts in order -/

/-- Inserts keep every stored row where it was. -/
theorem rows_prefix_foldl_insert : ∀ (t : MessageTable) (ms : List MessageModel),
    t.rows <+: (ms.foldl insert t).rows
  | _, [] => List.prefix_refl _
  | t, m :: ms => (rows_prefix_insert t m).trans (rows_prefix_foldl_insert (t.insert m) ms)

theorem cids_subset_foldl_insert (t : MessageTable) (ms : List MessageModel) :
    t.cids ⊆ (ms.foldl insert t).cids :=
  ((rows_prefix_foldl_insert t ms).map _).subset

/-- Every inserted CID has a row afterwards. -/
theorem cid_mem_foldl_insert {m : MessageModel} : ∀ {t : MessageTable} {ms : List MessageModel},
    m ∈ ms → m.cid ∈ (ms.foldl insert t).cids
  | t, _ :: ms, .head _ => cids_subset_foldl_insert _ ms (cid_mem_insert t m)
  | t, m' :: _, .tail _ h => cid_mem_foldl_insert (t := t.insert m') h

/-- Every row afterwards was stored or inserted. -/
theorem mem_foldl_insert : ∀ {t : MessageTable} {ms : List MessageModel} {r : MessageModel},
    r ∈ (ms.foldl insert t).rows → r ∈ t.rows ∨ r ∈ ms
  | _, [], _, h => .inl h
  | t, m :: ms, r, h => by
    rw [List.foldl_cons] at h
    rcases mem_foldl_insert h with h | h
    · rcases mem_insert h with h | rfl
      · exact .inl h
      · exact .inr (List.mem_cons_self _ _)
    · exact .inr (List.mem_cons_of_mem _ h)

/-- Inserts of rows whose CIDs are all stored change nothing. -/
theorem foldl_insert_of_forall_mem : ∀ {t : MessageTable} {ms : List MessageModel},
    (∀ m ∈ ms, m.cid ∈ t.cids) → ms.foldl insert t = t
  | _, [], _ => rfl
  | t, m :: ms, h => by
    rw [List.foldl_cons, insert_of_mem (h m (List.mem_cons_self _ _))]
    exact foldl_insert_of_forall_mem fun m' hm' => h m' (List.mem_cons_of_mem _ hm')

end MessageTable

/-! ## Persisting message rows -/

section Persist

variable (dbInsert : MessageModel → Except String Unit)

/-- `Message.PersistWithTx`: the insert, whose outcome the database gives, with its error
wrapped. -/
def persistMessage (t : MessageTable) (m : MessageModel) : Except String MessageTable := do
  (dbInsert m).mapError fun err => "persisting message: " ++ err
  pure (t.insert m)

/-- `Messages.PersistWithTx`: each row in order, returning the first error. -/
def persistMessages (t : MessageTable) (ms : List MessageModel) : Except String MessageTable :=
  ms.foldlM (persistMessage dbInsert) t

/-- The inserts succeed exactly when the database accepts each of them, and then they are
`MessageTable.insert` in order. -/
theorem persistMessages_eq_ok : ∀ {t t' : MessageTable} {ms : List MessageModel},
    persistMessages dbInsert t ms = .ok t' ↔
      (∀ m ∈ ms, dbInsert m = .ok ()) ∧ t' = ms.foldl MessageTable.insert t
  | t, t', [] => by
    simp only [persistMessages, List.foldlM_nil, except_pure_eq_ok, List.not_mem_nil,
      false_implies, implies_true, true_and, List.foldl_nil]
    exact eq_comm
  | t, t', m :: ms => by
    simp only [persistMessages, List.foldlM_cons, except_bind_eq_ok, persistMessage,
      except_mapError_eq_ok, except_pure_eq_ok, List.mem_cons, forall_eq_or_imp, List.foldl_cons]
    constructor
    · rintro ⟨_, ⟨⟨⟩, hm, rfl⟩, h⟩
      exact ⟨⟨hm, (persistMessages_eq_ok.1 h).1⟩, (persistMessages_eq_ok.1 h).2⟩
    · rintro ⟨⟨hm, hms⟩, rfl⟩
      exact ⟨_, ⟨(), hm, rfl⟩, persistMessages_eq_ok.2 ⟨hms, rfl⟩⟩

/-- A failed run of inserts returns the wrapped error of the first insert the database
refused. -/
theorem persistMessages_error : ∀ {t : MessageTable} {ms : List MessageModel} {e : String},
    persistMessages dbInsert t ms = .error e →
      ∃ m ∈ ms, ∃ err, dbInsert m = .error err ∧ e = "persisting message: " ++ err
  | _, [], _, h => by cases h
  | t, m :: ms, e, h => by
    simp only [persistMessages, List.foldlM_cons, except_bind_eq_error, except_bind_eq_ok,
      persistMessage, except_mapError_eq_error, except_mapError_eq_ok, except_pure_eq_ok] at h
    rcases h with (⟨err, hm, rfl⟩ | ⟨_, -, ⟨⟩⟩) | ⟨_, ⟨_, -, rfl⟩, h⟩
    · exact ⟨m, List.mem_cons_self _ _, err, hm, rfl⟩
    · obtain ⟨m', hm', err, herr, rfl⟩ := persistMessages_error h
      exact ⟨m', List.mem_cons_of_mem _ hm', err, herr, rfl⟩

end Persist

/-! ## The tipset transaction -/

/-- What the database answers during one transaction of `processTipSet`: to each message
insert, to the writes of the result's other rows (block messages, receipts, gas economy)
and of the processing messages, over the state `σ` of those tables, and to the
transaction's begin and commit. -/
structure TxEnv (σ : Type) where
  dbInsert : MessageModel → Except String Unit
  persistResultRest : σ → List BlockMessage → List Receipt → MessageGasEconomy → Except String σ
  persistProcessingMessages : σ → List ProcessingMessage → Except String σ
  txBegin : Except String Unit
  txCommit : Except String Unit

/-- The database the message processor writes: `messages` and the state of its other
tables. -/
structure MessageDb (σ : Type) where
  messages : MessageTable
  others : σ

variable {σ : Type}

/-- The body of `processTipSet`'s transaction: `result.PersistWithTx`, message rows first,
then `processingMsgs.PersistWithTx`. -/
def persistTipSet (e : TxEnv σ) (rows : TipSetRows) (db : MessageDb σ) :
    Except String (MessageDb σ) := do
  let messages ← persistMessages e.dbInsert db.messages rows.messages
  let others ← e.persistResultRest db.others rows.blockMessages rows.receipts rows.gasEconomy
  let others ← e.persistProcessingMessages others rows.processingMessages
  pure ⟨messages, others⟩

/-- Modelled from the spec: go-pg's `RunInTransaction`, absent from the sources. The body's
writes land when the transaction begins, the body succeeds and the commit succeeds;
otherwise the error is returned and the database is as it was. -/
def runInTransaction {δ : Type} (txBegin txCommit : Except String Unit)
    (body : δ → Except String δ) (db : δ) : Except String Unit × δ :=
  match (do txBegin; let db' ← body db; txCommit; pure db' : Except String δ) with
  | .ok db' => (.ok (), db')
  | .error err => (.error err, db)

/-- A transaction lands its body's writes, or returns an error and leaves the database. -/
theorem runInTransaction_cases {δ : Type} (txBegin txCommit : Except String Unit)
    (body : δ → Except String δ) (db : δ) :
    (runInTransaction txBegin txCommit body db).1 = .ok () ∧
        body db = .ok (runInTransaction txBegin txCommit body db).2 ∨
      (∃ err, (runInTransaction txBegin txCommit body db).1 = .error err) ∧
        (runInTransaction txBegin txCommit body db).2 = db := by
  unfold runInTransaction
  split
  · rename_i db' h
    simp only [except_bind_eq_ok, except_pure_eq_ok] at h
    obtain ⟨_, -, _, hb, _, -, rfl⟩ := h
    exact .inl ⟨rfl, hb⟩
  · exact .inr ⟨⟨_, rfl⟩, rfl⟩

/-- `processTipSet`'s `RunInTransaction` call on `db`: its error, and the database after
it. -/
def tipSetTransaction (e : TxEnv σ) (rows : TipSetRows) (db : MessageDb σ) :
    Except String Unit × MessageDb σ :=
  runInTransaction e.txBegin e.txCommit (persistTipSet e rows) db

/-- What a tipset transaction does to `messages`: the inserts of its rows when it commits,
which the database then accepted each; otherwise it returns an error and leaves the
database. -/
theorem messages_tipSetTransaction (e : TxEnv σ) (rows : TipSetRows) (db : MessageDb σ) :
    (tipSetTransaction e rows db).1 = .ok () ∧ (∀ m ∈ rows.messages, e.dbInsert m = .ok ()) ∧
        (tipSetTransaction e rows db).2.messages =
          rows.messages.foldl MessageTable.insert db.messages ∨
      (∃ err, (tipSetTransaction e rows db).1 = .error err) ∧
        (tipSetTransaction e rows db).2 = db := by
  rcases runInTransaction_cases e.txBegin e.txCommit (persistTipSet e rows) db
    with ⟨hok, hbody⟩ | hfail
  · simp only [persistTipSet, except_bind_eq_ok, except_pure_eq_ok] at hbody
    obtain ⟨messages, hmsgs, _, -, _, -, hdb⟩ := hbody
    obtain ⟨hins, rfl⟩ := (persistMessages_eq_ok e.dbInsert).1 hmsgs
    exact .inl ⟨hok, hins, by rw [tipSetTransaction, ← hdb]⟩
  · exact .inr hfail

/-- A tipset transaction keeps every stored message row where it was. -/
theorem rows_prefix_tipSetTransaction (e : TxEnv σ) (rows : TipSetRows) (db : MessageDb σ) :
    db.messages.rows <+: (tipSetTransaction e rows db).2.messages.rows := by
  rcases messages_tipSetTransaction e rows db with ⟨-, -, h⟩ | ⟨-, h⟩
  · rw [h]
    exact MessageTable.rows_prefix_foldl_insert _ _
  · rw [h]

/-- A tipset transaction whose message rows are all stored, such as a retry of a committed
one, leaves `messages` as it is. -/
theorem messages_tipSetTransaction_of_forall_mem (e : TxEnv σ) {rows : TipSetRows}
    {db : MessageDb σ} (h : ∀ m ∈ rows.messages, m.cid ∈ db.messages.cids) :
    (tipSetTransaction e rows db).2.messages = db.messages := by
  rcases messages_tipSetTransaction e rows db with ⟨-, -, hdb⟩ | ⟨-, hdb⟩
  · rw [hdb, MessageTable.foldl_insert_of_forall_mem h]
  · rw [hdb]

/-! ## Runs of tipset transactions -/

/-- One tipset transaction of a run: the database's answers and the rows it writes. -/
structure TipSetWrite (σ : Type) where
  env : TxEnv σ
  rows : TipSetRows

/-- The transaction of `w` on `db`. -/
def TipSetWrite.run (w : TipSetWrite σ) (db : MessageDb σ) : Except String Unit × MessageDb σ :=
  tipSetTransaction w.env w.rows db

/-- The database after the transactions `ws`, in order. -/
def runTipSetWrites (db : MessageDb σ) (ws : List (TipSetWrite σ)) : MessageDb σ :=
  ws.foldl (fun db w => (w.run db).2) db

@[simp] theorem runTipSetWrites_cons (db : MessageDb σ) (w : TipSetWrite σ)
    (ws : List (TipSetWrite σ)) :
    runTipSetWrites db (w :: ws) = runTipSetWrites (w.run db).2 ws := rfl

theorem rows_prefix_runTipSetWrites : ∀ (db : MessageDb σ) (ws : List (TipSetWrite σ)),
    db.messages.rows <+: (runTipSetWrites db ws).messages.rows
  | _, [] => List.prefix_refl _
  | db, _ :: ws =>
    (rows_prefix_tipSetTransaction _ _ db).trans (rows_prefix_runTipSetWrites _ ws)

theorem mem_runTipSetWrites : ∀ {db : MessageDb σ} {ws : List (TipSetWrite σ)} {r : MessageModel},
    r ∈ (runTipSetWrites db ws).messages.rows → r ∈ db.messages.rows ∨ ∃ w ∈ ws, r ∈ w.rows.messages
  | _, [], _, h => .inl h
  | db, w :: ws, r, h => by
    rw [runTipSetWrites_cons] at h
    rcases mem_runTipSetWrites h with h | ⟨w', hw', hr⟩
    · rcases messages_tipSetTransaction w.env w.rows db with ⟨-, -, hdb⟩ | ⟨-, hdb⟩
      · rw [TipSetWrite.run, hdb] at h
        rcases MessageTable.mem_foldl_insert h with h | h
        · exact .inl h
        · exact .inr ⟨w, List.mem_cons_self _ _, h⟩
      · rw [TipSetWrite.run, hdb] at h
        exact .inl h
    · exact .inr ⟨w', List.mem_cons_of_mem _ hw', hr⟩

/-- A transaction that commits leaves a row for the CID of each of its message rows. -/
theorem cid_mem_run_of_ok {w : TipSetWrite σ} {db : MessageDb σ} (hok : (w.run db).1 = .ok ())
    {m : MessageModel} (hm : m ∈ w.rows.messages) : m.cid ∈ (w.run db).2.messages.cids := by
  rcases messages_tipSetTransaction w.env w.rows db with ⟨-, -, hdb⟩ | ⟨⟨err, herr⟩, -⟩
  · rw [TipSetWrite.run, hdb]
    exact MessageTable.cid_mem_foldl_insert hm
  · rw [TipSetWrite.run, herr] at hok
    cases hok

/-- Over every sequence of tipset transactions, from every database: every stored message
row stays where it was, every row was stored or written by one of the transactions, and
every message of a transaction that committed has a row at the end. -/
theorem runTipSetWrites_messages (db : MessageDb σ) (ws : List (TipSetWrite σ)) :
    db.messages.rows <+: (runTipSetWrites db ws).messages.rows ∧
      (∀ r ∈ (runTipSetWrites db ws).messages.rows,
        r ∈ db.messages.rows ∨ ∃ w ∈ ws, r ∈ w.rows.messages) ∧
      ∀ pre w post, ws = pre ++ w :: post → (w.run (runTipSetWrites db pre)).1 = .ok () →
        ∀ m ∈ w.rows.messages, m.cid ∈ (runTipSetWrites db ws).messages.cids := by
  refine ⟨rows_prefix_runTipSetWrites db ws, fun r => mem_runTipSetWrites, ?_⟩
  rintro pre w post rfl hok m hm
  have hrun : runTipSetWrites db (pre ++ w :: post) =
      runTipSetWrites (w.run (runTipSetWrites db pre)).2 post := by
    simp only [runTipSetWrites, List.foldl_append, List.foldl_cons]
  rw [hrun]
  exact ((rows_prefix_runTipSetWrites _ post).map _).subset (cid_mem_run_of_ok hok hm)

/-! ## The order of a run -/

/-- The message rows a run from `db` can leave: those stored, then those its transactions
write. -/
def runRows (db : MessageDb σ) (ws : List (TipSetWrite σ)) : List MessageModel :=
  db.messages.rows ++ ws.flatMap fun w => w.rows.messages

/-- Every transaction of the run `ws` from `db` commits. -/
def AllCommit : MessageDb σ → List (TipSetWrite σ) → Prop
  | _, [] => True
  | db, w :: ws => (w.run db).1 = .ok () ∧ AllCommit (w.run db).2 ws

theorem MessageTable.rows_nodup (t : MessageTable) : t.rows.Nodup :=
  t.cids_nodup.of_map _

theorem cid_mem_runTipSetWrites : ∀ {db : MessageDb σ} {ws : List (TipSetWrite σ)},
    AllCommit db ws → ∀ m ∈ runRows db ws, m.cid ∈ (runTipSetWrites db ws).messages.cids
  | _, [], _, _, hm => by simpa [runRows, MessageTable.cids] using List.mem_map_of_mem _ hm
  | db, w :: ws, ⟨hok, hrest⟩, m, hm => by
    rw [runTipSetWrites_cons]
    simp only [runRows, List.flatMap_cons, List.mem_append, ← or_assoc] at hm
    rcases hm with hm | hm
    · refine ((rows_prefix_runTipSetWrites _ ws).map _).subset ?_
      rcases hm with hm | hm
      · exact ((rows_prefix_tipSetTransaction w.env w.rows db).map _).subset
          (List.mem_map_of_mem _ hm)
      · exact cid_mem_run_of_ok hok hm
    · exact cid_mem_runTipSetWrites hrest m (List.mem_append_right _ hm)

theorem mem_runRows_of_mem {db : MessageDb σ} {ws : List (TipSetWrite σ)} {r : MessageModel}
    (h : r ∈ (runTipSetWrites db ws).messages.rows) : r ∈ runRows db ws := by
  rcases mem_runTipSetWrites h with h | ⟨w, hw, hr⟩
  · exact List.mem_append_left _ h
  · exact List.mem_append_right _ (List.mem_flatMap.2 ⟨w, hw, hr⟩)

/-- A run whose transactions all commit leaves exactly the stored and the written rows,
when rows of one CID are equal. -/
theorem mem_runTipSetWrites_iff {db : MessageDb σ} {ws : List (TipSetWrite σ)}
    (hcid : ∀ r ∈ runRows db ws, ∀ r' ∈ runRows db ws, r.cid = r'.cid → r = r')
    (hok : AllCommit db ws) {r : MessageModel} :
    r ∈ (runTipSetWrites db ws).messages.rows ↔ r ∈ runRows db ws := by
  refine ⟨mem_runRows_of_mem, fun hr => ?_⟩
  obtain ⟨r', hr', hc⟩ := List.mem_map.1 (cid_mem_runTipSetWrites hok r hr)
  rwa [← hcid r' (mem_runRows_of_mem hr') r hr hc]

/-- The rows a run of tipset transactions leaves in `messages` do not depend on the order of
the transactions, when every transaction commits in both orders and rows of one CID are
equal, as for content-addressed messages: the table then holds exactly the stored rows and
the rows the transactions write, each once. -/
theorem runTipSetWrites_perm (db : MessageDb σ) {ws ws' : List (TipSetWrite σ)}
    (hp : ws.Perm ws') (hcid : ∀ r ∈ runRows db ws, ∀ r' ∈ runRows db ws, r.cid = r'.cid → r = r')
    (hok : AllCommit db ws) (hok' : AllCommit db ws') :
    (∀ r, r ∈ (runTipSetWrites db ws).messages.rows ↔ r ∈ runRows db ws) ∧
      (runTipSetWrites db ws).messages.rows.Perm (runTipSetWrites db ws').messages.rows := by
  have hrows : (runRows db ws).Perm (runRows db ws') := (hp.flatMap_right _).append_left _
  have hcid' : ∀ r ∈ runRows db ws', ∀ r' ∈ runRows db ws', r.cid = r'.cid → r = r' :=
    fun r hr r' hr' => hcid r (hrows.mem_iff.2 hr) r' (hrows.mem_iff.2 hr')
  refine ⟨fun r => mem_runTipSetWrites_iff hcid hok, ?_⟩
  refine (List.perm_ext_iff_of_nodup (MessageTable.rows_nodup _) (MessageTable.rows_nodup _)).2
    fun r => ?_
  rw [mem_runTipSetWrites_iff hcid hok, mem_runTipSetWrites_iff hcid' hok']
  exact hrows.mem_iff

/-- Two tipsets sharing a message, written in both orders on an empty database that accepts
every write. -/
theorem runTipSetWrites_perm_two_tipsets :
    let tx : TxEnv Unit := ⟨fun _ => .ok (), fun s _ _ _ => .ok s, fun s _ => .ok s, .ok (), .ok ()⟩
    let msg (c : String) : MessageModel := ⟨c, "f01", "f02", 0, 0, 0, 0, 0, 0, 0, []⟩
    let write (ms : List MessageModel) : TipSetWrite Unit :=
      ⟨tx, ⟨ms, [], [], ⟨"root", 0, 0, 0⟩, []⟩⟩
    let db : MessageDb Unit := ⟨.empty, ()⟩
    let ws := [write [msg "a", msg "b"], write [msg "b", msg "c"]]
    ws.Perm ws.reverse ∧
      (∀ r ∈ runRows db ws, ∀ r' ∈ runRows db ws, r.cid = r'.cid → r = r') ∧
      AllCommit db ws ∧ AllCommit db ws.reverse ∧
      (∀ r, r ∈ (runTipSetWrites db ws).messages.rows ↔ r ∈ runRows db ws) ∧
      (runTipSetWrites db ws).messages.rows.Perm (runTipSetWrites db ws.reverse).messages.rows := by
  intro tx msg write db ws
  have hp : ws.Perm ws.reverse := (List.reverse_perm _).symm
  have hcid : ∀ r ∈ runRows db ws, ∀ r' ∈ runRows db ws, r.cid = r'.cid → r = r' := by decide
  have hok : AllCommit db ws := ⟨rfl, rfl, trivial⟩
  have hok' : AllCommit db ws.reverse := ⟨rfl, rfl, trivial⟩
  exact ⟨hp, hcid, hok, hok', runTipSetWrites_perm db hp hcid hok hok'⟩

/-! ## The message processor on a database -/

/-- The environment of `processTipSet` whose persist call is the tipset transaction on
`db`. -/
def TipSetEnv.onDb (env : TipSetEnv) (e : TxEnv σ) (db : MessageDb σ) : TipSetEnv :=
  { env with persist := fun rows => (tipSetTransaction e rows db).1 }

/-- A message of a block of a successfully fetched tipset is among the messages extracted
from the map, in any order Go ranges over it. -/
theorem mem_includedMessages_of_fetch {chainGetBlockMessages : Cid → Except String BlockMessages}
    {deadline : Nat} {cids : List Cid} {blkMsgs order : List (Cid × BlockMessages)}
    (hfetch : fetchMessages chainGetBlockMessages deadline 0 cids = .ok blkMsgs)
    (horder : order.Perm blkMsgs) {blk : Cid} (hblk : blk ∈ cids) {bm : BlockMessages}
    (hbm : chainGetBlockMessages blk = .ok bm) {m : Message} (hm : m ∈ bm.messages) :
    m ∈ includedMessages order := by
  obtain ⟨hkeys, hvals⟩ := fetchMessages_eq_ok hfetch
  rw [← hkeys] at hblk
  obtain ⟨⟨_, bm'⟩, hp, rfl⟩ := List.mem_map.1 hblk
  obtain rfl : bm' = bm := Except.ok.inj ((hvals _ hp).symm.trans hbm)
  simp only [includedMessages, inclusions, List.mem_map, List.mem_flatMap]
  exact ⟨_, ⟨_, horder.mem_iff.2 hp, m, hm, rfl⟩, rfl⟩

/-- The rows extracted from a fetched tipset hold a row for every message of each of its
blocks, in any order Go ranges over the map in. -/
theorem cids_extractMessageModels {env : TipSetEnv} (horder : ∀ l, (env.rangeOrder l).Perm l)
    {ts : TipSet} {blkMsgs : List (Cid × BlockMessages)}
    (hfetch : fetchMessages env.chainGetBlockMessages env.fetchDeadline 0 ts.cids = .ok blkMsgs)
    {msgs : List MessageModel} {bmsgs : List BlockMessage} {pmsgs : List ProcessingMessage}
    {econ : MessageGasEconomy}
    (hext : extractMessageModels env.msgCid env.serialize env.computeNextBaseFee env.extractDeadline
      ts (env.rangeOrder blkMsgs) = .ok (msgs, bmsgs, pmsgs, econ))
    {blk : Cid} (hblk : blk ∈ ts.cids) {bm : BlockMessages}
    (hbm : env.chainGetBlockMessages blk = .ok bm) {m : Message} (hm : m ∈ bm.messages) :
    ∃ r ∈ msgs, r.cid = (env.msgCid m).str := by
  -- the first occurrence of the message's CID gives a row of the extracted rows
  obtain ⟨m', hm', hcid⟩ := exists_newMessages_cid env.msgCid
    (mem_includedMessages_of_fetch hfetch (horder _) hblk hbm hm)
  refine ⟨messageModel env.msgCid m' (serializedSize env.serialize m'), ?_, by rw [← hcid]; rfl⟩
  rw [(extractMessageModels_eq_ok env.msgCid env.serialize hext).1]
  exact List.mem_map_of_mem _ hm'

/-- The rows `tipSetModels` extracts hold a row for every message of each block of the
tipset, in any order Go ranges over the map in. -/
theorem cids_tipSetModels {env : TipSetEnv} (horder : ∀ l, (env.rangeOrder l).Perm l)
    {ts : TipSet} {rows : TipSetRows} (h : tipSetModels env ts = .ok rows) {blk : Cid}
    (hblk : blk ∈ ts.cids) {bm : BlockMessages} (hbm : env.chainGetBlockMessages blk = .ok bm)
    {m : Message} (hm : m ∈ bm.messages) : ∃ r ∈ rows.messages, r.cid = (env.msgCid m).str := by
  simp only [tipSetModels, except_bind_eq_ok, except_mapError_eq_ok, except_pure_eq_ok] at h
  obtain ⟨blkMsgs, hfetch, _, -, ⟨msgs, bmsgs, pmsgs, econ⟩, hext, rfl⟩ := h
  exact cids_extractMessageModels horder hfetch hext hblk hbm hm

/-- Once `processTipSet` has processed a tipset on `db`, for every node, every order Go
ranges over the map in and every database: the rows it extracted were written by a
transaction that committed; every message of each block of the tipset has a row in
`messages`; the rows stored before are unchanged; and a later transaction of the same
rows, a retry of the tipset, writes no message row. -/
theorem processTipSet_messages {env : TipSetEnv} {e : TxEnv σ} {db : MessageDb σ}
    (horder : ∀ l, (env.rangeOrder l).Perm l) {ts : TipSet}
    (h : processTipSet (env.onDb e db) ts = .ok ()) :
    ∃ rows, tipSetModels env ts = .ok rows ∧ (tipSetTransaction e rows db).1 = .ok () ∧
      db.messages.rows <+: (tipSetTransaction e rows db).2.messages.rows ∧
      (∀ blk ∈ ts.cids, ∀ bm, env.chainGetBlockMessages blk = .ok bm → ∀ m ∈ bm.messages,
        (env.msgCid m).str ∈ (tipSetTransaction e rows db).2.messages.cids) ∧
      ∀ e' : TxEnv σ, (tipSetTransaction e' rows (tipSetTransaction e rows db).2).2.messages =
        (tipSetTransaction e rows db).2.messages := by
  rw [processTipSet_eq] at h
  simp only [except_bind_eq_ok, except_mapError_eq_ok] at h
  obtain ⟨rows, hrows, hcommit⟩ := h
  change (tipSetTransaction e rows db).1 = .ok () at hcommit
  change tipSetModels env ts = .ok rows at hrows
  rcases messages_tipSetTransaction e rows db with ⟨-, -, hdb⟩ | ⟨⟨err, herr⟩, -⟩
  swap
  · rw [herr] at hcommit
    cases hcommit
  have hstored : ∀ m ∈ rows.messages, m.cid ∈ (tipSetTransaction e rows db).2.messages.cids :=
    fun m hm => hdb ▸ MessageTable.cid_mem_foldl_insert hm
  refine ⟨rows, hrows, hcommit, hdb ▸ MessageTable.rows_prefix_foldl_insert _ _, ?_,
    fun e' => messages_tipSetTransaction_of_forall_mem e' hstored⟩
  intro blk hblk bm hbm m hm
  obtain ⟨r, hr, hcid⟩ := cids_tipSetModels horder hrows hblk hbm hm
  exact hcid ▸ hstored r hr

/-- A tipset of two blocks that both include one message, processed on an empty database
that accepts every write. -/
theorem processTipSet_messages_shared_message :
    let m : Message := ⟨⟨"f01"⟩, ⟨"f02"⟩, 0, 0, 10, 0, 0, 0, []⟩
    let env : TipSetEnv := ⟨fun _ => ⟨"bafy-m"⟩, fun m => .ok m.params, fun _ _ _ _ => 0,
      fun _ => .ok ⟨[m], []⟩, fun _ => .ok [], fun _ => .ok [],
      fun _ _ _ hr _ => by cases hr; exact Nat.zero_le _, id, fun _ => .ok (), 2, 2, 2⟩
    let e : TxEnv Unit :=
      ⟨fun _ => .ok (), fun s _ _ _ => .ok s, fun s _ => .ok s, .ok (), .ok ()⟩
    let db : MessageDb Unit := ⟨.empty, ()⟩
    let ts : TipSet := ⟨5, [⟨"bafy-b1"⟩, ⟨"bafy-b2"⟩], 100, ⟨"bafy-root"⟩⟩
    (∀ l, (env.rangeOrder l).Perm l) ∧ processTipSet (env.onDb e db) ts = .ok () ∧
      ∃ rows, tipSetModels env ts = .ok rows ∧ (tipSetTransaction e rows db).1 = .ok () ∧
        db.messages.rows <+: (tipSetTransaction e rows db).2.messages.rows ∧
        (∀ blk ∈ ts.cids, ∀ bm, env.chainGetBlockMessages blk = .ok bm → ∀ m ∈ bm.messages,
          (env.msgCid m).str ∈ (tipSetTransaction e rows db).2.messages.cids) ∧
        ∀ e' : TxEnv Unit, (tipSetTransaction e' rows (tipSetTransaction e rows db).2).2.messages =
          (tipSetTransaction e rows db).2.messages := by
  intro m env e db ts
  have hproc : processTipSet (env.onDb e db) ts = .ok () := rfl
  exact ⟨List.Perm.refl, hproc, processTipSet_messages List.Perm.refl hproc⟩

/-! ## A batch on a database -/

/-- The item environment whose `processTipSet` persists by the transaction on `db`. -/
def ItemEnv.onDb (env : ItemEnv) (e : TxEnv σ) (db : MessageDb σ) : ItemEnv :=
  { env with tipSetEnv := env.tipSetEnv.onDb e db }

/-- An item processed on `db` has committed the transaction of the rows it extracted. -/
theorem itemModels_of_processItem_onDb {env : ItemEnv} {e : TxEnv σ} {db : MessageDb σ}
    {item : ProcessingTipSet} (h : processItem (env.onDb e db) item = .ok ()) :
    ∃ rows, itemModels env item = .ok rows ∧ (tipSetTransaction e rows db).1 = .ok () := by
  rw [processItem_eq] at h
  simp only [except_bind_eq_ok, except_mapError_eq_ok] at h
  exact h

/-- The database after `processItem` on `db`: what its transaction leaves once the item
gets that far, and `db` otherwise. -/
def dbAfterItem (env : ItemEnv) (e : TxEnv σ) (db : MessageDb σ) (item : ProcessingTipSet) :
    MessageDb σ :=
  match itemModels env item with
  | .ok rows => (tipSetTransaction e rows db).2
  | .error _ => db

theorem rows_prefix_dbAfterItem (env : ItemEnv) (e : TxEnv σ) (db : MessageDb σ)
    (item : ProcessingTipSet) : db.messages.rows <+: (dbAfterItem env e db item).messages.rows := by
  unfold dbAfterItem
  split
  · exact rows_prefix_tipSetTransaction _ _ db
  · exact List.prefix_refl _

/-- For every node, database and order Go ranges over the map in: an item whose tipset has
more blocks than one of its three loops finds the lease live for writes nothing, and
`processItem` fails on it with an error of `processTipSet`. A lease that expires in the
middle of an item never leaves part of its rows behind. -/
theorem processItem_expired {env : ItemEnv} (e : TxEnv σ) (db : MessageDb σ)
    {item : ProcessingTipSet} {tsk : TipSetKey} {ts : TipSet}
    (horder : ∀ l, (env.tipSetEnv.rangeOrder l).Perm l) (htsk : env.tipSetKey item = .ok tsk)
    (hts : env.chainGetTipSet tsk = .ok ts)
    (hdl : env.tipSetEnv.fetchDeadline < ts.cids.length ∨
      env.tipSetEnv.receiptsDeadline < ts.cids.length ∨
      env.tipSetEnv.extractDeadline < ts.cids.length) :
    dbAfterItem env e db item = db ∧
      ∃ err, processItem (env.onDb e db) item = .error ("process tipset: " ++ err) := by
  obtain ⟨err, herr⟩ : ∃ err, tipSetModels env.tipSetEnv ts = .error err := by
    rcases h : tipSetModels env.tipSetEnv ts with err | rows
    · exact ⟨err, rfl⟩
    · have := length_le_of_tipSetModels horder h
      omega
  have hitem : itemModels env item = .error ("process tipset: " ++ err) := by
    simp only [itemModels, htsk, hts, herr, except_mapError_ok, except_mapError_error,
      except_ok_bind]
  refine ⟨by simp only [dbAfterItem, hitem], err, ?_⟩
  rw [processItem_eq]
  exact congrArg (· >>= _) hitem

/-- The database after the loop of `processBatch` from position `i`: the items it reaches
before the deadline, in order, item `j` with the database's answers `txAt j`. -/
def batchDb (envAt : Nat → ItemEnv) (txAt : Nat → TxEnv σ) (deadline : Nat) :
    Nat → List ProcessingTipSet → MessageDb σ → MessageDb σ
  | _, [], db => db
  | i, item :: rest, db =>
    if deadline ≤ i then db
    else batchDb envAt txAt deadline (i + 1) rest (dbAfterItem (envAt i) (txAt i) db item)

/-- The environments `processBatch` runs its items with: item `i` on the database the items
before it leave. -/
def batchEnvs (envAt : Nat → ItemEnv) (txAt : Nat → TxEnv σ) (deadline : Nat)
    (batch : List ProcessingTipSet) (db : MessageDb σ) (i : Nat) : ItemEnv :=
  (envAt i).onDb (txAt i) (batchDb envAt txAt deadline 0 (batch.take i) db)

section Batch

variable (envAt : Nat → ItemEnv) (txAt : Nat → TxEnv σ) (deadline : Nat)

theorem batchDb_of_le {i : Nat} (hi : deadline ≤ i) :
    ∀ (items : List ProcessingTipSet) (db : MessageDb σ),
      batchDb envAt txAt deadline i items db = db
  | [], _ => rfl
  | _ :: _, _ => if_pos hi

theorem batchDb_append :
    ∀ (i : Nat) (l₁ l₂ : List ProcessingTipSet) (db : MessageDb σ),
      batchDb envAt txAt deadline i (l₁ ++ l₂) db =
        batchDb envAt txAt deadline (i + l₁.length) l₂ (batchDb envAt txAt deadline i l₁ db)
  | _, [], _, _ => rfl
  | i, item :: l₁, l₂, db => by
    rw [List.cons_append, batchDb.eq_2, batchDb.eq_2, List.length_cons]
    split_ifs with hi
    · exact (batchDb_of_le envAt txAt deadline (by omega) _ _).symm
    · rw [batchDb_append (i + 1) l₁ l₂, Nat.add_right_comm, Nat.add_assoc]

theorem rows_prefix_batchDb :
    ∀ (i : Nat) (items : List ProcessingTipSet) (db : MessageDb σ),
      db.messages.rows <+: (batchDb envAt txAt deadline i items db).messages.rows
  | _, [], _ => List.prefix_refl _
  | i, item :: items, db => by
    unfold batchDb
    split_ifs
    · exact List.prefix_refl _
    · exact (rows_prefix_dbAfterItem _ _ db item).trans (rows_prefix_batchDb (i + 1) items _)

/-- The batch's database is the one item `i` leaves, carried through the items after it. -/
theorem batchDb_eq_of_lt (batch : List ProcessingTipSet) (db : MessageDb σ) {i : Nat}
    (hi : i < batch.length) (hdl : i < deadline) :
    batchDb envAt txAt deadline 0 batch db =
      batchDb envAt txAt deadline (i + 1) (batch.drop (i + 1))
        (dbAfterItem (envAt i) (txAt i) (batchDb envAt txAt deadline 0 (batch.take i) db)
          batch[i]) := by
  conv_lhs => rw [← List.take_append_drop i batch, List.drop_eq_getElem_cons hi]
  rw [batchDb_append, List.length_take_of_le hi.le, Nat.zero_add, batchDb, if_neg (by omega)]

end Batch

/-- Over every batch and deadline, every node's and database's answers at each item, and
from every database: the batch keeps every stored message row where it was, and every item
that `processBatch` marks complete with an empty message has, at the end of the batch, a
row for every message of each block of its tipset. -/
theorem processBatch_messages (envAt : Nat → ItemEnv) (txAt : Nat → TxEnv σ) (deadline : Nat)
    (batch : List ProcessingTipSet) (db : MessageDb σ)
    (horder : ∀ i l, ((envAt i).tipSetEnv.rangeOrder l).Perm l) :
    db.messages.rows <+: (batchDb envAt txAt deadline 0 batch db).messages.rows ∧
      ∀ i (hi : i < batch.length),
        (processBatch (.ok batch) (batchEnvs envAt txAt deadline batch db) deadline).2[2 * i + 1]? =
          some (.markTipSetMessagesComplete batch[i].tipSet batch[i].height "") →
        ∀ tsk ts, (envAt i).tipSetKey batch[i] = .ok tsk → (envAt i).chainGetTipSet tsk = .ok ts →
        ∀ blk ∈ ts.cids, ∀ bm, (envAt i).tipSetEnv.chainGetBlockMessages blk = .ok bm →
        ∀ m ∈ bm.messages, ((envAt i).tipSetEnv.msgCid m).str ∈
          (batchDb envAt txAt deadline 0 batch db).messages.cids := by
  refine ⟨rows_prefix_batchDb envAt txAt deadline 0 batch db, ?_⟩
  intro i hi hmark tsk ts htsk hts blk hblk bm hbm m hm
  obtain ⟨hdl, hmsg⟩ := mark_of_processBatch hi hmark
  obtain ⟨rows, hitem, hcommit⟩ :=
    itemModels_of_processItem_onDb ((completionMessage_processItem _ _).1 hmsg.symm)
  have hts' := hitem
  simp only [itemModels, htsk, hts, except_bind_eq_ok, except_mapError_eq_ok, Except.ok.injEq,
    exists_eq_left'] at hts'
  obtain ⟨r, hr, hcid⟩ := cids_tipSetModels (horder i) hts' hblk hbm hm
  rw [batchDb_eq_of_lt envAt txAt deadline batch db hi hdl, ← hcid]
  refine ((rows_prefix_batchDb envAt txAt deadline _ _ _).map _).subset ?_
  simp only [dbAfterItem, hitem]
  rcases messages_tipSetTransaction (txAt i) rows
    (batchDb envAt txAt deadline 0 (batch.take i) db) with ⟨-, -, hdb⟩ | ⟨⟨err, herr⟩, -⟩
  · rw [hdb]
    exact MessageTable.cid_mem_foldl_insert hr
  · exact absurd (herr.symm.trans hcommit) (by simp)

/-- A batch of two tipsets whose blocks share one message, on an empty database that accepts
every write: both items are marked complete with an empty message. -/
theorem processBatch_messages_two_items :
    let m : Message := ⟨⟨"f01"⟩, ⟨"f02"⟩, 0, 0, 10, 0, 0, 0, []⟩
    let ts : TipSet := ⟨5, [⟨"bafy-b1"⟩, ⟨"bafy-b2"⟩], 100, ⟨"bafy-root"⟩⟩
    let envAt : Nat → ItemEnv := fun _ => ⟨fun _ => .ok ts.key, fun _ => .ok ts,
      ⟨fun _ => ⟨"bafy-m"⟩, fun m => .ok m.params, fun _ _ _ _ => 0, fun _ => .ok ⟨[m], []⟩,
        fun _ => .ok [], fun _ => .ok [], fun _ _ _ hr _ => by cases hr; exact Nat.zero_le _, id,
        fun _ => .ok (), 2, 2, 2⟩⟩
    let txAt : Nat → TxEnv Unit := fun _ =>
      ⟨fun _ => .ok (), fun s _ _ _ => .ok s, fun s _ => .ok s, .ok (), .ok ()⟩
    let batch : List ProcessingTipSet := [⟨ts.key.toString, 5⟩, ⟨ts.key.toString, 5⟩]
    let db : MessageDb Unit := ⟨.empty, ()⟩
    (∀ i l, ((envAt i).tipSetEnv.rangeOrder l).Perm l) ∧
      (∀ i (hi : i < batch.length),
        (processBatch (.ok batch) (batchEnvs envAt txAt 2 batch db) 2).2[2 * i + 1]? =
          some (.markTipSetMessagesComplete batch[i].tipSet batch[i].height "")) ∧
      db.messages.rows <+: (batchDb envAt txAt 2 0 batch db).messages.rows ∧
      ∀ i (hi : i < batch.length),
        (processBatch (.ok batch) (batchEnvs envAt txAt 2 batch db) 2).2[2 * i + 1]? =
          some (.markTipSetMessagesComplete batch[i].tipSet batch[i].height "") →
        ∀ tsk ts, (envAt i).tipSetKey batch[i] = .ok tsk → (envAt i).chainGetTipSet tsk = .ok ts →
        ∀ blk ∈ ts.cids, ∀ bm, (envAt i).tipSetEnv.chainGetBlockMessages blk = .ok bm →
        ∀ m ∈ bm.messages, ((envAt i).tipSetEnv.msgCid m).str ∈
          (batchDb envAt txAt 2 0 batch db).messages.cids := by
  intro m ts envAt txAt batch db
  refine ⟨fun _ _ => List.Perm.refl _, ?_,
    processBatch_messages envAt txAt 2 batch db fun _ _ => List.Perm.refl _⟩
  intro i hi
  match i, hi with
  | 0, _ => rfl
  | 1, _ => rfl

end SentinelVisor
