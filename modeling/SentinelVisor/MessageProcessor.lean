import SentinelVisor.MessageModels

/-!
# The message processor's batch loop

`MessageProcessor.processBatch` (gap/find.go) leases a batch of tipsets, then walks it in
order. Before each item it checks `ctx.Done()`, which carries the lease's deadline.
`processItem` runs on each item it reaches, and `MarkTipSetMessagesComplete` then records
`err.Error()` or `""` as the item's completion message. An error of either call is only
logged, and the batch returns `(false, nil)` however it ends.

The lease's deadline is the index of the first check that finds it passed, as in the
message models. `processItem` runs on an environment of its own at each position: the
node's and the database's answers may change from call to call. The outcome of
`MarkTipSetMessagesComplete` is only logged, and logging is left out, so nothing here
depends on it. `processBatch` returns its `(bool, error)` with the trace of its calls.

`processItem` wraps every error it returns in a prefix (`processItem_error`), so a
completion message is empty exactly when the item succeeded. `length_processItems` and
`getElem?_processItems` are the loop's specification: two calls for each item before the
deadline, its `processItem` call and then its one mark. `processBatch_trace` puts the two
together.

`fetchReceipts` gives each receipt of a block's parent messages a row naming the message at
the receipt's position (`fetchReceipts_rows`); the node returns a parent message for each
receipt, so the index is always in range. `processTipSet_eq` and
`processItem_eq` split both calls at their transaction: the rows they extract
(`tipSetModels`, `itemModels`), then `persist`.
-/

namespace SentinelVisor

/-- `visor.ProcessingTipSet`: a leased tipset of message work. -/
structure ProcessingTipSet where
  tipSet : String
  height : Int
  deriving DecidableEq, Repr

/-! ## Processing one tipset -/

/-- `MessageProcessor.fetchMessages`: each block's messages, in the tipset's block order. -/
def fetchMessages (chainGetBlockMessages : Cid → Except String BlockMessages) (deadline : Nat) :
    Nat → List Cid → Except String (List (Cid × BlockMessages))
  | _, [] => .ok []
  | i, blk :: rest =>
    if deadline ≤ i then .error "context deadline exceeded"
    else do
      let blkMsgs ← chainGetBlockMessages blk
      let out ← fetchMessages chainGetBlockMessages deadline (i + 1) rest
      pure ((blk, blkMsgs) :: out)

/-- A successful `fetchMessages` holds one entry for each block, with what the node
returned for it. -/
theorem fetchMessages_eq_ok {chainGetBlockMessages : Cid → Except String BlockMessages}
    {deadline : Nat} :
    ∀ {i : Nat} {cids : List Cid} {out : List (Cid × BlockMessages)},
      fetchMessages chainGetBlockMessages deadline i cids = .ok out →
      out.map Prod.fst = cids ∧ ∀ p ∈ out, chainGetBlockMessages p.1 = .ok p.2
  | _, [], _, h => by
    cases h
    exact ⟨rfl, fun _ h => absurd h (List.not_mem_nil _)⟩
  | i, blk :: rest, out, h => by
    unfold fetchMessages at h
    split_ifs at h
    simp only [except_bind_eq_ok, except_pure_eq_ok] at h
    obtain ⟨bm, hbm, out', hout', rfl⟩ := h
    obtain ⟨hkeys, hvals⟩ := fetchMessages_eq_ok hout'
    refine ⟨by rw [List.map_cons, hkeys], ?_⟩
    rintro p (_ | ⟨_, hp⟩)
    · exact hbm
    · exact hvals p hp

/-- A successful `fetchMessages` found the lease live at its check before every block. -/
theorem length_le_of_fetchMessages {chainGetBlockMessages : Cid → Except String BlockMessages}
    {deadline : Nat} :
    ∀ {i : Nat} {cids : List Cid} {out : List (Cid × BlockMessages)},
      fetchMessages chainGetBlockMessages deadline i cids = .ok out → cids.length ≤ deadline - i
  | _, [], _, _ => Nat.zero_le _
  | i, blk :: rest, out, h => by
    unfold fetchMessages at h
    split_ifs at h with hi
    simp only [except_bind_eq_ok, except_pure_eq_ok] at h
    obtain ⟨-, -, out', hout', -⟩ := h
    have := length_le_of_fetchMessages hout'
    simp only [List.length_cons]
    omega

/-- `types.MessageReceipt`: what executing a message returned. -/
structure MessageReceipt where
  exitCode : Int
  ret : List UInt8
  gasUsed : Int
  deriving DecidableEq, Repr

/-- `messagemodel.Receipt`: a row of `receipts`. -/
structure Receipt where
  message : String
  stateRoot : String
  idx : Nat
  exitCode : Int
  gasUsed : Int
  ret : List UInt8
  deriving DecidableEq, Repr

/-- The rows of one block's receipts: the `i`-th receipt with the CID of the `i`-th parent
message (`msgs[i]`). The node returns a parent message for each receipt
(`TipSetEnv.parentReceipts_le`), so the default is never read. -/
def receiptRows (stateRoot : Cid) (recs : List MessageReceipt) (msgs : List Cid) :
    List Receipt :=
  recs.enum.map fun (i, r) =>
    { message := (msgs.getD i ⟨""⟩).str, stateRoot := stateRoot.str, idx := i,
      exitCode := r.exitCode, gasUsed := r.gasUsed, ret := r.ret }

/-- `MessageProcessor.fetchReceipts`: each block's receipt rows, in the tipset's block
order. -/
def fetchReceipts (chainGetParentReceipts : Cid → Except String (List MessageReceipt))
    (chainGetParentMessages : Cid → Except String (List Cid)) (deadline : Nat) (stateRoot : Cid) :
    Nat → List Cid → Except String (List Receipt)
  | _, [] => .ok []
  | i, blk :: rest =>
    if deadline ≤ i then .error "context deadline exceeded"
    else do
      let recs ← chainGetParentReceipts blk
      let msgs ← chainGetParentMessages blk
      let out ← fetchReceipts chainGetParentReceipts chainGetParentMessages deadline stateRoot
        (i + 1) rest
      pure (receiptRows stateRoot recs msgs ++ out)

/-- A successful `fetchReceipts` holds, for each block in order, the rows of what the node
returned for it. -/
theorem fetchReceipts_eq_ok {chainGetParentReceipts : Cid → Except String (List MessageReceipt)}
    {chainGetParentMessages : Cid → Except String (List Cid)} {deadline : Nat} {stateRoot : Cid} :
    ∀ {i : Nat} {cids : List Cid} {out : List Receipt},
      fetchReceipts chainGetParentReceipts chainGetParentMessages deadline stateRoot i cids =
        .ok out →
      ∃ parts : List (List MessageReceipt × List Cid),
        List.Forall₂ (fun blk p => chainGetParentReceipts blk = .ok p.1 ∧
          chainGetParentMessages blk = .ok p.2) cids parts ∧
        out = parts.flatMap fun p => receiptRows stateRoot p.1 p.2
  | _, [], _, h => by
    cases h
    exact ⟨[], .nil, rfl⟩
  | i, blk :: rest, out, h => by
    unfold fetchReceipts at h
    split_ifs at h
    simp only [except_bind_eq_ok, except_pure_eq_ok] at h
    obtain ⟨recs, hrecs, msgs, hmsgs, out', hout', rfl⟩ := h
    obtain ⟨parts, hparts, rfl⟩ := fetchReceipts_eq_ok hout'
    exact ⟨(recs, msgs) :: parts, .cons ⟨hrecs, hmsgs⟩ hparts, rfl⟩

/-- A successful `fetchReceipts` found the lease live at its check before every block. -/
theorem length_le_of_fetchReceipts
    {chainGetParentReceipts : Cid → Except String (List MessageReceipt)}
    {chainGetParentMessages : Cid → Except String (List Cid)} {deadline : Nat} {stateRoot : Cid} :
    ∀ {i : Nat} {cids : List Cid} {out : List Receipt},
      fetchReceipts chainGetParentReceipts chainGetParentMessages deadline stateRoot i cids =
        .ok out → cids.length ≤ deadline - i
  | _, [], _, _ => Nat.zero_le _
  | i, blk :: rest, out, h => by
    unfold fetchReceipts at h
    split_ifs at h with hi
    simp only [except_bind_eq_ok, except_pure_eq_ok] at h
    obtain ⟨-, -, -, -, out', hout', -⟩ := h
    have := length_le_of_fetchReceipts hout'
    simp only [List.length_cons]
    omega

/-- With a parent message for each receipt, the rows pair the `j`-th receipt with the `j`-th
parent message. -/
theorem receiptRows_eq_zip (stateRoot : Cid) {msgs : List Cid} :
    ∀ (recs : List MessageReceipt) (n : Nat), n + recs.length ≤ msgs.length →
      (recs.enumFrom n).map (fun (i, r) =>
        ({ message := (msgs.getD i ⟨""⟩).str, stateRoot := stateRoot.str, idx := i,
           exitCode := r.exitCode, gasUsed := r.gasUsed, ret := r.ret } : Receipt)) =
      ((recs.zip (msgs.drop n)).enumFrom n).map fun (j, r, c) =>
        ({ message := c.str, stateRoot := stateRoot.str, idx := j, exitCode := r.exitCode,
           gasUsed := r.gasUsed, ret := r.ret } : Receipt)
  | [], _, _ => rfl
  | r :: recs, n, hle => by
    have hn : n < msgs.length := by simp only [List.length_cons] at hle; omega
    rw [List.drop_eq_getElem_cons hn, List.zip_cons_cons, List.enumFrom_cons, List.enumFrom_cons,
      List.map_cons, List.map_cons, receiptRows_eq_zip stateRoot recs (n + 1)
        (by simp only [List.length_cons] at hle; omega)]
    simp only [List.getD_eq_getElem?_getD, List.getElem?_eq_getElem hn, Option.getD_some]

/-- The rows of a block whose node returned a parent message for each receipt. -/
theorem receiptRows_eq (stateRoot : Cid) {recs : List MessageReceipt} {msgs : List Cid}
    (hle : recs.length ≤ msgs.length) :
    receiptRows stateRoot recs msgs = (recs.zip msgs).enum.map fun (j, r, c) =>
      { message := c.str, stateRoot := stateRoot.str, idx := j, exitCode := r.exitCode,
        gasUsed := r.gasUsed, ret := r.ret } := by
  exact @receiptRows_eq_zip stateRoot msgs recs 0 (by simpa using hle)

/-- The rows `processTipSet` persists in one transaction: `messagemodel.MessageTaskResult`
and the processing messages. -/
structure TipSetRows where
  messages : List MessageModel
  blockMessages : List BlockMessage
  receipts : List Receipt
  gasEconomy : MessageGasEconomy
  processingMessages : List ProcessingMessage

/-- What the node and the database return while one tipset is processed. `rangeOrder` is
the order in which Go ranges over the map of block messages. The node returns a parent
message for each receipt of a block, as `fetchReceipts` assumes when it indexes the
messages by the receipts' positions (`parentReceipts_le`). Each of the three loops has its
own deadline index. -/
structure TipSetEnv where
  msgCid : Message → Cid
  serialize : Message → Except String (List UInt8)
  computeNextBaseFee : Int → BitVec 64 → Nat → Int → Int
  chainGetBlockMessages : Cid → Except String BlockMessages
  chainGetParentReceipts : Cid → Except String (List MessageReceipt)
  chainGetParentMessages : Cid → Except String (List Cid)
  parentReceipts_le : ∀ blk recs msgs, chainGetParentReceipts blk = .ok recs →
    chainGetParentMessages blk = .ok msgs → recs.length ≤ msgs.length
  rangeOrder : List (Cid × BlockMessages) → List (Cid × BlockMessages)
  persist : TipSetRows → Except String Unit
  fetchDeadline : Nat
  receiptsDeadline : Nat
  extractDeadline : Nat

/-- `MessageProcessor.processTipSet`. -/
def processTipSet (env : TipSetEnv) (ts : TipSet) : Except String Unit := do
  let blkMsgs ← (fetchMessages env.chainGetBlockMessages env.fetchDeadline 0 ts.cids).mapError
    fun err => "fetch messages: " ++ err
  let rcts ← (fetchReceipts env.chainGetParentReceipts env.chainGetParentMessages
    env.receiptsDeadline ts.parentState 0 ts.cids).mapError fun err => "fetch receipts: " ++ err
  let (msgs, bmsgs, processingMsgs, econ) ← (extractMessageModels env.msgCid env.serialize
    env.computeNextBaseFee env.extractDeadline ts (env.rangeOrder blkMsgs)).mapError
    fun err => "extract message models: " ++ err
  (env.persist ⟨msgs, bmsgs, rcts, econ, processingMsgs⟩).mapError fun err => "persist: " ++ err

/-- What `processTipSet` computes before its transaction: the rows it hands to `persist`,
with the errors it wraps. -/
def tipSetModels (env : TipSetEnv) (ts : TipSet) : Except String TipSetRows := do
  let blkMsgs ← (fetchMessages env.chainGetBlockMessages env.fetchDeadline 0 ts.cids).mapError
    fun err => "fetch messages: " ++ err
  let rcts ← (fetchReceipts env.chainGetParentReceipts env.chainGetParentMessages
    env.receiptsDeadline ts.parentState 0 ts.cids).mapError fun err => "fetch receipts: " ++ err
  let (msgs, bmsgs, processingMsgs, econ) ← (extractMessageModels env.msgCid env.serialize
    env.computeNextBaseFee env.extractDeadline ts (env.rangeOrder blkMsgs)).mapError
    fun err => "extract message models: " ++ err
  pure ⟨msgs, bmsgs, rcts, econ, processingMsgs⟩

/-- `processTipSet` is `tipSetModels`, then `persist` on its rows. -/
theorem processTipSet_eq (env : TipSetEnv) (ts : TipSet) :
    processTipSet env ts = tipSetModels env ts >>= fun rows =>
      (env.persist rows).mapError fun err => "persist: " ++ err := by
  simp only [processTipSet, tipSetModels, bind_assoc, pure_bind]

/-- Rows are extracted only when each of the three loops found the lease live before every
block of the tipset, in any order Go ranges over the map in. -/
theorem length_le_of_tipSetModels {env : TipSetEnv} (horder : ∀ l, (env.rangeOrder l).Perm l)
    {ts : TipSet} {rows : TipSetRows} (h : tipSetModels env ts = .ok rows) :
    ts.cids.length ≤ env.fetchDeadline ∧ ts.cids.length ≤ env.receiptsDeadline ∧
      ts.cids.length ≤ env.extractDeadline := by
  simp only [tipSetModels, except_bind_eq_ok, except_mapError_eq_ok] at h
  obtain ⟨blkMsgs, hfetch, _, hrcts, _, hext, -⟩ := h
  have hlen : (env.rangeOrder blkMsgs).length = ts.cids.length := by
    rw [(horder _).length_eq, ← (fetchMessages_eq_ok hfetch).1, List.length_map]
  exact ⟨length_le_of_fetchMessages hfetch, length_le_of_fetchReceipts hrcts,
    hlen ▸ length_le_of_extractMessageModels env.msgCid env.serialize hext⟩

/-- For every tipset and every node, a successful `fetchReceipts` holds, for each block in
the tipset's order, one row per receipt of its parent messages, in order: the `j`-th with
index `j`, the CID of the `j`-th parent message, the tipset's parent state root, and the
receipt's exit code, gas used and return value. -/
theorem fetchReceipts_rows (env : TipSetEnv) (ts : TipSet) {out : List Receipt}
    (h : fetchReceipts env.chainGetParentReceipts env.chainGetParentMessages env.receiptsDeadline
      ts.parentState 0 ts.cids = .ok out) :
    ∃ parts : List (List MessageReceipt × List Cid),
      List.Forall₂ (fun blk p => env.chainGetParentReceipts blk = .ok p.1 ∧
        env.chainGetParentMessages blk = .ok p.2) ts.cids parts ∧
      out = parts.flatMap fun p => (p.1.zip p.2).enum.map fun (j, r, c) =>
        { message := c.str, stateRoot := ts.parentState.str, idx := j, exitCode := r.exitCode,
          gasUsed := r.gasUsed, ret := r.ret } := by
  obtain ⟨parts, hparts, rfl⟩ := fetchReceipts_eq_ok h
  refine ⟨parts, hparts, ?_⟩
  clear h
  generalize ts.cids = cids at hparts
  induction hparts with
  | nil => rfl
  | cons hp _ ih =>
    rw [List.flatMap_cons, List.flatMap_cons, ih,
      receiptRows_eq _ (env.parentReceipts_le _ _ _ hp.1 hp.2)]

/-- What one `processItem` call reads: `item.TipSetKey()`, the node's tipset lookup, and
the environment of `processTipSet`. -/
structure ItemEnv where
  tipSetKey : ProcessingTipSet → Except String TipSetKey
  chainGetTipSet : TipSetKey → Except String TipSet
  tipSetEnv : TipSetEnv

/-- `MessageProcessor.processItem`. -/
def processItem (env : ItemEnv) (item : ProcessingTipSet) : Except String Unit := do
  let tsk ← (env.tipSetKey item).mapError fun err => "get tipsetkey: " ++ err
  let ts ← (env.chainGetTipSet tsk).mapError fun err => "get tipset: " ++ err
  (processTipSet env.tipSetEnv ts).mapError fun err => "process tipset: " ++ err

/-- What `processItem` computes before its transaction, with the errors it wraps. -/
def itemModels (env : ItemEnv) (item : ProcessingTipSet) : Except String TipSetRows := do
  let tsk ← (env.tipSetKey item).mapError fun err => "get tipsetkey: " ++ err
  let ts ← (env.chainGetTipSet tsk).mapError fun err => "get tipset: " ++ err
  (tipSetModels env.tipSetEnv ts).mapError fun err => "process tipset: " ++ err

/-- `processItem` is `itemModels`, then `persist` on its rows. -/
theorem processItem_eq (env : ItemEnv) (item : ProcessingTipSet) :
    processItem env item = itemModels env item >>= fun rows =>
      ((env.tipSetEnv.persist rows).mapError
        fun err => "persist: " ++ err).mapError fun err => "process tipset: " ++ err := by
  simp only [processItem, itemModels, processTipSet_eq, except_mapError_bind, bind_assoc]

/-- Every error of `processItem` is one of its three wrappings. -/
theorem processItem_error {env : ItemEnv} {item : ProcessingTipSet} {e : String}
    (h : processItem env item = .error e) :
    ∃ err, e = "get tipsetkey: " ++ err ∨ e = "get tipset: " ++ err ∨
      e = "process tipset: " ++ err := by
  simp only [processItem, except_bind_eq_error, except_mapError_eq_error] at h
  rcases h with ⟨err, -, rfl⟩ | ⟨_, -, ⟨err, -, rfl⟩ | ⟨_, -, err, -, rfl⟩⟩
  · exact ⟨err, .inl rfl⟩
  · exact ⟨err, .inr (.inl rfl)⟩
  · exact ⟨err, .inr (.inr rfl)⟩

theorem append_ne_empty {pre : String} (err : String) (h : pre ≠ "") : pre ++ err ≠ "" := by
  intro he
  have : pre.data ++ err.data = [] := congrArg String.data he
  exact h (String.ext (List.append_eq_nil.1 this).1)

/-! ## The batch -/

/-- What `processBatch` does, in order. -/
inductive BatchEvent
  | processItem (item : ProcessingTipSet)
  | markTipSetMessagesComplete (tipSet : String) (height : Int) (errorMessage : String)
  deriving DecidableEq, Repr

/-- The completion message recorded for an outcome of `processItem`: `err.Error()`, or
`""` on success. -/
def completionMessage : Except String Unit → String
  | .error err => err
  | .ok () => ""

/-- The completion message is empty exactly when the item succeeded. -/
theorem completionMessage_processItem (env : ItemEnv) (item : ProcessingTipSet) :
    completionMessage (processItem env item) = "" ↔ processItem env item = .ok () := by
  rcases h : processItem env item with e | ⟨⟩
  · obtain ⟨err, rfl | rfl | rfl⟩ := processItem_error h <;>
      simpa [completionMessage] using append_ne_empty err (by decide)
  · simp [completionMessage]

/-- The calls made for `item` at position `i` of the batch. -/
def itemEvents (envAt : Nat → ItemEnv) (i : Nat) (item : ProcessingTipSet) : List BatchEvent :=
  [.processItem item,
    .markTipSetMessagesComplete item.tipSet item.height
      (completionMessage (processItem (envAt i) item))]

/-- The loop of `processBatch` from position `i`. -/
def processItems (envAt : Nat → ItemEnv) (deadline : Nat) :
    Nat → List ProcessingTipSet → List BatchEvent
  | _, [] => []
  | i, item :: rest =>
    if deadline ≤ i then []
    else itemEvents envAt i item ++ processItems envAt deadline (i + 1) rest

/-- `MessageProcessor.processBatch`: its `(bool, error)` and the trace of its calls, for
the outcome of `LeaseTipSetMessages`. -/
def processBatch (lease : Except String (List ProcessingTipSet)) (envAt : Nat → ItemEnv)
    (deadline : Nat) : (Bool × Option String) × List BatchEvent :=
  match lease with
  | .error err => ((true, some err), [])
  | .ok [] => ((false, none), [])
  | .ok batch => ((false, none), processItems envAt deadline 0 batch)

/-- The loop from position `i` makes two calls for each item it reaches before the
deadline. -/
theorem length_processItems (envAt : Nat → ItemEnv) (deadline : Nat) :
    ∀ (i : Nat) (items : List ProcessingTipSet),
      (processItems envAt deadline i items).length = 2 * min (deadline - i) items.length
  | _, [] => by simp [processItems]
  | i, item :: rest => by
    unfold processItems
    split_ifs with hi
    · simp only [List.length_nil, Nat.sub_eq_zero_of_le hi, Nat.zero_min, Nat.mul_zero]
    · rw [List.length_append, length_processItems envAt deadline (i + 1) rest]
      simp only [itemEvents, List.length_cons, List.length_nil]
      omega

/-- The calls for the `j`-th item the loop reaches before the deadline: `processItem` on
it, then its mark with the completion message of that call. -/
theorem getElem?_processItems (envAt : Nat → ItemEnv) (deadline : Nat) :
    ∀ (i : Nat) (items : List ProcessingTipSet) (j : Nat) (hj : j < items.length),
      i + j < deadline →
      (processItems envAt deadline i items)[2 * j]? = some (.processItem items[j]) ∧
        (processItems envAt deadline i items)[2 * j + 1]? =
          some (.markTipSetMessagesComplete items[j].tipSet items[j].height
            (completionMessage (processItem (envAt (i + j)) items[j])))
  | i, item :: rest, 0, _, hd => by
    rw [processItems, if_neg (by omega)]
    simp [itemEvents]
  | i, item :: rest, j + 1, hj, hd => by
    rw [processItems, if_neg (by omega)]
    have ih := getElem?_processItems envAt deadline (i + 1) rest j
      (Nat.lt_of_succ_lt_succ hj) (by omega)
    rw [Nat.add_right_comm i 1 j] at ih
    simpa only [itemEvents, List.cons_append, List.nil_append, Nat.mul_succ,
      List.getElem?_cons_succ, List.getElem_cons_succ, Nat.add_succ] using ih

/-- What a leased batch's trace is, as `processItems` from the first position. -/
theorem trace_processBatch (batch : List ProcessingTipSet) (envAt : Nat → ItemEnv)
    (deadline : Nat) :
    (processBatch (.ok batch) envAt deadline).2 = processItems envAt deadline 0 batch := by
  cases batch <;> rfl

/-- The entry after the `i`-th item's `processItem` call marks it: it is there only when the
item came before the deadline, and it carries that call's completion message. -/
theorem mark_of_processBatch {batch : List ProcessingTipSet} {envAt : Nat → ItemEnv}
    {deadline i : Nat} (hi : i < batch.length) {tipSet : String} {height : Int} {msg : String}
    (h : (processBatch (.ok batch) envAt deadline).2[2 * i + 1]? =
      some (.markTipSetMessagesComplete tipSet height msg)) :
    i < deadline ∧ msg = completionMessage (processItem (envAt i) batch[i]) := by
  rw [trace_processBatch] at h
  by_cases hd : i < deadline
  · obtain ⟨-, hmark⟩ := getElem?_processItems envAt deadline 0 batch i hi (by omega)
    rw [hmark, Nat.zero_add] at h
    simp only [Option.some.injEq, BatchEvent.markTipSetMessagesComplete.injEq] at h
    exact ⟨hd, h.2.2.symm⟩
  · have hlen := length_processItems envAt deadline 0 batch
    rw [List.getElem?_eq_none (by omega)] at h
    cases h

/-- For every leased batch, every outcome of each `processItem` call and every deadline,
`processBatch` returns `(false, nil)`, and its trace holds two calls for each item before
the deadline and nothing else: at position `2 * i` the `processItem` call on item `i`, and
right after it the item's one mark, with a message that is empty exactly when that call
succeeded. -/
theorem processBatch_trace (batch : List ProcessingTipSet) (envAt : Nat → ItemEnv)
    (deadline : Nat) :
    (processBatch (.ok batch) envAt deadline).1 = (false, none) ∧
      (processBatch (.ok batch) envAt deadline).2.length = 2 * min deadline batch.length ∧
      (∀ i (hi : i < batch.length), i < deadline →
        (processBatch (.ok batch) envAt deadline).2[2 * i]? = some (.processItem batch[i]) ∧
          (processBatch (.ok batch) envAt deadline).2[2 * i + 1]? =
            some (.markTipSetMessagesComplete batch[i].tipSet batch[i].height
              (completionMessage (processItem (envAt i) batch[i])))) ∧
      ∀ i item, completionMessage (processItem (envAt i) item) = "" ↔
        processItem (envAt i) item = .ok () := by
  rw [trace_processBatch]
  refine ⟨by cases batch <;> rfl, length_processItems envAt deadline 0 batch, fun i hi hd => ?_,
    fun i item => completionMessage_processItem (envAt i) item⟩
  simpa only [Nat.zero_add] using getElem?_processItems envAt deadline 0 batch i hi (by omega)

/-- Three leased tipsets whose lease passes before the third; the first item's key does not
parse. -/
theorem processBatch_trace_three_items :
    let ts : TipSet := ⟨6, [⟨"bafy-b1"⟩], 100, ⟨"bafy-root"⟩⟩
    let envAt : Nat → ItemEnv := fun _ =>
      ⟨fun item => if item.height = 5 then .error "bad key" else .ok ts.key, fun _ => .ok ts,
        ⟨fun _ => ⟨"bafy-m"⟩, fun m => .ok m.params, fun _ _ _ _ => 0, fun _ => .ok ⟨[], []⟩,
          fun _ => .ok [], fun _ => .ok [], fun _ _ _ hr _ => by cases hr; exact Nat.zero_le _,
          id, fun _ => .ok (), 1, 1, 1⟩⟩
    let batch : List ProcessingTipSet := [⟨"bad", 5⟩, ⟨ts.key.toString, 6⟩, ⟨ts.key.toString, 6⟩]
    (processBatch (.ok batch) envAt 2).1 = (false, none) ∧
      (processBatch (.ok batch) envAt 2).2.length = 2 * min 2 batch.length ∧
      (∀ i (hi : i < batch.length), i < 2 →
        (processBatch (.ok batch) envAt 2).2[2 * i]? = some (.processItem batch[i]) ∧
          (processBatch (.ok batch) envAt 2).2[2 * i + 1]? =
            some (.markTipSetMessagesComplete batch[i].tipSet batch[i].height
              (completionMessage (processItem (envAt i) batch[i])))) ∧
      ∀ i item, completionMessage (processItem (envAt i) item) = "" ↔
        processItem (envAt i) item = .ok () :=
  processBatch_trace _ _ _

end SentinelVisor
