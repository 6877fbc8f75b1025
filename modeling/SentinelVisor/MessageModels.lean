import SentinelVisor.Except
import SentinelVisor.Chain
import Mathlib.Data.BitVec

/-!
# The message models of a tipset

`MessageProcessor.extractMessageModels` (message processor, gap/find.go) walks the map of
each block's messages, in Go's map iteration order, and every message of a block, BLS
then secp. Every (block, message) inclusion gives a `BlockMessage` row. A message whose CID
is not yet in `msgsSeen` also gives a `Message` row and a processing row. Two `int64`
accumulators sum gas limits: `totalUniqGasLimit` before the `msgsSeen` test, so over every
inclusion, and `totalGasLimit` after it, so over the distinct messages. The first is what
`store.ComputeNextBaseFee` receives and what `GasLimitUniqueTotal` reports. The second is
`GasLimitTotal`.

The map is given as the list of its entries in iteration order, so a theorem over every
list is one over every map and every order. A message's CID and serialization come from
the chain library and are the parameters `msgCid` and `serialize`. The float columns of
`MessageGasEconomy` are left out; `nextBaseFee` is the `newBaseFee` they are computed from.

`foldlM_extractMessage` is the loop's specification: a successful run from `s` over the
inclusions ends in `s.after`, which records `newMessages`, the first message of each CID
not yet seen. `extractMessageModels_entries` follows from it: one row per distinct CID,
one block row per inclusion, and the same sets in every order. `extractMessageModels_gas`
says what the accumulators hold.
-/

namespace SentinelVisor

/-- `types.Message`, with the fields the message task reads. `gasLimit` is the `int64`
field in two's complement. -/
structure Message where
  «to» : Address
  «from» : Address
  nonce : UInt64
  value : Int
  gasLimit : BitVec 64
  gasFeeCap : Int
  gasPremium : Int
  method : UInt64
  params : List UInt8
  deriving DecidableEq, Repr

/-- `types.SignedMessage`: the task reads only its message. -/
structure SignedMessage where
  message : Message
  deriving DecidableEq, Repr

/-- `api.BlockMessages`: a block's BLS and secp messages. -/
structure BlockMessages where
  blsMessages : List Message
  secpkMessages : List SignedMessage
  deriving DecidableEq, Repr

/-- `vmm`: a block's messages, BLS then secp, duplicates kept. -/
def BlockMessages.messages (bm : BlockMessages) : List Message :=
  bm.blsMessages ++ bm.secpkMessages.map (·.message)

/-- `messagemodel.Message`: a row of `messages`. Big integers are kept as numbers rather
than their decimal strings. -/
structure MessageModel where
  cid : String
  «from» : String
  «to» : String
  value : Int
  gasFeeCap : Int
  gasPremium : Int
  gasLimit : BitVec 64
  sizeBytes : Nat
  nonce : UInt64
  method : UInt64
  params : List UInt8
  deriving DecidableEq, Repr

/-- `messagemodel.BlockMessage`: a block and a message it includes. -/
structure BlockMessage where
  block : String
  message : String
  deriving DecidableEq, Repr

/-- `visor.ProcessingMessage`: a message queued for the later stages. -/
structure ProcessingMessage where
  cid : String
  height : Int
  deriving DecidableEq, Repr

/-- `messagemodel.MessageGasEconomy`, without its float columns. -/
structure MessageGasEconomy where
  stateRoot : String
  gasLimitTotal : BitVec 64
  gasLimitUniqueTotal : BitVec 64
  nextBaseFee : Int
  deriving DecidableEq, Repr

/-- The loop state of `extractMessageModels`. -/
structure ExtractState where
  msgModels : List MessageModel
  bmsgModels : List BlockMessage
  pmsgModels : List ProcessingMessage
  msgsSeen : List Cid
  totalGasLimit : BitVec 64
  totalUniqGasLimit : BitVec 64

/-- The state before the first block. -/
def ExtractState.init : ExtractState := ⟨[], [], [], [], 0, 0⟩

/-- Every (block, message) inclusion of the map, in iteration order. -/
def inclusions (blkMsgs : List (Cid × BlockMessages)) : List (Cid × Message) :=
  blkMsgs.flatMap fun p => p.2.messages.map (p.1, ·)

/-- The messages included in some block, with repetitions. -/
def includedMessages (blkMsgs : List (Cid × BlockMessages)) : List Message :=
  (inclusions blkMsgs).map Prod.snd

section Extract

variable (msgCid : Message → Cid) (serialize : Message → Except String (List UInt8))

/-- The `Message` row of a message whose serialization is `sizeBytes` long. -/
def messageModel (message : Message) (sizeBytes : Nat) : MessageModel :=
  { cid := (msgCid message).str, «from» := message.«from».str, «to» := message.«to».str,
    value := message.value, gasFeeCap := message.gasFeeCap, gasPremium := message.gasPremium,
    gasLimit := message.gasLimit, sizeBytes := sizeBytes, nonce := message.nonce,
    method := message.method, params := message.params }

@[simp] theorem messageModel_cid (m : Message) (n : Nat) :
    (messageModel msgCid m n).cid = (msgCid m).str := rfl

@[simp] theorem messageModel_gasLimit (m : Message) (n : Nat) :
    (messageModel msgCid m n).gasLimit = m.gasLimit := rfl

/-- Modelled from the spec: `visor.NewProcessingMessage`, absent from the sources; the row
names the message by its CID, at the tipset's height. -/
def newProcessingMessage (message : Message) (height : Int) : ProcessingMessage :=
  ⟨(msgCid message).str, height⟩

@[simp] theorem newProcessingMessage_cid (m : Message) (height : Int) :
    (newProcessingMessage msgCid m height).cid = (msgCid m).str := rfl

/-- The body of the inner loop, for `message` of block `blk`. -/
def extractMessage (height : Int) (blk : Cid) (s : ExtractState) (message : Message) :
    Except String ExtractState :=
  let s := { s with
    bmsgModels := s.bmsgModels ++ [⟨blk.str, (msgCid message).str⟩]
    totalUniqGasLimit := s.totalUniqGasLimit + message.gasLimit }
  if msgCid message ∈ s.msgsSeen then .ok s
  else do
    let s := { s with
      totalGasLimit := s.totalGasLimit + message.gasLimit
      pmsgModels := s.pmsgModels ++ [newProcessingMessage msgCid message height] }
    let b ← serialize message
    pure { s with
      msgModels := s.msgModels ++ [messageModel msgCid message b.length]
      msgsSeen := s.msgsSeen ++ [msgCid message] }

/-- The outer loop over the map's entries. `ctx.Done()` is checked before each block: the
checks from the `deadline`-th on find the lease expired. -/
def extractBlocks (height : Int) (deadline : Nat) :
    Nat → ExtractState → List (Cid × BlockMessages) → Except String ExtractState
  | _, s, [] => .ok s
  | i, s, (blk, msgs) :: rest =>
    if deadline ≤ i then .error "context deadline exceeded"
    else do
      let s ← msgs.messages.foldlM (extractMessage msgCid serialize height blk) s
      extractBlocks height deadline (i + 1) s rest

/-- `MessageProcessor.extractMessageModels`, with `store.ComputeNextBaseFee` as
`computeNextBaseFee`: the message rows, block rows, processing rows and gas economy. -/
def extractMessageModels (computeNextBaseFee : Int → BitVec 64 → Nat → Int → Int)
    (deadline : Nat) (ts : TipSet) (blkMsgs : List (Cid × BlockMessages)) :
    Except String
      (List MessageModel × List BlockMessage × List ProcessingMessage × MessageGasEconomy) := do
  let s ← extractBlocks msgCid serialize ts.height deadline 0 .init blkMsgs
  let newBaseFee := computeNextBaseFee ts.parentBaseFee s.totalUniqGasLimit ts.cids.length ts.height
  pure (s.msgModels, s.bmsgModels, s.pmsgModels,
    { stateRoot := ts.parentState.str, gasLimitTotal := s.totalGasLimit,
      gasLimitUniqueTotal := s.totalUniqGasLimit, nextBaseFee := newBaseFee })

/-! ## The loop's specification -/

/-- The messages of `ms` whose CID is neither in `seen` nor on an earlier message of `ms`:
those the loop records, in order. -/
def newMessages (seen : List Cid) : List Message → List Message
  | [] => []
  | m :: ms =>
    if msgCid m ∈ seen then newMessages seen ms else m :: newMessages (seen ++ [msgCid m]) ms

/-- The length of a message's serialization, on the success path. -/
def serializedSize (m : Message) : Nat :=
  match serialize m with
  | .ok b => b.length
  | .error _ => 0

/-- The loop state after the inclusions `incl` from `s`. -/
def ExtractState.after (height : Int) (s : ExtractState) (incl : List (Cid × Message)) :
    ExtractState :=
  let new := newMessages msgCid s.msgsSeen (incl.map Prod.snd)
  { msgModels := s.msgModels ++ new.map fun m => messageModel msgCid m (serializedSize serialize m)
    bmsgModels := s.bmsgModels ++ incl.map fun p => ⟨p.1.str, (msgCid p.2).str⟩
    pmsgModels := s.pmsgModels ++ new.map fun m => newProcessingMessage msgCid m height
    msgsSeen := s.msgsSeen ++ new.map msgCid
    totalGasLimit := s.totalGasLimit + (new.map (·.gasLimit)).sum
    totalUniqGasLimit := s.totalUniqGasLimit + (incl.map (·.2.gasLimit)).sum }

/-- A successful run of the inner loop over the inclusions `incl` ends in `s.after`. -/
theorem foldlM_extractMessage (height : Int) :
    ∀ (incl : List (Cid × Message)) (s s' : ExtractState),
      incl.foldlM (fun s p => extractMessage msgCid serialize height p.1 s p.2) s = .ok s' →
      s' = s.after msgCid serialize height incl
  | [], s, s', h => by
    cases h
    simp [ExtractState.after, newMessages]
  | (blk, m) :: incl, s, s', h => by
    rw [List.foldlM_cons, except_bind_eq_ok] at h
    obtain ⟨s1, h1, h2⟩ := h
    rw [foldlM_extractMessage height incl s1 s' h2]
    dsimp only [extractMessage] at h1
    split_ifs at h1 with hseen
    · cases h1
      simp [ExtractState.after, newMessages, hseen, add_assoc]
    · simp only [except_bind_eq_ok, except_pure_eq_ok] at h1
      obtain ⟨b, hb, rfl⟩ := h1
      simp [ExtractState.after, newMessages, hseen, serializedSize, hb, add_assoc]

theorem extractBlocks_eq_ok (height : Int) (deadline : Nat) :
    ∀ (i : Nat) (s s' : ExtractState) (blocks : List (Cid × BlockMessages)),
      extractBlocks msgCid serialize height deadline i s blocks = .ok s' →
      (inclusions blocks).foldlM (fun s p => extractMessage msgCid serialize height p.1 s p.2) s =
        .ok s'
  | _, _, _, [], h => h
  | i, s, s', (blk, bm) :: blocks, h => by
    unfold extractBlocks at h
    split_ifs at h
    rw [except_bind_eq_ok] at h
    obtain ⟨s1, h1, h2⟩ := h
    simp only [inclusions, List.flatMap_cons, List.foldlM_append, List.foldlM_map] at h1 ⊢
    rw [h1]
    exact extractBlocks_eq_ok height deadline (i + 1) s1 s' blocks h2

/-- A successful outer loop found the lease live at its check before every block. -/
theorem length_le_of_extractBlocks (height : Int) (deadline : Nat) :
    ∀ (i : Nat) (s s' : ExtractState) (blocks : List (Cid × BlockMessages)),
      extractBlocks msgCid serialize height deadline i s blocks = .ok s' →
      blocks.length ≤ deadline - i
  | _, _, _, [], _ => Nat.zero_le _
  | i, s, s', (blk, bm) :: blocks, h => by
    unfold extractBlocks at h
    split_ifs at h with hi
    obtain ⟨s1, -, h2⟩ := except_bind_eq_ok.1 h
    have := length_le_of_extractBlocks height deadline (i + 1) s1 s' blocks h2
    simp only [List.length_cons]
    omega

theorem length_le_of_extractMessageModels
    {computeNextBaseFee : Int → BitVec 64 → Nat → Int → Int} {deadline : Nat} {ts : TipSet}
    {blkMsgs : List (Cid × BlockMessages)}
    {r : List MessageModel × List BlockMessage × List ProcessingMessage × MessageGasEconomy}
    (h : extractMessageModels msgCid serialize computeNextBaseFee deadline ts blkMsgs = .ok r) :
    blkMsgs.length ≤ deadline := by
  obtain ⟨s, hs, -⟩ := except_bind_eq_ok.1 h
  exact length_le_of_extractBlocks msgCid serialize ts.height deadline 0 _ _ _ hs

/-- A successful `extractMessageModels` is the state after every inclusion, from the
initial state: each first occurrence of a CID gives a message row and a processing row,
each inclusion a block row, and the two accumulators sum over the distinct messages and
over the inclusions. -/
theorem extractMessageModels_eq_ok {computeNextBaseFee : Int → BitVec 64 → Nat → Int → Int}
    {deadline : Nat} {ts : TipSet} {blkMsgs : List (Cid × BlockMessages)}
    {msgs : List MessageModel} {bmsgs : List BlockMessage} {pmsgs : List ProcessingMessage}
    {econ : MessageGasEconomy}
    (h : extractMessageModels msgCid serialize computeNextBaseFee deadline ts blkMsgs =
      .ok (msgs, bmsgs, pmsgs, econ)) :
    let new := newMessages msgCid [] (includedMessages blkMsgs)
    let uniq := ((includedMessages blkMsgs).map (·.gasLimit)).sum
    msgs = new.map (fun m => messageModel msgCid m (serializedSize serialize m)) ∧
      bmsgs = (inclusions blkMsgs).map (fun p => ⟨p.1.str, (msgCid p.2).str⟩) ∧
      pmsgs = new.map (fun m => newProcessingMessage msgCid m ts.height) ∧
      econ =
        { stateRoot := ts.parentState.str, gasLimitTotal := (new.map (·.gasLimit)).sum,
          gasLimitUniqueTotal := uniq,
          nextBaseFee := computeNextBaseFee ts.parentBaseFee uniq ts.cids.length ts.height } := by
  simp only [extractMessageModels, except_bind_eq_ok, except_pure_eq_ok, Prod.mk.injEq] at h
  obtain ⟨s, hs, rfl, rfl, rfl, rfl⟩ := h
  rw [foldlM_extractMessage msgCid serialize ts.height _ _ _
    (extractBlocks_eq_ok msgCid serialize ts.height deadline 0 _ _ _ hs)]
  simp [ExtractState.after, ExtractState.init, includedMessages, List.map_map, Function.comp_def]

/-! ## First occurrences -/

theorem mem_newMessages : ∀ {seen : List Cid} {ms : List Message} {m : Message},
    m ∈ newMessages msgCid seen ms → m ∈ ms
  | _, [], _, h => by simp [newMessages] at h
  | seen, m' :: ms, m, h => by
    unfold newMessages at h
    split_ifs at h
    · exact List.mem_cons_of_mem m' (mem_newMessages h)
    · rcases List.mem_cons.1 h with rfl | h
      · exact List.mem_cons_self m ms
      · exact List.mem_cons_of_mem m' (mem_newMessages h)

/-- No CID is recorded twice, nor one already seen. -/
theorem nodup_newMessages : ∀ {seen : List Cid} (ms : List Message), seen.Nodup →
    (seen ++ (newMessages msgCid seen ms).map msgCid).Nodup
  | _, [], h => by simpa [newMessages] using h
  | seen, m :: ms, h => by
    unfold newMessages
    split_ifs with hm
    · exact nodup_newMessages ms h
    · have h' : (seen ++ [msgCid m]).Nodup := List.nodup_append.2
        ⟨h, List.nodup_singleton _, by simpa using hm⟩
      simpa using nodup_newMessages ms h'

/-- Every message's CID ends up seen. -/
theorem cid_mem_newMessages : ∀ (seen : List Cid) {ms : List Message} {m : Message}, m ∈ ms →
    msgCid m ∈ seen ++ (newMessages msgCid seen ms).map msgCid
  | _, [], _, h => by simp at h
  | seen, m' :: ms, m, h => by
    unfold newMessages
    split_ifs with hm
    · rcases List.mem_cons.1 h with rfl | h
      · exact List.mem_append_left _ hm
      · exact cid_mem_newMessages seen h
    · rcases List.mem_cons.1 h with rfl | h
      · simp
      · simpa using cid_mem_newMessages (seen ++ [msgCid m']) h

/-- Some first occurrence carries the CID of every message. -/
theorem exists_newMessages_cid {ms : List Message} {m : Message} (h : m ∈ ms) :
    ∃ m' ∈ newMessages msgCid [] ms, msgCid m' = msgCid m := by
  simpa using cid_mem_newMessages msgCid [] h

/-- A value that only depends on the CID is given by a first occurrence exactly when it is
given by some message. -/
theorem exists_newMessages_iff {β : Type} {ms : List Message} (f : Message → β)
    (hf : ∀ m₁ ∈ ms, ∀ m₂ ∈ ms, msgCid m₁ = msgCid m₂ → f m₁ = f m₂) (x : β) :
    (∃ m ∈ newMessages msgCid [] ms, f m = x) ↔ ∃ m ∈ ms, f m = x := by
  constructor
  · rintro ⟨m, hm, rfl⟩
    exact ⟨m, mem_newMessages msgCid hm, rfl⟩
  · rintro ⟨m, hm, rfl⟩
    obtain ⟨m', hm', hcid⟩ := exists_newMessages_cid msgCid hm
    exact ⟨m', hm', hf m' (mem_newMessages msgCid hm') m hm hcid⟩

/-- The first occurrences name pairwise distinct CIDs. -/
theorem nodup_newMessages_str (ms : List Message) :
    ((newMessages msgCid [] ms).map fun m => (msgCid m).str).Nodup := by
  simpa [List.map_map, Function.comp_def] using
    (nodup_newMessages msgCid ms List.nodup_nil).map Cid.str_injective

theorem inclusions_perm {order order' : List (Cid × BlockMessages)} (h : order.Perm order') :
    (inclusions order).Perm (inclusions order') :=
  h.flatMap_right _

/-! ## The rows of a tipset -/

/-- Every successful run, in every map order, records one message row and one processing
row per distinct CID included in some block, and one block row per inclusion. Message
CIDs are content hashes (`hcid`), so the message rows, the processing rows and the block
rows are the same sets in every order. -/
theorem extractMessageModels_entries (computeNextBaseFee : Int → BitVec 64 → Nat → Int → Int)
    (deadline deadline' : Nat) (ts : TipSet) (order order' : List (Cid × BlockMessages))
    (hperm : order.Perm order')
    (hcid : ∀ m₁ ∈ includedMessages order, ∀ m₂ ∈ includedMessages order,
      msgCid m₁ = msgCid m₂ → m₁ = m₂)
    {msgs msgs' : List MessageModel} {bmsgs bmsgs' : List BlockMessage}
    {pmsgs pmsgs' : List ProcessingMessage} {econ econ' : MessageGasEconomy}
    (h : extractMessageModels msgCid serialize computeNextBaseFee deadline ts order =
      .ok (msgs, bmsgs, pmsgs, econ))
    (h' : extractMessageModels msgCid serialize computeNextBaseFee deadline' ts order' =
      .ok (msgs', bmsgs', pmsgs', econ')) :
    (msgs.map (·.cid)).Nodup ∧
      (∀ c, c ∈ msgs.map (·.cid) ↔ ∃ m ∈ includedMessages order, (msgCid m).str = c) ∧
      (pmsgs.map (·.cid)).Nodup ∧
      (∀ c, c ∈ pmsgs.map (·.cid) ↔ ∃ m ∈ includedMessages order, (msgCid m).str = c) ∧
      bmsgs = (inclusions order).map (fun p => ⟨p.1.str, (msgCid p.2).str⟩) ∧
      (∀ x, x ∈ msgs ↔ x ∈ msgs') ∧ (∀ x, x ∈ pmsgs ↔ x ∈ pmsgs') ∧ bmsgs.Perm bmsgs' := by
  obtain ⟨rfl, rfl, rfl, -⟩ := extractMessageModels_eq_ok msgCid serialize h
  obtain ⟨rfl, rfl, rfl, -⟩ := extractMessageModels_eq_ok msgCid serialize h'
  have hincl := inclusions_perm hperm
  have hmem : ∀ m, m ∈ includedMessages order ↔ m ∈ includedMessages order' :=
    fun m => (hincl.map Prod.snd).mem_iff
  -- a value given by the CID is recorded in one order exactly when it is in the other
  have hsame {β : Type} (f : Message → β)
      (hf : ∀ m₁ ∈ includedMessages order, ∀ m₂ ∈ includedMessages order,
        msgCid m₁ = msgCid m₂ → f m₁ = f m₂) (x : β) :
      x ∈ (newMessages msgCid [] (includedMessages order)).map f ↔
        x ∈ (newMessages msgCid [] (includedMessages order')).map f := by
    have hf' : ∀ m₁ ∈ includedMessages order', ∀ m₂ ∈ includedMessages order',
        msgCid m₁ = msgCid m₂ → f m₁ = f m₂ :=
      fun m₁ h₁ m₂ h₂ => hf m₁ ((hmem m₁).2 h₁) m₂ ((hmem m₂).2 h₂)
    simp only [List.mem_map, exists_newMessages_iff msgCid f hf,
      exists_newMessages_iff msgCid f hf', hmem]
  have hcidStr (x : String) :
      x ∈ (newMessages msgCid [] (includedMessages order)).map (fun m => (msgCid m).str) ↔
        ∃ m ∈ includedMessages order, (msgCid m).str = x := by
    rw [List.mem_map]
    exact exists_newMessages_iff msgCid _ (fun _ _ _ _ hc => congrArg Cid.str hc) x
  refine ⟨?_, fun c => ?_, ?_, fun c => ?_, rfl, hsame _ fun m₁ h₁ m₂ h₂ hc => ?_,
    hsame _ fun _ _ _ _ hc => ?_, hincl.map _⟩
  · simpa [List.map_map, Function.comp_def] using nodup_newMessages_str msgCid _
  · simpa [List.map_map, Function.comp_def] using hcidStr c
  · simpa [List.map_map, Function.comp_def] using nodup_newMessages_str msgCid _
  · simpa [List.map_map, Function.comp_def] using hcidStr c
  · rw [hcid m₁ h₁ m₂ h₂ hc]
  · simp only [newProcessingMessage, hc]

/-- Two blocks sharing a message, walked in both orders. -/
theorem extractMessageModels_entries_two_orders :
    let m₁ : Message := ⟨⟨"f01"⟩, ⟨"f02"⟩, 0, 0, 10, 0, 0, 0, []⟩
    let m₂ : Message := ⟨⟨"f01"⟩, ⟨"f03"⟩, 0, 0, 7, 0, 0, 0, []⟩
    let cidOf : Message → Cid := fun m => ⟨m.«from».str⟩
    let serialize : Message → Except String (List UInt8) := fun m => .ok m.params
    let ts : TipSet := ⟨5, [⟨"b1"⟩, ⟨"b2"⟩], 100, ⟨"root"⟩⟩
    let order : List (Cid × BlockMessages) := [(⟨"b1"⟩, ⟨[m₁], []⟩), (⟨"b2"⟩, ⟨[m₂], [⟨m₁⟩]⟩)]
    let msgs := [messageModel cidOf m₁ 0, messageModel cidOf m₂ 0]
    let msgs' := [messageModel cidOf m₂ 0, messageModel cidOf m₁ 0]
    let bmsgs : List BlockMessage := [⟨"b1", "f02"⟩, ⟨"b2", "f03"⟩, ⟨"b2", "f02"⟩]
    let bmsgs' : List BlockMessage := [⟨"b2", "f03"⟩, ⟨"b2", "f02"⟩, ⟨"b1", "f02"⟩]
    let pmsgs : List ProcessingMessage := [⟨"f02", 5⟩, ⟨"f03", 5⟩]
    let pmsgs' : List ProcessingMessage := [⟨"f03", 5⟩, ⟨"f02", 5⟩]
    let econ : MessageGasEconomy := ⟨"root", 17, 27, 0⟩
    extractMessageModels cidOf serialize (fun _ _ _ _ => 0) 2 ts order =
        .ok (msgs, bmsgs, pmsgs, econ) ∧
      extractMessageModels cidOf serialize (fun _ _ _ _ => 0) 2 ts order.reverse =
        .ok (msgs', bmsgs', pmsgs', econ) ∧
      (msgs.map (·.cid)).Nodup ∧
      (∀ c, c ∈ msgs.map (·.cid) ↔ ∃ m ∈ includedMessages order, (cidOf m).str = c) ∧
      (pmsgs.map (·.cid)).Nodup ∧
      (∀ c, c ∈ pmsgs.map (·.cid) ↔ ∃ m ∈ includedMessages order, (cidOf m).str = c) ∧
      bmsgs = (inclusions order).map (fun p => ⟨p.1.str, (cidOf p.2).str⟩) ∧
      (∀ x, x ∈ msgs ↔ x ∈ msgs') ∧ (∀ x, x ∈ pmsgs ↔ x ∈ pmsgs') ∧ bmsgs.Perm bmsgs' := by
  intro m₁ m₂ cidOf serialize ts order msgs msgs' bmsgs bmsgs' pmsgs pmsgs' econ
  exact ⟨rfl, rfl, extractMessageModels_entries cidOf serialize (fun _ _ _ _ => 0) 2 2 ts order
    order.reverse (by decide) (by decide) rfl rfl⟩

/-- One message with gas limit 10, included by both blocks of a tipset: the base-fee rule
and `GasLimitUniqueTotal` get 20, `GasLimitTotal` gets 10. -/
theorem extractMessageModels_shared_message
    (computeNextBaseFee : Int → BitVec 64 → Nat → Int → Int) :
    let m : Message := ⟨⟨"f01"⟩, ⟨"f02"⟩, 0, 0, 10, 0, 0, 0, []⟩
    let cidOf : Message → Cid := fun _ => ⟨"bafy-m"⟩
    extractMessageModels cidOf (fun m => .ok m.params) computeNextBaseFee 2
        ⟨5, [⟨"bafy-b1"⟩, ⟨"bafy-b2"⟩], 100, ⟨"bafy-root"⟩⟩
        [(⟨"bafy-b1"⟩, ⟨[m], []⟩), (⟨"bafy-b2"⟩, ⟨[m], []⟩)] =
      .ok ([messageModel cidOf m 0], [⟨"bafy-b1", "bafy-m"⟩, ⟨"bafy-b2", "bafy-m"⟩],
        [⟨"bafy-m", 5⟩], ⟨"bafy-root", 10, 20, computeNextBaseFee 100 20 2 5⟩) :=
  rfl

/-- What the gas accumulators hold after a successful run: the unique total, which is also
what `computeNextBaseFee` receives, sums the gas limit over every inclusion, and the total
sums it over the message rows, one per distinct CID. -/
theorem extractMessageModels_gas (computeNextBaseFee : Int → BitVec 64 → Nat → Int → Int)
    (deadline : Nat) (ts : TipSet) (blkMsgs : List (Cid × BlockMessages))
    {msgs : List MessageModel} {bmsgs : List BlockMessage} {pmsgs : List ProcessingMessage}
    {econ : MessageGasEconomy}
    (h : extractMessageModels msgCid serialize computeNextBaseFee deadline ts blkMsgs =
      .ok (msgs, bmsgs, pmsgs, econ)) :
    econ.gasLimitUniqueTotal = ((includedMessages blkMsgs).map (·.gasLimit)).sum ∧
      econ.gasLimitTotal = (msgs.map (·.gasLimit)).sum ∧
      econ.nextBaseFee =
        computeNextBaseFee ts.parentBaseFee econ.gasLimitUniqueTotal ts.cids.length ts.height := by
  obtain ⟨rfl, -, -, rfl⟩ := extractMessageModels_eq_ok msgCid serialize h
  simp [List.map_map, Function.comp_def]

/-- The shared message again: the unique total is the sum over both inclusions. -/
theorem extractMessageModels_gas_shared_message :
    let m : Message := ⟨⟨"f01"⟩, ⟨"f02"⟩, 0, 0, 10, 0, 0, 0, []⟩
    let cidOf : Message → Cid := fun _ => ⟨"bafy-m"⟩
    let ts : TipSet := ⟨5, [⟨"bafy-b1"⟩, ⟨"bafy-b2"⟩], 100, ⟨"bafy-root"⟩⟩
    let blkMsgs : List (Cid × BlockMessages) :=
      [(⟨"bafy-b1"⟩, ⟨[m], []⟩), (⟨"bafy-b2"⟩, ⟨[m], []⟩)]
    let econ : MessageGasEconomy := ⟨"bafy-root", 10, 20, 0⟩
    extractMessageModels cidOf (fun m => .ok m.params) (fun _ _ _ _ => 0) 2 ts blkMsgs =
        .ok ([messageModel cidOf m 0], [⟨"bafy-b1", "bafy-m"⟩, ⟨"bafy-b2", "bafy-m"⟩],
          [⟨"bafy-m", 5⟩], econ) ∧
      econ.gasLimitUniqueTotal = ((includedMessages blkMsgs).map (·.gasLimit)).sum ∧
      econ.gasLimitTotal = ([messageModel cidOf m 0].map (·.gasLimit)).sum ∧
      econ.nextBaseFee = 0 := by
  intro m cidOf ts blkMsgs econ
  exact ⟨rfl, extractMessageModels_gas cidOf (fun m => .ok m.params) (fun _ _ _ _ => 0) 2 ts
    blkMsgs rfl⟩

/-! ## Success -/

theorem includedMessages_cons (blk : Cid) (bm : BlockMessages)
    (blocks : List (Cid × BlockMessages)) :
    includedMessages ((blk, bm) :: blocks) = bm.messages ++ includedMessages blocks := by
  simp [includedMessages, inclusions, List.map_map, Function.comp_def]

theorem extractMessage_ok (height : Int) (blk : Cid) (s : ExtractState) {m : Message}
    {b : List UInt8} (hb : serialize m = .ok b) :
    ∃ s', extractMessage msgCid serialize height blk s m = .ok s' := by
  dsimp only [extractMessage]
  split_ifs
  · exact ⟨_, rfl⟩
  · simp [hb]

theorem foldlM_extractMessage_ok (height : Int) (blk : Cid) :
    ∀ (ms : List Message) (s : ExtractState), (∀ m ∈ ms, ∃ b, serialize m = .ok b) →
      ∃ s', ms.foldlM (extractMessage msgCid serialize height blk) s = .ok s'
  | [], s, _ => ⟨s, rfl⟩
  | m :: ms, s, h => by
    obtain ⟨b, hb⟩ := h m (List.mem_cons_self m ms)
    obtain ⟨s1, h1⟩ := extractMessage_ok msgCid serialize height blk s hb
    obtain ⟨s', h'⟩ := foldlM_extractMessage_ok height blk ms s1
      fun m' hm => h m' (List.mem_cons_of_mem m hm)
    exact ⟨s', by rw [List.foldlM_cons, h1]; exact h'⟩

theorem extractBlocks_ok (height : Int) (deadline : Nat) :
    ∀ (i : Nat) (s : ExtractState) (blocks : List (Cid × BlockMessages)),
      i + blocks.length ≤ deadline → (∀ m ∈ includedMessages blocks, ∃ b, serialize m = .ok b) →
      ∃ s', extractBlocks msgCid serialize height deadline i s blocks = .ok s'
  | _, s, [], _, _ => ⟨s, rfl⟩
  | i, s, (blk, bm) :: blocks, hdl, hser => by
    simp only [List.length_cons] at hdl
    simp only [includedMessages_cons, List.mem_append] at hser
    obtain ⟨s1, h1⟩ := foldlM_extractMessage_ok msgCid serialize height blk bm.messages s
      fun m hm => hser m (.inl hm)
    obtain ⟨s', h'⟩ := extractBlocks_ok height deadline (i + 1) s1 blocks (by omega)
      fun m hm => hser m (.inr hm)
    exact ⟨s', by rw [extractBlocks, if_neg (by omega), h1]; exact h'⟩

/-- `extractMessageModels` returns when the lease outlasts the check before every block and
every included message serializes. -/
theorem extractMessageModels_ok (computeNextBaseFee : Int → BitVec 64 → Nat → Int → Int)
    (deadline : Nat) (ts : TipSet) (blkMsgs : List (Cid × BlockMessages))
    (hdl : blkMsgs.length ≤ deadline)
    (hser : ∀ m ∈ includedMessages blkMsgs, ∃ b, serialize m = .ok b) :
    ∃ msgs bmsgs pmsgs econ, extractMessageModels msgCid serialize computeNextBaseFee deadline ts
      blkMsgs = .ok (msgs, bmsgs, pmsgs, econ) := by
  obtain ⟨s, hs⟩ := extractBlocks_ok msgCid serialize ts.height deadline 0 .init blkMsgs
    (by omega) hser
  exact ⟨_, _, _, _, by rw [extractMessageModels, hs]; rfl⟩

end Extract

end SentinelVisor
