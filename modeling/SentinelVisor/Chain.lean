import Mathlib.Data.List.Basic

/-!
# Chain data

The values the pipeline reads off the chain: content identifiers, tipset keys with their
string form, and tipsets. A CID is kept as its string form (`Cid.String()`), which is what
every model row and gap report stores. The encoders and hashes that make CIDs belong to
the chain libraries, so functions of them (a message's CID, `cid.Decode`) are parameters
of the modules that call them.

`TipSetKey.toString` is lotus's `TipSetKey.String()`: `{`, the CIDs' strings joined by
`,`, then `}`. It is the form gap reports store and `tipSetKeyFromString` parses back.
-/

namespace SentinelVisor

/-- A content identifier, by its canonical string form. -/
structure Cid where
  str : String
  deriving DecidableEq, Repr

theorem Cid.str_injective : Function.Injective Cid.str
  | ⟨_⟩, ⟨_⟩, rfl => rfl

/-- `types.TipSetKey`: the CIDs of a tipset's blocks. -/
structure TipSetKey where
  cids : List Cid
  deriving DecidableEq, Repr

/-- `types.NewTipSetKey(cids...)`. -/
def newTipSetKey (cids : List Cid) : TipSetKey := ⟨cids⟩

/-- `types.EmptyTSK`. -/
def emptyTSK : TipSetKey := ⟨[]⟩

/-- `TipSetKey.String()`. -/
def TipSetKey.toString (k : TipSetKey) : String :=
  ⟨'{' :: [','].intercalate (k.cids.map fun c => c.str.toList) ++ ['}']⟩

/-- `types.TipSet`, with what the pipeline reads of it: `Height()`, `Cids()`,
`Blocks()[0].ParentBaseFee` and `ParentState()`. -/
structure TipSet where
  height : Int
  cids : List Cid
  parentBaseFee : Int
  parentState : Cid
  deriving DecidableEq, Repr

/-- `TipSet.Key()`. -/
def TipSet.key (ts : TipSet) : TipSetKey := newTipSetKey ts.cids

/-- An actor or account address, by its string form. -/
structure Address where
  str : String
  deriving DecidableEq, Repr

theorem Address.str_injective : Function.Injective Address.str
  | ⟨_⟩, ⟨_⟩, rfl => rfl

end SentinelVisor
