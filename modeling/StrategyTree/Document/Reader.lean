import StrategyTree.Document.Ladder
import StrategyTree.Strategy.Basic
/-!
# Reading strategy documents

How conditions, weightings and nodes read from JSON values. The members of an
object are taken in key order, so of two faults the one under the smaller key is
told. A node accepts the keys of its kind and no others.
-/
namespace StrategyTree

variable {α : Type} [Arith α]

/-! ### Conditions -/

def Metric.ofJson (loose : Bool) (v : Json α) : Read Metric :=
  v.readUnit loose Metric.ofName?

def Reading.ofMembers (loose : Bool) (members : Members α) : Read Reading := do
  let metric ← members.required "metric" (Metric.ofJson loose)
  let ticker ← members.required "ticker" Json.readText
  let window ← members.withDefault "window" Json.readWindow 0
  return ⟨metric, window, ticker⟩

def Reading.ofJson (loose : Bool) (v : Json α) : Read Reading := do
  Reading.ofMembers loose (← v.readRecord ["metric", "window", "ticker"])

def Comparator.ofJson (v : Json α) : Read Comparator := do
  let s ← v.readText
  match Comparator.ofSpelling? (Text.trim s) with
  | some c => return c
  | none => throw (.badComparator (Text.trim s))

/-- A number is a threshold; anything else must be a reading. -/
def Reference.ofJson (v : Json α) : Read (Reference α) :=
  match v.number? with
  | some x => .ok (.threshold x)
  | none => .reading <$> Reading.ofJson false v

/-- A condition is written as one object together with its left reading, which is a loose
place wherever the condition stands. -/
def Condition.ofMembers (loose : Bool) (members : Members α) : Read (Condition α) := do
  let comparator ← members.optional "comparator" Comparator.ofJson
  let right ← members.optional "rhs" Reference.ofJson
  let sustainedDays ← members.withDefault "sustainedDays"
    (Json.readNullable (Json.readCountTo (Nat.pow 2 32 - 1))) none
  let connective ← members.required "type" (Json.readUnit loose Connective.ofName?)
  let left ← Reading.ofMembers true members
  return { connective, left, comparator := ← .required comparator, right := ← .required right,
           sustainedDays }

def Condition.ofJson (loose : Bool) : Json α → Read (Condition α)
  | .object members => Condition.ofMembers loose members
  | _ => .malformed

def Condition.listOfJson (loose : Bool) (v : Json α) : Read (List (Condition α)) :=
  v.readList (Condition.ofJson loose)

/-- An item of a numbered node is a record with conditions only. -/
def itemOfJson : Json α → Read (List (Condition α))
  | .object members => Members.required members "conditions" (Condition.listOfJson true)
  | .array (v :: rest) => do
      let conditions ← Condition.listOfJson true v
      if rest.isEmpty then return conditions else .malformed
  | _ => .malformed

/-! ### Choices of a node -/

def Selection.ofName? : String → Option Selection
  | "top" => some .top
  | "bottom" => some .bottom
  | _ => none

def Quantifier.ofName? : String → Option Quantifier
  | "all" => some .all
  | "any" => some .any
  | "none" => some .none
  | "ladder" => some .ladder
  | _ => Option.none

def Quantifier.ofJson (v : Json α) : Read Quantifier := do
  match ← v.readVariant with
  | ("atLeast", some n) => .atLeast <$> n.readCount
  | ("atMost", some n) => .atMost <$> n.readCount
  | ("exactly", some n) => .exactly <$> n.readCount
  | _ => v.readUnit true Quantifier.ofName?

def Weighting.ofJson (loose : Bool) (v : Json α) : Read (Weighting α) := do
  match ← v.readVariant with
  | ("inverseVolatility", some content) =>
      let members ← content.readContent loose ["window"]
      return .inverseVolatility (← members.required "window" Json.readWindow)
  | ("pro", some content) =>
      let members ← content.readContent loose ["window"]
      return .volatility (← members.required "window" Json.readWindow)
  | ("specified", some content) =>
      let members ← content.readContent loose ["weights"]
      return .specified (← members.required "weights" (Json.readList Json.readNumber))
  | ("capped", some content) =>
      let members ← content.readContent loose ["cap", "fallback"]
      return .capped (← members.required "cap" Json.readNumber)
        (← members.withDefault "fallback" (Json.readNullable Json.readText) none)
  | _ => v.readUnit loose fun name => if name = "equal" then some .equal else none

/-! ### Nodes -/

/-- The keys that a node of a kind may have besides `id` and `kind`. -/
def Kind.keys : Kind → List String
  | .basic => ["weighting", "next"]
  | .function => ["metric", "window", "count", "select", "weighting", "next"]
  | .indicator => ["conditions", "weightingThen", "weightingElse", "then", "else"]
  | .numbered =>
      ["items", "quantifier", "weightingThen", "weightingElse", "then", "else", "ladder"]
  | .position => ["tickers"]
  | .call => ["callId"]
  | .altExit => ["entry", "exit", "weightingThen", "weightingElse", "then", "else"]
  | .scaling =>
      ["indicator", "scaleFrom", "scaleTo", "weightingThen", "weightingElse", "then", "else"]

/-- A kind is written as its name, or as its place among the kinds. -/
def Kind.ofJson? : Json α → Option Kind
  | .text s => Kind.ofName? s
  | .integer (.ofNat n) => Kind.all[n]?
  | _ => none

namespace Node

def checkKeys (kind : Kind) (members : Members α) : Read Unit :=
  match members.find? fun m => m.1 ≠ "id" ∧ m.1 ≠ "kind" ∧ m.1 ∉ kind.keys with
  | some (key, _) =>
      let id := ((members.lookup "id").bind Json.text?).getD "?"
      .error (.unknownField key kind.name id)
  | none => .ok ()

variable (child : Json α → Read (Node α))

/-- Reads a slot. No entries, `null` and a missing slot are the same as one placeholder. -/
def readSlot : Json α → Read (Slot α)
  | .null => .ok .placeholder
  | .array items => do
      let entries ← items.mapM (Json.readNullable child)
      return if entries.isEmpty then .placeholder else entries
  | _ => .malformed

def slotAt (members : Members α) (key : String) : Read (Slot α) :=
  members.withDefault key (readSlot child) .placeholder

def weightingAt (members : Members α) (key : String) : Read (Weighting α) :=
  members.withDefault key (Weighting.ofJson true) .equal

def ofKind (id : String) (kind : Kind) (ms : Members α) : Read (Node α) := do
  match kind with
  | .basic =>
      let next ← slotAt child ms "next"
      return .basic id (← weightingAt ms "weighting") next
  | .function =>
      let count ← ms.optional "count" Json.readCount
      let metric ← ms.optional "metric" (Metric.ofJson true)
      let next ← slotAt child ms "next"
      let select ← ms.required "select" (Json.readUnit true Selection.ofName?)
      let weighting ← weightingAt ms "weighting"
      let window ← ms.withDefault "window" Json.readWindow 0
      return .function id (← .required metric) window (← .required count) select weighting next
  | .indicator =>
      let conditions ← ms.optional "conditions" (Condition.listOfJson true)
      let elseSlot ← slotAt child ms "else"
      let thenSlot ← slotAt child ms "then"
      let elseWeighting ← weightingAt ms "weightingElse"
      let thenWeighting ← weightingAt ms "weightingThen"
      return .indicator id (← .required conditions)
        { thenWeighting, elseWeighting, thenSlot, elseSlot }
  | .numbered =>
      let elseSlot ← slotAt child ms "else"
      let items ← ms.optional "items" (Json.readList itemOfJson)
      let ladder ← ms.withDefault "ladder" (Json.readList (readSlot child)) []
      let quantifier ← ms.optional "quantifier" Quantifier.ofJson
      let thenSlot ← slotAt child ms "then"
      let elseWeighting ← weightingAt ms "weightingElse"
      let thenWeighting ← weightingAt ms "weightingThen"
      return .numbered id (← .required items) (← .required quantifier)
        { thenWeighting, elseWeighting, thenSlot, elseSlot } ladder
  | .position => return .position id (← ms.required "tickers" (Json.readList Json.readText))
  | .call => return .call id (← ms.required "callId" Json.readText)
  | .altExit =>
      let elseSlot ← slotAt child ms "else"
      let entry ← ms.optional "entry" (Condition.listOfJson true)
      let exit ← ms.optional "exit" (Condition.listOfJson true)
      let thenSlot ← slotAt child ms "then"
      let elseWeighting ← weightingAt ms "weightingElse"
      let thenWeighting ← weightingAt ms "weightingThen"
      return .altExit id (← .required entry) (← .required exit)
        { thenWeighting, elseWeighting, thenSlot, elseSlot }
  | .scaling =>
      let elseSlot ← slotAt child ms "else"
      let reading ← ms.optional "indicator" (Reading.ofJson true)
      let lower ← ms.optional "scaleFrom" Json.readNumber
      let upper ← ms.optional "scaleTo" Json.readNumber
      let thenSlot ← slotAt child ms "then"
      let elseWeighting ← weightingAt ms "weightingElse"
      let thenWeighting ← weightingAt ms "weightingThen"
      return .scaling id (← .required reading) (← .required lower) (← .required upper)
        { thenWeighting, elseWeighting, thenSlot, elseSlot }

/-- Reads the members of a node. Ladder keys are gathered and keys are checked if the kind
is given by name. -/
def ofMembers (members : Members α) : Read (Node α) := do
  let named := ((members.lookup "kind").bind Json.text?).bind Kind.ofName?
  let members ← if named = some .numbered then Ladder.gather members else pure members
  if let some kind := named then
    checkKeys kind members
  let id ← members.required "id" Json.readText
  let kind ← .required ((members.lookup "kind").bind Kind.ofJson?)
  ofKind child id kind members

/-- Reads a node in which at most `levels` objects are nested. -/
def ofJsonWithin : Nat → Json α → Read (Node α)
  | levels + 1, .object members => ofMembers (ofJsonWithin levels) members
  | _, _ => .malformed

def ofJson (v : Json α) : Read (Node α) :=
  ofJsonWithin v.nesting v

end Node

/-! ### Strategies -/

namespace Strategy

/-- Reads a table of chains, in key order. -/
def chainsOfJson : Json α → Read (Table (Node α))
  | .object members => do
      let chains ← members.mapM fun m => do
        return (m.1, ← Node.ofJson m.2)
      return .ofList chains
  | _ => .malformed

def ofJson : Json α → Read (Strategy α)
  | .object (members : Members α) => do
      let chains ← members.withDefault "chains" chainsOfJson .empty
      let description ← members.withDefault "description" (Json.readNullable Json.readText) none
      let name ← members.optional "name" Json.readText
      let root ← members.optional "root" Node.ofJson
      return { name := ← .required name, description, root := ← .required root, chains }
  | .array (name :: description :: root :: rest) => do
      let name ← name.readText
      let description ← Json.readNullable Json.readText description
      let root ← Node.ofJson root
      match rest with
      | [] => return { name, description, root }
      | [chains] => return { name, description, root, chains := ← chainsOfJson chains }
      | _ => .malformed
  | _ => .malformed

end Strategy
end StrategyTree
