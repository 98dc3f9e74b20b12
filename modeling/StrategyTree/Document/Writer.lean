import StrategyTree.Json.Basic
import StrategyTree.Strategy.Basic
/-!
# Writing strategy documents

Every strategy has one written form: all members in key order, with defaults
filled in. Only a description, a number of sustained days, a fallback and ladder
slots are left out where there are none.
-/
namespace StrategyTree

variable {α : Type}

def Json.ofNat (n : Nat) : Json α :=
  .integer n

def Json.ofTexts (xs : List String) : Json α :=
  .array (xs.map .text)

def Json.ifPresent {β : Type} (key : String) (write : β → Json α) :
    Option β → List (String × Json α)
  | some x => [(key, write x)]
  | none => []

def Reading.toJson (r : Reading) : Json α :=
  .object [("metric", .text r.metric.name), ("ticker", .text r.ticker),
    ("window", .integer r.window)]

def Reference.toJson : Reference α → Json α
  | .threshold x => .real x
  | .reading r => r.toJson

def Condition.toJson (c : Condition α) : Json α :=
  .object ([("comparator", .text c.comparator.display), ("metric", .text c.left.metric.name),
    ("rhs", c.right.toJson)] ++ Json.ifPresent "sustainedDays" .ofNat c.sustainedDays ++
    [("ticker", .text c.left.ticker), ("type", .text c.connective.name),
      ("window", .integer c.left.window)])

def Condition.listToJson (cs : List (Condition α)) : Json α :=
  .array (cs.map Condition.toJson)

def Selection.name : Selection → String
  | .top => "top"
  | .bottom => "bottom"

def Quantifier.toJson : Quantifier → Json α
  | .all => .text "all"
  | .any => .text "any"
  | .none => .text "none"
  | .ladder => .text "ladder"
  | .atLeast n => .object [("atLeast", .ofNat n)]
  | .atMost n => .object [("atMost", .ofNat n)]
  | .exactly n => .object [("exactly", .ofNat n)]

def Weighting.toJson : Weighting α → Json α
  | .equal => .text "equal"
  | .inverseVolatility window =>
      .object [("inverseVolatility", .object [("window", .integer window)])]
  | .volatility window => .object [("pro", .object [("window", .integer window)])]
  | .specified weights =>
      .object [("specified", .object [("weights", .array (weights.map .real))])]
  | .capped cap fallback =>
      .object [("capped", .object (("cap", .real cap) :: Json.ifPresent "fallback" .text fallback))]

/-- An item of a numbered node. -/
def itemToJson (conditions : List (Condition α)) : Json α :=
  .object [("conditions", Condition.listToJson conditions)]

namespace Node

mutual

def toJson : Node α → Json α
  | basic id weighting next =>
      .object [("id", .text id), ("kind", .text Kind.basic.name),
        ("next", .array (slotToJson next)), ("weighting", weighting.toJson)]
  | function id metric window count select weighting next =>
      .object [("count", .ofNat count), ("id", .text id), ("kind", .text Kind.function.name),
        ("metric", .text metric.name), ("next", .array (slotToJson next)),
        ("select", .text select.name), ("weighting", weighting.toJson),
        ("window", .integer window)]
  | indicator id conditions fork =>
      .object [("conditions", Condition.listToJson conditions),
        ("else", .array (slotToJson fork.elseSlot)), ("id", .text id),
        ("kind", .text Kind.indicator.name), ("then", .array (slotToJson fork.thenSlot)),
        ("weightingElse", fork.elseWeighting.toJson), ("weightingThen", fork.thenWeighting.toJson)]
  | numbered id items quantifier fork ladder =>
      .object ([("else", .array (slotToJson fork.elseSlot)), ("id", .text id),
        ("items", .array (items.map itemToJson)), ("kind", .text Kind.numbered.name)] ++
        (if ladder.isEmpty then [] else [("ladder", .array (ladderToJson ladder))]) ++
        [("quantifier", quantifier.toJson), ("then", .array (slotToJson fork.thenSlot)),
          ("weightingElse", fork.elseWeighting.toJson),
          ("weightingThen", fork.thenWeighting.toJson)])
  | position id tickers =>
      .object [("id", .text id), ("kind", .text Kind.position.name), ("tickers", .ofTexts tickers)]
  | call id chain =>
      .object [("callId", .text chain), ("id", .text id), ("kind", .text Kind.call.name)]
  | altExit id entry exit fork =>
      .object [("else", .array (slotToJson fork.elseSlot)), ("entry", Condition.listToJson entry),
        ("exit", Condition.listToJson exit), ("id", .text id), ("kind", .text Kind.altExit.name),
        ("then", .array (slotToJson fork.thenSlot)),
        ("weightingElse", fork.elseWeighting.toJson), ("weightingThen", fork.thenWeighting.toJson)]
  | scaling id reading lower upper fork =>
      .object [("else", .array (slotToJson fork.elseSlot)), ("id", .text id),
        ("indicator", reading.toJson), ("kind", .text Kind.scaling.name),
        ("scaleFrom", .real lower), ("scaleTo", .real upper),
        ("then", .array (slotToJson fork.thenSlot)),
        ("weightingElse", fork.elseWeighting.toJson), ("weightingThen", fork.thenWeighting.toJson)]

/-- Writes the entries of a slot, placeholders as `null`. -/
def slotToJson : List (Option (Node α)) → List (Json α)
  | [] => []
  | none :: rest => .null :: slotToJson rest
  | some n :: rest => n.toJson :: slotToJson rest

/-- Writes the slots of a ladder. -/
def ladderToJson : List (List (Option (Node α))) → List (Json α)
  | [] => []
  | slot :: rest => .array (slotToJson slot) :: ladderToJson rest

end

end Node

def Strategy.toJson (s : Strategy α) : Json α :=
  .object ([("chains", .object (s.chains.map fun _ n => n.toJson).entries)] ++
    Json.ifPresent "description" .text s.description ++
    [("name", .text s.name), ("root", s.root.toJson)])

end StrategyTree
