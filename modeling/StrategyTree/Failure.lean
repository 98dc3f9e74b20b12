/-!
# Failures

The causes for which a document, a configuration or a run is refused. Each has
one message and one exit code; missing prices inside a run are no failure but
undefined values.
-/
namespace StrategyTree

/-- Why the text of a strategy document is not a strategy. Where the shape of the
text is at fault, no more than that is told. -/
inductive DocumentFault where
  | malformed
  | unknownField (key kind id : String)
  | mixedLadder
  | badLadderKey (key : String)
  /-- The ladder would have more slots than can be built. -/
  | ladderTooLong (key : String)
  | badComparator (text : String)
deriving DecidableEq, Repr

namespace DocumentFault

def explanation? : DocumentFault → Option String
  | malformed => none
  | unknownField key kind id => some s!"unknown field \x60{key}\x60 on {kind} node {id}"
  | mixedLadder => some "both \x60ladder\x60 and \x60ladder-N\x60 slots given"
  | badLadderKey key => some s!"bad ladder slot name \x60{key}\x60"
  | ladderTooLong key => some s!"too many ladder slots up to \x60{key}\x60"
  | badComparator text => some s!"invalid comparator: {text}"

end DocumentFault

inductive Failure where
  | dataSource (reason : String)
  | configParse (file : String)
  | configMissing (sect key : String)
  | configInvalid (sect key reason : String)
  | invalidWindow (subject : String) (window least : Int)
  | emptyAnchors
  | invalidComparator (text : String)
  | unorderedBars (ticker date : String)
  | treeParse (fault : DocumentFault)
  | treeInvalid (node reason : String)
  | callCycle (chain : String) (path : List String)
  | danglingCall (node chain : String)
  | noData (ticker : String)
  | io (reason : String)
deriving DecidableEq, Repr

namespace Failure

def message : Failure → String
  | dataSource reason => s!"data source error: {reason}"
  | configParse file => s!"config parse error in {file}"
  | configMissing sect key => s!"missing config key [{sect}] {key}"
  | configInvalid sect key reason => s!"invalid config value [{sect}] {key}: {reason}"
  | invalidWindow subject window least =>
      s!"invalid window {window} for {subject}: window must be at least {least}"
  | emptyAnchors =>
      "no anchor tickers: the strategy references no tradable or indicator tickers"
  | invalidComparator text => s!"invalid comparator: {text}"
  | unorderedBars ticker date => s!"bars for {ticker} are not strictly increasing at {date}"
  | treeParse fault =>
      match fault.explanation? with
      | some reason => s!"failed to parse strategy tree: {reason}"
      | none => "failed to parse strategy tree"
  | treeInvalid node reason => s!"invalid node {node}: {reason}"
  | callCycle chain path =>
      let route := " -> ".intercalate path
      s!"call chain cycle: {chain} is already on the call path ({route})"
  | danglingCall node chain => s!"node {node} calls unknown chain {chain}"
  | noData ticker => s!"no data for {ticker}"
  | io reason => reason

/-- The process exit code: 1 for files, 2 for the configuration, 3 for the data
source, 4 for the strategy and 5 for missing data. -/
def exitCode : Failure → Nat
  | io _ => 1
  | configParse _ | configMissing .. | configInvalid .. | invalidWindow .. | emptyAnchors
  | invalidComparator _ => 2
  | dataSource _ | unorderedBars .. => 3
  | treeParse _ | treeInvalid .. | callCycle .. | danglingCall .. => 4
  | noData _ => 5

end Failure
end StrategyTree
