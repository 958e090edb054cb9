import TransitionNetworks.Chart
import TransitionNetworks.Provenance

/-!
# Operations on charts

What a chart can be asked and told, as data, so that a use of a chart is a list of operations and a
list of answers. An operation may name any position, whether the chart reaches it or not.

A provenance table can be kept beside a chart. It follows the answers of the chart (`trace`): an
item is recorded when the chart reports it as new, and at no other time.
-/

namespace TransitionNetworks

/-- What a chart can be asked and told. -/
inductive ChartOperation where
  /-- Add an item to the set at a position. -/
  | insert (position : Nat) (item : Item)
  /-- Append a position without items. -/
  | pushSet
  /-- Ask for the set at a position. -/
  | askSet (position : Nat)
  /-- Ask for the item discovered as number `n` at a position. -/
  | askItem (position n : Nat)
  /-- Ask whether an item was found at a position. -/
  | askContains (position : Nat) (item : Item)
  /-- Ask how many positions there are. -/
  | askSize
  /-- Ask whether there are no positions. -/
  | askIsEmpty
  /-- Ask how many items were found. -/
  | askItemCount
  deriving DecidableEq

/-- What a chart answers. -/
inductive ChartAnswer where
  /-- Whether the item inserted is new at its position. -/
  | news (isNews : Bool)
  /-- What was told is done. -/
  | done
  /-- The items of the set asked for, if the chart reaches its position. -/
  | set (items : Option (List Item))
  /-- The item asked for, if there is one. -/
  | item (item : Option Item)
  /-- Whether it is as asked. -/
  | truth (holds : Bool)
  /-- How many there are. -/
  | count (count : Nat)
  deriving DecidableEq

namespace Chart

/-- Perform an operation. -/
def perform (operation : ChartOperation) (chart : Chart) : ChartAnswer × Chart :=
  match operation with
  | .insert position item =>
    let (isNews, chart) := chart.insertNew position item
    (.news isNews, chart)
  | .pushSet => (.done, chart.pushSet)
  | .askSet position => (.set ((chart.set? position).map Enumeration.toList), chart)
  | .askItem position n => (.item (chart.item? position n), chart)
  | .askContains position item => (.truth (chart.contains position item), chart)
  | .askSize => (.count chart.size, chart)
  | .askIsEmpty => (.truth chart.isEmpty, chart)
  | .askItemCount => (.count chart.itemCount, chart)

/-- Perform operations one after the other. -/
def performAll : List ChartOperation → Chart → List ChartAnswer × Chart
  | [], chart => ([], chart)
  | operation :: rest, chart =>
    let (answer, chart) := chart.perform operation
    let (answers, chart) := performAll rest chart
    (answer :: answers, chart)

/-- What a chart and a provenance table beside it are after an operation: the item that it inserts
is recorded with a provenance if the chart answers that it is new. -/
def trace (operation : ChartOperation) (why : Provenance) (chart : Chart)
    (table : ProvenanceTable) : Chart × ProvenanceTable :=
  let (answer, chart) := chart.perform operation
  match operation, answer with
  | .insert position item, .news true => (chart, table.record ⟨position, item⟩ why)
  | _, _ => (chart, table)

/-- What a chart and a provenance table beside it are after operations, each with a provenance. -/
def traceAll : List (ChartOperation × Provenance) → Chart → ProvenanceTable →
    Chart × ProvenanceTable
  | [], chart, table => (chart, table)
  | (operation, why) :: rest, chart, table =>
    let (chart, table) := chart.trace operation why table
    traceAll rest chart table

end Chart

end TransitionNetworks
