import Mathlib.Data.List.Sort
import Verity.Foundation.Run

/-!
# The truth lane of the CRM connectors

A source whose records carry the instant of their last change, and the poll cycle of the
HubSpot and Salesforce connectors over it: one query for each object type in turn, each for
the records changed after the stored cursor, oldest first. The cycle returns the greatest
instant it has met in any of them as the next cursor. The source may change between two
queries.

Instants are whole milliseconds since the epoch. A stored cursor is missing before the first
cycle, which then asks for everything.
-/

set_option autoImplicit false

namespace Verity.Model

/-- A record of the source as it stands since its last change. -/
structure CrmRecord where
  objectType : String
  id : String
  modified : Nat
deriving DecidableEq, Repr

/-- The records of the source, and the instant of the last change to any of them. -/
structure CrmSource where
  records : List CrmRecord
  clock : Nat
deriving DecidableEq, Repr

/-- A record is changed, or added, at a later instant than any before. -/
def CrmSource.change (source : CrmSource) (r : CrmRecord) : Option CrmSource :=
  if source.clock < r.modified then
    some {
      records := r :: source.records.filter fun r' =>
        ¬ (r'.objectType = r.objectType ∧ r'.id = r.id)
      clock := r.modified }
  else none

inductive CrmConnector where
  | hubspot
  | salesforce
deriving DecidableEq, Repr

namespace CrmConnector

/-- SOURCE: hubspot.py:120-124, 249, salesforce.py:314 -/
def objectTypes : CrmConnector → List String
  | hubspot => ["contacts", "companies", "deals"]
  | salesforce => ["Account", "Contact", "Opportunity", "Lead"]

/-- The search API answers one query with 10,000 records at most.
SOURCE: hubspot.py:435-437 -/
def resultCap : CrmConnector → Option Nat
  | hubspot => some 10000
  | salesforce => none

/-- The instant a query compares with: SOQL literals have no fraction of a second.
SOURCE: hubspot.py:480-493, salesforce.py:273-280 -/
def filterInstant : CrmConnector → Nat → Nat
  | hubspot, cursor => cursor
  | salesforce, cursor => cursor / 1000 * 1000

/-- SOURCE: hubspot.py:470-496, salesforce.py:841-846 -/
def selects (connector : CrmConnector) (cursor : Option Nat) (r : CrmRecord) : Bool :=
  match cursor with
  | none => true
  | some cursor => decide (connector.filterInstant cursor < r.modified)

/-- The records a query matches, oldest first. -/
def pending (connector : CrmConnector) (source : CrmSource) (objectType : String)
    (cursor : Option Nat) : List CrmRecord :=
  (source.records.filter fun r => r.objectType = objectType ∧ connector.selects cursor r
    ).insertionSort fun r r' => r.modified ≤ r'.modified

/-- All pages of one query.
SOURCE: hubspot.py:498-507, salesforce.py:848-854 -/
def query (connector : CrmConnector) (source : CrmSource) (objectType : String)
    (cursor : Option Nat) : List CrmRecord :=
  match connector.resultCap with
  | none => connector.pending source objectType cursor
  | some cap => (connector.pending source objectType cursor).take cap

/-- The records a query matches and does not return. -/
def cutOff (connector : CrmConnector) (source : CrmSource) (objectType : String)
    (cursor : Option Nat) : List CrmRecord :=
  match connector.resultCap with
  | none => []
  | some cap => (connector.pending source objectType cursor).drop cap

end CrmConnector

/-- A query made: its type, the source's clock at the time, and the records cut off. -/
structure PollQuery where
  objectType : String
  clock : Nat
  cutOff : List CrmRecord
deriving DecidableEq, Repr

/-- A cycle under way: the queries made, the types still to ask about, the greatest instant
met and the records returned. -/
structure PollCycle where
  asked : List PollQuery
  remaining : List String
  nextCursor : Nat
  events : List CrmRecord
deriving DecidableEq, Repr

/-- The source, the stored cursor, all versions that finished cycles have returned, and the
cycle under way. -/
structure PollState where
  source : CrmSource
  cursor : Option Nat
  returned : List CrmRecord
  cycle : Option PollCycle
deriving DecidableEq, Repr

/-- An empty source, and no cursor stored. -/
def PollState.start : PollState where
  source := ⟨[], 0⟩
  cursor := none
  returned := []
  cycle := none

inductive PollEvent where
  | change (r : CrmRecord)
  | startCycle
  | runQuery
  | finishCycle
deriving DecidableEq, Repr

/-- The greatest instant met, after one more query.
SOURCE: hubspot.py:451-456, salesforce.py:507-512 -/
def advanceCursor (next : Nat) (records : List CrmRecord) : Nat :=
  records.foldl (fun next r => if next < r.modified then r.modified else next) next

/-- The poll cycle, query by query.
SOURCE: hubspot.py:429-457, salesforce.py:486-518 -/
def PollState.step (connector : CrmConnector) (s : PollState) : PollEvent → Option PollState
  | .change r =>
    match s.source.change r with
    | none => none
    | some source => some { s with source := source }
  | .startCycle =>
    match s.cycle with
    | some _ => none
    | none => some { s with cycle := some ⟨[], connector.objectTypes, s.cursor.getD 0, []⟩ }
  | .runQuery =>
    match s.cycle with
    | some ⟨asked, objectType :: remaining, next, events⟩ =>
      let records := connector.query s.source objectType s.cursor
      some { s with cycle := some {
        asked := ⟨objectType, s.source.clock,
          connector.cutOff s.source objectType s.cursor⟩ :: asked
        remaining := remaining
        nextCursor := advanceCursor next records
        events := events ++ records } }
    | _ => none
  | .finishCycle =>
    match s.cycle with
    | some ⟨_, [], next, events⟩ =>
      some { s with cursor := some next, returned := s.returned ++ events, cycle := none }
    | _ => none

end Verity.Model
