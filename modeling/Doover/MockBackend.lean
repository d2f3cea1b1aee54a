import Doover.BufferedWrites
import Doover.Merge

/-! # The mock backend

The tests run against a backend in memory, which merges an aggregate write as the agent is
taken to.  Its `merge` was written apart from the diff engine, and does the same
(`merge_eq_applyDiff`), so what the mock holds of a channel after any writes is what a
client makes of the same writes in its cache.
-/

namespace Doover
open Json

structure MockBackend where
  /-- The aggregates by channel, in no particular order. -/
  aggregates : IndexMap String Json
  /-- The writes recorded, each with its channel, its data and whether it replaces. -/
  aggregateWrites : List (String × Json × Bool)

namespace MockBackend
variable (b : MockBackend)

def seedAggregate (channel : String) (data : Json) : MockBackend :=
  { b with aggregates := b.aggregates.insert channel data }

def fetchChannelData (channel : String) : Option Json := b.aggregates.get? channel

/-- A channel without an aggregate starts with an empty one. -/
def updateChannelAggregate (channel : String) (data : Json) (replaceData : Bool) : MockBackend :=
  let entry := (b.aggregates.get? channel).getD (.object .empty)
  { aggregates := b.aggregates.insert channel (if replaceData then data else merge entry data)
    aggregateWrites := b.aggregateWrites ++ [(channel, data, replaceData)] }

/-- Writes that merge, in turn, each with its channel. -/
def updateAll (writes : List (String × Json)) : MockBackend :=
  writes.foldl (fun b w => b.updateChannelAggregate w.1 w.2 false) b

/-- What a client starts from that has not seen the channel is empty as well. -/
def aggregate (channel : String) : Json := (b.fetchChannelData channel).getD emptyObject

/-- **One write.**  It is applied as a diff, and to its channel only. -/
theorem aggregate_updateChannelAggregate (channel : String) (w : String × Json) :
    (b.updateChannelAggregate w.1 w.2 false).aggregate channel =
      if w.1 = channel then applyDiff (b.aggregate channel) w.2 false else b.aggregate channel := by
  rw [aggregate, fetchChannelData, updateChannelAggregate]
  by_cases h : w.1 = channel
  · subst h
    rw [if_pos rfl, IndexMap.get?_insert_self, Option.getD_some, if_neg Bool.false_ne_true,
      merge_eq_applyDiff]
    rfl
  · rw [if_neg h, IndexMap.get?_insert_of_ne _ (Ne.symm h)]
    rfl

/-- **The mock merges as the diff engine does**, so after any writes it holds of each channel
what a client's cache makes of them. -/
theorem merges_like_cache :
    (∀ base diff : Json, merge base diff = applyDiff base diff false) ∧
      ∀ (b : MockBackend) (writes : List (String × Json)) (channel : String),
        (b.updateAll writes).aggregate channel =
          applyAll (b.aggregate channel)
            ((writes.filter fun w => w.1 = channel).map Prod.snd) := by
  refine ⟨merge_eq_applyDiff, fun b writes channel => ?_⟩
  induction writes generalizing b with
  | nil => rfl
  | cons w writes ih =>
    have hwrite := b.aggregate_updateChannelAggregate channel w
    have hrest := ih (b.updateChannelAggregate w.1 w.2 false)
    rw [hwrite] at hrest
    by_cases h : w.1 = channel
    · rw [if_pos h] at hrest
      rw [List.filter_cons_of_pos (by exact decide_eq_true h), List.map_cons, applyAll_cons]
      exact hrest
    · rw [if_neg h] at hrest
      rw [List.filter_cons_of_neg (by exact fun hd => h (of_decide_eq_true hd))]
      exact hrest

end MockBackend
end Doover
