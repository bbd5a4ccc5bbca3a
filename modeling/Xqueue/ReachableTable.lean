import Xqueue.Acknowledgement
import Xqueue.Retirement
import Xqueue.Sequential

/-!
# ReachableTable — the tables that the service can come to

A command may start on any table that the operations leave, however they have interleaved.

* `ReachableTable` : the table of a state that an interleaving reaches;
* `reachableTable_of_atomic` : among them those of the runs of whole operations;
* `namesCallback_of_reachable`, `open_of_reachable` : what holds of every stored row, and of one
  that is not retired.
-/

namespace Xqueue

open Library
open Library.System

variable {cfg : Config} {t : Table} {r : Submission}

/-- The table of a state that some interleaving of the operations reaches. -/
def ReachableTable (cfg : Config) (t : Table) : Prop :=
  ∃ st, (interleavedSystem cfg).Reachable (State.start KeyedTable.empty) st ∧ st.table = t

theorem reachableTable_of_atomic (h : (atomicSystem cfg).Reachable KeyedTable.empty t) :
    ReachableTable cfg t := by
  rcases h with ⟨es, os, hrun⟩
  rcases interleaved_of_atomic hrun with ⟨as, hinter⟩
  exact ⟨State.start t, hinter.reachable, rfl⟩

theorem RowProperty.rows_of_reachable (P : RowProperty cfg) (h : ReachableTable cfg t) :
    ∃ os, ∀ r ∈ t, P.row os r := by
  rcases h with ⟨st, ⟨as, os, hrun⟩, rfl⟩
  have hempty : ∀ r ∈ (KeyedTable.empty : Table), P.row [] r :=
    fun r hr => absurd hr KeyedTable.not_mem_empty
  exact ⟨os, (RowProperty.kept_of_run hrun hempty).rows⟩

/-- Headers are never written again, so every row keeps the callback that its request named. -/
def namesCallback (cfg : Config) : RowProperty cfg where
  row := fun _ s => NamesCallback s
  held := fun _ _ s => NamesCallback s
  worked := fun _ _ s => NamesCallback s
  row_append := fun h _ => h
  held_append := fun h _ => h
  worked_append := fun h _ => h
  read := fun h _ => h
  work := by
    rintro os task s env o c ⟨url, hurl⟩ hwork
    have hheader : c.xqueueHeader = s.xqueueHeader :=
      congrArg Origin.xqueueHeader (origin_of_work hwork)
    exact ⟨url, by rw [hheader, hurl]⟩
  save := fun h _ => h
  retire := fun h _ => h
  arrival := fun h _ => h
  inserted := fun hchecks _ _ _ _ _ _ => ⟨_, lmsCallbackUrl_of_submitChecks hchecks⟩

theorem namesCallback_of_reachable (h : ReachableTable cfg t) (hr : r ∈ t) : NamesCallback r := by
  rcases (namesCallback cfg).rows_of_reachable h with ⟨os, hrows⟩
  exact hrows r hr

/-- A row that is not retired has no acknowledgement, and its failures are within the limit. -/
theorem open_of_reachable (h : ReachableTable cfg t) (hr : r ∈ t) (hopen : r.retired = false) :
    r.lmsAck = false ∧ r.numFailures ≤ cfg.maxNumberOfFailures := by
  rcases (finishedRetired cfg).rows_of_reachable h with ⟨os, hrows⟩
  have hfinished : FinishedRetired cfg r := hrows r hr
  constructor
  · by_contra hack
    rw [hfinished (Or.inl (by simpa using hack))] at hopen
    cases hopen
  · by_contra hlimit
    rw [hfinished (Or.inr (Nat.lt_of_not_le hlimit))] at hopen
    cases hopen

end Xqueue
