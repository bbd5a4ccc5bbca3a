import Xqueue.Commands.DeleteOldSubmissions
import Xqueue.Deployment

/-!
# DeleteOld — the loop of `delete_old_submissions` ends with the old rows deleted

The loop asks three times what is old: for its condition, for the count it reports and for the
ids it deletes.  As long as only newer rows come in between, the answers agree:

* `commitRows_old`, `commitRows_young` : newer rows do not matter for what is old, and are kept;
* `Selects.deleted`, `Selects.young`, `Selects.countOld` : one transaction;
* `deleteLoop_round`, `deleteLoop_exit` : one round, and the end of the loop;
* `deleteLoop_spec` : the loop, by induction over its rounds;
* `deleteLoop_aborted` : a sleep that `time.sleep` does not accept ends it after the first chunk;
* `deletes_old_rows_iff` : the command, with `roundsFor` its exact number of iterations.
-/

namespace Xqueue

open Library

variable {env : DeleteEnv} {date now : DateTime} {options : DeleteOptions} {plan : QueryPlan}
  {chunkSize : Nat} {sleepBetween : PyFloat} {t : Table} {rows : List Submission} {s : Submission} {ids : List Nat}

/-- Number of old rows. -/
def countOld (date : DateTime) (t : Table) : Nat :=
  t.rows.countP (isOld date)

/-- The table without its old rows. -/
def youngRows (date : DateTime) (t : Table) : Table :=
  t.deleteWhere (isOld date)

/-- Every row that other processes insert arrives after the date. -/
def ArrivesAfter (date : DateTime) (env : DeleteEnv) : Prop :=
  ∀ k, ∀ s ∈ env.arrivals k, date < s.arrivalTime

/-- The table with the rows committed before the queries `k`, ..., `k + n - 1`, and no deletion. -/
def commitsFrom (env : DeleteEnv) : (k n : Nat) → Table → Table
  | _, 0, t => t
  | k, n + 1, t => commitsFrom env (k + 1) n (commitRows (env.arrivals k) t)

/-- `ceil(count / chunk_size)` -/
def roundsFor (chunkSize count : Nat) : Nat :=
  (count + chunkSize - 1) / chunkSize

/-! ## Newer rows in between -/

theorem not_isOld (h : date < s.arrivalTime) : isOld date s = false := by
  simpa [isOld] using h

theorem mem_commitRows (h : s ∈ t) : s ∈ commitRows rows t := by
  induction rows generalizing t with
  | nil => exact h
  | cons r rows ih => exact ih (KeyedTable.mem_insert.2 (Or.inl h))

theorem commitRows_old (h : ∀ s ∈ rows, date < s.arrivalTime) :
    (commitRows rows t).rows.filter (isOld date) = t.rows.filter (isOld date) := by
  induction rows generalizing t with
  | nil => rfl
  | cons r rows ih =>
      have hr : isOld date { r with id := t.nextKey } = false := not_isOld (h r (by simp))
      have hinsert : (t.insert (fun id => { r with id := id }) (fun _ => rfl)).rows.filter (isOld date) =
          t.rows.filter (isOld date) := by
        simp [KeyedTable.insert, List.filter_append, hr]
      exact (ih fun s hs => h s (by simp [hs])).trans hinsert

theorem countOld_commitRows (h : ∀ s ∈ rows, date < s.arrivalTime) :
    countOld date (commitRows rows t) = countOld date t := by
  calc
    countOld date (commitRows rows t)
        = ((commitRows rows t).rows.filter (isOld date)).length := List.countP_eq_length_filter
    _ = (t.rows.filter (isOld date)).length := by rw [commitRows_old h]
    _ = countOld date t := List.countP_eq_length_filter.symm

theorem commitRows_young (h : ∀ s ∈ rows, date < s.arrivalTime) :
    youngRows date (commitRows rows t) = commitRows rows (youngRows date t) := by
  induction rows generalizing t with
  | nil => rfl
  | cons r rows ih =>
      have hr : isOld date { r with id := t.nextKey } = false := not_isOld (h r (by simp))
      have hinsert : youngRows date (t.insert (fun id => { r with id := id }) (fun _ => rfl)) =
          (youngRows date t).insert (fun id => { r with id := id }) (fun _ => rfl) :=
        KeyedTable.deleteWhere_insert hr
      exact (ih fun s hs => h s (by simp [hs])).trans (congrArg (commitRows rows) hinsert)

theorem commitsFrom_young (h : ArrivesAfter date env) {k n : Nat} :
    youngRows date (commitsFrom env k n t) = commitsFrom env k n (youngRows date t) := by
  induction n generalizing k t with
  | zero => rfl
  | succ n ih => exact ih.trans (congrArg (commitsFrom env (k + 1) n) (commitRows_young (h k)))

/-! ## One transaction -/

theorem length_batchIds : (batchIds plan date chunkSize t).length = min chunkSize (countOld date t) := by
  rw [batchIds, List.length_map, List.length_take, (plan.perm _).length_eq,
    ← List.countP_eq_length_filter]
  rfl

/-- The batch selects old rows of the table, by their ids. -/
theorem mem_batchIds {id : Nat} (h : id ∈ batchIds plan date chunkSize t) :
    ∃ s ∈ t, s.id = id ∧ isOld date s = true := by
  rcases List.mem_map.1 h with ⟨s, hs, hid⟩
  rcases mem_order_filter.1 (List.mem_of_mem_take hs) with ⟨hmem, hold⟩
  exact ⟨s, hmem, hid, hold⟩

theorem nodup_batchIds : (batchIds plan date chunkSize t).Nodup :=
  nodup_order.sublist ((List.take_sublist _ _).map _)

/-- The ids of a batch, in a table to which newer rows have been added since. -/
structure Selects (date : DateTime) (ids : List Nat) (t : Table) : Prop where
  nodup : ids.Nodup
  stored : ∀ id ∈ ids, ∃ s ∈ t, s.id = id ∧ isOld date s = true

theorem selects_batchIds :
    Selects date (batchIds plan date chunkSize t) (commitRows rows t) where
  nodup := nodup_batchIds
  stored := by
    intro id hid
    rcases mem_batchIds hid with ⟨s, hs, heq, hold⟩
    exact ⟨s, mem_commitRows hs, heq, hold⟩

theorem Selects.isOld (h : Selects date ids t) (hs : s ∈ t) (hid : s.id ∈ ids) :
    isOld date s = true := by
  rcases h.stored s.id hid with ⟨s', hs', hid', hold⟩
  rwa [KeyedTable.eq_of_key_eq hs' hs hid'] at hold

/-- The DELETE removes one row for each id. -/
theorem Selects.deleted (h : Selects date ids t) :
    t.rows.countP (fun s => s.id ∈ ids) = ids.length := by
  have hnodup : ((t.rows.filter (fun s => s.id ∈ ids)).map Submission.id).Nodup :=
    t.nodup.sublist (List.filter_sublist.map _)
  have hperm : ((t.rows.filter (fun s => s.id ∈ ids)).map Submission.id).Perm ids := by
    refine (List.perm_ext_iff_of_nodup hnodup h.nodup).2 fun id => ?_
    constructor
    · intro hid
      rcases List.mem_map.1 hid with ⟨s, hs, rfl⟩
      simpa using (List.mem_filter.1 hs).2
    · intro hid
      rcases h.stored id hid with ⟨s, hs, rfl, -⟩
      exact List.mem_map_of_mem (List.mem_filter.2 ⟨hs, by simpa using hid⟩)
  rw [List.countP_eq_length_filter, ← hperm.length_eq, List.length_map]

theorem Selects.young (h : Selects date ids t) :
    youngRows date (deleteBatch ids t) = youngRows date t :=
  KeyedTable.deleteWhere_deleteWhere fun s hs hid => h.isOld hs (by simpa using hid)

/-- The old rows are those that the DELETE removes and those that it leaves. -/
theorem Selects.countOld (h : Selects date ids t) :
    countOld date (deleteBatch ids t) + ids.length = countOld date t := by
  have hremoved : (t.rows.filter fun s => decide (s.id ∈ ids)).countP (Xqueue.isOld date) = ids.length := by
    rw [← h.deleted, List.countP_eq_length_filter, List.countP_eq_length_filter]
    refine congrArg List.length (List.filter_eq_self.2 ?_)
    intro s hs
    rcases List.mem_filter.1 hs with ⟨hmem, hid⟩
    exact h.isOld hmem (by simpa using hid)
  have hleft : Xqueue.countOld date (deleteBatch ids t) =
      (t.rows.filter fun s => !decide (s.id ∈ ids)).countP (Xqueue.isOld date) := rfl
  calc
    Xqueue.countOld date (deleteBatch ids t) + ids.length
        = (t.rows.filter fun s => decide (s.id ∈ ids)).countP (Xqueue.isOld date) +
            (t.rows.filter fun s => !decide (s.id ∈ ids)).countP (Xqueue.isOld date) := by
              rw [hleft, hremoved, Nat.add_comm]
    _ = Xqueue.countOld date t := by
          have hsplit := List.countP_eq_countP_filter_add t.rows (Xqueue.isOld date)
            (fun s => decide (s.id ∈ ids))
          simpa [Xqueue.countOld] using hsplit.symm

/-! ## The loop -/

theorem roundsFor_zero (h : 1 ≤ chunkSize) : roundsFor chunkSize 0 = 0 := by
  rw [roundsFor, Nat.zero_add]
  exact Nat.div_eq_of_lt (by omega)

/-- A round takes a full chunk, or all that is left. -/
theorem roundsFor_step (h : 1 ≤ chunkSize) {count left : Nat} (hpos : 0 < count)
    (hleft : left + min chunkSize count = count) :
    roundsFor chunkSize count = roundsFor chunkSize left + 1 := by
  by_cases hle : count ≤ chunkSize
  · -- the last one
    have hzero : left = 0 := by omega
    rw [hzero, roundsFor_zero h, roundsFor]
    exact Nat.div_eq_of_lt_le (by omega) (by omega)
  · have hcount : count + chunkSize - 1 = left + chunkSize - 1 + chunkSize := by omega
    rw [roundsFor, hcount, Nat.add_div_right _ h, roundsFor]

/-- The condition of the loop, whatever newer rows have come in. -/
theorem any_isOld (h : ∀ s ∈ rows, date < s.arrivalTime) :
    (commitRows rows t).rows.any (isOld date) = true ↔ 0 < countOld date t := by
  rw [← countOld_commitRows h, countOld, List.countP_pos_iff, List.any_eq_true]

/-- A round: its transaction deletes a full chunk, or all that is left.  The loop goes on if no old
row is left or `time.sleep` accepts the seconds, and ends with the exception otherwise. -/
theorem deleteLoop_round (harr : ArrivesAfter date env) {k : Nat} (hpos : 0 < countOld date t) :
    ∃ next b, b.deleted = min chunkSize (countOld date t) ∧
      countOld date next + min chunkSize (countOld date t) = countOld date t ∧
      youngRows date next = commitsFrom env k 5 (youngRows date t) ∧
      ∀ fuel totalDeletions, deleteLoop env date chunkSize sleepBetween (fuel + 1) k totalDeletions t =
        match if 0 < countOld date next then timeSleep sleepBetween else .ok () with
        | .error e => some ⟨next, totalDeletions + min chunkSize (countOld date t), [b], some e⟩
        | .ok () =>
            (deleteLoop env date chunkSize sleepBetween fuel (k + 5)
              (totalDeletions + min chunkSize (countOld date t)) next).map
                (fun report => { report with batches := b :: report.batches }) := by
  -- the table before the count, the list of ids, the DELETE and the next condition
  let t₁ := commitRows (env.arrivals (k + 1)) (commitRows (env.arrivals k) t)
  let t₂ := commitRows (env.arrivals (k + 2)) t₁
  let t₃ := commitRows (env.arrivals (k + 3)) t₂
  let ids := batchIds (env.plan (k + 2)) date chunkSize t₂
  let t₅ := commitRows (env.arrivals (k + 4)) (deleteBatch ids t₃)
  have hcount₁ : countOld date t₁ = countOld date t :=
    (countOld_commitRows (harr (k + 1))).trans (countOld_commitRows (harr k))
  have hcount₂ : countOld date t₂ = countOld date t :=
    (countOld_commitRows (harr (k + 2))).trans hcount₁
  have hcount₃ : countOld date t₃ = countOld date t :=
    (countOld_commitRows (harr (k + 3))).trans hcount₂
  have hselects : Selects date ids t₃ := selects_batchIds
  have hlength : ids.length = min chunkSize (countOld date t) := by
    rw [← hcount₂]
    exact length_batchIds
  have hdeleted : t₃.rows.countP (fun s => s.id ∈ ids) = min chunkSize (countOld date t) := by
    rw [hselects.deleted, hlength]
  have hleft : countOld date t₅ + min chunkSize (countOld date t) = countOld date t := by
    calc
      countOld date t₅ + min chunkSize (countOld date t)
          = countOld date (deleteBatch ids t₃) + ids.length := by
              rw [countOld_commitRows (harr (k + 4)), hlength]
      _ = countOld date t₃ := hselects.countOld
      _ = countOld date t := hcount₃
  have hyoung : youngRows date t₅ = commitsFrom env k 5 (youngRows date t) := by
    calc
      youngRows date t₅
          = commitRows (env.arrivals (k + 4)) (youngRows date (deleteBatch ids t₃)) :=
            commitRows_young (harr (k + 4))
      _ = commitRows (env.arrivals (k + 4)) (youngRows date t₃) := by rw [hselects.young]
      _ = commitRows (env.arrivals (k + 4)) (commitsFrom env k 4 (youngRows date t)) := by
            exact congrArg (commitRows (env.arrivals (k + 4)))
              (commitsFrom_young (t := t) (k := k) (n := 4) harr)
      _ = commitsFrom env k 5 (youngRows date t) := rfl
  refine ⟨t₅, ⟨min chunkSize (countOld date t), t₃.rows.countP (fun s => s.id ∈ ids),
    t₅.rows.any (isOld date)⟩, hdeleted, hleft, hyoung, ?_⟩
  intro fuel totalDeletions
  have hreported : (commitRows (env.arrivals (k + 1)) (commitRows (env.arrivals k) t)).rows.countP
      (isOld date) = countOld date t := hcount₁
  have hsleeps : (t₅.rows.any (isOld date) = true) = (0 < countOld date t₅) := by
    rw [countOld, List.countP_pos_iff, List.any_eq_true]
  rw [deleteLoop]
  simp only [(any_isOld (harr k)).2 hpos, if_true, hreported, ← hsleeps]
  cases hsleep : (if t₅.rows.any (isOld date) = true then timeSleep sleepBetween else .ok ()) with
  | error e => rfl
  | ok _ =>
      cases deleteLoop env date chunkSize sleepBetween fuel (k + 5)
        (totalDeletions + min chunkSize (countOld date t)) t₅ <;> rfl

theorem deleteLoop_exit (harr : ArrivesAfter date env) {fuel k totalDeletions : Nat}
    (hzero : countOld date t = 0) :
    deleteLoop env date chunkSize sleepBetween (fuel + 1) k totalDeletions t =
      some ⟨commitRows (env.arrivals k) (youngRows date t), totalDeletions, [], none⟩ := by
  have hnone : ¬ (commitRows (env.arrivals k) t).rows.any (isOld date) = true := by
    rw [any_isOld (harr k), hzero]
    exact Nat.lt_irrefl 0
  have hkept : commitRows (env.arrivals k) (youngRows date t) = commitRows (env.arrivals k) t := by
    rw [← commitRows_young (harr k)]
    refine KeyedTable.deleteWhere_of_forall_not ?_
    simpa [List.any_eq_true, KeyedTable.mem_rows] using hnone
  rw [deleteLoop, hkept]
  exact if_neg hnone

/-- From the query `k` on: the rounds that it takes, the size of each transaction, the total and
the table.  Newer rows may come in before every query. -/
theorem deleteLoop_spec (hchunk : 1 ≤ chunkSize) (harr : ArrivesAfter date env) :
    ∀ (fuel k totalDeletions : Nat) (t : Table),
      timeSleep sleepBetween = .ok () ∨ countOld date t ≤ chunkSize →
      roundsFor chunkSize (countOld date t) < fuel →
      ∃ report, deleteLoop env date chunkSize sleepBetween fuel k totalDeletions t = some report ∧
        report.raised = none ∧
        report.batches.length = roundsFor chunkSize (countOld date t) ∧
        (∀ b ∈ report.batches, 1 ≤ b.deleted ∧ b.deleted ≤ chunkSize) ∧
        report.totalDeletions = totalDeletions + countOld date t ∧
        report.table = commitsFrom env k (5 * roundsFor chunkSize (countOld date t) + 1)
          (youngRows date t) := by
  intro fuel
  induction fuel with
  | zero =>
      intro k totalDeletions t _ h
      exact absurd h (Nat.not_lt_zero _)
  | succ fuel ih =>
      intro k totalDeletions t hsleep hfuel
      rcases Nat.eq_zero_or_pos (countOld date t) with hzero | hpos
      · refine ⟨_, deleteLoop_exit harr hzero, rfl, ?_, by simp, ?_, ?_⟩
        · rw [hzero, roundsFor_zero hchunk]
          rfl
        · rw [hzero]
          rfl
        · rw [hzero, roundsFor_zero hchunk]
          rfl
      · rcases @deleteLoop_round env date chunkSize sleepBetween t harr k hpos with
          ⟨next, b, hdeleted, hleft, hyoung, hloop⟩
        have hrounds : roundsFor chunkSize (countOld date t) =
            roundsFor chunkSize (countOld date next) + 1 :=
          roundsFor_step hchunk hpos hleft
        -- it sleeps only if old rows are left, and then the seconds are accepted
        have hslept : (if 0 < countOld date next then timeSleep sleepBetween else .ok ()) = .ok () := by
          rcases hsleep with hsleep | hsmall
          · rw [hsleep, ite_self]
          · exact if_neg (by omega)
        have hsleep' : timeSleep sleepBetween = .ok () ∨ countOld date next ≤ chunkSize := by
          rcases hsleep with hsleep | hsmall
          · exact Or.inl hsleep
          · exact Or.inr (by omega)
        rcases ih (k + 5) (totalDeletions + min chunkSize (countOld date t)) next hsleep' (by omega) with
          ⟨report, hrest, hraised, hlength, hsizes, htotal, htable⟩
        refine ⟨{ report with batches := b :: report.batches }, ?_, hraised, ?_, ?_, ?_, ?_⟩
        · simp only [hloop, hslept, hrest, Option.map_some]
        · rw [hrounds, ← hlength]
          rfl
        · intro b' hb
          rcases List.mem_cons.1 hb with rfl | hb
          · rw [hdeleted]
            exact ⟨Nat.le_min.2 ⟨hchunk, hpos⟩, Nat.min_le_left _ _⟩
          · exact hsizes b' hb
        · calc
            report.totalDeletions
                = totalDeletions + min chunkSize (countOld date t) + countOld date next := htotal
            _ = totalDeletions + (countOld date next + min chunkSize (countOld date t)) := by
                  rw [Nat.add_assoc, Nat.add_comm (countOld date next)]
            _ = totalDeletions + countOld date t := by rw [hleft]
        · rw [htable, hyoung, hrounds]
          rfl

/-- The first round of a loop that has more to delete, if `time.sleep` does not accept the seconds. -/
theorem deleteLoop_aborted (harr : ArrivesAfter date env) {e : PyExc}
    (hsleep : timeSleep sleepBetween = .error e) (hmore : chunkSize < countOld date t)
    {fuel k totalDeletions : Nat} :
    ∃ next b, deleteLoop env date chunkSize sleepBetween (fuel + 1) k totalDeletions t =
        some ⟨next, totalDeletions + chunkSize, [b], some e⟩ ∧
      countOld date next + chunkSize = countOld date t := by
  rcases @deleteLoop_round env date chunkSize sleepBetween t harr k (by omega) with
    ⟨next, b, -, hleft, -, hloop⟩
  have hmin : min chunkSize (countOld date t) = chunkSize := Nat.min_eq_left (Nat.le_of_lt hmore)
  rw [hmin] at hleft
  have hpos : 0 < countOld date next := by omega
  refine ⟨next, b, ?_, hleft⟩
  simp only [hloop, hpos, if_true, hsleep, hmin]

theorem chunkSize_of_deleteDate (h : deleteDate now options = .ok date) :
    1 ≤ options.chunkSize.toNat := by
  by_cases hchunk : options.chunkSize ≤ 0
  · simp [deleteDate, hchunk] at h
  · omega

/-- The command ends by itself after `ceil(N / chunk_size)` rounds, where `N` rows are old at its
start; each transaction deletes between one row and a full chunk, `N` in total, and the table is left
with the newer rows, those that have been inserted meanwhile included. -/
def DeletesOldRows (env : DeleteEnv) (now date : DateTime) (options : DeleteOptions) (t : Table) :
    Prop :=
  ∀ fuel, roundsFor options.chunkSize.toNat (countOld date t) < fuel →
    ∃ report, deleteOldSubmissions env now options fuel t = .ok (some (countOld date t, report)) ∧
      report.raised = none ∧
      report.batches.length = roundsFor options.chunkSize.toNat (countOld date t) ∧
      (∀ b ∈ report.batches, 1 ≤ b.deleted ∧ b.deleted ≤ options.chunkSize.toNat) ∧
      report.totalDeletions = countOld date t ∧
      report.table = youngRows date
        (commitsFrom env 0 (5 * roundsFor options.chunkSize.toNat (countOld date t) + 2) t)

theorem deletesOldRows_of_sleep (hdate : deleteDate now options = .ok date)
    (harr : ArrivesAfter date env)
    (hsleep : timeSleep options.sleepBetween = .ok () ∨ countOld date t ≤ options.chunkSize.toNat) :
    DeletesOldRows env now date options t := by
  intro fuel hfuel
  have hcount : countOld date (commitRows (env.arrivals 0) t) = countOld date t :=
    countOld_commitRows (harr 0)
  rcases deleteLoop_spec (chunkSize_of_deleteDate hdate) harr fuel 1 0 (commitRows (env.arrivals 0) t)
    (by rwa [hcount]) (by rwa [hcount]) with
    ⟨report, hloop, hraised, hlength, hsizes, htotal, htable⟩
  rw [hcount] at hlength htotal htable
  refine ⟨report, ?_, hraised, hlength, hsizes, by omega, ?_⟩
  · simp only [deleteOldSubmissions, hdate, hloop]
    exact congrArg (fun n => Except.ok (some (n, report))) hcount
  · calc
      report.table
          = commitsFrom env 1 (5 * roundsFor options.chunkSize.toNat (countOld date t) + 1)
              (commitRows (env.arrivals 0) (youngRows date t)) := by
                rw [htable, commitRows_young (harr 0)]
      _ = commitsFrom env 0 (5 * roundsFor options.chunkSize.toNat (countOld date t) + 2)
            (youngRows date t) := rfl
      _ = youngRows date
            (commitsFrom env 0 (5 * roundsFor options.chunkSize.toNat (countOld date t) + 2) t) :=
              (commitsFrom_young harr).symm

/-- With seconds that `time.sleep` does not accept, the command ends in the exception after one
chunk, and leaves the other old rows. -/
theorem deleteOldSubmissions_aborted (hdate : deleteDate now options = .ok date)
    (harr : ArrivesAfter date env) {e : PyExc} (hsleep : timeSleep options.sleepBetween = .error e)
    (hmore : options.chunkSize.toNat < countOld date t) (fuel : Nat) :
    ∃ report, deleteOldSubmissions env now options (fuel + 1) t =
        .ok (some (countOld date t, report)) ∧
      report.raised = some e ∧
      countOld date report.table + options.chunkSize.toNat = countOld date t := by
  have hcount : countOld date (commitRows (env.arrivals 0) t) = countOld date t :=
    countOld_commitRows (harr 0)
  rcases @deleteLoop_aborted env date options.chunkSize.toNat options.sleepBetween
    (commitRows (env.arrivals 0) t) harr e hsleep (by rwa [hcount]) fuel 1 0 with
    ⟨next, b, hloop, hleft⟩
  rw [hcount] at hleft
  let report : DeleteReport := ⟨next, 0 + options.chunkSize.toNat, [b], some e⟩
  refine ⟨report, ?_, rfl, hleft⟩
  simp only [deleteOldSubmissions, hdate, hloop, Option.map_some]
  exact congrArg (fun n => Except.ok (some (n, report))) hcount

/-- The command deletes exactly the old rows if and only if `time.sleep` accepts the seconds between
two chunks, or the first chunk takes all of them. -/
theorem deletes_old_rows_iff (hdate : deleteDate now options = .ok date)
    (harr : ArrivesAfter date env) :
    DeletesOldRows env now date options t ↔
      timeSleep options.sleepBetween = .ok () ∨ countOld date t ≤ options.chunkSize.toNat := by
  constructor
  · intro h
    rcases Nat.lt_or_ge options.chunkSize.toNat (countOld date t) with hmore | hsmall
    · cases hsleep : timeSleep options.sleepBetween with
      | ok _ => exact Or.inl rfl
      | error e =>
          -- the report of the same run cannot be both
          rcases h _ (Nat.lt_succ_self _) with ⟨report, hreport, hnone, -⟩
          rcases deleteOldSubmissions_aborted hdate harr hsleep hmore _ with
            ⟨aborted, haborted, hsome, -⟩
          rw [haborted] at hreport
          have heq : aborted = report := by simpa using hreport
          rw [heq, hnone] at hsome
          exact absurd hsome (by simp)
    · exact Or.inr hsmall
  · exact deletesOldRows_of_sleep hdate harr

/-- The options for chunks of one row, and no days to keep. -/
def oneByOne : DeleteOptions where
  chunkSize := 1
  sleepBetween := .finite false 0 0
  daysOld := 0

/-- The row of a third job, which is committed before the first DELETE. -/
def thirdRow : Submission :=
  newSubmission (jobFor (py "/lms/3/problem"))
    ⟨.str (py "/lms/3/problem"), py "test-pull", jobHeader (py "/lms/3/problem") (py "test-pull"),
      py "answer"⟩ (py "/lms/3/problem") (py "\x7b\x7d") (py "\x7b\x7d") (clockAt 3) 0

def thirdJobMeanwhile : DeleteEnv where
  arrivals := fun k => if k = 3 then [thirdRow] else []
  plan := fun _ => .insertion

theorem arrivesAfter_thirdJob : ArrivesAfter (clockAt 2) thirdJobMeanwhile := by
  intro k s hs
  by_cases hk : k = 3
  · have hrow : s = thirdRow := by simpa [thirdJobMeanwhile, hk] using hs
    rw [hrow]
    decide +kernel
  · simp [thirdJobMeanwhile, hk] at hs

/-- Two old jobs take two rounds; the third job, inserted before the first DELETE, stays. -/
theorem deletes_old_rows_twoJobs :
    DeletesOldRows thirdJobMeanwhile (clockAt 2) (clockAt 2) oneByOne twoJobs ∧
    countOld (clockAt 2) twoJobs = 2 ∧ roundsFor 1 (countOld (clockAt 2) twoJobs) = 2 ∧
    (youngRows (clockAt 2) (commitsFrom thirdJobMeanwhile 0 12 twoJobs)).rows.map Submission.id =
      [3] := by
  have hdate : deleteDate (clockAt 2) oneByOne = .ok (clockAt 2) := by decide +kernel
  have hsleep : timeSleep oneByOne.sleepBetween = .ok () := by decide +kernel
  exact ⟨(deletes_old_rows_iff hdate arrivesAfter_thirdJob).2 (Or.inl hsleep), by decide +kernel,
    by decide +kernel, by decide +kernel⟩

/-- `--chunk_size 1 --sleep_between nan --days_old 0` -/
def nanSleep : DeleteOptions where
  chunkSize := 1
  sleepBetween := .nan
  daysOld := 0

/-- The options pass the checks, but `time.sleep` raises after the first of two old rows. -/
theorem nan_sleep_aborts :
    deleteDate (clockAt 2) nanSleep = .ok (clockAt 2) ∧
    ArrivesAfter (clockAt 2) thirdJobMeanwhile ∧
    (∃ report, deleteOldSubmissions thirdJobMeanwhile (clockAt 2) nanSleep 3 twoJobs =
        .ok (some (2, report)) ∧
      report.raised = some .valueError ∧ report.table.rows.map Submission.id = [2, 3]) ∧
    ¬ DeletesOldRows thirdJobMeanwhile (clockAt 2) (clockAt 2) nanSleep twoJobs := by
  have hoptions : deleteDate (clockAt 2) nanSleep = .ok (clockAt 2) := by decide +kernel
  have hcount : countOld (clockAt 2) twoJobs = 2 := by decide +kernel
  have hreport : ((deleteLoop thirdJobMeanwhile (clockAt 2) 1 .nan 3 1 0 twoJobs).map fun report =>
      (report.raised, report.table.rows.map Submission.id)) = some (some .valueError, [2, 3]) := by
    decide +kernel
  rcases Option.map_eq_some_iff.1 hreport with ⟨report, hloop, hresult⟩
  have hraised : report.raised = some .valueError := congrArg Prod.fst hresult
  have hrun : deleteOldSubmissions thirdJobMeanwhile (clockAt 2) nanSleep 3 twoJobs =
      .ok (some (2, report)) := by
    have htotal : (commitRows (thirdJobMeanwhile.arrivals 0) twoJobs).rows.countP
        (isOld (clockAt 2)) = 2 := hcount
    simp only [deleteOldSubmissions, hoptions, htotal]
    exact congrArg (fun r => Except.ok (Option.map (fun report => (2, report)) r)) hloop
  refine ⟨hoptions, arrivesAfter_thirdJob, ⟨report, hrun, hraised, congrArg Prod.snd hresult⟩, ?_⟩
  intro h
  have hfuel : roundsFor nanSleep.chunkSize.toNat (countOld (clockAt 2) twoJobs) < 3 := by
    rw [hcount]
    decide
  rcases h 3 hfuel with ⟨other, hother, hnone, -⟩
  rw [hrun] at hother
  have heq : report = other := by
    simp only [Except.ok.injEq, Option.some.injEq, Prod.mk.injEq] at hother
    exact hother.2
  rw [heq, hnone] at hraised
  cases hraised

end Xqueue
