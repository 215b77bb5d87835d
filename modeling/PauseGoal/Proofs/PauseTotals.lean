import PauseGoal.Policy.Statistics
import PauseGoal.Proofs.Exact
import PauseGoal.Proofs.Traces

/-!
# The ledger and the journal agree

A finished pause is kept twice: the ledger adds it to the totals of its kind, and the journal
reports it as an event. Four calls finish pauses, and each of them enters the same record in both
places (`finished_of_call`). Over a run in any order the totals of a kind are therefore those of the
pauses of that kind in the journal, and the statistics count all of them.
-/

namespace PauseGoal

open Pause (Kind Ledger Record Totals)

variable {α : Type} [Scalar α]

/-! ## Totals of lists of pauses -/

namespace Pause

/-- The number of pauses of the given lengths, their sum from left to right, and the longest one. -/
def Totals.ofLengths (lengths : List α) : Totals α where
  count := lengths.length
  total := Scalar.sum lengths
  longest := lengths.foldl Scalar.max (num 0)

theorem Totals.ofLengths_concat (lengths : List α) (length : α) :
    Totals.ofLengths (lengths ++ [length]) = (Totals.ofLengths lengths).add length := by
  unfold ofLengths add
  rw [List.length_append, Scalar.sum_append_singleton, List.foldl_append]
  rfl

/-- The lengths in milliseconds of the pauses of one kind. -/
def lengthsOfKind (kind : Kind) (records : List (Record α)) : List α :=
  (records.filter fun r => r.kind == kind).map Record.milliseconds

theorem lengthsOfKind_concat (kind : Kind) (records : List (Record α)) (r : Record α) :
    lengthsOfKind kind (records ++ [r]) =
      if r.kind = kind then lengthsOfKind kind records ++ [r.milliseconds]
      else lengthsOfKind kind records := by
  unfold lengthsOfKind
  rw [List.filter_append]
  split
  · next hkind => simp [hkind]
  · next hkind => simp [hkind]

namespace Ledger

/-- The ledger of a list of pauses. -/
def ofRecords (records : List (Record α)) : Ledger α := records.foldl count empty

theorem totalsOf_ofRecords (kind : Kind) (records : List (Record α)) :
    (ofRecords records).totalsOf kind = .ofLengths (lengthsOfKind kind records) := by
  induction records using List.reverseRecOn with
  | nil => exact totalsOf_empty kind
  | append_singleton records r ih =>
    unfold ofRecords at ih ⊢
    rw [List.foldl_append, List.foldl_cons, List.foldl_nil, totalsOf_count, ih,
      lengthsOfKind_concat]
    split
    · exact (Totals.ofLengths_concat _ _).symm
    · rfl

omit [Scalar α] in
/-- One more pause among the totals of a kind is one more pause in all. -/
theorem foldl_count_modify {add : Totals α → Totals α} (hadd : ∀ t, (add t).count = t.count + 1)
    {totals : List (Totals α)} {i : Nat} (hi : i < totals.length) (sum : Nat) :
    (totals.modify i add).foldl (fun sum t => sum + t.count) sum =
      totals.foldl (fun sum t => sum + t.count) (sum + 1) := by
  induction totals generalizing i sum with
  | nil => cases hi
  | cons t rest ih =>
    cases i with
    | zero =>
      rw [List.modify_zero_cons, List.foldl_cons, List.foldl_cons, hadd]
      congr 1
      omega
    | succ i =>
      rw [List.modify_succ_cons, List.foldl_cons, List.foldl_cons,
        ih (Nat.lt_of_succ_lt_succ hi) (sum + t.count), Nat.add_right_comm]

omit [Scalar α] in
theorem foldl_count_succ (totals : List (Totals α)) (sum : Nat) :
    totals.foldl (fun sum t => sum + t.count) (sum + 1) =
      totals.foldl (fun sum t => sum + t.count) sum + 1 := by
  induction totals generalizing sum with
  | nil => rfl
  | cons t rest ih =>
    rw [List.foldl_cons, List.foldl_cons, Nat.add_right_comm]
    exact ih _

theorem size_count (ledger : Ledger α) (r : Record α) :
    (ledger.count r).size = ledger.size + 1 := by
  have hindex : r.kind.index < ledger.totals.length := ledger.length_totals ▸ r.kind.index_lt
  unfold size count
  rw [foldl_count_modify (fun t => rfl) hindex, foldl_count_succ]

theorem size_ofRecords (records : List (Record α)) : (ofRecords records).size = records.length := by
  induction records using List.reverseRecOn with
  | nil => rfl
  | append_singleton records r ih =>
    unfold ofRecords at ih ⊢
    rw [List.foldl_append, List.foldl_cons, List.foldl_nil, size_count, ih, List.length_append]
    rfl

end Ledger

end Pause

/-! ## The pauses that calls finish -/

namespace Collector

/-- The pause that a call finishes, if it is the end of one. The kind of an evacuation pause is the
one that phases and marking flag give just before the call. -/
def World.finished (w : World α) : Call α → Checked α (List (Record α))
  | .endPause _ now pause => do
    let kind ← w.policy.phases.evacuationKind w.policy.seesInitialMark.1
    return [⟨kind, now - pause / num 1000, now⟩]
  | .endFull _ now => .ok [⟨.full, w.policy.fullStart, now⟩]
  | .endRemark now => .ok [⟨.remark, w.policy.remarkStart, now⟩]
  | .endCleanup _ now => .ok [⟨.cleanup, w.policy.cleanupStart, now⟩]
  | _ => .ok []

omit [Scalar α] in
/-- The kind that is found is the one that phases and flag ask for. -/
theorem evacuationKind_eq_pauseKind {p : Policy α} {kind : Kind}
    (h : (p.phases.evacuationKind p.seesInitialMark.1 : Checked α Kind) = .ok kind) :
    kind = p.control.pauseKind := by
  rw [p.seesInitialMark_fst] at h
  have hout : (Act.ofChecked (p.phases.evacuationKind p.control.scheduled)).outcome {} =
      ((.ok kind : Checked α Kind), ({} : Journal α)) := by
    rw [h]
    rfl
  obtain ⟨_, _, hkind, _⟩ := (Policy.ends_evacuationKind p.control).returns _ _ _ hout
  exact hkind

/-- A finished pause is entered in the journal and in the ledger, and nothing else is. -/
theorem World.finished_of_call {w w' : World α} {c : Call α} (h : w.call c = .ok w') :
    ∃ records, w.finished c = .ok records ∧
      w'.journal.records = w.journal.records ++ records ∧
      w'.policy.costs.ledger = records.foldl Ledger.count w.policy.costs.ledger := by
  have hstep := registered_of_call h
  have hrecords := (told_of_call h).2
  have hledger : w'.policy.register.ledger = w'.policy.costs.ledger := rfl
  rw [← hledger]
  generalize w'.policy.register = r at hstep
  cases hstep with
  | @kept c hkeeps =>
    refine ⟨[], ?_, ?_, rfl⟩
    · cases c with
      | chore => rfl
      | _ => first | rfl | cases hkeeps
    · rw [hrecords]
      cases c with
      | chore chore => cases chore <;> rfl
      | decide heap =>
        simp only [tells]
        split <;> rfl
      | _ => first | rfl | cases hkeeps
  | endPause hkind =>
    refine ⟨_, congrArg (Except.map _) hkind, ?_, rfl⟩
    rw [hrecords, evacuationKind_eq_pauseKind hkind]
    rfl
  | endFull => exact ⟨_, rfl, hrecords, rfl⟩
  | endRemark => exact ⟨_, rfl, hrecords, rfl⟩
  | endCleanup => exact ⟨_, rfl, hrecords, rfl⟩
  | @recordSurvivors tag bytes age g =>
    refine ⟨[], rfl, hrecords, ?_⟩
    cases tag.population <;> rfl
  | _ => exact ⟨[], rfl, hrecords, rfl⟩

/-! ## Runs -/

/-- What was reported since the start is what the ledger counted. -/
theorem Traces.ledger_eq {allowed : List (Moment α) → Call α → Bool} {w₀ w : World α}
    {t : List (Moment α)} (hrun : Traces allowed w₀ t w)
    (hempty : w₀.policy.costs.ledger = .empty) :
    ∃ records, w.journal.records = w₀.journal.records ++ records ∧
      w.policy.costs.ledger = .ofRecords records := by
  induction hrun with
  | start => exact ⟨[], (List.append_nil _).symm, hempty⟩
  | call _ _ hcall ih =>
    obtain ⟨records, hrecords, hledger⟩ := ih
    obtain ⟨more, _, hmore, hcount⟩ := World.finished_of_call hcall
    refine ⟨records ++ more, by rw [hmore, hrecords, List.append_assoc], ?_⟩
    rw [hcount, hledger, Ledger.ofRecords, Ledger.ofRecords, List.foldl_append]

theorem records_of_start {settings : Settings α} {heap : Heap α} {now : α}
    {fullCauses : List Cause} {policy : Policy α} {before after : Journal α}
    (h : (Policy.start settings heap now fullCauses).outcome before =
      (.ok (.ok policy), after)) : after.records = before.records := by
  obtain ⟨events, happend, hnone, _⟩ := Policy.account_start settings heap now fullCauses _ _ _ h
  rw [Journal.records, happend, recordsOf_append, hnone, List.append_nil]
  rfl

/-- At every point of a run without faults, in whatever order it makes its calls, the totals of a
kind are those of the pauses of that kind that were reported since the policy started, and the
statistics count all pauses reported, unless the threshold that they show has no value. The end of a
pause reports exactly one pause, under the kind that it has just before; no other call reports
any. -/
theorem pause_accounts_agree {settings : Settings α} {heap : Heap α} {now : α}
    {fullCauses : List Cause} {policy : Policy α} {before after : Journal α}
    (hstart : (Policy.start settings heap now fullCauses).outcome before =
      (.ok (.ok policy), after))
    {t : List (Moment α)} {w : World α} (hrun : Traces anyCall (.opened policy after) t w) :
    (∃ records, w.journal.records = before.records ++ records ∧
      (∀ kind, w.policy.costs.ledger.totalsOf kind =
        { count := (records.filter fun r => r.kind == kind).length
          total := Scalar.sum (Pause.lengthsOfKind kind records)
          longest := (Pause.lengthsOfKind kind records).foldl Scalar.max (num 0) }) ∧
      ∀ heap, (w.policy.statistics heap).map Statistics.totalPauses =
        w.policy.threshold.bytes.map fun _ => records.length) ∧
    ∀ c w', w.call c = .ok w' → ∃ finished, w.finished c = .ok finished ∧
      w'.journal.records = w.journal.records ++ finished := by
  have hfresh : (World.opened policy after).Fresh := .intro hstart
  have hempty : policy.costs.ledger = .empty := congrArg Register.ledger hfresh.register_eq
  constructor
  · obtain ⟨records, hrecords, hledger⟩ := hrun.ledger_eq hempty
    refine ⟨records, ?_, fun kind => ?_, fun heap => ?_⟩
    · rw [hrecords, ← records_of_start hstart]
      rfl
    · rw [hledger, Ledger.totalsOf_ofRecords, Totals.ofLengths, Pause.lengthsOfKind,
        List.length_map]
    · unfold Policy.statistics
      cases w.policy.threshold.bytes with
      | error fault => rfl
      | ok threshold =>
        have hsize : w.policy.costs.ledger.size = records.length := by
          rw [hledger, Ledger.size_ofRecords]
        exact congrArg Except.ok hsize
  · intro c w' hcall
    obtain ⟨finished, hfinished, hrecords, _⟩ := World.finished_of_call hcall
    exact ⟨finished, hfinished, hrecords⟩

/-- A cycle up to its cleanup and two full collections, of two seconds and of one. -/
theorem pause_accounts_of_plain_cycle :
    let calls := plainCycle 10 20 ++
      [.startFull plainHeap 20, .endFull plainHeap 22, .startFull plainHeap 30,
        .endFull plainHeap 31]
    let records : List (Record Rat) :=
      [⟨.initialMark, 10, 11⟩, ⟨.remark, 12, 13⟩, ⟨.cleanup, 14, 15⟩, ⟨.full, 20, 22⟩,
        ⟨.full, 30, 31⟩]
    ∃ policy after t w,
      (Policy.start plainSettings plainHeap 1 []).outcome {} = (.ok (.ok policy), after) ∧
        Traces anyCall (.opened policy after) t w ∧ t.map Moment.call = calls ∧
        w.journal.records = records ∧
        w.policy.costs.ledger.totalsOf .full = { count := 2, total := 3000, longest := 2000 } ∧
        w.policy.costs.ledger.totalsOf .young = { count := 0, total := 0, longest := 0 } ∧
        (w.policy.statistics plainHeap).map Statistics.totalPauses = .ok 5 := by
  intro calls records
  obtain ⟨policy, after, t, w, hstart, hrun, hcalls, hends⟩ :=
    exists_trace anyCall plainSettings plainHeap 1 calls
      (P := fun _ w => decide (w.journal.records = records) && w.policy.threshold.bytes.toBool)
      (by decide +kernel)
  simp only [Bool.and_eq_true, decide_eq_true_eq] at hends
  obtain ⟨hreported, hbytes⟩ := hends
  obtain ⟨threshold, hbytes⟩ := Checked.exists_of_toBool hbytes
  obtain ⟨⟨records', hrecords, htotals, hstatistics⟩, _⟩ := pause_accounts_agree hstart hrun
  obtain rfl : records' = records := (List.nil_append _).symm.trans (hrecords.symm.trans hreported)
  refine ⟨policy, after, t, w, hstart, hrun, hcalls, hreported, ?_, ?_, ?_⟩
  · rw [htotals]
    decide +kernel
  · rw [htotals]
    decide +kernel
  · rw [hstatistics, hbytes]
    rfl

end Collector

end PauseGoal
