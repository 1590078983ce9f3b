import NeoGraph.Provider.BudgetClaim

/-!
# Usage reports add up

A `UsageAccumulator` folds the usage reports of provider calls into one. The first
report is copied; of a later one each counter is added to the one kept so far, or
lost when either of the two is missing. What is kept of a list of reports is told
without an order (`IsAggregate`): a counter that all reports have is their sum, the
stage is the least of theirs, and every conflict is kept. So calls may complete in
any order.

The accumulator of `BudgetClaim` counts what is charged; here it keeps its reports
as well (`UsageBank`). What a provider reports about money is a parameter with a
value for its absence.
-/

namespace NeoGraph.Provider

open List Provider

/-! ## Reports -/

/-- How a count is known. -/
inductive Evidence where
  | reported
  | derived
deriving DecidableEq

/-- A count, and how it is known. -/
structure Count where
  value : ℕ
  evidence : Evidence
deriving DecidableEq

/-- A counter whose reports contradict each other. -/
structure UsageConflict where
  counter : String
  detail : String
deriving DecidableEq

/-- The counters that every report has a place for. -/
inductive UsageCounter where
  | inputTotal
  | outputTotal
  | total
  | providerReportedTotal
  | inputUncached
  | cacheRead
  | cacheWrite
  | reasoning
deriving DecidableEq

def UsageCounter.name : UsageCounter → String
  | inputTotal => "input_total"
  | outputTotal => "output_total"
  | total => "total"
  | providerReportedTotal => "provider_reported_total"
  | inputUncached => "input_uncached"
  | cacheRead => "cache_read"
  | cacheWrite => "cache_write"
  | reasoning => "reasoning"

/-- The counters in the order in which they are folded. -/
def usageCounters : List UsageCounter :=
  [.inputTotal, .outputTotal, .total, .providerReportedTotal, .inputUncached, .cacheRead,
    .cacheWrite, .reasoning]

variable {C : Type}

/-- What is known of the usage of a call. -/
structure UsageReport (C : Type) where
  counters : UsageCounter → Option Count := fun _ => none
  extra : SortedMap String Count := ∅
  stage : UsageStage := .missing
  quality : UsageQuality := .consistent
  conflicts : List UsageConflict := []
  providerCost : C

/-- What a charge is read from. -/
def UsageReport.usage (report : UsageReport C) : Usage where
  stage := report.stage
  quality := report.quality
  inputTotal := (report.counters .inputTotal).map Count.value
  outputTotal := (report.counters .outputTotal).map Count.value
  total := (report.counters .total).map Count.value
  providerReportedTotal := (report.counters .providerReportedTotal).map Count.value

/-! ## The fold -/

section Fold

variable [DecidableEq C] [Inhabited C]

/-- A counter and the conflict that its sum may raise. -/
def foldCounter (counter : String) (target value : Option Count) :
    Option Count × List UsageConflict :=
  match target, value with
  | some target, some value =>
    if maxTokens - target.value < value.value then
      (none, [{ counter := counter, detail := "aggregate counter overflow" }])
    else (some { value := target.value + value.value, evidence := .derived }, [])
  | _, _ => (none, [])

/-- A further report. -/
def UsageReport.fold (reports usage : UsageReport C) : UsageReport C :=
  let named := usageCounters.flatMap fun counter =>
    (foldCounter counter.name (reports.counters counter) (usage.counters counter)).2
  let extra := reports.extra.entries.flatMap fun entry =>
    (foldCounter entry.1 (some entry.2) (usage.extra.find? entry.1)).2
  { counters := fun counter =>
      (foldCounter counter.name (reports.counters counter) (usage.counters counter)).1
    extra := reports.extra.filterMap fun name count =>
      (foldCounter name (some count) (usage.extra.find? name)).1
    stage :=
      if reports.stage = .missing ∧ usage.stage = .missing then .missing
      else if reports.stage ≠ .final ∨ usage.stage ≠ .final then .partialStage
      else reports.stage
    quality :=
      if named ≠ [] ∨ extra ≠ [] ∨ usage.quality = .inconsistent then .inconsistent
      else reports.quality
    conflicts := reports.conflicts ++ named ++ extra ++ usage.conflicts
    providerCost := if reports.providerCost ≠ default then default else reports.providerCost }

/-- An accumulator with its reports. -/
structure UsageBank (C : Type) extends UsageAccumulator where
  reports : Option (UsageReport C) := none

namespace UsageBank

/-- A report is merged into the others. -/
def addReport (bank : UsageBank C) (usage : UsageReport C) : UsageBank C :=
  match bank.reports with
  | none => { bank with reports := some usage }
  | some reports => { bank with reports := some (reports.fold usage) }

/-- A report that is not charged. -/
def observe (bank : UsageBank C) (usage : UsageReport C) : UsageBank C := bank.addReport usage

/-- A report that is charged. -/
def add (bank : UsageBank C) (usage : UsageReport C) : UsageBank C :=
  { bank.addReport usage with toUsageAccumulator := bank.toUsageAccumulator.add usage.usage }

end UsageBank

/-- A report that is observed only, or charged as well. -/
structure Submission (C : Type) where
  charges : Bool
  report : UsageReport C

def UsageBank.submit (bank : UsageBank C) (submission : Submission C) : UsageBank C :=
  if submission.charges then bank.add submission.report else bank.observe submission.report

def UsageBank.submitAll (submissions : List (Submission C)) : UsageBank C :=
  submissions.foldl UsageBank.submit {}

end Fold

/-! ## What a list of reports adds up to -/

/-- The sum of the counters that are present. -/
def sumPresent (counts : List (Option Count)) : ℕ :=
  (counts.map fun count => (count.map Count.value).getD 0).sum

/-- **The total of a counter**: present when all have it, and then their sum. -/
structure IsTotal (counts : List (Option Count)) (total : Option Count) : Prop where
  present : total.isSome = true ↔ ∀ count ∈ counts, count.isSome = true
  value : ∀ count, total = some count → count.value = sumPresent counts
  single : ∀ count, counts = [count] → total = count
  evidence : ∀ count, total = some count → 1 < counts.length → count.evidence = .derived

/-- No sum of a counter leaves 64 bits. -/
structure Bounded (reports : List (UsageReport C)) : Prop where
  counters : ∀ counter, sumPresent (reports.map fun report => report.counters counter) < 2 ^ 64
  extra : ∀ name, sumPresent (reports.map fun report => report.extra.find? name) < 2 ^ 64

/-- **What is kept of a list of reports.** -/
structure IsAggregate (reports : List (UsageReport C)) (aggregate : UsageReport C) : Prop where
  counters : ∀ counter,
    IsTotal (reports.map fun report => report.counters counter) (aggregate.counters counter)
  extra : ∀ name,
    IsTotal (reports.map fun report => report.extra.find? name) (aggregate.extra.find? name)
  final : aggregate.stage = .final ↔ ∀ report ∈ reports, report.stage = .final
  missing : aggregate.stage = .missing ↔ ∀ report ∈ reports, report.stage = .missing
  quality : aggregate.quality = .inconsistent ↔ ∃ report ∈ reports, report.quality = .inconsistent
  conflicts : aggregate.conflicts = reports.flatMap UsageReport.conflicts

/-! ## A counter -/

section Counter

variable {counts counts' : List (Option Count)} {total total' value : Option Count}

theorem sumPresent_append (counts counts' : List (Option Count)) :
    sumPresent (counts ++ counts') = sumPresent counts + sumPresent counts' := by
  unfold sumPresent
  rw [map_append, sum_append]

theorem sumPresent_perm (h : counts.Perm counts') : sumPresent counts = sumPresent counts' :=
  (h.map _).sum_eq

theorem isTotal_singleton (count : Option Count) : IsTotal [count] count where
  present := by simp
  value count' h := by
    rw [h]
    simp [sumPresent]
  single count' h := singleton_inj.mp h
  evidence _ _ h := absurd h (Nat.lt_irrefl 1)

/-- **A further count.** -/
theorem IsTotal.foldCounter (h : IsTotal counts total) (hne : counts ≠ []) (counter : String)
    (hbd : sumPresent (counts ++ [value]) < 2 ^ 64) :
    IsTotal (counts ++ [value]) (foldCounter counter total value).1
      ∧ (foldCounter counter total value).2 = [] := by
  have hl : 1 ≤ counts.length := length_pos_iff.mpr hne
  have hsingle : ∀ (count : Option Count) (total' : Option Count), counts ++ [value] = [count] →
      total' = count := by
    intro count total' heq
    have := congrArg length heq
    rw [length_append, length_singleton, length_singleton] at this
    omega
  have hsm : sumPresent (counts ++ [value])
      = sumPresent counts + (value.map Count.value).getD 0 := by
    rw [sumPresent_append]
    simp [sumPresent]
  rw [hsm] at hbd
  have ha : (∀ count ∈ counts ++ [value], count.isSome = true)
      ↔ total.isSome = true ∧ value.isSome = true := by
    rw [h.present]
    simp [or_imp, forall_and]
  cases total with
  | none =>
    refine ⟨⟨?_, nofun, fun count => hsingle count _, nofun⟩, rfl⟩
    rw [ha]
    simp [foldCounter]
  | some target =>
    cases value with
    | none =>
      refine ⟨⟨?_, nofun, fun count => hsingle count _, nofun⟩, rfl⟩
      rw [ha]
      simp [foldCounter]
    | some value =>
      have ht := h.value target rfl
      have hft : ¬maxTokens - target.value < value.value := by
        rw [Option.map_some, Option.getD_some] at hbd
        unfold maxTokens
        omega
      unfold foldCounter
      dsimp only
      rw [if_neg hft]
      refine ⟨⟨?_, ?_, fun count => hsingle count _, ?_⟩, rfl⟩
      · rw [ha]
        simp
      · intro count hc
        cases hc
        rw [hsm, ← ht]
        rfl
      · intro count hc _
        cases hc
        rfl

/-- Totals of the same counts in different orders are equal. -/
theorem IsTotal.eq_of_perm (h : IsTotal counts total) (h' : IsTotal counts' total')
    (hne : counts ≠ []) (hp : counts.Perm counts') : total = total' := by
  have hpr : total.isSome = true ↔ total'.isSome = true := by
    rw [h.present, h'.present]
    exact ⟨fun ha count hm => ha count (hp.mem_iff.mpr hm),
      fun ha count hm => ha count (hp.mem_iff.mp hm)⟩
  cases ht : total with
  | none =>
    rw [ht] at hpr
    cases ht' : total' with
    | none => rfl
    | some count' =>
      rw [ht'] at hpr
      exact absurd (hpr.mpr rfl) Bool.false_ne_true
  | some count =>
    rw [ht] at hpr
    obtain ⟨count', ht'⟩ := Option.isSome_iff_exists.mp (hpr.mp rfl)
    rw [ht']
    obtain ho | hmany := Nat.lt_or_ge counts.length 2
    · -- one count is its own total
      have hl := length_pos_iff.mpr hne
      obtain ⟨only, rfl⟩ := length_eq_one_iff.mp (show counts.length = 1 by omega)
      rw [← ht, ← ht', h.single only rfl, h'.single only (perm_singleton.mp hp.symm)]
    · have hv : count.value = count'.value := by
        rw [h.value count ht, h'.value count' ht', sumPresent_perm hp]
      have hevidence : count.evidence = count'.evidence := by
        rw [h.evidence count ht hmany, h'.evidence count' ht' (hp.length_eq ▸ hmany)]
      obtain ⟨v, e⟩ := count
      obtain ⟨v', e'⟩ := count'
      cases hv
      cases hevidence
      rfl

end Counter

/-! ## Reports -/

variable {reports : List (UsageReport C)} {aggregate aggregate' usage : UsageReport C}

theorem isAggregate_singleton (report : UsageReport C) : IsAggregate [report] report where
  counters _ := isTotal_singleton _
  extra _ := isTotal_singleton _
  final := by simp
  missing := by simp
  quality := by simp
  conflicts := (append_nil _).symm

variable {reports' : List (UsageReport C)}

theorem Bounded.of_append (h : Bounded (reports ++ reports')) : Bounded reports where
  counters counter := by
    have := h.counters counter
    rw [map_append, sumPresent_append] at this
    omega
  extra name := by
    have := h.extra name
    rw [map_append, sumPresent_append] at this
    omega

theorem Bounded.of_perm (h : Bounded reports) (hp : reports.Perm reports') :
    Bounded reports' where
  counters counter := sumPresent_perm (hp.map _) ▸ h.counters counter
  extra name := sumPresent_perm (hp.map fun report => report.extra.find? name) ▸ h.extra name

/-- Two stages are told apart by the first and the last one. -/
theorem stage_eq {stage stage' : UsageStage} (hfin : stage = .final ↔ stage' = .final)
    (hmissing : stage = .missing ↔ stage' = .missing) : stage = stage' := by
  cases stage <;> cases stage' <;> simp_all

theorem quality_eq {quality quality' : UsageQuality}
    (h : quality = .inconsistent ↔ quality' = .inconsistent) : quality = quality' := by
  cases quality <;> cases quality' <;> simp_all

/-- **Aggregates of the same reports** in different orders. -/
structure SameReports (aggregate aggregate' : UsageReport C) : Prop where
  counters : aggregate'.counters = aggregate.counters
  extra : aggregate'.extra = aggregate.extra
  stage : aggregate'.stage = aggregate.stage
  quality : aggregate'.quality = aggregate.quality
  conflicts : aggregate'.conflicts.Perm aggregate.conflicts

/-- The aggregate of the reports in another order says the same. -/
theorem IsAggregate.sameReports (h : IsAggregate reports aggregate)
    (h' : IsAggregate reports' aggregate') (hne : reports ≠ []) (hp : reports.Perm reports') :
    SameReports aggregate aggregate' where
  counters := by
    funext counter
    exact ((h.counters counter).eq_of_perm (h'.counters counter)
      (fun hn => hne (map_eq_nil_iff.mp hn)) (hp.map _)).symm
  extra := by
    refine SortedMap.ext_find? fun name => ?_
    exact ((h.extra name).eq_of_perm (h'.extra name)
      (fun hn => hne (map_eq_nil_iff.mp hn)) (hp.map _)).symm
  stage := by
    refine stage_eq ?_ ?_
    · rw [h.final, h'.final]
      exact forall_congr' fun report => imp_congr_left hp.symm.mem_iff
    · rw [h.missing, h'.missing]
      exact forall_congr' fun report => imp_congr_left hp.symm.mem_iff
  quality := by
    refine quality_eq ?_
    rw [h.quality, h'.quality]
    exact exists_congr fun report => and_congr_left' hp.symm.mem_iff
  conflicts := by
    rw [h.conflicts, h'.conflicts]
    exact hp.symm.flatMap_right _

variable [DecidableEq C] [Inhabited C]

/-- Lookups of a folded extra counter. -/
theorem find?_extra_fold (reports usage : UsageReport C) (name : String) :
    (reports.fold usage).extra.find? name
      = (foldCounter name (reports.extra.find? name) (usage.extra.find? name)).1 := by
  unfold UsageReport.fold
  dsimp only
  rw [SortedMap.find?_filterMap]
  cases reports.extra.find? name with
  | none | some count => rfl

/-- **A further report.** -/
theorem IsAggregate.fold (h : IsAggregate reports aggregate) (hne : reports ≠ [])
    (hbd : Bounded (reports ++ [usage])) :
    IsAggregate (reports ++ [usage]) (aggregate.fold usage) := by
  have hfl {f : UsageReport C → Option Count} {total : Option Count}
      (ht : IsTotal (reports.map f) total) (name : String)
      (hsm : sumPresent ((reports ++ [usage]).map f) < 2 ^ 64) :
      IsTotal ((reports ++ [usage]).map f) (foldCounter name total (f usage)).1
        ∧ (foldCounter name total (f usage)).2 = [] := by
    rw [map_append] at hsm ⊢
    exact ht.foldCounter (fun hn => hne (map_eq_nil_iff.mp hn)) _ hsm
  have hctr := fun counter : UsageCounter =>
    hfl (h.counters counter) counter.name (hbd.counters counter)
  have he := fun name : String => hfl (h.extra name) name (hbd.extra name)
  -- no sum overflows
  have hnm : (usageCounters.flatMap fun counter =>
      (foldCounter counter.name (aggregate.counters counter) (usage.counters counter)).2) = [] :=
    flatMap_eq_nil_iff.mpr fun counter _ => (hctr counter).2
  have hens : (aggregate.extra.entries.flatMap fun entry =>
      (foldCounter entry.1 (some entry.2) (usage.extra.find? entry.1)).2) = [] := by
    refine flatMap_eq_nil_iff.mpr fun entry hm => ?_
    have hf := (aggregate.extra.mem_entries_iff entry.1 entry.2).mp hm
    rw [← hf]
    exact (he entry.1).2
  refine ⟨fun counter => (hctr counter).1, fun name => ?_, ?_, ?_, ?_, ?_⟩
  · rw [find?_extra_fold]
    exact (he name).1
  · rw [forall_mem_append, forall_mem_singleton, ← h.final]
    unfold UsageReport.fold
    cases aggregate.stage <;> cases usage.stage <;> simp
  · rw [forall_mem_append, forall_mem_singleton, ← h.missing]
    unfold UsageReport.fold
    cases aggregate.stage <;> cases usage.stage <;> simp
  · have hm : (∃ report ∈ reports ++ [usage], report.quality = .inconsistent)
        ↔ aggregate.quality = .inconsistent ∨ usage.quality = .inconsistent := by
      rw [h.quality]
      simp [or_and_right, exists_or]
    rw [hm]
    unfold UsageReport.fold
    dsimp only
    rw [hnm, hens]
    cases aggregate.quality <;> cases usage.quality <;> simp
  · unfold UsageReport.fold
    dsimp only
    rw [hnm, hens, h.conflicts]
    simp

/-! ## The accumulator -/

namespace UsageBank

variable {submissions submissions' : List (Submission C)}

theorem reports_submit (bank : UsageBank C) (submission : Submission C) :
    (bank.submit submission).reports
      = some (match bank.reports with
        | none => submission.report
        | some reports => reports.fold submission.report) := by
  unfold submit add observe addReport
  split
  all_goals
    cases bank.reports with
    | none | some reports => rfl

/-- **The reports of an accumulator.** -/
theorem isAggregate_submitAll (hne : submissions ≠ [])
    (hbd : Bounded (submissions.map Submission.report)) :
    ∃ aggregate, (submitAll submissions).reports = some aggregate
      ∧ IsAggregate (submissions.map Submission.report) aggregate := by
  induction submissions using reverseRecOn with
  | nil => exact absurd rfl hne
  | append_singleton submissions submission ih =>
    have hl : submitAll (submissions ++ [submission])
        = (submitAll submissions).submit submission := by
      unfold submitAll
      rw [foldl_append]
      rfl
    rw [map_append] at hbd ⊢
    rw [hl, reports_submit]
    by_cases hb : submissions = []
    · subst hb
      exact ⟨_, rfl, isAggregate_singleton _⟩
    · obtain ⟨aggregate, hr, hagg⟩ := ih hb hbd.of_append
      rw [hr]
      exact ⟨_, rfl, hagg.fold (fun hn => hb (map_eq_nil_iff.mp hn)) hbd⟩

/-- What a submission charges. -/
def charge (submission : Submission C) : ℕ :=
  if submission.charges then (finalCharge submission.report.usage).getD 0 else 0

/-- A submission is charged once. -/
theorem charged_submit (bank : UsageBank C) (submission : Submission C)
    (hft : bank.charged + charge submission < 2 ^ 64) :
    (bank.submit submission).charged = bank.charged + charge submission := by
  unfold charge at hft ⊢
  unfold submit add observe addReport UsageAccumulator.add
  split_ifs with hch
  · rw [if_pos hch] at hft
    cases hc : finalCharge submission.report.usage with
    | none => rfl
    | some charge =>
      rw [hc] at hft
      exact sum_eq_add hft
  · cases bank.reports with
    | none | some reports => rfl

/-- **What an accumulator has charged.** -/
theorem charged_submitAll (hft : (submissions.map charge).sum < 2 ^ 64) :
    (submitAll submissions).charged = (submissions.map charge).sum := by
  induction submissions using reverseRecOn with
  | nil => rfl
  | append_singleton submissions submission ih =>
    rw [map_append, sum_append, map_singleton, sum_singleton] at hft ⊢
    have hb := ih (by omega)
    have hl : submitAll (submissions ++ [submission])
        = (submitAll submissions).submit submission := by
      unfold submitAll
      rw [foldl_append]
      rfl
    rw [hl, charged_submit _ _ (by omega), hb]

/-- **The usage report does not depend on the order** in which calls complete. -/
theorem submitAll_perm (hp : submissions.Perm submissions') :
    (Bounded (submissions.map Submission.report) → submissions ≠ [] →
      ∃ aggregate aggregate',
        (submitAll submissions).reports = some aggregate
        ∧ (submitAll submissions').reports = some aggregate'
        ∧ IsAggregate (submissions.map Submission.report) aggregate
        ∧ SameReports aggregate aggregate')
    ∧ ((submissions.map charge).sum < 2 ^ 64 →
      (submitAll submissions').charged = (submitAll submissions).charged) := by
  constructor
  · intro hbd hne
    obtain ⟨aggregate, hr, hagg⟩ := isAggregate_submitAll hne hbd
    obtain ⟨aggregate', hr', hagg'⟩ := isAggregate_submitAll
      (fun hn => hne (perm_nil.mp (hn ▸ hp))) (hbd.of_perm (hp.map _))
    exact ⟨aggregate, aggregate', hr, hr', hagg,
      hagg.sameReports hagg' (fun hn => hne (map_eq_nil_iff.mp hn))
        (hp.map _)⟩
  · intro hft
    have hsm := (hp.map charge).sum_eq
    rw [charged_submitAll hft, charged_submitAll (hsm ▸ hft), hsm]

/-- A call that is charged, and whose report is complete. -/
def chargedCall : Submission Unit where
  charges := true
  report :=
    { counters := fun
        | .inputTotal => some ⟨100, .reported⟩
        | .outputTotal => some ⟨20, .reported⟩
        | .total => some ⟨120, .derived⟩
        | _ => none
      extra := (∅ : SortedMap String Count).insert "audio" ⟨5, .reported⟩
      stage := .final
      providerCost := () }

/-- A call that is observed only: its stream broke off, and its counters do
not agree. -/
def observedCall : Submission Unit where
  charges := false
  report :=
    { counters := fun
        | .inputTotal => some ⟨7, .reported⟩
        | .outputTotal => some ⟨3, .reported⟩
        | .providerReportedTotal => some ⟨9, .reported⟩
        | _ => none
      extra := (∅ : SortedMap String Count).insert "audio" ⟨2, .derived⟩
      stage := .partialStage
      quality := .inconsistent
      conflicts := [{
        counter := "total"
        detail := "Host reported total is smaller than input plus output" }]
      providerCost := () }

theorem bounded_calls : Bounded ([chargedCall, observedCall].map Submission.report) where
  counters counter := by cases counter <;> decide
  extra name := by
    show sumPresent [((∅ : SortedMap String Count).insert "audio" _).find? name,
      ((∅ : SortedMap String Count).insert "audio" _).find? name] < 2 ^ 64
    rw [SortedMap.find?_insert, SortedMap.find?_insert]
    split
    · decide
    · exact Nat.two_pow_pos 64

/-- The two calls in both orders: one report is kept of them, and the one call
is charged. -/
theorem submitAll_perm_calls :
    (∃ aggregate aggregate', (submitAll [chargedCall, observedCall]).reports = some aggregate
      ∧ (submitAll [observedCall, chargedCall]).reports = some aggregate'
      ∧ IsAggregate ([chargedCall, observedCall].map Submission.report) aggregate
      ∧ SameReports aggregate aggregate')
    ∧ (submitAll [observedCall, chargedCall]).charged
      = (submitAll [chargedCall, observedCall]).charged
    ∧ (submitAll [chargedCall, observedCall]).charged = 120 :=
  have h := submitAll_perm (Perm.swap observedCall chargedCall [])
  ⟨h.1 bounded_calls (by simp), h.2 (by decide), by decide⟩

end UsageBank

end NeoGraph.Provider
