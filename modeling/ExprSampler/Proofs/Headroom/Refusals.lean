import ExprSampler.Proofs.Headroom.Histories

/-!
# Starts that are refused

A limit that is too large cannot be set, and work that asks for it does not start. It is counted all
the same. Since it does not run it never ends, so the count stays above the number of those at work
for good, nobody is ever taken for the last one, and no later history restores the limit: from then
on it only rises. It is the limit from before all work only as long as nothing has raised it.

A history is followed from its front here, as a refusal changes what every later event does.
-/

namespace ExprSampler

namespace Workload

variable {w : Workload} {saved limit : Int} {lost : Nat}

/-! ## Starts that are granted and starts that are not -/

/-- The lengths of the texts on which a history starts work that is granted its limit. -/
def grantedLengths (w : Workload) : List Event → List Int
  | [] => []
  | e :: events => e.lengths.filter (fun n ↦ (w.start n).1) ++ grantedLengths (w.after e) events

/-- How often a history starts work that is refused its limit. -/
def refusals (w : Workload) : List Event → Nat
  | [] => 0
  | e :: events => e.lengths.countP (fun n ↦ !(w.start n).1) + refusals (w.after e) events

theorem longest_append_eq_max (ls ls' : List Int) :
    longest (ls ++ ls') = max (longest ls) (longest ls') := by
  induction ls' using List.reverseRecOn with
  | nil =>
    rw [List.append_nil]
    exact (Int.max_eq_left (longest_nonneg ls)).symm
  | append_singleton ls' n ih =>
    rw [← List.append_assoc, longest_append (ls ++ ls') [n], longest_append ls' [n], ih,
      List.foldl_cons, List.foldl_nil, List.foldl_cons, List.foldl_nil]
    exact Int.max_assoc _ _ _

/-- The longest of several lengths counts as none if none of them is positive. -/
theorem longest_eq_zero_iff (ls : List Int) : longest ls = 0 ↔ ∀ n ∈ ls, n ≤ 0 := by
  induction ls using List.reverseRecOn with
  | nil => exact iff_of_true rfl nofun
  | append_singleton ls n ih =>
    have hnonneg := longest_nonneg ls
    have hlast : longest (ls ++ [n]) = 0 ↔ longest ls = 0 ∧ n ≤ 0 := by
      rw [longest_append, List.foldl_cons, List.foldl_nil]
      omega
    rw [hlast, ih, List.forall_mem_append, List.forall_mem_singleton]

/-- A limit that is refused stays what it was, and the work is counted. -/
theorem enter_of_refused {h : Headroom} {n : Int} (hn : (h.enter n).1 = false) :
    h.enter n = (false, h.count) := by
  rw [Headroom.enter] at hn ⊢
  by_cases hle : h.count.needed n ≤ h.count.limit
  · rw [if_pos hle] at hn
    cases hn
  · by_cases hlargest : Headroom.largestLimit < h.count.needed n
    · rw [if_neg hle, if_pos hlargest]
    · rw [if_neg hle, if_neg hlargest] at hn
      cases hn

/-! ## One event -/

/-- What holds of a workload when so many starts were refused and nobody was at work before, under
the given limit. Whoever was refused is counted with those at work. -/
structure Counted (limit : Int) (lost : Nat) (w : Workload) : Prop where
  active : w.headroom.active = w.openCount + lost
  /-- While anybody is counted, the limit from before is known. -/
  saved : w.headroom.active ≠ 0 → w.headroom.saved = limit
  idle : w.headroom.active = 0 → w.headroom.limit = limit
  least : limit ≤ w.headroom.limit

namespace Counted

theorem of_atRest (saved limit : Int) : Counted limit 0 (atRest saved limit) where
  active := rfl
  saved h := absurd rfl h
  idle _ := rfl
  least := Int.le_refl limit

theorem count_eq (h : Counted limit lost w) :
    w.headroom.count = ⟨w.headroom.active + 1, limit, w.headroom.limit⟩ := by
  rw [Headroom.count]
  by_cases hidle : w.headroom.active = 0
  · rw [if_pos hidle, h.idle hidle]
  · rw [if_neg hidle, h.saved hidle]

theorem start_eq_of_granted (h : Counted limit lost w) {n : Int} (hn : (w.start n).1 = true) :
    w.after (.start n) = ⟨⟨w.headroom.active + 1, limit,
      max w.headroom.limit (limit + 16 * max n 0)⟩, w.running ++ [true]⟩ := by
  have henter := enter_of_granted (show (w.headroom.enter n).1 = true from hn)
  rw [Workload.after, start, henter, h.count_eq, Headroom.needed, Int.mul_comm]
  rfl

theorem start_eq_of_refused (h : Counted limit lost w) {n : Int} (hn : (w.start n).1 = false) :
    w.after (.start n) = ⟨⟨w.headroom.active + 1, limit, w.headroom.limit⟩,
      w.running ++ [false]⟩ := by
  have henter := enter_of_refused (show (w.headroom.enter n).1 = false from hn)
  rw [Workload.after, start, henter, h.count_eq]

theorem finish_eq (h : Counted limit lost w) {number : Nat}
    (hrun : w.running[number]? = some true) (failed : Bool) :
    w.after (.finish number failed) = ⟨⟨w.headroom.active - 1, limit,
      if w.headroom.active - 1 = 0 then limit else w.headroom.limit⟩,
      w.running.set number false⟩ := by
  have hopen := openCount_ne_zero hrun
  have hactive := h.active
  rw [Workload.after, finish, if_pos hrun, Headroom.leave, h.saved (by omega)]

/-- Every event leaves everybody counted. -/
theorem after (h : Counted limit lost w) (e : Event) :
    Counted limit (lost + e.lengths.countP fun n ↦ !(w.start n).1) (w.after e) := by
  have hactive := h.active
  cases e with
  | start n =>
    cases hn : (w.start n).1 with
    | true =>
      have hopen : (w.running ++ [true]).count true = w.openCount + 1 := by simp [openCount]
      rw [h.start_eq_of_granted hn, Event.lengths, List.countP_singleton, hn]
      refine ⟨?_, fun _ ↦ rfl, fun hidle ↦ absurd hidle (Nat.succ_ne_zero _),
        Int.le_trans h.least (Int.le_max_left _ _)⟩
      rw [openCount, hopen, hactive]
      exact Nat.add_right_comm _ _ _
    | false =>
      have hopen : (w.running ++ [false]).count true = w.openCount := by simp [openCount]
      rw [h.start_eq_of_refused hn, Event.lengths, List.countP_singleton, hn]
      refine ⟨?_, fun _ ↦ rfl, fun hidle ↦ absurd hidle (Nat.succ_ne_zero _), h.least⟩
      rw [openCount, hopen, hactive]
      rfl
  | finish number failed =>
    rw [Event.lengths, List.countP_nil, Nat.add_zero]
    by_cases hrun : w.running[number]? = some true
    · have hopen : (w.running.set number false).count true + 1 = w.openCount :=
        count_set_false hrun
      rw [h.finish_eq hrun]
      refine ⟨?_, fun _ ↦ rfl, fun hidle ↦ if_pos hidle, ?_⟩
      · rw [openCount]
        dsimp only
        omega
      · dsimp only
        split
        · exact Int.le_refl limit
        · exact h.least
    · rw [Accounted.finish_of_not_running hrun]
      exact h

/-- Once somebody was refused nobody is the last one to end, and the limit only rises. -/
theorem limit_after (h : Counted limit lost w) (hlost : lost ≠ 0) (e : Event) :
    (w.after e).headroom.limit
      = max w.headroom.limit (limit + 16 * longest (e.lengths.filter fun n ↦ (w.start n).1)) := by
  have hactive := h.active
  have hleast : max w.headroom.limit (limit + 16 * longest []) = w.headroom.limit :=
    Int.max_eq_left (by rw [longest, List.foldl_nil, Int.mul_zero, Int.add_zero]; exact h.least)
  cases e with
  | start n =>
    cases hn : (w.start n).1 with
    | true =>
      rw [h.start_eq_of_granted hn, Event.lengths, List.filter_singleton, hn, Int.max_comm n]
      rfl
    | false =>
      rw [h.start_eq_of_refused hn, Event.lengths, List.filter_singleton, hn]
      exact hleast.symm
  | finish number failed =>
    rw [Event.lengths, List.filter_nil, hleast]
    by_cases hrun : w.running[number]? = some true
    · have hopen := openCount_ne_zero hrun
      rw [h.finish_eq hrun]
      exact if_neg (by omega)
    · rw [Accounted.finish_of_not_running hrun]

/-! ## Histories -/

theorem run (h : Counted limit lost w) (events : List Event) :
    Counted limit (lost + w.refusals events) (w.run events) := by
  induction events generalizing w lost with
  | nil => exact h
  | cons e events ih =>
    rw [refusals, ← Nat.add_assoc]
    exact ih (h.after e)

/-- After a refusal a history leaves the limit where it was, or where the longest text needs it on
which work was granted since. -/
theorem limit_run (h : Counted limit lost w) (hlost : lost ≠ 0) (events : List Event) :
    (w.run events).headroom.limit
      = max w.headroom.limit (limit + 16 * longest (w.grantedLengths events)) := by
  induction events generalizing w lost with
  | nil =>
    have hleast := h.least
    rw [grantedLengths, longest, List.foldl_nil, run_nil]
    omega
  | cons e events ih =>
    have hnext := ih (h.after e) (by omega)
    rw [h.limit_after hlost e] at hnext
    rw [grantedLengths, longest_append_eq_max]
    refine hnext.trans ?_
    omega

end Counted

/-- **A start that is refused leaves its mark for good.** At once it changes neither the limit nor
who is at work, but it is counted, after any history. Whatever happens later, more are counted than
are at work; and the limit only rises, so it is the limit from before all work only if nothing had
raised it and nothing has been granted more since. -/
theorem refused_start_counted {before : List Event} {n : Int}
    (hw : (atRest saved limit).run before = w) (hn : (w.start n).1 = false) :
    (w.after (.start n)).headroom.limit = w.headroom.limit ∧
      (w.after (.start n)).openCount = w.openCount ∧
      (w.after (.start n)).headroom.active = w.headroom.active + 1 ∧
      ∀ later : List Event,
        ((w.after (.start n)).run later).headroom.active
          = ((w.after (.start n)).run later).openCount + ((atRest saved limit).refusals before + 1
            + (w.after (.start n)).refusals later) ∧
        ((w.after (.start n)).run later).headroom.limit = max w.headroom.limit
          (limit + 16 * longest ((w.after (.start n)).grantedLengths later)) ∧
        (((w.after (.start n)).run later).headroom.limit = limit ↔
          w.headroom.limit = limit ∧ ∀ m ∈ (w.after (.start n)).grantedLengths later, m ≤ 0) := by
  have hcounted : Counted limit ((atRest saved limit).refusals before) w := by
    have hrun := (Counted.of_atRest saved limit).run before
    rw [Nat.zero_add, hw] at hrun
    exact hrun
  have hrefused := hcounted.start_eq_of_refused hn
  have hafter : Counted limit ((atRest saved limit).refusals before + 1) (w.after (.start n)) := by
    have hstep := hcounted.after (.start n)
    rw [Event.lengths, List.countP_singleton, hn] at hstep
    exact hstep
  have hlimit : (w.after (.start n)).headroom.limit = w.headroom.limit := by rw [hrefused]
  refine ⟨hlimit, ?_, by rw [hrefused], fun later ↦ ?_⟩
  · rw [hrefused, openCount, openCount, List.count_append]
    rfl
  · have hlater := hafter.limit_run (Nat.succ_ne_zero _) later
    rw [hlimit] at hlater
    refine ⟨(hafter.run later).active, hlater, ?_⟩
    rw [hlater, ← longest_eq_zero_iff]
    have hleast := hcounted.least
    have hnonneg := longest_nonneg ((w.after (.start n)).grantedLengths later)
    omega

/-- While one text is worked on, another one is refused; then the first one ends, and nobody is at
work any more under a limit that is too high. -/
theorem refused_start_counted_of_overlap :
    ∃ w : Workload, (atRest 0 1000).run [.start 5] = w ∧ (w.start 134217728).1 = false ∧
      ((w.after (.start 134217728)).run [.finish 0 false]).openCount = 0 ∧
      ((w.after (.start 134217728)).run [.finish 0 false]).headroom.active = 1 ∧
      ((w.after (.start 134217728)).run [.finish 0 false]).headroom.limit = 1080 := by
  have hn : (((atRest 0 1000).run [.start 5]).start 134217728).1 = false := by decide
  obtain ⟨-, -, -, hlater⟩ := refused_start_counted rfl hn
  obtain ⟨hactive, hlimit, -⟩ := hlater [.finish 0 false]
  exact ⟨_, rfl, hn, by decide, hactive, hlimit⟩

/-- It is not true that the limit is restored when nobody is at work after a refusal. -/
theorem not_forall_limit_restored :
    ¬∀ (saved limit : Int) (before later : List Event) (n : Int),
      (((atRest saved limit).run before).start n).1 = false →
        ((atRest saved limit).run (before ++ .start n :: later)).openCount = 0 →
          ((atRest saved limit).run (before ++ .start n :: later)).headroom.limit = limit := by
  intro h
  exact absurd (h 0 1000 [.start 5] [.finish 0 false] 134217728 (by decide) (by decide))
    (by decide)

end Workload

end ExprSampler
