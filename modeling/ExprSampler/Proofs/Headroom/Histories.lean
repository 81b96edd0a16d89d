import ExprSampler.Headroom
import Mathlib.Data.List.Induction
import Mathlib.Data.List.Infix

/-!
# Histories of work

Work on several texts may overlap in any way: whatever starts may end before or after anything else,
and may end because it failed. What the limit is after a history of starts and ends depends on
little of it: it is the limit from before all work, raised by what the longest text needs of those
begun since the last moment when nobody was at work. Texts that are done with still count as long as
others are in progress, so the limit never falls under anybody's feet.

All of this supposes that the limit could be set whenever work asked for it. A start that is refused
is counted all the same and never ends, which is another story.
-/

namespace ExprSampler

namespace Workload

/-! ## Events -/

/-- What happens to a workload. -/
inductive Event
  /-- Work on a text of the given length starts. -/
  | start (length : Int)
  /-- The work with the given number ends, because it is done or because it failed. -/
  | finish (number : Nat) (failed : Bool)
deriving DecidableEq, Repr

/-- The workload after one event. Work that failed hands its headroom back like any other. -/
def after (w : Workload) : Event → Workload
  | .start length => (w.start length).2
  | .finish number _ => w.finish number

/-- The workload after a history of events. -/
def run (w : Workload) (events : List Event) : Workload :=
  events.foldl after w

/-- Nobody is at work. What an earlier history left behind as the limit to go back to does not
count. -/
def atRest (saved limit : Int) : Workload :=
  ⟨⟨0, saved, limit⟩, []⟩

/-- How many pieces of work are in progress. -/
def openCount (w : Workload) : Nat :=
  w.running.count true

/-- The lengths of the texts on which an event starts work. -/
def Event.lengths : Event → List Int
  | .start length => [length]
  | .finish _ _ => []

/-- The lengths of the texts on which a history starts work, in the order of their numbers. -/
def lengths (events : List Event) : List Int :=
  events.flatMap Event.lengths

/-- The longest of several lengths; negative ones count as none. -/
def longest (lengths : List Int) : Int :=
  lengths.foldl max 0

/-- Whenever the history starts work, the limit that it asks for can be set. -/
def Granted (w : Workload) (events : List Event) : Prop :=
  ∀ (before : List Event) (length : Int), before ++ [.start length] <+: events →
    ((w.run before).start length).1 = true

/-- Nobody is at work after the first part of a history, and somebody always is from then on. -/
structure LastIdle (w : Workload) (before since : List Event) : Prop where
  idle : (w.run before).openCount = 0
  busy : ∀ events : List Event, events ≠ [] → events <+: since →
    (w.run (before ++ events)).openCount ≠ 0

variable {w : Workload} {saved limit : Int} {e : Event} {events : List Event}

@[simp] theorem run_nil (w : Workload) : w.run [] = w := rfl

theorem run_concat (w : Workload) (events : List Event) (e : Event) :
    w.run (events ++ [e]) = (w.run events).after e := by
  rw [run, List.foldl_append, List.foldl_cons, List.foldl_nil, run]

theorem lengths_concat (events : List Event) (e : Event) :
    lengths (events ++ [e]) = lengths events ++ e.lengths := by
  simp [lengths]

theorem longest_append (ls ls' : List Int) : longest (ls ++ ls') = ls'.foldl max (longest ls) := by
  rw [longest, List.foldl_append, longest]

theorem longest_nonneg (ls : List Int) : 0 ≤ longest ls := by
  induction ls using List.reverseRecOn with
  | nil => exact Int.le_refl 0
  | append_singleton ls n ih =>
    rw [longest_append]
    exact Int.le_trans ih (Int.le_max_left _ _)

theorem Granted.mono {events' : List Event} (h : Granted w events) (hp : events' <+: events) :
    Granted w events' := fun before n hn ↦
  h before n (hn.trans hp)

theorem Granted.init (h : Granted w (events ++ [e])) : Granted w events :=
  h.mono (List.prefix_append _ _)

/-! ## One event -/

theorem enter_granted_of_le {h : Headroom} {n : Int}
    (hle : h.count.needed n ≤ Headroom.largestLimit) : (h.enter n).1 = true := by
  rw [Headroom.enter]
  split
  · rfl
  · rw [if_neg (Int.not_lt.mpr hle)]

/-- Where the limit can be set, it rises to what is needed and stays where it was otherwise. -/
theorem enter_of_granted {h : Headroom} {n : Int} (hg : (h.enter n).1 = true) :
    h.enter n = (true, { h.count with limit := max h.limit (h.count.needed n) }) := by
  have hlimit : h.count.limit = h.limit := rfl
  rw [Headroom.enter] at hg ⊢
  by_cases hle : h.count.needed n ≤ h.limit
  · rw [hlimit, if_pos hle, Int.max_eq_left hle, ← hlimit]
  · by_cases hlargest : Headroom.largestLimit < h.count.needed n
    · rw [hlimit, if_neg hle, if_pos hlargest] at hg
      cases hg
    · rw [hlimit, if_neg hle, if_neg hlargest, Int.max_eq_right (Int.le_of_not_le hle)]

theorem count_set_false {running : List Bool} {number : Nat}
    (hrun : running[number]? = some true) :
    (running.set number false).count true + 1 = running.count true := by
  obtain ⟨hlt, htrue⟩ := List.getElem?_eq_some_iff.mp hrun
  have hpos : 0 < running.count true := List.count_pos_iff.mpr (List.mem_of_getElem? hrun)
  have hset : (running.set number false).count true = running.count true - 1 := by
    rw [List.count_set hlt, htrue]
    rfl
  rw [hset]
  exact Nat.sub_add_cancel hpos

theorem openCount_ne_zero {number : Nat} (hrun : w.running[number]? = some true) :
    w.openCount ≠ 0 :=
  Nat.ne_of_gt (List.count_pos_iff.mpr (List.mem_of_getElem? hrun))

/-- What holds of a workload after work has started on texts of the given lengths, nobody having
been at work before, under the given limit, and nobody having been refused a limit since. -/
structure Accounted (limit : Int) (ls : List Int) (w : Workload) : Prop where
  active : w.headroom.active = w.openCount
  /-- While somebody is at work, the limit from before is known. -/
  saved : w.openCount ≠ 0 → w.headroom.saved = limit
  idle : w.openCount = 0 → w.headroom.limit = limit
  least : limit ≤ w.headroom.limit
  numbered : w.running.length = ls.length
  /-- Whoever is at work has what they need. -/
  covered : ∀ (number : Nat) (n : Int), w.running[number]? = some true → ls[number]? = some n →
    limit + 16 * n ≤ w.headroom.limit

namespace Accounted

variable {ls : List Int}

theorem of_atRest (saved limit : Int) : Accounted limit [] (atRest saved limit) where
  active := rfl
  saved h := absurd rfl h
  idle _ := rfl
  least := Int.le_refl limit
  numbered := rfl
  covered := nofun

/-- The limit from before is noted if nobody was at work, and was noted earlier otherwise. -/
theorem count_eq (h : Accounted limit ls w) :
    w.headroom.count = ⟨w.openCount + 1, limit, w.headroom.limit⟩ := by
  rw [Headroom.count, h.active]
  by_cases hidle : w.openCount = 0
  · rw [if_pos hidle, h.idle hidle]
  · rw [if_neg hidle, h.saved hidle]

theorem granted_of_le (h : Accounted limit ls w) {n : Int}
    (hle : limit + 16 * max n 0 ≤ Headroom.largestLimit) : (w.start n).1 = true := by
  refine enter_granted_of_le (h := w.headroom) ?_
  rw [h.count_eq, Headroom.needed, Int.mul_comm]
  exact hle

/-- Work starts: it is counted, and the limit rises to what it needs. -/
theorem start_eq (h : Accounted limit ls w) {n : Int} (hn : (w.start n).1 = true) :
    w.after (.start n) = ⟨⟨w.openCount + 1, limit, max w.headroom.limit (limit + 16 * max n 0)⟩,
      w.running ++ [true]⟩ := by
  have henter := enter_of_granted (show (w.headroom.enter n).1 = true from hn)
  rw [after, start, henter, h.count_eq, Headroom.needed, Int.mul_comm]
  rfl

/-- Work ends: it is no longer counted, and the last to end restores the limit. -/
theorem finish_eq (h : Accounted limit ls w) {number : Nat}
    (hrun : w.running[number]? = some true) (failed : Bool) :
    w.after (.finish number failed) = ⟨⟨w.openCount - 1, limit,
      if w.openCount = 1 then limit else w.headroom.limit⟩, w.running.set number false⟩ := by
  have hopen := openCount_ne_zero hrun
  have hone : w.openCount - 1 = 0 ↔ w.openCount = 1 := by omega
  rw [after, finish, if_pos hrun, Headroom.leave, h.active, h.saved hopen]
  simp only [hone]

/-- Nothing happens to work that does not run. -/
theorem finish_of_not_running {number : Nat} (hrun : w.running[number]? ≠ some true)
    (failed : Bool) : w.after (.finish number failed) = w := by
  rw [after, finish, if_neg hrun]

theorem after_start (h : Accounted limit ls w) {n : Int} (hn : (w.start n).1 = true) :
    Accounted limit (ls ++ [n]) (w.after (.start n)) := by
  rw [h.start_eq hn]
  have hopen : (w.running ++ [true]).count true = w.openCount + 1 := by simp [openCount]
  refine ⟨hopen.symm, fun _ ↦ rfl, fun hidle ↦ ?_, ?_, ?_, fun number m hrun hm ↦ ?_⟩
  · rw [openCount, hopen] at hidle
    cases hidle
  · exact Int.le_trans h.least (Int.le_max_left _ _)
  · simp [h.numbered]
  · dsimp only at hrun ⊢
    by_cases hlt : number < w.running.length
    · rw [List.getElem?_append_left hlt] at hrun
      rw [List.getElem?_append_left (h.numbered ▸ hlt)] at hm
      exact Int.le_trans (h.covered number m hrun hm) (Int.le_max_left _ _)
    · -- What has just started has the last number of all.
      rw [List.getElem?_append_right (by rw [← h.numbered]; exact Nat.le_of_not_lt hlt)] at hm
      obtain rfl := List.mem_singleton.mp (List.mem_of_getElem? hm)
      omega

theorem after_finish (h : Accounted limit ls w) (number : Nat) (failed : Bool) :
    Accounted limit ls (w.after (.finish number failed)) := by
  by_cases hrun : w.running[number]? = some true
  · rw [h.finish_eq hrun]
    have hopen : (w.running.set number false).count true + 1 = w.openCount := count_set_false hrun
    refine ⟨?_, fun _ ↦ rfl, fun hidle ↦ ?_, ?_, ?_, fun number' m hrun' hm ↦ ?_⟩
    · exact (Nat.eq_sub_of_add_eq hopen).symm
    · have hidle : (w.running.set number false).count true = 0 := hidle
      exact if_pos (by omega)
    · dsimp only
      split
      · exact Int.le_refl limit
      · exact h.least
    · rw [List.length_set, h.numbered]
    · dsimp only at hrun' ⊢
      have hother := List.count_pos_iff.mpr (List.mem_of_getElem? hrun')
      have hne : number ≠ number' := by
        rintro rfl
        rw [List.getElem?_set_self'] at hrun'
        rw [hrun] at hrun'
        cases hrun'
      rw [List.getElem?_set_ne hne] at hrun'
      rw [if_neg (by omega)]
      exact h.covered number' m hrun' hm
  · rw [finish_of_not_running hrun]
    exact h

/-- One event, unless its limit is refused, leaves everything accounted for. -/
theorem after (h : Accounted limit ls w) (hg : ∀ n : Int, e = .start n → (w.start n).1 = true) :
    Accounted limit (ls ++ e.lengths) (w.after e) := by
  cases e with
  | start n => exact h.after_start (hg n rfl)
  | finish number failed =>
    rw [Event.lengths, List.append_nil]
    exact h.after_finish number failed

/-- As long as somebody is at work after it, an event only ever raises the limit, and no further
than the text needs on which it starts work. -/
theorem limit_after (h : Accounted limit ls w)
    (hg : ∀ n : Int, e = .start n → (w.start n).1 = true) (hopen : (w.after e).openCount ≠ 0) :
    (w.after e).headroom.limit
      = max w.headroom.limit (limit + 16 * longest e.lengths) := by
  have hleast : max w.headroom.limit (limit + 16 * longest []) = w.headroom.limit :=
    Int.max_eq_left (by rw [longest, List.foldl_nil, Int.mul_zero, Int.add_zero]; exact h.least)
  cases e with
  | start n =>
    rw [h.start_eq (hg n rfl), Int.max_comm n]
    rfl
  | finish number failed =>
    rw [Event.lengths, hleast]
    by_cases hrun : w.running[number]? = some true
    · rw [h.finish_eq hrun] at hopen ⊢
      have hset : (w.running.set number false).count true + 1 = w.openCount := count_set_false hrun
      have hopen : (w.running.set number false).count true ≠ 0 := hopen
      exact if_neg (by omega)
    · rw [finish_of_not_running hrun]

end Accounted

/-! ## Histories -/

theorem Granted.last (h : Granted w (events ++ [e])) (n : Int) (he : e = .start n) :
    ((w.run events).start n).1 = true :=
  h events n (he ▸ List.prefix_refl _)

/-- After a history in which no limit was refused, everything is accounted for. -/
theorem accounted_run (h : Granted (atRest saved limit) events) :
    Accounted limit (lengths events) ((atRest saved limit).run events) := by
  induction events using List.reverseRecOn with
  | nil => exact .of_atRest saved limit
  | append_singleton events e ih =>
    rw [run_concat, lengths_concat]
    exact (ih h.init).after h.last

/-- A history that starts with nobody at work has a last moment when nobody is. -/
theorem exists_lastIdle (hidle : w.openCount = 0) (events : List Event) :
    ∃ before since : List Event, events = before ++ since ∧ LastIdle w before since := by
  induction events using List.reverseRecOn with
  | nil => exact ⟨[], [], rfl, hidle, fun _ hne hp ↦ absurd (List.prefix_nil.mp hp) hne⟩
  | append_singleton events e ih =>
    by_cases hlast : (w.run (events ++ [e])).openCount = 0
    · exact ⟨events ++ [e], [], (List.append_nil _).symm, hlast,
        fun _ hne hp ↦ absurd (List.prefix_nil.mp hp) hne⟩
    · obtain ⟨before, since, rfl, h⟩ := ih
      refine ⟨before, since ++ [e], List.append_assoc .., h.idle, fun events hne hp ↦ ?_⟩
      rcases List.prefix_concat_iff.mp hp with rfl | hp
      · rw [← List.append_assoc]
        exact hlast
      · exact h.busy events hne hp

/-- The limit grows with the longest text on which work has started since nobody was at work. -/
theorem limit_run {before since : List Event} (h : Granted (atRest saved limit) (before ++ since))
    (hsince : LastIdle (atRest saved limit) before since) :
    ((atRest saved limit).run (before ++ since)).headroom.limit
      = limit + 16 * longest (lengths since) := by
  induction since using List.reverseRecOn with
  | nil =>
    rw [List.append_nil] at h ⊢
    rw [(accounted_run h).idle hsince.idle]
    simp [lengths, longest]
  | append_singleton since e ih =>
    rw [← List.append_assoc] at h ⊢
    have hopen := hsince.busy (since ++ [e]) (by simp) (List.prefix_refl _)
    have hbefore : LastIdle (atRest saved limit) before since :=
      ⟨hsince.idle, fun events hne hp ↦ hsince.busy events hne (hp.trans (List.prefix_append _ _))⟩
    rw [← List.append_assoc, run_concat] at hopen
    rw [run_concat, (accounted_run h.init).limit_after h.last hopen, ih h.init hbefore,
      lengths_concat, longest_append]
    have hnonneg := longest_nonneg (lengths since)
    cases e with
    | start n =>
      simp only [Event.lengths, longest, List.foldl_cons, List.foldl_nil] at hnonneg ⊢
      omega
    | finish number failed =>
      simp only [Event.lengths, longest, List.foldl_nil] at hnonneg ⊢
      omega

/-- If no length needs more than can be set, no limit is refused. -/
theorem granted_of_forall_le (h : ∀ n ∈ lengths events,
    limit + 16 * max n 0 ≤ Headroom.largestLimit) : Granted (atRest saved limit) events := by
  induction events using List.reverseRecOn with
  | nil =>
    intro before n hp
    exact absurd (List.prefix_nil.mp hp) (List.append_ne_nil_of_right_ne_nil _ (by simp))
  | append_singleton events e ih =>
    rw [lengths_concat] at h
    have hinit : Granted (atRest saved limit) events :=
      ih fun n hn ↦ h n (List.mem_append_left _ hn)
    intro before n hp
    rcases List.prefix_concat_iff.mp hp with heq | hp
    · obtain ⟨rfl, hlast⟩ := List.append_inj' heq rfl
      obtain rfl := List.singleton_inj.mp hlast
      have hle := h n (List.mem_append_right _ (List.mem_singleton.mpr rfl))
      exact (accounted_run hinit).granted_of_le hle
    · exact hinit before n hp

/-- **The limit while work overlaps.** After any history in which no limit was refused, as many
pieces of work are counted as are in progress, and the limit is the one from before, raised by what
the longest text needs of those begun since nobody was at work. So it is restored when nobody is,
suffices for everybody who is, and never falls while somebody is. -/
theorem limit_of_history (h : Granted (atRest saved limit) events)
    (hw : (atRest saved limit).run events = w) :
    w.headroom.active = w.openCount ∧
      (w.openCount = 0 → w.headroom.limit = limit) ∧
      (∃ before since : List Event, events = before ++ since ∧
        LastIdle (atRest saved limit) before since) ∧
      (∀ before since : List Event, events = before ++ since →
        LastIdle (atRest saved limit) before since →
          w.headroom.limit = limit + 16 * longest (lengths since)) ∧
      (∀ number : Nat, w.running[number]? = some true →
        ∃ n : Int, (lengths events)[number]? = some n ∧ limit + 16 * n ≤ w.headroom.limit) ∧
      ∀ e : Event, Granted (atRest saved limit) (events ++ [e]) → (w.after e).openCount ≠ 0 →
        w.headroom.limit ≤ (w.after e).headroom.limit := by
  subst hw
  have hrun := accounted_run h
  refine ⟨hrun.active, hrun.idle, exists_lastIdle rfl events, ?_, fun number hnumber ↦ ?_, ?_⟩
  · rintro before since rfl hsince
    exact limit_run h hsince
  · obtain ⟨hlt, -⟩ := List.getElem?_eq_some_iff.mp hnumber
    rw [hrun.numbered] at hlt
    have hn := List.getElem?_eq_getElem hlt
    exact ⟨_, hn, hrun.covered number _ hnumber hn⟩
  · intro e he hopen
    rw [hrun.limit_after he.last hopen]
    exact Int.le_max_left _ _

/-- Three texts, of which the longest is done with before the others and the first one fails. -/
theorem limit_of_history_of_three_texts :
    ∃ w : Workload, (atRest 0 1000).run [.start 5, .start 10, .finish 1 false, .start (-3),
        .finish 0 true] = w ∧
      w.openCount = 1 ∧ w.headroom.limit = 1160 ∧ (w.after (.finish 2 false)).openCount = 0 ∧
      (w.after (.finish 2 false)).headroom.limit = 1000 := by
  have hsince : LastIdle (atRest 0 1000) [] [.start 5, .start 10, .finish 1 false, .start (-3),
      .finish 0 true] := by
    have hbusy : ∀ events ∈ List.inits [.start 5, .start 10, .finish 1 false, .start (-3),
        .finish 0 true], events ≠ [] → ((atRest 0 1000).run events).openCount ≠ 0 := by decide
    exact ⟨rfl, fun events hne hp ↦ hbusy events ((List.mem_inits _ _).mpr hp) hne⟩
  have hlonger : Granted (atRest 0 1000) [.start 5, .start 10, .finish 1 false, .start (-3),
      .finish 0 true, .finish 2 false] := granted_of_forall_le (by decide)
  have hsooner : Granted (atRest 0 1000) [.start 5, .start 10, .finish 1 false, .start (-3),
      .finish 0 true] := hlonger.mono ⟨[.finish 2 false], rfl⟩
  obtain ⟨-, -, -, hlimit, -, -⟩ := limit_of_history hsooner rfl
  obtain ⟨-, hidle, -⟩ := limit_of_history hlonger rfl
  exact ⟨_, rfl, by decide, hlimit [] _ rfl hsince, by decide, hidle (by decide)⟩

end Workload

end ExprSampler
