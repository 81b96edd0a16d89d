import ExprSampler.Config.Settings
import ExprSampler.Proofs.Binary64.Integers

/-!
# What the entries of a configuration do

Every entry is checked on its own: what it does is decided before it meets the settings made so far
(`apply_uniform`). So of all entries the first that is refused decides how a configuration fails,
and `refusal?` can be asked of one entry alone.

There are two ways to be refused. Nearly always the entry is malformed; only an integer given for a
bound and too large for a double is refused in a way of its own, whatever its sign.
-/

namespace ExprSampler

theorem bind_eq_error_iff {ε α β : Type} {x : Except ε α} {f : α → Except ε β} {e : ε} :
    x >>= f = .error e ↔ x = .error e ∨ ∃ a, x = .ok a ∧ f a = .error e := by
  cases x with
  | ok a =>
    refine ⟨fun h ↦ .inr ⟨a, rfl, h⟩, ?_⟩
    rintro (h | ⟨a', h, hf⟩)
    · cases h
    · cases h
      exact hf
  | error e' =>
    refine ⟨fun h ↦ ?_, ?_⟩
    · cases h
      exact .inl rfl
    · rintro (h | ⟨a, h, -⟩)
      · cases h
        rfl
      · cases h

theorem bind_eq_ok_iff {ε α β : Type} {x : Except ε α} {f : α → Except ε β} {b : β} :
    x >>= f = .ok b ↔ ∃ a, x = .ok a ∧ f a = .ok b := by
  cases x with
  | ok a => exact ⟨fun h ↦ ⟨a, rfl, h⟩, fun ⟨a', ha, h⟩ ↦ Except.ok.inj ha ▸ h⟩
  | error e => exact iff_of_false nofun nofun

namespace Settings

/-- What is put into settings after a check that does not look at them. -/
theorem uniform_of_check {α : Type} (check : Except ConfigError α)
    (put : α → Settings → Settings) :
    ∃ change : Except ConfigError (Settings → Settings),
      ∀ s, (do let a ← check; return put a s) = change.map (· s) := by
  refine ⟨check.map put, fun s ↦ ?_⟩
  cases check with
  | ok a => rfl
  | error e => rfl

/-- What an entry does to settings, or how it is refused, does not depend on the settings. -/
theorem apply_uniform (entry : String × JsonValue) :
    ∃ change : Except ConfigError (Settings → Settings), ∀ s, apply s entry = change.map (· s) := by
  obtain ⟨key, value⟩ := entry
  simp only [apply, ← bind_assoc]
  split
  · exact uniform_of_check _ fun v s ↦ { s with start := some v }
  split
  · exact uniform_of_check _ fun v s ↦ { s with stop := some v }
  split
  · exact uniform_of_check _ fun n s ↦ { s with count := some n }
  split
  · exact uniform_of_check _ fun n s ↦ { s with precision := some n }
  split
  · exact uniform_of_check _ fun n s ↦ { s with verbose := some n }
  split
  · exact uniform_of_check _ fun f s ↦ { s with out := some f }
  · exact ⟨.error .malformed, fun s ↦ rfl⟩

/-- How an entry is refused, if it is. -/
def refusal? (entry : String × JsonValue) : Option ConfigError :=
  match none.apply entry with
  | .ok _ => .none
  | .error e => some e

theorem apply_eq_error_iff {s : Settings} {entry : String × JsonValue} {e : ConfigError} :
    apply s entry = .error e ↔ refusal? entry = some e := by
  obtain ⟨change, hchange⟩ := apply_uniform entry
  rw [refusal?, hchange, hchange]
  cases change with
  | ok f => exact iff_of_false nofun nofun
  | error e' => simp only [Except.map, Except.error.injEq, Option.some.injEq]

theorem exists_apply_of_not_refused {s : Settings} {entry : String × JsonValue}
    (h : refusal? entry = .none) : ∃ s', apply s entry = .ok s' := by
  cases hs : apply s entry with
  | ok s' => exact ⟨s', rfl⟩
  | error e =>
    rw [apply_eq_error_iff, h] at hs
    cases hs

/-- Of several entries the first that is refused decides. -/
theorem foldlM_apply_eq_error_iff {entries : List (String × JsonValue)} {s : Settings}
    {e : ConfigError} :
    entries.foldlM apply s = .error e ↔ entries.findSome? refusal? = some e := by
  induction entries generalizing s with
  | nil =>
    rw [List.foldlM_nil, List.findSome?_nil]
    exact iff_of_false nofun nofun
  | cons entry entries ih =>
    rw [List.foldlM_cons, List.findSome?_cons]
    cases hrefusal : refusal? entry with
    | none =>
      obtain ⟨s', hs'⟩ := exists_apply_of_not_refused (s := s) hrefusal
      rw [hs']
      exact ih
    | some e' =>
      rw [apply_eq_error_iff.mpr hrefusal, Option.some.injEq]
      exact Except.error.injEq e' e ▸ Iff.rfl

/-! ## Ways to be refused -/

/-- A bound that is an integer without a finite double. -/
def OverlargeBound (entry : String × JsonValue) : Prop :=
  (entry.1 = "--start" ∨ entry.1 = "--stop") ∧
    ∃ n : Int, entry.2 = .int n ∧ Binary64.overflow ≤ n.natAbs

theorem required_eq_error {α : Type} {o : Option α} {e : ConfigError}
    (h : required o = .error e) : e = .malformed := by
  cases o with
  | some a => cases h
  | none =>
    cases h
    rfl

theorem validFloat_eq_error_iff {value : JsonValue} {e : ConfigError} :
    validFloat value = .error e ↔
      e = .tooLarge ∧ ∃ n : Int, value = .int n ∧ Binary64.overflow ≤ n.natAbs := by
  cases value with
  | int n =>
    have hrun : validFloat (.int n) = if (Binary64.ofInt n).isFinite then
        .ok (some (Binary64.ofInt n)) else .error .tooLarge := rfl
    rw [hrun]
    by_cases hfinite : (Binary64.ofInt n).isFinite = true
    · rw [if_pos hfinite]
      refine iff_of_false nofun ?_
      rintro ⟨-, m, hm, hlarge⟩
      cases hm
      exact Nat.not_le.mpr (Binary64.isFinite_ofInt_iff n |>.mp hfinite) hlarge
    · rw [if_neg hfinite, Except.error.injEq]
      have hlarge : Binary64.overflow ≤ n.natAbs :=
        Nat.not_lt.mp (mt (Binary64.isFinite_ofInt_iff n).mpr hfinite)
      exact ⟨fun he ↦ ⟨he.symm, n, rfl, hlarge⟩, fun he ↦ he.1.symm⟩
  | null | bool _ | float _ | str _ | list _ | object _ =>
    refine iff_of_false nofun ?_
    rintro ⟨-, n, hn, -⟩
    cases hn

/-- What is missing where it has to be there makes an entry malformed. -/
theorem malformed_of_required {α : Type} {o : Option α} {put : α → Settings} {e : ConfigError}
    (h : (do let a ← required o; return put a) = .error e) : e = .malformed := by
  rcases bind_eq_error_iff.mp h with h | ⟨a, -, h⟩
  · exact required_eq_error h
  · cases h

/-- A bound is refused as malformed, or as an integer without a finite double. -/
theorem eq_error_of_bound {value : JsonValue} {put : Float → Settings} {e : ConfigError}
    (h : (do let v ← required (← validFloat value); return put v) = .error e) :
    e = .malformed ∨
      e = .tooLarge ∧ ∃ n : Int, value = .int n ∧ Binary64.overflow ≤ n.natAbs := by
  rcases bind_eq_error_iff.mp h with h | ⟨o, -, h⟩
  · exact .inr (validFloat_eq_error_iff.mp h)
  · exact .inl (malformed_of_required h)

theorem apply_eq_error {s : Settings} {entry : String × JsonValue} {e : ConfigError}
    (h : apply s entry = .error e) : e = .malformed ∨ e = .tooLarge ∧ OverlargeBound entry := by
  obtain ⟨key, value⟩ := entry
  simp only [apply] at h
  split at h
  · next hkey => exact (eq_error_of_bound h).imp_right fun ⟨he, hn⟩ ↦ ⟨he, .inl hkey, hn⟩
  split at h
  · next hkey => exact (eq_error_of_bound h).imp_right fun ⟨he, hn⟩ ↦ ⟨he, .inr hkey, hn⟩
  split at h
  · exact .inl (malformed_of_required h)
  split at h
  · exact .inl (malformed_of_required h)
  split at h
  · exact .inl (malformed_of_required h)
  split at h
  · exact .inl (malformed_of_required h)
  · cases h
    exact .inl rfl

theorem apply_overlargeBound (s : Settings) {entry : String × JsonValue}
    (h : OverlargeBound entry) : apply s entry = .error .tooLarge := by
  obtain ⟨key, value⟩ := entry
  obtain ⟨hkey, n, hn, hlarge⟩ := h
  have hvalue : validFloat value = .error .tooLarge :=
    validFloat_eq_error_iff.mpr ⟨rfl, n, hn, hlarge⟩
  obtain rfl | rfl : key = "--start" ∨ key = "--stop" := hkey
  · simp only [apply]
    rw [if_pos trivial, hvalue]
    rfl
  · simp only [apply]
    rw [if_neg (by decide), if_pos trivial, hvalue]
    rfl

/-- The one way to be refused without being malformed. -/
theorem refusal?_eq_tooLarge_iff {entry : String × JsonValue} :
    refusal? entry = some .tooLarge ↔ OverlargeBound entry := by
  rw [← apply_eq_error_iff (s := none)]
  constructor
  · intro h
    rcases apply_eq_error h with he | ⟨-, hlarge⟩
    · cases he
    · exact hlarge
  · exact apply_overlargeBound none

end Settings

end ExprSampler
