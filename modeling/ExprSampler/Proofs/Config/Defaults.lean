import ExprSampler.Proofs.Config.Failures
import ExprSampler.Proofs.Json.DistinctKeys

/-!
# What a loaded configuration says

A configuration that loads is made entry by entry, each checked on its own and put where its key
says. `Accepted` lists what an entry may do. As no key stands twice in a section, every setting is
made by one entry or none, and the settings can be read off the section without following the fold:
`ofEntries_get?` gives the default of each setting from the value of its key, and so
`load_get?` of every configuration that loads. What the checks let through, `Setting.Admits` says
once for all settings.

Colour is the exception throughout. It has two keys, which are looked up before the fold and left
out of it.
-/

namespace ExprSampler

theorem OutputFormat.parse?_name (f : OutputFormat) : parse? f.name = some f := by
  cases f <;> rfl

theorem OutputFormat.name_inj {f g : OutputFormat} : f.name = g.name ↔ f = g := by
  refine ⟨fun h ↦ ?_, fun h ↦ congrArg name h⟩
  rw [← Option.some.injEq, ← parse?_name, ← parse?_name, h]

/-! ## Settings one by one -/

/-- The bound that a value makes, if it makes one. -/
def Settings.bound? (value : JsonValue) : Option Float :=
  match validFloat value with
  | .ok v => v
  | .error _ => .none

namespace Setting

/-- The default that the value of its key makes for a setting. Colour has no key of its own. -/
def read? : Setting → JsonValue → Option JsonValue
  | color, _ => none
  | count, value => (Settings.validNumber 1 value).map .int
  | out, value => (Settings.validFormat value).map fun f ↦ .str f.name
  | precision, value => (Settings.validNumber 0 value).map .int
  | start, value | stop, value => (Settings.bound? value).map .float

/-- The default that a section gives for a setting. -/
def readFrom (entries : List (String × JsonValue)) : Setting → Option JsonValue
  | color => (Settings.colorOf entries).join.map .bool
  | k => (valueAt? k.optionName entries).bind k.read?

/-- The values that a setting may have as its default. -/
inductive Admits : Setting → JsonValue → Prop
  | color (b : Bool) : Admits color (.bool b)
  | count {n : Int} (h : 1 ≤ n) : Admits count (.int n)
  | out (f : OutputFormat) : Admits out (.str f.name)
  | precision {n : Int} (h : 0 ≤ n) : Admits precision (.int n)
  | start {v : Float} (h : v.isFinite = true) : Admits start (.float v)
  | stop {v : Float} (h : v.isFinite = true) : Admits stop (.float v)

theorem admits_count_iff {n : Int} : count.Admits (.int n) ↔ 1 ≤ n :=
  ⟨fun (.count h) ↦ h, .count⟩

theorem admits_precision_iff {n : Int} : precision.Admits (.int n) ↔ 0 ≤ n :=
  ⟨fun (.precision h) ↦ h, .precision⟩

theorem admits_start_iff {v : Float} : start.Admits (.float v) ↔ v.isFinite = true :=
  ⟨fun (.start h) ↦ h, .start⟩

theorem admits_stop_iff {v : Float} : stop.Admits (.float v) ↔ v.isFinite = true :=
  ⟨fun (.stop h) ↦ h, .stop⟩

end Setting

namespace Settings

theorem isFinite_of_validFloat {value : JsonValue} {v : Float}
    (h : validFloat value = .ok (some v)) : v.isFinite = true := by
  cases value with
  | int n =>
    simp only [validFloat] at h
    split at h
    · next hfinite =>
      cases h
      exact hfinite
    · cases h
  | float w =>
    simp only [validFloat, Except.ok.injEq] at h
    split at h
    · next hfinite =>
      cases h
      exact hfinite
    · cases h
  | null | bool _ | str _ | list _ | object _ => cases h

theorem isFinite_of_bound? {value : JsonValue} {v : Float} (h : bound? value = some v) :
    v.isFinite = true := by
  unfold bound? at h
  split at h
  · next hvalid => exact isFinite_of_validFloat (h ▸ hvalid)
  · cases h

theorem le_of_validInt {least n : Int} {value : JsonValue} (h : validInt least value = some n) :
    least ≤ n := by
  have hleast : ∀ m : Int, (if least ≤ m then some m else .none) = some n → least ≤ n := by
    intro m hm
    split at hm
    · next hle => exact Option.some.inj hm ▸ hle
    · cases hm
  cases value with
  | int m => exact hleast m h
  | bool b => exact hleast _ h
  | null | float _ | str _ | list _ | object _ => cases h

theorem le_of_validNumber {least n : Int} {value : JsonValue}
    (h : validNumber least value = some n) : least ≤ n := by
  unfold validNumber at h
  split at h
  · cases h
  · exact le_of_validInt h

theorem validFormat_eq_some_iff {value : JsonValue} {f : OutputFormat} :
    validFormat value = some f ↔ ∃ text, value = .str text ∧ OutputFormat.parse? text = some f := by
  cases value with
  | str text => simp only [validFormat, JsonValue.str.injEq, exists_eq_left']
  | null | bool _ | int _ | float _ | list _ | object _ =>
    exact iff_of_false nofun fun ⟨_, htext, _⟩ ↦ nomatch htext

theorem admits_of_read? {k : Setting} {value default : JsonValue}
    (h : k.read? value = some default) : k.Admits default := by
  cases k with
  | color => cases h
  | count =>
    obtain ⟨n, hn, rfl⟩ := Option.map_eq_some_iff.mp h
    exact .count (le_of_validNumber hn)
  | out =>
    obtain ⟨f, -, rfl⟩ := Option.map_eq_some_iff.mp h
    exact .out f
  | precision =>
    obtain ⟨n, hn, rfl⟩ := Option.map_eq_some_iff.mp h
    exact .precision (le_of_validNumber hn)
  | start =>
    obtain ⟨v, hv, rfl⟩ := Option.map_eq_some_iff.mp h
    exact .start (isFinite_of_bound? hv)
  | stop =>
    obtain ⟨v, hv, rfl⟩ := Option.map_eq_some_iff.mp h
    exact .stop (isFinite_of_bound? hv)

theorem admits_of_readFrom {k : Setting} {entries : List (String × JsonValue)}
    {default : JsonValue} (h : k.readFrom entries = some default) : k.Admits default := by
  cases k with
  | color =>
    obtain ⟨b, -, rfl⟩ := Option.map_eq_some_iff.mp h
    exact .color b
  | count | out | precision | start | stop =>
    obtain ⟨value, -, hread⟩ := Option.bind_eq_some_iff.mp h
    exact admits_of_read? hread

/-! ## Entry by entry -/

/-- What an entry that is not refused does to settings. -/
inductive Accepted (s : Settings) : String × JsonValue → Settings → Prop
  | start {value : JsonValue} {v : Float} (h : validFloat value = .ok (some v)) :
      Accepted s ("--start", value) { s with start := some v }
  | stop {value : JsonValue} {v : Float} (h : validFloat value = .ok (some v)) :
      Accepted s ("--stop", value) { s with stop := some v }
  | count {value : JsonValue} {n : Int} (h : validNumber 1 value = some n) :
      Accepted s ("--count", value) { s with count := some n }
  | precision {value : JsonValue} {n : Int} (h : validNumber 0 value = some n) :
      Accepted s ("--precision", value) { s with precision := some n }
  | verbose {value : JsonValue} {n : Int} (h : validInt 0 value = some n) :
      Accepted s ("--verbose", value) { s with verbose := some n }
  | out {value : JsonValue} {f : OutputFormat} (h : validFormat value = some f) :
      Accepted s ("--out", value) { s with out := some f }

theorem required_eq_ok_iff {α : Type} {o : Option α} {a : α} :
    required o = .ok a ↔ o = some a := by
  cases o with
  | some b => rw [required, Except.ok.injEq, Option.some.injEq]
  | none => simp only [required, reduceCtorEq]

theorem exists_of_required {α : Type} {o : Option α} {put : α → Settings} {s' : Settings}
    (h : (do let a ← required o; return put a) = .ok s') : ∃ a, o = some a ∧ put a = s' := by
  obtain ⟨a, ha, hput⟩ := bind_eq_ok_iff.mp h
  exact ⟨a, required_eq_ok_iff.mp ha, Except.ok.inj hput⟩

theorem exists_of_bound {value : JsonValue} {put : Float → Settings} {s' : Settings}
    (h : (do let v ← required (← validFloat value); return put v) = .ok s') :
    ∃ v, validFloat value = .ok (some v) ∧ put v = s' := by
  obtain ⟨o, ho, h⟩ := bind_eq_ok_iff.mp h
  obtain ⟨v, rfl, hput⟩ := exists_of_required h
  exact ⟨v, ho, hput⟩

theorem accepted_of_apply {s s' : Settings} {entry : String × JsonValue}
    (h : apply s entry = .ok s') : Accepted s entry s' := by
  obtain ⟨key, value⟩ := entry
  simp only [apply] at h
  split at h
  · next hkey =>
    obtain ⟨v, hv, rfl⟩ := exists_of_bound h
    exact hkey ▸ .start hv
  split at h
  · next hkey =>
    obtain ⟨v, hv, rfl⟩ := exists_of_bound h
    exact hkey ▸ .stop hv
  split at h
  · next hkey =>
    obtain ⟨n, hn, rfl⟩ := exists_of_required h
    exact hkey ▸ .count hn
  split at h
  · next hkey =>
    obtain ⟨n, hn, rfl⟩ := exists_of_required h
    exact hkey ▸ .precision hn
  split at h
  · next hkey =>
    obtain ⟨n, hn, rfl⟩ := exists_of_required h
    exact hkey ▸ .verbose hn
  split at h
  · next hkey =>
    obtain ⟨f, hf, rfl⟩ := exists_of_required h
    exact hkey ▸ .out hf
  · cases h

namespace Accepted

variable {s s' : Settings} {entry : String × JsonValue}

theorem color_eq (h : Accepted s entry s') : s'.color = s.color := by
  cases h <;> rfl

theorem verbose_eq (h : Accepted s entry s') :
    s'.verbose = if entry.1 = "--verbose" then validInt 0 entry.2 else s.verbose := by
  cases h with
  | verbose h => exact h.symm
  | start | stop | count | precision | out => rfl

/-- An entry makes the setting that its key names, and leaves the others alone. -/
theorem get?_eq {k : Setting} (h : Accepted s entry s') (hk : k ≠ .color) :
    s'.get? k = if entry.1 = k.optionName then k.read? entry.2 else s.get? k := by
  cases h with
  | start h | stop h | count h | precision h | out h | verbose h =>
    cases k with
    | color => exact absurd rfl hk
    | count | out | precision | start | stop =>
      simp [Setting.optionName, Setting.read?, bound?, get?, h]

end Accepted

/-! ## Through a section -/

section

variable {s s' : Settings} {entries : List (String × JsonValue)}

/-- What every accepted entry keeps, of the entries to come and the settings made so far, is kept
through a section. -/
theorem foldlM_apply_keeps {I : List (String × JsonValue) → Settings → Prop}
    (hstep : ∀ entry entries s s', Accepted s entry s' → I (entry :: entries) s → I entries s')
    (hstart : I entries s) (h : entries.foldlM apply s = .ok s') : I [] s' := by
  induction entries generalizing s with
  | nil =>
    obtain rfl : s = s' := Except.ok.inj h
    exact hstart
  | cons entry entries ih =>
    rw [List.foldlM_cons] at h
    obtain ⟨s₁, hentry, hrest⟩ := bind_eq_ok_iff.mp h
    exact ih (hstep entry entries s s₁ (accepted_of_apply hentry) hstart) hrest

theorem foldlM_apply_color (h : entries.foldlM apply s = .ok s') : s'.color = s.color :=
  foldlM_apply_keeps (I := fun _ s' ↦ s'.color = s.color)
    (fun _ _ _ _ haccepted hcolor ↦ haccepted.color_eq.trans hcolor) rfl h

variable {α : Type} (get : Settings → Option α) {key : String} {read : JsonValue → Option α}

/-- What the entry of a key makes if it is still to come, and what was made before if it is not: an
entry moves it from the section into the settings, and no other entry touches it. -/
theorem elim_valueAt?_cons {entry : String × JsonValue}
    (hmakes : get s' = if entry.1 = key then read entry.2 else get s)
    (hnew : ∀ e ∈ entries, e.1 ≠ entry.1) :
    (valueAt? key entries).elim (get s') read
      = (valueAt? key (entry :: entries)).elim (get s) read := by
  obtain ⟨k, value⟩ := entry
  by_cases hkey : k = key
  · subst hkey
    rw [valueAt?_eq_none_iff.mpr hnew, valueAt?_cons_self, hmakes, if_pos rfl]
    rfl
  · rw [valueAt?_cons_of_ne hkey, hmakes, if_neg hkey]

/-- What only the entries of one key make is made by the entry of that key. -/
theorem foldlM_apply_eq (hnone : get s = .none)
    (hmakes : ∀ s entry s', Accepted s entry s' →
      get s' = if entry.1 = key then read entry.2 else get s)
    (hkeys : HasDistinctKeys entries) (h : entries.foldlM apply s = .ok s') :
    get s' = (valueAt? key entries).bind read := by
  have hstart : (valueAt? key entries).elim (get s) read = (valueAt? key entries).bind read := by
    rw [hnone]
    cases valueAt? key entries <;> rfl
  refine (foldlM_apply_keeps (I := fun rest s ↦ HasDistinctKeys rest ∧
    (valueAt? key rest).elim (get s) read = (valueAt? key entries).bind read)
    (fun entry rest s s₁ haccepted hrest ↦ ?_) ⟨hkeys, hstart⟩ h).2
  obtain ⟨hnew, hdistinct⟩ := hasDistinctKeys_cons_iff.mp hrest.1
  exact ⟨hdistinct,
    (elim_valueAt?_cons get (hmakes s entry s₁ haccepted) hnew).trans hrest.2⟩

theorem ofEntries_eq_ok_iff :
    ofEntries entries = .ok s ↔ ∃ color, colorOf entries = some color ∧
      (entries.filter fun e ↦ !isColorKey e.1).foldlM apply { none with color := color } =
        .ok s := by
  rw [ofEntries, bind_eq_ok_iff]
  simp only [required_eq_ok_iff]

theorem valueAt?_filter_isColorKey {key : String} (h : isColorKey key = false) :
    valueAt? key (entries.filter fun e ↦ !isColorKey e.1) = valueAt? key entries :=
  valueAt?_filter (fun k ↦ !isColorKey k) (congrArg not h) entries

theorem ofEntries_get? (hkeys : HasDistinctKeys entries) (h : ofEntries entries = .ok s)
    (k : Setting) : s.get? k = k.readFrom entries := by
  obtain ⟨color, hcolor, hfold⟩ := ofEntries_eq_ok_iff.mp h
  cases k with
  | color =>
    rw [get?, foldlM_apply_color hfold, Setting.readFrom, hcolor]
    rfl
  | count | out | precision | start | stop =>
    rw [foldlM_apply_eq (·.get? _) rfl (fun s e s' h ↦ h.get?_eq (by decide)) (hkeys.filter _)
      hfold, valueAt?_filter_isColorKey (by decide)]
    rfl

theorem ofEntries_verbose (hkeys : HasDistinctKeys entries) (h : ofEntries entries = .ok s) :
    s.verbose = (valueAt? "--verbose" entries).bind (validInt 0) := by
  obtain ⟨color, -, hfold⟩ := ofEntries_eq_ok_iff.mp h
  rw [foldlM_apply_eq verbose rfl (fun s e s' h ↦ h.verbose_eq) (hkeys.filter _) hfold,
    valueAt?_filter_isColorKey (by decide)]

end

theorem hasDistinctKeys_of_sectionOf {config entries : List (String × JsonValue)}
    (hconfig : JsonText.DistinctEntries config) (h : sectionOf config = some entries) :
    HasDistinctKeys entries := by
  unfold sectionOf at h
  split at h
  · cases h
  split at h
  · cases h
    exact .nil
  · next hvalue =>
    cases h
    cases hconfig.values _ (mem_of_valueAt? hvalue) with
    | object hkeys => exact hkeys
  · cases h

end Settings

/-! ## Through a file -/

namespace Config

variable {nesting : Nat} {found : Found} {config entries : List (String × JsonValue)} {c : Loaded}

theorem distinctEntries_of_entriesOf (h : entriesOf nesting found = .ok config) :
    JsonText.DistinctEntries config := by
  cases found with
  | missing =>
    cases h
    exact .nil
  | unreadable | badName => cases h
  | bytes bytes =>
    obtain ⟨text, -, hdecode⟩ := entriesOf_eq_ok_iff.mp h
    cases JsonText.distinct_of_decode hdecode with
    | object hkeys hvalues => exact ⟨hkeys, hvalues⟩

/-- The section that a file holds for a reader that can follow so much nesting. -/
def SectionIn (nesting : Nat) (found : Found) (entries : List (String × JsonValue)) : Prop :=
  ∃ config, entriesOf nesting found = .ok config ∧ Settings.sectionOf config = some entries

theorem SectionIn.hasDistinctKeys (h : SectionIn nesting found entries) :
    HasDistinctKeys entries := by
  obtain ⟨config, hconfig, hsection⟩ := h
  exact Settings.hasDistinctKeys_of_sectionOf (distinctEntries_of_entriesOf hconfig) hsection

theorem load_eq_ok_iff :
    load nesting found = .ok c ↔ ∃ entries settings, SectionIn nesting found entries ∧
      Settings.ofEntries entries = .ok settings ∧
        ⟨{ settings with verbose := none }, settings.verbose.getD 0⟩ = c := by
  simp only [load, bind_eq_ok_iff, Settings.required_eq_ok_iff, SectionIn]
  constructor
  · rintro ⟨config, hconfig, entries, hsection, settings, hsettings, hc⟩
    exact ⟨entries, settings, ⟨config, hconfig, hsection⟩, hsettings, Except.ok.inj hc⟩
  · rintro ⟨entries, settings, ⟨config, hconfig, hsection⟩, hsettings, rfl⟩
    exact ⟨config, hconfig, entries, hsection, settings, hsettings, rfl⟩

/-- **A configuration says what its section says**: every default is read from the value of its
key, and so is the verbosity. -/
theorem load_get? (h : load nesting found = .ok c) :
    ∃ entries, SectionIn nesting found entries ∧ (∀ k, c.settings.get? k = k.readFrom entries) ∧
      c.verbose = ((valueAt? "--verbose" entries).bind (Settings.validInt 0)).getD 0 := by
  obtain ⟨entries, settings, hsection, hsettings, rfl⟩ := load_eq_ok_iff.mp h
  have hkeys := hsection.hasDistinctKeys
  refine ⟨entries, hsection, fun k ↦ ?_, ?_⟩
  · rw [← Settings.ofEntries_get? hkeys hsettings k]
    cases k <;> rfl
  · rw [← Settings.ofEntries_verbose hkeys hsettings]

/-- Every default is one that its setting admits. -/
theorem admits_of_load (h : load nesting found = .ok c) {k : Setting} {default : JsonValue}
    (hdefault : c.settings.get? k = some default) : k.Admits default := by
  obtain ⟨entries, -, hget, -⟩ := load_get? h
  exact Settings.admits_of_readFrom (hget k ▸ hdefault)

/-- A default is admitted, and so is what is built in where there is none. -/
theorem admits_getD_of_load (h : load nesting found = .ok c) {k : Setting} {α : Type}
    {value : α → JsonValue} {o : Option α} (hget : c.settings.get? k = o.map value) {builtIn : α}
    (hbuiltIn : k.Admits (value builtIn)) : k.Admits (value (o.getD builtIn)) := by
  cases o with
  | none => exact hbuiltIn
  | some a => exact admits_of_load h hget

/-- The default for the format is the one that the text in the section names. -/
theorem out_eq_some_iff_of_load (h : load nesting found = .ok c) :
    ∃ entries, SectionIn nesting found entries ∧ ∀ f, c.settings.out = some f ↔
      ∃ text, valueAt? "--out" entries = some (.str text) ∧ OutputFormat.parse? text = some f := by
  obtain ⟨entries, hsection, hget, -⟩ := load_get? h
  refine ⟨entries, hsection, fun f ↦ ?_⟩
  have hout : c.settings.out = (valueAt? "--out" entries).bind Settings.validFormat := by
    refine (Option.map_inj_right fun f g hfg ↦ ?_).mp ((hget .out).trans Option.map_bind.symm)
    exact OutputFormat.name_inj.mp (JsonValue.str.inj hfg)
  rw [hout, Option.bind_eq_some_iff]
  constructor
  · rintro ⟨value, hvalue, hformat⟩
    obtain ⟨text, rfl, hparse⟩ := Settings.validFormat_eq_some_iff.mp hformat
    exact ⟨text, hvalue, hparse⟩
  · rintro ⟨text, hvalue, hparse⟩
    exact ⟨.str text, hvalue, Settings.validFormat_eq_some_iff.mpr ⟨text, rfl, hparse⟩⟩

theorem verbose_nonneg_of_load (h : load nesting found = .ok c) : 0 ≤ c.verbose := by
  obtain ⟨entries, -, -, hverbose⟩ := load_get? h
  rw [hverbose]
  cases hvalue : (valueAt? "--verbose" entries).bind (Settings.validInt 0) with
  | none => exact Int.le_refl 0
  | some n =>
    obtain ⟨value, -, hvalid⟩ := Option.bind_eq_some_iff.mp hvalue
    exact Settings.le_of_validInt hvalid

end Config

end ExprSampler
