import ExprSampler.Json.Decoder

/-!
# No key twice

The entries of an object are kept as a list, and what is looked up in it is the first entry of a
key. That this is also the only one is not in the type. It holds of every value the reader gives,
and of every object inside one (`distinct_of_decode`): `putEntry` overwrites the entry of a key that
is there already. So a lookup may be read as what *the* value of a key is, and an entry that is met
on the way through the list is the one that a lookup finds. The order of the entries is then all
that lookups do not tell (`perm_of_valueAt?`).

The three rules of the reader are handled together, as for `Within`, by induction on the bound of
their calls. The entries of an object are added to those read before, so what is carried through
them is a property of the list made so far.
-/

namespace ExprSampler

/-! ## Lists of entries -/

section

variable {α : Type} {key : String} {value : α} {entries : List (String × α)}

/-- No key stands twice in a list of entries. -/
def HasDistinctKeys (entries : List (String × α)) : Prop :=
  (entries.map (·.1)).Nodup

theorem HasDistinctKeys.nil : HasDistinctKeys ([] : List (String × α)) :=
  List.nodup_nil

theorem hasDistinctKeys_cons_iff {e : String × α} :
    HasDistinctKeys (e :: entries) ↔
      (∀ e' ∈ entries, e'.1 ≠ e.1) ∧ HasDistinctKeys entries := by
  rw [HasDistinctKeys, List.map_cons, List.nodup_cons, List.mem_map]
  refine and_congr ⟨fun h e' he' hkey ↦ h ⟨e', he', hkey⟩, ?_⟩ Iff.rfl
  rintro h ⟨e', he', hkey⟩
  exact h e' he' hkey

theorem HasDistinctKeys.filter (h : HasDistinctKeys entries) (p : String × α → Bool) :
    HasDistinctKeys (entries.filter p) :=
  h.sublist (List.filter_sublist.map _)

theorem mem_of_mem_putEntry {e : String × α} (h : e ∈ putEntry key value entries) :
    e = (key, value) ∨ e ∈ entries := by
  fun_induction putEntry key value entries with
  | case1 => exact .inl (List.mem_singleton.mp h)
  | case2 entries v =>
    rcases List.mem_cons.mp h with rfl | h
    · exact .inl rfl
    · exact .inr (List.mem_cons_of_mem _ h)
  | case3 k v entries _ ih =>
    rcases List.mem_cons.mp h with rfl | h
    · exact .inr List.mem_cons_self
    · exact (ih h).imp_right (List.mem_cons_of_mem _)

theorem HasDistinctKeys.putEntry (h : HasDistinctKeys entries) (key : String) (value : α) :
    HasDistinctKeys (putEntry key value entries) := by
  fun_induction ExprSampler.putEntry key value entries with
  | case1 => exact hasDistinctKeys_cons_iff.mpr ⟨nofun, .nil⟩
  | case2 => exact h
  | case3 k v entries hk ih =>
    obtain ⟨hkeys, hentries⟩ := hasDistinctKeys_cons_iff.mp h
    refine hasDistinctKeys_cons_iff.mpr ⟨fun e he ↦ ?_, ih hentries⟩
    rcases mem_of_mem_putEntry he with rfl | he
    · exact Ne.symm hk
    · exact hkeys e he

/-! ## Looking up a key -/

theorem valueAt?_cons_self (key : String) (value : α) (entries : List (String × α)) :
    valueAt? key ((key, value) :: entries) = some value := by
  rw [valueAt?, List.find?_cons_of_pos (by simp)]
  rfl

theorem valueAt?_cons_of_ne {other : String} (h : other ≠ key) (value : α)
    (entries : List (String × α)) :
    valueAt? key ((other, value) :: entries) = valueAt? key entries := by
  rw [valueAt?, List.find?_cons_of_neg (by simpa using h)]
  rfl

theorem valueAt?_eq_none_iff : valueAt? key entries = none ↔ ∀ e ∈ entries, e.1 ≠ key := by
  simp only [valueAt?, Option.map_eq_none_iff, List.find?_eq_none, beq_iff_eq, ne_eq]

theorem mem_of_valueAt? (h : valueAt? key entries = some value) : (key, value) ∈ entries := by
  obtain ⟨⟨k, v⟩, hfind, hvalue⟩ := Option.map_eq_some_iff.mp h
  obtain rfl : k = key := eq_of_beq (List.find?_some hfind :)
  obtain rfl : v = value := hvalue
  exact List.mem_of_find?_eq_some hfind

theorem valueAt?_filter (p : String → Bool) (h : p key = true) (entries : List (String × α)) :
    valueAt? key (entries.filter fun e ↦ p e.1) = valueAt? key entries := by
  have hkey : ∀ e : String × α, decide (p e.1 = true ∧ (e.1 == key) = true) = (e.1 == key) := by
    intro e
    by_cases he : e.1 = key
    · simp [he, h]
    · simp [he]
  simp only [valueAt?, List.find?_filter, hkey]

/-! ## The order of entries -/

variable {other : List (String × α)}

theorem HasDistinctKeys.perm (h : HasDistinctKeys entries) (hperm : entries.Perm other) :
    HasDistinctKeys other :=
  (hperm.map _).nodup_iff.mp h

theorem HasDistinctKeys.nodup (h : HasDistinctKeys entries) : entries.Nodup :=
  List.Pairwise.of_map _ (fun _ _ hkeys he ↦ hkeys (congrArg Prod.fst he)) h

/-- An entry that is met is the one that a lookup finds. -/
theorem valueAt?_eq_some_iff (h : HasDistinctKeys entries) :
    valueAt? key entries = some value ↔ (key, value) ∈ entries := by
  refine ⟨mem_of_valueAt?, fun hmem ↦ ?_⟩
  induction entries with
  | nil => cases hmem
  | cons e entries ih =>
    obtain ⟨hnew, hentries⟩ := hasDistinctKeys_cons_iff.mp h
    rcases List.mem_cons.mp hmem with rfl | hmem
    · exact valueAt?_cons_self key value entries
    · rw [valueAt?_cons_of_ne (Ne.symm (hnew _ hmem))]
      exact ih hentries hmem

theorem valueAt?_perm (h : HasDistinctKeys entries) (hperm : entries.Perm other) (key : String) :
    valueAt? key entries = valueAt? key other := by
  ext value
  rw [valueAt?_eq_some_iff h, valueAt?_eq_some_iff (h.perm hperm), hperm.mem_iff]

/-- Entries that are looked up alike are the same, up to their order. -/
theorem perm_of_valueAt? (h : HasDistinctKeys entries) (hother : HasDistinctKeys other)
    (hvalue : ∀ key, valueAt? key entries = valueAt? key other) : entries.Perm other := by
  refine (List.perm_ext_iff_of_nodup h.nodup hother.nodup).mpr fun e ↦ ?_
  rw [← valueAt?_eq_some_iff h, ← valueAt?_eq_some_iff hother, hvalue]

/-- The entries in the order of their keys. -/
def sortEntries (entries : List (String × α)) : List (String × α) :=
  entries.mergeSort fun a b ↦ decide (a.1 ≤ b.1)

theorem sortEntries_perm (entries : List (String × α)) : (sortEntries entries).Perm entries :=
  List.mergeSort_perm entries _

theorem pairwise_sortEntries (entries : List (String × α)) :
    (sortEntries entries).Pairwise fun a b ↦ a.1 ≤ b.1 := by
  refine (List.pairwise_mergeSort (fun a b c hab hbc ↦ ?_) (fun a b ↦ ?_) entries).imp
    of_decide_eq_true
  · exact decide_eq_true (String.le_trans (of_decide_eq_true hab) (of_decide_eq_true hbc))
  · rw [← Bool.decide_or]
    exact decide_eq_true (String.le_total a.1 b.1)

/-- The order of the keys leaves entries one order to stand in. -/
theorem eq_of_perm_of_pairwise (h : HasDistinctKeys entries) (hperm : entries.Perm other)
    (hsorted : entries.Pairwise fun a b ↦ a.1 ≤ b.1)
    (hother : other.Pairwise fun a b ↦ a.1 ≤ b.1) : entries = other := by
  refine hperm.eq_of_pairwise (fun a b ha hb hab hba ↦ ?_) hsorted hother
  have hkey : a.1 = b.1 := String.le_antisymm hab hba
  have ha' : valueAt? b.1 entries = some a.2 := (valueAt?_eq_some_iff h).mpr (hkey ▸ ha)
  have hb' : valueAt? b.1 entries = some b.2 := (valueAt?_eq_some_iff h).mpr (hperm.mem_iff.mpr hb)
  exact Prod.ext hkey (Option.some.inj (ha'.symm.trans hb'))

end

/-! ## Values -/

/-- Values in whose objects no key stands twice, on any level. -/
inductive JsonValue.Distinct : JsonValue → Prop
  | null : Distinct .null
  | bool (b : Bool) : Distinct (.bool b)
  | int (n : Int) : Distinct (.int n)
  | float (v : Float) : Distinct (.float v)
  | str (s : String) : Distinct (.str s)
  | list {items : List JsonValue} (h : ∀ item ∈ items, Distinct item) : Distinct (.list items)
  | object {entries : List (String × JsonValue)} (hkeys : HasDistinctKeys entries)
      (hvalues : ∀ e ∈ entries, Distinct e.2) : Distinct (.object entries)

namespace JsonText

/-- What a part of the reader takes from a text has a property, if the part takes anything. -/
def Yields {α : Type} (P : α → Prop) (r : Except JsonError (α × List Char)) : Prop :=
  ∀ a rest, r = .ok (a, rest) → P a

namespace Yields

variable {α β : Type} {P : α → Prop} {Q : β → Prop}

theorem ok {a : α} (h : P a) (rest : List Char) : Yields P (.ok (a, rest)) := by
  intro a' rest' heq
  cases heq
  exact h

theorem error (e : JsonError) : Yields P (.error e) :=
  nofun

/-- One part after another: the second may use what is known of the first. -/
theorem bind {x : Except JsonError (α × List Char)}
    {f : α × List Char → Except JsonError (β × List Char)} (hx : Yields P x)
    (hf : ∀ a rest, P a → Yields Q (f (a, rest))) : Yields Q (x >>= f) := by
  cases x with
  | error e => exact error e
  | ok p => exact hf p.1 p.2 (hx p.1 p.2 rfl)

/-- A part of which nothing needs to be known. -/
theorem bind_any {x : Except JsonError (α × List Char)}
    {f : α × List Char → Except JsonError (β × List Char)}
    (hf : ∀ a rest, Yields Q (f (a, rest))) : Yields Q (x >>= f) :=
  bind (P := fun _ ↦ True) (fun _ _ _ ↦ trivial) fun a rest _ ↦ hf a rest

/-- It does not matter how much nesting is left. -/
theorem deeper {nesting : Nat} {f : Nat → Except JsonError (α × List Char)}
    (hf : ∀ nesting, Yields P (f nesting)) : Yields P (JsonText.deeper nesting >>= f) := by
  cases nesting with
  | zero => exact error .tooDeep
  | succ nesting => exact hf nesting

end Yields

theorem distinct_readNumber (negative : Bool) (cs : List Char) :
    Yields JsonValue.Distinct (readNumber negative cs) := by
  unfold readNumber
  dsimp only
  split
  · exact .error _
  split
  · split
    · exact .error _
    · exact .ok (.int _) _
  · exact .ok (.float _) _

theorem distinct_readAtom (words : Bool) (cs : List Char) :
    Yields JsonValue.Distinct (readAtom words cs) := by
  unfold readAtom
  split
  · exact .ok .null _
  split
  · exact .ok (.bool true) _
  split
  · exact .ok (.bool false) _
  split
  · exact .ok (.float _) _
  split
  · exact .ok (.float _) _
  split
  · exact .ok (.float _) _
  split
  · exact distinct_readNumber true _
  · exact distinct_readNumber false _

/-- Entries that may be those of a value without a key twice. -/
structure DistinctEntries (entries : List (String × JsonValue)) : Prop where
  keys : HasDistinctKeys entries
  values : ∀ e ∈ entries, e.2.Distinct

theorem DistinctEntries.nil : DistinctEntries [] :=
  ⟨.nil, nofun⟩

theorem DistinctEntries.putEntry {entries : List (String × JsonValue)} {value : JsonValue}
    (h : DistinctEntries entries) (key : String) (hvalue : value.Distinct) :
    DistinctEntries (putEntry key value entries) := by
  refine ⟨h.keys.putEntry key value, fun e he ↦ ?_⟩
  rcases mem_of_mem_putEntry he with rfl | he
  · exact hvalue
  · exact h.values e he

/-- What the reader takes, at every bound of its calls: a value, the items of a list, and the
entries of an object, if those read before are in order. -/
structure DistinctRules (words : Bool) (n : Nat) : Prop where
  value : ∀ (nesting : Nat) (cs : List Char),
    Yields JsonValue.Distinct (readValue words n nesting cs)
  items : ∀ (nesting : Nat) (cs : List Char),
    Yields (fun items ↦ ∀ item ∈ items, item.Distinct) (readItems words n nesting cs)
  entries : ∀ (nesting : Nat) (entries : List (String × JsonValue)) (cs : List Char),
    DistinctEntries entries → Yields DistinctEntries (readEntries words n nesting entries cs)

theorem distinctRules (words : Bool) (n : Nat) : DistinctRules words n := by
  induction n with
  | zero =>
    refine ⟨fun nesting cs ↦ ?_, fun nesting cs ↦ ?_, fun nesting entries cs _ ↦ ?_⟩
    · rw [readValue]
      exact .error _
    · rw [readItems]
      exact .error _
    · rw [readEntries]
      exact .error _
  | succ n ih =>
    refine ⟨fun nesting cs ↦ ?value, fun nesting cs ↦ ?items,
      fun nesting entries cs hbefore ↦ ?entries⟩
    case value =>
      unfold readValue
      split
      · exact .bind_any fun s rest ↦ .ok (.str s) _
      · refine .deeper fun nesting ↦ ?_
        dsimp only
        split
        · exact .ok (.list nofun) _
        · exact (ih.items nesting _).bind fun items rest h ↦ .ok (.list h) _
      · refine .deeper fun nesting ↦ ?_
        dsimp only
        split
        · exact .ok (.object .nil nofun) _
        · exact (ih.entries nesting [] _ .nil).bind fun entries rest h ↦
            .ok (.object h.keys h.values) _
      · exact distinct_readAtom words _
    case items =>
      unfold readItems
      refine (ih.value nesting cs).bind fun item rest hitem ↦ ?_
      dsimp only
      split
      · exact .ok (List.forall_mem_singleton.mpr hitem) _
      · exact (ih.items nesting _).bind fun items rest h ↦
          .ok (List.forall_mem_cons.mpr ⟨hitem, h⟩) _
      · exact .error _
    case entries =>
      unfold readEntries
      split
      · refine .bind_any fun key rest ↦ ?_
        dsimp only
        split
        · refine (ih.value nesting _).bind fun value rest h ↦ ?_
          have hmore := hbefore.putEntry key h
          dsimp only
          split
          · exact .ok hmore _
          · exact ih.entries nesting _ _ hmore
          · exact .error _
        · exact .error _
      · exact .error _

theorem distinct_of_read {words : Bool} {nesting : Nat} {cs : List Char} {value : JsonValue}
    (h : read words nesting cs = .ok value) : value.Distinct := by
  unfold read at h
  cases hread : readValue words (2 * cs.length + 1) nesting (skipSpace cs) with
  | error e =>
    rw [hread] at h
    cases h
  | ok p =>
    rw [hread] at h
    have hvalue := (distinctRules words _).value _ _ p.1 p.2 hread
    simp only [Except.bind, bind] at h
    split at h
    · cases h
      exact hvalue
    · cases h

/-- **No object of a document has a key twice.** -/
theorem distinct_of_decode {nesting : Nat} {text : String} {value : JsonValue}
    (h : JsonValue.decode nesting text = .ok value) : value.Distinct :=
  distinct_of_read h

end JsonText

end ExprSampler
