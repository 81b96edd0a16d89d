import ExprSampler.Expr.Parser

/-!
# Steady parsers

How parsers run, and the property that all rules of the grammar share. A *steady* parser looks at
most one character beyond the place where it stops, so its answer depends on what it has read and
on the character that follows, and on nothing further on. It never leaves a record of something
missed behind a value, which is what keeps reports down to the requirement that failed.

Steadiness passes from the steps of a parser to the whole. For repetition this needs that every
round takes a character: the rounds are then not cut short by their budget, whatever text follows.
-/

namespace ExprSampler

namespace Blame

@[simp] theorem after_none (later : Blame) : after none later = later := rfl

@[simp] theorem merge_none (later : Option Blame) : merge none later = later := by
  cases later <;> rfl

end Blame

/-- The answer without a value: a failure, or giving up. -/
def Reply.halted {α : Type} : Option Blame → Reply α
  | some blame => .failed blame
  | none => .tooDeep

namespace Parser

variable {α β : Type}

/-! ## Running a parser -/

theorem matches_cases (k : CharClass) (cs : List Char) :
    (∃ (ch : Char) (r : List Char), cs = ch :: r ∧ k.contains ch = true)
      ∨ k.matchesNext cs.head? = false := by
  cases cs with
  | nil => exact .inr rfl
  | cons ch r =>
    by_cases h : k.contains ch = true
    · exact .inl ⟨ch, r, rfl, h⟩
    · exact .inr (Bool.eq_false_iff.mpr h)

@[simp] theorem pure_run (a : α) (bound : Option String) (c : Cursor) :
    (pure a : Parser α) bound c = (.done a c none, bound) := rfl

theorem bind_run (p : Parser α) (f : α → Parser β) (bound : Option String) (c : Cursor) :
    (p >>= f) bound c = andThen p f bound c := rfl

theorem bind_of_done {p : Parser α} {f : α → Parser β} {bound bound₁ : Option String}
    {c c₁ : Cursor} {a : α} (h : p bound c = (.done a c₁ none, bound₁)) :
    (p >>= f) bound c = f a bound₁ c₁ := by
  rw [bind_run, andThen, h]
  dsimp only
  rcases f a bound₁ c₁ with ⟨b | blame | _, bound₂⟩
  · simp
  · simp
  · rfl

theorem bind_of_halted {p : Parser α} {f : α → Parser β} {bound bound₁ : Option String}
    {c : Cursor} {o : Option Blame} (h : p bound c = (.halted o, bound₁)) :
    (p >>= f) bound c = (.halted o, bound₁) := by
  rw [bind_run, andThen, h]
  cases o <;> rfl

theorem bind_of_failed {p : Parser α} {f : α → Parser β} {bound bound₁ : Option String}
    {c : Cursor} {blame : Blame} (h : p bound c = (.failed blame, bound₁)) :
    (p >>= f) bound c = (.failed blame, bound₁) :=
  bind_of_halted (o := some blame) h

theorem bind_of_tooDeep {p : Parser α} {f : α → Parser β} {bound bound₁ : Option String}
    {c : Cursor} (h : p bound c = (.tooDeep, bound₁)) :
    (p >>= f) bound c = (.tooDeep, bound₁) :=
  bind_of_halted (o := none) h

theorem take?_of_matches {k : CharClass} {ch : Char} (h : k.contains ch = true)
    (bound : Option String) (i : Nat) (r : List Char) :
    take? k bound ⟨i, ch :: r⟩ = (.done (some ch) ⟨i + 1, r⟩ none, bound) := by
  simp [take?, Cursor.next, Cursor.advance, h]

theorem take?_of_not_matches {k : CharClass} {r : List Char} (h : k.matchesNext r.head? = false)
    (bound : Option String) (i : Nat) :
    take? k bound ⟨i, r⟩ = (.done none ⟨i, r⟩ none, bound) := by
  cases r with
  | nil => rfl
  | cons ch r =>
    have hch : k.contains ch = false := h
    simp [take?, Cursor.next, hch]

theorem skip?_of_matches {k : CharClass} {ch : Char} (h : k.contains ch = true)
    (bound : Option String) (i : Nat) (r : List Char) :
    skip? k bound ⟨i, ch :: r⟩ = (.done true ⟨i + 1, r⟩ none, bound) := by
  rw [skip?, bind_of_done (take?_of_matches h bound i r)]
  rfl

theorem skip?_of_not_matches {k : CharClass} {r : List Char} (h : k.matchesNext r.head? = false)
    (bound : Option String) (i : Nat) :
    skip? k bound ⟨i, r⟩ = (.done false ⟨i, r⟩ none, bound) := by
  rw [skip?, bind_of_done (take?_of_not_matches h bound i)]
  rfl

theorem require_of_matches {k : CharClass} {ch : Char} (h : k.contains ch = true) (rule : String)
    (bound : Option String) (i : Nat) (r : List Char) :
    require k rule bound ⟨i, ch :: r⟩ = (.done ch ⟨i + 1, r⟩ none, bound) := by
  simp [require, Cursor.next, Cursor.advance, h]

theorem require_of_not_matches {k : CharClass} {r : List Char} (h : k.matchesNext r.head? = false)
    (rule : String) (bound : Option String) (i : Nat) :
    require k rule bound ⟨i, r⟩ = (.failed ⟨i, [.token k.description rule]⟩, bound) := by
  cases r with
  | nil => rfl
  | cons ch r =>
    have hch : k.contains ch = false := h
    simp [require, Cursor.next, hch]

theorem requireSkip_of_matches {k : CharClass} {ch : Char} (h : k.contains ch = true)
    (rule : String) (bound : Option String) (i : Nat) (r : List Char) :
    requireSkip k rule bound ⟨i, ch :: r⟩ = (.done () ⟨i + 1, r⟩ none, bound) := by
  rw [requireSkip, bind_of_done (require_of_matches h rule bound i r)]
  rfl

theorem requireSkip_of_not_matches {k : CharClass} {r : List Char}
    (h : k.matchesNext r.head? = false) (rule : String) (bound : Option String) (i : Nat) :
    requireSkip k rule bound ⟨i, r⟩ = (.failed ⟨i, [.token k.description rule]⟩, bound) := by
  rw [requireSkip, bind_of_failed (require_of_not_matches h rule bound i)]

theorem nextIs_run (classes : List CharClass) (bound : Option String) (i : Nat) (r : List Char) :
    nextIs classes bound ⟨i, r⟩
      = (.done (classes.any fun k ↦ k.matchesNext r.head?) ⟨i, r⟩ none, bound) := rfl

theorem takeAll_append {k : CharClass} {w r : List Char} (hw : ∀ ch ∈ w, k.contains ch = true)
    (hr : k.matchesNext r.head? = false) (bound : Option String) (i : Nat) :
    takeAll k bound ⟨i, w ++ r⟩ = (.done w ⟨i + w.length, r⟩ none, bound) := by
  have hrun : (w ++ r).takeWhile k.contains = w := by
    rw [List.takeWhile_append_of_pos hw]
    cases r with
    | nil => simp
    | cons ch r =>
      have hch : k.contains ch = false := hr
      simp [hch]
  simp [takeAll, Cursor.advance, hrun]

theorem exists_run (k : CharClass) (cs : List Char) :
    ∃ w r, cs = w ++ r ∧ (∀ ch ∈ w, k.contains ch = true) ∧ k.matchesNext r.head? = false := by
  refine ⟨cs.takeWhile k.contains, cs.dropWhile k.contains,
    List.takeWhile_append_dropWhile.symm, List.all_eq_true.mp List.all_takeWhile, ?_⟩
  cases h : cs.dropWhile k.contains with
  | nil => rfl
  | cons ch r =>
    have hhead := List.head?_dropWhile_not k.contains cs
    rw [h] at hhead
    simpa using hhead

/-! ## Steadiness -/

/-- The parser reads some characters and looks at the one that follows them; the answer is the same
before any other text that goes on with that character. -/
structure Steady (p : Parser α) : Prop where
  /-- A value comes without a record of something missed. -/
  done : ∀ {bound bound' : Option String} {c c' : Cursor} {a : α} {missed : Option Blame},
    p bound c = (.done a c' missed, bound') →
      missed = none ∧ ∃ w r, c.rest = w ++ r ∧ c' = ⟨c.index + w.length, r⟩ ∧
        ∀ r' : List Char, r'.head? = r.head? →
          p bound ⟨c.index, w ++ r'⟩ = (.done a ⟨c.index + w.length, r'⟩ none, bound')
  /-- A failure is placed where reading stopped. -/
  failed : ∀ {bound bound' : Option String} {c : Cursor} {blame : Blame},
    p bound c = (.failed blame, bound') →
      ∃ w r, c.rest = w ++ r ∧ blame.position = c.index + w.length ∧
        ∀ r' : List Char, r'.head? = r.head? →
          p bound ⟨c.index, w ++ r'⟩ = (.failed blame, bound')

/-- Behind a fixed text, what follows decides about the next character. -/
theorem head?_append_congr {r r' : List Char} (w : List Char) (h : r'.head? = r.head?) :
    (w ++ r').head? = (w ++ r).head? := by
  rw [List.head?_append, List.head?_append, h]

namespace Steady

theorem rest_length_le {p : Parser α} (hp : Steady p) {bound bound' : Option String}
    {c c' : Cursor} {a : α} {missed : Option Blame}
    (h : p bound c = (.done a c' missed, bound')) : c'.rest.length ≤ c.rest.length := by
  obtain ⟨-, w, r, hrest, rfl, -⟩ := hp.done h
  rw [hrest, List.length_append]
  exact Nat.le_add_left _ _

/-- A parser that answers at once, without a look at the text. -/
theorem of_answer {p : Parser α} (answer : Option String → α × Option String)
    (h : ∀ bound c, p bound c = (.done (answer bound).1 c none, (answer bound).2)) : Steady p where
  done := by
    intro bound bound' c c' a missed hrun
    rw [h] at hrun
    cases hrun
    exact ⟨rfl, [], c.rest, rfl, rfl, fun r' _ ↦ h bound _⟩
  failed := by
    intro bound bound' c blame hrun
    rw [h] at hrun
    cases hrun

theorem pure (a : α) : Steady (pure a : Parser α) :=
  of_answer (fun bound ↦ (a, bound)) fun _ _ ↦ rfl

theorem getName : Steady getName :=
  of_answer (fun bound ↦ (bound, bound)) fun _ _ ↦ rfl

theorem bindName (name : String) : Steady (bindName name) :=
  of_answer (fun _ ↦ ((), some name)) fun _ _ ↦ rfl

/-- A value of two steps comes from a value of each. -/
theorem done_of_bind {p : Parser α} {f : α → Parser β} (hp : Steady p)
    {bound bound' : Option String} {c c' : Cursor} {b : β} {missed : Option Blame}
    (h : (p >>= f) bound c = (.done b c' missed, bound')) :
    ∃ a c₁ bound₁, p bound c = (.done a c₁ none, bound₁) ∧
      f a bound₁ c₁ = (.done b c' missed, bound') := by
  rcases hrun : p bound c with ⟨⟨a, c₁, missed₁⟩ | _ | _, bound₁⟩
  · obtain ⟨rfl, -⟩ := hp.done hrun
    rw [bind_of_done hrun] at h
    exact ⟨a, c₁, bound₁, rfl, h⟩
  · rw [bind_of_failed hrun] at h
    cases h
  · rw [bind_of_tooDeep hrun] at h
    cases h

theorem bind {p : Parser α} {f : α → Parser β} (hp : Steady p) (hf : ∀ a, Steady (f a)) :
    Steady (p >>= f) where
  done := by
    intro bound bound' c c' b missed h
    obtain ⟨a, c₁, bound₁, hrun, h⟩ := hp.done_of_bind h
    obtain ⟨-, w, r, hrest, rfl, hsame⟩ := hp.done hrun
    obtain ⟨rfl, w₂, r₂, hrest₂, rfl, hsame₂⟩ := (hf a).done h
    dsimp only at hrest₂ hsame₂
    refine ⟨rfl, w ++ w₂, r₂, by rw [hrest, hrest₂, List.append_assoc], ?_, fun r' hr' ↦ ?_⟩
    · rw [List.length_append, Nat.add_assoc]
    · -- The first step sees the second one's text, or what follows if that is empty.
      have hhead : (w₂ ++ r').head? = r.head? := by
        rw [hrest₂, head?_append_congr w₂ hr']
      rw [List.append_assoc, bind_of_done (hsame _ hhead), hsame₂ r' hr', List.length_append,
        Nat.add_assoc]
  failed := by
    intro bound bound' c blame h
    rcases hrun : p bound c with ⟨_ | _ | _, bound₁⟩
    · obtain ⟨rfl, w, r, hrest, rfl, hsame⟩ := hp.done hrun
      rw [bind_of_done hrun] at h
      obtain ⟨w₂, r₂, hrest₂, hpos, hsame₂⟩ := (hf _).failed h
      dsimp only at hrest₂ hpos hsame₂
      refine ⟨w ++ w₂, r₂, by rw [hrest, hrest₂, List.append_assoc], ?_, fun r' hr' ↦ ?_⟩
      · rw [hpos, List.length_append, Nat.add_assoc]
      · have hhead : (w₂ ++ r').head? = r.head? := by
          rw [hrest₂, head?_append_congr w₂ hr']
        rw [List.append_assoc, bind_of_done (hsame _ hhead), hsame₂ r' hr']
    · rw [bind_of_failed hrun] at h
      cases h
      obtain ⟨w, r, hrest, hpos, hsame⟩ := hp.failed hrun
      exact ⟨w, r, hrest, hpos, fun r' hr' ↦ bind_of_failed (hsame r' hr')⟩
    · rw [bind_of_tooDeep hrun] at h
      cases h

/-- A parser that never answers otherwise than by giving up. -/
theorem tooDeep : Steady (tooDeep : Parser α) where
  done := by
    intro bound bound' c c' a missed h
    cases h
  failed := by
    intro bound bound' c blame h
    cases h

theorem nextIs (classes : List CharClass) : Steady (nextIs classes) where
  done := by
    intro bound bound' c c' a missed h
    cases h
    refine ⟨rfl, [], c.rest, rfl, rfl, fun r' hr' ↦ ?_⟩
    rw [List.nil_append, nextIs_run, hr']
    rfl
  failed := by
    intro bound bound' c blame h
    cases h

theorem take? (k : CharClass) : Steady (take? k) where
  done := by
    rintro bound bound' ⟨i, cs⟩ c' a missed h
    obtain ⟨ch, r, rfl, hk⟩ | hk := matches_cases k cs
    · rw [take?_of_matches hk] at h
      cases h
      exact ⟨rfl, [ch], r, rfl, rfl, fun r' _ ↦ take?_of_matches hk _ _ _⟩
    · rw [take?_of_not_matches hk] at h
      cases h
      exact ⟨rfl, [], cs, rfl, rfl, fun r' hr' ↦ take?_of_not_matches (hr' ▸ hk) _ _⟩
  failed := by
    rintro bound bound' ⟨i, cs⟩ blame h
    obtain ⟨ch, r, rfl, hk⟩ | hk := matches_cases k cs
    · rw [take?_of_matches hk] at h
      cases h
    · rw [take?_of_not_matches hk] at h
      cases h

theorem skip? (k : CharClass) : Steady (skip? k) :=
  (take? k).bind fun _ ↦ pure _

theorem takeAll (k : CharClass) : Steady (takeAll k) where
  done := by
    rintro bound bound' ⟨i, cs⟩ c' a missed h
    obtain ⟨w, r, rfl, hw, hr⟩ := exists_run k cs
    rw [takeAll_append hw hr] at h
    cases h
    exact ⟨rfl, a, r, rfl, rfl, fun r' hr' ↦ takeAll_append hw (hr' ▸ hr) _ _⟩
  failed := by
    intro bound bound' c blame h
    cases h

theorem require (k : CharClass) (rule : String) : Steady (require k rule) where
  done := by
    rintro bound bound' ⟨i, cs⟩ c' a missed h
    obtain ⟨ch, r, rfl, hk⟩ | hk := matches_cases k cs
    · rw [require_of_matches hk] at h
      cases h
      exact ⟨rfl, [a], r, rfl, rfl, fun r' _ ↦ require_of_matches hk _ _ _ _⟩
    · rw [require_of_not_matches hk] at h
      cases h
  failed := by
    rintro bound bound' ⟨i, cs⟩ blame h
    obtain ⟨ch, r, rfl, hk⟩ | hk := matches_cases k cs
    · rw [require_of_matches hk] at h
      cases h
    · rw [require_of_not_matches hk] at h
      cases h
      exact ⟨[], cs, rfl, rfl, fun r' hr' ↦ require_of_not_matches (hr' ▸ hk) _ _ _⟩

theorem requireSkip (k : CharClass) (rule : String) : Steady (requireSkip k rule) :=
  (require k rule).bind fun _ ↦ pure _

theorem requireEnd (rule : String) : Steady (requireEnd rule) where
  done := by
    rintro bound bound' ⟨i, cs⟩ c' a missed h
    cases cs with
    | nil =>
      cases h
      refine ⟨rfl, [], [], rfl, rfl, fun r' hr' ↦ ?_⟩
      rw [List.head?_eq_none_iff.mp hr']
      rfl
    | cons ch r => cases h
  failed := by
    rintro bound bound' ⟨i, cs⟩ blame h
    cases cs with
    | nil => cases h
    | cons ch r =>
      cases h
      refine ⟨[], ch :: r, rfl, rfl, fun r' hr' ↦ ?_⟩
      obtain ⟨r'', rfl⟩ := List.head?_eq_some_iff.mp hr'
      rfl

end Steady

/-! ## Repetition -/

/-- Every round of a repetition takes a character, and at the end of the text there is none. -/
structure Progresses (step : Parser (Option α)) : Prop where
  atEnd : ∀ (bound : Option String) (i : Nat),
    step bound ⟨i, []⟩ = (.done none ⟨i, []⟩ none, bound)
  shortens : ∀ {bound bound' : Option String} {c c' : Cursor} {a : α} {missed : Option Blame},
    step bound c = (.done (some a) c' missed, bound') → c'.rest.length < c.rest.length

/-- A budget of one round for each character that follows is never used up. -/
theorem rounds_eq_rounds {step : Parser (Option α)} (hs : Steady step) (hp : Progresses step)
    {budget budget' : List Char} {c : Cursor} (bound : Option String)
    (h : c.rest.length ≤ budget.length) (h' : c.rest.length ≤ budget'.length) :
    rounds step budget bound c = rounds step budget' bound c := by
  have atEnd : ∀ (budget : List Char) (bound : Option String) (i : Nat),
      rounds step budget bound ⟨i, []⟩ = (.done [] ⟨i, []⟩ none, bound) := by
    intro budget bound i
    cases budget with
    | nil => rfl
    | cons _ budget =>
      rw [rounds, bind_of_done (hp.atEnd bound i)]
      rfl
  induction budget generalizing budget' bound c with
  | nil =>
    obtain ⟨i, cs⟩ := c
    obtain rfl : cs = [] := List.eq_nil_of_length_eq_zero (Nat.le_zero.mp h)
    rw [atEnd, atEnd]
  | cons _ budget ih =>
    cases budget' with
    | nil =>
      obtain ⟨i, cs⟩ := c
      obtain rfl : cs = [] := List.eq_nil_of_length_eq_zero (Nat.le_zero.mp h')
      rw [atEnd, atEnd]
    | cons _ budget' =>
      rw [rounds, rounds]
      rcases hrun : step bound c with ⟨⟨_ | a, c₁, missed⟩ | _ | _, bound₁⟩
      · obtain ⟨rfl, -⟩ := hs.done hrun
        rw [bind_of_done hrun, bind_of_done hrun]
      · obtain ⟨rfl, -⟩ := hs.done hrun
        -- A round uses up one of the budget and at least one character.
        have hlt := hp.shortens hrun
        rw [List.length_cons] at h h'
        have hmore : rounds step budget bound₁ c₁ = rounds step budget' bound₁ c₁ :=
          ih bound₁ (by omega) (by omega)
        rw [bind_of_done hrun, bind_of_done hrun]
        change andThen _ _ _ _ = andThen _ _ _ _
        rw [andThen, andThen, hmore]
      · rw [bind_of_failed hrun, bind_of_failed hrun]
      · rw [bind_of_tooDeep hrun, bind_of_tooDeep hrun]

theorem many_of_none {step : Parser (Option α)} {bound : Option String} {c : Cursor}
    (h : step bound c = (.done none c none, bound)) :
    many step bound c = (.done [] c none, bound) := by
  obtain ⟨i, cs⟩ := c
  cases cs with
  | nil => rfl
  | cons ch cs =>
    rw [many, rounds, bind_of_done h]
    rfl

theorem many_of_some {step : Parser (Option α)} (hs : Steady step) (hp : Progresses step)
    {bound bound₁ : Option String} {c c₁ : Cursor} {a : α}
    (h : step bound c = (.done (some a) c₁ none, bound₁)) :
    many step bound c
      = (do let more ← many step; pure (a :: more) : Parser (List α)) bound₁ c₁ := by
  have hlt := hp.shortens h
  obtain ⟨i, cs⟩ := c
  cases cs with
  | nil => exact absurd hlt (Nat.not_lt_zero _)
  | cons ch cs =>
    rw [many, rounds, bind_of_done h]
    dsimp only at hlt ⊢
    rw [List.length_cons] at hlt
    have hmore : rounds step cs bound₁ c₁ = many step bound₁ c₁ :=
      rounds_eq_rounds hs hp bound₁ (Nat.lt_succ_iff.mp hlt) (Nat.le_refl _)
    rw [bind_run, bind_run, andThen, andThen, hmore]

theorem progresses_take? (k : CharClass) : Progresses (take? k) where
  atEnd bound i := take?_of_not_matches rfl bound i
  shortens := by
    rintro bound bound' ⟨i, cs⟩ c' a missed h
    obtain ⟨ch, r, rfl, hk⟩ | hk := matches_cases k cs
    · rw [take?_of_matches hk] at h
      cases h
      exact Nat.lt_succ_self _
    · rw [take?_of_not_matches hk] at h
      cases h

/-- A run of characters is taken as well by taking one after the other. -/
theorem takeAll_eq_many (k : CharClass) (bound : Option String) (c : Cursor) :
    takeAll k bound c = many (take? k) bound c := by
  obtain ⟨i, cs⟩ := c
  obtain ⟨w, r, rfl, hw, hr⟩ := exists_run k cs
  rw [takeAll_append hw hr]
  induction w generalizing i with
  | nil => exact (many_of_none (take?_of_not_matches hr bound i)).symm
  | cons ch w ih =>
    obtain ⟨hch, hw⟩ := List.forall_mem_cons.mp hw
    have hround : take? k bound ⟨i, ch :: w ++ r⟩ = (.done (some ch) ⟨i + 1, w ++ r⟩ none, bound) :=
      take?_of_matches hch bound i (w ++ r)
    rw [many_of_some (Steady.take? k) (progresses_take? k) hround,
      bind_of_done (ih (i + 1) hw).symm, List.length_cons, Nat.add_right_comm, Nat.add_assoc]
    rfl

theorem many_of_halted {step : Parser (Option α)} {bound bound₁ : Option String} {c : Cursor}
    {o : Option Blame} (hp : Progresses step) (h : step bound c = (.halted o, bound₁)) :
    many step bound c = (.halted o, bound₁) := by
  obtain ⟨i, cs⟩ := c
  cases cs with
  | nil => rw [hp.atEnd] at h; cases o <;> cases h
  | cons ch cs => rw [many, rounds, bind_of_halted h]

/-- A repetition is a round and, if that gave a value, the repetition after it. -/
theorem many_eq {step : Parser (Option α)} (hs : Steady step) (hp : Progresses step)
    (bound : Option String) (c : Cursor) :
    many step bound c
      = (do
          match ← step with
          | none => pure []
          | some a =>
            let more ← many step
            pure (a :: more) : Parser (List α)) bound c := by
  obtain ⟨i, cs⟩ := c
  cases cs with
  | nil =>
    rw [bind_of_done (hp.atEnd bound i)]
    rfl
  | cons ch cs =>
    rcases hrun : step bound ⟨i, ch :: cs⟩ with ⟨⟨_ | a, c₁, missed⟩ | _ | _, bound₁⟩
    · obtain ⟨rfl, -⟩ := hs.done hrun
      rw [many, rounds, bind_of_done hrun, bind_of_done hrun]
    · obtain ⟨rfl, -⟩ := hs.done hrun
      rw [many_of_some hs hp hrun, bind_of_done hrun]
    · rw [many, rounds, bind_of_failed hrun, bind_of_failed hrun]
    · rw [many, rounds, bind_of_tooDeep hrun, bind_of_tooDeep hrun]

/-! A round often takes an operand behind something that announces it. -/

section Operands

variable {step : Parser (Option β)} {p : Parser α} {g : α → β} {bound bound₁ bound₂ : Option String}
  {c c₀ c₁ c₂ : Cursor} {a : α} {rest : List β} {o : Option Blame}

theorem many_of_done (hs : Steady step) (hp : Progresses step)
    (hstep : step bound c = (do let a ← p; pure (some (g a)) : Parser (Option β)) bound c₀)
    (h₁ : p bound c₀ = (.done a c₁ none, bound₁))
    (h₂ : many step bound₁ c₁ = (.done rest c₂ none, bound₂)) :
    many step bound c = (.done (g a :: rest) c₂ none, bound₂) := by
  rw [bind_of_done h₁] at hstep
  rw [many_of_some hs hp hstep, bind_of_done h₂]
  rfl

theorem many_of_halted_operand (hp : Progresses step)
    (hstep : step bound c = (do let a ← p; pure (some (g a)) : Parser (Option β)) bound c₀)
    (h₁ : p bound c₀ = (.halted o, bound₁)) : many step bound c = (.halted o, bound₁) := by
  rw [bind_of_halted h₁] at hstep
  exact many_of_halted hp hstep

theorem many_of_halted_rest (hs : Steady step) (hp : Progresses step)
    (hstep : step bound c = (do let a ← p; pure (some (g a)) : Parser (Option β)) bound c₀)
    (h₁ : p bound c₀ = (.done a c₁ none, bound₁))
    (h₂ : many step bound₁ c₁ = (.halted o, bound₂)) :
    many step bound c = (.halted o, bound₂) := by
  rw [bind_of_done h₁] at hstep
  rw [many_of_some hs hp hstep, bind_of_halted h₂]

end Operands

namespace Steady

theorem rounds {step : Parser (Option α)} (hs : Steady step) (budget : List Char) :
    Steady (rounds step budget) := by
  induction budget with
  | nil => exact pure []
  | cons _ budget ih =>
    refine hs.bind fun a ↦ ?_
    cases a with
    | none => exact pure []
    | some a => exact ih.bind fun more ↦ pure (a :: more)

theorem many {step : Parser (Option α)} (hs : Steady step) (hp : Progresses step) :
    Steady (many step) := by
  -- One budget serves both texts, the longer of their two.
  have common : ∀ (bound : Option String) (i : Nat) (cs budget : List Char),
      cs.length ≤ budget.length →
        Parser.many step bound ⟨i, cs⟩ = Parser.rounds step budget bound ⟨i, cs⟩ :=
    fun bound i cs budget h ↦ rounds_eq_rounds hs hp bound (Nat.le_refl _) h
  constructor
  · rintro bound bound' ⟨i, cs⟩ c' a missed h
    have hown := common bound i cs cs (Nat.le_refl _)
    rw [hown] at h
    obtain ⟨rfl, w, r, hrest, rfl, -⟩ := (hs.rounds cs).done h
    refine ⟨rfl, w, r, hrest, rfl, fun r' hr' ↦ ?_⟩
    dsimp only at hrest
    subst hrest
    have hlong : (w ++ r).length ≤ (w ++ r ++ r').length := by simp
    have hlong' : (w ++ r').length ≤ (w ++ r ++ r').length := by simp
    rw [← hown, common bound i _ _ hlong] at h
    obtain ⟨-, w₂, r₂, hrest₂, hc, hsame⟩ := (hs.rounds _).done h
    obtain ⟨hlen, rfl⟩ : i + w.length = i + w₂.length ∧ r = r₂ := by simpa using hc
    obtain rfl : w = w₂ := List.append_cancel_right hrest₂
    rw [common bound i _ _ hlong', hsame r' hr']
  · rintro bound bound' ⟨i, cs⟩ blame h
    have hown := common bound i cs cs (Nat.le_refl _)
    rw [hown] at h
    obtain ⟨w, r, hrest, hpos, -⟩ := (hs.rounds cs).failed h
    refine ⟨w, r, hrest, hpos, fun r' hr' ↦ ?_⟩
    dsimp only at hrest hpos
    subst hrest
    have hlong : (w ++ r).length ≤ (w ++ r ++ r').length := by simp
    have hlong' : (w ++ r').length ≤ (w ++ r ++ r').length := by simp
    rw [← hown, common bound i _ _ hlong] at h
    obtain ⟨w₂, r₂, hrest₂, hpos₂, hsame⟩ := (hs.rounds _).failed h
    dsimp only at hrest₂ hpos₂
    have hlen : w.length = w₂.length := by omega
    obtain ⟨rfl, rfl⟩ := List.append_inj hrest₂ hlen
    rw [common bound i _ _ hlong', hsame r' hr']

end Steady

/-! ## Taking at least one character -/

/-- A value comes only after at least one character. -/
structure Advances (p : Parser α) : Prop where
  shortens : ∀ {bound bound' : Option String} {c c' : Cursor} {a : α} {missed : Option Blame},
    p bound c = (.done a c' missed, bound') → c'.rest.length < c.rest.length

namespace Advances

theorem tooDeep : Advances (tooDeep : Parser α) where
  shortens := by
    intro bound bound' c c' a missed h
    cases h

theorem require (k : CharClass) (rule : String) : Advances (require k rule) where
  shortens := by
    rintro bound bound' ⟨i, cs⟩ c' a missed h
    obtain ⟨ch, r, rfl, hk⟩ | hk := matches_cases k cs
    · rw [require_of_matches hk] at h
      cases h
      exact Nat.lt_succ_self _
    · rw [require_of_not_matches hk] at h
      cases h

/-- A first step that takes a character is enough. -/
theorem bind {p : Parser α} {f : α → Parser β} (hadv : Advances p) (hp : Steady p)
    (hf : ∀ a, Steady (f a)) : Advances (p >>= f) where
  shortens := by
    intro bound bound' c c' b missed h
    obtain ⟨a, c₁, bound₁, hrun, h⟩ := hp.done_of_bind h
    exact Nat.lt_of_le_of_lt ((hf a).rest_length_le h) (hadv.shortens hrun)

/-- So is a later step. -/
theorem bind_of_forall {p : Parser α} {f : α → Parser β} (hp : Steady p)
    (hf : ∀ a, Advances (f a)) : Advances (p >>= f) where
  shortens := by
    intro bound bound' c c' b missed h
    obtain ⟨a, c₁, bound₁, hrun, h⟩ := hp.done_of_bind h
    exact Nat.lt_of_lt_of_le ((hf a).shortens h) (hp.rest_length_le hrun)

theorem requireSkip (k : CharClass) (rule : String) : Advances (requireSkip k rule) :=
  (require k rule).bind (Steady.require k rule) fun _ ↦ Steady.pure _

end Advances

end Parser

end ExprSampler
