import ExprSampler.Proofs.Grammar.Agreement

/-!
# Reading without a limit

The rules of the grammar call each other, and nothing in them says that this comes to an end. Here
they are written as they stand, without a nesting limit and without a budget for repetitions, as
partial functions whose answer may be missing because reading goes on forever. Each rule is told
how deeply its call is nested, and the deepest call of all is kept along with the place in the text.

Reading under a limit is only a way to have the same by recursion on the limit: wherever the limit
does not cut it short, reading without one comes to the same answer, and no call of it is nested
more deeply than the limit allows. Since the limit that parsing sets itself is never too small,
reading always ends, within a nesting proportional to the text.
-/

namespace ExprSampler

/-! ## Computations that may never end -/

/-- Where reading is, what is known there, and how deeply calls were nested so far. -/
structure Situation where
  bound : Option String
  cursor : Cursor
  /-- What was required in vain on the way. -/
  missed : Option Blame
  deepest : Nat

/-- A reader goes from one situation to another, gives a value or fails, or never ends. -/
abbrev Unlimited (α : Type) : Type := ExceptT Blame (StateT Situation Option) α

namespace Unlimited

variable {α β : Type}

/-- A parser that calls no rules, as a reader. One that gives up has no answer. -/
def lift (p : Parser α) : Unlimited α := fun s ↦
  match p s.bound s.cursor with
  | (.done a c missed, bound) =>
    some (.ok a, { s with bound, cursor := c, missed := Blame.merge s.missed missed })
  | (.failed blame, bound) => some (.error (blame.after s.missed), { s with bound })
  | (.tooDeep, _) => none

/-- A call nested as deeply as given takes place. -/
def reach (depth : Nat) : Unlimited Unit :=
  modify fun s ↦ { s with deepest := max s.deepest depth }

/-! ## The rules -/

/-- A rule is told how deeply its call is nested. -/
abbrev Rule (α : Type) : Type := ReaderT Nat Unlimited α

/-- The characters of the class up to the first that is not in it. -/
def takeAll : ReaderT CharClass Unlimited (List Char) := fun k ↦ do
  match ← lift (Parser.take? k) with
  | none => pure []
  | some c =>
    let more ← takeAll.run k
    pure (c :: more)
partial_fixpoint

/-- One or more digits. -/
def digits : Unlimited (List Char) := do
  let first ← lift (Parser.require .digit "number")
  let more ← takeAll .digit
  pure (first :: more)

/-- The rule for numbers. -/
def number (depth : Nat) : Unlimited Node := do
  reach depth
  let whole ← digits
  if ← lift (Parser.skip? .decimalPoint) then
    let fraction ← digits
    pure (.number (Decimal.ofPlaces whole fraction).toFloat)
  else
    pure (.number (Decimal.ofPlaces whole []).toFloat)

/-- The rule for variables. -/
def letter (depth : Nat) : Unlimited Node := do
  reach depth
  lift Grammar.letterOfVariable

mutual

/-- The rule for sums, called at the given depth. -/
def sum : Rule Node := fun depth ↦ do
  reach depth
  let first ← term.run (depth + 1)
  let rest ← addends.run (depth + 1)
  pure (.sum first rest)
partial_fixpoint

/-- The terms after the first. -/
def addends : Rule (List (AddOp × Node)) := fun depth ↦ do
  match ← addend.run depth with
  | none => pure []
  | some a =>
    let more ← addends.run depth
    pure (a :: more)
partial_fixpoint

/-- One more term and how it joins the sum; nothing where no sign follows. -/
def addend : Rule (Option (AddOp × Node)) := fun depth ↦ do
  if ← lift (Parser.skip? .plus) then
    let t ← term.run depth
    pure (some (.plus, t))
  else if ← lift (Parser.skip? .minus) then
    let t ← term.run depth
    pure (some (.minus, t))
  else
    pure none
partial_fixpoint

/-- The rule for products, called at the given depth. -/
def term : Rule Node := fun depth ↦ do
  reach depth
  let first ← factor.run (depth + 1)
  let rest ← multiplicands.run (depth + 1)
  pure (.product first rest)
partial_fixpoint

/-- The factors after the first. -/
def multiplicands : Rule (List (MulOp × Node)) := fun depth ↦ do
  match ← multiplicand.run depth with
  | none => pure []
  | some f =>
    let more ← multiplicands.run depth
    pure (f :: more)
partial_fixpoint

/-- One more factor and how it joins the product; nothing where neither operation follows. -/
def multiplicand : Rule (Option (MulOp × Node)) := fun depth ↦ do
  if ← lift Grammar.multiplies then
    let f ← factor.run depth
    pure (some (.times, f))
  else if ← lift (Parser.skip? .divide) then
    let f ← factor.run depth
    pure (some (.over, f))
  else
    pure none
partial_fixpoint

/-- The rule for signed operands, called at the given depth. -/
def factor : Rule Node := fun depth ↦ do
  reach depth
  let signs ← takeAll .minus
  let inner ← base.run (depth + 1)
  pure (.signed (signs.length % 2 == 1) inner)
partial_fixpoint

/-- The rule for powers, called at the given depth. -/
def base : Rule Node := fun depth ↦ do
  reach depth
  let operand ← primary.run (depth + 1)
  if ← lift (Parser.skip? .caret) then
    let exponent ← factor.run (depth + 1)
    pure (.power operand (some exponent))
  else
    pure (.power operand none)
partial_fixpoint

/-- The rule for variables, numbers and groups, called at the given depth. -/
def primary : Rule Node := fun depth ↦ do
  reach depth
  if ← lift (Parser.nextIs [.letter]) then
    letter (depth + 1)
  else if ← lift (Parser.nextIs [.digit]) then
    number (depth + 1)
  else
    lift (Parser.requireSkip .openParen "primary")
    let inner ← sum.run (depth + 1)
    lift (Parser.requireSkip .closeParen "primary")
    pure inner
partial_fixpoint

end

/-- A sum that is the whole text. -/
def whole : Unlimited Node := do
  let root ← sum 1
  lift (Parser.requireEnd "expression")
  pure root

/-! ## Running readers -/

section

variable {q : Unlimited α} {g : α → Unlimited β} {s s' : Situation} {a : α} {blame : Blame}

theorem bind_of_ok (h : q s = some (.ok a, s')) : (q >>= g) s = g a s' := by
  change (q s).bind _ = _
  rw [h]
  rfl

theorem bind_of_error (h : q s = some (.error blame, s')) :
    (q >>= g) s = some (.error blame, s') := by
  change (q s).bind _ = _
  rw [h]
  rfl

end

/-- From a situation in which nothing was required in vain, the reader does what the parser does
there unless that gives up, and its calls are nested at most as deeply as given. -/
structure FollowsAt (limit : Nat) (p : Parser α) (q : Unlimited α) (bound : Option String)
    (c : Cursor) : Prop where
  done : ∀ {bound' : Option String} {c' : Cursor} {a : α} {deepest : Nat},
    p bound c = (.done a c' none, bound') → deepest ≤ limit →
      ∃ deepest' ≤ limit,
        q ⟨bound, c, none, deepest⟩ = some (.ok a, ⟨bound', c', none, deepest'⟩)
  failed : ∀ {bound' : Option String} {blame : Blame} {deepest : Nat},
    p bound c = (.failed blame, bound') → deepest ≤ limit →
      ∃ c' missed, ∃ deepest' ≤ limit,
        q ⟨bound, c, none, deepest⟩ = some (.error blame, ⟨bound', c', missed, deepest'⟩)

/-- The reader does what the parser does, wherever reading is. -/
def Follows (limit : Nat) (p : Parser α) (q : Unlimited α) : Prop :=
  ∀ (bound : Option String) (c : Cursor), FollowsAt limit p q bound c

section

variable {limit : Nat} {p p' : Parser α} {q q' : Unlimited α} {f : α → Parser β}
  {g : α → Unlimited β} {bound : Option String} {c : Cursor}

theorem FollowsAt.congr (hp : p bound c = p' bound c) (h : FollowsAt limit p' q bound c) :
    FollowsAt limit p q bound c where
  done hrun := h.done (hp.symm.trans hrun)
  failed hrun := h.failed (hp.symm.trans hrun)

theorem FollowsAt.bind (hp : Parser.Steady p) (h : FollowsAt limit p q bound c)
    (hf : ∀ {a c₁ bound₁}, p bound c = (.done a c₁ none, bound₁) →
      FollowsAt limit (f a) (g a) bound₁ c₁) :
    FollowsAt limit (p >>= f) (q >>= g) bound c where
  done := by
    intro bound' c' b deepest hrun hdeepest
    obtain ⟨a, c₁, bound₁, hfirst, hrest⟩ := hp.done_of_bind hrun
    obtain ⟨deepest₁, hdeepest₁, hq⟩ := h.done hfirst hdeepest
    rw [bind_of_ok hq]
    exact (hf hfirst).done hrest hdeepest₁
  failed := by
    intro bound' blame deepest hrun hdeepest
    rcases hfirst : p bound c with ⟨⟨a, c₁, missed⟩ | blame₁ | _, bound₁⟩
    · obtain ⟨rfl, -⟩ := hp.done hfirst
      rw [Parser.bind_of_done hfirst] at hrun
      obtain ⟨deepest₁, hdeepest₁, hq⟩ := h.done hfirst hdeepest
      rw [bind_of_ok hq]
      exact (hf hfirst).failed hrun hdeepest₁
    · rw [Parser.bind_of_failed hfirst] at hrun
      cases hrun
      obtain ⟨c', missed, deepest₁, hdeepest₁, hq⟩ := h.failed hfirst hdeepest
      exact ⟨c', missed, deepest₁, hdeepest₁, bind_of_error hq⟩
    · rw [Parser.bind_of_tooDeep hfirst] at hrun
      cases hrun

namespace Follows

theorem bind (hp : Parser.Steady p) (h : Follows limit p q)
    (hf : ∀ a, Follows limit (f a) (g a)) : Follows limit (p >>= f) (q >>= g) := fun bound c ↦
  (h bound c).bind hp fun _ ↦ hf _ _ _

/-- A parser that gives up is followed by anything. -/
theorem tooDeep (q : Unlimited α) : Follows limit Parser.tooDeep q := fun _ _ ↦ ⟨nofun, nofun⟩

theorem pure (a : α) : Follows limit (pure a) (pure a) := fun bound c ↦ by
  refine ⟨fun hrun hdeepest ↦ ?_, nofun⟩
  cases hrun
  exact ⟨_, hdeepest, rfl⟩

theorem lift (p : Parser α) : Follows limit p (lift p) := fun bound c ↦ by
  refine ⟨fun hrun hdeepest ↦ ⟨_, hdeepest, ?_⟩, fun hrun hdeepest ↦ ⟨c, none, _, hdeepest, ?_⟩⟩
  · rw [Unlimited.lift, hrun]
    rfl
  · rw [Unlimited.lift, hrun]
    rfl

/-- A call is within the limit if its depth is. -/
theorem reach {depth : Nat} (hdepth : depth ≤ limit) (h : Follows limit p q) :
    Follows limit p (do reach depth; q) := fun bound c ↦
  ⟨fun hrun hdeepest ↦ (h bound c).done hrun (Nat.max_le.mpr ⟨hdeepest, hdepth⟩),
    fun hrun hdeepest ↦ (h bound c).failed hrun (Nat.max_le.mpr ⟨hdeepest, hdepth⟩)⟩

theorem ite {b : Bool} (h : Follows limit p q) (h' : Follows limit p' q') :
    Follows limit (if b then p else p') (if b then q else q') := by
  cases b
  · exact h'
  · exact h

/-- A repetition that asks for one round after the other needs no budget. -/
theorem many {step : Parser (Option α)} {step' : Unlimited (Option α)} {loop : Unlimited (List α)}
    {next : Option α → Unlimited (List α)} (hs : Parser.Steady step) (hp : Parser.Progresses step)
    (h : Follows limit step step') (hloop : loop = step' >>= next)
    (hnone : next none = Pure.pure [])
    (hsome : ∀ a, next (some a) = loop >>= fun more ↦ Pure.pure (a :: more)) :
    Follows limit (Parser.many step) loop := by
  intro bound c
  -- The rounds before the last take characters, so they come to an end with the text.
  induction hlength : c.rest.length using Nat.strongRecOn generalizing bound c with
  | ind n ih =>
    subst hlength
    rw [hloop]
    refine .congr (Parser.many_eq hs hp bound c) ((h bound c).bind hs fun {a c₁ bound₁} hround ↦ ?_)
    cases a with
    | none =>
      rw [hnone]
      exact pure [] bound₁ c₁
    | some a =>
      rw [hsome]
      have hmore := ih c₁.rest.length (hp.shortens hround) bound₁ c₁ rfl
      exact hmore.bind (hs.many hp) fun _ ↦ pure _ _ _

theorem takeAll (k : CharClass) : Follows limit (Parser.takeAll k) (takeAll k) := by
  have hmany : Follows limit (Parser.many (Parser.take? k)) (Unlimited.takeAll k) :=
    many (Parser.Steady.take? k) (Parser.progresses_take? k) (lift _)
      (Unlimited.takeAll.eq_1 k) rfl fun _ ↦ rfl
  exact fun bound c ↦ (hmany bound c).congr (Parser.takeAll_eq_many k bound c)

end Follows

end

/-! ## Following the rules -/

section

variable {limit : Nat}

theorem follows_digits : Follows limit Grammar.digits digits :=
  (Follows.lift _).bind (Parser.Steady.require _ _) fun _ ↦
    (Follows.takeAll _).bind (Parser.Steady.takeAll _) fun _ ↦ Follows.pure _

theorem follows_numeral {depth : Nat} (h : depth ≤ limit) :
    Follows limit Grammar.numeral (number depth) :=
  .reach h <| follows_digits.bind Grammar.steady_digits fun _ ↦
    (Follows.lift _).bind (Parser.Steady.skip? _) fun _ ↦
      (follows_digits.bind Grammar.steady_digits fun _ ↦ Follows.pure _).ite (Follows.pure _)

theorem follows_letterOfVariable {depth : Nat} (h : depth ≤ limit) :
    Follows limit Grammar.letterOfVariable (letter depth) :=
  .reach h (Follows.lift _)

/-- A rule without rules inside it needs one call. -/
theorem follows_leaf {p : Parser Node} {q : Unlimited Node} {n depth : Nat}
    (h : depth ≤ limit → Follows limit p q) (hdepth : depth + n = limit + 1) :
    Follows limit (Grammar.leaf p n) q := by
  match n with
  | 0 => exact Follows.tooDeep q
  | n + 1 => exact h (by omega)

theorem follows_addends {p : Parser Node} {depth : Nat} (hp : Parser.Steady p)
    (h : Follows limit p (term depth)) :
    Follows limit (Parser.many (Grammar.addend p)) (addends depth) := by
  have hround : Follows limit (Grammar.addend p) (addend depth) := by
    rw [addend]
    exact (Follows.lift _).bind (Parser.Steady.skip? _) fun _ ↦
      (h.bind hp fun _ ↦ Follows.pure _).ite <|
        (Follows.lift _).bind (Parser.Steady.skip? _) fun _ ↦
          (h.bind hp fun _ ↦ Follows.pure _).ite (Follows.pure _)
  exact .many (Grammar.steady_addend hp) (Grammar.progresses_addend hp) hround
    (addends.eq_1 depth) rfl fun _ ↦ rfl

theorem follows_multiplicands {p : Parser Node} {depth : Nat} (hp : Parser.Steady p)
    (hadv : Parser.Advances p) (h : Follows limit p (factor depth)) :
    Follows limit (Parser.many (Grammar.multiplicand p)) (multiplicands depth) := by
  have hround : Follows limit (Grammar.multiplicand p) (multiplicand depth) := by
    rw [multiplicand]
    exact (Follows.lift _).bind Grammar.steady_multiplies fun _ ↦
      (h.bind hp fun _ ↦ Follows.pure _).ite <|
        (Follows.lift _).bind (Parser.Steady.skip? _) fun _ ↦
          (h.bind hp fun _ ↦ Follows.pure _).ite (Follows.pure _)
  exact .many (Grammar.steady_multiplicand hp) (Grammar.progresses_multiplicand hp hadv) hround
    (multiplicands.eq_1 depth) rfl fun _ ↦ rfl

/-- The rules called at a depth follow the rules under the limit that is left at that depth. -/
structure FollowedRules (limit n : Nat) : Prop where
  sum : ∀ depth, depth + n = limit + 1 → Follows limit (Grammar.sum n) (sum depth)
  term : ∀ depth, depth + n = limit + 1 → Follows limit (Grammar.term n) (term depth)
  factor : ∀ depth, depth + n = limit + 1 → Follows limit (Grammar.factor n) (factor depth)
  base : ∀ depth, depth + n = limit + 1 → Follows limit (Grammar.base n) (base depth)
  primary : ∀ depth, depth + n = limit + 1 → Follows limit (Grammar.primary n) (primary depth)

theorem followedRules (limit n : Nat) : FollowedRules limit n := by
  induction n with
  | zero => constructor <;> exact fun _ _ ↦ Follows.tooDeep _
  | succ n ih =>
    have hsteady := Grammar.steadyRules n
    have hwithin {depth : Nat} (h : depth + (n + 1) = limit + 1) :
        depth ≤ limit ∧ depth + 1 + n = limit + 1 := by omega
    constructor
    · intro depth h
      obtain ⟨hle, hinner⟩ := hwithin h
      rw [sum]
      exact .reach hle <| (ih.term _ hinner).bind hsteady.term fun first ↦
        (follows_addends hsteady.term (ih.term _ hinner)).bind
          (Grammar.steady_rule .addends n) fun rest ↦ Follows.pure _
    · intro depth h
      obtain ⟨hle, hinner⟩ := hwithin h
      rw [term]
      exact .reach hle <| (ih.factor _ hinner).bind hsteady.factor.1 fun first ↦
        (follows_multiplicands hsteady.factor.1 hsteady.factor.2 (ih.factor _ hinner)).bind
          (Grammar.steady_rule .multiplicands n) fun rest ↦ Follows.pure _
    · intro depth h
      obtain ⟨hle, hinner⟩ := hwithin h
      rw [factor]
      exact .reach hle <| (Follows.takeAll _).bind (Parser.Steady.takeAll _) fun signs ↦
        (ih.base _ hinner).bind hsteady.base.1 fun inner ↦ Follows.pure _
    · intro depth h
      obtain ⟨hle, hinner⟩ := hwithin h
      rw [base]
      exact .reach hle <| (ih.primary _ hinner).bind hsteady.primary.1 fun operand ↦
        (Follows.lift _).bind (Parser.Steady.skip? _) fun caret ↦
          ((ih.factor _ hinner).bind hsteady.factor.1 fun exponent ↦ Follows.pure _).ite
            (Follows.pure _)
    · intro depth h
      obtain ⟨hle, hinner⟩ := hwithin h
      rw [primary]
      exact .reach hle <| (Follows.lift _).bind (Parser.Steady.nextIs _) fun isLetter ↦
        (follows_leaf follows_letterOfVariable hinner).ite <|
          (Follows.lift _).bind (Parser.Steady.nextIs _) fun isDigit ↦
            (follows_leaf follows_numeral hinner).ite <|
              (Follows.lift _).bind (Parser.Steady.requireSkip _ _) fun _ ↦
                (ih.sum _ hinner).bind hsteady.sum fun inner ↦
                  (Follows.lift _).bind (Parser.Steady.requireSkip _ _) fun _ ↦ Follows.pure _

/-- Whole texts are read without a limit as they are under one. -/
theorem follows_whole (limit : Nat) : Follows limit (Grammar.whole limit) whole :=
  ((followedRules limit limit).sum 1 (Nat.add_comm 1 limit)).bind
    (Grammar.steadyRules limit).sum fun _ ↦
      (Follows.lift _).bind (Parser.Steady.requireEnd _) fun _ ↦ Follows.pure _

end

end Unlimited

/-! ## Texts -/

/-- What reading a text without a limit comes to: the tree and the name bound to the variable, and
how deeply the calls were nested. There is nothing if reading never ends. -/
def parseUnlimited (bound : Option String) (text : String) :
    Option ((Except ParseError Node × Option String) × Nat) :=
  match Unlimited.whole ⟨bound, Cursor.seek text.toList 0, none, 0⟩ with
  | some (.ok root, s) => some ((.ok root, s.bound), s.deepest)
  | some (.error blame, s) => some ((.error (.ofBlame text blame), s.bound), s.deepest)
  | none => none

/-- Reading ends, as it does under a limit that is not too small. -/
theorem exists_parseUnlimited (bound : Option String) (text : String) {limit : Nat}
    (h : Grammar.nestingBound text.toList ≤ limit) :
    ∃ deepest ≤ limit,
      parseUnlimited bound text = some (parseWithin limit bound text, deepest) := by
  have hfollows := Unlimited.follows_whole limit bound ⟨0, text.toList⟩
  have hstart : Cursor.seek text.toList 0 = ⟨0, text.toList⟩ := rfl
  rw [parseUnlimited, parseWithin, hstart]
  obtain ⟨d, -, -, -, hrun⟩ | ⟨blame, name, -, hrun⟩ := Grammar.whole_cases bound h
  · obtain ⟨deepest, hdeepest, hwhole⟩ := hfollows.done hrun (Nat.zero_le limit)
    exact ⟨deepest, hdeepest, by rw [hwhole, hrun]⟩
  · obtain ⟨c, missed, deepest, hdeepest, hwhole⟩ := hfollows.failed hrun (Nat.zero_le limit)
    exact ⟨deepest, hdeepest, by rw [hwhole, hrun]⟩

/-- No character opens a group and raises to a power at once. -/
theorem nestingBound_le (cs : List Char) : Grammar.nestingBound cs ≤ 5 * cs.length + 6 := by
  rw [Grammar.nestingBound]
  induction cs with
  | nil => exact Nat.le_refl _
  | cons c cs ih =>
    rw [List.count_cons, List.count_cons, List.length_cons]
    by_cases hgroup : c = '('
    · subst hgroup
      have hcaret : ('(' == '^') = false := rfl
      rw [beq_self_eq_true, if_pos rfl, hcaret, if_neg Bool.false_ne_true]
      omega
    · rw [if_neg (by simpa using hgroup)]
      split <;> omega

/-- **Reading always ends, within a nesting proportional to the text.** Without any limit every text
is read to an answer, whatever name is bound before, and the calls of rules nest no more deeply than
five for each group, two for each exponent and six more. A limit of that much, or of more, changes
neither the tree or the error nor the name that is bound then. -/
theorem parseUnlimited_ends (bound : Option String) (text : String) :
    ∃ deepest,
      deepest ≤ 5 * text.toList.count '(' + 2 * text.toList.count '^' + 6 ∧
      5 * text.toList.count '(' + 2 * text.toList.count '^' + 6 ≤ 5 * text.length + 6 ∧
      ∀ more, parseUnlimited bound text
        = some (parseWithin (5 * text.toList.count '(' + 2 * text.toList.count '^' + 6 + more)
            bound text, deepest) := by
  obtain ⟨deepest, hdeepest, hrun⟩ :=
    exists_parseUnlimited bound text (Nat.le_refl (Grammar.nestingBound text.toList))
  refine ⟨deepest, hdeepest, ?_, fun more ↦ ?_⟩
  · exact String.length_toList ▸ nestingBound_le text.toList
  · -- A larger limit gives some nesting too, and reading without a limit has only one.
    obtain ⟨deepest', -, hrun'⟩ := exists_parseUnlimited bound text
      (Nat.le_add_right (Grammar.nestingBound text.toList) more)
    rw [hrun'] at hrun
    obtain ⟨-, rfl⟩ := Prod.mk.inj (Option.some.inj hrun)
    exact hrun'

end ExprSampler
