import ExprSampler.Proofs.Grammar.Agreement

/-!
# Reading several texts in one variable

Texts that are read one after the other may share the name of their variable. The first letter that
is read binds it, be the text accepted or not: a rejected text has been read up to the place of its
error, and what was bound on the way stays bound. From then on the name is fixed, so whatever texts
a session accepts, they are all in one variable.
-/

namespace ExprSampler

namespace Grammar

/-! ## One text -/

/-- One text of a session: the names bound before and after it, and what reading it gave. -/
structure Reading where
  before : Option String
  text : String
  result : Except ParseError Node
  after : Option String

namespace Reading

/-- Reads a text where a name may be bound already. -/
def ofText (bound : Option String) (text : String) : Reading :=
  ⟨bound, text, (parseTree bound text).1, (parseTree bound text).2⟩

/-- The text was accepted. -/
def Accepted (r : Reading) : Prop :=
  ∃ root : Node, r.result = .ok root

/-- How far the text was read: to its end, or to the place of the error. -/
def reach (r : Reading) : Int :=
  match r.result with
  | .ok _ => r.text.length
  | .error e => e.position

/-- What was read of the text. -/
def consumed (r : Reading) : List Char :=
  r.text.toList.take r.reach.toNat

end Reading

theorem position_ofBlame (text : String) (blame : Blame) :
    (ParseError.ofBlame text blame).position = blame.position := by
  rw [ParseError.ofBlame, ParseError.ofRequirements]
  split <;> rfl

/-- A rejected text was uniform up to its error, and what was bound there is bound after it. -/
theorem Rejected.uniform_take {bound name : Option String} {cs : List Char} {blame : Blame}
    (h : Rejected bound cs blame name) :
    blame.position ≤ cs.length ∧ Uniform bound (cs.take blame.position) ∧
      name = nameAfter bound (cs.take blame.position) := by
  cases h with
  | @awaited w rest k rule htext uniform awaits hk =>
    subst htext
    rw [List.take_left' rfl]
    exact ⟨by simp, uniform, rfl⟩
  | @trailing d rest htext hrest proper uniform =>
    subst htext
    rw [List.take_left' rfl]
    exact ⟨by simp, uniform, rfl⟩

variable {bound : Option String} {text : String}

/-- What is read of a text lies within it and is uniform, and binds the name that is bound after
it. -/
theorem ofText_spec (bound : Option String) (text : String) :
    0 ≤ (Reading.ofText bound text).reach ∧ (Reading.ofText bound text).reach ≤ text.length ∧
      Uniform bound (Reading.ofText bound text).consumed ∧
      (Reading.ofText bound text).after = nameAfter bound (Reading.ofText bound text).consumed := by
  obtain ⟨d, -, -, uniform, hrun⟩ | ⟨blame, name, hrejected, hrun⟩ := parseTree_cases bound text
  · have hreach : (Reading.ofText bound text).reach = text.length := by
      rw [Reading.reach, Reading.ofText, hrun]
    have hconsumed : (Reading.ofText bound text).consumed = text.toList := by
      rw [Reading.consumed, hreach, Int.toNat_natCast]
      exact List.take_length
    rw [hconsumed, hreach]
    refine ⟨Int.natCast_nonneg _, Int.le_refl _, uniform, ?_⟩
    rw [Reading.ofText, hrun]
  · have hreach : (Reading.ofText bound text).reach = blame.position := by
      rw [Reading.reach, Reading.ofText, hrun]
      exact position_ofBlame text blame
    have hconsumed : (Reading.ofText bound text).consumed = text.toList.take blame.position := by
      rw [Reading.consumed, hreach, Int.toNat_natCast]
      rfl
    obtain ⟨hle, huniform, hname⟩ := hrejected.uniform_take
    rw [hconsumed, hreach]
    refine ⟨Int.natCast_nonneg _, Int.ofNat_le.mpr hle, huniform, ?_⟩
    rw [← hname, Reading.ofText, hrun]

/-! ## Sessions -/

/-- Reads texts one after the other; what one of them binds is bound for the next. -/
def session (bound : Option String) : List String → List Reading
  | [] => []
  | text :: texts =>
    let r := Reading.ofText bound text
    r :: session r.after texts

theorem exists_ofText_of_mem {r : Reading} {texts : List String} (h : r ∈ session bound texts) :
    r = Reading.ofText r.before r.text := by
  induction texts generalizing bound with
  | nil => exact absurd h List.not_mem_nil
  | cons text texts ih =>
    rcases List.mem_cons.mp h with rfl | h
    · rfl
    · exact ih h

theorem session_of_bound {name : String} {r : Reading} {texts : List String}
    (h : r ∈ session (some name) texts) : r.before = some name ∧ r.after = some name := by
  induction texts with
  | nil => exact absurd h List.not_mem_nil
  | cons text texts ih =>
    have hafter : (Reading.ofText (some name) text).after = some name := by
      obtain ⟨-, -, -, hname⟩ := ofText_spec (some name) text
      rw [hname, nameAfter_some]
    rcases List.mem_cons.mp h with rfl | h
    · exact ⟨rfl, hafter⟩
    · rw [hafter] at h
      exact ih h

/-- A name that is bound stays bound. -/
theorem pairwise_session (bound : Option String) (texts : List String) :
    (session bound texts).Pairwise fun r r' ↦
      ∀ name : String, r.after = some name → r'.before = some name ∧ r'.after = some name := by
  induction texts generalizing bound with
  | nil => exact List.Pairwise.nil
  | cons text texts ih =>
    refine List.pairwise_cons.mpr ⟨fun r' hr' name hname ↦ ?_, ih _⟩
    rw [hname] at hr'
    exact session_of_bound hr'

/-- Whatever is bound in the course of a session, it is one name. -/
theorem exists_name_of_session (bound : Option String) (texts : List String) :
    ∃ v : Option String, ∀ r ∈ session bound texts, ∀ name : String, r.after = some name →
      v = some name := by
  induction texts generalizing bound with
  | nil => exact ⟨none, fun r hr ↦ absurd hr List.not_mem_nil⟩
  | cons text texts ih =>
    cases hafter : (Reading.ofText bound text).after with
    | some name =>
      refine ⟨some name, fun r hr name' hname' ↦ ?_⟩
      rcases List.mem_cons.mp hr with rfl | hr
      · exact hafter.symm.trans hname'
      · rw [hafter] at hr
        exact (session_of_bound hr).2.symm.trans hname'
    | none =>
      obtain ⟨v, hv⟩ := ih none
      refine ⟨v, fun r hr name hname ↦ ?_⟩
      rcases List.mem_cons.mp hr with rfl | hr
      · rw [hafter] at hname
        cases hname
      · rw [hafter] at hr
        exact hv r hr name hname

/-- The letters of an accepted text are all the name that is bound after it. -/
theorem after_of_accepted {r : Reading} {texts : List String} (h : r ∈ session bound texts)
    (haccepted : r.Accepted) {c : Char} (hc : c ∈ r.text.toList) (halpha : c.isAlpha = true) :
    r.after = some (String.singleton c) := by
  obtain ⟨root, hroot⟩ := haccepted
  have hconsumed : r.consumed = r.text.toList := by
    rw [Reading.consumed, Reading.reach, hroot]
    exact List.take_length
  obtain ⟨-, -, huniform, hname⟩ := ofText_spec r.before r.text
  rw [← exists_ofText_of_mem h, hconsumed] at huniform hname
  rw [hname]
  exact huniform c hc halpha

/-- **A session is in one variable.** Every text of it is read up to a place within it; if no name
is bound before, the first letter read is bound after it, and a name that is bound stays bound, in
this text and in all later ones. All letters that are read are the name bound after them, so no two
accepted texts, nor two places of one, hold different letters. -/
theorem session_binds_once (bound : Option String) (texts : List String) :
    (∀ r ∈ session bound texts, (0 ≤ r.reach ∧ r.reach ≤ r.text.length) ∧
      (∀ name : String, r.before = some name → r.after = some name) ∧
      (r.before = none → r.after = (r.consumed.find? Char.isAlpha).map String.singleton) ∧
      ∀ c ∈ r.consumed, c.isAlpha = true → r.after = some (String.singleton c)) ∧
    ((session bound texts).Pairwise fun r r' ↦
      ∀ name : String, r.after = some name → r'.before = some name ∧ r'.after = some name) ∧
    ∀ r ∈ session bound texts, ∀ r' ∈ session bound texts, r.Accepted → r'.Accepted →
      ∀ c ∈ r.text.toList, ∀ c' ∈ r'.text.toList,
        c.isAlpha = true → c'.isAlpha = true → c = c' := by
  refine ⟨fun r hr ↦ ?_, pairwise_session bound texts, ?_⟩
  · obtain ⟨hnonneg, hle, huniform, hname⟩ := ofText_spec r.before r.text
    rw [← exists_ofText_of_mem hr] at hnonneg hle huniform hname
    refine ⟨⟨hnonneg, hle⟩, fun name hbefore ↦ ?_, fun hbefore ↦ ?_, fun c hc halpha ↦ ?_⟩
    · rw [hname, hbefore, nameAfter_some]
    · rw [hname, hbefore]
      rfl
    · rw [hname]
      exact huniform c hc halpha
  · intro r hr r' hr' haccepted haccepted' c hc c' hc' halpha halpha'
    obtain ⟨v, hv⟩ := exists_name_of_session bound texts
    have hname := hv r hr _ (after_of_accepted hr haccepted hc halpha)
    have hname' := hv r' hr' _ (after_of_accepted hr' haccepted' hc' halpha')
    exact singleton_inj (Option.some.inj (hname.symm.trans hname'))

/-- The letter of a text that fails behind it is bound for the texts that follow. -/
theorem session_binds_once_of_unfinished_power :
    ∃ r r' r'' : Reading, session none ["3q^", "2+r", "q+q"] = [r, r', r''] ∧
      r.reach = 3 ∧ r'.reach = 2 ∧ r''.Accepted ∧ r.after = some "q" ∧ r'.before = some "q" ∧
      r'.after = some "q" ∧ r''.before = some "q" ∧ r''.after = some "q" := by
  have hsession : session none ["3q^", "2+r", "q+q"]
      = [.ofText none "3q^", .ofText (some "q") "2+r", .ofText (some "q") "q+q"] := rfl
  have hreach : (Reading.ofText none "3q^").reach = 3 := by decide +kernel
  have hreach' : (Reading.ofText (some "q") "2+r").reach = 2 := by decide +kernel
  obtain ⟨-, hpairs, -⟩ := session_binds_once none ["3q^", "2+r", "q+q"]
  rw [hsession] at hpairs ⊢
  obtain ⟨hfirst, -⟩ := List.pairwise_cons.mp hpairs
  obtain ⟨hbefore, hafter⟩ := hfirst _ List.mem_cons_self "q" rfl
  obtain ⟨hbefore', hafter'⟩ := hfirst _ (List.mem_cons_of_mem _ List.mem_cons_self) "q" rfl
  exact ⟨_, _, _, rfl, hreach, hreach', ⟨_, rfl⟩, rfl, hbefore, hafter, hbefore', hafter'⟩

end Grammar

end ExprSampler
