import ExprSampler.Proofs.Grammar.Limits
import ExprSampler.Proofs.Grammar.Outcome

/-!
# The parser and the grammar agree

A whole text is accepted exactly if it has a proper derivation and its letters are all the one name
that may be bound; the tree is that of the derivation, of which there is only one. Otherwise the
text is rejected, either where a character is awaited or where a complete sum is followed by more.
The nesting limit that parsing sets itself is never too small.
-/

namespace ExprSampler

namespace Grammar

open ExprSampler.Parser

/-! ## Whole texts -/

/-- A text is rejected with a record of why, and with a name bound where it is rejected. -/
inductive Rejected (bound : Option String) (cs : List Char) : Blame → Option String → Prop
  /-- A character is awaited that is not there. -/
  | awaited {w rest : List Char} {k : CharClass} {rule : String} (htext : cs = w ++ rest)
      (uniform : Uniform bound w) (awaits : Awaits .sum bound w k rule)
      (hk : k.matchesNext rest.head? = false) :
      Rejected bound cs ⟨w.length, [.token k.description rule]⟩ (nameAfter bound w)
  /-- More follows behind a complete sum. -/
  | trailing {d : Derivation .sum} {rest : List Char} (htext : cs = d.text ++ rest)
      (hrest : rest ≠ []) (proper : d.Proper) (uniform : Uniform bound d.text) :
      Rejected bound cs ⟨d.text.length, [.token endOfInput "expression"]⟩ (nameAfter bound d.text)

section

variable {n : Nat} {bound name : Option String} {root : Node} {c : Cursor} {i : Nat}

theorem whole_of_done
    (h : Grammar.sum n bound c = (.done root ⟨i, []⟩ none, name)) :
    whole n bound c = (.done root ⟨i, []⟩ none, name) := by
  rw [whole, bind_of_done h]
  rfl

theorem whole_of_halted {o : Option Blame} (h : Grammar.sum n bound c = (.halted o, name)) :
    whole n bound c = (.halted o, name) := by
  rw [whole, bind_of_halted h]

theorem whole_of_trailing {ch : Char} {r : List Char}
    (h : Grammar.sum n bound c = (.done root ⟨i, ch :: r⟩ none, name)) :
    whole n bound c = (.failed ⟨i, [.token endOfInput "expression"]⟩, name) := by
  rw [whole, bind_of_done h]
  rfl

theorem whole_of_derivation {d : Derivation .sum} (proper : d.Proper)
    (uniform : Uniform bound d.text) (hn : Symbol.sum.need d.text ≤ n) :
    whole n bound ⟨0, d.text⟩
      = (.done d.tree ⟨d.text.length, []⟩ none, nameAfter bound d.text) := by
  have hreads := d.reads (i := 0) proper hn uniform (stops_nil _)
  rw [Derivation.Reads, List.append_nil, Nat.zero_add] at hreads
  exact whole_of_done hreads

/-- Under a limit that is not too small, a text is derived or rejected. -/
theorem whole_cases (bound : Option String) {cs : List Char} (hn : Symbol.sum.need cs ≤ n) :
    (∃ d : Derivation .sum, d.Proper ∧ d.text = cs ∧ Uniform bound cs ∧
        whole n bound ⟨0, cs⟩ = (.done d.tree ⟨cs.length, []⟩ none, nameAfter bound cs))
      ∨ ∃ blame name, Rejected bound cs blame name ∧
        whole n bound ⟨0, cs⟩ = (.failed blame, name) := by
  rcases settled .sum n bound 0 cs with ⟨d, rest, rfl, proper, uniform, run⟩ | ⟨o, name, hh, run⟩
  · rw [Derivation.Reads, Nat.zero_add] at run
    cases rest with
    | nil =>
      rw [List.append_nil] at run ⊢
      exact .inl ⟨d, proper, rfl, uniform, whole_of_done run⟩
    | cons ch r =>
      exact .inr ⟨_, _, .trailing rfl (List.cons_ne_nil ch r) proper uniform,
        whole_of_trailing run⟩
  · cases hh with
    | @refused w rest k rule htext uniform awaits hk =>
      rw [Nat.zero_add] at run
      exact .inr ⟨_, _, .awaited htext uniform awaits hk, whole_of_halted run⟩
    | tooDeep h => exact absurd hn (Nat.not_le_of_lt h)

/-- All limits that are not too small give the same answer. -/
theorem whole_eq_of_need_le {m : Nat} (bound : Option String) {cs : List Char}
    (hn : Symbol.sum.need cs ≤ n) (hm : Symbol.sum.need cs ≤ m) :
    whole n bound ⟨0, cs⟩ = whole m bound ⟨0, cs⟩ := by
  have hsettled : ∀ {k : Nat}, Symbol.sum.need cs ≤ k → (whole k bound ⟨0, cs⟩).1 ≠ .tooDeep := by
    intro k hk
    obtain ⟨d, -, -, -, hrun⟩ | ⟨blame, name, -, hrun⟩ := whole_cases bound hk
    · rw [hrun]
      exact fun h ↦ nomatch h
    · rw [hrun]
      exact fun h ↦ nomatch h
  -- Both are the answer under the larger of the two limits.
  have hmax := refines_whole (Nat.le_max_left n m) bound ⟨0, cs⟩ (hsettled hn)
  rw [← hmax]
  exact refines_whole (Nat.le_max_right n m) bound ⟨0, cs⟩ (hsettled hm)

/-- A failure under some limit is the failure under every limit that is not too small. -/
theorem whole_of_failed {m : Nat} {cs : List Char} {blame : Blame}
    (h : whole n bound ⟨0, cs⟩ = (.failed blame, name)) (hm : Symbol.sum.need cs ≤ m) :
    whole m bound ⟨0, cs⟩ = (.failed blame, name) := by
  have hsettled : (whole n bound ⟨0, cs⟩).1 ≠ .tooDeep := by
    rw [h]
    exact fun h ↦ nomatch h
  rw [whole_eq_of_need_le bound hm (Nat.le_trans hm (Nat.le_max_right n m))]
  exact (refines_whole (Nat.le_max_left n m) bound ⟨0, cs⟩ hsettled).trans h

end

/-! ## Texts with a name that may be bound -/

theorem parseTree_of_derivation {bound : Option String} {text : String} {d : Derivation .sum}
    (proper : d.Proper) (htext : d.text = text.toList) (uniform : Uniform bound text.toList) :
    parseTree bound text = (.ok d.tree, nameAfter bound text.toList) := by
  have hrun : whole (nestingBound text.toList) bound (.seek text.toList 0)
      = (.done d.tree ⟨text.toList.length, []⟩ none, nameAfter bound text.toList) := by
    rw [← htext] at uniform ⊢
    exact whole_of_derivation proper uniform (Nat.le_refl _)
  rw [parseTree, parseWithin, hrun]

theorem parseTree_of_failed {n : Nat} {bound name : Option String} {text : String} {blame : Blame}
    (h : whole n bound ⟨0, text.toList⟩ = (.failed blame, name))
    (hn : Symbol.sum.need text.toList ≤ n) :
    parseTree bound text = (.error (.ofBlame text blame), name) := by
  have hrun : whole (nestingBound text.toList) bound (.seek text.toList 0)
      = (.failed blame, name) :=
    (whole_eq_of_need_le bound (Nat.le_refl _) hn).trans h
  rw [parseTree, parseWithin, hrun]

theorem parseTree_cases (bound : Option String) (text : String) :
    (∃ d : Derivation .sum, d.Proper ∧ d.text = text.toList ∧ Uniform bound text.toList ∧
        parseTree bound text = (.ok d.tree, nameAfter bound text.toList))
      ∨ ∃ blame name, Rejected bound text.toList blame name ∧
        parseTree bound text = (.error (.ofBlame text blame), name) := by
  obtain ⟨d, proper, htext, uniform, -⟩ | ⟨blame, name, hrejected, hrun⟩ :=
    whole_cases bound (Nat.le_refl (Symbol.sum.need text.toList))
  · exact .inl ⟨d, proper, htext, uniform, parseTree_of_derivation proper htext uniform⟩
  · exact .inr ⟨blame, name, hrejected, parseTree_of_failed hrun (Nat.le_refl _)⟩

/-- **The parser accepts exactly what the grammar derives**, with the tree of the derivation, as far
as all letters are one, and the one that is bound already if any is; and no text has two
derivations. -/
theorem parseTree_eq_ok_iff_derivation (bound : Option String) (text : String) :
    (∀ root : Node, (parseTree bound text).1 = .ok root ↔
      ∃ d : Derivation .sum, d.Proper ∧ d.text = text.toList ∧ d.tree = root ∧
        (∀ c ∈ text.toList, ∀ c' ∈ text.toList, c.isAlpha = true → c'.isAlpha = true → c = c') ∧
        ∀ name ∈ bound, ∀ c ∈ text.toList, c.isAlpha = true → name = String.singleton c) ∧
    ∀ d d' : Derivation .sum, d.Proper → d.text = text.toList → d'.Proper →
      d'.text = text.toList → d = d' := by
  refine ⟨fun root ↦ ⟨fun h ↦ ?_, ?_⟩, fun d d' proper htext proper' htext' ↦
    d.eq_of_text_eq proper proper' (htext.trans htext'.symm)⟩
  · obtain ⟨d, proper, htext, uniform, hrun⟩ | ⟨blame, name, -, hrun⟩ := parseTree_cases bound text
    · rw [hrun] at h
      exact ⟨d, proper, htext, Except.ok.inj h, uniform_iff.mp uniform⟩
    · rw [hrun] at h
      cases h
  · rintro ⟨d, proper, htext, rfl, hletters⟩
    rw [parseTree_of_derivation proper htext (uniform_iff.mpr hletters)]

end Grammar

end ExprSampler
