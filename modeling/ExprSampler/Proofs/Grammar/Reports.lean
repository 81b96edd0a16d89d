import ExprSampler.Expr.ParseError
import Mathlib.Data.List.Sort
import Mathlib.Data.Prod.Lex
import Mathlib.Data.String.Basic

/-!
# What a report says

The requirements that were not met at one place are a set, kept as a list: the order in which they
stand there means nothing, and neither does standing there twice. A report is nevertheless made from
the list. `CalledFor` says without a list which report a set of requirements calls for, that of its
least token, or, if none of them is a token, that of its descriptions in ascending order. The report
that is made is the one that is called for, and there is only one: no two tokens, and no two
descriptions, are equal in order.
-/

namespace ExprSampler

namespace ParseError

variable {text : String} {position : Nat} {required required' : List Requirement}

theorem mem_tokens {expected rule : String} :
    (rule, expected) ∈ tokens required ↔ .token expected rule ∈ required := by
  rw [tokens, List.mem_filterMap]
  constructor
  · rintro ⟨_ | _, hq, ⟨⟩⟩
    exact hq
  · exact fun h ↦ ⟨_, h, rfl⟩

theorem mem_descriptions {description : String} :
    description ∈ descriptions required ↔ .plain description ∈ required := by
  rw [descriptions, List.mem_filterMap]
  constructor
  · rintro ⟨_ | _, hq, ⟨⟩⟩
    exact hq
  · exact fun h ↦ ⟨_, h, rfl⟩

/-! ## Tokens in order -/

theorem comesBefore_iff {a b : String × String} :
    comesBefore a b = true ↔ toLex a ≤ toLex b := by
  rw [comesBefore, Prod.Lex.toLex_le_toLex, Bool.or_eq_true, Bool.and_eq_true, decide_eq_true_iff,
    decide_eq_true_iff, beq_iff_eq]

theorem pairwise_mergeSort_comesBefore (pairs : List (String × String)) :
    (pairs.mergeSort comesBefore).Pairwise fun a b ↦ toLex a ≤ toLex b := by
  have trans : ∀ a b c, comesBefore a b = true → comesBefore b c = true →
      comesBefore a c = true := by
    intro a b c hab hbc
    rw [comesBefore_iff] at hab hbc ⊢
    exact hab.trans hbc
  have total : ∀ a b, (comesBefore a b || comesBefore b a) = true := by
    intro a b
    rw [Bool.or_eq_true, comesBefore_iff, comesBefore_iff]
    exact le_total _ _
  exact (List.pairwise_mergeSort trans total pairs).imp comesBefore_iff.mp

/-! ## Descriptions in order -/

theorem nodup_eraseDups (all : List String) : all.eraseDups.Nodup := by
  induction hlength : all.length using Nat.strongRecOn generalizing all with
  | ind n ih =>
    cases all with
    | nil => exact List.nodup_nil
    | cons s all =>
      rw [List.eraseDups_cons, List.nodup_cons, List.mem_eraseDups]
      refine ⟨by simp, ih _ ?_ _ rfl⟩
      rw [← hlength, List.length_cons]
      exact Nat.lt_succ_of_le (List.length_filter_le _ all)

/-- The descriptions, each once, in ascending order. -/
def ascending (required : List Requirement) : List String :=
  (descriptions required).eraseDups.mergeSort fun a b ↦ decide (a ≤ b)

theorem mem_ascending {description : String} :
    description ∈ ascending required ↔ .plain description ∈ required := by
  rw [ascending, List.mem_mergeSort, List.mem_eraseDups, mem_descriptions]

theorem pairwise_ascending (required : List Requirement) :
    (ascending required).Pairwise (· < ·) := by
  have hle : (ascending required).Pairwise (· ≤ ·) := List.pairwise_mergeSort' (· ≤ ·) _
  have hne : (ascending required).Nodup :=
    (List.mergeSort_perm _ _).nodup_iff.mpr (nodup_eraseDups _)
  exact (hle.and hne).imp fun h ↦ lt_of_le_of_ne h.1 h.2

/-! ## The report that is called for -/

/-- What is to be reported for a set of requirements that were not met at a place. -/
inductive CalledFor (text : String) (position : Nat) (required : List Requirement) :
    ParseError → Prop
  /-- The first of the tokens, by rule and then by name. -/
  | token {expected rule : String} (h : .token expected rule ∈ required)
      (least : ∀ expected' rule' : String, .token expected' rule' ∈ required →
        toLex (rule, expected) ≤ toLex (rule', expected')) :
      CalledFor text position required
        ⟨expected, text.toList[position]?.map String.singleton, rule, position, text⟩
  /-- All descriptions, if no requirement is a token. -/
  | descriptions {all : List String}
      (none : ∀ expected rule : String, .token expected rule ∉ required)
      (ascending : all.Pairwise (· < ·)) (mem : ∀ s, s ∈ all ↔ .plain s ∈ required) :
      CalledFor text position required
        ⟨", ".intercalate all, text.toList[position]?.map String.singleton, "expression", position,
          text⟩

theorem CalledFor.congr {e : ParseError} (hmem : ∀ q, q ∈ required ↔ q ∈ required')
    (h : CalledFor text position required e) : CalledFor text position required' e := by
  cases h with
  | token h least =>
    exact .token ((hmem _).mp h) fun expected' rule' h' ↦ least expected' rule' ((hmem _).mpr h')
  | descriptions none ascending mem =>
    exact .descriptions (fun expected rule h ↦ none expected rule ((hmem _).mpr h)) ascending
      fun s ↦ (mem s).trans (hmem _)

/-- One set of requirements calls for one report. -/
theorem CalledFor.unique {e e' : ParseError} (h : CalledFor text position required e)
    (h' : CalledFor text position required e') : e = e' := by
  cases h with
  | @token expected rule h least =>
    cases h' with
    | @token expected' rule' h' least' =>
      have hsame : (rule, expected) = (rule', expected') :=
        toLex_inj.mp (le_antisymm (least expected' rule' h') (least' expected rule h))
      cases hsame
      rfl
    | descriptions none => exact absurd h (none _ _)
  | descriptions none ascending mem =>
    cases h' with
    | token h' => exact absurd h' (none _ _)
    | descriptions none' ascending' mem' =>
      rw [ascending.eq_of_mem_iff ascending' fun s ↦ (mem s).trans (mem' s).symm]

/-- The report that is made is the one that is called for. -/
theorem calledFor_ofRequirements (text : String) (position : Nat) (required : List Requirement) :
    CalledFor text position required (ofRequirements text position required) := by
  have hsorted := pairwise_mergeSort_comesBefore (tokens required)
  have hmem : ∀ expected rule : String,
      (rule, expected) ∈ (tokens required).mergeSort comesBefore ↔
        .token expected rule ∈ required := by
    intro expected rule
    rw [List.mem_mergeSort, mem_tokens]
  rw [ofRequirements, foundAt_natCast]
  generalize (tokens required).mergeSort comesBefore = sorted at hsorted hmem ⊢
  rcases sorted with _ | ⟨⟨rule, expected⟩, others⟩
  · dsimp only
    exact .descriptions (fun expected rule h ↦ List.not_mem_nil ((hmem _ _).mpr h))
      (pairwise_ascending required) fun s ↦ mem_ascending
  · obtain ⟨hfirst, -⟩ := List.pairwise_cons.mp hsorted
    refine .token ((hmem _ _).mp List.mem_cons_self) fun expected' rule' h' ↦ ?_
    rcases List.mem_cons.mp ((hmem _ _).mpr h') with heq | hother
    · rw [heq]
    · exact hfirst _ hother

/-- **A report depends on the set of requirements alone**, not on the order in which they are listed
or on how often: it names the least token, or, where there is none, lists the descriptions in
ascending order. -/
theorem ofRequirements_forgets_order (text : String) (position : Nat)
    (h : ∀ q : Requirement, q ∈ required ↔ q ∈ required') :
    ofRequirements text position required = ofRequirements text position required' ∧
      CalledFor text position required (ofRequirements text position required) := by
  have hcalled := calledFor_ofRequirements text position required
  exact ⟨(hcalled.congr h).unique (calledFor_ofRequirements text position required'), hcalled⟩

/-- Of two tokens of one rule the first by name is reported, wherever it stands. -/
theorem ofRequirements_forgets_order_of_one_rule :
    ofRequirements "2^" 2 [.plain "operand", .token "letter" "primary", .token "digit" "primary"]
        = ⟨"digit", none, "primary", 2, "2^"⟩ ∧
      ofRequirements "2^" 2 [.token "digit" "primary", .plain "operand", .token "digit" "primary",
        .token "letter" "primary"] = ⟨"digit", none, "primary", 2, "2^"⟩ := by
  have hmem : ∀ q : Requirement,
      q ∈ [.plain "operand", .token "letter" "primary", .token "digit" "primary"] ↔
        q ∈ [.token "digit" "primary", .plain "operand", .token "digit" "primary",
          .token "letter" "primary"] := by
    intro q
    simp only [List.mem_cons, List.not_mem_nil, or_false]
    grind
  obtain ⟨hsame, hcalled⟩ := ofRequirements_forgets_order "2^" 2 hmem
  have hfirst : CalledFor "2^" 2
      [.plain "operand", .token "letter" "primary", .token "digit" "primary"]
      ⟨"digit", none, "primary", 2, "2^"⟩ := by
    refine .token (by simp) fun expected rule h ↦ Prod.Lex.toLex_le_toLex.mpr (.inr ?_)
    simp only [List.mem_cons, List.not_mem_nil, or_false, reduceCtorEq, false_or,
      Requirement.token.injEq] at h
    rcases h with ⟨rfl, rfl⟩ | ⟨rfl, rfl⟩
    · exact ⟨rfl, by decide⟩
    · exact ⟨rfl, by decide⟩
  have hreport := hcalled.unique hfirst
  exact ⟨hreport, hsame.symm.trans hreport⟩

end ParseError

end ExprSampler
