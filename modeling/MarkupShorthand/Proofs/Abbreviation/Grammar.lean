import Mathlib
import MarkupShorthand.Proofs.Abbreviation.Items

/-!
# The grammar of abbreviations

The sequences of items that abbreviations are (`abbreviations`), as a regular language, and a
machine with three kinds of states that reads it (`Phase`). The language of a phase is the set of
the sequences that lead to it (`Phase.mem_language`, `Phase.run_of_mem_language`).
-/

namespace MarkupShorthand

open Text
open scoped Computability

/-- Whether a text consists of ASCII digits and its value is one that fits 32 bits and is not 0. -/
def IsCount (text : String) : Prop :=
  (∀ c ∈ text.toList, c.isDigit = true) ∧
    1 ≤ ofDecimal text.toList ∧ ofDecimal text.toList < 2 ^ 32

theorem isCount_iff {text : String} : IsCount text ↔ count? text ≠ none := by
  unfold IsCount count?
  dsimp only
  split
  · rename_i hd
    rw [List.all_eq_true] at hd
    split
    · rename_i hn
      exact iff_of_true ⟨hd, hn.1, Nat.lt_succ_of_le hn.2⟩ (Option.some_ne_none _)
    · rename_i hn
      exact iff_of_false (fun h => hn ⟨h.2.1, Nat.le_of_lt_succ h.2.2⟩) (fun h => h rfl)
  · rename_i hd
    rw [List.all_eq_true] at hd
    exact iff_of_false (fun h => hd h.1) (fun h => h rfl)

/-! ## The language -/

/-- One reserved token. -/
def reserved : Language Item := {[.reserved]}

/-- One literal. -/
def literals : Language Item := {w | ∃ literal, w = [.literal literal]}

/-- One literal that is a count. -/
def counts : Language Item :=
  {w | ∃ literal : Literal, IsCount literal.text ∧ w = [.literal literal]}

/-- One operator of a kind. -/
def operators (operator : Operator) : Language Item :=
  {w | ∃ offset, w = [.operator operator offset]}

/-- One operator at its place. Brackets and directives are reserved and no operators. -/
def operatorAt (operator : Operator) (offset : Nat) : Language Item :=
  {w | operator ≠ .inert ∧ w = [.operator operator offset]}

/-- What may follow an operator before its literal; further `^` if it places a node. -/
def waits (operator : Operator) : Language Item :=
  if operator.isPositional then (reserved∗ * operators .climb)∗ * reserved∗ else reserved∗

/-- An operator with its literal. -/
def uses : Language Item :=
  (operators .child + operators .sibling + operators .climb) *
      (reserved∗ * operators .climb)∗ * reserved∗ * literals +
    operators .idAttribute * reserved∗ * literals +
    operators .classAttribute * reserved∗ * literals +
    operators .multiply * reserved∗ * counts

/-- The first literal, and then uses of operators; reserved tokens and further literals in between.
-/
def abbreviations : Language Item :=
  reserved∗ * literals * (reserved + literals)∗ * (uses * (reserved + literals)∗)∗

/-- The literals that an operator takes. -/
def takes (operator : Operator) : Language Item :=
  if operator = .multiply then counts else literals

theorem mem_literals (literal : Literal) : [.literal literal] ∈ literals := ⟨literal, rfl⟩

theorem mem_operators (operator : Operator) (offset : Nat) :
    [.operator operator offset] ∈ operators operator := ⟨offset, rfl⟩

theorem append_mem_of_mul_le {l m n : Language Item} {v w : List Item} (h : l * m ≤ n) (hv : v ∈ l)
    (hw : w ∈ m) : v ++ w ∈ n :=
  h (Language.append_mem_mul hv hw)

theorem reserved_le_waits (operator : Operator) : reserved∗ ≤ waits operator := by
  unfold waits
  split
  · exact le_mul_of_one_le_left' one_le_kstar
  · exact le_rfl

theorem waits_mul_reserved (operator : Operator) : waits operator * reserved ≤ waits operator := by
  unfold waits
  split
  · rw [mul_assoc]
    exact mul_le_mul_right kstar_mul_le_kstar _
  · exact kstar_mul_le_kstar

/-- A `^` stacks also across reserved tokens. -/
theorem waits_mul_climb {operator : Operator} (h : operator.isPositional = true) :
    waits operator * operators .climb ≤ waits operator := by
  rw [waits, if_pos h, mul_assoc]
  exact kstar_mul_le_kstar.trans (le_mul_of_one_le_right' one_le_kstar)

/-- The uses of one operator. -/
def usesOf (operator : Operator) : Language Item :=
  operators operator * waits operator * takes operator

/-- The uses of operators, operator by operator. -/
theorem uses_eq :
    uses = usesOf .child + usesOf .sibling + usesOf .climb + usesOf .idAttribute +
      usesOf .classAttribute + usesOf .multiply := by
  have place : ∀ operator : Operator, operator.isPositional = true → operator ≠ .multiply →
      usesOf operator =
        operators operator * (reserved∗ * operators .climb)∗ * reserved∗ * literals := by
    intro operator hp hm
    rw [usesOf, waits, if_pos hp, takes, if_neg hm, ← mul_assoc]
  have other : ∀ operator : Operator, operator.isPositional = false →
      usesOf operator = operators operator * reserved∗ * takes operator := by
    intro operator hp
    rw [usesOf, waits, if_neg (Bool.not_eq_true _ ▸ hp)]
  rw [place .child rfl nofun, place .sibling rfl nofun, place .climb rfl nofun,
    other .idAttribute rfl, other .classAttribute rfl, other .multiply rfl, uses]
  simp only [add_mul]
  rfl

theorem usesOf_le {operator : Operator} (h : operator ≠ .inert) : usesOf operator ≤ uses := by
  intro w hw
  show w ∈ uses
  simp only [uses_eq, Language.mem_add]
  cases operator with
  | child => exact .inl (.inl (.inl (.inl (.inl hw))))
  | sibling => exact .inl (.inl (.inl (.inl (.inr hw))))
  | climb => exact .inl (.inl (.inl (.inr hw)))
  | idAttribute => exact .inl (.inl (.inr hw))
  | classAttribute => exact .inl (.inr hw)
  | multiply => exact .inr hw
  | inert => exact absurd rfl h

/-- Starred alternatives can be taken apart. -/
theorem kstar_add {K : Type} [KleeneAlgebra K] (a b : K) : (a + b)∗ = a∗ * (b * a∗)∗ := by
  refine le_antisymm (kstar_le_of_mul_le_right ?_ ?_) ?_
  · exact le_mul_of_one_le_of_le one_le_kstar one_le_kstar
  · rw [add_mul]
    refine add_le ?_ ?_
    · rw [← mul_assoc]
      exact mul_le_mul_left mul_kstar_le_kstar _
    · rw [← mul_assoc]
      exact mul_kstar_le_kstar.trans (le_mul_of_one_le_left' one_le_kstar)
  · have ha : a∗ ≤ (a + b)∗ := kstar_mono (le_add_of_nonneg_right zero_le)
    have hb : b * a∗ ≤ (a + b)∗ :=
      (mul_le_mul' ((le_add_of_nonneg_left zero_le).trans le_kstar) ha).trans_eq (kstar_mul_kstar _)
    calc a∗ * (b * a∗)∗ ≤ (a + b)∗ * (a + b)∗∗ := mul_le_mul' ha (kstar_mono hb)
      _ = (a + b)∗ := by rw [kstar_idem, kstar_mul_kstar]

theorem abbreviations_eq :
    abbreviations = reserved∗ * literals * (reserved + literals + uses)∗ := by
  rw [abbreviations, kstar_add (reserved + literals) uses, ← mul_assoc]

theorem start_mul_literals : reserved∗ * literals ≤ abbreviations := by
  rw [abbreviations_eq]
  exact le_mul_of_one_le_right' one_le_kstar

theorem abbreviations_mul {l : Language Item} (h : l ≤ reserved + literals + uses) :
    abbreviations * l ≤ abbreviations := by
  rw [abbreviations_eq, mul_assoc]
  exact mul_le_mul' le_rfl ((mul_le_mul' le_rfl h).trans kstar_mul_le_kstar)

theorem abbreviations_mul_reserved : abbreviations * reserved ≤ abbreviations :=
  abbreviations_mul ((le_add_of_nonneg_right zero_le).trans (le_add_of_nonneg_right zero_le))

theorem abbreviations_mul_literals : abbreviations * literals ≤ abbreviations :=
  abbreviations_mul ((le_add_of_nonneg_left zero_le).trans (le_add_of_nonneg_right zero_le))

theorem abbreviations_mul_uses : abbreviations * uses ≤ abbreviations :=
  abbreviations_mul (le_add_of_nonneg_left zero_le)

/-! ## The machine -/

/-- What has been read: no node yet; or a node, and perhaps an operator that waits for its literal.
-/
inductive Phase where
  | start
  | idle
  | waiting (operator : Operator) (offset : Nat)
deriving DecidableEq

namespace Phase

/-- The phase after one more item. -/
def next : Phase → Item → Except ParseError Phase
  | phase, .reserved => .ok phase
  | start, .literal _ => .ok idle
  | start, .operator operator offset => .error (.danglingOperator operator offset)
  | idle, .literal _ => .ok idle
  | idle, .operator operator offset => .ok (waiting operator offset)
  | waiting operator _, .literal literal =>
    if operator = .multiply ∧ count? literal.text = none then
      .error (.invalidCount literal.text literal.offset)
    else .ok idle
  | waiting operator offset, .operator newcomer _ =>
    if newcomer = .climb ∧ operator.isPositional = true then .ok (waiting operator offset)
    else .error (.danglingOperator operator offset)

/-- The phase after some items. -/
def run (phase : Phase) : List Item → Except ParseError Phase
  | [] => .ok phase
  | item :: rest =>
    match phase.next item with
    | .error e => .error e
    | .ok phase => phase.run rest

/-- What the end of the abbreviation means. -/
def finish : Phase → Except ParseError Unit
  | start => .error .emptyAbbreviation
  | idle => .ok ()
  | waiting operator offset => .error (.danglingOperator operator offset)

variable {phase phase' phase'' : Phase} {item : Item} {v w : List Item}

theorem run_append (h : phase.run v = .ok phase') : phase.run (v ++ w) = phase'.run w := by
  induction v generalizing phase with
  | nil => rw [run] at h; rw [Except.ok.inj h]; rfl
  | cons item v ih =>
    rw [run] at h
    rw [List.cons_append, run]
    split at h
    · cases h
    · exact ih h

/-- What was refused stays refused. -/
theorem run_error {e : ParseError} (h : phase.run v = .error e) :
    phase.run (v ++ w) = .error e := by
  induction v generalizing phase with
  | nil => cases h
  | cons item v ih =>
    rw [run] at h
    rw [List.cons_append, run]
    split at h
    · exact h
    · exact ih h

theorem run_singleton (phase : Phase) (item : Item) : phase.run [item] = phase.next item := by
  rw [run]
  cases phase.next item <;> rfl

/-- The sequences of items that lead to a phase. -/
def language : Phase → Language Item
  | start => reserved∗
  | idle => abbreviations
  | waiting operator offset => abbreviations * operatorAt operator offset * waits operator

/-- The literal that an operator takes ends a use of it. -/
theorem language_mul_takes (operator : Operator) (offset : Nat) :
    (waiting operator offset).language * takes operator ≤ abbreviations := by
  rw [language, mul_assoc, mul_assoc]
  refine (mul_le_mul' le_rfl ?_).trans abbreviations_mul_uses
  rintro _ ⟨_, ⟨ho, rfl⟩, w, hw, rfl⟩
  refine usesOf_le ho ?_
  rw [usesOf, mul_assoc]
  exact Language.append_mem_mul (mem_operators operator offset) hw

theorem waiting_mul {operator : Operator} {l : Language Item}
    (h : waits operator * l ≤ waits operator) (offset : Nat) :
    (waiting operator offset).language * l ≤ (waiting operator offset).language := by
  rw [language, mul_assoc]
  exact mul_le_mul' le_rfl h

/-- An item continues the sequences of a phase to sequences of the next phase. -/
theorem append_mem_language (h : w ∈ phase.language) (hn : phase.next item = .ok phase')
    (hi : ∀ offset, item ≠ .operator .inert offset) : w ++ [item] ∈ phase'.language := by
  cases phase with
  | start =>
    cases item with
    | literal literal =>
      obtain rfl := Except.ok.inj hn
      exact append_mem_of_mul_le start_mul_literals h (mem_literals literal)
    | reserved =>
      obtain rfl := Except.ok.inj hn
      exact append_mem_of_mul_le kstar_mul_le_kstar h rfl
    | operator operator offset => cases hn
  | idle =>
    cases item with
    | literal literal =>
      obtain rfl := Except.ok.inj hn
      exact append_mem_of_mul_le abbreviations_mul_literals h (mem_literals literal)
    | reserved =>
      obtain rfl := Except.ok.inj hn
      exact append_mem_of_mul_le abbreviations_mul_reserved h rfl
    | operator operator offset =>
      obtain rfl := Except.ok.inj hn
      have hone : 1 ≤ waits operator := one_le_kstar.trans (reserved_le_waits operator)
      refine append_mem_of_mul_le (le_mul_of_one_le_right' hone) h ?_
      exact ⟨fun e => hi offset (e ▸ rfl), rfl⟩
  | waiting operator offset =>
    cases item with
    | literal literal =>
      rw [next] at hn
      split at hn
      · cases hn
      · rename_i hc
        obtain rfl := Except.ok.inj hn
        refine append_mem_of_mul_le (language_mul_takes operator offset) h ?_
        unfold takes
        split
        · rename_i ho
          exact ⟨literal, isCount_iff.2 fun e => hc ⟨ho, e⟩, rfl⟩
        · exact mem_literals literal
    | reserved =>
      obtain rfl := Except.ok.inj hn
      exact append_mem_of_mul_le (waiting_mul (waits_mul_reserved operator) offset) h rfl
    | operator newcomer place =>
      rw [next] at hn
      split at hn
      · rename_i hc
        obtain rfl := Except.ok.inj hn
        rw [hc.1]
        exact append_mem_of_mul_le (waiting_mul (waits_mul_climb hc.2) offset) h
          (mem_operators .climb place)
      · cases hn

/-- Items that lexemes stand for lead to phases in whose languages they are. -/
theorem mem_language (hw : ∀ item ∈ w, ∀ offset, item ≠ .operator .inert offset)
    (h : start.run w = .ok phase) : w ∈ phase.language := by
  induction w using List.reverseRecOn generalizing phase with
  | nil =>
    obtain rfl := Except.ok.inj h
    exact Language.nil_mem_kstar _
  | append_singleton w item ih =>
    cases hr : start.run w with
    | error e => rw [run_error hr] at h; cases h
    | ok phase' =>
      rw [run_append hr, run_singleton] at h
      exact append_mem_language (ih (fun x hx => hw x (List.mem_append_left _ hx)) hr) h
        (hw item (by simp))

/-! ## From the language to the machine -/

/-- The sequences of items that lead from one phase to another. -/
def leads (phase phase' : Phase) : Language Item := {w | phase.run w = .ok phase'}

theorem leads_mul_leads : leads phase phase' * leads phase' phase'' ≤ leads phase phase'' := by
  rintro _ ⟨v, hv, w, hw, rfl⟩
  exact (run_append hv).trans hw

/-- What leads back to a phase does so when repeated. -/
theorem kstar_le_leads {l : Language Item} (h : l ≤ leads phase phase) : l∗ ≤ leads phase phase :=
  kstar_le_of_mul_le_right (fun w hw => by rw [(hw : w = [])]; rfl)
    ((mul_le_mul' h le_rfl).trans leads_mul_leads)

theorem mul_le_leads {l m : Language Item} (h : l ≤ leads phase phase')
    (h' : m ≤ leads phase' phase'') : l * m ≤ leads phase phase'' :=
  (mul_le_mul' h h').trans leads_mul_leads

theorem reserved_le_leads (phase : Phase) : reserved ≤ leads phase phase := by
  rintro _ rfl
  exact run_singleton phase .reserved

theorem waits_le_leads (operator : Operator) (offset : Nat) :
    waits operator ≤ leads (waiting operator offset) (waiting operator offset) := by
  have hr := kstar_le_leads (reserved_le_leads (waiting operator offset))
  unfold waits
  split
  · rename_i hp
    refine mul_le_leads (kstar_le_leads (mul_le_leads hr ?_)) hr
    rintro _ ⟨place, rfl⟩
    exact (run_singleton _ _).trans (if_pos ⟨rfl, hp⟩)
  · exact hr

theorem takes_le_leads (operator : Operator) (offset : Nat) :
    takes operator ≤ leads (waiting operator offset) idle := by
  unfold takes
  split
  · rintro _ ⟨literal, hc, rfl⟩
    exact (run_singleton _ _).trans (if_neg fun h => isCount_iff.1 hc h.2)
  · rename_i ho
    rintro _ ⟨literal, rfl⟩
    exact (run_singleton _ _).trans (if_neg fun h => ho h.1)

theorem usesOf_le_leads (operator : Operator) : usesOf operator ≤ leads idle idle := by
  rintro _ ⟨_, ⟨_, ⟨offset, rfl⟩, v, hv, rfl⟩, w, hw, rfl⟩
  have hop : idle.run [.operator operator offset] = .ok (waiting operator offset) :=
    run_singleton _ _
  exact (run_append ((run_append hop).trans (waits_le_leads operator offset hv))).trans
    (takes_le_leads operator offset hw)

theorem literals_le_leads : literals ≤ leads idle idle := by
  rintro _ ⟨literal, rfl⟩
  exact run_singleton _ _

theorem abbreviations_le_leads : abbreviations ≤ leads start idle := by
  rw [abbreviations_eq]
  refine mul_le_leads (mul_le_leads (kstar_le_leads (reserved_le_leads start)) ?_)
    (kstar_le_leads (add_le (add_le (reserved_le_leads idle) literals_le_leads) ?_))
  · rintro _ ⟨literal, rfl⟩
    exact run_singleton _ _
  · rw [uses_eq]
    exact add_le (add_le (add_le (add_le (add_le (usesOf_le_leads _) (usesOf_le_leads _))
      (usesOf_le_leads _)) (usesOf_le_leads _)) (usesOf_le_leads _)) (usesOf_le_leads _)

/-- A sequence in the language of a phase leads to it. -/
theorem run_of_mem_language (h : w ∈ phase.language) : start.run w = .ok phase := by
  cases phase with
  | start => exact kstar_le_leads (reserved_le_leads start) h
  | idle => exact abbreviations_le_leads h
  | waiting operator offset =>
    refine mul_le_leads (mul_le_leads abbreviations_le_leads ?_) (waits_le_leads operator offset) h
    rintro _ ⟨-, rfl⟩
    exact run_singleton _ _

end Phase

end MarkupShorthand
