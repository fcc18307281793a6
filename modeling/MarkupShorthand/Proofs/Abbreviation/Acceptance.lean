import MarkupShorthand.Proofs.Abbreviation.Grammar
import MarkupShorthand.Proofs.Abbreviation.Refinement
import MarkupShorthand.Proofs.Abbreviation.Resolution

/-!
# Accepting the grammar

The builder accepts the sequences of items of the grammar, unless a limit on depth or size refuses
them, and of other sequences it reports the leftmost violation: where the items that were read can
still be continued to an abbreviation, and with the next item they cannot (`Leftmost`). The
builder's phase is that of the machine (`Follows.verdict`).
-/

namespace MarkupShorthand

open Arena
open scoped Computability

/-! ## Violations -/

/-- Whether items can be continued to an abbreviation. -/
def Viable (w : List Item) : Prop := ∃ v, w ++ v ∈ abbreviations

/-- Where items stop being the start of an abbreviation: they go on with an item that no
abbreviation has there, or they end too early. -/
structure Leftmost (read rest : List Item) : Prop where
  viable : Viable read
  not_mem : rest = [] → read ∉ abbreviations
  not_viable : ∀ item later, rest = item :: later → ¬ Viable (read ++ [item])

/-- What is wrong behind the items that were read. -/
inductive Violation : (read rest : List Item) → ParseError → Prop where
  /-- An operator before the first node. -/
  | noNode {read later : List Item} {operator : Operator} {offset : Nat} :
    read ∈ reserved∗ →
      Violation read (.operator operator offset :: later) (.danglingOperator operator offset)
  /-- An operator that waits for its literal when the items end or another operator arrives that
  cannot be stacked on it. -/
  | noLiteral {read rest : List Item} {operator : Operator} {offset : Nat} :
    read ∈ abbreviations * operatorAt operator offset * waits operator →
      (∀ item ∈ rest.head?, ∃ newcomer place, item = .operator newcomer place ∧
        ¬ (newcomer = .climb ∧ operator.isPositional = true)) →
      Violation read rest (.danglingOperator operator offset)
  /-- A literal behind a `*` that is no count. -/
  | noCount {read later : List Item} {literal : Literal} {offset : Nat} :
    read ∈ abbreviations * operatorAt .multiply offset * reserved∗ → ¬ IsCount literal.text →
      Violation read (.literal literal :: later) (.invalidCount literal.text literal.offset)

namespace Phase

variable {phase phase' : Phase} {item : Item} {v w read rest later : List Item} {e : ParseError}

/-- From every phase a count leads to an abbreviation. -/
theorem viable (h : w ∈ phase.language) : Viable w := by
  have hone : IsCount "1" := isCount_iff.2 (by decide +kernel)
  cases phase with
  | start => exact ⟨_, append_mem_of_mul_le start_mul_literals h (mem_literals ⟨"1", 0⟩)⟩
  | idle => exact ⟨[], by rwa [List.append_nil]⟩
  | waiting operator offset =>
    refine ⟨[.literal ⟨"1", 0⟩], append_mem_of_mul_le (language_mul_takes operator offset) h ?_⟩
    unfold takes
    split
    · exact ⟨_, hone, rfl⟩
    · exact mem_literals _

/-- What a phase refuses continues no sequence that leads to it. -/
theorem not_viable (h : w ∈ phase.language) (hn : phase.next item = .error e) :
    ¬ Viable (w ++ [item]) := by
  rintro ⟨v, hv⟩
  have hr : start.run (w ++ [item] ++ v) = .ok idle := abbreviations_le_leads hv
  have he : start.run (w ++ [item]) = .error e := by
    rw [run_append (run_of_mem_language h), run_singleton, hn]
  rw [run_error he] at hr
  cases hr

/-- The outcome of some items and the end. -/
def verdict (phase : Phase) (w : List Item) : Except ParseError Unit :=
  match phase.run w with
  | .error e => .error e
  | .ok phase => phase.finish

theorem verdict_append (h : phase.run v = .ok phase') :
    phase.verdict (v ++ w) = phase'.verdict w := by
  rw [verdict, run_append h, verdict]

theorem verdict_cons_error (h : phase.next item = .error e) :
    phase.verdict (item :: later) = .error e := by
  rw [verdict, run, h]

theorem verdict_eq_ok : phase.verdict w = .ok () ↔ phase.run w = .ok idle := by
  unfold verdict
  split
  · rename_i h
    rw [h]
    exact iff_of_false nofun nofun
  · rename_i phase' h
    rw [h]
    cases phase' with
    | idle => exact iff_of_true rfl rfl
    | _ => exact iff_of_false nofun nofun

/-- Where items are refused, the ones before were read. -/
theorem exists_of_run_eq_error (h : phase.run w = .error e) : ∃ read item later phase',
    w = read ++ item :: later ∧ phase.run read = .ok phase' ∧ phase'.next item = .error e := by
  induction w generalizing phase with
  | nil => cases h
  | cons first w ih =>
    rw [run] at h
    split at h
    · rename_i hn
      exact ⟨[], first, w, phase, rfl, rfl, hn.trans h⟩
    · rename_i hn
      obtain ⟨read, item, later, phase', rfl, hr, he⟩ := ih h
      refine ⟨first :: read, item, later, phase', rfl, ?_, he⟩
      rw [run, hn]
      exact hr

theorem violation_of_next (h : read ∈ phase.language) (hn : phase.next item = .error e) :
    Violation read (item :: later) e := by
  cases phase with
  | start =>
    cases item with
    | operator operator offset => exact Except.error.inj hn ▸ .noNode h
    | _ => cases hn
  | idle => cases item <;> cases hn
  | waiting operator offset =>
    cases item with
    | reserved => cases hn
    | literal literal =>
      rw [next] at hn
      split at hn
      · rename_i hc
        obtain ⟨rfl, hc⟩ := hc
        exact Except.error.inj hn ▸ .noCount h fun hcount => isCount_iff.1 hcount hc
      · cases hn
    | operator newcomer place =>
      rw [next] at hn
      split at hn
      · cases hn
      · rename_i hc
        refine Except.error.inj hn ▸ .noLiteral h fun item hitem => ?_
        exact ⟨newcomer, place, (Option.some.inj hitem).symm, hc⟩

theorem violation_of_finish (h : read ∈ phase.language) (hf : phase.finish = .error e)
    (he : e ≠ .emptyAbbreviation) : Violation read [] e := by
  cases phase with
  | start => exact absurd (Except.error.inj hf).symm he
  | idle => cases hf
  | waiting operator offset => exact Except.error.inj hf ▸ .noLiteral h fun _ hi => by cases hi

/-- The machine stops at an item that it refuses, or at the end. -/
theorem of_verdict_eq_error (hw : ∀ item ∈ w, ∀ offset, item ≠ .operator .inert offset)
    (h : start.verdict w = .error e) :
    (∃ read item later, ∃ phase : Phase, w = read ++ item :: later ∧ read ∈ phase.language ∧
        phase.next item = .error e) ∨
      ∃ phase, start.run w = .ok phase ∧ w ∈ phase.language ∧ phase.finish = .error e := by
  unfold verdict at h
  split at h
  · rename_i hr
    obtain rfl := Except.error.inj h
    obtain ⟨read, item, later, phase, rfl, hread, hn⟩ := exists_of_run_eq_error hr
    have hproper : ∀ x ∈ read, ∀ offset, x ≠ .operator .inert offset := fun x hx =>
      hw x (List.mem_append_left _ hx)
    exact .inl ⟨read, item, later, phase, rfl, mem_language hproper hread, hn⟩
  · rename_i phase hr
    exact .inr ⟨phase, hr, mem_language hw hr, h⟩

/-- What the machine reports is the leftmost violation. -/
theorem exists_violation (hw : ∀ item ∈ w, ∀ offset, item ≠ .operator .inert offset)
    (h : start.verdict w = .error e) (he : e ≠ .emptyAbbreviation) :
    ∃ read rest, w = read ++ rest ∧ Leftmost read rest ∧ Violation read rest e := by
  rcases of_verdict_eq_error hw h with
    ⟨read, item, later, phase, rfl, hm, hn⟩ | ⟨phase, hr, hm, hf⟩
  · refine ⟨read, item :: later, rfl, ⟨viable hm, nofun, ?_⟩, violation_of_next hm hn⟩
    rintro _ _ ⟨rfl, rfl⟩
    exact not_viable hm hn
  · refine ⟨w, [], (List.append_nil w).symm, ⟨viable hm, fun _ habb => ?_, nofun⟩,
      violation_of_finish hm hf he⟩
    have hidle : start.run w = .ok idle := abbreviations_le_leads habb
    rw [Except.ok.inj (hr.symm.trans hidle)] at hf
    cases hf

theorem verdict_eq_ok_iff (hw : ∀ item ∈ w, ∀ offset, item ≠ .operator .inert offset) :
    start.verdict w = .ok () ↔ w ∈ abbreviations := by
  rw [verdict_eq_ok]
  exact ⟨fun h => mem_language hw h, fun h => abbreviations_le_leads h⟩

theorem verdict_eq_empty_iff (hw : ∀ item ∈ w, ∀ offset, item ≠ .operator .inert offset) :
    start.verdict w = .error .emptyAbbreviation ↔ w ∈ reserved∗ := by
  constructor
  · intro h
    rcases of_verdict_eq_error hw h with ⟨read, item, later, phase, -, hm, hn⟩ | ⟨phase, -, hm, hf⟩
    · have hviolation : Violation read (item :: later) .emptyAbbreviation :=
        violation_of_next hm hn
      cases hviolation
    · cases phase with
      | start => exact hm
      | idle => cases hf
      | waiting operator offset => cases hf
  · intro h
    have hr : start.run w = .ok start := run_of_mem_language h
    rw [verdict, hr]
    rfl

/-- The machine reports a violation. -/
theorem verdict_of_violation (h : Violation read rest e) :
    start.verdict (read ++ rest) = .error e := by
  cases h with
  | @noNode later operator offset hread =>
    have hr : start.run read = .ok start := run_of_mem_language hread
    exact (verdict_append hr).trans (verdict_cons_error rfl)
  | @noLiteral _ operator offset hread hstop =>
    have hr : start.run read = .ok (waiting operator offset) := run_of_mem_language hread
    rw [verdict_append hr]
    cases rest with
    | nil => rfl
    | cons item later =>
      obtain ⟨newcomer, place, rfl, hc⟩ := hstop item rfl
      exact verdict_cons_error (if_neg hc)
  | @noCount later literal offset hread hcount =>
    have hr : start.run read = .ok (waiting .multiply offset) := run_of_mem_language hread
    refine (verdict_append hr).trans (verdict_cons_error (if_pos ⟨rfl, ?_⟩))
    exact Classical.not_not.1 fun hc => hcount (isCount_iff.2 hc)

end Phase

/-! ## The builder -/

/-- What the machine knows of a builder. -/
def Builder.phase (b : Builder) : Phase :=
  match b.cursor, b.pending with
  | none, _ => .start
  | some _, none => .idle
  | some _, some pending => .waiting pending.operator pending.offset

namespace Follows

variable {b b' : Builder} {d : Draft} {item : Item} {w : List Item} {e : ParseError}

/-- The machine follows the builder, and stops where the builder stops but for a limit. -/
theorem next_phase (h : Follows b d) (item : Item) :
    (∃ b', b.read item = .ok b' ∧ b.phase.next item = .ok b'.phase) ∨
      ∃ e, b.read item = .error e ∧ (e.IsLimit ∨ b.phase.next item = .error e) := by
  cases h with
  | start =>
    cases item with
    | operator operator offset => exact .inr ⟨_, rfl, .inr rfl⟩
    | _ => exact .inl ⟨_, rfl, rfl⟩
  | @going t operand sketches depth waiting hw tips shown =>
    cases waiting with
    | none => cases item <;> exact .inl ⟨_, rfl, rfl⟩
    | some pending =>
      cases item with
      | reserved => exact .inl ⟨_, rfl, rfl⟩
      | literal literal =>
        rw [Builder.read_waiting_literal]
        cases hr : t.resolve pending operand literal with
        | error e =>
          refine .inr ⟨e, rfl, (resolve_error hr).imp_right ?_⟩
          rintro ⟨hc, rfl⟩
          exact if_pos hc
        | ok resolved => exact .inl ⟨_, rfl, if_neg (resolve_ok hr)⟩
      | operator newcomer place =>
        rw [Builder.read_waiting_operator]
        cases hs : Builder.stacked? pending newcomer with
        | none =>
          refine .inr ⟨_, rfl, .inr (if_neg fun hc => ?_)⟩
          have := Builder.stacked?_eq_some.2 ⟨hc.1, hc.2, rfl⟩
          rw [hs] at this
          cases this
        | some stacked =>
          obtain ⟨hn, hp, rfl⟩ := Builder.stacked?_eq_some.1 hs
          exact .inl ⟨_, rfl, if_pos ⟨hn, hp⟩⟩

theorem finish_phase (h : Follows b d) :
    (∃ t, b.finish = .ok t ∧ b.phase.finish = .ok ()) ∨
      ∃ e, b.finish = .error e ∧ b.phase.finish = .error e := by
  cases h with
  | start => exact .inr ⟨_, rfl, rfl⟩
  | @going t operand sketches depth waiting hw tips shown =>
    cases waiting with
    | none =>
      rw [Builder.finish_idle, isEmpty_eq_false shown]
      exact .inl ⟨t, rfl, rfl⟩
    | some pending => exact .inr ⟨_, rfl, rfl⟩

/-- Builder and machine come to the same verdict, but for a limit. -/
theorem verdict (h : Follows b d) (w : List Item) :
    (∃ t, b.readItems w = .ok t ∧ b.phase.verdict w = .ok ()) ∨
      ∃ e, b.readItems w = .error e ∧ (e.IsLimit ∨ b.phase.verdict w = .error e) := by
  induction w generalizing b d with
  | nil => exact h.finish_phase.imp_right fun ⟨e, he, hf⟩ => ⟨e, he, .inr hf⟩
  | cons item w ih =>
    rw [Builder.readItems, Phase.verdict, Phase.run]
    rcases h.next_phase item with ⟨b', hb, hn⟩ | ⟨e, hb, hn⟩
    · rw [hb, hn]
      exact ih (h.read hb)
    · rw [hb]
      refine .inr ⟨e, rfl, hn.imp_right fun hn => ?_⟩
      rw [hn]

end Follows

/-! ## Abbreviations -/

/-- Whether an abbreviation was refused for a limit on depth or size. -/
def Limited (result : Except ParseError Arena) : Prop :=
  ∃ e, result = .error e ∧ e.IsLimit

/-- How the outcome of reading an abbreviation depends on its items. -/
structure Decided (w : List Item) (result : Except ParseError Arena) : Prop where
  ok_iff : ¬ Limited result → ((∃ t, result = .ok t) ↔ w ∈ abbreviations)
  empty_iff : ¬ Limited result → (result = .error .emptyAbbreviation ↔ w ∈ reserved∗)
  /-- Any other error is that of the leftmost violation. -/
  error_iff : ¬ Limited result → ∀ e ≠ .emptyAbbreviation, result = .error e ↔
    ∃ read rest, w = read ++ rest ∧ Leftmost read rest ∧ Violation read rest e
  /-- An abbreviation of the grammar is refused for a limit only. -/
  accepted : w ∈ abbreviations → (∃ t, result = .ok t) ∨ Limited result

/-- An outcome with the verdict of the machine depends on the items as it should. -/
theorem Decided.of_verdict {w : List Item} {result : Except ParseError Arena}
    (hw : ∀ item ∈ w, ∀ offset, item ≠ .operator .inert offset)
    (hv : result.map (fun _ => ()) = Phase.start.verdict w) : Decided w result := by
  have hok : (∃ t, result = .ok t) ↔ Phase.start.verdict w = .ok () := by
    rw [← hv]
    cases result with
    | error e => exact iff_of_false nofun nofun
    | ok t => exact iff_of_true ⟨t, rfl⟩ rfl
  have herror : ∀ e, result = .error e ↔ Phase.start.verdict w = .error e := by
    intro e
    rw [← hv]
    cases result with
    | error e' =>
      constructor
      · intro h
        exact congrArg _ (Except.error.inj h)
      · intro h
        exact congrArg _ (Except.error.inj h)
    | ok t => exact iff_of_false nofun nofun
  refine ⟨fun _ => hok.trans (Phase.verdict_eq_ok_iff hw),
    fun _ => (herror _).trans (Phase.verdict_eq_empty_iff hw), fun _ e he => (herror e).trans ?_,
    fun h => .inl (hok.2 ((Phase.verdict_eq_ok_iff hw).2 h))⟩
  constructor
  · exact fun h => Phase.exists_violation hw h he
  · rintro ⟨read, rest, rfl, -, hviolation⟩
    exact Phase.verdict_of_violation hviolation

/-- The outcome of an abbreviation is that of its items: it is accepted if they are in the grammar,
and otherwise the leftmost violation is reported, unless a limit was met before. -/
theorem decided_of_tokenize {abbreviation : String} {lexemes : List Lexeme}
    (h : tokenize abbreviation = .ok lexemes) : Decided (items lexemes) (parse abbreviation) := by
  rw [parse_eq_readItems, h]
  show Decided (items lexemes) (({} : Builder).readItems (items lexemes))
  have hw := ne_inert_of_mem_items lexemes
  rcases Follows.start.verdict (items lexemes) with ⟨t, hr, hv⟩ | ⟨e, hr, hlimit | hv⟩
  · exact .of_verdict hw (by rw [hr]; exact hv.symm)
  · have limited : Limited (({} : Builder).readItems (items lexemes)) := ⟨e, hr, hlimit⟩
    exact ⟨fun h => absurd limited h, fun h => absurd limited h, fun h => absurd limited h,
      fun _ => .inr limited⟩
  · exact .of_verdict hw (by rw [hr]; exact hv.symm)

/-- Climbs stacked across brackets, and a count. -/
theorem decided_of_stacked_climbs :
    ∃ lexemes, tokenize "a[>]^(^)b*2" = .ok lexemes ∧
      Decided (items lexemes) (parse "a[>]^(^)b*2") := by
  have hcount : (tokenize "a[>]^(^)b*2").map List.length = .ok 11 := by decide +kernel
  cases h : tokenize "a[>]^(^)b*2" with
  | error e => rw [h] at hcount; cases hcount
  | ok lexemes => exact ⟨lexemes, rfl, decided_of_tokenize h⟩

/-- The operator that waits is named, and not the one that arrives. -/
example : parse "a>[^]+b" = .error (.danglingOperator .child 1) := by cbv

end MarkupShorthand
