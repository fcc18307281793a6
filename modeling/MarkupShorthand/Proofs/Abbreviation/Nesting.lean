import MarkupShorthand.Proofs.Abbreviation.Continuation
import MarkupShorthand.Proofs.Abbreviation.Size

/-!
# How deep trees get

The nodes that an operator applies to are equally deep, and so are the nodes that it adds
(`Resolves.depth_new`): a level deeper for `>`, less with each climb, and as deep for a
multiplication. So the limit is met by all of the new nodes or by none, a plain `>` is the only
operator that meets it, and it is refused exactly where it would place a node one level below the
deepest (`nesting_limit`). Elements in one another get there (`parse_nested`).
-/

namespace MarkupShorthand

open Text Arena

namespace Arena

variable {t : Arena} {pending : Pending} {operand : Operand} {literal : Literal}
  {resolved : Arena × Operand} {depth levels id : Nat}

/-- Whether no node is below the deepest level. -/
def Shallow (t : Arena) : Prop :=
  ∀ id < t.count, t.depth id ≤ maxDepth

theorem tooDeep_iff {c : Container} : t.tooDeep c = true ↔ maxDepth < t.level c := by
  cases c with
  | root => exact iff_of_false Bool.false_ne_true (Nat.not_lt_zero _)
  | node id => exact decide_eq_true_iff

/-! ## One operator -/

namespace Tips

variable (tips : Tips t depth operand.members) (hw : t.WellLinked)
include tips hw

/-- All containers some levels up are too deep for new nodes, or none is. -/
theorem exists_tooDeep_iff :
    (∃ c ∈ t.containersAbove operand levels, t.tooDeep c = true) ↔
      maxDepth < depth + 1 - levels := by
  have hlevel : ∀ c ∈ t.containersAbove operand levels, t.level c = depth + 1 - levels :=
    fun c hc => ((hw.mem_containersAbove_level tips.depth_eq).1 hc).1
  obtain ⟨c, hc⟩ := List.exists_mem_of_ne_nil _ (tips.containersAbove_ne_nil levels)
  constructor
  · rintro ⟨c, hc, hdeep⟩
    rw [← hlevel c hc]
    exact tooDeep_iff.1 hdeep
  · intro hlt
    exact ⟨c, hc, tooDeep_iff.2 (by rwa [hlevel c hc])⟩

theorem depth_appendToEach (levels : Nat) (name : String) :
    let placed := (t.appendToEach (t.containersAbove operand levels) name).1
    (∀ id < t.count, placed.depth id = t.depth id) ∧
      ∀ id, t.count ≤ id → id < placed.count → placed.depth id = depth + 1 - levels := by
  intro placed
  obtain ⟨next, hmem⟩ := tips.appendToEach hw levels name
  have added := tips.addsLeaves_appendToEach hw levels name
  exact ⟨fun id hid => added.depth_eq hw hid,
    fun id hge hlt => next.depth_eq id ((hmem id).2 ⟨hge, hlt⟩)⟩

theorem depth_multiplyEach (copies : Nat) :
    let multiplied := (t.multiplyEach operand copies).1
    (∀ id < t.count, multiplied.depth id = t.depth id) ∧
      ∀ id, t.count ≤ id → id < multiplied.count → multiplied.depth id = depth := by
  intro multiplied
  obtain ⟨next, hmem⟩ := tips.multiplyEach hw copies
  have added := tips.addsLeaves_multiplyEach hw copies
  refine ⟨fun id hid => ?_, fun id hge hlt => next.depth_eq id ((hmem id).2 (.inr ⟨hge, hlt⟩))⟩
  rw [added.depth_eq (hw.markAll copies _) (by rwa [count_markAll])]
  exact hw.depth_retouch _ id

end Tips

namespace Resolves

variable (h : Resolves t pending operand literal resolved) (hw : t.WellLinked)
  (tips : Tips t depth operand.members)
include h hw tips

theorem depth_old (hid : id < t.count) : resolved.1.depth id = t.depth id := by
  cases h with
  | place => exact (tips.depth_appendToEach hw _ _).1 id hid
  | addAttribute =>
    rw [addAttributeTo_eq]
    exact hw.depth_retouch _ id
  | multiply => exact (tips.depth_multiplyEach hw _).1 id hid
  | inert => rfl

/-- New nodes are within the limit, and only a `>` without climbs places them deeper than the
operand. -/
theorem depth_new (hge : t.count ≤ id) (hlt : id < resolved.1.count) :
    (pending.operator.isPositional = true ∧ depth + 1 - pending.levels ≤ maxDepth ∧
      resolved.1.depth id = depth + 1 - pending.levels) ∨
    pending.operator.isPositional = false ∧ resolved.1.depth id = depth := by
  cases h with
  | place positional fits =>
    refine .inl ⟨positional, Nat.le_of_not_lt fun hdeep => ?_,
      (tips.depth_appendToEach hw _ _).2 id hge hlt⟩
    obtain ⟨c, hc, hc'⟩ := (tips.exists_tooDeep_iff hw).2 hdeep
    rw [fits c hc] at hc'
    cases hc'
  | addAttribute =>
    rw [addAttributeTo_eq, count_retouch] at hlt
    exact absurd hge (Nat.not_le.2 hlt)
  | multiply ho =>
    exact .inr ⟨by rw [ho]; rfl, (tips.depth_multiplyEach hw _).2 id hge hlt⟩
  | inert => exact absurd hge (Nat.not_le.2 hlt)

theorem shallow (hs : t.Shallow) : resolved.1.Shallow := by
  intro id hlt
  rcases Nat.lt_or_ge id t.count with hold | hnew
  · rw [h.depth_old hw tips hold]
    exact hs id hold
  · rcases h.depth_new hw tips hnew hlt with ⟨-, hfits, hd⟩ | ⟨-, hd⟩
    · rwa [hd]
    · obtain ⟨member, hm⟩ := List.exists_mem_of_ne_nil _ tips.ne_nil
      rw [hd, ← tips.depth_eq member hm]
      exact hs member (tips.lt_count member hm)

end Resolves

end Arena

/-- Only a `>` without climbs places nodes below the current ones. -/
theorem Pending.levels_eq_zero {pending : Pending} (hp : pending.operator.isPositional = true) :
    pending.levels = 0 ↔ pending.operator = .child ∧ pending.climbs = 0 := by
  obtain ⟨operator, offset, climbs⟩ := pending
  cases operator <;> simp_all [levels, Operator.levels?, Operator.isPositional]

/-! ## Whole abbreviations -/

theorem Builder.Reads.shallow {b b' : Builder} {item : Item} (hb : b.Sound) (h : Reads b item b')
    (hs : b.arena.Shallow) : b'.arena.Shallow := by
  cases h with
  | first literal =>
    intro id hid
    have tips := Tips.root wellLinked_empty literal.text
    have hzero : id = 0 := Nat.lt_one_iff.1 hid
    have hdepth : (({} : Arena).append .root literal.text).depth id = 0 :=
      tips.depth_eq id (List.mem_singleton.2 hzero)
    exact hdepth.trans_le (Nat.zero_le _)
  | resolve resolves =>
    obtain ⟨-, depth, tips⟩ := hb.of_cursor rfl
    exact resolves.shallow hb.wellLinked tips hs
  | drop | reserved | wait | stack => exact hs

variable {abbreviation : String}

theorem shallow_of_parse {t : Arena} (h : parse abbreviation = .ok t) : t.Shallow :=
  let ⟨_, hs⟩ := Builder.keeps_of_parse (I := (·.arena.Shallow)) Builder.Reads.shallow nofun h
  hs

namespace Resolution

variable (r : Resolution abbreviation)

/-- The tree with the nodes that the operator would place. -/
def placed : Arena :=
  (r.arena.appendToEach (r.arena.containersAbove r.operand r.pending.levels) r.literal.text).1

/-- Whether the operator would place a node one level below the deepest. -/
def Exceeds : Prop :=
  r.pending.operator.isPositional = true ∧
    ∃ id, r.arena.count ≤ id ∧ id < r.placed.count ∧ r.placed.depth id = maxDepth + 1

theorem wellLinked : r.arena.WellLinked :=
  (hasRead_of_steps r.tokenize_eq r.steps_eq).sound.wellLinked

theorem exists_tips : ∃ depth, Tips r.arena depth r.operand.members :=
  ((hasRead_of_steps r.tokenize_eq r.steps_eq).sound.of_cursor rfl).2

theorem shallow : r.arena.Shallow :=
  r.keeps (I := (·.arena.Shallow)) Builder.Reads.shallow nofun

theorem depth_le {depth : Nat} (tips : Tips r.arena depth r.operand.members) :
    depth ≤ maxDepth := by
  obtain ⟨member, hm⟩ := List.exists_mem_of_ne_nil _ tips.ne_nil
  rw [← tips.depth_eq member hm]
  exact r.shallow member (tips.lt_count member hm)

theorem exceeds_iff {depth : Nat} (tips : Tips r.arena depth r.operand.members) :
    r.Exceeds ↔ r.pending.operator.isPositional = true ∧
      maxDepth < depth + 1 - r.pending.levels := by
  have hle := r.depth_le tips
  have hnew := (tips.depth_appendToEach r.wellLinked r.pending.levels r.literal.text).2
  refine and_congr_right fun _ => ⟨?_, fun hlt => ?_⟩
  · rintro ⟨id, hge, hlt, hd⟩
    have := hnew id hge hlt
    rw [placed] at hd
    omega
  · obtain ⟨next, hmem⟩ := tips.appendToEach r.wellLinked r.pending.levels r.literal.text
    obtain ⟨id, hid⟩ := List.exists_mem_of_ne_nil _ next.ne_nil
    obtain ⟨hge, hcount⟩ := (hmem id).1 hid
    refine ⟨id, hge, hcount, ?_⟩
    rw [placed, hnew id hge hcount]
    omega

/-- An operator is refused for the depth exactly where it would exceed the limit. -/
theorem outcome_eq_nestingTooDeep {offset : Nat} :
    r.outcome = .error (.nestingTooDeep offset) ↔ r.Exceeds ∧ r.pending.offset = offset := by
  obtain ⟨depth, tips⟩ := r.exists_tips
  rw [r.exceeds_iff tips, ← tips.exists_tooDeep_iff r.wellLinked]
  constructor
  · intro h
    generalize he : ParseError.nestingTooDeep offset = e at h
    cases fails_of_eq_error h with
    | place positional deep => exact ⟨⟨positional, deep⟩, (ParseError.nestingTooDeep.inj he).symm⟩
    | count | size => cases he
  · rintro ⟨⟨positional, deep⟩, rfl⟩
    exact (Fails.place positional deep).eq_error

/-- An operator that exceeds the limit is a `>` without climbs. -/
theorem Exceeds.levels_eq_zero (h : r.Exceeds) : r.pending.levels = 0 := by
  obtain ⟨depth, tips⟩ := r.exists_tips
  have hle := r.depth_le tips
  have hlt := ((r.exceeds_iff tips).1 h).2
  omega

end Resolution

/-- An abbreviation is refused for its depth where an operator would place a node one level below
the deepest, and there alone. -/
theorem parse_eq_nestingTooDeep_iff {offset : Nat} :
    parse abbreviation = .error (.nestingTooDeep offset) ↔
      ∃ r : Resolution abbreviation, r.Exceeds ∧ r.pending.offset = offset := by
  constructor
  · intro h
    generalize he : ParseError.nestingTooDeep offset = e at h
    cases refused_of_parse h with
    | resolution r hr => exact ⟨r, r.outcome_eq_nestingTooDeep.1 (he ▸ hr)⟩
    | unknown ht =>
      obtain ⟨_, _, _, -, -, -, rfl⟩ := tokenize_eq_error_iff.1 ht
      cases he
    | waiting | arriving | empty => cases he
  · rintro ⟨r, hr⟩
    exact r.parse_eq_error (r.outcome_eq_nestingTooDeep.2 hr)

/-- The limit on the depth is exact. No node of a tree is below it; an abbreviation is refused
for it where a node would be; that is at a `>` without climbs, and the offset is that of the `>`;
no other operator places a node deeper than those that it applies to. -/
theorem nesting_limit (abbreviation : String) :
    (∀ t, parse abbreviation = .ok t → ∀ id < t.count, t.depth id ≤ maxDepth) ∧
    (∀ offset, parse abbreviation = .error (.nestingTooDeep offset) ↔
      ∃ r : Resolution abbreviation, r.Exceeds ∧ r.pending.offset = offset) ∧
    (∀ r : Resolution abbreviation, r.Exceeds →
      r.pending.operator = .child ∧ r.pending.climbs = 0 ∧
      ∃ before child between texts, r.past = before ++ child :: (between ++ texts) ∧
        child.token = .child ∧ child.start = r.pending.offset ∧
        (∀ lexeme ∈ between, lexeme.token.operator? = some .inert) ∧
        ∀ lexeme ∈ texts, lexeme.content?.isSome = true) ∧
    ∀ r : Resolution abbreviation, ¬ (r.pending.operator = .child ∧ r.pending.climbs = 0) →
      (∀ offset, r.outcome ≠ .error (.nestingTooDeep offset)) ∧
      ∀ resolved, r.outcome = .ok resolved → ∀ id, r.arena.count ≤ id → id < resolved.1.count →
        ∀ member ∈ r.operand.members, resolved.1.depth id ≤ r.arena.depth member := by
  refine ⟨fun t => shallow_of_parse, fun offset => parse_eq_nestingTooDeep_iff,
    fun r h => ?_, fun r hplain => ⟨fun offset h => ?_, fun resolved h id hge hlt member hm => ?_⟩⟩
  · obtain ⟨hchild, hclimbs⟩ := (Pending.levels_eq_zero h.1).1 h.levels_eq_zero
    obtain ⟨before, child, between, first, more, hpast, item, reserved, areTexts, -⟩ :=
      r.exists_lexemes
    refine ⟨hchild, hclimbs, before, child, between, first :: more, hpast, ?_, ?_, ?_, areTexts⟩
    · rw [hchild] at item
      exact Token.operator?_inj (Lexeme.operator?_of_item item).1 rfl nofun
    · exact (Lexeme.operator?_of_item item).2
    · exact fun lexeme hl => Lexeme.item_eq_reserved.1 (reserved hclimbs lexeme hl)
  · have exceeds := (r.outcome_eq_nestingTooDeep.1 h).1
    exact hplain ((Pending.levels_eq_zero exceeds.1).1 exceeds.levels_eq_zero)
  · obtain ⟨depth, tips⟩ := r.exists_tips
    rw [tips.depth_eq member hm]
    rcases (resolves_of_eq_ok h).depth_new r.wellLinked tips hge hlt with
      ⟨positional, -, hd⟩ | ⟨-, hd⟩
    · have hlevels : r.pending.levels ≠ 0 := fun hzero =>
        hplain ((Pending.levels_eq_zero positional).1 hzero)
      omega
    · exact hd.le

/-! ## Elements in one another -/

variable {first name : String} {levels : Nat}

/-- What the last operator does is how the abbreviation ends. -/
theorem Resolution.parse_eq_ok (r : Resolution abbreviation) {resolved : Arena × Operand}
    (hr : r.rest = []) (h : r.outcome = .ok resolved) :
    parse abbreviation = .ok resolved.1 ∧ operandAtEnd? abbreviation = some resolved.2 := by
  have ht : tokenize abbreviation = .ok r.past := by rw [r.tokenize_eq, hr, List.append_nil]
  have hf : (⟨r.arena, some r.operand, some r.pending, some r.literal⟩ : Builder).flush =
      .ok (.going resolved.1 resolved.2 none) := by
    rw [outcome] at h
    simp only [Builder.flush, h, Except.map]
    rfl
  have hempty : resolved.1.isEmpty = false := by
    obtain ⟨depth, tips⟩ := r.exists_tips
    obtain ⟨hw, _, tips'⟩ := (resolves_of_eq_ok h).tips r.wellLinked tips
    exact tips'.isEmpty_eq_false hw
  refine ⟨?_, operandAtEnd?_eq ht r.steps_eq hf⟩
  rw [parse_eq_of_steps r.tokenize_eq r.steps_eq, Builder.steps_finish_eq_flush _ r.ends, hf, hr]
  show (Builder.going resolved.1 resolved.2 none).finish = _
  rw [Builder.finish_idle, hempty]
  rfl

/-- The lexemes of a `>` and a name. -/
def childLexemes (offset : Nat) (name : String) : List Lexeme :=
  [⟨.child, offset, offset + 1⟩, ⟨.text name, offset + 1, offset + 1 + utf8Length name.toList⟩]

theorem cut_child (hn : IsText name) (offset : Nat) :
    Cut offset (">" ++ name).toList (childLexemes offset name) := by
  have opens : Token.child.Longest (name.toList ++ []) := trivial
  have ends : (Token.text name).Longest [] := ⟨hn, nofun⟩
  have cut : Cut offset ('>' :: (name.toList ++ [])) (childLexemes offset name) :=
    .token opens (.token ends (.nil _))
  rw [List.append_nil] at cut
  rwa [String.toList_append]

/-- A `>` and a name behind an abbreviation that is accepted: the name is for what the abbreviation
ends with. -/
theorem exists_resolution_child {t : Arena} {operand : Operand} (h : parse first = .ok t)
    (ho : operandAtEnd? first = some operand) (hn : IsText name) :
    ∃ r : Resolution (first ++ (">" ++ name)), r.rest = [] ∧ r.arena = t ∧ r.operand = operand ∧
      r.pending = { operator := .child, offset := utf8Length first.toList } ∧
      r.literal.text = name := by
  obtain ⟨lexemes, b, operand', ht, hs, hf⟩ := exists_of_parse_eq_ok h
  obtain rfl := Option.some.inj (ho.symm.trans (operandAtEnd?_eq ht hs hf))
  let offset := utf8Length first.toList
  have htok : tokenize (first ++ (">" ++ name)) =
      .ok (lexemes ++ childLexemes offset name ++ []) := by
    rw [tokenize_eq_ok_iff_cut, String.toList_append, List.append_nil]
    have cut := cut_child hn (0 + offset)
    rw [Nat.zero_add] at cut
    refine (tokenize_eq_ok_iff_cut.1 ht).append ((Nat.zero_add offset).symm ▸ cut) fun c hc => ?_
    rw [String.toList_append] at hc
    obtain rfl : '>' = c := Option.some.inj hc
    exact mem_punctuation.2 (.inl rfl)
  refine ⟨⟨lexemes ++ childLexemes offset name, [], htok, nofun, t, operand,
    { operator := .child, offset := offset }, ⟨name, offset + 1⟩, ?_⟩, rfl, rfl, rfl, rfl, rfl⟩
  rw [Builder.steps_append, hs, childLexemes]
  show b.steps (_ :: _) = _
  rw [b.steps_eq_flush rfl, hf]
  rfl

/-- An element with elements below it, each in the one before. -/
def nested : Nat → String
  | 0 => "a"
  | levels + 1 => nested levels ++ ">a"

theorem utf8Length_nested (levels : Nat) :
    utf8Length (nested levels).toList = 2 * levels + 1 := by
  induction levels with
  | zero => rfl
  | succ levels ih =>
    rw [nested, String.toList_append, utf8Length_append, ih]
    rfl

theorem isText_a : IsText "a" := by
  refine ⟨by decide, fun c hc => ?_⟩
  obtain rfl : c = 'a' := List.mem_singleton.1 hc
  decide

theorem exists_resolution_nested {t : Arena} {operand : Operand}
    (h : parse (nested levels) = .ok t) (ho : operandAtEnd? (nested levels) = some operand) :
    ∃ r : Resolution (nested (levels + 1)), r.rest = [] ∧ r.arena = t ∧ r.operand = operand ∧
      r.pending = { operator := .child, offset := 2 * levels + 1 } := by
  obtain ⟨r, hr, ha, hop, hp, -⟩ := exists_resolution_child h ho isText_a
  rw [utf8Length_nested] at hp
  exact ⟨r, hr, ha, hop, hp⟩

theorem parse_nested_of_le (hl : levels ≤ maxDepth) :
    ∃ t operand, parse (nested levels) = .ok t ∧ operandAtEnd? (nested levels) = some operand ∧
      Tips t levels operand.members := by
  induction levels with
  | zero =>
    have hparse : parse "a" = .ok (({} : Arena).append .root "a") := by decide +kernel
    have hend : operandAtEnd? "a" = some (.node 0) := by decide +kernel
    exact ⟨_, _, hparse, hend, Tips.root wellLinked_empty "a"⟩
  | succ levels ih =>
    obtain ⟨t, operand, h, ho, tips⟩ := ih (Nat.le_of_succ_le hl)
    obtain ⟨r, hr, rfl, rfl, hp⟩ := exists_resolution_nested h ho
    have outcome := tips.resolve_child hl (2 * levels + 1) r.literal
    rw [← hp] at outcome
    obtain ⟨hparse, hend⟩ := r.parse_eq_ok hr outcome
    exact ⟨_, _, hparse, hend, (tips.appendToEach r.wellLinked 0 r.literal.text).1⟩

/-- Elements in one another are accepted up to the limit and refused above it, for the `>` that
goes below it. -/
theorem parse_nested (levels : Nat) :
    (levels ≤ maxDepth → ∃ t, parse (nested levels) = .ok t ∧
      ∃ id < t.count, t.depth id = levels) ∧
    (maxDepth < levels → parse (nested levels) = .error (.nestingTooDeep (2 * maxDepth + 1))) := by
  constructor
  · intro hl
    obtain ⟨t, operand, h, -, tips⟩ := parse_nested_of_le hl
    obtain ⟨id, hid⟩ := List.exists_mem_of_ne_nil _ tips.ne_nil
    exact ⟨t, h, id, tips.lt_count id hid, tips.depth_eq id hid⟩
  · intro hl
    induction levels, hl using Nat.le_induction with
    | base =>
      obtain ⟨t, operand, h, ho, tips⟩ := parse_nested_of_le (Nat.le_refl maxDepth)
      obtain ⟨r, -, rfl, rfl, hp⟩ := exists_resolution_nested h ho
      refine r.parse_eq_error (r.outcome_eq_nestingTooDeep.2 ⟨(r.exceeds_iff tips).2 ?_, ?_⟩)
      · rw [hp]
        exact ⟨rfl, Nat.lt_succ_self maxDepth⟩
      · rw [hp]
    | succ levels _ ih =>
      have known := (cut_child isText_a 0).not_isUnknown
      exact parse_append_eq_error ih trivial ⟨'>', rfl, by decide⟩ known

end MarkupShorthand
