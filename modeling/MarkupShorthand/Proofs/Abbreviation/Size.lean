import MarkupShorthand.Proofs.Abbreviation.States

/-!
# How large trees get

A multiplication is refused if it leads to more than `maxNodes` nodes. An operator that places an
element is not: it adds a node for each container above the current nodes, of which there are no
more than current nodes (`Arena.length_containersAbove_le`). So a tree has at most `maxNodes` nodes
when it was multiplied last, and as many again for each element placed behind that
(`count_le_of_parse`); it can have more than `maxNodes` (`limit_exceeded_behind_multiplication`).
-/

namespace MarkupShorthand

open Arena

/-! ## One operator -/

/-- How many elements were placed behind the last multiplication, after one more operator. -/
def Operator.tally (operator : Operator) (placed : Nat) : Nat :=
  if operator = .multiply then 0 else if operator.isPositional then placed + 1 else placed

namespace Arena

variable {t : Arena} {pending : Pending} {operand : Operand} {literal : Literal}
  {resolved : Arena × Operand} {depth placed levels : Nat} {ids : List NodeId}

/-- No more containers are above an operand than it has nodes. -/
theorem length_containersAbove_le (hn : operand.members.Nodup) (levels : Nat) :
    (t.containersAbove operand levels).length ≤ operand.members.length := by
  have hs : t.containersAbove operand levels ⊆
      operand.members.map fun id => t.above^[levels] (.node id) := fun c hc => by
    obtain ⟨id, hid, rfl⟩ := mem_containersAbove.1 hc
    exact List.mem_map_of_mem hid
  simpa using ((nodup_containersAbove hn levels).subperm hs).length_le

theorem Tips.length_le_count (h : Tips t depth ids) : ids.length ≤ t.count := by
  have hs : ids ⊆ List.range t.count := fun id hid => List.mem_range.2 (h.lt_count id hid)
  simpa using (h.nodup.subperm hs).length_le

theorem count_appendToEach (t : Arena) (containers : List Container) (name : String) :
    (t.appendToEach containers name).1.count = t.count + containers.length ∧
      (t.appendToEach containers name).2.members.length = containers.length := by
  refine ⟨count_foldl_append t containers name, ?_⟩
  rw [appendToEach, Operand.members_collapse, List.length_range']

/-- Only a multiplication is held to the limit; an element that is placed adds a node for each node
that it is placed by at most. -/
theorem Resolves.count_le (h : Resolves t pending operand literal resolved) (hw : t.WellLinked)
    (tips : Tips t depth operand.members) (hc : t.count ≤ maxNodes * (1 + placed))
    (hm : operand.members.length ≤ maxNodes) :
    resolved.1.count ≤ maxNodes * (1 + pending.operator.tally placed) ∧
      resolved.2.members.length ≤ maxNodes := by
  cases h with
  | place hp =>
    obtain ⟨hcount, hmembers⟩ :=
      t.count_appendToEach (t.containersAbove operand pending.levels) literal.text
    have hle := length_containersAbove_le (t := t) tips.nodup pending.levels
    have hne : pending.operator ≠ .multiply := fun e => by rw [e] at hp; cases hp
    rw [hcount, hmembers, Operator.tally, if_neg hne, if_pos hp, ← Nat.add_assoc, Nat.mul_succ]
    exact ⟨Nat.add_le_add hc (hle.trans hm), hle.trans hm⟩
  | addAttribute name ho =>
    have ht : pending.operator.tally placed = placed := by
      rcases ho with ho | ho <;> rw [ho] <;> rfl
    rw [addAttributeTo_eq, count_retouch, Operand.members_collapse, ht]
    exact ⟨hc, hm⟩
  | multiply ho hcount hfits =>
    rw [tips.countMultiplied_eq hw, ← (tips.members_multiplyEach hw _).1] at hfits
    refine ⟨?_, (tips.multiplyEach hw _).1.length_le_count.trans hfits⟩
    rw [Operator.tally, if_pos ho, Nat.add_zero, Nat.mul_one]
    exact hfits
  | inert ho =>
    rw [ho]
    exact ⟨hc, hm⟩

end Arena

/-! ## Whole abbreviations -/

/-- How many elements the remaining items place behind the last multiplication, if an operator waits
and some were placed already. -/
def placedLast (waiting : Option Operator) (placed : Nat) : List Item → Nat
  | [] => placed
  | .reserved :: rest => placedLast waiting placed rest
  | .operator operator _ :: rest => placedLast (waiting.or (some operator)) placed rest
  | .literal _ :: rest => placedLast none (waiting.elim placed (·.tally placed)) rest

namespace Builder

variable {b b' : Builder} {t : Arena} {placed : Nat} {item : Item} {rest : List Item}

/-- Whether the nodes and the current ones are within the bounds that hold behind the last
multiplication and some placed elements. -/
structure Bounded (b : Builder) (placed : Nat) : Prop where
  count_le : b.arena.count ≤ maxNodes * (1 + placed)
  members_le : ∀ operand, b.cursor = some operand → operand.members.length ≤ maxNodes

/-- How many elements were placed behind the last multiplication, after one more item. -/
def tally (b : Builder) (placed : Nat) : Item → Nat
  | .literal _ => b.pending.elim placed (·.operator.tally placed)
  | _ => placed

theorem Reads.bounded (h : Reads b item b') (hb : b.Sound) (bounds : b.Bounded placed) :
    b'.Bounded (b.tally placed item) := by
  cases h with
  | first literal =>
    refine ⟨?_, fun operand ho => Option.some.inj ho ▸ ?_⟩
    · exact Nat.mul_pos (by decide : 0 < maxNodes) (Nat.lt_add_right _ Nat.one_pos)
    · exact (by decide : 1 ≤ maxNodes)
  | drop => exact bounds
  | resolve resolves =>
    obtain ⟨-, depth, tips⟩ := hb.of_cursor rfl
    obtain ⟨hcount, hmembers⟩ :=
      resolves.count_le hb.wellLinked tips bounds.count_le (bounds.members_le _ rfl)
    exact ⟨hcount, fun operand ho => Option.some.inj ho ▸ hmembers⟩
  | reserved => exact bounds
  | wait => exact ⟨bounds.count_le, bounds.members_le⟩
  | stack => exact ⟨bounds.count_le, bounds.members_le⟩

/-- A run stays within the bounds that its items lead to. -/
theorem Runs.bounded (h : Runs b rest b') (bounds : b.Bounded placed) :
    b'.Bounded (placedLast (b.pending.map (·.operator)) placed rest) := by
  induction h generalizing placed with
  | nil => exact bounds
  | cons sound read _ ih =>
    have reads := sound.reads read
    have later := ih (reads.bounded sound bounds)
    cases reads <;> exact later

end Builder

/-- The tree of an abbreviation has at most `maxNodes` nodes, and as many again for each element
that is placed behind the last multiplication. -/
theorem count_le_of_parse {abbreviation : String} {lexemes : List Lexeme} {t : Arena}
    (ht : tokenize abbreviation = .ok lexemes) (hp : parse abbreviation = .ok t) :
    t.count ≤ maxNodes * (1 + placedLast none 0 (items lexemes)) := by
  obtain ⟨operand, runs⟩ := Builder.runs_of_parse ht hp
  exact (runs.bounded ⟨Nat.zero_le _, nofun⟩).count_le

/-- Two elements are placed behind the last of two multiplications. -/
theorem count_le_of_elements_behind_multiplication :
    ∃ lexemes t, tokenize "ul*2>li*3>a>p.x" = .ok lexemes ∧
      parse "ul*2>li*3>a>p.x" = .ok t ∧ placedLast none 0 (items lexemes) = 2 ∧
      t.count ≤ maxNodes * (1 + 2) := by
  have hread : (tokenize "ul*2>li*3>a>p.x").map (fun lexemes =>
      placedLast none 0 (items lexemes)) = .ok 2 := by decide +kernel
  have hok : (parse "ul*2>li*3>a>p.x").isOk = true := by decide +kernel
  cases ht : tokenize "ul*2>li*3>a>p.x" with
  | error e => rw [ht] at hread; cases hread
  | ok lexemes =>
    rw [ht] at hread
    have hplaced := Except.ok.inj hread
    cases hp : parse "ul*2>li*3>a>p.x" with
    | error e => rw [hp] at hok; cases hok
    | ok t => exact ⟨lexemes, t, rfl, rfl, hplaced, hplaced ▸ count_le_of_parse ht hp⟩

/-! ## Above the limit -/

namespace Arena

variable {t : Arena} {operand : Operand} {literal : Literal} {depth : Nat}

theorem resolve_multiply {copies : Nat} (offset : Nat) (hc : count? literal.text = some copies)
    (hfits : t.countMultiplied operand copies ≤ maxNodes) :
    t.resolve { operator := .multiply, offset := offset } operand literal =
      .ok (t.multiplyEach operand copies) := by
  simp only [resolve, hc]
  rw [if_neg (Nat.not_lt.2 hfits)]

/-- Below tips above the deepest level, `>` places an element in each of them. -/
theorem Tips.resolve_child (h : Tips t depth operand.members) (hd : depth < maxDepth)
    (offset : Nat) (literal : Literal) :
    t.resolve { operator := .child, offset := offset } operand literal =
      .ok (t.appendToEach (operand.members.map .node) literal.text) := by
  have hfits : (operand.members.map Container.node).any t.tooDeep = false := by
    rw [List.any_map, List.any_eq_false]
    intro id hid
    rw [Function.comp_apply, tooDeep, h.depth_eq id hid, decide_eq_true_eq]
    exact Nat.not_lt.2 hd
  have hnot : ¬ (t.containersAbove operand 0).any t.tooDeep = true := by
    rw [containersAbove, hfits]
    exact Bool.false_ne_true
  simp only [resolve]
  exact if_neg hnot

end Arena

/-- An element that is placed in a multiplied one is placed in every copy, however many there
are. -/
theorem readItems_child_of_multiplied (first numeral second : Literal) (offset offset' : Nat)
    {copies : Nat} (hc : count? numeral.text = some copies) (hfits : copies ≤ maxNodes) :
    ∃ t, ({} : Builder).readItems [.literal first, .operator .multiply offset, .literal numeral,
      .operator .child offset', .literal second] = .ok t ∧ t.count = copies + copies := by
  let one := ({} : Arena).append .root first.text
  let multiplied := one.multiplyEach (.node 0) copies
  let placed := multiplied.1.appendToEach (multiplied.2.members.map .node) second.text
  have hw : one.WellLinked := (wellLinked_empty.growsTo_append has_root first.text).1
  have tips : Tips one 0 (Operand.node 0).members := Tips.root wellLinked_empty first.text
  have tips' : Tips multiplied.1 0 multiplied.2.members := (tips.multiplyEach hw copies).1
  have hall : 1 + 1 * (copies - 1) = copies := by
    rw [Nat.one_mul, Nat.add_sub_cancel' (one_le_of_count? hc)]
  have hmul : one.resolve { operator := .multiply, offset := offset } (.node 0) numeral =
      .ok multiplied :=
    resolve_multiply offset hc (((tips.countMultiplied_eq hw copies).trans hall).trans_le hfits)
  have hchild : multiplied.1.resolve { operator := .child, offset := offset' } multiplied.2 second =
      .ok placed := tips'.resolve_child (by decide) offset' second
  have hw' : multiplied.1.WellLinked := (tips.addsLeaves_multiplyEach hw copies).wellLinked
  have hempty : placed.1.isEmpty = false :=
    (tips'.appendToEach hw' 0 second.text).1.isEmpty_eq_false
      (tips'.addsLeaves_appendToEach hw' 0 second.text).wellLinked
  refine ⟨placed.1, ?_, ?_⟩
  · calc
      _ = (Builder.going one (.node 0) (some { operator := .multiply, offset := offset })).readItems
          [.literal numeral, .operator .child offset', .literal second] := rfl
      _ = (Builder.going multiplied.1 multiplied.2
          (some { operator := .child, offset := offset' })).readItems [.literal second] :=
        Builder.readItems_of_read (Builder.read_of_resolve hmul) _
      _ = (Builder.going placed.1 placed.2 none).readItems [] :=
        Builder.readItems_of_read (Builder.read_of_resolve hchild) _
      _ = .ok placed.1 := by rw [Builder.readItems, Builder.finish_idle, hempty]; rfl
  · obtain ⟨hcount, hmembers⟩ := tips.members_multiplyEach hw copies
    obtain ⟨hadded, -⟩ :=
      multiplied.1.count_appendToEach (multiplied.2.members.map .node) second.text
    rw [hadded, List.length_map, hmembers.length_eq, List.length_append, List.length_range', hcount]
    exact congrArg₂ (· + ·) hall hall

/-- One element behind a multiplication: the bound is reached, at twice the limit. -/
theorem limit_exceeded_behind_multiplication :
    ∃ t, parse "li*100000>a" = .ok t ∧ t.count = 200000 ∧ maxNodes < t.count := by
  have hread : (tokenize "li*100000>a").map items = .ok [.literal ⟨"li", 0⟩, .operator .multiply 2,
      .literal ⟨"100000", 3⟩, .operator .child 9, .literal ⟨"a", 10⟩] := by decide +kernel
  obtain ⟨t, ht, hcount⟩ := readItems_child_of_multiplied ⟨"li", 0⟩ ⟨"100000", 3⟩ ⟨"a", 10⟩ 2 9
    (by decide +kernel : count? "100000" = some 100000) (by decide)
  refine ⟨t, ?_, hcount, hcount ▸ by decide⟩
  rw [parse_eq_readItems]
  cases hlex : tokenize "li*100000>a" with
  | error e => rw [hlex] at hread; cases hread
  | ok lexemes =>
    rw [hlex] at hread
    dsimp only
    rw [Except.ok.inj hread, ht]

end MarkupShorthand
