import MarkupShorthand.Proofs.Abbreviation.Mirror

/-!
# Reading a sketch

The builder and the draft of a sketch read the same items side by side (`Follows`). Every item that
the builder accepts keeps them together (`Follows.read`), so that at the end the forest of the arena
is the unfolded sketch (`forest_eq_unfoldAll_sketch`): groups, copies and climbs have added up to
nothing but the copies that the slots of a sketch list.
-/

namespace MarkupShorthand

open Arena

/-- A builder between two items and what has been read so far. -/
inductive Follows : Builder → Draft → Prop where
  | start : Follows {} {}
  | going {t : Arena} {operand : Operand} {sketches : List Sketch} {depth : Nat}
    (waiting : Option Pending) (wellLinked : t.WellLinked) (tips : Tips t depth operand.members)
    (shown : Shows t operand.members depth .root sketches) :
    Follows (.going t operand waiting) ⟨sketches, depth, waiting⟩

/-- The number that a `*` takes is what its literal's digits mean. -/
theorem ofDecimal_of_count? {text : String} {count : Nat} (h : count? text = some count) :
    Text.ofDecimal text.toList = count := by
  simp only [count?] at h
  split at h
  · split at h
    · exact Option.some.inj h
    · cases h
  · cases h

namespace Follows

variable {b b' : Builder} {d : Draft} {t t' : Arena} {operand operand' : Operand}
  {sketches : List Sketch} {depth : Nat} {waiting : Option Pending} {item : Item}

theorem first (name : String) :
    Follows (.going (({} : Arena).append .root name) (.node 0) none)
      { sketches := [{ name := name }] } := by
  have added := AddsLeaves.attach wellLinked_empty has_root (n := { name := name }) rfl
  have hlive : ∀ y, y ∈ (Operand.node 0).members ↔
      ({} : Arena).count ≤ y ∧ y < (({} : Arena).append .root name).count := fun y => by
    rw [Operand.members, List.mem_singleton, count_append]
    exact ⟨fun h => ⟨Nat.zero_le y, h ▸ Nat.zero_lt_one⟩, fun h => Nat.lt_one_iff.1 h.2⟩
  have shown : Shows (({} : Arena).append .root name) (Operand.node 0).members 0 .root
      ([] ++ [{ name := name }]) :=
    .gain added wellLinked_empty has_root (if_pos rfl) rfl
      (fun x hx => absurd hx List.not_mem_nil) hlive
  exact .going none added.wellLinked (Tips.root wellLinked_empty name) shown

section Operators

variable (hw : t.WellLinked) (tips : Tips t depth operand.members)
  (shown : Shows t operand.members depth .root sketches)

include hw tips shown

theorem place {levels : Nat} {name : String}
    (h : t.appendToEach (t.containersAbove operand levels) name = (t', operand')) :
    Follows (.going t' operand' none)
      (Draft.place ⟨sketches, depth, waiting⟩ levels name) := by
  have added := tips.addsLeaves_appendToEach hw levels name
  have next := (tips.appendToEach hw levels name).1
  have shown' := shown.append hw tips (depth + 1 - levels) (Nat.sub_le _ _) (Nat.zero_add _) name
  rw [h] at added next shown'
  exact .going none added.wellLinked next shown'

theorem addAttribute {a : Attribute} (h : t.addAttributeTo operand a = (t', operand')) :
    Follows (.going t' operand' none)
      (Draft.edit ⟨sketches, depth, waiting⟩ (.addAttribute a)) := by
  have shown' := shown.retouch hw tips a.addTo fun slot => slot
  simp only [List.map_id'] at shown'
  rw [addAttributeTo_eq, Prod.mk.injEq] at h
  obtain ⟨rfl, rfl⟩ := h
  refine .going none (hw.retouch _) ?_ ?_
  · rw [Operand.members_collapse]
    exact tips.retouch hw _ _ _
  · rw [Operand.members_collapse]
    exact shown'

theorem multiply {count : Nat} (h : t.multiplyEach operand count = (t', operand')) :
    Follows (.going t' operand' none)
      (Draft.edit ⟨sketches, depth, waiting⟩ (.multiply count)) := by
  have added := tips.addsLeaves_multiplyEach hw count
  have next := (tips.multiplyEach hw count).1
  have shown' := shown.multiply hw tips (Nat.zero_add _) count
  rw [h] at added next shown'
  exact .going none added.wellLinked next shown'

/-- Carrying out an operator keeps builder and draft together. -/
theorem resolve {pending : Pending} {literal : Literal}
    (h : t.resolve pending operand literal = .ok (t', operand')) :
    Follows (.going t' operand' none)
      (Draft.carryOut ⟨sketches, depth, waiting⟩ pending literal.text) := by
  unfold Draft.carryOut
  cases ho : pending.operator with
  | child | sibling | climb =>
    simp only [Arena.resolve, ho] at h
    split at h
    · cases h
    · exact place hw tips shown (Except.ok.inj h)
  | idAttribute | classAttribute =>
    simp only [Arena.resolve, ho] at h
    exact addAttribute hw tips shown (Except.ok.inj h)
  | multiply =>
    simp only [Arena.resolve, ho] at h
    split at h
    · cases h
    · rename_i count hcount
      split at h
      · cases h
      · rw [ofDecimal_of_count? hcount]
        exact multiply hw tips shown (Except.ok.inj h)
  | inert =>
    simp only [Arena.resolve, ho, Except.ok.injEq, Prod.mk.injEq] at h
    obtain ⟨rfl, rfl⟩ := h
    exact .going none hw tips shown

end Operators

theorem sketches_ne_nil (shown : Shows t operand.members depth c sketches) : sketches ≠ [] := by
  cases shown with
  | cursor => exact List.append_ne_nil_of_right_ne_nil _ (List.cons_ne_nil _ _)
  | above => exact List.append_ne_nil_of_right_ne_nil _ (List.cons_ne_nil _ _)

/-- An item that is accepted keeps builder and draft together. -/
theorem read (h : Follows b d) (hr : b.read item = .ok b') : Follows b' (d.read item) := by
  cases h with
  | start =>
    cases item with
    | literal literal => exact Except.ok.inj hr ▸ first literal.text
    | reserved => exact Except.ok.inj hr ▸ .start
    | operator operator offset => cases hr
  | @going t operand sketches depth waiting hw tips shown =>
    cases item with
    | literal literal =>
      cases waiting with
      | none =>
        obtain ⟨s, rest, rfl⟩ := List.exists_cons_of_ne_nil (sketches_ne_nil shown)
        exact Except.ok.inj hr ▸ .going none hw tips shown
      | some pending =>
        rw [Builder.read_waiting_literal] at hr
        cases hres : t.resolve pending operand literal with
        | error e => rw [hres] at hr; cases hr
        | ok resolved =>
          rw [hres] at hr
          exact Except.ok.inj hr ▸ resolve hw tips shown hres
    | reserved => exact Except.ok.inj hr ▸ .going waiting hw tips shown
    | operator operator offset =>
      cases waiting with
      | none => exact Except.ok.inj hr ▸ .going _ hw tips shown
      | some pending =>
        rw [Builder.read_waiting_operator] at hr
        split at hr
        · rename_i stacked hs
          obtain ⟨-, -, rfl⟩ := Builder.stacked?_eq_some.1 hs
          exact Except.ok.inj hr ▸ .going _ hw tips shown
        · cases hr

/-- An arena with a node for operators to apply to has a top-level node. -/
theorem isEmpty_eq_false (shown : Shows t operand.members depth .root sketches) :
    t.isEmpty = false := by
  rw [isEmpty, Array.isEmpty_eq_false_iff]
  exact fun h => shown.children_ne_nil (Array.toList_eq_nil_iff.2 h)

/-- At the end the arena has the forest that the sketches unfold to. -/
theorem forest (h : Follows b d) (hf : b.finish = .ok t) :
    t.forest = Sketch.unfoldAll d.sketches := by
  cases h with
  | start => cases hf
  | going waiting hw tips shown =>
    cases waiting with
    | some pending => cases hf
    | none =>
      rw [Builder.finish_idle, isEmpty_eq_false shown] at hf
      obtain rfl := Except.ok.inj hf
      exact shown.forest hw tips.leaf

theorem readItems (h : Follows b d) {rest : List Item} (hr : b.readItems rest = .ok t) :
    t.forest = Sketch.unfoldAll (rest.foldl Draft.read d).sketches := by
  induction rest generalizing b d with
  | nil => exact h.forest hr
  | cons item rest ih =>
    rw [Builder.readItems] at hr
    split at hr
    · cases hr
    · rename_i b' hb
      exact ih (h.read hb) hr

end Follows

/-- The tree of an abbreviation that is accepted is what its sketches unfold to. -/
theorem forest_eq_unfoldAll_sketch {abbreviation : String} {t : Arena}
    (h : parse abbreviation = .ok t) : t.forest = Sketch.unfoldAll (sketch abbreviation) := by
  rw [parse_eq_readItems] at h
  cases hl : tokenize abbreviation with
  | error e => rw [hl] at h; cases h
  | ok lexemes =>
    rw [hl] at h
    rw [sketch, hl]
    exact Follows.start.readItems h

/-- Seven nodes of three sketches: both levels of copies get the later operators. -/
theorem unfoldAll_sketch_of_nested_groups :
    ∃ t, parse "ul>li*2>a.x*2" = .ok t ∧ t.count = 7 ∧
      t.forest = Sketch.unfoldAll (sketch "ul>li*2>a.x*2") := by
  have hcount : (parse "ul>li*2>a.x*2").map Arena.count = .ok 7 := by decide +kernel
  cases h : parse "ul>li*2>a.x*2" with
  | error e => rw [h] at hcount; cases hcount
  | ok t =>
    rw [h] at hcount
    exact ⟨t, rfl, Except.ok.inj hcount, forest_eq_unfoldAll_sketch h⟩

example : sketch "ul>li*2>a.x*2" =
    [⟨"ul", [], [⟨1, 1⟩], [⟨"li", [], [⟨1, 2⟩, ⟨2, 2⟩],
      [⟨"a", [⟨"class", ["x"]⟩], [⟨1, 2⟩, ⟨2, 2⟩], []⟩]⟩]⟩] := by cbv

end MarkupShorthand
