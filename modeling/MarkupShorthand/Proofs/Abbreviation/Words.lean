import MarkupShorthand.Proofs.Abbreviation.States

/-!
# The words of a tree

What the nodes of a parsed tree are made of: names and values are texts, `#` and `.` make the only
attributes there are, one of each at most, and a slot is one of the places that there are
(`Element.Worded`). Every operation keeps this (`worded_resolve`), so that it holds of all nodes of
the tree of an abbreviation and, level by level, of its forest (`legible_of_parse`).
-/

namespace MarkupShorthand

/-! ## Attributes -/

/-- Whether an attribute is one that `#` or `.` makes. -/
inductive Attribute.IsWorded : Attribute → Prop where
  | id {value : String} : IsText value → IsWorded ⟨idName, [value]⟩
  | classes {values : List String} : values ≠ [] → (∀ value ∈ values, IsText value) →
      IsWorded ⟨className, values⟩

/-- Whether attributes are such as `#` and `.` make, under different names. -/
structure Attribute.AreWorded (attributes : List Attribute) : Prop where
  nodup : (attributes.map name).Nodup
  isWorded : ∀ a ∈ attributes, a.IsWorded

namespace Attribute

variable {a added : Attribute} {attributes : List Attribute}

theorem idName_ne_className : idName ≠ className := by
  decide

theorem IsWorded.merge (h : a.IsWorded) (h' : added.IsWorded) (hn : a.name = added.name) :
    (a.merge added).IsWorded := by
  cases h with
  | id hv =>
    cases h' with
    | id hv' =>
      rw [Attribute.merge, if_neg idName_ne_className]
      exact .id hv'
    | classes => exact absurd hn idName_ne_className
  | @classes values hne hv =>
    cases h' with
    | id => exact absurd hn.symm idName_ne_className
    | classes _ hv' =>
      rw [Attribute.merge, if_pos rfl]
      exact .classes (fun e => hne (List.append_eq_nil_iff.1 e).1)
        (List.forall_mem_append.2 ⟨hv, hv'⟩)

/-- Names and values are texts. -/
theorem IsWorded.isText (h : a.IsWorded) : IsText a.name ∧ ∀ value ∈ a.values, IsText value := by
  cases h with
  | id hv =>
    have hname : IsText idName := ⟨by decide, List.all_eq_true.1 (by decide)⟩
    exact ⟨hname, List.forall_mem_singleton.2 hv⟩
  | classes _ hv =>
    have hname : IsText className := ⟨by decide, List.all_eq_true.1 (by decide)⟩
    exact ⟨hname, hv⟩

/-- Adding an attribute keeps one of each name. -/
theorem AreWorded.addTo (h : AreWorded attributes) (ha : added.IsWorded) :
    AreWorded (added.addTo attributes) := by
  induction attributes with
  | nil => exact ⟨List.nodup_singleton _, List.forall_mem_singleton.2 ha⟩
  | cons a rest ih =>
    obtain ⟨hmem, hnodup⟩ := List.nodup_cons.1 h.nodup
    obtain ⟨hfirst, hrest⟩ := List.forall_mem_cons.1 h.isWorded
    rw [Attribute.addTo]
    split
    · rename_i hn
      refine ⟨?_, List.forall_mem_cons.2 ⟨hfirst.merge ha hn, hrest⟩⟩
      rw [List.map_cons, name_merge]
      exact h.nodup
    · rename_i hn
      obtain ⟨hnodup', hrest'⟩ := ih ⟨hnodup, hrest⟩
      refine ⟨List.nodup_cons.2 ⟨fun hm => ?_, hnodup'⟩, List.forall_mem_cons.2 ⟨hfirst, hrest'⟩⟩
      exact (mem_map_name_addTo.1 hm).elim hn hmem

end Attribute

/-! ## Nodes -/

/-- Whether an element's own data is such as abbreviations give. -/
structure Element.Worded (e : Element) : Prop where
  isText : IsText e.name
  attributes : Attribute.AreWorded e.attributes
  position_pos : 1 ≤ e.slot.position
  position_le : e.slot.position ≤ e.slot.count

namespace Arena

/-- Whether the data of all nodes is such as abbreviations give. -/
def Worded (t : Arena) : Prop :=
  ∀ id < t.count, (t.leafElement id).Worded

variable {t t' : Arena} {a : Container → List Element} {ids : List NodeId}
  {p : List Attribute → List Attribute} {q : Slot → Slot} {pending : Pending} {operand : Operand}
  {literal : Literal} {resolved : Arena × Operand} {depth : Nat}

theorem AddsLeaves.worded (h : AddsLeaves t t' a) (hw : t.WellLinked) (ht : t.Worded)
    (ha : ∀ c, ∀ e ∈ a c, e.Worded) : t'.Worded := by
  intro id hid
  rcases Nat.lt_or_ge id t.count with hold | hnew
  · have hsame : t'.leafElement id = t.leafElement id := by
      rw [leafElement, h.node_eq id hold]
      rfl
    exact hsame ▸ ht id hold
  · rw [← h.wellLinked.element_leaf (h.leaf_new hnew)]
    exact ha _ _ (h.element_mem hw hid hnew)

theorem Worded.retouch (ht : t.Worded) (hn : ids.Nodup) (hlt : ∀ id ∈ ids, id < t.count)
    (h : ∀ id ∈ ids, (⟨(t.node id).name, p (t.node id).attributes, q (t.node id).slot, []⟩ :
      Element).Worded) : (t.retouch p q ids).Worded := by
  intro id hid
  rw [count_retouch] at hid
  rw [leafElement]
  by_cases hm : id ∈ ids
  · rw [node_retouch_of_mem hn hm (hlt id hm)]
    exact h id hm
  · rw [node_retouch_of_not_mem hm]
    exact ht id hid

theorem worded_first {name : String} (hn : IsText name) :
    (⟨name, [], {}, []⟩ : Element).Worded where
  isText := hn
  attributes := ⟨List.nodup_nil, List.forall_mem_nil _⟩
  position_pos := Nat.le_refl 1
  position_le := Nat.le_refl 1

theorem Tips.worded_addAttributeTo (tips : Tips t depth operand.members) (ht : t.Worded)
    {added : Attribute} (ha : added.IsWorded) : (t.addAttributeTo operand added).1.Worded := by
  rw [addAttributeTo_eq]
  refine ht.retouch tips.nodup tips.lt_count fun id hm => ?_
  have hnode := ht id (tips.lt_count id hm)
  exact { hnode with attributes := hnode.attributes.addTo ha }

theorem Tips.worded_multiplyEach (tips : Tips t depth operand.members) (hw : t.WellLinked)
    (ht : t.Worded) {count : Nat} (hpos : 1 ≤ count) : (t.multiplyEach operand count).1.Worded := by
  have hmarked : (t.markAll count operand.members).Worded := by
    refine ht.retouch tips.nodup tips.lt_count fun id hm => ?_
    have hnode := ht id (tips.lt_count id hm)
    exact { hnode with position_pos := Nat.le_refl 1, position_le := hpos }
  refine (tips.addsLeaves_multiplyEach hw count).worded (hw.markAll _ _) hmarked fun c e he => ?_
  obtain ⟨id, hm, he⟩ := List.mem_flatMap.1 he
  obtain ⟨position, hp, rfl⟩ := List.mem_map.1 he
  have hnode := ht id (tips.lt_count id (List.mem_filter.1 hm).1)
  have hrange := List.mem_range'_1.1 hp
  exact { hnode with
    position_pos := show 1 ≤ position by omega
    position_le := show position ≤ count by omega }

/-- An operator with a text keeps the data of nodes such as it is. -/
theorem worded_resolve (h : t.resolve pending operand literal = .ok resolved) (hw : t.WellLinked)
    (tips : Tips t depth operand.members) (ht : t.Worded) (hl : IsText literal.text) :
    resolved.1.Worded := by
  cases resolves_of_eq_ok h with
  | place =>
    refine (tips.addsLeaves_appendToEach hw _ _).worded hw ht fun c e he => ?_
    split at he
    · exact List.mem_singleton.1 he ▸ worded_first hl
    · cases he
  | addAttribute name ho =>
    rcases ho with ho | ho
    · simp only [resolve, ho] at h
      rw [← Except.ok.inj h]
      exact tips.worded_addAttributeTo ht (.id hl)
    · simp only [resolve, ho] at h
      rw [← Except.ok.inj h]
      exact tips.worded_addAttributeTo ht
        (.classes (List.cons_ne_nil _ _) (List.forall_mem_singleton.2 hl))
  | multiply _ hcount => exact tips.worded_multiplyEach hw ht (one_le_of_count? hcount)
  | inert => exact ht

end Arena

/-! ## Whole abbreviations -/

open Arena

variable {abbreviation : String} {lexemes : List Lexeme} {t : Arena}

/-- Texts that join are a text. -/
theorem Item.isText_of_mem_joinTo {first : Item} {rest : List Item} {literal : Literal}
    (hm : .literal literal ∈ first.joinTo rest)
    (hf : ∀ literal, first = .literal literal → IsText literal.text)
    (hr : ∀ literal, .literal literal ∈ rest → IsText literal.text) : IsText literal.text := by
  unfold joinTo at hm
  split at hm
  · rename_i one two rest
    rcases List.mem_cons.1 hm with e | hm
    · obtain rfl := Item.literal.inj e
      exact (hf one rfl).append (hr two List.mem_cons_self)
    · exact hr literal (List.mem_cons_of_mem _ hm)
  · rcases List.mem_cons.1 hm with e | hm
    · exact hf literal e.symm
    · exact hr literal hm

theorem AreTexts.isText_of_mem_items (h : AreTexts lexemes) :
    ∀ literal, .literal literal ∈ items lexemes → IsText literal.text := by
  induction lexemes with
  | nil => exact fun _ hm => absurd hm List.not_mem_nil
  | cons lexeme rest ih =>
    obtain ⟨hfirst, hrest⟩ := List.forall_mem_cons.1 h
    refine fun literal hm => Item.isText_of_mem_joinTo hm (fun text e => ?_) (ih hrest)
    exact hfirst _ (by rw [lexeme.content?_eq, e])

/-- What the items of texts lead to. -/
theorem Builder.Runs.worded {b b' : Builder} {rest : List Item} (h : Runs b rest b')
    (ht : ∀ literal, .literal literal ∈ rest → IsText literal.text) (hb : b.arena.Worded) :
    b'.Sound ∧ b'.arena.Worded := by
  induction h with
  | nil sound => exact ⟨sound, hb⟩
  | @cons b b' b'' item rest sound hr _ ih =>
    refine ih (fun literal hm => ht literal (List.mem_cons_of_mem _ hm)) ?_
    cases sound.reads hr with
    | first literal =>
      have added := AddsLeaves.attach wellLinked_empty has_root (n := { name := literal.text }) rfl
      refine added.worded wellLinked_empty nofun fun c e he => ?_
      split at he
      · exact List.mem_singleton.1 he ▸ worded_first (ht literal List.mem_cons_self)
      · cases he
    | @resolve t operand pending literal resolved =>
      obtain ⟨-, depth, tips⟩ := sound.of_cursor rfl
      rw [read_waiting_literal] at hr
      cases hres : t.resolve pending operand literal with
      | error e => rw [hres] at hr; cases hr
      | ok resolved' =>
        rw [hres] at hr
        have harena := congrArg Builder.arena (Except.ok.inj hr)
        exact harena ▸ worded_resolve hres sound.wellLinked tips hb (ht literal List.mem_cons_self)
    | drop | reserved | wait | stack => exact hb

theorem worded_of_parse (h : parse abbreviation = .ok t) :
    t.WellLinked ∧ t.isEmpty = false ∧ t.Worded := by
  cases ht : tokenize abbreviation with
  | error e =>
    rw [parse_eq_readItems, ht] at h
    cases h
  | ok lexemes =>
    obtain ⟨operand, runs⟩ := Builder.runs_of_parse ht h
    obtain ⟨sound, worded⟩ :=
      runs.worded (areTexts_of_tokenize ht).isText_of_mem_items nofun
    obtain ⟨-, depth, tips⟩ := sound.of_cursor rfl
    exact ⟨sound.wellLinked, tips.isEmpty_eq_false sound.wellLinked, worded⟩

/-- Whether the data of an element and of all below it is such as abbreviations give. -/
inductive Element.Legible : Element → Prop where
  | mk {e : Element} : e.Worded → (∀ child ∈ e.children, child.Legible) → e.Legible

theorem Arena.WellLinked.legible (hw : t.WellLinked) (ht : t.Worded) {id : NodeId}
    (hid : id < t.count) : (t.element id).Legible := by
  induction id using hw.inductionUp with
  | step id ih =>
    have hnode := ht id hid
    refine .mk (by rw [hw.element_eq]; exact { hnode with }) fun child hm => ?_
    rw [hw.children_element] at hm
    obtain ⟨x, hx, rfl⟩ := List.mem_map.1 hm
    exact ih x hx (hw.lt_count (c := .node id) hx)

/-- The forest of an abbreviation is made of texts. -/
theorem legible_of_parse (h : parse abbreviation = .ok t) : ∀ e ∈ t.forest, e.Legible := by
  obtain ⟨hw, -, ht⟩ := worded_of_parse h
  intro e he
  obtain ⟨id, hid, rfl⟩ := List.mem_map.1 he
  exact hw.legible ht (hw.lt_count (c := .root) hid)

theorem forest_ne_nil_of_parse (h : parse abbreviation = .ok t) : t.forest ≠ [] := by
  obtain ⟨-, hempty, -⟩ := worded_of_parse h
  intro e
  rw [forest, List.map_eq_nil_iff, Array.toList_eq_nil_iff] at e
  rw [isEmpty, e] at hempty
  cases hempty

theorem sizes_forest_of_parse (h : parse abbreviation = .ok t) :
    Element.sizes t.forest = t.count := by
  have hw := (worded_of_parse h).1
  rw [← hw.sum_subtreeSize, Element.sizes_eq_sum, forest, List.map_map]
  refine congrArg List.sum (List.map_congr_left fun id hid => ?_)
  exact (hw.subtreeSize_eq (hw.lt_count (c := .root) hid)).symm

end MarkupShorthand
