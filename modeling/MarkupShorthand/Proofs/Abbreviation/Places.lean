import Mathlib.Algebra.BigOperators.Group.List.Basic
import MarkupShorthand.Proofs.Abbreviation.Size
import MarkupShorthand.Proofs.Abbreviation.Words
import MarkupShorthand.Proofs.Markup.Enumeration

/-!
# Numbers and places

Where numbering goes on across the copies of the nodes above, the slots on the way down to a node
are the digits of its number, each with as many values as there are copies
(`WellLinked.index_stacked`). So the number is at most the number of places that these slots stand
for (`Slot.before_lt_places`), and of these there are no more than nodes, however often a group was
multiplied: the containers at each level above an operand are at least as many as the places on the
way to any of them (`Arena.FilledAbove`), because every operator applies to all of them at once
(`Tips.filled_place`, `Tips.filled_multiply`).
-/

namespace MarkupShorthand

/-! ## Places -/

namespace Slot

/-- How many places the slots on a way down stand for. -/
def places (slots : List Slot) : Nat :=
  (slots.map Slot.count).prod

/-- How many of these places come before that of the slots themselves: for each slot, the earlier
copies, with all places that the slots further down have in each. -/
def before : List Slot → Nat
  | [] => 0
  | slot :: below => (slot.position - 1) * places below + before below

variable {slots : List Slot} {last : Slot}

theorem places_concat (slots : List Slot) (last : Slot) :
    places (slots ++ [last]) = places slots * last.count := by
  rw [places, List.map_append, List.prod_append, List.map_singleton, List.prod_singleton, places]

theorem before_concat (slots : List Slot) (last : Slot) :
    before (slots ++ [last]) = before slots * last.count + (last.position - 1) := by
  induction slots with
  | nil => simp [before, places]
  | cons first slots ih =>
    rw [List.cons_append, before, before, ih, places_concat, Nat.add_mul, Nat.mul_assoc,
      Nat.add_assoc]

/-- Whether a slot is one of the places that there are. -/
def IsPlace (slot : Slot) : Prop :=
  1 ≤ slot.position ∧ slot.position ≤ slot.count

theorem before_lt_places (h : ∀ slot ∈ slots, slot.IsPlace) : before slots < places slots := by
  induction slots with
  | nil => exact Nat.one_pos
  | cons first slots ih =>
    obtain ⟨⟨hpos, hle⟩, hrest⟩ := List.forall_mem_cons.1 h
    have hlast : first.position - 1 + 1 ≤ first.count := by omega
    calc before (first :: slots)
        < (first.position - 1) * places slots + places slots := by
          rw [before]
          exact Nat.add_lt_add_left (ih hrest) _
      _ = (first.position - 1 + 1) * places slots := (Nat.succ_mul _ _).symm
      _ ≤ first.count * places slots := Nat.mul_le_mul_right _ hlast

end Slot

namespace Arena

variable {t t' : Arena} {id : NodeId} {c : Container} {touched : List NodeId}
  {operand operand' : Operand} {depth depth' levels copies : Nat}

/-- The slots on the way down to what a container holds. -/
def slotsTo (t : Arena) (c : Container) : List Slot :=
  (t.pathTo c).map fun id => (t.node id).slot

theorem WellLinked.slotsTo_node (h : t.WellLinked) (id : NodeId) :
    t.slotsTo (.node id) = t.slotsTo (t.containerOf id) ++ [(t.node id).slot] := by
  rw [slotsTo, pathTo, h.path_eq, List.map_append]
  rfl

/-- What a slot is on the way down, it is of a node. -/
theorem WellLinked.forall_mem_slotsTo (h : t.WellLinked) {P : Slot → Prop}
    (hP : ∀ id < t.count, P (t.node id).slot) (hid : id < t.count) :
    ∀ slot ∈ t.slotsTo (.node id), P slot := by
  induction id using h.inductionDown with
  | top id hc =>
    rw [h.slotsTo_node, hc]
    exact List.forall_mem_singleton.2 (hP id hid)
  | step id parent hc ih =>
    rw [h.slotsTo_node, hc]
    exact List.forall_mem_append.2 ⟨ih (Nat.lt_trans (h.lt_of_containerOf hc) hid),
      List.forall_mem_singleton.2 (hP id hid)⟩

/-- The number of a node is that of its place. -/
theorem WellLinked.index_stacked (h : t.WellLinked) (hs : ∀ id < t.count, (t.node id).slot.IsPlace)
    (hid : id < t.count) : t.index .stacked id = 1 + Slot.before (t.slotsTo (.node id)) := by
  have step : ∀ (slots : List Slot) (slot : Slot), slot.IsPlace →
      Numbering.stacked.index slot (1 + Slot.before slots) =
        1 + Slot.before (slots ++ [slot]) := by
    intro slots slot hslot
    rw [Numbering.index, Slot.before_concat, Nat.add_sub_cancel_left, Nat.mul_comm]
    have := hslot.1
    omega
  induction id using h.inductionDown with
  | top id hc =>
    rw [h.index_eq, h.slotsTo_node, hc]
    exact step [] _ (hs id hid)
  | step id parent hc ih =>
    have hparent := ih (Nat.lt_trans (h.lt_of_containerOf hc) hid)
    rw [h.index_eq, h.slotsTo_node, hc, indexAbove, hparent]
    exact step _ _ (hs id hid)

/-! ## Growing -/

/-- Slots on a way down stay where none of its nodes is touched. -/
theorem Extends.slotsTo_eq (ext : t.Extends t' touched) (hw : t.WellLinked) (hw' : t'.WellLinked)
    (hl : ∀ id ∈ touched, t.Leaf id) (hc : t.Has c) (hm : ∀ id ∈ touched, c ≠ .node id) :
    t'.slotsTo c = t.slotsTo c := by
  cases c with
  | root => rfl
  | node id =>
    have hid : id < t.count := hc
    have hnot : id ∉ touched := fun h => hm id h rfl
    clear hc hm
    induction id using hw.inductionDown with
    | top id hc =>
      rw [hw'.slotsTo_node, hw.slotsTo_node, ext.slot_eq id hid hnot, ext.containerOf_eq id hid, hc]
      rfl
    | step id parent hc ih =>
      have hparent : parent ∉ touched := fun hp => hw.not_leaf hid hc (hl parent hp)
      rw [hw'.slotsTo_node, hw.slotsTo_node, ext.slot_eq id hid hnot, ext.containerOf_eq id hid, hc,
        ih (Nat.lt_trans (hw.lt_of_containerOf hc) hid) hparent]

/-- Whether the containers at each level above an operand are as many as the places on the way to
any of them. -/
def FilledAbove (t : Arena) (operand : Operand) : Prop :=
  ∀ levels, ∀ c ∈ t.containersAbove operand levels,
    Slot.places (t.slotsTo c) ≤ (t.containersAbove operand levels).length

/-- Whether there are as many nodes as places on the way to any of them. -/
def Filled (t : Arena) : Prop :=
  ∀ id < t.count, Slot.places (t.slotsTo (.node id)) ≤ t.count

/-- A node that operators apply to has no more places on its way than there are such nodes. -/
theorem FilledAbove.places_le (h : t.FilledAbove operand) (hid : id ∈ operand.members) :
    Slot.places (t.slotsTo (.node id)) ≤ operand.members.length := by
  have hlevel := h 0 (.node id) (mem_containersAbove.2 ⟨id, hid, rfl⟩)
  rwa [containersAbove, List.length_map] at hlevel

/-- Operators fill what they make, and leave the rest as it is. -/
theorem Filled.extend (h : t.Filled) (ext : t.Extends t' touched) (hw : t.WellLinked)
    (hw' : t'.WellLinked) (hl : ∀ id ∈ touched, t.Leaf id) (tips : Tips t' depth operand.members)
    (above : t'.FilledAbove operand)
    (hold : ∀ id < t'.count, id ∈ operand.members ∨ id < t.count ∧ id ∉ touched) :
    t'.Filled := by
  intro id hid
  rcases hold id hid with hm | ⟨hlt, hnot⟩
  · exact (above.places_le hm).trans tips.length_le_count
  · have hsame : t'.slotsTo (.node id) = t.slotsTo (.node id) :=
      ext.slotsTo_eq hw hw' hl (has_node.2 hlt) fun x hx e => hnot (Container.node.inj e ▸ hx)
    exact hsame ▸ (h id hlt).trans ext.count_le

/-- Where a level has the containers of an old one, and these are reached as before, they still are as
many as the places on the way. -/
theorem FilledAbove.level {n m : Nat} (h : t.FilledAbove operand)
    (hn' : (t'.containersAbove operand' n).Nodup) (hn : (t.containersAbove operand m).Nodup)
    (hiff : ∀ c, c ∈ t'.containersAbove operand' n ↔ c ∈ t.containersAbove operand m)
    (hs : ∀ c ∈ t.containersAbove operand m, t'.slotsTo c = t.slotsTo c) :
    ∀ c ∈ t'.containersAbove operand' n,
      Slot.places (t'.slotsTo c) ≤ (t'.containersAbove operand' n).length := by
  intro c hc
  have hold := (hiff c).1 hc
  rw [((List.perm_ext_iff_of_nodup hn' hn).2 hiff).length_eq, hs c hold]
  exact h m c hold

/-- If each of the containers some levels up holds `copies` new nodes, in slots of groups of as many,
there are as many new nodes as places on the way to them, and the levels further up are the old
ones. -/
theorem FilledAbove.extend (h : t.FilledAbove operand) (ext : t.Extends t' touched)
    (hw : t.WellLinked) (hw' : t'.WellLinked) (tips : Tips t depth operand.members)
    (hl : ∀ id ∈ touched, t.Leaf id)
    (hfar : ∀ n, ∀ id ∈ touched, .node id ∉ t.containersAbove operand (n + levels))
    (hc : ∀ c, (∃ id ∈ operand'.members, t'.containerOf id = c) ↔
      c ∈ t.containersAbove operand levels)
    (hs : ∀ id ∈ operand'.members, (t'.node id).slot.count = copies)
    (hlen : (t.containersAbove operand levels).length * copies ≤ operand'.members.length) :
    t'.FilledAbove operand' := by
  have hsame : ∀ n, ∀ c ∈ t.containersAbove operand (n + levels), t'.slotsTo c = t.slotsTo c :=
    fun n c hm => ext.slotsTo_eq hw hw' hl (hw.has_containersAbove tips.lt_count hm)
      fun id hid e => hfar n id hid (e ▸ hm)
  intro n c hm
  cases n with
  | zero =>
    obtain ⟨id, hid, rfl⟩ := mem_containersAbove.1 hm
    have habove : t'.containerOf id ∈ t.containersAbove operand (0 + levels) := by
      rw [Nat.zero_add]
      exact (hc _).1 ⟨id, hid, rfl⟩
    have hplaces := h _ _ habove
    rw [Nat.zero_add] at hplaces
    rw [Function.iterate_zero_apply, hw'.slotsTo_node, Slot.places_concat, hs id hid,
      hsame 0 _ habove, containersAbove, List.length_map]
    exact (Nat.mul_le_mul_right copies hplaces).trans hlen
  | succ n =>
    exact h.level (t'.nodup_containersAbove_succ operand' n) (nodup_containersAbove tips.nodup _)
      (fun c => ext.mem_containersAbove_succ hw tips.lt_count hc n) (hsame n) c hm

/-! ## Operators -/

/-- One node is in the one place that there is. -/
theorem filled_first (name : String) :
    (({} : Arena).append .root name).Filled ∧
      (({} : Arena).append .root name).FilledAbove (.node 0) := by
  have hw : (({} : Arena).append .root name).WellLinked := wellLinked_empty.attach has_root rfl
  have tips : Tips (({} : Arena).append .root name) 0 (Operand.node 0).members :=
    Tips.root wellLinked_empty name
  have hone : ∀ c, (({} : Arena).append .root name).Has c →
      Slot.places ((({} : Arena).append .root name).slotsTo c) = 1 := by
    intro c hc
    cases c with
    | root => rfl
    | node id =>
      obtain rfl : id = 0 := Nat.lt_one_iff.1 hc
      rw [hw.slotsTo_node]
      rfl
  refine ⟨fun id hid => ?_, fun levels c hc => ?_⟩
  · rw [hone _ (has_node.2 hid)]
    exact Nat.one_le_of_lt hid
  · rw [hone c (hw.has_containersAbove tips.lt_count hc)]
    exact List.length_pos_of_mem hc

namespace Tips

variable (tips : Tips t depth operand.members) (hw : t.WellLinked)

include tips hw

theorem filled_place (levels : Nat) (name : String) (h : t.Filled) (above : t.FilledAbove operand) :
    let placed := t.appendToEach (t.containersAbove operand levels) name
    placed.1.Filled ∧ placed.1.FilledAbove placed.2 := by
  intro placed
  have added := tips.addsLeaves_appendToEach hw levels name
  obtain ⟨next, hmem⟩ := tips.appendToEach hw levels name
  have hslot : ∀ id ∈ placed.2.members, (placed.1.node id).slot.count = 1 := fun id hid => by
    have he := tips.element_place hw levels name hid
    rw [added.wellLinked.element_eq] at he
    exact congrArg (·.slot.count) he
  have hlen : (t.containersAbove operand levels).length * 1 ≤ placed.2.members.length := by
    rw [Nat.mul_one, (t.count_appendToEach (t.containersAbove operand levels) name).2]
  have above' : placed.1.FilledAbove placed.2 :=
    above.extend added.extends hw added.wellLinked tips nofun (fun _ => nofun)
      (tips.containerOf_place hw levels name) hslot hlen
  refine ⟨h.extend added.extends hw added.wellLinked nofun next above' fun id hid => ?_, above'⟩
  rcases Nat.lt_or_ge id t.count with hold | hnew
  · exact .inr ⟨hold, List.not_mem_nil⟩
  · exact .inl ((hmem id).2 ⟨hnew, hid⟩)

theorem filled_multiply (copies : Nat) (hpos : 1 ≤ copies) (h : t.Filled)
    (above : t.FilledAbove operand) :
    let multiplied := t.multiplyEach operand copies
    multiplied.1.Filled ∧ multiplied.1.FilledAbove multiplied.2 := by
  intro multiplied
  have added := tips.addsLeaves_multiplyEach hw copies
  have ext := tips.extends_multiplyEach hw copies
  obtain ⟨next, hmem⟩ := tips.multiplyEach hw copies
  have hslot : ∀ id ∈ multiplied.2.members, (multiplied.1.node id).slot.count = copies :=
    fun id hid => let ⟨_, _, _, hcount⟩ := tips.exists_of_mem_multiplyEach hw copies hid; hcount
  have hlen : (t.containersAbove operand 1).length * copies ≤ multiplied.2.members.length := by
    have hmembers := (tips.members_multiplyEach hw copies).2.length_eq
    obtain ⟨further, rfl⟩ := Nat.exists_eq_add_of_le' hpos
    rw [List.length_append, List.length_range', Nat.add_sub_cancel] at hmembers
    calc (t.containersAbove operand 1).length * (further + 1)
        ≤ operand.members.length * (further + 1) :=
          Nat.mul_le_mul_right _ (length_containersAbove_le tips.nodup 1)
      _ = operand.members.length + operand.members.length * further := by
          rw [Nat.mul_succ, Nat.add_comm]
      _ = multiplied.2.members.length := hmembers.symm
  have above' : multiplied.1.FilledAbove multiplied.2 :=
    above.extend ext hw added.wellLinked tips tips.leaf
      (fun n id hid => tips.not_mem_containersAbove hw n hid)
      (tips.containerOf_multiplyEach hw copies) hslot hlen
  refine ⟨h.extend ext hw added.wellLinked tips.leaf next above' fun id hid => ?_, above'⟩
  rcases Nat.lt_or_ge id t.count with hold | hnew
  · by_cases hm : id ∈ operand.members
    · exact .inl ((hmem id).2 (.inl hm))
    · exact .inr ⟨hold, hm⟩
  · exact .inl ((hmem id).2 (.inr ⟨hnew, hid⟩))

theorem filled_addAttributeTo (a : Attribute) (h : t.Filled) (above : t.FilledAbove operand) :
    let attributed := t.addAttributeTo operand a
    attributed.1.Filled ∧ attributed.1.FilledAbove attributed.2 := by
  rw [addAttributeTo_eq]
  have ext := extends_retouch_attributes (t := t) a.addTo operand.members
  have hw' := hw.retouch (p := a.addTo) (q := fun slot => slot) operand.members
  refine ⟨fun id hid => ?_, fun levels c hc => ?_⟩
  · rw [count_retouch] at hid ⊢
    rw [ext.slotsTo_eq hw hw' nofun (has_node.2 hid) nofun]
    exact h id hid
  · have hnodup := (Operand.members_collapse operand.members).symm ▸ tips.nodup
    exact above.level (nodup_containersAbove hnodup levels)
      (nodup_containersAbove tips.nodup levels)
      (fun c => ext.mem_containersAbove hw tips.lt_count (Operand.members_collapse _) levels)
      (fun c hm => ext.slotsTo_eq hw hw' nofun (hw.has_containersAbove tips.lt_count hm) nofun) c hc

end Tips

theorem Resolves.filled {pending : Pending} {literal : Literal} {resolved : Arena × Operand}
    (h : Resolves t pending operand literal resolved) (hw : t.WellLinked)
    (tips : Tips t depth operand.members) (filled : t.Filled) (above : t.FilledAbove operand) :
    resolved.1.Filled ∧ resolved.1.FilledAbove resolved.2 := by
  cases h with
  | place => exact tips.filled_place hw _ _ filled above
  | addAttribute => exact tips.filled_addAttributeTo hw _ filled above
  | multiply _ hcount => exact tips.filled_multiply hw _ (one_le_of_count? hcount) filled above
  | inert => exact ⟨filled, above⟩

end Arena

open Arena

/-! ## Whole abbreviations -/

namespace Builder

/-- Whether there are as many nodes as places, of all nodes and of those that operators apply to. -/
def Filled (b : Builder) : Prop :=
  b.arena.Filled ∧ ∀ operand, b.cursor = some operand → b.arena.FilledAbove operand

theorem Reads.filled {b b' : Builder} {item : Item} (hb : b.Sound) (h : Reads b item b')
    (hf : b.Filled) : b'.Filled := by
  cases h with
  | first literal =>
    obtain ⟨filled, above⟩ := filled_first literal.text
    exact ⟨filled, fun operand ho => Option.some.inj ho ▸ above⟩
  | resolve resolves =>
    obtain ⟨-, depth, tips⟩ := hb.of_cursor rfl
    obtain ⟨filled, above⟩ := resolves.filled hb.wellLinked tips hf.1 (hf.2 _ rfl)
    exact ⟨filled, fun operand ho => Option.some.inj ho ▸ above⟩
  | drop | reserved | wait | stack => exact hf

end Builder

theorem filled_of_parse {abbreviation : String} {t : Arena} (h : parse abbreviation = .ok t) :
    t.Filled := by
  obtain ⟨_, filled, -⟩ := Builder.keeps_of_parse Builder.Reads.filled ⟨nofun, nofun⟩ h
  exact filled

/-- Where numbering goes on across the copies of the nodes above, the number of a node is that of its
place among those on its way down, of which there are no more than nodes. What it is made of is no
larger, and nothing is taken from zero. -/
theorem index_le_count_of_parse {abbreviation : String} {t : Arena}
    (h : parse abbreviation = .ok t) :
    (∀ mode indent, t.render ⟨mode, .stacked, indent⟩ =
      (({} : Output).marks mode (t.marks .stacked indent)).write) ∧
    ∀ id < t.count,
      let slot := (t.node id).slot
      let slots := (t.path id).map fun id => (t.node id).slot
      let above := t.indexAbove .stacked (t.containerOf id)
      (1 ≤ slot.position ∧ slot.position ≤ slot.count) ∧
      t.index .stacked id = 1 + Slot.before slots ∧
      1 ≤ t.index .stacked id ∧
      t.index .stacked id ≤ Slot.places slots ∧
      Slot.places slots ≤ t.count ∧
      1 ≤ above ∧
      t.index .stacked id = slot.count * (above - 1) + slot.position := by
  obtain ⟨hw, -, worded⟩ := worded_of_parse h
  have hs : ∀ id < t.count, (t.node id).slot.IsPlace := fun id hid =>
    ⟨(worded id hid).position_pos, (worded id hid).position_le⟩
  have hpos : ∀ c, t.Has c → 1 ≤ t.indexAbove .stacked c := by
    intro c hc
    cases c with
    | root => exact Nat.le_refl 1
    | node id =>
      rw [indexAbove, hw.index_stacked hs hc]
      exact Nat.le_add_right 1 _
  refine ⟨fun mode indent => congrArg Output.write (Output.forest_eq_marks hw), fun id hid => ?_⟩
  have hindex := hw.index_stacked hs hid
  have hbefore := Slot.before_lt_places (hw.forall_mem_slotsTo hs hid)
  refine ⟨hs id hid, hindex, hpos (.node id) (has_node.2 hid), ?_, filled_of_parse h id hid,
    hpos _ (hw.has_containerOf hid), hw.index_eq id⟩
  rw [hindex, Nat.add_comm]
  exact hbefore

/-- Items multiplied twice in two lists. The second `*` puts every item of the first into a group of
three, so that every number is that of two items. The last item is in the last of six places, and
there are fourteen nodes. -/
theorem index_le_count_of_repeated_multiplication :
    ∃ t, parse "ul*2>li.x$*2*3" = .ok t ∧ t.count = 14 ∧
      (List.range t.count).map (t.index .stacked) = [1, 2, 1, 4, 1, 4, 2, 3, 2, 3, 5, 6, 5, 6] ∧
      ((t.path 13).map fun id => (t.node id).slot) = [⟨2, 2⟩, ⟨3, 3⟩] ∧
      t.index .stacked 13 = 1 + Slot.before [⟨2, 2⟩, ⟨3, 3⟩] ∧
      t.index .stacked 13 ≤ Slot.places [⟨2, 2⟩, ⟨3, 3⟩] ∧
      Slot.places [⟨2, 2⟩, ⟨3, 3⟩] ≤ t.count := by
  have hparse : (parse "ul*2>li.x$*2*3").map (fun t => (t.count,
      (List.range t.count).map (t.index .stacked), (t.path 13).map fun id => (t.node id).slot)) =
        .ok (14, [1, 2, 1, 4, 1, 4, 2, 3, 2, 3, 5, 6, 5, 6], [⟨2, 2⟩, ⟨3, 3⟩]) := by
    decide +kernel
  cases hp : parse "ul*2>li.x$*2*3" with
  | error e => rw [hp] at hparse; cases hparse
  | ok t =>
    rw [hp] at hparse
    obtain ⟨hcount, hindices, hslots⟩ :
        t.count = 14 ∧ (List.range t.count).map (t.index .stacked) = _ ∧
          ((t.path 13).map fun id => (t.node id).slot) = _ := by
      simpa only [Prod.mk.injEq] using Except.ok.inj hparse
    obtain ⟨-, heq, -, hle, hplaces, -⟩ :=
      (index_le_count_of_parse hp).2 13 (hcount ▸ by decide)
    rw [hslots] at heq hle hplaces
    exact ⟨t, rfl, hcount, hindices, hslots, heq, hle, hplaces⟩

end MarkupShorthand
