import Mathlib
import MarkupShorthand.Proofs.Abbreviation.States
import MarkupShorthand.Proofs.Markup.Enumeration

/-!
# The elements of an abbreviation

Which nodes of a tree were made of which element of its abbreviation (`written`): those that were
added from where the element is placed until the next one is. If no element has more than one `*`,
numbering that goes on across the copies of the nodes above counts the nodes of every element in the
order of the document (`enumerates_of_parse`). The nodes of the element that is being read are those
that operators apply to, and what is above them is enumerated (`Arena.Tells`); finished elements
are not touched again.
-/

namespace MarkupShorthand

open Arena

/-- An element of an abbreviation with the nodes that were made of it. -/
structure Written where
  name : String
  /-- How many `*` the element has. -/
  multiplications : Nat
  nodes : List NodeId
deriving DecidableEq

/-- The element with one more `*`, which added some nodes. -/
def Written.multiply (element : Written) (added : List NodeId) : Written :=
  { element with
    multiplications := element.multiplications + 1
    nodes := element.nodes ++ added }

/-- The nodes that an arena has and another does not have yet. -/
def Arena.newNodes (t t' : Arena) : List NodeId :=
  List.range' t.count (t'.count - t.count)

namespace Builder

/-- The elements after an item that leads from `b` to `b'`, the last one first. -/
def note (b b' : Builder) (elements : List Written) : Item → List Written
  | .literal literal =>
    match b.cursor, b.pending with
    | none, _ => ⟨literal.text, 0, b.arena.newNodes b'.arena⟩ :: elements
    | some _, none => elements
    | some _, some pending =>
      if pending.operator.isPositional then
        ⟨literal.text, 0, b.arena.newNodes b'.arena⟩ :: elements
      else if pending.operator = .multiply then
        elements.modifyHead (·.multiply (b.arena.newNodes b'.arena))
      else elements
  | _ => elements

/-- The elements after the remaining items, the last one first. -/
def elements (b : Builder) (past : List Written) : List Item → List Written
  | [] => past
  | item :: rest =>
    match b.read item with
    | .error _ => past
    | .ok b' => b'.elements (b.note b' past item) rest

end Builder

/-- The elements of an abbreviation, the last one first. -/
def written (abbreviation : String) : List Written :=
  match tokenize abbreviation with
  | .error _ => []
  | .ok lexemes => ({} : Builder).elements [] (items lexemes)

example : written "ul>li*2>a.x^p" =
    [⟨"p", 0, [5]⟩, ⟨"a", 0, [3, 4]⟩, ⟨"li", 1, [1, 2]⟩, ⟨"ul", 0, [0]⟩] := by
  cbv

namespace Arena

variable {t t' : Arena} {operand : Operand} {depth : Nat} {last : Written} {before : List Written}
  {touched : List NodeId}

theorem mem_newNodes {x : NodeId} (h : t.count ≤ t'.count) :
    x ∈ t.newNodes t' ↔ t.count ≤ x ∧ x < t'.count := by
  rw [newNodes, List.mem_range'_1, Nat.add_sub_cancel' h]

theorem range_append_newNodes (h : t.count ≤ t'.count) :
    List.range t.count ++ t.newNodes t' = List.range t'.count := by
  have happend := List.range'_append_1 (s := 0) (m := t.count) (n := t'.count - t.count)
  rw [Nat.zero_add, Nat.add_sub_cancel' h] at happend
  rw [newNodes, List.range_eq_range', List.range_eq_range', happend]

/-! ## While elements are written -/

/-- Whether the nodes of an element are enumerated. -/
def Counts (t : Arena) (element : Written) : Prop :=
  ∃ level, t.Enumerated (level + 1) fun c => ∃ id ∈ element.nodes, .node id = c

/-- How an arena that is being built stands to the elements that were written: operators apply to
the nodes of the last one, and what is above these is enumerated. -/
structure Tells (t : Arena) (depth : Nat) (operand : Operand) (last : Written)
    (before : List Written) : Prop where
  above : t.EnumeratedAbove depth operand
  mem_nodes : ∀ x, x ∈ last.nodes ↔ x ∈ operand.members
  lone : last.multiplications = 0 → t.Lone operand.members
  counts : ∀ element ∈ before, t.Counts element
  nodes_perm : ((last :: before).flatMap Written.nodes).Perm (List.range t.count)
  name_eq : ∀ element ∈ last :: before, ∀ id ∈ element.nodes, (t.node id).name = element.name

namespace Tells

theorem counts_last (h : t.Tells depth operand last before) : t.Counts last := by
  refine ⟨depth, (h.above 0).congr fun c => ?_⟩
  rw [mem_containersAbove]
  exact exists_congr fun id => and_congr_left fun _ => (h.mem_nodes id).symm

theorem lt_count (h : t.Tells depth operand last before) {element : Written} {id : NodeId}
    (he : element ∈ last :: before) (hid : id ∈ element.nodes) : id < t.count :=
  List.mem_range.1 (h.nodes_perm.mem_iff.1 (List.mem_flatMap.2 ⟨element, he, hid⟩))

/-- Finished elements have no node that operators apply to. -/
theorem not_mem (h : t.Tells depth operand last before) {element : Written} {id : NodeId}
    (he : element ∈ before) (hid : id ∈ element.nodes) : id ∉ operand.members := fun hm => by
  have hn := h.nodes_perm.nodup_iff.2 List.nodup_range
  rw [List.flatMap_cons, List.nodup_append] at hn
  exact hn.2.2 id ((h.mem_nodes id).2 hm) id (List.mem_flatMap.2 ⟨element, he, hid⟩) rfl

/-- Elements whose nodes are not touched stay enumerated. -/
theorem counts_extend (h : t.Tells depth operand last before) (ext : t.Extends t' touched)
    (hw : t.WellLinked) (hw' : t'.WellLinked) (hl : ∀ id ∈ touched, t.Leaf id) {element : Written}
    (he : element ∈ last :: before) (hc : t.Counts element)
    (hm : ∀ id ∈ element.nodes, id ∉ touched) : t'.Counts element := by
  obtain ⟨level, hlevel⟩ := hc
  refine ⟨level, hlevel.extend ext hw hw' hl ?_⟩
  rintro _ ⟨id, hid, rfl⟩
  exact ⟨h.lt_count he hid, fun x hx e => hm id hid (Container.node.inj e ▸ hx)⟩

section Operators

variable (h : t.Tells depth operand last before) (hw : t.WellLinked)
  (tips : Tips t depth operand.members)

include h hw tips

/-- A new element is placed, and the last one is finished. -/
theorem place (levels : Nat) (name : String) :
    let placed := t.appendToEach (t.containersAbove operand levels) name
    placed.1.Tells (depth + 1 - levels) placed.2 ⟨name, 0, t.newNodes placed.1⟩
      (last :: before) := by
  intro placed
  have added := tips.addsLeaves_appendToEach hw levels name
  have hmem := (tips.appendToEach hw levels name).2
  have hnew : ∀ x, x ∈ t.newNodes placed.1 ↔ x ∈ placed.2.members := fun x =>
    (mem_newNodes added.count_le).trans (hmem x).symm
  refine ⟨tips.enumeratedAbove_place hw levels name h.above, hnew,
    fun _ => tips.lone_place hw levels name, fun element he => ?_, ?_, fun element he id hid => ?_⟩
  · refine h.counts_extend added.extends hw added.wellLinked nofun he ?_ fun _ _ => nofun
    rcases List.mem_cons.1 he with rfl | he
    · exact h.counts_last
    · exact h.counts element he
  · rw [List.flatMap_cons, ← range_append_newNodes added.count_le]
    exact List.perm_append_comm.trans (h.nodes_perm.append_right _)
  · rcases List.mem_cons.1 he with rfl | he
    · exact tips.name_place hw levels name ((hnew id).1 hid)
    · rw [added.extends.name_eq id (h.lt_count he hid)]
      exact h.name_eq element he id hid

/-- Attributes are added to the last element. -/
theorem addAttributeTo (a : Attribute) :
    let attributed := t.addAttributeTo operand a
    attributed.1.Tells depth attributed.2 last before := by
  rw [addAttributeTo_eq]
  have ext := extends_retouch_attributes (t := t) a.addTo operand.members
  refine ⟨h.above.retouch hw tips _ _, ?_, ?_, fun element he => ?_, ?_,
    fun element he id hid => ?_⟩
  · simpa only [Operand.members_collapse] using h.mem_nodes
  · simpa only [Lone, Operand.members_collapse, containerOf_retouch] using h.lone
  · exact h.counts_extend ext hw (hw.retouch _) nofun (List.mem_cons_of_mem _ he)
      (h.counts element he) fun _ _ => nofun
  · rw [count_retouch]
    exact h.nodes_perm
  · rw [ext.name_eq id (h.lt_count he hid)]
    exact h.name_eq element he id hid

/-- The last element is multiplied for the first time. -/
theorem multiply (hm : last.multiplications = 0) {copies : Nat} (hpos : 1 ≤ copies) :
    let multiplied := t.multiplyEach operand copies
    multiplied.1.Tells depth multiplied.2 (last.multiply (t.newNodes multiplied.1)) before := by
  intro multiplied
  have added := tips.addsLeaves_multiplyEach hw copies
  have ext := tips.extends_multiplyEach hw copies
  have hmem := (tips.multiplyEach hw copies).2
  have hnodes : ∀ x, x ∈ (last.multiply (t.newNodes multiplied.1)).nodes ↔
      x ∈ multiplied.2.members := fun x => by
    rw [hmem, ← h.mem_nodes, ← mem_newNodes ext.count_le]
    exact List.mem_append
  refine ⟨tips.enumeratedAbove_multiply hw copies h.above (h.lone hm) hpos, hnodes, nofun,
    fun element he => ?_, ?_, fun element he id hid => ?_⟩
  · exact h.counts_extend ext hw added.wellLinked tips.leaf (List.mem_cons_of_mem _ he)
      (h.counts element he) fun id hid => h.not_mem he hid
  · rw [← range_append_newNodes ext.count_le]
    refine List.Perm.trans ?_ (h.nodes_perm.append_right _)
    rw [List.flatMap_cons, List.flatMap_cons, Written.multiply, List.append_assoc,
      List.append_assoc]
    exact List.perm_append_comm.append_left _
  · rcases List.mem_cons.1 he with rfl | he
    · obtain ⟨m, hm, hname, -⟩ := tips.exists_of_mem_multiplyEach hw copies ((hnodes id).1 hid)
      rw [hname]
      exact h.name_eq last List.mem_cons_self m ((h.mem_nodes m).2 hm)
    · have he := List.mem_cons_of_mem last he
      rw [ext.name_eq id (h.lt_count he hid)]
      exact h.name_eq element he id hid

end Operators

end Tells

end Arena

/-! ## Whole abbreviations -/

/-- Whether every element has one `*` at most. -/
def MultipliedOnce (elements : List Written) : Prop :=
  ∀ element ∈ elements, element.multiplications ≤ 1

namespace Builder

/-- A builder between two items and the elements that were written so far. -/
inductive Tracks : Builder → List Written → Prop where
  | start : Tracks {} []
  | going {t : Arena} {operand : Operand} {depth : Nat} {last : Written} {before : List Written}
    (waiting : Option Pending) (wellLinked : t.WellLinked) (tips : Tips t depth operand.members)
    (tells : t.Tells depth operand last before) :
    Tracks (.going t operand waiting) (last :: before)

variable {b b' : Builder} {item : Item} {rest : List Item} {past : List Written}

/-- The first literal is the first element. -/
theorem Tracks.first (name : String) :
    Tracks (.going (({} : Arena).append .root name) (.node 0) none) [⟨name, 0, [0]⟩] := by
  have hw := (wellLinked_empty.growsTo_append has_root name).1
  have tips : Tips (({} : Arena).append .root name) 0 (Operand.node 0).members :=
    Tips.root wellLinked_empty name
  refine .going none hw tips ⟨.first name, fun _ => Iff.rfl, fun _ x hx y hy _ => ?_, nofun, ?_, ?_⟩
  · rw [List.mem_singleton.1 hx, List.mem_singleton.1 hy]
  · exact .refl _
  · intro element he id hid
    rw [List.mem_singleton.1 he] at hid ⊢
    rw [List.mem_singleton.1 hid]
    rfl

/-- One more item never takes a `*` from an element. -/
theorem multipliedOnce_of_note (h : MultipliedOnce (b.note b' past item)) :
    MultipliedOnce past := by
  have of_cons : ∀ {new : Written}, MultipliedOnce (new :: past) → MultipliedOnce past :=
    fun h element he => h element (List.mem_cons_of_mem _ he)
  unfold note at h
  split at h
  · split at h
    · exact of_cons h
    · exact h
    · split at h
      · exact of_cons h
      · split at h
        · cases past with
          | nil => exact h
          | cons last before =>
            intro element he
            rcases List.mem_cons.1 he with rfl | he
            · exact Nat.le_of_succ_le (h _ List.mem_cons_self)
            · exact h element (List.mem_cons_of_mem _ he)
        · exact h
  · exact h

theorem multipliedOnce_of_elements (h : MultipliedOnce (b.elements past rest)) :
    MultipliedOnce past := by
  induction rest generalizing b past with
  | nil => exact h
  | cons item rest ih =>
    rw [elements] at h
    split at h
    · exact h
    · exact multipliedOnce_of_note (ih h)

theorem note_waiting (t : Arena) (operand : Operand) (pending : Pending) (b' : Builder)
    (past : List Written) (literal : Literal) :
    (going t operand (some pending)).note b' past (.literal literal) =
      if pending.operator.isPositional then ⟨literal.text, 0, t.newNodes b'.arena⟩ :: past
      else if pending.operator = .multiply then
        past.modifyHead (·.multiply (t.newNodes b'.arena))
      else past := rfl

theorem Tracks.reads (h : Tracks b past) (reads : Reads b item b')
    (once : MultipliedOnce (b.note b' past item)) : Tracks b' (b.note b' past item) := by
  cases reads with
  | first literal =>
    cases h
    exact .first literal.text
  | drop | reserved => exact h
  | wait | stack =>
    cases h with
    | going _ hw tips tells => exact .going _ hw tips tells
  | @resolve t operand pending literal resolved resolves =>
    cases h with
    | @going _ _ depth last before _ hw tips tells =>
      rw [note_waiting] at once ⊢
      cases resolves with
      | place hp =>
        rw [if_pos hp]
        exact .going none (tips.addsLeaves_appendToEach hw _ _).wellLinked
          (tips.appendToEach hw _ _).1 (tells.place hw tips _ _)
      | addAttribute name ho =>
        have hnot : pending.operator.isPositional = false ∧ pending.operator ≠ .multiply := by
          rcases ho with ho | ho <;> rw [ho] <;> exact ⟨rfl, nofun⟩
        rw [if_neg (by rw [hnot.1]; nofun), if_neg hnot.2]
        have tells' := tells.addAttributeTo hw tips ⟨name, [literal.text]⟩
        rw [addAttributeTo_eq] at tells' ⊢
        refine .going none (hw.retouch _) ?_ tells'
        rw [Operand.members_collapse]
        exact tips.retouch hw _ _ _
      | multiply ho hcount =>
        rw [if_neg (by rw [ho]; nofun), if_pos ho] at once ⊢
        have hm : last.multiplications = 0 :=
          Nat.le_zero.1 (Nat.le_of_succ_le_succ (once _ List.mem_cons_self))
        exact .going none (tips.addsLeaves_multiplyEach hw _).wellLinked
          (tips.multiplyEach hw _).1 (tells.multiply hw tips hm (one_le_of_count? hcount))
      | inert ho =>
        rw [if_neg (by rw [ho]; nofun), if_neg (by rw [ho]; nofun)]
        exact .going none hw tips tells

theorem Tracks.runs (h : Tracks b past) (runs : Runs b rest b')
    (once : MultipliedOnce (b.elements past rest)) : Tracks b' (b.elements past rest) := by
  induction runs generalizing past with
  | nil => exact h
  | cons sound read _ ih =>
    rw [elements, read] at once ⊢
    exact ih (h.reads (sound.reads read) (multipliedOnce_of_elements once)) once

end Builder

/-- The numbers that an arena's nodes get when numbering goes on across the copies of the nodes
above, given the elements that the nodes were made of. -/
structure Arena.Enumerates (t : Arena) (elements : List Written) : Prop where
  /-- Every node is written with its index. -/
  render_eq : ∀ mode indent, t.render ⟨mode, .stacked, indent⟩ =
    (({} : Output).marks mode (t.marks .stacked indent)).write
  /-- Every node was made of one element. -/
  nodes_perm : (elements.flatMap Written.nodes).Perm (List.range t.count)
  name_eq : ∀ element ∈ elements, ∀ id ∈ element.nodes, (t.node id).name = element.name
  /-- The nodes of an element are counted from 1 in the order of the document. -/
  indices_eq : ∀ element ∈ elements,
    (t.preorder.toList.filter (· ∈ element.nodes)).map (t.index .stacked) =
      List.range' 1 element.nodes.length

theorem Builder.Tracks.enumerates {t : Arena} {operand : Operand} {waiting : Option Pending}
    {past : List Written} (h : Tracks (.going t operand waiting) past) : t.Enumerates past := by
  cases h with
  | @going _ _ depth last before _ hw tips tells =>
    have counts : ∀ element ∈ last :: before, t.Counts element := fun element he => by
      rcases List.mem_cons.1 he with rfl | he
      · exact tells.counts_last
      · exact tells.counts element he
    have hn := tells.nodes_perm.nodup_iff.2 List.nodup_range
    exact {
      render_eq := fun mode indent => congrArg Output.write (Output.forest_eq_marks hw)
      nodes_perm := tells.nodes_perm
      name_eq := tells.name_eq
      indices_eq := fun element he =>
        let ⟨_, hlevel⟩ := counts element he
        hlevel.map_preorder hw ((List.nodup_flatMap.1 hn).1 element he) }

/-- Where no element has more than one `*`, the nodes of every element are counted. -/
theorem enumerates_of_parse {abbreviation : String} {t : Arena}
    (hp : parse abbreviation = .ok t)
    (once : ∀ element ∈ written abbreviation, element.multiplications ≤ 1) :
    t.Enumerates (written abbreviation) := by
  cases hl : tokenize abbreviation with
  | error e =>
    rw [parse_eq_readItems, hl] at hp
    cases hp
  | ok lexemes =>
    obtain ⟨operand, runs⟩ := Builder.runs_of_parse hl hp
    rw [written, hl] at once ⊢
    exact (Builder.Tracks.start.runs runs once).enumerates

/-- Six links in two items and two notes behind them, one in each item: the links are counted from 1
to 6 and the notes from 1 to 2. -/
theorem enumerates_of_nested_groups :
    ∃ t, parse "ul>li*2>a.x$*3+b" = .ok t ∧
      written "ul>li*2>a.x$*3+b" =
        [⟨"b", 0, [9, 10]⟩, ⟨"a", 1, [3, 4, 5, 6, 7, 8]⟩, ⟨"li", 1, [1, 2]⟩, ⟨"ul", 0, [0]⟩] ∧
      t.preorder.toList.map (t.index .stacked) = [1, 1, 1, 2, 3, 1, 2, 4, 5, 6, 2] ∧
      t.Enumerates (written "ul>li*2>a.x$*3+b") := by
  have hwritten : written "ul>li*2>a.x$*3+b" =
      [⟨"b", 0, [9, 10]⟩, ⟨"a", 1, [3, 4, 5, 6, 7, 8]⟩, ⟨"li", 1, [1, 2]⟩, ⟨"ul", 0, [0]⟩] := by
    cbv
  have hindices : (parse "ul>li*2>a.x$*3+b").map
      (fun t => t.preorder.toList.map (t.index .stacked)) =
        .ok [1, 1, 1, 2, 3, 1, 2, 4, 5, 6, 2] := by
    cbv
  cases hp : parse "ul>li*2>a.x$*3+b" with
  | error e => rw [hp] at hindices; cases hindices
  | ok t =>
    rw [hp] at hindices
    refine ⟨t, rfl, hwritten, Except.ok.inj hindices, enumerates_of_parse hp ?_⟩
    rw [hwritten]
    decide

end MarkupShorthand
