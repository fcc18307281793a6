import MarkupShorthand.Proofs.Arena.Climb

/-!
# Attributes added one after another

What a node has after any number of additions (`Attribute.collected`): one attribute for each name,
in the order in which the names were first added. Of classes all that were added count, of any other
name the last addition (`Attribute.valuesAfter`). One more addition to such attributes makes such
attributes (`Attribute.addTo_collected`), and so whole histories do
(`Arena.attributes_addAttributes`).
-/

namespace MarkupShorthand

namespace Attribute

variable {a added : Attribute} {names : List String} {history history' : List Attribute}
  {name : String} {f : String → List String}

/-- The additions to a name, in order. -/
def additions (history : List Attribute) (name : String) : List Attribute :=
  history.filter (·.name = name)

/-- The values of a name after some additions. -/
def valuesAfter (history : List Attribute) (name : String) : List String :=
  if name = className then (additions history name).flatMap values
  else ((additions history name).getLast?.map values).getD []

/-- The attributes that some additions come to. -/
def collected (history : List Attribute) : List Attribute :=
  (history.map Attribute.name).eraseDups.map fun name => ⟨name, valuesAfter history name⟩

/-! ## One more addition -/

theorem additions_concat (history : List Attribute) (added : Attribute) (name : String) :
    additions (history ++ [added]) name =
      if added.name = name then additions history name ++ [added] else additions history name := by
  simp only [additions, List.filter_append, List.filter_cons, List.filter_nil, decide_eq_true_eq]
  split
  · rfl
  · exact List.append_nil _

/-- The values of the name that is added to are those that merging gives. -/
theorem merge_valuesAfter (history : List Attribute) (added : Attribute) :
    merge ⟨added.name, valuesAfter history added.name⟩ added =
      ⟨added.name, valuesAfter (history ++ [added]) added.name⟩ := by
  rw [valuesAfter, valuesAfter, additions_concat, if_pos rfl, merge]
  dsimp only
  split
  · rw [List.flatMap_append, List.flatMap_singleton]
  · rw [List.getLast?_concat]
    rfl

theorem valuesAfter_of_ne (history : List Attribute) (h : added.name ≠ name) :
    valuesAfter (history ++ [added]) name = valuesAfter history name := by
  rw [valuesAfter, valuesAfter, additions_concat, if_neg h]

theorem additions_ne_nil (h : name ∈ history.map Attribute.name) : additions history name ≠ [] := by
  obtain ⟨a, ha, hname⟩ := List.mem_map.1 h
  exact List.ne_nil_of_mem (List.mem_filter.2 ⟨ha, decide_eq_true hname⟩)

theorem valuesAfter_of_not_mem (h : added.name ∉ history.map Attribute.name) :
    valuesAfter (history ++ [added]) added.name = added.values := by
  have hnone : additions history added.name = [] := List.filter_eq_nil_iff.2 fun a ha e =>
    h (List.mem_map.2 ⟨a, ha, of_decide_eq_true e⟩)
  rw [valuesAfter, additions_concat, if_pos rfl, hnone]
  split
  · exact List.append_nil _
  · rfl

/-- Of names that are there once, the one that is added to keeps its place, and a new one comes
last. -/
theorem addTo_map (hn : names.Nodup) :
    added.addTo (names.map fun name => ⟨name, f name⟩) =
      if added.name ∈ names then
        names.map fun name =>
          if name = added.name then merge ⟨name, f name⟩ added else ⟨name, f name⟩
      else (names.map fun name => ⟨name, f name⟩) ++ [added] := by
  induction names with
  | nil => rfl
  | cons first rest ih =>
    obtain ⟨hfirst, hrest⟩ := List.nodup_cons.1 hn
    rw [List.map_cons, addTo]
    by_cases h : first = added.name
    · have hothers : ∀ name ∈ rest, name ≠ added.name := fun name hm e => hfirst (h ▸ e ▸ hm)
      rw [if_pos h, if_pos (h ▸ List.mem_cons_self), List.map_cons, if_pos h]
      exact congrArg _ (List.map_congr_left fun name hm => (if_neg (hothers name hm)).symm)
    · have hmem : added.name ∈ first :: rest ↔ added.name ∈ rest := by
        rw [List.mem_cons, or_iff_right (Ne.symm h)]
      rw [if_neg h, ih hrest, if_congr hmem rfl rfl]
      split
      · rw [List.map_cons, if_neg h]
      · rfl

theorem addTo_collected (history : List Attribute) (added : Attribute) :
    added.addTo (collected history) = collected (history ++ [added]) := by
  rw [collected, addTo_map (nodup_eraseDups _), collected, List.map_append, List.map_singleton,
    eraseDups_concat]
  simp only [List.mem_eraseDups]
  split
  · refine List.map_congr_left fun name _ => ?_
    split
    · rename_i hname
      subst hname
      exact merge_valuesAfter history added
    · rename_i hname
      rw [valuesAfter_of_ne history (Ne.symm hname)]
  · rename_i hnew
    rw [List.map_append, List.map_singleton, valuesAfter_of_not_mem hnew]
    refine congrArg (· ++ [added]) (List.map_congr_left fun name hm => ?_)
    rw [valuesAfter_of_ne history fun e => hnew (e ▸ List.mem_eraseDups.1 hm)]

/-! ## Whole histories -/

theorem foldl_addTo (history : List Attribute) :
    history.foldl (fun attributes added => added.addTo attributes) [] = collected history := by
  induction history using List.reverseRecOn with
  | nil => rfl
  | append_singleton history added ih => rw [List.foldl_concat, ih, addTo_collected]

theorem map_name_collected (history : List Attribute) :
    (collected history).map Attribute.name = (history.map Attribute.name).eraseDups := by
  rw [collected, List.map_map]
  exact List.map_id _

theorem eq_of_mem_collected (h : a ∈ collected history) :
    a.name ∈ history.map Attribute.name ∧ a.values = valuesAfter history a.name := by
  obtain ⟨name, hname, rfl⟩ := List.mem_map.1 h
  exact ⟨List.mem_eraseDups.1 hname, rfl⟩

/-- What is found of a name other than that of the classes is what was added last. -/
theorem getLast?_additions (h : a ∈ collected history) (hc : a.name ≠ className) :
    (additions history a.name).getLast? = some a := by
  obtain ⟨hname, hvalues⟩ := eq_of_mem_collected h
  obtain ⟨last, hlast⟩ : ∃ last, (additions history a.name).getLast? = some last :=
    ⟨_, List.getLast?_eq_some_getLast (additions_ne_nil hname)⟩
  have hsame : last.name = a.name :=
    of_decide_eq_true (List.mem_filter.1 (List.mem_of_getLast? hlast)).2
  rw [valuesAfter, if_neg hc, hlast] at hvalues
  obtain ⟨name, values⟩ := a
  obtain ⟨name', values'⟩ := last
  obtain rfl : name' = name := hsame
  obtain rfl : values = values' := hvalues
  exact hlast

/-- Histories with the same names in the same order, the same classes, and the same last additions
to the other names come to the same. -/
theorem collected_congr (hnames : (history'.map Attribute.name).eraseDups =
      (history.map Attribute.name).eraseDups)
    (hclass : additions history' className = additions history className)
    (hothers : ∀ name ≠ className,
      (additions history' name).getLast? = (additions history name).getLast?) :
    collected history' = collected history := by
  rw [collected, hnames, collected]
  refine List.map_congr_left fun name _ => congrArg (Attribute.mk name) ?_
  rw [valuesAfter, valuesAfter]
  split
  · rename_i hname
    rw [hname, hclass]
  · rename_i hname
    rw [hothers name hname]

end Attribute

/-- Where there is one attribute of each name, a name finds its attribute. -/
theorem Node.attribute?_eq_some {node : Node} (hn : (node.attributes.map Attribute.name).Nodup)
    {name : String} {a : Attribute} :
    node.attribute? name = some a ↔ a ∈ node.attributes ∧ a.name = name := by
  constructor
  · intro h
    exact ⟨List.mem_of_find?_eq_some h, by simpa using List.find?_some h⟩
  · rintro ⟨ha, rfl⟩
    obtain ⟨found, hfound⟩ : ∃ found, node.attribute? a.name = some found :=
      Option.isSome_iff_exists.1 (List.find?_isSome.2 ⟨a, ha, decide_eq_true rfl⟩)
    have hsame : found.name = a.name := by simpa using List.find?_some hfound
    rw [hfound, List.inj_on_of_nodup_map hn (List.mem_of_find?_eq_some hfound) ha hsame]

namespace Arena

variable {t : Arena} {id : NodeId}

/-- The arena with attributes added to a node one after another. -/
def addAttributes (t : Arena) (id : NodeId) (history : List Attribute) : Arena :=
  history.foldl (·.addAttribute id ·) t

theorem node_addAttributes (hid : id < t.count) (history : List Attribute) :
    (t.addAttributes id history).node id =
      { t.node id with
        attributes :=
          history.foldl (fun attributes added => added.addTo attributes) (t.node id).attributes } := by
  induction history generalizing t with
  | nil => rfl
  | cons added history ih =>
    have hnode : (t.addAttribute id added).node id =
        { t.node id with attributes := added.addTo (t.node id).attributes } := by
      rw [addAttribute, node_modify, if_pos ⟨rfl, hid⟩]
    rw [addAttributes, List.foldl_cons, ← addAttributes, ih (by rwa [count_addAttribute]), hnode]
    rfl

theorem attributes_addAttributes (hid : id < t.count) (hnone : (t.node id).attributes = [])
    (history : List Attribute) :
    ((t.addAttributes id history).node id).attributes = Attribute.collected history := by
  rw [node_addAttributes hid, hnone, Attribute.foldl_addTo]

/-- A node without attributes has, after any additions, one attribute for each name, in the order in
which the names were first added, and a name finds its attribute. The classes are all classes that
were added, in order; of any other name there is what was added last. So histories in which the order
of names, the classes and the last additions to other names are the same come to the same. -/
theorem attributes_of_history (hid : id < t.count) (hnone : (t.node id).attributes = [])
    (history : List Attribute) :
    let node := (t.addAttributes id history).node id
    node.attributes.map Attribute.name = (history.map Attribute.name).eraseDups ∧
      (node.attributes.map Attribute.name).Nodup ∧
      (∀ name a, node.attribute? name = some a ↔ a ∈ node.attributes ∧ a.name = name) ∧
      (∀ a ∈ node.attributes, a.name = Attribute.className →
        a.values = (Attribute.additions history Attribute.className).flatMap Attribute.values) ∧
      (∀ a ∈ node.attributes, a.name ≠ Attribute.className →
        (Attribute.additions history a.name).getLast? = some a) ∧
      ∀ (t' : Arena) (id' : NodeId) (history' : List Attribute), id' < t'.count →
        (t'.node id').attributes = [] →
        (history'.map Attribute.name).eraseDups = (history.map Attribute.name).eraseDups →
        Attribute.additions history' Attribute.className =
          Attribute.additions history Attribute.className →
        (∀ name ≠ Attribute.className, (Attribute.additions history' name).getLast? =
          (Attribute.additions history name).getLast?) →
        ((t'.addAttributes id' history').node id').attributes = node.attributes := by
  intro node
  have hall : node.attributes = Attribute.collected history :=
    attributes_addAttributes hid hnone history
  have hnames : node.attributes.map Attribute.name = (history.map Attribute.name).eraseDups := by
    rw [hall, Attribute.map_name_collected]
  have hnodup : (node.attributes.map Attribute.name).Nodup := hnames ▸ nodup_eraseDups _
  refine ⟨hnames, hnodup, fun name a => ?_, fun a ha hc => ?_, fun a ha hc => ?_,
    fun t' id' history' hid' hnone' horder hclass hothers => ?_⟩
  · exact Node.attribute?_eq_some hnodup
  · rw [(Attribute.eq_of_mem_collected (hall ▸ ha)).2, Attribute.valuesAfter, if_pos hc, hc]
  · exact Attribute.getLast?_additions (hall ▸ ha) hc
  · rw [attributes_addAttributes hid' hnone', hall]
    exact Attribute.collected_congr horder hclass hothers

/-- Classes between other attributes, and an identifier whose last addition leaves its value open.
The same comes of fewer additions in another order. -/
theorem attributes_of_interleaved_history :
    let t := ({} : Arena).append .root "a"
    let history : List Attribute := [⟨"class", ["x"]⟩, ⟨"id", ["b"]⟩, ⟨"title", []⟩,
      ⟨"class", ["y", "z"]⟩, ⟨"title", ["c"]⟩, ⟨"id", []⟩]
    let fewer : List Attribute := [⟨"class", ["x"]⟩, ⟨"id", []⟩, ⟨"class", ["y", "z"]⟩,
      ⟨"title", ["c"]⟩]
    let node := (t.addAttributes 0 history).node 0
    (t.node 0).attributes = [] ∧
      node.attributes.map Attribute.name = ["class", "id", "title"] ∧
      node.attribute? "id" = some ⟨"id", []⟩ ∧
      (∀ a ∈ node.attributes, a.name = "class" → a.values = ["x", "y", "z"]) ∧
      ((t.addAttributes 0 fewer).node 0).attributes = node.attributes := by
  intro t history fewer node
  have hid : 0 < t.count := by decide
  have hnone : (t.node 0).attributes = [] := by decide
  obtain ⟨hnames, -, hfind, hclasses, -, hsame⟩ := attributes_of_history hid hnone history
  refine ⟨hnone, hnames.trans (by decide), (hfind "id" ⟨"id", []⟩).2 (by decide +kernel), ?_, ?_⟩
  · exact fun a ha hc => (hclasses a ha hc).trans (by decide)
  · refine hsame t 0 fewer hid hnone (by decide) (by decide) fun name hname => ?_
    have hclass : "class" ≠ name := Ne.symm hname
    by_cases hidName : "id" = name
    · subst hidName
      decide
    · by_cases htitle : "title" = name
      · subst htitle
        decide
      · simp [Attribute.additions, history, fewer, hclass, hidName, htitle]

end Arena

end MarkupShorthand
