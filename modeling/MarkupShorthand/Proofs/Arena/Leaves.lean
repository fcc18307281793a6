import MarkupShorthand.Proofs.Arena.Edits
import MarkupShorthand.Proofs.Arena.Traversal

/-!
# Leaves

What the operations of an abbreviation do to an arena. They change the data of nodes
(`Arena.retouch`), and they put further leaves at the end of containers. `AddsLeaves` describes the
latter by the elements that each container gains, so that the numbers of the new nodes and the order
in which containers were served need not be known. Such descriptions compose (`AddsLeaves.trans`),
and the subtrees whose nodes gain nothing keep their elements (`AddsLeaves.element_eq`).
-/

namespace MarkupShorthand

/-- A node with its attributes and its slot changed. -/
def Node.retouch (p : List Attribute → List Attribute) (q : Slot → Slot) (n : Node) : Node :=
  { n with attributes := p n.attributes, slot := q n.slot }

theorem Node.children_retouch (p : List Attribute → List Attribute) (q : Slot → Slot) (n : Node) :
    (n.retouch p q).children = n.children := rfl

theorem Node.parent_retouch (p : List Attribute → List Attribute) (q : Slot → Slot) (n : Node) :
    (n.retouch p q).parent = n.parent := rfl

namespace Arena

variable {t t' t'' : Arena} {id x : NodeId} {c : Container}

/-! ## Unchanged subtrees -/

/-- A subtree whose nodes are unchanged is the same list of nodes and the same element. -/
theorem WellLinked.element_congr (h : t.WellLinked) (h' : t'.WellLinked)
    (hn : ∀ y ∈ t.below id, t'.node y = t.node y) :
    t'.below id = t.below id ∧ t'.element id = t.element id := by
  obtain ⟨hbelow, helement⟩ := h.element_of_slots h' (fun y hy => by rw [hn y hy])
    fun y hy _ => by rw [hn y hy]
  refine ⟨hbelow, helement.trans ?_⟩
  rw [hn id (h.mem_below_self id), h.element_eq]

/-- Whether a node has no children. -/
def Leaf (t : Arena) (id : NodeId) : Prop := (t.node id).children = #[]

/-- A node as an element without children. -/
def leafElement (t : Arena) (id : NodeId) : Element :=
  ⟨(t.node id).name, (t.node id).attributes, (t.node id).slot, []⟩

theorem WellLinked.element_leaf (h : t.WellLinked) (hl : t.Leaf id) :
    t.element id = t.leafElement id := by
  rw [h.element_eq, hl]; rfl

theorem WellLinked.below_leaf (h : t.WellLinked) (hl : t.Leaf id) : t.below id = [id] := by
  rw [h.below_eq, hl]; rfl

/-- A node that holds another is no leaf. -/
theorem WellLinked.not_leaf (h : t.WellLinked) {x : NodeId} (hx : x < t.count)
    (hc : t.containerOf x = .node id) : ¬ t.Leaf id := fun hl => by
  have hm := h.mem_children.2 ⟨hx, hc⟩
  rw [show t.children (.node id) = #[] from hl] at hm
  exact List.not_mem_nil hm

theorem WellLinked.not_leaf_of_above (h : t.WellLinked) {x : NodeId} (hx : x < t.count) {n : Nat}
    (e : t.above^[n + 1] (.node x) = .node id) : ¬ t.Leaf id := by
  rw [Function.iterate_succ_apply'] at e
  cases hy : t.above^[n] (.node x) with
  | root => rw [hy] at e; cases e
  | node y =>
    rw [hy] at e
    exact h.not_leaf (has_node.1 (hy ▸ h.has_above (has_node.2 hx) n)) e

theorem WellLinked.map_slot (h : t.WellLinked) (ids : List NodeId) :
    ids.map (fun id => (t.node id).slot) = (ids.map t.element).map Element.slot := by
  rw [List.map_map]
  refine List.map_congr_left fun id _ => ?_
  rw [Function.comp_apply, h.element_eq]

/-! ## Retouching -/

variable {p : List Attribute → List Attribute} {q : Slot → Slot} {ids : List NodeId}

/-- The arena with the attributes and slots of some nodes changed. -/
def retouch (t : Arena) (p : List Attribute → List Attribute) (q : Slot → Slot)
    (ids : List NodeId) : Arena :=
  ids.foldl (fun t id => t.modify id (Node.retouch p q)) t

theorem retouch_cons (t : Arena) (id : NodeId) (ids : List NodeId) :
    t.retouch p q (id :: ids) = (t.modify id (Node.retouch p q)).retouch p q ids := rfl

@[simp] theorem children_modify_retouch (t : Arena) (id : NodeId) (c : Container) :
    (t.modify id (Node.retouch p q)).children c = t.children c :=
  children_modify (Node.children_retouch p q) t id c

@[simp] theorem containerOf_modify_retouch (t : Arena) (id x : NodeId) :
    (t.modify id (Node.retouch p q)).containerOf x = t.containerOf x :=
  containerOf_modify (Node.parent_retouch p q) t id x

@[simp] theorem count_retouch (t : Arena) (ids : List NodeId) :
    (t.retouch p q ids).count = t.count := by
  induction ids generalizing t with
  | nil => rfl
  | cons id ids ih => rw [retouch_cons, ih, count_modify]

@[simp] theorem children_retouch (t : Arena) (ids : List NodeId) (c : Container) :
    (t.retouch p q ids).children c = t.children c := by
  induction ids generalizing t with
  | nil => rfl
  | cons id ids ih => exact (ih _).trans (children_modify_retouch t id c)

@[simp] theorem containerOf_retouch (t : Arena) (ids : List NodeId) (id : NodeId) :
    (t.retouch p q ids).containerOf id = t.containerOf id := by
  induction ids generalizing t with
  | nil => rfl
  | cons target ids ih => exact (ih _).trans (containerOf_modify_retouch t target id)

theorem WellLinked.retouch (h : t.WellLinked) (ids : List NodeId) :
    (t.retouch p q ids).WellLinked :=
  h.congr (count_retouch t ids) (children_retouch t ids) (containerOf_retouch t ids)

theorem WellLinked.depth_retouch (h : t.WellLinked) (ids : List NodeId) (id : NodeId) :
    (t.retouch p q ids).depth id = t.depth id :=
  h.depth_of_containerOf (h.retouch ids) fun x _ => containerOf_retouch t ids x

theorem node_retouch_of_not_mem (hx : x ∉ ids) : (t.retouch p q ids).node x = t.node x := by
  induction ids generalizing t with
  | nil => rfl
  | cons id ids ih =>
    rw [List.mem_cons, not_or] at hx
    rw [retouch_cons, ih hx.2, node_modify, if_neg fun h => hx.1 h.1]

theorem node_retouch_of_mem (hn : ids.Nodup) (hx : x ∈ ids) (hlt : x < t.count) :
    (t.retouch p q ids).node x = (t.node x).retouch p q := by
  induction ids generalizing t with
  | nil => cases hx
  | cons id ids ih =>
    obtain ⟨hid, hn⟩ := List.nodup_cons.1 hn
    rw [retouch_cons]
    rcases List.mem_cons.1 hx with rfl | hx
    · rw [node_retouch_of_not_mem hid, node_modify, if_pos ⟨rfl, hlt⟩]
    · have hne : ¬(x = id ∧ x < t.count) := fun h => hid (h.1 ▸ hx)
      rw [ih hn hx (by rwa [count_modify]), node_modify, if_neg hne]

/-! ## Adding leaves -/

/-- `t'` is `t` with further leaves, which are the elements `added` at the end of each container. -/
structure AddsLeaves (t t' : Arena) (added : Container → List Element) : Prop where
  wellLinked : t'.WellLinked
  count_le : t.count ≤ t'.count
  /-- Nodes that were there keep their data and their parents. -/
  node_eq : ∀ id < t.count, t'.node id = { t.node id with children := (t'.node id).children }
  has_containerOf : ∀ id < t'.count, t.Has (t'.containerOf id)
  children_eq : ∀ c, t.Has c → ∃ new : List NodeId,
    (t'.children c).toList = (t.children c).toList ++ new ∧
      new.map t'.element = added c ∧ ∀ x ∈ new, t.count ≤ x

namespace AddsLeaves

variable {a b : Container → List Element}

theorem refl (h : t.WellLinked) : AddsLeaves t t fun _ => [] where
  wellLinked := h
  count_le := Nat.le_refl _
  node_eq _ _ := rfl
  has_containerOf _ hid := h.has_containerOf hid
  children_eq _ _ := ⟨[], by simp, rfl, by simp⟩

theorem congr (h : AddsLeaves t t' a) (e : ∀ c, t.Has c → a c = b c) : AddsLeaves t t' b :=
  { h with children_eq := fun c hc => e c hc ▸ h.children_eq c hc }

theorem containerOf_eq (h : AddsLeaves t t' a) (hid : id < t.count) :
    t'.containerOf id = t.containerOf id :=
  containerOf_congr (by rw [h.node_eq id hid])

/-- The new nodes are leaves. -/
theorem leaf_new (h : AddsLeaves t t' a) (hx : t.count ≤ x) : t'.Leaf x := by
  refine Array.toList_eq_nil_iff.1 (List.eq_nil_iff_forall_not_mem.2 fun child hm => ?_)
  have hc := h.wellLinked.mem_children (c := .node x).1 hm
  have := h.has_containerOf child hc.1
  rw [hc.2, has_node] at this
  exact Nat.not_lt.2 hx this

theorem children_of_nil (h : AddsLeaves t t' a) (hc : t.Has c) (ha : a c = []) :
    t'.children c = t.children c := by
  obtain ⟨new, he, hm, -⟩ := h.children_eq c hc
  rw [ha, List.map_eq_nil_iff] at hm
  rw [hm, List.append_nil] at he
  exact Array.toList_inj.1 he

theorem node_of_nil (h : AddsLeaves t t' a) (hid : id < t.count) (ha : a (.node id) = []) :
    t'.node id = t.node id := by
  rw [h.node_eq id hid, show (t'.node id).children = (t.node id).children from
    h.children_of_nil (c := .node id) hid ha]

/-- A subtree whose nodes gain nothing keeps its element. -/
theorem element_eq (h : AddsLeaves t t' a) (hw : t.WellLinked) (hid : id < t.count)
    (ha : ∀ y ∈ t.below id, a (.node y) = []) :
    t'.below id = t.below id ∧ t'.element id = t.element id :=
  hw.element_congr h.wellLinked fun y hy => h.node_of_nil (hw.lt_of_mem_below hid hy) (ha y hy)

/-- A new node is among the last that its container lists. -/
theorem mem_new (h : AddsLeaves t t' a) (hw : t.WellLinked) (hx : x < t'.count)
    (hn : t.count ≤ x) :
    ∃ new, (t'.children (t'.containerOf x)).toList = (t.children (t'.containerOf x)).toList ++ new ∧
      new.map t'.element = a (t'.containerOf x) ∧ x ∈ new := by
  obtain ⟨new, he, hm, -⟩ := h.children_eq _ (h.has_containerOf x hx)
  refine ⟨new, he, hm, ?_⟩
  have hc := h.wellLinked.mem_children.2 ⟨hx, rfl⟩
  rw [he, List.mem_append] at hc
  exact hc.resolve_left fun hold => Nat.not_lt.2 hn (hw.lt_count hold)

/-- A new leaf is one of the elements that its container gains. -/
theorem element_mem (h : AddsLeaves t t' a) (hw : t.WellLinked) (hx : x < t'.count)
    (hn : t.count ≤ x) : t'.element x ∈ a (t'.containerOf x) := by
  obtain ⟨new, -, hm, hnew⟩ := h.mem_new hw hx hn
  exact hm ▸ List.mem_map_of_mem hnew

/-- Where the new leaves join some old nodes, a container holds its old ones and what it gained. -/
theorem filter_children (h : AddsLeaves t t' a) (hw : t.WellLinked) {live : List NodeId}
    (old : List NodeId) (hlive : ∀ x, x ∈ live ↔ x ∈ old ∨ t.count ≤ x ∧ x < t'.count)
    (hc : t.Has c) :
    ∃ new, (t'.children c).toList.filter (· ∈ live) =
        (t.children c).toList.filter (· ∈ old) ++ new ∧ new.map t'.element = a c := by
  obtain ⟨new, he, hm, hle⟩ := h.children_eq c hc
  refine ⟨new, ?_, hm⟩
  rw [he, List.filter_append]
  refine congrArg₂ _ (List.filter_congr fun x hx => decide_eq_decide.2 ?_)
    (List.filter_eq_self.2 fun x hx => decide_eq_true ?_)
  · rw [hlive]
    exact or_iff_left fun hn => Nat.not_lt.2 hn.1 (hw.lt_count hx)
  · refine (hlive x).2 (.inr ⟨hle x hx, ?_⟩)
    exact h.wellLinked.lt_count (c := c) (he ▸ List.mem_append_right _ hx)

theorem depth_eq (h : AddsLeaves t t' a) (hw : t.WellLinked) (hid : id < t.count) :
    t'.depth id = t.depth id :=
  hw.depth_of_containerOf h.wellLinked fun _ hx => h.containerOf_eq (Nat.lt_of_le_of_lt hx hid)

/-- Leaves added after leaves: what each container gains, in this order. -/
theorem trans (h : AddsLeaves t t' a) (h' : AddsLeaves t' t'' b)
    (hb : ∀ x, t.count ≤ x → b (.node x) = []) : AddsLeaves t t'' fun c => a c ++ b c where
  wellLinked := h'.wellLinked
  count_le := Nat.le_trans h.count_le h'.count_le
  node_eq id hid := by
    rw [h'.node_eq id (Nat.lt_of_lt_of_le hid h.count_le), h.node_eq id hid]
  has_containerOf id hid := by
    refine has_iff.2 fun x hx => Nat.lt_of_not_le fun hle => ?_
    have hc := h'.wellLinked.mem_children.2 ⟨hid, hx⟩
    have hlt : x < t'.count := has_node.1 (hx ▸ h'.has_containerOf id hid)
    have : t''.children (.node x) = #[] :=
      (h'.children_of_nil (c := .node x) hlt (hb x hle)).trans (h.leaf_new hle)
    rw [this] at hc
    simp at hc
  children_eq c hc := by
    obtain ⟨new, he, hm, hlt⟩ := h.children_eq c hc
    obtain ⟨new', he', hm', hlt'⟩ := h'.children_eq c (has_mono h.count_le hc)
    have hcl : ∀ x ∈ new, x < t'.count := fun x hx =>
      h.wellLinked.lt_count (c := c) (he ▸ List.mem_append_right _ hx)
    refine ⟨new ++ new', by rw [he', he, List.append_assoc], ?_, fun x hx => ?_⟩
    · rw [List.map_append, hm', ← hm]
      refine congrArg (· ++ _) (List.map_congr_left fun x hx => ?_)
      refine (h'.element_eq h.wellLinked (hcl x hx) fun y hy => ?_).2
      rw [h.wellLinked.below_leaf (h.leaf_new (hlt x hx)), List.mem_singleton] at hy
      exact hy ▸ hb x (hlt x hx)
    · rcases List.mem_append.1 hx with hx | hx
      · exact hlt x hx
      · exact Nat.le_trans h.count_le (hlt' x hx)

/-- One more leaf. -/
theorem attach (hw : t.WellLinked) (hc : t.Has c) {n : Node} (hn : n.children = #[]) :
    AddsLeaves t (t.attach c n) fun c' =>
      if c' = c then [⟨n.name, n.attributes, n.slot, []⟩] else [] where
  wellLinked := hw.attach hc hn
  count_le := by simp
  node_eq id hid := by
    rw [node_attach hc, if_neg (Nat.ne_of_lt hid)]
    split <;> rfl
  has_containerOf id hid := by
    rw [containerOf_attach hc]
    split
    · exact hc
    · rename_i hne
      rw [count_attach] at hid
      exact hw.has_containerOf (Nat.lt_of_le_of_ne (Nat.le_of_lt_succ hid) hne)
  children_eq c' hc' := by
    rw [children_attach hc hn]
    split
    · refine ⟨[t.count], by simp, ?_, by simp⟩
      have hnode : (t.attach c n).node t.count = { n with parent := c.node? } := by
        rw [node_attach hc, if_pos rfl]
      rw [List.map_singleton, (hw.attach hc hn).element_leaf (by rw [Leaf, hnode]; exact hn),
        leafElement, hnode]
    · exact ⟨[], by simp, rfl, by simp⟩

theorem modify (h : AddsLeaves t t' a) (hid : id < t.count) :
    AddsLeaves (t.modify id (Node.retouch p q)) (t'.modify id (Node.retouch p q)) a where
  wellLinked := h.wellLinked.modify id (Node.children_retouch p q) (Node.parent_retouch p q)
  count_le := by simpa using h.count_le
  node_eq x hx := by
    rw [count_modify] at hx
    simp only [node_modify, hx, Nat.lt_of_lt_of_le hx h.count_le, and_true]
    split
    · rw [h.node_eq x hx]; rfl
    · rw [h.node_eq x hx]
  has_containerOf x hx := by
    rw [containerOf_modify_retouch]
    exact has_mono (by simp) (h.has_containerOf x (by simpa using hx))
  children_eq c hc := by
    obtain ⟨new, he, hm, hlt⟩ := h.children_eq c (has_mono (by simp) hc)
    refine ⟨new, ?_, ?_, by simpa using hlt⟩
    · rwa [children_modify_retouch, children_modify_retouch]
    · rw [← hm]
      refine List.map_congr_left fun x hx => ?_
      refine (h.wellLinked.element_congr (h.wellLinked.modify id (Node.children_retouch p q)
        (Node.parent_retouch p q)) fun y hy => ?_).2
      rw [h.wellLinked.below_leaf (h.leaf_new (hlt x hx)), List.mem_singleton] at hy
      rw [node_modify, if_neg]
      rintro ⟨rfl, -⟩
      exact Nat.not_lt.2 (hlt x hx) (hy ▸ hid)

/-- Old nodes may be retouched before leaves are added as well as after. -/
theorem retouch (h : AddsLeaves t t' a) (hids : ∀ id ∈ ids, id < t.count) :
    AddsLeaves (t.retouch p q ids) (t'.retouch p q ids) a := by
  induction ids generalizing t t' with
  | nil => exact h
  | cons id ids ih =>
    rw [retouch_cons, retouch_cons]
    exact ih (h.modify (hids id List.mem_cons_self)) fun x hx => by
      simpa using hids x (List.mem_cons_of_mem _ hx)

end AddsLeaves

end Arena

end MarkupShorthand
