import MarkupShorthand.Proofs.Arena.Leaves

/-!
# Operations on groups of leaves

While an abbreviation is read, every operator applies to leaves. Appending puts a leaf into each
container; an attribute retouches the members; and a multiplication retouches the members and then
adds the further copies, each member's copies to its own container
(`WellLinked.addsLeaves_multiplyEach`).
-/

namespace MarkupShorthand.Arena

variable {t : Arena} {id x : NodeId} {c : Container} {members : List NodeId}

/-! ## Appending -/

theorem WellLinked.addsLeaves_append (h : t.WellLinked) {containers : List Container}
    (hc : ∀ c ∈ containers, t.Has c) (name : String) :
    AddsLeaves t (containers.foldl (·.append · name) t) fun c =>
      List.replicate (containers.count c) ⟨name, [], {}, []⟩ := by
  induction containers generalizing t with
  | nil => exact .refl h
  | cons first rest ih =>
    have hfirst := hc first List.mem_cons_self
    have hrest := fun c hm => hc c (List.mem_cons_of_mem _ hm)
    have added := AddsLeaves.attach h hfirst (n := { name := name }) rfl
    have later := ih added.wellLinked fun c hm => has_mono added.count_le (hrest c hm)
    refine (added.trans later fun x hx => ?_).congr fun c _ => ?_
    · rw [List.count_eq_zero_of_not_mem fun hm => Nat.not_lt.2 hx (hrest (.node x) hm)]; rfl
    · rw [List.count_cons]
      split
      · subst c
        rw [beq_self_eq_true, if_pos rfl, Nat.add_comm, List.replicate_add]; rfl
      · rename_i hne
        rw [if_neg (by simpa using Ne.symm hne)]; rfl

theorem count_foldl_append (t : Arena) (containers : List Container) (name : String) :
    (containers.foldl (·.append · name) t).count = t.count + containers.length := by
  induction containers generalizing t with
  | nil => rfl
  | cons first rest ih => rw [List.foldl_cons, ih, count_append, List.length_cons]; omega

/-! ## Multiplying one leaf -/

theorem clone_leaf (hl : t.Leaf id) (c : Container) (position : Nat) :
    t.clone id c position =
      t.attach c ((t.node id).detached { (t.node id).slot with position := position }) := by
  rw [clone, hl]
  exact copyPending_nil _ _

theorem count_clone_leaf (hl : t.Leaf id) (c : Container) (position : Nat) :
    (t.clone id c position).count = t.count + 1 := by
  rw [clone_leaf hl, count_attach]

/-- A further copy of a leaf in its container leaves the leaf as it is. -/
theorem WellLinked.addsLeaves_clone (h : t.WellLinked) (hl : t.Leaf id) (hid : id < t.count)
    (position : Nat) :
    AddsLeaves t (t.clone id (t.containerOf id) position) (fun c =>
      if c = t.containerOf id then
        [⟨(t.node id).name, (t.node id).attributes,
          { (t.node id).slot with position := position }, []⟩]
      else []) ∧ (t.clone id (t.containerOf id) position).node id = t.node id := by
  have hne : t.containerOf id ≠ .node id := fun e => Nat.lt_irrefl _ (h.lt_of_containerOf e)
  have added := AddsLeaves.attach h (h.has_containerOf hid)
    (n := (t.node id).detached { (t.node id).slot with position := position }) rfl
  rw [← clone_leaf hl] at added
  exact ⟨added, added.node_of_nil hid (if_neg hne.symm)⟩

/-- Further copies of a leaf in its container. -/
theorem WellLinked.addsLeaves_clones (h : t.WellLinked) (hl : t.Leaf id) (hid : id < t.count)
    (positions : List Nat) :
    AddsLeaves t (positions.foldl (fun t' p => t'.clone id (t.containerOf id) p) t) fun c =>
      if c = t.containerOf id then positions.map fun p =>
        ⟨(t.node id).name, (t.node id).attributes, { (t.node id).slot with position := p }, []⟩
      else [] := by
  induction positions generalizing t with
  | nil => exact (AddsLeaves.refl h).congr fun c _ => (ite_self _).symm
  | cons position positions ih =>
    obtain ⟨added, hnode⟩ := h.addsLeaves_clone hl hid position
    have later := ih added.wellLinked (by rw [Leaf, hnode]; exact hl)
      (Nat.lt_of_lt_of_le hid added.count_le)
    rw [hnode, added.containerOf_eq hid] at later
    refine (added.trans later fun x hx => if_neg fun e => ?_).congr fun c _ => ?_
    · exact Nat.not_lt.2 hx (has_node.1 (e ▸ h.has_containerOf hid))
    · split <;> rfl

/-- The copies of a leaf get the next numbers. -/
theorem WellLinked.clones_members (h : t.WellLinked) (hl : t.Leaf id) (hid : id < t.count)
    (positions : List Nat) (group : Array NodeId) :
    let copied := positions.foldl (fun (copied : Arena × Array NodeId) p =>
      (copied.1.clone id (t.containerOf id) p, copied.2.push copied.1.count)) (t, group)
    copied.1.count = t.count + positions.length ∧
      copied.2.toList = group.toList ++ List.range' t.count positions.length := by
  induction positions generalizing t group with
  | nil => simp
  | cons position positions ih =>
    obtain ⟨added, hnode⟩ := h.addsLeaves_clone hl hid position
    have later := ih added.wellLinked (by rw [Leaf, hnode]; exact hl)
      (Nat.lt_of_lt_of_le hid added.count_le) (group.push t.count)
    rw [added.containerOf_eq hid, count_clone_leaf hl] at later
    refine ⟨later.1.trans (by rw [List.length_cons]; omega), later.2.trans ?_⟩
    rw [Array.toList_push, List.append_assoc, List.length_cons, List.range'_succ]
    rfl

/-- A leaf as copy `position` of `count`. -/
def copyElement (t : Arena) (count : Nat) (id : NodeId) (position : Nat) : Element :=
  ⟨(t.node id).name, (t.node id).attributes, ⟨position, count⟩, []⟩

/-- The arena with nodes as the first of groups of `count`. -/
def markAll (t : Arena) (count : Nat) (ids : List NodeId) : Arena :=
  t.retouch (fun attributes => attributes) (fun _ => ⟨1, count⟩) ids

@[simp] theorem count_markAll (t : Arena) (count : Nat) (ids : List NodeId) :
    (t.markAll count ids).count = t.count :=
  count_retouch t ids

@[simp] theorem containerOf_markAll (t : Arena) (count : Nat) (ids : List NodeId) (id : NodeId) :
    (t.markAll count ids).containerOf id = t.containerOf id :=
  containerOf_retouch t ids id

@[simp] theorem children_markAll (t : Arena) (count : Nat) (ids : List NodeId) (c : Container) :
    (t.markAll count ids).children c = t.children c :=
  children_retouch t ids c

theorem WellLinked.markAll (h : t.WellLinked) (count : Nat) (ids : List NodeId) :
    (t.markAll count ids).WellLinked :=
  h.retouch ids

theorem node_markAll {count : Nat} (hn : members.Nodup) (hx : x ∈ members) (hlt : x < t.count) :
    (t.markAll count members).node x = { t.node x with slot := ⟨1, count⟩ } :=
  node_retouch_of_mem hn hx hlt

theorem node_markAll_singleton (count : Nat) (hlt : id < t.count) :
    (t.markAll count [id]).node id = { t.node id with slot := ⟨1, count⟩ } :=
  node_markAll (List.nodup_singleton id) (List.mem_singleton_self id) hlt

theorem leaf_markAll {count : Nat} {ids : List NodeId} :
    (t.markAll count ids).Leaf id ↔ t.Leaf id := by
  rw [Leaf, Leaf, show ((t.markAll count ids).node id).children = (t.node id).children from
    children_markAll t count ids (.node id)]

/-- A multiplied leaf becomes the first, and its container gains the others. -/
theorem WellLinked.addsLeaves_multiply (h : t.WellLinked) (hl : t.Leaf id) (hid : id < t.count)
    (count : Nat) :
    AddsLeaves (t.markAll count [id]) (t.multiply id count).1 fun c =>
      if c = t.containerOf id then (List.range' 2 (count - 1)).map (t.copyElement count id)
      else [] := by
  have added := (h.markAll count [id]).addsLeaves_clones (leaf_markAll.2 hl) (by simpa using hid)
    (List.range' 2 (count - 1))
  rw [containerOf_markAll, node_markAll_singleton count hid] at added
  rw [multiply_eq]
  exact added

/-- The group of a multiplied leaf is the leaf and the new nodes. -/
theorem WellLinked.multiply_members (h : t.WellLinked) (hl : t.Leaf id) (hid : id < t.count)
    (count : Nat) :
    (t.multiply id count).1.count = t.count + (count - 1) ∧
      (t.multiply id count).2 = id :: List.range' t.count (count - 1) := by
  have copied := (h.markAll count [id]).clones_members (leaf_markAll.2 hl) (by simpa using hid)
    (List.range' 2 (count - 1)) #[id]
  rw [containerOf_markAll, count_markAll, List.length_range'] at copied
  exact copied

/-- Other leaves are as they were. -/
theorem WellLinked.node_multiply (h : t.WellLinked) (hl : t.Leaf id) (hid : id < t.count)
    (count : Nat) (hne : x ≠ id) (hlx : t.Leaf x) (hx : x < t.count) :
    (t.multiply id count).1.node x = t.node x := by
  have added := h.addsLeaves_multiply hl hid count
  have hcont : .node x ≠ t.containerOf id := fun e => by
    have hc := h.mem_children.2 ⟨hid, rfl⟩
    rw [← e, show t.children (.node x) = #[] from hlx] at hc
    simp at hc
  rw [added.node_of_nil (by simpa using hx) (if_neg hcont), Arena.markAll,
    node_retouch_of_not_mem fun e => hne (List.mem_singleton.1 e)]

/-! ## Multiplying a group of leaves -/

/-- The members that are still to be multiplied remain existing leaves. -/
theorem WellLinked.multiply_rest (h : t.WellLinked) (hn : (id :: members).Nodup)
    (hm : ∀ x ∈ id :: members, x < t.count ∧ t.Leaf x) (count : Nat) :
    (∀ x ∈ members, (t.multiply id count).1.node x = t.node x) ∧
      ∀ x ∈ members, x < (t.multiply id count).1.count ∧ (t.multiply id count).1.Leaf x := by
  obtain ⟨hid, hl⟩ := hm id List.mem_cons_self
  have hrest := fun x hx => hm x (List.mem_cons_of_mem _ hx)
  have hnode : ∀ x ∈ members, (t.multiply id count).1.node x = t.node x := fun x hx =>
    h.node_multiply hl hid count (fun e => (List.nodup_cons.1 hn).1 (e ▸ hx)) (hrest x hx).2
      (hrest x hx).1
  refine ⟨hnode, fun x hx => ⟨?_, by rw [Leaf, hnode x hx]; exact (hrest x hx).2⟩⟩
  exact Nat.lt_of_lt_of_le (hrest x hx).1 ((h.growsTo_multiply hid count).2)

/-- The further copies that a container gains where nodes become the first of `count`. -/
def furtherCopies (t : Arena) (count : Nat) (ids : List NodeId) (c : Container) : List Element :=
  (ids.filter (t.containerOf · = c)).flatMap fun id =>
    (List.range' 2 (count - 1)).map (t.copyElement count id)

theorem furtherCopies_congr {t' : Arena} {count : Nat}
    (hc : ∀ id ∈ members, t'.containerOf id = t.containerOf id)
    (he : ∀ id ∈ members, ∀ p, t'.copyElement count id p = t.copyElement count id p) :
    t'.furtherCopies count members c = t.furtherCopies count members c := by
  rw [furtherCopies, List.filter_congr fun id hid => by rw [hc id hid]]
  exact List.flatMap_congr fun id hid =>
    List.map_congr_left fun p _ => he id (List.mem_filter.1 hid).1 p

theorem furtherCopies_eq_nil {count : Nat} (h : ∀ id ∈ members, t.containerOf id ≠ c) :
    t.furtherCopies count members c = [] := by
  rw [furtherCopies, List.filter_eq_nil_iff.2, List.flatMap_nil]
  intro id hid
  simpa using h id hid

theorem furtherCopies_cons (t : Arena) (count : Nat) (id : NodeId) (members : List NodeId)
    (c : Container) :
    t.furtherCopies count (id :: members) c =
      (if c = t.containerOf id then (List.range' 2 (count - 1)).map (t.copyElement count id)
        else []) ++ t.furtherCopies count members c := by
  rw [furtherCopies, List.filter_cons]
  by_cases e : c = t.containerOf id
  · simp [e, furtherCopies]
  · simp [e, Ne.symm e, furtherCopies]

/-- Every container gains the further copies of the members that it holds. -/
theorem WellLinked.addsLeaves_multiplyAll (h : t.WellLinked) (hn : members.Nodup)
    (hm : ∀ id ∈ members, id < t.count ∧ t.Leaf id) (count : Nat) :
    AddsLeaves (t.markAll count members)
      (members.foldl (fun t id => (t.multiply id count).1) t) (t.furtherCopies count members) := by
  induction members generalizing t with
  | nil => exact .refl h
  | cons id rest ih =>
    obtain ⟨hid, hl⟩ := hm id List.mem_cons_self
    have hrest := fun x hx => (hm x (List.mem_cons_of_mem _ hx)).1
    have added := h.addsLeaves_multiply hl hid count
    obtain ⟨hnode, hlater⟩ := h.multiply_rest hn hm count
    have hcont : ∀ x ∈ rest, (t.multiply id count).1.containerOf x = t.containerOf x :=
      fun x hx => containerOf_congr (by rw [hnode x hx])
    have hcopy : ∀ x ∈ rest, ∀ p,
        (t.multiply id count).1.copyElement count x p = t.copyElement count x p :=
      fun x hx p => by rw [copyElement, hnode x hx, copyElement]
    have later := ih added.wellLinked (List.nodup_cons.1 hn).2 hlater
    have hmarked : ∀ x ∈ rest, x < (t.markAll count [id]).count := fun x hx => by
      simpa using hrest x hx
    have marked := added.retouch (p := fun as => as) (q := fun _ => ⟨1, count⟩) hmarked
    refine (marked.trans later fun x hx => ?_).congr fun c _ => ?_
    · refine furtherCopies_eq_nil fun y hy e => ?_
      rw [count_retouch, count_markAll] at hx
      rw [hcont y hy] at e
      exact Nat.not_lt.2 hx (has_node.1 (e ▸ h.has_containerOf (hrest y hy)))
    · rw [furtherCopies_cons, furtherCopies_congr hcont hcopy]

/-- The groups of multiplied leaves are these leaves and the new nodes. -/
theorem WellLinked.multiplyAll_members (h : t.WellLinked) (hn : members.Nodup)
    (hm : ∀ id ∈ members, id < t.count ∧ t.Leaf id) (count : Nat) (groups : Array NodeId) :
    let multiplied := members.foldl (fun (multiplied : Arena × Array NodeId) id =>
      ((multiplied.1.multiply id count).1, multiplied.2 ++ (multiplied.1.multiply id count).2))
      (t, groups)
    multiplied.1.count = t.count + members.length * (count - 1) ∧
      multiplied.2.toList.Perm
        (groups.toList ++ members ++ List.range' t.count (members.length * (count - 1))) := by
  induction members generalizing t groups with
  | nil => simp
  | cons id rest ih =>
    obtain ⟨hid, hl⟩ := hm id List.mem_cons_self
    obtain ⟨hcount, hmembers⟩ := h.multiply_members hl hid count
    have later := ih (h.growsTo_multiply hid count).1 (List.nodup_cons.1 hn).2
      (h.multiply_rest hn hm count).2 (groups ++ (t.multiply id count).2)
    rw [hcount] at later
    have hlen : (id :: rest).length * (count - 1) = (count - 1) + rest.length * (count - 1) := by
      rw [List.length_cons, Nat.succ_mul, Nat.add_comm]
    rw [hlen]
    refine ⟨later.1.trans (Nat.add_assoc ..), later.2.trans ?_⟩
    rw [hmembers, Array.toList_appendList, ← List.range'_append_1]
    simp only [List.append_assoc, List.cons_append]
    refine (List.Perm.refl _).append (.cons _ ?_)
    rw [← List.append_assoc, ← List.append_assoc]
    exact List.perm_append_comm.append_right _

end MarkupShorthand.Arena
