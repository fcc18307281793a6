import MarkupShorthand.Proofs.Arena.Edits
import MarkupShorthand.Proofs.Numbering

/-!
# Deep copies

What a copy of a subtree is. The nodes of the subtree are copied in the order of the walk, and get
the next numbers in that order (`NumbersFrom`). While they are, the nodes copied so far are copies
but for the children that are still to come (`Copying`); a step copies the next node into the copy
of its parent (`Copying.step`), and the steps come to an end (`Copying.run`). What is there then is
the subtree under other numbers, at the end of its container, beside the old nodes (`DeepCopied`).
-/

namespace MarkupShorthand

namespace Arena

/-- Copying what is pending, without a bound on the steps, where that comes to an end. -/
inductive CopiesAll : Arena → List (NodeId × NodeId) → Arena → Prop where
  | done (t : Arena) : CopiesAll t [] t
  | next {t t' : Arena} {source parent : NodeId} {pending : List (NodeId × NodeId)} :
      CopiesAll (t.attach (.node parent) ((t.node source).detached (t.node source).slot))
        ((t.node source).children.toList.map (·, t.count) ++ pending) t' →
      CopiesAll t ((source, parent) :: pending) t'

variable {t s : Arena} {template source parent id : NodeId} {c : Container} {slot : Slot}
  {copyOf : NodeId → NodeId} {finished left : List NodeId} {pending : List (NodeId × NodeId)}

/-- How a node of a subtree is copied, with the copies of some of its children. The first node goes
to the container, in a slot of its own, and the others are put below the copies of their parents. -/
def copiedNode (t : Arena) (template : NodeId) (c : Container) (slot : Slot)
    (copyOf : NodeId → NodeId) (children : List NodeId) (id : NodeId) : Node :=
  { t.node id with
    parent := if id = template then c.node? else (t.node id).parent.map copyOf
    slot := if id = template then slot else (t.node id).slot
    children := (children.map copyOf).toArray }

/-- A subtree was copied to the end of a container, each node under a number of its own. -/
structure DeepCopied (t : Arena) (template : NodeId) (c : Container) (slot : Slot)
    (copied : Arena) (copyOf : NodeId → NodeId) : Prop where
  /-- The copies have the next numbers, in the order of the walk. -/
  numbered : NumbersFrom copyOf t.count (t.subtree template).toList
  count_eq : copied.count = t.count + t.subtreeSize template
  node_copy : ∀ id ∈ t.subtree template, copied.node (copyOf id) =
    t.copiedNode template c slot copyOf (t.node id).children.toList id
  element_eq : copied.element t.count = { t.element template with slot := slot }
  /-- The container lists the copy behind what it held, and no other list is changed. -/
  children_eq : ∀ c', t.Has c' →
    copied.children c' = if c' = c then (t.children c').push t.count else t.children c'
  /-- Nothing else of an old node is changed. -/
  node_old : ∀ id < t.count, copied.node id =
    { t.node id with children := (copied.node id).children }

/-- A node that is not the container is left as it was. -/
theorem DeepCopied.node_eq {copied : Arena} (h : DeepCopied t template c slot copied copyOf)
    (hid : id < t.count) (hne : c ≠ .node id) : copied.node id = t.node id := by
  have hchildren : (copied.node id).children = (t.node id).children :=
    (h.children_eq (.node id) hid).trans (if_neg hne.symm)
  rw [h.node_old id hid, hchildren]

/-- The nodes `finished` of a subtree are copied, and those of `left` are to be copied next. -/
structure Copying (t : Arena) (template : NodeId) (c : Container) (slot : Slot)
    (copyOf : NodeId → NodeId) (finished left : List NodeId) (s : Arena)
    (pending : List (NodeId × NodeId)) : Prop where
  order : finished ++ left = t.below template
  started : template ∈ finished
  /-- What is finished was copied behind its parent. -/
  behind : ∀ id ∈ finished, id = template ∨ ∃ above ∈ finished, t.containerOf id = .node above
  pending_below : pending.flatMap (fun copy => t.below copy.1) = left
  /-- A node that is pending goes to the copy of its parent. -/
  pending_above : ∀ copy ∈ pending, ∃ above ∈ finished,
    t.containerOf copy.1 = .node above ∧ copy.2 = copyOf above
  count_eq : s.count = t.count + finished.length
  node_copy : ∀ id ∈ finished, s.node (copyOf id) = t.copiedNode template c slot copyOf
    (finished.filter (t.containerOf · = .node id)) id
  children_eq : ∀ c', t.Has c' →
    s.children c' = if c' = c then (t.children c').push t.count else t.children c'
  node_old : ∀ id < t.count, s.node id = { t.node id with children := (s.node id).children }

namespace Copying

/-- The first node is copied into the container. -/
theorem start (h : t.WellLinked) (hc : t.Has c)
    (hn : NumbersFrom copyOf t.count (t.below template)) :
    Copying t template c slot copyOf [template] ((t.node template).children.toList.flatMap t.below)
      (t.attach c ((t.node template).detached slot))
      ((t.node template).children.toList.map (·, t.count)) := by
  rw [h.below_eq, NumbersFrom.cons] at hn
  have hne : t.containerOf template ≠ .node template := fun e =>
    Nat.lt_irrefl _ (h.lt_of_containerOf e)
  constructor
  case order => exact (h.below_eq template).symm
  case started => exact List.mem_singleton_self _
  case behind => exact fun id hid => .inl (List.mem_singleton.1 hid)
  case pending_below => rw [List.flatMap_map]
  case pending_above =>
    intro copy hm
    obtain ⟨child, hchild, rfl⟩ := List.mem_map.1 hm
    exact ⟨template, List.mem_singleton_self _,
      h.containerOf_eq (c := .node template) hchild, hn.1.symm⟩
  case count_eq => exact count_attach ..
  case node_copy =>
    intro id hm
    obtain rfl := List.mem_singleton.1 hm
    rw [hn.1, node_attach hc, if_pos rfl, copiedNode, List.filter_cons_of_neg (by simpa using hne)]
    simp [Node.detached]
  case children_eq => exact fun c' _ => children_attach hc rfl c'
  case node_old =>
    intro id hlt
    rw [node_attach hc, if_neg (Nat.ne_of_lt hlt)]
    split <;> rfl

/-- Copies have numbers of their own, before that of the next. -/
theorem number_lt (copying : Copying t template c slot copyOf finished left s pending)
    (hn : NumbersFrom copyOf t.count (t.below template)) (hm : id ∈ finished) :
    t.count ≤ copyOf id ∧ copyOf id < s.count := by
  rw [← copying.order, NumbersFrom.append] at hn
  exact copying.count_eq ▸ hn.1.mem_range hm

theorem number_inj (copying : Copying t template c slot copyOf finished left s pending)
    (hn : NumbersFrom copyOf t.count (t.below template)) {id' : NodeId} (hm : id ∈ finished)
    (hm' : id' ∈ finished) : copyOf id = copyOf id' ↔ id = id' :=
  hn.inj (copying.order ▸ List.mem_append_left _ hm) (copying.order ▸ List.mem_append_left _ hm')

/-- Nodes are finished before what is below them is. -/
theorem filter_eq_nil (copying : Copying t template c slot copyOf finished left s pending)
    (h : t.WellLinked) (hb : source ∈ t.below template) (hm : source ∉ finished) :
    (finished ++ [source]).filter (t.containerOf · = .node source) = [] := by
  refine List.filter_eq_nil_iff.2 fun id hid he => ?_
  have hc : t.containerOf id = .node source := of_decide_eq_true he
  rcases List.mem_append.1 hid with hid | hid
  · rcases copying.behind id hid with rfl | ⟨above, habove, hc'⟩
    · exact Nat.not_lt.2 (h.le_of_mem_below hb) (h.lt_of_containerOf hc)
    · exact hm (Container.node.inj (hc'.symm.trans hc) ▸ habove)
  · rw [List.mem_singleton.1 hid] at hc
    exact Nat.lt_irrefl _ (h.lt_of_containerOf hc)

theorem node_eq (copying : Copying t template c slot copyOf finished left s pending)
    (hid : id < t.count) (hne : c ≠ .node id) : s.node id = t.node id := by
  have hchildren : (s.node id).children = (t.node id).children :=
    (copying.children_eq (.node id) hid).trans (if_neg hne.symm)
  rw [copying.node_old id hid, hchildren]

theorem left_eq (copying : Copying t template c slot copyOf finished left s
      ((source, parent) :: pending)) (h : t.WellLinked) :
    left = source :: ((t.node source).children.toList.flatMap t.below ++
      pending.flatMap fun copy => t.below copy.1) := by
  rw [← copying.pending_below, List.flatMap_cons, h.below_eq, List.cons_append]

/-- The node that is copied next was not copied before, and gets the next number. -/
theorem next (copying : Copying t template c slot copyOf finished left s
      ((source, parent) :: pending)) (h : t.WellLinked)
    (hn : NumbersFrom copyOf t.count (t.below template)) :
    source ∈ t.below template ∧ source ∉ finished ∧ copyOf source = s.count := by
  have order := copying.order
  rw [copying.left_eq h] at order
  have hsource : source ∈ t.below template :=
    order ▸ List.mem_append_right _ List.mem_cons_self
  have number : copyOf source = s.count := by
    rw [← order, NumbersFrom.append, NumbersFrom.cons, ← copying.count_eq] at hn
    exact hn.2.1
  exact ⟨hsource, fun hm => Nat.lt_irrefl _ (number ▸ (copying.number_lt hn hm).2), number⟩

section Step

variable (h : t.WellLinked) (hid : template < t.count) (ho : ∀ id ∈ t.below template, c ≠ .node id)
  (hn : NumbersFrom copyOf t.count (t.below template))
include h hid ho hn

/-- The next node is copied into the copy of its parent, and its children are the next to come. -/
theorem step (copying : Copying t template c slot copyOf finished left s
      ((source, parent) :: pending)) :
    ∃ rest, left = source :: rest ∧
      Copying t template c slot copyOf (finished ++ [source]) rest
        (s.attach (.node parent) ((s.node source).detached (s.node source).slot))
        ((s.node source).children.toList.map (·, s.count) ++ pending) := by
  obtain ⟨above, habove, hc, rfl⟩ := copying.pending_above _ List.mem_cons_self
  obtain ⟨hsource, hnew, hnumber⟩ := copying.next h hn
  have hleft := copying.left_eq h
  have hlt := fun id (hm : id ∈ finished) => copying.number_lt hn hm
  have hhas : s.Has (.node (copyOf above)) := (hlt above habove).2
  have hold : ∀ id < t.count, Container.node (copyOf above) ≠ .node id := fun id hlt' e =>
    Nat.not_lt.2 (hlt above habove).1 (Container.node.inj e ▸ hlt')
  have hne : source ≠ template := fun e => hnew (e ▸ copying.started)
  rw [copying.node_eq (h.lt_of_mem_below hid hsource) (ho source hsource)]
  refine ⟨_, hleft, ?_⟩
  constructor
  case order =>
    rw [List.append_assoc, ← copying.order, hleft]
    rfl
  case started => exact List.mem_append_left _ copying.started
  case behind =>
    intro id hm
    rcases List.mem_append.1 hm with hm | hm
    · exact (copying.behind id hm).imp_right fun ⟨above', habove', hc'⟩ =>
        ⟨above', List.mem_append_left _ habove', hc'⟩
    · rw [List.mem_singleton.1 hm]
      exact .inr ⟨above, List.mem_append_left _ habove, hc⟩
  case pending_below => rw [List.flatMap_append, List.flatMap_map]
  case pending_above =>
    intro copy hm
    rcases List.mem_append.1 hm with hm | hm
    · obtain ⟨child, hchild, rfl⟩ := List.mem_map.1 hm
      exact ⟨source, List.mem_append_right _ (List.mem_singleton_self _),
        h.containerOf_eq (c := .node source) hchild, hnumber.symm⟩
    · obtain ⟨above', habove', hc'⟩ := copying.pending_above copy (List.mem_cons_of_mem _ hm)
      exact ⟨above', List.mem_append_left _ habove', hc'⟩
  case count_eq => rw [count_attach, copying.count_eq, List.length_append]; rfl
  case node_copy =>
    intro id hm
    rw [node_attach hhas]
    rcases List.mem_append.1 hm with hm | hm
    · rw [if_neg (Nat.ne_of_lt (hlt id hm).2), copying.node_copy id hm, List.filter_append]
      -- of the copies that were there, that of the parent gains a child
      by_cases e : above = id
      · subst e
        rw [if_pos rfl, List.filter_cons_of_pos (by simpa using hc)]
        simp [copiedNode, hnumber]
      · rw [if_neg fun e' => e ((copying.number_inj hn habove hm).1 (Container.node.inj e')),
          List.filter_cons_of_neg (by rw [hc]; simpa using e)]
        simp
    · obtain rfl := List.mem_singleton.1 hm
      rw [if_pos hnumber, copying.filter_eq_nil h hsource hnew, copiedNode, if_neg hne, if_neg hne,
        containerOf_eq_node.1 hc]
      rfl
  case children_eq =>
    intro c' hc'
    rw [children_attach hhas rfl, if_neg fun e => ?_, copying.children_eq c' hc']
    subst e
    exact hold _ (has_node.1 hc') rfl
  case node_old =>
    intro id hlt'
    rw [node_attach hhas, if_neg, if_neg (hold id hlt'), copying.node_old id hlt']
    exact Nat.ne_of_lt (Nat.lt_of_lt_of_le hlt' (copying.count_eq ▸ Nat.le_add_right ..))

/-- With as many steps as nodes are left, all are copied, and a further one would find nothing to
copy. -/
theorem run (copying : Copying t template c slot copyOf finished left s pending) {steps : Nat}
    (hs : left.length ≤ steps) :
    CopiesAll s pending (s.copyPending steps pending) ∧
      Copying t template c slot copyOf (t.below template) [] (s.copyPending steps pending)
        [] := by
  -- what is left to copy gets shorter with each step, what is pending may get longer
  induction left generalizing finished s pending steps with
  | nil =>
    cases pending with
    | nil =>
      have hall : finished = t.below template := (List.append_nil _).symm.trans copying.order
      rw [copyPending_nil]
      exact ⟨.done s, hall ▸ copying⟩
    | cons copy pending =>
      obtain ⟨rest, e, -⟩ := copying.step h hid ho hn
      cases e
  | cons first rest ih =>
    cases pending with
    | nil => cases copying.pending_below
    | cons copy pending =>
      obtain ⟨rest', e, copying'⟩ := copying.step h hid ho hn
      obtain ⟨rfl⟩ := (List.cons.inj e).2
      cases steps with
      | zero => cases hs
      | succ steps =>
        obtain ⟨copies, copied⟩ := ih copying' (Nat.le_of_succ_le_succ hs)
        exact ⟨.next copies, copied⟩

end Step

end Copying

/-! ## Copies of subtrees -/

/-- A node is not above the container that holds it. -/
theorem WellLinked.above_containerOf_ne (h : t.WellLinked) (id : NodeId) (n : Nat) :
    t.above^[n] (t.containerOf id) ≠ .node id := by
  intro hn
  cases e : t.containerOf id with
  | root => simp [e] at hn
  | node parent =>
    rw [e] at hn
    exact Nat.not_lt.2 (h.le_of_above hn) (h.lt_of_containerOf e)

/-- Where the nodes of a subtree are copied, there is its element, in the slot of the copy. -/
theorem WellLinked.element_copied (h : t.WellLinked) (h' : s.WellLinked)
    (hn : ∀ id ∈ t.below template, s.node (copyOf id) =
      t.copiedNode template c slot copyOf (t.node id).children.toList id) :
    s.element (copyOf template) = { t.element template with slot := slot } := by
  have others : ∀ id ∈ t.below template, id ≠ template →
      (s.node (copyOf id)).slot = (t.node id).slot := by
    intro id hm hne
    rw [hn id hm, copiedNode]
    exact if_neg hne
  have renumbered := h.element_renumbered h' (fun id hm => by simp [hn id hm, copiedNode]) others
  rw [renumbered.2, hn template (h.mem_below_self template)]
  simp [copiedNode]

/-- However the subtree is numbered, if its nodes have the next numbers in the order of the walk,
the copy has them. -/
theorem WellLinked.deepCopied_clone (h : t.WellLinked) (hid : template < t.count) (hc : t.Has c)
    (ho : ∀ n, t.above^[n] c ≠ .node template)
    (hn : NumbersFrom copyOf t.count (t.below template)) (position : Nat) :
    let slot := { (t.node template).slot with position := position }
    CopiesAll (t.attach c ((t.node template).detached slot))
        ((t.node template).children.toList.map (·, t.count)) (t.clone template c position) ∧
      DeepCopied t template c slot (t.clone template c position) copyOf := by
  intro slot
  have outside : ∀ id ∈ t.below template, c ≠ .node id := by
    rintro id hm rfl
    obtain ⟨n, hn⟩ := h.mem_below.1 hm
    exact ho n hn
  have bound : ((t.node template).children.toList.flatMap t.below).length ≤ t.count := by
    have hlength := h.length_below_le hid
    rw [h.below_eq, List.length_cons] at hlength
    exact Nat.le_of_succ_le hlength
  have first : copyOf template = t.count := by
    rw [h.below_eq, NumbersFrom.cons] at hn
    exact hn.1
  have started : Copying t template c slot copyOf [template] _ _ _ := .start h hc hn
  obtain ⟨copies, copying⟩ := started.run h hid outside hn bound
  rw [← clone] at copies copying
  have node_copy : ∀ id ∈ t.below template, (t.clone template c position).node (copyOf id) =
      t.copiedNode template c slot copyOf (t.node id).children.toList id := by
    intro id hm
    rw [copying.node_copy id hm, h.filter_below hm]
  refine ⟨copies, ?_⟩
  constructor
  case numbered => exact (h.subtree_eq hid).symm ▸ hn
  case count_eq => rw [copying.count_eq, subtreeSize, ← Array.length_toList, h.subtree_eq hid]
  case node_copy =>
    intro id hm
    rw [← Array.mem_toList_iff, h.subtree_eq hid] at hm
    exact node_copy id hm
  case element_eq => exact first ▸ h.element_copied (h.growsTo_clone hc template position).1 node_copy
  case children_eq => exact copying.children_eq
  case node_old => exact copying.node_old

/-- A copy of a subtree into a container outside it is made in as many steps as there are nodes to
copy, and is the subtree at the end of the container, with numbers of its own: of the arena that was
there only the container's list is changed. -/
theorem clone_copies_subtree (h : t.WellLinked) (hid : template < t.count) (hc : t.Has c)
    (ho : ∀ n, t.above^[n] c ≠ .node template) (position : Nat) :
    let slot := { (t.node template).slot with position := position }
    CopiesAll (t.attach c ((t.node template).detached slot))
        ((t.node template).children.toList.map (·, t.count)) (t.clone template c position) ∧
      ∃ copyOf, DeepCopied t template c slot (t.clone template c position) copyOf := by
  obtain ⟨copyOf, numbered⟩ := NumbersFrom.exists_of_nodup (h.nodup_below template) t.count
  obtain ⟨copies, copied⟩ := h.deepCopied_clone hid hc ho numbered position
  exact ⟨copies, copyOf, copied⟩

/-- An item with two links is copied to the end of the list that holds it. -/
theorem clone_copies_item_with_links :
    let t := ((((({} : Arena).append .root "ul").append (.node 0) "li").append (.node 1) "a").append
      (.node 0) "p").append (.node 1) "b"
    t.WellLinked ∧ t.Has (.node 0) ∧ (∀ n, t.above^[n] (.node 0) ≠ .node 1) ∧
      ∃ copyOf, DeepCopied t 1 (.node 0) ⟨7, 1⟩ (t.clone 1 (.node 0) 7) copyOf ∧
        [1, 2, 4].map copyOf = [5, 6, 7] ∧
        (t.clone 1 (.node 0) 7).children (.node 0) = #[1, 3, 5] := by
  intro t
  have ul := wellLinked_empty.attach has_root (n := { name := "ul" }) rfl
  have li := ul.attach (c := .node 0) (n := { name := "li" }) (by decide) rfl
  have a := li.attach (c := .node 1) (n := { name := "a" }) (by decide) rfl
  have p := a.attach (c := .node 0) (n := { name := "p" }) (by decide) rfl
  have hw : t.WellLinked := p.attach (c := .node 1) (n := { name := "b" }) (by decide) rfl
  have outside : ∀ n, t.above^[n] (.node 0) ≠ .node 1 := fun n hn =>
    absurd (hw.le_of_above hn) (by decide)
  have inside : t.Has (.node 0) := by decide
  obtain ⟨-, copyOf, copied⟩ := clone_copies_subtree hw (by decide) inside outside 7
  have numbered : (t.subtree 1).toList.map copyOf =
      List.range' t.count (t.subtree 1).toList.length := copied.numbered
  refine ⟨hw, inside, outside, copyOf, copied, numbered, ?_⟩
  rw [copied.children_eq _ inside, if_pos rfl]
  rfl

end Arena

end MarkupShorthand
