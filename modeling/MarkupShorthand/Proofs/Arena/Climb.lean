import Mathlib.Data.List.Induction
import Mathlib.Data.List.Nodup
import MarkupShorthand.Arena.Broadcast
import MarkupShorthand.Proofs.Arena.Ancestors

/-!
# Climbing with a group

The containers some levels above an operand are those that its nodes reach on their own by as many
steps up (`mem_containersAbove`), and none of them is found twice (`nodup_containersAbove`), however
the ways of the nodes join. `firstSeen` is where containers are found once. For nodes that are
equally deep they are the containers on the ways up that have the right level
(`WellLinked.mem_containersAbove_level`), in the order in which the nodes reach them
(`WellLinked.containersAbove_eq_eraseDups`). A climb that goes beyond the top level ends at the root
(`WellLinked.containersAbove_eq_root`).
-/

namespace MarkupShorthand

section EraseDups

variable {α β : Type} [DecidableEq α] [DecidableEq β]

/-- A further item is kept where it is the first of its kind. -/
theorem eraseDups_concat (items : List α) (last : α) :
    (items ++ [last]).eraseDups =
      if last ∈ items then items.eraseDups else items.eraseDups ++ [last] := by
  rw [List.eraseDups_append]
  split <;> rename_i h <;> simp [List.removeAll, List.eraseDups_cons, h]

theorem nodup_eraseDups (items : List α) : items.eraseDups.Nodup := by
  induction items using List.reverseRecOn with
  | nil => exact List.nodup_nil
  | append_singleton items last ih =>
    rw [eraseDups_concat]
    split
    · exact ih
    · rename_i h
      exact ih.append (List.nodup_singleton last)
        (List.disjoint_singleton.2 (mt List.mem_eraseDups.1 h))

/-- Items that occurred before are no loss to what is made of all items. -/
theorem eraseDups_map_eraseDups (f : α → β) (items : List α) :
    (items.eraseDups.map f).eraseDups = (items.map f).eraseDups := by
  induction items using List.reverseRecOn with
  | nil => rfl
  | append_singleton items last ih =>
    have hmem : f last ∈ items.eraseDups.map f ↔ f last ∈ items.map f := by
      simp only [List.mem_map, List.mem_eraseDups]
    rw [eraseDups_concat, List.map_append, List.map_singleton, eraseDups_concat]
    split
    · rename_i h
      rw [ih, if_pos (List.mem_map_of_mem h)]
    · rw [List.map_append, List.map_singleton, eraseDups_concat, ih]
      exact if_congr hmem rfl rfl

end EraseDups

theorem eq_singleton_of_nodup {α : Type} {items : List α} {a : α} (hn : items.Nodup)
    (ha : a ∈ items) (h : ∀ x ∈ items, x = a) : items = [a] := by
  refine List.perm_singleton.1 ((List.perm_ext_iff_of_nodup hn (List.nodup_singleton a)).2 fun x => ?_)
  rw [List.mem_singleton]
  exact ⟨h x, fun e => e ▸ ha⟩

/-- The containers that count as seen are those kept. -/
def SeenIsKept (seen : Std.HashSet Container) (kept : Array Container) : Prop :=
  ∀ c, seen.contains c = true ↔ c ∈ kept.toList

namespace SeenIsKept

variable {seen : Std.HashSet Container} {kept : Array Container} {containers : List Container}

theorem empty : SeenIsKept ∅ #[] := fun c => by simp

theorem push (h : SeenIsKept seen kept) (first : Container) :
    SeenIsKept (seen.insert first) (kept.push first) := fun c => by
  rw [Std.HashSet.contains_insert, Array.toList_push, List.mem_append, ← h c]
  simp only [Bool.or_eq_true, beq_iff_eq, List.mem_singleton, eq_comm (a := first)]
  exact or_comm

/-- What is found was kept before or is in the list. -/
theorem mem_firstSeen (h : SeenIsKept seen kept) (c : Container) :
    c ∈ (firstSeen seen kept containers).toList ↔ c ∈ kept.toList ∨ c ∈ containers := by
  induction containers generalizing seen kept with
  | nil => simp [firstSeen]
  | cons first rest ih =>
    rw [firstSeen]
    split
    · rename_i hc
      rw [ih h, List.mem_cons]
      constructor
      · rintro (hk | hr)
        · exact .inl hk
        · exact .inr (.inr hr)
      · rintro (hk | rfl | hr)
        · exact .inl hk
        · exact .inl ((h c).1 hc)
        · exact .inr hr
    · rw [ih (h.push first), Array.toList_push, List.mem_append, List.mem_singleton, List.mem_cons,
        or_assoc]

/-- Nothing is found twice. -/
theorem nodup_firstSeen (h : SeenIsKept seen kept) (hn : kept.toList.Nodup) :
    (firstSeen seen kept containers).toList.Nodup := by
  induction containers generalizing seen kept with
  | nil => exact hn
  | cons first rest ih =>
    rw [firstSeen]
    split
    · exact ih h hn
    · rename_i hc
      refine ih (h.push first) ?_
      rw [Array.toList_push]
      exact hn.append (List.nodup_singleton _)
        (List.disjoint_singleton.2 fun hm => hc ((h first).2 hm))

/-- What is found stands where it was first. -/
theorem firstSeen_eq (h : SeenIsKept seen kept) (hk : kept.toList.eraseDups = kept.toList) :
    (firstSeen seen kept containers).toList = (kept.toList ++ containers).eraseDups := by
  induction containers generalizing seen kept with
  | nil => rw [firstSeen, List.append_nil, hk]
  | cons first rest ih =>
    rw [firstSeen]
    split
    · rename_i hc
      have hm : first ∈ kept.toList := (h first).1 hc
      rw [ih h hk, List.eraseDups_append, List.eraseDups_append, List.removeAll, List.removeAll,
        List.filter_cons_of_neg (by simpa using hm)]
    · rename_i hc
      have hm : first ∉ kept.toList := fun hm => hc ((h first).2 hm)
      have hk' : (kept.push first).toList.eraseDups = (kept.push first).toList := by
        rw [Array.toList_push, eraseDups_concat, if_neg hm, hk]
      rw [ih (h.push first) hk', Array.toList_push, List.append_assoc, List.singleton_append]

end SeenIsKept

namespace Arena

variable {t : Arena} {c : Container} {operand : Operand} {levels : Nat}

theorem mem_groupParents {ids : List NodeId} :
    c ∈ t.groupParents ids ↔ ∃ id ∈ ids, t.containerOf id = c := by
  rw [groupParents, SeenIsKept.empty.mem_firstSeen, List.mem_map]
  simp

theorem nodup_groupParents (t : Arena) (ids : List NodeId) : (t.groupParents ids).Nodup :=
  SeenIsKept.empty.nodup_firstSeen List.nodup_nil

theorem groupParents_eq (t : Arena) (ids : List NodeId) :
    t.groupParents ids = (ids.map t.containerOf).eraseDups :=
  SeenIsKept.empty.firstSeen_eq rfl

theorem mem_parents : c ∈ t.parents operand ↔ ∃ id ∈ operand.members, t.containerOf id = c := by
  cases operand with
  | node id => simp [parents, Operand.members, eq_comm]
  | group members => exact mem_groupParents

theorem nodup_parents (t : Arena) (operand : Operand) : (t.parents operand).Nodup := by
  cases operand with
  | node id => exact List.nodup_singleton _
  | group members => exact t.nodup_groupParents members

theorem parents_eq (t : Arena) (operand : Operand) :
    t.parents operand = (operand.members.map t.containerOf).eraseDups := by
  cases operand with
  | node id => rfl
  | group members => exact t.groupParents_eq members

theorem climb_eq (t : Arena) (containers : List Container) :
    t.climb containers =
      let parents := t.groupParents (containers.filterMap Container.node?)
      if containers.contains .root && !parents.contains .root then parents ++ [.root]
      else parents :=
  rfl

/-- A climb takes every container one level up. -/
theorem mem_climb {containers : List Container} :
    c ∈ t.climb containers ↔ ∃ below ∈ containers, t.above below = c := by
  have hp : c ∈ t.groupParents (containers.filterMap Container.node?) ↔
      ∃ id, .node id ∈ containers ∧ t.containerOf id = c := by
    simp only [mem_groupParents, List.mem_filterMap]
    constructor
    · rintro ⟨id, ⟨below, hm, e⟩, hc⟩
      cases below with
      | root => simp [Container.node?] at e
      | node id' => exact ⟨id, Option.some.inj e ▸ hm, hc⟩
    · rintro ⟨id, hm, hc⟩
      exact ⟨id, ⟨_, hm, rfl⟩, hc⟩
  have hc : c ∈ t.climb containers ↔
      c ∈ t.groupParents (containers.filterMap Container.node?) ∨
        .root ∈ containers ∧ c = .root := by
    rw [climb_eq]
    dsimp only
    split
    · rename_i hr
      simp only [Bool.and_eq_true, List.contains_eq_mem, decide_eq_true_eq] at hr
      simp [hr.1]
    · rename_i hr
      simp only [Bool.and_eq_true, Bool.not_eq_true', List.contains_eq_mem, decide_eq_true_eq,
        decide_eq_false_iff_not, not_and, not_not] at hr
      exact ⟨.inl, fun h => h.elim id fun h => h.2 ▸ hr h.1⟩
  rw [hc, hp]
  constructor
  · rintro (⟨id, hm, rfl⟩ | ⟨hm, rfl⟩)
    · exact ⟨_, hm, rfl⟩
    · exact ⟨_, hm, rfl⟩
  · rintro ⟨below, hm, rfl⟩
    cases below with
    | root => exact .inr ⟨hm, rfl⟩
    | node id => exact .inl ⟨id, hm, rfl⟩

theorem nodup_climb (t : Arena) (containers : List Container) : (t.climb containers).Nodup := by
  rw [climb_eq]
  dsimp only
  split
  · rename_i hr
    simp only [Bool.and_eq_true, Bool.not_eq_true', List.contains_eq_mem, decide_eq_false_iff_not]
      at hr
    exact (t.nodup_groupParents _).append (List.nodup_singleton _) (List.disjoint_singleton.2 hr.2)
  · exact t.nodup_groupParents _

/-- Where the root is not among nodes, a climb finds what is above each in their order. -/
theorem climb_eq_eraseDups {containers : List Container}
    (h : containers = [.root] ∨ .root ∉ containers) :
    t.climb containers = (containers.map t.above).eraseDups := by
  rcases h with rfl | h
  · rfl
  · have hup : ∀ containers : List Container, .root ∉ containers →
        (containers.filterMap Container.node?).map t.containerOf = containers.map t.above := by
      intro containers h
      induction containers with
      | nil => rfl
      | cons first rest ih =>
        obtain ⟨hne, hrest⟩ := not_or.1 (mt List.mem_cons.2 h)
        cases first with
        | root => exact absurd rfl hne
        | node id => exact congrArg (_ :: ·) (ih hrest)
    rw [climb_eq, groupParents_eq, hup containers h]
    exact if_neg (by simp [h])

/-- The containers above an operand are those that its nodes reach one by one. -/
theorem mem_containersAbove :
    c ∈ t.containersAbove operand levels ↔
      ∃ id ∈ operand.members, t.above^[levels] (.node id) = c := by
  cases levels with
  | zero => simp [containersAbove]
  | succ levels =>
    rw [containersAbove]
    induction levels generalizing c with
    | zero => exact mem_parents
    | succ levels ih =>
      rw [Nat.repeat, mem_climb]
      simp only [ih, Function.iterate_succ_apply' _ (levels + 1)]
      constructor
      · rintro ⟨_, ⟨id, hid, rfl⟩, rfl⟩
        exact ⟨id, hid, rfl⟩
      · rintro ⟨id, hid, rfl⟩
        exact ⟨_, ⟨id, hid, rfl⟩, rfl⟩

/-- Above containers of an operand are those that are further above it. -/
theorem mem_containersAbove_add {levels n : Nat} :
    c ∈ t.containersAbove operand (n + levels) ↔
      ∃ below ∈ t.containersAbove operand levels, t.above^[n] below = c := by
  simp only [mem_containersAbove, Function.iterate_add_apply]
  constructor
  · rintro ⟨id, hid, rfl⟩
    exact ⟨_, ⟨id, hid, rfl⟩, rfl⟩
  · rintro ⟨_, ⟨id, hid, rfl⟩, rfl⟩
    exact ⟨id, hid, rfl⟩

/-- No container is found twice, even for nodes that are there twice. -/
theorem nodup_containersAbove_succ (t : Arena) (operand : Operand) (levels : Nat) :
    (t.containersAbove operand (levels + 1)).Nodup := by
  rw [containersAbove]
  cases levels with
  | zero => exact t.nodup_parents operand
  | succ levels => exact t.nodup_climb _

theorem nodup_containersAbove (hn : operand.members.Nodup) (levels : Nat) :
    (t.containersAbove operand levels).Nodup := by
  cases levels with
  | zero => exact hn.map fun _ _ => Container.node.inj
  | succ levels => exact t.nodup_containersAbove_succ operand levels

/-- The containers above existing nodes exist. -/
theorem WellLinked.has_containersAbove (h : t.WellLinked)
    (hm : ∀ id ∈ operand.members, id < t.count) (hc : c ∈ t.containersAbove operand levels) :
    t.Has c := by
  obtain ⟨id, hid, rfl⟩ := mem_containersAbove.1 hc
  exact h.has_above (has_node.2 (hm id hid)) levels

/-! ## Levels -/

/-- Whether a container is one of some nodes or above one of them. -/
def OnWay (t : Arena) (ids : List NodeId) (c : Container) : Prop :=
  ∃ id ∈ ids, ∃ n, t.above^[n] (.node id) = c

/-- The level at which a container holds nodes: their depth. -/
def level (t : Arena) : Container → Nat
  | .root => 0
  | .node id => t.depth id + 1

@[simp] theorem level_root (t : Arena) : t.level .root = 0 := rfl

@[simp] theorem level_node (t : Arena) (id : NodeId) : t.level (.node id) = t.depth id + 1 := rfl

theorem eq_root_of_level (h : t.level c = 0) : c = .root := by
  cases c with
  | root => rfl
  | node id => simp at h

namespace WellLinked

theorem level_containerOf (h : t.WellLinked) (id : NodeId) :
    t.level (t.containerOf id) = t.depth id := by
  cases hc : t.containerOf id with
  | root => exact (depth_root hc).symm
  | node parent => exact (h.depth_node hc).symm

/-- A way up leads one level up with each step, and stays at the top. -/
theorem level_above (h : t.WellLinked) (c : Container) (n : Nat) :
    t.level (t.above^[n] c) = t.level c - n := by
  induction n with
  | zero => rfl
  | succ n ih =>
    rw [Function.iterate_succ_apply', Nat.sub_succ, ← ih]
    cases t.above^[n] c with
    | root => rfl
    | node id => exact h.level_containerOf id

/-- Above equally deep nodes are the containers of one level on their ways up. -/
theorem mem_containersAbove_level (h : t.WellLinked) {depth : Nat}
    (hd : ∀ id ∈ operand.members, t.depth id = depth) :
    c ∈ t.containersAbove operand levels ↔
      t.level c = depth + 1 - levels ∧ t.OnWay operand.members c := by
  rw [mem_containersAbove]
  constructor
  · rintro ⟨id, hid, rfl⟩
    exact ⟨by rw [h.level_above, level_node, hd id hid], id, hid, levels, rfl⟩
  · rintro ⟨hl, id, hid, n, hn⟩
    refine ⟨id, hid, ?_⟩
    have hup := fun n => (h.level_above (.node id) n).trans (by rw [level_node, hd id hid])
    cases c with
    | root => exact eq_root_of_level ((hup levels).trans hl.symm)
    | node a =>
      have e := hup n
      rw [hn, hl] at e
      rw [level_node] at hl
      rw [← hn, show levels = n by omega]

/-- The containers above equally deep nodes are the root alone, or nodes. -/
theorem containersAbove_eq_root_or (h : t.WellLinked) {depth : Nat}
    (hd : ∀ id ∈ operand.members, t.depth id = depth) (levels : Nat) :
    t.containersAbove operand levels = [.root] ∨ .root ∉ t.containersAbove operand levels := by
  cases levels with
  | zero => exact .inr (by simp [containersAbove])
  | succ levels =>
    refine or_iff_not_imp_right.2 fun hroot => ?_
    rw [Classical.not_not] at hroot
    have hlevel := ((h.mem_containersAbove_level hd).1 hroot).1
    refine eq_singleton_of_nodup (t.nodup_containersAbove_succ operand levels) hroot fun c hc => ?_
    refine eq_root_of_level (t := t) ?_
    rw [((h.mem_containersAbove_level hd).1 hc).1, ← hlevel, level_root]

/-- Equally deep nodes reach the containers above them in their order. -/
theorem containersAbove_eq_eraseDups (h : t.WellLinked) {depth : Nat}
    (hd : ∀ id ∈ operand.members, t.depth id = depth) (levels : Nat) :
    t.containersAbove operand (levels + 1) =
      (operand.members.map fun id => t.above^[levels + 1] (.node id)).eraseDups := by
  induction levels with
  | zero => exact t.parents_eq operand
  | succ levels ih =>
    have hclimb := t.climb_eq_eraseDups (h.containersAbove_eq_root_or hd (levels + 1))
    rw [containersAbove] at hclimb ⊢
    rw [Nat.repeat, hclimb, ← containersAbove, ih, eraseDups_map_eraseDups, List.map_map]
    simp only [Function.comp_def, Function.iterate_succ_apply']

/-- Beyond the top level there is the root and nothing else. -/
theorem containersAbove_eq_root (h : t.WellLinked) (hne : operand.members ≠ [])
    (hl : ∀ id ∈ operand.members, t.depth id ≤ levels) :
    t.containersAbove operand (levels + 1) = [.root] := by
  have top : ∀ id ∈ operand.members, t.above^[levels + 1] (.node id) = .root := fun id hid => by
    obtain ⟨n, hn⟩ := Nat.exists_eq_add_of_le' (hl id hid)
    rw [hn, Nat.add_assoc, Function.iterate_add_apply, h.above_depth_succ, above_iterate_root]
  obtain ⟨id, hid⟩ := List.exists_mem_of_ne_nil _ hne
  refine eq_singleton_of_nodup (t.nodup_containersAbove_succ operand levels)
    (mem_containersAbove.2 ⟨id, hid, top id hid⟩) fun c hc => ?_
  obtain ⟨id, hid, rfl⟩ := mem_containersAbove.1 hc
  exact top id hid

end WellLinked

/-- A climb with any nodes, equally deep or not and some of them perhaps twice, finds each container
that one of them reaches on its own, and finds it once; equally deep nodes find them in their order.
Where all nodes get beyond the top level only the root is left, however far the climb goes on. -/
theorem containersAbove_climbs (h : t.WellLinked) (hne : operand.members ≠ []) (hl : 1 ≤ levels) :
    (t.containersAbove operand levels).Nodup ∧
    (∀ c, c ∈ t.containersAbove operand levels ↔
      ∃ id ∈ operand.members, t.above^[levels] (.node id) = c) ∧
    (∀ depth, (∀ id ∈ operand.members, t.depth id = depth) →
      t.containersAbove operand levels =
        (operand.members.map fun id => t.above^[levels] (.node id)).eraseDups) ∧
    ((∀ id ∈ operand.members, t.depth id < levels) →
      ∀ further, t.containersAbove operand (levels + further) = [.root]) := by
  obtain ⟨levels, rfl⟩ := Nat.exists_eq_add_of_le' hl
  refine ⟨t.nodup_containersAbove_succ operand levels, fun c => mem_containersAbove,
    fun depth hd => h.containersAbove_eq_eraseDups hd levels, fun hbeyond further => ?_⟩
  rw [Nat.add_right_comm]
  exact h.containersAbove_eq_root hne fun id hid =>
    Nat.le_add_right_of_le (Nat.le_of_lt_succ (hbeyond id hid))

/-- Two lists, one with a link in it. Nodes of different depths, one of them there twice, reach a
node and the root; equally deep ones reach the lists in their own order; and beyond the deepest node
there is the root alone. -/
theorem containersAbove_climbs_of_two_lists :
    let t := ((((({} : Arena).append .root "ul").append (.node 0) "li").append (.node 1) "a").append
      .root "ol").append (.node 3) "li"
    let mixed := Operand.group [2, 1, 4, 2]
    t.WellLinked ∧
      ((t.containersAbove mixed 2).Nodup ∧
        ∀ c, c ∈ t.containersAbove mixed 2 ↔ c = .node 0 ∨ c = .root) ∧
      t.containersAbove (.group [4, 1, 4]) 1 = [.node 3, .node 0] ∧
      ∀ further, t.containersAbove mixed (3 + further) = [.root] := by
  intro t mixed
  have one := wellLinked_empty.attach has_root (n := { name := "ul" }) rfl
  have two := one.attach (c := .node 0) (n := { name := "li" }) (by decide) rfl
  have three := two.attach (c := .node 1) (n := { name := "a" }) (by decide) rfl
  have four := three.attach has_root (n := { name := "ol" }) rfl
  have hw : t.WellLinked := four.attach (c := .node 3) (n := { name := "li" }) (by decide) rfl
  have hdepth : ∀ id ∈ mixed.members, t.depth id < 3 := by decide +kernel
  have heven : ∀ id ∈ (Operand.group [4, 1, 4]).members, t.depth id = 1 := by decide +kernel
  have hne : mixed.members ≠ [] := by decide
  have hne' : (Operand.group [4, 1, 4]).members ≠ [] := by decide
  have htwo : 1 ≤ 2 := by decide
  have hthree : 1 ≤ 3 := by decide
  obtain ⟨hn, hmem, -⟩ := containersAbove_climbs hw hne htwo
  obtain ⟨-, -, hordered, -⟩ := containersAbove_climbs hw hne' (Nat.le_refl 1)
  obtain ⟨-, -, -, hroot⟩ := containersAbove_climbs hw hne hthree
  have hup : mixed.members.map (fun id => t.above^[2] (.node id)) =
      [.node 0, .root, .root, .node 0] := by decide
  refine ⟨hw, ⟨hn, fun c => ?_⟩, (hordered 1 heven).trans (by decide), hroot hdepth⟩
  rw [hmem, ← List.mem_map, hup]
  simp only [List.mem_cons, List.not_mem_nil, or_false]
  tauto

end Arena

end MarkupShorthand
