import MarkupShorthand.Proofs.Abbreviation.Sketch
import MarkupShorthand.Proofs.Arena.Tips

/-!
# Mirroring a sketch

How an arena that is being built stands to the sketch of what has been read. The nodes that the next
operator applies to are the live ones. On the way from the root to them every container ends with
the copies of one sketch, the last of its list (`Copies`); whatever stands before these copies is
finished, for no live node is below it. `Shows` says so for a container and everything on the ways
from it to live nodes, and each operation on the live nodes changes the sketch at one place
(`Shows.retouch`, `Shows.append`, `Shows.multiply`).
-/

namespace MarkupShorthand

open Arena

variable {t t' : Arena} {live live' : List NodeId} {c : Container} {id x : NodeId}
  {done : List Sketch} {last last' : Sketch} {old copies : List NodeId} {depth : Nat}
  {sketches : List Sketch}

/-- A container lists the nodes of finished sketches and then the copies of one more. -/
structure Copies (t : Arena) (live : List NodeId) (c : Container) (done : List Sketch)
    (last : Sketch) (old copies : List NodeId) : Prop where
  children_eq : (t.children c).toList = old ++ copies
  old_eq : old.map t.element = Sketch.unfoldAll done
  quiet : ∀ x ∈ old, ∀ y ∈ t.below x, y ∉ live
  slots_eq : copies.map (fun m => (t.node m).slot) = last.slots
  ne_nil : copies ≠ []
  like : ∀ m ∈ copies, (t.node m).name = last.name ∧ (t.node m).attributes = last.attributes

/-- A container with the nodes below it stands for some sketches; the cursor is the last sketch at a
depth, and its copies are live. -/
inductive Shows (t : Arena) (live : List NodeId) : Nat → Container → List Sketch → Prop where
  | cursor {c : Container} {done : List Sketch} {last : Sketch} {old copies : List NodeId} :
    Copies t live c done last old copies → last.children = [] → (∀ m ∈ copies, m ∈ live) →
      Shows t live 0 c (done ++ [last])
  | above {depth : Nat} {c : Container} {done : List Sketch} {last : Sketch}
    {old copies : List NodeId} :
    Copies t live c done last old copies →
      (∀ m ∈ copies, Shows t live depth (.node m) last.children) →
      Shows t live (depth + 1) c (done ++ [last])

namespace Copies

/-- The elements of the copies, once their children are known. -/
theorem forest (h : Copies t live c done last old copies) (hw : t.WellLinked)
    (hc : ∀ m ∈ copies, (t.children (.node m)).toList.map t.element =
      Sketch.unfoldAll last.children) :
    (t.children c).toList.map t.element = Sketch.unfoldAll (done ++ [last]) := by
  rw [h.children_eq, List.map_append, h.old_eq, Sketch.unfoldAll_concat, Sketch.unfold_eq,
    ← h.slots_eq, List.map_map]
  refine congrArg _ (List.map_congr_left fun m hm => ?_)
  rw [hw.element_eq, (h.like m hm).1, (h.like m hm).2, ← hc m hm]
  rfl

theorem containerOf_eq (h : Copies t live c done last old copies) (hw : t.WellLinked)
    (hx : x ∈ copies) : t.containerOf x = c :=
  hw.containerOf_eq (h.children_eq ▸ List.mem_append_right _ hx)

theorem lt_count (h : Copies t live c done last old copies) (hw : t.WellLinked)
    (hx : x ∈ copies) : x < t.count :=
  hw.lt_count (h.children_eq ▸ List.mem_append_right _ hx)

theorem lt_old (h : Copies t live c done last old copies) (hw : t.WellLinked) (hx : x ∈ old) :
    x < t.count :=
  hw.lt_count (h.children_eq ▸ List.mem_append_left _ hx)

/-- Where the last sketch gains copies, the finished ones stay. -/
theorem gain (h : Copies t live c done last old copies) (hw : t.WellLinked)
    {a : Container → List Element} (added : AddsLeaves t t' a)
    (hlike : ∀ e ∈ a c, e.name = last.name ∧ e.attributes = last.attributes)
    (hold : ∀ x ∈ old, ∀ y ∈ t.below x, a (.node y) = [])
    (hlive : ∀ y ∈ live', y < t.count → y ∈ live) (children : List Sketch) :
    ∃ new, new.length = (a c).length ∧ (∀ x ∈ new, t.count ≤ x ∧ x < t'.count) ∧
      Copies t' live' c done
        { last with slots := last.slots ++ (a c).map Element.slot, children := children }
        old (copies ++ new) := by
  have hhas : t.Has c := by
    obtain ⟨m, hm⟩ := List.exists_mem_of_ne_nil _ h.ne_nil
    exact h.containerOf_eq hw hm ▸ hw.has_containerOf (h.lt_count hw hm)
  obtain ⟨new, he, hnew, hle⟩ := added.children_eq c hhas
  have same : ∀ x ∈ old, t'.below x = t.below x ∧ t'.element x = t.element x := fun x hx =>
    added.element_eq hw (h.lt_old hw hx) (hold x hx)
  refine ⟨new, by rw [← hnew, List.length_map], fun x hx => ⟨hle x hx, ?_⟩, ?_, ?_,
    fun x hx y hy hm => ?_, ?_, List.append_ne_nil_of_left_ne_nil h.ne_nil _, fun m hm => ?_⟩
  · exact added.wellLinked.lt_count (c := c) (he ▸ List.mem_append_right _ hx)
  · rw [he, h.children_eq, List.append_assoc]
  · rw [← h.old_eq]
    exact List.map_congr_left fun x hx => (same x hx).2
  · rw [(same x hx).1] at hy
    exact h.quiet x hx y hy (hlive y hm (hw.lt_of_mem_below (h.lt_old hw hx) hy))
  · rw [List.map_append, ← h.slots_eq, ← hnew, List.map_map]
    refine congrArg₂ _ (List.map_congr_left fun m hm => ?_) (List.map_congr_left fun m hm => ?_)
    · rw [added.node_eq m (h.lt_count hw hm)]
    · rw [Function.comp_apply, added.wellLinked.element_eq]
  · rcases List.mem_append.1 hm with hm | hm
    · rw [added.node_eq m (h.lt_count hw hm)]
      exact h.like m hm
    · have hlast := hlike _ (hnew ▸ List.mem_map_of_mem (f := t'.element) hm)
      rwa [added.wellLinked.element_eq] at hlast

/-- Copies stay what they are where leaves are added elsewhere. -/
theorem addsLeaves (h : Copies t live c done last old copies) (hw : t.WellLinked)
    {a : Container → List Element} (added : AddsLeaves t t' a) (hc : a c = [])
    (hold : ∀ x ∈ old, ∀ y ∈ t.below x, a (.node y) = [])
    (hlive : ∀ y ∈ live', y < t.count → y ∈ live) (children : List Sketch) :
    Copies t' live' c done { last with children := children } old copies := by
  obtain ⟨new, hlen, -, h'⟩ := h.gain hw added (by rw [hc]; simp) hold hlive children
  rw [hc, List.length_nil, List.length_eq_zero_iff] at hlen
  rw [hc, hlen, List.map_nil, List.append_nil, List.append_nil] at h'
  exact h'

/-- Where live nodes are retouched, finished sketches stay and the copies are those of the last
sketch as it is after that. -/
theorem retouch (h : Copies t live c done last old copies) (hw : t.WellLinked)
    {p : List Attribute → List Attribute} {q : Slot → Slot}
    (hlast : ∀ m ∈ copies, ((t.retouch p q live).node m).name = last'.name ∧
      ((t.retouch p q live).node m).attributes = last'.attributes)
    (hslots : copies.map (fun m => ((t.retouch p q live).node m).slot) = last'.slots) :
    Copies (t.retouch p q live) live c done last' old copies := by
  have same : ∀ x ∈ old, (t.retouch p q live).below x = t.below x ∧
      (t.retouch p q live).element x = t.element x := fun x hx =>
    hw.element_congr (hw.retouch live) fun y hy => node_retouch_of_not_mem (h.quiet x hx y hy)
  refine ⟨?_, ?_, fun x hx y hy => ?_, hslots, h.ne_nil, hlast⟩
  · rw [children_retouch, h.children_eq]
  · rw [← h.old_eq]
    exact List.map_congr_left fun x hx => (same x hx).2
  · rw [(same x hx).1] at hy
    exact h.quiet x hx y hy

end Copies

namespace Shows

/-- The elements in a container are what its sketches stand for. -/
theorem forest (h : Shows t live depth c sketches) (hw : t.WellLinked)
    (hl : ∀ m ∈ live, t.Leaf m) :
    (t.children c).toList.map t.element = Sketch.unfoldAll sketches := by
  induction h with
  | cursor hc hchildren hlive =>
    refine hc.forest hw fun m hm => ?_
    rw [hchildren, show t.children (.node m) = #[] from hl m (hlive m hm)]
    rfl
  | above hc _ ih => exact hc.forest hw ih

/-- A container on the way to live nodes is as many levels above one as the cursor is deep. -/
theorem above_live (h : Shows t live depth c sketches) (hw : t.WellLinked) :
    ∃ m ∈ live, t.above^[depth + 1] (.node m) = c := by
  induction h with
  | cursor hc _ hlive =>
    obtain ⟨m, hm⟩ := List.exists_mem_of_ne_nil _ hc.ne_nil
    exact ⟨m, hlive m hm, hc.containerOf_eq hw hm⟩
  | above hc _ ih =>
    obtain ⟨m, hm⟩ := List.exists_mem_of_ne_nil _ hc.ne_nil
    obtain ⟨id, hid, hup⟩ := ih m hm
    refine ⟨id, hid, ?_⟩
    rw [Function.iterate_succ_apply', hup]
    exact hc.containerOf_eq hw hm

theorem children_ne_nil (h : Shows t live depth c sketches) : (t.children c).toList ≠ [] := by
  cases h with
  | cursor hc => exact hc.children_eq ▸ List.append_ne_nil_of_right_ne_nil _ hc.ne_nil
  | above hc => exact hc.children_eq ▸ List.append_ne_nil_of_right_ne_nil _ hc.ne_nil

/-- What is done to all live nodes is done to the cursor. -/
theorem retouch (h : Shows t live depth c sketches) (hw : t.WellLinked) {d : Nat}
    (tips : Tips t d live) (p : List Attribute → List Attribute) (q : Slot → Slot) :
    Shows (t.retouch p q live) live depth c (Sketch.atDepth (·.modifyLast fun s =>
      { s with attributes := p s.attributes, slots := s.slots.map q }) depth sketches) := by
  induction h with
  | @cursor c done last old copies hc hchildren hlive =>
    rw [Sketch.atDepth, List.modifyLast_concat]
    have hnode : ∀ m ∈ copies, (t.retouch p q live).node m = (t.node m).retouch p q := fun m hm =>
      node_retouch_of_mem tips.nodup (hlive m hm) (tips.lt_count m (hlive m hm))
    refine .cursor (hc.retouch hw (fun m hm => ?_) ?_) hchildren hlive
    · rw [hnode m hm]
      exact ⟨(hc.like m hm).1, congrArg p (hc.like m hm).2⟩
    · rw [← hc.slots_eq, List.map_map]
      exact List.map_congr_left fun m hm => by rw [hnode m hm]; rfl
  | @above depth c done last old copies hc hbelow ih =>
    rw [Sketch.atDepth_succ_concat]
    have hnode : ∀ m ∈ copies, (t.retouch p q live).node m = t.node m := fun m hm =>
      node_retouch_of_not_mem fun hl => (hbelow m hm).children_ne_nil
        (Array.toList_eq_nil_iff.2 (tips.leaf m hl))
    refine .above (hc.retouch hw (fun m hm => ?_) ?_) ih
    · rw [hnode m hm]
      exact hc.like m hm
    · rw [← hc.slots_eq]
      exact List.map_congr_left fun m hm => by rw [hnode m hm]

/-- A container that gains one leaf ends with the copies of a new cursor. -/
theorem gain {a : Container → List Element} (added : AddsLeaves t t' a) (hw : t.WellLinked)
    (hc : t.Has c) {name : String} (ha : a c = [⟨name, [], {}, []⟩])
    (hforest : (t.children c).toList.map t.element = Sketch.unfoldAll sketches)
    (hbelow : ∀ x ∈ (t.children c).toList, ∀ y ∈ t.below x, a (.node y) = [])
    (hlive : ∀ y, y ∈ live' ↔ t.count ≤ y ∧ y < t'.count) :
    Shows t' live' 0 c (sketches ++ [{ name := name }]) := by
  obtain ⟨new, he, hnew, hle⟩ := added.children_eq c hc
  have same : ∀ x ∈ (t.children c).toList, t'.below x = t.below x ∧ t'.element x = t.element x :=
    fun x hx => added.element_eq hw (hw.lt_count hx) (hbelow x hx)
  have hnode : ∀ m ∈ new, (t'.node m).name = name ∧ (t'.node m).attributes = [] ∧
      (t'.node m).slot = {} := fun m hm => by
    have hm' := List.mem_map_of_mem (f := t'.element) hm
    rw [hnew, ha, List.mem_singleton, added.wellLinked.element_eq, Element.mk.injEq] at hm'
    exact ⟨hm'.1, hm'.2.1, hm'.2.2.1⟩
  have hlen : new.length = 1 := by
    rw [← List.length_map (f := t'.element), hnew, ha]; rfl
  obtain ⟨m, rfl⟩ := List.length_eq_one_iff.1 hlen
  have hcopies : Copies t' live' c sketches { name := name } (t.children c).toList [m] := by
    refine ⟨he, ?_, fun x hx y hy hm => ?_, ?_, List.cons_ne_nil _ _, fun m hm => ?_⟩
    · rw [← hforest]
      exact List.map_congr_left fun x hx => (same x hx).2
    · rw [(same x hx).1] at hy
      exact Nat.not_lt.2 ((hlive y).1 hm).1 (hw.lt_of_mem_below (hw.lt_count hx) hy)
    · rw [List.map_singleton, (hnode m (List.mem_singleton_self m)).2.2]
    · exact ⟨(hnode m hm).1, (hnode m hm).2.1⟩
  refine .cursor hcopies rfl fun m hm => (hlive m).2 ⟨hle m hm, ?_⟩
  exact added.wellLinked.lt_count (c := c) (he ▸ List.mem_append_right _ hm)

/-- A node below which nothing is live is not above live nodes, nor are the nodes below it. -/
theorem not_onWay (hw : t.WellLinked) (h : ∀ y ∈ t.below x, y ∉ live) :
    ∀ y ∈ t.below x, ¬ t.OnWay live (.node y) := by
  rintro y hy ⟨id, hid, m, hm⟩
  obtain ⟨n, hn⟩ := hw.mem_below.1 hy
  refine h id (hw.mem_below.2 ⟨n + m, ?_⟩) hid
  rw [Function.iterate_add_apply, hm, hn]

section Append

variable {operand : Operand} {d levels : Nat}

/-- No node in a container is a container of its level. -/
theorem not_mem_of_level (hw : t.WellLinked) (tips : Tips t d operand.members)
    (hlevel : t.level c = d + 1 - levels) (hx : x ∈ (t.children c).toList) :
    ∀ y ∈ t.below x, .node y ∉ t.containersAbove operand levels := by
  intro y hy hm
  obtain ⟨n, hn⟩ := hw.mem_below.1 hy
  have hy' := ((hw.mem_containersAbove_level tips.depth_eq).1 hm).1
  have hx' := hw.level_containerOf x
  rw [hw.containerOf_eq hx] at hx'
  rw [level_node, hw.depth_eq_add hn] at hy'
  omega

/-- Where the new nodes go, they are the copies of a new cursor. -/
theorem append_here (h : Shows t operand.members depth c sketches) (hw : t.WellLinked)
    (tips : Tips t d operand.members) (hlevel : t.level c = d + 1 - levels) (name : String) :
    let appended := t.appendToEach (t.containersAbove operand levels) name
    Shows appended.1 appended.2.members 0 c (sketches ++ [{ name := name }]) := by
  have hup : c ∈ t.containersAbove operand levels := by
    obtain ⟨m, hm, hup⟩ := h.above_live hw
    exact (hw.mem_containersAbove_level tips.depth_eq).2 ⟨hlevel, m, hm, _, hup⟩
  exact gain (tips.addsLeaves_appendToEach hw levels name) hw
    (hw.has_containersAbove tips.lt_count hup) (if_pos hup) (h.forest hw tips.leaf)
    (fun x hx y hy => if_neg (not_mem_of_level hw tips hlevel hx y hy))
    (tips.appendToEach hw levels name).2

/-- Appending to the containers above the live nodes is placing a new cursor. -/
theorem append (h : Shows t operand.members depth c sketches) (hw : t.WellLinked)
    (tips : Tips t d operand.members) (k : Nat) (hk : k ≤ depth + 1)
    (hlevel : t.level c + k = d + 1 - levels) (name : String) :
    let appended := t.appendToEach (t.containersAbove operand levels) name
    Shows appended.1 appended.2.members k c
      (Sketch.atDepth (· ++ [{ name := name }]) k sketches) := by
  have added := tips.addsLeaves_appendToEach hw levels name
  have hmem := (tips.appendToEach hw levels name).2
  -- above the level of the new nodes a container with copies gains nothing
  have keep : ∀ {c done last old copies k}, t.level c + (k + 1) = d + 1 - levels →
      Copies t operand.members c done last old copies → ∀ children,
      Copies (t.appendToEach (t.containersAbove operand levels) name).1
        (t.appendToEach (t.containersAbove operand levels) name).2.members c done
        { last with children := children } old copies := by
    intro c done last old copies k hlevel hc children
    refine hc.addsLeaves hw added ?_ (fun x hx y hy => ?_) (fun y hy hlt => ?_) children
    · refine if_neg fun hm => ?_
      have := ((hw.mem_containersAbove_level tips.depth_eq).1 hm).1
      omega
    · refine if_neg fun hm => not_onWay hw (hc.quiet x hx) y hy ?_
      exact ((hw.mem_containersAbove_level tips.depth_eq).1 hm).2
    · exact absurd ((hmem y).1 hy).1 (Nat.not_le.2 hlt)
  induction h generalizing k with
  | @cursor c done last old copies hc hchildren hlive =>
    rcases k with _ | k
    · exact append_here (.cursor hc hchildren hlive) hw tips hlevel name
    · obtain rfl : k = 0 := by omega
      rw [Sketch.atDepth_succ_concat, hchildren]
      refine .above (keep hlevel hc _) fun m hm => ?_
      have hl := hlive m hm
      have hup : .node m ∈ t.containersAbove operand levels := by
        refine (hw.mem_containersAbove_level tips.depth_eq).2 ⟨?_, m, hl, 0, rfl⟩
        rw [← hlevel, ← hc.containerOf_eq hw hm, hw.level_containerOf, level_node]
      have hnil : (t.children (.node m)).toList = [] :=
        Array.toList_eq_nil_iff.2 (tips.leaf m hl)
      refine gain added hw (has_node.2 (tips.lt_count m hl)) (if_pos hup) ?_ ?_ hmem
      · rw [hnil]; rfl
      · rw [hnil]; exact fun x hx => absurd hx List.not_mem_nil
  | @above depth c done last old copies hc hbelow ih =>
    rcases k with _ | k
    · exact append_here (.above hc hbelow) hw tips hlevel name
    · rw [Sketch.atDepth_succ_concat]
      refine .above (keep hlevel hc _) fun m hm => ih m hm k (by omega) ?_
      rw [← hlevel, ← hc.containerOf_eq hw hm, hw.level_containerOf, level_node]
      omega

end Append

section Multiply

variable {operand : Operand} {count d : Nat}

/-- The live nodes in a container are the copies that end it. -/
theorem live_perm (hc : Copies t live c done last old copies) (hw : t.WellLinked)
    (tips : Tips t d live) (hlive : ∀ m ∈ copies, m ∈ live) :
    (live.filter (t.containerOf · = c)).Perm copies := by
  refine (List.perm_ext_iff_of_nodup (tips.nodup.filter _) ?_).2 fun m => ?_
  · exact (List.nodup_append.1 (hc.children_eq ▸ hw.nodup_children c)).2.1
  · rw [List.mem_filter, decide_eq_true_eq]
    constructor
    · rintro ⟨hm, e⟩
      have hm' := hw.mem_children.2 ⟨tips.lt_count m hm, e⟩
      rw [hc.children_eq, List.mem_append] at hm'
      refine hm'.resolve_left fun hold => hc.quiet m hold m ?_ hm
      exact hw.mem_below.2 ⟨0, rfl⟩
    · exact fun hm => ⟨hlive m hm, hc.containerOf_eq hw hm⟩

/-- Every copy gets the same further copies. -/
theorem furtherCopies_eq (count : Nat) (hc : Copies t live c done last old copies)
    (hw : t.WellLinked) (tips : Tips t d live) (hlive : ∀ m ∈ copies, m ∈ live) :
    t.furtherCopies count live c =
      (List.replicate last.slots.length ((List.range' 2 (count - 1)).map fun p =>
        ⟨last.name, last.attributes, ⟨p, count⟩, []⟩)).flatten := by
  have hperm := live_perm hc hw tips hlive
  have hcopy : ∀ id ∈ live.filter (t.containerOf · = c),
      (List.range' 2 (count - 1)).map (t.copyElement count id) =
        (List.range' 2 (count - 1)).map fun p => ⟨last.name, last.attributes, ⟨p, count⟩, []⟩ := by
    intro id hid
    have hlike := hc.like id (hperm.mem_iff.1 hid)
    exact List.map_congr_left fun p _ => by rw [copyElement, hlike.1, hlike.2]
  rw [furtherCopies, List.flatMap_congr hcopy, List.flatMap_def, List.map_const',
    hperm.length_eq, ← hc.slots_eq, List.length_map]

/-- Where every live node gets further copies in its container, the cursor gets their slots. -/
theorem gain_copies (h : Shows t live depth c sketches) (hw : t.WellLinked) (tips : Tips t d live)
    (hlevel : t.level c + depth = d) (added : AddsLeaves t t' (t.furtherCopies count live))
    (hmem : ∀ x, x ∈ live' ↔ x ∈ live ∨ t.count ≤ x ∧ x < t'.count) :
    Shows t' live' depth c (Sketch.atDepth (·.modifyLast fun s =>
      { s with slots := s.slots ++
        (List.replicate s.slots.length ((List.range' 2 (count - 1)).map (⟨·, count⟩))).flatten })
        depth sketches) := by
  -- a container below which nothing is live, or that is on another level, gains nothing
  have none_of_level : ∀ c, t.level c ≠ d → t.furtherCopies count live c = [] := by
    refine fun c hc => furtherCopies_eq_nil fun y hy e => hc ?_
    rw [← e, hw.level_containerOf, tips.depth_eq y hy]
  have none_of_quiet : ∀ x, (∀ y ∈ t.below x, y ∉ live) → ∀ y ∈ t.below x,
      t.furtherCopies count live (.node y) = [] := by
    refine fun x hx y hy => furtherCopies_eq_nil fun m hm e => not_onWay hw hx y hy ?_
    exact ⟨m, hm, 1, e⟩
  have hold : ∀ y ∈ live', y < t.count → y ∈ live := fun y hy hlt =>
    ((hmem y).1 hy).resolve_right fun hn => Nat.not_lt.2 hn.1 hlt
  induction h with
  | @cursor c done last old copies hc hchildren hlive =>
    rw [Sketch.atDepth, List.modifyLast_concat]
    have hgain := furtherCopies_eq count hc hw tips hlive
    have hlike : ∀ e ∈ t.furtherCopies count live c,
        e.name = last.name ∧ e.attributes = last.attributes := by
      intro e he
      rw [hgain, List.mem_flatten] at he
      obtain ⟨run, hrun, he⟩ := he
      rw [List.eq_of_mem_replicate hrun] at he
      obtain ⟨p, -, rfl⟩ := List.mem_map.1 he
      exact ⟨rfl, rfl⟩
    obtain ⟨new, -, hnew, h'⟩ := hc.gain hw added hlike
      (fun x hx => none_of_quiet x (hc.quiet x hx)) hold []
    rw [hgain, List.map_flatten, List.map_replicate, List.map_map, ← hchildren] at h'
    refine .cursor h' hchildren fun m hm => (hmem m).2 ?_
    exact (List.mem_append.1 hm).imp (hlive m) (hnew m)
  | @above depth c done last old copies hc hbelow ih =>
    rw [Sketch.atDepth_succ_concat]
    refine .above (hc.addsLeaves hw added ?_ (fun x hx => ?_) hold _) fun m hm => ih m hm ?_
    · exact none_of_level c (by omega)
    · exact none_of_quiet x (hc.quiet x hx)
    · rw [← hlevel, ← hc.containerOf_eq hw hm, hw.level_containerOf, level_node]
      omega

/-- Multiplying the live nodes is multiplying the cursor. -/
theorem multiply (h : Shows t operand.members depth c sketches) (hw : t.WellLinked)
    (tips : Tips t d operand.members) (hlevel : t.level c + depth = d) (count : Nat) :
    let multiplied := t.multiplyEach operand count
    Shows multiplied.1 multiplied.2.members depth c
      (Sketch.atDepth (·.modifyLast (Sketch.multiply count)) depth sketches) := by
  have marked := h.retouch hw tips (fun as => as) (fun _ => ⟨1, count⟩)
  have hmem := (tips.multiplyEach hw count).2
  have copied : ∀ c, t.furtherCopies count operand.members c =
      (t.markAll count operand.members).furtherCopies count operand.members c := by
    intro c
    refine (furtherCopies_congr (fun id _ => containerOf_markAll ..) fun id hid p => ?_).symm
    rw [copyElement, copyElement, node_markAll tips.nodup hid (tips.lt_count id hid)]
  have grown : Shows (t.multiplyEach operand count).1 (t.multiplyEach operand count).2.members
      depth c _ :=
    marked.gain_copies (hw.markAll count _) (tips.retouch hw _ _ _)
      (by rw [hw.level_retouch, hlevel])
      ((tips.addsLeaves_multiplyEach hw count).congr fun c _ => copied c)
      (fun x => by rw [hmem, count_retouch])
  rw [Sketch.atDepth_atDepth] at grown
  convert grown using 3 with last
  rw [Function.comp_apply, Sketch.modifyLast_modifyLast]
  refine congrArg (List.modifyLast · last) (funext fun s => ?_)
  rw [Sketch.multiply, Sketch.groupSlots, Function.comp_apply, List.map_const',
    List.length_replicate]

end Multiply

end Shows

end MarkupShorthand
