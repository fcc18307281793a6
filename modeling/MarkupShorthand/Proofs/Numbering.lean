import Mathlib.Data.List.Nodup

/-!
# Numbering

Numbers that the items of a list have one after the other (`NumbersFrom`), as copies get theirs in
the order in which they are made. Where items are made in another order, their numbers are exchanged
among each other (`NumbersFrom.exists_exchange`).
-/

namespace MarkupShorthand

/-- Whether a function numbers the items of a list one after the other. -/
def NumbersFrom {α : Type} (f : α → Nat) (start : Nat) (items : List α) : Prop :=
  items.map f = List.range' start items.length

namespace NumbersFrom

variable {α : Type} {f g : α → Nat} {start : Nat} {items items' before after : List α}
  {first a b : α}

theorem map {β : Type} {g : β → α} {items : List β} :
    NumbersFrom f start (items.map g) ↔ NumbersFrom (fun b => f (g b)) start items := by
  rw [NumbersFrom, NumbersFrom, List.map_map, List.length_map]
  rfl

theorem append : NumbersFrom f start (before ++ after) ↔
    NumbersFrom f start before ∧ NumbersFrom f (start + before.length) after := by
  rw [NumbersFrom, NumbersFrom, NumbersFrom, List.map_append, List.length_append,
    ← List.range'_append_1]
  exact ⟨fun h => List.append_inj h (by simp), fun h => congrArg₂ _ h.1 h.2⟩

theorem cons : NumbersFrom f start (first :: items) ↔
    f first = start ∧ NumbersFrom f (start + 1) items := by
  rw [NumbersFrom, NumbersFrom, List.map_cons, List.length_cons, List.range'_succ, List.cons.injEq]

theorem congr (h : NumbersFrom f start items) (hg : ∀ a ∈ items, g a = f a) :
    NumbersFrom g start items :=
  (List.map_congr_left hg).trans h

theorem mem_range (h : NumbersFrom f start items) (ha : a ∈ items) :
    start ≤ f a ∧ f a < start + items.length :=
  List.mem_range'_1.1 (h ▸ List.mem_map_of_mem ha)

theorem inj (h : NumbersFrom f start items) (ha : a ∈ items) (hb : b ∈ items) :
    f a = f b ↔ a = b :=
  ⟨List.inj_on_of_nodup_map (h ▸ List.nodup_range') ha hb, congrArg f⟩

/-- Different items can be numbered. -/
theorem exists_of_nodup (hn : items.Nodup) (start : Nat) : ∃ f, NumbersFrom f start items := by
  classical
  refine ⟨fun a => start + items.idxOf a, List.ext_getElem (by simp) fun n h _ => ?_⟩
  rw [List.length_map] at h
  rw [List.getElem_map, List.getElem_range', hn.idxOf_getElem n h, Nat.one_mul]

/-- What is numbered in two orders has the same numbers, exchanged among each other. -/
theorem exists_exchange (hf : NumbersFrom f start items) (hg : NumbersFrom g start items')
    (hp : items.Perm items') :
    ∃ exchange : Nat → Nat, (∀ n < start, exchange n = n) ∧
      (∀ a ∈ items, exchange (f a) = g a) ∧
      ((List.range (start + items.length)).map exchange).Perm
        (List.range (start + items.length)) := by
  classical
  let exchange := fun n => if h : ∃ a ∈ items, f a = n then g h.choose else n
  have below : ∀ n < start, exchange n = n := by
    intro n hn
    refine dif_neg ?_
    rintro ⟨a, ha, rfl⟩
    exact Nat.not_lt.2 (hf.mem_range ha).1 hn
  have numbered : ∀ a ∈ items, exchange (f a) = g a := by
    intro a ha
    have h : ∃ b ∈ items, f b = f a := ⟨a, ha, rfl⟩
    have same : h.choose = a := (hf.inj h.choose_spec.1 ha).1 h.choose_spec.2
    rw [show exchange (f a) = g h.choose from dif_pos h, same]
  refine ⟨exchange, below, numbered, ?_⟩
  -- a list of the numbers below and one of those given out, each mapped to itself in some order
  have split : List.range (start + items.length) =
      List.range start ++ List.range' start items.length := by
    rw [List.range_eq_range', List.range_eq_range', ← List.range'_append_1, Nat.zero_add]
  have low : (List.range start).map exchange = List.range start :=
    (List.map_congr_left fun n hn => below n (List.mem_range.1 hn)).trans (List.map_id _)
  have high : (List.range' start items.length).map exchange = items.map g := by
    rw [← hf, List.map_map]
    exact List.map_congr_left numbered
  rw [split, List.map_append, low, high]
  refine List.Perm.append_left _ ((hp.map g).trans (.of_eq ?_))
  rw [hp.length_eq]
  exact hg

end NumbersFrom

end MarkupShorthand
