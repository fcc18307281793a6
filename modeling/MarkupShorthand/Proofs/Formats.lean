import Mathlib.Data.List.Induction
import Mathlib.Data.List.Sort
import MarkupShorthand.Format
import MarkupShorthand.Proofs.ByteOrder

/-!
# Registries after any registrations

One more formatter changes what is found under its own name only (`Registry.get?_register`), so that
after any number of them each name has the one that was registered last under it
(`Registry.get?_registerAll`). No name is there twice (`Registry.Unique`), which makes the sorted
names strictly increasing (`Registry.Unique.names_pairwise`). All that can be asked of such
registries follows from what is found under each name (`Registry.Unique.alike`), and so the order of
registrations under different names cannot be told.
-/

namespace MarkupShorthand

/-- The formatter that was registered last under a name. -/
def Formatter.last? (history : List Formatter) (name : String) : Option Formatter :=
  (history.filter (·.name = name)).getLast?

namespace Registry

variable {r r' start : Registry} {f g : Formatter} {first history : List Formatter} {name : String}

/-- A registry with formatters registered one after another. -/
def registerAll (r : Registry) (history : List Formatter) : Registry :=
  history.foldl register r

/-- Whether no two formatters have one name. -/
def Unique (r : Registry) : Prop :=
  (r.formatters.map Formatter.name).Nodup

/-- Whether no question tells two registries apart. -/
structure Alike (r r' : Registry) : Prop where
  names : r.names = r'.names
  describe : r.describe = r'.describe
  has (name : String) : r.has name = r'.has name
  get? (name : String) : r.get? name = r'.get? name
  write (t : Arena) (name : String) : r.write t name = r'.write t name

/-- Under a name that was registered is its last formatter, and under others what was there. -/
theorem get?_registerAll (r : Registry) (history : List Formatter) (name : String) :
    (r.registerAll history).get? name = (Formatter.last? history name).or (r.get? name) := by
  induction history using List.reverseRecOn with
  | nil => rfl
  | append_singleton history f ih =>
    rw [registerAll, List.foldl_concat, get?_register, ← registerAll, ih]
    simp only [Formatter.last?, List.filter_append, List.filter_cons, List.filter_nil,
      decide_eq_true_eq]
    split
    · rw [List.getLast?_concat, Option.some_or]
    · rw [List.append_nil]

/-! ## Names -/

theorem Unique.register (h : r.Unique) (f : Formatter) : (r.register f).Unique := by
  refine List.nodup_cons.2 ⟨fun hf => ?_, ?_⟩
  · obtain ⟨g, hg, hname⟩ := List.mem_map.1 hf
    exact bne_iff_ne.1 (List.mem_filter.1 hg).2 hname
  · exact h.sublist (List.filter_sublist.map _)

theorem Unique.registerAll (h : r.Unique) (history : List Formatter) :
    (r.registerAll history).Unique := by
  induction history generalizing r with
  | nil => exact h
  | cons f history ih => exact ih (h.register f)

/-- A name is listed if something is found under it. -/
theorem mem_names : name ∈ r.names ↔ (r.get? name).isSome = true := by
  rw [names, List.mem_mergeSort, List.mem_map, get?, List.find?_isSome]
  simp only [beq_iff_eq]

theorem Unique.names_pairwise (h : r.Unique) : r.names.Pairwise (· < ·) := by
  have hnodup : r.names.Nodup := (List.mergeSort_perm _ _).nodup_iff.2 h
  have hsorted : r.names.Pairwise fun a b => decide (a ≤ b) = true := by
    refine List.pairwise_mergeSort (fun a b c hab hbc => ?_) (fun a b => ?_) _
    · exact decide_eq_true (String.le_trans (of_decide_eq_true hab) (of_decide_eq_true hbc))
    · simpa using String.le_total a b
  refine (hsorted.and hnodup).imp fun {a b} hab => String.not_le.1 fun hge => hab.2 ?_
  exact String.le_antisymm (of_decide_eq_true hab.1) hge

/-- What is found under each name settles every question. -/
theorem Unique.alike (h : r.Unique) (h' : r'.Unique) (hsame : ∀ name, r.get? name = r'.get? name) :
    r.Alike r' := by
  have hnames : r.names = r'.names := by
    refine h.names_pairwise.eq_of_mem_iff h'.names_pairwise fun name => ?_
    rw [mem_names, mem_names, hsame]
  constructor
  case names => exact hnames
  case describe =>
    unfold describe
    rw [hnames]
  case has => exact fun name => by rw [has_eq, has_eq, hsame]
  case get? => exact hsame
  case write => exact fun t name => by rw [write, write, hsame]

/-! ## Histories -/

theorem isSome_last? :
    (Formatter.last? history name).isSome = true ↔ ∃ f ∈ history, f.name = name := by
  rw [Formatter.last?, List.getLast?_isSome, ← List.length_pos_iff, List.length_pos_iff_exists_mem]
  simp only [List.mem_filter, decide_eq_true_eq]

/-- Under each name the registrations of two formatters of different names are in the same order,
whichever of the two comes first. -/
theorem last?_swap (before after : List Formatter) (h : f.name ≠ g.name) (name : String) :
    Formatter.last? (before ++ f :: g :: after) name =
      Formatter.last? (before ++ g :: f :: after) name := by
  have hswap : (f :: g :: after).filter (·.name = name) =
      (g :: f :: after).filter (·.name = name) := by
    by_cases hf : f.name = name
    · have hg : ¬ g.name = name := fun hg => h (hf.trans hg.symm)
      simp [hf, hg]
    · simp [List.filter_cons, hf]
  rw [Formatter.last?, Formatter.last?, List.filter_append, List.filter_append, hswap]

/-- How registries start, and what is registered in them then: nothing, or the formats that come
with the library. -/
inductive Starts : Registry → List Formatter → Prop where
  | empty : Starts {} []
  | builtIn (options : RenderOptions) : Starts (.builtIn options) [.tag options, .outline, .json]

theorem Starts.registerAll_eq (h : Starts start first) (history : List Formatter) :
    start.registerAll history = ({} : Registry).registerAll (first ++ history) := by
  have hstart : start = ({} : Registry).registerAll first := by
    cases h with
    | empty | builtIn => rfl
  rw [hstart, registerAll, registerAll, registerAll, List.foldl_append]

theorem unique_registerAll (history : List Formatter) :
    (({} : Registry).registerAll history).Unique :=
  have hempty : ({} : Registry).Unique := List.nodup_nil
  hempty.registerAll history

theorem get?_registerAll_empty (history : List Formatter) (name : String) :
    (({} : Registry).registerAll history).get? name = Formatter.last? history name := by
  rw [get?_registerAll]
  exact Option.or_none

/-- After any registrations in an empty registry or in the one that comes with the library, the
names are in the order of their bytes, each once, and are those that were registered. A name has a
formatter if it is one of them, and it is the last one that was registered under it: what it makes
of a tree is what the registry gives. Under other names, and only there unless a formatter says so
itself, no tree is written for want of a formatter. Two registrations one after the other under
different names can change places. -/
theorem registry_of_history (hstart : Starts start first) (history : List Formatter) :
    let r := start.registerAll history
    let all := first ++ history
    r.names.Pairwise (fun a b => a.toUTF8.data.toList < b.toUTF8.data.toList) ∧
    (∀ name, name ∈ r.names ↔ ∃ f ∈ all, f.name = name) ∧
    (∀ name, r.has name = true ↔ name ∈ r.names) ∧
    (∀ name, r.get? name = Formatter.last? all name) ∧
    (∀ name ∈ r.names, ∃ f, Formatter.last? all name = some f ∧ f.name = name ∧
      ∀ t, r.write t name = f.write t) ∧
    (∀ name ∉ r.names, r.get? name = none ∧ ∀ t, r.write t name = .error (.notFound name)) ∧
    (∀ name t, (∀ f, r.get? name = some f → f.write t ≠ .error (.notFound name)) →
      (r.write t name = .error (.notFound name) ↔ name ∉ r.names)) ∧
    ∀ before f g after, history = before ++ f :: g :: after → f.name ≠ g.name →
      r.Alike (start.registerAll (before ++ g :: f :: after)) := by
  intro r all
  have hr : r = ({} : Registry).registerAll all := hstart.registerAll_eq history
  have hunique : r.Unique := hr ▸ unique_registerAll all
  have hget (name : String) : r.get? name = Formatter.last? all name := by
    rw [hr, get?_registerAll_empty]
  have hfound : ∀ name ∈ r.names, ∃ f, Formatter.last? all name = some f ∧ f.name = name ∧
      ∀ t, r.write t name = f.write t := by
    intro name hname
    obtain ⟨f, hf⟩ := Option.isSome_iff_exists.1 (mem_names.1 hname)
    exact ⟨f, hget name ▸ hf, name_of_get? hf, write_eq_of_get? hf⟩
  have hmissing : ∀ name ∉ r.names, r.get? name = none ∧
      ∀ t, r.write t name = .error (.notFound name) := by
    intro name hname
    have hnone : r.get? name = none := Option.not_isSome_iff_eq_none.1 (mt mem_names.2 hname)
    exact ⟨hnone, write_eq_of_none hnone⟩
  refine ⟨hunique.names_pairwise.imp Text.toUTF8_lt, fun name => ?_, fun name => ?_, hget, hfound,
    hmissing, fun name t hown => ⟨fun hwrite hname => ?_, fun hname => (hmissing name hname).2 t⟩,
    fun before f g after hsplit hne => ?_⟩
  · rw [mem_names, hget, isSome_last?]
  · rw [has_eq, mem_names]
  · obtain ⟨f, hlast, -, hsame⟩ := hfound name hname
    exact hown f ((hget name).trans hlast) (hsame t ▸ hwrite)
  · have hswap := hstart.registerAll_eq (before ++ g :: f :: after)
    refine hunique.alike (hswap ▸ unique_registerAll _) fun name => ?_
    rw [hget, hswap, get?_registerAll_empty]
    simp only [all, hsplit, ← List.append_assoc]
    exact last?_swap (first ++ before) after hne name

/-- The formats of the library with one of them replaced, one that writes no tree, and one whose
name begins with a letter of two bytes. -/
theorem registry_of_replaced_formats :
    let upper := Formatter.const "tag" "P"
    let failing : Formatter := { name := "Tag", write := fun _ => .error (.serialization "no") }
    let history := [Formatter.const "é" "x", .outline, upper, failing]
    let r := (builtIn {}).registerAll history
    Starts (builtIn {}) [.tag {}, .outline, .json] ∧
      r.names.Pairwise (fun a b => a.toUTF8.data.toList < b.toUTF8.data.toList) ∧
      ("é" ∈ r.names ∧ "yaml" ∉ r.names) ∧
      (r.get? "tag" = some upper ∧ r.get? "json" = some .json) ∧
      (∀ t, r.write t "yaml" = .error (.notFound "yaml")) ∧
      (∀ t, r.write t "Tag" ≠ .error (.notFound "Tag")) ∧
      r.Alike ((builtIn {}).registerAll [.const "é" "x", upper, .outline, failing]) := by
  intro upper failing history r
  have hstart := Starts.builtIn {}
  obtain ⟨hsorted, hnames, -, hget, -, hmissing, hown, hswap⟩ := registry_of_history hstart history
  have hyaml : "yaml" ∉ r.names := fun h => absurd ((hnames "yaml").1 h) (by decide)
  have htag : "Tag" ∈ r.names := (hnames "Tag").2 (by decide)
  have hfailing : r.get? "Tag" = some failing := hget "Tag"
  refine ⟨hstart, hsorted, ⟨(hnames "é").2 (by decide), hyaml⟩, ⟨hget "tag", hget "json"⟩,
    (hmissing "yaml" hyaml).2, fun t e => (hown "Tag" t fun f hf => ?_).1 e htag,
    hswap [.const "é" "x"] .outline upper [failing] rfl (by decide)⟩
  obtain rfl : failing = f := Option.some.inj (hfailing.symm.trans hf)
  nofun

end Registry

end MarkupShorthand
