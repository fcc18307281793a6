import MarkupShorthand.Proofs.Arena.Rows
import MarkupShorthand.Proofs.Abbreviation.Endings

/-!
# Typing on

What is typed behind an abbreviation, from an operator on. The operator ends the last literal as the
end of the abbreviation would have (`Builder.steps_finish_eq_flush`), so that reading goes on from
the tree that the abbreviation has on its own, and each further operator only touches the nodes that
it applies to and the ends of lists (`Resolves.continues`). An error that does not come from the end
of the abbreviation stays (`parse_append`).
-/

namespace MarkupShorthand

open Text Arena

/-! ## Growing trees -/

namespace Arena

variable {t t' t'' : Arena} {touched : List NodeId} {pending : Pending} {operand : Operand}
  {literal : Literal} {resolved : Arena × Operand} {depth : Nat}

/-- `t'` has the nodes of `t` with their names where they were, further ones only behind the last
that a container held, and other attributes or slots only on nodes that are touched. -/
structure Continues (t t' : Arena) (touched : List NodeId) : Prop extends
    t.Extends t' touched where
  children_prefix : ∀ c, (t.children c).toList <+: (t'.children c).toList
  attributes_eq : ∀ id < t.count, id ∉ touched →
    (t'.node id).attributes = (t.node id).attributes

namespace Continues

theorem refl (t : Arena) (touched : List NodeId) : t.Continues t touched where
  count_le := Nat.le_refl _
  containerOf_eq _ _ := rfl
  name_eq _ _ := rfl
  slot_eq _ _ _ := rfl
  children_sublist _ := .refl _
  children_prefix _ := List.prefix_refl _
  attributes_eq _ _ _ := rfl

/-- Of what is touched later, only the old nodes count. -/
theorem trans {later : List NodeId} (h : t.Continues t' touched) (h' : t'.Continues t'' later)
    (hsub : ∀ id < t.count, id ∈ later → id ∈ touched) : t.Continues t'' touched where
  count_le := Nat.le_trans h.count_le h'.count_le
  containerOf_eq id hid :=
    (h'.containerOf_eq id (Nat.lt_of_lt_of_le hid h.count_le)).trans (h.containerOf_eq id hid)
  name_eq id hid :=
    (h'.name_eq id (Nat.lt_of_lt_of_le hid h.count_le)).trans (h.name_eq id hid)
  slot_eq id hid hm :=
    (h'.slot_eq id (Nat.lt_of_lt_of_le hid h.count_le) fun hl => hm (hsub id hid hl)).trans
      (h.slot_eq id hid hm)
  children_sublist c := (h.children_sublist c).trans (h'.children_sublist c)
  children_prefix c := (h.children_prefix c).trans (h'.children_prefix c)
  attributes_eq id hid hm :=
    (h'.attributes_eq id (Nat.lt_of_lt_of_le hid h.count_le) fun hl => hm (hsub id hid hl)).trans
      (h.attributes_eq id hid hm)

end Continues

theorem AddsLeaves.continues {a : Container → List Element} (h : AddsLeaves t t' a) :
    t.Continues t' [] where
  __ := h.extends
  children_prefix c := by
    by_cases hc : t.Has c
    · obtain ⟨new, he, -⟩ := h.children_eq c hc
      exact he ▸ List.prefix_append _ _
    · cases c with
      | root => exact absurd trivial hc
      | node id =>
        rw [children, node_of_le (Nat.le_of_not_lt hc)]
        exact List.nil_prefix
  attributes_eq id hid _ := by rw [h.node_eq id hid]

theorem continues_retouch (p : List Attribute → List Attribute) (q : Slot → Slot)
    (ids : List NodeId) : t.Continues (t.retouch p q ids) ids where
  __ := extends_retouch p q ids
  children_prefix c := children_retouch t ids c ▸ List.prefix_refl _
  attributes_eq id _ hid := by rw [node_retouch_of_not_mem hid]

/-- An operator touches the nodes that it applies to, and applies next to some of them and to new
ones. -/
theorem Resolves.continues (h : Resolves t pending operand literal resolved) (hw : t.WellLinked)
    (tips : Tips t depth operand.members) :
    t.Continues resolved.1 operand.members ∧
      ∀ id < t.count, id ∈ resolved.2.members → id ∈ operand.members := by
  cases h with
  | place =>
    have added := (tips.addsLeaves_appendToEach hw pending.levels literal.text).continues
    have hmem := (tips.appendToEach hw pending.levels literal.text).2
    refine ⟨(Continues.refl t _).trans added fun _ _ => nofun, fun id hid hm => ?_⟩
    exact absurd ((hmem id).1 hm).1 (Nat.not_le.2 hid)
  | addAttribute =>
    rw [addAttributeTo_eq, Operand.members_collapse]
    exact ⟨continues_retouch _ _ _, fun _ _ => id⟩
  | @multiply count =>
    have added := (tips.addsLeaves_multiplyEach hw count).continues
    have hmem := (tips.multiplyEach hw count).2
    refine ⟨(continues_retouch _ _ _).trans added fun _ _ => nofun, fun id hid hm => ?_⟩
    exact ((hmem id).1 hm).resolve_right fun hnew => Nat.not_le.2 hid hnew.1
  | inert => exact ⟨.refl t _, fun _ _ => id⟩

end Arena

namespace Builder

/-- Whether a builder has gone on from a tree and an operand: its tree continues the one, and of the
old nodes it applies operators to those of the other at most. -/
def GoesOn (t : Arena) (operand : Operand) (b : Builder) : Prop :=
  t.Continues b.arena operand.members ∧ ∃ current, b.cursor = some current ∧
    ∀ id < t.count, id ∈ current.members → id ∈ operand.members

theorem Reads.goesOn {t : Arena} {operand : Operand} {b b' : Builder} {item : Item} (hb : b.Sound)
    (h : Reads b item b') (hg : b.GoesOn t operand) : b'.GoesOn t operand := by
  cases h with
  | first =>
    obtain ⟨-, _, hc, -⟩ := hg
    cases hc
  | resolve resolves =>
    obtain ⟨continues, current, hc, hsub⟩ := hg
    obtain rfl := Option.some.inj hc
    obtain ⟨-, depth, tips⟩ := hb.of_cursor rfl
    obtain ⟨continues', hsub'⟩ := resolves.continues hb.wellLinked tips
    refine ⟨continues.trans continues' hsub, _, rfl, fun id hid hm => hsub id hid ?_⟩
    exact hsub' id (Nat.lt_of_lt_of_le hid continues.count_le) hm
  | drop | reserved | wait | stack => exact hg

end Builder

/-! ## More text -/

variable {first later : String} {lexemes past rest : List Lexeme} {e : ParseError}

/-- Behind an abbreviation, punctuation starts lexemes of its own, and the first is no text. -/
theorem exists_tokenize_append (ht : tokenize first = .ok lexemes)
    (hl : ∃ c ∈ later.toList.head?, c ∈ punctuation) (known : ∀ c ∈ later.toList, ¬ IsUnknown c) :
    ∃ lexeme more, tokenize (first ++ later) = .ok (lexemes ++ lexeme :: more) ∧
      lexeme.content? = none := by
  obtain ⟨found, cut⟩ := exists_cut (0 + utf8Length first.toList) known
  obtain ⟨c, hc, hp⟩ := hl
  obtain ⟨chars, hchars⟩ := List.head?_eq_some_iff.1 (Option.mem_def.1 hc)
  have whole : tokenize (first ++ later) = .ok (lexemes ++ found) := by
    rw [tokenize_eq_ok_iff_cut, String.toList_append]
    refine (tokenize_eq_ok_iff_cut.1 ht).append cut fun d hd => ?_
    rwa [Option.mem_unique hd hc]
  rw [hchars] at cut
  obtain ⟨lexeme, more, rfl, hn⟩ := cut.exists_cons_of_punctuation hp
  refine ⟨lexeme, more, whole, Option.eq_none_iff_forall_ne_some.2 fun content hc => ?_⟩
  exact hn content (Lexeme.content?_eq_some.1 hc)

/-- An abbreviation's unknown character is the first, whatever follows. -/
theorem tokenize_append_eq_error (ht : tokenize first = .error e) (later : String) :
    tokenize (first ++ later) = .error e := by
  obtain ⟨before, c, after, hchars, hc, hb, rfl⟩ := tokenize_eq_error_iff.1 ht
  refine tokenize_eq_error_iff.2 ⟨before, c, after ++ later.toList, ?_, hc, hb, rfl⟩
  rw [String.toList_append, hchars, List.append_assoc, List.cons_append]

/-- What the operators behind an abbreviation would apply to. -/
def operandAtEnd? (abbreviation : String) : Option Operand :=
  (tokenize abbreviation >>= ({} : Builder).steps >>= Builder.flush).toOption.bind Builder.cursor

theorem operandAtEnd?_eq {t : Arena} {operand : Operand} {b : Builder}
    (ht : tokenize first = .ok lexemes) (hs : ({} : Builder).steps lexemes = .ok b)
    (hf : b.flush = .ok (.going t operand none)) : operandAtEnd? first = some operand := by
  have hflush : (tokenize first >>= ({} : Builder).steps >>= Builder.flush) =
      .ok (.going t operand none) :=
    bind_eq_ok.2 ⟨b, bind_eq_ok.2 ⟨lexemes, ht, hs⟩, hf⟩
  rw [operandAtEnd?, hflush]
  rfl

/-- Whether an error stays when more is typed. -/
def ParseError.Stays : ParseError → Prop
  | unknownToken .. | invalidCount .. | nestingTooDeep .. | tooManyNodes .. => True
  | danglingOperator .. | emptyAbbreviation => False

/-- Behind an operator, reading goes on from the tree that the abbreviation before it has. -/
theorem goesOn_of_parse {t t' : Arena} {operand : Operand} {b : Builder} {lexeme : Lexeme}
    {more : List Lexeme} (ht : tokenize (first ++ later) = .ok (lexemes ++ lexeme :: more))
    (hn : lexeme.content? = none) (hs : ({} : Builder).steps lexemes = .ok b)
    (hf : b.flush = .ok (.going t operand none)) (h : parse (first ++ later) = .ok t') :
    t.Continues t' operand.members := by
  have areTexts : AreTexts (lexeme :: more) := fun l hm =>
    areTexts_of_tokenize ht l (List.mem_append_right _ hm)
  have hasRead : (Builder.going t operand none).HasRead [] :=
    ⟨((hasRead_of_steps ht hs).flush hf).1, rfl, nofun⟩
  have ends : ∀ l ∈ (lexeme :: more).head?, l.content? = none := fun _ hm => Option.some.inj hm ▸ hn
  have hend :
      (Builder.going t operand none).steps (lexeme :: more) >>= Builder.finish = .ok t' := by
    rw [parse_eq_of_steps ht hs, Builder.steps_finish_eq_flush _ ends, hf] at h
    exact h
  obtain ⟨b', hs', hfinish⟩ := bind_eq_ok.1 hend
  rw [Builder.finish_eq_flush] at hfinish
  obtain ⟨s, hf', hfinish⟩ := bind_eq_ok.1 hfinish
  have hasRead' := hasRead.steps areTexts hs'
  obtain ⟨operand', rfl⟩ := (hasRead'.flush hf').1.eq_going_of_finish hfinish
  have start : (Builder.going t operand none).GoesOn t operand :=
    ⟨.refl t _, operand, rfl, fun _ _ => id⟩
  exact (hasRead'.flush_keeps Builder.Reads.goesOn
    (hasRead.steps_keep Builder.Reads.goesOn areTexts start hs') hf').1

/-- The operator that fails is met again, with the same literal. -/
theorem Resolution.exists_append (r : Resolution first)
    (hl : ∃ c ∈ later.toList.head?, c ∈ punctuation) (known : ∀ c ∈ later.toList, ¬ IsUnknown c) :
    ∃ r' : Resolution (first ++ later), r'.outcome = r.outcome := by
  obtain ⟨lexeme, more, ht, hn⟩ := exists_tokenize_append r.tokenize_eq hl known
  rw [List.append_assoc] at ht
  refine ⟨⟨r.past, r.rest ++ lexeme :: more, ht, fun l hm => ?_, r.arena, r.operand, r.pending,
    r.literal, r.steps_eq⟩, rfl⟩
  cases hrest : r.rest with
  | nil =>
    rw [hrest] at hm
    exact Option.some.inj hm ▸ hn
  | cons head tail =>
    rw [hrest] at hm
    exact r.ends l (hrest ▸ hm)

theorem parse_append_eq_error (h : parse first = .error e) (he : e.Stays)
    (hl : ∃ c ∈ later.toList.head?, c ∈ punctuation) (known : ∀ c ∈ later.toList, ¬ IsUnknown c) :
    parse (first ++ later) = .error e := by
  cases refused_of_parse h with
  | unknown ht =>
    rw [Builder.parse_eq_steps, tokenize_append_eq_error ht]
    rfl
  | resolution r hr =>
    obtain ⟨r', hr'⟩ := r.exists_append hl known
    exact r'.parse_eq_error (hr'.trans hr)
  | waiting | arriving | empty => cases he

/-- What is typed behind an abbreviation from an operator on only extends its tree, and leaves it
refused for what is not wrong with its end. -/
theorem parse_append (first later : String)
    (hl : ∃ c ∈ ['>', '+', '^', '#', '.', '*'], later.toList.head? = some c) :
    (∀ t t', parse first = .ok t → parse (first ++ later) = .ok t' →
      ∃ operand, operandAtEnd? first = some operand ∧ t.Continues t' operand.members) ∧
    ∀ e : ParseError, e.Stays → parse first = .error e →
      (∃ lexemes, tokenize later = .ok lexemes) → parse (first ++ later) = .error e := by
  have hp : ∃ c ∈ later.toList.head?, c ∈ punctuation := by
    obtain ⟨c, hc, hhead⟩ := hl
    exact ⟨c, hhead, List.mem_of_mem_take (i := 6) hc⟩
  refine ⟨fun t t' h h' => ?_, fun e he h hlex => ?_⟩
  · obtain ⟨lexemes, b, operand, ht, hs, hf⟩ := exists_of_parse_eq_ok h
    have known : ∀ c ∈ later.toList, ¬ IsUnknown c := fun c hc => by
      obtain ⟨whole, -, -, htok, -⟩ := exists_of_parse_eq_ok h'
      refine tokenize_isOk_iff.1 ⟨whole, htok⟩ c ?_
      rw [String.toList_append]
      exact List.mem_append_right _ hc
    obtain ⟨lexeme, more, htok, hn⟩ := exists_tokenize_append ht hp known
    exact ⟨operand, operandAtEnd?_eq ht hs hf, goesOn_of_parse htok hn hs hf h'⟩
  · exact parse_append_eq_error h he hp (tokenize_isOk_iff.1 hlex)

/-- A class and a child behind a group of two; and a child behind a count that is refused. -/
theorem parse_append_to_group :
    (∃ t t', parse "ul>li*2" = .ok t ∧ parse ("ul>li*2" ++ ".x>a") = .ok t' ∧
      operandAtEnd? "ul>li*2" = some (.group [1, 2]) ∧ t.Continues t' [1, 2]) ∧
    parse "a*0" = .error (.invalidCount "0" 2) ∧
    parse ("a*0" ++ ">b") = .error (.invalidCount "0" 2) := by
  have hok : (parse "ul>li*2").isOk = true ∧ (parse ("ul>li*2" ++ ".x>a")).isOk = true := by
    decide +kernel
  have hend : operandAtEnd? "ul>li*2" = some (.group [1, 2]) := by decide +kernel
  have hzero : parse "a*0" = .error (.invalidCount "0" 2) := by decide +kernel
  have hlex : (tokenize ">b").isOk = true := by decide +kernel
  refine ⟨?_, hzero, ?_⟩
  · cases h : parse "ul>li*2" with
    | error e => rw [h] at hok; cases hok.1
    | ok t =>
      cases h' : parse ("ul>li*2" ++ ".x>a") with
      | error e => rw [h'] at hok; cases hok.2
      | ok t' =>
        obtain ⟨operand, ho, continues⟩ :=
          (parse_append "ul>li*2" ".x>a" ⟨'.', by decide, rfl⟩).1 t t' h h'
        obtain rfl := Option.some.inj (hend.symm.trans ho)
        exact ⟨t, t', rfl, rfl, hend, continues⟩
  · refine (parse_append "a*0" ">b" ⟨'>', by decide, rfl⟩).2 _ trivial hzero ?_
    cases ht : tokenize ">b" with
    | error e => rw [ht] at hlex; cases hlex
    | ok lexemes => exact ⟨lexemes, rfl⟩

end MarkupShorthand
