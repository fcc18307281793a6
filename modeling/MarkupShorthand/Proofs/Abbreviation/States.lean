import Mathlib.Data.List.DropRight
import MarkupShorthand.Proofs.Abbreviation.Lexing
import MarkupShorthand.Proofs.Abbreviation.Resolution

/-!
# The reader's states

What is true of the builder after any tokens that it has read without an error
(`Builder.consistent_of_steps`). Its literal is the text since the last other token; between two
items it has read nothing or applies operators to tips (`Builder.Sound`). The two are kept by each
token on their own: text only makes the literal longer, and any other token is read as an item
behind the literal.
-/

namespace MarkupShorthand

open Arena

/-! ## Texts -/

/-- The characters of a text; other tokens have none. -/
def Lexeme.content? (lexeme : Lexeme) : Option String :=
  match lexeme.token with
  | .text content => some content
  | _ => none

theorem Lexeme.content?_eq_some {lexeme : Lexeme} {content : String} :
    lexeme.content? = some content ↔ lexeme.token = .text content := by
  unfold content?
  split
  · rename_i ht
    rw [ht, Option.some.injEq, Token.text.injEq]
  · rename_i ht
    exact iff_of_false nofun (ht content)

/-- A text is a literal of its own, and nothing else is one. -/
theorem Lexeme.content?_eq (lexeme : Lexeme) :
    lexeme.content? =
      match lexeme.item with
      | .literal literal => some literal.text
      | _ => none := by
  unfold content? item
  cases lexeme.token <;> rfl

/-- The texts behind the last token that is no text, joined. -/
def trailingText (read : List Lexeme) : String :=
  String.join ((read.rtakeWhile (·.content?.isSome)).filterMap Lexeme.content?)

theorem trailingText_concat_text {read : List Lexeme} {lexeme : Lexeme} {content : String}
    (h : lexeme.content? = some content) :
    trailingText (read ++ [lexeme]) = trailingText read ++ content := by
  rw [trailingText, List.rtakeWhile_concat_pos _ _ _ (by rw [h]; rfl), List.filterMap_append,
    String.join_append, List.filterMap_cons_some h, trailingText]
  simp

theorem trailingText_concat {read : List Lexeme} {lexeme : Lexeme} (h : lexeme.content? = none) :
    trailingText (read ++ [lexeme]) = "" := by
  rw [trailingText, List.rtakeWhile_concat_neg _ _ _ (by rw [h]; nofun)]
  rfl

theorem IsText.append {first second : String} (h : IsText first) (h' : IsText second) :
    IsText (first ++ second) := by
  refine ⟨fun e => h.1 (String.append_eq_empty_iff.1 e).1, fun c hc => ?_⟩
  rw [String.toList_append, List.mem_append] at hc
  exact hc.elim (h.2 c) (h'.2 c)

/-- Whether the texts among lexemes are such as the lexer finds. -/
def AreTexts (lexemes : List Lexeme) : Prop :=
  ∀ lexeme ∈ lexemes, ∀ content, lexeme.content? = some content → IsText content

theorem areTexts_of_cut {offset : Nat} {chars : List Char} {lexemes : List Lexeme}
    (h : Cut offset chars lexemes) : AreTexts lexemes := by
  induction h with
  | nil => exact nofun
  | space _ _ ih => exact ih
  | @token offset token rest lexemes longest _ ih =>
    refine List.forall_mem_cons.2 ⟨fun content hc => ?_, ih⟩
    obtain rfl : token = .text content := Lexeme.content?_eq_some.1 hc
    exact longest.1

theorem areTexts_of_tokenize {abbreviation : String} {lexemes : List Lexeme}
    (h : tokenize abbreviation = .ok lexemes) : AreTexts lexemes :=
  areTexts_of_cut (tokenize_eq_ok_iff_cut.1 h)

/-! ## Between two items -/

namespace Builder

/-- A builder without an unfinished literal: it has no node yet, or its operators apply to tips. -/
inductive Sound : Builder → Prop where
  | start : Sound {}
  | going {t : Arena} {operand : Operand} {depth : Nat} (waiting : Option Pending)
    (wellLinked : t.WellLinked) (tips : Tips t depth operand.members)
    (collapsed : operand.Collapsed)
    (operates : ∀ pending, waiting = some pending → pending.operator ≠ .inert) :
    Sound (.going t operand waiting)

variable {b b' : Builder} {past rest : List Lexeme} {lexeme : Lexeme}

namespace Sound

theorem wellLinked (h : b.Sound) : b.arena.WellLinked := by
  cases h with
  | start => exact wellLinked_empty
  | going _ hw => exact hw

theorem cursor_eq_none (h : b.Sound) : b.cursor = none ↔ b.arena.isEmpty = true := by
  cases h with
  | start => exact iff_of_true rfl rfl
  | going _ hw tips =>
    exact iff_of_false nofun fun e => Bool.false_ne_true ((tips.isEmpty_eq_false hw).symm.trans e)

theorem of_pending (h : b.Sound) {pending : Pending} (hp : b.pending = some pending) :
    b.cursor ≠ none ∧ pending.operator ≠ .inert := by
  cases h with
  | start => cases hp
  | going _ _ _ _ operates => exact ⟨nofun, operates pending hp⟩

theorem of_cursor (h : b.Sound) {operand : Operand} (hc : b.cursor = some operand) :
    operand.Collapsed ∧ ∃ depth, Tips b.arena depth operand.members := by
  cases h with
  | start => cases hc
  | going _ _ tips collapsed => exact Option.some.inj hc ▸ ⟨collapsed, _, tips⟩

/-- A literal that ends never leaves an operator without something to apply to. -/
theorem read_literal_ne_dangling (h : b.Sound) (literal : Literal) (operator : Operator)
    (offset : Nat) : b.read (.literal literal) ≠ .error (.danglingOperator operator offset) := by
  intro hr
  cases h with
  | start => cases hr
  | @going t operand depth waiting =>
    cases waiting with
    | none => cases hr
    | some pending =>
      rw [read_waiting_literal] at hr
      cases hres : t.resolve pending operand literal with
      | ok resolved => rw [hres] at hr; cases hr
      | error e =>
        rw [hres] at hr
        obtain rfl := Except.error.inj hr
        rcases resolve_error hres with hlimit | ⟨-, e⟩
        · exact hlimit
        · cases e

/-- An abbreviation that ends well leaves a node and nothing that waits. -/
theorem eq_going_of_finish (h : b.Sound) {t : Arena} (hf : b.finish = .ok t) :
    ∃ operand, b = Builder.going t operand none := by
  cases h with
  | start => cases hf
  | @going t' operand depth waiting =>
    cases waiting with
    | some pending => cases hf
    | none =>
      rw [finish_idle] at hf
      split at hf
      · cases hf
      · exact ⟨operand, Except.ok.inj hf ▸ rfl⟩

end Sound

/-- What reading an item leads to where it does not fail. -/
inductive Reads : Builder → Item → Builder → Prop where
  /-- The first literal names the first node. -/
  | first (literal : Literal) :
      Reads {} (.literal literal) (.going (({} : Arena).append .root literal.text) (.node 0) none)
  /-- A literal that no operator waits for is dropped. -/
  | drop (t : Arena) (operand : Operand) (literal : Literal) :
      Reads (.going t operand none) (.literal literal) (.going t operand none)
  | resolve {t : Arena} {operand : Operand} {pending : Pending} {literal : Literal}
      {resolved : Arena × Operand} : Resolves t pending operand literal resolved →
      Reads (.going t operand (some pending)) (.literal literal) (.going resolved.1 resolved.2 none)
  | reserved (b : Builder) : Reads b .reserved b
  | wait (t : Arena) (operand : Operand) (operator : Operator) (offset : Nat) :
      Reads (.going t operand none) (.operator operator offset)
        (.going t operand (some { operator := operator, offset := offset }))
  /-- A `^` behind an operator that places an element adds a level to it. -/
  | stack (t : Arena) (operand : Operand) {pending : Pending} (offset : Nat) :
      pending.operator.isPositional = true →
      Reads (.going t operand (some pending)) (.operator .climb offset)
        (.going t operand (some { pending with climbs := pending.climbs + 1 }))

theorem Sound.reads {item : Item} (h : b.Sound) (hr : b.read item = .ok b') : Reads b item b' := by
  cases h with
  | start =>
    cases item with
    | literal literal => exact Except.ok.inj hr ▸ .first literal
    | reserved => exact Except.ok.inj hr ▸ .reserved _
    | operator operator offset => cases hr
  | @going t operand depth waiting =>
    cases item with
    | literal literal =>
      cases waiting with
      | none => exact Except.ok.inj hr ▸ .drop t operand literal
      | some pending =>
        rw [read_waiting_literal] at hr
        cases hres : t.resolve pending operand literal with
        | error e => rw [hres] at hr; cases hr
        | ok resolved =>
          rw [hres] at hr
          exact Except.ok.inj hr ▸ .resolve (resolves_of_eq_ok hres)
    | reserved => exact Except.ok.inj hr ▸ .reserved _
    | operator operator offset =>
      cases waiting with
      | none => exact Except.ok.inj hr ▸ .wait t operand operator offset
      | some pending =>
        rw [read_waiting_operator] at hr
        split at hr
        · rename_i stacked hs
          obtain ⟨rfl, hp, rfl⟩ := stacked?_eq_some.1 hs
          exact Except.ok.inj hr ▸ .stack t operand offset hp
        · cases hr

theorem Reads.sound {item : Item} (h : Reads b item b') (hb : b.Sound)
    (hi : ∀ offset, item ≠ .operator .inert offset) : b'.Sound := by
  cases h with
  | first literal =>
    have hw := (wellLinked_empty.growsTo_append has_root literal.text).1
    exact .going none hw (Tips.root wellLinked_empty literal.text) (Operand.collapsed_node _) nofun
  | drop t operand literal => exact hb
  | resolve resolves =>
    obtain ⟨collapsed, depth, tips⟩ := hb.of_cursor rfl
    obtain ⟨hw, depth', tips'⟩ := resolves.tips hb.wellLinked tips
    exact .going none hw tips' (resolves.collapsed collapsed) nofun
  | reserved => exact hb
  | wait t operand operator offset =>
    obtain ⟨collapsed, depth, tips⟩ := hb.of_cursor rfl
    refine .going _ hb.wellLinked tips collapsed fun pending hp => ?_
    rw [← Option.some.inj hp]
    exact fun ho => hi offset (ho ▸ rfl)
  | stack t operand offset hp =>
    obtain ⟨collapsed, depth, tips⟩ := hb.of_cursor rfl
    refine .going _ hb.wellLinked tips collapsed fun pending' hp' => ?_
    rw [← Option.some.inj hp']
    exact (hb.of_pending rfl).2

/-- Reading items one after the other, without an error, from a sound builder. -/
inductive Runs : Builder → List Item → Builder → Prop where
  | nil {b : Builder} : b.Sound → Runs b [] b
  | cons {b b' b'' : Builder} {item : Item} {rest : List Item} :
    b.Sound → b.read item = .ok b' → Runs b' rest b'' → Runs b (item :: rest) b''

/-- What every item keeps, a run keeps. -/
theorem Runs.keeps {I : Builder → Prop} {rest : List Item}
    (keeps : ∀ {b b' : Builder} {item : Item}, b.Sound → Reads b item b' → I b → I b')
    (h : Runs b rest b') (hb : I b) : I b' := by
  induction h with
  | nil => exact hb
  | cons sound read _ ih => exact ih (keeps sound (sound.reads read) hb)

theorem Sound.runs {rest : List Item} {t : Arena} (h : b.Sound)
    (hi : ∀ item ∈ rest, ∀ offset, item ≠ .operator .inert offset)
    (hr : b.readItems rest = .ok t) : ∃ operand, Runs b rest (.going t operand none) := by
  induction rest generalizing b with
  | nil =>
    obtain ⟨operand, rfl⟩ := h.eq_going_of_finish hr
    exact ⟨operand, .nil h⟩
  | cons item rest ih =>
    rw [readItems] at hr
    cases hb : b.read item with
    | error e => rw [hb] at hr; cases hr
    | ok b' =>
      rw [hb] at hr
      obtain ⟨operand, runs⟩ := ih ((h.reads hb).sound h (hi item List.mem_cons_self))
        (fun item hm => hi item (List.mem_cons_of_mem _ hm)) hr
      exact ⟨operand, .cons h hb runs⟩

/-- The items of an abbreviation that is accepted lead to its tree. -/
theorem runs_of_parse {abbreviation : String} {lexemes : List Lexeme} {t : Arena}
    (ht : tokenize abbreviation = .ok lexemes) (hp : parse abbreviation = .ok t) :
    ∃ operand, Runs {} (items lexemes) (.going t operand none) := by
  rw [parse_eq_readItems, ht] at hp
  exact Sound.start.runs (ne_inert_of_mem_items lexemes) hp

/-- What every item keeps from the start on holds at the end of an abbreviation. -/
theorem keeps_of_parse {I : Builder → Prop} {abbreviation : String} {t : Arena}
    (keeps : ∀ {b b' : Builder} {item : Item}, b.Sound → Reads b item b' → I b → I b')
    (start : I {}) (hp : parse abbreviation = .ok t) : ∃ operand, I (.going t operand none) := by
  cases ht : tokenize abbreviation with
  | error e =>
    rw [parse_eq_readItems, ht] at hp
    cases hp
  | ok lexemes =>
    obtain ⟨operand, runs⟩ := runs_of_parse ht hp
    exact ⟨operand, runs.keeps keeps start⟩

/-! ## Token by token -/

/-- The builder after some lexemes. -/
def steps (b : Builder) (lexemes : List Lexeme) : Except ParseError Builder :=
  lexemes.foldlM step b

/-- An abbreviation is read token by token, and then comes its end. -/
theorem parse_eq_steps (abbreviation : String) :
    parse abbreviation =
      tokenize abbreviation >>= fun lexemes => ({} : Builder).steps lexemes >>= finish := by
  have run_eq : ∀ (lexemes : List Lexeme) (b : Builder) (events : Array Event),
      (b.run events lexemes).result = b.steps lexemes >>= finish := by
    intro lexemes
    induction lexemes with
    | nil => exact fun b events => rfl
    | cons lexeme lexemes ih =>
      intro b events
      rw [run, steps, List.foldlM_cons]
      cases b.step lexeme with
      | error e => rfl
      | ok b' => exact ih b' _
  rw [parse, parseLogged]
  cases tokenize abbreviation with
  | error e => rfl
  | ok lexemes => exact run_eq lexemes _ _

/-- How a builder stands to the lexemes that it has read. -/
structure HasRead (b : Builder) (past : List Lexeme) : Prop where
  sound : b.settled.Sound
  literal_eq : (b.literal.map Literal.text).getD "" = trailingText past
  isText : ∀ literal, b.literal = some literal → IsText literal.text

namespace HasRead

theorem start : HasRead {} [] where
  sound := .start
  literal_eq := rfl
  isText := nofun

/-- Text goes to the literal and leaves everything else as it is. -/
theorem text (h : b.HasRead past) {literal : Literal} (hi : lexeme.item = .literal literal)
    (ht : IsText literal.text) (hs : b.step lexeme = .ok b') : b'.HasRead (past ++ [lexeme]) := by
  have hc : lexeme.content? = some literal.text := by rw [lexeme.content?_eq, hi]
  rw [step_of_literal hi] at hs
  obtain rfl := Except.ok.inj hs
  refine ⟨by rw [settled_addText]; exact h.sound, ?_, fun joined hj => ?_⟩
  · rw [trailingText_concat_text hc, ← h.literal_eq, addText]
    cases b.literal <;> simp
  · unfold addText at hj
    cases hl : b.literal with
    | none =>
      simp only [hl, Option.some.injEq] at hj
      exact hj ▸ ht
    | some first =>
      simp only [hl, Option.some.injEq] at hj
      exact hj ▸ (h.isText first hl).append ht

/-- Where a literal ends, the builder is sound without it. -/
theorem flush {s : Builder} (h : b.HasRead past) (hf : b.flush = .ok s) :
    s.Sound ∧ s.literal = none := by
  refine ⟨?_, literal_of_flush hf⟩
  cases hl : b.literal with
  | none =>
    rw [flush_of_none hl] at hf
    exact Except.ok.inj hf ▸ settled_of_none hl ▸ h.sound
  | some literal =>
    rw [← read_literal_settled hl] at hf
    exact (h.sound.reads hf).sound h.sound nofun

/-- Any other token is read as an item behind the literal, and leaves none. -/
theorem other (h : b.HasRead past) (hi : lexeme.item.isLiteral = false)
    (hs : b.step lexeme = .ok b') : b'.HasRead (past ++ [lexeme]) := by
  have hc : lexeme.content? = none := by
    rw [lexeme.content?_eq]
    cases hl : lexeme.item with
    | literal literal => rw [hl] at hi; cases hi
    | _ => rfl
  rw [step_eq_flush hi] at hs
  obtain ⟨s, hf, hr⟩ := bind_eq_ok.1 hs
  obtain ⟨sound, hl⟩ := h.flush hf
  have hn : b'.literal = none := literal_of_read hl hr
  refine ⟨?_, ?_, ?_⟩
  · rw [settled_of_none hn]
    exact (sound.reads hr).sound sound lexeme.item_ne_inert
  · rw [hn, trailingText_concat hc]
    rfl
  · rw [hn]
    nofun

theorem step (h : b.HasRead past) (ht : AreTexts [lexeme]) (hs : b.step lexeme = .ok b') :
    b'.HasRead (past ++ [lexeme]) := by
  cases hi : lexeme.item with
  | literal literal =>
    refine h.text hi (ht lexeme (List.mem_singleton_self _) _ ?_) hs
    rw [lexeme.content?_eq, hi]
  | _ => exact h.other (by rw [hi]; rfl) hs

theorem steps (h : b.HasRead past) (ht : AreTexts rest) (hs : b.steps rest = .ok b') :
    b'.HasRead (past ++ rest) := by
  induction rest generalizing b past with
  | nil =>
    rw [List.append_nil]
    exact Except.ok.inj hs ▸ h
  | cons lexeme rest ih =>
    rw [Builder.steps, List.foldlM_cons] at hs
    obtain ⟨b'', hb, hs⟩ := bind_eq_ok.1 hs
    rw [← List.singleton_append, ← List.append_assoc]
    refine ih (h.step (fun l hl => ht l ?_) hb) (fun l hl => ht l (List.mem_cons_of_mem _ hl)) hs
    exact List.mem_singleton.1 hl ▸ List.mem_cons_self

end HasRead

/-- The parts of a builder that has read some lexemes fit together. -/
structure Consistent (b : Builder) (past : List Lexeme) : Prop where
  wellLinked : b.arena.WellLinked
  /-- There is something to apply operators to as soon as there is a node. -/
  cursor_eq_none : b.cursor = none ↔ b.arena.isEmpty = true
  /-- An operator that waits does something, and has something to apply to. -/
  of_pending : ∀ pending, b.pending = some pending → b.cursor ≠ none ∧ pending.operator ≠ .inert
  /-- The literal is the text since the last token that is no text. -/
  literal_eq : (b.literal.map Literal.text).getD "" = trailingText past
  isText : ∀ literal, b.literal = some literal → IsText literal.text
  /-- Operators apply to distinct leaves at one depth, at least one. -/
  tips : ∀ operand, b.cursor = some operand → ∃ depth, Tips b.arena depth operand.members
  node_iff : ∀ operand, b.cursor = some operand →
    (operand.members.length = 1 ↔ ∃ id, operand = .node id)
  group_iff : ∀ operand, b.cursor = some operand →
    (2 ≤ operand.members.length ↔ ∃ ids, operand = .group ids)
  /-- Where a literal ends, no operator lacks something to apply to. -/
  flush_ne_dangling : ∀ operator offset, b.flush ≠ .error (.danglingOperator operator offset)
  /-- A climb reaches the root with all members or with none. -/
  containersAbove : ∀ operand, b.cursor = some operand → ∀ levels,
    b.arena.containersAbove operand levels = [.root] ∨
      .root ∉ b.arena.containersAbove operand levels

theorem HasRead.consistent (h : b.HasRead past) : b.Consistent past where
  wellLinked := h.sound.wellLinked
  cursor_eq_none := h.sound.cursor_eq_none
  of_pending _ hp := h.sound.of_pending hp
  literal_eq := h.literal_eq
  isText := h.isText
  tips _ hc := (h.sound.of_cursor hc).2
  node_iff _ hc := (h.sound.of_cursor hc).1.eq_node_iff
  group_iff _ hc :=
    let ⟨collapsed, _, tips⟩ := h.sound.of_cursor hc
    collapsed.eq_group_iff tips.ne_nil
  flush_ne_dangling operator offset := by
    cases hl : b.literal with
    | none => rw [flush_of_none hl]; nofun
    | some literal =>
      rw [← read_literal_settled hl]
      exact h.sound.read_literal_ne_dangling literal operator offset
  containersAbove _ hc levels :=
    let ⟨_, _, tips⟩ := h.sound.of_cursor hc
    tips.containersAbove_eq_root_or h.sound.wellLinked levels

/-- Whatever tokens of an abbreviation are read without an error, the parts of the builder fit
together. -/
theorem consistent_of_steps {abbreviation : String} {lexemes : List Lexeme}
    (ht : tokenize abbreviation = .ok lexemes) (hp : past <+: lexemes)
    (hs : ({} : Builder).steps past = .ok b) : b.Consistent past :=
  (HasRead.start.steps (fun lexeme hm => areTexts_of_tokenize ht lexeme (hp.mem hm)) hs).consistent

/-- Behind a dropped text and a group: a class waits for its name to end, on both of two nodes. -/
theorem consistent_of_unfinished_class :
    ∃ lexemes b, tokenize "ul>li[b]*2>a.x y" = .ok lexemes ∧
      ({} : Builder).steps (lexemes.take 13) = .ok b ∧
      b.cursor = some (.group [3, 4]) ∧ b.literal = some ⟨"xy", 13⟩ ∧
      b.Consistent (lexemes.take 13) := by
  have hstate : (tokenize "ul>li[b]*2>a.x y" >>= fun lexemes =>
      ({} : Builder).steps (lexemes.take 13)).map (fun b => (b.cursor, b.literal)) =
        .ok (some (.group [3, 4]), some ⟨"xy", 13⟩) := by decide +kernel
  cases ht : tokenize "ul>li[b]*2>a.x y" with
  | error e => rw [ht] at hstate; cases hstate
  | ok lexemes =>
    rw [ht] at hstate
    change (({} : Builder).steps (lexemes.take 13)).map _ = _ at hstate
    cases hs : ({} : Builder).steps (lexemes.take 13) with
    | error e => rw [hs] at hstate; cases hstate
    | ok b =>
      rw [hs] at hstate
      obtain ⟨hc, hl⟩ := Prod.mk.inj (Except.ok.inj hstate)
      exact ⟨lexemes, b, rfl, hs, hc, hl, consistent_of_steps ht (List.take_prefix _ _) hs⟩

end Builder

end MarkupShorthand
