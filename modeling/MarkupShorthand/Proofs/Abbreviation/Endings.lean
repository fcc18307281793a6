import MarkupShorthand.Proofs.Abbreviation.States

/-!
# How a reading ends

An abbreviation is accepted with the tree that its last literal leaves (`exists_of_parse_eq_ok`). It
is refused for an unknown character, for an operator that fails with the literal that it gets or
lacks something to apply to or a literal, or for want of a node (`refused_of_parse`). Where an
operator gets its literal is a `Resolution` of the abbreviation; an operator that fails there is
what the abbreviation is refused for (`Resolution.parse_eq_error`). The waiting operator and the
literal are found again among the tokens that were read (`Builder.Traced`).
-/

namespace MarkupShorthand

open Arena

variable {lexeme : Lexeme} {texts rest past read : List Lexeme} {pending : Pending}

/-! ## Lexemes -/

/-- There is one token for an operator that does something. -/
theorem Token.operator?_inj {token token' : Token} {operator : Operator}
    (h : token.operator? = some operator) (h' : token'.operator? = some operator)
    (hne : operator ≠ .inert) : token = token' := by
  cases token <;> simp only [operator?, Option.some.injEq, reduceCtorEq] at h <;> subst h <;>
    first
      | exact absurd rfl hne
      | cases token' <;> simp [operator?] at h' ⊢

namespace Lexeme

theorem content?_eq_none : lexeme.content? = none ↔ lexeme.item.isLiteral = false := by
  rw [content?_eq]
  cases lexeme.item <;> simp [Item.isLiteral]

theorem item_eq_reserved : lexeme.item = .reserved ↔ lexeme.token.operator? = some .inert := by
  unfold item
  cases lexeme.token <;> simp [Token.operator?]

theorem operator?_of_item {operator : Operator} {offset : Nat}
    (h : lexeme.item = .operator operator offset) :
    lexeme.token.operator? = some operator ∧ lexeme.start = offset := by
  unfold item at h
  cases ht : lexeme.token <;> simp_all [Token.operator?]

end Lexeme

/-- The literal that texts make together; it is where the first of them is. -/
def joined? : List Lexeme → Option Literal
  | [] => none
  | first :: more => some ⟨String.join ((first :: more).filterMap Lexeme.content?), first.start⟩

theorem joined?_eq_none : joined? texts = none ↔ texts = [] := by
  cases texts <;> simp [joined?]

theorem joined?_concat {literal : Literal} (h : lexeme.item = .literal literal) :
    joined? (texts ++ [lexeme]) = some (match joined? texts with
      | none => literal
      | some first => { first with text := first.text ++ literal.text }) := by
  have hc : lexeme.content? = some literal.text := by rw [lexeme.content?_eq, h]
  cases texts with
  | nil =>
    unfold Lexeme.item at h
    cases ht : lexeme.token <;> simp_all [joined?]
    simp [← h]
  | cons first more =>
    rw [List.cons_append, joined?, ← List.cons_append, List.filterMap_append, joined?,
      String.join_append, List.filterMap_cons_some hc]
    simp

/-- How an operator comes to wait behind some lexemes: it is one of them, and behind it there are
only reserved tokens and the climbs that it took. -/
inductive Waits : Pending → List Lexeme → Prop where
  | operator (read : List Lexeme) {lexeme : Lexeme} {operator : Operator} {offset : Nat} :
      lexeme.item = .operator operator offset →
      Waits { operator := operator, offset := offset } (read ++ [lexeme])
  | reserved {pending : Pending} {read : List Lexeme} {lexeme : Lexeme} : Waits pending read →
      lexeme.item = .reserved → Waits pending (read ++ [lexeme])
  | climb {pending : Pending} {read : List Lexeme} {lexeme : Lexeme} {offset : Nat} :
      Waits pending read → lexeme.item = .operator .climb offset →
      pending.operator.isPositional = true →
      Waits { pending with climbs := pending.climbs + 1 } (read ++ [lexeme])

namespace Waits

theorem climbs_eq_zero (h : Waits pending read) (hp : pending.operator.isPositional = false) :
    pending.climbs = 0 := by
  induction h with
  | operator => rfl
  | reserved _ _ ih => exact ih hp
  | climb _ _ positional =>
    rw [show _ = true from positional] at hp
    cases hp

/-- The operator is where it says; without climbs there are only reserved tokens behind it. -/
theorem exists_operator (h : Waits pending read) : ∃ before lexeme between,
    read = before ++ lexeme :: between ∧
      lexeme.item = .operator pending.operator pending.offset ∧
      (pending.climbs = 0 → ∀ lexeme ∈ between, lexeme.item = .reserved) := by
  induction h with
  | operator before item => exact ⟨before, _, [], rfl, item, fun _ => nofun⟩
  | reserved _ reserved ih =>
    obtain ⟨before, lexeme, between, rfl, item, hb⟩ := ih
    refine ⟨before, lexeme, _, List.append_assoc before .., item, fun hc => ?_⟩
    exact List.forall_mem_append.2 ⟨hb hc, List.forall_mem_singleton.2 reserved⟩
  | climb _ _ _ ih =>
    obtain ⟨before, lexeme, between, rfl, item, -⟩ := ih
    exact ⟨before, lexeme, _, List.append_assoc before .., item, nofun⟩

end Waits

namespace Builder

variable {b b' s : Builder} {e : ParseError}

/-! ## Reading lexemes -/

theorem steps_append (b : Builder) (past rest : List Lexeme) :
    b.steps (past ++ rest) = b.steps past >>= fun b => b.steps rest :=
  List.foldlM_append

/-- Lexemes are refused for the first that is. -/
theorem exists_of_steps_eq_error {lexemes : List Lexeme} (h : b.steps lexemes = .error e) :
    ∃ past lexeme rest b', lexemes = past ++ lexeme :: rest ∧ b.steps past = .ok b' ∧
      b'.step lexeme = .error e := by
  induction lexemes generalizing b with
  | nil => cases h
  | cons lexeme lexemes ih =>
    rw [steps, List.foldlM_cons] at h
    rcases bind_eq_error.1 h with hs | ⟨b', hs, h⟩
    · exact ⟨[], lexeme, lexemes, b, rfl, rfl, hs⟩
    · obtain ⟨past, lexeme', rest, b'', rfl, hp, he⟩ := ih h
      refine ⟨lexeme :: past, lexeme', rest, b'', rfl, ?_, he⟩
      rw [steps, List.foldlM_cons, hs]
      exact hp

/-- The literal ends before a token that is no text, -/
theorem steps_eq_flush (b : Builder) (h : lexeme.content? = none) :
    b.steps (lexeme :: rest) = b.flush >>= fun s => s.steps (lexeme :: rest) := by
  have hi : lexeme.item.isLiteral = false := Lexeme.content?_eq_none.1 h
  have hsteps (b : Builder) :
      b.steps (lexeme :: rest) = b.step lexeme >>= fun b => b.steps rest := List.foldlM_cons
  rw [hsteps, step_eq_flush hi]
  cases hf : b.flush with
  | error e => rfl
  | ok s =>
    have hs : s.step lexeme = s.read lexeme.item := by
      rw [step_eq_flush hi, flush_of_none (literal_of_flush hf)]
      rfl
    simp only [bind, Except.bind, hsteps, hs]

/-- and at the end: wherever no text follows. -/
theorem steps_finish_eq_flush (b : Builder)
    (h : ∀ lexeme ∈ rest.head?, lexeme.content? = none) :
    b.steps rest >>= finish = b.flush >>= fun s => s.steps rest >>= finish := by
  cases rest with
  | nil => exact b.finish_eq_flush
  | cons lexeme rest => rw [b.steps_eq_flush (h lexeme rfl), bind_assoc]

/-- What every lexeme keeps behind those before it is kept by all of them. -/
theorem HasRead.steps_induction {I : List Lexeme → Builder → Prop}
    (keeps : ∀ {past lexeme b b'}, b.HasRead past → b.step lexeme = .ok b' → I past b →
      I (past ++ [lexeme]) b')
    (h : b.HasRead past) (ht : AreTexts rest) (hb : I past b) (hs : b.steps rest = .ok b') :
    I (past ++ rest) b' := by
  induction rest generalizing b past with
  | nil =>
    rw [List.append_nil]
    exact Except.ok.inj hs ▸ hb
  | cons lexeme rest ih =>
    rw [Builder.steps, List.foldlM_cons] at hs
    obtain ⟨b'', hstep, hs⟩ := bind_eq_ok.1 hs
    obtain ⟨ht, hrest⟩ := List.forall_mem_cons.1 ht
    have h' : b''.HasRead (past ++ [lexeme]) :=
      h.step (fun l hl => (List.mem_singleton.1 hl).symm ▸ ht) hstep
    rw [← List.singleton_append, ← List.append_assoc]
    exact ih h' hrest (keeps h hstep hb) hs

section Keeping

variable {I : Builder → Prop}
  (keeps : ∀ {b b' : Builder} {item : Item}, b.Sound → Reads b item b' → I b → I b')
include keeps

/-- What every item keeps is kept where a literal ends, -/
theorem HasRead.flush_keeps (h : b.HasRead past) (hb : I b.settled) (hf : b.flush = .ok s) :
    I s := by
  cases hl : b.literal with
  | none =>
    rw [flush_of_none hl] at hf
    exact Except.ok.inj hf ▸ settled_of_none hl ▸ hb
  | some literal =>
    rw [← read_literal_settled hl] at hf
    exact keeps h.sound (h.sound.reads hf) hb

/-- and by lexemes, whatever literal they leave unfinished. -/
theorem HasRead.steps_keep (h : b.HasRead past) (ht : AreTexts rest) (hb : I b.settled)
    (hs : b.steps rest = .ok b') : I b'.settled := by
  refine h.steps_induction (I := fun _ b => I b.settled) ?_ ht hb hs
  intro past lexeme b b' h hs hb
  cases hi : lexeme.item with
  | literal literal =>
    rw [step_of_literal hi] at hs
    rw [← Except.ok.inj hs, settled_addText]
    exact hb
  | reserved | operator =>
    have hl : lexeme.item.isLiteral = false := by rw [hi]; rfl
    rw [step_eq_flush hl] at hs
    obtain ⟨s, hf, hr⟩ := bind_eq_ok.1 hs
    obtain ⟨sound, hn⟩ := h.flush hf
    rw [settled_of_none (literal_of_read hn hr)]
    exact keeps sound (sound.reads hr) (h.flush_keeps keeps hb hf)

end Keeping

/-- Where an operator still waits, no literal has ended. -/
theorem eq_of_flush (h : b.flush = .ok s) (hp : s.pending = some pending) : s = b := by
  cases hl : b.literal with
  | none =>
    rw [flush_of_none hl] at h
    exact (Except.ok.inj h).symm
  | some literal =>
    rw [(flush_ok hl h).2.1] at hp
    cases hp

/-! ## Tracing back -/

/-- What a builder has read lexemes for: the last are the texts of its literal, and the waiting
operator is found behind those before. -/
structure Traced (b : Builder) (read texts : List Lexeme) : Prop where
  areTexts : ∀ lexeme ∈ texts, lexeme.content?.isSome = true
  literal_eq : b.literal = joined? texts
  waits : ∀ pending, b.pending = some pending → Waits pending read

theorem Reads.waits (h : Reads b lexeme.item b') (hi : lexeme.item.isLiteral = false)
    (hw : ∀ pending, b.pending = some pending → Waits pending read) :
    ∀ pending, b'.pending = some pending → Waits pending (read ++ [lexeme]) := by
  generalize hitem : lexeme.item = item at h hi
  cases h with
  | first | drop | resolve => cases hi
  | reserved => exact fun pending hp => .reserved (hw pending hp) hitem
  | wait =>
    intro pending hp
    obtain rfl := Option.some.inj hp
    exact .operator read hitem
  | stack t operand offset positional =>
    intro pending hp
    obtain rfl := Option.some.inj hp
    exact .climb (hw _ rfl) hitem positional

theorem Traced.step (traced : b.Traced read texts) (h : b.HasRead past)
    (hs : b.step lexeme = .ok b') : ∃ read' texts',
      read' ++ texts' = read ++ texts ++ [lexeme] ∧ b'.Traced read' texts' := by
  cases hi : lexeme.item.isLiteral with
  | true =>
    obtain ⟨literal, hl⟩ : ∃ literal, lexeme.item = .literal literal := by
      cases hl : lexeme.item with
      | literal literal => exact ⟨literal, rfl⟩
      | _ => rw [hl] at hi; cases hi
    rw [step_of_literal hl] at hs
    obtain rfl := Except.ok.inj hs
    refine ⟨read, texts ++ [lexeme], (List.append_assoc ..).symm, ?_, ?_, fun pending hp => ?_⟩
    · refine List.forall_mem_append.2 ⟨traced.areTexts, List.forall_mem_singleton.2 ?_⟩
      rw [lexeme.content?_eq, hl]
      rfl
    · rw [joined?_concat hl, ← traced.literal_eq, addText]
      cases b.literal <;> rfl
    · refine traced.waits pending ?_
      rw [← hp, addText]
      cases b.literal <;> rfl
  | false =>
    rw [step_eq_flush hi] at hs
    obtain ⟨s, hf, hr⟩ := bind_eq_ok.1 hs
    obtain ⟨sound, hn⟩ := h.flush hf
    refine ⟨read ++ texts ++ [lexeme], [], List.append_nil _, List.forall_mem_nil _,
      literal_of_read hn hr, ?_⟩
    refine (sound.reads hr).waits hi fun pending hp => ?_
    obtain rfl := eq_of_flush hf hp
    obtain rfl : texts = [] := joined?_eq_none.1 (traced.literal_eq.symm.trans hn)
    rw [List.append_nil]
    exact traced.waits pending hp

/-! ## Failing -/

/-- How reading an item fails. -/
inductive Refuses : Builder → Item → ParseError → Prop where
  | resolve {t : Arena} {operand : Operand} {pending : Pending} {literal : Literal}
      {e : ParseError} : t.resolve pending operand literal = .error e →
      Refuses (.going t operand (some pending)) (.literal literal) e
  /-- There is no node yet. -/
  | arriving (operator : Operator) (offset : Nat) :
      Refuses {} (.operator operator offset) (.danglingOperator operator offset)
  /-- The operator that waits has no literal yet. -/
  | waiting (t : Arena) (operand : Operand) (pending : Pending) (operator : Operator)
      (offset : Nat) : Refuses (.going t operand (some pending)) (.operator operator offset)
        (.danglingOperator pending.operator pending.offset)

theorem Sound.refuses {item : Item} (h : b.Sound) (hr : b.read item = .error e) :
    Refuses b item e := by
  cases h with
  | start =>
    cases item with
    | literal literal => cases hr
    | reserved => cases hr
    | operator operator offset => exact Except.error.inj hr ▸ .arriving operator offset
  | @going t operand depth waiting =>
    cases item with
    | literal literal =>
      cases waiting with
      | none => cases hr
      | some pending =>
        rw [read_waiting_literal] at hr
        cases hres : t.resolve pending operand literal with
        | ok resolved => rw [hres] at hr; cases hr
        | error e' =>
          rw [hres] at hr
          exact Except.error.inj hr ▸ .resolve hres
    | reserved => cases hr
    | operator operator offset =>
      cases waiting with
      | none => cases hr
      | some pending =>
        rw [read_waiting_operator] at hr
        split at hr
        · cases hr
        · exact Except.error.inj hr ▸ .waiting t operand pending operator offset

/-- A literal that ends fails with the operator that it is for. -/
theorem HasRead.flush_error (h : b.HasRead past) (hf : b.flush = .error e) :
    ∃ t operand pending literal, b = ⟨t, some operand, some pending, some literal⟩ ∧
      t.resolve pending operand literal = .error e := by
  cases hl : b.literal with
  | none => rw [flush_of_none hl] at hf; cases hf
  | some literal =>
    rw [← read_literal_settled hl] at hf
    have refuses := h.sound.refuses hf
    have hb : b = { b.settled with literal := some literal } := by rw [settled, ← hl]
    rw [hb]
    generalize b.settled = s at refuses
    cases refuses with
    | resolve hres => exact ⟨_, _, _, _, rfl, hres⟩

theorem Sound.finish_error (h : b.Sound) (hf : b.finish = .error e) :
    e = .emptyAbbreviation ∨
      ∃ pending, b.pending = some pending ∧
        e = .danglingOperator pending.operator pending.offset := by
  cases h with
  | start => exact .inl (Except.error.inj hf).symm
  | @going t operand depth waiting =>
    cases waiting with
    | some pending => exact .inr ⟨pending, rfl, (Except.error.inj hf).symm⟩
    | none =>
      rw [finish_idle] at hf
      split at hf
      · exact .inl (Except.error.inj hf).symm
      · cases hf

end Builder

/-! ## Resolutions -/

/-- A place in an abbreviation where an operator gets its literal: it was read up to there without
an error, and no text follows. -/
structure Resolution (abbreviation : String) where
  past : List Lexeme
  rest : List Lexeme
  tokenize_eq : tokenize abbreviation = .ok (past ++ rest)
  ends : ∀ lexeme ∈ rest.head?, lexeme.content? = none
  arena : Arena
  operand : Operand
  pending : Pending
  literal : Literal
  steps_eq : ({} : Builder).steps past = .ok ⟨arena, some operand, some pending, some literal⟩

variable {abbreviation : String} {e : ParseError} {b : Builder}

namespace Resolution

/-- What the operator does with its literal. -/
def outcome (r : Resolution abbreviation) : Except ParseError (Arena × Operand) :=
  r.arena.resolve r.pending r.operand r.literal

end Resolution

/-- What a builder has read of an abbreviation without an error. -/
theorem hasRead_of_steps (ht : tokenize abbreviation = .ok (past ++ rest))
    (hs : ({} : Builder).steps past = .ok b) : b.HasRead past := by
  have texts := areTexts_of_tokenize ht
  exact Builder.HasRead.start.steps (fun lexeme hm => texts lexeme (List.mem_append_left _ hm)) hs

theorem exists_traced (ht : tokenize abbreviation = .ok (past ++ rest))
    (hs : ({} : Builder).steps past = .ok b) : ∃ read texts,
      past = read ++ texts ∧ b.Traced read texts := by
  have areTexts : AreTexts past := fun lexeme hm =>
    areTexts_of_tokenize ht lexeme (List.mem_append_left _ hm)
  have traced : ({} : Builder).Traced [] [] := ⟨nofun, rfl, nofun⟩
  refine Builder.HasRead.start.steps_induction
    (I := fun past b => ∃ read texts, past = read ++ texts ∧ b.Traced read texts) ?_ areTexts
    ⟨[], [], rfl, traced⟩ hs
  rintro past lexeme b b' h hs ⟨read, texts, rfl, traced⟩
  obtain ⟨read', texts', e, traced'⟩ := traced.step h hs
  exact ⟨read', texts', e.symm, traced'⟩

/-- What every item keeps holds where an operator gets its literal. -/
theorem Resolution.keeps {I : Builder → Prop}
    (keeps : ∀ {b b' : Builder} {item : Item}, b.Sound → Builder.Reads b item b' → I b → I b')
    (start : I {}) (r : Resolution abbreviation) : I (.going r.arena r.operand (some r.pending)) := by
  have areTexts : AreTexts r.past := fun lexeme hm =>
    areTexts_of_tokenize r.tokenize_eq lexeme (List.mem_append_left _ hm)
  exact Builder.HasRead.start.steps_keep keeps areTexts start r.steps_eq

theorem parse_eq_of_steps (ht : tokenize abbreviation = .ok (past ++ rest))
    (hs : ({} : Builder).steps past = .ok b) :
    parse abbreviation = b.steps rest >>= Builder.finish := by
  rw [Builder.parse_eq_steps, ht]
  show ({} : Builder).steps (past ++ rest) >>= Builder.finish = _
  rw [Builder.steps_append, hs]
  rfl

theorem exists_of_parse_eq_ok {t : Arena} (h : parse abbreviation = .ok t) :
    ∃ lexemes b operand, tokenize abbreviation = .ok lexemes ∧
      ({} : Builder).steps lexemes = .ok b ∧ b.flush = .ok (.going t operand none) := by
  rw [Builder.parse_eq_steps] at h
  obtain ⟨lexemes, ht, h⟩ := bind_eq_ok.1 h
  obtain ⟨b, hs, h⟩ := bind_eq_ok.1 h
  rw [Builder.finish_eq_flush] at h
  obtain ⟨s, hf, h⟩ := bind_eq_ok.1 h
  have hasRead := Builder.HasRead.start.steps (areTexts_of_tokenize ht) hs
  obtain ⟨operand, rfl⟩ := (hasRead.flush hf).1.eq_going_of_finish h
  exact ⟨lexemes, b, operand, ht, hs, hf⟩

/-- What an operator fails with is what the abbreviation is refused for. -/
theorem Resolution.parse_eq_error (r : Resolution abbreviation) (h : r.outcome = .error e) :
    parse abbreviation = .error e := by
  rw [parse_eq_of_steps r.tokenize_eq r.steps_eq, Builder.steps_finish_eq_flush _ r.ends]
  have hf : (⟨r.arena, some r.operand, some r.pending, some r.literal⟩ : Builder).flush =
      .error e := by
    rw [outcome] at h
    simp only [Builder.flush, h, Except.map]
  rw [hf]
  rfl

namespace Resolution

variable (r : Resolution abbreviation)

/-- The operator and its literal among the lexemes. -/
theorem exists_lexemes : ∃ before operator between first more,
    r.past = before ++ operator :: (between ++ first :: more) ∧
      operator.item = .operator r.pending.operator r.pending.offset ∧
      (r.pending.climbs = 0 → ∀ lexeme ∈ between, lexeme.item = .reserved) ∧
      (∀ lexeme ∈ first :: more, lexeme.content?.isSome = true) ∧
      joined? (first :: more) = some r.literal := by
  obtain ⟨read, texts, hpast, traced⟩ := exists_traced r.tokenize_eq r.steps_eq
  obtain ⟨before, operator, between, rfl, item, reserved⟩ :=
    (traced.waits r.pending rfl).exists_operator
  have hliteral : some r.literal = joined? texts := traced.literal_eq
  cases texts with
  | nil => cases hliteral
  | cons first more =>
    refine ⟨before, operator, between, first, more, ?_, item, reserved, traced.areTexts,
      hliteral.symm⟩
    rw [hpast, List.append_assoc, List.cons_append]

theorem climbs_eq_zero (hp : r.pending.operator.isPositional = false) : r.pending.climbs = 0 := by
  obtain ⟨read, texts, -, traced⟩ := exists_traced r.tokenize_eq r.steps_eq
  exact (traced.waits r.pending rfl).climbs_eq_zero hp

end Resolution

/-- What abbreviations are refused for. -/
inductive Refused (abbreviation : String) : ParseError → Prop where
  | unknown {e : ParseError} : tokenize abbreviation = .error e → Refused abbreviation e
  | resolution {e : ParseError} (r : Resolution abbreviation) : r.outcome = .error e →
      Refused abbreviation e
  /-- An operator without a literal. -/
  | waiting {past rest : List Lexeme} {b : Builder} {pending : Pending} :
      tokenize abbreviation = .ok (past ++ rest) → ({} : Builder).steps past = .ok b →
      b.pending = some pending →
      Refused abbreviation (.danglingOperator pending.operator pending.offset)
  /-- An operator before any node. -/
  | arriving {past rest : List Lexeme} {lexeme : Lexeme} {operator : Operator} {offset : Nat} :
      tokenize abbreviation = .ok (past ++ lexeme :: rest) →
      lexeme.item = .operator operator offset →
      Refused abbreviation (.danglingOperator operator offset)
  | empty : Refused abbreviation .emptyAbbreviation

namespace Refused

theorem of_flush_error (ht : tokenize abbreviation = .ok (past ++ rest))
    (hs : ({} : Builder).steps past = .ok b) (ends : ∀ lexeme ∈ rest.head?, lexeme.content? = none)
    (hf : b.flush = .error e) : Refused abbreviation e := by
  obtain ⟨t, operand, pending, literal, rfl, hres⟩ := (hasRead_of_steps ht hs).flush_error hf
  exact .resolution ⟨past, rest, ht, ends, t, operand, pending, literal, hs⟩ hres

theorem of_step_error (ht : tokenize abbreviation = .ok (past ++ lexeme :: rest))
    (hs : ({} : Builder).steps past = .ok b) (he : b.step lexeme = .error e) :
    Refused abbreviation e := by
  have hi : lexeme.item.isLiteral = false := by
    cases hl : lexeme.item with
    | literal literal => rw [Builder.step_of_literal hl] at he; cases he
    | _ => rfl
  rw [Builder.step_eq_flush hi] at he
  rcases bind_eq_error.1 he with hf | ⟨s, hf, hr⟩
  · exact of_flush_error ht hs (fun _ hl => Option.some.inj hl ▸ Lexeme.content?_eq_none.2 hi) hf
  · have refuses := ((hasRead_of_steps ht hs).flush hf).1.refuses hr
    generalize hitem : lexeme.item = item at refuses
    cases refuses with
    | resolve => rw [hitem] at hi; cases hi
    | arriving => exact .arriving ht hitem
    | waiting => exact .waiting ht hs (Builder.eq_of_flush hf rfl ▸ rfl)

theorem of_finish_error (ht : tokenize abbreviation = .ok past)
    (hs : ({} : Builder).steps past = .ok b) (he : b.finish = .error e) :
    Refused abbreviation e := by
  have ht' : tokenize abbreviation = .ok (past ++ []) := by rw [ht, List.append_nil]
  rw [Builder.finish_eq_flush] at he
  rcases bind_eq_error.1 he with hf | ⟨s, hf, hfinish⟩
  · exact of_flush_error ht' hs nofun hf
  · rcases ((hasRead_of_steps ht' hs).flush hf).1.finish_error hfinish with rfl | ⟨pending, hp, rfl⟩
    · exact .empty
    · exact .waiting ht' hs (Builder.eq_of_flush hf hp ▸ hp)

end Refused

theorem refused_of_parse (h : parse abbreviation = .error e) : Refused abbreviation e := by
  rw [Builder.parse_eq_steps] at h
  rcases bind_eq_error.1 h with ht | ⟨lexemes, ht, h⟩
  · exact .unknown ht
  · rcases bind_eq_error.1 h with hs | ⟨b, hs, hfinish⟩
    · obtain ⟨past, lexeme, rest, b, rfl, hp, he⟩ := Builder.exists_of_steps_eq_error hs
      exact .of_step_error ht hp he
    · exact .of_finish_error ht hs hfinish

end MarkupShorthand
