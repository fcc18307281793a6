import MarkupShorthand.Proofs.Abbreviation.Endings

/-!
# The log of a reading

What the events of an accepted abbreviation tell of it (`Accounted`): every operator is applied once
or stacked once, and every literal behind the first is applied once or discarded once. Reserved
tokens are reported lexeme by lexeme (`reserved?_log`). Without them, lexemes and their items have
the same log (`filter_log`), so that operators and literals are followed from item to item along a
run (`Runs.applied_reports`, `Runs.climbed_reports`, `Runs.literals_reports`).
-/

namespace MarkupShorthand

/-! ## What events tell -/

namespace Event

/-- The token of an event of a reserved token. -/
def reserved? : Event → Option Token
  | reserved token => some token
  | _ => none

/-- The level of an event of a stacked climb. -/
def climbed? : Event → Option Nat
  | stackedClimb levels => some levels
  | _ => none

/-- The operator and the literal of an event of an operator that is applied. -/
def applied? : Event → Option (Operator × String)
  | applying operator literal => some (operator, literal)
  | _ => none

/-- The literal of an event of a literal that is dropped. -/
def discarded? : Event → Option String
  | discarding literal => some literal
  | _ => none

/-- The number of nodes of an event of an accepted abbreviation. -/
def parsed? : Event → Option Nat
  | parsed nodes => some nodes
  | _ => none

/-- The literal of an event that has one. -/
def literal? : Event → Option String
  | applying _ literal => some literal
  | discarding literal => some literal
  | _ => none

/-- What tells of a literal tells neither of a reserved token nor of the outcome. -/
theorem reserved?_of_literal? {event : Event} (h : event.literal?.isSome = true) :
    event.reserved? = none := by
  cases event with
  | reserved => cases h
  | _ => rfl

theorem parsed?_of_literal? {event : Event} (h : event.literal?.isSome = true) :
    event.parsed? = none := by
  cases event with
  | parsed => cases h
  | _ => rfl

/-- A literal that is reported is applied or dropped. -/
theorem length_filterMap_literal? (events : List Event) :
    (events.filterMap literal?).length =
      (events.filterMap applied?).length + (events.filterMap discarded?).length := by
  induction events with
  | nil => rfl
  | cons event rest ih =>
    cases event with
    | applying operator text =>
      simp only [List.filterMap_cons, literal?, applied?, discarded?, List.length_cons, ih]
      omega
    | discarding text =>
      simp only [List.filterMap_cons, literal?, applied?, discarded?, List.length_cons, ih]
      omega
    | _ => exact ih

/-- What is told of other events is the same without those of reserved tokens. -/
theorem filterMap_filter_reserved? {α : Type} {f : Event → Option α}
    (hf : ∀ token, f (reserved token) = none) (events : List Event) :
    (events.filter (·.reserved?.isNone)).filterMap f = events.filterMap f := by
  rw [List.filterMap_filter]
  refine List.filterMap_congr fun event _ => ?_
  cases event with
  | reserved token => exact (hf token).symm
  | _ => rfl

end Event

/-! ## What abbreviations hold -/

namespace Token

/-- Whether a token is one of the six operators. -/
def isOperator : Token → Bool
  | child | sibling | climb | id | className | multiply => true
  | _ => false

/-- Whether a token is a bracket or a directive. -/
def isReserved : Token → Bool
  | openBracket | closeBracket | openBrace | closeBrace | openParen | closeParen => true
  | directive _ => true
  | _ => false

end Token

theorem Lexeme.isReserved_iff {lexeme : Lexeme} :
    lexeme.token.isReserved = true ↔ lexeme.item = .reserved := by
  unfold item
  cases lexeme.token <;> simp [Token.isReserved]

namespace Item

/-- The text of a literal. -/
def text? : Item → Option String
  | .literal l => some l.text
  | _ => none

/-- Whether an item is an operator. -/
def isOperator : Item → Bool
  | .operator _ _ => true
  | _ => false

end Item

/-- The literals among items. -/
def literalTexts (items : List Item) : List String :=
  items.filterMap Item.text?

section Literals

variable (rest : List Item)

@[simp] theorem literalTexts_literal (literal : Literal) :
    literalTexts (.literal literal :: rest) = literal.text :: literalTexts rest := rfl

@[simp] theorem literalTexts_reserved : literalTexts (.reserved :: rest) = literalTexts rest := rfl

@[simp] theorem literalTexts_operator (operator : Operator) (offset : Nat) :
    literalTexts (.operator operator offset :: rest) = literalTexts rest := rfl

end Literals

/-- An operator where it stands. -/
structure Use where
  operator : Operator
  /-- Whether no literal stands between it and the operator before it. -/
  isStacked : Bool
  /-- The literal that comes next. -/
  literal? : Option String

/-- The operators among items, behind one that waits for a literal or behind none. -/
def operatorUses (waits : Bool) : List Item → List Use
  | [] => []
  | .literal _ :: rest => operatorUses false rest
  | .reserved :: rest => operatorUses waits rest
  | .operator operator _ :: rest =>
    ⟨operator, waits, (literalTexts rest).head?⟩ :: operatorUses true rest

theorem length_operatorUses (waits : Bool) (rest : List Item) :
    (operatorUses waits rest).length = rest.countP Item.isOperator := by
  induction rest generalizing waits with
  | nil => rfl
  | cons item rest ih =>
    cases item with
    | literal literal => exact ih false
    | reserved => exact ih waits
    | operator operator offset =>
      rw [operatorUses, List.length_cons, ih, List.countP_cons_of_pos rfl]

/-- Joining texts leaves the operators. -/
theorem countP_isOperator_joinTo (item : Item) (rest : List Item) :
    (item.joinTo rest).countP Item.isOperator = (item :: rest).countP Item.isOperator := by
  unfold Item.joinTo
  split <;> rfl

theorem countP_isOperator_items (lexemes : List Lexeme) :
    (items lexemes).countP Item.isOperator = lexemes.countP (·.token.isOperator) := by
  induction lexemes with
  | nil => rfl
  | cons lexeme rest ih =>
    have hi : lexeme.item.isOperator = lexeme.token.isOperator := by
      unfold Lexeme.item
      cases lexeme.token <;> rfl
    rw [items, countP_isOperator_joinTo, List.countP_cons, List.countP_cons, ih, hi]

/-! ## Reporting item by item -/

namespace Builder

variable {b b' : Builder} {lexeme : Lexeme}

/-- The events of the remaining lexemes and the end, as far as they are read. -/
def log (b : Builder) : List Lexeme → List Event
  | [] => b.flushEvents ++ Event.ofResult b.finish
  | lexeme :: rest =>
    b.announce lexeme ++
      match b.step lexeme with
      | .error _ => []
      | .ok b' => b'.log rest

theorem toList_events_run (b : Builder) (events : Array Event) (lexemes : List Lexeme) :
    (b.run events lexemes).events.toList = events.toList ++ b.log lexemes := by
  induction lexemes generalizing b events with
  | nil => simp [run, log]
  | cons lexeme rest ih =>
    rw [run, log]
    cases hs : b.step lexeme with
    | error e => simp
    | ok b' => simp [ih]

/-- The events of an item, if there is no unfinished literal. -/
def report (b : Builder) : Item → List Event
  | .literal literal => { b with literal := some literal }.flushEvents
  | .reserved => []
  | .operator operator _ =>
    match b.pending with
    | none => []
    | some pending => (stacked? pending operator).toList.map (.stackedClimb ·.levels)

/-- The events of the remaining items and the end, as far as they are read. -/
def reports (b : Builder) : List Item → List Event
  | [] => Event.ofResult b.finish
  | item :: rest =>
    b.report item ++
      match b.read item with
      | .error _ => []
      | .ok b' => b'.reports rest

theorem flushEvents_of_none (h : b.literal = none) : b.flushEvents = [] := by
  simp [flushEvents, h]

theorem report_literal_settled {literal : Literal} (h : b.literal = some literal) :
    b.settled.report (.literal literal) = b.flushEvents := by
  rw [report, settled, ← h]

/-- Ending a literal tells of that literal. -/
theorem isSome_literal?_of_mem_flushEvents {event : Event} (h : event ∈ b.flushEvents) :
    event.literal?.isSome = true := by
  unfold flushEvents at h
  split at h
  · exact List.mem_singleton.1 h ▸ rfl
  · exact List.mem_singleton.1 h ▸ rfl
  · cases h

theorem filter_flushEvents (b : Builder) :
    b.flushEvents.filter (·.reserved?.isNone) = b.flushEvents :=
  List.filter_eq_self.2 fun _ hm => by
    rw [Event.reserved?_of_literal? (isSome_literal?_of_mem_flushEvents hm)]
    rfl

/-- Nothing is said of a text until its literal ends. -/
theorem announce_of_literal {literal : Literal} (h : lexeme.item = .literal literal) :
    b.announce lexeme = [] := by
  unfold Lexeme.item at h
  cases ht : lexeme.token <;> simp only [ht, reduceCtorEq] at h
  rw [announce, ht]
  rfl

theorem announce_of_operator {operator : Operator} (h : lexeme.token.operator? = some operator)
    (hne : operator ≠ .inert) :
    b.announce lexeme =
      match b.literal, b.pending with
      | none, some pending => (stacked? pending operator).toList.map (.stackedClimb ·.levels)
      | _, _ => b.flushEvents := by
  rw [announce, h]
  cases operator with
  | inert => exact absurd rfl hne
  | _ => rfl

/-- What is no text is reported behind the literal that it ends. -/
theorem filter_announce (h : lexeme.item.isLiteral = false) :
    (b.announce lexeme).filter (·.reserved?.isNone) =
      match b.literal with
      | none => b.report lexeme.item
      | some _ => b.flushEvents := by
  cases hi : lexeme.item with
  | literal literal => rw [hi] at h; cases h
  | reserved =>
    rw [announce, Lexeme.item_eq_reserved.1 hi]
    dsimp only
    rw [List.filter_cons_of_neg (by exact nofun), filter_flushEvents]
    cases hl : b.literal with
    | none => exact flushEvents_of_none hl
    | some literal => rfl
  | operator operator offset =>
    have hne : operator ≠ .inert := fun e => lexeme.item_ne_inert offset (e ▸ hi)
    rw [announce_of_operator (Lexeme.operator?_of_item hi).1 hne]
    cases hl : b.literal with
    | some literal => exact b.filter_flushEvents
    | none =>
      cases hp : b.pending with
      | none =>
        simp only [report, hp]
        rw [filter_flushEvents, flushEvents_of_none hl]
      | some pending =>
        simp only [report, hp]
        exact List.filter_eq_self.2 fun event hm => by
          obtain ⟨stacked, -, rfl⟩ := List.mem_map.1 hm
          rfl

/-- Nothing is reported of an item that no literal and no operator waits for. -/
theorem report_of_flush {s : Builder} {item : Item} {literal : Literal}
    (hl : b.literal = some literal) (hf : b.flush = .ok s) (h : item.isLiteral = false) :
    s.report item = [] := by
  cases item with
  | literal literal => cases h
  | reserved => rfl
  | operator operator offset => simp only [report, (flush_ok hl hf).2.1]

/-- Reading lexemes and reading their items report the same, reserved tokens apart. -/
theorem filter_log (b : Builder) (lexemes : List Lexeme) :
    (b.log lexemes).filter (·.reserved?.isNone) = b.settled.reports (b.ahead lexemes) := by
  have filter_ofResult : ∀ result, (Event.ofResult result).filter (·.reserved?.isNone) =
      Event.ofResult result := fun result => by cases result <;> rfl
  induction lexemes generalizing b with
  | nil =>
    rw [log, List.filter_append, filter_flushEvents, filter_ofResult]
    cases hl : b.literal with
    | none =>
      rw [flushEvents_of_none hl, settled_of_none hl, ahead_of_none hl]
      rfl
    | some literal =>
      simp only [ahead, hl, items, Item.joinTo_nil, reports, report_literal_settled hl,
        finish_of_some hl, read_literal_settled hl]
      cases b.flush <;> rfl
  | cons lexeme rest ih =>
    rw [log, List.filter_append]
    -- A text only makes the literal longer; anything else first reports it and is read then.
    cases hi : lexeme.item.isLiteral with
    | true =>
      cases hl : lexeme.item with
      | literal literal =>
        rw [announce_of_literal hl, step_of_literal hl, List.filter_nil, List.nil_append]
        dsimp only
        rw [ih, settled_addText, ahead_addText hl]
      | _ => rw [hl] at hi; cases hi
    | false =>
      have next : ∀ s : Builder, s.literal = none →
          (match s.read lexeme.item with
            | .error _ => []
            | .ok b' => b'.log rest).filter (·.reserved?.isNone) =
          match s.read lexeme.item with
            | .error _ => []
            | .ok b' => b'.reports (items rest) := fun s hs => by
        cases hr : s.read lexeme.item with
        | error e => rfl
        | ok b' =>
          have hn := literal_of_read hs hr
          dsimp only
          rw [ih, settled_of_none hn, ahead_of_none hn]
      rw [filter_announce hi, step_eq_read hi, ahead, items, Item.joinTo_of_left hi]
      cases hl : b.literal with
      | none =>
        dsimp only
        rw [next b hl, settled_of_none hl, reports]
      | some literal =>
        dsimp only
        rw [Item.joinTo_of_right hi, reports, report_literal_settled hl, read_literal_settled hl]
        cases hf : b.flush with
        | error e => rfl
        | ok s =>
          dsimp only
          rw [next s (literal_of_flush hf), reports, report_of_flush hl hf hi, List.nil_append]

/-! ## Reserved tokens and the outcome -/

theorem log_cons (hs : b.step lexeme = .ok b') (rest : List Lexeme) :
    b.log (lexeme :: rest) = b.announce lexeme ++ b'.log rest := by
  rw [log, hs]

theorem reserved?_flushEvents (b : Builder) : b.flushEvents.filterMap Event.reserved? = [] :=
  List.filterMap_eq_nil_iff.2 fun _ hm =>
    Event.reserved?_of_literal? (isSome_literal?_of_mem_flushEvents hm)

theorem reserved?_announce (b : Builder) (lexeme : Lexeme) :
    (b.announce lexeme).filterMap Event.reserved? = [lexeme.token].filter Token.isReserved := by
  have flushed := b.reserved?_flushEvents
  cases hi : lexeme.item with
  | literal literal =>
    rw [announce_of_literal hi, List.filter_cons_of_neg]
    · rfl
    · rw [Lexeme.isReserved_iff, hi]
      nofun
  | reserved =>
    rw [announce, Lexeme.item_eq_reserved.1 hi,
      List.filter_cons_of_pos (Lexeme.isReserved_iff.2 hi)]
    exact congrArg _ flushed
  | operator operator offset =>
    have hne : operator ≠ .inert := fun e => lexeme.item_ne_inert offset (e ▸ hi)
    rw [announce_of_operator (Lexeme.operator?_of_item hi).1 hne, List.filter_cons_of_neg]
    · split
      · exact List.filterMap_eq_nil_iff.2 fun _ hm => by
          obtain ⟨stacked, -, rfl⟩ := List.mem_map.1 hm
          rfl
      · exact flushed
    · rw [Lexeme.isReserved_iff, hi]
      nofun

/-- Every reserved token is reported, in the order in which they stand. -/
theorem reserved?_log {s : Builder} {lexemes : List Lexeme} (hs : b.steps lexemes = .ok s) :
    (b.log lexemes).filterMap Event.reserved? =
      (lexemes.map Lexeme.token).filter Token.isReserved := by
  induction lexemes generalizing b with
  | nil =>
    have ofResult : (Event.ofResult b.finish).filterMap Event.reserved? = [] := by
      cases b.finish <;> rfl
    rw [log, List.filterMap_append, ofResult, List.append_nil, reserved?_flushEvents]
    rfl
  | cons lexeme rest ih =>
    rw [steps, List.foldlM_cons] at hs
    obtain ⟨b', hb, hs⟩ := bind_eq_ok.1 hs
    rw [log_cons hb, List.filterMap_append, reserved?_announce, ih hs, ← List.filter_append]
    rfl

theorem parsed?_of_mem_announce {event : Event} (h : event ∈ b.announce lexeme) :
    event.parsed? = none := by
  unfold announce at h
  split at h
  · cases h
  · rcases List.mem_cons.1 h with rfl | h
    · rfl
    · exact Event.parsed?_of_literal? (isSome_literal?_of_mem_flushEvents h)
  · split at h
    · obtain ⟨stacked, -, rfl⟩ := List.mem_map.1 h
      rfl
    · exact Event.parsed?_of_literal? (isSome_literal?_of_mem_flushEvents h)

theorem exists_log_eq (b : Builder) (events : Array Event) (lexemes : List Lexeme) :
    ∃ before, b.log lexemes = before ++ Event.ofResult (b.run events lexemes).result ∧
      ∀ event ∈ before, event.parsed? = none := by
  induction lexemes generalizing b events with
  | nil =>
    exact ⟨b.flushEvents, rfl, fun _ hm =>
      Event.parsed?_of_literal? (isSome_literal?_of_mem_flushEvents hm)⟩
  | cons lexeme rest ih =>
    rw [log, run]
    cases b.step lexeme with
    | error e =>
      refine ⟨b.announce lexeme, ?_, fun _ => parsed?_of_mem_announce⟩
      rfl
    | ok b' =>
      obtain ⟨before, hlog, hbefore⟩ := ih b' (events.appendList (b.announce lexeme))
      refine ⟨b.announce lexeme ++ before, ?_, ?_⟩
      · dsimp only
        rw [hlog, List.append_assoc]
      · exact List.forall_mem_append.2 ⟨fun _ => parsed?_of_mem_announce, hbefore⟩

/-! ## Operators and literals along a run -/

theorem reports_cons {item : Item} (hr : b.read item = .ok b') (rest : List Item) :
    b.reports (item :: rest) = b.report item ++ b'.reports rest := by
  rw [reports, hr]

section Cases

variable (t : Arena) (operand : Operand) (pending : Pending) (waiting : Option Pending)
  (literal : Literal) (operator : Operator) (offset : Nat)

@[simp] theorem pending_going : (going t operand waiting).pending = waiting := rfl

@[simp] theorem cursor_going : (going t operand waiting).cursor = some operand := rfl

@[simp] theorem report_reserved (b : Builder) : b.report .reserved = [] := rfl

@[simp] theorem report_first : ({} : Builder).report (.literal literal) = [] := rfl

@[simp] theorem report_drop :
    (going t operand none).report (.literal literal) = [.discarding literal.text] := rfl

@[simp] theorem report_resolve :
    (going t operand (some pending)).report (.literal literal) =
      [.applying pending.operator literal.text] := rfl

@[simp] theorem report_wait :
    (going t operand none).report (.operator operator offset) = [] := rfl

variable {pending}

theorem report_stack (h : pending.operator.isPositional = true) :
    (going t operand (some pending)).report (.operator .climb offset) =
      [.stackedClimb { pending with climbs := pending.climbs + 1 }.levels] := by
  simp only [report, pending_going, stacked?_eq_some.2 ⟨rfl, h, rfl⟩]
  rfl

end Cases

/-- The operator that waits gets the next literal, and so does each behind it that is not stacked.
-/
theorem Runs.applied_reports {s : Builder} {rest : List Item} (h : Runs b rest s)
    (hs : s.pending = none) :
    ((b.reports rest).filterMap Event.applied?).map (Prod.map id some) =
      b.pending.toList.map (fun pending => (pending.operator, (literalTexts rest).head?)) ++
        ((operatorUses b.pending.isSome rest).filter (!·.isStacked)).map fun use =>
          (use.operator, use.literal?) := by
  induction h with
  | @nil b =>
    rw [hs, reports]
    cases b.finish <;> rfl
  | @cons b b' s item rest sound hr _ ih =>
    rw [reports_cons hr, List.filterMap_append, List.map_append, ih hs]
    cases sound.reads hr with
    | first literal => rfl
    | drop t operand literal => simp [operatorUses, Event.applied?]
    | resolve => simp [operatorUses, Event.applied?]
    | reserved => simp [operatorUses]
    | wait t operand operator offset => simp [operatorUses]
    | stack t operand offset positional =>
      rw [report_stack t operand offset positional]
      simp [operatorUses, Event.applied?]

/-- Every operator that finds one waiting is stacked on it, and is a `^`. -/
theorem Runs.climbed_reports {s : Builder} {rest : List Item} (h : Runs b rest s) :
    ((b.reports rest).filterMap Event.climbed?).length =
        (operatorUses b.pending.isSome rest).countP (·.isStacked) ∧
      ∀ use ∈ operatorUses b.pending.isSome rest,
        use.isStacked = true → use.operator = .climb := by
  induction h with
  | @nil b =>
    refine ⟨?_, nofun⟩
    rw [reports]
    cases b.finish <;> rfl
  | @cons b b' s item rest sound hr _ ih =>
    obtain ⟨count, climb⟩ := ih
    rw [reports_cons hr, List.filterMap_append, List.length_append, count]
    cases sound.reads hr with
    | first literal => exact ⟨Nat.zero_add _, climb⟩
    | drop t operand literal => exact ⟨Nat.zero_add _, climb⟩
    | resolve => exact ⟨Nat.zero_add _, climb⟩
    | reserved => exact ⟨Nat.zero_add _, climb⟩
    | wait t operand operator offset =>
      refine ⟨?_, List.forall_mem_cons.2 ⟨nofun, climb⟩⟩
      simp [operatorUses]
    | stack t operand offset positional =>
      refine ⟨?_, List.forall_mem_cons.2 ⟨fun _ => rfl, climb⟩⟩
      rw [report_stack t operand offset positional]
      simp [operatorUses, Event.climbed?, Nat.add_comm]

/-- Every literal is reported, in the order in which they stand, but the one that names the first
node. -/
theorem Runs.literals_reports {s : Builder} {rest : List Item} (h : Runs b rest s)
    (hs : s.cursor.isSome = true) :
    ∃ first : Option String, first.isSome = b.cursor.isNone ∧
      literalTexts rest = first.toList ++ (b.reports rest).filterMap Event.literal? := by
  induction h with
  | @nil b =>
    refine ⟨none, (Option.isNone_eq_false_iff.2 hs).symm, ?_⟩
    rw [reports]
    cases b.finish <;> rfl
  | @cons b b' s item rest sound hr _ ih =>
    obtain ⟨first, hfirst, hrest⟩ := ih hs
    rw [reports_cons hr, List.filterMap_append]
    cases sound.reads hr with
    | first literal =>
      obtain rfl := Option.not_isSome_iff_eq_none.1 (Bool.not_eq_true _ ▸ hfirst)
      exact ⟨some literal.text, rfl, congrArg (literal.text :: ·) hrest⟩
    | drop t operand literal =>
      obtain rfl := Option.not_isSome_iff_eq_none.1 (Bool.not_eq_true _ ▸ hfirst)
      exact ⟨none, rfl, congrArg (literal.text :: ·) hrest⟩
    | @resolve t operand pending literal =>
      obtain rfl := Option.not_isSome_iff_eq_none.1 (Bool.not_eq_true _ ▸ hfirst)
      exact ⟨none, rfl, congrArg (literal.text :: ·) hrest⟩
    | reserved => exact ⟨first, hfirst, hrest⟩
    | wait t operand operator offset => exact ⟨first, hfirst, hrest⟩
    | stack t operand offset positional =>
      rw [report_stack t operand offset positional]
      exact ⟨first, hfirst, hrest⟩

end Builder

/-! ## Whole abbreviations -/

variable {abbreviation : String} {lexemes : List Lexeme}

theorem toList_events_parseLogged (ht : tokenize abbreviation = .ok lexemes) :
    (parseLogged abbreviation).events.toList =
      .parsing abbreviation :: ({} : Builder).log lexemes := by
  rw [parseLogged, ht]
  exact Builder.toList_events_run _ _ _

/-- What the log of an accepted abbreviation tells but for reserved tokens is told by its items. -/
theorem filterMap_events {α : Type} {f : Event → Option α}
    (ht : tokenize abbreviation = .ok lexemes) (hf : ∀ token, f (.reserved token) = none)
    (hparsing : f (.parsing abbreviation) = none) :
    (parseLogged abbreviation).events.toList.filterMap f =
      (({} : Builder).reports (items lexemes)).filterMap f := by
  rw [toList_events_parseLogged ht, List.filterMap_cons_none hparsing,
    ← Event.filterMap_filter_reserved? hf, Builder.filter_log]
  rfl

/-- The outcome of an abbreviation is reported at the end and nowhere else. -/
theorem exists_events_eq (abbreviation : String) : ∃ before,
    (parseLogged abbreviation).events.toList = before ++ Event.ofResult (parse abbreviation) ∧
      ∀ event ∈ before, event.parsed? = none := by
  cases ht : tokenize abbreviation with
  | error e =>
    refine ⟨[.parsing abbreviation], ?_, List.forall_mem_singleton.2 rfl⟩
    simp only [parse, parseLogged, ht]
    rfl
  | ok lexemes =>
    obtain ⟨before, hlog, hbefore⟩ := ({} : Builder).exists_log_eq #[.parsing abbreviation] lexemes
    refine ⟨.parsing abbreviation :: before, ?_, List.forall_mem_cons.2 ⟨rfl, hbefore⟩⟩
    rw [toList_events_parseLogged ht, hlog, parse, parseLogged, ht]
    rfl

/-- What the log of an accepted abbreviation tells of its lexemes and its tree. -/
structure Accounted (lexemes : List Lexeme) (t : Arena) (events : List Event) : Prop where
  /-- Every reserved token is reported once, in the order in which they stand. -/
  reserved : events.filterMap Event.reserved? = (lexemes.map Lexeme.token).filter Token.isReserved
  /-- Every operator is either applied or stacked. -/
  length_operators :
    (events.filterMap Event.applied?).length + (events.filterMap Event.climbed?).length =
      lexemes.countP (·.token.isOperator)
  /-- Operators are applied in the order in which they stand, each with the literal behind it. -/
  applied : (events.filterMap Event.applied?).map (Prod.map id some) =
    ((operatorUses false (items lexemes)).filter (!·.isStacked)).map fun use =>
      (use.operator, use.literal?)
  stacked : ∀ use ∈ operatorUses false (items lexemes), use.isStacked = true → use.operator = .climb
  /-- But for the first, every literal is applied or dropped, in the order in which they stand. -/
  literals_eq : ∃ first, literalTexts (items lexemes) = first :: events.filterMap Event.literal?
  length_literals : (literalTexts (items lexemes)).length =
    1 + (events.filterMap Event.applied?).length + (events.filterMap Event.discarded?).length
  last : events.getLast? = some (.parsed t.count)

theorem accounted_of_parse {t : Arena} (ht : tokenize abbreviation = .ok lexemes)
    (hp : parse abbreviation = .ok t) :
    Accounted lexemes t (parseLogged abbreviation).events.toList := by
  obtain ⟨operand, runs⟩ := Builder.runs_of_parse ht hp
  have happlied := runs.applied_reports rfl
  obtain ⟨hclimbed, hstacked⟩ := runs.climbed_reports
  obtain ⟨first, hfirst, hliterals⟩ := runs.literals_reports rfl
  obtain ⟨first, rfl⟩ := Option.isSome_iff_exists.1 hfirst
  rw [← filterMap_events ht (fun _ => rfl) rfl] at happlied hclimbed hliterals
  refine ⟨?_, ?_, happlied, hstacked, ⟨first, hliterals⟩, ?_, ?_⟩
  · obtain ⟨lexemes', b, operand, ht', hs, -⟩ := exists_of_parse_eq_ok hp
    obtain rfl := Except.ok.inj (ht.symm.trans ht')
    rw [toList_events_parseLogged ht, List.filterMap_cons_none rfl, Builder.reserved?_log hs]
  · have happlied := congrArg List.length happlied
    rw [List.length_map] at happlied
    rw [happlied, hclimbed, ← countP_isOperator_items, ← length_operatorUses false, Nat.add_comm]
    simpa [List.countP_eq_length_filter] using
      (List.length_eq_countP_add_countP (·.isStacked)
        (l := operatorUses false (items lexemes))).symm
  · rw [hliterals, List.length_append, Event.length_filterMap_literal?, Nat.add_assoc]
    rfl
  · obtain ⟨before, hlog, -⟩ := exists_events_eq abbreviation
    rw [hlog, hp]
    exact List.getLast?_concat

/-- Nothing is lost and nothing is used twice: the log of an accepted abbreviation accounts for all
of it. A refused abbreviation is never reported as read, and nothing of one that has an unknown
character is. -/
theorem parse_log_accounts (abbreviation : String) :
    (∀ t, parse abbreviation = .ok t → ∃ lexemes, tokenize abbreviation = .ok lexemes ∧
      Accounted lexemes t (parseLogged abbreviation).events.toList) ∧
    (∀ e, parse abbreviation = .error e →
      ∀ nodes, .parsed nodes ∉ (parseLogged abbreviation).events.toList) ∧
    (∀ e, tokenize abbreviation = .error e →
      (parseLogged abbreviation).events = #[.parsing abbreviation]) := by
  refine ⟨fun t hp => ?_, fun e hp nodes hm => ?_, fun e ht => ?_⟩
  · obtain ⟨lexemes, -, -, ht, -⟩ := exists_of_parse_eq_ok hp
    exact ⟨lexemes, ht, accounted_of_parse ht hp⟩
  · obtain ⟨before, hlog, hbefore⟩ := exists_events_eq abbreviation
    rw [hlog, hp] at hm
    rcases List.mem_append.1 hm with hm | hm
    · cases hbefore _ hm
    · cases hm
  · rw [parseLogged, ht]

/-- Operators that are applied and stacked around brackets, with one literal to drop; an operator
whose literal is no count; and a character that starts no token. -/
theorem parse_log_accounts_of_samples :
    (∃ t, parse "a>(^b).c d[e]" = .ok t ∧ ∃ lexemes, tokenize "a>(^b).c d[e]" = .ok lexemes ∧
      Accounted lexemes t (parseLogged "a>(^b).c d[e]").events.toList) ∧
    (∃ e, parse "a>b*x" = .error e ∧
      ∀ nodes, .parsed nodes ∉ (parseLogged "a>b*x").events.toList) ∧
    (∃ e, tokenize "a>\x01" = .error e ∧
      (parseLogged "a>\x01").events = #[.parsing "a>\x01"]) := by
  have accepted : (parse "a>(^b).c d[e]").toBool = true := by decide +kernel
  have refused : (parse "a>b*x").toBool = false := by decide +kernel
  have unknown : (tokenize "a>\x01").toBool = false := by decide +kernel
  refine ⟨?_, ?_, ?_⟩
  · cases hp : parse "a>(^b).c d[e]" with
    | error e => rw [hp] at accepted; cases accepted
    | ok t => exact ⟨t, rfl, (parse_log_accounts _).1 t hp⟩
  · cases hp : parse "a>b*x" with
    | error e => exact ⟨e, rfl, (parse_log_accounts _).2.1 e hp⟩
    | ok t => rw [hp] at refused; cases refused
  · cases ht : tokenize "a>\x01" with
    | error e => exact ⟨e, rfl, (parse_log_accounts _).2.2 e ht⟩
    | ok lexemes => rw [ht] at unknown; cases unknown

end MarkupShorthand
