import MarkupShorthand.CommandLine.Run
import MarkupShorthand.Proofs.Abbreviation.Endings

/-!
# Where errors point

The offset of an error divides the abbreviation in two, and what comes behind it is what the error
speaks of (`ParseError.Explains`): the operator that is dangling, the unknown character, the text
that was to be a count. It is found from the lexemes that the cause goes back to
(`exists_split_of_tokenize`). So there is always a column to put a caret in
(`offset_of_parse_eq_error`).
-/

namespace MarkupShorthand

open Text

variable {abbreviation : String} {e : ParseError} {past rest : List Lexeme} {lexeme : Lexeme}
  {offset : Nat}

/-! ## Bytes and columns -/

theorem utf8ByteSize_ofList (chars : List Char) :
    (String.ofList chars).utf8ByteSize = utf8Length chars := by
  induction chars with
  | nil => rfl
  | cons c chars ih =>
    rw [String.ofList_cons, String.utf8ByteSize_append, String.utf8ByteSize_singleton, ih,
      utf8Length_cons]

theorem utf8Length_toList (s : String) : utf8Length s.toList = s.utf8ByteSize := by
  rw [← utf8ByteSize_ofList, String.ofList_toList]

/-- Behind the bytes of some characters comes the column behind these. -/
theorem columnAt?_utf8Length (before after : List Char) :
    columnAt? (before ++ after) (utf8Length before) = some before.length := by
  induction before with
  | nil => cases after <;> rfl
  | cons c before ih =>
    obtain ⟨n, hn⟩ : ∃ n, c.utf8Size + utf8Length before = n + 1 :=
      Nat.exists_eq_add_of_le' (Nat.le_add_right_of_le c.utf8Size_pos)
    have hrest : n + 1 - c.utf8Size = utf8Length before := by omega
    rw [utf8Length_cons, hn, List.cons_append, columnAt?, if_pos (by omega), hrest, ih]
    rfl

/-! ## What an error says -/

/-- Whether a text starts at an offset and stands behind a `*`, with no tokens but reserved ones
between them. -/
def IsCountAt (abbreviation : String) (offset : Nat) : Prop :=
  ∃ past star between text rest content,
    tokenize abbreviation = .ok (past ++ star :: (between ++ text :: rest)) ∧
      star.token = .multiply ∧ (∀ lexeme ∈ between, lexeme.token.operator? = some .inert) ∧
      text.token = .text content ∧ text.start = offset

/-- Whether what comes before an error's offset and behind it is what the error speaks of. -/
def ParseError.Explains (abbreviation before after : String) : ParseError → Prop
  | danglingOperator operator _ => operator.symbol.toList <+: after.toList
  | emptyAbbreviation => False
  | invalidCount count offset => IsCountAt abbreviation offset ∧
      count.toList <+: after.toList.filter (!isWhiteSpace ·)
  | unknownToken token _ => token ∈ after.toList.head? ∧ IsUnknown token ∧
      ∀ c ∈ before.toList, ¬ IsUnknown c
  | nestingTooDeep _ => ∃ operator : Operator, operator.isPositional = true ∧
      operator.symbol.toList <+: after.toList
  | tooManyNodes offset => IsCountAt abbreviation offset

/-! ## From lexemes to bytes -/

theorem Lexeme.written_of_item {operator : Operator} (h : lexeme.item = .operator operator offset) :
    lexeme.token.written = operator.symbol.toList := by
  obtain ⟨hop, -⟩ := operator?_of_item h
  have hne : operator ≠ .inert := fun e => lexeme.item_ne_inert offset (e ▸ h)
  cases ht : lexeme.token <;> simp_all [Token.operator?, Token.written] <;> subst hop <;> rfl

theorem toList_join_content? {texts : List Lexeme}
    (h : ∀ lexeme ∈ texts, lexeme.content?.isSome = true) :
    (String.join (texts.filterMap Lexeme.content?)).toList = texts.flatMap (·.token.written) := by
  rw [String.toList_join]
  induction texts with
  | nil => rfl
  | cons lexeme texts ih =>
    obtain ⟨hfirst, hmore⟩ := List.forall_mem_cons.1 h
    obtain ⟨content, hc⟩ := Option.isSome_iff_exists.1 hfirst
    have hw : lexeme.token.written = content.toList := by
      rw [Lexeme.content?_eq_some.1 hc, Token.written]
    rw [List.filterMap_cons_some hc, List.flatMap_cons, List.flatMap_cons, ih hmore, hw]

/-- A lexeme is written at its offset, and without white space the lexemes from there on are what
is written there. -/
theorem exists_split_of_tokenize (h : tokenize abbreviation = .ok (past ++ lexeme :: rest)) :
    ∃ before after : String, abbreviation = before ++ after ∧
      before.utf8ByteSize = lexeme.start ∧ after ≠ "" ∧
      lexeme.token.written <+: after.toList ∧
      after.toList.filter (!isWhiteSpace ·) = (lexeme :: rest).flatMap (·.token.written) := by
  obtain ⟨before, after, hchars, hstart, hw, cut⟩ := (tokenize_eq_ok_iff_cut.1 h).exists_at
  refine ⟨String.ofList before, String.ofList after, ?_, ?_, ?_, ?_, ?_⟩
  · rw [← String.ofList_append, ← hchars, String.ofList_toList]
  · rw [utf8ByteSize_ofList, hstart, Nat.zero_add]
  · intro hempty
    obtain rfl : after = [] := by simpa using congrArg String.toList hempty
    cases cut.eq_nil
  · rwa [String.toList_ofList]
  · rw [String.toList_ofList, cut.filter_eq]

/-! ## Errors -/

/-- Whether an error's offset divides an abbreviation, before its end, in two parts that the error
explains. -/
def ParseError.Divides (abbreviation : String) (offset : Nat) (e : ParseError) : Prop :=
  ∃ before after : String, abbreviation = before ++ after ∧ before.utf8ByteSize = offset ∧
    after ≠ "" ∧ e.Explains abbreviation before after

theorem divides_of_dangling {operator : Operator}
    (ht : tokenize abbreviation = .ok (past ++ lexeme :: rest))
    (hi : lexeme.item = .operator operator offset) :
    (ParseError.danglingOperator operator offset).Divides abbreviation offset := by
  obtain ⟨before, after, hs, hstart, hne, hw, -⟩ := exists_split_of_tokenize ht
  refine ⟨before, after, hs, hstart.trans (Lexeme.operator?_of_item hi).2, hne, ?_⟩
  rwa [Lexeme.written_of_item hi] at hw

theorem divides_of_unknown (ht : tokenize abbreviation = .error e) (ho : e.offset? = some offset) :
    e.Divides abbreviation offset := by
  obtain ⟨before, c, after, hchars, hc, hb, rfl⟩ := tokenize_eq_error_iff.1 ht
  refine ⟨String.ofList before, String.ofList (c :: after), ?_, ?_, ?_, ?_, hc, ?_⟩
  · rw [← String.ofList_append, ← hchars, String.ofList_toList]
  · rw [utf8ByteSize_ofList]
    exact Option.some.inj ho
  · simp
  · rw [String.toList_ofList]
    rfl
  · rwa [String.toList_ofList]

namespace Resolution

variable (r : Resolution abbreviation)

/-- The operator's offset is its own. -/
theorem exists_split_operator : ∃ before after : String, abbreviation = before ++ after ∧
    before.utf8ByteSize = r.pending.offset ∧ after ≠ "" ∧
    r.pending.operator.symbol.toList <+: after.toList := by
  obtain ⟨before, operator, between, first, more, hpast, item, -⟩ := r.exists_lexemes
  have ht := r.tokenize_eq
  rw [hpast, List.append_assoc, List.cons_append] at ht
  exact divides_of_dangling ht item

/-- A count's offset is that of its first text, and without white space it is written there. -/
theorem exists_split_count (hm : r.pending.operator = .multiply) :
    IsCountAt abbreviation r.literal.offset ∧ ∃ before after : String,
      abbreviation = before ++ after ∧ before.utf8ByteSize = r.literal.offset ∧ after ≠ "" ∧
      r.literal.text.toList <+: after.toList.filter (!isWhiteSpace ·) := by
  obtain ⟨before, star, between, first, more, hpast, item, reserved, areTexts, hliteral⟩ :=
    r.exists_lexemes
  have ht : tokenize abbreviation =
      .ok (before ++ star :: (between ++ first :: (more ++ r.rest))) := by
    rw [r.tokenize_eq, hpast]
    simp
  have hfirst : ∃ content, first.token = .text content ∧ first.start = r.literal.offset := by
    obtain ⟨content, hc⟩ := Option.isSome_iff_exists.1 (areTexts first List.mem_cons_self)
    refine ⟨content, Lexeme.content?_eq_some.1 hc, ?_⟩
    rw [joined?] at hliteral
    rw [← Option.some.inj hliteral]
  obtain ⟨content, htext, hstart⟩ := hfirst
  refine ⟨⟨before, star, between, first, more ++ r.rest, content, ht, ?_, ?_, htext, hstart⟩, ?_⟩
  · rw [hm] at item
    exact Token.operator?_inj (Lexeme.operator?_of_item item).1 rfl (by decide)
  · have hreserved := reserved (r.climbs_eq_zero (by rw [hm]; rfl))
    exact fun lexeme hl => Lexeme.item_eq_reserved.1 (hreserved lexeme hl)
  · rw [← List.singleton_append, ← List.append_assoc, ← List.append_assoc] at ht
    obtain ⟨front, after, hs, hsize, hne, -, hfilter⟩ := exists_split_of_tokenize ht
    refine ⟨front, after, hs, hsize.trans hstart, hne, ?_⟩
    rw [joined?] at hliteral
    rw [hfilter, ← Option.some.inj hliteral, toList_join_content? areTexts, ← List.cons_append,
      List.flatMap_append]
    exact List.prefix_append _ _

/-- The offset of an operator's error is that of the operator or of its literal. -/
theorem divides (he : r.outcome = .error e) (ho : e.offset? = some offset) :
    e.Divides abbreviation offset := by
  cases Arena.fails_of_eq_error he with
  | place positional =>
    obtain rfl : r.pending.offset = offset := Option.some.inj ho
    obtain ⟨before, after, hs, hsize, hne, hw⟩ := r.exists_split_operator
    exact ⟨before, after, hs, hsize, hne, _, positional, hw⟩
  | count hm =>
    obtain rfl : r.literal.offset = offset := Option.some.inj ho
    obtain ⟨isCount, before, after, hs, hsize, hne, hw⟩ := r.exists_split_count hm
    exact ⟨before, after, hs, hsize, hne, isCount, hw⟩
  | size hm =>
    obtain rfl : r.literal.offset = offset := Option.some.inj ho
    obtain ⟨isCount, before, after, hs, hsize, hne, -⟩ := r.exists_split_count hm
    exact ⟨before, after, hs, hsize, hne, isCount⟩

end Resolution

theorem Refused.divides (h : Refused abbreviation e) (ho : e.offset? = some offset) :
    e.Divides abbreviation offset := by
  cases h with
  | unknown ht => exact divides_of_unknown ht ho
  | resolution r he => exact r.divides he ho
  | waiting ht hs hp =>
    obtain ⟨read, texts, rfl, traced⟩ := exists_traced ht hs
    obtain ⟨before, lexeme, between, rfl, item, -⟩ := (traced.waits _ hp).exists_operator
    rw [List.append_assoc, List.append_assoc, List.cons_append] at ht
    exact Option.some.inj ho ▸ divides_of_dangling ht item
  | arriving ht item => exact Option.some.inj ho ▸ divides_of_dangling ht item
  | empty => cases ho

/-- The offset of an error is a place in the abbreviation where what the error speaks of is written,
and a caret is put in its column. -/
theorem offset_of_parse_eq_error (h : parse abbreviation = .error e)
    (ho : e.offset? = some offset) :
    offset < abbreviation.utf8ByteSize ∧ (String.Pos.Raw.mk offset).IsValid abbreviation ∧
      ∃ before after : String, abbreviation = before ++ after ∧ before.utf8ByteSize = offset ∧
        e.Explains abbreviation before after ∧
        diagnostic? abbreviation e =
          some ("  " ++ abbreviation ++ "\n  " ++ "".pushn ' ' before.length ++ "^\n") := by
  obtain ⟨before, after, hs, hsize, hne, explains⟩ := (refused_of_parse h).divides ho
  refine ⟨?_, ?_, before, after, hs, hsize, explains, ?_⟩
  · have hpos : after.utf8ByteSize ≠ 0 := fun hzero => hne (String.utf8ByteSize_eq_zero_iff.1 hzero)
    rw [hs, String.utf8ByteSize_append]
    omega
  · refine String.Pos.Raw.isValid_iff_exists_append.2 ⟨before, after, hs, ?_⟩
    rw [← hsize]
    rfl
  · have hcolumn : columnAt? abbreviation.toList offset = some before.length := by
      have hlength : utf8Length before.toList = offset := by
        rw [← utf8ByteSize_ofList, String.ofList_toList, hsize]
      rw [hs, String.toList_append, ← hlength, columnAt?_utf8Length, String.length_toList]
    simp only [diagnostic?, ho, hcolumn, bind, Option.bind, pure]

/-- The count is in two texts, behind brackets and a letter of two bytes. -/
theorem offset_of_count_in_two_texts :
    parse "é*[] 1 x" = .error (.invalidCount "1x" 6) ∧
      6 < "é*[] 1 x".utf8ByteSize ∧ (String.Pos.Raw.mk 6).IsValid "é*[] 1 x" ∧
      ∃ before after : String, "é*[] 1 x" = before ++ after ∧ before.utf8ByteSize = 6 ∧
        (ParseError.invalidCount "1x" 6).Explains "é*[] 1 x" before after ∧
        diagnostic? "é*[] 1 x" (.invalidCount "1x" 6) =
          some ("  " ++ "é*[] 1 x" ++ "\n  " ++ "".pushn ' ' before.length ++ "^\n") := by
  have h : parse "é*[] 1 x" = .error (.invalidCount "1x" 6) := by decide +kernel
  exact ⟨h, offset_of_parse_eq_error h rfl⟩

end MarkupShorthand
