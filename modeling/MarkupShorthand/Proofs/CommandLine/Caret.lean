import MarkupShorthand.Proofs.Abbreviation.Offsets
import MarkupShorthand.Proofs.CommandLine.Outcomes
import MarkupShorthand.Proofs.Json.Values

/-!
# Where the caret stands

A fault in an abbreviation is shown by the abbreviation behind a margin and, on a line below, a
caret behind as many characters as stand in front of the fault. The abbreviation is printed with the
line breaks in it, so that the fault itself stands behind the characters of its own line only: the
caret is in its column exactly if no line break comes before it (`caret_column_eq_iff`). What was
logged before, in whatever lines, changes no column, as the margin stands behind a line break.
-/

namespace MarkupShorthand

open Text

variable {abbreviation : String} {e : ParseError} {offset : Nat} {before after : String}
  {arguments : List String} {inv : Invocation} {files : Files} {settings : Settings}
  {input : ByteArray} {text : String}

/-- The column of what is printed behind a text: the number of characters since its last line
break. -/
def columnBehind (printed : String) : Nat :=
  (printed.toList.rtakeWhile (· != '\n')).length

theorem columnBehind_eq {printed : String} {front line : List Char}
    (h : printed.toList = front ++ '\n' :: line) (hline : '\n' ∉ line) :
    columnBehind printed = line.length := by
  have inside : ∀ c ∈ line.reverse, (c != '\n') = true := fun c hc =>
    bne_iff_ne.2 fun e => hline (e ▸ List.mem_reverse.1 hc)
  rw [columnBehind, h, List.rtakeWhile, List.reverse_append, List.reverse_cons, List.append_assoc,
    List.takeWhile_append_of_pos inside]
  simp

/-- A text ends with a line of its own where it has a line break. -/
theorem exists_last_line {chars : List Char} (h : '\n' ∈ chars) :
    ∃ front line, chars = front ++ '\n' :: line ∧ '\n' ∉ line := by
  obtain ⟨line, front, hsplit, hline⟩ := List.eq_append_cons_of_mem (List.mem_reverse.2 h)
  refine ⟨front.reverse, line.reverse, ?_, mt List.mem_reverse.1 hline⟩
  rw [← List.reverse_reverse chars, hsplit]
  simp

/-- A caret is put behind a margin and as many blanks as there are characters in front of the
offset. -/
theorem diagnostic?_eq (hs : abbreviation = before ++ after) (hsize : before.utf8ByteSize = offset)
    (ho : e.offset? = some offset) :
    diagnostic? abbreviation e =
      some ("  " ++ abbreviation ++ "\n  " ++ "".pushn ' ' before.length ++ "^\n") := by
  have hcolumn : columnAt? abbreviation.toList offset = some before.length := by
    rw [hs, String.toList_append, ← hsize, ← utf8Length_toList, columnAt?_utf8Length,
      String.length_toList]
  rw [diagnostic?, ho]
  exact congrArg (· >>= _) hcolumn

/-- The characters since the last line break are those of the margin and of what comes before the
fault, unless there is a line break among the latter. -/
theorem columnBehind_margin_iff (printed before : String) :
    columnBehind (printed ++ "\n  " ++ before) = before.length + 2 ↔ '\n' ∉ before.toList := by
  have hmargin : (printed ++ "\n  " ++ before).toList =
      printed.toList ++ '\n' :: (' ' :: ' ' :: before.toList) := by simp
  constructor
  · intro hcolumn hbreak
    obtain ⟨front, line, hbefore, hline⟩ := exists_last_line hbreak
    have hsplit : (printed ++ "\n  " ++ before).toList =
        (printed.toList ++ '\n' :: ' ' :: ' ' :: front) ++ '\n' :: line := by
      rw [hmargin, hbefore]
      simp
    have hlength : before.length = front.length + (line.length + 1) := by
      rw [← String.length_toList, hbefore, List.length_append, List.length_cons]
    rw [columnBehind_eq hsplit hline] at hcolumn
    omega
  · intro hbreak
    rw [columnBehind_eq hmargin (by simpa using hbreak), List.length_cons, List.length_cons,
      String.length_toList]

/-- The errors that show a fault end what is printed to their stream. They have the abbreviation
with the characters in front of the fault and those behind it, and end with a line that has a caret
behind as many characters as the former are, with the margin. This is the fault's own column exactly
if no line break comes before the fault. -/
theorem caret_column_eq_iff (h : Request.ofArguments arguments = .ok (.run inv))
    (ready : Ready inv files settings) (htext : inv.text? input = some text)
    (hp : parse (trim text) = .error e) (ho : e.offset? = some offset)
    (admits : LogEntry → Bool) (line : Nat → LogEntry → String) :
    ∃ before after : String,
      trim text = before ++ after ∧ before.utf8ByteSize = offset ∧ after ≠ "" ∧
      let outcome := run arguments files input admits
      let logged := outcome.logged line
      let shown := "error: " ++ e.message ++ "\n  " ++ before
      let lead := shown ++ after ++ "\n  " ++ "".pushn ' ' before.length
      outcome.errors = lead ++ "^\n" ∧ outcome.stderr line = logged ++ lead ++ "^\n" ∧
        columnBehind (logged ++ lead) = before.length + 2 ∧
        (columnBehind (logged ++ shown) = columnBehind (logged ++ lead) ↔
          '\n' ∉ before.toList) := by
  obtain ⟨before, after, hs, hsize, hafter, -⟩ := (refused_of_parse hp).divides ho
  refine ⟨before, after, hs, hsize, hafter, ?_⟩
  intro outcome logged shown lead
  have hne : trim text ≠ "" := fun e =>
    hafter (String.append_eq_empty_iff.1 (hs.symm.trans e)).2
  have herrors : outcome.errors = lead ++ "^\n" := by
    have hmargin : "\n  " = "\n" ++ "  " := rfl
    show (run arguments files input admits).errors = _
    rw [(run_eq_iff h).2 (.refused ready htext hne hp), diagnostic?_eq hs hsize ho, hs]
    simp only [Outcome.failure, Option.getD_some, lead, shown, hmargin, String.append_assoc]
  have hlead : columnBehind (logged ++ lead) = before.length + 2 := by
    have hblanks : ("".pushn ' ' before.length).toList = List.replicate before.length ' ' :=
      Json.toList_pushn "" ' ' before.length
    have hlength : ("".pushn ' ' before.length).length = before.length := by
      rw [← String.length_toList, hblanks, List.length_replicate]
    have hline : '\n' ∉ ("".pushn ' ' before.length).toList := fun hm =>
      absurd (List.eq_of_mem_replicate (hblanks ▸ hm)) (by decide)
    have hcolumn := (columnBehind_margin_iff (logged ++ shown ++ after) _).2 hline
    simpa only [hlength, lead, String.append_assoc] using hcolumn
  refine ⟨herrors, ?_, hlead, ?_⟩
  · rw [Outcome.stderr, herrors, ← String.append_assoc]
  · rw [hlead]
    have hcolumn := columnBehind_margin_iff (logged ++ "error: " ++ e.message) before
    simpa only [shown, String.append_assoc] using hcolumn

/-- The first operator is behind a letter of two bytes and before a line break. The log is printed
first. -/
theorem caret_column_before_line_break :
    let admits : LogEntry → Bool := fun _ => true
    let line : Nat → LogEntry → String := fun n entry => s!"{n} {entry.text}\n"
    parse (trim " é >\n>b") = .error (.danglingOperator .child 3) ∧
      ∃ before after : String,
        trim " é >\n>b" = before ++ after ∧ before.utf8ByteSize = 3 ∧ after ≠ "" ∧
        let outcome := run ["-s", " é >\n>b"] {} .empty admits
        let logged := outcome.logged line
        let shown :=
          "error: " ++ (ParseError.danglingOperator .child 3).message ++ "\n  " ++ before
        let lead := shown ++ after ++ "\n  " ++ "".pushn ' ' before.length
        outcome.errors = lead ++ "^\n" ∧ outcome.stderr line = logged ++ lead ++ "^\n" ∧
          columnBehind (logged ++ lead) = before.length + 2 ∧
          (columnBehind (logged ++ shown) = columnBehind (logged ++ lead) ↔
            '\n' ∉ before.toList) := by
  intro admits line
  have hargs : Request.ofArguments ["-s", " é >\n>b"] =
      .ok (.run { abbreviation := some " é >\n>b", flags := [.stacked] }) := by decide +kernel
  have hparse : parse (trim " é >\n>b") = .error (.danglingOperator .child 3) := by decide +kernel
  have ready : Ready { abbreviation := some " é >\n>b", flags := [.stacked] } {}
      { numbering := .stacked } := ⟨by decide +kernel, by decide, by decide +kernel⟩
  exact ⟨hparse, caret_column_eq_iff hargs ready rfl hparse rfl admits line⟩

/-- An operator on the second line of an abbreviation: the caret stands six columns to the right of
it. -/
theorem caret_beside_fault_behind_line_break :
    parse "div\n>" = .error (.danglingOperator .child 4) ∧ "div\n".utf8ByteSize = 4 ∧
      let outcome := run ["div\n>"] {} .empty
      let shown := "error: operator '>' at offset 4 has no operand\n  " ++ "div\n"
      let lead := shown ++ ">" ++ "\n      "
      outcome.log = [] ∧ outcome.errors = lead ++ "^\n" ∧
        columnBehind shown = 0 ∧ columnBehind lead = 6 := by
  decide +kernel

end MarkupShorthand
