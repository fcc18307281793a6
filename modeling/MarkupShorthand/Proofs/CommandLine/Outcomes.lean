import Mathlib.Control.Monad.Basic
import Mathlib.Data.List.TakeWhile
import MarkupShorthand.CommandLine.Run

/-!
# Outcomes of runs

What a run comes to, in the order in which it is decided (`ComesTo`), and what it does not depend
on. The abbreviation may be an argument or the input: reading arguments never looks at it
(`Invocation.read_naming`), so that the argument can be taken away (`Invocation.exists_split`) and
its text be put in instead.
-/

namespace MarkupShorthand

open Text

/-! ## Arguments without an abbreviation -/

/-- The invocation with another abbreviation or none. -/
def Invocation.naming (text : Option String) (inv : Invocation) : Invocation :=
  { inv with abbreviation := text }

/-- A request with another abbreviation or none. -/
def Request.naming (text : Option String) : Request → Request
  | .run inv => .run (inv.naming text)
  | other => other

namespace Invocation

/-- What an argument leads to, with another abbreviation. -/
def Next.naming (text : Option String) : Next → Next
  | .more inv awaited => .more (inv.naming text) awaited
  | .done request => .done (request.naming text)

variable (text : Option String) (inv : Invocation)

theorem has_naming (flag : Flag) : (inv.naming text).has flag = inv.has flag := rfl

theorem turnOn_naming (flag : Flag) :
    (inv.naming text).turnOn flag = (inv.turnOn flag).map (naming text) := by
  unfold turnOn
  rw [has_naming]
  split <;> rfl

theorem give_naming (parameter : Parameter) (value : String) :
    (inv.naming text).give parameter value = (inv.give parameter value).map (naming text) := by
  unfold give
  have hget : (inv.naming text).get? parameter = inv.get? parameter := by cases parameter <;> rfl
  rw [hget]
  split
  · rfl
  · cases parameter <;> rfl

theorem readShort_naming (chars : List Char) :
    (inv.naming text).readShort chars = (inv.readShort chars).map (Next.naming text) := by
  induction chars generalizing inv with
  | nil => rfl
  | cons c rest ih =>
    rw [readShort, readShort]
    cases Switch.ofShort? c with
    | none => rfl
    | some switch =>
      cases switch with
      | version => rfl
      | help => rfl
      | flag flag =>
        dsimp only
        rw [turnOn_naming]
        cases inv.turnOn flag with
        | error e => rfl
        | ok inv' => exact ih inv'
      | parameter parameter =>
        dsimp only
        split
        · rfl
        · rw [give_naming]
          cases inv.give parameter _ <;> rfl
        · rw [give_naming]
          cases inv.give parameter _ <;> rfl

theorem readLong_naming (name : String) (value : Option String) :
    (inv.naming text).readLong name value = (inv.readLong name value).map (Next.naming text) := by
  unfold readLong
  split
  · rfl
  · rw [give_naming]
    cases inv.give _ _ <;> rfl
  · rfl
  · rfl
  · rw [turnOn_naming]
    cases inv.turnOn _ <;> rfl
  · rfl
  · rfl

theorem finish_naming :
    (inv.naming text).finish = inv.finish.map (Request.naming text) := by
  unfold finish
  have hformat : (inv.naming text).format = inv.format := rfl
  rw [has_naming, hformat]
  split <;> rfl

theorem readArgument_naming {argument : String} (h : startsSwitch argument = true) :
    (inv.naming text).readArgument argument =
      (inv.readArgument argument).map (Next.naming text) := by
  unfold readArgument
  split
  · exact readLong_naming ..
  · exact readShort_naming ..
  · rename_i hlong hshort
    unfold startsSwitch at h
    split at h
    · rename_i c rest hc
      exact absurd hc (hshort c rest)
    · cases h

/-- An argument that is no switch is the abbreviation. -/
theorem readArgument_eq_name {argument : String} (h : startsSwitch argument = false) :
    inv.readArgument argument = (inv.name argument).map fun inv => .more inv none := by
  unfold startsSwitch at h
  unfold readArgument
  split
  · rename_i rest hc
    rw [hc] at h
    cases h
  · rename_i c rest _ hc
    rw [hc] at h
    cases h
  · cases inv.name argument <;> rfl

variable {inv} {inv' : Invocation} {argument : String} {arguments : List String}
  {awaited awaited' : Option Parameter}

theorem naming_abbreviation (inv : Invocation) : inv.naming inv.abbreviation = inv := rfl

/-- A switch leaves the abbreviation. -/
theorem naming_of_readArgument {next : Next} (h : startsSwitch argument = true)
    (hr : inv.readArgument argument = .ok next) : next.naming inv.abbreviation = next := by
  have hnaming := readArgument_naming inv.abbreviation inv h
  rw [naming_abbreviation, hr] at hnaming
  exact (Except.ok.inj hnaming).symm

theorem abbreviation_of_readArgument (h : startsSwitch argument = true)
    (hr : inv.readArgument argument = .ok (.more inv' awaited)) :
    inv'.abbreviation = inv.abbreviation := by
  have hinv' := (Next.more.inj (naming_of_readArgument h hr)).1
  rw [← hinv']
  rfl

theorem abbreviation_of_give {parameter : Parameter} {value : String}
    (h : inv.give parameter value = .ok inv') : inv'.abbreviation = inv.abbreviation := by
  have hnaming := give_naming inv.abbreviation inv parameter value
  rw [naming_abbreviation, h] at hnaming
  have hinv' : inv' = inv'.naming inv.abbreviation := Except.ok.inj hnaming
  rw [hinv']
  rfl

/-- What reads on behind an argument. -/
theorem read_cons_parameter {parameter : Parameter} :
    inv.read (some parameter) (argument :: arguments) =
      if startsSwitch argument then .error (.missingValue parameter)
      else inv.give parameter argument >>= fun inv => inv.read none arguments := by
  rw [read]

theorem read_cons_switch (hne : argument ≠ "--") :
    inv.read none (argument :: arguments) =
      inv.readArgument argument >>= fun
        | .more inv awaited => inv.read awaited arguments
        | .done request => .ok request := by
  rw [read, if_neg hne]
  rfl

/-- Once there is an abbreviation, what else is read does not depend on it. -/
theorem read_naming {request : Request} (h : inv.abbreviation.isSome = true)
    (hr : inv.read awaited arguments = .ok request) :
    (inv.naming text).read awaited arguments = .ok (request.naming text) := by
  induction arguments generalizing inv awaited with
  | nil =>
    cases awaited with
    | some parameter => cases hr
    | none =>
      rw [read] at hr ⊢
      rw [finish_naming, hr]
      rfl
  | cons argument rest ih =>
    have hname : inv.name argument = .error (.unknownArgument argument) := by
      rw [name, h]
      rfl
    cases awaited with
    | some parameter =>
      rw [read_cons_parameter] at hr ⊢
      split at hr
      · cases hr
      · rename_i hswitch
        rw [if_neg hswitch, give_naming]
        cases hg : inv.give parameter argument with
        | error e => rw [hg] at hr; cases hr
        | ok inv' =>
          rw [hg] at hr
          exact ih (abbreviation_of_give hg ▸ h) hr
    | none =>
      by_cases hdashes : argument = "--"
      · rw [hdashes, read, if_pos rfl] at hr ⊢
        cases rest with
        | nil =>
          rw [readPlain] at hr ⊢
          rw [finish_naming, hr]
          rfl
        | cons argument rest =>
          rw [readPlain, name, h] at hr
          cases hr
      · rw [read_cons_switch hdashes] at hr ⊢
        cases hswitch : startsSwitch argument with
        | true =>
          rw [readArgument_naming text inv hswitch]
          cases ha : inv.readArgument argument with
          | error e => rw [ha] at hr; cases hr
          | ok next =>
            rw [ha] at hr
            cases next with
            | more inv' awaited => exact ih (abbreviation_of_readArgument hswitch ha ▸ h) hr
            | done request => exact Except.ok.inj hr ▸ rfl
        | false =>
          -- A second abbreviation is refused.
          rw [readArgument_eq_name inv hswitch, hname] at hr
          cases hr

theorem abbreviation_of_read (h : inv.abbreviation.isSome = true)
    (hr : inv.read awaited arguments = .ok (.run inv')) :
    inv'.abbreviation = inv.abbreviation := by
  have hnaming := read_naming inv.abbreviation h hr
  rw [naming_abbreviation, hr] at hnaming
  have hinv' : inv' = inv'.naming inv.abbreviation := Request.run.inj (Except.ok.inj hnaming)
  rw [hinv']
  rfl

theorem eq_of_finish (h : inv.finish = .ok (.run inv')) : inv' = inv := by
  unfold finish at h
  split at h
  · cases h
  · exact (Request.run.inj (Except.ok.inj h)).symm

/-- Where there is no abbreviation yet, an argument can be one. -/
theorem name_of_none (h : inv.abbreviation = none) (argument : String) :
    inv.name argument = .ok (inv.naming (some argument)) := by
  rw [name, h]
  rfl

theorem naming_none_naming (h : inv.abbreviation = none) (text : Option String) :
    (inv.naming text).naming none = inv := by
  rw [← h]
  rfl

/-- Among arguments that are no names, the abbreviation stands alone. -/
theorem readPlain_eq_finish {given : String} (h : inv.abbreviation = none)
    (hr : inv.readPlain arguments = .ok (.run inv')) (hgiven : inv'.abbreviation = some given) :
    arguments = [given] ∧ inv.finish = .ok (.run (inv'.naming none)) := by
  cases arguments with
  | nil =>
    rw [eq_of_finish hr, h] at hgiven
    cases hgiven
  | cons argument rest =>
    rw [readPlain, name_of_none h] at hr
    cases rest with
    | nil =>
      have hf : (inv.naming (some argument)).finish = .ok (.run inv') := hr
      have hfinish := finish_naming none (inv.naming (some argument))
      rw [naming_none_naming h, hf] at hfinish
      rw [eq_of_finish hf] at hgiven
      exact ⟨congrArg (fun text => [text]) (Option.some.inj hgiven), hfinish⟩
    | cons second rest => cases hr

/-- The abbreviation is one of the arguments, and without it everything else is the same. -/
theorem exists_split {given : String} (h : inv.abbreviation = none)
    (hr : inv.read awaited arguments = .ok (.run inv')) (hgiven : inv'.abbreviation = some given) :
    ∃ before after, arguments = before ++ given :: after ∧
      inv.read awaited (before ++ after) = .ok (.run (inv'.naming none)) := by
  induction arguments generalizing inv awaited with
  | nil =>
    cases awaited with
    | some parameter => cases hr
    | none =>
      rw [eq_of_finish hr, h] at hgiven
      cases hgiven
  | cons argument rest ih =>
    cases awaited with
    | some parameter =>
      rw [read_cons_parameter] at hr
      split at hr
      · cases hr
      · rename_i hswitch
        cases hg : inv.give parameter argument with
        | error e => rw [hg] at hr; cases hr
        | ok inv₁ =>
          rw [hg] at hr
          obtain ⟨before, after, rfl, hsplit⟩ := ih (abbreviation_of_give hg ▸ h) hr
          refine ⟨argument :: before, after, rfl, ?_⟩
          rw [List.cons_append, read_cons_parameter, if_neg hswitch, hg]
          exact hsplit
    | none =>
      by_cases hdashes : argument = "--"
      · rw [hdashes, read, if_pos rfl] at hr
        obtain ⟨rfl, hfinish⟩ := readPlain_eq_finish h hr hgiven
        refine ⟨["--"], [], hdashes ▸ rfl, ?_⟩
        rw [List.append_nil, read, if_pos rfl]
        exact hfinish
      · rw [read_cons_switch hdashes] at hr
        cases hswitch : startsSwitch argument with
        | true =>
          cases ha : inv.readArgument argument with
          | error e => rw [ha] at hr; cases hr
          | ok next =>
            rw [ha] at hr
            cases next with
            | more inv₁ awaited =>
              obtain ⟨before, after, rfl, hsplit⟩ :=
                ih (abbreviation_of_readArgument hswitch ha ▸ h) hr
              refine ⟨argument :: before, after, rfl, ?_⟩
              rw [List.cons_append, read_cons_switch hdashes, ha]
              exact hsplit
            | done request =>
              obtain rfl : request = .run inv' := Except.ok.inj hr
              have hinv' := Request.run.inj (Next.done.inj (naming_of_readArgument hswitch ha))
              rw [← hinv'] at hgiven
              cases h.symm.trans hgiven
        | false =>
          -- This is the abbreviation, and what follows is read as if it were not there.
          rw [readArgument_eq_name inv hswitch, name_of_none h] at hr
          obtain rfl := Option.some.inj (hgiven.symm.trans (abbreviation_of_read rfl hr))
          have hread := read_naming none rfl hr
          rw [naming_none_naming h] at hread
          exact ⟨[], rest, rfl, hread⟩

end Invocation

/-! ## How runs are decided -/

/-- The text that a run expands: the argument, or else the input. -/
def Invocation.text? (inv : Invocation) (input : ByteArray) : Option String :=
  inv.abbreviation.or (String.fromUTF8? input)

/-- Whether there are settings for a tree to be written with, and the tree is asked for. -/
structure Ready (inv : Invocation) (files : Files) (settings : Settings) : Prop where
  load_eq : Settings.load files inv.layers = .ok settings
  listFormats : inv.has .listFormats = false
  has_format : (Registry.builtIn settings.options).has settings.format = true

/-- The log of a run that has its settings and reads an abbreviation. -/
def Invocation.readingLog (inv : Invocation) (admits : LogEntry → Bool) (settings : Settings)
    (abbreviation : String) : List LogEntry :=
  inv.log admits <|
    [.enabled, .loaded settings] ++ (parseLogged abbreviation).events.toList.map LogEntry.reading

/-- What a run comes to. The first of the settings, the list of formats, the format, the input, and
the abbreviation to decide does. Each leaves its entries in the log. -/
inductive ComesTo (inv : Invocation) (files : Files) (admits : LogEntry → Bool)
    (input : ByteArray) : Outcome → Prop where
  | misconfigured {e : Settings.Failure} : Settings.load files inv.layers = .error e →
      ComesTo inv files admits input
        (.failure ("configuration error: " ++ e.message) (inv.log admits [.enabled]))
  | listed {settings : Settings} : Settings.load files inv.layers = .ok settings →
      inv.has .listFormats = true →
      ComesTo inv files admits input
        (.success (Registry.builtIn settings.options).listing
          (inv.log admits [.enabled, .loaded settings]))
  | unknownFormat {settings : Settings} : Settings.load files inv.layers = .ok settings →
      inv.has .listFormats = false →
      (Registry.builtIn settings.options).has settings.format = false →
      ComesTo inv files admits input
        (.failure (FormatError.notFound settings.format).message
          (inv.log admits [.enabled, .loaded settings]))
  | unreadable {settings : Settings} : Ready inv files settings → inv.text? input = none →
      ComesTo inv files admits input
        (.failure "stream did not contain valid UTF-8"
          (inv.log admits [.enabled, .loaded settings]))
  | blank {settings : Settings} {text : String} : Ready inv files settings →
      inv.text? input = some text → trim text = "" →
      ComesTo inv files admits input
        (.success (syntaxHint ++ "\n") (inv.log admits [.enabled, .loaded settings]))
  | refused {settings : Settings} {text : String} {e : ParseError} : Ready inv files settings →
      inv.text? input = some text → trim text ≠ "" → parse (trim text) = .error e →
      ComesTo inv files admits input
        (.failure e.message (inv.readingLog admits settings (trim text))
          ((diagnostic? (trim text) e).getD ""))
  | previewed {settings : Settings} {text : String} {t : Arena} : Ready inv files settings →
      inv.text? input = some text → trim text ≠ "" → parse (trim text) = .ok t →
      inv.has .preview = true →
      ComesTo inv files admits input
        (.success (t.preview settings.options) (inv.readingLog admits settings (trim text)))
  | written {settings : Settings} {text written : String} {t : Arena} {f : Formatter} :
      Ready inv files settings → inv.text? input = some text → trim text ≠ "" →
      parse (trim text) = .ok t → inv.has .preview = false →
      (Registry.builtIn settings.options).get? settings.format = some f →
      f.write t = .ok written →
      ComesTo inv files admits input
        (.success (written ++ "\n") (inv.readingLog admits settings (trim text)))

variable {arguments : List String} {inv : Invocation} {files : Files} {admits : LogEntry → Bool}
  {input : ByteArray} {outcome : Outcome} {settings : Settings} {text : String}

/-- What a run comes to with an input. -/
def Progress.resume (input : ByteArray) : Progress → Outcome
  | .finished outcome => outcome
  | .awaitsInput next => next input

theorem run_eq (h : Request.ofArguments arguments = .ok (.run inv)) (files : Files)
    (admits : LogEntry → Bool) (input : ByteArray) :
    run arguments files input admits = (inv.start files admits).resume input := by
  rw [run, start, h]
  rfl

theorem start_of_error {e : Settings.Failure} (h : Settings.load files inv.layers = .error e) :
    inv.start files admits =
      .finished (.failure ("configuration error: " ++ e.message)
        (inv.log admits [.enabled])) := by
  unfold Invocation.start
  rw [h]

theorem start_of_listFormats (h : Settings.load files inv.layers = .ok settings)
    (hlist : inv.has .listFormats = true) :
    inv.start files admits =
      .finished (.success (Registry.builtIn settings.options).listing
        (inv.log admits [.enabled, .loaded settings])) := by
  unfold Invocation.start
  rw [h]
  exact if_pos hlist

theorem start_of_not_has (h : Settings.load files inv.layers = .ok settings)
    (hlist : inv.has .listFormats = false)
    (hformat : (Registry.builtIn settings.options).has settings.format = false) :
    inv.start files admits =
      .finished (.failure (FormatError.notFound settings.format).message
        (inv.log admits [.enabled, .loaded settings])) := by
  unfold Invocation.start
  rw [h]
  dsimp only
  rw [if_neg (by rw [hlist]; nofun), hformat]
  rfl

theorem expand_of_blank (h : trim text = "") (registry : Registry) :
    inv.expand settings registry admits text =
      .success (syntaxHint ++ "\n") (inv.log admits [.enabled, .loaded settings]) := by
  rw [Invocation.expand, h]
  rfl

theorem expand_of_error {e : ParseError} (hne : trim text ≠ "")
    (hp : parse (trim text) = .error e) (registry : Registry) :
    inv.expand settings registry admits text =
      .failure e.message (inv.readingLog admits settings (trim text))
        ((diagnostic? (trim text) e).getD "") := by
  rw [parse] at hp
  rw [Invocation.expand, if_neg (mt String.isEmpty_iff.1 hne)]
  dsimp only
  rw [hp]
  rfl

theorem expand_of_ok {t : Arena} (hne : trim text ≠ "") (hp : parse (trim text) = .ok t)
    {registry : Registry} {f : Formatter} (hf : registry.get? settings.format = some f)
    {written : String} (hw : f.write t = .ok written) :
    inv.expand settings registry admits text =
      .success (if inv.has .preview then t.preview settings.options else written ++ "\n")
        (inv.readingLog admits settings (trim text)) := by
  rw [parse] at hp
  rw [Invocation.expand, if_neg (mt String.isEmpty_iff.1 hne)]
  dsimp only
  rw [hp]
  dsimp only
  rw [Registry.write_eq_of_get? hf, hw]
  split <;> rfl

namespace Ready

theorem resume_eq (h : Ready inv files settings) (input : ByteArray) :
    (inv.start files admits).resume input =
      match inv.text? input with
      | some text => inv.expand settings (Registry.builtIn settings.options) admits text
      | none => .failure "stream did not contain valid UTF-8"
          (inv.log admits [.enabled, .loaded settings]) := by
  unfold Invocation.start
  rw [h.load_eq, Invocation.text?]
  dsimp only
  rw [if_neg (by rw [h.listFormats]; nofun), if_neg (by rw [h.has_format]; nofun)]
  cases inv.abbreviation with
  | some text => dsimp only [Option.or, Progress.resume]
  | none =>
    show (match String.fromUTF8? input with
      | some text => inv.expand settings (Registry.builtIn settings.options) admits text
      | none => .failure "stream did not contain valid UTF-8" _) = _
    cases String.fromUTF8? input <;> rfl

theorem exists_formatter (h : Ready inv files settings) :
    ∃ f, (Registry.builtIn settings.options).get? settings.format = some f :=
  Option.isSome_iff_exists.1 (Registry.has_eq _ _ ▸ h.has_format)

theorem comesTo (h : Ready inv files settings) (input : ByteArray) :
    ComesTo inv files admits input ((inv.start files admits).resume input) := by
  rw [h.resume_eq]
  cases htext : inv.text? input with
  | none => exact .unreadable h htext
  | some text =>
    dsimp only
    by_cases hblank : trim text = ""
    · rw [expand_of_blank hblank]
      exact .blank h htext hblank
    · cases hp : parse (trim text) with
      | error e =>
        rw [expand_of_error hblank hp]
        exact .refused h htext hblank hp
      | ok t =>
        obtain ⟨f, hf⟩ := h.exists_formatter
        obtain ⟨written, hw⟩ := Registry.exists_write_of_builtIn hf t
        rw [expand_of_ok hblank hp hf hw]
        cases hpreview : inv.has .preview with
        | true => exact .previewed h htext hblank hp hpreview
        | false => exact .written h htext hblank hp hpreview hf hw

end Ready

/-- Every run comes to something, -/
theorem comesTo_resume (inv : Invocation) (files : Files) (admits : LogEntry → Bool)
    (input : ByteArray) :
    ComesTo inv files admits input ((inv.start files admits).resume input) := by
  cases hload : Settings.load files inv.layers with
  | error e =>
    rw [start_of_error hload]
    exact .misconfigured hload
  | ok settings =>
    cases hlist : inv.has .listFormats with
    | true =>
      rw [start_of_listFormats hload hlist]
      exact .listed hload hlist
    | false =>
      cases hformat : (Registry.builtIn settings.options).has settings.format with
      | true => exact Ready.comesTo ⟨hload, hlist, hformat⟩ input
      | false =>
        rw [start_of_not_has hload hlist hformat]
        exact .unknownFormat hload hlist hformat

/-- and to nothing else. -/
theorem ComesTo.resume_eq (h : ComesTo inv files admits input outcome) :
    (inv.start files admits).resume input = outcome := by
  cases h with
  | misconfigured hload => rw [start_of_error hload]; rfl
  | listed hload hlist => rw [start_of_listFormats hload hlist]; rfl
  | unknownFormat hload hlist hformat => rw [start_of_not_has hload hlist hformat]; rfl
  | unreadable ready htext => rw [ready.resume_eq, htext]
  | blank ready htext hblank =>
    rw [ready.resume_eq, htext]
    exact expand_of_blank hblank _
  | refused ready htext hne hp =>
    rw [ready.resume_eq, htext]
    exact expand_of_error hne hp _
  | @previewed settings text t ready htext hne hp hpreview =>
    obtain ⟨f, hf⟩ := ready.exists_formatter
    obtain ⟨written, hw⟩ := Registry.exists_write_of_builtIn hf t
    rw [ready.resume_eq, htext]
    dsimp only
    rw [expand_of_ok hne hp hf hw, hpreview]
    rfl
  | written ready htext hne hp hpreview hf hw =>
    rw [ready.resume_eq, htext]
    dsimp only
    rw [expand_of_ok hne hp hf hw, hpreview]
    rfl

theorem run_eq_iff (h : Request.ofArguments arguments = .ok (.run inv)) :
    run arguments files input admits = outcome ↔ ComesTo inv files admits input outcome := by
  rw [run_eq h]
  exact ⟨fun e => e ▸ comesTo_resume inv files admits input, ComesTo.resume_eq⟩

/-- A run either succeeds without errors or fails without output. -/
theorem ComesTo.code_eq (h : ComesTo inv files admits input outcome) :
    (outcome.code = 0 ∧ outcome.errors = "") ∨ (outcome.code = 1 ∧ outcome.output = "") := by
  cases h with
  | listed | blank | previewed | written => exact .inl ⟨rfl, rfl⟩
  | misconfigured | unknownFormat | unreadable | refused => exact .inr ⟨rfl, rfl⟩

/-- What is let through to the log decides nothing else. -/
theorem ComesTo.exists_log (h : ComesTo inv files admits input outcome)
    (admits' : LogEntry → Bool) : ∃ log, ComesTo inv files admits' input { outcome with log } := by
  cases h with
  | misconfigured hload => exact ⟨_, .misconfigured hload⟩
  | listed hload hlist => exact ⟨_, .listed hload hlist⟩
  | unknownFormat hload hlist hformat => exact ⟨_, .unknownFormat hload hlist hformat⟩
  | unreadable ready htext => exact ⟨_, .unreadable ready htext⟩
  | blank ready htext hblank => exact ⟨_, .blank ready htext hblank⟩
  | refused ready htext hne hp => exact ⟨_, .refused ready htext hne hp⟩
  | previewed ready htext hne hp hpreview => exact ⟨_, .previewed ready htext hne hp hpreview⟩
  | written ready htext hne hp hpreview hf hw =>
    exact ⟨_, .written ready htext hne hp hpreview hf hw⟩

theorem expand_congr {text' : String} (h : trim text = trim text') (given : Option String)
    (registry : Registry) :
    inv.expand settings registry admits text =
      (inv.naming given).expand settings registry admits text' := by
  rw [Invocation.expand, h]
  rfl

/-- Of the abbreviation and the input, a run depends on the text between white space alone. -/
theorem resume_congr (given : Option String) {input' : ByteArray}
    (h : (inv.text? input).map trim = ((inv.naming given).text? input').map trim)
    (files : Files) (admits : LogEntry → Bool) :
    (inv.start files admits).resume input =
      ((inv.naming given).start files admits).resume input' := by
  have hlayers : (inv.naming given).layers = inv.layers := rfl
  have hhas : (inv.naming given).has .listFormats = inv.has .listFormats := rfl
  cases hload : Settings.load files inv.layers with
  | error e =>
    rw [start_of_error hload, start_of_error (hlayers ▸ hload)]
    rfl
  | ok settings =>
    cases hlist : inv.has .listFormats with
    | true =>
      rw [start_of_listFormats hload hlist,
        start_of_listFormats (hlayers ▸ hload) (hhas.trans hlist)]
      rfl
    | false =>
      cases hformat : (Registry.builtIn settings.options).has settings.format with
      | false =>
        rw [start_of_not_has hload hlist hformat,
          start_of_not_has (hlayers ▸ hload) (hhas.trans hlist) hformat]
        rfl
      | true =>
        have ready : Ready inv files settings := ⟨hload, hlist, hformat⟩
        have ready' : Ready (inv.naming given) files settings := ⟨hload, hlist, hformat⟩
        rw [ready.resume_eq, ready'.resume_eq]
        cases htext : inv.text? input with
        | none =>
          rw [htext] at h
          rw [Option.map_eq_none_iff.1 h.symm]
          rfl
        | some text =>
          rw [htext] at h
          obtain ⟨text', htext', htrim⟩ := Option.map_eq_some_iff.1 h.symm
          rw [htext']
          exact expand_congr htrim.symm given _

/-- Whether a run comes to something without its input. -/
def NeedsNoInput (inv : Invocation) (files : Files) : Prop :=
  (∃ e, Settings.load files inv.layers = .error e) ∨ inv.has .listFormats = true ∨
    (∃ settings, Settings.load files inv.layers = .ok settings ∧
      (Registry.builtIn settings.options).has settings.format = false) ∨
    inv.abbreviation.isSome = true

theorem NeedsNoInput.resume_eq (h : NeedsNoInput inv files) (admits : LogEntry → Bool)
    (input input' : ByteArray) :
    (inv.start files admits).resume input = (inv.start files admits).resume input' := by
  rcases h with ⟨e, hload⟩ | hlist | ⟨settings, hload, hformat⟩ | hgiven
  · rw [start_of_error hload]
    rfl
  · cases hload : Settings.load files inv.layers with
    | error e =>
      rw [start_of_error hload]
      rfl
    | ok settings =>
      rw [start_of_listFormats hload hlist]
      rfl
  · cases hlist : inv.has .listFormats with
    | true =>
      rw [start_of_listFormats hload hlist]
      rfl
    | false =>
      rw [start_of_not_has hload hlist hformat]
      rfl
  · obtain ⟨text, htext⟩ := Option.isSome_iff_exists.1 hgiven
    refine resume_congr inv.abbreviation ?_ files admits
    rw [Invocation.text?, Invocation.text?, inv.naming_abbreviation, htext]
    rfl

theorem fromUTF8?_toUTF8 (text : String) : String.fromUTF8? text.toUTF8 = some text :=
  dif_pos text.isValidUTF8

/-- White space around a text is removed with all else that is there. -/
theorem trim_append {front back : String} (hfront : front.toList.all isWhiteSpace = true)
    (text : String) (hback : back.toList.all isWhiteSpace = true) :
    trim (front ++ text ++ back) = trim text := by
  rw [List.all_eq_true] at hfront hback
  have hback' : ∀ c ∈ back.toList.reverse, isWhiteSpace c = true := fun c hc =>
    hback c (List.mem_reverse.1 hc)
  simp only [trim, String.toList_append, List.append_assoc, List.dropWhile_append_of_pos hfront,
    List.dropWhile_append]
  split
  · rename_i hblank
    rw [List.isEmpty_iff.1 hblank, List.dropWhile_eq_nil_iff.2 hback]
  · rw [List.reverse_append, List.dropWhile_append_of_pos hback']

/-- What a run comes to is decided by the settings, the list of formats, the format, the input and
the abbreviation, in this order. A run that fails prints nothing else. No input changes what comes
without it. An abbreviation among the arguments can be taken from there and be the input, and white
space around it makes no difference. Outcomes that are the same have the same log, so that their
streams of errors are the same but for the times in them; and what the environment lets through to
the log changes nothing else. -/
theorem run_decides (h : Request.ofArguments arguments = .ok (.run inv)) (files : Files)
    (admits : LogEntry → Bool) :
    (∀ input outcome,
      run arguments files input admits = outcome ↔ ComesTo inv files admits input outcome) ∧
    (∀ input, (run arguments files input admits).code = 1 →
      (run arguments files input admits).output = "") ∧
    (NeedsNoInput inv files →
      ∀ input input', run arguments files input admits = run arguments files input' admits) ∧
    (∀ text, inv.abbreviation = some text → ∃ before after,
      arguments = before ++ text :: after ∧
        Request.ofArguments (before ++ after) = .ok (.run (inv.naming none)) ∧
        ∀ arguments', Request.ofArguments arguments' = .ok (.run (inv.naming none)) →
          ∀ input, run arguments files input admits = run arguments' files text.toUTF8 admits) ∧
    (inv.abbreviation = none → ∀ front text back : String,
      front.toList.all isWhiteSpace = true → back.toList.all isWhiteSpace = true →
        run arguments files (front ++ text ++ back).toUTF8 admits =
          run arguments files text.toUTF8 admits) ∧
    (∀ input admits', ∃ log,
      run arguments files input admits' = { run arguments files input admits with log }) := by
  refine ⟨fun input outcome => run_eq_iff h, fun input hcode => ?_, fun hno input input' => ?_,
    fun text htext => ?_, fun hnone front text back hfront hback => ?_, fun input admits' => ?_⟩
  · rcases ((run_eq_iff h).1 rfl).code_eq with ⟨hzero, -⟩ | ⟨-, houtput⟩
    · cases hzero.symm.trans hcode
    · exact houtput
  · rw [run_eq h, run_eq h, hno.resume_eq]
  · obtain ⟨before, after, hsplit, hread⟩ := Invocation.exists_split rfl h htext
    refine ⟨before, after, hsplit, hread, fun arguments' h' input => ?_⟩
    rw [run_eq h, run_eq h']
    refine resume_congr none (congrArg (Option.map trim) ?_) files admits
    rw [Invocation.text?, Invocation.text?, htext, fromUTF8?_toUTF8]
    rfl
  · rw [run_eq h, run_eq h]
    refine resume_congr inv.abbreviation ?_ files admits
    rw [Invocation.text?, inv.naming_abbreviation, Invocation.text?, hnone]
    dsimp only [Option.or]
    rw [fromUTF8?_toUTF8, fromUTF8?_toUTF8, Option.map_some, Option.map_some,
      trim_append hfront text hback]
  · obtain ⟨log, comesTo⟩ := ((run_eq_iff h).1 rfl).exists_log admits'
    exact ⟨log, (run_eq_iff h).2 comesTo⟩

/-- An operator without an operand, as an argument between others and as input with white space. The
log is asked for, and has no traces. -/
theorem run_decides_of_dangling_child :
    let files : Files := { entries := [("/etc/emmet.toml", "[cli]\nformat = \"json\"\n")] }
    let arguments := ["-vs", " (a> ", "-c/etc/emmet.toml"]
    let unnamed := ["-vs", "-c/etc/emmet.toml"]
    (run arguments files .empty (fun _ => true)).code = 1 ∧
      (run arguments files .empty (fun _ => true)).output = "" ∧
      (run arguments files .empty (fun _ => true)).log = [.enabled,
        .loaded { numbering := .stacked, format := "json" }, .reading (.parsing "(a>")] ∧
      (∀ input input', run arguments files input (fun _ => true) =
        run arguments files input' (fun _ => true)) ∧
      (∀ input, run arguments files input (fun _ => true) =
        run unnamed files " (a> ".toUTF8 (fun _ => true)) ∧
      run unnamed files (" " ++ "(a>" ++ " ").toUTF8 (fun _ => true) =
        run unnamed files "(a>".toUTF8 (fun _ => true) := by
  intro files arguments unnamed
  have hnamed : Request.ofArguments arguments = .ok (.run {
      abbreviation := some " (a> "
      flags := [.verbose, .stacked]
      config := some "/etc/emmet.toml" }) := by
    decide +kernel
  have hunnamed : Request.ofArguments unnamed =
      .ok (.run { flags := [.verbose, .stacked], config := some "/etc/emmet.toml" }) := by
    decide +kernel
  have hcode : (run arguments files .empty (fun _ => true)).code = 1 := by decide +kernel
  have decides := run_decides hnamed files fun _ => true
  obtain ⟨-, -, -, -, same⟩ := decides.2.2.2.1 " (a> " rfl
  exact ⟨hcode, decides.2.1 .empty hcode, by decide +kernel,
    decides.2.2.1 (.inr (.inr (.inr rfl))), same _ hunnamed,
    (run_decides hunnamed files _).2.2.2.2.1 rfl " " "(a>" " "
      (by decide +kernel) (by decide +kernel)⟩

end MarkupShorthand
