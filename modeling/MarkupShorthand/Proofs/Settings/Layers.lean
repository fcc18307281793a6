import Mathlib.Data.List.Basic
import Mathlib.Logic.Function.Basic
import MarkupShorthand.Settings.Load

/-!
# Layers of settings

What layers come to, told without merging: each setting has the last value that was set singly for
it, or else the last one in a file, or else its default (`Settings.decided`). Every layer comes down
to values of keys (`Layer.inFile`, `Layer.onTop`), and a table of settings holds one value for each
key (`Settings.Holds`). Laying something over a table changes the values that it gives and keeps all
others: so it is for a table within a table (`Holds.put`), for a file (`Holds.putFile`) and along
all layers (`exists_putFiles`, `exists_putValues`).
-/

namespace MarkupShorthand

open Text

/-! ## Lookups -/

namespace Setting
variable {entries : List (String × Setting)} {key : String}

theorem lookup_append (front back : List (String × Setting)) (key : String) :
    lookup (front ++ back) key = (lookup front key).or (lookup back key) := by
  rw [lookup, List.find?_append]
  cases h : front.find? (·.1 == key) <;> simp [lookup, h]

theorem lookup_eq_none : lookup entries key = none ↔ entries.any (·.1 == key) = false := by
  simp [lookup]

/-- How keys are changed leaves the keys. -/
theorem lookup_map (entries : List (String × Setting)) (key key' : String)
    (f : Option Setting → Setting) :
    lookup (entries.map fun entry => if entry.1 == key then (key, f (some entry.2)) else entry)
        key' =
      (lookup entries key').map fun value => if key' = key then f (some value) else value := by
  induction entries with
  | nil => rfl
  | cons entry rest ih =>
    by_cases he : entry.1 = key
    · by_cases hk : key = key'
      · simp [lookup, he, hk]
      · have hk' : ¬ entry.1 = key' := fun e => hk (he.symm.trans e)
        simpa [lookup, he, hk] using ih
    · by_cases hk : entry.1 = key'
      · simp [lookup, hk, hk ▸ he]
      · simpa [lookup, he, hk] using ih

/-- Changing the value of a key changes no other. -/
theorem lookup_alter (entries : List (String × Setting)) (key key' : String)
    (f : Option Setting → Setting) :
    lookup (alter entries key f) key' =
      if key' = key then some (f (lookup entries key)) else lookup entries key' := by
  unfold alter
  split
  · rename_i h
    rw [lookup_map]
    split
    · rename_i e
      obtain ⟨value, hv⟩ := Option.ne_none_iff_exists'.1 (mt lookup_eq_none.1 (by rw [h]; nofun))
      rw [e, hv]
      rfl
    · exact Option.map_id' ..
  · rename_i h
    have hnone := lookup_eq_none.2 (Bool.eq_false_iff.2 h)
    rw [lookup_append]
    split
    · rename_i e
      rw [e, hnone]
      simp [lookup]
    · rename_i e
      simp [lookup, Ne.symm e]

/-- Laying a value over a key changes that key alone; what is no table is the new value. -/
theorem exists_put_eq (base : Setting) (key : String) (value : Setting) :
    ∃ f, base.put key value = .table (alter base.entries (lower key) f) ∧
      ((∀ entries, value ≠ .table entries) → ∀ existing, f existing = value) := by
  cases value with
  | table entries =>
    exact ⟨_, by rw [put], fun h => absurd rfl (h entries)⟩
  | _ => exact ⟨fun _ => _, by rw [put]; nofun, fun _ _ => rfl⟩

end Setting

namespace Settings

/-! ## Keys -/

/-- What the settings consist of. -/
inductive Key where
  | indent
  | numbering
  | jumps
  | format
deriving DecidableEq

namespace Key

/-- All keys. -/
def all : List Key :=
  [indent, numbering, jumps, format]

theorem mem_all (key : Key) : key ∈ all := by
  cases key <;> decide

/-- The table that a key stands in. -/
def table : Key → String
  | format => "cli"
  | _ => "render"

/-- The name of a key in its table. -/
def name : Key → String
  | indent => "indent_string"
  | numbering => "numbering"
  | jumps => "jumps"
  | format => "format"

/-- A key as it is written where it is set singly. -/
def path (key : Key) : String :=
  key.table ++ "." ++ key.name

/-- The key that a path is. -/
def ofPath? (path : String) : Option Key :=
  all.find? (·.path == path)

/-- The key that a name in a table stands for, in any case. -/
def find? (table name : String) : Option Key :=
  all.find? fun key => key.table == lower table && key.name == lower name

/-- A value for a key, in the type of the key. -/
def read? : Key → Setting → Option Setting
  | indent, value => value.toText?.map .text
  | numbering, value => (value.toWord? [Numbering.flat.name, Numbering.stacked.name]).map .text
  | jumps, value => value.toBool?.map .boolean
  | format, value => value.toText?.map .text

/-- Whether a value is one for a key: it has the right type, and is no table. -/
def accepts (key : Key) : Setting → Bool
  | .table _ => false
  | value => (key.read? value).isSome

end Key

/-- The value of a key. -/
def get (s : Settings) : Key → Setting
  | .indent => .text s.indent
  | .numbering => .text s.numbering.name
  | .jumps => .boolean s.jumps
  | .format => .text s.format

/-! ## What layers say -/

/-- What an entry of a table says of a key. -/
def givenBy (table : String) (entry : String × Setting) : Option (Key × Setting) :=
  (Key.find? table entry.1).map (·, entry.2)

/-- What the entries of a file say of keys, in order. -/
def given (entries : List (String × Setting)) : List (Key × Setting) :=
  entries.flatMap fun (table, value) => value.entries.filterMap (givenBy table)

/-- Whether an entry of a file says nothing unfit of a key. Its name is no path to elsewhere. -/
def fitsEntry (entry : String × Setting) : Bool :=
  (match KeyPath.ofText? entry.1 with
    | none => true
    | some (.name name) => name == entry.1
    | _ => false) &&
  match entry.2 with
  | .table inner => (inner.filterMap (givenBy entry.1)).all fun (key, value) => key.accepts value
  | _ => Key.all.all (·.table != lower entry.1)

/-- The entries of a settings file, if it is there and is well formed. -/
def entries? (files : Files) (path : String) : Option (List (String × Setting)) :=
  match files.settings? path with
  | none => none
  | some text =>
    match (Toml.document? text).bind Setting.ofTable? with
    | some (.table entries) => some entries
    | _ => none

namespace Layer

/-- Whether a layer is a well-formed file with fit values, a file that need not be there and is not,
or a fit value of a key. -/
def fits (files : Files) : Layer → Bool
  | .file path isRequired =>
    match entries? files path with
    | some entries => entries.all fitsEntry
    | none => !isRequired && (files.settings? path).isNone
  | .value path setting => (Key.ofPath? path).any (·.accepts setting)

/-- What a layer says of keys if it is a file. -/
def inFile (files : Files) : Layer → List (Key × Setting)
  | .file path _ => given ((entries? files path).getD [])
  | .value _ _ => []

/-- What a layer says of keys if it is no file. -/
def onTop : Layer → List (Key × Setting)
  | .file _ _ => []
  | .value path setting => (Key.ofPath? path).toList.map (·, setting)

/-- Whether a layer has a value for a key. -/
def mentions (files : Files) (layer : Layer) (key : Key) : Bool :=
  (layer.inFile files ++ layer.onTop).any (·.1 == key)

end Layer

/-- The last value for a key. -/
def last? (key : Key) (given : List (Key × Setting)) : Option Setting :=
  (given.filter (·.1 == key)).getLast?.map (·.2)

/-- The value for a key that is the last one set singly, or else the last one in a file, or else the
default. -/
def decided (files : Files) (layers : List Layer) (key : Key) : Setting :=
  match last? key (layers.flatMap Layer.onTop) with
  | some value => value
  | none => (last? key (layers.flatMap (Layer.inFile files))).getD (({} : Settings).get key)

/-! ## Values of keys -/

variable {value : Key → Setting} {assigned : List (Key × Setting)} {key : Key}

theorem Key.find?_eq_some {table name : String} :
    Key.find? table name = some key ↔ key.table = lower table ∧ key.name = lower name := by
  constructor
  · intro h
    simpa using List.find?_some h
  · rintro ⟨ht, hn⟩
    rw [find?, ← ht, ← hn]
    cases key <;> rfl

theorem Key.ne_table_of_accepts {setting : Setting} (h : key.accepts setting = true)
    (entries : List (String × Setting)) : setting ≠ .table entries := by
  rintro rfl
  cases h

theorem Key.isSome_read? {setting : Setting} (h : key.accepts setting = true) :
    (key.read? setting).isSome = true := by
  cases setting with
  | table => cases h
  | _ => exact h

/-- Values for keys with others put in their places, in order. -/
def assign (value : Key → Setting) (assigned : List (Key × Setting)) : Key → Setting :=
  assigned.foldl (fun value new => Function.update value new.1 new.2) value

theorem assign_append (value : Key → Setting) (first second : List (Key × Setting)) :
    assign value (first ++ second) = assign (assign value first) second :=
  List.foldl_append

/-- It is the last one that counts. -/
theorem assign_eq (value : Key → Setting) (assigned : List (Key × Setting)) (key : Key) :
    assign value assigned key = (last? key assigned).getD (value key) := by
  induction assigned generalizing value with
  | nil => rfl
  | cons new rest ih =>
    have hcons : assign value (new :: rest) = assign (Function.update value new.1 new.2) rest := rfl
    rw [hcons, ih, last?, last?, List.filter_cons]
    split
    · rename_i h
      rw [beq_iff_eq] at h
      rw [List.getLast?_cons, ← h, Function.update_self]
      cases (rest.filter (·.1 == new.1)).getLast? <;> rfl
    · rename_i h
      rw [Function.update_of_ne fun e => h (beq_iff_eq.2 e.symm)]

/-- What is of other keys does not count. -/
theorem last?_append_of_ne (before : List (Key × Setting)) (h : ∀ new ∈ assigned, new.1 ≠ key)
    (after : List (Key × Setting)) :
    last? key (before ++ (assigned ++ after)) = last? key (before ++ after) := by
  have hfilter : assigned.filter (·.1 == key) = [] :=
    List.filter_eq_nil_iff.2 fun new hm e => h new hm (beq_iff_eq.1 e)
  simp only [last?, List.filter_append, hfilter, List.nil_append]

theorem assign_of_ne (value : Key → Setting) (h : ∀ new ∈ assigned, new.1 ≠ key) :
    assign value assigned key = value key := by
  have hlast := last?_append_of_ne [] h []
  rw [List.nil_append, List.append_nil] at hlast
  rw [assign_eq, hlast]
  rfl

theorem isSome_read?_assign (h : ∀ key : Key, (key.read? (value key)).isSome = true)
    (accepted : ∀ new ∈ assigned, new.1.accepts new.2 = true) (key : Key) :
    (key.read? (assign value assigned key)).isSome = true := by
  induction assigned generalizing value with
  | nil => exact h key
  | cons new rest ih =>
    obtain ⟨hnew, hrest⟩ := List.forall_mem_cons.1 accepted
    have hupdate (key : Key) :
        (key.read? (Function.update value new.1 new.2 key)).isSome = true := by
      by_cases e : key = new.1
      · rw [e, Function.update_self]
        exact Key.isSome_read? hnew
      · rw [Function.update_of_ne e]
        exact h key
    exact ih hupdate hrest

/-! ## Tables that hold a value for each key -/

/-- Whether the entries of a table hold values for the keys in it. -/
def HoldsIn (table : String) (value : Key → Setting) (entries : List (String × Setting)) : Prop :=
  ∀ key : Key, key.table = table → Setting.lookup entries key.name = some (value key)

/-- Whether a setting has both tables, with values for all keys and of their types. -/
structure Holds (value : Key → Setting) (root : Setting) : Prop where
  exists_table : ∃ entries, root = .table entries ∧ ∀ place : Key, ∃ inner,
    Setting.lookup entries place.table = some (.table inner) ∧ HoldsIn place.table value inner
  isSome_read? : ∀ key : Key, (key.read? (value key)).isSome = true

theorem holds_defaults : Holds ({} : Settings).get defaults where
  exists_table := by
    refine ⟨_, rfl, fun place => ?_⟩
    cases place with
    | format =>
      refine ⟨_, rfl, fun key hk => ?_⟩
      cases key with
      | format => rfl
      | _ => simp [Key.table] at hk
    | _ =>
      refine ⟨_, rfl, fun key hk => ?_⟩
      cases key with
      | format => simp [Key.table] at hk
      | _ => rfl
  isSome_read? key := by cases key <;> rfl

variable {root : Setting} {table : String} {entries : List (String × Setting)}

/-- Changes within a table change the values of its keys. -/
theorem Holds.alter (h : Holds value root) {f : Option Setting → Setting}
    (accepted : ∀ new ∈ assigned, new.1.table = table ∧ new.1.accepts new.2 = true)
    (hf : ∀ place : Key, place.table = table → ∀ inner, HoldsIn table value inner →
      ∃ inner', f (some (.table inner)) = .table inner' ∧
        HoldsIn table (assign value assigned) inner') :
    Holds (assign value assigned) (.table (Setting.alter root.entries table f)) := by
  obtain ⟨entries, rfl, hplaces⟩ := h.exists_table
  refine ⟨⟨_, rfl, fun place => ?_⟩,
    isSome_read?_assign h.isSome_read? fun new hm => (accepted new hm).2⟩
  obtain ⟨inner, hinner, holds⟩ := hplaces place
  rw [Setting.lookup_alter]
  by_cases ht : place.table = table
  · subst ht
    obtain ⟨inner', hf, holds'⟩ := hf place rfl inner holds
    refine ⟨inner', ?_, holds'⟩
    rw [if_pos rfl, ← hf, ← hinner]
    rfl
  · refine ⟨inner, (if_neg ht).trans hinner, fun key hk => ?_⟩
    rw [assign_of_ne value fun new hm e => ht ?_]
    · exact holds key hk
    · rw [← (accepted new hm).1, e, hk]

/-- A value laid over a name in a table is the value of its key, if it has one. -/
theorem HoldsIn.put (h : HoldsIn (lower table) value entries) {entry : String × Setting}
    (accepted : ∀ new ∈ givenBy table entry, new.1.accepts new.2 = true) :
    ∃ entries', (Setting.table entries).put entry.1 entry.2 = .table entries' ∧
      HoldsIn (lower table) (assign value (givenBy table entry).toList) entries' := by
  obtain ⟨f, hput, hf⟩ := Setting.exists_put_eq (.table entries) entry.1 entry.2
  refine ⟨_, hput, fun key hk => ?_⟩
  rw [Setting.lookup_alter]
  cases hfound : Key.find? table entry.1 with
  | none =>
    have hne : key.name ≠ lower entry.1 := fun e => by
      rw [Key.find?_eq_some.2 ⟨hk, e⟩] at hfound
      cases hfound
    rw [if_neg hne, givenBy, hfound]
    exact h key hk
  | some found =>
    obtain ⟨ht, hn⟩ := Key.find?_eq_some.1 hfound
    have hgiven : givenBy table entry = some (found, entry.2) := by rw [givenBy, hfound]; rfl
    have haccepts := accepted _ hgiven
    rw [hgiven]
    have hassign : assign value (some (found, entry.2)).toList =
        Function.update value found entry.2 := rfl
    rw [hassign]
    by_cases e : key = found
    · rw [e, if_pos hn, hf (Key.ne_table_of_accepts haccepts), Function.update_self]
    · have hne : key.name ≠ lower entry.1 := fun e' => e <| Option.some.inj <| by
        rw [← hfound, Key.find?_eq_some.2 ⟨hk, e'⟩]
      rw [if_neg hne, Function.update_of_ne e]
      exact h key hk

theorem HoldsIn.putAll {incoming : List (String × Setting)}
    (h : HoldsIn (lower table) value entries)
    (accepted : ∀ new ∈ incoming.filterMap (givenBy table), new.1.accepts new.2 = true) :
    ∃ entries', (Setting.table entries).putAll incoming = .table entries' ∧
      HoldsIn (lower table) (assign value (incoming.filterMap (givenBy table))) entries' := by
  induction incoming generalizing value entries with
  | nil => exact ⟨entries, by rw [Setting.putAll], h⟩
  | cons entry rest ih =>
    have hcons : (entry :: rest).filterMap (givenBy table) =
        (givenBy table entry).toList ++ rest.filterMap (givenBy table) := by
      rw [List.filterMap_cons]
      cases givenBy table entry <;> rfl
    rw [hcons] at accepted ⊢
    obtain ⟨hentry, hrest⟩ := List.forall_mem_append.1 accepted
    obtain ⟨entries', hput, h'⟩ := h.put fun new hm => hentry new (Option.mem_toList.2 hm)
    obtain ⟨entries'', hputAll, h''⟩ := ih h' hrest
    refine ⟨entries'', ?_, assign_append .. ▸ h''⟩
    rw [Setting.putAll, hput, hputAll]

theorem table_of_mem_givenBy {new : Key × Setting}
    (h : new ∈ entries.filterMap (givenBy table)) : new.1.table = lower table := by
  obtain ⟨entry, -, he⟩ := List.mem_filterMap.1 h
  obtain ⟨key, hfound, rfl⟩ := Option.map_eq_some_iff.1 he
  exact (Key.find?_eq_some.1 hfound).1

/-- An entry of a file that fits changes the values that it gives. -/
theorem Holds.put (h : Holds value root) {entry : String × Setting}
    (fits : fitsEntry entry = true) :
    Holds (assign value (given [entry])) (root.put entry.1 entry.2) := by
  obtain ⟨name, setting⟩ := entry
  have hgiven : given [(name, setting)] = setting.entries.filterMap (givenBy name) :=
    List.append_nil _
  rw [hgiven]
  have fits := (Bool.and_eq_true _ _ ▸ fits).2
  cases setting with
  | table inner =>
    have accepted := List.all_eq_true.1 fits
    rw [Setting.put]
    refine h.alter (fun new hm => ⟨table_of_mem_givenBy hm, accepted new hm⟩) ?_
    exact fun place _ entries holds => holds.putAll accepted
  | _ =>
    -- In the place of a table it would take the keys away; one that fits stands elsewhere.
    obtain ⟨f, hput, -⟩ := Setting.exists_put_eq root name _
    rw [hput]
    refine h.alter nofun fun place ht => ?_
    have hne := List.all_eq_true.1 fits place place.mem_all
    exact absurd ht (bne_iff_ne.1 hne)

theorem Holds.putFile (h : Holds value root) (fits : entries.all fitsEntry = true) :
    Holds (assign value (given entries)) (root.putFile entries) := by
  induction entries generalizing value root with
  | nil => exact h
  | cons entry rest ih =>
    obtain ⟨hentry, hrest⟩ := Bool.and_eq_true _ _ ▸ fits
    have hpath : (KeyPath.ofText? entry.1).getD (.name entry.1) = .name entry.1 := by
      have hname := (Bool.and_eq_true _ _ ▸ hentry).1
      split at hname
      · rename_i e
        rw [e]
        rfl
      · rename_i e
        rw [e, ← beq_iff_eq.1 hname]
        rfl
      · cases hname
    have hgiven : given (entry :: rest) = given [entry] ++ given rest := by simp [given]
    have hcons : root.putFile (entry :: rest) = (root.put entry.1 entry.2).putFile rest := by
      rw [Setting.putFile, List.foldl_cons]
      dsimp only
      rw [hpath]
      rfl
    rw [hgiven, assign_append, hcons]
    exact ih (h.put hentry) hrest

theorem Key.path_of_ofPath? {path : String} (h : Key.ofPath? path = some key) :
    key.path = path := by
  simpa using List.find?_some h

theorem Key.ofText?_path (key : Key) :
    KeyPath.ofText? key.path = some (.child (.name key.table) key.name) := by
  cases key <;> rfl

/-- A value that is set singly is the value of its key. -/
theorem Holds.putValue (h : Holds value root) {setting : Setting}
    (accepts : key.accepts setting = true) :
    Holds (assign value [(key, setting)])
      ((KeyPath.child (.name key.table) key.name).put setting root) := by
  have htable : lower key.table = key.table := by cases key <;> rfl
  have hname : lower key.name = key.name := by cases key <;> rfl
  have hgiven : givenBy key.table (key.name, setting) = some (key, setting) := by
    rw [givenBy, Key.find?_eq_some.2 ⟨htable.symm, hname.symm⟩]
    rfl
  refine h.alter (List.forall_mem_singleton.2 ⟨htable.symm, accepts⟩) fun place _ inner holds => ?_
  obtain ⟨inner', hput, holds'⟩ := holds.put fun new hm => by
    rw [hgiven] at hm
    exact Option.some.inj hm ▸ accepts
  rw [hgiven] at holds'
  exact ⟨inner', hput, holds'⟩

/-! ## All layers -/

variable {files : Files} {layers before after : List Layer}

theorem putFile_of_entries? {path : String} (h : entries? files path = some entries)
    (root : Setting) (isRequired : Bool) :
    putFile files root path isRequired = .ok (root.putFile entries) := by
  unfold entries? at h
  unfold putFile
  cases htext : files.settings? path with
  | none => rw [htext] at h; cases h
  | some text =>
    rw [htext] at h
    dsimp only at h ⊢
    cases hdocument : (Toml.document? text).bind Setting.ofTable? with
    | none => rw [hdocument] at h; cases h
    | some document =>
      rw [hdocument] at h
      cases document with
      | table found =>
        exact congrArg (fun found => Except.ok (root.putFile found)) (Option.some.inj h)
      | _ => cases h

/-- Files that are there and fit change the values that they give; absent ones change nothing. -/
theorem exists_putFiles (h : Holds value root)
    (fits : ∀ layer ∈ layers, layer.fits files = true) :
    ∃ root', putFiles files root layers = .ok root' ∧
      Holds (assign value (layers.flatMap (Layer.inFile files))) root' := by
  induction layers generalizing value root with
  | nil => exact ⟨root, rfl, h⟩
  | cons layer rest ih =>
    obtain ⟨hlayer, hrest⟩ := List.forall_mem_cons.1 fits
    rw [List.flatMap_cons, assign_append]
    cases layer with
    | value path setting =>
      obtain ⟨root', hput, h'⟩ := ih h hrest
      exact ⟨root', hput, h'⟩
    | file path isRequired =>
      rw [putFiles]
      obtain ⟨root', hput, h'⟩ : ∃ root', putFile files root path isRequired = .ok root' ∧
          Holds (assign value ((Layer.file path isRequired).inFile files)) root' := by
        unfold Layer.fits at hlayer
        dsimp only at hlayer
        rw [Layer.inFile]
        cases hentries : entries? files path with
        | some entries =>
          rw [hentries] at hlayer
          exact ⟨root.putFile entries, putFile_of_entries? hentries .., h.putFile hlayer⟩
        | none =>
          rw [hentries] at hlayer
          obtain ⟨hrequired, habsent⟩ := Bool.and_eq_true _ _ ▸ hlayer
          refine ⟨root, ?_, h⟩
          unfold putFile
          rw [Option.isNone_iff_eq_none.1 habsent, Bool.not_eq_eq_eq_not.1 hrequired]
          rfl
      rw [hput]
      exact ih h' hrest

/-- So do values that are set singly. -/
theorem exists_putValues (h : Holds value root)
    (fits : ∀ layer ∈ layers, layer.fits files = true) :
    ∃ root', putValues root layers = .ok root' ∧
      Holds (assign value (layers.flatMap Layer.onTop)) root' := by
  induction layers generalizing value root with
  | nil => exact ⟨root, rfl, h⟩
  | cons layer rest ih =>
    obtain ⟨hlayer, hrest⟩ := List.forall_mem_cons.1 fits
    rw [List.flatMap_cons, assign_append]
    cases layer with
    | file path isRequired =>
      obtain ⟨root', hput, h'⟩ := ih h hrest
      exact ⟨root', hput, h'⟩
    | value path setting =>
      unfold Layer.fits at hlayer
      dsimp only at hlayer
      rw [Layer.onTop]
      cases hkey : Key.ofPath? path with
      | none => rw [hkey] at hlayer; cases hlayer
      | some key =>
        rw [hkey] at hlayer
        have hpath : key.path = path := Key.path_of_ofPath? hkey
        rw [putValues, ← hpath, key.ofText?_path]
        exact ih (h.putValue hlayer) hrest

theorem exists_name_of_toWord? {setting : Setting} {word : String}
    (h : setting.toWord? [Numbering.flat.name, Numbering.stacked.name] = some word) :
    ∃ numbering : Numbering, word = numbering.name := by
  have hm : word ∈ [Numbering.flat.name, Numbering.stacked.name] := by
    unfold Setting.toWord? at h
    split at h
    · exact List.mem_of_find?_eq_some h
    · exact List.mem_of_find?_eq_some h
    · cases h
  rcases List.mem_cons.1 hm with rfl | hm
  · exact ⟨.flat, rfl⟩
  · exact ⟨.stacked, List.mem_singleton.1 hm⟩

/-- Values of the right types are those of some settings. -/
theorem exists_settings (h : ∀ key : Key, (key.read? (value key)).isSome = true) :
    ∃ s : Settings, (value .indent).toText? = some s.indent ∧
      (value .numbering).toWord? [Numbering.flat.name, Numbering.stacked.name] =
        some s.numbering.name ∧
      (value .jumps).toBool? = some s.jumps ∧ (value .format).toText? = some s.format := by
  have hindent := h .indent
  have hnumbering := h .numbering
  have hjumps := h .jumps
  have hformat := h .format
  simp only [Key.read?, Option.isSome_map] at hindent hnumbering hjumps hformat
  obtain ⟨indent, hindent⟩ := Option.isSome_iff_exists.1 hindent
  obtain ⟨word, hnumbering⟩ := Option.isSome_iff_exists.1 hnumbering
  obtain ⟨numbering, rfl⟩ := exists_name_of_toWord? hnumbering
  obtain ⟨jumps, hjumps⟩ := Option.isSome_iff_exists.1 hjumps
  obtain ⟨format, hformat⟩ := Option.isSome_iff_exists.1 hformat
  exact ⟨⟨indent, numbering, jumps, format⟩, hindent, hnumbering, hjumps, hformat⟩

/-- A table that holds values of the right types makes settings of them. -/
theorem Holds.exists_ofSetting? (h : Holds value root) :
    ∃ s, ofSetting? root = some s ∧ ∀ key : Key, key.read? (value key) = some (s.get key) := by
  obtain ⟨⟨entries, rfl, hplaces⟩, hread⟩ := h
  obtain ⟨s, hindent, hnumbering, hjumps, hformat⟩ := exists_settings hread
  obtain ⟨render, hrender, inRender⟩ := hplaces .indent
  obtain ⟨cli, hcli, inCli⟩ := hplaces .format
  have hname : Numbering.ofName? s.numbering.name = some s.numbering := by
    cases s.numbering <;> rfl
  have hroot : (Setting.table entries).toRecord? ["render", "cli"] =
      some [.table render, .table cli] := by
    simp only [Key.table] at hrender hcli
    simp [Setting.toRecord?, hrender, hcli]
  have hrecord : (Setting.table render).toRecord? ["indent_string", "numbering", "jumps"] =
      some [value .indent, value .numbering, value .jumps] := by
    have first := inRender .indent rfl
    have second := inRender .numbering rfl
    have third := inRender .jumps rfl
    simp only [Key.name] at first second third
    simp [Setting.toRecord?, first, second, third]
  have hcliRecord : (Setting.table cli).toRecord? ["format"] = some [value .format] := by
    have only := inCli .format rfl
    simp only [Key.name] at only
    simp [Setting.toRecord?, only]
  refine ⟨s, ?_, fun key => ?_⟩
  · simp only [ofSetting?, hroot, hrecord, hcliRecord, hindent, hnumbering, hname, hjumps, hformat,
      Option.bind_eq_bind, Option.bind_some, Option.pure_def]
  · cases key with
    | indent => rw [Key.read?, hindent]; rfl
    | numbering => rw [Key.read?, hnumbering]; rfl
    | jumps => rw [Key.read?, hjumps]; rfl
    | format => rw [Key.read?, hformat]; rfl

theorem putFiles_append (files : Files) (root : Setting) (before after : List Layer) :
    putFiles files root (before ++ after) =
      putFiles files root before >>= fun root => putFiles files root after := by
  induction before generalizing root with
  | nil => rfl
  | cons layer rest ih =>
    cases layer with
    | value path setting => exact ih root
    | file path isRequired =>
      rw [List.cons_append, putFiles, putFiles, bind_assoc]
      exact congrArg _ (funext fun root => ih root)

theorem putValues_append (root : Setting) (before after : List Layer) :
    putValues root (before ++ after) =
      putValues root before >>= fun root => putValues root after := by
  induction before generalizing root with
  | nil => rfl
  | cons layer rest ih =>
    cases layer with
    | file path isRequired => exact ih root
    | value path setting =>
      rw [List.cons_append, putValues, putValues]
      cases KeyPath.ofText? path with
      | none => rfl
      | some path => exact ih _

/-- Only the order of files and the order of single values count. -/
theorem load_swap (files : Files) (before after : List Layer) (path key : String)
    (isRequired : Bool) (setting : Setting) :
    load files (before ++ .value key setting :: .file path isRequired :: after) =
      load files (before ++ .file path isRequired :: .value key setting :: after) := by
  simp only [load, putFiles_append, putValues_append]
  rfl

theorem exists_load (fits : ∀ layer ∈ layers, layer.fits files = true) :
    ∃ s, load files layers = .ok s ∧
      ∀ key : Key, key.read? (decided files layers key) = some (s.get key) := by
  obtain ⟨withFiles, hfiles, h⟩ := exists_putFiles holds_defaults fits
  obtain ⟨root, hvalues, h⟩ := exists_putValues h fits
  obtain ⟨s, hs, hread⟩ := h.exists_ofSetting?
  refine ⟨s, ?_, fun key => ?_⟩
  · simp only [load, hfiles, hvalues, bind, Except.bind, hs]
  · rw [← hread key, assign_eq, assign_eq, decided]
    cases last? key (layers.flatMap Layer.onTop) <;> rfl

/-- A file that must be there is missed whatever else there is. -/
theorem load_of_missing {path : String} (hm : .file path true ∈ layers)
    (habsent : files.settings? path = none) : ∃ failure, load files layers = .error failure := by
  obtain ⟨before, after, rfl⟩ := List.append_of_mem hm
  have hfile (root : Setting) : putFile files root path true = .error (.missingFile path) := by
    unfold putFile
    rw [habsent]
    rfl
  have hfiles : ∃ failure,
      putFiles files defaults (before ++ .file path true :: after) = .error failure := by
    rw [putFiles_append]
    cases putFiles files defaults before with
    | error failure => exact ⟨failure, rfl⟩
    | ok root =>
      refine ⟨.missingFile path, ?_⟩
      simp only [bind, Except.bind, putFiles, hfile]
  obtain ⟨failure, hfiles⟩ := hfiles
  refine ⟨failure, ?_⟩
  rw [load, hfiles]
  rfl

theorem decided_of_not_mentions {layer : Layer} (h : layer.mentions files key = false) :
    decided files (before ++ layer :: after) key = decided files (before ++ after) key := by
  have hne : ∀ new ∈ layer.inFile files ++ layer.onTop, new.1 ≠ key := fun new hm e =>
    List.any_eq_false.1 h new hm (beq_iff_eq.2 e)
  obtain ⟨hfile, htop⟩ := List.forall_mem_append.1 hne
  simp only [decided, List.flatMap_append, List.flatMap_cons, last?_append_of_ne _ hfile,
    last?_append_of_ne _ htop]

/-- Layers that fit come to settings: every one has the last value that was set singly, or else the
last one in a file, or else the default. It makes no difference whether a single value comes before
or after a file, and what a layer does not mention stays as it is. Layers with a file that must be
there and is not, neither by its name nor with `.toml` behind it, come to nothing. -/
theorem load_layers (files : Files) :
    (∀ layers : List Layer, (∀ layer ∈ layers, layer.fits files = true) →
      ∃ s, load files layers = .ok s ∧
        ∀ key : Key, key.read? (decided files layers key) = some (s.get key)) ∧
    (∀ (before after : List Layer) (key path : String) (setting : Setting) (isRequired : Bool),
      load files (before ++ .value key setting :: .file path isRequired :: after) =
        load files (before ++ .file path isRequired :: .value key setting :: after)) ∧
    (∀ (before after : List Layer) (layer : Layer) (key : Key),
      (∀ other ∈ before ++ layer :: after, other.fits files = true) →
        layer.mentions files key = false →
          ∃ s s', load files (before ++ layer :: after) = .ok s ∧
            load files (before ++ after) = .ok s' ∧ s.get key = s'.get key) ∧
    (∀ (layers : List Layer) (path : String), .file path true ∈ layers →
      files.read? path = none →
        (FilePath.toml? (files.absolute path)).bind files.read? = none →
          ∃ failure, load files layers = .error failure) := by
  refine ⟨fun layers => exists_load, ?_, ?_, ?_⟩
  · exact fun before after key path setting isRequired =>
      load_swap files before after path key isRequired setting
  · intro before after layer key fits hmentions
    obtain ⟨s, hs, hread⟩ := exists_load fits
    have fits' : ∀ other ∈ before ++ after, other.fits files = true := fun other hm =>
      fits other (((List.sublist_cons_self layer after).append_left before).mem hm)
    obtain ⟨s', hs', hread'⟩ := exists_load fits'
    refine ⟨s, s', hs, hs', Option.some.inj ?_⟩
    rw [← hread key, ← hread' key, decided_of_not_mentions hmentions]
  · intro layers path hm habsent hextended
    refine load_of_missing hm ?_
    rw [Files.settings?, habsent, hextended]
    exact ite_self none

/-- Files in the working directory and elsewhere, found by paths from there, up from there and from
the root, with a value that changes nothing that the files mention; and a path through a directory
that does not exist. -/
theorem load_layers_of_three_files :
    let files : Files := {
      entries := [
        ("a.toml", "[render]\nindent_string = \"  \"\njumps = true\n"),
        (".emmet.toml", "[render]\njumps = false\n[cli]\nformat = \"json\"\n"),
        ("/etc/b.toml", "[render]\nindent_string = \"    \"\n")]
      workingDirectory := "/home/work" }
    let numbering : Layer := .value "render.numbering" (.text "stacked")
    let inProject : Layer := .file ".emmet.toml" false
    let named : Layer := .file "../../etc/../home/work/a.toml" true
    let system : Layer := .file "/etc/b" true
    let absent : Layer := .file "missing/../a.toml" false
    (∃ s, load files [numbering, inProject, absent, system, named] = .ok s ∧
      ∀ key : Key, key.read? (decided files [numbering, inProject, absent, system, named] key) =
        some (s.get key)) ∧
    (decided files [system, named] .indent).toText? = some "  " ∧
    (decided files [named, system] .indent).toText? = some "    " ∧
    (∃ s s', load files [inProject, numbering, named] = .ok s ∧
      load files [inProject, named] = .ok s' ∧ s.get .jumps = s'.get .jumps) ∧
    ∃ failure, load files [numbering, .file "missing/../a.toml" true, named] = .error failure := by
  intro files numbering inProject named system absent
  refine ⟨(load_layers files).1 _ ?_, ?_, ?_,
    (load_layers files).2.2.1 [inProject] [named] numbering .jumps ?_ ?_,
    (load_layers files).2.2.2 _ "missing/../a.toml" ?_ ?_ ?_⟩
  · decide +kernel +zetaReduce
  · decide +kernel +zetaReduce
  · decide +kernel +zetaReduce
  · decide +kernel +zetaReduce
  · decide +kernel +zetaReduce
  · exact List.mem_cons_of_mem _ List.mem_cons_self
  · decide +kernel +zetaReduce
  · decide +kernel +zetaReduce

/-- A file is found with `.toml` behind its whole name, not in the place of what the name ends in.
-/
theorem load_with_second_extension :
    let files : Files := { entries := [("a.conf.toml", "[render]\njumps = true\n")] }
    files.read? "a.conf" = none ∧ files.read? "a.toml" = none ∧
      load files [.file "a.conf" true] = .ok { jumps := true } := by
  intro files
  decide +kernel +zetaReduce

end Settings

end MarkupShorthand
