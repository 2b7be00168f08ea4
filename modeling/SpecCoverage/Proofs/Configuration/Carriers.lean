import SpecCoverage.Configuration.Loading
import SpecCoverage.Proofs.Json.Record

/-!
# The carriers of a configuration

A configuration can stand in a file of its own or in a section of the package file.  Both carriers lead to the same
settings, or both to none, for every JSON text that repeats no names (`settings_load_eq`).  The file of its own is
read as a configuration, the section as a part of a larger value, one level deeper and with its repeated names
collapsed; the depth makes no difference because no configuration is nested more than two deep
(`isWithin_of_config`).
-/

namespace SpecCoverage.Configuration

open Json Files

/-! ## How deep a configuration is nested -/

theorem find?_of_areFields {known : List String} {members : List (String × Value)}
    (h : areFields known members = true) {member : String × Value} (hm : member ∈ members) :
    member.1 ∈ known ∧ field? member.1 members = some member.2 := by
  induction members with
  | nil => cases hm
  | cons first rest ih =>
    obtain ⟨name, value⟩ := first
    simp only [areFields, Bool.and_eq_true, List.contains_iff_mem, Bool.not_eq_true'] at h
    obtain ⟨⟨hk, alone⟩, hrest⟩ := h
    rcases List.mem_cons.1 hm with rfl | hm'
    · exact ⟨hk, by simp [field?]⟩
    · obtain ⟨hk', hf⟩ := ih hrest hm'
      have other : name ≠ member.1 := by
        rintro rfl
        simp only [List.any_eq_false, decide_eq_true_eq] at alone
        exact alone member hm' rfl
      exact ⟨hk', by simpa [field?, other] using hf⟩

/-- What a value holds in its fields is all that it holds. -/
private theorem isWithin_of_fieldValues? {names : List String} {least depth : Nat} {v : Value}
    {values : List (Option Value)} (h : fieldValues? names least v = some values)
    (hv : ∀ value, some value ∈ values → value.isWithin depth = true) : v.isWithin (depth + 1) = true := by
  cases v with
  | object members =>
    simp only [fieldValues?] at h
    split at h
    · next fields =>
      cases h
      rw [Value.isWithin, List.all_eq_true]
      intro member hm
      obtain ⟨hk, hf⟩ := find?_of_areFields fields hm
      exact hv member.2 (List.mem_map.2 ⟨member.1, hk, hf⟩)
    · cases h
  | array items =>
    simp only [fieldValues?] at h
    split at h
    · cases h
      rw [Value.isWithin, List.all_eq_true]
      exact fun item hi => hv item (List.mem_append_left _ (List.mem_map.2 ⟨item, hi, rfl⟩))
    · cases h
  | _ => rfl

private theorem isWithin_of_optional? {α : Type} {read : Value → Option α} {depth : Nat} {v : Value} {part : Option α}
    (h : Value.optional? read (some v) = some part)
    (hr : ∀ a, read v = some a → v.isWithin depth = true) : v.isWithin depth = true := by
  unfold Value.optional? at h
  split at h
  · next e => cases e
  · next e => cases e; cases depth <;> rfl
  · next _ e =>
    cases e
    obtain ⟨a, ha, -⟩ := Option.map_eq_some_iff.1 h
    exact hr a ha

private theorem isWithin_of_natural? {v : Value} {n : Nat} (h : v.natural? = some n) (depth : Nat) :
    v.isWithin depth = true := by
  cases v with
  | natural n => exact Value.isWithin_natural n depth
  | _ => cases h

/-- Parts that hold levels only are nested one deep. -/
private theorem isWithin_of_levels {names : List String} {least : Nat} {v : Value} {values : List (Option Value)}
    {levels : List (Option Nat)} (h : fieldValues? names least v = some values)
    (hl : values.mapM (Value.optional? level?) = some levels) : v.isWithin 1 = true := by
  refine isWithin_of_fieldValues? h fun value hv => ?_
  obtain ⟨part, hp⟩ := Value.exists_of_mem_mapM hl hv
  refine isWithin_of_optional? hp fun n hn => isWithin_of_natural? (Option.filter_eq_some_iff.1 hn).1 0

private theorem isWithin_of_weights {v : Value} {w : WeightOverrides} (h : WeightOverrides.ofJson? v = some w) :
    v.isWithin 1 = true := by
  unfold WeightOverrides.ofJson? at h
  simp only [Option.bind_eq_bind, Option.bind_eq_some_iff] at h
  obtain ⟨values, hv, levels, hl, -⟩ := h
  exact isWithin_of_levels hv hl

private theorem isWithin_of_policy {v : Value} {p : PolicyOverrides} (h : PolicyOverrides.ofJson? v = some p) :
    v.isWithin 1 = true := by
  unfold PolicyOverrides.ofJson? at h
  simp only [Option.bind_eq_bind, Option.bind_eq_some_iff] at h
  obtain ⟨values, hv, levels, hl, -⟩ := h
  exact isWithin_of_levels hv hl

private theorem isWithin_of_strings? {v : Value} {found : List String} (h : strings? (some v) = some found) :
    v.isWithin 1 = true := by
  cases v with
  | array items =>
    rw [Value.isWithin, List.all_eq_true]
    intro item hi
    obtain ⟨s, hs⟩ := Value.exists_of_mem_mapM h hi
    cases item with
    | string s => rfl
    | _ => cases hs
  | object members => cases h
  | _ => rfl

private theorem isWithin_of_bool? {v : Value} {b : Bool} (h : v.bool? = some b) (depth : Nat) :
    v.isWithin depth = true := by
  cases v with
  | bool b => exact Value.isWithin_bool b depth
  | _ => cases h

/-- A value that states a configuration is nested two deep. -/
theorem isWithin_of_config {v : Value} {c : Config} (h : Config.ofJson? v = some c) : v.isWithin 2 = true := by
  unfold Config.ofJson? at h
  simp only [Option.bind_eq_bind, Option.bind_eq_some_iff] at h
  obtain ⟨values, hv, h⟩ := h
  refine isWithin_of_fieldValues? hv fun value hm => ?_
  split at h
  · simp only [Option.bind_eq_some_iff] at h
    obtain ⟨_, hi, _, he, _, hd, _, hw, _, hp, _, hb, -⟩ := h
    simp only [List.mem_cons, List.not_mem_nil, or_false] at hm
    rcases hm with rfl | rfl | rfl | rfl | rfl | rfl
    · exact isWithin_of_strings? hi
    · exact isWithin_of_strings? he
    · exact isWithin_of_strings? hd
    · exact isWithin_of_optional? hw fun _ => isWithin_of_weights
    · exact isWithin_of_optional? hp fun _ => isWithin_of_policy
    · exact isWithin_of_optional? hb fun _ hb => isWithin_of_bool? hb 1
  · cases h

/-! ## What a carrier leads to -/

/-- The valid configuration that a value states. -/
def stated? (v : Value) : Option Config := (Config.ofJson? v).filter fun c => c.error?.isNone

/-- A reader that allows some depth refuses nothing that states a configuration. -/
private theorem bind_filter_isWithin (answer : Option Value) {depth : Nat} (h : 2 ≤ depth) :
    (answer.filter (Value.isWithin depth)).bind stated? = answer.bind stated? := by
  cases answer with
  | none => rfl
  | some v =>
    cases hd : v.isWithin depth with
    | true => simp [Option.filter, hd]
    | false =>
      cases hc : Config.ofJson? v with
      | none => simp [Option.filter, hd, stated?, hc]
      | some c =>
        rw [Value.isWithin_mono h (isWithin_of_config hc)] at hd
        cases hd

private theorem isSome_find?_of_text? {tree : FileTree} {path text : String} (h : tree.text? path = some text) :
    (tree.find? path).isSome = true := by
  obtain ⟨bytes, hb, -⟩ := Option.bind_eq_some_iff.1 h
  unfold FileTree.bytes? at hb
  split at hb
  · next e => rw [e]; rfl
  · cases hb

private theorem toOption_checked (c : Config) (failure : ConfigError → LoadError) :
    (checked c failure).toOption = (some c).filter fun c => c.error?.isNone := by
  cases h : c.error? <;> simp [checked, h, Except.toOption, Option.filter]

private theorem toOption_loadFile {tree : FileTree} {path text : String} (shown : String)
    (h : tree.text? path = some text) :
    (loadFile tree path shown).toOption = (Json.read? text).bind stated? := by
  simp only [loadFile, h, Config.read?]
  cases Json.read? text with
  | none => rfl
  | some v =>
    simp only [Option.bind_some, stated?]
    cases Config.ofJson? v with
    | none => rfl
    | some c => exact toOption_checked c _

private theorem toOption_loadPackage {tree : FileTree} {path text : String} (shown : String)
    (h : tree.text? path = some text) {answer : Option Value}
    (hr : Json.read? text = answer.map fun v => .object [(packageKey, v)])
    (distinct : ∀ v ∈ answer, v.HasDistinctNames) :
    (loadPackage tree path shown).toOption = (answer.bind stated?).map some := by
  simp only [loadPackage, h, hr]
  cases answer with
  | none => rfl
  | some v =>
    have whole : (Value.object [(packageKey, v)]).HasDistinctNames :=
      .object (by simp) (by simpa using distinct v rfl)
    have member : (Value.object [(packageKey, v)]).member? packageKey = some v := by
      simp [Value.member?, Value.lastNamed?]
    simp only [Option.map_some, whole.collapsed_eq, member, Option.bind_some, stated?]
    cases Config.ofJson? v with
    | none => rfl
    | some c =>
      simp only []
      rw [← toOption_checked c fun error => .package shown (.invalid error)]
      cases checked c _ <;> rfl

private theorem settings_load (tree : FileTree) (root : String) :
    (load tree root none).toOption.map ResolvedSettings.settings =
      ((discover tree root).toOption.map Loaded.config).bind fun c => c.resolve.toOption := by
  unfold load
  cases discover tree root with
  | error e => rfl
  | ok found =>
    have configured : (Except.ok found : Except LoadError Loaded).toOption.map Loaded.config
        = some found.config := rfl
    rw [configured, Option.bind_some]
    dsimp only [Bind.bind, Except.bind]
    cases found.config.resolve <;> rfl

private theorem config_discover_file {tree : FileTree} {text : String} (root : String)
    (h : tree.text? ".specmaprc.json" = some text) :
    (discover tree root).toOption.map Loaded.config = (Json.read? text).bind stated? := by
  have found : (configFileNames.find? fun name => (tree.find? name).isSome) = some ".specmaprc.json" := by
    simp [configFileNames, isSome_find?_of_text? h]
  simp only [discover, found, ← toOption_loadFile (join root ".specmaprc.json") h]
  cases loadFile tree ".specmaprc.json" (join root ".specmaprc.json") <;> rfl

private theorem config_discover_package {tree : FileTree} {text : String} (root : String)
    (absent : ∀ name ∈ configFileNames, tree.find? name = none)
    (h : tree.text? packageFileName = some text) {answer : Option Value}
    (hr : Json.read? text = answer.map fun v => .object [(packageKey, v)])
    (distinct : ∀ v ∈ answer, v.HasDistinctNames) :
    (discover tree root).toOption.map Loaded.config = answer.bind stated? := by
  have not_found : (configFileNames.find? fun name => (tree.find? name).isSome) = none := by
    rw [List.find?_eq_none]
    intro name hn
    simp [absent name hn]
  have loaded := toOption_loadPackage (join root packageFileName) h hr distinct
  simp only [discover, not_found, isSome_find?_of_text? h, if_true]
  cases hp : loadPackage tree packageFileName (join root packageFileName) with
  | error e =>
    rw [hp] at loaded
    exact (Option.map_eq_none_iff.1 loaded.symm).symm
  | ok section? =>
    rw [hp] at loaded
    obtain ⟨c, hc, rfl⟩ := Option.map_eq_some_iff.1 loaded.symm
    exact hc.symm

/-- The two carriers of a configuration lead to the same settings, or both to none. -/
theorem settings_load_eq {text : String} (document : IsDocument text)
    (distinct : ∀ v, Json.read? text = some v → v.HasDistinctNames) {own package : FileTree}
    (root root' : String) (hown : own.text? ".specmaprc.json" = some text)
    (absent : ∀ name ∈ configFileNames, package.find? name = none)
    (hpackage : package.text? packageFileName = some ("\x7b\"specmap\": " ++ text ++ "\x7d")) :
    (load own root none).toOption.map ResolvedSettings.settings =
      (load package root' none).toOption.map ResolvedSettings.settings := by
  obtain ⟨answer, hr, hw⟩ := document.exists_read? packageKey
  have opening : String.ofList ('\x7b' :: quoted packageKey ++ ": ".toList) = "\x7b\"specmap\": " := by
    decide +kernel
  rw [opening] at hw
  have distinct' : ∀ v ∈ answer.filter (Value.isWithin (maxDepth - 1)), v.HasDistinctNames := by
    intro v hv
    obtain ⟨ha, hd⟩ := Option.filter_eq_some_iff.1 hv
    exact distinct v (hr.trans (Option.filter_eq_some_iff.2 ⟨ha, Value.isWithin_mono (by decide) hd⟩))
  rw [settings_load, settings_load, config_discover_file root hown,
    config_discover_package root' absent hpackage hw distinct', hr, bind_filter_isWithin answer (by decide),
    bind_filter_isWithin answer (by decide)]

private theorem fromUTF8?_toUTF8 (text : String) : String.fromUTF8? text.toUTF8 = some text := by
  simp only [String.fromUTF8?, String.toUTF8_eq_toByteArray, dif_pos text.isValidUTF8]
  rfl

/-- A directory that holds one file. -/
def directoryOf (name text : String) : FileTree := { root := .directory [(name, .file text.toUTF8)] }

private theorem text?_directoryOf_own (text : String) :
    (directoryOf ".specmaprc.json" text).text? ".specmaprc.json" = some text :=
  fromUTF8?_toUTF8 text

private theorem text?_directoryOf_package (text : String) :
    (directoryOf "package.json" text).text? "package.json" = some text :=
  fromUTF8?_toUTF8 text

private theorem find?_directoryOf_package (text : String) :
    ∀ name ∈ configFileNames, (directoryOf "package.json" text).find? name = none := by
  intro name hn
  simp only [configFileNames, List.mem_cons, List.not_mem_nil, or_false] at hn
  rcases hn with rfl | rfl <;> rfl

/-- A configuration that has an array in place of the object with the weights. -/
def weightsInOrder : Value :=
  .object [("include", .array [.string "src/**"]),
    ("evidence", .array [.natural 90, .null, .natural 80, .natural 70])]

private theorem isPlain_weightsInOrder : weightsInOrder.IsPlain := by
  have level : ∀ n < 256, (Value.natural n).IsPlain := fun n h => Value.isPlain_natural h (by decide)
  have includes : (Value.array [.string "src/**"]).IsPlain := .array (by simp [Value.IsPlain.string])
  have evidence : (Value.array [.natural 90, .null, .natural 80, .natural 70]).IsPlain :=
    .array (by simp [Value.IsPlain.null, level])
  exact .object (by simp [includes, evidence])

private theorem hasDistinctNames_weightsInOrder : weightsInOrder.HasDistinctNames := by
  have includes : (Value.array [.string "src/**"]).HasDistinctNames :=
    .array (by simp [Value.HasDistinctNames.string])
  have evidence : (Value.array [.natural 90, .null, .natural 80, .natural 70]).HasDistinctNames :=
    .array (by simp [Value.HasDistinctNames.null, Value.HasDistinctNames.natural])
  exact .object (by simp) (by simp [includes, evidence])

theorem settings_load_eq_weightsInOrder :
    (load (directoryOf ".specmaprc.json" (pretty weightsInOrder)) "." none).toOption.map
        ResolvedSettings.settings =
      (load (directoryOf "package.json" ("\x7b\"specmap\": " ++ pretty weightsInOrder ++ "\x7d")) "."
        none).toOption.map ResolvedSettings.settings := by
  refine settings_load_eq isPlain_weightsInOrder.isDocument_pretty ?_ "." "."
    (text?_directoryOf_own _) (find?_directoryOf_package _) (text?_directoryOf_package _)
  intro v hv
  rw [isPlain_weightsInOrder.read?_pretty (by decide)] at hv
  cases hv
  exact hasDistinctNames_weightsInOrder

end SpecCoverage.Configuration
