import SpecCoverage.Proofs.Configuration.Carriers

/-!
# Configurations written and read back

A configuration is written as an object with all its members, null for those that are not set.  The reader takes this
form among others, and gives back the configuration it was written from exactly if its levels fit into 8 bits
(`Config.read?_pretty_toJson_iff`).  All that is read fits, so what a text states can be written out without loss
(`Config.read?_rewritten`).
-/

namespace SpecCoverage.Configuration

open Json

/-! ## Levels that fit -/

/-- The level, if there is one, has 8 bits. -/
def FitsByte (level : Option Nat) : Prop := ∀ n ∈ level, n ≤ 255

structure WeightOverrides.Fits (w : WeightOverrides) : Prop where
  callSignature : FitsByte w.callSignature
  boldBullet : FitsByte w.boldBullet
  codeBlock : FitsByte w.codeBlock
  sectionMention : FitsByte w.sectionMention

structure PolicyOverrides.Fits (p : PolicyOverrides) : Prop where
  carryThreshold : FitsByte p.carryThreshold
  exact : FitsByte p.exact
  caseInsensitive : FitsByte p.caseInsensitive
  fuzzy : FitsByte p.fuzzy

private theorem WeightOverrides.fits_iff {w : WeightOverrides} :
    w.Fits ↔ ∀ level ∈ [w.callSignature, w.boldBullet, w.codeBlock, w.sectionMention], FitsByte level := by
  simp only [List.forall_mem_cons]
  exact ⟨fun ⟨h1, h2, h3, h4⟩ => ⟨h1, h2, h3, h4, nofun⟩, fun ⟨h1, h2, h3, h4, _⟩ => ⟨h1, h2, h3, h4⟩⟩

private theorem PolicyOverrides.fits_iff {p : PolicyOverrides} :
    p.Fits ↔ ∀ level ∈ [p.carryThreshold, p.exact, p.caseInsensitive, p.fuzzy], FitsByte level := by
  simp only [List.forall_mem_cons]
  exact ⟨fun ⟨h1, h2, h3, h4⟩ => ⟨h1, h2, h3, h4, nofun⟩, fun ⟨h1, h2, h3, h4, _⟩ => ⟨h1, h2, h3, h4⟩⟩

/-- A configuration whose levels all fit. -/
structure Config.Fits (c : Config) : Prop where
  evidence : ∀ w ∈ c.evidence, w.Fits
  matching : ∀ p ∈ c.matching, p.Fits

private theorem level?_eq_some_iff {value : Value} {n : Nat} :
    level? value = some n ↔ value = .natural n ∧ n ≤ 255 := by
  rw [level?, Option.filter_eq_some_iff, decide_eq_true_eq]
  refine and_congr_left fun _ => ?_
  cases value <;> simp [Value.natural?]

/-! ## Parts that may be null -/

variable {α : Type} {read : Value → Option α} {write : α → Value}

private theorem optional?_orNull {part : Option α} (h : ∀ a ∈ part, read (write a) = some a)
    (not_null : ∀ a, write a ≠ .null) : Value.optional? read (some (orNull write part)) = some part := by
  cases part with
  | none => rfl
  | some a =>
    have written : Value.optional? read ((some a).map write) = some (some a) := Value.optional?_map h not_null
    exact written

private theorem exists_of_optional? {value : Option Value} {a : α} (h : Value.optional? read value = some (some a)) :
    ∃ v, read v = some a := by
  unfold Value.optional? at h
  split at h
  · cases h
  · cases h
  · next v _ =>
    obtain ⟨found, hv, same⟩ := Option.map_eq_some_iff.1 h
    cases same
    exact ⟨v, hv⟩

private theorem fitsByte_of_optional? {value : Option Value} {level : Option Nat}
    (h : Value.optional? level? value = some level) : FitsByte level := by
  rintro n rfl
  obtain ⟨v, hv⟩ := exists_of_optional? h
  exact (level?_eq_some_iff.1 hv).2

private theorem optional?_level {level : Option Nat} (h : FitsByte level) :
    Value.optional? level? (some (orNull .natural level)) = some level :=
  optional?_orNull (fun n hn => level?_eq_some_iff.2 ⟨rfl, h n hn⟩) (by simp)

/-! ## Members -/

private theorem areFields_of_nodup {known : List String} {members : List (String × Value)}
    (all : ∀ member ∈ members, member.1 ∈ known) (distinct : (members.map Prod.fst).Nodup) :
    areFields known members = true := by
  induction members with
  | nil => rfl
  | cons member rest ih =>
    obtain ⟨name, value⟩ := member
    obtain ⟨first, others⟩ := List.forall_mem_cons.1 all
    obtain ⟨notBehind, distinct⟩ := List.nodup_cons.1 distinct
    have alone : (rest.any fun other => other.1 = name) = false := by
      rw [List.any_eq_false]
      exact fun other mem same => notBehind (List.mem_map.2 ⟨other, mem, by simpa using same⟩)
    simp [areFields, first, alone, ih others distinct]

/-- An object with all the members there can be holds their values. -/
private theorem fieldValues?_object {members : List (String × Value)} (distinct : (members.map Prod.fst).Nodup)
    (least : Nat) :
    fieldValues? (members.map Prod.fst) least (.object members) = some ((members.map Prod.snd).map some) := by
  have fields : areFields (members.map Prod.fst) members = true :=
    areFields_of_nodup (fun _ => List.mem_map_of_mem) distinct
  rw [fieldValues?, if_pos fields, List.map_map, List.map_map, Option.some.injEq]
  exact List.map_congr_left fun member mem => (find?_of_areFields fields mem).2

private theorem fieldValues?_zip {names : List String} {values : List Value} (distinct : names.Nodup)
    (length : names.length = values.length) (least : Nat) :
    fieldValues? names least (.object (names.zip values)) = some (values.map some) := by
  have known := List.map_fst_zip (Nat.le_of_eq length)
  have held := List.map_snd_zip (Nat.le_of_eq length.symm)
  have fields := fieldValues?_object (known.symm ▸ distinct) least
  rwa [known, held] at fields

/-- Levels are read back from the members they are written as. -/
private theorem mapM_levels {values : List (Option Nat)} (h : ∀ level ∈ values, FitsByte level) :
    ((values.map (orNull .natural)).map some).mapM (Value.optional? level?) = some values := by
  induction values with
  | nil => rfl
  | cons level values ih =>
    obtain ⟨first, rest⟩ := List.forall_mem_cons.1 h
    rw [List.map_cons, List.map_cons, List.mapM_cons, optional?_level first, ih rest]
    rfl

/-! ## Reading back -/

theorem WeightOverrides.ofJson?_toJson {w : WeightOverrides} (h : w.Fits) : ofJson? w.toJson = some w := by
  rw [ofJson?, toJson, levels, fieldValues?_zip (by decide +kernel) rfl]
  simp only [Option.bind_eq_bind, Option.bind_some, mapM_levels (fits_iff.1 h)]
  rfl

theorem PolicyOverrides.ofJson?_toJson {p : PolicyOverrides} (h : p.Fits) : ofJson? p.toJson = some p := by
  rw [ofJson?, toJson, levels, fieldValues?_zip (by decide +kernel) rfl]
  simp only [Option.bind_eq_bind, Option.bind_some, mapM_levels (fits_iff.1 h)]
  rfl

private theorem strings?_strings (items : List String) : strings? (some (strings items)) = some items :=
  Value.arrayOf?_map fun _ _ => rfl

private theorem Config.toJson_eq_zip (c : Config) :
    c.toJson = .object (configNames.zip
      [strings c.includes, strings c.excludes, strings c.documentationExtensions,
       orNull WeightOverrides.toJson c.evidence, orNull PolicyOverrides.toJson c.matching, orNull .bool c.parallel]) :=
  rfl

theorem Config.ofJson?_toJson {c : Config} (h : c.Fits) : ofJson? c.toJson = some c := by
  have evidence := optional?_orNull (fun w hw => WeightOverrides.ofJson?_toJson (h.evidence w hw)) fun _ => nofun
  have matching := optional?_orNull (fun p hp => PolicyOverrides.ofJson?_toJson (h.matching p hp)) fun _ => nofun
  have parallel : Value.optional? Value.bool? (some (orNull .bool c.parallel)) = some c.parallel :=
    optional?_orNull (fun _ _ => rfl) fun _ => nofun
  rw [ofJson?, toJson_eq_zip, fieldValues?_zip (by decide +kernel) rfl]
  simp only [Option.bind_eq_bind, Option.bind_some, List.map_cons, List.map_nil, strings?_strings, evidence, matching,
    parallel]
  rfl

/-! ## What is read fits -/

private theorem fitsByte_of_mapM {values : List (Option Value)} {levels : List (Option Nat)}
    (h : values.mapM (Value.optional? level?) = some levels) : ∀ level ∈ levels, FitsByte level := by
  intro level mem
  obtain ⟨value, -, hvalue⟩ := Value.exists_of_mem_of_mapM h mem
  exact fitsByte_of_optional? hvalue

theorem WeightOverrides.fits_of_ofJson? {value : Value} {w : WeightOverrides} (h : ofJson? value = some w) :
    w.Fits := by
  unfold ofJson? at h
  simp only [Option.bind_eq_bind, Option.bind_eq_some_iff] at h
  obtain ⟨values, -, levels, read, h⟩ := h
  split at h
  · cases h
    exact fits_iff.2 (fitsByte_of_mapM read)
  · cases h

theorem PolicyOverrides.fits_of_ofJson? {value : Value} {p : PolicyOverrides} (h : ofJson? value = some p) :
    p.Fits := by
  unfold ofJson? at h
  simp only [Option.bind_eq_bind, Option.bind_eq_some_iff] at h
  obtain ⟨values, -, levels, read, h⟩ := h
  split at h
  · cases h
    exact fits_iff.2 (fitsByte_of_mapM read)
  · cases h

theorem Config.fits_of_ofJson? {value : Value} {c : Config} (h : ofJson? value = some c) : c.Fits := by
  unfold ofJson? at h
  simp only [Option.bind_eq_bind, Option.bind_eq_some_iff] at h
  obtain ⟨values, -, h⟩ := h
  split at h
  · simp only [Option.bind_eq_some_iff, Option.pure_def, Option.some.injEq] at h
    obtain ⟨_, -, _, -, _, -, evidence, hevidence, matching, hmatching, _, -, rfl⟩ := h
    refine ⟨fun w hw => ?_, fun p hp => ?_⟩
    · obtain rfl : evidence = some w := hw
      obtain ⟨v, hv⟩ := exists_of_optional? hevidence
      exact WeightOverrides.fits_of_ofJson? hv
    · obtain rfl : matching = some p := hp
      obtain ⟨v, hv⟩ := exists_of_optional? hmatching
      exact PolicyOverrides.fits_of_ofJson? hv
  · cases h

/-! ## The text of a configuration -/

private theorem isPlain_orNull {part : Option α} (h : ∀ a ∈ part, (write a).IsPlain) : (orNull write part).IsPlain := by
  cases part with
  | none => exact .null
  | some a => exact h a rfl

private theorem isPlain_levels {values : List (Option Nat)} (h : ∀ level ∈ values, FitsByte level)
    (names : List String) :
    (levels names values).IsPlain := by
  refine .object fun member mem => ?_
  obtain ⟨level, hlevel, same⟩ := List.mem_map.1 (List.of_mem_zip mem).2
  rw [← same]
  exact isPlain_orNull fun n hn => Value.isPlain_natural (Nat.lt_succ_of_le (h level hlevel n hn)) (by decide)

theorem WeightOverrides.isPlain_toJson {w : WeightOverrides} (h : w.Fits) : w.toJson.IsPlain :=
  isPlain_levels (fits_iff.1 h) _

theorem PolicyOverrides.isPlain_toJson {p : PolicyOverrides} (h : p.Fits) : p.toJson.IsPlain :=
  isPlain_levels (fits_iff.1 h) _

private theorem isPlain_strings (items : List String) : (strings items).IsPlain :=
  Value.isPlain_array_map fun s _ => .string s

theorem Config.isPlain_toJson {c : Config} (h : c.Fits) : c.toJson.IsPlain := by
  have evidence := isPlain_orNull fun w hw => WeightOverrides.isPlain_toJson (h.evidence w hw)
  have matching := isPlain_orNull fun p hp => PolicyOverrides.isPlain_toJson (h.matching p hp)
  have parallel : (orNull .bool c.parallel).IsPlain := isPlain_orNull fun b _ => .bool b
  exact .object (by simp [isPlain_strings, evidence, matching, parallel])

/-- The text that a configuration is written as is the text of its value. -/
private theorem Config.json_read?_pretty_toJson {c : Config} (h : c.Fits) :
    Json.read? (pretty c.toJson) = some c.toJson :=
  (isPlain_toJson h).read?_pretty (Value.isWithin_mono (by decide) (isWithin_of_config (ofJson?_toJson h)))

/-- A configuration is read back from its text exactly if its levels fit. -/
theorem Config.read?_pretty_toJson_iff (c : Config) : read? (pretty c.toJson) = some c ↔ c.Fits := by
  constructor
  · intro h
    obtain ⟨value, -, hvalue⟩ := Option.bind_eq_some_iff.1 h
    exact fits_of_ofJson? hvalue
  · intro h
    rw [Config.read?, json_read?_pretty_toJson h]
    exact ofJson?_toJson h

/-- A configuration that a text states can be written out: its own text, and any other text of the same value, states
the same configuration again, and it leads to the same settings or to the same error. -/
theorem Config.read?_rewritten {text : String} {c : Config} (h : read? text = some c) :
    Json.read? (pretty c.toJson) = some c.toJson ∧
      ∀ written, Json.read? written = some c.toJson →
        read? written = some c ∧ (read? written).map resolve = (read? text).map resolve := by
  obtain ⟨value, -, hvalue⟩ := Option.bind_eq_some_iff.1 h
  have fits := fits_of_ofJson? hvalue
  refine ⟨json_read?_pretty_toJson fits, fun written hwritten => ?_⟩
  have again : read? written = some c := by
    rw [Config.read?, hwritten]
    exact ofJson?_toJson fits
  exact ⟨again, by rw [again, h]⟩

/-- A configuration in the form of an array, with its last members left out and one of its weights not set. -/
def inOrder : String := "[[\"src/**\"], [], [\".md\"], [92, null, 60, 50]]"

def inOrderConfig : Config where
  includes := ["src/**"]
  documentationExtensions := [".md"]
  evidence := some { callSignature := some 92, codeBlock := some 60, sectionMention := some 50 }

theorem Config.read?_rewritten_inOrder :
    read? inOrder = some inOrderConfig ∧ pretty inOrderConfig.toJson ≠ inOrder ∧
      read? (pretty inOrderConfig.toJson) = some inOrderConfig := by
  have stated : read? inOrder = some inOrderConfig := by decide +kernel
  obtain ⟨value, again⟩ := Config.read?_rewritten stated
  exact ⟨stated, by decide +kernel, (again _ value).1⟩

end SpecCoverage.Configuration
