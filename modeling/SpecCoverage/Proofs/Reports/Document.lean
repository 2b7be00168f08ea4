import SpecCoverage.Proofs.Json.Record
import SpecCoverage.Reports.Document

/-!
# Reports read back

A report is read back from its JSON text exactly if its numbers fit: 32 bits for lines and complexities, 8 bits for
confidences, and 64 bits for the two numbers of the coverage (`readJson?_renderJson`).  That they have to fit is
what the reader refuses otherwise; that nothing else is needed is shown record by record, each read back from what
it is written as.
-/

namespace SpecCoverage.Reports

open Functions Json Specifications

/-! ## Numbers that fit -/

structure FunctionEntry.Fits (f : FunctionEntry) : Prop where
  complexity : f.complexity < UInt32.size
  line : f.line < UInt32.size

structure Coverage.Fits (c : Coverage) : Prop where
  matched : c.matched < UInt64.size
  total : c.total < UInt64.size

/-- A report whose numbers all fit.  Only the type of a confidence bounds it here. -/
structure Report.Fits (r : Report) : Prop where
  functions : ∀ f ∈ r.functions, f.Fits
  confidences : ∀ s ∈ r.specifications, ∀ confidence ∈ s.confidence, confidence < UInt8.size
  coverage : r.coverage.Fits

/-! ## Reading back each record -/

private theorem optional?_string (part : Option String) :
    Value.optional? Value.string? (part.map .string) = some part :=
  Value.optional?_map (fun _ _ => rfl) (by simp)

private theorem parameterOfJson?_toJson (p : Parameter) : parameterOfJson? (parameterToJson p) = some p := by
  have fields : (parameterToJson p).fields? _ = some _ := Value.fields?_record (by simp)
  simp only [List.map_cons, List.map_nil] at fields
  simp [parameterOfJson?, fields, optional?_string, Value.string?]

private theorem entryOfJson?_toJson {f : FunctionEntry} (h : f.Fits) : entryOfJson? (entryToJson f) = some f := by
  have fields : (entryToJson f).fields? _ = some _ := Value.fields?_record (by simp)
  have parameters : Value.arrayOf? parameterOfJson? (.array (f.parameters.map parameterToJson))
      = some f.parameters :=
    Value.arrayOf?_map fun p _ => parameterOfJson?_toJson p
  simp only [List.map_cons, List.map_nil] at fields
  simp [entryOfJson?, fields, parameters, optional?_string, Value.string?, Value.bool?,
    Value.below?_natural h.complexity, Value.below?_natural h.line]

private theorem specificationOfJson?_toJson {s : Specification} (h : ∀ c ∈ s.confidence, c < UInt8.size) :
    specificationOfJson? (specificationToJson s) = some s := by
  have fields : (specificationToJson s).fields? _ = some _ := Value.fields?_record (by simp)
  have confidence : Value.optional? (Value.below? UInt8.size) (s.confidence.map .natural) = some s.confidence :=
    Value.optional?_map (fun c hc => Value.below?_natural (h c hc)) (by simp)
  have evidence : Value.optional? evidenceOfJson? (s.evidence.map fun e => .string e.name)
      = some s.evidence :=
    Value.optional?_map (fun e _ => Evidence.ofName?_name e) (by simp)
  simp only [List.map_cons, List.map_nil] at fields
  simp [specificationOfJson?, fields, optional?_string, Value.string?, confidence,
    evidence]

private theorem coverageOfJson?_toJson {c : Coverage} (h : c.Fits) : coverageOfJson? (coverageToJson c) = some c := by
  have fields : (coverageToJson c).fields? _ = some _ := Value.fields?_record (by simp)
  simp only [List.map_cons, List.map_nil] at fields
  simp [coverageOfJson?, fields, Value.below?_natural h.matched,
    Value.below?_natural h.total]

theorem ofJson?_toJson {r : Report} (h : r.Fits) : ofJson? (toJson r) = some r := by
  have fields : (toJson r).fields? _ = some _ := Value.fields?_record (by simp)
  have functions : Value.arrayOf? entryOfJson? (.array (r.functions.map entryToJson)) = some r.functions :=
    Value.arrayOf?_map fun f hf => entryOfJson?_toJson (h.functions f hf)
  have specifications : Value.arrayOf? specificationOfJson? (.array (r.specifications.map specificationToJson))
      = some r.specifications :=
    Value.arrayOf?_map fun s hs => specificationOfJson?_toJson (h.confidences s hs)
  have skipped : Value.arrayOf? Value.string? (.array (r.skippedFiles.map .string)) = some r.skippedFiles :=
    Value.arrayOf?_map fun _ _ => rfl
  simp only [List.map_cons, List.map_nil] at fields
  simp [ofJson?, fields, functions, specifications, coverageOfJson?_toJson h.coverage, skipped]

/-! ## What is read fits -/

private theorem lt_of_below? {bound n : Nat} {value : Value} (h : value.below? bound = some n) : n < bound := by
  simpa using (Option.filter_eq_some_iff.1 h).2

private theorem fits_of_entryOfJson? {value : Value} {f : FunctionEntry} (h : entryOfJson? value = some f) :
    f.Fits := by
  unfold entryOfJson? at h
  simp only [Option.bind_eq_bind, Option.bind_eq_some_iff] at h
  obtain ⟨fields, -, h⟩ := h
  split at h
  · simp only [Option.bind_eq_some_iff, Option.pure_def, Option.some.injEq] at h
    obtain ⟨_, -, name, -, _, -, parameters, -, result, -, _, -, fileName, -, _, -, code, -, _, -,
      complexity, hc, _, -, line, hl, flag, -, rfl⟩ := h
    exact ⟨lt_of_below? hc, lt_of_below? hl⟩
  · cases h

private theorem confidence_lt_of_specificationOfJson? {value : Value} {s : Specification}
    (h : specificationOfJson? value = some s) : ∀ confidence ∈ s.confidence, confidence < UInt8.size := by
  unfold specificationOfJson? at h
  simp only [Option.bind_eq_bind, Option.bind_eq_some_iff] at h
  obtain ⟨fields, -, h⟩ := h
  split at h
  · simp only [Option.bind_eq_some_iff, Option.pure_def, Option.some.injEq] at h
    obtain ⟨_, -, description, -, function, -, confidence, hc, evidence, -, rfl⟩ := h
    rintro n rfl
    unfold Value.optional? at hc
    split at hc
    · cases hc
    · cases hc
    · obtain ⟨m, hm, e⟩ := Option.map_eq_some_iff.1 hc
      cases e
      exact lt_of_below? hm
  · cases h

private theorem fits_of_coverageOfJson? {value : Value} {c : Coverage} (h : coverageOfJson? value = some c) :
    c.Fits := by
  unfold coverageOfJson? at h
  simp only [Option.bind_eq_bind, Option.bind_eq_some_iff] at h
  obtain ⟨fields, -, h⟩ := h
  split at h
  · simp only [Option.bind_eq_some_iff, Option.pure_def, Option.some.injEq] at h
    obtain ⟨_, -, matched, hm, _, -, total, ht, rfl⟩ := h
    exact ⟨lt_of_below? hm, lt_of_below? ht⟩
  · cases h

private theorem exists_of_mem_arrayOf? {α : Type} {read : Value → Option α} {value : Value} {found : List α}
    (h : Value.arrayOf? read value = some found) {a : α} (ha : a ∈ found) : ∃ v, read v = some a := by
  cases value with
  | array items =>
    obtain ⟨v, -, hv⟩ := Value.exists_of_mem_of_mapM h ha
    exact ⟨v, hv⟩
  | _ => cases h

theorem fits_of_ofJson? {value : Value} {r : Report} (h : ofJson? value = some r) : r.Fits := by
  unfold ofJson? at h
  simp only [Option.bind_eq_bind, Option.bind_eq_some_iff] at h
  obtain ⟨fields, -, h⟩ := h
  split at h
  · simp only [Option.bind_eq_some_iff, Option.pure_def, Option.some.injEq] at h
    obtain ⟨_, -, functions, hf, _, -, specifications, hs, _, -, coverage, hc, skipped, -, rfl⟩ := h
    refine ⟨fun f hm => ?_, fun s hm => ?_, fits_of_coverageOfJson? hc⟩
    · obtain ⟨v, hv⟩ := exists_of_mem_arrayOf? hf hm
      exact fits_of_entryOfJson? hv
    · obtain ⟨v, hv⟩ := exists_of_mem_arrayOf? hs hm
      exact confidence_lt_of_specificationOfJson? hv
  · cases h

/-! ## The text of a report -/

private theorem isWithin_parameterToJson (p : Parameter) (depth : Nat) :
    (parameterToJson p).isWithin (depth + 1) = true :=
  Value.isWithin_record (by simp)

private theorem isWithin_entryToJson (f : FunctionEntry) (depth : Nat) :
    (entryToJson f).isWithin (depth + 3) = true :=
  Value.isWithin_record (by simp [Value.isWithin, isWithin_parameterToJson])

private theorem isWithin_specificationToJson (s : Specification) (depth : Nat) :
    (specificationToJson s).isWithin (depth + 1) = true :=
  Value.isWithin_record (by simp)

private theorem isWithin_coverageToJson (c : Coverage) (depth : Nat) :
    (coverageToJson c).isWithin (depth + 1) = true :=
  Value.isWithin_record (by simp)

private theorem isWithin_toJson (r : Report) (depth : Nat) : (toJson r).isWithin (depth + 5) = true :=
  Value.isWithin_record (by
    simp [Value.isWithin, isWithin_entryToJson, isWithin_specificationToJson, isWithin_coverageToJson])

private theorem isPlain_parameterToJson (p : Parameter) : (parameterToJson p).IsPlain :=
  Value.isPlain_record (by simp [Value.IsPlain.string])

private theorem isPlain_entryToJson {f : FunctionEntry} (h : f.Fits) : (entryToJson f).IsPlain := by
  have parameters := Value.isPlain_array_map fun p (_ : p ∈ f.parameters) => isPlain_parameterToJson p
  have complexity := Value.isPlain_natural h.complexity (by decide)
  have line := Value.isPlain_natural h.line (by decide)
  exact Value.isPlain_record
    (by simp [Value.IsPlain.string, Value.IsPlain.bool, parameters, complexity, line])

private theorem isPlain_specificationToJson {s : Specification} (h : ∀ c ∈ s.confidence, c < UInt8.size) :
    (specificationToJson s).IsPlain := by
  have confidence : ∀ c ∈ s.confidence, (Value.natural c).IsPlain :=
    fun c hc => Value.isPlain_natural (h c hc) (by decide)
  exact Value.isPlain_record (by simpa [Value.IsPlain.string] using confidence)

private theorem isPlain_coverageToJson {c : Coverage} (h : c.Fits) : (coverageToJson c).IsPlain := by
  have matched := Value.isPlain_natural h.matched (by decide)
  have total := Value.isPlain_natural h.total (by decide)
  exact Value.isPlain_record (by simp [matched, total])

theorem isPlain_toJson {r : Report} (h : r.Fits) : (toJson r).IsPlain := by
  have functions := Value.isPlain_array_map fun f hf => isPlain_entryToJson (h.functions f hf)
  have specifications :=
    Value.isPlain_array_map fun s hs => isPlain_specificationToJson (h.confidences s hs)
  have coverage := isPlain_coverageToJson h.coverage
  have skipped := Value.isPlain_array_map fun s (_ : s ∈ r.skippedFiles) => Value.IsPlain.string s
  exact Value.isPlain_record (by simp [functions, specifications, coverage, skipped])

theorem isDocument_renderJson {r : Report} (h : r.Fits) : IsDocument (renderJson r) :=
  (isPlain_toJson h).isDocument_pretty

/-- A report whose numbers fit is read back as it was, whatever its strings hold and whatever is absent, and only
such a report is. -/
theorem readJson?_renderJson (r : Report) : readJson? (renderJson r) = some r ↔ r.Fits := by
  constructor
  · intro h
    obtain ⟨value, -, hv⟩ := Option.bind_eq_some_iff.1 h
    exact fits_of_ofJson? hv
  · intro h
    rw [readJson?, renderJson, (isPlain_toJson h).read?_pretty (isWithin_toJson r 122)]
    exact ofJson?_toJson h

end SpecCoverage.Reports
