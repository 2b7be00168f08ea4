import Mathlib.Data.List.Nodup
import SpecCoverage.Proofs.Json.Printing

/-!
# Records and other parts of a value

What reads the parts of a value undoes what has put them together: for a record whose fields have different names
(`fields?_record`), an array (`arrayOf?_map`), a part that may be absent (`optional?_map`) and a number that
fits (`below?_natural`).
-/

namespace SpecCoverage.Json
namespace Value

private theorem lastNamed?_of_mem {members : List (String × Value)} (distinct : (members.map Prod.fst).Nodup)
    {name : String} {value : Value} (h : (name, value) ∈ members) :
    lastNamed? name members = some value := by
  obtain ⟨member, hm⟩ : ∃ member, members.reverse.find? (fun member => member.1 = name) = some member :=
    Option.isSome_iff_exists.1 (List.find?_isSome.2 ⟨_, List.mem_reverse.2 h, by simp⟩)
  have same : member = (name, value) := by
    refine List.inj_on_of_nodup_map distinct (List.mem_reverse.1 (List.mem_of_find?_eq_some hm)) h ?_
    simpa using List.find?_some hm
  rw [lastNamed?, hm, same]
  rfl

private theorem lastNamed?_eq_none {members : List (String × Value)} {name : String}
    (h : ∀ member ∈ members, member.1 ≠ name) : lastNamed? name members = none := by
  rw [lastNamed?, Option.map_eq_none_iff, List.find?_eq_none]
  simpa using h

theorem isWithin_mono {v : Value} {depth depth' : Nat} (hle : depth ≤ depth') (h : v.isWithin depth = true) :
    v.isWithin depth' = true := by
  induction depth generalizing v depth' with
  | zero =>
    cases v with
    | array items => cases h
    | object members => cases h
    | _ => cases depth' <;> rfl
  | succ depth ih =>
    obtain ⟨depth', rfl⟩ := Nat.exists_eq_succ_of_ne_zero (Nat.ne_zero_of_lt hle)
    cases v with
    | array items =>
      rw [isWithin, List.all_eq_true] at h ⊢
      exact fun item hi => ih (Nat.le_of_succ_le_succ hle) (h item hi)
    | object members =>
      rw [isWithin, List.all_eq_true] at h ⊢
      exact fun member hm => ih (Nat.le_of_succ_le_succ hle) (h member hm)
    | _ => rfl

variable {fields : List (String × Option Value)}

private theorem nodup_members (distinct : (fields.map Prod.fst).Nodup) :
    ((fields.filterMap fun field => field.2.map fun value => (field.1, value)).map Prod.fst).Nodup := by
  refine distinct.sublist ?_
  clear distinct
  induction fields with
  | nil => exact .slnil
  | cons field fields ih =>
    obtain ⟨name, value | value⟩ := field
    · exact ih.cons name
    · exact ih.cons_cons name

theorem fields?_record (distinct : (fields.map Prod.fst).Nodup) :
    (record fields).fields? (fields.map Prod.fst) = some (fields.map Prod.snd) := by
  have members := nodup_members distinct
  have once : (fields.map Prod.fst).all (fun name => (fields.filterMap fun field =>
      field.2.map fun value => (field.1, value)).countP (fun member => member.1 = name) ≤ 1) = true := by
    rw [List.all_eq_true]
    intro name _
    have := List.nodup_iff_count_le_one.1 members name
    rw [List.count, List.countP_map] at this
    exact decide_eq_true this
  have found : ∀ field ∈ fields, lastNamed? field.1
      (fields.filterMap fun field => field.2.map fun value => (field.1, value)) = field.2 := by
    rintro ⟨name, value | value⟩ hf
    · refine lastNamed?_eq_none fun member hm e => ?_
      obtain ⟨other, ho, he⟩ := List.mem_filterMap.1 hm
      obtain ⟨v, hv, rfl⟩ := Option.map_eq_some_iff.1 he
      have := List.inj_on_of_nodup_map distinct ho hf e
      rw [this] at hv
      cases hv
    · exact lastNamed?_of_mem members (List.mem_filterMap.2 ⟨_, hf, rfl⟩)
  rw [record, fields?, if_pos once, List.map_map, Option.some.injEq]
  exact List.map_congr_left found

theorem isWithin_record {depth : Nat} (h : ∀ field ∈ fields, ∀ value ∈ field.2, value.isWithin depth = true) :
    (record fields).isWithin (depth + 1) = true := by
  rw [record, isWithin, List.all_eq_true]
  intro member hm
  obtain ⟨field, hf, he⟩ := List.mem_filterMap.1 hm
  obtain ⟨value, hv, rfl⟩ := Option.map_eq_some_iff.1 he
  exact h field hf value hv

theorem isPlain_record (h : ∀ field ∈ fields, ∀ value ∈ field.2, value.IsPlain) : (record fields).IsPlain := by
  refine .object fun member hm => ?_
  obtain ⟨field, hf, he⟩ := List.mem_filterMap.1 hm
  obtain ⟨value, hv, rfl⟩ := Option.map_eq_some_iff.1 he
  exact h field hf value hv

variable {α : Type} {read : Value → Option α} {write : α → Value}

private theorem map_eq_of_mapM {β : Type} {f : α → Option β} {items : List α} {found : List β}
    (h : items.mapM f = some found) : items.map f = found.map some := by
  induction items generalizing found with
  | nil => cases h; rfl
  | cons item items ih =>
    simp only [List.mapM_cons, Option.bind_eq_bind, Option.bind_eq_some_iff, Option.pure_def,
      Option.some.injEq] at h
    obtain ⟨first, hf, more, hm, rfl⟩ := h
    rw [List.map_cons, List.map_cons, hf, ih hm]

theorem exists_of_mem_mapM {β : Type} {f : α → Option β} {items : List α} {found : List β}
    (h : items.mapM f = some found) {a : α} (ha : a ∈ items) : ∃ b, f a = some b := by
  have mem : f a ∈ found.map some := by
    rw [← map_eq_of_mapM h]
    exact List.mem_map.2 ⟨a, ha, rfl⟩
  obtain ⟨b, -, hb⟩ := List.mem_map.1 mem
  exact ⟨b, hb.symm⟩

theorem exists_of_mem_of_mapM {β : Type} {f : α → Option β} {items : List α} {found : List β}
    (h : items.mapM f = some found) {b : β} (hb : b ∈ found) : ∃ a ∈ items, f a = some b := by
  have mem : some b ∈ items.map f := by
    rw [map_eq_of_mapM h]
    exact List.mem_map.2 ⟨b, hb, rfl⟩
  exact List.mem_map.1 mem

theorem arrayOf?_map {items : List α} (h : ∀ a ∈ items, read (write a) = some a) :
    arrayOf? read (.array (items.map write)) = some items := by
  rw [arrayOf?]
  induction items with
  | nil => rfl
  | cons a items ih =>
    rw [List.map_cons, List.mapM_cons, h a (by simp), ih fun b hb => h b (by simp [hb])]
    rfl

theorem optional?_map {part : Option α} (h : ∀ a ∈ part, read (write a) = some a)
    (not_null : ∀ a, write a ≠ .null) : optional? read (part.map write) = some part := by
  cases part with
  | none => rfl
  | some a =>
    rw [Option.map_some, optional?, h a rfl]
    · rfl
    · exact not_null a

theorem below?_natural {bound n : Nat} (h : n < bound) : below? bound (.natural n) = some n := by
  simp [below?, natural?, h]

private theorem exceedsDouble_of_lt {n : Nat} (h : n < UInt64.size) : exceedsDouble n 0 = false := by
  have digits : (Nat.toDigits 10 n).length ≤ 20 := by
    rw [Nat.length_toDigits_le_iff (by decide) (by decide)]
    exact Nat.lt_trans h (by decide)
  have short : (n = 0 || ((Nat.toDigits 10 n).length : Int) + 0 < 300) = true := by
    simp only [Bool.or_eq_true, decide_eq_true_eq]
    omega
  exact if_pos short

/-- A number of at most 64 bits is far within double precision. -/
theorem isPlain_natural {n bound : Nat} (h : n < bound) (hb : bound ≤ UInt64.size) : (natural n).IsPlain :=
  .natural (exceedsDouble_of_lt (Nat.lt_of_lt_of_le h hb))

theorem isPlain_array_map {items : List α} (h : ∀ a ∈ items, (write a).IsPlain) :
    (array (items.map write)).IsPlain :=
  .array fun _ hv => by
    obtain ⟨a, ha, rfl⟩ := List.mem_map.1 hv
    exact h a ha

end Value

/-! ## Names -/

/-- A value in which no object has two members of the same name. -/
inductive Value.HasDistinctNames : Value → Prop where
  | null : HasDistinctNames null
  | bool (b : Bool) : HasDistinctNames (bool b)
  | natural (n : Nat) : HasDistinctNames (natural n)
  | decimal (text : String) : HasDistinctNames (decimal text)
  | string (s : String) : HasDistinctNames (string s)
  | array {items : List Value} (h : ∀ item ∈ items, HasDistinctNames item) : HasDistinctNames (array items)
  | object {members : List (String × Value)} (distinct : (members.map Prod.fst).Nodup)
      (h : ∀ member ∈ members, HasDistinctNames member.2) : HasDistinctNames (object members)

private theorem collapsedItems_eq_map (items : List Value) : collapsedItems items = items.map collapsed := by
  induction items with
  | nil => rfl
  | cons item items ih => rw [collapsedItems, ih, List.map_cons]

private theorem collapsedMembers_eq_map (members : List (String × Value)) :
    collapsedMembers members = members.map fun member => (member.1, collapsed member.2) := by
  induction members with
  | nil => rfl
  | cons member members ih => rw [collapsedMembers, ih, List.map_cons]

private theorem lastOfEach_eq_self {members : List (String × Value)} (distinct : (members.map Prod.fst).Nodup) :
    lastOfEach members = members := by
  induction members with
  | nil => rfl
  | cons member members ih =>
    rw [List.map_cons, List.nodup_cons] at distinct
    have alone : ¬ (members.any fun other => other.1 = member.1) = true := by
      intro h
      obtain ⟨other, ho, he⟩ := List.any_eq_true.1 h
      exact distinct.1 (List.mem_map.2 ⟨other, ho, by simpa using he⟩)
    rw [lastOfEach, if_neg alone, ih distinct.2]

theorem Value.HasDistinctNames.collapsed_eq {v : Value} (h : v.HasDistinctNames) : collapsed v = v := by
  induction h with
  | array h ih =>
    rw [collapsed, collapsedItems_eq_map, List.map_congr_left ih, List.map_id']
  | @object members distinct h ih =>
    have same : (members.map fun member => (member.1, collapsed member.2)) = members :=
      (List.map_congr_left fun member hm => by rw [ih member hm]).trans (List.map_id' members)
    rw [collapsed, collapsedMembers_eq_map, same, lastOfEach_eq_self distinct]
  | _ => rfl

end SpecCoverage.Json
