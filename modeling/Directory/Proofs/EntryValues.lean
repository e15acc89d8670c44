import Directory.Entry
import Directory.Proofs.Registry
import Directory.Proofs.Sorted

/-!
# The values of a type in an entry

An entry keeps values under descriptions, and several descriptions may stand for one type: its names
and its OID. `Entry.Bears` says what the entry has under a description that stands for the type, and
`Entry.Foremost` picks out the description that comes first among the identifiers of the type.

The values that are looked up for the type are those under its foremost description
(`valuesOf_eq_some_iff`). They are all that the entry has of the type exactly when the lists under
the other descriptions are contained in this one.
-/

namespace Directory

namespace Entry

/-! ### Entries put together from values -/

/-- The entry has been put together from values. -/
inductive Built : Entry → Prop where
  | new (id : EntryId) (dn : String) : Built (.new id dn)
  | addValues {e : Entry} (description : String) (raws : List String) :
      Built e → Built (e.addValues description raws)

variable {e : Entry}

/-- The descriptions of an entry are in lowercase. -/
theorem Built.lowercase_eq (h : e.Built) : ∀ b ∈ e.attributes.toList, lowercase b.1 = b.1 := by
  induction h with
  | new id dn => exact fun b hb => nomatch hb
  | @addValues e description raws _ ih =>
    intro b hb
    rcases SortedMap.mem_keys_alterList.mp (List.mem_map_of_mem hb) with hkey | hkey
    · rw [hkey, lowercase_lowercase]
    · obtain ⟨c, hc, hcb⟩ := List.mem_map.mp hkey
      rw [← hcb]
      exact ih c hc

theorem Built.foldl_addValues (h : e.Built) (as : List (String × List String)) :
    (as.foldl (fun e a => e.addValues a.1 a.2) e).Built := by
  induction as generalizing e with
  | nil => exact h
  | cons a as ih => exact ih (h.addValues a.1 a.2)

theorem built_ofAttributes (id : EntryId) (dn : String) (as : List (String × List String)) :
    (ofAttributes id dn as).Built := (Built.new id dn).foldl_addValues as

/-! ### Descriptions of a type -/

/-- The entry has these values under the description, which stands for the type. -/
def Bears (r : Registry) (t : AttributeType) (e : Entry) (description : String)
    (raws : List String) : Prop :=
  (description, raws) ∈ e.attributes.toList ∧ r.resolve description = .ok t

/-- Of the descriptions of the entry that stand for the type, this one comes first among the
identifiers of the type. -/
def Foremost (r : Registry) (t : AttributeType) (e : Entry) (description : String)
    (raws : List String) : Prop :=
  e.Bears r t description raws ∧
    ∃ before after, t.identifiers = before ++ description :: after ∧
      ∀ id ∈ before, ∀ raws', ¬e.Bears r t id raws'

variable {r : Registry} {t : AttributeType} {description id raw : String} {raws : List String}

/-- The descriptions that stand for a type are those that are identifiers of the type. -/
theorem bears_iff (hr : r.Built) (ho : r.LowercaseOids) (ht : t ∈ r.types) (he : e.Built) :
    e.Bears r t description raws ↔
      description ∈ t.identifiers ∧ e.attributes.find? description = some raws := by
  rw [Bears, SortedMap.find?_eq_some_iff, and_comm]
  refine and_congr_left fun hmem => ?_
  rw [Registry.resolve_eq_ok_iff hr ho, he.lowercase_eq _ hmem, and_iff_right ht]

theorem valuesOf_eq_findSome? (hr : r.Built) (ho : r.LowercaseOids) (ht : t ∈ r.types) :
    e.valuesOf t = t.identifiers.findSome? e.attributes.find? := by
  have hself : t.identifiers.map lowercase = t.identifiers :=
    (List.map_congr_left fun id hid => hr.identifier_lowercase ho ht hid).trans (List.map_id _)
  conv_rhs => rw [← hself, List.findSome?_map]
  rfl

/-- The values that are looked up are those under the foremost description. -/
theorem valuesOf_eq_some_iff (hr : r.Built) (ho : r.LowercaseOids) (ht : t ∈ r.types)
    (he : e.Built) : e.valuesOf t = some raws ↔ ∃ description, e.Foremost r t description raws := by
  rw [valuesOf_eq_findSome? hr ho ht, List.findSome?_eq_some_iff]
  have hunused : ∀ id ∈ t.identifiers,
      e.attributes.find? id = none ↔ ∀ raws', ¬e.Bears r t id raws' := fun id hid => by
    simp only [bears_iff hr ho ht he, hid, true_and, Option.eq_none_iff_forall_ne_some, ne_eq]
  constructor
  · rintro ⟨before, id, after, hsplit, hfind, hbefore⟩
    have hid : id ∈ t.identifiers := by simp [hsplit]
    refine ⟨id, (bears_iff hr ho ht he).mpr ⟨hid, hfind⟩, before, after, hsplit, ?_⟩
    intro id' hid'
    exact (hunused id' (by simp [hsplit, hid'])).mp (hbefore id' hid')
  · rintro ⟨id, hbears, before, after, hsplit, hbefore⟩
    refine ⟨before, id, after, hsplit, ((bears_iff hr ho ht he).mp hbears).2, ?_⟩
    intro id' hid'
    exact (hunused id' (by simp [hsplit, hid'])).mpr (hbefore id' hid')

theorem valuesOf_eq_none_iff (hr : r.Built) (ho : r.LowercaseOids) (ht : t ∈ r.types)
    (he : e.Built) : e.valuesOf t = none ↔ ∀ description raws, ¬e.Bears r t description raws := by
  rw [valuesOf_eq_findSome? hr ho ht, List.findSome?_eq_none_iff]
  simp only [bears_iff hr ho ht he, not_and, Option.eq_none_iff_forall_ne_some, ne_eq]
  exact ⟨fun h d raws hd => h d hd raws, fun h d hd raws => h d raws hd⟩

theorem Foremost.valuesOf_eq (hr : r.Built) (ho : r.LowercaseOids) (ht : t ∈ r.types)
    (he : e.Built) (h : e.Foremost r t description raws) : e.valuesOf t = some raws :=
  (valuesOf_eq_some_iff hr ho ht he).mpr ⟨description, h⟩

/-- If the entry has anything of the type, one description is foremost. -/
theorem Bears.exists_foremost (hr : r.Built) (ho : r.LowercaseOids) (ht : t ∈ r.types)
    (he : e.Built) (h : e.Bears r t description raws) :
    ∃ description' raws', e.Foremost r t description' raws' := by
  cases hvalues : e.valuesOf t with
  | none => exact absurd h ((valuesOf_eq_none_iff hr ho ht he).mp hvalues description raws)
  | some raws' =>
    obtain ⟨description', hfore⟩ := (valuesOf_eq_some_iff hr ho ht he).mp hvalues
    exact ⟨description', raws', hfore⟩

theorem has_iff (hr : r.Built) (ho : r.LowercaseOids) (ht : t ∈ r.types) (he : e.Built) :
    e.has t = true ↔ ∃ description raws, e.Foremost r t description raws ∧ raws ≠ [] := by
  have hhas : e.has t = true ↔ ∃ raws, e.valuesOf t = some raws ∧ raws ≠ [] := by
    rw [has]
    rcases e.valuesOf t with _ | _ | ⟨raw, raws⟩ <;> simp
  simp only [hhas, valuesOf_eq_some_iff hr ho ht he]
  constructor
  · rintro ⟨raws, ⟨description, hfore⟩, hne⟩
    exact ⟨description, raws, hfore, hne⟩
  · rintro ⟨description, raws, hfore, hne⟩
    exact ⟨raws, ⟨description, hfore⟩, hne⟩

/-- Nothing of the type is missed when all of it is under the foremost description. -/
theorem subset_valuesOf_iff (hr : r.Built) (ho : r.LowercaseOids) (ht : t ∈ r.types)
    (he : e.Built) :
    (∀ description raws, e.Bears r t description raws → raws ⊆ (e.valuesOf t).getD []) ↔
      ∀ first raws, e.Foremost r t first raws →
        ∀ description raws', e.Bears r t description raws' → raws' ⊆ raws := by
  constructor
  · intro hall first raws hfore description raws' hbears
    have hsub := hall description raws' hbears
    rwa [hfore.valuesOf_eq hr ho ht he] at hsub
  · intro hcontained description raws hbears
    obtain ⟨first, raws', hfore⟩ := hbears.exists_foremost hr ho ht he
    rw [hfore.valuesOf_eq hr ho ht he]
    exact hcontained first raws' hfore description raws hbears

/-- The entry is said to have a value when it has one, unless the list that hides the others is
empty. -/
theorem has_iff_exists_iff (hr : r.Built) (ho : r.LowercaseOids) (ht : t ∈ r.types)
    (he : e.Built) :
    (e.has t = true ↔ ∃ description raws, e.Bears r t description raws ∧ raws ≠ []) ↔
      ∀ first, e.Foremost r t first [] →
        ∀ description raws, e.Bears r t description raws → raws = [] := by
  rw [has_iff hr ho ht he]
  constructor
  · intro hiff first hfore description raws hbears
    by_contra hne
    obtain ⟨first', raws', hfore', hne'⟩ := hiff.mpr ⟨description, raws, hbears, hne⟩
    have hsame := (hfore.valuesOf_eq hr ho ht he).symm.trans (hfore'.valuesOf_eq hr ho ht he)
    exact hne' (Option.some.inj hsame).symm
  · intro hempty
    constructor
    · rintro ⟨first, raws, hfore, hne⟩
      exact ⟨first, raws, hfore.1, hne⟩
    · rintro ⟨description, raws, hbears, hne⟩
      obtain ⟨first, raws', hfore⟩ := hbears.exists_foremost hr ho ht he
      refine ⟨first, raws', hfore, ?_⟩
      rintro rfl
      exact hne (hempty first hfore description raws hbears)

/-- **What an entry has of a type is found as far as it stands under the foremost description.** The
values that are looked up are those under this description, and so they are values of the type. None
is missed exactly when this list contains those under all other descriptions of the type, and
whether there is a value at all is answered rightly unless this list is empty and another is not.
With one description for the type, nothing is missed. -/
theorem valuesOf_complete_iff (hr : r.Built) (ho : r.LowercaseOids) (ht : t ∈ r.types)
    (he : e.Built) :
    (∀ raws, e.valuesOf t = some raws ↔ ∃ description, e.Foremost r t description raws) ∧
    (∀ raw ∈ (e.valuesOf t).getD [],
      ∃ description raws, e.Bears r t description raws ∧ raw ∈ raws) ∧
    ((∀ description raws, e.Bears r t description raws → raws ⊆ (e.valuesOf t).getD []) ↔
      ∀ first raws, e.Foremost r t first raws →
        ∀ description raws', e.Bears r t description raws' → raws' ⊆ raws) ∧
    ((e.has t = true ↔ ∃ description raws, e.Bears r t description raws ∧ raws ≠ []) ↔
      ∀ first, e.Foremost r t first [] →
        ∀ description raws, e.Bears r t description raws → raws = []) ∧
    ((∀ description raws description' raws', e.Bears r t description raws →
        e.Bears r t description' raws' → description = description') →
      (∀ description raws, e.Bears r t description raws → raws ⊆ (e.valuesOf t).getD []) ∧
        (e.has t = true ↔ ∃ description raws, e.Bears r t description raws ∧ raws ≠ [])) := by
  refine ⟨fun raws => valuesOf_eq_some_iff hr ho ht he, ?_, subset_valuesOf_iff hr ho ht he,
    has_iff_exists_iff hr ho ht he, fun hone => ?_⟩
  · intro raw hraw
    cases hvalues : e.valuesOf t with
    | none => simp [hvalues] at hraw
    | some raws =>
      rw [hvalues] at hraw
      obtain ⟨description, hfore⟩ := (valuesOf_eq_some_iff hr ho ht he).mp hvalues
      exact ⟨description, raws, hfore.1, hraw⟩
  · -- one description, and so one list
    have hsame : ∀ first raws, e.Foremost r t first raws →
        ∀ description raws', e.Bears r t description raws' → raws' = raws := by
      intro first raws hfore description raws' hbears
      obtain rfl := hone _ _ _ _ hbears hfore.1
      have hfind := ((bears_iff hr ho ht he).mp hbears).2
      exact Option.some.inj (hfind.symm.trans ((bears_iff hr ho ht he).mp hfore.1).2)
    rw [has_iff_exists_iff hr ho ht he, subset_valuesOf_iff hr ho ht he]
    exact ⟨fun first raws hfore description raws' hbears raw hraw =>
        hsame first raws hfore description raws' hbears ▸ hraw,
      fun first hfore description raws => hsame first [] hfore description raws⟩

/-- Of two lists under names of one type, the foremost one contains the other. -/
theorem valuesOf_complete_iff_contained :
    let e := ofAttributes 1 "" [("commonName", ["a"]), ("CN", ["a", "b"])]
    e.Built ∧ e.Bears .people .commonName "commonname" ["a"] ∧
      e.valuesOf .commonName = some ["a", "b"] ∧
      ∀ description raws, e.Bears .people .commonName description raws →
        raws ⊆ (e.valuesOf .commonName).getD [] := by
  intro e
  have he : e.Built := built_ofAttributes _ _ _
  obtain ⟨hfound, -, hcomplete, -⟩ := valuesOf_complete_iff Registry.built_people
    Registry.lowercaseOids_people (List.mem_singleton.mpr rfl) he
  have hlists : e.attributes.toList = [("cn", ["a", "b"]), ("commonname", ["a"])] := by
    decide +kernel
  have hfore : e.Foremost .people .commonName "cn" ["a", "b"] :=
    ⟨⟨by simp [hlists], by decide +kernel⟩, [], ["commonname", "2.5.4.3"], rfl, by simp⟩
  have hvalues : e.valuesOf .commonName = some ["a", "b"] := (hfound _).mpr ⟨"cn", hfore⟩
  refine ⟨he, ⟨by simp [hlists], by decide +kernel⟩, hvalues, hcomplete.mpr ?_⟩
  intro first raws hfirst description raws' hbears
  obtain rfl : raws = ["a", "b"] :=
    Option.some.inj (((hfound raws).mpr ⟨first, hfirst⟩).symm.trans hvalues)
  have hmem := hbears.1
  simp only [hlists, List.mem_cons, Prod.mk.injEq, List.not_mem_nil, or_false] at hmem
  rcases hmem with ⟨-, rfl⟩ | ⟨-, rfl⟩ <;> simp

/-- The empty list under one name of a type hides the value under another one. -/
theorem exists_hidden_value :
    let e := ofAttributes 1 "" [("cn", []), ("commonName", ["b"])]
    Registry.people.Built ∧ Registry.people.LowercaseOids ∧ .commonName ∈ Registry.people.types ∧
      e.Built ∧ (∀ b ∈ e.attributes.toList, Registry.people.resolve b.1 = .ok .commonName) ∧
      e.Bears .people .commonName "commonname" ["b"] ∧ e.valuesOf .commonName = some [] ∧
      e.has .commonName = false := by
  intro e
  exact ⟨Registry.built_people, Registry.lowercaseOids_people, List.mem_singleton.mpr rfl,
    built_ofAttributes _ _ _, by decide +kernel, ⟨by decide +kernel, by decide +kernel⟩,
    by decide +kernel, by decide +kernel⟩

end Entry

end Directory
