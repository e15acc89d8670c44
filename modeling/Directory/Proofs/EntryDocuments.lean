import Directory.Proofs.CanonicalTrees
import Mathlib.Data.List.Induction

/-!
# Entries and their attributes objects

An attributes object lists values under keys. Decoding it puts the lists under the lowercase forms of
their keys, where several keys may meet. An entry is read here as the list of its values, each with
its description (`Entry.values`).

* `Entry.find?_ofAttributes`: under a description there are the lists of all keys that are this
  description in lowercase, one after the other;
* `Entry.values_ofAttributes`: all in all these are the values that there were;
* `Entry.ofAttributes_eq_ofValues_iff`: adding the values one by one gives the same entry,
  unless a description has empty lists only;
* `Entry.decoded_attributes` puts this together for documents.

An object that repeats a key keeps its last list only, as every map does, so that the keys are those
of a map (`SortedMap.ofList`).
-/

namespace Directory

namespace SortedMap

variable {κ β : Type} [Ord κ] [Std.TransOrd κ] [Std.LawfulEqOrd κ] [DecidableEq κ]

theorem alter_alter (m : SortedMap κ β) (k : κ) (f g : Option β → β) :
    (m.alter k f).alter k g = m.alter k fun old => g (some (f old)) := by
  refine ext_find? fun c => ?_
  rw [find?_alter, find?_alter, find?_alter, find?_alter, if_pos rfl]
  split <;> rfl

/-- Of the bindings in a list, the last one with each key counts. -/
theorem mem_ofList_iff {bs : List (κ × β)} {b : κ × β} :
    b ∈ (ofList bs).toList ↔ (bs.filter fun c => c.1 == b.1).getLast? = some b := by
  have hmem : b ∈ ((ofList bs).toList.filter fun c => c.1 == b.1) ↔ b ∈ (ofList bs).toList := by
    simp
  rw [← hmem, filter_toList_ofList, Option.mem_toList]

theorem mem_of_mem_ofList {bs : List (κ × β)} {b : κ × β} (h : b ∈ (ofList bs).toList) :
    b ∈ bs := (List.mem_filter.mp (List.mem_of_getLast? (mem_ofList_iff.mp h))).1

/-- Every key of the list is bound. -/
theorem exists_mem_ofList {bs : List (κ × β)} {b : κ × β} (h : b ∈ bs) :
    ∃ v, (b.1, v) ∈ (ofList bs).toList := by
  have hne : (bs.filter fun c => c.1 == b.1) ≠ [] :=
    List.ne_nil_of_mem (List.mem_filter.mpr ⟨h, beq_self_eq_true b.1⟩)
  obtain ⟨c, hc⟩ := Option.ne_none_iff_exists'.mp (mt List.getLast?_eq_none_iff.mp hne)
  have hkey : c.1 = b.1 := beq_iff_eq.mp (List.mem_filter.mp (List.mem_of_getLast? hc)).2
  exact ⟨c.2, mem_ofList_iff.mpr (by rw [hc, ← hkey])⟩

/-- The keys that are bound are those of the list. -/
theorem exists_key_ofList_iff {bs : List (κ × β)} (p : κ → Prop) :
    (∃ b ∈ (ofList bs).toList, p b.1) ↔ ∃ b ∈ bs, p b.1 := by
  constructor
  · rintro ⟨b, hb, hkey⟩
    exact ⟨b, mem_of_mem_ofList hb, hkey⟩
  · rintro ⟨b, hb, hkey⟩
    obtain ⟨v, hv⟩ := exists_mem_ofList hb
    exact ⟨(b.1, v), hv, hkey⟩

/-- Bindings without repeated keys are all kept. -/
theorem perm_ofList {bs : List (κ × β)} (h : (bs.map Prod.fst).Nodup) :
    (ofList bs).toList.Perm bs := by
  have hnodup : (ofList bs).toList.Nodup :=
    (ofList bs).ascending.imp fun {a b} hab (heq : a = b) => not_compare_self_lt a.1 (heq ▸ hab)
  refine (List.perm_ext_iff_of_nodup hnodup (h.of_map _)).mpr fun b => ?_
  refine ⟨mem_of_mem_ofList, fun hb => ?_⟩
  obtain ⟨v, hv⟩ := exists_mem_ofList hb
  have hsame := List.inj_on_of_nodup_map h hb (mem_of_mem_ofList hv) rfl
  rwa [hsame]

end SortedMap

namespace Entry

open Json

/-! ### Values under descriptions -/

/-- The lists of all keys that are this description in lowercase, one after the other. -/
def valuesUnder (as : List (String × List String)) (description : String) : List String :=
  (as.filter fun a => lowercase a.1 == description).flatMap Prod.snd

/-- The values of the entry, each with its description. -/
def values (e : Entry) : List (String × String) :=
  e.attributes.toList.flatMap fun b => b.2.map fun raw => (b.1, raw)

variable {e : Entry} {as : List (String × List String)} {description : String}

theorem valuesUnder_cons (a : String × List String) (as : List (String × List String))
    (description : String) :
    valuesUnder (a :: as) description =
      (if lowercase a.1 == description then a.2 else []) ++ valuesUnder as description := by
  rw [valuesUnder, List.filter_cons]
  split <;> rfl

theorem valuesUnder_eq_nil (h : (as.any fun a => lowercase a.1 == description) = false) :
    valuesUnder as description = [] := by
  rw [valuesUnder, List.filter_eq_nil_iff.mpr (List.any_eq_false.mp h)]
  rfl

theorem find?_addValues (e : Entry) (key : String) (raws : List String) (description : String) :
    (e.addValues key raws).attributes.find? description =
      if lowercase key == description then some ((e.attributes.find? description).getD [] ++ raws)
      else e.attributes.find? description := by
  have hfind : (e.addValues key raws).attributes.find? description =
      if description = lowercase key then
        some ((e.attributes.find? (lowercase key)).getD [] ++ raws)
      else e.attributes.find? description := SortedMap.find?_alter ..
  rw [hfind]
  by_cases hkey : lowercase key = description
  · rw [hkey, if_pos rfl, if_pos (beq_self_eq_true description)]
  · rw [if_neg (Ne.symm hkey), beq_false_of_ne hkey]
    rfl

theorem find?_foldl_addValues (e : Entry) (as : List (String × List String))
    (description : String) :
    (as.foldl (fun e a => e.addValues a.1 a.2) e).attributes.find? description =
      if as.any fun a => lowercase a.1 == description then
        some ((e.attributes.find? description).getD [] ++ valuesUnder as description)
      else e.attributes.find? description := by
  induction as generalizing e with
  | nil => rfl
  | cons a as ih =>
    rw [List.foldl_cons, ih, find?_addValues, valuesUnder_cons, List.any_cons]
    cases hkey : lowercase a.1 == description with
    | false => rfl
    | true =>
      simp only [if_true, Bool.true_or, Option.getD_some, List.append_assoc]
      split
      · rfl
      · next hnone => rw [valuesUnder_eq_nil (Bool.not_eq_true _ ▸ hnone), List.append_nil]

/-- What stands under a description. -/
theorem find?_ofAttributes (id : EntryId) (dn : String) (as : List (String × List String))
    (description : String) :
    (ofAttributes id dn as).attributes.find? description =
      if as.any fun a => lowercase a.1 == description then some (valuesUnder as description)
      else none :=
  find?_foldl_addValues (.new id dn) as description

theorem ofAttributes_id_dn (id : EntryId) (dn : String) (as : List (String × List String)) :
    (ofAttributes id dn as).id = id ∧ (ofAttributes id dn as).dn = dn := by
  rw [ofAttributes, foldl_addValues_eq]
  exact ⟨rfl, rfl⟩

/-- Entries are equal when the same stands under every description. -/
theorem ext_find? {e e' : Entry} (hid : e.id = e'.id) (hdn : e.dn = e'.dn)
    (h : ∀ description, e.attributes.find? description = e'.attributes.find? description) :
    e = e' := by
  obtain ⟨id, dn, attributes⟩ := e
  obtain ⟨id', dn', attributes'⟩ := e'
  cases hid
  cases hdn
  exact congrArg (Entry.mk id dn) (SortedMap.ext_find? h)

/-! ### No value is lost -/

/-- Values that are appended under a key are there besides those that were there. -/
theorem perm_alterList (key : String) (raws : List String) (bs : List (String × List String)) :
    ((SortedMap.alterList key (fun old => old.getD [] ++ raws) bs).flatMap fun b =>
      b.2.map fun raw => (b.1, raw)).Perm
    ((bs.flatMap fun b => b.2.map fun raw => (b.1, raw)) ++ raws.map fun raw => (key, raw)) := by
  induction bs with
  | nil => simp [SortedMap.alterList]
  | cons b bs ih =>
    rw [SortedMap.alterList]
    split
    · rw [List.flatMap_cons]
      exact List.perm_append_comm
    · next hkey =>
      obtain rfl := Std.LawfulEqOrd.eq_of_compare hkey
      rw [List.flatMap_cons, List.flatMap_cons, Option.getD_some, List.map_append,
        List.append_assoc, List.append_assoc]
      exact List.Perm.append_left _ List.perm_append_comm
    · rw [List.flatMap_cons, List.flatMap_cons, List.append_assoc]
      exact ih.append_left _

theorem values_foldl_addValues (e : Entry) (as : List (String × List String)) :
    (as.foldl (fun e a => e.addValues a.1 a.2) e).values.Perm
      (e.values ++ as.flatMap fun a => a.2.map fun raw => (lowercase a.1, raw)) := by
  induction as generalizing e with
  | nil => rw [List.flatMap_nil, List.append_nil]; exact List.Perm.refl _
  | cons a as ih =>
    rw [List.foldl_cons, List.flatMap_cons, ← List.append_assoc]
    have hstep : (e.addValues a.1 a.2).values.Perm
        (e.values ++ a.2.map fun raw => (lowercase a.1, raw)) := perm_alterList _ _ _
    exact (ih _).trans (hstep.append_right _)

/-- The values of the entry are those that there were, each under its key in lowercase. -/
theorem values_ofAttributes (id : EntryId) (dn : String) (as : List (String × List String)) :
    (ofAttributes id dn as).values.Perm
      (as.flatMap fun a => a.2.map fun raw => (lowercase a.1, raw)) :=
  values_foldl_addValues (.new id dn) as

/-! ### One value after the other -/

/-- The entry with values that are added one after the other. -/
def ofValues (id : EntryId) (dn : String) (vs : List (String × String)) : Entry :=
  vs.foldl (fun e v => e.addValue v.1 v.2) (.new id dn)

theorem addValues_addValue (e : Entry) (key : String) (raws : List String) (raw : String) :
    (e.addValues key raws).addValue key raw = e.addValues key (raws ++ [raw]) := by
  rw [addValue, addValues, addValues, addValues]
  simp only [SortedMap.alter_alter, Option.getD_some, List.append_assoc]

/-- A list of values that is not empty can be added as a whole or value by value. -/
theorem foldl_addValue_eq (e : Entry) (key : String) {raws : List String} (h : raws ≠ []) :
    raws.foldl (fun e raw => e.addValue key raw) e = e.addValues key raws := by
  induction raws using List.reverseRecOn with
  | nil => exact absurd rfl h
  | append_singleton raws raw ih =>
    rw [List.foldl_append, List.foldl_cons, List.foldl_nil]
    rcases List.eq_nil_or_concat raws with rfl | ⟨_, _, rfl⟩
    · rfl
    · rw [ih (by simp), addValues_addValue]

/-- Adding the values one by one is adding the lists that are not empty. -/
theorem ofValues_flatMap (id : EntryId) (dn : String) (as : List (String × List String)) :
    ofValues id dn (as.flatMap fun a => a.2.map fun raw => (a.1, raw)) =
      ofAttributes id dn (as.filter fun a => !a.2.isEmpty) := by
  rw [ofValues, ofAttributes]
  generalize new id dn = e
  induction as generalizing e with
  | nil => rfl
  | cons a as ih =>
    rw [List.flatMap_cons, List.foldl_append, List.foldl_map, ih, List.filter_cons]
    cases hraws : a.2 with
    | nil => rfl
    | cons raw raws =>
      have hne : a.2 ≠ [] := by rw [hraws]; exact List.cons_ne_nil raw raws
      have hadd : a.2.foldl (fun e raw => e.addValue a.1 raw) e = e.addValues a.1 a.2 :=
        foldl_addValue_eq e a.1 hne
      rw [← hraws, hadd]
      simp [hraws]

/-- Lists that are empty add nothing to a description. -/
theorem valuesUnder_filter (as : List (String × List String)) (description : String) :
    valuesUnder (as.filter fun a => !a.2.isEmpty) description = valuesUnder as description := by
  induction as with
  | nil => rfl
  | cons a as ih =>
    rw [List.filter_cons, valuesUnder_cons]
    cases hraws : a.2 with
    | nil =>
      rw [ite_self, List.nil_append]
      exact ih
    | cons raw raws =>
      show valuesUnder (a :: _) description = _
      rw [valuesUnder_cons, ih, hraws]

/-- Adding the values one by one gives the same entry just if no description has only empty lists. -/
theorem ofAttributes_eq_ofValues_iff (id : EntryId) (dn : String)
    (as : List (String × List String)) :
    ofAttributes id dn as = ofValues id dn (as.flatMap fun a => a.2.map fun raw => (a.1, raw)) ↔
      ∀ a ∈ as, ∃ c ∈ as, lowercase c.1 = lowercase a.1 ∧ c.2 ≠ [] := by
  have hany : ∀ description,
      ((as.filter fun a => !a.2.isEmpty).any fun a => lowercase a.1 == description) = true ↔
        ∃ c ∈ as, lowercase c.1 = description ∧ c.2 ≠ [] := by
    intro description
    simp only [List.any_eq_true, List.mem_filter, Bool.not_eq_true', List.isEmpty_eq_false_iff,
      beq_iff_eq, and_assoc, and_comm]
  rw [ofValues_flatMap]
  constructor
  · intro heq a ha
    have hfind := congrArg (fun e => e.attributes.find? (lowercase a.1)) heq
    simp only [find?_ofAttributes] at hfind
    have hused : (as.any fun c => lowercase c.1 == lowercase a.1) = true :=
      List.any_eq_true.mpr ⟨a, ha, beq_self_eq_true _⟩
    rw [if_pos hused] at hfind
    refine (hany _).mp ?_
    by_contra hnone
    rw [if_neg hnone] at hfind
    cases hfind
  · intro hall
    obtain ⟨hid, hdn⟩ := ofAttributes_id_dn id dn as
    obtain ⟨hid', hdn'⟩ := ofAttributes_id_dn id dn (as.filter fun a => !a.2.isEmpty)
    refine ext_find? (hid.trans hid'.symm) (hdn.trans hdn'.symm) fun description => ?_
    rw [find?_ofAttributes, find?_ofAttributes, valuesUnder_filter]
    refine if_congr ?_ rfl rfl
    rw [hany, List.any_eq_true]
    constructor
    · rintro ⟨a, ha, hkey⟩
      rw [beq_iff_eq] at hkey
      exact hkey ▸ hall a ha
    · rintro ⟨c, hc, hkey, -⟩
      exact ⟨c, hc, beq_iff_eq.mpr hkey⟩

/-! ### What is shown -/

/-- Bindings that are made in the order of the keys stay in their places. -/
theorem toList_ofList_map {α β : Type} (f : α → β) (m : SortedMap String α) :
    (SortedMap.ofList (m.toList.map fun b => (b.1, f b.2))).toList =
      m.toList.map fun b => (b.1, f b.2) :=
  SortedMap.toList_foldl_alter (m := .empty) (fun _ _ => rfl) (List.pairwise_map.mpr m.ascending)

theorem toList_ofList_fields (id dn attributes : Json) :
    (SortedMap.ofList [("id", id), ("dn", dn), ("attributes", attributes)]).toList =
      [("attributes", attributes), ("dn", dn), ("id", id)] := by
  have hdn : compare "dn" "id" = .lt := by decide +kernel
  have hattributes : compare "attributes" "dn" = .lt := by decide +kernel
  simp [SortedMap.ofList, SortedMap.insert, SortedMap.alter, SortedMap.alterList, SortedMap.empty,
    hdn, hattributes]

/-- What is shown of an entry are the members of its JSON, in the order of their keys. -/
theorem shown_eq (e : Entry) :
    e.shown = record [("attributes", ofMap (list text) e.attributes), ("dn", text e.dn),
      ("id", natural e.id.toNat)] := by
  rw [shown, ofMap, ofMap, toList_ofList_fields, List.map_id', toList_ofList_map, List.map_id', ofMap]

theorem sorted_ofMap_list_text (m : SortedMap String (List String)) :
    (ofMap (list text) m).sorted = ofMap (list text) m := by
  have hlist : ∀ raws : List String, (list text raws).sorted = list text raws := fun raws => by
    rw [list, sorted_array, List.map_map]
    rfl
  rw [ofMap, sorted_record, canonicalMembers, List.map_map]
  simp only [Function.comp_def, hlist, toList_ofList_map]

/-- What is shown of an entry is its JSON in canonical form. -/
theorem shown_eq_sorted (e : Entry) : e.shown = e.toJson.sorted := by
  rw [shown_eq, toJson, sorted_record, canonicalMembers]
  simp only [List.map_cons, List.map_nil, sorted_ofMap_list_text, toList_ofList_fields]
  rfl

/-! ### Documents -/

/-- An attributes object with these keys and lists. -/
def attributesObject (ms : List (String × List String)) : Json :=
  record (ms.map fun m => (m.1, list text m.2))

/-- The document of an entry with these attributes, as they are written. -/
def document (id : EntryId) (dn : String) (ms : List (String × List String)) : Json :=
  record [("id", natural id.toNat), ("dn", text dn), ("attributes", attributesObject ms)]

theorem plain_document (id : EntryId) (dn : String) (ms : List (String × List String)) :
    (document id dn ms).Plain := by
  have hattributes : (attributesObject ms).Plain :=
    .record (List.forall_mem_map.mpr fun m _ => plain_list plain_text m.2)
  exact .record (by simp [hattributes])

theorem decoder_document (id : EntryId) (dn : String) (ms : List (String × List String))
    (n : Nat) : Entry.decoder (n + 3) (document id dn ms) =
      some (ofDocument id dn (.ofList ms)) := by
  have hattributes : Decoder.keyed (.list .text) (n + 2) (attributesObject ms) =
      some (.ofList ms) := Decoder.keyed_record fun m _ => Decoder.list_text n m.2
  -- a proof by evaluation would count up to the greatest word
  simp -implicitDefEqProofs [decoder, document, Decoder.fields_record, hattributes]

/-- The entry that is read. -/
theorem read_document (id : EntryId) (dn : String) (ms : List (String × List String)) :
    (parse (document id dn ms).print).bind (decode Entry.decoder) =
      some (ofAttributes id dn (SortedMap.ofList ms).toList) := by
  have hdecode : decode Entry.decoder (document id dn ms) = some (ofDocument id dn (.ofList ms)) :=
    decoder_document id dn ms 124
  rw [parse_print (plain_document id dn ms), Option.bind_some, hdecode, ofDocument]

/-- What the entry has under its descriptions, and these are the keys in lowercase. -/
theorem mem_ofAttributes_iff {id : EntryId} {dn : String} {as : List (String × List String)}
    {b : String × List String} :
    b ∈ (ofAttributes id dn as).attributes.toList ↔
      (∃ a ∈ as, lowercase a.1 = b.1) ∧ b.2 = valuesUnder as b.1 := by
  have hany : (as.any fun a => lowercase a.1 == b.1) = true ↔ ∃ a ∈ as, lowercase a.1 = b.1 := by
    simp only [List.any_eq_true, beq_iff_eq]
  rw [← SortedMap.find?_eq_some_iff, find?_ofAttributes, ← hany]
  split
  · next hused => rw [Option.some_inj, eq_comm, and_iff_right hused]
  · next hunused => exact iff_of_false (fun h => nomatch h) fun h => hunused h.1

/-- **Decoding the attributes of an entry.** Let an attributes object be given. What is written in it
is a list for each key, by the order of the keys; if a key is repeated, the last list counts, and if
none is, these are all the lists that there are. The document of an entry with this object is read,
and then the descriptions of the entry are the keys in lowercase, and under each of them there are
the lists of all keys of which it is the lowercase form, one after the other. So every value that is
written is a value of the entry, as often as it is written, and there are no others. The entry is the
one to which these values are added one by one, if no list is empty, and generally just if every
description has a list that is not. What is shown of it has the members of its JSON and is the
canonical form of it. -/
theorem decoded_attributes (id : EntryId) (dn : String) (ms : List (String × List String)) :
    let written := (SortedMap.ofList ms).toList
    (written.Pairwise fun a b => compare a.1 b.1 = .lt) ∧
      (∀ a, a ∈ written ↔ (ms.filter fun m => m.1 == a.1).getLast? = some a) ∧
      ((ms.map Prod.fst).Nodup → written.Perm ms) ∧
      ∃ e, (parse (document id dn ms).print).bind (decode Entry.decoder) = some e ∧
        e.id = id ∧ e.dn = dn ∧
        (∀ description, (∃ raws, (description, raws) ∈ e.attributes.toList) ↔
          ∃ m ∈ ms, lowercase m.1 = description) ∧
        (∀ b ∈ e.attributes.toList, b.2 = valuesUnder written b.1) ∧
        e.values.Perm (written.flatMap fun a => a.2.map fun raw => (lowercase a.1, raw)) ∧
        ((∀ a ∈ written, a.2 ≠ []) →
          e = ofValues id dn (written.flatMap fun a => a.2.map fun raw => (a.1, raw))) ∧
        (e = ofValues id dn (written.flatMap fun a => a.2.map fun raw => (a.1, raw)) ↔
          ∀ a ∈ written, ∃ c ∈ written, lowercase c.1 = lowercase a.1 ∧ c.2 ≠ []) ∧
        (∃ members, e.shown = record members ∧
          ∃ members', e.toJson = record members' ∧ members.Perm members') ∧
        e.shown = e.toJson.sorted := by
  intro written
  refine ⟨(SortedMap.ofList ms).ascending, fun a => SortedMap.mem_ofList_iff, SortedMap.perm_ofList,
    ofAttributes id dn written, read_document id dn ms, (ofAttributes_id_dn id dn written).1,
    (ofAttributes_id_dn id dn written).2, fun description => ?_,
    fun b hb => (mem_ofAttributes_iff.mp hb).2,
    values_ofAttributes id dn written, fun hne => ?_, ofAttributes_eq_ofValues_iff id dn written,
    ⟨_, shown_eq _, _, rfl, List.reverse_perm [_, _, _]⟩, shown_eq_sorted _⟩
  · rw [← SortedMap.exists_key_ofList_iff fun key => lowercase key = description]
    constructor
    · rintro ⟨raws, hb⟩
      exact (mem_ofAttributes_iff.mp hb).1
    · intro hkey
      exact ⟨valuesUnder written description, mem_ofAttributes_iff.mpr ⟨hkey, rfl⟩⟩
  · exact (ofAttributes_eq_ofValues_iff id dn written).mpr fun a ha => ⟨a, ha, rfl, hne a ha⟩

/-- Keys that are the same in lowercase, one of them a letter whose lowercase form is longer. -/
theorem decoded_attributes_merged :
    let ms := [("İ", ["c"]), ("cn", ["b", "a"]), ("i\u0307", ["d"]), ("CN", ["a"])]
    (ms.map Prod.fst).Nodup ∧ (SortedMap.ofList ms).toList.Perm ms ∧
      (∀ a ∈ (SortedMap.ofList ms).toList, a.2 ≠ []) ∧
      ∃ e, (parse (document 1 "" ms).print).bind (decode Entry.decoder) = some e ∧
        (∃ raws, ("i\u0307", raws) ∈ e.attributes.toList ∧ raws = ["d", "c"]) ∧
        e = ofValues 1 "" [("CN", "a"), ("cn", "b"), ("cn", "a"), ("i\u0307", "d"), ("İ", "c")] := by
  intro ms
  have hnodup : (ms.map Prod.fst).Nodup := by decide +kernel
  have hne : ∀ a ∈ (SortedMap.ofList ms).toList, a.2 ≠ [] := by decide +kernel
  obtain ⟨-, -, hperm, e, hread, -, -, hdescriptions, hvalues, -, hone, -⟩ :=
    decoded_attributes 1 "" ms
  obtain ⟨raws, hraws⟩ := (hdescriptions "i\u0307").mpr ⟨("İ", ["c"]), by decide, by decide +kernel⟩
  have hunder : valuesUnder (SortedMap.ofList ms).toList "i\u0307" = ["d", "c"] := by decide +kernel
  have hwritten : ((SortedMap.ofList ms).toList.flatMap fun a => a.2.map fun raw => (a.1, raw)) =
      [("CN", "a"), ("cn", "b"), ("cn", "a"), ("i\u0307", "d"), ("İ", "c")] := by decide +kernel
  exact ⟨hnodup, hperm hnodup, hne, e, hread, ⟨raws, hraws, (hvalues _ hraws).trans hunder⟩,
    hwritten ▸ hone hne⟩

/-- Of two lists that are written under one and the same key the first is not read. -/
theorem exists_unread_list :
    let ms := [("cn", ["a"]), ("cn", ["b"])]
    ∃ e, (parse (document 1 "" ms).print).bind (decode Entry.decoder) = some e ∧
      e.attributes.find? "cn" = some ["b"] ∧ valuesUnder ms "cn" = ["a", "b"] ∧
      e ≠ ofValues 1 "" (ms.flatMap fun a => a.2.map fun raw => (a.1, raw)) := by
  intro ms
  have hfind : (ofAttributes 1 "" (SortedMap.ofList ms).toList).attributes.find? "cn" =
      some ["b"] := by decide +kernel
  refine ⟨_, read_document 1 "" ms, hfind, by decide +kernel, fun heq => ?_⟩
  rw [heq] at hfind
  exact absurd hfind (by decide +kernel)

end Entry

end Directory
