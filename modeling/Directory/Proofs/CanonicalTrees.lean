import Directory.Json.Canonical
import Directory.Proofs.Documents
import Directory.Proofs.Sorted

/-!
# Decoding canonical trees

Bringing a tree into canonical form drops all but the last of the members with the same key, and a
decoder may notice: it refuses a record in which a known member repeats. It notices nothing else
(`ReadsFields.sorted`). Nor does it notice more allowance than the tree needs
(`ReadsFields.steady`).
-/

namespace Directory

/-! ### Maps made from lists -/

namespace SortedMap

variable {κ β : Type} [Ord κ] [Std.TransOrd κ] [Std.LawfulEqOrd κ] [DecidableEq κ]

theorem find?_foldl_insert (bs : List (κ × β)) (m : SortedMap κ β) (k : κ) :
    (bs.foldl (fun m b => m.insert b.1 b.2) m).find? k =
      ((bs.filter fun b => b.1 == k).getLast?.map Prod.snd).or (m.find? k) := by
  induction bs generalizing m with
  | nil => rfl
  | cons b bs ih =>
    rw [List.foldl_cons, ih, find?_insert, List.filter_cons]
    by_cases hk : b.1 = k
    · subst hk
      simp only [beq_self_eq_true, if_true, List.getLast?_cons]
      cases (bs.filter fun c => c.1 == b.1).getLast? <;> rfl
    · simp [hk, Ne.symm hk]

/-- A map binds a key once at most. -/
theorem filter_toList (m : SortedMap κ β) (k : κ) :
    (m.toList.filter fun b => b.1 == k) = (m.find? k).toList.map fun v => (k, v) := by
  have hmem : ∀ b, b ∈ (m.toList.filter fun b => b.1 == k) ↔ b.1 = k ∧ m.find? k = some b.2 := by
    intro b
    rw [List.mem_filter, beq_iff_eq, find?_eq_some_iff, and_comm]
    exact and_congr_right fun hk => by rw [← hk]
  have hasc := m.ascending.filter fun b => b.1 == k
  generalize (m.toList.filter fun b => b.1 == k) = bs at hmem hasc ⊢
  rcases bs with _ | ⟨b, _ | ⟨c, bs⟩⟩
  · cases hfind : m.find? k with
    | none => rfl
    | some v => exact absurd ((hmem (k, v)).mpr ⟨rfl, hfind⟩) List.not_mem_nil
  · obtain ⟨rfl, hfind⟩ := (hmem b).mp List.mem_cons_self
    rw [hfind]
    rfl
  · have hlt := (List.pairwise_cons.mp hasc).1 c List.mem_cons_self
    rw [((hmem b).mp (by simp)).1, ((hmem c).mp (by simp)).1] at hlt
    exact absurd hlt (not_compare_self_lt k)

/-- Of the bindings of a key the last one is left. -/
theorem filter_toList_ofList (bs : List (κ × β)) (k : κ) :
    ((ofList bs).toList.filter fun b => b.1 == k) =
      (bs.filter fun b => b.1 == k).getLast?.toList := by
  have hnone : (empty : SortedMap κ β).find? k = none := rfl
  rw [filter_toList, ofList, find?_foldl_insert, hnone, Option.or_none]
  cases hlast : (bs.filter fun b => b.1 == k).getLast? with
  | none => rfl
  | some b =>
    have hk := (List.mem_filter.mp (List.mem_of_getLast? hlast)).2
    rw [beq_iff_eq] at hk
    rw [← hk]
    rfl

end SortedMap

/-! ### Loops that may stop -/

section Loops

variable {α β : Type} {g g' : α → Option β} {as : List α} {bs : List β}

theorem forall₂_of_mapM_eq_some (h : as.mapM g = some bs) :
    List.Forall₂ (fun a b => g a = some b) as bs := by
  induction as generalizing bs with
  | nil =>
    cases h
    exact .nil
  | cons a as ih =>
    rw [List.mapM_cons] at h
    obtain ⟨b, hb, h⟩ := Option.bind_eq_some_iff.mp h
    obtain ⟨bs, hbs, h⟩ := Option.bind_eq_some_iff.mp h
    cases h
    exact .cons hb (ih hbs)

theorem mapM_congr_mem (h : ∀ a ∈ as, g a = g' a) : as.mapM g = as.mapM g' := by
  induction as with
  | nil => rfl
  | cons a as ih =>
    obtain ⟨ha, has⟩ := List.forall_mem_cons.mp h
    rw [List.mapM_cons, List.mapM_cons, ha, ih has]

end Loops

namespace Json

variable {j : Json} {m n : Nat} {names : List String}

/-! ### Canonical forms -/

theorem sortedItems_eq_map (js : List Json) : sortedItems js = js.map sorted := by
  induction js with
  | nil => rfl
  | cons j js ih => rw [sortedItems, ih, List.map_cons]

theorem sortedMembers_record (ms : List (String × Json)) :
    sortedMembers (ms.map fun m => (some m.1, m.2)) = ms.map fun m => (m.1, m.2.sorted) := by
  induction ms with
  | nil => rfl
  | cons m ms ih => rw [List.map_cons, sortedMembers, ih, List.map_cons]

theorem sorted_array (js : List Json) : (array js).sorted = array (js.map sorted) := by
  rw [sorted, sortedItems_eq_map]

/-- The members of a record in canonical form. -/
def canonicalMembers (ms : List (String × Json)) : List (String × Json) :=
  (SortedMap.ofList (ms.map fun m => (m.1, m.2.sorted))).toList

theorem sorted_record (ms : List (String × Json)) :
    (record ms).sorted = record (canonicalMembers ms) := by
  rw [record, sorted, sortedMembers_record]
  simp [ofMap, canonicalMembers]

theorem canonicalMembers_singleton (key : String) (j : Json) :
    canonicalMembers [(key, j)] = [(key, j.sorted)] := rfl

/-- The members with one key, of which the last is left. -/
theorem filter_canonicalMembers (ms : List (String × Json)) (key : String) :
    ((canonicalMembers ms).filter fun m => m.1 == key) =
      ((ms.filter fun m => m.1 == key).map fun m => (m.1, m.2.sorted)).getLast?.toList := by
  rw [canonicalMembers, SortedMap.filter_toList_ofList, List.filter_map]
  rfl

/-- Members with keys of their own of which one is left were no more than this. -/
theorem eq_singleton_of_canonicalMembers {ms : List (String × Json)} {key : String}
    (hms : (ms.map Prod.fst).Nodup) (h : canonicalMembers ms = [(key, j)]) :
    ∃ x, ms = [(key, x)] := by
  have hkey : ∀ m ∈ ms, m.1 = key := by
    intro m hm
    by_contra hne
    have hnone : ((canonicalMembers ms).filter fun x => x.1 == m.1) = [] := by
      simp [h, Ne.symm hne]
    rw [filter_canonicalMembers, Option.toList_eq_nil_iff, List.getLast?_eq_none_iff,
      List.map_eq_nil_iff] at hnone
    exact List.filter_eq_nil_iff.mp hnone m hm (beq_self_eq_true _)
  rcases ms with _ | ⟨m, _ | ⟨m', ms⟩⟩
  · cases h
  · exact ⟨m.2, by rw [← hkey m List.mem_cons_self]⟩
  · have hne := (List.nodup_cons.mp hms).1
    rw [hkey m (by simp), List.map_cons, hkey m' (by simp)] at hne
    exact absurd List.mem_cons_self hne

/-! ### Sound trees -/

theorem areItemsSound_iff {js : List Json} :
    areItemsSound n js = true ↔ ∀ j ∈ js, j.isSoundWithin n = true := by
  induction js with
  | nil => simp [areItemsSound]
  | cons j js ih => rw [areItemsSound, Bool.and_eq_true, ih, List.forall_mem_cons]

theorem areMembersSound_iff {ms : List (String × Json)} :
    areMembersSound n (ms.map fun m => (some m.1, m.2)) = true ↔
      ∀ m ∈ ms, m.2.isSoundWithin n = true := by
  induction ms with
  | nil => simp [areMembersSound]
  | cons m ms ih =>
    rw [List.map_cons, areMembersSound, Option.isSome_some, Bool.true_and, Bool.and_eq_true, ih,
      List.forall_mem_cons]

theorem isSoundWithin_of_mem_array {js : List Json} (h : (array js).isSoundWithin n = true)
    (hj : j ∈ js) : j.isSoundWithin (n - 1) = true := by
  rw [isSoundWithin, Bool.and_eq_true] at h
  exact areItemsSound_iff.mp h.2 j hj

theorem isSoundWithin_of_mem_record {ms : List (String × Json)} {m : String × Json}
    (h : (record ms).isSoundWithin n = true) (hm : m ∈ ms) :
    m.2.isSoundWithin (n - 1) = true := by
  rw [record, isSoundWithin, Bool.and_eq_true] at h
  exact areMembersSound_iff.mp h.2 m hm

/-- All keys of a sound object have texts. -/
theorem exists_record_of_isSoundWithin {members : List (Option String × Json)}
    (h : (object members).isSoundWithin n = true) :
    ∃ ms : List (String × Json), object members = record ms := by
  rw [isSoundWithin, Bool.and_eq_true] at h
  obtain ⟨-, h⟩ := h
  induction members with
  | nil => exact ⟨[], rfl⟩
  | cons m members ih =>
    obtain ⟨key, j⟩ := m
    simp only [areMembersSound, Bool.and_eq_true] at h
    obtain ⟨key, rfl⟩ := Option.isSome_iff_exists.mp h.1.1
    obtain ⟨ms, heq⟩ := ih h.2
    exact ⟨(key, j) :: ms, by rw [object.inj heq]; rfl⟩

theorem record_injective {ms ms' : List (String × Json)} (h : record ms = record ms') :
    ms = ms' := by
  have hinj : Function.Injective fun m : String × Json => (some m.1, m.2) := fun a b hab => by
    simp only [Prod.mk.injEq, Option.some.injEq] at hab
    exact Prod.ext hab.1 hab.2
  exact List.map_injective_iff.mpr hinj (object.inj h)

theorem object_eq_record {members : List (Option String × Json)} {ms : List (String × Json)}
    (h : namedMembers? members = some ms) : object members = record ms := by
  induction members generalizing ms with
  | nil =>
    cases h
    rfl
  | cons m members ih =>
    obtain ⟨_ | key, j⟩ := m
    · cases h
    · obtain ⟨ms, hms, rfl⟩ := Option.map_eq_some_iff.mp h
      rw [object.inj (ih hms)]
      rfl

/-! ### Depth -/

theorem depth_lt_record {ms : List (String × Json)} {m : String × Json} (hm : m ∈ ms) :
    m.2.depth < (record ms).depth := by
  have hle : m.2.depth ≤ depthMembers (ms.map fun m => (some m.1, m.2)) := by
    induction ms with
    | nil => cases hm
    | cons m' ms ih =>
      rw [List.map_cons, depthMembers]
      rcases List.mem_cons.mp hm with rfl | hm
      · exact Nat.le_max_left ..
      · exact (ih hm).trans (Nat.le_max_right ..)
  exact Nat.lt_succ_of_le hle

theorem depth_lt_array {js : List Json} (hj : j ∈ js) : j.depth < (array js).depth :=
  Nat.lt_succ_of_le (depthItems_le_iff.mp (Nat.le_refl _) j hj)

/-! ### Fields -/

namespace Decoder

/-- No name comes twice among the keys, if the tree is an object. -/
def NamesOnce (names : List String) : Json → Prop
  | .object members => ∀ name ∈ names, (members.filter fun m => m.1 == some name).length ≤ 1
  | _ => True

/-- The fields of a record as far as they are there, with any allowance. -/
def fieldValues (names : List String) : Json → Option (List (Option Json))
  | .object members => (namedMembers? members).bind (fieldsOf names)
  | .array items =>
    if items.length ≤ names.length then
      some (items.map some ++ List.replicate (names.length - items.length) none)
    else none
  | _ => none

theorem fields_zero (names : List String) (j : Json) : fields names 0 j = none := by
  cases j <;> rfl

theorem fields_succ (names : List String) (n : Nat) (j : Json) :
    fields names (n + 1) j = (fieldValues names j).map (n, ·) := by
  cases j with
  | object members =>
    rw [fields, fieldValues]
    cases namedMembers? members with
    | none => rfl
    | some ms => cases hms : fieldsOf names ms <;> simp [hms]
  | array items =>
    rw [fields, fieldValues]
    split <;> rfl
  | _ => rfl

/-- The member with the name, if there is just one or none. -/
def fieldNamed (ms : List (String × Json)) (name : String) : Option (Option Json) :=
  match ms.filter fun m => m.1 == name with
  | [] => some none
  | [m] => some (some m.2)
  | _ => none

theorem fieldsOf_eq (names : List String) (ms : List (String × Json)) :
    fieldsOf names ms = names.mapM (fieldNamed ms) := rfl

/-- The first member with the name. -/
def firstNamed (ms : List (String × Json)) (name : String) : Option Json :=
  (ms.filter fun m => m.1 == name).head?.map Prod.snd

theorem fieldNamed_eq_some_iff {ms : List (String × Json)} {name : String} {v : Option Json} :
    fieldNamed ms name = some v ↔
      (ms.filter fun m => m.1 == name).length ≤ 1 ∧ firstNamed ms name = v := by
  rw [fieldNamed, firstNamed]
  generalize (ms.filter fun m => m.1 == name) = found
  rcases found with _ | ⟨m, _ | ⟨m', ms⟩⟩ <;> simp

theorem length_filter_record (ms : List (String × Json)) (name : String) :
    ((ms.map fun m => (some m.1, m.2)).filter fun m => m.1 == some name).length =
      (ms.filter fun m => m.1 == name).length := by
  rw [List.filter_map, List.length_map]
  congr 1

theorem namesOnce_record {ms : List (String × Json)} : NamesOnce names (record ms) ↔
    ∀ name ∈ names, (ms.filter fun m => m.1 == name).length ≤ 1 := by
  simp only [record, NamesOnce, length_filter_record]

theorem fieldValues_record (names : List String) (ms : List (String × Json)) :
    fieldValues names (record ms) = fieldsOf names ms := by
  rw [record, fieldValues, namedMembers?_record, Option.bind_some]

/-- In a record in which no known name comes twice the fields are the first members. -/
theorem fieldsOf_eq_some {ms : List (String × Json)}
    (h : ∀ name ∈ names, (ms.filter fun m => m.1 == name).length ≤ 1) :
    fieldsOf names ms = some (names.map (firstNamed ms)) := by
  rw [fieldsOf_eq]
  exact mapM_eq_some fun name hname => fieldNamed_eq_some_iff.mpr ⟨h name hname, rfl⟩

theorem firstNamed_canonicalMembers {ms : List (String × Json)} {name : String}
    (h : (ms.filter fun m => m.1 == name).length ≤ 1) :
    firstNamed (canonicalMembers ms) name = (firstNamed ms name).map Json.sorted := by
  rw [firstNamed, firstNamed, filter_canonicalMembers]
  generalize (ms.filter fun m => m.1 == name) = found at h ⊢
  rcases found with _ | ⟨m, _ | ⟨m', ms⟩⟩
  · rfl
  · rfl
  · simp at h

theorem length_filter_canonicalMembers_le (ms : List (String × Json)) (name : String) :
    ((canonicalMembers ms).filter fun m => m.1 == name).length ≤ 1 := by
  rw [filter_canonicalMembers]
  cases List.getLast? _ <;> simp

/-- The fields of a sound record in canonical form. -/
theorem fieldValues_sorted (hj : j.isSoundWithin n = true) (h : NamesOnce names j) :
    fieldValues names j.sorted = (fieldValues names j).map (List.map (Option.map Json.sorted)) := by
  cases j with
  | object members =>
    obtain ⟨ms, heq⟩ := exists_record_of_isSoundWithin hj
    rw [heq] at h ⊢
    rw [namesOnce_record] at h
    rw [sorted_record, fieldValues_record, fieldValues_record, fieldsOf_eq_some h,
      fieldsOf_eq_some fun name _ => length_filter_canonicalMembers_le ms name, Option.map_some,
      List.map_map]
    congr 1
    exact List.map_congr_left fun name hname => firstNamed_canonicalMembers (h name hname)
  | array items =>
    rw [sorted_array, fieldValues, fieldValues, List.length_map]
    split <;> simp
  | _ => rfl

/-- Where a record is read no known name comes twice. -/
theorem namesOnce_of_fieldValues {vs : List (Option Json)} (h : fieldValues names j = some vs) :
    NamesOnce names j := by
  cases j with
  | object members =>
    obtain ⟨ms, hms, hfields⟩ := Option.bind_eq_some_iff.mp h
    rw [object_eq_record hms, namesOnce_record]
    intro name hname
    obtain ⟨v, -, hv⟩ := exists_of_mem_left (forall₂_of_mapM_eq_some hfields) hname
    exact (fieldNamed_eq_some_iff.mp hv).1
  | _ => trivial

theorem fieldValues_of_depth (h : j.depth = 0) : fieldValues names j = none := by
  cases j with
  | array items => cases h
  | object members => cases h
  | _ => rfl

/-- What stands in a field nests less deeply than the record. -/
theorem depth_lt_of_fieldValues {vs : List (Option Json)} (h : fieldValues names j = some vs) :
    ∀ v ∈ vs, ∀ x ∈ v, x.depth < j.depth := by
  intro v hv x hx
  cases j with
  | object members =>
    obtain ⟨ms, hms, hfields⟩ := Option.bind_eq_some_iff.mp h
    obtain ⟨name, -, hfield⟩ := exists_of_mem_right (forall₂_of_mapM_eq_some hfields) hv
    obtain ⟨m, hm, hmx⟩ := Option.map_eq_some_iff.mp ((fieldNamed_eq_some_iff.mp hfield).2.trans hx)
    have hmem := (List.mem_filter.mp (List.mem_of_head? hm)).1
    rw [object_eq_record hms, ← hmx]
    exact depth_lt_record hmem
  | array items =>
    simp only [fieldValues, Option.ite_none_right_eq_some, Option.some.injEq] at h
    obtain ⟨-, rfl⟩ := h
    have hitem : x ∈ items := by
      rcases List.mem_append.mp hv with hv | hv
      · obtain ⟨y, hy, rfl⟩ := List.mem_map.mp hv
        cases hx
        exact hy
      · obtain ⟨-, rfl⟩ := List.mem_replicate.mp hv
        cases hx
    exact depth_lt_array hitem
  | _ => cases h

/-! ### What decoders do not notice -/

variable {α : Type} {d : Decoder α} {vs : List (Option Json)}

/-- The decoder notices neither that a tree is brought into canonical form nor that it is allowed to
nest more deeply than it does. -/
structure Blind (d : Decoder α) : Prop where
  sorted : ∀ n j, d n j.sorted = d n j
  steady : ∀ n j, j.depth ≤ n → d (n + 1) j = d n j

theorem blind_text : Blind text where
  sorted _ j := by cases j <;> rfl
  steady _ j _ := by cases j <;> rfl

theorem blind_orNull (hd : Blind d) : Blind (orNull d) where
  sorted n j := by
    cases j with
    | null => rfl
    | _ => exact congrArg (Option.map some) (hd.sorted n _)
  steady n j hj := by
    cases j with
    | null => rfl
    | _ => exact congrArg (Option.map some) (hd.steady n _ hj)

theorem list_congr {d' : Decoder α}
    (h : ∀ k items, n = k + 1 → j = .array items → ∀ x ∈ items, d k x = d' k x) :
    list d n j = list d' n j := by
  cases n with
  | zero => cases j <;> rfl
  | succ n =>
    cases j with
    | array items => exact mapM_congr_mem (h n items rfl rfl)
    | _ => rfl

theorem list_sorted
    (h : ∀ k items, n = k + 1 → j = .array items → ∀ x ∈ items, d k x.sorted = d k x) :
    list d n j.sorted = list d n j := by
  cases n with
  | zero => cases j <;> rfl
  | succ n =>
    cases j with
    | array items =>
      rw [sorted_array, list, list, List.mapM_map]
      exact mapM_congr_mem (h n items rfl rfl)
    | _ => rfl

theorem list_steady (hj : j.depth ≤ n)
    (h : ∀ k x, k < n → x.depth ≤ k → d (k + 1) x = d k x) : list d (n + 1) j = list d n j := by
  cases j with
  | array items =>
    cases n with
    | zero => exact absurd hj (Nat.not_succ_le_zero _)
    | succ n =>
      have hitems := depthItems_le_iff.mp (Nat.le_of_succ_le_succ hj)
      exact mapM_congr_mem fun x hx => h n x (Nat.lt_succ_self n) (hitems x hx)
  | _ => cases n <;> rfl

theorem blind_list (hd : Blind d) : Blind (list d) where
  sorted _ _ := list_sorted fun k _ _ _ x _ => hd.sorted k x
  steady _ _ hj := list_steady hj fun k x _ hx => hd.steady k x hx

theorem Blind.required_sorted (hd : Blind d) (n : Nat) (v : Option Json) :
    required d n (v.map Json.sorted) = required d n v := by
  cases v with
  | none => rfl
  | some j => exact hd.sorted n j

theorem Blind.optional_sorted (hd : Blind d) (a : α) (n : Nat) (v : Option Json) :
    optional d a n (v.map Json.sorted) = optional d a n v := by
  cases v with
  | none => rfl
  | some j => exact hd.sorted n j

theorem Blind.required_steady (hd : Blind d) {v : Option Json} (hv : ∀ x ∈ v, x.depth ≤ n) :
    required d (n + 1) v = required d n v := by
  cases v with
  | none => rfl
  | some j => exact hd.steady n j (hv j rfl)

theorem Blind.optional_steady (hd : Blind d) (a : α) {v : Option Json}
    (hv : ∀ x ∈ v, x.depth ≤ n) : optional d a (n + 1) v = optional d a n v := by
  cases v with
  | none => rfl
  | some j => exact hd.steady n j (hv j rfl)

/-- The decoder takes the fields with these names from a record, and makes its result of them by
decoders that notice nothing. -/
structure ReadsFields (d : Decoder α) (names : List String)
    (result : Nat → List (Option Json) → Option α) : Prop where
  fields : ∀ n j, d n j = (fields names n j).bind fun x => result x.1 x.2
  sorted : ∀ n vs, result n (vs.map (Option.map Json.sorted)) = result n vs
  steady : ∀ n vs, (∀ v ∈ vs, ∀ x ∈ v, x.depth ≤ n) → result (n + 1) vs = result n vs

namespace ReadsFields

variable {result : Nat → List (Option Json) → Option α}

theorem zero (h : ReadsFields d names result) (j : Json) : d 0 j = none := by
  rw [h.fields, fields_zero, Option.bind_none]

theorem succ (h : ReadsFields d names result) (n : Nat) (j : Json) :
    d (n + 1) j = (fieldValues names j).bind (result n) := by
  rw [h.fields, fields_succ]
  cases fieldValues names j <;> rfl

theorem sorted_eq (h : ReadsFields d names result) (hj : j.isSoundWithin m = true)
    (hnames : NamesOnce names j) (n : Nat) : d n j.sorted = d n j := by
  cases n with
  | zero => rw [h.zero, h.zero]
  | succ n =>
    rw [h.succ, h.succ, fieldValues_sorted hj hnames]
    cases fieldValues names j with
    | none => rfl
    | some vs => exact h.sorted n vs

theorem steady_eq (h : ReadsFields d names result) (hj : j.depth ≤ n) : d (n + 1) j = d n j := by
  rw [h.succ]
  cases n with
  | zero => rw [h.zero, fieldValues_of_depth (Nat.le_zero.mp hj), Option.bind_none]
  | succ n =>
    rw [h.succ]
    refine Option.bind_congr fun vs hvs => h.steady n vs fun v hv x hx => ?_
    exact Nat.le_of_lt_succ ((depth_lt_of_fieldValues hvs v hv x hx).trans_le hj)

theorem namesOnce (h : ReadsFields d names result) {a : α} (ha : d n j = some a) :
    NamesOnce names j := by
  cases n with
  | zero => cases (h.zero j).symm.trans ha
  | succ n =>
    rw [h.succ] at ha
    obtain ⟨vs, hvs, -⟩ := Option.bind_eq_some_iff.mp ha
    exact namesOnce_of_fieldValues hvs

end ReadsFields

end Decoder

end Json

end Directory
