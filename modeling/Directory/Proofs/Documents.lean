import Directory.Document.Search
import Directory.Proofs.EntryValues
import Directory.Proofs.JsonText
import Directory.Proofs.Planning

/-!
# Documents are read back

What a document says is read back from its text: filters and requests as long as their JSON does not
nest deeper than the reader allows, definitions, configurations, entries and fixtures always.

A decoder is undone piece by piece. The fields of a record are found by their names
(`Decoder.fields_record`), and each field is read by the decoder that belongs to the way in which it
is written. Filters nest without a bound, so that their depth is weighed against the allowance
(`Filter.decoderWith_toJson`). Entries are built with descriptions in lowercase, and bringing these
into lowercase again does not change them (`Entry.Built.lowercase_eq`).
-/

namespace Directory

namespace Json

/-! ### Decoders and what they undo -/

namespace Decoder

variable {α : Type} {d : Decoder α} {f : α → Json} {n : Nat}

@[simp] theorem text_text (n : Nat) (s : String) : Decoder.text n (Json.text s) = some s := rfl

@[simp] theorem flag_bool (n : Nat) (b : Bool) : Decoder.flag n (.bool b) = some b := rfl

@[simp] theorem word_natural (n : Nat) (w : UInt64) :
    Decoder.word n (natural w.toNat) = some w := by
  have hrange : 0 ≤ (w.toNat : Int) ∧ (w.toNat : Int) < UInt64.size :=
    ⟨Int.natCast_nonneg _, Int.ofNat_lt.mpr w.toNat_lt⟩
  rw [natural, word, if_pos hrange, Int.toNat_natCast, UInt64.ofNat_toNat]

@[simp] theorem required_some (d : Decoder α) (n : Nat) (j : Json) :
    required d n (some j) = d n j := rfl

@[simp] theorem optional_some (d : Decoder α) (a : α) (n : Nat) (j : Json) :
    optional d a n (some j) = d n j := rfl

theorem orNull_nullable (hf : ∀ a, f a ≠ .null) {a : Option α}
    (h : ∀ x, a = some x → d n (f x) = some x) : orNull d n (nullable f a) = some a := by
  cases a with
  | none => rfl
  | some x =>
    have hx := h x rfl
    unfold orNull nullable
    split
    · next heq => exact absurd heq (hf x)
    · rw [hx]
      rfl

@[simp] theorem orNull_text (n : Nat) (s : Option String) :
    orNull .text n (nullable Json.text s) = some s :=
  orNull_nullable (f := Json.text) (fun _ => nofun) fun _ _ => rfl

@[simp] theorem orNull_word (n : Nat) (w : Option UInt64) :
    orNull .word n (sizeLimitToJson w) = some w := by
  rw [sizeLimitToJson]
  exact orNull_nullable (d := Decoder.word) (n := n) (f := fun w : UInt64 => natural w.toNat)
    (fun _ => nofun) fun w _ => word_natural n w

/-- A loop in which every step gives what it is expected to give. -/
theorem mapM_eq_some {β : Type} {g : β → Option α} {h : β → α} {bs : List β}
    (hall : ∀ b ∈ bs, g b = some (h b)) : bs.mapM g = some (bs.map h) := by
  induction bs with
  | nil => rfl
  | cons b bs ih =>
    obtain ⟨hb, hbs⟩ := List.forall_mem_cons.mp hall
    rw [List.mapM_cons, hb, ih hbs]
    rfl

theorem list_list {as : List α} (h : ∀ a ∈ as, d n (f a) = some a) :
    list d (n + 1) (Json.list f as) = some as := by
  have hitems : as.mapM (fun a => d n (f a)) = some (as.map id) := mapM_eq_some h
  rw [List.map_id] at hitems
  exact List.mapM_map.trans hitems

@[simp] theorem list_text (n : Nat) (ss : List String) :
    list .text (n + 1) (Json.list Json.text ss) = some ss :=
  list_list fun _ _ => rfl

theorem namedMembers?_record (ms : List (String × Json)) :
    namedMembers? (ms.map fun m => (some m.1, m.2)) = some ms := by
  induction ms with
  | nil => rfl
  | cons m ms ih => rw [List.map_cons, namedMembers?, ih]; rfl

/-- Of repeated keys the last one counts. -/
theorem keyed_record {bs : List (String × α)} (h : ∀ b ∈ bs, d n (f b.2) = some b.2) :
    keyed d (n + 1) (record (bs.map fun b => (b.1, f b.2))) = some (.ofList bs) := by
  have hbindings : (bs.map fun b => (b.1, f b.2)).mapM
      (fun b => (d n b.2).map (b.1, ·)) = some bs := by
    rw [List.mapM_map]
    have hall : bs.mapM (fun b => (d n (f b.2)).map (b.1, ·)) = some (bs.map id) :=
      mapM_eq_some fun b hb => by rw [h b hb]; rfl
    rwa [List.map_id] at hall
  simp only [keyed, record, namedMembers?_record, hbindings, bind, Option.bind_some, pure]

theorem keyed_ofMap {m : SortedMap String α} (h : ∀ b ∈ m.toList, d n (f b.2) = some b.2) :
    keyed d (n + 1) (ofMap f m) = some m := by
  rw [ofMap, keyed_record h, SortedMap.ofList_toList]

/-- Where no name comes twice, a member is the only one of its name. -/
theorem filter_eq_singleton {ms : List (String × Json)} (h : (ms.map Prod.fst).Nodup)
    {m : String × Json} (hm : m ∈ ms) : (ms.filter fun x => x.1 == m.1) = [m] := by
  induction ms with
  | nil => cases hm
  | cons a ms ih =>
    obtain ⟨ha, hms⟩ := List.nodup_cons.mp h
    rcases List.mem_cons.mp hm with rfl | hm
    · have hrest : (ms.filter fun x => x.1 == m.1) = [] :=
        List.filter_eq_nil_iff.mpr fun x hx heq =>
          ha (List.mem_map.mpr ⟨x, hx, eq_of_beq heq⟩)
      rw [List.filter_cons_of_pos (by simp), hrest]
    · have hne : ¬(a.1 == m.1) = true := fun heq =>
        ha (List.mem_map.mpr ⟨m, hm, (eq_of_beq heq).symm⟩)
      rw [List.filter_cons, if_neg hne, ih hms hm]

/-- The fields of a record that is written with all its members, each once. -/
theorem fields_record {names : List String} {ms : List (String × Json)}
    (hnames : ms.map Prod.fst = names) (h : names.Nodup) :
    fields names (n + 1) (record ms) = some (n, ms.map fun m => some m.2) := by
  subst hnames
  have hfields : fieldsOf (ms.map Prod.fst) ms = some (ms.map fun m => some m.2) := by
    rw [fieldsOf, List.mapM_map]
    refine mapM_eq_some fun m hm => ?_
    rw [Function.comp_apply, filter_eq_singleton h hm]
  simp only [fields, record, namedMembers?_record, hfields, bind, Option.bind_some, pure]

end Decoder

end Json

open Json

/-! ### Definitions and configurations -/

theorem Definition.decoder_toJson (d : Definition) (n : Nat) :
    Definition.decoder (n + 2) d.toJson = some d := by
  simp [decoder, toJson, Decoder.fields_record]

theorem IndexConfig.decoder_toJson (c : IndexConfig) (n : Nat) :
    IndexConfig.decoder (n + 1) c.toJson = some c := by
  simp [decoder, toJson, Decoder.fields_record]

theorem PartitionConfig.decoder_toJson (p : PartitionConfig) (n : Nat) :
    PartitionConfig.decoder (n + 3) p.toJson = some p := by
  simp [decoder, toJson, Decoder.fields_record, Decoder.list_list, IndexConfig.decoder_toJson]

/-! ### Entries -/

namespace Entry

variable {e : Entry}

/-- Entries that are read from documents are put together from values, like all others. -/
theorem built_of_decoder {n : Nat} {j : Json} (h : Entry.decoder n j = some e) : e.Built := by
  obtain ⟨⟨m, values⟩, -, h⟩ := Option.bind_eq_some_iff.mp h
  dsimp only at h
  split at h
  · obtain ⟨id, -, h⟩ := Option.bind_eq_some_iff.mp h
    obtain ⟨dn, -, h⟩ := Option.bind_eq_some_iff.mp h
    obtain ⟨attributes, -, h⟩ := Option.bind_eq_some_iff.mp h
    cases h
    exact built_ofAttributes id dn attributes.toList
  · cases h

theorem foldl_addValues_eq (e : Entry) (as : List (String × List String)) :
    as.foldl (fun e a => e.addValues a.1 a.2) e =
      { e with
        attributes := as.foldl
          (fun m a => m.alter (lowercase a.1) fun old => old.getD [] ++ a.2) e.attributes } := by
  induction as generalizing e with
  | nil => rfl
  | cons a as ih => exact ih (e.addValues a.1 a.2)

/-- An entry is put together again from its attributes. -/
theorem Built.ofDocument_attributes (h : e.Built) : ofDocument e.id e.dn e.attributes = e := by
  have hlist : (e.attributes.toList.foldl
      (fun m a => m.alter (lowercase a.1) fun old => old.getD [] ++ a.2)
      SortedMap.empty).toList = e.attributes.toList :=
    SortedMap.toList_foldl_alter (m := .empty)
      (fun a ha => Prod.ext (h.lowercase_eq a ha) rfl) e.attributes.ascending
  rw [ofDocument, ofAttributes, foldl_addValues_eq]
  exact congrArg (Entry.mk e.id e.dn) (SortedMap.ext_toList hlist)

theorem Built.decoder_toJson (h : e.Built) (n : Nat) :
    Entry.decoder (n + 3) e.toJson = some e := by
  -- a proof by evaluation would count up to the greatest word
  simp -implicitDefEqProofs [decoder, toJson, Decoder.fields_record, Decoder.keyed_ofMap,
    h.ofDocument_attributes]

end Entry

theorem Fixture.decoder_toJson {x : Fixture} (h : ∀ e ∈ x.entries, e.Built) (n : Nat) :
    Fixture.decoder (n + 5) x.toJson = some x := by
  have hentries : Decoder.list Entry.decoder (n + 4) (list Entry.toJson x.entries) =
      some x.entries := Decoder.list_list fun e he => (h e he).decoder_toJson n
  simp [decoder, toJson, Decoder.fields_record, Decoder.list_list, Definition.decoder_toJson,
    PartitionConfig.decoder_toJson, hentries]

/-! ### Filters and requests -/

theorem Json.depth_record_singleton (key : String) (j : Json) :
    (record [(key, j)]).depth = j.depth + 1 := by
  simp [record, depth, depthMembers]

theorem Json.depthItems_le_iff {js : List Json} {n : Nat} :
    depthItems js ≤ n ↔ ∀ j ∈ js, j.depth ≤ n := by
  induction js with
  | nil => simp [depthItems]
  | cons j js ih => rw [depthItems, Nat.max_le, ih, List.forall_mem_cons]

theorem Assertion.bodyDecoder_body (acceptShort : Bool) {a : Assertion} {n : Nat}
    (h : a.body.depth ≤ n) : bodyDecoder acceptShort a.kind n a.body = some a := by
  have hlong : isShort a.body = false := by cases a <;> rfl
  have hdecoder : bodyDecoder acceptShort a.kind n a.body = anyBodyDecoder a.kind n a.body := by
    simp [bodyDecoder, hlong]
  rw [hdecoder]
  cases a with
  | substring attr pattern =>
    obtain ⟨m, rfl⟩ : ∃ m, n = m + 2 := by
      refine Nat.exists_eq_add_of_le' ?_
      simp only [body, record, List.map, depth, depthMembers, list] at h
      omega
    simp [kind, body, anyBodyDecoder, substringDecoder, Decoder.fields_record]
  | presence attr =>
    obtain ⟨m, rfl⟩ : ∃ m, n = m + 1 := Nat.exists_eq_add_of_le' h
    simp [kind, body, anyBodyDecoder, presenceDecoder, Decoder.fields_record]
  | _ attr value =>
    obtain ⟨m, rfl⟩ : ∃ m, n = m + 1 := Nat.exists_eq_add_of_le' h
    simp [kind, body, anyBodyDecoder, attrValueDecoder, Decoder.fields_record]

namespace Filter

variable {f : Filter} {n : Nat}

theorem toJsons_eq_map (fs : List Filter) : toJsons fs = fs.map toJson := by
  induction fs with
  | nil => rfl
  | cons f fs ih => rw [toJsons, ih, List.map_cons]

/-- What is read from an object with one member. -/
theorem decoderWith_record (acceptShort : Bool) (n : Nat) (kind : String) (j : Json) :
    decoderWith acceptShort (n + 1) (record [(kind, j)]) =
      if kind = "not" then (decoderWith acceptShort n j).map not
      else if kind = "and" ∨ kind = "or" then
        match n, j with
        | n + 1, .array items =>
          (items.mapM (decoderWith acceptShort n)).map (if kind = "and" then and else or)
        | _, _ => none
      else (Assertion.bodyDecoder acceptShort kind n j).map assertion := by
  rw [decoderWith.eq_def]
  rfl

/-- The filters of a conjunction or disjunction, each of which is read back by itself. -/
theorem mapM_decoderWith_toJsons {acceptShort : Bool} {fs : List Filter}
    (ih : ∀ f ∈ fs, ∀ n, f.toJson.depth ≤ n → decoderWith acceptShort n f.toJson = some f)
    (h : (Json.array (toJsons fs)).depth ≤ n + 1) :
    (toJsons fs).mapM (decoderWith acceptShort n) = some fs := by
  have hitems : ∀ f ∈ fs, f.toJson.depth ≤ n := by
    rw [toJsons_eq_map, depth, Nat.add_le_add_iff_right, depthItems_le_iff,
      List.forall_mem_map] at h
    exact h
  have hall : fs.mapM (fun f => decoderWith acceptShort n f.toJson) = some (fs.map id) :=
    Decoder.mapM_eq_some fun f hf => ih f hf n (hitems f hf)
  rw [toJsons_eq_map, List.mapM_map]
  rwa [List.map_id] at hall

/-- A filter is read back with any allowance that its JSON keeps to. -/
theorem decoderWith_toJson (acceptShort : Bool) (f : Filter) :
    ∀ n, f.toJson.depth ≤ n → decoderWith acceptShort n f.toJson = some f := by
  induction f using Filter.induction with
  | assertion a =>
    intro n h
    rw [toJson, Assertion.toJson, depth_record_singleton] at h
    obtain ⟨m, rfl⟩ : ∃ m, n = m + 1 := Nat.exists_eq_add_of_le' (by omega)
    have hkind : a.kind ≠ "not" ∧ a.kind ≠ "and" ∧ a.kind ≠ "or" := by
      cases a <;> simp [Assertion.kind]
    have hbody := Assertion.bodyDecoder_body acceptShort (a := a) (n := m) (by omega)
    simp [toJson, Assertion.toJson, decoderWith_record, hkind, hbody]
  | and fs ih =>
    intro n h
    rw [toJson, depth_record_singleton] at h
    obtain ⟨m, rfl⟩ : ∃ m, n = m + 2 := Nat.exists_eq_add_of_le' (by rw [depth] at h; omega)
    have hfs := mapM_decoderWith_toJsons (n := m) ih (by omega)
    simp [toJson, decoderWith_record, hfs]
  | or fs ih =>
    intro n h
    rw [toJson, depth_record_singleton] at h
    obtain ⟨m, rfl⟩ : ∃ m, n = m + 2 := Nat.exists_eq_add_of_le' (by rw [depth] at h; omega)
    have hfs := mapM_decoderWith_toJsons (n := m) ih (by omega)
    simp [toJson, decoderWith_record, hfs]
  | not f ih =>
    intro n h
    rw [toJson, depth_record_singleton] at h
    obtain ⟨m, rfl⟩ : ∃ m, n = m + 1 := Nat.exists_eq_add_of_le' (by omega)
    have hf := ih m (by omega)
    simp [toJson, decoderWith_record, hf]

end Filter

theorem SearchRequest.decoderWith_toJson (acceptShort : Bool) (q : SearchRequest) {n : Nat}
    (h : q.toJson.depth ≤ n) : decoderWith acceptShort n q.toJson = some q := by
  have hfilter : q.filter.toJson.depth + 1 ≤ n := by
    simp only [toJson, record, List.map, depth, depthMembers] at h
    omega
  obtain ⟨m, rfl⟩ : ∃ m, n = m + 1 := Nat.exists_eq_add_of_le' (by omega)
  have hread := Filter.decoderWith_toJson acceptShort q.filter m (by omega)
  simp [decoderWith, toJson, Decoder.fields_record, hread]

/-! ### Documents are plain -/

section Plain

variable {α : Type} {f : α → Json}

@[simp] theorem Json.plain_text (s : String) : (text s).Plain := .text s

@[simp] theorem Json.plain_natural (n : Nat) : (natural n).Plain := .integer n

@[simp] theorem Json.plain_bool (b : Bool) : (Json.bool b).Plain := .bool b

theorem Json.plain_nullable (h : ∀ a, (f a).Plain) (o : Option α) : (nullable f o).Plain := by
  cases o with
  | none => exact .null
  | some a => exact h a

theorem Json.plain_list (h : ∀ a, (f a).Plain) (as : List α) : (list f as).Plain :=
  .array (List.forall_mem_map.mpr fun a _ => h a)

theorem Json.plain_ofMap (h : ∀ a, (f a).Plain) (m : SortedMap String α) : (ofMap f m).Plain :=
  .record (List.forall_mem_map.mpr fun b _ => h b.2)

theorem plain_sizeLimitToJson (limit : Option UInt64) : (sizeLimitToJson limit).Plain :=
  plain_nullable (fun w : UInt64 => plain_natural w.toNat) limit

theorem Definition.plain_toJson (d : Definition) : d.toJson.Plain :=
  .record (by simp [plain_nullable, plain_list])

theorem IndexConfig.plain_toJson (c : IndexConfig) : c.toJson.Plain :=
  .record (by simp)

theorem PartitionConfig.plain_toJson (p : PartitionConfig) : p.toJson.Plain :=
  .record (by simp [plain_list, IndexConfig.plain_toJson, plain_sizeLimitToJson])

theorem Entry.plain_toJson (e : Entry) : e.toJson.Plain :=
  .record (by simp [plain_list, plain_ofMap])

theorem Fixture.plain_toJson (x : Fixture) : x.toJson.Plain :=
  .record (by simp [plain_list, Definition.plain_toJson, PartitionConfig.plain_toJson,
    Entry.plain_toJson])

theorem Assertion.plain_body (a : Assertion) : a.body.Plain := by
  cases a <;> exact .record (by simp [plain_nullable, plain_list])

theorem Filter.plain_toJson (f : Filter) : f.toJson.Plain := by
  have hone : ∀ key {j : Json}, j.Plain → (record [(key, j)]).Plain := fun key j hj =>
    .record (List.forall_mem_singleton.mpr hj)
  have hmany : ∀ {fs : List Filter}, (∀ f ∈ fs, f.toJson.Plain) →
      (Json.array (toJsons fs)).Plain := fun {fs} hfs => by
    rw [toJsons_eq_map]
    exact .array (List.forall_mem_map.mpr hfs)
  induction f using Filter.induction with
  | assertion a => exact hone a.kind a.plain_body
  | and fs ih => exact hone "and" (hmany ih)
  | or fs ih => exact hone "or" (hmany ih)
  | not f ih => exact hone "not" ih

theorem SearchRequest.plain_toJson (q : SearchRequest) : q.toJson.Plain :=
  .record (by simp [Filter.plain_toJson, plain_sizeLimitToJson])

end Plain

/-! ### The whole way -/

/-- The text that is written for the value is read as the value itself. -/
def Json.Restores {α : Type} (d : Decoder α) (encode : α → Json) (a : α) : Prop :=
  (parse (encode a).print).bind (decode d) = some a

theorem Json.restores_of_plain {α : Type} {d : Decoder α} {encode : α → Json} {a : α}
    (hplain : (encode a).Plain) (h : d nestingLimit (encode a) = some a) : Restores d encode a := by
  rw [Restores, parse_print hplain]
  exact h

/-- **Every document is read back as it was.** Filters and requests have to keep to the nesting that
documents are allowed. For the others there is no such condition, since their JSON is never that
deep. Entries are those that can be put together. -/
theorem documents_restored :
    (∀ f : Filter, f.toJson.depth ≤ nestingLimit → Restores Filter.decoder Filter.toJson f) ∧
      (∀ q : SearchRequest, q.toJson.depth ≤ nestingLimit →
        Restores SearchRequest.decoder SearchRequest.toJson q) ∧
      (∀ d : Definition, Restores Definition.decoder Definition.toJson d) ∧
      (∀ p : PartitionConfig, Restores PartitionConfig.decoder PartitionConfig.toJson p) ∧
      (∀ e : Entry, e.Built → Restores Entry.decoder Entry.toJson e) ∧
      ∀ x : Fixture, (∀ e ∈ x.entries, e.Built) →
        Restores Fixture.decoder Fixture.toJson x := by
  refine ⟨fun f h => ?_, fun q h => ?_, fun d => ?_, fun p => ?_, fun e h => ?_, fun x h => ?_⟩
  · exact restores_of_plain f.plain_toJson (f.decoderWith_toJson true nestingLimit h)
  · exact restores_of_plain q.plain_toJson (q.decoderWith_toJson true h)
  · exact restores_of_plain d.plain_toJson (d.decoder_toJson 125)
  · exact restores_of_plain p.plain_toJson (p.decoder_toJson 124)
  · exact restores_of_plain e.plain_toJson (h.decoder_toJson 124)
  · exact restores_of_plain x.plain_toJson (Fixture.decoder_toJson h 122)

/-- A filter with an empty conjunction and characters that are escaped, a request for the greatest
number of entries, and an entry with descriptions that are the same in lowercase. -/
theorem documents_restored_escapes :
    let f := Filter.not (.or [.and [], .assertion (.equality "cn" "\"a\\\n\x00é😀"),
      .assertion (.substring "" { any := ["/", "\x7f"] })])
    let e := Entry.ofAttributes 7 "cn=a" [("CN", ["Alice"]), ("cn", []), ("Σ", ["ς"])]
    Restores Filter.decoder Filter.toJson f ∧
      Restores SearchRequest.decoder SearchRequest.toJson ⟨f, some 18446744073709551615⟩ ∧
      Restores Entry.decoder Entry.toJson e ∧
      Restores Fixture.decoder Fixture.toJson ⟨[], { id := "people" }, [e]⟩ := by
  intro f e
  have he : e.Built := Entry.built_ofAttributes _ _ _
  obtain ⟨hfilter, hrequest, -, -, hentry, hfixture⟩ := documents_restored
  exact ⟨hfilter f (by decide), hrequest _ (by decide), hentry e he,
    hfixture _ (List.forall_mem_singleton.mpr he)⟩

end Directory
