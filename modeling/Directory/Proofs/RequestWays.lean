import Directory.CommandLine.Run
import Directory.Proofs.Blanks
import Directory.Proofs.CanonicalTrees
import Directory.Proofs.JsonContext

/-!
# Two ways to pass a filter

A filter is given as an argument, or in a request that is read from the input. The argument is
decoded as it stands. The input is first taken in as a whole and brought into canonical form, and
then decoded by a reader that wants assertions written out. The two ways give the same request if
they give one at all, but each of them refuses filters that the other one accepts
(`CommandLine.request_ways`).

* The input is refused for a part that nobody looks at, if it is a number out of range or a string
  without a text, and for assertions in short form.
* The argument is refused for a key that comes twice where a filter or an assertion is. In canonical
  form only the last one is left.
-/

namespace Directory

open Json

variable {acceptShort : Bool} {kind : String} {j x : Json} {m n : Nat}

/-! ### Assertions -/

namespace Assertion

/-- The names of the members of an assertion of this kind; there are none for other kinds. -/
def memberNames (kind : String) : List String :=
  if kind = "equality" ∨ kind = "greater_eq" ∨ kind = "less_eq" ∨ kind = "approx_match" then
    ["attribute", "value"]
  else if kind = "presence" then ["attribute"]
  else if kind = "substring" then ["attribute", "initial", "any", "final"]
  else []

/-- The assertion with these members. -/
def ofAttrValue (f : String → String → Assertion) (n : Nat) : List (Option Json) → Option Assertion
  | [attr, value] => do
    return f (← Decoder.required .text n attr) (← Decoder.required .text n value)
  | _ => none

theorem readsFields_attrValue (f : String → String → Assertion) :
    Decoder.ReadsFields (attrValueDecoder f) ["attribute", "value"] (ofAttrValue f) where
  fields n j := by
    rw [attrValueDecoder]
    cases Decoder.fields ["attribute", "value"] n j with
    | none => rfl
    | some x => rcases x with ⟨n, _ | ⟨a, _ | ⟨v, _ | ⟨_, _⟩⟩⟩⟩ <;> rfl
  sorted n vs := by
    rcases vs with _ | ⟨a, _ | ⟨v, _ | ⟨_, _⟩⟩⟩
    · rfl
    · rfl
    · simp [ofAttrValue, Decoder.blind_text.required_sorted]
    · rfl
  steady n vs hvs := by
    rcases vs with _ | ⟨a, _ | ⟨v, _ | ⟨_, _⟩⟩⟩
    · rfl
    · rfl
    · simp only [List.forall_mem_cons] at hvs
      simp [ofAttrValue, Decoder.blind_text.required_steady hvs.1,
        Decoder.blind_text.required_steady hvs.2.1]
    · rfl

/-- The presence assertion with these members. -/
def ofPresence (n : Nat) : List (Option Json) → Option Assertion
  | [attr] => do return presence (← Decoder.required .text n attr)
  | _ => none

theorem readsFields_presence :
    Decoder.ReadsFields presenceDecoder ["attribute"] ofPresence where
  fields n j := by
    rw [presenceDecoder]
    cases Decoder.fields ["attribute"] n j with
    | none => rfl
    | some x => rcases x with ⟨n, _ | ⟨a, _ | ⟨_, _⟩⟩⟩ <;> rfl
  sorted n vs := by
    rcases vs with _ | ⟨a, _ | ⟨_, _⟩⟩
    · rfl
    · simp [ofPresence, Decoder.blind_text.required_sorted]
    · rfl
  steady n vs hvs := by
    rcases vs with _ | ⟨a, _ | ⟨_, _⟩⟩
    · rfl
    · simp only [List.forall_mem_cons] at hvs
      simp [ofPresence, Decoder.blind_text.required_steady hvs.1]
    · rfl

/-- The substring assertion with these members. -/
def ofSubstring (n : Nat) : List (Option Json) → Option Assertion
  | [attr, initial, any, finish] => do
    return substring (← Decoder.required .text n attr) {
      initial := ← Decoder.optional (.orNull .text) none n initial
      any := ← Decoder.optional (.list .text) [] n any
      finish := ← Decoder.optional (.orNull .text) none n finish }
  | _ => none

theorem readsFields_substring :
    Decoder.ReadsFields substringDecoder ["attribute", "initial", "any", "final"] ofSubstring where
  fields n j := by
    rw [substringDecoder]
    cases Decoder.fields ["attribute", "initial", "any", "final"] n j with
    | none => rfl
    | some x => rcases x with ⟨n, _ | ⟨a, _ | ⟨i, _ | ⟨y, _ | ⟨z, _ | ⟨_, _⟩⟩⟩⟩⟩⟩ <;> rfl
  sorted n vs := by
    have htext := Decoder.blind_text
    rcases vs with _ | ⟨a, _ | ⟨i, _ | ⟨y, _ | ⟨z, _ | ⟨_, _⟩⟩⟩⟩⟩
    case cons.cons.cons.cons.nil =>
      simp [ofSubstring, htext.required_sorted, (Decoder.blind_orNull htext).optional_sorted,
        (Decoder.blind_list htext).optional_sorted]
    all_goals rfl
  steady n vs hvs := by
    have htext := Decoder.blind_text
    rcases vs with _ | ⟨a, _ | ⟨i, _ | ⟨y, _ | ⟨z, _ | ⟨_, _⟩⟩⟩⟩⟩
    case cons.cons.cons.cons.nil =>
      simp only [List.forall_mem_cons] at hvs
      simp [ofSubstring, htext.required_steady hvs.1,
        (Decoder.blind_orNull htext).optional_steady none hvs.2.1,
        (Decoder.blind_list htext).optional_steady [] hvs.2.2.1,
        (Decoder.blind_orNull htext).optional_steady none hvs.2.2.2.1]
    all_goals rfl

/-- Assertions of every kind are read from the fields of a record. -/
theorem exists_readsFields (kind : String) :
    ∃ result, Decoder.ReadsFields (anyBodyDecoder kind) (memberNames kind) result := by
  unfold anyBodyDecoder memberNames
  by_cases h₁ : kind = "equality"
  · exact ⟨_, by simpa [h₁] using readsFields_attrValue equality⟩
  by_cases h₂ : kind = "greater_eq"
  · exact ⟨_, by simpa [h₂] using readsFields_attrValue greaterEq⟩
  by_cases h₃ : kind = "less_eq"
  · exact ⟨_, by simpa [h₃] using readsFields_attrValue lessEq⟩
  by_cases h₄ : kind = "approx_match"
  · exact ⟨_, by simpa [h₄] using readsFields_attrValue approxMatch⟩
  by_cases h₅ : kind = "presence"
  · exact ⟨_, by simpa [h₅] using readsFields_presence⟩
  by_cases h₆ : kind = "substring"
  · exact ⟨_, by simpa [h₆] using readsFields_substring⟩
  · refine ⟨fun _ _ => none, ?_⟩
    simp only [h₁, h₂, h₃, h₄, h₅, h₆, if_false, or_self]
    exact ⟨fun n j => (Option.bind_fun_none _).symm, fun _ _ => rfl, fun _ _ _ => rfl⟩

theorem isShort_sorted (j : Json) : isShort j.sorted = isShort j := by
  cases j <;> rfl

theorem bodyDecoder_sorted (hj : j.isSoundWithin m = true)
    (hnames : Decoder.NamesOnce (memberNames kind) j) (n : Nat) :
    bodyDecoder acceptShort kind n j.sorted = bodyDecoder acceptShort kind n j := by
  obtain ⟨result, hresult⟩ := exists_readsFields kind
  rw [bodyDecoder, bodyDecoder, isShort_sorted, hresult.sorted_eq hj hnames]

theorem bodyDecoder_steady (hj : j.depth ≤ n) :
    bodyDecoder acceptShort kind (n + 1) j = bodyDecoder acceptShort kind n j := by
  obtain ⟨result, hresult⟩ := exists_readsFields kind
  rw [bodyDecoder, bodyDecoder, hresult.steady_eq hj]

theorem namesOnce_of_bodyDecoder {a : Assertion} (h : bodyDecoder acceptShort kind n j = some a) :
    Decoder.NamesOnce (memberNames kind) j := by
  obtain ⟨result, hresult⟩ := exists_readsFields kind
  rw [bodyDecoder] at h
  split at h
  · cases h
  · exact hresult.namesOnce h

theorem bodyDecoder_of_long (h : isShort j = false) :
    bodyDecoder false kind n j = bodyDecoder true kind n j := by
  simp [bodyDecoder, h]

theorem isShort_of_bodyDecoder {a : Assertion} (h : bodyDecoder false kind n j = some a) :
    isShort j = false := by
  rw [bodyDecoder] at h
  split at h
  · cases h
  · next hshort => simpa using hshort

theorem bodyDecoder_of_memberNames_eq_nil (h : memberNames kind = []) :
    bodyDecoder acceptShort kind n j = none := by
  rw [memberNames] at h
  split at h
  · cases h
  · next hvalue =>
    split at h
    · cases h
    · next hpresence =>
      split at h
      · cases h
      · next hsubstring =>
        simp only [not_or] at hvalue
        simp [bodyDecoder, anyBodyDecoder, hvalue, hpresence, hsubstring]

end Assertion

/-! ### Places in a filter -/

namespace Filter

variable {ms : List (Option String × Json)} {named : List (String × Json)} {items : List Json}
  {f : Filter}

/-- The tree `x` stands in `j` where a filter has to be. -/
inductive Place (x : Json) : Json → Prop where
  | self : Place x x
  | not {j : Json} {ms : List (Option String × Json)} :
      (some "not", j) ∈ ms → Place x j → Place x (.object ms)
  | among {kind : String} {j : Json} {items : List Json} {ms : List (Option String × Json)} :
      kind = "and" ∨ kind = "or" → (some kind, .array items) ∈ ms → j ∈ items → Place x j →
        Place x (.object ms)

theorem Place.trans {y : Json} (hx : Place x y) (hy : Place y j) : Place x j := by
  induction hy with
  | self => exact hx
  | not hm _ ih => exact .not hm ih
  | among hkind hm hj _ ih => exact .among hkind hm hj ih

/-- No assertion is in short form. -/
def WrittenOut (j : Json) : Prop :=
  ∀ ms, Place (.object ms) j → ∀ kind body, (some kind, body) ∈ ms →
    Assertion.memberNames kind ≠ [] → Assertion.isShort body = false

/-- No key comes twice where a filter is, and no name of a member twice where an assertion is. -/
structure Unrepeated (j : Json) : Prop where
  kinds : ∀ ms, Place (.object ms) j → (ms.map Prod.fst).Nodup
  members : ∀ ms, Place (.object ms) j → ∀ kind body, (some kind, body) ∈ ms →
    Decoder.NamesOnce (Assertion.memberNames kind) body

theorem WrittenOut.of_place (h : WrittenOut j) (hx : Place x j) : WrittenOut x :=
  fun ms hms => h ms (hms.trans hx)

theorem Unrepeated.of_place (h : Unrepeated j) (hx : Place x j) : Unrepeated x :=
  ⟨fun ms hms => h.kinds ms (hms.trans hx), fun ms hms => h.members ms (hms.trans hx)⟩

theorem place_not : Place x (record [("not", x)]) := .not List.mem_cons_self .self

theorem place_among (hkind : kind = "and" ∨ kind = "or") (hx : x ∈ items) :
    Place x (record [(kind, .array items)]) := .among hkind List.mem_cons_self hx .self

/-! ### What is read -/

/-- A filter is an object with one member. -/
theorem exists_of_decoderWith (h : decoderWith acceptShort n j = some f) :
    ∃ m kind x, n = m + 1 ∧ j = record [(kind, x)] := by
  rw [decoderWith.eq_def] at h
  split at h
  · next m kind x => exact ⟨m, kind, x, rfl, rfl⟩
  · cases h

theorem decoderWith_eq_none (h : ¬∃ m kind x, n = m + 1 ∧ j = record [(kind, x)]) :
    decoderWith acceptShort n j = none :=
  Option.eq_none_iff_forall_ne_some.mpr fun _ hf => h (exists_of_decoderWith hf)

/-- The parts of a filter that is read are read as well. -/
theorem exists_decoderWith_of_place (hx : Place x j) (h : decoderWith acceptShort n j = some f) :
    ∃ m g, decoderWith acceptShort m x = some g := by
  induction hx generalizing n f with
  | self => exact ⟨n, f, h⟩
  | not hm _ ih =>
    obtain ⟨m, kind, y, rfl, heq⟩ := exists_of_decoderWith h
    rw [heq, decoderWith_record] at h
    rw [object.inj heq] at hm
    cases List.mem_singleton.mp hm
    obtain ⟨g, hg, -⟩ := Option.map_eq_some_iff.mp h
    exact ih hg
  | @among kind j items ms hkind hm hj _ ih =>
    obtain ⟨m, kind, y, rfl, heq⟩ := exists_of_decoderWith h
    rw [heq, decoderWith_record] at h
    rw [object.inj heq] at hm
    cases List.mem_singleton.mp hm
    have hnot : kind ≠ "not" := by rintro rfl; simp at hkind
    rw [if_neg hnot, if_pos hkind] at h
    cases m with
    | zero => cases h
    | succ m =>
      obtain ⟨gs, hgs, -⟩ := Option.map_eq_some_iff.mp h
      obtain ⟨g, -, hg⟩ := exists_of_mem_left (forall₂_of_mapM_eq_some hgs) hj
      exact ih hg

/-- What is known of the body of an assertion that is read. -/
theorem body_of_decoderWith {body : Json} (h : decoderWith acceptShort n (.object ms) = some f)
    (hbody : (some kind, body) ∈ ms) : Decoder.NamesOnce (Assertion.memberNames kind) body ∧
      (acceptShort = false → Assertion.memberNames kind ≠ [] → Assertion.isShort body = false) := by
  obtain ⟨m, kind', y, rfl, heq⟩ := exists_of_decoderWith h
  rw [heq, decoderWith_record] at h
  rw [object.inj heq] at hbody
  cases List.mem_singleton.mp hbody
  by_cases hnames : Assertion.memberNames kind' = []
  · refine ⟨?_, fun _ hne => absurd hnames hne⟩
    rw [hnames]
    cases y <;> simp [Decoder.NamesOnce]
  · have hnot : kind' ≠ "not" := by rintro rfl; exact hnames rfl
    have hjoin : ¬(kind' = "and" ∨ kind' = "or") := by rintro (rfl | rfl) <;> exact hnames rfl
    rw [if_neg hnot, if_neg hjoin] at h
    obtain ⟨a, ha, -⟩ := Option.map_eq_some_iff.mp h
    refine ⟨Assertion.namesOnce_of_bodyDecoder ha, ?_⟩
    rintro rfl -
    exact Assertion.isShort_of_bodyDecoder ha

/-- A filter that is read as it stands repeats nothing. -/
theorem unrepeated_of_decoderWith (h : decoderWith acceptShort n j = some f) : Unrepeated j where
  kinds ms hms := by
    obtain ⟨m, g, hg⟩ := exists_decoderWith_of_place hms h
    obtain ⟨-, kind, x, -, heq⟩ := exists_of_decoderWith hg
    rw [object.inj heq]
    exact List.nodup_singleton _
  members ms hms kind body hbody := by
    obtain ⟨m, g, hg⟩ := exists_decoderWith_of_place hms h
    exact (body_of_decoderWith hg hbody).1

/-- A filter that is read without short forms is written out. -/
theorem writtenOut_of_decoderWith (h : decoderWith false n j = some f) : WrittenOut j := by
  intro ms hms kind body hbody
  obtain ⟨m, g, hg⟩ := exists_decoderWith_of_place hms h
  exact (body_of_decoderWith hg hbody).2 rfl

/-! ### Filters that are read alike -/

/-- What is read from an object with one member, with the filters of a composite one as a list. -/
theorem decoderWith_member (acceptShort : Bool) (n : Nat) (kind : String) (j : Json) :
    decoderWith acceptShort (n + 1) (record [(kind, j)]) =
      if kind = "not" then (decoderWith acceptShort n j).map not
      else if kind = "and" ∨ kind = "or" then
        (Decoder.list (decoderWith acceptShort) n j).map (if kind = "and" then and else or)
      else (Assertion.bodyDecoder acceptShort kind n j).map assertion := by
  rw [decoderWith_record]
  refine ite_congr rfl (fun _ => rfl) fun _ => ite_congr rfl (fun _ => ?_) fun _ => rfl
  cases n <;> cases j <;> rfl

/-- Filters that are written out are read alike with short forms and without. -/
theorem decoderWith_of_writtenOut (h : WrittenOut j) :
    decoderWith false n j = decoderWith true n j := by
  induction n using Nat.strongRecOn generalizing j with
  | _ n ih =>
  by_cases hshape : ∃ m kind x, n = m + 1 ∧ j = record [(kind, x)]
  · obtain ⟨m, kind, x, rfl, rfl⟩ := hshape
    rw [decoderWith_member, decoderWith_member]
    refine ite_congr rfl (fun hnot => ?_) fun _ => ite_congr rfl (fun hjoin => ?_) fun _ => ?_
    · subst hnot
      rw [ih m (Nat.lt_succ_self m) (h.of_place place_not)]
    · refine congrArg _ (Decoder.list_congr ?_)
      rintro k items rfl rfl y hy
      exact ih k (by omega) (h.of_place (place_among hjoin hy))
    · by_cases hnames : Assertion.memberNames kind = []
      · rw [Assertion.bodyDecoder_of_memberNames_eq_nil hnames,
          Assertion.bodyDecoder_of_memberNames_eq_nil hnames]
      · rw [Assertion.bodyDecoder_of_long (h _ .self kind x List.mem_cons_self hnames)]
  · rw [decoderWith_eq_none hshape, decoderWith_eq_none hshape]

/-- The allowance that a filter does not need is not noticed. -/
theorem decoderWith_steady (h : j.depth ≤ n) :
    decoderWith acceptShort (n + 1) j = decoderWith acceptShort n j := by
  induction n using Nat.strongRecOn generalizing j with
  | _ n ih =>
  by_cases hshape : ∃ kind x, j = record [(kind, x)]
  · obtain ⟨kind, x, rfl⟩ := hshape
    rw [depth_record_singleton] at h
    obtain ⟨m, rfl⟩ : ∃ m, n = m + 1 := Nat.exists_eq_add_of_le' (by omega)
    have hx : x.depth ≤ m := by omega
    rw [decoderWith_member, decoderWith_member, ih m (Nat.lt_succ_self m) hx,
      Assertion.bodyDecoder_steady hx,
      Decoder.list_steady hx fun k y hk hy => ih k (by omega) hy]
  · rw [decoderWith_eq_none fun ⟨_, kind, x, _, hj⟩ => hshape ⟨kind, x, hj⟩,
      decoderWith_eq_none fun ⟨_, kind, x, _, hj⟩ => hshape ⟨kind, x, hj⟩]

/-- A sound filter that repeats nothing is read alike in canonical form. -/
theorem decoderWith_sorted (hj : j.isSoundWithin m = true) (h : Unrepeated j) :
    decoderWith acceptShort n j.sorted = decoderWith acceptShort n j := by
  induction n using Nat.strongRecOn generalizing j m with
  | _ n ih =>
  by_cases hshape : ∃ k kind x, n = k + 1 ∧ j = record [(kind, x)]
  · obtain ⟨k, kind, x, rfl, rfl⟩ := hshape
    have hx := isSoundWithin_of_mem_record hj List.mem_cons_self
    rw [sorted_record, canonicalMembers_singleton, decoderWith_member, decoderWith_member]
    refine ite_congr rfl (fun hnot => ?_) fun _ => ite_congr rfl (fun hjoin => ?_) fun _ => ?_
    · subst hnot
      rw [ih k (Nat.lt_succ_self k) hx (h.of_place place_not)]
    · refine congrArg _ (Decoder.list_sorted ?_)
      rintro i items rfl rfl y hy
      exact ih i (by omega) (isSoundWithin_of_mem_array hx hy) (h.of_place (place_among hjoin hy))
    · rw [Assertion.bodyDecoder_sorted hx (h.members _ .self kind x List.mem_cons_self)]
  · rw [decoderWith_eq_none hshape, decoderWith_eq_none]
    rintro ⟨k, kind, y, rfl, heq⟩
    cases j with
    | object members =>
      obtain ⟨ms, hms⟩ := exists_record_of_isSoundWithin hj
      have hkeys : ((ms.map Prod.fst).map some).Nodup := by
        have hnodup := h.kinds members .self
        rw [object.inj hms, List.map_map] at hnodup
        rw [List.map_map]
        exact hnodup
      rw [hms, sorted_record] at heq
      obtain ⟨x, rfl⟩ := eq_singleton_of_canonicalMembers (hkeys.of_map some) (record_injective heq)
      exact hshape ⟨k, kind, x, rfl, hms⟩
    | _ => cases heq

/-! ### Reading the argument and the input -/

/-- The filter that is read if the document is first taken in as a whole. -/
def ofInput? (j : Json) : Option Filter :=
  if j.isSoundWithin 126 then decoderWith false 126 j.sorted else none

theorem ofInput?_of_sound (hj : j.isSoundWithin 126 = true) (h : Unrepeated j) :
    ofInput? j = decoderWith false 126 j := by
  rw [ofInput?, if_pos hj, decoderWith_sorted hj h]

theorem isSoundWithin_of_ofInput? (h : ofInput? j = some f) : j.isSoundWithin 126 = true := by
  by_contra hj
  rw [ofInput?, if_neg hj] at h
  cases h

theorem ofInput?_eq (hdepth : j.depth ≤ 126) (hj : j.isSoundWithin 126 = true)
    (hout : WrittenOut j) (h : Unrepeated j) : decoderWith true 127 j = ofInput? j := by
  rw [ofInput?_of_sound hj h, decoderWith_of_writtenOut hout, decoderWith_steady hdepth]

/-- What is read from the input of a document that repeats nothing is read from it as it stands. -/
theorem decoderWith_of_ofInput? (hdepth : j.depth ≤ 126) (h : ofInput? j = some f)
    (hunrepeated : Unrepeated j) : decoderWith true 127 j = some f ∧ WrittenOut j := by
  have hj := isSoundWithin_of_ofInput? h
  have hout : WrittenOut j := by
    rw [ofInput?_of_sound hj hunrepeated] at h
    exact writtenOut_of_decoderWith h
  exact ⟨(ofInput?_eq hdepth hj hout hunrepeated).trans h, hout⟩

theorem decoderWith_eq_ofInput?_iff (hdepth : j.depth ≤ 126) :
    decoderWith true 127 j = ofInput? j ↔
      ((decoderWith true 127 j).isSome = true → j.isSoundWithin 126 = true ∧ WrittenOut j) ∧
        ((ofInput? j).isSome = true → Unrepeated j) := by
  constructor
  · intro heq
    refine ⟨fun hsome => ?_, fun hsome => ?_⟩
    · obtain ⟨f, hf⟩ := Option.isSome_iff_exists.mp hsome
      have hinput := heq.symm.trans hf
      have hout := (decoderWith_of_ofInput? hdepth hinput (unrepeated_of_decoderWith hf)).2
      exact ⟨isSoundWithin_of_ofInput? hinput, hout⟩
    · obtain ⟨f, hf⟩ := Option.isSome_iff_exists.mp hsome
      exact unrepeated_of_decoderWith (heq.trans hf)
  · rintro ⟨hdirect, hinput⟩
    cases hf : decoderWith true 127 j with
    | some f =>
      obtain ⟨hj, hout⟩ := hdirect (by rw [hf]; rfl)
      rw [← hf]
      exact ofInput?_eq hdepth hj hout (unrepeated_of_decoderWith hf)
    | none =>
      rw [eq_comm, Option.eq_none_iff_forall_ne_some]
      intro g hg
      have hread := (decoderWith_of_ofInput? hdepth hg (hinput (by rw [hg]; rfl))).1
      cases hf.symm.trans hread

end Filter

/-! ### The two ways -/

namespace CommandLine

variable {source : String}

/-- The input in which the text stands as the filter. -/
def inputOf (source : String) : String := "\x7b\"filter\": " ++ source ++ "\x7d"

theorem inputOf_eq (source : String) : inputOf source =
    String.ofList ('\x7b' :: (renderString (some "filter") ++
      ':' :: ' ' :: (source.toList ++ ['\x7d']))) := by
  rw [← String.toList_inj, String.toList_ofList]
  simp [inputOf, renderString, renderChar]

theorem isBlankText_inputOf (source : String) :
    PartitionConfig.isBlankText (inputOf source) = false := by
  have hstart : Text.isBlank '\x7b' = false := by decide
  rw [PartitionConfig.isBlankText, inputOf_eq, String.toList_ofList, Text.trim, Text.trimStart,
    List.dropWhile_cons_of_neg (by simp [hstart]), Text.trimEnd_cons, List.all_cons, hstart]
  rfl

/-- The request for a filter with this limit. -/
def requestFor (limit : Option UInt64) (f : Filter) : SearchRequest :=
  { filter := f, sizeLimit := limit.or none }

theorem buildRequest_filter (hj : parse source = some j) (limit : Option UInt64)
    (input : Except String String) :
    (buildRequest (some source) limit input).toOption =
      (Filter.decoderWith true 127 j).map (requestFor limit) := by
  have hdecode : decode Filter.decoder j = Filter.decoderWith true 127 j := rfl
  simp only [buildRequest, requestOfFilter, hj, Option.bind_some, hdecode]
  cases Filter.decoderWith true 127 j <;> rfl

theorem buildRequest_input (hj : parse source = some j) (limit : Option UInt64) :
    (buildRequest none limit (.ok (inputOf source))).toOption =
      (Filter.ofInput? j).map (requestFor limit) := by
  have hparse : parse (inputOf source) = some (record [("filter", j)]) := by
    rw [inputOf_eq]
    exact parse_member hj "filter"
  have hsound : (record [("filter", j)]).isSoundWithin 127 = j.isSoundWithin 126 := by
    simp [record, isSoundWithin, areMembersSound]
  have hdecode : decode (SearchRequest.decoderWith false) (record [("filter", j.sorted)]) =
      (Filter.decoderWith false 126 j.sorted).map fun f => { filter := f } := by
    have hfields : Decoder.fields ["filter", "size_limit"] nestingLimit
        (record [("filter", j.sorted)]) = some (126, [some j.sorted, none]) := rfl
    rw [decode, SearchRequest.decoderWith, hfields]
    cases hf : Filter.decoderWith false 126 j.sorted <;>
      simp [hf, Decoder.required, Decoder.optional]
  simp only [buildRequest, requestOfInput, isBlankText_inputOf, hparse, Option.bind_some,
    canonical?, hsound, sorted_record, canonicalMembers_singleton, Filter.ofInput?]
  by_cases hs : j.isSoundWithin 126 = true
  · simp only [hs, if_true, hdecode]
    cases Filter.decoderWith false 126 j.sorted <;> rfl
  · simp only [hs]
    rfl

/-- **The two ways to pass a filter.** For a document that nests no deeper than the input allows, and
for every limit, the ways never give different requests. Both give one or neither does if the
document is sound, its assertions are written out and nothing in it repeats; and, to be exact, just
if the argument is refused for a document that is not sound or not written out, and the input for
one in which something repeats. -/
theorem request_ways (hj : parse source = some j) (hdepth : j.depth ≤ 126)
    (limit : Option UInt64) (input : Except String String) :
    let direct := (buildRequest (some source) limit input).toOption
    let read := (buildRequest none limit (.ok (inputOf source))).toOption
    (∀ q ∈ direct, ∀ q' ∈ read, q = q') ∧
      (j.isSoundWithin 126 = true → Filter.WrittenOut j → Filter.Unrepeated j → direct = read) ∧
      (direct = read ↔
        (direct.isSome = true → j.isSoundWithin 126 = true ∧ Filter.WrittenOut j) ∧
          (read.isSome = true → Filter.Unrepeated j)) := by
  intro direct read
  have hdirect : direct = (Filter.decoderWith true 127 j).map (requestFor limit) :=
    buildRequest_filter hj limit input
  have hread : read = (Filter.ofInput? j).map (requestFor limit) := buildRequest_input hj limit
  have hinj : Function.Injective (requestFor limit) := fun f g h =>
    (SearchRequest.mk.inj h).1
  rw [hdirect, hread, (Option.map_injective hinj).eq_iff, Option.isSome_map, Option.isSome_map]
  refine ⟨?_, Filter.ofInput?_eq hdepth, Filter.decoderWith_eq_ofInput?_iff hdepth⟩
  rintro _ hq _ hq'
  obtain ⟨f, hf, rfl⟩ := Option.map_eq_some_iff.mp hq
  obtain ⟨g, hg, rfl⟩ := Option.map_eq_some_iff.mp hq'
  have hunrepeated := Filter.unrepeated_of_decoderWith hf
  have hsame := (Filter.decoderWith_of_ofInput? hdepth hg hunrepeated).1
  rw [Option.some.inj (hf.symm.trans hsame)]

/-- A member that nobody knows may repeat. -/
theorem request_ways_unknown_member :
    let source := "\x7b\"presence\":\x7b\"attribute\":\"cn\",\"note\":1,\"note\":2\x7d\x7d"
    let j := record [("presence",
      record [("attribute", .text "cn"), ("note", .integer 1), ("note", .integer 2)])]
    parse source = some j ∧ j.depth ≤ 126 ∧ j.isSoundWithin 126 = true ∧ Filter.WrittenOut j ∧
      Filter.Unrepeated j ∧ (buildRequest (some source) (some 5) (.error "")).toOption =
        (buildRequest none (some 5) (.ok (inputOf source))).toOption := by
  intro source j
  have hplain : j.Plain := .record <| List.forall_mem_singleton.mpr <| .record <| by
    simp [Plain.integer]
  have hj : parse source = some j := by
    have hprint : j.print = source := by decide
    rw [← hprint]
    exact parse_print hplain
  have hread : Filter.decoderWith false 127 j = some (.assertion (.presence "cn")) := rfl
  have hsound : j.isSoundWithin 126 = true := by decide
  have hout := Filter.writtenOut_of_decoderWith hread
  have hunrepeated := Filter.unrepeated_of_decoderWith hread
  exact ⟨hj, by decide, hsound, hout, hunrepeated,
    (request_ways hj (by decide) (some 5) (.error "")).2.1 hsound hout hunrepeated⟩

/-- The argument is refused for a name that comes twice in an assertion, and the input is not. -/
theorem exists_refused_argument :
    let source := "\x7b\"presence\":\x7b\"attribute\":\"cn\",\"attribute\":\"cn\"\x7d\x7d"
    let j := record [("presence", record [("attribute", .text "cn"), ("attribute", .text "cn")])]
    parse source = some j ∧ j.depth ≤ 126 ∧
      (buildRequest (some source) none (.error "")).toOption = none ∧
      (buildRequest none none (.ok (inputOf source))).toOption =
        some { filter := .assertion (.presence "cn") } := by
  intro source j
  have hplain : j.Plain := .record <| List.forall_mem_singleton.mpr <| .record <| by
    simp
  have hj : parse source = some j := by
    have hprint : j.print = source := by decide
    rw [← hprint]
    exact parse_print hplain
  refine ⟨hj, by decide, ?_, ?_⟩
  · rw [buildRequest_filter hj]
    rfl
  · rw [buildRequest_input hj]
    rfl

end CommandLine

end Directory
