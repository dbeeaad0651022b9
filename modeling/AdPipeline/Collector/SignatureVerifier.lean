import AdPipeline.Lib.Delimited
import AdPipeline.Platform.Time

/-!
# Signatures of tracking pixels

`verify` checks a query against the tag of its canonical string. The keyed hash `sign` is a
parameter. `signedView` is what the canonical string is made from, the parameters other than `sig`
in key order with their first values, and two queries agree exactly when their views are equal
(`agrees_iff_signedView`). The canonical string alone does not determine the view.
-/

namespace AdPipeline.Collector

/-- The parameters of a query: each key once, with its values in order. A value is null where the
query has the key without an equals sign. -/
structure QueryParams where
  entries : List (String × List (Option String))
  nodup : (entries.map Prod.fst).Nodup

/-- `firstOrNull()`. -/
def firstOrNull (values : List (Option String)) : Option String := values.head?.join

namespace QueryParams

/-- `params[key]`. -/
def values (p : QueryParams) (key : String) : Option (List (Option String)) :=
  (p.entries.find? fun e => e.1 = key).map Prod.snd

/-- `params[key]?.firstOrNull()`. -/
def first (p : QueryParams) (key : String) : Option String := (p.values key).bind firstOrNull

end QueryParams

namespace SignatureVerifier

inductive Result where
  | valid
  | invalid (reason : String)
deriving DecidableEq

/-- `canonical`: the parameters without `sig`, by key, each as `k=v`, joined by `&`. -/
def canonical (p : QueryParams) : String :=
  String.intercalate "&" ((Text.sortedByKey (p.entries.filter fun e => e.1 ≠ "sig")).map fun e =>
    e.1 ++ "=" ++ (firstOrNull e.2).getD "")

/-- `verify`, `sign` being the keyed hash in lower-case hexadecimal. -/
def verify (sign : String → String) (now : Instant) (p : QueryParams) : Result :=
  match p.first "sig" with
  | none => .invalid "missing_sig"
  | some sig =>
    match p.first "exp" with
    | none => .invalid "missing_exp"
    | some expRaw =>
      match Text.toLongOrNull expRaw with
      | none => .invalid "bad_exp"
      | some exp =>
        if exp < now.epochSecond then .invalid "expired"
        else if sign (canonical p) = Text.lowercase sig then .valid
        else .invalid "bad_signature"

/-- Two queries agree when, `sig` apart, they have the same keys with the same first values. -/
def Agrees (p q : QueryParams) : Prop :=
  ∀ key, key ≠ "sig" → (p.values key).map firstOrNull = (q.values key).map firstOrNull

/-- The parameters other than `sig` in key order, with their first values. -/
def signedView (p : QueryParams) : List (String × Option String) :=
  Text.sortedByKey ((p.entries.filter fun e => e.1 ≠ "sig").map fun e => (e.1, firstOrNull e.2))

/-- The query carries the tag that signing `q` gives. -/
def CarriesTag (sign : String → String) (p q : QueryParams) : Prop :=
  ∃ sig, p.first "sig" = some sig ∧ Text.lowercase sig = sign (canonical q)

/-- The lengths of a key and of its first value, if it has one. -/
def fieldLengths (e : String × Option String) : ℕ × Option ℕ := (e.1.length, e.2.map String.length)

/-- The queries have, in key order, keys and first values of the same lengths. -/
def SameLayout (p q : QueryParams) : Prop :=
  (signedView p).map fieldLengths = (signedView q).map fieldLengths

/-- No key contains a delimiter, and every key has a first value, without a `&`. -/
def DelimiterFree (p : QueryParams) : Prop :=
  ∀ e ∈ signedView p, '=' ∉ e.1.toList ∧ '&' ∉ e.1.toList ∧ ∃ v, e.2 = some v ∧ '&' ∉ v.toList

/-! ## The view of a query -/

theorem perm_signedView (p : QueryParams) :
    (signedView p).Perm
      ((p.entries.filter fun e => e.1 ≠ "sig").map fun e => (e.1, firstOrNull e.2)) :=
  Text.perm_sortedByKey _

theorem nodup_keys_view (p : QueryParams) :
    (((p.entries.filter fun e => e.1 ≠ "sig").map fun e => (e.1, firstOrNull e.2)).map
      Prod.fst).Nodup := by
  rw [List.map_map]
  exact p.nodup.sublist (List.filter_sublist.map Prod.fst)

/-- A key and first value is in the view when the query has it and it is not the signature. -/
theorem mem_signedView {p : QueryParams} {key : String} {v : Option String} :
    (key, v) ∈ signedView p ↔ key ≠ "sig" ∧ (p.values key).map firstOrNull = some v := by
  rw [(perm_signedView p).mem_iff, QueryParams.values, Option.map_map]
  constructor
  · intro h
    obtain ⟨e, he, heq⟩ := List.mem_map.1 h
    obtain ⟨hmem, hne⟩ := List.mem_filter.1 he
    obtain ⟨rfl, rfl⟩ := Prod.mk.inj heq
    refine ⟨by simpa using hne, ?_⟩
    obtain ⟨e', he'⟩ : ∃ e', p.entries.find? (fun x => x.1 = e.1) = some e' := by
      rw [← Option.isSome_iff_exists, List.find?_isSome]
      exact ⟨e, hmem, by simp⟩
    have hkey : e'.1 = e.1 := by simpa using List.find?_some he'
    have : e' = e := List.inj_on_of_nodup_map p.nodup (List.mem_of_find?_eq_some he') hmem hkey
    rw [he', this]
    rfl
  · rintro ⟨hne, h⟩
    obtain ⟨e, he, hv⟩ := Option.map_eq_some_iff.1 h
    have hkey : e.1 = key := by simpa using List.find?_some he
    refine List.mem_map.2 ⟨e, List.mem_filter.2 ⟨List.mem_of_find?_eq_some he, ?_⟩, ?_⟩
    · simpa [hkey] using hne
    · rw [← hkey, ← hv]
      rfl

/-- Queries agree exactly when their views are equal. -/
theorem agrees_iff_signedView {p q : QueryParams} : Agrees p q ↔ signedView p = signedView q := by
  constructor
  · intro h
    refine Text.sortedByKey_eq_of_perm (nodup_keys_view p) ?_
    have hp := List.Nodup.of_map Prod.fst (nodup_keys_view p)
    have hq := List.Nodup.of_map Prod.fst (nodup_keys_view q)
    refine (List.perm_ext_iff_of_nodup hp hq).2 fun x => ?_
    rw [← (perm_signedView p).mem_iff, ← (perm_signedView q).mem_iff]
    obtain ⟨key, v⟩ := x
    rw [mem_signedView, mem_signedView]
    exact and_congr_right fun hne => by rw [h key hne]
  · intro h key hne
    refine Option.ext fun v => ?_
    have : (key, v) ∈ signedView p ↔ _ := mem_signedView
    rw [h, mem_signedView] at this
    simpa [hne] using this.symm

/-- The characters of a key and of its first value, a null counting as the empty text. -/
def fieldChars (e : String × Option String) : List Char × List Char :=
  (e.1.toList, (e.2.getD "").toList)

/-- The canonical string is the delimited text of the view. -/
theorem toList_canonical (p : QueryParams) :
    (canonical p).toList = Lib.joinPairs '=' '&' ((signedView p).map fieldChars) := by
  rw [canonical, signedView, Text.sortedByKey_map, String.toList_intercalate, Lib.joinPairs,
    List.map_map, List.map_map, List.map_map]
  congr 1
  refine List.map_congr_left fun e _ => ?_
  simp [Lib.pairItem, fieldChars]

theorem Agrees.canonical_eq {p q : QueryParams} (h : Agrees p q) : canonical p = canonical q := by
  rw [← String.toList_inj, toList_canonical, toList_canonical, agrees_iff_signedView.1 h]

/-- A query is determined by its canonical string and its layout. -/
theorem agrees_of_sameLayout {p q : QueryParams} (hc : canonical p = canonical q)
    (hl : SameLayout p q) : Agrees p q := by
  rw [agrees_iff_signedView]
  rw [← String.toList_inj, toList_canonical, toList_canonical] at hc
  have hchars : (signedView p).map fieldChars = (signedView q).map fieldChars := by
    refine Lib.joinPairs_inj_of_lengths ?_ hc
    have hlen : Lib.pairLengths ∘ fieldChars = (fun n => (n.1, n.2.getD 0)) ∘ fieldLengths := by
      funext e
      obtain ⟨k, v⟩ := e
      cases v <;> simp [Lib.pairLengths, fieldChars, fieldLengths, String.length_toList]
    rw [List.map_map, List.map_map, hlen, ← List.map_map, ← List.map_map, hl]
  -- the characters give the values up to null, and the layout tells null from empty
  have hlength : (signedView p).length = (signedView q).length := by
    simpa using congrArg List.length hl
  refine List.ext_getElem hlength fun i hi hi' => ?_
  have hci := congrArg (fun l => l[i]?) hchars
  have hli := congrArg (fun l => l[i]?) hl
  simp only [List.getElem?_map, List.getElem?_eq_getElem hi, List.getElem?_eq_getElem hi',
    Option.map_some, Option.some.injEq] at hci hli
  generalize (signedView p)[i] = x at hci hli
  generalize (signedView q)[i] = y at hci hli
  obtain ⟨k, v⟩ := x
  obtain ⟨k', v'⟩ := y
  simp only [fieldChars, fieldLengths, Prod.mk.injEq, String.toList_inj] at hci hli
  obtain ⟨rfl, hv⟩ := hci
  cases v <;> cases v' <;> simp_all

/-- Queries free of delimiters are determined by their canonical strings. -/
theorem agrees_of_delimiterFree {p q : QueryParams} (hc : canonical p = canonical q)
    (hp : DelimiterFree p) (hq : DelimiterFree q) : Agrees p q := by
  rw [agrees_iff_signedView]
  rw [← String.toList_inj, toList_canonical, toList_canonical] at hc
  have hfree : ∀ r : QueryParams, DelimiterFree r →
      ∀ x ∈ (signedView r).map fieldChars, Lib.PairFree '=' '&' x := by
    intro r hr x hx
    obtain ⟨e, he, rfl⟩ := List.mem_map.1 hx
    obtain ⟨hkeyEq, hkeyAmp, v, hv, hvalue⟩ := hr e he
    exact ⟨hkeyEq, hkeyAmp, by simpa [fieldChars, hv] using hvalue⟩
  have hchars := Lib.joinPairs_inj_of_free (by decide) (hfree p hp) (hfree q hq) hc
  -- without nulls the characters determine the values
  have hsome : ∀ r : QueryParams, DelimiterFree r → signedView r =
      ((signedView r).map fieldChars).map fun x =>
        (String.ofList x.1, some (String.ofList x.2)) := by
    intro r hr
    rw [List.map_map]
    refine (List.map_id _).symm.trans (List.map_congr_left fun e he => ?_)
    obtain ⟨-, -, v, hv, -⟩ := hr e he
    obtain ⟨k, o⟩ := e
    obtain rfl : o = some v := hv
    simp [fieldChars]
  rw [hsome p hp, hsome q hq, hchars]

/-- An accepted query carries the tag of its own canonical string. -/
theorem verify_eq_valid {sign : String → String} {now : Instant} {p : QueryParams}
    (h : verify sign now p = .valid) :
    ∃ sig, p.first "sig" = some sig ∧ Text.lowercase sig = sign (canonical p) := by
  unfold verify at h
  split at h
  · cases h
  · rename_i sig hsig
    refine ⟨sig, hsig, ?_⟩
    split at h
    · cases h
    · split at h
      · cases h
      · split_ifs at h with hexp htag
        exact htag.symm

end SignatureVerifier

end AdPipeline.Collector
