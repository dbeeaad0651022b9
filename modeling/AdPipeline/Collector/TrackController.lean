import AdPipeline.Collector.SignatureVerifier
import AdPipeline.Collector.EventIngestService

/-!
# `GET /v1/track`

The tracking pixel builds an event from the parameters of an accepted query and ingests it, or makes
a dead letter of a rejected one. What a query that an outsider sends has to do with the queries that
were signed is `accepted_agrees_iff`.
-/

namespace AdPipeline.Collector

namespace TrackController

open SignatureVerifier

/-- The event built from an accepted query; `now` is the time of occurrence when `ts` is missing or
does not parse. -/
def pixelEvent (now : Instant) (p : QueryParams) : Fields :=
  let text (o : Option String) : Json := o.elim .null .str
  [("event_id", text (p.first "eid")),
    ("event_type", .str ((p.first "et").getD "impression")),
    ("campaign_id", text (p.first "cid")),
    ("event_time",
      .str (Time.toText (((p.first "ts").bind EventValidator.parseInstantText).getD now))),
    ("ad_request_id", text (p.first "arid")),
    ("creative_id", text (p.first "crid")),
    ("quartile", text (p.first "q")),
    ("session_id", text (p.first "sid")),
    ("source", .str ((p.first "src").getD "client")),
    ("transport", .str "pixel")]

/-- What is kept of a rejected query. -/
def rejectedQuery (rawQuery : Option String) (p : QueryParams) : Fields :=
  let named : Fields :=
    p.entries.foldl (fun fields e => Fields.putText fields e.1 (firstOrNull e.2)) []
  named.put "_query" (.str (rawQuery.getD ""))

/-- `track`: the publish call a pixel gives rise to. The pixel itself is the answer in any case. -/
def track (sign : String → String) (verifiedAt defaultedAt : Instant) (r : Readings)
    (rawQuery : Option String) (p : QueryParams) : PublishCall :=
  match verify sign verifiedAt p with
  | .invalid reason =>
    EventIngestService.toDlq r "v1_track" ("track_" ++ reason) (.obj (rejectedQuery rawQuery p))
  | .valid => EventIngestService.ingest r "v1_track" (.obj (pixelEvent defaultedAt p))

/-- The event depends on the first values only. -/
theorem pixelEvent_eq_of_agrees {p q : QueryParams} (h : Agrees p q) (now : Instant) :
    pixelEvent now p = pixelEvent now q := by
  have hfirst : ∀ key, key ≠ "sig" → p.first key = q.first key := by
    intro key hne
    have hbind : ∀ r : QueryParams, r.first key = ((r.values key).map firstOrNull).join := by
      intro r
      unfold QueryParams.first
      cases r.values key <;> rfl
    rw [hbind p, hbind q, h key hne]
  unfold pixelEvent
  rw [hfirst "eid" (by decide), hfirst "et" (by decide), hfirst "cid" (by decide),
    hfirst "ts" (by decide), hfirst "arid" (by decide), hfirst "crid" (by decide),
    hfirst "q" (by decide), hfirst "sid" (by decide), hfirst "src" (by decide)]

/-! ## Queries from outside -/

/-- An outsider cannot evaluate the hash: where the signature sent is a tag at all, it is the tag of
a signed query. -/
def OutsiderSends (sign : String → String) (Q : Set QueryParams) (p : QueryParams) : Prop :=
  ∀ sig s, p.first "sig" = some sig → Text.lowercase sig = sign s →
    ∃ q ∈ Q, sign (canonical q) = sign s

/-- An accepted query has the canonical string of a signed one. -/
theorem exists_signed_canonical {sign : String → String} (hsign : Function.Injective sign)
    {Q : Set QueryParams} {p : QueryParams} (hout : OutsiderSends sign Q p) {now : Instant}
    (hok : verify sign now p = .valid) : ∃ q ∈ Q, canonical p = canonical q := by
  obtain ⟨sig, hsig, htag⟩ := verify_eq_valid hok
  obtain ⟨q, hq, heq⟩ := hout sig _ hsig htag
  exact ⟨q, hq, (hsign heq).symm⟩

/-- An accepted query agrees with a signed one exactly when it carries the tag of a signed query of
the same layout; where the signed queries are free of delimiters, exactly when it is so itself. A
query that agrees with a signed one builds the event that was signed. -/
theorem accepted_agrees_iff (sign : String → String) (hsign : Function.Injective sign)
    (Q : Set QueryParams) (p : QueryParams) (hout : OutsiderSends sign Q p) (now : Instant)
    (hok : verify sign now p = .valid) :
    ((∃ q ∈ Q, Agrees p q) ↔ ∃ q ∈ Q, CarriesTag sign p q ∧ SameLayout p q) ∧
    ((∀ q ∈ Q, DelimiterFree q) → ((∃ q ∈ Q, Agrees p q) ↔ DelimiterFree p)) ∧
    ∀ q ∈ Q, Agrees p q → ∀ t, pixelEvent t p = pixelEvent t q := by
  obtain ⟨sig, hsig, htag⟩ := verify_eq_valid hok
  refine ⟨⟨?_, ?_⟩, fun hfree => ⟨?_, ?_⟩, fun q _ hagrees t => pixelEvent_eq_of_agrees hagrees t⟩
  · rintro ⟨q, hq, hagrees⟩
    refine ⟨q, hq, ⟨sig, hsig, by rw [htag, hagrees.canonical_eq]⟩, ?_⟩
    rw [SameLayout, agrees_iff_signedView.1 hagrees]
  · rintro ⟨q, hq, ⟨sig', hsig', htag'⟩, hlayout⟩
    obtain rfl : sig = sig' := Option.some.inj (hsig.symm.trans hsig')
    exact ⟨q, hq, agrees_of_sameLayout (hsign (htag.symm.trans htag')) hlayout⟩
  · rintro ⟨q, hq, hagrees⟩
    rw [DelimiterFree, agrees_iff_signedView.1 hagrees]
    exact hfree q hq
  · intro hp
    obtain ⟨q, hq, hc⟩ := exists_signed_canonical hsign hout hok
    exact ⟨q, hq, agrees_of_delimiterFree hc hp (hfree q hq)⟩

/-- An injective function that gives the string signed below its tag under the development key. -/
def sampleSign (s : String) : String :=
  if s = "cid=c1&eid=e1&et=click&exp=1790003600&ts=1790000000000" then
    "9380f3cfe3f33ed117a3747db709e80ebd12e31cb80b8abcf388c6aac7fb6d93"
  else "0" ++ s

/-- A signed click. -/
def signedClick : QueryParams where
  entries := [("eid", [some "e1"]), ("et", [some "click"]), ("cid", [some "c1"]),
    ("ts", [some "1790000000000"]), ("exp", [some "1790003600"]),
    ("sig", [some "9380f3cfe3f33ed117a3747db709e80ebd12e31cb80b8abcf388c6aac7fb6d93"])]
  nodup := by decide

/-- The same tag on a query without `et`, whose `eid` carries it instead. -/
def shiftedClick : QueryParams where
  entries := [("eid", [some "e1&et=click"]), ("cid", [some "c1"]),
    ("ts", [some "1790000000000"]), ("exp", [some "1790003600"]),
    ("sig", [some "9380f3cfe3f33ed117a3747db709e80ebd12e31cb80b8abcf388c6aac7fb6d93"])]
  nodup := by decide

theorem sampleSign_injective : Function.Injective sampleSign := by
  intro a b h
  unfold sampleSign at h
  split_ifs at h with ha hb hb
  · rw [ha, hb]
  · have := congrArg String.toList h
    simp [String.toList_append] at this
  · have := congrArg String.toList h
    simp [String.toList_append] at this
  · have := congrArg String.toList h
    simpa [String.toList_append, String.toList_inj] using this

/-- A query with the tag of the signed click is one an outsider can send. -/
theorem outsiderSends_signedClick {p : QueryParams}
    (h : p.first "sig" = signedClick.first "sig") :
    OutsiderSends sampleSign {signedClick} p := by
  intro sig s hsig hs
  refine ⟨signedClick, rfl, ?_⟩
  have htag : (signedClick.first "sig").map Text.lowercase =
      some (sampleSign (canonical signedClick)) := by
    decide
  rw [← h, hsig] at htag
  rw [← hs, ← Option.some.inj htag]

/-- The signed click itself is accepted and builds the event that was signed. -/
theorem accepted_agrees_iff_click :
    DelimiterFree signedClick ∧
      ∃ q ∈ ({signedClick} : Set QueryParams), Agrees signedClick q := by
  have hfree : DelimiterFree signedClick := by
    have hview : signedView signedClick = [("cid", some "c1"), ("eid", some "e1"),
        ("et", some "click"), ("exp", some "1790003600"), ("ts", some "1790000000000")] := by
      decide
    intro e he
    rw [hview] at he
    simp only [List.mem_cons, List.not_mem_nil, or_false] at he
    rcases he with rfl | rfl | rfl | rfl | rfl <;>
      exact ⟨by decide, by decide, _, rfl, by decide⟩
  refine ⟨hfree, ?_⟩
  refine ((accepted_agrees_iff sampleSign sampleSign_injective {signedClick} signedClick
    (outsiderSends_signedClick rfl) ⟨0⟩ (by decide)).2.1 ?_).2 hfree
  rintro q rfl
  exact hfree

/-- The shifted click is accepted and agrees with no signed query. -/
theorem accepted_not_signed :
    ¬ ∀ (sign : String → String) (Q : Set QueryParams) (p : QueryParams) (now : Instant),
      Function.Injective sign → OutsiderSends sign Q p → verify sign now p = .valid →
        ∃ q ∈ Q, Agrees p q := by
  intro h
  obtain ⟨q, rfl, hagrees⟩ := h sampleSign {signedClick} shiftedClick ⟨0⟩ sampleSign_injective
    (outsiderSends_signedClick (by decide)) (by decide)
  have het := hagrees "et" (by decide)
  revert het
  decide

/-- The shifted click is counted as an impression. -/
example : (pixelEvent ⟨0⟩ shiftedClick).get "event_type" = some (.str "impression") := rfl

end TrackController

end AdPipeline.Collector
