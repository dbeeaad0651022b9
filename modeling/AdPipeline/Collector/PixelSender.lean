import AdPipeline.Collector.SignatureVerifier
import AdPipeline.Lib.Keyed
import AdPipeline.Platform.Decimal
import AdPipeline.Platform.Json

/-!
# Senders of tracking pixels

The traffic generator and the player turn an event into the query of a pixel: they rename its fields
to short keys, print the values, add an expiry and sign the whole with the rules of
`SignatureVerifier`, written a second time in Python. `verify_query` says that the two agree: an
unforged pixel is valid until it expires.

The keyed hash is a parameter, from texts to bytes. Encoding the query and decoding it again is
taken to change nothing.
-/

namespace AdPipeline.Collector

/-- A value in an event. Of a value that is neither a text nor an integer only what `str` prints of
it and the node it is posted as are known. -/
inductive EventValue where
  | none
  | str (s : String)
  | int (n : ℤ)
  | other (text : String) (node : Json)

namespace EventValue

/-- `str(v)`, if `v` is not `None`. -/
def text : EventValue → Option String
  | none => .none
  | str s => some s
  | int n => some (toString n)
  | other text _ => some text

/-- The value in the body of a request. -/
def json : EventValue → Json
  | none => .null
  | str s => .str s
  | int n => .int n
  | other _ node => node

end EventValue

/-- An event of the generator or the player: a dict. -/
abbrev Event := List (String × EventValue)

namespace Event

/-- `ev.get(field)`. -/
def get (ev : Event) (field : String) : Option EventValue := Lib.entry field ev

/-- What a pixel carries of a field, if anything. -/
def text (ev : Event) (field : String) : Option String := (ev.get field).bind EventValue.text

/-- The event in the body of a request. -/
def json (ev : Event) : Fields := ev.map fun f => (f.1, f.2.json)

theorem get_json (ev : Event) (field : String) :
    ev.json.get field = (ev.get field).map EventValue.json := by
  rw [Fields.get, ← Lib.entry_eq_find?, json, Lib.entry_map]
  rfl

end Event

/-- `hexdigest()`: two lower-case digits for each byte. -/
def hexdigest (bytes : List UInt8) : String :=
  String.ofList (bytes.flatMap fun b =>
    [Nat.digitChar (b.toNat / 16), Nat.digitChar (b.toNat % 16)])

/-- A digest is in lower case already. -/
theorem lowercase_hexdigest (bytes : List UInt8) :
    Text.lowercase (hexdigest bytes) = hexdigest bytes := by
  have hdigit : ∀ n < 16, Text.lowercaseChar (Nat.digitChar n) = Nat.digitChar n := by decide
  unfold Text.lowercase hexdigest
  rw [String.toList_ofList, List.map_flatMap]
  congr 1
  refine List.flatMap_congr fun b _ => ?_
  have hb : b.toNat < 256 := b.toNat_lt
  rw [List.map_cons, List.map_singleton, hdigit _ (by omega), hdigit _ (by omega)]

namespace PixelSender

/-- The parameters of a pixel: a dict, in insertion order. -/
abbrev Params := List (String × String)

/-- A table of the parameter each field is sent as. -/
structure PixelMap where
  entries : List (String × String)
  /-- The parameters differ from one another and from the two that are added. -/
  nodup : (entries.map Prod.fst ++ ["exp", "sig"]).Nodup
  below : ∀ e ∈ entries, Text.BelowSurrogates e.1

/-- `sign`'s canonical text: the parameters without `sig`, by key, each as `k=v`, joined by `&`. -/
def canonical (params : Params) : String :=
  String.intercalate "&" (((Text.sorted (params.map Prod.fst)).filter fun k => k ≠ "sig").map
    fun k => k ++ "=" ++ (Lib.entry k params).getD "")

variable (hmac : String → List UInt8)

/-- `sign`. -/
def sign (params : Params) : String := hexdigest (hmac (canonical params))

/-- The expiry of a pixel built at a clock reading: `int(time.time()) + 300`. -/
def expiry (time : Instant) : ℤ := time.nanos.tdiv 1000000000 + 300

/-- The parameters a pixel is signed with. -/
def unsigned (pixelMap : PixelMap) (time : Instant) (ev : Event) : Params :=
  pixelMap.entries.filterMap (fun e => (ev.text e.2).map fun v => (e.1, v)) ++
    [("exp", toString (expiry time))]

/-- The parameters a pixel is sent with. A forged one carries a random tag. -/
def params (pixelMap : PixelMap) (time : Instant) (forge : Option String) (ev : Event) : Params :=
  unsigned pixelMap time ev ++ [("sig", forge.getD (sign hmac (unsigned pixelMap time ev)))]

theorem keys_mapped_sublist (ev : Event) (entries : List (String × String)) :
    ((entries.filterMap fun e => (ev.text e.2).map fun v => (e.1, v)).map Prod.fst).Sublist
      (entries.map Prod.fst) := by
  induction entries with
  | nil => exact List.Sublist.refl _
  | cons e es ih =>
      cases htext : ev.text e.2 with
      | none =>
          rw [List.filterMap_cons_none (by rw [htext]; rfl)]
          exact ih.cons _
      | some v =>
          rw [List.filterMap_cons_some (by rw [htext]; rfl)]
          exact ih.cons_cons _

/-- No parameter is sent twice. -/
theorem nodup_params (pixelMap : PixelMap) (time : Instant) (forge : Option String) (ev : Event) :
    ((params hmac pixelMap time forge ev).map Prod.fst).Nodup := by
  have hsub := (keys_mapped_sublist ev pixelMap.entries).append_right ["exp", "sig"]
  refine pixelMap.nodup.sublist ?_
  simpa [params, unsigned] using hsub

/-- The query the collector decodes. -/
def query (pixelMap : PixelMap) (time : Instant) (forge : Option String) (ev : Event) :
    QueryParams where
  entries := (params hmac pixelMap time forge ev).map fun e => (e.1, [some e.2])
  nodup := by
    rw [List.map_map]
    exact nodup_params hmac pixelMap time forge ev

/-! ## What the collector sees -/

variable {pixelMap : PixelMap} {time : Instant} {ev : Event}

/-- The first value of a parameter is the one it was sent with. -/
theorem first_query (forge : Option String) (key : String) :
    (query hmac pixelMap time forge ev).first key =
      Lib.entry key (params hmac pixelMap time forge ev) := by
  rw [QueryParams.first, QueryParams.values, ← Lib.entry_eq_find?, query]
  rw [Lib.entry_map (fun v : String => [some v])]
  cases Lib.entry key (params hmac pixelMap time forge ev) <;> rfl

/-- A mapped parameter is the text of its field, and is missing where the field is. -/
theorem first_query_of_mem (forge : Option String) {key field : String}
    (h : (key, field) ∈ pixelMap.entries) :
    (query hmac pixelMap time forge ev).first key = ev.text field := by
  have hnodup := nodup_params hmac pixelMap time forge ev
  rw [first_query]
  cases htext : ev.text field with
  | some v =>
      refine Lib.entry_of_mem hnodup (x := (key, v)) ?_
      refine List.mem_append_left _ (List.mem_append_left _ (List.mem_filterMap.2 ⟨_, h, ?_⟩))
      rw [htext]
      rfl
  | none =>
      obtain ⟨hkeys, -, hadded⟩ := List.nodup_append.1 pixelMap.nodup
      have hkey : key ∈ pixelMap.entries.map Prod.fst := List.mem_map.2 ⟨_, h, rfl⟩
      rw [Lib.entry_eq_none_iff]
      simp only [params, unsigned, List.map_append, List.mem_append, List.map_cons, List.map_nil,
        List.mem_singleton]
      rintro ((hmapped | hexp) | hsig)
      · -- the entry of this key would be one whose field has a text
        obtain ⟨e, he, hfst⟩ := List.mem_map.1 hmapped
        obtain ⟨entry, hentry, hsome⟩ := List.mem_filterMap.1 he
        obtain ⟨v, hv, rfl⟩ := Option.map_eq_some_iff.1 hsome
        obtain rfl := List.inj_on_of_nodup_map hkeys hentry h hfst
        rw [htext] at hv
        cases hv
      · exact hadded key hkey "exp" (by simp) hexp
      · exact hadded key hkey "sig" (by simp) hsig

theorem first_query_exp (forge : Option String) :
    (query hmac pixelMap time forge ev).first "exp" = some (toString (expiry time)) := by
  rw [first_query]
  refine Lib.entry_of_mem (nodup_params hmac pixelMap time forge ev)
    (x := ("exp", toString (expiry time))) ?_
  simp [params, unsigned]

theorem first_query_sig (forge : Option String) :
    (query hmac pixelMap time forge ev).first "sig" =
      some (forge.getD (sign hmac (unsigned pixelMap time ev))) := by
  rw [first_query]
  refine Lib.entry_of_mem (nodup_params hmac pixelMap time forge ev)
    (x := ("sig", forge.getD (sign hmac (unsigned pixelMap time ev)))) ?_
  simp [params]

/-! ## The two canonical texts -/

/-- The keys that are signed are the short keys and `exp`. -/
theorem mem_keys_unsigned {key : String} (h : key ∈ (unsigned pixelMap time ev).map Prod.fst) :
    key ∈ pixelMap.entries.map Prod.fst ∨ key = "exp" := by
  rw [unsigned, List.map_append, List.mem_append] at h
  rcases h with h | h
  · exact .inl ((keys_mapped_sublist ev pixelMap.entries).subset h)
  · exact .inr (by simpa using h)

theorem ne_sig_of_mem_keys {key : String} (h : key ∈ (unsigned pixelMap time ev).map Prod.fst) :
    key ≠ "sig" := by
  rcases mem_keys_unsigned h with hkey | rfl
  · exact (List.nodup_append.1 pixelMap.nodup).2.2 key hkey "sig" (by simp)
  · decide

/-- The verifier's canonical text of a sent query is the text its sender signed. -/
theorem canonical_query (forge : Option String) :
    SignatureVerifier.canonical (query hmac pixelMap time forge ev) =
      canonical (unsigned pixelMap time ev) := by
  have hnodup : ((unsigned pixelMap time ev).map Prod.fst).Nodup := by
    have h := nodup_params hmac pixelMap time forge ev
    rw [params, List.map_append] at h
    exact (List.nodup_append.1 h).1
  have hbelow : ∀ e ∈ unsigned pixelMap time ev, Text.BelowSurrogates e.1 := by
    intro e he
    rcases mem_keys_unsigned (List.mem_map_of_mem he) with hkey | hexp
    · obtain ⟨x, hx, hfst⟩ := List.mem_map.1 hkey
      rw [← hfst]
      exact pixelMap.below x hx
    · rw [hexp]
      decide
  -- the signature is the one entry the verifier leaves out
  have hfilter : (query hmac pixelMap time forge ev).entries.filter (fun e => e.1 ≠ "sig") =
      (unsigned pixelMap time ev).map fun e => (e.1, [some e.2]) := by
    show ((params hmac pixelMap time forge ev).map fun e => (e.1, [some e.2])).filter _ = _
    rw [params, List.map_append, List.filter_append, List.filter_eq_self.2,
      List.filter_eq_nil_iff.2, List.append_nil]
    · simp
    · intro e he
      obtain ⟨x, hx, rfl⟩ := List.mem_map.1 he
      simpa using ne_sig_of_mem_keys (List.mem_map_of_mem hx)
  have hsigned : (Text.sorted ((unsigned pixelMap time ev).map Prod.fst)).filter
      (fun k => k ≠ "sig") = (Text.sortedByKey (unsigned pixelMap time ev)).map Prod.fst := by
    rw [Text.sorted_keys hbelow, List.filter_eq_self]
    intro key hkey
    have hperm := (Text.perm_sortedByKey (unsigned pixelMap time ev)).map Prod.fst
    simpa using ne_sig_of_mem_keys (hperm.mem_iff.1 hkey)
  rw [SignatureVerifier.canonical, canonical, hfilter, hsigned,
    Text.sortedByKey_map (fun v : String => [some v]), List.map_map, List.map_map]
  congr 1
  refine List.map_congr_left fun e he => ?_
  have hmem := (Text.perm_sortedByKey (unsigned pixelMap time ev)).mem_iff.1 he
  simp only [Function.comp_apply, Lib.entry_of_mem hnodup hmem]
  rfl

/-- An expiry fits a `Long`. -/
theorem expiry_bounds (h : Time.inRange time = true) :
    Text.longMin ≤ expiry time ∧ expiry time ≤ Text.longMax := by
  rw [Time.inRange, Bool.and_eq_true, decide_eq_true_eq, decide_eq_true_eq,
    Instant.epochSecond] at h
  unfold Text.longMin Text.longMax expiry
  have hsign : Int.sign 1000000000 = 1 := rfl
  rw [Int.tdiv_eq_ediv, hsign]
  split_ifs <;> omega

/-- An unforged pixel is valid until it expires. -/
theorem verify_query {now : Instant} (htime : Time.inRange time = true)
    (hexp : now.epochSecond ≤ expiry time) :
    SignatureVerifier.verify (fun s => hexdigest (hmac s)) now
      (query hmac pixelMap time none ev) = .valid := by
  have hlong : Text.toLongOrNull (toString (expiry time)) = some (expiry time) := by
    rw [Text.toLongOrNull_toString, Text.inLong, if_pos (expiry_bounds htime)]
  unfold SignatureVerifier.verify
  rw [first_query_sig, first_query_exp, canonical_query]
  simp only [hlong, if_neg (not_lt.2 hexp), Option.getD_none, sign, lowercase_hexdigest, if_true]

end PixelSender

/-! ## The two senders -/

/-- `_PIXEL_MAP` of the generator. -/
def Emitter.pixelMap : PixelSender.PixelMap where
  entries :=
    [("eid", "event_id"), ("et", "event_type"), ("cid", "campaign_id"), ("ts", "event_time"),
      ("arid", "ad_request_id"), ("crid", "creative_id"), ("q", "quartile"),
      ("sid", "session_id"), ("src", "source")]
  nodup := by decide
  below := by decide

/-- `_pixel` of the generator. -/
def Emitter.pixel (hmac : String → List UInt8) : Instant → Option String → Event → QueryParams :=
  PixelSender.query hmac Emitter.pixelMap

/-- `PIXEL_MAP` of the player. -/
def Player.pixelMap : PixelSender.PixelMap where
  entries :=
    [("eid", "event_id"), ("et", "event_type"), ("cid", "campaign_id"), ("ts", "event_time"),
      ("arid", "ad_request_id"), ("crid", "creative_id"), ("q", "quartile"),
      ("sid", "session_id"), ("src", "source")]
  nodup := by decide
  below := by decide

/-- `send_pixel` of the player. -/
def Player.sendPixel (hmac : String → List UInt8) :
    Instant → Option String → Event → QueryParams :=
  PixelSender.query hmac Player.pixelMap

/-- Who sends a pixel. -/
inductive Sender where
  | emitter
  | player

/-- The query a sender makes of an event; a forged one carries the tag that is given. -/
def Sender.pixel (hmac : String → List UInt8) :
    Sender → Instant → Option String → Event → QueryParams
  | emitter => Emitter.pixel hmac
  | player => Player.sendPixel hmac

/-- Both senders use one table. -/
theorem Sender.pixel_eq (hmac : String → List UInt8) (sender : Sender) :
    sender.pixel hmac = PixelSender.query hmac Player.pixelMap := by
  cases sender <;> rfl

end AdPipeline.Collector
