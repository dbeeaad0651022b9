import AdPipeline.Lib.Renewal
import AdPipeline.Platform.Json
import AdPipeline.RedisWriter.Exactness

/-!
# Late events and alerts in Redis

Next to the aggregates `writer.py` counts the late events, in total and by the minute of their event
time, and keeps the newest hundred alerts and the number of all. Unlike a window, which is written
over, each message that is handled adds to these keys, and all but the totals expire when nothing
has been added for the lifetime. What Redis holds after any list of messages is said by
`lateTotal_fed`, `get_fed`, `alertsTotal_fed` and `live_fed`.
-/

namespace AdPipeline.RedisWriter

open Lib

/-- A counter, and the second it expires at. -/
structure Counter where
  value : ℕ
  expiresAt : ℤ

/-- The keys `late:1m:..`, `late:total`, `alerts:recent` and `alerts:total`. -/
structure Feeds where
  lateMinutes : List (String × Counter)
  lateTotal : ℕ
  recent : List Json
  recentExpiresAt : ℤ
  alertsTotal : ℕ

def Feeds.empty : Feeds := ⟨[], 0, [], 0, 0⟩

/-- The key of the counter of a minute. -/
def lateKey (t : Instant) : String := "late:1m:" ++ (minuteKey t).1

/-- `GET late:1m:..`. -/
def Feeds.get (r : Feeds) (now : Instant) (key : String) : Option ℕ :=
  ((entry key r.lateMinutes).filter fun c => now.epochSecond < c.expiresAt).map Counter.value

/-- `alerts:recent`, empty when it has expired. -/
def Feeds.live (r : Feeds) (now : Instant) : List Json :=
  if now.epochSecond < r.recentExpiresAt then r.recent else []

/-- The elements that `LRANGE` and `LTRIM` mean, where a negative index counts from the end. -/
def lrange {α : Type*} (l : List α) (start stop : ℤ) : List α :=
  let first := if start < 0 then start + l.length else start
  let last := if stop < 0 then stop + l.length else stop
  (l.take (last + 1).toNat).drop first.toNat

/-- The pipeline of `handle_late`. -/
def handleLate (ttl : ℤ) (now : Instant) (r : Feeds) (eventTime : Instant) : Feeds :=
  { r with
    lateMinutes := upsert Prod.fst
      (lateKey eventTime, ⟨(r.get now (lateKey eventTime)).getD 0 + 1, now.epochSecond + ttl⟩)
      r.lateMinutes
    lateTotal := r.lateTotal + 1 }

/-- The pipeline of `handle_alert`. -/
def handleAlert (ttl : ℤ) (now : Instant) (r : Feeds) (d : Json) : Feeds :=
  { r with
    recent := lrange (d :: r.live now) 0 99
    recentExpiresAt := now.epochSecond + ttl
    alertsTotal := r.alertsTotal + 1 }

/-! ## Reading -/

/-- `late` of `/agg/series`: the minutes of the last `mins`, newest first, that have a counter. -/
def lateSeries (r : Feeds) (now : Instant) (mins : ℤ) : List (ℤ × ℕ) :=
  (List.range (mins + 1).toNat).filterMap fun (i : ℕ) =>
    let m := now.epochSecond / 60 * 60 - i * 60
    (r.get now (lateKey ⟨m * 1000000000⟩)).map (m, ·)

/-- `/alerts?limit=..`. -/
def alertsOf (r : Feeds) (now : Instant) (limit : ℤ) : List Json :=
  lrange (r.live now) 0 (limit - 1)

theorem lrange_zero {α : Type*} (l : List α) {n : ℕ} (hn : 0 < n) :
    lrange l 0 (n - 1 : ℤ) = l.take n := by
  have hlast : ¬ ((n : ℤ) - 1 < 0) := by omega
  simp only [lrange, hlast, if_false, lt_irrefl, Int.toNat_zero, List.drop_zero, Int.sub_add_cancel,
    Int.toNat_natCast]

/-- A limit of zero asks for everything. -/
theorem alertsOf_zero (r : Feeds) (now : Instant) : alertsOf r now 0 = r.live now := by
  simp [alertsOf, lrange]

/-! ## Keys -/

/-- The start of the minute. -/
def minuteStart (t : Instant) : Instant := ⟨t.nanos / 60000000000 * 60000000000⟩

theorem isMinute_minuteStart (t : Instant) : IsMinute (minuteStart t) := by
  simp only [IsMinute, minuteStart]
  omega

/-- The text of an instant is that of its minute. -/
theorem minuteKey_minuteStart (t : Instant) : (minuteKey (minuteStart t)).1 = (minuteKey t).1 := by
  have hday : (minuteStart t).epochSecond / 86400 = t.epochSecond / 86400 := by
    simp only [minuteStart, Instant.epochSecond]
    omega
  have hhour : ((minuteStart t).epochSecond % 86400).toNat / 3600 =
      (t.epochSecond % 86400).toNat / 3600 := by
    simp only [minuteStart, Instant.epochSecond]
    omega
  have hminute : ((minuteStart t).epochSecond % 86400).toNat / 60 % 60 =
      (t.epochSecond % 86400).toNat / 60 % 60 := by
    simp only [minuteStart, Instant.epochSecond]
    omega
  apply String.toList_inj.1
  rw [toList_minuteKey, toList_minuteKey, hday, hhour, hminute]

/-- Two event times share a counter when they are of one minute. -/
theorem lateKey_eq_iff {t u : Instant} : lateKey t = lateKey u ↔ minuteStart t = minuteStart u := by
  constructor
  · intro h
    refine minuteKey_inj (isMinute_minuteStart t) (isMinute_minuteStart u) ?_
    rw [minuteKey_minuteStart, minuteKey_minuteStart]
    have hlist := congrArg String.toList h
    rw [lateKey, lateKey, String.toList_append, String.toList_append] at hlist
    exact String.toList_inj.1 (List.append_cancel_left hlist)
  · intro h
    rw [lateKey, lateKey, ← minuteKey_minuteStart t, h, minuteKey_minuteStart]

/-! ## What the messages make of Redis -/

/-- What a message adds. -/
inductive FeedEntry where
  | late (eventTime : Instant)
  | alert (d : Json)

def FeedEntry.isLate : FeedEntry → Bool
  | .late _ => true
  | .alert _ => false

def FeedEntry.isAlert : FeedEntry → Bool
  | .late _ => false
  | .alert _ => true

/-- The alert of an entry. -/
def FeedEntry.json : FeedEntry → Option Json
  | .late _ => none
  | .alert d => some d

/-- A late event that counts for a key. -/
def FeedEntry.countsFor (key : String) : FeedEntry → Bool
  | .late eventTime => lateKey eventTime = key
  | .alert _ => false

def Feeds.add (ttl : ℤ) (now : Instant) (r : Feeds) : FeedEntry → Feeds
  | .late eventTime => handleLate ttl now r eventTime
  | .alert d => handleAlert ttl now r d

/-- Redis after the entries, newest first and each with the time of its handling. -/
def fed (ttl : ℤ) (entries : List (Instant × FeedEntry)) : Feeds :=
  entries.foldr (fun x r => r.add ttl x.1 x.2) .empty

variable {ttl : ℤ} {entries : List (Instant × FeedEntry)}

theorem fed_cons (x : Instant × FeedEntry) :
    fed ttl (x :: entries) = (fed ttl entries).add ttl x.1 x.2 := rfl

/-- `late:total` is the number of late events handled. -/
theorem lateTotal_fed : (fed ttl entries).lateTotal = entries.countP fun x => x.2.isLate := by
  induction entries with
  | nil => rfl
  | cons x entries ih =>
      obtain ⟨now, e⟩ := x
      rw [List.countP_cons, ← ih]
      cases e <;> rfl

/-- `alerts:total` is the number of alerts handled. -/
theorem alertsTotal_fed : (fed ttl entries).alertsTotal = entries.countP fun x => x.2.isAlert := by
  induction entries with
  | nil => rfl
  | cons x entries ih =>
      obtain ⟨now, e⟩ := x
      rw [List.countP_cons, ← ih]
      cases e <;> rfl

/-- The entries of some sort, back to the first silence of the lifetime among them. -/
def newest (ttl : ℤ) (now : Instant) (p : FeedEntry → Bool)
    (entries : List (Instant × FeedEntry)) : List FeedEntry :=
  sinceSilence ttl now.epochSecond
    ((entries.filter fun x => p x.2).map fun x => (x.1.epochSecond, x.2))

theorem newest_cons (now : Instant) (p : FeedEntry → Bool) (x : Instant × FeedEntry) :
    newest ttl now p (x :: entries) =
      if p x.2 then
        if now.epochSecond < x.1.epochSecond + ttl then x.2 :: newest ttl x.1 p entries else []
      else newest ttl now p entries := by
  by_cases hp : p x.2 = true
  · simp only [newest, List.filter_cons, hp, if_true, List.map_cons, sinceSilence_cons]
  · simp only [newest, List.filter_cons, hp, if_false, Bool.false_eq_true]

/-- When all of them are recent these are all. -/
theorem newest_eq {now : Instant} {p : FeedEntry → Bool}
    (hclock : entries.Pairwise fun x y => y.1.epochSecond ≤ x.1.epochSecond)
    (hpast : ∀ x ∈ entries, x.1.epochSecond ≤ now.epochSecond)
    (hrecent : ∀ x ∈ entries, p x.2 = true → now.epochSecond < x.1.epochSecond + ttl) :
    newest ttl now p entries = (entries.map Prod.snd).filter p := by
  rw [newest, sinceSilence_eq, List.map_map, List.filter_map]
  · rfl
  · exact List.pairwise_map.2 (hclock.sublist List.filter_sublist)
  · intro x hx
    obtain ⟨y, hy, rfl⟩ := List.mem_map.1 hx
    exact hpast y (List.mem_of_mem_filter hy)
  · intro x hx
    obtain ⟨y, hy, rfl⟩ := List.mem_map.1 hx
    obtain ⟨hy, hp⟩ := List.mem_filter.1 hy
    exact hrecent y hy hp

/-- The counter of a minute, after a late event. -/
theorem get_handleLate (now written eventTime : Instant) (r : Feeds) (key : String) :
    (handleLate ttl written r eventTime).get now key =
      if lateKey eventTime = key then
        if now.epochSecond < written.epochSecond + ttl then some ((r.get written key).getD 0 + 1)
        else none
      else r.get now key := by
  rw [Feeds.get, handleLate, entry_upsert]
  by_cases hkey : lateKey eventTime = key
  · subst hkey
    rw [if_pos rfl, if_pos rfl, Option.filter_some]
    by_cases hlive : now.epochSecond < written.epochSecond + ttl
    · rw [if_pos (decide_eq_true hlive), if_pos hlive, Option.map_some]
    · rw [if_neg (by simpa using hlive), if_neg hlive, Option.map_none]
  · rw [if_neg hkey, if_neg hkey]
    rfl

/-- A minute has a counter when late events count for it, and then it is their number. -/
theorem get_fed (now : Instant) (key : String) :
    (fed ttl entries).get now key =
      if newest ttl now (FeedEntry.countsFor key) entries = [] then none
      else some (newest ttl now (FeedEntry.countsFor key) entries).length := by
  induction entries generalizing now with
  | nil => rfl
  | cons x entries ih =>
      obtain ⟨written, e⟩ := x
      rw [fed_cons, newest_cons]
      cases e with
      | alert d => exact ih now
      | late eventTime =>
          rw [Feeds.add, get_handleLate]
          simp only [FeedEntry.countsFor, decide_eq_true_eq]
          by_cases hkey : lateKey eventTime = key
          · rw [if_pos hkey, if_pos hkey]
            by_cases hlive : now.epochSecond < written.epochSecond + ttl
            · rw [if_pos hlive, if_pos hlive, if_neg (List.cons_ne_nil _ _), List.length_cons,
                ih written]
              by_cases hnone : newest ttl written (FeedEntry.countsFor key) entries = []
              · rw [if_pos hnone, hnone]
                rfl
              · rw [if_neg hnone]
                rfl
            · rw [if_neg hlive, if_neg hlive, if_pos rfl]
          · rw [if_neg hkey, if_neg hkey, ih now]

/-- `alerts:recent` has the newest hundred alerts since the first silence of the lifetime. -/
theorem live_fed (now : Instant) :
    (fed ttl entries).live now =
      ((newest ttl now FeedEntry.isAlert entries).filterMap FeedEntry.json).take 100 := by
  induction entries generalizing now with
  | nil => exact ite_self []
  | cons x entries ih =>
      obtain ⟨written, e⟩ := x
      rw [fed_cons, newest_cons]
      cases e with
      | late eventTime => exact ih now
      | alert d =>
          have hnewest : (handleAlert ttl written (fed ttl entries) d).live now =
              if now.epochSecond < written.epochSecond + ttl then
                (d :: (fed ttl entries).live written).take 100
              else [] := by
            rw [← lrange_zero _ (by decide : 0 < 100)]
            rfl
          rw [Feeds.add, hnewest, if_pos (show FeedEntry.isAlert (.alert d) = true from rfl)]
          split_ifs
          · rw [ih written, List.filterMap_cons]
            simp only [FeedEntry.json]
            rw [List.take_succ_cons, List.take_succ_cons, List.take_take]
            rfl
          · rfl

end AdPipeline.RedisWriter
