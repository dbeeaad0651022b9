import AdPipeline.Platform.Decimal
import AdPipeline.Settlement.Reconcile

/-!
# The cause a reconciliation row reports

`likelyCause` is a text, and the end-to-end check judges a campaign by what the text contains. What
it says is read back from it here: whether it reports an anomaly (`reportsAnomaly`) and what its
signed terms add up to (`printedSum`). `explains_iff` compares that with the figures of the row.
-/

namespace AdPipeline.Settlement

open Lib Text

/-! ## Reading the text -/

/-- The check of the end-to-end test. -/
def reportsAnomaly (text : String) : Bool :=
  contains text "잔차" || contains text "미집계" || contains text "미적재"

/-- The labels of the terms, with their signs. -/
def labels : List (String × ℤ) :=
  [("지연반영 +", 1), ("SSAI이중경로 -", -1), ("잔차 +", 1), ("잔차 -", -1)]

/-- The number that is written at the front. -/
def leadingNat (cs : List Char) : ℕ := Nat.ofDigitChars 10 (cs.takeWhile Time.isDigit) 0

/-- The signed term that begins at the front, zero if none does. -/
def termAt (cs : List Char) : ℤ :=
  (labels.map fun l =>
    if l.1.toList.isPrefixOf cs then l.2 * leadingNat (cs.drop l.1.toList.length) else 0).sum

/-- The terms that begin anywhere, added up. -/
def termSum : List Char → ℤ
  | [] => 0
  | c :: cs => termAt (c :: cs) + termSum cs

/-- The sum of the signed terms that a text prints. -/
def printedSum (text : String) : ℤ := termSum text.toList

/-! ## Terms -/

/-- The first characters of the labels. -/
def heads : List Char := ['지', 'S', '잔']

theorem termAt_of_notMem {c : Char} (h : c ∉ heads) (cs : List Char) : termAt (c :: cs) = 0 := by
  simp only [heads, List.mem_cons, List.not_mem_nil, or_false, not_or] at h
  simp [termAt, labels, Ne.symm h.1, Ne.symm h.2.1, Ne.symm h.2.2]

/-- Characters that begin no label add nothing. -/
theorem termSum_append {l : List Char} (h : ∀ c ∈ l, c ∉ heads) (cs : List Char) :
    termSum (l ++ cs) = termSum cs := by
  induction l with
  | nil => rfl
  | cons c l ih =>
      rw [List.cons_append, termSum, termAt_of_notMem (h c List.mem_cons_self), zero_add,
        ih fun d hd => h d (List.mem_cons_of_mem c hd)]

/-- Behind each label its number is read. -/
theorem termSum_label {l : String × ℤ} (h : l ∈ labels) (cs : List Char) :
    termSum (l.1.toList ++ cs) = l.2 * leadingNat cs + termSum cs := by
  simp only [labels, List.mem_cons, List.not_mem_nil, or_false] at h
  rcases h with rfl | rfl | rfl | rfl <;> simp [termSum, termAt, labels]

/-- A number ends where a character follows that is no digit. -/
theorem leadingNat_append (n : ℕ) {cs : List Char} (h : cs.head?.any Time.isDigit = false) :
    leadingNat (Nat.toDigits 10 n ++ cs) = n := by
  have hdigits : (Nat.toDigits 10 n ++ cs).takeWhile Time.isDigit = Nat.toDigits 10 n := by
    rw [List.takeWhile_append_of_pos fun c hc => Time.isDigit_of_mem_toDigits hc]
    cases cs with
    | nil => exact List.append_nil _
    | cons c cs =>
        replace h : Time.isDigit c = false := h
        rw [List.takeWhile_cons_of_neg (by simp [h]), List.append_nil]
  rw [leadingNat, hdigits, Nat.ofDigitChars_ten_toDigits]

theorem notMem_heads_of_isDigit {c : Char} (h : Time.isDigit c = true) : c ∉ heads := by
  intro hc
  simp only [heads, List.mem_cons, List.not_mem_nil, or_false] at hc
  rcases hc with rfl | rfl | rfl <;> cases h

/-- The text, whatever follows it but a digit, adds one term to the sum. -/
def IsTerm (part : String) (v : ℤ) : Prop :=
  ∀ cs : List Char, cs.head?.any Time.isDigit = false →
    termSum (part.toList ++ cs) = v + termSum cs

/-- The text may stand behind a number: it does not continue the number and begins no label. -/
def IsNote (text : String) : Prop :=
  text.toList.head?.any Time.isDigit = false ∧ ∀ c ∈ text.toList, c ∉ heads

instance : DecidablePred IsNote := fun text =>
  have : Decidable (∀ c ∈ text.toList, c ∉ heads) := List.decidableBAll (· ∉ heads) text.toList
  inferInstanceAs (Decidable (_ ∧ _))

/-- A label, a number and a note are one term. -/
theorem isTerm_of_label {l : String × ℤ} (hl : l ∈ labels) {part : String} (n : ℕ) {note : String}
    (hnote : IsNote note)
    (hpart : part.toList = l.1.toList ++ (Nat.toDigits 10 n ++ note.toList)) :
    IsTerm part (l.2 * n) := by
  intro cs hcs
  have hrest : (note.toList ++ cs).head?.any Time.isDigit = false := by
    have hhead := hnote.1
    cases hlist : note.toList with
    | nil => exact hcs
    | cons d ds =>
        rw [hlist] at hhead
        exact hhead
  rw [hpart, List.append_assoc, List.append_assoc, termSum_label hl, leadingNat_append n hrest,
    termSum_append fun c hc => notMem_heads_of_isDigit (Time.isDigit_of_mem_toDigits hc),
    termSum_append hnote.2]

/-- Terms joined by commas add up. -/
theorem termSum_intercalate {parts : List String} {vs : List ℤ}
    (h : List.Forall₂ IsTerm parts vs) :
    termSum (String.intercalate " , " parts).toList = vs.sum := by
  induction h with
  | nil => rfl
  | @cons part v parts vs hpart hparts ih =>
      rw [List.sum_cons]
      by_cases hnil : parts = []
      · subst hnil
        cases hparts
        have hlast := hpart [] rfl
        rw [List.append_nil] at hlast
        rw [String.intercalate_singleton, hlast]
        rfl
      · rw [String.intercalate_cons_of_ne_nil hnil, String.toList_append, String.toList_append,
          List.append_assoc, hpart _ rfl, termSum_append (by simp [heads]), ih]

/-! ## Reports -/

/-- The report needs one of two characters. -/
theorem mem_of_reportsAnomaly {text : String} (h : reportsAnomaly text = true) :
    '잔' ∈ text.toList ∨ '미' ∈ text.toList := by
  rw [reportsAnomaly, Bool.or_eq_true, Bool.or_eq_true, contains_eq_true, contains_eq_true,
    contains_eq_true] at h
  rcases h with (h | h) | h
  · exact .inl (h.subset (by decide))
  · exact .inr (h.subset (by decide))
  · exact .inr (h.subset (by decide))

/-! ## The texts of `classify` -/

/-- The text for a campaign the realtime side did not count. -/
def notAggregated : String := "실시간 미집계(Flink 잡이 그 구간에 없었거나 윈도우 미확정)"

/-- The text for a campaign the batch did not load. -/
def notLoaded : String := "배치 미적재(archive 잡이 그 구간에 없었거나 Parquet 커밋 전)"

/-- The text for a campaign without differences. -/
def noDifference : String := "차이 없음"

/-- What explains a residual above and below zero. -/
def surplusNote : String :=
  "(실시간 미확정 창 - 부하가 멈추면 워터마크도 멈춘다. " ++
    "scripts/flush-windows.sh / 또는 그 구간에 Flink 잡이 없었음)"

def deficitNote : String :=
  "(TTL 1시간을 넘긴 재전송을 실시간이 중복으로 셌거나 " ++ "그 구간에 archive 잡이 없어 원본 누락)"

/-- The parts of the decomposition, each where it is not zero. -/
def parts (ssai late residual : ℤ) : List String :=
  (if late ≠ 0 then ["지연반영 +" ++ toString late] else []) ++
  (if ssai ≠ 0 then ["SSAI이중경로 -" ++ toString ssai] else []) ++
  (if residual > 0 then ["잔차 +" ++ toString residual ++ surplusNote]
  else if residual < 0 then ["잔차 " ++ toString residual ++ deficitNote]
  else [])

theorem classify_eq (ssai late residual rt bt : ℤ) :
    classify ssai late residual rt bt =
      if rt = 0 ∧ bt > 0 then notAggregated
      else if bt = 0 ∧ rt > 0 then notLoaded
      else if parts ssai late residual = [] then noDifference
      else String.intercalate " , " (parts ssai late residual) := by
  unfold parts surplusNote deficitNote
  rw [← String.append_assoc, ← String.append_assoc]
  rfl

/-- The values of the parts. -/
def values (ssai late residual : ℤ) : List ℤ :=
  (if late ≠ 0 then [late] else []) ++ (if ssai ≠ 0 then [-ssai] else []) ++
    (if residual > 0 then [residual] else if residual < 0 then [residual] else [])

theorem sum_values (ssai late residual : ℤ) :
    (values ssai late residual).sum = late - ssai + residual := by
  unfold values
  rw [List.sum_append, List.sum_append]
  split_ifs <;> simp only [List.sum_singleton, List.sum_nil] <;> omega

theorem toList_toString_natCast (n : ℕ) : (toString (n : ℤ)).toList = Nat.toDigits 10 n := by
  rw [Text.toList_toString, if_neg (by omega), Int.natAbs_natCast]

theorem isNote_empty : IsNote "" := ⟨by simp, by simp⟩

theorem isNote_surplusNote : IsNote surplusNote := by decide +kernel

theorem isNote_deficitNote : IsNote deficitNote := by decide +kernel

theorem isTerm_late (n : ℕ) : IsTerm ("지연반영 +" ++ toString (n : ℤ)) n := by
  have hpart : ("지연반영 +" ++ toString (n : ℤ)).toList =
      "지연반영 +".toList ++ (Nat.toDigits 10 n ++ "".toList) := by
    rw [String.toList_append, toList_toString_natCast]
    simp
  have h := isTerm_of_label (l := ("지연반영 +", 1)) (by simp [labels]) n isNote_empty hpart
  rwa [one_mul] at h

theorem isTerm_ssai (n : ℕ) : IsTerm ("SSAI이중경로 -" ++ toString (n : ℤ)) (-n) := by
  have hpart : ("SSAI이중경로 -" ++ toString (n : ℤ)).toList =
      "SSAI이중경로 -".toList ++ (Nat.toDigits 10 n ++ "".toList) := by
    rw [String.toList_append, toList_toString_natCast]
    simp
  have h := isTerm_of_label (l := ("SSAI이중경로 -", -1)) (by simp [labels]) n isNote_empty hpart
  rwa [neg_one_mul] at h

theorem isTerm_surplus (n : ℕ) : IsTerm ("잔차 +" ++ toString (n : ℤ) ++ surplusNote) n := by
  have hpart : ("잔차 +" ++ toString (n : ℤ) ++ surplusNote).toList =
      "잔차 +".toList ++ (Nat.toDigits 10 n ++ surplusNote.toList) := by
    rw [String.toList_append, String.toList_append, toList_toString_natCast, List.append_assoc]
  have h := isTerm_of_label (l := ("잔차 +", 1)) (by simp [labels]) n isNote_surplusNote hpart
  rwa [one_mul] at h

theorem isTerm_deficit {n : ℤ} (hn : n < 0) :
    IsTerm ("잔차 " ++ toString n ++ deficitNote) n := by
  have hpart : ("잔차 " ++ toString n ++ deficitNote).toList =
      "잔차 -".toList ++ (Nat.toDigits 10 n.natAbs ++ deficitNote.toList) := by
    rw [String.toList_append, String.toList_append, Text.toList_toString, if_pos hn,
      List.append_assoc]
    rfl
  have h := isTerm_of_label (l := ("잔차 -", -1)) (by simp [labels]) n.natAbs isNote_deficitNote
    hpart
  have habs : (-1 : ℤ) * n.natAbs = n := by omega
  rwa [habs] at h

/-- The parts print the values. -/
theorem forall₂_parts {ssai late : ℤ} (residual : ℤ) (hssai : 0 ≤ ssai) (hlate : 0 ≤ late) :
    List.Forall₂ IsTerm (parts ssai late residual) (values ssai late residual) := by
  obtain ⟨s, rfl⟩ := Int.eq_ofNat_of_zero_le hssai
  obtain ⟨l, rfl⟩ := Int.eq_ofNat_of_zero_le hlate
  unfold parts values
  refine List.rel_append (List.rel_append ?_ ?_) ?_
  · split_ifs
    · exact .cons (isTerm_late l) .nil
    · exact .nil
  · split_ifs
    · exact .cons (isTerm_ssai s) .nil
    · exact .nil
  · split_ifs with hpos hneg
    · obtain ⟨n, rfl⟩ := Int.eq_ofNat_of_zero_le hpos.le
      exact .cons (isTerm_surplus n) .nil
    · exact .cons (isTerm_deficit hneg) .nil
    · exact .nil

/-- The text of a campaign that both sides have counted, or neither. -/
def explained (ssai late residual : ℤ) : String :=
  if parts ssai late residual = [] then noDifference
  else String.intercalate " , " (parts ssai late residual)

/-- Only one side has counted anything. -/
def OneSided (rt bt : ℤ) : Prop := (rt = 0 ∧ bt > 0) ∨ (bt = 0 ∧ rt > 0)

variable {ssai late residual rt bt : ℤ}

theorem classify_of_oneSided (ssai late residual : ℤ) (h : OneSided rt bt) :
    classify ssai late residual rt bt = notAggregated ∨
      classify ssai late residual rt bt = notLoaded := by
  rw [classify_eq]
  rcases h with h | h
  · exact .inl (if_pos h)
  · rw [if_neg (by omega), if_pos h]
    exact .inr rfl

theorem classify_of_not_oneSided (h : ¬ OneSided rt bt) :
    classify ssai late residual rt bt = explained ssai late residual := by
  rw [OneSided, not_or] at h
  rw [classify_eq, if_neg h.1, if_neg h.2, explained]

/-! ## What the texts say -/

theorem parts_eq_nil_iff : parts ssai late residual = [] ↔ late = 0 ∧ ssai = 0 ∧ residual = 0 := by
  unfold parts
  rw [List.append_eq_nil_iff, List.append_eq_nil_iff, and_assoc]
  refine and_congr ?_ (and_congr ?_ ?_)
  · split_ifs with h
    · exact iff_of_false (by simp) h
    · exact iff_of_true rfl (not_not.1 h)
  · split_ifs with h
    · exact iff_of_false (by simp) h
    · exact iff_of_true rfl (not_not.1 h)
  · split_ifs with hpos hneg
    · exact iff_of_false (by simp) (by omega)
    · exact iff_of_false (by simp) (by omega)
    · exact iff_of_true rfl (by omega)

/-- The terms of a decomposition add up to the difference it decomposes. -/
theorem printedSum_explained (residual : ℤ) (hssai : 0 ≤ ssai) (hlate : 0 ≤ late) :
    printedSum (explained ssai late residual) = late - ssai + residual := by
  have hterms := termSum_intercalate (forall₂_parts residual hssai hlate)
  rw [sum_values] at hterms
  unfold explained
  split_ifs with hnil
  · rw [hnil] at hterms
    rw [← hterms]
    decide
  · exact hterms

/-- The parts there are. -/
theorem mem_parts {p : String} :
    p ∈ parts ssai late residual ↔
      (late ≠ 0 ∧ p = "지연반영 +" ++ toString late) ∨
      (ssai ≠ 0 ∧ p = "SSAI이중경로 -" ++ toString ssai) ∨
      (residual > 0 ∧ p = "잔차 +" ++ toString residual ++ surplusNote) ∨
      (residual < 0 ∧ p = "잔차 " ++ toString residual ++ deficitNote) := by
  have hone : ∀ (c : Prop) [Decidable c] (q : String),
      p ∈ (if c then [q] else []) ↔ c ∧ p = q := by
    intro c _ q
    split_ifs with hc <;> simp [hc]
  have htwo : p ∈ (if residual > 0 then ["잔차 +" ++ toString residual ++ surplusNote]
      else if residual < 0 then ["잔차 " ++ toString residual ++ deficitNote] else []) ↔
        (residual > 0 ∧ p = "잔차 +" ++ toString residual ++ surplusNote) ∨
        (residual < 0 ∧ p = "잔차 " ++ toString residual ++ deficitNote) := by
    by_cases hpos : residual > 0
    · have hneg : ¬ residual < 0 := by omega
      rw [if_pos hpos, List.mem_singleton]
      exact ⟨fun h => .inl ⟨hpos, h⟩, fun h => h.elim And.right fun h' => absurd h'.1 hneg⟩
    · rw [if_neg hpos, hone]
      exact ⟨.inr, fun h => h.elim (fun h' => absurd h'.1 hpos) id⟩
  unfold parts
  rw [List.mem_append, List.mem_append, hone, hone, htwo, or_assoc]

/-- Every part begins like a label. -/
theorem exists_mem_heads {p : String} (h : p ∈ parts ssai late residual) :
    ∃ c ∈ p.toList, c ∈ heads := by
  rcases mem_parts.1 h with ⟨-, rfl⟩ | ⟨-, rfl⟩ | ⟨-, rfl⟩ | ⟨-, rfl⟩
  · exact ⟨'지', by simp, by simp [heads]⟩
  · exact ⟨'S', by simp, by simp [heads]⟩
  · exact ⟨'잔', by simp, by simp [heads]⟩
  · exact ⟨'잔', by simp, by simp [heads]⟩

/-- The text denies a difference when there is nothing to decompose. -/
theorem explained_eq_noDifference_iff :
    explained ssai late residual = noDifference ↔ late = 0 ∧ ssai = 0 ∧ residual = 0 := by
  rw [← parts_eq_nil_iff, explained]
  split_ifs with hnil
  · exact iff_of_true rfl hnil
  · refine iff_of_false (fun heq => ?_) hnil
    obtain ⟨p, hp⟩ := List.exists_mem_of_ne_nil _ hnil
    obtain ⟨c, hc, hhead⟩ := exists_mem_heads hp
    have hmem := (infix_intercalate " , " hp).subset hc
    rw [heq] at hmem
    have hfree : ∀ c ∈ noDifference.toList, c ∉ heads := by simp [noDifference, heads]
    exact hfree c hmem hhead

/-- A label and a number have no characters but theirs. -/
theorem notMem_label_number {label : String} {n : ℤ} {c : Char} (hn : 0 ≤ n)
    (hlabel : c ∉ label.toList) (hc : Time.isDigit c = false) :
    c ∉ (label ++ toString n).toList := by
  obtain ⟨k, rfl⟩ := Int.eq_ofNat_of_zero_le hn
  rw [String.toList_append, List.mem_append, toList_toString_natCast]
  rintro (h | h)
  · exact hlabel h
  · rw [Time.isDigit_of_mem_toDigits h] at hc
    cases hc

/-- Without a residual the characters of a report do not occur. -/
theorem notMem_explained (hssai : 0 ≤ ssai) (hlate : 0 ≤ late) {c : Char} (h : c ∈ ['잔', '미']) :
    c ∉ (explained ssai late 0).toList := by
  have hchar : Time.isDigit c = false ∧ c ∉ noDifference.toList ∧ c ∉ " , ".toList ∧
      c ∉ "지연반영 +".toList ∧ c ∉ "SSAI이중경로 -".toList := by
    simp only [List.mem_cons, List.not_mem_nil, or_false] at h
    rcases h with rfl | rfl
    · exact ⟨rfl, by simp [noDifference], by simp, by simp, by simp⟩
    · exact ⟨rfl, by simp [noDifference], by simp, by simp, by simp⟩
  obtain ⟨hdigit, hnone, hsep, hlabel, hlabel'⟩ := hchar
  unfold explained
  split_ifs
  · exact hnone
  · intro hmem
    rcases mem_intercalate hmem with hc | ⟨p, hp, hc⟩
    · exact hsep hc
    · rcases mem_parts.1 hp with ⟨-, rfl⟩ | ⟨-, rfl⟩ | ⟨hzero, -⟩ | ⟨hzero, -⟩
      · exact notMem_label_number hlate hlabel hdigit hc
      · exact notMem_label_number hssai hlabel' hdigit hc
      · exact lt_irrefl 0 hzero
      · exact lt_irrefl 0 hzero

/-- A decomposition reports an anomaly when it leaves a residual. -/
theorem reportsAnomaly_explained_iff (hssai : 0 ≤ ssai) (hlate : 0 ≤ late) :
    reportsAnomaly (explained ssai late residual) = true ↔ residual ≠ 0 := by
  constructor
  · rintro h rfl
    rcases mem_of_reportsAnomaly h with hc | hc
    · exact notMem_explained hssai hlate (by simp) hc
    · exact notMem_explained hssai hlate (by simp) hc
  · intro h
    obtain ⟨p, hp, hword⟩ : ∃ p ∈ parts ssai late residual, "잔차".toList <:+: p.toList := by
      rcases lt_or_gt_of_ne h with hneg | hpos
      · refine ⟨"잔차 " ++ toString residual ++ deficitNote, ?_, ?_⟩
        · exact mem_parts.2 (.inr (.inr (.inr ⟨hneg, rfl⟩)))
        · rw [String.toList_append, String.toList_append, List.append_assoc]
          exact ⟨[], ' ' :: ((toString residual).toList ++ deficitNote.toList), rfl⟩
      · refine ⟨"잔차 +" ++ toString residual ++ surplusNote, ?_, ?_⟩
        · exact mem_parts.2 (.inr (.inr (.inl ⟨hpos, rfl⟩)))
        · rw [String.toList_append, String.toList_append, List.append_assoc]
          exact ⟨[], ' ' :: '+' :: ((toString residual).toList ++ surplusNote.toList), rfl⟩
    have hnil : parts ssai late residual ≠ [] := List.ne_nil_of_mem hp
    have hcontains : contains (explained ssai late residual) "잔차" = true := by
      rw [contains_eq_true, explained, if_neg hnil]
      exact hword.trans (infix_intercalate " , " hp)
    rw [reportsAnomaly, hcontains]
    rfl

/-! ## Rows -/

/-- What the cause of a row ought to say: it reports an anomaly when there is a residual, denies a
difference when there is nothing to explain, and the terms it prints add up. The two texts for a
one-sided campaign print no terms. -/
structure Explains (row : Reconciliation) : Prop where
  anomaly : reportsAnomaly row.likelyCause = true ↔ row.residual ≠ 0
  none : row.likelyCause = noDifference ↔ row.late = 0 ∧ row.ssai = 0 ∧ row.residual = 0
  terms : row.likelyCause ≠ notAggregated → row.likelyCause ≠ notLoaded →
    printedSum row.likelyCause = row.batchImpressions - row.realtimeImpressions

/-- The texts for a one-sided campaign report an anomaly and print no terms. -/
theorem fixed_texts {text : String} (h : text = notAggregated ∨ text = notLoaded) :
    reportsAnomaly text = true ∧ text ≠ noDifference ∧ printedSum text = 0 := by
  rcases h with rfl | rfl
  · decide +kernel
  · decide +kernel

/-- The cause of a row explains it unless the campaign is one-sided and late impressions and SSAI
duplicates account for all of the difference. The terms printed add up to the difference on every
row that is not one-sided, and on no other. -/
theorem explains_iff (rt : List (String × ℕ)) (bRows : List (String × BatchFigures))
    (lateBy : List (String × ℕ)) (cid : String) (row : Reconciliation)
    (hrow : row = reconcile rt bRows lateBy cid) (hssai : 0 ≤ row.ssai) :
    (Explains row ↔
      ¬ (OneSided row.realtimeImpressions row.batchImpressions ∧
        row.batchImpressions - row.realtimeImpressions = row.late - row.ssai)) ∧
    (printedSum row.likelyCause = row.batchImpressions - row.realtimeImpressions ↔
      ¬ OneSided row.realtimeImpressions row.batchImpressions) := by
  have hresidual : row.residual =
      row.batchImpressions - row.realtimeImpressions - (row.late - row.ssai) := by
    rw [hrow]
    rfl
  have hcause : row.likelyCause = classify row.ssai row.late row.residual
      row.realtimeImpressions row.batchImpressions := by
    rw [hrow]
    rfl
  have hlate : 0 ≤ row.late := by
    rw [hrow]
    exact Int.natCast_nonneg _
  by_cases hone : OneSided row.realtimeImpressions row.batchImpressions
  · -- an early return: the text is fixed, whatever the residual
    have hfixed := classify_of_oneSided row.ssai row.late row.residual hone
    rw [← hcause] at hfixed
    obtain ⟨hreports, hdiffers, hsum⟩ := fixed_texts hfixed
    have hdiff : row.batchImpressions - row.realtimeImpressions ≠ 0 := by
      unfold OneSided at hone
      omega
    refine ⟨⟨fun h => ?_, fun h => ⟨?_, ?_, fun ha hl => ?_⟩⟩, ?_⟩
    · rintro ⟨-, heq⟩
      exact h.anomaly.1 hreports (by omega)
    · refine iff_of_true hreports fun hzero => h ⟨hone, by omega⟩
    · refine iff_of_false hdiffers ?_
      rintro ⟨-, -, hzero⟩
      exact h ⟨hone, by omega⟩
    · exact absurd hfixed (not_or.2 ⟨ha, hl⟩)
    · rw [hsum]
      exact iff_of_false hdiff.symm (not_not.2 hone)
  · -- a decomposition
    have hsum := printedSum_explained row.residual hssai hlate
    rw [← classify_of_not_oneSided hone, ← hcause] at hsum
    have hterms : printedSum row.likelyCause =
        row.batchImpressions - row.realtimeImpressions := by
      rw [hsum, hresidual]
      omega
    refine ⟨iff_of_true ⟨?_, ?_, fun _ _ => hterms⟩ fun h => hone h.1, iff_of_true hterms hone⟩
    · rw [hcause, classify_of_not_oneSided hone]
      exact reportsAnomaly_explained_iff hssai hlate
    · rw [hcause, classify_of_not_oneSided hone]
      exact explained_eq_noDifference_iff

/-- The campaign of the end-to-end test is explained. -/
theorem explains_e2e :
    Explains (reconcile [("cmp-e2e", 8)] [("cmp-e2e", ⟨8, 9⟩)] [("cmp-e2e", 1)] "cmp-e2e") := by
  refine (explains_iff [("cmp-e2e", 8)] [("cmp-e2e", ⟨8, 9⟩)] [("cmp-e2e", 1)] "cmp-e2e" _ rfl
    (by decide)).1.2 ?_
  rintro ⟨⟨hzero, -⟩ | ⟨hzero, -⟩, -⟩
  · revert hzero
    decide
  · revert hzero
    decide

/-- A campaign whose impressions were all late has no residual, and is reported. -/
theorem all_late_reported :
    let row := reconcile [] [("cmp-1", ⟨5, 5⟩)] [("cmp-1", 5)] "cmp-1"
    row.residual = 0 ∧ reportsAnomaly row.likelyCause = true ∧ ¬ Explains row := by
  have hresidual : (reconcile [] [("cmp-1", ⟨5, 5⟩)] [("cmp-1", 5)] "cmp-1").residual = 0 := by
    decide
  have hreports : reportsAnomaly
      (reconcile [] [("cmp-1", ⟨5, 5⟩)] [("cmp-1", 5)] "cmp-1").likelyCause = true :=
    (fixed_texts (classify_of_oneSided 0 5 0 (.inl ⟨rfl, by decide⟩))).1
  exact ⟨hresidual, hreports, fun h => h.anomaly.1 hreports hresidual⟩

end AdPipeline.Settlement
