import AdPipeline.Platform.TimeText

/-!
# Decimal texts of integers

What `toString` prints of an integer is read back by `toLongOrNull` when it fits a `Long`
(`toLongOrNull_toString`). Neither of the two date formats takes such a text.
-/

namespace AdPipeline

namespace Text

/-- An ASCII digit is the digit of the first range. -/
theorem digit_of_isDigit {c : Char} (h : Time.isDigit c = true) :
    digit c = some (c.toNat - 48) := by
  rw [Time.isDigit, Bool.and_eq_true, decide_eq_true_eq, decide_eq_true_eq] at h
  have hlow : 48 ≤ c.toNat := h.1
  have hhigh : c.toNat ≤ 57 := h.2
  rw [digit, digitZeros, List.find?_cons_of_pos]
  · rfl
  · simp only [Bool.and_eq_true, decide_eq_true_eq]
    omega

/-- ASCII digits are read as the number they write. -/
theorem digitsToNat_eq {ds : List Char} (h : ∀ c ∈ ds, Time.isDigit c = true) (acc : ℕ) :
    digitsToNat acc ds = some (Nat.ofDigitChars 10 ds acc) := by
  induction ds generalizing acc with
  | nil => rw [digitsToNat, Nat.ofDigitChars_nil]
  | cons c ds ih =>
      rw [digitsToNat, digit_of_isDigit (h c List.mem_cons_self), Option.bind_some,
        ih fun d hd => h d (List.mem_cons_of_mem c hd), Nat.ofDigitChars_cons]
      rfl

theorem digitsToNat_toDigits (n : ℕ) : digitsToNat 0 (Nat.toDigits 10 n) = some n := by
  rw [digitsToNat_eq fun c hc => Time.isDigit_of_mem_toDigits hc, Nat.ofDigitChars_ten_toDigits]

/-- The characters of an integer: a sign when it is negative, and its digits. -/
theorem toList_toString (n : ℤ) :
    (toString n).toList =
      if n < 0 then '-' :: Nat.toDigits 10 n.natAbs else Nat.toDigits 10 n.natAbs := by
  cases n with
  | ofNat n =>
      rw [if_neg (by simp)]
      exact Nat.toList_repr
  | negSucc n =>
      rw [if_pos (Int.negSucc_lt_zero n)]
      show ("-" ++ (n + 1).repr).toList = _
      rw [String.toList_append, Nat.toList_repr]
      rfl

/-- The first digit of a number, and those behind it. -/
theorem exists_toDigits_cons (n : ℕ) :
    ∃ c ds, Nat.toDigits 10 n = c :: ds ∧ Time.isDigit c = true := by
  cases hdigits : Nat.toDigits 10 n with
  | nil =>
      have hlen := Nat.length_toDigits_pos (b := 10) (n := n)
      rw [hdigits] at hlen
      cases hlen
  | cons c ds =>
      refine ⟨c, ds, rfl, Time.isDigit_of_mem_toDigits (n := n) ?_⟩
      rw [hdigits]
      exact List.mem_cons_self

/-- The decimal text of an integer is read as that integer when it fits a `Long`, and refused
otherwise. -/
theorem toLongOrNull_toString (n : ℤ) : toLongOrNull (toString n) = inLong n := by
  obtain ⟨c, ds, hdigits, hc⟩ := exists_toDigits_cons n.natAbs
  have hread := digitsToNat_toDigits n.natAbs
  rw [hdigits] at hread
  unfold toLongOrNull
  rw [toList_toString, hdigits]
  split_ifs with hneg
  · have hsign : ('-' : Char) < '0' := by decide
    simp only [hsign, if_true, List.cons_ne_nil, if_false, hread, Option.bind_some]
    congr 1
    omega
  · have hsign : ¬c < '0' := by
      rw [Time.isDigit, Bool.and_eq_true, decide_eq_true_eq] at hc
      exact not_lt.2 hc.1
    simp only [hsign, if_false, hread, Option.bind_some]
    congr 1
    omega

/-- Different integers have different texts. -/
theorem toString_injective : Function.Injective fun n : ℤ => toString n := by
  intro m n h
  have habs : ∀ k : ℤ, digitsToNat 0 (Nat.toDigits 10 k.natAbs) = some k.natAbs :=
    fun k => digitsToNat_toDigits k.natAbs
  have hlist := congrArg String.toList h
  simp only [toList_toString] at hlist
  have hdash : ∀ k : ℕ, '-' ∉ Nat.toDigits 10 k := fun k hk => by
    cases Time.isDigit_of_mem_toDigits hk
  have hsame : n < 0 ↔ m < 0 := by
    split_ifs at hlist with hm hn hn
    · exact iff_of_true hn hm
    · exact absurd (hlist ▸ List.mem_cons_self) (hdash n.natAbs)
    · exact absurd (hlist ▸ List.mem_cons_self) (hdash m.natAbs)
    · exact iff_of_false hn hm
  have hdigits : Nat.toDigits 10 m.natAbs = Nat.toDigits 10 n.natAbs := by
    by_cases hm : m < 0
    · rw [if_pos hm, if_pos (hsame.2 hm)] at hlist
      exact (List.cons.inj hlist).2
    · rwa [if_neg hm, if_neg fun hn => hm (hsame.1 hn)] at hlist
  have hnat : m.natAbs = n.natAbs := Option.some.inj
    ((habs m).symm.trans ((congrArg (digitsToNat 0) hdigits).trans (habs n)))
  omega

end Text

namespace Time

/-- Digits are taken from the front. -/
theorem suffix_takeDigits (n acc k : ℕ) (cs : List Char) :
    (takeDigits n acc k cs).2.2 <:+ cs := by
  induction cs generalizing n acc k with
  | nil => cases n <;> exact List.suffix_rfl
  | cons c cs ih =>
      cases n with
      | zero => exact List.suffix_rfl
      | succ n =>
          rw [takeDigits]
          split_ifs
          · exact (ih n _ _).trans (List.suffix_cons c cs)
          · exact List.suffix_rfl

/-- A date has a hyphen behind its year. -/
theorem mem_tail_of_localDate {cs : List Char} {x : (ℤ × ℕ × ℕ) × List Char}
    (h : localDate cs = some x) : '-' ∈ cs.tail := by
  obtain ⟨⟨y, rest⟩, hyear, h⟩ := Option.bind_eq_some_iff.1 h
  obtain ⟨⟨_, rest'⟩, hliteral, -⟩ := Option.bind_eq_some_iff.1 h
  have hrest : '-' ∈ rest := by
    cases rest with
    | nil => cases hliteral
    | cons c rest =>
        rw [literal] at hliteral
        split_ifs at hliteral with hc
        rw [List.mem_singleton.1 hc]
        exact List.mem_cons_self
  -- the year takes the first character and then digits
  unfold year at hyear
  split at hyear
  · rename_i cs
    simp only at hyear
    split_ifs at hyear
    obtain ⟨-, rfl⟩ := Prod.mk.inj (Option.some.inj hyear)
    exact (suffix_takeDigits 10 0 0 cs).subset hrest
  · rename_i cs
    simp only at hyear
    split_ifs at hyear
    obtain ⟨-, rfl⟩ := Prod.mk.inj (Option.some.inj hyear)
    exact (suffix_takeDigits 10 0 0 cs).subset hrest
  · rename_i hminus hplus
    simp only at hyear
    split_ifs at hyear
    obtain ⟨-, rfl⟩ := Prod.mk.inj (Option.some.inj hyear)
    have hmem := (suffix_takeDigits 10 0 0 cs).subset hrest
    cases cs with
    | nil => cases hmem
    | cons c cs =>
        rcases List.mem_cons.1 hmem with rfl | htail
        · exact absurd rfl (hminus cs)
        · exact htail

/-- The decimal text of an integer has no hyphen behind its first character. -/
theorem notMem_tail_toString (n : ℤ) : '-' ∉ (toString n).toList.tail := by
  have hdash : '-' ∉ Nat.toDigits 10 n.natAbs := fun h => by cases isDigit_of_mem_toDigits h
  rw [Text.toList_toString]
  split_ifs
  · exact hdash
  · exact fun h => hdash (List.mem_of_mem_tail h)

/-- The decimal text of an integer is no date and time. -/
theorem parseOffsetDateTime_toString (n : ℤ) : parseOffsetDateTime (toString n) = none := by
  rw [Option.eq_none_iff_forall_ne_some]
  intro t ht
  obtain ⟨x, hx, -⟩ := Option.bind_eq_some_iff.1 ht
  exact notMem_tail_toString n (mem_tail_of_localDate hx)

theorem parseInstant_toString (n : ℤ) : parseInstant (toString n) = none := by
  rw [Option.eq_none_iff_forall_ne_some]
  intro t ht
  obtain ⟨x, hx, -⟩ := Option.bind_eq_some_iff.1 ht
  exact notMem_tail_toString n (mem_tail_of_localDate hx)

end Time

end AdPipeline
