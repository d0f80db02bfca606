/-
  Curried.Proofs.Decimal.RoundTrip — what is written for a number is read as that number.

  `Spells cs v` says that a text without a sign is read as a numeral with the value `v`. The three ways of writing a
  number are of this kind: a whole number has the digits of the integer (`spells_toDigits`), any other one its shortest
  digits, with a point among them (`spells_positional`) or an exponent after them (`spells_exponential`). Both values
  are in the span of the number, so the number is what its text is read as (`readNumber?_render`).
-/

import Curried.Library.Scalar
import Curried.Proofs.Decimal.Shortest
import Curried.Proofs.Operations
import Curried.Proofs.Spelling

namespace Curried

namespace Decimal

open Number
open Float.Model (UnpackedFloat)
open Float.Model.UnpackedFloat (Sign)

/-! ## Digits -/

def Digits (cs : List Char) : Prop := ∀ c ∈ cs, c.isDigit = true

theorem Digits.append {cs ds : List Char} (hcs : Digits cs) (hds : Digits ds) : Digits (cs ++ ds) :=
  List.forall_mem_append.mpr ⟨hcs, hds⟩

theorem digits_zeroRun (n : Nat) : Digits (zeroRun n) := fun _ hc => (List.eq_of_mem_replicate hc).symm ▸ rfl

theorem digits_toDigits (n : Nat) : Digits (Nat.toDigits 10 n) :=
  fun _ hc => Nat.isDigit_of_mem_toDigits (by decide) (by decide) hc

theorem digitValue?_of_isDigit {c : Char} (h : c.isDigit = true) : Text.digitValue? c = some (c.toNat - 48) := by
  obtain ⟨hlow, hhigh⟩ : 48 ≤ c.toNat ∧ c.toNat ≤ 57 := Char.isDigit_iff_toNat.mp h
  rw [Text.digitValue?, Text.zeros, List.find?_cons_of_pos (by simp [hlow, hhigh])]
  rfl

theorem isDigit_of_ascii {c : Char} (h : c.isDigit = true) : Text.isDigit c = true := by
  rw [Text.isDigit, digitValue?_of_isDigit h]
  rfl

theorem readDigits_eq {cs : List Char} (h : Digits cs) : Text.readDigits cs = Nat.ofDigitChars 10 cs 0 := by
  rw [Text.readDigits, Nat.ofDigitChars_eq_foldl]
  refine List.foldl_ext _ _ _ fun n c hc => ?_
  rw [digitValue?_of_isDigit (h c hc), Nat.mul_comm]
  rfl

/-- Zeros before digits change nothing. -/
theorem ofDigitChars_zeroRun_append (n : Nat) (cs : List Char) :
    Nat.ofDigitChars 10 (zeroRun n ++ cs) 0 = Nat.ofDigitChars 10 cs 0 := by
  rw [Nat.ofDigitChars_append, zeroRun, Nat.ofDigitChars_replicate_zero, Nat.mul_zero]

/-- Zeros after digits are a power of ten. -/
theorem value_append_zeroRun (cs : List Char) (n : Nat) (k : Int) :
    (Nat.ofDigitChars 10 (cs ++ zeroRun n) 0 * 10 ^ k : ℚ) = Nat.ofDigitChars 10 cs 0 * 10 ^ (k + n) := by
  rw [Nat.ofDigitChars_append, zeroRun, Nat.ofDigitChars_replicate_zero, zpow_add₀ (by norm_num), zpow_natCast]
  push_cast
  ring

/-- The zeros that are taken from the end of digits. -/
theorem trimZeros_append (cs : List Char) : ∃ n, cs = trimZeros cs ++ zeroRun n := by
  refine ⟨(cs.reverse.takeWhile (· == '0')).length, ?_⟩
  have hzeros : cs.reverse.takeWhile (· == '0') = zeroRun (cs.reverse.takeWhile (· == '0')).length :=
    List.eq_replicate_of_mem fun c hc => beq_iff_eq.mp (List.all_eq_true.mp List.all_takeWhile c hc)
  have hreverse : zeroRun (cs.reverse.takeWhile (· == '0')).length = (cs.reverse.takeWhile (· == '0')).reverse := by
    rw [zeroRun, ← List.reverse_replicate, ← zeroRun, ← hzeros]
  rw [hreverse, trimZeros, ← List.reverse_append, List.takeWhile_append_dropWhile, List.reverse_reverse]

/-! ## Texts without blanks and underscores -/

def Plain (cs : List Char) : Prop := ∀ c ∈ cs, Text.isBlank c = false ∧ c ≠ '_'

theorem Plain.append {cs ds : List Char} (hcs : Plain cs) (hds : Plain ds) : Plain (cs ++ ds) :=
  List.forall_mem_append.mpr ⟨hcs, hds⟩

theorem Plain.cons {c : Char} {cs : List Char} (hc : Text.isBlank c = false ∧ c ≠ '_') (hcs : Plain cs) :
    Plain (c :: cs) :=
  List.forall_mem_cons.mpr ⟨hc, hcs⟩

theorem Digits.plain {cs : List Char} (h : Digits cs) : Plain cs := by
  intro c hc
  constructor
  · exact Text.not_of_isDigit (by decide +kernel) (isDigit_of_ascii (h c hc))
  · rintro rfl
    exact absurd (h '_' hc) (by decide)

theorem dropWhile_of_plain {cs : List Char} (h : Plain cs) : cs.dropWhile Text.isBlank = cs := by
  cases cs with
  | nil => rfl
  | cons c cs => exact List.dropWhile_cons_of_neg (by simp [(h c List.mem_cons_self).1])

theorem strip_of_plain {cs : List Char} (h : Plain cs) : Text.strip cs = cs := by
  have hreverse : Plain cs.reverse := fun c hc => h c (List.mem_reverse.mp hc)
  rw [Text.strip, Text.dropEnd, dropWhile_of_plain h, dropWhile_of_plain hreverse, List.reverse_reverse]

theorem dropUnderscores_of_plain {cs : List Char} (h : Plain cs) (before : Bool) :
    dropUnderscores before cs = some cs := by
  induction cs generalizing before with
  | nil => rfl
  | cons c cs ih =>
    have hc : c ≠ '_' := (h c List.mem_cons_self).2
    rw [dropUnderscores, ih fun d hd => h d (List.mem_cons_of_mem _ hd), Option.map_some]
    · exact fun _ _ he => absurd he hc
    · exact fun he => absurd he hc

theorem readSign_of_isDigit {c : Char} (h : c.isDigit = true) (cs : List Char) :
    readSign (c :: cs) = (false, c :: cs) := by
  rw [readSign]
  · rintro _ ⟨⟩
    exact absurd h (by decide)
  · rintro _ ⟨⟩
    exact absurd h (by decide)

theorem toLower_of_isDigit {c : Char} (h : c.isDigit = true) : c.toLower = c := by
  obtain ⟨-, hhigh⟩ : 48 ≤ c.toNat ∧ c.toNat ≤ 57 := Char.isDigit_iff_toNat.mp h
  refine dif_neg fun hupper => ?_
  have : 65 ≤ c.toNat := hupper.1
  omega

/-- A text with a digit at its front is no name. -/
theorem readName?_of_isDigit {c : Char} (h : c.isDigit = true) (cs : List Char) : readName? (c :: cs) = none := by
  have hne {name : String} {d : Char} (hname : name.toList.head? = some d) (hd : d.isDigit = false) :
      (String.ofList ((c :: cs).map Char.toLower) == name) = false := by
    rw [beq_eq_false_iff_ne]
    rintro rfl
    rw [String.toList_ofList, List.map_cons, toLower_of_isDigit h, List.head?_cons, Option.some_inj] at hname
    rw [hname, hd] at h
    cases h
  unfold readName?
  dsimp only
  rw [hne (d := 'i') rfl rfl, hne (d := 'i') rfl rfl, hne (d := 'n') rfl rfl]
  rfl

/-! ## Numerals -/

/-- A text is nothing or an exponent, and stands for a power of ten. -/
structure Scales (cs : List Char) (power : Int) : Prop where
  head : ∀ c ∈ cs.head?, Text.isDigit c = false ∧ c ≠ '.'
  plain : Plain cs
  reads : readPower? cs = some power

theorem scales_nil : Scales [] 0 := ⟨fun _ h => absurd h (by simp), fun _ h => absurd h (by simp), rfl⟩

/-- A text without a sign is read as a numeral with the value `v`. -/
structure Spells (cs : List Char) (v : ℚ) : Prop where
  digit : ∃ c rest, cs = c :: rest ∧ c.isDigit = true
  plain : Plain cs
  reads : ∃ d : Numeral, readUnsigned? cs = some (nearest d) ∧ d.value = v

/-- With a sign in front the number is negated. -/
theorem Spells.signed {cs : List Char} {v : ℚ} (h : Spells cs v) (negative : Bool) :
    ∃ d : Numeral, d.value = v ∧ readNumber? (if negative then '-' :: cs else cs) =
      some (if negative then -nearest d else nearest d) := by
  obtain ⟨⟨c, rest, rfl, hc⟩, hplain, d, hreads, hvalue⟩ := h
  refine ⟨d, hvalue, ?_⟩
  cases negative with
  | false =>
    have hsign := readSign_of_isDigit hc rest
    rw [if_neg Bool.false_ne_true, readNumber?, strip_of_plain hplain, dropUnderscores_of_plain hplain,
      Option.bind_some, hsign]
    dsimp only
    rw [readName?_of_isDigit hc, hreads]
    rfl
  | true =>
    have hplain' : Plain ('-' :: c :: rest) := hplain.cons (by decide)
    rw [if_pos rfl, readNumber?, strip_of_plain hplain', dropUnderscores_of_plain hplain', Option.bind_some,
      readSign]
    dsimp only
    rw [readName?_of_isDigit hc, hreads]
    rfl

/-- With digits in front no more is asked of a text than how it is read. -/
theorem Spells.of_digits {whole rest : List Char} {v : ℚ} (hne : whole ≠ []) (hwhole : Digits whole)
    (hrest : Plain rest) {d : Numeral} (hreads : readUnsigned? (whole ++ rest) = some (nearest d))
    (hvalue : d.value = v) : Spells (whole ++ rest) v := by
  refine ⟨?_, hwhole.plain.append hrest, d, hreads, hvalue⟩
  cases whole with
  | nil => exact absurd rfl hne
  | cons c cs => exact ⟨c, cs ++ rest, rfl, hwhole c List.mem_cons_self⟩

section Numerals

variable {whole fraction scale : List Char} {power : Int}

theorem span_digits {rest : List Char} (h : Digits whole) (hrest : ∀ c ∈ rest.head?, Text.isDigit c = false) :
    (whole ++ rest).span Text.isDigit = (whole, rest) :=
  Text.span_append (fun c hc => isDigit_of_ascii (h c hc)) hrest

theorem spells_whole (hne : whole ≠ []) (hwhole : Digits whole) (hscale : Scales scale power) :
    Spells (whole ++ scale) (Nat.ofDigitChars 10 whole 0 * 10 ^ power) := by
  have hreads : readUnsigned? (whole ++ scale) = some (nearest ⟨Nat.ofDigitChars 10 whole 0, power⟩) := by
    unfold readUnsigned?
    rw [span_digits hwhole fun c hc => (hscale.head c hc).1]
    dsimp only
    split
    · exact absurd rfl (hscale.head '.' rfl).2
    · rw [if_neg (by simp [hne]), hscale.reads, Option.map_some, ofNumeral, List.append_nil, readDigits_eq hwhole,
        List.length_nil, Int.natCast_zero, Int.sub_zero]
  exact .of_digits hne hwhole hscale.plain hreads rfl

theorem spells_point (hne : whole ≠ []) (hwhole : Digits whole) (hfraction : Digits fraction)
    (hscale : Scales scale power) :
    Spells (whole ++ '.' :: (fraction ++ scale))
      (Nat.ofDigitChars 10 (whole ++ fraction) 0 * 10 ^ (power - fraction.length)) := by
  have hreads : readUnsigned? (whole ++ '.' :: (fraction ++ scale)) =
      some (nearest ⟨Nat.ofDigitChars 10 (whole ++ fraction) 0, power - fraction.length⟩) := by
    unfold readUnsigned?
    rw [span_digits hwhole (by rintro _ ⟨⟩; decide)]
    dsimp only
    split
    · next rest heq =>
      cases heq
      rw [span_digits hfraction fun c hc => (hscale.head c hc).1]
      dsimp only
      rw [if_neg (by simp [hne]), hscale.reads, Option.map_some, ofNumeral, readDigits_eq (hwhole.append hfraction)]
    · next hpoint => exact absurd rfl (hpoint (fraction ++ scale))
  exact .of_digits hne hwhole ((hfraction.plain.append hscale.plain).cons (by decide)) hreads rfl

end Numerals

theorem spells_toDigits (n : Nat) : Spells (Nat.toDigits 10 n) n := by
  have h := spells_whole Nat.toDigits_ne_nil (digits_toDigits n) scales_nil
  rwa [List.append_nil, Nat.ofDigitChars_ten_toDigits, zpow_zero, mul_one] at h

/-- An exponent with its sign. -/
theorem scales_exponent {cs : List Char} (hne : cs ≠ []) (h : Digits cs) {place : Int}
    (hvalue : Nat.ofDigitChars 10 cs 0 = place.natAbs) :
    Scales ('e' :: (if place < 0 then '-' else '+') :: cs) place := by
  have hall : (cs.isEmpty || !cs.all Text.isDigit) = false := by
    simpa [hne] using fun c hc => isDigit_of_ascii (h c hc)
  rw [← readDigits_eq h] at hvalue
  refine ⟨?_, (h.plain.cons ?_).cons (by decide), ?_⟩
  · rintro _ ⟨⟩
    decide
  · split <;> decide
  · by_cases hneg : place < 0
    · have hplace : -(Text.readDigits cs : Int) = place := by omega
      rw [if_pos hneg, readPower?, if_pos (by decide), readSign]
      dsimp only
      rw [hall, if_neg Bool.false_ne_true, if_pos rfl, hplace]
    · have hplace : (Text.readDigits cs : Int) = place := by omega
      rw [if_neg hneg, readPower?, if_pos (by decide), readSign]
      dsimp only
      rw [hall, if_neg Bool.false_ne_true, if_neg Bool.false_ne_true, hplace]

theorem spells_positional {digits : List Char} (h : Digits digits) (hne : digits ≠ []) (place : Int) :
    Spells (positional digits place) (Nat.ofDigitChars 10 digits 0 * 10 ^ (place + 1 - digits.length)) := by
  cases place with
  | ofNat e =>
    have htake : Digits (digits.take (e + 1)) := fun c hc => h c (List.mem_of_mem_take hc)
    have hdrop : Digits (digits.drop (e + 1)) := fun c hc => h c (List.mem_of_mem_drop hc)
    unfold positional
    dsimp only
    by_cases hfew : digits.length ≤ e + 1
    · -- all digits stand before the point, and zeros between them and it
      have hspells := spells_point (List.append_ne_nil_of_left_ne_nil hne _)
        (h.append (digits_zeroRun (e + 1 - digits.length))) (digits_zeroRun 1) scales_nil
      have hexponent : 0 - ((zeroRun 1).length : Int) + (1 : Nat) + (e + 1 - digits.length : Nat) =
          Int.ofNat e + 1 - (digits.length : Int) := by
        rw [Int.ofNat_eq_natCast, zeroRun, List.length_replicate]
        omega
      rw [value_append_zeroRun, value_append_zeroRun, hexponent] at hspells
      rw [List.drop_eq_nil_of_le hfew, List.take_of_length_le hfew, List.isEmpty_nil, if_pos rfl]
      exact hspells
    · have hne' : digits.take (e + 1) ≠ [] := by simpa using hne
      have hrest : (digits.drop (e + 1)).isEmpty = false := by simpa using hfew
      have hspells := spells_point hne' htake hdrop scales_nil
      have hexponent : Int.ofNat e + 1 - (digits.length : Int) = 0 - ((digits.drop (e + 1)).length : Int) := by
        rw [Int.ofNat_eq_natCast, List.length_drop]
        omega
      rw [List.take_append_drop, List.append_nil, ← hexponent] at hspells
      rw [hrest, if_neg Bool.false_ne_true, List.length_take, Nat.min_eq_left (by omega), Nat.sub_self, zeroRun,
        List.replicate_zero, List.append_nil]
      exact hspells
  | negSucc e =>
    have hspells := spells_point (List.cons_ne_nil '0' []) (digits_zeroRun 1) ((digits_zeroRun e).append h) scales_nil
    have hexponent : Int.negSucc e + 1 - (digits.length : Int) = 0 - ((zeroRun e ++ digits).length : Int) := by
      rw [List.length_append, zeroRun, List.length_replicate]
      omega
    rw [List.append_nil, Nat.ofDigitChars_append, ← hexponent] at hspells
    rw [← ofDigitChars_zeroRun_append e digits]
    exact hspells

theorem spells_exponential {digits : List Char} (h : Digits digits) (hne : digits ≠ []) (place : Int) :
    Spells (exponential digits place) (Nat.ofDigitChars 10 digits 0 * 10 ^ (place + 1 - digits.length)) := by
  have hscale : Scales ('e' :: (if place < 0 then '-' else '+') ::
      (zeroRun (2 - (Nat.toDigits 10 place.natAbs).length) ++ Nat.toDigits 10 place.natAbs)) place := by
    apply scales_exponent
    · exact List.append_ne_nil_of_right_ne_nil _ Nat.toDigits_ne_nil
    · exact (digits_zeroRun _).append (digits_toDigits _)
    · rw [ofDigitChars_zeroRun_append, Nat.ofDigitChars_ten_toDigits]
  cases digits with
  | nil => exact absurd rfl hne
  | cons d ds =>
    obtain ⟨hd, hds⟩ := List.forall_mem_cons.mp h
    have hhead : Digits [d] := List.forall_mem_singleton.mpr hd
    unfold exponential
    cases ds with
    | nil =>
      have hspells := spells_whole (List.cons_ne_nil d []) hhead hscale
      simpa using hspells
    | cons d' ds =>
      have hspells := spells_point (List.cons_ne_nil d []) hhead hds hscale
      have hlength : place + 1 - ((d :: d' :: ds).length : Int) = place - ((d' :: ds).length : Int) := by
        simp only [List.length_cons]
        omega
      rw [hlength]
      simpa using hspells

/-! ## What is written -/

/-- The digits of a numeral without the zeros at their end, and the place of the first one, are its value. -/
theorem Numeral.spread_value {d : Numeral} (hd : 0 < d.digits) : Digits d.spread.1 ∧ d.spread.1 ≠ [] ∧
    (Nat.ofDigitChars 10 d.spread.1 0 * 10 ^ (d.spread.2 + 1 - d.spread.1.length) : ℚ) = d.value := by
  obtain ⟨n, hn⟩ := trimZeros_append (Nat.toDigits 10 d.digits)
  have hdigits : Digits (trimZeros (Nat.toDigits 10 d.digits)) :=
    (List.forall_mem_append.mp (hn ▸ digits_toDigits d.digits)).1
  have hlength := congrArg List.length hn
  rw [List.length_append, zeroRun, List.length_replicate] at hlength
  have hexponent : d.spread.2 + 1 - d.spread.1.length = d.exponent + n := by
    unfold spread
    dsimp only
    omega
  refine ⟨hdigits, fun hnil => ?_, ?_⟩
  · have hempty : trimZeros (Nat.toDigits 10 d.digits) = [] := hnil
    rw [hempty, List.nil_append] at hn
    have hzero : d.digits = 0 := by
      rw [← Nat.ofDigitChars_ten_toDigits (n := d.digits), hn, zeroRun, Nat.ofDigitChars_replicate_zero, Nat.mul_zero]
    exact absurd hzero (Nat.ne_of_gt hd)
  · rw [hexponent, ← value_append_zeroRun]
    calc (Nat.ofDigitChars 10 (trimZeros (Nat.toDigits 10 d.digits) ++ zeroRun n) 0 * 10 ^ d.exponent : ℚ)
        = Nat.ofDigitChars 10 (Nat.toDigits 10 d.digits) 0 * 10 ^ d.exponent := by rw [← hn]
      _ = d.value := by rw [Nat.ofDigitChars_ten_toDigits, Numeral.value]

def Numeral.written (d : Numeral) : List Char :=
  if standard.firstPlace ≤ d.spread.2 && d.spread.2 ≤ standard.lastPlace then positional d.spread.1 d.spread.2
  else exponential d.spread.1 d.spread.2

theorem spells_written {d : Numeral} (hd : 0 < d.digits) : Spells d.written d.value := by
  obtain ⟨hdigits, hne, hvalue⟩ := Numeral.spread_value hd
  rw [← hvalue, Numeral.written]
  split
  · exact spells_positional hdigits hne _
  · exact spells_exponential hdigits hne _

theorem magnitude_cast {m : Nat} {e : Int} (he : -1074 ≤ e) : (Number.magnitude m e : ℚ) = m * 2 ^ e * 2 ^ 1074 := by
  have hshift : ((e + 1074).toNat : Int) = e + (1074 : Nat) := by omega
  rw [Number.magnitude, Nat.cast_mul, Nat.cast_pow, Nat.cast_ofNat, ← zpow_natCast, hshift, zpow_add₀ (by norm_num),
    zpow_natCast, mul_assoc]

/-- A number is in its own span. -/
theorem around_self (m : Nat) (e : Int) : Around m e (m * 2 ^ e) := by
  have hunit : (0 : ℚ) < 2 ^ (e - 2) := zpow_pos two_pos _
  have hdown : (0 : ℚ) < reach m e * 2 ^ (e - 2) := mul_pos (Nat.cast_pos.mpr (reach_le_two m e).1) hunit
  rw [← four_mul_zpow]
  exact .of_lt (by linarith) (by linarith)

theorem around_of_whole {m k : Nat} {e : Int} (he : -1074 ≤ e) (h : Number.magnitude m e = k * one) : Around m e k := by
  have hcast : (Number.magnitude m e : ℚ) = (k * one : Nat) := congrArg Nat.cast h
  have hone : (one : ℚ) = 2 ^ 1074 := by
    rw [one, magnitude_cast (by decide), Nat.cast_one, zpow_zero, one_mul, one_mul]
  rw [Nat.cast_mul, magnitude_cast he, hone] at hcast
  have hself := around_self m e
  rwa [mul_right_cancel₀ (by positivity) hcast] at hself

theorem toList_toString_int {k : Nat} (hk : 0 < k) (negative : Bool) :
    (toString (if negative then -(k : Int) else k)).toList =
      if negative then '-' :: Nat.toDigits 10 k else Nat.toDigits 10 k := by
  have hnat : (toString k).toList = Nat.toDigits 10 k := by
    rw [Nat.toString_eq_ofList_toDigits, String.toList_ofList]
  cases negative with
  | false => exact hnat
  | true =>
    obtain ⟨j, rfl⟩ := Nat.exists_eq_succ_of_ne_zero (Nat.ne_of_gt hk)
    have hneg : toString (-((j + 1 : Nat) : Int)) = "-" ++ toString (j + 1) := rfl
    rw [if_pos rfl, if_pos rfl, hneg, String.toList_append, hnat]
    rfl

section Finite

variable {x : Float} {s : Sign} {m : Nat} {e : Int} {hm : 0 < m}

theorem canonical_of_unpack (hx : x.toModel.unpack = .finite s m e hm) : Canonical m e ∧ e ≤ 971 := by
  have hcanonical : IsCanonical x.toModel.unpack := (unpack_reads x.toModel.toBits.toBitVec).isCanonical
  rwa [hx] at hcanonical

theorem toList_text {p : Parts} (hparts : parts? x = some p) (hx : x.isNaN = false) (hp : 0 < p.mantissa) :
    (text x).toList = if p.negative then '-' :: (shortest p).written else (shortest p).written := by
  have hp' : ¬ (p.mantissa == 0) = true := by simpa using Nat.ne_of_gt hp
  rw [text, write, hx, if_neg Bool.false_ne_true, hparts]
  dsimp only
  rw [if_neg hp', String.toList_ofList]
  rfl

/-- The digits of a finite number other than zero stand for a value in its span. -/
theorem render_finite (hx : x.toModel.unpack = .finite s m e hm) :
    ∃ text body v, render x = .ok text ∧ text.toList = (if s == .negative then '-' :: body else body) ∧
      Spells body v ∧ Around m e v := by
  obtain ⟨hcanonical, he⟩ := canonical_of_unpack hx
  have hfinite : x.isFinite = true := by
    show x.toModel.unpack.isFinite = true
    rw [hx]
    rfl
  have hparts : parts? x = some ⟨s == .negative, m, e⟩ := by
    rw [parts?_eq, hx]
    rfl
  cases hwhole : whole? x with
  | some n =>
    have hrender := render_of_whole hwhole
    rw [whole?, hparts, Option.bind_some, Parts.whole?_eq_some_iff hcanonical.least] at hwhole
    obtain ⟨k, hk, rfl⟩ := hwhole
    have hpos : 0 < k := by
      refine Nat.pos_of_ne_zero fun hzero => ?_
      rw [hzero, Nat.zero_mul] at hk
      exact absurd hk (magnitude_pos hm).ne'
    exact ⟨_, _, k, hrender, toList_toString_int hpos _, spells_toDigits k, around_of_whole hcanonical.least hk⟩
  | none =>
    have hfraction : fractionText x = text x := by
      unfold fractionText
      rw [isNaN_of_isFinite hfinite, isInf_of_isFinite hfinite, if_neg Bool.false_ne_true, if_neg Bool.false_ne_true]
    have haround : Around m e (shortest ⟨s == .negative, m, e⟩).value :=
      (covers_iff (p := ⟨s == .negative, m, e⟩) hm).mp (shortest_covers hm hcanonical.bits)
    have hpos := Numeral.digits_pos (haround.pos hm hcanonical he)
    rw [render_of_whole?_none hwhole, hfraction]
    exact ⟨_, _, _, rfl, toList_text hparts (isNaN_of_isFinite hfinite) hm, spells_written hpos, haround⟩

theorem eq_of_unpack (hx : x.toModel.unpack = .finite s m e hm) :
    x = if s == .negative then -Float.ofModel (.pack (.finite .positive m e hm))
      else .ofModel (.pack (.finite .positive m e hm)) := by
  obtain ⟨hcanonical, he⟩ := canonical_of_unpack hx
  have hpack := ofModel_pack_unpack x
  rw [hx] at hpack
  cases s with
  | positive => exact hpack.symm
  | negative =>
    have hneg (y : Float) : -y = .ofModel (.pack y.toModel.unpack.neg) := rfl
    have hunpack : (Float.ofModel (.pack (.finite .positive m e hm))).toModel.unpack = .finite .positive m e hm :=
      unpack_pack_finite .positive hm hcanonical he
    rw [if_pos (by decide), hneg, hunpack]
    exact hpack.symm

theorem readNumber?_render (hx : x.toModel.unpack = .finite s m e hm) :
    ∃ text, render x = .ok text ∧ readNumber? text.toList = some x := by
  obtain ⟨hcanonical, he⟩ := canonical_of_unpack hx
  obtain ⟨text, body, v, hrender, htext, hspells, haround⟩ := render_finite hx
  obtain ⟨d, rfl, hreads⟩ := hspells.signed (s == .negative)
  refine ⟨text, hrender, ?_⟩
  rw [htext, hreads, nearest_of_around hm hcanonical he haround, ← eq_of_unpack hx]

end Finite

/-- Reading what is written gives the same number, but zero for both zeros. -/
theorem exists_readNumber? (x : Float) :
    ∃ text y, render x = .ok text ∧ readNumber? text.toList = some y ∧ y.isNaN = x.isNaN ∧
      (x.isNaN = false → (y == x) = true) := by
  have hpack := ofModel_pack_unpack x
  cases hx : x.toModel.unpack with
  | notANumber =>
    rw [hx] at hpack
    subst hpack
    exact ⟨"NaN", nan, rfl, rfl, rfl, fun h => by cases h⟩
  | infinity s =>
    rw [hx] at hpack
    subst hpack
    cases s with
    | positive => exact ⟨"Infinity", infinity, rfl, rfl, rfl, fun _ => rfl⟩
    | negative => exact ⟨"-Infinity", -infinity, rfl, rfl, rfl, fun _ => rfl⟩
  | zero s =>
    rw [hx] at hpack
    have hzeros := hpack ▸ zero_or_neg_zero s
    have hwhole : whole? x = some 0 := by
      rcases hzeros with rfl | rfl
      · decide +kernel
      · decide +kernel
    refine ⟨"0", 0, render_of_whole hwhole, rfl, ?_, fun _ => beq_of_zeros (.inl rfl) hzeros⟩
    rcases hzeros with rfl | rfl <;> rfl
  | finite s m e hm =>
    obtain ⟨text, hrender, hreads⟩ := readNumber?_render hx
    exact ⟨text, x, hrender, hreads, rfl, beq_self_iff.mpr⟩

-- halfway between two decimals that are both read as the number, the even one is written
example : text 600000000000000.75 = "600000000000000.8" := by decide +kernel

end Decimal

namespace Library

/-- The text of a number is read, and gives a number that is equal to it, or NaN for NaN. A whole number has the text
of the integer it is. -/
theorem toNum_toStr (x : Float) :
    ∃ text y, toStr (.number x) = .ok (.string text) ∧ toNum (.string text) = .ok (.number y) ∧
      (x.isNaN = true → y.isNaN = true) ∧ (x.isNaN = false → Value.equals (.number y) (.number x) = .ok true) ∧
      ∀ n, Number.whole? x = some n → text = toString n := by
  obtain ⟨text, y, hrender, hreads, hnan, hequal⟩ := Decimal.exists_readNumber? x
  refine ⟨text, y, ?_, ?_, hnan.trans, fun h => congrArg Except.ok (hequal h), fun n hwhole => ?_⟩
  · rw [toStr, Value.render, hrender]
    rfl
  · unfold toNum Value.asString
    dsimp only [bind, Except.bind]
    rw [hreads]
    rfl
  · rw [Number.render_of_whole hwhole] at hrender
    cases hrender
    rfl

theorem toNum_toStr_large_and_nan :
    (∃ y, Number.whole? 1180591620717411303424 = some 1180591620717411303424 ∧
      toStr (.number 1180591620717411303424) = .ok (.string "1180591620717411303424") ∧
      toNum (.string "1180591620717411303424") = .ok (.number y) ∧
      Value.equals (.number y) (.number 1180591620717411303424) = .ok true) ∧
    ∃ text y, toStr (.number Number.nan) = .ok (.string text) ∧ toNum (.string text) = .ok (.number y) ∧
      y.isNaN = true := by
  obtain ⟨large, y, hlarge, hy, -, hequal, hwhole⟩ := toNum_toStr 1180591620717411303424
  obtain ⟨text, z, htext, hz, hnan, -, -⟩ := toNum_toStr Number.nan
  have hsize : Number.whole? 1180591620717411303424 = some 1180591620717411303424 := by decide +kernel
  have hdigits : large = "1180591620717411303424" := (hwhole _ hsize).trans (by decide +kernel)
  rw [hdigits] at hlarge hy
  exact ⟨⟨y, hsize, hlarge, hy, hequal (by decide +kernel)⟩, text, z, htext, hz, hnan (by decide +kernel)⟩

end Library

end Curried
