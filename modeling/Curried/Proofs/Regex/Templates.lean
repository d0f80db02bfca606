/-
  Curried.Proofs.Regex.Templates — what a replacement stands for.

  A replacement is a sequence of characters and group references; its parts are that sequence with neighbouring
  characters put together. Reading finds those parts or there are none: a written-out form of every list of
  parts reads as that list, and what is read refers only to groups that the regex has.
-/

import Curried.Library.Strings
import Curried.Proofs.Regex.Groups
import Curried.Proofs.Regex.Matches
import Curried.Proofs.Spelling

namespace Curried.Regex

/-! ## What a replacement is made of -/

inductive Atom where
  | char (c : Char)
  | group (index : Nat)
  deriving DecidableEq, Repr

def Part.atoms : Part → List Atom
  | .text s => s.toList.map .char
  | .group index => [.group index]

/-- Every character after a backslash, and every group by its number. -/
def Part.written : Part → List Char
  | .text s => s.toList.flatMap fun c => ['\\', c]
  | .group index => '$' :: (toString index).toList

namespace Template

/-- Texts are not empty, none follows another, and the groups are among the first `groups`. -/
structure WellFormed (groups : Nat) (parts : List Part) : Prop where
  nonempty : ∀ s, .text s ∈ parts → s ≠ ""
  apart : ∀ s t, ¬ [.text s, .text t] <:+: parts
  within : ∀ index, .group index ∈ parts → index ≤ groups

def decimal (digits : List Char) : Nat := Nat.ofDigitChars 10 digits 0

/-- The longest run of digits before `rest`, one at least, that writes a number of at most `groups`. -/
structure LongestIndex (groups : Nat) (digits rest : List Char) : Prop where
  ne_nil : digits ≠ []
  isDigit : ∀ c ∈ digits, c.isDigit = true
  le : decimal digits ≤ groups
  longest : ∀ more, more ≠ [] → more <+: rest → (∀ c ∈ more, c.isDigit = true) → groups < decimal (digits ++ more)

inductive Refers (p : Program) : List Char → Nat → List Char → Prop
  | numbered {digits rest : List Char} : LongestIndex p.groups digits rest →
      Refers p (digits ++ rest) (decimal digits) rest
  | named {name rest : List Char} {named : String × Nat} : '\x7d' ∉ name →
      p.names.find? (·.1 == String.ofList name) = some named → Refers p ('\x7b' :: name ++ '\x7d' :: rest) named.2 rest

inductive Reads (p : Program) : List Char → List Atom → Prop
  | nil : Reads p [] []
  | escaped {c : Char} {cs : List Char} {as : List Atom} : Reads p cs as → Reads p ('\\' :: c :: cs) (.char c :: as)
  | plain {c : Char} {cs : List Char} {as : List Atom} : c ≠ '\\' → c ≠ '$' → Reads p cs as →
      Reads p (c :: cs) (.char c :: as)
  | group {cs rest : List Char} {index : Nat} {as : List Atom} : Refers p cs index rest → Reads p rest as →
      Reads p ('$' :: cs) (.group index :: as)

/-! ## References -/

theorem asciiDigit?_eq_some {c : Char} {d : Nat} :
    asciiDigit? c = some d ↔ c.isDigit = true ∧ d = c.toNat - '0'.toNat := by
  have hiff : ('0' ≤ c ∧ c ≤ '9') ↔ c.isDigit = true := by
    rw [Char.isDigit_iff_toNat]
    exact Iff.rfl
  unfold asciiDigit?
  by_cases hc : c.isDigit = true
  · simp [hiff.mpr hc, hc, eq_comm]
  · have hno : ¬ ('0' ≤ c ∧ c ≤ '9') := fun h => hc (hiff.mp h)
    simp [hno, hc]

theorem asciiDigit?_eq_none {c : Char} : asciiDigit? c = none ↔ ¬ c.isDigit = true := by
  cases h : asciiDigit? c with
  | none =>
    refine ⟨fun _ hc => ?_, fun _ => rfl⟩
    rw [asciiDigit?_eq_some.mpr ⟨hc, rfl⟩] at h
    cases h
  | some d => exact ⟨nofun, fun hc => absurd (asciiDigit?_eq_some.mp h).1 hc⟩

/-- More digits make no smaller number. -/
theorem le_ofDigitChars (digits : List Char) (n : Nat) : n ≤ Nat.ofDigitChars 10 digits n := by
  induction digits generalizing n with
  | nil => simp
  | cons c cs ih =>
    rw [Nat.ofDigitChars_cons]
    have := ih (10 * n + (c.toNat - '0'.toNat))
    omega

/-- Digits that lead from `index` to a number of at most `groups`, and no further with the next one. -/
structure Grown (groups index : Nat) (digits rest : List Char) : Prop where
  isDigit : ∀ c ∈ digits, c.isDigit = true
  le : Nat.ofDigitChars 10 digits index ≤ groups
  stops : ∀ c cs, rest = c :: cs → c.isDigit = true → groups < Nat.ofDigitChars 10 (digits ++ [c]) index

theorem exists_grown {groups index : Nat} (cs : List Char) (hindex : index ≤ groups) :
    ∃ digits rest, cs = digits ++ rest ∧ Grown groups index digits rest := by
  induction cs generalizing index with
  | nil =>
    refine ⟨[], [], rfl, List.forall_mem_nil _, by simpa using hindex, fun c cs h => ?_⟩
    cases h
  | cons c cs ih =>
    by_cases htaken : c.isDigit = true ∧ 10 * index + (c.toNat - '0'.toNat) ≤ groups
    · obtain ⟨digits, rest, rfl, hdigits, hle, hstops⟩ := ih htaken.2
      refine ⟨c :: digits, rest, rfl, List.forall_mem_cons.mpr ⟨htaken.1, hdigits⟩, ?_, ?_⟩
      · rwa [Nat.ofDigitChars_cons]
      · simpa only [List.cons_append, Nat.ofDigitChars_cons] using hstops
    · refine ⟨[], c :: cs, rfl, List.forall_mem_nil _, by simpa using hindex, fun d ds h hd => ?_⟩
      cases h
      rw [List.nil_append, Nat.ofDigitChars_cons, Nat.ofDigitChars_nil]
      exact Nat.lt_of_not_le fun hle => htaken ⟨hd, hle⟩

theorem growIndex_of_grown {groups index : Nat} {digits rest : List Char} (h : Grown groups index digits rest) :
    growIndex groups index (digits ++ rest) = (Nat.ofDigitChars 10 digits index, rest) := by
  induction digits generalizing index with
  | nil =>
    rw [List.nil_append, Nat.ofDigitChars_nil]
    cases rest with
    | nil => rfl
    | cons c cs =>
      by_cases hc : c.isDigit = true
      · have hmuch := h.stops c cs rfl hc
        rw [List.nil_append, Nat.ofDigitChars_cons, Nat.ofDigitChars_nil] at hmuch
        simp only [growIndex, asciiDigit?_eq_some.mpr ⟨hc, rfl⟩]
        rw [if_neg (by omega)]
      · simp only [growIndex, asciiDigit?_eq_none.mpr hc]
  | cons c cs ih =>
    obtain ⟨hdigits, hle, hstops⟩ := h
    obtain ⟨hc, hdigits⟩ := List.forall_mem_cons.mp hdigits
    rw [Nat.ofDigitChars_cons] at hle
    have hnext := le_ofDigitChars cs (10 * index + (c.toNat - '0'.toNat))
    simp only [List.cons_append, growIndex, asciiDigit?_eq_some.mpr ⟨hc, rfl⟩, Nat.mul_comm index 10]
    rw [if_pos (Nat.le_trans hnext hle), Nat.ofDigitChars_cons]
    refine ih ⟨hdigits, hle, ?_⟩
    simpa only [List.cons_append, Nat.ofDigitChars_cons] using hstops

theorem decimal_cons (c : Char) (cs : List Char) :
    decimal (c :: cs) = Nat.ofDigitChars 10 cs (c.toNat - '0'.toNat) := by
  rw [decimal, Nat.ofDigitChars_cons, Nat.mul_zero, Nat.zero_add]

theorem longestIndex_cons {groups : Nat} {c : Char} {digits rest : List Char} :
    LongestIndex groups (c :: digits) rest ↔ c.isDigit = true ∧ Grown groups (c.toNat - '0'.toNat) digits rest := by
  constructor
  · rintro ⟨-, hdigits, hle, hlongest⟩
    obtain ⟨hc, hdigits⟩ := List.forall_mem_cons.mp hdigits
    refine ⟨hc, hdigits, decimal_cons c digits ▸ hle, fun d ds hrest hd => ?_⟩
    have hmuch := hlongest [d] (by simp) (hrest ▸ List.cons_prefix_cons.mpr ⟨rfl, List.nil_prefix⟩) (by simpa using hd)
    rwa [List.cons_append, decimal_cons] at hmuch
  · rintro ⟨hc, hdigits, hle, hstops⟩
    refine ⟨by simp, List.forall_mem_cons.mpr ⟨hc, hdigits⟩, (decimal_cons c digits).symm ▸ hle, ?_⟩
    intro more hne hmore hall
    cases more with
    | nil => exact absurd rfl hne
    | cons d ds =>
      -- one digit too many is too much, and what follows it makes it no smaller
      obtain ⟨rest', rfl⟩ := hmore
      have hmuch := hstops d (ds ++ rest') rfl (hall d List.mem_cons_self)
      have hmore := le_ofDigitChars ds (Nat.ofDigitChars 10 (digits ++ [d]) (c.toNat - '0'.toNat))
      rw [← Nat.ofDigitChars_append, List.append_assoc, List.singleton_append] at hmore
      rw [List.cons_append, decimal_cons]
      omega

theorem reference_iff {p : Program} {cs rest : List Char} {index : Nat} :
    reference p cs = .ok (index, rest) ↔ Refers p cs index rest := by
  constructor
  · intro h
    unfold reference at h
    split at h
    · rename_i cs
      split at h
      · cases h
      · rename_i name c rest' hspan
        obtain ⟨rfl, hname, hclose⟩ := Text.span_split hspan
        have hc : c = '\x7d' := by simpa using hclose c rfl
        subst hc
        split at h
        · rename_i found index' hfind
          cases h
          exact .named (fun hmem => by simpa using hname _ hmem) hfind
        · cases h
    · rename_i c cs _
      split at h
      · rename_i d hd
        obtain ⟨hc, rfl⟩ := asciiDigit?_eq_some.mp hd
        split at h
        · rename_i hle
          obtain ⟨digits, rest', rfl, hgrown⟩ := exists_grown cs hle
          rw [growIndex_of_grown hgrown, ← decimal_cons] at h
          cases h
          exact .numbered (longestIndex_cons.mpr ⟨hc, hgrown⟩)
        · cases h
      · cases h
    · cases h
  · intro h
    cases h with
    | @numbered digits rest hlongest =>
      cases digits with
      | nil => exact absurd rfl hlongest.ne_nil
      | cons c digits =>
        obtain ⟨hc, hgrown⟩ := longestIndex_cons.mp hlongest
        have hopen : c = '\x7b' → False := by
          intro he
          subst he
          cases hc
        have hle := Nat.le_trans (le_ofDigitChars digits _) hgrown.le
        rw [List.cons_append, reference]
        · simp only [asciiDigit?_eq_some.mpr ⟨hc, rfl⟩, if_pos hle, growIndex_of_grown hgrown, decimal_cons]
        · exact hopen
    | @named name rest named hname hfind =>
      have hspan : (name ++ '\x7d' :: rest).span (· != '\x7d') = (name, '\x7d' :: rest) :=
        Text.span_append (fun c hc => by simpa using fun he : c = '\x7d' => hname (he ▸ hc)) (by simp)
      simp only [List.cons_append, reference, hspan, hfind]

/-! ## Reading -/

def pending (literal : List Char) : List Part := if literal.isEmpty then [] else [.text (String.ofList literal)]

@[simp] theorem pending_nil : pending [] = [] := rfl

/-- Neighbouring characters put together, after some that have been gathered. -/
def gather : List Char → List Atom → List Part
  | literal, [] => pending literal
  | literal, .char c :: as => gather (literal ++ [c]) as
  | literal, .group index :: as => pending literal ++ .group index :: gather [] as

theorem reverse_flush (literal : List Char) (parts : List Part) :
    (flush literal parts).reverse = parts.reverse ++ pending literal.reverse := by
  cases literal with
  | nil => simp [flush, pending]
  | cons c cs => simp [flush, pending]

theorem Refers.length_le {p : Program} {cs rest : List Char} {index : Nat} (h : Refers p cs index rest) :
    rest.length ≤ cs.length := by
  cases h with
  | numbered => simp
  | named =>
    simp only [List.cons_append, List.length_cons, List.length_append]
    omega

section Reads

variable {p : Program} {cs : List Char} {as : List Atom}

theorem reads_nil : Reads p [] as ↔ as = [] := by
  constructor
  · intro h
    cases h
    rfl
  · rintro rfl
    exact .nil

theorem not_reads_backslash : ¬ Reads p ['\\'] as := by
  intro h
  cases h with
  | plain hbackslash => exact hbackslash rfl

theorem reads_escaped {c : Char} : Reads p ('\\' :: c :: cs) as ↔ ∃ bs, Reads p cs bs ∧ as = .char c :: bs := by
  constructor
  · intro h
    cases h with
    | escaped h => exact ⟨_, h, rfl⟩
    | plain hbackslash => exact absurd rfl hbackslash
  · rintro ⟨bs, h, rfl⟩
    exact .escaped h

theorem reads_plain {c : Char} (hbackslash : c ≠ '\\') (hdollar : c ≠ '$') :
    Reads p (c :: cs) as ↔ ∃ bs, Reads p cs bs ∧ as = .char c :: bs := by
  constructor
  · intro h
    cases h with
    | escaped => exact absurd rfl hbackslash
    | plain _ _ h => exact ⟨_, h, rfl⟩
    | group => exact absurd rfl hdollar
  · rintro ⟨bs, h, rfl⟩
    exact .plain hbackslash hdollar h

theorem reads_group : Reads p ('$' :: cs) as ↔
    ∃ index rest bs, Refers p cs index rest ∧ Reads p rest bs ∧ as = .group index :: bs := by
  constructor
  · intro h
    cases h with
    | plain _ hdollar => exact absurd rfl hdollar
    | group hrefers h => exact ⟨_, _, _, hrefers, h, rfl⟩
  · rintro ⟨index, rest, bs, hrefers, h, rfl⟩
    exact .group hrefers h

end Reads

/-- Reading from within a replacement adds to the parts before it what the rest of it stands for. -/
theorem readFrom_iff {p : Program} {fuel : Nat} {literal cs : List Char} {parts result : List Part}
    (hfuel : cs.length < fuel) :
    readFrom p fuel literal parts cs = .ok result ↔
      ∃ as, Reads p cs as ∧ result = parts.reverse ++ gather literal.reverse as := by
  induction fuel generalizing literal parts cs with
  | zero => omega
  | succ fuel ih =>
    cases cs with
    | nil => simp [readFrom, reverse_flush, reads_nil, gather, eq_comm]
    | cons c cs =>
      rw [List.length_cons] at hfuel
      by_cases hbackslash : c = '\\'
      · subst hbackslash
        cases cs with
        | nil => simp [readFrom, not_reads_backslash]
        | cons d cs =>
          rw [List.length_cons] at hfuel
          have hstep : readFrom p (fuel + 1) literal parts ('\\' :: d :: cs) =
              readFrom p fuel (d :: literal) parts cs := rfl
          rw [hstep, ih (by omega)]
          simp [reads_escaped, gather]
      · by_cases hdollar : c = '$'
        · subst hdollar
          cases href : reference p cs with
          | error e =>
            have hnone : ∀ index rest, ¬ Refers p cs index rest := by
              intro index rest hrefers
              rw [reference_iff.mpr hrefers] at href
              cases href
            simp [readFrom, href, reads_group, hnone]
          | ok found =>
            obtain ⟨index, rest⟩ := found
            have hrefers := reference_iff.mp href
            have hunique : ∀ index' rest', Refers p cs index' rest' ↔ index' = index ∧ rest' = rest := by
              intro index' rest'
              rw [← reference_iff, href]
              simp [eq_comm]
            have hless := hrefers.length_le
            have hstep : readFrom p (fuel + 1) literal parts ('$' :: cs) =
                readFrom p fuel [] (.group index :: flush literal parts) rest := by
              simp [readFrom, href]
            rw [hstep, ih (by omega)]
            simp [reads_group, hunique, gather, reverse_flush]
        · have hstep : readFrom p (fuel + 1) literal parts (c :: cs) = readFrom p fuel (c :: literal) parts cs := by
            simp [readFrom, hbackslash, hdollar]
          rw [hstep, ih (by omega)]
          simp [reads_plain hbackslash hdollar, gather]

/-! ## Parts -/

theorem gather_append_char (literal : List Char) (cs : List Char) (as : List Atom) :
    gather literal (cs.map .char ++ as) = gather (literal ++ cs) as := by
  induction cs generalizing literal with
  | nil => simp
  | cons c cs ih => simp [gather, ih]

theorem atoms_pending (literal : List Char) : (pending literal).flatMap Part.atoms = literal.map .char := by
  cases literal with
  | nil => rfl
  | cons c cs => simp [pending, Part.atoms]

/-- Gathering loses nothing. -/
theorem atoms_gather (literal : List Char) (as : List Atom) :
    (gather literal as).flatMap Part.atoms = literal.map .char ++ as := by
  induction as generalizing literal with
  | nil => simp [gather, atoms_pending]
  | cons a as ih =>
    cases a with
    | char c => simp [gather, ih]
    | group index => simp [gather, ih, atoms_pending, Part.atoms]

section WellFormed

variable {groups : Nat} {parts : List Part}

theorem WellFormed.nil : WellFormed groups [] := by
  refine ⟨?_, ?_, ?_⟩ <;> simp

theorem wellFormed_group {index : Nat} :
    WellFormed groups (.group index :: parts) ↔ index ≤ groups ∧ WellFormed groups parts := by
  constructor
  · rintro ⟨hnonempty, hapart, hwithin⟩
    refine ⟨hwithin index List.mem_cons_self, fun s hs => hnonempty s (List.mem_cons_of_mem _ hs), fun s t h => ?_,
      fun i hi => hwithin i (List.mem_cons_of_mem _ hi)⟩
    exact hapart s t (List.infix_cons h)
  · rintro ⟨hindex, hnonempty, hapart, hwithin⟩
    refine ⟨by simpa using hnonempty, fun s t h => ?_, by simpa [hindex] using hwithin⟩
    rcases List.infix_cons_iff.mp h with h | h
    · simp at h
    · exact hapart s t h

theorem wellFormed_text {s : String} :
    WellFormed groups (.text s :: parts) ↔ s ≠ "" ∧ (∀ t rest, parts ≠ .text t :: rest) ∧ WellFormed groups parts := by
  constructor
  · rintro ⟨hnonempty, hapart, hwithin⟩
    refine ⟨hnonempty s List.mem_cons_self, ?_, fun t ht => hnonempty t (List.mem_cons_of_mem _ ht), fun t u h => ?_,
      fun i hi => hwithin i (List.mem_cons_of_mem _ hi)⟩
    · rintro t rest rfl
      exact hapart s t ⟨[], rest, rfl⟩
    · exact hapart t u (List.infix_cons h)
  · rintro ⟨hs, hfollow, hnonempty, hapart, hwithin⟩
    refine ⟨by simpa [hs] using hnonempty, fun t u h => ?_, by simpa using hwithin⟩
    rcases List.infix_cons_iff.mp h with h | h
    · obtain ⟨-, rest, hrest⟩ := List.cons_prefix_cons.mp h
      exact hfollow u rest hrest.symm
    · exact hapart t u h

end WellFormed

theorem gather_wellFormed {groups : Nat} (literal : List Char) {as : List Atom}
    (h : ∀ index, .group index ∈ as → index ≤ groups) : WellFormed groups (gather literal as) := by
  induction as generalizing literal with
  | nil =>
    cases literal with
    | nil => exact .nil
    | cons c cs => exact wellFormed_text.mpr ⟨by simp, by simp, .nil⟩
  | cons a as ih =>
    cases a with
    | char c => exact ih _ fun index hindex => h index (List.mem_cons_of_mem _ hindex)
    | group index =>
      have hgroup : WellFormed groups (.group index :: gather [] as) :=
        wellFormed_group.mpr ⟨h index List.mem_cons_self, ih [] fun i hi => h i (List.mem_cons_of_mem _ hi)⟩
      cases literal with
      | nil => exact hgroup
      | cons c cs => exact wellFormed_text.mpr ⟨by simp, by simp, hgroup⟩

/-- Parts that are well formed are what their atoms are gathered to. -/
theorem gather_atoms {groups : Nat} {parts : List Part} (h : WellFormed groups parts) :
    gather [] (parts.flatMap Part.atoms) = parts := by
  induction parts with
  | nil => rfl
  | cons part parts ih =>
    cases part with
    | group index => simp [Part.atoms, gather, ih (wellFormed_group.mp h).2]
    | text s =>
      obtain ⟨hs, hfollow, hparts⟩ := wellFormed_text.mp h
      have hpending : pending s.toList = [.text s] := by simp [pending, hs]
      rw [List.flatMap_cons, Part.atoms, gather_append_char, List.nil_append]
      cases parts with
      | nil => simp [gather, hpending]
      | cons next parts =>
        cases next with
        | text t => exact absurd rfl (hfollow t parts)
        | group index =>
          have hrest := ih hparts
          simp only [List.flatMap_cons, Part.atoms, List.singleton_append, gather, pending_nil, List.nil_append] at hrest
          simp [Part.atoms, gather, hpending, hrest]

theorem Refers.le {p : Program} (hnames : ∀ named ∈ p.names, named.2 ≤ p.groups) {cs rest : List Char} {index : Nat}
    (h : Refers p cs index rest) : index ≤ p.groups := by
  cases h with
  | numbered hlongest => exact hlongest.le
  | named _ hfind => exact hnames _ (List.mem_of_find?_eq_some hfind)

theorem Reads.le {p : Program} (hnames : ∀ named ∈ p.names, named.2 ≤ p.groups) {cs : List Char} {as : List Atom}
    (h : Reads p cs as) : ∀ index, .group index ∈ as → index ≤ p.groups := by
  induction h with
  | nil => simp
  | escaped _ ih => simpa using ih
  | plain _ _ _ ih => simpa using ih
  | group hrefers _ ih =>
    intro index hindex
    rcases List.mem_cons.mp hindex with he | hlater
    · cases he
      exact hrefers.le hnames
    · exact ih index hlater

theorem read_iff {p : Program} (hnames : ∀ named ∈ p.names, named.2 ≤ p.groups) (template : String)
    (parts : List Part) :
    read p template = .ok parts ↔ WellFormed p.groups parts ∧ Reads p template.toList (parts.flatMap Part.atoms) := by
  rw [read, readFrom_iff (Nat.lt_succ_self _)]
  constructor
  · rintro ⟨as, hreads, rfl⟩
    refine ⟨gather_wellFormed _ (hreads.le hnames), ?_⟩
    simpa [atoms_gather] using hreads
  · rintro ⟨hparts, hreads⟩
    exact ⟨_, hreads, by simp [gather_atoms hparts]⟩

/-! ## Writing -/

theorem Reads.escapes {p : Program} {rest : List Char} {as : List Atom} (h : Reads p rest as) (cs : List Char) :
    Reads p (cs.flatMap (fun c => ['\\', c]) ++ rest) (cs.map .char ++ as) := by
  induction cs with
  | nil => exact h
  | cons c cs ih => exact .escaped ih

/-- No digit comes first, so a number before it ends there. -/
theorem written_head (parts : List Part) : ∀ c ∈ (parts.flatMap Part.written).head?, ¬ c.isDigit = true := by
  induction parts with
  | nil => simp
  | cons part parts ih =>
    cases part with
    | group index => simp [Part.written]
    | text s =>
      cases hs : s.toList with
      | nil => simpa [Part.written, hs] using ih
      | cons c cs => simp [Part.written, hs]

theorem longestIndex_written {groups index : Nat} (hindex : index ≤ groups) {rest : List Char}
    (hrest : ∀ c ∈ rest.head?, ¬ c.isDigit = true) : LongestIndex groups (toString index).toList rest := by
  rw [Nat.toString_eq_ofList_toDigits, String.toList_ofList]
  refine ⟨Nat.toDigits_ne_nil, fun c hc => Nat.isDigit_of_mem_toDigits (by decide) (by decide) hc, ?_, ?_⟩
  · rwa [decimal, Nat.ofDigitChars_ten_toDigits]
  · rintro more hne ⟨after, rfl⟩ hdigits
    cases more with
    | nil => exact absurd rfl hne
    | cons d ds => exact absurd (hdigits d List.mem_cons_self) (hrest d rfl)

theorem reads_written {p : Program} {parts : List Part} (h : ∀ index, .group index ∈ parts → index ≤ p.groups) :
    Reads p (parts.flatMap Part.written) (parts.flatMap Part.atoms) := by
  induction parts with
  | nil => exact .nil
  | cons part parts ih =>
    have hrest := ih fun index hindex => h index (List.mem_cons_of_mem _ hindex)
    cases part with
    | text s => exact hrest.escapes s.toList
    | group index =>
      have hlongest := longestIndex_written (h index List.mem_cons_self) (written_head parts)
      have hvalue : decimal (toString index).toList = index := by
        rw [Nat.toString_eq_ofList_toDigits, String.toList_ofList, decimal, Nat.ofDigitChars_ten_toDigits]
      have hrefers := Refers.numbered (p := p) hlongest
      rw [hvalue] at hrefers
      exact .group hrefers hrest

/-- What is read refers to groups that every match has. -/
theorem le_groups_of_read {r : Regex} {template : String} {parts : List Part}
    (h : read r.program template = .ok parts) {text : Array Char} {m : Match} (hm : m ∈ r.findAll text) :
    ∀ index, .group index ∈ parts → index ≤ m.groups.length := by
  rw [((successive_iff r text _).mpr rfl).groups m hm]
  exact ((read_iff (named_le_groups r) template parts).mp h).1.within

end Template

end Curried.Regex

namespace Curried

open Regex Template

/-- Replacing is reading the replacement, then looking at the text. -/
theorem Library.replace_eq (r : Regex) (text : Value) (template : String) :
    replace (.regex r) text (.string template) =
      ((Template.read r.program template).mapError fun e => .of (.invalidReplacement e)).bind fun parts =>
        (text.asString "replace").bind fun s => (Fault.attempt (r.substitute parts s)).map .string := by
  simp only [replace, Value.asRegex, Value.asString, bind, Except.bind]
  cases Template.read r.program template with
  | error e => rfl
  | ok parts =>
    cases text.asString "replace" with
    | error f => rfl
    | ok s =>
      cases Fault.attempt (r.substitute parts s) with
      | error f => rfl
      | ok t => rfl

/-- A list of parts reads back from what it is written as; whatever is read stands for what the replacement says
and refers only to groups that there are; and what cannot be read is a fault. -/
theorem replacement_reads_as_written (r : Regex) :
    (∀ parts, WellFormed r.program.groups parts →
      Template.read r.program (String.ofList (parts.flatMap Part.written)) = .ok parts) ∧
    (∀ template parts, Template.read r.program template = .ok parts ↔
      WellFormed r.program.groups parts ∧ Reads r.program template.toList (parts.flatMap Part.atoms)) ∧
    (∀ template parts, Template.read r.program template = .ok parts →
      ∀ text, ∀ m ∈ r.findAll text, ∀ index, .group index ∈ parts → index ≤ m.groups.length) ∧
    ∀ template, (∃ parts, Template.read r.program template = .ok parts) ∨
      ∃ e, ∀ text, Library.replace (.regex r) text (.string template) = .error (.of (.invalidReplacement e)) := by
  have hread := read_iff (named_le_groups r)
  refine ⟨fun parts hparts => ?_, hread, fun template parts h text m hm index hindex => ?_, fun template => ?_⟩
  · rw [hread, String.toList_ofList]
    exact ⟨hparts, reads_written hparts.within⟩
  · exact le_groups_of_read h hm index hindex
  · cases h : Template.read r.program template with
    | ok parts => exact .inl ⟨parts, rfl⟩
    | error e =>
      refine .inr ⟨e, fun text => ?_⟩
      rw [Library.replace_eq, h]
      rfl

def Regex.compiles (source : String) (test : Regex → Bool) : Bool :=
  match Regex.compile source with
  | .ok r => test r
  | .error _ => false

theorem Regex.of_compiles {source : String} {test : Regex → Bool} (h : Regex.compiles source test = true) :
    ∃ r, Regex.compile source = .ok r ∧ test r = true := by
  unfold Regex.compiles at h
  cases hr : Regex.compile source with
  | error =>
    rw [hr] at h
    cases h
  | ok r =>
    rw [hr] at h
    exact ⟨r, rfl, h⟩

/-- Two digits where there are eleven groups, and one more that is literal. -/
theorem replacement_reads_as_written_eleven :
    ∃ r, Regex.compile "(a)(b)(c)(d)(e)(f)(g)(h)(i)(j)(k)" = .ok r ∧ r.program.groups = 11 ∧
      WellFormed 11 [.group 11, .text "1$\\", .group 0, .group 1] ∧
      Template.read r.program "$11\\1\\$\\\\$0$1" = .ok [.group 11, .text "1$\\", .group 0, .group 1] := by
  have hcompiles : Regex.compiles "(a)(b)(c)(d)(e)(f)(g)(h)(i)(j)(k)" (fun r => r.program.groups == 11) = true := by
    decide +kernel
  obtain ⟨r, hr, htest⟩ := Regex.of_compiles hcompiles
  have hgroups : r.program.groups = 11 := by simpa using htest
  have hparts : WellFormed 11 [.group 11, .text "1$\\", .group 0, .group 1] := by
    simp [wellFormed_group, wellFormed_text, WellFormed.nil]
  have hwritten : String.ofList ([.group 11, .text "1$\\", .group 0, .group 1].flatMap Part.written) =
      "$11\\1\\$\\\\$0$1" := by decide +kernel
  have hread := (replacement_reads_as_written r).1 [.group 11, .text "1$\\", .group 0, .group 1]
  rw [hgroups, hwritten] at hread
  exact ⟨r, hr, hgroups, hparts, hread hparts⟩

end Curried
