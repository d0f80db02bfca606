/-
  Curried.Proofs.Regex.Matches — which parts of a text a regex matches.

  A pattern goes on from where it began or from further on, and never past the end of the text: only look-arounds look
  elsewhere, and they come back (`Pattern.run_advances`). So a match is a part of the text.

  `Successive` says which the successive matches are, without saying how to find them: each is the first one that begins
  where the one before it ended or later, and after an empty match it does not match nothing at the same place again. A
  text has exactly one list of them, and `findAll` finds it (`successive_iff`): the two for each place that it looks for
  are enough.
-/

import Curried.Regex

namespace Curried.Regex

/-! ## Patterns -/

/-- A state is not behind another and not past the end of the text, and has marks for the same groups. -/
structure Ahead (text : Array Char) (s s' : State) : Prop where
  le : s.position ≤ s'.position
  within : s'.position ≤ text.size
  marks : s'.marks.size = s.marks.size

def Advances (text : Array Char) (step : Step) : Prop :=
  ∀ s rest found, s.position ≤ text.size → step s rest = some found → ∃ s', Ahead text s s' ∧ rest s' = some found

def Reaches (text : Array Char) (step : State → Option State) : Prop :=
  ∀ s s', s.position ≤ text.size → step s = some s' → Ahead text s s'

variable {text : Array Char}

theorem Ahead.refl {s : State} (hs : s.position ≤ text.size) : Ahead text s s := ⟨Nat.le_refl _, hs, rfl⟩

theorem Ahead.trans {s₁ s₂ s₃ : State} (h : Ahead text s₁ s₂) (h' : Ahead text s₂ s₃) : Ahead text s₁ s₃ :=
  ⟨Nat.le_trans h.le h'.le, h'.within, h'.marks.trans h.marks⟩

theorem Advances.reaches {step : Step} (h : Advances text step) : Reaches text (step · some) := by
  intro s s' hs hstep
  obtain ⟨s₁, hahead, hsame⟩ := h s some s' hs hstep
  cases hsame
  exact hahead

/-- What is taken once and for all, and then goes on. -/
theorem Reaches.advances {step : State → Option State} (h : Reaches text step) :
    Advances text fun s rest => (step s).bind rest := by
  intro s rest found hs hfound
  obtain ⟨s', hstep, hrest⟩ := Option.bind_eq_some_iff.mp hfound
  exact ⟨s', h s s' hs hstep, hrest⟩

/-- One step, and another one from where it ended. -/
theorem Advances.andThen {step next : Step} (h : Advances text step) (hnext : Advances text next) :
    Advances text fun s rest => step s fun s' => next s' rest := by
  intro s rest found hs hfound
  obtain ⟨s₁, hahead₁, hrest⟩ := h s _ found hs hfound
  obtain ⟨s₂, hahead₂, hrest₂⟩ := hnext s₁ rest found hahead₁.within hrest
  exact ⟨s₂, hahead₁.trans hahead₂, hrest₂⟩

theorem greedily_advances {body : Step} (hbody : Advances text body) (least : Nat) (most : Option Nat)
    (fuel count : Nat) (last : Option Nat) : Advances text (greedily body least most fuel count last) := by
  induction fuel generalizing count last with
  | zero =>
    intro s rest found _ hfound
    cases hfound
  | succ fuel ih =>
    intro s rest found hs hfound
    simp only [greedily] at hfound
    split at hfound
    · exact hbody.andThen (ih _ _) s rest found hs hfound
    · split at hfound
      · rename_i hlonger
        cases hfound
        split at hlonger
        · exact hbody.andThen (ih _ _) s rest _ hs hlonger
        · cases hlonger
      · exact ⟨s, .refl hs, hfound⟩

theorem lazily_advances {body : Step} (hbody : Advances text body) (least : Nat) (most : Option Nat)
    (fuel count : Nat) (last : Option Nat) : Advances text (lazily body least most fuel count last) := by
  induction fuel generalizing count last with
  | zero =>
    intro s rest found _ hfound
    cases hfound
  | succ fuel ih =>
    intro s rest found hs hfound
    simp only [lazily] at hfound
    split at hfound
    · exact hbody.andThen (ih _ _) s rest found hs hfound
    · split at hfound
      · rename_i hrest
        cases hfound
        exact ⟨s, .refl hs, hrest⟩
      · split at hfound
        · exact hbody.andThen (ih _ _) s rest found hs hfound
        · cases hfound

theorem possessively_reaches {body : Step} (hbody : Advances text body) (least : Nat) (most : Option Nat)
    (fuel count : Nat) : Reaches text (possessively body least most fuel count) := by
  induction fuel generalizing count with
  | zero =>
    intro s s' hs hstep
    cases hstep
    exact .refl hs
  | succ fuel ih =>
    intro s s' hs hstep
    simp only [possessively] at hstep
    split at hstep
    · split at hstep
      · rename_i s₁ hround
        have hahead := hbody.reaches s s₁ hs hround
        split at hstep
        · cases hstep
          exact hahead
        · exact hahead.trans (ih _ s₁ s' hahead.within hstep)
      · split at hstep
        · cases hstep
        · cases hstep
          exact .refl hs
    · cases hstep
      exact .refl hs

theorem again_reaches (f : Folding) (i j : Nat) : Reaches text (again text f i j) := by
  intro s s' hs hstep
  unfold again at hstep
  dsimp only at hstep
  split at hstep
  · rename_i hsame
    cases hstep
    refine ⟨Nat.le_add_right _ _, ?_, rfl⟩
    show s.position + (j - i) ≤ text.size
    -- the last of the characters is one of the text
    by_cases hnone : j - i = 0
    · omega
    · have hlast := List.all_eq_true.mp hsame (j - i - 1) (List.mem_range.mpr (by omega))
      split at hlast
      · rename_i hd
        obtain ⟨hlt, -⟩ := Array.getElem?_eq_some_iff.mp hd
        omega
      · cases hlast
  · cases hstep

theorem Pattern.run_advances (text : Array Char) : ∀ p : Pattern, Advances text (p.run text)
  | .empty => fun s rest found hs hfound => ⟨s, .refl hs, hfound⟩
  | .char test => by
    intro s rest found hs hfound
    simp only [Pattern.run] at hfound
    split at hfound
    · rename_i c hc
      obtain ⟨hlt, -⟩ := Array.getElem?_eq_some_iff.mp hc
      split at hfound
      · exact ⟨s.moveTo (s.position + 1), ⟨Nat.le_succ _, hlt, rfl⟩, hfound⟩
      · cases hfound
    · cases hfound
  | .anchor a => by
    intro s rest found hs hfound
    simp only [Pattern.run] at hfound
    split at hfound
    · exact ⟨s, .refl hs, hfound⟩
    · cases hfound
  | .seq p q => (run_advances text p).andThen (run_advances text q)
  | .alt p q => by
    intro s rest found hs hfound
    simp only [Pattern.run] at hfound
    split at hfound
    · rename_i hp
      cases hfound
      exact run_advances text p s rest _ hs hp
    · exact run_advances text q s rest found hs hfound
  | .repeated least most e p => by
    intro s rest found hs hfound
    have hp := run_advances text p
    cases e with
    | greedy => exact greedily_advances hp _ _ _ _ _ s rest found hs hfound
    | lazily => exact lazily_advances hp _ _ _ _ _ s rest found hs hfound
    | possessive => exact (possessively_reaches hp _ _ _ _).advances s rest found hs hfound
  | .group none p => run_advances text p
  | .group (some index) p => by
    intro s rest found hs hfound
    obtain ⟨s', hahead, hrest⟩ := run_advances text p (s.enter index) _ found hs hfound
    exact ⟨s'.leave index, ⟨hahead.le, hahead.within, by simpa [State.leave, State.enter] using hahead.marks⟩, hrest⟩
  | .atomic p => (run_advances text p).reaches.advances
  | .lookAhead negated p => by
    intro s rest found hs hfound
    simp only [Pattern.run] at hfound
    split at hfound
    · rename_i s' hlook
      have hahead := (run_advances text p).reaches s s' hs hlook
      exact ⟨s'.moveTo s.position, ⟨Nat.le_refl _, hs, hahead.marks⟩, hfound⟩
    · exact ⟨s, .refl hs, hfound⟩
    · cases hfound
  | .lookBehind negated w p => by
    intro s rest found hs hfound
    simp only [Pattern.run] at hfound
    split at hfound
    · rename_i s' hlook
      split at hlook
      · have hahead := (run_advances text p).reaches _ s' (Nat.le_trans (Nat.sub_le _ _) hs) hlook
        exact ⟨s'.moveTo s.position, ⟨Nat.le_refl _, hs, hahead.marks⟩, hfound⟩
      · cases hlook
    · exact ⟨s, .refl hs, hfound⟩
    · cases hfound
  | .backReference index _ f => by
    intro s rest found hs hfound
    simp only [Pattern.run] at hfound
    split at hfound
    · exact (again_reaches f _ _).advances s rest found hs hfound
    · cases hfound
  | .conditional index yes none => by
    intro s rest found hs hfound
    simp only [Pattern.run] at hfound
    split at hfound
    · exact run_advances text yes s rest found hs hfound
    · exact ⟨s, .refl hs, hfound⟩
  | .conditional index yes (some no) => by
    intro s rest found hs hfound
    simp only [Pattern.run] at hfound
    split at hfound
    · exact run_advances text yes s rest found hs hfound
    · exact run_advances text no s rest found hs hfound

/-! ## Matches -/

structure Found (r : Regex) (text : Array Char) (start : Nat) (accept : State → Bool) (m : Match) : Prop where
  begins : m.start = start
  le : start ≤ m.stop
  within : m.stop ≤ text.size
  accepted : ∃ s, s.position = m.stop ∧ accept s = true
  groups : m.groups.length = r.program.groups

theorem matchAt_found {r : Regex} {start : Nat} {accept : State → Bool} {m : Match} (hstart : start ≤ text.size)
    (h : r.matchAt text start accept = some m) : r.Found text start accept m := by
  obtain ⟨found, hrun, rfl⟩ := Option.map_eq_some_iff.mp h
  obtain ⟨s, hahead, hrest⟩ := Pattern.run_advances text r.program.body (r.program.initial start) _ found hstart hrun
  split at hrest
  · rename_i haccept
    cases hrest
    exact ⟨rfl, hahead.le, hahead.within, ⟨found, rfl, haccept⟩, by simpa [Program.initial] using hahead.marks⟩
  · cases hrest

/-- Which endings of a match are admitted that begins at `i`, in a search from `start` on: where `advance`, one that
begins at `start` has to take a character. -/
def admits (start : Nat) (advance : Bool) (i : Nat) (s : State) : Bool := !(advance && i == start) || s.position != i

def NoMatch (r : Regex) (text : Array Char) (start : Nat) (advance : Bool) : Prop :=
  ∀ i, start ≤ i → i ≤ text.size → r.matchAt text i (admits start advance i) = none

structure FirstMatch (r : Regex) (text : Array Char) (start : Nat) (advance : Bool) (m : Match) : Prop where
  after : start ≤ m.start
  within : m.start ≤ text.size
  found : r.matchAt text m.start (admits start advance m.start) = some m
  none_before : ∀ i, start ≤ i → i < m.start → r.matchAt text i (admits start advance i) = none

inductive Successive (r : Regex) (text : Array Char) : Nat → Bool → List Match → Prop
  | done {start : Nat} {advance : Bool} : r.NoMatch text start advance → Successive r text start advance []
  | next {start : Nat} {advance : Bool} {m : Match} {ms : List Match} : r.FirstMatch text start advance m →
      Successive r text m.stop (m.stop == m.start) ms → Successive r text start advance (m :: ms)

variable {r : Regex} {start : Nat} {advance : Bool}

theorem FirstMatch.bounds {m : Match} (h : r.FirstMatch text start advance m) :
    m.start ≤ m.stop ∧ m.stop ≤ text.size ∧ (advance = true → m.start = start → m.start < m.stop) := by
  obtain ⟨-, hle, hsize, ⟨s, hs, haccept⟩, -⟩ := matchAt_found h.within h.found
  refine ⟨hle, hsize, fun hadvance hstart => ?_⟩
  have hmoves : m.stop ≠ m.start := by simpa [admits, hadvance, hstart, hs] using haccept
  omega

theorem FirstMatch.unique {m m' : Match} (h : r.FirstMatch text start advance m)
    (h' : r.FirstMatch text start advance m') : m = m' := by
  rcases Nat.lt_trichotomy m.start m'.start with hlt | heq | hgt
  · have hnone := h'.none_before m.start h.after hlt
    rw [h.found] at hnone
    cases hnone
  · have hfound := h.found
    rw [heq, h'.found] at hfound
    exact (Option.some.inj hfound).symm
  · have hnone := h.none_before m'.start h'.after hgt
    rw [h'.found] at hnone
    cases hnone

theorem FirstMatch.not_noMatch {m : Match} (h : r.FirstMatch text start advance m) :
    ¬ r.NoMatch text start advance := by
  intro hnone
  have hfound := h.found
  rw [hnone m.start h.after h.within] at hfound
  cases hfound

theorem Successive.unique {ms ms' : List Match} (h : r.Successive text start advance ms)
    (h' : r.Successive text start advance ms') : ms = ms' := by
  induction h generalizing ms' with
  | done hnone =>
    cases h' with
    | done => rfl
    | next hfirst => exact absurd hnone hfirst.not_noMatch
  | next hfirst _ ih =>
    cases h' with
    | done hnone => exact absurd hnone hfirst.not_noMatch
    | next hfirst' hrest' =>
      cases hfirst.unique hfirst'
      rw [ih hrest']

/-! ## Finding them -/

theorem admits_start (s : State) : (!advance || s.position != start) = admits start advance start s := by
  simp [admits]

theorem admits_later {i : Nat} (hi : start < i) : admits start advance i = admits (start + 1) false i := by
  funext s
  have hne : ¬ i = start := by omega
  simp [admits, hne]

section Skipping

variable (hstart : r.matchAt text start (admits start advance start) = none)
include hstart

theorem NoMatch.of_next (h : r.NoMatch text (start + 1) false) : r.NoMatch text start advance := by
  intro i hi hsize
  by_cases heq : i = start
  · rw [heq]
    exact hstart
  · rw [admits_later (by omega)]
    exact h i (by omega) hsize

theorem FirstMatch.of_next {m : Match} (h : r.FirstMatch text (start + 1) false m) :
    r.FirstMatch text start advance m := by
  have hafter := h.after
  refine ⟨by omega, h.within, ?_, fun i hi him => ?_⟩
  · rw [admits_later (by omega)]
    exact h.found
  · by_cases heq : i = start
    · rw [heq]
      exact hstart
    · rw [admits_later (by omega)]
      exact h.none_before i (by omega) him

end Skipping

theorem search_spec (r : Regex) (advance : Bool) (fuel : Nat) (hfuel : text.size < start + fuel)
    (hstart : start ≤ text.size) :
    match r.search text fuel start advance with
    | some m => r.FirstMatch text start advance m
    | none => r.NoMatch text start advance := by
  induction fuel generalizing start advance with
  | zero => omega
  | succ fuel ih =>
    have haccept : (fun s : State => !advance || s.position != start) = admits start advance start :=
      funext fun s => admits_start s
    simp only [search, haccept]
    cases hm : r.matchAt text start (admits start advance start) with
    | some m =>
      have hbegins := (matchAt_found hstart hm).begins
      refine ⟨by omega, by omega, by rw [hbegins]; exact hm, fun i hi hlt => ?_⟩
      omega
    | none =>
      dsimp only
      by_cases hlt : start < text.size
      · have hnext := @ih (start + 1) false (by omega) hlt
        rw [if_pos hlt]
        cases hsearch : r.search text fuel (start + 1) false with
        | some m =>
          rw [hsearch] at hnext
          exact FirstMatch.of_next hm hnext
        | none =>
          rw [hsearch] at hnext
          exact NoMatch.of_next hm hnext
      · rw [if_neg hlt]
        exact NoMatch.of_next hm fun i hi hsize => by omega

/-- How many more matches there can be: two for each place, but only one at `start` where `advance`. -/
def room (text : Array Char) (start : Nat) (advance : Bool) : Nat := 2 * (text.size - start) + if advance then 0 else 1

theorem FirstMatch.room_lt {m : Match} (h : r.FirstMatch text start advance m) :
    room text m.stop (m.stop == m.start) < room text start advance := by
  obtain ⟨hle, hsize, hadvance⟩ := h.bounds
  have hafter := h.after
  unfold room
  by_cases hempty : m.stop = m.start
  · cases advance with
    | true =>
      have hne : m.start ≠ start := fun he => by have := hadvance rfl he; omega
      simp [hempty]
      omega
    | false =>
      simp [hempty]
      omega
  · simp [hempty]
    omega

theorem matchesFrom_successive {fuel : Nat} (hfuel : room text start advance < fuel) (hstart : start ≤ text.size) :
    r.Successive text start advance (r.matchesFrom text fuel start advance) := by
  induction fuel generalizing start advance with
  | zero => omega
  | succ fuel ih =>
    have hsearch := search_spec r advance (text.size + 1 - start) (by omega) hstart
    rw [matchesFrom]
    cases hm : r.search text (text.size + 1 - start) start advance with
    | none =>
      rw [hm] at hsearch
      exact .done hsearch
    | some m =>
      rw [hm] at hsearch
      have hfirst : r.FirstMatch text start advance m := hsearch
      have hless := hfirst.room_lt
      exact .next hfirst (ih (by omega) hfirst.bounds.2.1)

theorem Successive.groups {ms : List Match} (h : r.Successive text start advance ms) :
    ∀ m ∈ ms, m.groups.length = r.program.groups := by
  induction h with
  | done => simp
  | next hfirst _ ih => exact List.forall_mem_cons.mpr ⟨(matchAt_found hfirst.within hfirst.found).groups, ih⟩

/-- A text has exactly one list of successive matches, and that is what is found. -/
theorem successive_iff (r : Regex) (text : Array Char) (ms : List Match) :
    r.Successive text 0 false ms ↔ ms = r.findAll text := by
  have hfound : r.Successive text 0 false (r.findAll text) :=
    matchesFrom_successive (by simp [room]) (Nat.zero_le _)
  constructor
  · exact fun h => h.unique hfound
  · rintro rfl
    exact hfound

end Curried.Regex
