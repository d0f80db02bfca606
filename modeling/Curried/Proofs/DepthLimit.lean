/-
  Curried.Proofs.DepthLimit — the limit on depth decides whether a run overflows, and nothing else.

  Two runs of one source in one session, under hosts that differ in the depth they allow, go the same way step by step
  until the one that allows less meets its limit. So a run that does not overflow ends in the same way under every
  greater limit, with the same machine (`run_of_greater_limit`), and a run that overflows does so under every smaller
  one. The stack that a run has grows with the limit, so running out of it counts as meeting the limit.
-/

import Curried.Proofs.Depth
import Curried.Proofs.Run

namespace Curried

namespace Session

def withLimit (s : Session) (d : Int) : Session := { s with host := { s.host with maxDepth := d } }

theorem stackSize_le {h h' : Host} (hd : h.maxDepth ≤ h'.maxDepth) : h.stackSize ≤ h'.stackSize := by
  unfold Host.stackSize
  omega

theorem ending_of_overflows {r : EStateM.Result Halt Machine Value} (h : Overflows r) : ending r = .error .exit := by
  cases r with
  | ok v m => cases h
  | error x m =>
    cases x with
    | exit => rfl
    | exhausted => rfl
    | fault f => cases h
    | crash c => cases h

/-- The limit has no part in how a run begins. -/
theorem evaluation_of_greater_limit (s : Session) (source : String) (program : Expr) {d d' : Int} (hd : d ≤ d')
    (h : ending ((s.withLimit d).evaluation source program) ≠ .error .exit) :
    (s.withLimit d').evaluation source program = (s.withLimit d).evaluation source program := by
  have hlimit : (s.withLimit d).host.maxDepth ≤ (s.withLimit d').host.maxDepth := hd
  rcases Depth.evaluate_agrees hlimit ⟨rfl, rfl, rfl⟩ (stackSize_le hlimit) program (s.begun source program).globals
    (s.begun source program) with hover | heq
  · exact absurd (ending_of_overflows hover) h
  · exact heq

/-- Whether a run overflows depends on the limit; how it ends otherwise, and what machine it leaves, do not. -/
theorem run_of_greater_limit (s : Session) (source : String) {d d' : Int} (hd : d ≤ d') :
    (((s.withLimit d).run source).1 ≠ .error .exit →
      ((s.withLimit d').run source).1 = ((s.withLimit d).run source).1 ∧
        ((s.withLimit d').run source).2.machine = ((s.withLimit d).run source).2.machine) ∧
      (((s.withLimit d').run source).1 = .error .exit → ((s.withLimit d).run source).1 = .error .exit) := by
  have same : ((s.withLimit d).run source).1 ≠ .error .exit →
      ((s.withLimit d').run source).1 = ((s.withLimit d).run source).1 ∧
        ((s.withLimit d').run source).2.machine = ((s.withLimit d).run source).2.machine := by
    intro hne
    cases hp : parseWithin s.host.maxNesting source with
    | ok program =>
      rw [run_program (s := s.withLimit d) hp] at hne ⊢
      rw [run_program (s := s.withLimit d') hp, evaluation_of_greater_limit s source program hd hne]
      exact ⟨rfl, rfl⟩
    | error failure =>
      cases failure with
      | lexical e => rw [run_lexical (s := s.withLimit d) hp, run_lexical (s := s.withLimit d') hp]; exact ⟨rfl, rfl⟩
      | grammar e => rw [run_grammar (s := s.withLimit d) hp, run_grammar (s := s.withLimit d') hp]; exact ⟨rfl, rfl⟩
      | nesting p => rw [run_nesting (s := s.withLimit d) hp, run_nesting (s := s.withLimit d') hp]; exact ⟨rfl, rfl⟩
  refine ⟨same, fun hover => ?_⟩
  by_cases hne : ((s.withLimit d).run source).1 = .error .exit
  · exact hne
  · exact (same hne).1 ▸ hover

/-- The item of a list is one level deeper than the list: limit 2 is enough for it, limit 1 is not. -/
theorem run_list_of_greater_limit :
    ((({} : Session).withLimit 2).run "[true]").1 = .ok (.list [.bool true]) ∧
      ((({} : Session).withLimit 3).run "[true]").1 = .ok (.list [.bool true]) ∧
      ((({} : Session).withLimit 1).run "[true]").1 = .error .exit ∧
      ((({} : Session).withLimit 0).run "[true]").1 = .error .exit := by
  have hp : parseWithin ({} : Session).host.maxNesting "[true]" = .ok (.list ⟨1, 1⟩ [.boolean ⟨1, 2⟩ true]) := rfl
  have hfits : ((({} : Session).withLimit 2).run "[true]").1 = .ok (.list [.bool true]) := by
    rw [run_program (s := ({} : Session).withLimit 2) hp, evaluation,
      show (({} : Session).withLimit 2).host.stackSize = 1020 from by decide]
    rfl
  have hover : ((({} : Session).withLimit 1).run "[true]").1 = .error .exit := by
    rw [run_program (s := ({} : Session).withLimit 1) hp, evaluation,
      show (({} : Session).withLimit 1).host.stackSize = 1010 from by decide]
    rfl
  have hmore := (run_of_greater_limit {} "[true]" (show (2 : Int) ≤ 3 by decide)).1 (by rw [hfits]; exact nofun)
  have hless := (run_of_greater_limit {} "[true]" (show (0 : Int) ≤ 1 by decide)).2 hover
  exact ⟨hfits, hmore.1.trans hfits, hover, hless⟩

end Session

end Curried
