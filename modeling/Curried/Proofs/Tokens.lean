/-
  Curried.Proofs.Tokens — how the tokens of a text end.

  The token for the end of input stands at the end and nowhere else.
-/

import Curried.Token.Lexer

namespace Curried.Tokens

theorem scanFrom_ending (fuel : Nat) (c : Cursor) {t : Token} (h : (scanFrom fuel c).ending = .ok t) :
    t.lexeme = .endOfInput := by
  induction fuel generalizing c with
  | zero =>
    cases h
    rfl
  | succ fuel ih =>
    unfold scanFrom at h
    split at h
    · cases h
    · split at h
      · rename_i hend
        cases h
        exact hend
      · exact ih _ h

theorem scanFrom_front (fuel : Nat) (c : Cursor) : ∀ t ∈ (scanFrom fuel c).front, t.lexeme ≠ .endOfInput := by
  induction fuel generalizing c with
  | zero => exact nofun
  | succ fuel ih =>
    unfold scanFrom
    split
    · exact nofun
    · split
      · exact nofun
      · rename_i hend
        exact List.forall_mem_cons.mpr ⟨hend, ih _⟩

theorem scan_ending {source : String} {t : Token} (h : (scan source).ending = .ok t) : t.lexeme = .endOfInput :=
  scanFrom_ending _ _ h

theorem scan_front (source : String) : ∀ t ∈ (scan source).front, t.lexeme ≠ .endOfInput := scanFrom_front _ _

end Curried.Tokens
