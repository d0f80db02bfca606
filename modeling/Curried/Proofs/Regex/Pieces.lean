/-
  Curried.Proofs.Regex.Pieces — splitting a text and replacing in it.

  Both walk the same matches. The pieces around them, put together again with what the matches took, are the
  text; with what the matches become they are what replacing gives. So replacing each match by itself changes
  nothing, and replacing each by the same text joins the pieces with it.

  What a match becomes is said part by part (`Template.Expands`). A replacement that can be read refers to no group that
  a match lacks, so every match becomes something (`exists_substitute`).
-/

import Curried.Proofs.Regex.Templates

namespace Curried.Regex

/-- Pieces with seams between them, in turn. -/
def interleave : List String → List String → String
  | [], _ => ""
  | p :: _, [] => p
  | p :: ps, e :: es => p ++ e ++ interleave ps es

def Match.taken (text : Array Char) (m : Match) : String := slice text m.start m.stop

/-- What the parts of a replacement become in a match: literal text stays as it is, and a group becomes what it has
taken, or nothing if it took no part. -/
inductive Template.Expands (text : Array Char) (m : Match) : List Part → String → Prop
  | nil : Expands text m [] ""
  | literal {s e : String} {parts : List Part} : Expands text m parts e → Expands text m (.text s :: parts) (s ++ e)
  | whole {e : String} {parts : List Part} : Expands text m parts e →
      Expands text m (.group 0 :: parts) (slice text m.start m.stop ++ e)
  | taken {k i j : Nat} {e : String} {parts : List Part} : m.groups[k]? = some (some (i, j)) → Expands text m parts e →
      Expands text m (.group (k + 1) :: parts) (slice text i j ++ e)
  | absent {k : Nat} {e : String} {parts : List Part} : m.groups[k]? = some none → Expands text m parts e →
      Expands text m (.group (k + 1) :: parts) e

def Template.literal? : List Part → Option String
  | [] => some ""
  | .text s :: parts => (literal? parts).map (s ++ ·)
  | .group _ :: _ => none

/-! ## Parts of the text -/

section Slices

variable (text : Array Char)

theorem slice_append {i j k : Nat} (hij : i ≤ j) (hjk : j ≤ k) : slice text i j ++ slice text j k = slice text i k := by
  simp only [slice, ← String.ofList_append, ← Array.toList_append, Array.extract_append_extract]
  rw [Nat.min_eq_left hij, Nat.max_eq_right hjk]

theorem length_slice {i j : Nat} (hj : j ≤ text.size) : (slice text i j).length = j - i := by
  simp only [slice, String.length_ofList, Array.length_toList, Array.size_extract]
  omega

theorem slice_all (s : String) : slice s.toList.toArray 0 s.toList.toArray.size = s := by
  simp [slice]

end Slices

/-! ## Pieces around matches -/

section Pieces

variable {r : Regex} {text : Array Char} {start : Nat} {advance : Bool} {ms : List Match}

theorem length_piecesFrom (text : Array Char) (start : Nat) (ms : List Match) :
    (piecesFrom text start ms).length = ms.length + 1 := by
  induction ms generalizing start with
  | nil => rfl
  | cons m ms ih => simp [piecesFrom, ih]

/-- Nothing is lost: the pieces and what the matches take are the text. -/
theorem Successive.interleave_taken (h : r.Successive text start advance ms) (hstart : start ≤ text.size) :
    interleave (piecesFrom text start ms) (ms.map (Match.taken text)) = slice text start text.size := by
  induction h with
  | done => rfl
  | @next start advance m ms hfirst hrest ih =>
    obtain ⟨hle, hsize, -⟩ := hfirst.bounds
    calc slice text start m.start ++ slice text m.start m.stop ++ _
        = slice text start m.stop ++ slice text m.stop text.size := by
          rw [slice_append text hfirst.after hle, ih hsize]
      _ = slice text start text.size := slice_append text (Nat.le_trans hfirst.after hle) hsize

/-- What stands before a match, pieces and matches, ends where the match begins. -/
theorem Successive.length_before (h : r.Successive text start advance ms) (hstart : start ≤ text.size) {k : Nat}
    {m : Match} (hm : ms[k]? = some m) :
    start + (interleave ((piecesFrom text start ms).take (k + 1)) ((ms.map (Match.taken text)).take k)).length =
      m.start := by
  induction h generalizing k with
  | done => cases hm
  | @next start advance m₀ ms hfirst hrest ih =>
    obtain ⟨hle, hsize, -⟩ := hfirst.bounds
    have hafter := hfirst.after
    have hpiece := length_slice text (i := start) hfirst.within
    cases k with
    | zero =>
      cases hm
      simp only [piecesFrom, List.take_succ_cons, List.take_zero, interleave, hpiece]
      omega
    | succ k =>
      have htaken : (m₀.taken text).length = m₀.stop - m₀.start := length_slice text hsize
      have hrest := ih hsize hm
      simp only [piecesFrom, List.map_cons, List.take_succ_cons, interleave, String.length_append, hpiece, htaken]
      omega

/-- The pieces with what the matches become between them. -/
theorem join_replacedFrom {expand : Match → Except Crash String} {es : List String}
    (h : List.Forall₂ (fun m e => expand m = .ok e) ms es) (start : Nat) :
    (replacedFrom text expand start ms).map String.join = .ok (interleave (piecesFrom text start ms) es) := by
  induction h generalizing start with
  | nil => simp [replacedFrom, piecesFrom, interleave, Except.map]
  | @cons m e ms es he _ ih =>
    have hrest := ih m.stop
    cases hr : replacedFrom text expand m.stop ms with
    | error c =>
      rw [hr] at hrest
      cases hrest
    | ok rest =>
      rw [hr] at hrest
      simp only [Except.map, Except.ok.injEq] at hrest
      simp [replacedFrom, piecesFrom, interleave, he, hr, ← hrest, Except.map, bind, Except.bind, pure, Except.pure,
        String.append_assoc]

theorem interleave_constant (text : Array Char) (t : String) (start : Nat) (ms : List Match) :
    interleave (piecesFrom text start ms) (ms.map fun _ => t) = String.intercalate t (piecesFrom text start ms) := by
  induction ms generalizing start with
  | nil => simp [piecesFrom, interleave]
  | cons m ms ih =>
    have hne : piecesFrom text m.stop ms ≠ [] := List.ne_nil_of_length_eq_add_one (length_piecesFrom text m.stop ms)
    simp only [piecesFrom, List.map_cons, interleave, ih]
    rw [String.intercalate_cons_of_ne_nil hne]

end Pieces

/-! ## Replacements -/

theorem exists_forall₂ {α β : Type} {rel : α → β → Prop} {xs : List α} (h : ∀ x ∈ xs, ∃ y, rel x y) :
    ∃ ys, List.Forall₂ rel xs ys := by
  induction xs with
  | nil => exact ⟨[], .nil⟩
  | cons x xs ih =>
    obtain ⟨y, hy⟩ := h x List.mem_cons_self
    obtain ⟨ys, hys⟩ := ih fun x' hx' => h x' (List.mem_cons_of_mem _ hx')
    exact ⟨y :: ys, .cons hy hys⟩

theorem eq_map_of_forall₂ {α β : Type} {f : α → β} {xs : List α} {ys : List β}
    (h : List.Forall₂ (fun x y => y = f x) xs ys) : ys = xs.map f := by
  induction h with
  | nil => rfl
  | cons hd _ ih => rw [hd, ih, List.map_cons]

theorem Template.read_whole (p : Program) : Template.read p "$0" = .ok [.group 0] := by
  have hdigit : asciiDigit? '0' = some 0 := rfl
  have hchars : "$0".toList = ['$', '0'] := rfl
  simp [Template.read, hchars, readFrom, reference, hdigit, growIndex, flush]

/-- Every part becomes something if the match has the groups that are referred to. -/
theorem Template.exists_expands (text : Array Char) (m : Match) {parts : List Part}
    (h : ∀ index, .group index ∈ parts → index ≤ m.groups.length) :
    ∃ e, expand text parts m = .ok e ∧ Expands text m parts e := by
  induction parts with
  | nil => exact ⟨"", rfl, .nil⟩
  | cons part parts ih =>
    obtain ⟨e, he, hexpands⟩ := ih fun index hindex => h index (List.mem_cons_of_mem _ hindex)
    have step : ∀ {s : String}, expandPart text m part = .ok s → expand text (part :: parts) m = .ok (s ++ e) := by
      intro s hs
      cases hmap : parts.mapM (expandPart text m) with
      | error c => simp [expand, hmap, Except.map] at he
      | ok es =>
        simp only [expand, hmap, Except.map, Except.ok.injEq] at he
        simp [expand, List.mapM_cons, hs, hmap, ← he, Except.map, bind, Except.bind, pure, Except.pure]
    cases part with
    | text s => exact ⟨s ++ e, step rfl, .literal hexpands⟩
    | group index =>
      cases index with
      | zero => exact ⟨_, step rfl, .whole hexpands⟩
      | succ k =>
        have hk : k < m.groups.length := h (k + 1) List.mem_cons_self
        cases hspan : m.groups.get ⟨k, hk⟩ with
        | none =>
          have hget : m.groups[k]? = some none := List.getElem?_eq_some_iff.mpr ⟨hk, hspan⟩
          refine ⟨"" ++ e, step ?_, ?_⟩
          · simp [expandPart, Match.group, hget, bind, Except.bind, pure, Except.pure]
          · rw [String.empty_append]
            exact .absent hget hexpands
        | some span =>
          have hget : m.groups[k]? = some (some span) := List.getElem?_eq_some_iff.mpr ⟨hk, hspan⟩
          refine ⟨_, step ?_, .taken hget hexpands⟩
          simp [expandPart, Match.group, hget, bind, Except.bind, pure, Except.pure]

theorem Template.Expands.eq_taken {text : Array Char} {m : Match} {e : String} (h : Expands text m [.group 0] e) :
    e = m.taken text := by
  cases h with
  | whole hrest =>
    cases hrest
    exact String.append_empty

theorem Template.Expands.eq_literal {text : Array Char} {m : Match} {parts : List Part} {e t : String}
    (h : Expands text m parts e) (ht : literal? parts = some t) : e = t := by
  induction h generalizing t with
  | nil =>
    cases ht
    rfl
  | literal _ ih =>
    obtain ⟨rest, hrest, rfl⟩ := Option.map_eq_some_iff.mp ht
    rw [ih hrest]
  | whole | taken | absent => cases ht

/-- Replacing gives the pieces with what the matches become between them. -/
theorem exists_substitute {r : Regex} {template : String} {parts : List Part}
    (hparts : Template.read r.program template = .ok parts) (s : String) :
    ∃ es, List.Forall₂ (fun m e => Template.Expands s.toList.toArray m parts e) (r.findAll s.toList.toArray) es ∧
      r.substitute parts s = .ok (interleave (r.split s) es) := by
  have hfound : ∀ m ∈ r.findAll s.toList.toArray, ∃ e, Template.expand s.toList.toArray parts m = .ok e ∧
      Template.Expands s.toList.toArray m parts e :=
    fun m hm => Template.exists_expands _ m (Template.le_groups_of_read hparts hm)
  obtain ⟨es, hes⟩ := exists_forall₂ hfound
  exact ⟨es, hes.imp fun _ _ h => h.2, join_replacedFrom (hes.imp fun _ _ h => h.1) 0⟩

end Curried.Regex

namespace Curried

open Regex

theorem Library.replace_of_read {r : Regex} {s template t : String} {parts : List Part}
    (h : Template.read r.program template = .ok parts) (ht : r.substitute parts s = .ok t) :
    replace (.regex r) (.string s) (.string template) = .ok (.string t) := by
  rw [replace_eq, h]
  show (Fault.attempt (r.substitute parts s)).map Value.string = _
  rw [ht]
  rfl

theorem eq_ok_of_toOption {ε α : Type} {x : Except ε α} {a : α} (h : x.toOption = some a) : x = .ok a := by
  cases x with
  | error e => cases h
  | ok b => cases h; rfl

theorem Value.renderAll_strings (pieces before : List String) :
    Value.renderAll (pieces.map .string) before = .ok (before.reverse ++ pieces) := by
  induction pieces generalizing before with
  | nil => simp [renderAll]
  | cons p ps ih => simp [renderAll, render, ih]

theorem Library.join_strings (pieces : List String) (t : String) :
    join (.list (pieces.map .string)) (.string t) = .ok (.string (String.intercalate t pieces)) := by
  have hjoin : join (.list (pieces.map .string)) (.string t) =
      (Value.renderAll (pieces.map .string) []).bind fun texts => .ok (.string (String.intercalate t texts)) := rfl
  rw [hjoin, Value.renderAll_strings]
  rfl

/-- Splitting loses nothing, and replacing puts what the matches become between the same pieces. -/
theorem split_and_replace_agree (r : Regex) (s template : String) (parts : List Part)
    (hparts : Template.read r.program template = .ok parts) :
    let text := s.toList.toArray
    ∃ (found : List Match) (pieces expansions : List String),
      (∀ ms, r.Successive text 0 false ms ↔ ms = found) ∧
      Library.split (.regex r) (.string s) = .ok (.list (pieces.map .string)) ∧
      pieces.length = found.length + 1 ∧
      interleave pieces (found.map (Match.taken text)) = s ∧
      (∀ k m, found[k]? = some m →
        (interleave (pieces.take (k + 1)) ((found.map (Match.taken text)).take k)).length = m.start) ∧
      List.Forall₂ (fun m e => Template.Expands text m parts e) found expansions ∧
      Library.replace (.regex r) (.string s) (.string template) = .ok (.string (interleave pieces expansions)) ∧
      Library.replace (.regex r) (.string s) (.string "$0") = .ok (.string s) ∧
      ∀ t, Template.literal? parts = some t →
        Library.replace (.regex r) (.string s) (.string template) =
          (Library.split (.regex r) (.string s)).bind fun list => Library.join list (.string t) := by
  intro text
  have hfound : r.Successive text 0 false (r.findAll text) := (successive_iff r text _).mpr rfl
  have hwhole : interleave (r.split s) ((r.findAll text).map (Match.taken text)) = s :=
    (hfound.interleave_taken (Nat.zero_le _)).trans (slice_all s)
  have hsplit : Library.split (.regex r) (.string s) = .ok (.list ((r.split s).map .string)) := rfl
  obtain ⟨es, hes, hsubstitute⟩ := exists_substitute hparts s
  have hreplace := Library.replace_of_read hparts hsubstitute
  refine ⟨r.findAll text, r.split s, es, successive_iff r text, hsplit, length_piecesFrom _ _ _, hwhole, ?_, hes,
    hreplace, ?_, ?_⟩
  · intro k m hm
    have hbefore := hfound.length_before (Nat.zero_le _) hm
    rwa [Nat.zero_add] at hbefore
  · have hread := Template.read_whole r.program
    obtain ⟨taken, htaken, hself⟩ := exists_substitute hread s
    have hsame : taken = (r.findAll text).map (Match.taken text) := eq_map_of_forall₂ (htaken.imp fun _ _ h => h.eq_taken)
    rw [Library.replace_of_read hread hself, hsame, hwhole]
  · intro t ht
    have hconstant : es = (r.findAll text).map fun _ => t := eq_map_of_forall₂ (hes.imp fun _ _ h => h.eq_literal ht)
    have hjoined : interleave (r.split s) ((r.findAll text).map fun _ => t) = String.intercalate t (r.split s) :=
      interleave_constant text t 0 (r.findAll text)
    rw [hreplace, hsplit, hconstant, hjoined]
    exact (Library.join_strings _ t).symm

/-- A regex with a group that may take no part, and with empty matches. -/
theorem split_and_replace_agree_digits :
    ∃ r, Regex.compile "([0-9])|(a)?" = .ok r ∧ Template.read r.program "<$2>" = .ok [.text "<", .group 2, .text ">"] ∧
      ∃ (found : List Match) (pieces expansions : List String),
        (∀ ms, r.Successive "x1ay".toList.toArray 0 false ms ↔ ms = found) ∧
        Library.split (.regex r) (.string "x1ay") = .ok (.list (pieces.map .string)) ∧
        pieces.length = found.length + 1 ∧
        List.Forall₂ (fun m e => Template.Expands "x1ay".toList.toArray m [.text "<", .group 2, .text ">"] e) found
          expansions ∧
        interleave pieces expansions = "<>x<><a><>y<>" ∧
        Library.replace (.regex r) (.string "x1ay") (.string "<$2>") = .ok (.string "<>x<><a><>y<>") := by
  have hcompiles : Regex.compiles "([0-9])|(a)?" (fun r =>
      (Template.read r.program "<$2>").toOption == some [.text "<", .group 2, .text ">"] &&
        (r.substitute [.text "<", .group 2, .text ">"] "x1ay").toOption == some "<>x<><a><>y<>") = true := by
    decide +kernel
  obtain ⟨r, hr, htest⟩ := Regex.of_compiles hcompiles
  obtain ⟨hread, hsubstitute⟩ := Bool.and_eq_true_iff.mp htest
  have hparts : Template.read r.program "<$2>" = .ok [.text "<", .group 2, .text ">"] :=
    eq_ok_of_toOption (beq_iff_eq.mp hread)
  have htext := Library.replace_of_read hparts (eq_ok_of_toOption (beq_iff_eq.mp hsubstitute))
  obtain ⟨found, pieces, expansions, hfound, hsplit, hlength, -, -, hexpands, hreplace, -⟩ :=
    split_and_replace_agree r "x1ay" "<$2>" _ hparts
  have hjoined : interleave pieces expansions = "<>x<><a><>y<>" := by
    rw [hreplace] at htext
    simpa using htext
  exact ⟨r, hr, hparts, found, pieces, expansions, hfound, hsplit, hlength, hexpands, hjoined, htext⟩

end Curried
