/-
  Curried.Proofs.Regex.Groups — a named group of a regex is one of its groups.

  Reading gives a name to a group only where it opens the group, with the number the group gets; nothing else
  touches the names or the number of groups. That a computation keeps the names below the number of groups
  follows from its parts, so the lemma of each function is closed by those of the functions it is made of.
-/

import Curried.Regex

namespace Curried.Regex.Reader

@[grind] def Sound (r : Reading) : Prop := ∀ named ∈ r.names, named.2 < r.groups

def Keeps {α : Type} (m : Reader α) : Prop := ∀ r a r', Sound r → m r = .ok (a, r') → Sound r'

/-! ## Computations -/

@[grind ←] theorem Keeps.pure {α : Type} (a : α) : Keeps (Pure.pure a : Reader α) := by
  intro r b r' hr h
  cases h
  exact hr

@[grind ←] theorem Keeps.bind {α β : Type} {m : Reader α} {f : α → Reader β} (hm : Keeps m)
    (hf : ∀ a, Keeps (f a)) : Keeps (m >>= f) := by
  intro r b r' hr h
  have hbind : (m >>= f) r = (m r).bind fun p => f p.1 p.2 := rfl
  rw [hbind] at h
  cases hmr : m r with
  | error e =>
    rw [hmr] at h
    cases h
  | ok p =>
    rw [hmr] at h
    exact hf p.1 p.2 b r' (hm r p.1 p.2 hr hmr) h

@[grind ←] theorem Keeps.throw {α : Type} (e : Failure) : Keeps (MonadExcept.throw e : Reader α) := by
  intro r b r' _ h
  cases h

@[grind ←] theorem Keeps.get : Keeps (MonadState.get : Reader Reading) := by
  intro r b r' hr h
  cases h
  exact hr

@[grind ←] theorem Keeps.modify {f : Reading → Reading} (h : ∀ r, Sound r → Sound (f r)) :
    Keeps (modify f : Reader Unit) := by
  intro r b r' hr hm
  cases hm
  exact h r hr

/-! ## Units -/

@[grind ←] theorem fail_keeps {α : Type} (cause : Cause) (position : Nat) :
    Keeps (fail cause position : Reader α) := by
  grind [fail]

@[grind ←] theorem here_keeps : Keeps here := by
  grind [here]

@[grind ←] theorem failBack_keeps {α : Type} (cause : Cause) (back : Nat) :
    Keeps (failBack cause back : Reader α) := by
  grind [failBack]

@[grind ←] theorem peek_keeps : Keeps peek := by
  grind [peek]

@[grind ←] theorem checkNext_keeps : Keeps checkNext := by
  grind [checkNext]

@[grind ←] theorem take_keeps : Keeps take := by
  grind [take]

@[grind ←] theorem accept_keeps (c : Char) : Keeps (accept c) := by
  grind [accept]

@[grind ←] theorem sees_keeps (c : Char) : Keeps (sees c) := by
  grind [sees]

@[grind ←] theorem seek_keeps (position : Nat) : Keeps (seek position) := by
  grind [seek]

@[grind ←] theorem takeWhile_keeps (p : Char → Bool) (n : Nat) : Keeps (takeWhile p n) := by
  induction n with grind [takeWhile]

@[grind ←] theorem remaining_keeps : Keeps remaining := by
  grind [remaining]

@[grind ←] theorem nameUntil_keeps (close : Char) (fuel : Nat) (name : List Char) :
    Keeps (nameUntil close fuel name) := by
  induction fuel generalizing name with grind [nameUntil]

@[grind ←] theorem nameBefore_keeps (close : Char) (what : String) : Keeps (nameBefore close what) := by
  grind [nameBefore]

/-! ## Groups -/

@[grind ←] theorem widthOf_keeps (index : Nat) : Keeps (widthOf? index) := by
  grind [widthOf?]

/-- The one place where the names and the number of groups change. -/
@[grind ←] theorem openGroup_keeps (name : Option (List Char)) : Keeps (openGroup name) := by
  intro r index r' hr h
  cases name with
  | none =>
    cases h
    intro named hnamed
    exact Nat.lt_succ_of_lt (hr named hnamed)
  | some cs =>
    simp only [openGroup, bind, StateT.bind, Except.bind, get, getThe, MonadStateOf.get, StateT.get, pure,
      Except.pure] at h
    cases hfind : r.names.find? (·.1 == String.ofList cs) with
    | some earlier =>
      rw [hfind] at h
      cases h
    | none =>
      rw [hfind] at h
      cases h
      intro named hnamed
      rcases List.mem_append.mp hnamed with hearlier | hnew
      · exact Nat.lt_succ_of_lt (hr named hearlier)
      · rw [List.mem_singleton.mp hnew]
        exact Nat.lt_succ_self _

@[grind ←] theorem closeGroup_keeps (index : Nat) (w : Width) : Keeps (closeGroup index w) := by
  grind [closeGroup]

@[grind ←] theorem checkBehind_keeps (index : Nat) : Keeps (checkBehind index) := by
  grind [checkBehind]

@[grind ←] theorem checkGroupName_keeps (name : List Char) : Keeps (checkGroupName name) := by
  grind [checkGroupName]

@[grind ←] theorem groupNamed_keeps (name : List Char) : Keeps (groupNamed name) := by
  grind [groupNamed]

@[grind ←] theorem referTo_keeps (index : Nat) (f : Flags) (w : Width) : Keeps (referTo index f w) := by
  grind [referTo]

/-! ## Escapes -/

@[grind ←] theorem hexEscape_keeps (letter : Char) (n : Nat) : Keeps (hexEscape letter n) := by
  grind [hexEscape]

@[grind ←] theorem badEscape_keeps {α : Type} (text : List Char) : Keeps (badEscape text : Reader α) := by
  grind [badEscape]

@[grind ←] theorem namedEscape_keeps : Keeps namedEscape := by
  grind [namedEscape]

@[grind ←] theorem codeEscape_keeps (c : Char) : Keeps (codeEscape? c) := by
  unfold codeEscape?
  split <;> grind

@[grind ←] theorem checkOctal_keeps (text : List Char) : Keeps (checkOctal text) := by
  grind [checkOctal]

@[grind ←] theorem setEscape_keeps (c : Char) : Keeps (setEscape c) := by
  grind [setEscape]

@[grind ←] theorem numberEscape_keeps (f : Flags) (c : Char) : Keeps (numberEscape f c) := by
  grind [numberEscape]

@[grind ←] theorem escape_keeps (f : Flags) (c : Char) : Keeps (escape f c) := by
  grind [escape]

/-! ## Sets and repetitions -/

@[grind ←] theorem setMember_keeps (u : Piece) : Keeps (setMember u) := by
  cases u with grind [setMember]

@[grind ←] theorem badRange_keeps {α : Type} (low high : Piece) : Keeps (badRange low high : Reader α) := by
  grind [badRange]

@[grind ←] theorem setItems_keeps (start fuel : Nat) (items : List SetItem) : Keeps (setItems start fuel items) := by
  induction fuel generalizing items with
  | zero => exact .pure items
  | succ fuel ih =>
    refine .bind take_keeps fun u => ?_
    cases u with
    | none => exact fail_keeps _ _
    | some low =>
      dsimp only
      split
      · exact .pure items
      · exact .bind (setMember_keeps low) fun item => .bind (accept_keeps '-') fun _ => by grind

@[grind ←] theorem set_keeps (f : Flags) (start : Nat) : Keeps (set f start) := by
  grind [set]

@[grind ←] theorem readCount_keeps (digits : List Char) : Keeps (readCount digits) := by
  grind [readCount]

@[grind ←] theorem counts_keeps (sign : Char) (start : Nat) : Keeps (counts sign start) := by
  unfold counts
  split
  · exact .pure _
  · exact .pure _
  · exact .pure _
  · refine .bind (sees_keeps _) fun closed => ?_
    split
    · exact .pure none
    · exact .bind remaining_keeps fun n => .bind (takeWhile_keeps _ n) fun low =>
        .bind (accept_keeps ',') fun _ => by grind

@[grind ←] theorem repeatLast_keeps (items : List Pattern) (start least : Nat) (most : Option Nat) :
    Keeps (repeatLast items start least most) := by
  unfold repeatLast
  split <;> grind

/-! ## Flags -/

@[grind ←] theorem badFlag_keeps {α : Type} (u : Piece) (otherwise : Cause) :
    Keeps (badFlag u otherwise : Reader α) := by
  cases u with grind [badFlag]

@[grind ←] theorem flagsOn_keeps (fuel : Nat) (on : Flags) (c : Char) : Keeps (flagsOn fuel on c) := by
  induction fuel generalizing on c with grind [flagsOn]

@[grind ←] theorem flagsOff_keeps (fuel : Nat) (off : Flags) (c : Char) : Keeps (flagsOff fuel off c) := by
  induction fuel generalizing off c with grind [flagsOff]

@[grind ←] theorem flagsOffStart_keeps : Keeps flagsOffStart := by
  grind [flagsOffStart]

@[grind ←] theorem groupFlags_keeps (c : Char) : Keeps (groupFlags c) := by
  grind [groupFlags]

/-! ## Expressions -/

@[grind ←] theorem closeParen_keeps (start : Nat) : Keeps (closeParen start) := by
  grind [closeParen]

@[grind ←] theorem skipComment_keeps (start fuel : Nat) : Keeps (skipComment start fuel) := by
  induction fuel with grind [skipComment]

@[grind ←] theorem skipLine_keeps (fuel : Nat) : Keeps (skipLine fuel) := by
  induction fuel with grind [skipLine]

@[grind ←] theorem condition_keeps : Keeps condition := by
  refine .bind (nameBefore_keeps _ _) fun name => ?_
  dsimp only
  split
  · grind
  · split <;> grind

@[grind] structure Inside.Keeps (inside : Inside) : Prop where
  alternatives : ∀ f, Reader.Keeps (inside.alternatives f)
  branch : ∀ f, Reader.Keeps (inside.branch f)

section Inside

variable {inside : Inside} (hinside : inside.Keeps)
include hinside

@[grind ←] theorem enclosed_keeps (f : Flags) (start : Nat) : Keeps (enclosed inside f start) := by
  grind [enclosed]

@[grind ←] theorem capture_keeps (f : Flags) (start : Nat) (name : Option (List Char)) :
    Keeps (capture inside f start name) := by
  grind [capture]

@[grind ←] theorem lookBehind_keeps (f : Flags) (start : Nat) (negated : Bool) :
    Keeps (lookBehind inside f start negated) := by
  grind [lookBehind]

@[grind ←] theorem conditional_keeps (f : Flags) (start : Nat) : Keeps (conditional inside f start) := by
  grind [conditional]

@[grind ←] theorem namedGroup_keeps (f : Flags) (start : Nat) : Keeps (namedGroup inside f start) := by
  refine .bind (accept_keeps '<') fun named => ?_
  split <;> grind

@[grind ←] theorem behindGroup_keeps (f : Flags) (start : Nat) : Keeps (behindGroup inside f start) := by
  grind [behindGroup]

@[grind ←] theorem flaggedGroup_keeps (f : Flags) (start : Nat) (leading : Bool) (c : Char) :
    Keeps (flaggedGroup inside f start leading c) := by
  grind [flaggedGroup]

@[grind ←] theorem group_keeps (f : Flags) (start : Nat) (leading : Bool) :
    Keeps (group inside f start leading) := by
  grind [group]

@[grind ←] theorem item_keeps (f : Flags) (leading : Bool) (items : List Pattern) (u : Piece) :
    Keeps (item inside f leading items u) := by
  unfold item
  split <;> grind

@[grind ←] theorem items_keeps (outermost first : Bool) (fuel : Nat) (f : Flags) (read : List Pattern) :
    Keeps (items inside outermost first fuel f read) := by
  induction fuel generalizing f read with
  | zero => exact .pure read
  | succ fuel ih =>
    refine .bind peek_keeps fun u => ?_
    cases u with
    | none => exact .pure read
    | some u =>
      dsimp only
      split
      · exact .pure read
      · refine .bind take_keeps fun _ => ?_
        split <;> grind

@[grind ←] theorem alternative_keeps (outermost first : Bool) (f : Flags) :
    Keeps (alternative inside outermost first f) := by
  grind [alternative]

@[grind ←] theorem moreAlternatives_keeps (outermost : Bool) (fuel : Nat) (f : Flags) (p : Pattern) :
    Keeps (moreAlternatives inside outermost fuel f p) := by
  induction fuel generalizing f p with grind [moreAlternatives]

theorem alternatives_keeps (outermost : Bool) (f : Flags) : Keeps (alternatives inside outermost f) := by
  grind [alternatives]

end Inside

theorem insideWithin_keeps (depth : Nat) : (insideWithin depth).Keeps := by
  induction depth with
  | zero => exact ⟨fun _ => failBack_keeps _ _, fun _ => failBack_keeps _ _⟩
  | succ depth ih => exact ⟨alternatives_keeps ih false, alternative_keeps ih false false⟩

theorem whole_keeps : Keeps whole := by
  refine .bind checkNext_keeps fun _ => .bind remaining_keeps fun n => ?_
  exact .bind (alternatives_keeps (insideWithin_keeps _) true _) fun p => by grind

end Curried.Regex.Reader

namespace Curried.Regex

/-- Every name of a regex stands for one of its groups. -/
theorem named_le_groups (r : Regex) : ∀ named ∈ r.program.names, named.2 ≤ r.program.groups := by
  have hread := r.read
  unfold Program.read at hread
  dsimp only at hread
  cases hwhole : Reader.whole ⟨r.source.toList, r.source.toList, 0, {}, 1, [], [], none, []⟩ with
  | error e =>
    rw [hwhole] at hread
    cases hread
  | ok result =>
    obtain ⟨body, reading⟩ := result
    have hsound : Reader.Sound reading := Reader.whole_keeps _ body reading (fun _ h => by cases h) hwhole
    simp only [hwhole, bind, Except.bind] at hread
    split at hread
    · cases hread
    · rw [← Except.ok.inj hread]
      intro named hnamed
      exact Nat.le_sub_one_of_lt (hsound named hnamed)

end Curried.Regex
