/-
  Curried.Proofs.Likeness.Library — the builtins that apply nothing give answers that are alike.

  Most builtins compute their answer from their arguments alone (`Builtin.isPure`); `run_answers` collects what is shown
  of each of them. The others apply functions, use the machine or can crash.
-/

import Curried.Library.Apply
import Curried.Proofs.Likeness
import Curried.Proofs.Regex.Pieces

namespace Curried

def Builtin.isPure : Builtin → Bool
  | .compose | .map | .foldl | .foldr | .filter | .reduce | .zip | .zipWith => false
  | .global | .print | .read | .regex => false
  | _ => true

namespace Likeness

open Library

variable {L : Likeness}

theorem forall₂_zip {α β γ δ : Type} {rel : α → β → Prop} {rel' : γ → δ → Prop} {as : List α} {bs : List β}
    (h : List.Forall₂ rel as bs) : ∀ {cs : List γ} {ds : List δ}, List.Forall₂ rel' cs ds →
    List.Forall₂ (fun p q => rel p.1 q.1 ∧ rel' p.2 q.2) (as.zip cs) (bs.zip ds) := by
  induction h with
  | nil => intro cs ds _; simp
  | cons hd _ ih =>
    intro cs ds h'
    cases h' with
    | nil => simp
    | cons hd' h' => exact .cons ⟨hd, hd'⟩ (ih h')

variable {a a' b b' c c' : Value} (ha : L.Values a a') (hb : L.Values b b') (hc : L.Values c c')
include ha

theorem toNum_answers : Answers (L.Values) (toNum a) (toNum a') := by
  have htext := ha.asString "toNum" rfl
  cases ha with
  | number x => exact .ok (.number x)
  | _ =>
    refine htext.bind_eq fun text => ?_
    cases Decimal.readNumber? text.toList with
    | some x => exact .ok (.number x)
    | none => exact .fault rfl

theorem head_answers : Answers (L.Values) (head a) (head a') := by
  refine (ha.asList "head" rfl).bind fun vs vs' h => ?_
  cases h with
  | nil => exact .fault rfl
  | cons h _ =>
    -- a list that is not empty has a first element
    exact .ok h

theorem tail_answers : Answers (L.Values) (tail a) (tail a') :=
  (ha.asList "tail" rfl).bind fun _ _ h => .ok (.list (List.forall₂_drop 1 h))

theorem len_answers : Answers (L.Values) (len a) (len a') :=
  (ha.asList "len" rfl).bind fun _ _ h => by rw [h.length_eq]; exact .ok (.number _)

theorem reverse_answers : Answers (L.Values) (reverse a) (reverse a') :=
  (ha.asList "reverse" rfl).bind fun _ _ h => .ok (.list (List.rel_reverse h))

theorem sortable_answers : Answers Eq (sortable a) (sortable a') := by
  have other : Answers (@Eq Float) (a.kind >>= fun k => throw (.of (.unsortable k)))
      (a'.kind >>= fun k => throw (.of (.unsortable k))) := ha.kind.bind_eq fun _ => .fault rfl
  cases ha with
  | number x => exact .ok rfl
  | _ => exact other

theorem sort_answers : Answers (L.Values) (sort a) (sort a') := by
  refine (ha.asList "sort" rfl).bind fun vs vs' h => ?_
  refine (Answers.mapM (fun _ _ hv => sortable_answers hv) h).bind fun xs ys hxy => ?_
  have e : xs = ys := List.forall₂_eq_eq_eq ▸ hxy
  subst e
  refine .ok (.list ?_)
  rw [List.forall₂_map_left_iff, List.forall₂_map_right_iff]
  exact List.forall₂_same.mpr fun x _ => .number x

theorem asCount_answers (name : String) (hname : Catalogue.standard.isRegistered name = true) :
    Answers Eq (asCount name a) (asCount name a') := by
  refine (ha.asIndex name hname).bind_eq fun n => ?_
  cases n
  · exact .ok rfl
  · exact .fault hname

include hb

theorem binaryNumber_answers (name : String) (f : Float → Float → Float)
    (hname : Catalogue.standard.isRegistered name = true) :
    Answers (L.Values) (binaryNumber name f a b) (binaryNumber name f a' b') :=
  (ha.asNumber name hname).bind_eq fun x => (hb.asNumber name hname).bind_eq fun y => .ok (.number (f x y))

/-- There is a quotient wherever the divisor is not zero. -/
theorem div_answers : Answers (L.Values) (div a b) (div a' b') := by
  refine (ha.asNumber "div" rfl).bind_eq fun x => (hb.asNumber "div" rfl).bind_eq fun y => ?_
  cases hy : y == 0 with
  | true =>
    rw [if_pos rfl]
    split
    · exact .ok (.number _)
    · exact .ok (.number _)
  | false =>
    rw [if_neg Bool.false_ne_true, Number.divide_eq_ok x hy]
    exact .ok (.number _)

/-- There is a remainder wherever the divisor is not zero and the other number is finite or NaN. -/
theorem mod_answers : Answers (L.Values) (mod a b) (mod a' b') := by
  refine (ha.asNumber "mod" rfl).bind_eq fun x => (hb.asNumber "mod" rfl).bind_eq fun y => ?_
  cases hguard : y == 0 || x.isInf with
  | true => exact .ok (.number _)
  | false =>
    obtain ⟨hy, hx⟩ := Bool.or_eq_false_iff.mp hguard
    obtain ⟨z, hz⟩ := Number.exists_remainder hy hx
    rw [if_neg Bool.false_ne_true, hz]
    exact .ok (.number z)

theorem compareNumbers_answers (name : String) (f : Float → Float → Bool)
    (hname : Catalogue.standard.isRegistered name = true) :
    Answers (L.Values) (compareNumbers name f a b) (compareNumbers name f a' b') :=
  (ha.asNumber name hname).bind_eq fun x => (hb.asNumber name hname).bind_eq fun y => .ok (.bool (f x y))

theorem equal_answers (f : Bool → Bool) :
    Answers (L.Values) ((a.equals b).map fun same => .bool (f same)) ((a'.equals b').map fun same => .bool (f same)) :=
  (ha.equals hb).map fun _ _ e => e ▸ .bool _

theorem nth_answers : Answers (L.Values) (nth a b) (nth a' b') := by
  refine (ha.asIndex "nth" rfl).bind_eq fun i => (hb.asList "nth" rfl).bind fun vs vs' h => ?_
  have hat := rel_getElem? h i.toNat
  rw [h.length_eq]
  split
  · rename_i hguard
    simp only [Bool.and_eq_true, decide_eq_true_eq] at hguard
    obtain ⟨hi, hlt⟩ := hguard
    have hget : vs'[i.toNat]? = some vs'[i.toNat] := List.getElem?_eq_getElem (by omega)
    rw [hget] at hat
    cases hv : vs[i.toNat]? with
    | none =>
      rw [hv] at hat
      cases hat
    | some v =>
      rw [hv] at hat
      cases hat with
      | some hat =>
        rw [itemAt_of_getElem? hi hv, itemAt_of_getElem? hi hget]
        exact .ok hat
  · exact .fault rfl

theorem plus_answers : Answers (L.Values) (plus a b) (plus a' b') :=
  (ha.asList "plus" rfl).bind fun _ _ h => .ok (.list (List.rel_append h (.cons hb .nil)))

theorem drop_answers : Answers (L.Values) (drop a b) (drop a' b') :=
  (ha.asList "drop" rfl).bind fun _ _ h =>
    (asCount_answers hb "drop" rfl).bind_eq fun n => .ok (.list (List.forall₂_drop n h))

theorem take_answers : Answers (L.Values) (take a b) (take a' b') :=
  (ha.asList "take" rfl).bind fun _ _ h =>
    (asCount_answers hb "take" rfl).bind_eq fun n => .ok (.list (List.forall₂_take n h))

omit ha in
theorem indexOf?_answers {vs vs' : List Value} (h : List.Forall₂ (L.Values) vs vs') :
    ∀ i, Answers Eq (indexOf? b i vs) (indexOf? b' i vs') := by
  induction h with
  | nil => intro i; exact .ok rfl
  | cons hv _ ih =>
    intro i
    refine (hv.equals hb).bind_eq fun same => ?_
    cases same
    · exact ih (i + 1)
    · exact .ok rfl

theorem minus_answers : Answers (L.Values) (minus a b) (minus a' b') := by
  refine (ha.asList "minus" rfl).bind fun vs vs' h => (indexOf?_answers hb h 0).bind_eq fun i => ?_
  cases i with
  | none => exact .ok (.list h)
  | some i =>
    refine .ok (.list ?_)
    rw [List.eraseIdx_eq_take_drop_succ, List.eraseIdx_eq_take_drop_succ]
    exact List.rel_append (List.forall₂_take i h) (List.forall₂_drop (i + 1) h)

theorem concat_answers : Answers (L.Values) (concat a b) (concat a' b') := by
  have joined : Answers (L.Values)
      (a.render >>= fun left => b.render >>= fun right => pure (.string (left ++ right)))
      (a'.render >>= fun left => b'.render >>= fun right => pure (.string (left ++ right))) :=
    ha.render.bind_eq fun _ => hb.render.bind_eq fun _ => .ok (.string _)
  cases ha with
  | list h =>
    refine hb.kind.bind_eq fun _ => ?_
    have added := Answers.ok (Values.list (List.rel_append h (.cons hb .nil)))
    cases hb with
    | list h' => exact .ok (.list (List.rel_append h h'))
    | _ => exact added
  | _ => exact joined

theorem range_answers : Answers (L.Values) (range a b) (range a' b') := by
  refine (ha.asIndex_whole "range" rfl).bind fun i i' hi => (hb.asIndex_whole "range" rfl).bind fun j j' hj => ?_
  obtain ⟨rfl, x, hx⟩ := hi
  obtain ⟨rfl, y, hy⟩ := hj
  dsimp only
  rw [mapM_ofInteger hx hy]
  refine .ok (.list ?_)
  rw [List.forall₂_map_left_iff, List.forall₂_map_right_iff]
  exact List.forall₂_same.mpr fun x _ => .number _

theorem fullMatch_answers : Answers (L.Values) (fullMatch a b) (fullMatch a' b') :=
  (ha.asRegex "match" rfl).bind_eq fun _ => (hb.asString "match" rfl).bind_eq fun _ => .ok (.bool _)

theorem split_answers : Answers (L.Values) (split a b) (split a' b') := by
  refine (ha.asRegex "split" rfl).bind_eq fun r => (hb.asString "split" rfl).bind_eq fun s => .ok (.list ?_)
  rw [List.forall₂_map_left_iff, List.forall₂_map_right_iff]
  exact List.forall₂_same.mpr fun x _ => .string x

theorem join_answers : Answers (L.Values) (join a b) (join a' b') :=
  (hb.asString "join" rfl).bind_eq fun _ => (ha.asList "join" rfl).bind fun _ _ h =>
    (Values.renderAll h []).bind_eq fun _ => .ok (.string _)

include hc

theorem slice_answers : Answers (L.Values) (slice a b c) (slice a' b' c') := by
  refine (ha.asList "slice" rfl).bind fun vs vs' h => ?_
  refine (hb.asIndex "slice" rfl).bind_eq fun i => (hc.asIndex "slice" rfl).bind_eq fun j => ?_
  rw [h.length_eq]
  split
  · exact .ok (.list .nil)
  · split
    · exact .fault rfl
    · exact .ok (.list (List.forall₂_take _ (List.forall₂_drop _ h)))

theorem replace_answers : Answers (L.Values) (replace a b c) (replace a' b' c') := by
  refine (ha.asRegex "replace" rfl).bind_eq fun r => (hc.asString "replace" rfl).bind_eq fun template => ?_
  cases hread : Regex.Template.read r.program template with
  | error e => exact .fault rfl
  | ok parts =>
    refine (hb.asString "replace" rfl).bind_eq fun s => ?_
    obtain ⟨es, -, hs⟩ := Regex.exists_substitute hread s
    rw [hs]
    exact .ok (.string _)

omit ha hb hc in
/-- A pure builtin, however functions are applied, is its answer. -/
theorem run_answers {b : Builtin} (hpure : b.isPure = true) {args args' : List Value}
    (hargs : List.Forall₂ L.Values args args') :
    ∃ x x', Answers L.Values x x' ∧
      ∀ compile apply, run compile apply b args = Eval.lift x ∧ run compile apply b args' = Eval.lift x' := by
  have given : ∀ {x x' : Except Fault Value}, Answers L.Values x x' →
      (∀ compile apply, run compile apply b args = Eval.lift x ∧ run compile apply b args' = Eval.lift x') →
      ∃ x x', Answers L.Values x x' ∧
        ∀ compile apply, run compile apply b args = Eval.lift x ∧ run compile apply b args' = Eval.lift x' :=
    fun hx hrun => ⟨_, _, hx, hrun⟩
  -- a number of arguments that the builtin does not take
  have other : Answers L.Values (.error (.of .extraneousArgument)) (.error (.of .extraneousArgument)) := .fault rfl
  have truth : ∀ {p q : Bool}, p = q → Answers L.Values (.ok (.bool p)) (.ok (.bool q)) := fun e => e ▸ .ok (.bool _)
  rcases hargs with _ | ⟨ha, _ | ⟨hb, _ | ⟨hc, _ | _⟩⟩⟩
  · cases b <;> exact given other fun _ _ => ⟨rfl, rfl⟩
  · cases b with
    | neg => exact given ((ha.asNumber "neg" rfl).bind_eq fun x => .ok (.number (-x))) fun _ _ => ⟨rfl, rfl⟩
    | not => exact given (truth (congrArg Bool.not ha.truthy)) fun _ _ => ⟨rfl, rfl⟩
    | toBool => exact given (truth ha.truthy) fun _ _ => ⟨rfl, rfl⟩
    | toNum => exact given (toNum_answers ha) fun _ _ => ⟨rfl, rfl⟩
    | toStr => exact given (ha.render.map fun _ _ e => e ▸ .string _) fun _ _ => ⟨rfl, rfl⟩
    | head => exact given (head_answers ha) fun _ _ => ⟨rfl, rfl⟩
    | tail => exact given (tail_answers ha) fun _ _ => ⟨rfl, rfl⟩
    | len => exact given (len_answers ha) fun _ _ => ⟨rfl, rfl⟩
    | reverse => exact given (reverse_answers ha) fun _ _ => ⟨rfl, rfl⟩
    | sort => exact given (sort_answers ha) fun _ _ => ⟨rfl, rfl⟩
    | global | regex | print | read => cases hpure
    | _ => exact given other fun _ _ => ⟨rfl, rfl⟩
  · cases b with
    | add => exact given (binaryNumber_answers ha hb "add" _ rfl) fun _ _ => ⟨rfl, rfl⟩
    | sub => exact given (binaryNumber_answers ha hb "sub" _ rfl) fun _ _ => ⟨rfl, rfl⟩
    | mul => exact given (binaryNumber_answers ha hb "mul" _ rfl) fun _ _ => ⟨rfl, rfl⟩
    | div => exact given (div_answers ha hb) fun _ _ => ⟨rfl, rfl⟩
    | mod => exact given (mod_answers ha hb) fun _ _ => ⟨rfl, rfl⟩
    | eq => exact given (equal_answers ha hb id) fun _ _ => ⟨rfl, rfl⟩
    | neq => exact given (equal_answers ha hb not) fun _ _ => ⟨rfl, rfl⟩
    | lt => exact given (compareNumbers_answers ha hb "lt" _ rfl) fun _ _ => ⟨rfl, rfl⟩
    | gt => exact given (compareNumbers_answers ha hb "gt" _ rfl) fun _ _ => ⟨rfl, rfl⟩
    | lte => exact given (compareNumbers_answers ha hb "lte" _ rfl) fun _ _ => ⟨rfl, rfl⟩
    | gte => exact given (compareNumbers_answers ha hb "gte" _ rfl) fun _ _ => ⟨rfl, rfl⟩
    | and => exact given (truth (congrArg₂ Bool.and ha.truthy hb.truthy)) fun _ _ => ⟨rfl, rfl⟩
    | or => exact given (truth (congrArg₂ Bool.or ha.truthy hb.truthy)) fun _ _ => ⟨rfl, rfl⟩
    | nth => exact given (nth_answers ha hb) fun _ _ => ⟨rfl, rfl⟩
    | plus => exact given (plus_answers ha hb) fun _ _ => ⟨rfl, rfl⟩
    | minus => exact given (minus_answers ha hb) fun _ _ => ⟨rfl, rfl⟩
    | drop => exact given (drop_answers ha hb) fun _ _ => ⟨rfl, rfl⟩
    | take => exact given (take_answers ha hb) fun _ _ => ⟨rfl, rfl⟩
    | concat => exact given (concat_answers ha hb) fun _ _ => ⟨rfl, rfl⟩
    | range => exact given (range_answers ha hb) fun _ _ => ⟨rfl, rfl⟩
    | fullMatch => exact given (fullMatch_answers ha hb) fun _ _ => ⟨rfl, rfl⟩
    | split => exact given (split_answers ha hb) fun _ _ => ⟨rfl, rfl⟩
    | join => exact given (join_answers ha hb) fun _ _ => ⟨rfl, rfl⟩
    | compose | map | filter | reduce | zip => cases hpure
    | _ => exact given other fun _ _ => ⟨rfl, rfl⟩
  · cases b with
    | slice => exact given (slice_answers ha hb hc) fun _ _ => ⟨rfl, rfl⟩
    | replace => exact given (replace_answers ha hb hc) fun _ _ => ⟨rfl, rfl⟩
    | foldl | foldr | zipWith => cases hpure
    | _ => exact given other fun _ _ => ⟨rfl, rfl⟩
  · cases b <;> exact given other fun _ _ => ⟨rfl, rfl⟩

end Likeness

end Curried
