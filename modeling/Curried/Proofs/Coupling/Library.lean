/-
  Curried.Proofs.Coupling.Library — the builtin functions respect every coupling.

  A builtin that applies functions, given two ways to apply them that correspond, makes computations that do; with
  those that compute their answer from their arguments alone this is `run_runs`.
-/

import Curried.Proofs.Coupling
import Curried.Proofs.Likeness.Library

namespace Curried.Coupling

open Library Likeness

variable {C : Coupling} {w : C.World}

def Applies (C : Coupling) (w : C.World) (apply apply' : Value → Value → Eval Value) : Prop :=
  ∀ w', C.later w w' → ∀ f f' v v', C.Values w' f f' → C.Values w' v v' → C.Runs w' C.Values (apply f v) (apply' f' v')

section

variable {h h' : Host} (hC : C.Steps h h')
include hC

theorem Applies.mono {apply apply' : Value → Value → Eval Value} (ha : C.Applies w apply apply') {w' : C.World}
    (hw : C.later w w') : C.Applies w' apply apply' :=
  fun u hu => ha u (hC.trans hw hu)

theorem fault_runs {α β : Type} {rel : C.World → α → β → Prop} {r : Reason} (hr : r.isOrdinary = true) :
    C.Runs w rel (Eval.fault r) (Eval.fault r) :=
  fun w' _ _ _ hm => .halt (hC.refl w') (hC.fault hr hm)

/-- An answer that corresponds, as a computation. -/
theorem value_runs {x y : Except Fault Value} (ha : Answers (C.Values w) x y) :
    C.Runs w C.Values (Eval.lift x) (Eval.lift y) :=
  .lift (fun hw hv => hv.mono (hC.like hw)) hC.toWorlds (fun _ _ _ hr _ _ hm => hC.fault hr hm) ha

theorem asFunction_runs {f f' : Value} (hf : C.Values w f f') (name : String)
    (hname : Catalogue.standard.isRegistered name = true) :
    C.Runs w C.Values (Eval.lift (f.asFunction name)) (Eval.lift (f'.asFunction name)) :=
  value_runs hC (hf.asFunction name hname)

theorem asList_runs {v v' : Value} (hv : C.Values w v v') (name : String)
    (hname : Catalogue.standard.isRegistered name = true) :
    C.Runs w (fun w => List.Forall₂ (C.Values w)) (Eval.lift (v.asList name)) (Eval.lift (v'.asList name)) := by
  refine .lift ?_ hC.toWorlds (fun _ _ _ hr _ _ hm => hC.fault hr hm) (hv.asList name hname)
  intro w w' vs vs' hw hs
  exact Values.monoAll (hC.like hw) hs

/-- Collecting what a computation makes of each element. -/
theorem collect_runs {α β : Type} {S : α → β → Prop} {f : α → Eval Value} {g : β → Eval Value} {xs : List α}
    {ys : List β} (hf : ∀ a b, S a b → C.Runs w C.Values (f a) (g b)) (hxy : List.Forall₂ S xs ys) :
    C.Runs w C.Values (do return .list (← xs.mapM f)) (do return .list (← ys.mapM g)) :=
  .bind hC.toWorlds (.mapM hC.toWorlds (fun hw hv => hv.mono (hC.like hw)) hf hxy) fun _ _ _ _ hvs =>
    .value hC.toWorlds (.list hvs)

variable {apply apply' : Value → Value → Eval Value} (happ : C.Applies w apply apply')
include happ

theorem applyNext_runs {f f' v v' : Value} (hf : C.Values w f f') (hv : C.Values w v v') :
    C.Runs w C.Values (applyNext apply f v) (applyNext apply' f' v') := by
  unfold applyNext
  rw [← hf.isFunction]
  split
  · exact happ w (hC.refl w) _ _ _ _ hf hv
  · exact fault_runs hC rfl

theorem applyAll_runs {f f' : Value} {vs vs' : List Value} (hf : C.Values w f f')
    (hvs : List.Forall₂ (C.Values w) vs vs') : C.Runs w C.Values (applyAll apply f vs) (applyAll apply' f' vs') := by
  refine .foldlM hC.toWorlds (fun hw hv => hv.mono (hC.like hw)) (fun w' hw v v' hv g g' hg => ?_) hvs hf
  exact applyNext_runs hC (happ.mono hC hw) hg (hv.mono (hC.like hw))

/-- Applying a function of two arguments to a running value and the elements of a list in turn. -/
theorem fold_runs {f f' : Value} (hf : C.Values w f f') {args : Value → Value → List Value}
    (hargs : ∀ {w' : C.World} {u u' v v'}, C.Values w' u u' → C.Values w' v v' →
      List.Forall₂ (C.Values w') (args u v) (args u' v'))
    {vs vs' : List Value} (hvs : List.Forall₂ (C.Values w) vs vs') {u u' : Value} (hu : C.Values w u u') :
    C.Runs w C.Values (vs.foldlM (fun acc v => applyAll apply f (args acc v)) u)
      (vs'.foldlM (fun acc v => applyAll apply' f' (args acc v)) u') := by
  refine .foldlM hC.toWorlds (fun hw hv => hv.mono (hC.like hw)) (fun w' hw v v' hv acc acc' hacc => ?_) hvs hu
  exact applyAll_runs hC (happ.mono hC hw) (hf.mono (hC.like hw)) (hargs hacc (hv.mono (hC.like hw)))

theorem compose_runs {v v' f f' : Value} (hv : C.Values w v v') (hf : C.Values w f f') :
    C.Runs w C.Values (compose apply v f) (compose apply' v' f') :=
  .bind hC.toWorlds (asFunction_runs hC hf "compose" rfl) fun w₁ hw₁ _ _ hg =>
    happ w₁ hw₁ _ _ _ _ hg (hv.mono (hC.like hw₁))

theorem map_runs {v v' f f' : Value} (hv : C.Values w v v') (hf : C.Values w f f') :
    C.Runs w C.Values (map apply v f) (map apply' v' f') := by
  refine .bind hC.toWorlds (asFunction_runs hC hf "map" rfl) fun w₁ hw₁ g g' hg => ?_
  refine .bind hC.toWorlds (asList_runs hC (hv.mono (hC.like hw₁)) "map" rfl) fun w₂ hw₂ vs vs' hvs => ?_
  have hg₂ := hg.mono (hC.like hw₂)
  exact collect_runs hC (fun u u' hu => happ w₂ (hC.trans hw₁ hw₂) _ _ _ _ hg₂ hu) hvs

theorem filter_runs {v v' f f' : Value} (hv : C.Values w v v') (hf : C.Values w f f') :
    C.Runs w C.Values (filter apply v f) (filter apply' v' f') := by
  refine .bind hC.toWorlds (asFunction_runs hC hf "filter" rfl) fun w₁ hw₁ g g' hg => ?_
  refine .bind hC.toWorlds (asList_runs hC (hv.mono (hC.like hw₁)) "filter" rfl) fun w₂ hw₂ vs vs' hvs => ?_
  have hg₂ := hg.mono (hC.like hw₂)
  refine .bind hC.toWorlds (.filterM hC.toWorlds (fun u u' hu => ?_) hvs) fun w₃ hw₃ us us' hus => ?_
  · refine .bind hC.toWorlds (happ w₂ (hC.trans hw₁ hw₂) _ _ _ _ hg₂ hu) fun _ _ r r' hr => ?_
    exact .pure hC.toWorlds fun _ _ => hr.truthy
  · exact .value hC.toWorlds (.list (Values.monoAll (hC.like hw₃) hus))

theorem foldl_runs {u u' f f' v v' : Value} (hu : C.Values w u u') (hf : C.Values w f f') (hv : C.Values w v v') :
    C.Runs w C.Values (foldl apply u f v) (foldl apply' u' f' v') := by
  refine .bind hC.toWorlds (asFunction_runs hC hf "foldl" rfl) fun w₁ hw₁ g g' hg => ?_
  refine .bind hC.toWorlds (asList_runs hC (hv.mono (hC.like hw₁)) "foldl" rfl) fun w₂ hw₂ vs vs' hvs => ?_
  have hw := hC.trans hw₁ hw₂
  exact fold_runs hC (happ.mono hC hw) (hg.mono (hC.like hw₂)) (fun ha hb => .cons ha (.cons hb .nil)) hvs
    (hu.mono (hC.like hw))

theorem foldr_runs {u u' f f' v v' : Value} (hu : C.Values w u u') (hf : C.Values w f f') (hv : C.Values w v v') :
    C.Runs w C.Values (foldr apply u f v) (foldr apply' u' f' v') := by
  refine .bind hC.toWorlds (asFunction_runs hC hf "foldr" rfl) fun w₁ hw₁ g g' hg => ?_
  refine .bind hC.toWorlds (asList_runs hC (hv.mono (hC.like hw₁)) "foldr" rfl) fun w₂ hw₂ vs vs' hvs => ?_
  have hw := hC.trans hw₁ hw₂
  exact fold_runs hC (happ.mono hC hw) (hg.mono (hC.like hw₂)) (fun ha hb => .cons hb (.cons ha .nil))
    (List.rel_reverse hvs) (hu.mono (hC.like hw))

theorem reduce_runs {v v' f f' : Value} (hv : C.Values w v v') (hf : C.Values w f f') :
    C.Runs w C.Values (reduce apply v f) (reduce apply' v' f') := by
  refine .bind hC.toWorlds (asFunction_runs hC hf "reduce" rfl) fun w₁ hw₁ g g' hg => ?_
  refine .bind hC.toWorlds (asList_runs hC (hv.mono (hC.like hw₁)) "reduce" rfl) fun w₂ hw₂ vs vs' hvs => ?_
  cases hvs with
  | nil => exact fault_runs hC rfl
  | cons hu hvs =>
    exact fold_runs hC (happ.mono hC (hC.trans hw₁ hw₂)) (hg.mono (hC.like hw₂))
      (fun ha hb => .cons ha (.cons hb .nil)) hvs hu

theorem zip_runs {fs fs' v v' : Value} (hfs : C.Values w fs fs') (hv : C.Values w v v') :
    C.Runs w C.Values (zip apply fs v) (zip apply' fs' v') := by
  refine .bind hC.toWorlds (asList_runs hC hfs "zip" rfl) fun w₁ hw₁ gs gs' hgs => ?_
  refine .bind hC.toWorlds (asList_runs hC (hv.mono (hC.like hw₁)) "zip" rfl) fun w₂ hw₂ vs vs' hvs => ?_
  refine collect_runs hC (fun p q hpq => ?_) (forall₂_zip (Values.monoAll (hC.like hw₂) hgs) hvs)
  refine .bind hC.toWorlds (asFunction_runs hC hpq.1 "zip" rfl) fun w₃ hw₃ g g' hg => ?_
  exact happ w₃ (hC.trans hw₁ (hC.trans hw₂ hw₃)) _ _ _ _ hg (hpq.2.mono (hC.like hw₃))

theorem zipWith_runs {v v' f f' u u' : Value} (hv : C.Values w v v') (hf : C.Values w f f') (hu : C.Values w u u') :
    C.Runs w C.Values (zipWith apply v f u) (zipWith apply' v' f' u') := by
  refine .bind hC.toWorlds (asFunction_runs hC hf "zipWith" rfl) fun w₁ hw₁ g g' hg => ?_
  refine .bind hC.toWorlds (asList_runs hC (hv.mono (hC.like hw₁)) "zipWith" rfl) fun w₂ hw₂ vs vs' hvs => ?_
  have hw := hC.trans hw₁ hw₂
  refine .bind hC.toWorlds (asList_runs hC (hu.mono (hC.like hw)) "zipWith" rfl) fun w₃ hw₃ us us' hus => ?_
  refine collect_runs hC (fun p q hpq => ?_) (forall₂_zip (Values.monoAll (hC.like hw₃) hvs) hus)
  exact applyAll_runs hC (happ.mono hC (hC.trans hw hw₃)) (hg.mono (hC.like (hC.trans hw₂ hw₃)))
    (.cons hpq.1 (.cons hpq.2 .nil))

omit happ

theorem global_runs {v v' : Value} (hv : C.Values w v v') : C.Runs w C.Values (global v) (global v') := by
  have hname : C.Runs w (fun _ => Eq) (Eval.lift (v.asString "global")) (Eval.lift (v'.asString "global")) :=
    .lift (fun _ e => e) hC.toWorlds (fun _ _ _ hr _ _ hm => hC.fault hr hm) (hv.asString "global" rfl)
  refine .bind hC.toWorlds hname fun w₁ _ n n' e => ?_
  subst e
  refine .gets fun w₂ _ m m' hm => ?_
  refine .ok (hC.refl w₂) hm ?_
  have hr := hC.global hm n
  generalize m.store.lookup? m.globals n = x, m'.store.lookup? m'.globals n = y at hr
  cases hr with
  | none => exact .nil
  | some hv => exact hv

theorem print_runs {v v' : Value} (hv : C.Values w v v') : C.Runs w C.Values (print v) (print v') := by
  have htext : C.Runs w (fun _ => Eq) (Eval.lift v.render) (Eval.lift v'.render) :=
    .lift (fun _ e => e) hC.toWorlds (fun _ _ _ hr _ _ hm => hC.fault hr hm) hv.render
  refine .bind hC.toWorlds htext fun w₁ _ text text' e => ?_
  subst e
  refine .bind hC.toWorlds (.modify fun w₂ _ m m' hm => hC.write hm (text ++ "\n")) fun w₃ _ _ _ _ => ?_
  exact .value hC.toWorlds .nil

omit hC in
theorem read_runs (hC : C.Laws h h') : C.Runs w C.Values read read := by
  have hline : C.Runs w (fun _ => Eq) (modifyGet Machine.readLine) (modifyGet Machine.readLine) :=
    .modifyGet fun _ _ _ _ hm => hC.readLine hm
  refine .bind hC.toWorlds hline fun w₁ _ line line' e => ?_
  subst e
  cases line with
  | none => exact .value hC.toWorlds .nil
  | some s => exact .value hC.toWorlds (.string s)

theorem regex_runs {v v' : Value} (hv : C.Values w v v') :
    C.Runs w C.Values (Eval.lift (regex h.compile v)) (Eval.lift (regex h'.compile v')) := by
  intro w' _ m m' hm
  unfold regex
  have hs := hv.asString "regex" rfl
  generalize v.asString "regex" = x, v'.asString "regex" = y at hs
  cases hs with
  | fault hr =>
    refine .halt (hC.refl w') ?_
    rw [Halt.ofFault_of hr]
    exact hC.fault hr hm
  | @ok source _ e =>
    subst e
    dsimp only [bind, Except.bind]
    cases hc : h.compile source with
    | ok r =>
      rw [(hC.accept source r).mp hc]
      exact .ok (hC.refl w') hm (.regex r)
    | error failure =>
      cases hc' : h'.compile source with
      | ok r => cases hc.symm.trans ((hC.accept source r).mpr hc')
      | error failure' => exact .halt (hC.refl w') (hC.refuse hc hc' hm)

include happ

theorem run_runs (b : Builtin) (hread : b = .read → C.Runs w C.Values read read) {args args' : List Value}
    (hargs : List.Forall₂ (C.Values w) args args') :
    C.Runs w C.Values (run h.compile apply b args) (run h'.compile apply' b args') := by
  cases hpure : b.isPure with
  | true =>
    obtain ⟨x, x', hx, hrun⟩ := run_answers hpure hargs
    rw [(hrun h.compile apply).1, (hrun h'.compile apply').2]
    exact value_runs hC hx
  | false =>
    have other : C.Runs w C.Values (Eval.fault .extraneousArgument) (Eval.fault .extraneousArgument) :=
      fault_runs hC rfl
    rcases hargs with _ | ⟨ha, _ | ⟨hb, _ | ⟨hc, _ | _⟩⟩⟩
    · cases b <;> exact other
    · cases b with
      | global => exact global_runs hC ha
      | regex => exact regex_runs hC ha
      | print => exact print_runs hC ha
      | read => exact hread rfl
      | compose | map | foldl | foldr | filter | reduce | zip | zipWith => exact other
      | _ => cases hpure
    · cases b with
      | compose => exact compose_runs hC happ ha hb
      | map => exact map_runs hC happ ha hb
      | filter => exact filter_runs hC happ ha hb
      | reduce => exact reduce_runs hC happ ha hb
      | zip => exact zip_runs hC happ ha hb
      | global | regex | print | read | foldl | foldr | zipWith => exact other
      | _ => cases hpure
    · cases b with
      | foldl => exact foldl_runs hC happ ha hb hc
      | foldr => exact foldr_runs hC happ ha hb hc
      | zipWith => exact zipWith_runs hC happ ha hb hc
      | global | regex | print | read | compose | map | filter | reduce | zip => exact other
      | _ => cases hpure
    · cases b <;> exact other

end

end Curried.Coupling
