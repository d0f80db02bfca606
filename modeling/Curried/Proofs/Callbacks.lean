/-
  Curried.Proofs.Callbacks — how a builtin ends that has all its arguments.

  A builtin has its arguments at hand, the items of those that are lists, and whatever the functions it has applied have
  returned (`Called`). It ends in a value, in a fault of its own, or as a function ended that it took from there and
  applied to something from there (`Failed`). Only compiling a regex can crash, and only if the compiler runs into a
  limit (`run_completes`).

  Arguments are taken one at a time, and nothing else happens before the last one: `applyAll_toValue`.
-/

import Curried.Catalogue.Standard
import Curried.Evaluator
import Curried.Proofs.Likeness.Library
import Curried.Proofs.Parts

namespace Curried

def Value.items : Value → List Value
  | .list vs => vs
  | _ => []

namespace Regex

def Compiler.Crashes (compile : Compiler) (source : String) (c : Crash) : Prop :=
  ∃ failure, compile source = .error failure ∧ Library.reasonOf source failure = .crashed c

/-- A compiler that fails only where it refuses a source or cannot count a repetition. -/
def Compiler.IsOrderly (compile : Compiler) : Prop :=
  ∀ source failure, compile source = .error failure → (∃ e, failure = .refused e) ∨ failure = .countTooLarge

def countOverflow : Crash := ⟨"OverflowError", "the repetition number is too large"⟩

theorem Compiler.Crashes.eq_countOverflow {compile : Compiler} {source : String} {c : Crash}
    (h : compile.Crashes source c) (ho : compile.IsOrderly) : c = countOverflow := by
  obtain ⟨failure, hcompile, hcrash⟩ := h
  rcases ho source failure hcompile with ⟨e, rfl⟩ | rfl
  · cases hcrash
  · cases hcrash
    rfl

end Regex

namespace Library

/-- Functions have been applied, one after the other, each taken from what was at hand when it was applied, to something
that was at hand; what they returned is at hand since. -/
inductive Called (apply : Value → Value → Eval Value) : List Value → Machine → List Value → Machine → Prop
  | refl {hand : List Value} {m : Machine} : Called apply hand m hand m
  | call {hand hand' : List Value} {m m₁ m₂ : Machine} {f v u : Value} : Called apply hand m hand' m₁ → f ∈ hand' →
      f.isFunction = true → v ∈ hand' → apply f v m₁ = .ok u m₂ → Called apply hand m (u :: hand') m₂

/-- The ways to end without a value: a fault that is given here, or the way in which a function ended. -/
inductive Failed (apply : Value → Value → Eval Value) (hand : List Value) (m : Machine) : Halt → Machine → Prop
  | own {hand' : List Value} {m' : Machine} {r : Reason} : Called apply hand m hand' m' → r.isOrdinary = true →
      Failed apply hand m (.fault (.of r)) m'
  | callback {hand' : List Value} {m₁ m' : Machine} {f v : Value} {x : Halt} : Called apply hand m hand' m₁ →
      f ∈ hand' → f.isFunction = true → v ∈ hand' → apply f v m₁ = .error x m' → Failed apply hand m x m'

def atHand (args : List Value) : List Value := args ++ args.flatMap Value.items

/-- How a builtin ends that has been given all its arguments. -/
inductive Completes (compile : Regex.Compiler) (apply : Value → Value → Eval Value) (b : Builtin) (args : List Value)
    (m : Machine) : EStateM.Result Halt Machine Value → Prop
  | value {v : Value} {m' : Machine} : Completes compile apply b args m (.ok v m')
  | failed {x : Halt} {m' : Machine} : Failed apply (atHand args) m x m' →
      Completes compile apply b args m (.error x m')
  | crash {pattern : String} {c : Crash} : b = .regex → args = [.string pattern] → compile.Crashes pattern c →
      Completes compile apply b args m (.error (.crash c) m)

variable {compile : Regex.Compiler} {apply : Value → Value → Eval Value} {hand hand' : List Value} {m m₁ m' : Machine}

theorem Called.subset (h : Called apply hand m hand' m') : hand ⊆ hand' := by
  induction h with
  | refl => exact List.Subset.refl _
  | call _ _ _ _ _ ih => exact List.subset_cons_of_subset _ ih

theorem Called.trans {hand'' : List Value} (h : Called apply hand m hand' m₁)
    (h' : Called apply hand' m₁ hand'' m') : Called apply hand m hand'' m' := by
  induction h' with
  | refl => exact h
  | call _ hf hfun hv hu ih => exact .call (ih h) hf hfun hv hu

theorem Failed.after {x : Halt} (h : Called apply hand m hand' m₁) (hx : Failed apply hand' m₁ x m') :
    Failed apply hand m x m' := by
  cases hx with
  | own hc hr => exact .own (h.trans hc) hr
  | callback hc hf hfun hv hx => exact .callback (h.trans hc) hf hfun hv hx

/-! ## Computations that apply what is at hand -/

variable {α β : Type}

inductive Ended (apply : Value → Value → Eval Value) (hand : List Value) (m : Machine) (Q : List Value → α → Prop) :
    EStateM.Result Halt Machine α → Prop
  | ok {hand' : List Value} {a : α} {m' : Machine} : Called apply hand m hand' m' → Q hand' a →
      Ended apply hand m Q (.ok a m')
  | failed {x : Halt} {m' : Machine} : Failed apply hand m x m' → Ended apply hand m Q (.error x m')

/-- A computation that applies only what is at hand, and of whose result something holds. -/
def Employs (apply : Value → Value → Eval Value) (hand : List Value) (Q : List Value → α → Prop) (x : Eval α) : Prop :=
  ∀ m, Ended apply hand m Q (x m)

abbrev IsAtHand (hand : List Value) (v : Value) : Prop := v ∈ hand

theorem Employs.pure {Q : List Value → α → Prop} {a : α} (h : Q hand a) : Employs apply hand Q (pure a) :=
  fun _ => .ok .refl h

theorem Employs.bind {Q : List Value → α → Prop} {Q' : List Value → β → Prop} {x : Eval α} {f : α → Eval β}
    (hx : Employs apply hand Q x)
    (hf : ∀ hand', hand ⊆ hand' → ∀ a, Q hand' a → Employs apply hand' Q' (f a)) :
    Employs apply hand Q' (x >>= f) := by
  intro m
  have hr := hx m
  show Ended apply hand m Q' (EStateM.bind x f m)
  unfold EStateM.bind
  generalize x m = r at hr
  cases hr with
  | failed hx => exact .failed hx
  | @ok hand₁ a m₁ hc ha =>
    have hrest := hf hand₁ hc.subset a ha m₁
    show Ended apply hand m Q' (f a m₁)
    generalize f a m₁ = r at hrest
    cases hrest with
    | ok hc' hb => exact .ok (hc.trans hc') hb
    | failed hx => exact .failed (.after hc hx)

theorem Employs.forget {Q : List Value → α → Prop} {x : Eval α} (hx : Employs apply hand Q x) :
    Employs apply hand (fun _ _ => True) x := by
  intro m
  have hr := hx m
  generalize x m = r at hr ⊢
  cases hr with
  | ok hc _ => exact .ok hc trivial
  | failed hx => exact .failed hx

theorem Employs.fault {Q : List Value → α → Prop} {r : Reason} (hr : r.isOrdinary = true) :
    Employs apply hand Q (Eval.fault r) :=
  fun _ => .failed (.own .refl hr)

/-- An answer, which is a fault only for an ordinary reason. -/
theorem Employs.lift {Q : List Value → α → Prop} {rel : α → β → Prop} {x : Except Fault α} {x' : Except Fault β}
    (h : Answers rel x x') (hQ : ∀ a, x = .ok a → Q hand a) : Employs apply hand Q (Eval.lift x) := by
  cases h with
  | @ok a _ _ => exact .pure (hQ a rfl)
  | fault hr =>
    rw [Eval.lift_fault hr]
    exact .fault hr

theorem Employs.mapM {f : α → Eval β} {xs : List α}
    (hf : ∀ hand', hand ⊆ hand' → ∀ x ∈ xs, Employs apply hand' (fun _ _ => True) (f x)) :
    Employs apply hand (fun _ _ => True) (xs.mapM f) := by
  induction xs generalizing hand with
  | nil => exact .pure trivial
  | cons x xs ih =>
    simp only [List.mapM_cons]
    refine (hf hand (List.Subset.refl _) x List.mem_cons_self).bind fun hand₁ h₁ _ _ => ?_
    have hrest := ih fun hand' h' y hy => hf hand' (List.Subset.trans h₁ h') y (List.mem_cons_of_mem _ hy)
    exact hrest.bind fun _ _ _ _ => .pure trivial

theorem Employs.foldlM {f : Value → α → Eval Value} {xs : List α}
    (hf : ∀ hand', hand ⊆ hand' → ∀ acc ∈ hand', ∀ x ∈ xs, Employs apply hand' IsAtHand (f acc x)) {acc : Value}
    (hacc : acc ∈ hand) : Employs apply hand IsAtHand (xs.foldlM f acc) := by
  induction xs generalizing hand acc with
  | nil => exact .pure hacc
  | cons x xs ih =>
    simp only [List.foldlM_cons]
    refine (hf hand (List.Subset.refl _) acc hacc x List.mem_cons_self).bind fun hand₁ h₁ acc' hacc' => ?_
    exact ih (fun hand' h' b hb y hy => hf hand' (List.Subset.trans h₁ h') b hb y (List.mem_cons_of_mem _ hy)) hacc'

theorem Employs.filterM {f : α → Eval Bool} {xs : List α}
    (hf : ∀ hand', hand ⊆ hand' → ∀ x ∈ xs, Employs apply hand' (fun _ _ => True) (f x)) :
    Employs apply hand (fun _ _ => True) (xs.filterM f) := by
  have loop : ∀ {xs : List α} {hand : List Value} (kept : List α),
      (∀ hand', hand ⊆ hand' → ∀ x ∈ xs, Employs apply hand' (fun _ _ => True) (f x)) →
      Employs apply hand (fun _ _ => True) (List.filterAuxM f xs kept) := by
    intro xs
    induction xs with
    | nil => exact fun _ _ => .pure trivial
    | cons x xs ih =>
      intro hand kept hf
      simp only [List.filterAuxM]
      refine (hf hand (List.Subset.refl _) x List.mem_cons_self).bind fun hand₁ h₁ _ _ => ?_
      exact ih _ fun hand' h' y hy => hf hand' (List.Subset.trans h₁ h') y (List.mem_cons_of_mem _ hy)
  exact (loop [] hf).bind fun _ _ _ _ => .pure trivial

/-! ## The builtins that apply functions -/

theorem asFunction_employs {f : Value} (hf : f ∈ hand) (name : String)
    (hname : Catalogue.standard.isRegistered name = true) :
    Employs apply hand (fun hand g => g ∈ hand ∧ g.isFunction = true) (Eval.lift (f.asFunction name)) := by
  refine .lift ((Likeness.same_self f).asFunction name hname) fun g hg => ?_
  unfold Value.asFunction at hg
  split at hg
  · rename_i hfun
    cases hg
    exact ⟨hf, hfun⟩
  · unfold Value.mismatch at hg
    cases hk : f.kind with
    | ok k => rw [hk] at hg; cases hg
    | error e => rw [hk] at hg; cases hg

theorem asList_employs {v : Value} (hv : v.items ⊆ hand) (name : String)
    (hname : Catalogue.standard.isRegistered name = true) :
    Employs apply hand (fun hand vs => vs ⊆ hand) (Eval.lift (v.asList name)) := by
  refine .lift ((Likeness.same_self v).asList name hname) fun vs hvs => ?_
  cases v with
  | list items => cases hvs; exact hv
  | foreign type => cases hvs
  | _ => cases hvs

theorem apply_employs {f v : Value} (hf : f ∈ hand) (hfun : f.isFunction = true) (hv : v ∈ hand) :
    Employs apply hand IsAtHand (apply f v) := by
  intro m
  cases hr : apply f v m with
  | ok u m' => exact .ok (.call .refl hf hfun hv hr) List.mem_cons_self
  | error x m' => exact .failed (.callback .refl hf hfun hv hr)

theorem applyAll_employs {f : Value} (hf : f ∈ hand) {vs : List Value} (hvs : vs ⊆ hand) :
    Employs apply hand IsAtHand (applyAll apply f vs) := by
  refine .foldlM (fun hand' h' g hg v hv => ?_) hf
  unfold applyNext
  split
  · rename_i hfun
    exact apply_employs hg hfun (h' (hvs hv))
  · exact .fault rfl

theorem compose_employs {v f : Value} (hv : v ∈ hand) (hf : f ∈ hand) :
    Employs apply hand IsAtHand (compose apply v f) :=
  (asFunction_employs hf "compose" rfl).bind fun _ h₁ _ hg => apply_employs hg.1 hg.2 (h₁ hv)

theorem map_employs {list f : Value} (hlist : list.items ⊆ hand) (hf : f ∈ hand) :
    Employs apply hand (fun _ _ => True) (map apply list f) := by
  refine (asFunction_employs hf "map" rfl).bind fun _ h₁ g hg => ?_
  refine (asList_employs (List.Subset.trans hlist h₁) "map" rfl).bind fun _ h₂ items hitems => ?_
  refine (Employs.mapM fun _ h' v hv => ?_).bind fun _ _ _ _ => .pure trivial
  exact (apply_employs (h' (h₂ hg.1)) hg.2 (h' (hitems hv))).forget

theorem filter_employs {list f : Value} (hlist : list.items ⊆ hand) (hf : f ∈ hand) :
    Employs apply hand (fun _ _ => True) (filter apply list f) := by
  refine (asFunction_employs hf "filter" rfl).bind fun _ h₁ g hg => ?_
  refine (asList_employs (List.Subset.trans hlist h₁) "filter" rfl).bind fun _ h₂ items hitems => ?_
  refine (Employs.filterM fun _ h' v hv => ?_).bind fun _ _ _ _ => .pure trivial
  exact (apply_employs (h' (h₂ hg.1)) hg.2 (h' (hitems hv))).bind fun _ _ _ _ => .pure trivial

/-- Applying a function of two arguments to a running value and the elements of a list in turn. -/
theorem fold_employs {g : Value} (hg : g ∈ hand) {args : Value → Value → List Value}
    (hargs : ∀ acc v, args acc v ⊆ [acc, v]) {acc : Value} (hacc : acc ∈ hand) {items : List Value}
    (hitems : items ⊆ hand) :
    Employs apply hand IsAtHand (items.foldlM (fun acc v => applyAll apply g (args acc v)) acc) := by
  refine .foldlM (fun hand' h' a ha v hv => applyAll_employs (h' hg) fun u hu => ?_) hacc
  rcases List.mem_cons.mp (hargs a v hu) with rfl | hu
  · exact ha
  · rw [List.mem_singleton.mp hu]
    exact h' (hitems hv)

theorem foldl_employs {initial f list : Value} (hinitial : initial ∈ hand) (hf : f ∈ hand)
    (hlist : list.items ⊆ hand) : Employs apply hand IsAtHand (foldl apply initial f list) := by
  refine (asFunction_employs hf "foldl" rfl).bind fun _ h₁ g hg => ?_
  refine (asList_employs (List.Subset.trans hlist h₁) "foldl" rfl).bind fun _ h₂ items hitems => ?_
  exact fold_employs (h₂ hg.1) (fun _ _ => List.Subset.refl _) (h₂ (h₁ hinitial)) hitems

theorem foldr_employs {initial f list : Value} (hinitial : initial ∈ hand) (hf : f ∈ hand)
    (hlist : list.items ⊆ hand) : Employs apply hand IsAtHand (foldr apply initial f list) := by
  refine (asFunction_employs hf "foldr" rfl).bind fun _ h₁ g hg => ?_
  refine (asList_employs (List.Subset.trans hlist h₁) "foldr" rfl).bind fun _ h₂ items hitems => ?_
  refine fold_employs (h₂ hg.1) (fun acc v u hu => ?_) (h₂ (h₁ hinitial)) fun v hv => hitems (List.mem_reverse.mp hv)
  simpa [or_comm] using hu

theorem reduce_employs {list f : Value} (hlist : list.items ⊆ hand) (hf : f ∈ hand) :
    Employs apply hand IsAtHand (reduce apply list f) := by
  refine (asFunction_employs hf "reduce" rfl).bind fun _ h₁ g hg => ?_
  refine (asList_employs (List.Subset.trans hlist h₁) "reduce" rfl).bind fun _ h₂ items hitems => ?_
  cases items with
  | nil => exact .fault rfl
  | cons v vs =>
    obtain ⟨hv, hvs⟩ := List.cons_subset.mp hitems
    exact fold_employs (h₂ hg.1) (fun _ _ => List.Subset.refl _) hv hvs

theorem zip_employs {functions list : Value} (hfunctions : functions.items ⊆ hand) (hlist : list.items ⊆ hand) :
    Employs apply hand (fun _ _ => True) (zip apply functions list) := by
  refine (asList_employs hfunctions "zip" rfl).bind fun _ h₁ fs hfs => ?_
  refine (asList_employs (List.Subset.trans hlist h₁) "zip" rfl).bind fun _ h₂ items hitems => ?_
  refine (Employs.mapM fun _ h' p hp => ?_).bind fun _ _ _ _ => .pure trivial
  obtain ⟨hf, hv⟩ := List.of_mem_zip hp
  refine (asFunction_employs (h' (h₂ (hfs hf))) "zip" rfl).bind fun _ h₃ g hg => ?_
  exact (apply_employs hg.1 hg.2 (h₃ (h' (hitems hv)))).forget

theorem zipWith_employs {list f other : Value} (hlist : list.items ⊆ hand) (hf : f ∈ hand)
    (hother : other.items ⊆ hand) : Employs apply hand (fun _ _ => True) (zipWith apply list f other) := by
  refine (asFunction_employs hf "zipWith" rfl).bind fun _ h₁ g hg => ?_
  refine (asList_employs (List.Subset.trans hlist h₁) "zipWith" rfl).bind fun _ h₂ left hleft => ?_
  have hother₂ := List.Subset.trans hother (List.Subset.trans h₁ h₂)
  refine (asList_employs hother₂ "zipWith" rfl).bind fun _ h₃ right hright => ?_
  refine (Employs.mapM fun _ h' p hp => ?_).bind fun _ _ _ _ => .pure trivial
  obtain ⟨ha, hb⟩ := List.of_mem_zip hp
  refine (applyAll_employs (h' (h₃ (h₂ hg.1))) ?_).forget
  exact List.cons_subset.mpr ⟨h' (h₃ (hleft ha)), List.cons_subset.mpr ⟨h' (hright hb), List.nil_subset _⟩⟩

/-! ## All builtins -/

theorem global_employs (v : Value) : Employs apply hand (fun _ _ => True) (global v) :=
  (Employs.lift (Q := fun _ _ => True) ((Likeness.same_self v).asString "global" rfl) fun _ _ => trivial).bind
    fun _ _ _ _ _ => .ok .refl trivial

theorem mem_and_items_atHand {args : List Value} (v : Value) (h : v ∈ args) :
    v ∈ atHand args ∧ v.items ⊆ atHand args :=
  ⟨List.mem_append_left _ h, fun _ hu => List.mem_append_right _ (List.mem_flatMap.mpr ⟨v, h, hu⟩)⟩

/-- What a builtin does, whatever it is given: only `print` and `read` change the machine by themselves, and only
`regex` uses the compiler. All others apply what is at hand, if anything. -/
theorem run_cases {P : Eval Value → Prop} (b : Builtin) (args : List Value)
    (employs : ∀ {Q x}, Employs apply (atHand args) Q x → P x)
    (print : ∀ v, b = .print → args = [v] → P (print v)) (read : b = .read → P read)
    (regex : ∀ v, b = .regex → args = [v] → P (Eval.lift (regex compile v))) : P (run compile apply b args) := by
  cases hpure : b.isPure with
  | true =>
    have hargs : List.Forall₂ (Likeness.same fun _ => True).Values args args :=
      List.forall₂_same.mpr fun v _ => Likeness.same_self v
    obtain ⟨x, x', hx, hrun⟩ := Likeness.run_answers hpure hargs
    rw [(hrun compile apply).1]
    exact employs (Q := fun _ _ => True) (.lift hx fun _ _ => trivial)
  | false =>
    have other : P (Eval.fault .extraneousArgument) := employs (Q := fun _ _ => True) (.fault rfl)
    match args with
    | [] => cases b <;> exact other
    | [v] =>
      cases b with
      | global => exact employs (global_employs v)
      | regex => exact regex v rfl rfl
      | print => exact print v rfl rfl
      | read => exact read rfl
      | compose | map | foldl | foldr | filter | reduce | zip | zipWith => exact other
      | _ => cases hpure
    | [u, v] =>
      have hhand : ∀ x ∈ [u, v], x ∈ atHand [u, v] ∧ x.items ⊆ atHand [u, v] := mem_and_items_atHand
      obtain ⟨hu, hus⟩ := hhand u (by simp)
      obtain ⟨hv, hvs⟩ := hhand v (by simp)
      cases b with
      | compose => exact employs (compose_employs hu hv)
      | map => exact employs (map_employs hus hv)
      | filter => exact employs (filter_employs hus hv)
      | reduce => exact employs (reduce_employs hus hv)
      | zip => exact employs (zip_employs hus hvs)
      | global | regex | print | read | foldl | foldr | zipWith => exact other
      | _ => cases hpure
    | [u, v, w] =>
      have hhand : ∀ x ∈ [u, v, w], x ∈ atHand [u, v, w] ∧ x.items ⊆ atHand [u, v, w] := mem_and_items_atHand
      obtain ⟨hu, hus⟩ := hhand u (by simp)
      obtain ⟨hv, -⟩ := hhand v (by simp)
      obtain ⟨-, hws⟩ := hhand w (by simp)
      cases b with
      | foldl => exact employs (foldl_employs hu hv hws)
      | foldr => exact employs (foldr_employs hu hv hws)
      | zipWith => exact employs (zipWith_employs hus hv hws)
      | global | regex | print | read | compose | map | filter | reduce | zip => exact other
      | _ => cases hpure
    | _ :: _ :: _ :: _ :: _ => cases b <;> exact other

/-! ## How they end -/

theorem Employs.completes {Q : List Value → Value → Prop} {x : Eval Value} {b : Builtin} {args : List Value}
    (h : Employs apply (atHand args) Q x) (m : Machine) : Completes compile apply b args m (x m) := by
  have hr := h m
  generalize x m = r at hr ⊢
  cases hr with
  | ok => exact .value
  | failed hx => exact .failed hx

theorem print_completes (v : Value) (b : Builtin) (args : List Value) (m : Machine) :
    Completes compile apply b args m (print v m) := by
  have hx := (Likeness.same_self v).render
  show Completes compile apply b args m (EStateM.bind (Eval.lift v.render) _ m)
  unfold EStateM.bind
  generalize v.render = x at hx ⊢
  cases hx with
  | ok => exact .value
  | fault hr =>
    rw [Eval.lift_fault hr]
    exact .failed (.own .refl hr)

theorem regex_completes (v : Value) (m : Machine) :
    Completes compile apply .regex [v] m (Eval.lift (regex compile v) m) := by
  unfold regex
  have hs := (Likeness.same_self v).asString "regex" rfl
  cases hsource : v.asString "regex" with
  | error e =>
    rw [hsource] at hs
    cases hs with
    | fault hr =>
      show Completes compile apply .regex [v] m (Eval.lift (.error _) m)
      rw [Eval.lift_fault hr]
      exact .failed (.own .refl hr)
  | ok source =>
    have hv : v = .string source := by
      cases v with
      | string s => cases hsource; rfl
      | foreign type => cases hsource
      | _ => cases hsource
    subst hv
    dsimp only [bind, Except.bind]
    cases hc : compile source with
    | ok r => exact .value
    | error failure =>
      cases failure with
      | refused e => exact .failed (.own .refl rfl)
      | countTooLarge | tooManyDigits | clashingFlags => exact .crash rfl rfl ⟨_, hc, rfl⟩

/-- Whatever a builtin is given, it ends in a value, in a fault of its own or as a function that it applied; only the
compiler of regexes can crash. -/
theorem run_completes (b : Builtin) (args : List Value) (m : Machine) :
    Completes compile apply b args m (run compile apply b args m) := by
  refine run_cases (P := fun x => Completes compile apply b args m (x m)) b args ?_ ?_ ?_ ?_
  · intro Q x hx
    exact hx.completes m
  · rintro v rfl rfl
    exact print_completes v _ _ m
  · rintro rfl
    exact .value
  · rintro v rfl rfl
    exact regex_completes v m

/-! ## Taking the arguments -/

def collecting (m : Machine) (n : Nat) : Machine := { m with nextId := m.nextId + n }

theorem applyNative_waits (h : Host) {name : String} {arity : Nat} {code : Primitive} {collected : List Value}
    {v : Value} (hlt : (collected ++ [v]).length < arity) (m : Machine) :
    Evaluator.applyNative apply h name arity code collected v m =
      .ok (.native m.nextId name arity code (collected ++ [v])) (collecting m 1) := by
  unfold Evaluator.applyNative
  rw [if_pos hlt]
  rfl

/-- A builtin takes its arguments one after the other and computes when it has the last one. -/
theorem applyAll_native (h : Host) (k : Nat) {id : Nat} {name : String} {arity : Nat} {b : Builtin}
    {collected args : List Value} (hargs : args ≠ []) (harity : (collected ++ args).length = arity) (m : Machine) :
    applyAll (Curried.apply h (k + 1)) (.native id name arity (.standard b) collected) args m =
      run h.compile (Curried.apply h k) b (collected ++ args) (collecting m (args.length - 1)) := by
  induction args generalizing id collected m with
  | nil => exact absurd rfl hargs
  | cons v args ih =>
    show EStateM.bind (Curried.apply h (k + 1) (.native id name arity (.standard b) collected) v)
      (applyAll (Curried.apply h (k + 1)) · args) m = _
    rw [Curried.apply]
    show EStateM.bind (Evaluator.applyNative (Curried.apply h k) h name arity (.standard b) collected v) _ m = _
    unfold EStateM.bind
    cases args with
    | nil =>
      have hlast : ¬ (collected ++ [v]).length < arity := by omega
      have hnone : collecting m ([v].length - 1) = m := rfl
      unfold Evaluator.applyNative
      rw [if_neg hlast, hnone]
      dsimp only
      cases run h.compile (Curried.apply h k) b (collected ++ [v]) m <;> rfl
    | cons w rest =>
      have hmore : (collected ++ [v]).length < arity := by
        simp only [List.length_append, List.length_cons, List.length_nil] at harity ⊢
        omega
      rw [applyNative_waits h hmore]
      have hlength : (collected ++ [v] ++ w :: rest).length = arity := by
        rw [List.append_assoc]
        exact harity
      refine (ih (List.cons_ne_nil _ _) hlength (collecting m 1)).trans ?_
      rw [List.append_assoc]
      unfold collecting
      dsimp only [List.length_cons]
      congr 2
      omega

theorem applyAll_toValue {d : Definition} {b : Builtin} (hcode : d.code = .standard b) {args : List Value}
    (hargs : args ≠ []) (harity : args.length = d.parameters.length) (h : Host) (k id : Nat) (m : Machine) :
    applyAll (Curried.apply h (k + 1)) (d.toValue id) args m =
      run h.compile (Curried.apply h k) b args (collecting m (args.length - 1)) := by
  unfold Definition.toValue
  rw [hcode]
  have harity' : ([] ++ args).length = d.parameters.length := harity
  exact applyAll_native h k hargs harity' m

end Library

end Curried
